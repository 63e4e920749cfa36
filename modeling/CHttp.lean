import CHttp.HttpParserResponses
import CHttp.HttpConnectionPipeline
import CHttp.HttpConnectionWrite
import CHttp.HttpServer
import CHttp.RoundTripRequest
import CHttp.IOBufferFifo
import CHttp.CbufferSlab
import CHttp.AsioStreamRead
import CHttp.AsioStreamWrite
import CHttp.EventfdQueue
import CHttp.BlockingQueue
import CHttp.RunloopOrder
import CHttp.RunloopDispatch
import CHttp.RunloopTimer
import CHttp.EchoMemory
import CHttp.EchoEnd
import CHttp.TcpReads
import CHttp.KqueueTimer
import CHttp.LinkedListRuns
import CHttp.IOBufferBounds
import CHttp.IOBufferSprintf
import CHttp.CbufferText
import CHttp.BufferChainEq
import CHttp.BufferChainSize
import CHttp.BufferChainContent
import CHttp.BufferChainCopy
import CHttp.NewlineRoundTrip
import CHttp.TcpWrites
import CHttp.FdTableScan
import CHttp.KqueueWatchers
import CHttp.TcpListener
import CHttp.EpollStream
import CHttp.ResponseTimes
import CHttp.TimerIntervals
import CHttp.HeaderList
import CHttp.HttpSyncSocket
import CHttp.BulkRelease
import CHttp.AsioAccept
import CHttp.EchoServer
import CHttp.ObjectHeap
import CHttp.MessageObjects
import CHttp.RequestCycle
import CHttp.Scanner
import CHttp.UrlParser
import CHttp.UrlBounds
import CHttp.UrlGrammar
import CHttp.UrlLayout
import CHttp.UrlPieces
import CHttp.UrlLanguage
import CHttp.Url
import CHttp.EchoRounds
import CHttp.EchoClosing
import CHttp.RankedRuns
import CHttp.VerifyClient
import CHttp.VerifyWorld
import CHttp.InterthreadPosts
import CHttp.QueueReads
import CHttp.SyncRequests
