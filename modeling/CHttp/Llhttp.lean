import CHttp.CMemory

/-! What the library uses of the vendored `llhttp`: its enumerations, and the
callbacks it makes with the parser fields they read. -/
namespace CHttp

/-- `llhttp_method`. -/
inductive LlhttpMethod where
  | delete | get | head | post | put | connect | options | trace | copy | lock | mkcol | move
  | propfind | proppatch | search | unlock | bind | rebind | unbind | acl | report | mkactivity
  | checkout | merge | msearch | notify | subscribe | unsubscribe | patch | purge | mkcalendar
  | link | unlink | source | pri | describe | announce | setup | play | pause | teardown
  | getParameter | setParameter | redirect | record | flush
  deriving DecidableEq, Repr

/-- `llhttp_method_name`. -/
def LlhttpMethod.name : LlhttpMethod → Bytes
  | .delete => ascii "DELETE"
  | .get => ascii "GET"
  | .head => ascii "HEAD"
  | .post => ascii "POST"
  | .put => ascii "PUT"
  | .connect => ascii "CONNECT"
  | .options => ascii "OPTIONS"
  | .trace => ascii "TRACE"
  | .copy => ascii "COPY"
  | .lock => ascii "LOCK"
  | .mkcol => ascii "MKCOL"
  | .move => ascii "MOVE"
  | .propfind => ascii "PROPFIND"
  | .proppatch => ascii "PROPPATCH"
  | .search => ascii "SEARCH"
  | .unlock => ascii "UNLOCK"
  | .bind => ascii "BIND"
  | .rebind => ascii "REBIND"
  | .unbind => ascii "UNBIND"
  | .acl => ascii "ACL"
  | .report => ascii "REPORT"
  | .mkactivity => ascii "MKACTIVITY"
  | .checkout => ascii "CHECKOUT"
  | .merge => ascii "MERGE"
  | .msearch => ascii "M-SEARCH"
  | .notify => ascii "NOTIFY"
  | .subscribe => ascii "SUBSCRIBE"
  | .unsubscribe => ascii "UNSUBSCRIBE"
  | .patch => ascii "PATCH"
  | .purge => ascii "PURGE"
  | .mkcalendar => ascii "MKCALENDAR"
  | .link => ascii "LINK"
  | .unlink => ascii "UNLINK"
  | .source => ascii "SOURCE"
  | .pri => ascii "PRI"
  | .describe => ascii "DESCRIBE"
  | .announce => ascii "ANNOUNCE"
  | .setup => ascii "SETUP"
  | .play => ascii "PLAY"
  | .pause => ascii "PAUSE"
  | .teardown => ascii "TEARDOWN"
  | .getParameter => ascii "GET_PARAMETER"
  | .setParameter => ascii "SET_PARAMETER"
  | .redirect => ascii "REDIRECT"
  | .record => ascii "RECORD"
  | .flush => ascii "FLUSH"

/-- `llhttp_errno`. -/
inductive LlhttpErrno where
  | ok | internal | strict | crExpected | lfExpected | unexpectedContentLength
  | unexpectedSpace | closedConnection | invalidMethod | invalidUrl | invalidConstant
  | invalidVersion | invalidHeaderToken | invalidContentLength | invalidChunkSize
  | invalidStatus | invalidEofState | invalidTransferEncoding | cbMessageBegin
  | cbHeadersComplete | cbMessageComplete | cbChunkHeader | cbChunkComplete | paused
  | pausedUpgrade | pausedH2Upgrade | user | cbUrlComplete | cbStatusComplete
  | cbMethodComplete | cbVersionComplete | cbHeaderFieldComplete | cbHeaderValueComplete
  | cbChunkExtensionNameComplete | cbChunkExtensionValueComplete | cbReset
  deriving DecidableEq, Repr

def LlhttpErrno.code : LlhttpErrno → ℤ
  | .ok => 0
  | .internal => 1
  | .strict => 2
  | .crExpected => 25
  | .lfExpected => 3
  | .unexpectedContentLength => 4
  | .unexpectedSpace => 30
  | .closedConnection => 5
  | .invalidMethod => 6
  | .invalidUrl => 7
  | .invalidConstant => 8
  | .invalidVersion => 9
  | .invalidHeaderToken => 10
  | .invalidContentLength => 11
  | .invalidChunkSize => 12
  | .invalidStatus => 13
  | .invalidEofState => 14
  | .invalidTransferEncoding => 15
  | .cbMessageBegin => 16
  | .cbHeadersComplete => 17
  | .cbMessageComplete => 18
  | .cbChunkHeader => 19
  | .cbChunkComplete => 20
  | .paused => 21
  | .pausedUpgrade => 22
  | .pausedH2Upgrade => 23
  | .user => 24
  | .cbUrlComplete => 26
  | .cbStatusComplete => 27
  | .cbMethodComplete => 32
  | .cbVersionComplete => 33
  | .cbHeaderFieldComplete => 28
  | .cbHeaderValueComplete => 29
  | .cbChunkExtensionNameComplete => 34
  | .cbChunkExtensionValueComplete => 35
  | .cbReset => 31

/-- A callback of `llhttp_settings_t` with its text, and with the fields of
`llhttp_t` that the library reads in it. Callbacks that only return 0 are left out. -/
inductive Callback where
  | messageBegin
  | url (text : Bytes)
  | status (statusCode : ℕ) (text : Bytes)
  | headerField (text : Bytes)
  | headerValue (text : Bytes)
  | headersComplete (httpMajor httpMinor : ℕ) (method : LlhttpMethod)
  | body (text : Bytes)
  | messageComplete
  deriving DecidableEq, Repr

end CHttp
