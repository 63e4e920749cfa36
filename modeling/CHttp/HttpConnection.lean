import CHttp.HttpSerialize

/-! `HttpConnection`. Its functions start stream operations, post to the run loop and
call their owner only as the last thing they do, so each returns the connection
together with the effects that follow. -/
namespace CHttp

inductive ReadState where
  | idle | active | stop
  deriving DecidableEq, Repr

inductive WriteState where
  | idle | active | stop
  deriving DecidableEq, Repr

/-- A function or argument pointer; `none` is NULL. -/
abbrev Pointer := Option ℕ

/-- The functions a connection posts to the run loop. -/
inductive ConnectionPost where
  | postableWriter | postableWriteCallCb
  deriving DecidableEq, Repr

inductive ConnectionEffect where
  | asioStreamRead (length : ℤ)
  | asioStreamWrite (buf : List Cell)
  | runloopPost (f : ConnectionPost)
  | readCb (msg : Option HttpMessage) (status : ℤ)
  | writeCb (status : ℤ)
  deriving DecidableEq

/-- `HttpConnection_s`. -/
structure HttpConnection where
  inputMessageList : List HttpMessage
  activeInputBuffer : Option IOBuffer
  activeOutputBuffer : Option IOBuffer
  readState : ReadState
  writeState : WriteState
  onWriteCb : Pointer
  onWriteCbArg : Pointer
  onReadCb : Pointer
  onReadCbArg : Pointer
  deriving DecidableEq

abbrev ConnectionStep := Res (HttpConnection × List ConnectionEffect)

/-- `read_buffer_size`, set once by `http_connection_init`. -/
def readBufferSize : ℕ := 1000

/-- `HttpConnectionErrCode_is_closed`. -/
def errCodeIsClosed : ℤ := -31

def httpConnectionInit : HttpConnection where
  inputMessageList := []
  activeInputBuffer := none
  activeOutputBuffer := none
  readState := .idle
  writeState := .idle
  onWriteCb := none
  onWriteCbArg := none
  onReadCb := none
  onReadCbArg := none

def callOnReadCb (cref : HttpConnection) (msg : Option HttpMessage) (status : ℤ) :
    ConnectionStep := do
  cAssert cref.onReadCb.isSome "cref->on_read_cb != NULL"
  cAssert cref.onReadCbArg.isSome "cref->on_read_cb_arg != NULL"
  .ok ({ cref with onReadCb := none, onReadCbArg := none }, [.readCb msg status])

def httpConnectionRead (cref : HttpConnection) (onHttpReadCb href : Pointer) :
    ConnectionStep := do
  cAssert onHttpReadCb.isSome "on_http_read_cb != NULL"
  cAssert (cref.readState = .idle) "cref->read_state == READ_STATE_IDLE"
  cAssert cref.activeInputBuffer.isNone "cref->active_input_buffer_ref == NULL"
  cAssert cref.onReadCb.isNone "cref->on_read_cb == NULL"
  cAssert cref.onReadCbArg.isNone "cref->on_read_cb_arg == NULL"
  let cref := { cref with onReadCb := onHttpReadCb, onReadCbArg := href }
  match cref.inputMessageList with
  | [] =>
    let iob ← iobufferNewWithCapacity readBufferSize
    cAssert (iobufferDataLen iob = 0) "IOBuffer_data_len(cref->active_input_buffer_ref) == 0"
    .ok ({ cref with readState := .active, activeInputBuffer := some iob },
      [.asioStreamRead (iobufferSpaceLen iob)])
  -- the state turns active here too, although no stream read is started
  | [msgref] => callOnReadCb { cref with inputMessageList := [], readState := .active } msgref 0
  | msgref :: rest => callOnReadCb { cref with inputMessageList := rest } msgref 0

/-- What `llhttp_execute` makes of one block: the messages it completes, in order,
and its error code. -/
structure Parsed where
  messages : List HttpMessage
  errno : LlhttpErrno

/-- `http_message_parser_consume_buffer`, seen from the buffer: it is consumed only
when there was no error. -/
def httpMessageParserConsumeBuffer (iob : IOBuffer) (errno : LlhttpErrno) : Res IOBuffer :=
  if errno = .ok then iobufferConsume iob (iobufferDataLen iob) else .ok iob

/-- `read_have_data_cb`. The parser hands its messages to
`on_parser_new_message_complete`, which queues them. -/
def readHaveDataCb (cref : HttpConnection) (bytesAvailable : ℤ) (parsed : Parsed) :
    ConnectionStep :=
  match cref.activeInputBuffer with
  | none => .error (.assertion "cref->active_input_buffer_ref != NULL")
  | some iob =>
    if bytesAvailable = 0 then callOnReadCb cref none (-1)
    else if bytesAvailable < 0 then callOnReadCb cref none (-2)
    else do
      let iob ← iobufferCommit iob bytesAvailable.toNat
      let iob ← httpMessageParserConsumeBuffer iob parsed.errno
      -- tested before the error code is looked at
      cAssert (iobufferDataLen iob = 0) "IOBuffer_data_len(cref->active_input_buffer_ref) == 0"
      let queue := cref.inputMessageList ++ parsed.messages
      let cref := { cref with activeInputBuffer := none, inputMessageList := queue }
      if parsed.errno = .ok then
        match queue with
        -- no message yet: neither a call nor another stream read
        | [] => .ok (cref, [])
        | msg :: rest => callOnReadCb { cref with inputMessageList := rest, readState := .idle } msg 0
      else callOnReadCb cref none parsed.errno.code

def callOnWriteCb (cref : HttpConnection) (status : ℤ) : ConnectionStep := do
  cAssert cref.onWriteCb.isSome "cref->on_write_cb != NULL"
  cAssert cref.onWriteCbArg.isSome "cref->on_write_cb_arg != NULL"
  .ok ({ cref with onWriteCb := none, onWriteCbArg := none }, [.writeCb status])

def httpConnectionWrite (cref : HttpConnection) (responseRef : Option HttpMessage)
    (onHttpWriteCb href : Pointer) : ConnectionStep :=
  match responseRef with
  | none => .error (.assertion "response_ref != NULL")
  | some response => do
    cAssert onHttpWriteCb.isSome "on_http_write_cb != NULL"
    cAssert (cref.writeState = .idle) "cref->write_state == WRITE_STATE_IDLE"
    cAssert cref.onWriteCb.isNone "cref->on_write_cb == NULL"
    cAssert cref.activeOutputBuffer.isNone "cref->active_output_buffer_ref == NULL"
    let iob ← httpMessageSerialize response
    let cref := { cref with
      onWriteCb := onHttpWriteCb
      onWriteCbArg := href
      writeState := .active
      activeOutputBuffer := some iob }
    -- the state was set just above, so this branch is dead
    if cref.writeState = .stop then callOnWriteCb cref errCodeIsClosed
    else .ok (cref, [.runloopPost .postableWriter])

def postableWriter (cref : HttpConnection) : ConnectionStep :=
  if cref.writeState = .stop then
    callOnWriteCb { cref with activeOutputBuffer := none } errCodeIsClosed
  else match cref.activeOutputBuffer with
    | none => .error (.assertion "cref->active_output_buffer_ref != NULL")
    | some iob => do
      cAssert (cref.writeState = .idle) "cref->write_state == WRITE_STATE_IDLE"
      .ok (cref, [.asioStreamWrite (iobufferData iob)])

/-- `writer_cb`. Its `status` is not looked at. -/
def writerCb (cref : HttpConnection) (bytesWritten _status : ℤ) : ConnectionStep :=
  match cref.activeOutputBuffer with
  | none => .error (.assertion "cref->active_output_buffer_ref != NULL")
  | some iob => do
    cAssert (0 < bytesWritten) "bytes_written > 0"
    let iob ← iobufferConsume iob bytesWritten.toNat
    if 0 < iobufferDataLen iob then
      .ok ({ cref with activeOutputBuffer := some iob }, [.runloopPost .postableWriter])
    else .ok ({ cref with activeOutputBuffer := none }, [.runloopPost .postableWriteCallCb])

def postableWriteCallCb (cref : HttpConnection) : ConnectionStep := callOnWriteCb cref 0

def ConnectionPost.call (cref : HttpConnection) : ConnectionPost → ConnectionStep
  | .postableWriter => CHttp.postableWriter cref
  | .postableWriteCallCb => CHttp.postableWriteCallCb cref

/-- A connection with its surroundings: the lengths and bytes of outstanding stream
operations, the posted functions in order, and the record of what the owner was
told and what the stream accepted. -/
structure ConnectionWorld where
  conn : HttpConnection
  reading : Option ℤ
  writing : Option (List Cell)
  posted : List ConnectionPost
  readCalls : List (Option HttpMessage × ℤ)
  writeCalls : List ℤ
  accepted : List Cell

def ConnectionWorld.init : ConnectionWorld := ⟨httpConnectionInit, none, none, [], [], [], []⟩

def ConnectionWorld.perform (w : ConnectionWorld) : ConnectionEffect → ConnectionWorld
  | .asioStreamRead length => { w with reading := some length }
  | .asioStreamWrite buf => { w with writing := some buf }
  | .runloopPost f => { w with posted := w.posted ++ [f] }
  | .readCb msg status => { w with readCalls := w.readCalls ++ [(msg, status)] }
  | .writeCb status => { w with writeCalls := w.writeCalls ++ [status] }

/-- The world after a function of the connection and its effects. -/
def ConnectionWorld.after (w : ConnectionWorld) (step : ConnectionStep) : Res ConnectionWorld := do
  let (conn, effects) ← step
  .ok (effects.foldl ConnectionWorld.perform { w with conn := conn })

inductive ConnectionEvent where
  | read (cb arg : Pointer)
  | write (response : Option HttpMessage) (cb arg : Pointer)
  | received (block : Bytes) (parsed : Parsed)
  | readEof
  | readFailed
  | written (n : ℕ)
  | writeFailed (status : ℤ)
  | runPosted

/-- The stream puts a block where `asio_stream_read` was told to. -/
def HttpConnection.receive (cref : HttpConnection) (block : Bytes) : Res HttpConnection :=
  match cref.activeInputBuffer with
  | none => .error .nullPointer
  | some iob => do
    let iob ← iobufferFillSpace iob (block.map some)
    .ok { cref with activeInputBuffer := some iob }

/-- Stream results come only while the operation is outstanding; the owner may call
at any time. -/
def ConnectionWorld.Enabled (w : ConnectionWorld) : ConnectionEvent → Prop
  | .read _ _ | .write _ _ _ => True
  | .received block _ => ∃ length, w.reading = some length ∧ 0 < block.length ∧ block.length ≤ length
  | .readEof | .readFailed => w.reading ≠ none
  | .written n => ∃ buf, w.writing = some buf ∧ 0 < n ∧ n ≤ buf.length
  | .writeFailed status => w.writing ≠ none ∧ status ≠ 0
  | .runPosted => w.posted ≠ []

instance ConnectionWorld.decidableEnabled (w : ConnectionWorld) (e : ConnectionEvent) :
    Decidable (w.Enabled e) :=
  match e with
  | .read _ _ | .write _ _ _ => inferInstanceAs (Decidable True)
  | .received block _ => inferInstanceAs (Decidable
      (∃ length ∈ w.reading, 0 < block.length ∧ (block.length : ℤ) ≤ length))
  | .readEof | .readFailed => inferInstanceAs (Decidable (w.reading ≠ none))
  | .written n => inferInstanceAs (Decidable (∃ buf ∈ w.writing, 0 < n ∧ n ≤ buf.length))
  | .writeFailed status => inferInstanceAs (Decidable (w.writing ≠ none ∧ status ≠ 0))
  | .runPosted => inferInstanceAs (Decidable (w.posted ≠ []))

def ConnectionWorld.exec (w : ConnectionWorld) : ConnectionEvent → Res ConnectionWorld
  | .read cb arg => w.after (httpConnectionRead w.conn cb arg)
  | .write response cb arg => w.after (httpConnectionWrite w.conn response cb arg)
  | .received block parsed =>
    ConnectionWorld.after { w with reading := none } do
      let conn ← w.conn.receive block
      readHaveDataCb conn block.length parsed
  | .readEof => ConnectionWorld.after { w with reading := none } (readHaveDataCb w.conn 0 ⟨[], .ok⟩)
  | .readFailed =>
    ConnectionWorld.after { w with reading := none } (readHaveDataCb w.conn (-1) ⟨[], .ok⟩)
  | .written n =>
    ConnectionWorld.after
      { w with writing := none, accepted := w.accepted ++ (w.writing.getD []).take n }
      (writerCb w.conn n 0)
  | .writeFailed status => ConnectionWorld.after { w with writing := none } (writerCb w.conn 0 status)
  | .runPosted =>
    match w.posted with
    | [] => .ok w
    | f :: rest => ConnectionWorld.after { w with posted := rest } (f.call w.conn)

def connectionMachine : Machine ConnectionWorld ConnectionEvent Fault :=
  ⟨ConnectionWorld.Enabled, ConnectionWorld.exec⟩

end CHttp
