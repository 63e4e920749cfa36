import CHttp.NewlineMsg
import CHttp.TcpStream

/-! `MsgStream` in the newline configuration, and the machine it makes with its client, the
run loop and the socket. Every function of the source ends in at most one call that leaves
the library, so a function here returns the stream and that call. -/
namespace CHttp

/-- The functions that the two layers post to the run loop. -/
inductive StreamPosted where
  | postableRead
  | postableTryWrite
  deriving DecidableEq, Repr

/-- The call that a function ends in. `κ` names the client's callbacks. -/
inductive StreamCall (κ : Type) where
  | returned
  | read
  | write
  | post (f : StreamPosted)
  | readCallback (cb : κ) (msg : Option NewLineMsg) (error : ℤ)
  | writeCallback (cb : κ) (error : ℤ)
  deriving DecidableEq, Repr

/-- `MsgStream_s`. A callback and its argument are one field; NULL is `none`. -/
structure MsgStream (κ : Type) where
  tcp : TcpStream
  parser : NewLineMsgParser
  readCb : Option κ
  inputBuffer : Option IOBuffer
  inputMessageList : List NewLineMsg
  outputBuffer : Option IOBuffer
  writeCb : Option κ
  deriving DecidableEq, Repr

section functions

variable {κ : Type}

def msgStreamInit (κ : Type) (malloced : TcpStream) : Res (MsgStream κ) := do
  let parser ← newlineMsgParserNew
  .ok ⟨tcpStreamInit malloced, parser, none, none, [], none, none⟩

def msgInvokeReadCallback (m : MsgStream κ) (newMsg : Option NewLineMsg) (error : ℤ) :
    Res (MsgStream κ × StreamCall κ) :=
  match m.readCb with
  | none => .error .nullPointer
  | some cb => .ok ({ m with readCb := none }, .readCallback cb newMsg error)

/-- `try_read` of the message reader: a `tcp_read` into the stream's own buffer. -/
def msgTryRead (m : MsgStream κ) : Res (MsgStream κ × StreamCall κ) :=
  match m.inputBuffer with
  | none => .error .nullPointer
  | some iob => do
    let (tcp, reading) ← tcpRead m.tcp iob
    .ok ({ m with tcp := tcp }, if reading then .read else .returned)

/-- The input buffer, which the first read allocates. -/
def msgInputBuffer (m : MsgStream κ) : Res IOBuffer :=
  match m.inputBuffer with
  | none => iobufferNew
  | some iob => .ok iob

def msgStreamRead (m : MsgStream κ) (cb : κ) : Res (MsgStream κ × StreamCall κ) := do
  cAssert m.readCb.isNone "msg_stream->read_cb == NULL"
  let iob ← msgInputBuffer m
  let m := { m with inputBuffer := some iob, readCb := some cb }
  match m.inputMessageList with
  | msg :: rest => msgInvokeReadCallback { m with inputMessageList := rest } (some msg) 0
  | [] => msgTryRead m

def newMessageCallback (list : List NewLineMsg) (newMsg : NewLineMsg) (error : ℤ) :
    List NewLineMsg :=
  if error = 0 then list ++ [newMsg] else list

def msgTcpReadCallback (m : MsgStream κ) (error : ℤ) : Res (MsgStream κ × StreamCall κ) :=
  if error = 0 then
    match m.inputBuffer with
    | none => .error .nullPointer
    | some iob => do
      cAssert (iobufferDataLen iob ≠ 0) "IOBuffer_data_len(msg_stream_ref->input_buffer) != 0"
      let (parser, iob, list) ←
        newlineMsgParserConsume newMessageCallback m.parser iob m.inputMessageList
      cAssert (iobufferDataLen iob = 0) "IOBuffer_data_len(msg_stream_ref->input_buffer) == 0"
      let m := { m with parser := parser, inputBuffer := some iob }
      match list with
      | msg :: rest => msgInvokeReadCallback { m with inputMessageList := rest } (some msg) error
      | [] => .ok ({ m with inputMessageList := [] }, .post .postableRead)
  else msgInvokeReadCallback m none error

/-- `read` has returned to `try_read`. -/
def msgReadReturns (m : MsgStream κ) (r : TcpReadResult) : Res (MsgStream κ × StreamCall κ) :=
  match m.inputBuffer with
  | none => .error .nullPointer
  | some iob => do
    let (tcp, iob, called) ← tcpReadReturns m.tcp iob r
    let m := { m with tcp := tcp, inputBuffer := some iob }
    match called with
    | some error => msgTcpReadCallback m error
    | none => .ok (m, .returned)

def msgReadReady (m : MsgStream κ) : Res (MsgStream κ × StreamCall κ) := do
  let (tcp, reading) ← readReadyCallback m.tcp
  .ok ({ m with tcp := tcp }, if reading then .read else .returned)

def msgInvokeWriteCallback (m : MsgStream κ) (error : ℤ) : Res (MsgStream κ × StreamCall κ) :=
  match m.writeCb with
  | none => .error .nullPointer
  | some wcb => .ok ({ m with writeCb := none }, .writeCallback wcb error)

def msgStreamWrite (m : MsgStream κ) (msg : NewLineMsg) (writeCb : κ) :
    Res (MsgStream κ × StreamCall κ) := do
  cAssert m.writeCb.isNone "msg_stream_ref->write_cb == NULL"
  cAssert m.writeCb.isNone "msg_stream_ref->write_cb_arg == NULL"
  cAssert m.outputBuffer.isNone "msg_stream_ref->output_buffer == NULL"
  let iob ← newlineMsgSerialize msg
  let tcp ← tcpWrite m.tcp
  .ok ({ m with tcp := tcp, outputBuffer := some iob, writeCb := some writeCb }, .write)

def msgTcpWriteCallback (m : MsgStream κ) (error : ℤ) : Res (MsgStream κ × StreamCall κ) :=
  msgInvokeWriteCallback { m with outputBuffer := none } error

/-- `write` has returned to `try_write`. -/
def msgWriteReturns (m : MsgStream κ) (r : TcpWriteResult) : Res (MsgStream κ × StreamCall κ) :=
  match m.outputBuffer with
  | none => .error .nullPointer
  | some iob => do
    let (tcp, iob, next) ← tcpWriteReturns m.tcp iob r
    let m := { m with tcp := tcp, outputBuffer := some iob }
    match next with
    | .callback error => msgTcpWriteCallback m error
    | .post => .ok (m, .post .postableTryWrite)
    | .stall => .ok (m, .returned)

def msgRunPosted (m : MsgStream κ) : StreamPosted → Res (MsgStream κ × StreamCall κ)
  | .postableRead => msgTryRead m
  | .postableTryWrite => do
    tcpTryWrite m.tcp
    .ok (m, .write)

/-- The data that `try_write` passes to `write`. -/
def msgOutput (m : MsgStream κ) : List Cell := (m.outputBuffer.map iobufferData).getD []

/-- The room that `try_read` offers to `read`. -/
def msgRoom (m : MsgStream κ) : ℤ := (m.inputBuffer.map iobufferSpaceLen).getD 0

end functions

/-- A read callback's invocation. -/
structure Delivery where
  cb : ℕ
  msg : Option NewLineMsg
  error : ℤ
  deriving DecidableEq, Repr

/-- A message stream with its client, which names its calls by numbers, the posted
functions, the peer's bytes, and the history. `outputs` are the texts of the messages
handed to `msg_stream_write`. -/
structure StreamWorld where
  stream : MsgStream ℕ
  call : StreamCall ℕ
  posted : List StreamPosted
  incoming : Bytes
  received : Bytes
  reads : List ℕ
  delivered : List Delivery
  writes : List ℕ
  completed : List ℕ
  outputs : List (List Cell)
  written : List Cell
  deriving DecidableEq, Repr

def StreamWorld.init (m : MsgStream ℕ) (peer : Bytes) : StreamWorld where
  stream := m
  call := .returned
  posted := []
  incoming := peer
  received := []
  reads := []
  delivered := []
  writes := []
  completed := []
  outputs := []
  written := []

inductive StreamEvent where
  | read (cb : ℕ)
  | write (cb : ℕ) (msg : NewLineMsg)
  | readReturns (r : TcpReadResult)
  | writeReturns (r : TcpWriteResult)
  | runPosted (f : StreamPosted)
  | readReady
  deriving DecidableEq, Repr

/-- The thread is neither in `read` nor in `write`. Since nothing follows a callback in the
library, the client can be in one or the run loop can have control. -/
def StreamWorld.Free (w : StreamWorld) : Prop := w.call ≠ .read ∧ w.call ≠ .write

instance (w : StreamWorld) : Decidable w.Free :=
  inferInstanceAs (Decidable (w.call ≠ .read ∧ w.call ≠ .write))

/-- The client starts a read once its previous read has completed, and likewise a write.
`read` delivers the next bytes of the peer, as many as there is room for at most. A
readiness event comes only while a `tcp_read` is pending. -/
def StreamWorld.Enabled (w : StreamWorld) : StreamEvent → Prop
  | .read cb => w.Free ∧ (∀ i ∈ w.reads, i ∈ w.delivered.map Delivery.cb) ∧ cb ∉ w.reads
  | .write cb _ => w.Free ∧ (∀ i ∈ w.writes, i ∈ w.completed) ∧ cb ∉ w.writes
  | .readReturns (.bytes d) => w.call = .read ∧ d ≠ [] ∧ d <+: w.incoming ∧
      (d.length : ℤ) ≤ msgRoom w.stream
  | .readReturns _ => w.call = .read
  | .writeReturns (.wrote n) => w.call = .write ∧ 0 < n ∧ n ≤ (msgOutput w.stream).length
  | .writeReturns _ => w.call = .write
  | .runPosted f => w.Free ∧ f ∈ w.posted
  | .readReady => w.Free ∧ w.stream.tcp.reader.inputBuffer = true ∧
      w.stream.tcp.reader.readCb = true

theorem StreamWorld.call_of_writeReturns {w : StreamWorld} {r : TcpWriteResult}
    (he : w.Enabled (.writeReturns r)) : w.call = .write := by
  cases r with
  | wrote n => exact he.1
  | nothing errno => exact he
  | eagain => exact he
  | failed errno => exact he

theorem StreamWorld.call_of_readReturns {w : StreamWorld} {r : TcpReadResult}
    (he : w.Enabled (.readReturns r)) : w.call = .read := by
  cases r with
  | bytes d => exact he.1
  | eof errno => exact he
  | eagain => exact he
  | failed errno => exact he

instance StreamWorld.decidableEnabled (w : StreamWorld) (e : StreamEvent) :
    Decidable (w.Enabled e) :=
  match e with
  | .read cb => inferInstanceAs (Decidable
      (w.Free ∧ (∀ i ∈ w.reads, i ∈ w.delivered.map Delivery.cb) ∧ cb ∉ w.reads))
  | .write cb _ => inferInstanceAs (Decidable
      (w.Free ∧ (∀ i ∈ w.writes, i ∈ w.completed) ∧ cb ∉ w.writes))
  | .readReturns (.bytes d) => inferInstanceAs (Decidable
      (w.call = .read ∧ d ≠ [] ∧ d <+: w.incoming ∧ (d.length : ℤ) ≤ msgRoom w.stream))
  | .readReturns (.eof _) | .readReturns .eagain | .readReturns (.failed _) =>
    inferInstanceAs (Decidable (w.call = .read))
  | .writeReturns (.wrote n) => inferInstanceAs (Decidable
      (w.call = .write ∧ 0 < n ∧ n ≤ (msgOutput w.stream).length))
  | .writeReturns (.nothing _) | .writeReturns .eagain | .writeReturns (.failed _) =>
    inferInstanceAs (Decidable (w.call = .write))
  | .runPosted f => inferInstanceAs (Decidable (w.Free ∧ f ∈ w.posted))
  | .readReady => inferInstanceAs (Decidable (w.Free ∧ w.stream.tcp.reader.inputBuffer = true ∧
      w.stream.tcp.reader.readCb = true))

/-- The world after a function of the library: its last call enters the history. -/
def StreamWorld.after (w : StreamWorld) (r : MsgStream ℕ × StreamCall ℕ) : StreamWorld :=
  { w with
    stream := r.1
    call := r.2
    posted := match r.2 with
      | .post f => w.posted ++ [f]
      | _ => w.posted
    delivered := match r.2 with
      | .readCallback cb msg error => w.delivered ++ [⟨cb, msg, error⟩]
      | _ => w.delivered
    completed := match r.2 with
      | .writeCallback cb _ => w.completed ++ [cb]
      | _ => w.completed }

def TcpReadResult.data : TcpReadResult → Bytes
  | .bytes d => d
  | _ => []

def StreamWorld.exec (w : StreamWorld) : StreamEvent → Res StreamWorld
  | .read cb => do
    let r ← msgStreamRead w.stream cb
    .ok ({ w with reads := w.reads ++ [cb] }.after r)
  | .write cb msg => do
    let r ← msgStreamWrite w.stream msg cb
    .ok ({ w with writes := w.writes ++ [cb], outputs := w.outputs ++ [msgOutput r.1] }.after r)
  | .readReturns result => do
    let r ← msgReadReturns w.stream result
    .ok ({ w with
      incoming := w.incoming.drop result.data.length
      received := w.received ++ result.data }.after r)
  | .writeReturns result => do
    let r ← msgWriteReturns w.stream result
    .ok ({ w with
      written := w.written ++ (msgOutput w.stream).take result.count }.after r)
  | .runPosted f => do
    let r ← msgRunPosted w.stream f
    .ok ({ w with posted := w.posted.erase f }.after r)
  | .readReady => do
    let r ← msgReadReady w.stream
    .ok (w.after r)

def streamMachine : Machine StreamWorld StreamEvent Fault := ⟨StreamWorld.Enabled, StreamWorld.exec⟩

instance streamMachine.decidableEnabled (w : StreamWorld) (e : StreamEvent) :
    Decidable (streamMachine.enabled w e) :=
  inferInstanceAs (Decidable (w.Enabled e))

end CHttp
