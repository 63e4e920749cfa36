import CHttp.HttpMessage

/-! `HttpMessageParser`: the callbacks it installs in `llhttp` and what a sequence
of them does. A message allocated by the parser takes its unset fields from `mem`,
the contents malloc returns; `allocated` counts the allocations. Text is collected with
`append`, which is `cbufferAppend`, or `cbufferAppendBytes` for a parser whose buffers are seen
as byte strings. -/
namespace CHttp

inductive HeaderState where
  | nothing | field | value
  deriving DecidableEq, Repr

/-- `HttpMessageParser_s`. `handled` records the messages passed to
`on_message_handler`, oldest first. -/
structure HttpMessageParser where
  currentMessage : Option HttpMessage
  mHeaderState : HeaderState
  mUrlBuf : Cbuffer
  mStatusBuf : Cbuffer
  mNameBuf : Cbuffer
  mValueBuf : Cbuffer
  allocated : ℕ
  handled : List HttpMessage
  deriving DecidableEq

/-- `http_message_parser_new`: the message that `HttpParser_initialize` allocates
is dropped at once, and the four buffers are cleared. -/
def httpMessageParserNew : HttpMessageParser where
  currentMessage := none
  mHeaderState := .nothing
  mUrlBuf := cbufferClear cbufferNew
  mStatusBuf := cbufferClear cbufferNew
  mNameBuf := cbufferClear cbufferNew
  mValueBuf := cbufferClear cbufferNew
  allocated := 1
  handled := []

def HttpMessageParser.current (this : HttpMessageParser) : Res HttpMessage :=
  match this.currentMessage with
  | none => .error .nullPointer
  | some m => .ok m

section callbacks

variable (append : Cbuffer → Bytes → Res Cbuffer) (mem : ℕ → MessageMem)

def messageBeginCb (this : HttpMessageParser) : HttpMessageParser :=
  { this with
    currentMessage := some (httpMessageNew (mem this.allocated))
    mUrlBuf := cbufferClear this.mUrlBuf
    mStatusBuf := cbufferClear this.mStatusBuf
    mNameBuf := cbufferClear this.mNameBuf
    mValueBuf := cbufferClear this.mValueBuf
    allocated := this.allocated+1 }

def urlDataCb (this : HttpMessageParser) (text : Bytes) : Res HttpMessageParser := do
  let m ← this.current
  let b ← append this.mUrlBuf text
  .ok { this with currentMessage := some { m with isRequest := true }, mUrlBuf := b }

/-- Every fragment sets the reason again, and the setter wants it unset. -/
def statusDataCb (this : HttpMessageParser) (statusCode : ℕ) (text : Bytes) :
    Res HttpMessageParser := do
  let m ← this.current
  let b ← append this.mStatusBuf text
  let m ← httpMessageSetReasonCbuffer append { m with isRequest := false, statusCode := statusCode } b
  .ok { this with currentMessage := some m, mStatusBuf := b }

/-- The step both header callbacks share: a pending pair goes to the message. -/
def commitHeader (this : HttpMessageParser) : Res HttpMessageParser :=
  if cbufferSize this.mNameBuf ≠ 0 then do
    let m ← this.current
    .ok { this with
      currentMessage := some (httpMessageAddHeaderCbuf m this.mNameBuf this.mValueBuf)
      mNameBuf := cbufferClear this.mNameBuf
      mValueBuf := cbufferClear this.mValueBuf }
  else .ok this

def headerFieldDataCb (this : HttpMessageParser) (text : Bytes) : Res HttpMessageParser := do
  -- only a name that follows a value, or nothing, starts a new field
  let this ← match this.mHeaderState with
    | .nothing | .value => commitHeader this
    | .field => .ok this
  let b ← append this.mNameBuf text
  .ok { this with mNameBuf := b, mHeaderState := .field }

def headerValueDataCb (this : HttpMessageParser) (text : Bytes) : Res HttpMessageParser :=
  match this.mHeaderState with
  | .field => do
    let b ← append (cbufferClear this.mValueBuf) text
    .ok { this with mValueBuf := b, mHeaderState := .value }
  | .value => do
    let b ← append this.mValueBuf text
    .ok { this with mValueBuf := b, mHeaderState := .value }
  | .nothing => .error (.assertion "false")

def headersCompleteCb (this : HttpMessageParser) (httpMajor httpMinor : ℕ)
    (method : LlhttpMethod) : Res HttpMessageParser := do
  let this ← commitHeader this
  let m ← this.current
  let m := httpMessageSetVersion m httpMajor httpMinor
  -- a message without a URL is taken for a response
  if cbufferSize this.mUrlBuf = 0 then
    .ok { this with currentMessage := some m }
  else do
    let m ← httpMessageSetTargetCbuffer append { m with method := method } this.mUrlBuf
    .ok { this with currentMessage := some m }

def bodyDataCb (this : HttpMessageParser) (text : Bytes) : Res HttpMessageParser := do
  let m ← this.current
  let chain ← bufferChainAppend (m.body.getD bufferChainNew) (text.map some)
  .ok { this with currentMessage := some { m with body := some chain } }

/-- A pair still pending stays behind in the buffers. -/
def messageCompleteCb (this : HttpMessageParser) : Res HttpMessageParser := do
  let m ← this.current
  .ok { this with
    currentMessage := some (httpMessageNew (mem this.allocated))
    allocated := this.allocated+1
    handled := this.handled ++ [m] }

def parserCallback (this : HttpMessageParser) : Callback → Res HttpMessageParser
  | .messageBegin => .ok (messageBeginCb mem this)
  | .url text => urlDataCb append this text
  | .status code text => statusDataCb append this code text
  | .headerField text => headerFieldDataCb append this text
  | .headerValue text => headerValueDataCb append this text
  | .headersComplete major minor method => headersCompleteCb append this major minor method
  | .body text => bodyDataCb this text
  | .messageComplete => messageCompleteCb mem this

/-- What the parser has become after a sequence of callbacks. -/
def runCallbacks (this : HttpMessageParser) (cs : List Callback) : Res HttpMessageParser :=
  cs.foldlM (parserCallback append mem) this

end callbacks

/-- One header field as `llhttp` reports it: fragments of its name, at least one
byte in all, then at least one fragment of its value. -/
structure FieldFrags where
  name : List Bytes
  value : List Bytes
  name_ne : name.flatten ≠ []
  value_ne : value ≠ []

def FieldFrags.callbacks (f : FieldFrags) : List Callback :=
  f.name.map .headerField ++ f.value.map .headerValue

/-- The pair a field stands for. -/
def FieldFrags.pair (f : FieldFrags) : KVPair := kvpairNew f.name.flatten f.value.flatten

inductive StartLine where
  | request (url : List Bytes)
  | response (statusCode : ℕ) (reason : List Bytes)

def StartLine.callbacks : StartLine → List Callback
  | .request url => url.map .url
  | .response code reason => reason.map (.status code)

/-- A request has a non-empty URL; fragments of a reason are non-empty. -/
def StartLine.Ok : StartLine → Prop
  | .request url => url.flatten ≠ []
  | .response _ reason => ∀ f ∈ reason, f ≠ []

/-- One message as `llhttp` reports it, cut into fragments. A body fragment is
part of one input block, so it is not empty and its length is well inside `int`. -/
structure MessageFrags where
  start : StartLine
  httpMajor : ℕ
  httpMinor : ℕ
  method : LlhttpMethod
  headers : List FieldFrags
  body : List Bytes
  trailers : List FieldFrags
  start_ok : start.Ok
  body_ok : ∀ b ∈ body, b ≠ [] ∧ b.length+101 < 2^31

theorem noBody_ok : ∀ b ∈ ([] : List Bytes), b ≠ [] ∧ b.length+101 < 2^31 := by simp

def MessageFrags.callbacks (m : MessageFrags) : List Callback :=
  .messageBegin :: (m.start.callbacks ++ (m.headers.flatMap FieldFrags.callbacks ++
    (.headersComplete m.httpMajor m.httpMinor m.method :: (m.body.map .body ++
      (m.trailers.flatMap FieldFrags.callbacks ++ [.messageComplete])))))

end CHttp
