import CHttp.IOBuffer

/-! Messages framed by STX and ETX: `DemoMsg`, its serializer and the parser that is fed
one block of input after another. A failed assertion ends the program but not what the
callback was given before, so the parser returns its result beside the callback's argument. -/
namespace CHttp

def chStx : UInt8 := 0x02

def chEtx : UInt8 := 0x03

/-- `isprint` in the C locale. -/
def isprint (ch : UInt8) : Bool := 0x20 ≤ ch && ch ≤ 0x7e

structure DemoMsg where
  body : IOBuffer
  deriving DecidableEq, Repr

def demoBodyCapacity : ℕ := 1024

def demoMsgNew : Res DemoMsg := do
  let body ← iobufferNewWithCapacity demoBodyCapacity
  .ok ⟨body⟩

def demoMsgGetBody (this : DemoMsg) : IOBuffer := this.body

def demoMsgSetBody (this : DemoMsg) (iob : IOBuffer) : DemoMsg := { this with body := iob }

/-- The format `"\02%s\03"`. -/
def demoMsgSerialize (mref : DemoMsg) : Res IOBuffer := do
  let iob ← iobufferNewWithCapacity (cInt (iobufferDataLen mref.body+64))
  let text ← iobufferCstr mref.body
  iobufferSprintf iob (chStx :: text ++ [chEtx])

inductive DemoParserState where
  | idle | sohWait | opcode | stxWait | body | extWait | lrc | eotWait | errorRecovery
  deriving DecidableEq, Repr

structure DemoMsgParser where
  mState : DemoParserState
  mCurrentMessagePtr : Option DemoMsg
  deriving DecidableEq, Repr

def demoMsgParserNew : DemoMsgParser := ⟨.idle, none⟩

/-- What follows a call that returned; `σ` is kept also if it did not. -/
def andThen {α β σ : Type} (r : Res α × σ) (f : α → σ → Res β × σ) : Res β × σ :=
  match r.1 with
  | .error e => (.error e, r.2)
  | .ok a => f a r.2

section consume

variable {σ : Type} (cb : σ → DemoMsg → ℤ → σ)

/-- `case STATE_BODY`. -/
def demoParserBody (parser : DemoMsgParser) (ch : UInt8) (arg : σ) : Res DemoMsgParser × σ :=
  match parser.mCurrentMessagePtr with
  | none => (.error .nullPointer, arg)
  | some msg =>
    if isprint ch then
      (do let body ← iobufferCommitPushBack (demoMsgGetBody msg) (some ch)
          .ok { parser with mCurrentMessagePtr := some (demoMsgSetBody msg body) }, arg)
    else if ch = chEtx then
      (do let fresh ← demoMsgNew
          .ok ⟨.idle, some fresh⟩, cb arg msg 0)
    -- the message keeps what it has of the broken frame
    else (.ok { parser with mState := .errorRecovery }, arg)

/-- `case STATE_ERROR_RECOVERY`. The message is only replaced at the end of a block, and an
STX there is not seen as the start of a frame. -/
def demoParserRecovery (parser : DemoMsgParser) (last : Bool) (ch : UInt8) : Res DemoMsgParser :=
  if ch = chStx ∧ last = false then .ok { parser with mState := .body }
  else if last then do
    let fresh ← demoMsgNew
    .ok { parser with mCurrentMessagePtr := some fresh }
  else .ok parser

/-- The `switch`; `last` is `i == length - 1`. -/
def demoParserChar (parser : DemoMsgParser) (last : Bool) (ch : UInt8) (arg : σ) :
    Res DemoMsgParser × σ :=
  match parser.mState with
  | .idle => (.ok { parser with mState := if ch = chStx then .body else .idle }, arg)
  | .body => demoParserBody cb parser ch arg
  | .errorRecovery => (demoParserRecovery parser last ch, arg)
  | _ => (.error (.assertion "false"), arg)

/-- The character of a turn, read through the buffer and again through the pointer that
was taken before the loop. -/
def demoNextChar (charbuf i : ℕ) (iobufferRef : IOBuffer) : Res (UInt8 × IOBuffer) := do
  let ch2 ← arrayRead iobufferRef.mem iobufferRef.bufferPtr
  let iobufferRef ← iobufferConsume iobufferRef 1
  let ch ← arrayRead iobufferRef.mem (charbuf+i)
  cAssert (ch = ch2) "ch == ch2"
  .ok (ch, iobufferRef)

/-- The last `n` turns of the loop. -/
def demoParserLoop (charbuf length : ℕ) :
    ℕ → DemoMsgParser → IOBuffer → σ → Res (DemoMsgParser × IOBuffer) × σ
  | 0, parser, iobufferRef, arg => (.ok (parser, iobufferRef), arg)
  | n+1, parser, iobufferRef, arg =>
    match demoNextChar charbuf (length-(n+1)) iobufferRef with
    | .error e => (.error e, arg)
    | .ok (ch, iobufferRef) =>
      andThen (demoParserChar cb parser (n = 0) ch arg) fun parser arg =>
        demoParserLoop charbuf length n parser iobufferRef arg

def demoCurrentMessage (parser : DemoMsgParser) : Res DemoMsg :=
  match parser.mCurrentMessagePtr with
  | none => demoMsgNew
  | some msg => .ok msg

/-- What precedes the loop. -/
def demoParserStart (parser : DemoMsgParser) (length : ℕ) : Res DemoMsgParser := do
  let msg ← demoCurrentMessage parser
  cAssert (length ≠ 0) "length != 0"
  .ok { parser with mCurrentMessagePtr := some msg }

def demoMsgParserConsume (parser : DemoMsgParser) (iobufferRef : IOBuffer) (arg : σ) :
    Res (DemoMsgParser × IOBuffer) × σ :=
  let length := iobufferDataLen iobufferRef
  andThen (demoParserStart parser length, arg) fun parser arg =>
    demoParserLoop cb iobufferRef.bufferPtr length length parser iobufferRef arg

/-- Blocks passed to one parser in turn; they are returned as the parser leaves them. -/
def demoMsgParserFeed : DemoMsgParser → List IOBuffer → σ →
    Res (DemoMsgParser × List IOBuffer) × σ
  | parser, [], arg => (.ok (parser, []), arg)
  | parser, iob :: iobs, arg =>
    andThen (demoMsgParserConsume cb parser iob arg) fun r arg =>
      andThen (demoMsgParserFeed r.1 iobs arg) fun s arg => (.ok (s.1, r.2 :: s.2), arg)

end consume

end CHttp
