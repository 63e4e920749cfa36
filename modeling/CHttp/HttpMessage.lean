import CHttp.Cbuffer
import CHttp.BufferChain
import CHttp.Llhttp

namespace CHttp

/-- `toupper` in the C locale. -/
def toupper (c : UInt8) : UInt8 := if 97 ≤ c ∧ c ≤ 122 then c-32 else c

/-- `KVPair_s`: both strings are stored with their length and a NUL behind them. -/
structure KVPair where
  label : Bytes
  value : Bytes
  deriving DecidableEq, Repr

/-- `KVPair_new` upper-cases the label and copies the value. -/
def kvpairNew (lab val : Bytes) : KVPair := ⟨lab.map toupper, val⟩

def hdrListAddCbuf (this : List KVPair) (key value : Cbuffer) : List KVPair :=
  this ++ [kvpairNew key.data value.data]

/-- What malloc left in the fields of a message that `http_message_new` does not set. -/
structure MessageMem where
  isRequest : Bool
  statusCode : ℤ
  method : LlhttpMethod
  deriving DecidableEq, Repr

/-- `HttpMessage_s`. -/
structure HttpMessage where
  body : Option BufferChain
  headers : List KVPair
  majorVers : ℤ
  minorVers : ℤ
  isRequest : Bool
  statusCode : ℤ
  reason : Cbuffer
  method : LlhttpMethod
  target : Cbuffer
  deriving DecidableEq

def httpMessageNew (mem : MessageMem) : HttpMessage where
  body := none
  headers := []
  majorVers := 1
  minorVers := 1
  isRequest := mem.isRequest
  statusCode := mem.statusCode
  reason := cbufferNew
  method := mem.method
  target := cbufferNew

def httpMessageAddHeaderCbuf (this : HttpMessage) (key value : Cbuffer) : HttpMessage :=
  { this with headers := hdrListAddCbuf this.headers key value }

/-- `http_message_set_version` ignores the major version. -/
def httpMessageSetVersion (this : HttpMessage) (_maj minor : ℕ) : HttpMessage :=
  { this with minorVers := minor }

section setters

variable (append : Cbuffer → Bytes → Res Cbuffer)

/-- Both `_cbuffer` setters: the field has to be empty, and takes the C string. -/
def setOnce (old new : Cbuffer) (expr : String) : Res Cbuffer := do
  cAssert (cbufferSize old = 0) expr
  let s ← cbufferCstr new
  cbufferAppendCstr append old s

def httpMessageSetTargetCbuffer (this : HttpMessage) (target : Cbuffer) : Res HttpMessage := do
  let t ← setOnce append this.target target
    "(this->target != NULL) && (Cbuffer_size(this->target) == 0)"
  .ok { this with target := t }

def httpMessageSetReasonCbuffer (this : HttpMessage) (reason : Cbuffer) : Res HttpMessage := do
  let r ← setOnce append this.reason reason
    "(this->reason != NULL) && (Cbuffer_size(this->reason) == 0)"
  .ok { this with reason := r }

end setters

/-- The body field of a message stands for the cells `d`; without a chain there are none. -/
def BodyHolds (b : Option BufferChain) (d : List Cell) : Prop :=
  (b.getD bufferChainNew).Holds d

def HttpMessage.bodyContent (m : HttpMessage) : List Cell :=
  bufferChainContent (m.body.getD bufferChainNew)

theorem cstr_cstr (b : Bytes) : cstr (cstr b) = cstr b := by
  rw [cstr_eq_self_iff]
  intro h
  simpa using (List.mem_takeWhile_imp h)

section setOnce

variable {append : Cbuffer → Bytes → Res Cbuffer} {room : ℕ → ℕ → Prop}

/-- An unset field takes the text if it has room for it. -/
theorem setOnce_okIff (happ : Appends append room) (old new : Cbuffer) (expr : String)
    (ho : old.data = []) (ht : new.terminated = true) :
    OkIff (setOnce append old new expr) (fun c => c.data = cstr new.data)
      (old.sizes.Takes room (cstr new.data)) := by
  have hset : setOnce append old new expr = append old (cstr new.data) := by
    simp only [setOnce, cbufferSize, ho, List.length_nil, decide_true, cAssert_true, ok_bind,
      cbufferCstr, ht, ↓reduceIte, cbufferAppendCstr, cstr_cstr]
  rw [hset]
  refine (happ old (cstr new.data)).imp fun c hc => ?_
  rw [hc.data, ho, List.nil_append]

theorem setOnce_fail (old new : Cbuffer) (expr : String) (ho : old.data ≠ []) :
    setOnce append old new expr = .error (.assertion expr) := by
  have h : ¬(old.data.length = 0) := by simpa using ho
  simp only [setOnce, cbufferSize, h, decide_false, cAssert_false, error_bind]

end setOnce

end CHttp
