import CHttp.CMemory
import Mathlib.Data.Finset.Insert
import Mathlib.Data.Fintype.Pi

/-! `url_parser.c` in its strict configuration, which is the default. A loop of the source is
a recursion over the bytes it visits; the host and the port are read at the positions that
the record names, so a read outside the buffer is a fault. -/
namespace CHttp

/-- The table `normal_url_char`. The initialiser gives the first half, the rest is zero. -/
def normalUrlChar : List UInt8 :=
  [0, 0, 0, 0, 0 ||| 2 ||| 4 ||| 0 ||| 16 ||| 32 ||| 64 ||| 128, 255, 255, 127,
    255, 255, 255, 255, 255, 255, 255, 127]

/-- The macro `BIT_AT`. -/
def bitAt (a : List UInt8) (i : UInt8) : Bool := (a.getD (i >>> 3).toNat 0) &&& (1 <<< (i &&& 7)) ≠ 0

def lower (c : UInt8) : UInt8 := c ||| 0x20

def isAlpha (c : UInt8) : Bool := 97 ≤ lower c ∧ lower c ≤ 122

def isNum (c : UInt8) : Bool := 48 ≤ c ∧ c ≤ 57

def isAlphanum (c : UInt8) : Bool := isAlpha c || isNum c

def isHex (c : UInt8) : Bool := isNum c || (97 ≤ lower c ∧ lower c ≤ 102)

def isMark (c : UInt8) : Bool := c ∈ ascii "-_.!~*'()"

def isUserinfoChar (c : UInt8) : Bool := isAlphanum c || isMark c || c ∈ ascii "%;:&=+$,"

def isUrlChar (c : UInt8) : Bool := bitAt normalUrlChar c

def isHostChar (c : UInt8) : Bool := isAlphanum c || c ∈ ascii ".-"

/-- The states of `enum state` that `parse_url_char` knows. -/
inductive UrlState where
  | dead
  | spacesBeforeUrl
  | schema
  | schemaSlash
  | schemaSlashSlash
  | serverStart
  | server
  | serverWithAt
  | path
  | queryStringStart
  | queryString
  | fragmentStart
  | fragment
  deriving DecidableEq, Repr

/-- The case that the three server states share. -/
def parseServerChar (ch : UInt8) : UrlState :=
  if ch = 47 then .path -- '/'
  else if ch = 63 then .queryStringStart -- '?'
  else if ch = 64 then .serverWithAt -- '@'
  else if isUserinfoChar ch || ch ∈ ascii "[]" then .server
  else .dead

/-- The switch of `parse_url_char`. -/
def urlSwitch (s : UrlState) (ch : UInt8) : UrlState :=
  match s with
  | .spacesBeforeUrl =>
    if ch = 47 ∨ ch = 42 then .path -- '/' or '*'
    else if isAlpha ch then .schema
    else .dead
  | .schema => if isAlpha ch then .schema else if ch = 58 then .schemaSlash else .dead -- ':'
  | .schemaSlash => if ch = 47 then .schemaSlashSlash else .dead
  | .schemaSlashSlash => if ch = 47 then .serverStart else .dead
  | .serverWithAt => if ch = 64 then .dead else parseServerChar ch
  | .serverStart | .server => parseServerChar ch
  | .path =>
    if isUrlChar ch then .path
    else if ch = 63 then .queryStringStart
    else if ch = 35 then .fragmentStart -- '#'
    else .dead
  | .queryStringStart | .queryString =>
    if isUrlChar ch then .queryString
    else if ch = 63 then .queryString
    else if ch = 35 then .fragmentStart
    else .dead
  | .fragmentStart =>
    if isUrlChar ch then .fragment
    else if ch = 63 then .fragment
    else if ch = 35 then .fragmentStart
    else .dead
  | .fragment => if isUrlChar ch then .fragment else if ch = 63 ∨ ch = 35 then .fragment else .dead
  | .dead => .dead

def parseUrlChar (s : UrlState) (ch : UInt8) : UrlState :=
  if ch = 32 ∨ ch = 13 ∨ ch = 10 then .dead -- ' ', CR, LF
  else if ch = 9 ∨ ch = 12 then .dead -- TAB, FF: the strict configuration
  else urlSwitch s ch

/-- `enum c_http_parser_url_fields`; `UF_MAX` is the `none` of an `Option`. -/
inductive UrlField where
  | schema
  | host
  | port
  | path
  | query
  | fragment
  | userinfo
  deriving DecidableEq, Repr

def UrlField.all : Finset UrlField :=
  {.schema, .host, .port, .path, .query, .fragment, .userinfo}

theorem UrlField.mem_all (uf : UrlField) : uf ∈ UrlField.all := by
  cases uf <;> decide

instance : Fintype UrlField := ⟨UrlField.all, UrlField.mem_all⟩

structure UrlFieldData where
  off : UInt16
  len : UInt16
  deriving DecidableEq, Repr

/-- `struct c_http_parser_url`. The bits of `field_set` are its elements. -/
structure ParserUrl where
  fieldSet : Finset UrlField
  port : UInt16
  fieldData : UrlField → UrlFieldData
  deriving DecidableEq

def cHttpParserUrlInit : ParserUrl := ⟨∅, 0, fun _ => ⟨0, 0⟩⟩

/-- `u->field_data[uf].len++`. -/
def ParserUrl.grow (u : ParserUrl) (uf : UrlField) : ParserUrl :=
  let d := u.fieldData uf
  { u with fieldData := Function.update u.fieldData uf ⟨d.off, d.len+1⟩ }

/-- A field's first byte is at `p`: its offset, its length so far, and its bit. -/
def ParserUrl.begin (u : ParserUrl) (uf : UrlField) (p : ℕ) (len : UInt16) : ParserUrl :=
  { u with
    fieldData := Function.update u.fieldData uf ⟨UInt16.ofNat p, len⟩
    fieldSet := insert uf u.fieldSet }

/-- `u->field_data[uf].off = (uint16_t)(p - buf)`. -/
def ParserUrl.setOff (u : ParserUrl) (uf : UrlField) (p : ℕ) : ParserUrl :=
  { u with fieldData := Function.update u.fieldData uf ⟨UInt16.ofNat p, (u.fieldData uf).len⟩ }

/-- `u->field_data[uf].len = 0`. -/
def ParserUrl.clearLen (u : ParserUrl) (uf : UrlField) : ParserUrl :=
  { u with fieldData := Function.update u.fieldData uf ⟨(u.fieldData uf).off, 0⟩ }

section record

variable (u : ParserUrl) (uf f : UrlField) (p : ℕ) (len : UInt16)

@[simp] theorem ParserUrl.grow_fieldSet : (u.grow uf).fieldSet = u.fieldSet := rfl

@[simp] theorem ParserUrl.grow_self :
    (u.grow uf).fieldData uf = ⟨(u.fieldData uf).off, (u.fieldData uf).len+1⟩ :=
  Function.update_self _ _ _

theorem ParserUrl.grow_of_ne (h : f ≠ uf) : (u.grow uf).fieldData f = u.fieldData f :=
  Function.update_of_ne h _ _

@[simp] theorem ParserUrl.begin_fieldSet : (u.begin uf p len).fieldSet = insert uf u.fieldSet := rfl

@[simp] theorem ParserUrl.begin_self : (u.begin uf p len).fieldData uf = ⟨UInt16.ofNat p, len⟩ :=
  Function.update_self _ _ _

theorem ParserUrl.begin_of_ne (h : f ≠ uf) : (u.begin uf p len).fieldData f = u.fieldData f :=
  Function.update_of_ne h _ _

@[simp] theorem ParserUrl.setOff_fieldSet : (u.setOff uf p).fieldSet = u.fieldSet := rfl

@[simp] theorem ParserUrl.setOff_self :
    (u.setOff uf p).fieldData uf = ⟨UInt16.ofNat p, (u.fieldData uf).len⟩ :=
  Function.update_self _ _ _

theorem ParserUrl.setOff_of_ne (h : f ≠ uf) : (u.setOff uf p).fieldData f = u.fieldData f :=
  Function.update_of_ne h _ _

@[simp] theorem ParserUrl.clearLen_fieldSet : (u.clearLen uf).fieldSet = u.fieldSet := rfl

@[simp] theorem ParserUrl.clearLen_self :
    (u.clearLen uf).fieldData uf = ⟨(u.fieldData uf).off, 0⟩ :=
  Function.update_self _ _ _

theorem ParserUrl.clearLen_of_ne (h : f ≠ uf) : (u.clearLen uf).fieldData f = u.fieldData f :=
  Function.update_of_ne h _ _

end record

/-- What the loop does in the state it has entered. -/
inductive UrlAction where
  | fail
  | skip
  | field (uf : UrlField)
  | unexpected
  deriving DecidableEq, Repr

def urlAction : UrlState → UrlAction
  | .dead => .fail
  | .schemaSlash | .schemaSlashSlash | .serverStart | .queryStringStart | .fragmentStart => .skip
  | .schema => .field .schema
  | .serverWithAt | .server => .field .host
  | .path => .field .path
  | .queryString => .field .query
  | .fragment => .field .fragment
  | .spacesBeforeUrl => .unexpected

/-- The locals of the loop of `c_http_parser_parse_url`. -/
structure UrlLocals where
  s : UrlState
  oldUf : Option UrlField
  foundAt : Bool
  u : ParserUrl
  deriving DecidableEq

def UrlLocals.init (isConnect : Bool) (u : ParserUrl) : UrlLocals where
  s := if isConnect then .serverStart else .spacesBeforeUrl
  oldUf := none
  foundAt := false
  u := { u with port := 0, fieldSet := ∅ }

/-- A byte at `p` of field `uf`. -/
def UrlLocals.onField (l : UrlLocals) (uf : UrlField) (p : ℕ) : UrlLocals :=
  if l.oldUf = some uf then { l with u := l.u.grow uf }
  else { l with u := l.u.begin uf p 1, oldUf := some uf }

/-- The loop over the buffer. The state is `dead` where the source returns 1. -/
def urlLoop (p : ℕ) (l : UrlLocals) : Bytes → Res UrlLocals
  | [] => .ok l
  | ch :: rest =>
    let s := parseUrlChar l.s ch
    let l := { l with s := s, foundAt := l.foundAt || s = .serverWithAt }
    match urlAction s with
    | .fail => .ok l
    | .skip => urlLoop (p+1) l rest
    | .field uf => urlLoop (p+1) (l.onField uf p) rest
    | .unexpected => .error (.assertion "!\"Unexpected state\"")

/-- `enum http_host_state`. -/
inductive HttpHostState where
  | dead
  | userinfoStart
  | userinfo
  | hostStart
  | hostV6Start
  | host
  | hostV6
  | hostV6End
  | hostV6ZoneStart
  | hostV6Zone
  | hostPortStart
  | hostPort
  deriving DecidableEq, Repr

def isV6Char (c : UInt8) : Bool := isHex c || c ∈ ascii ":."

def isZoneChar (c : UInt8) : Bool := isAlphanum c || c ∈ ascii "%.-_~"

def cHttpParseHostChar (s : HttpHostState) (ch : UInt8) : HttpHostState :=
  match s with
  | .userinfo | .userinfoStart =>
    if ch = 64 then .hostStart else if isUserinfoChar ch then .userinfo else .dead -- '@'
  | .hostStart => if ch = 91 then .hostV6Start else if isHostChar ch then .host else .dead -- '['
  | .host => if isHostChar ch then .host else if ch = 58 then .hostPortStart else .dead -- ':'
  | .hostV6End => if ch = 58 then .hostPortStart else .dead
  | .hostV6 =>
    if ch = 93 then .hostV6End -- ']'
    else if isV6Char ch then .hostV6
    else if ch = 37 then .hostV6ZoneStart -- '%'
    else .dead
  | .hostV6Start => if isV6Char ch then .hostV6 else .dead
  | .hostV6Zone => if ch = 93 then .hostV6End else if isZoneChar ch then .hostV6Zone else .dead
  | .hostV6ZoneStart => if isZoneChar ch then .hostV6Zone else .dead
  | .hostPort | .hostPortStart => if isNum ch then .hostPort else .dead
  | .dead => .dead

/-- `*p` for a position of the buffer. -/
def byteAt (buf : Bytes) (p : ℕ) : Res UInt8 :=
  match buf[p]? with
  | none => .error .outOfBounds
  | some ch => .ok ch

/-- The switch on the state entered. The length of the host is not reset where its offset is
set, and a zone only adds to it. -/
def hostField (s newS : HttpHostState) (p : ℕ) (u : ParserUrl) : ParserUrl :=
  match newS with
  | .host => (if s ≠ .host then u.setOff .host p else u).grow .host
  | .hostV6 => (if s ≠ .hostV6 then u.setOff .host p else u).grow .host
  | .hostV6ZoneStart | .hostV6Zone => u.grow .host
  | .hostPort => (if s ≠ .hostPort then u.begin .port p 0 else u).grow .port
  | .userinfo => (if s ≠ .userinfo then u.begin .userinfo p 0 else u).grow .userinfo
  | _ => u

/-- The loop of `c_http_parse_host` over the next `n` bytes. -/
def hostLoop (buf : Bytes) : ℕ → ℕ → HttpHostState → ParserUrl → Res (HttpHostState × ParserUrl)
  | _, 0, s, u => .ok (s, u)
  | p, n+1, s, u => do
    let ch ← byteAt buf p
    let newS := cHttpParseHostChar s ch
    if newS = .dead then .ok (.dead, u)
    else hostLoop buf (p+1) n newS (hostField s newS p u)

/-- The states in which the host may end. -/
def HttpHostState.final : HttpHostState → Bool
  | .host | .hostV6End | .hostPort => true
  | _ => false

def cHttpParseHost (buf : Bytes) (u : ParserUrl) (foundAt : Bool) : Res (ℤ × ParserUrl) := do
  let d := u.fieldData .host
  cAssert (UrlField.host ∈ u.fieldSet) "u->field_set & (1 << UF_HOST)"
  let (s, u) ← hostLoop buf d.off.toNat d.len.toNat
    (if foundAt then .userinfoStart else .hostStart) (u.clearLen .host)
  .ok (if s.final then 0 else 1, u)

/-- `*p - '0'` for a `char` with a sign. -/
def digitValue (ch : UInt8) : ℤ := (if ch < 128 then (ch.toNat : ℤ) else ch.toNat-256)-48

/-- The conversion of the port; `v` is an `unsigned long`, and `none` is the `return 1`. -/
def portLoop (buf : Bytes) : ℕ → ℕ → ℤ → Res (Option ℤ)
  | _, 0, v => .ok (some v)
  | p, n+1, v => do
    let ch ← byteAt buf p
    let v := ((v*10)%2^64+digitValue ch)%2^64
    if v > 0xffff then .ok none else portLoop buf (p+1) n v

/-- The last part of `c_http_parser_parse_url`. -/
def parsePort (buf : Bytes) (u : ParserUrl) : Res (ℤ × ParserUrl) := do
  let d := u.fieldData .port
  cAssert (d.off.toNat+d.len.toNat ≤ buf.length) "off + len <= buflen && \"Port number overflow\""
  match ← portLoop buf d.off.toNat d.len.toNat 0 with
  | none => .ok (1, u)
  | some v => .ok (0, { u with port := UInt16.ofNat v.toNat })

/-- From the end of the loop to the port. -/
def parseAuthority (buf : Bytes) (l : UrlLocals) : Res (ℤ × ParserUrl) :=
  -- a schema needs a host: `http:///toto` fails
  if UrlField.schema ∈ l.u.fieldSet ∧ UrlField.host ∉ l.u.fieldSet then .ok (1, l.u)
  else if UrlField.host ∈ l.u.fieldSet then cHttpParseHost buf l.u l.foundAt
  else .ok (0, l.u)

def cHttpParserParseUrl (buf : Bytes) (isConnect : Bool) (u : ParserUrl) : Res (ℤ × ParserUrl) :=
  if buf.length = 0 then .ok (1, u)
  else do
    let l ← urlLoop 0 (UrlLocals.init isConnect u) buf
    if l.s = .dead then .ok (1, l.u)
    else do
      let (failed, u) ← parseAuthority buf l
      if failed ≠ 0 then .ok (1, u)
      else if isConnect ∧ u.fieldSet ≠ {.host, .port} then .ok (1, u)
      else if UrlField.port ∈ u.fieldSet then parsePort buf u
      else .ok (0, u)

end CHttp
