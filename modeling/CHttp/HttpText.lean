import CHttp.HttpSerialize
import CHttp.HttpParserRequests

/-! HTTP messages as texts, what `llhttp` reports for them, and that a text can be
read in one way only. -/
namespace CHttp

/-- What stands before the first `x`, and what behind it, is determined. -/
theorem append_cons_unique {α : Type} (x : α) (a a' b b' : List α) (ha : x ∉ a) (ha' : x ∉ a')
    (h : a ++ x :: b = a' ++ x :: b') : a = a' ∧ b = b' := by
  induction a generalizing a' with
  | nil =>
    cases a' with
    | nil => exact ⟨rfl, (List.cons.inj h).2⟩
    | cons y a' => exact absurd ((List.cons.inj h).1 ▸ List.mem_cons_self) ha'
  | cons y a ih =>
    cases a' with
    | nil => exact absurd ((List.cons.inj h).1 ▸ List.mem_cons_self) ha
    | cons z a' =>
      obtain ⟨hy, htail⟩ := List.cons.inj h
      obtain ⟨rfl, rfl⟩ := ih a' (fun hx => ha (List.mem_cons_of_mem _ hx))
        (fun hx => ha' (List.mem_cons_of_mem _ hx)) htail
      exact ⟨by rw [hy], rfl⟩

/-- The bytes of a token. -/
def tokenBytes : Bytes :=
  ascii "!#$%&'*+-.^_`|~0123456789ABCDEFGHIJKLMNOPQRSTUVWXYZabcdefghijklmnopqrstuvwxyz"

/-- A header field that survives being written and read: a token, and a value
without line ends, NUL and outer blanks. -/
structure FieldText (kv : KVPair) : Prop where
  name_ne : kv.label ≠ []
  name : ∀ b ∈ kv.label, b ∈ tokenBytes
  value : ∀ b ∈ kv.value, b ≠ 13 ∧ b ≠ 10 ∧ b ≠ 0
  trimmed : ∀ b, kv.value.head? = some b ∨ kv.value.getLast? = some b → b ≠ 32 ∧ b ≠ 9

theorem FieldText.name_not_mem {kv : KVPair} (h : FieldText kv) {x : UInt8} (hx : x ∉ tokenBytes) :
    x ∉ kv.label := fun hm => hx (h.name x hm)

theorem FieldText.line {kv : KVPair} (h : FieldText kv) :
    headerLine kv = kv.label ++ 58 :: 32 :: (kv.value ++ 13 :: 10 :: []) := by
  have hl : cstr kv.label = kv.label := (cstr_eq_self_iff _).mpr (h.name_not_mem (by decide))
  have hv : cstr kv.value = kv.value :=
    (cstr_eq_self_iff _).mpr fun hz => (h.value 0 hz).2.2 rfl
  rw [headerLine, hl, hv]
  simp [ascii, crlf]

/-- A header line does not start like the end of the header block. -/
theorem FieldText.line_ne_end {kv : KVPair} (h : FieldText kv) (hs : List KVPair) (b b' : Bytes) :
    (kv :: hs).flatMap headerLine ++ b ≠ crlf ++ b' := by
  intro he
  obtain ⟨x, label, hlabel⟩ := List.exists_cons_of_ne_nil h.name_ne
  have hx : x ∈ tokenBytes := h.name x (by rw [hlabel]; exact List.mem_cons_self)
  rw [List.flatMap_cons, h.line, hlabel] at he
  obtain rfl : x = 13 := (List.cons.inj he).1
  exact absurd hx (by decide)

/-- A header block and what follows it can be told apart. -/
theorem headerBlock_unique (hs hs' : List KVPair) (b b' : Bytes) (h : ∀ kv ∈ hs, FieldText kv)
    (h' : ∀ kv ∈ hs', FieldText kv)
    (he : hs.flatMap headerLine ++ (crlf ++ b) = hs'.flatMap headerLine ++ (crlf ++ b')) :
    hs = hs' ∧ b = b' := by
  induction hs generalizing hs' with
  | nil =>
    cases hs' with
    | nil => exact ⟨rfl, List.append_cancel_left he⟩
    | cons kv hs' =>
      exact absurd he.symm ((h' kv List.mem_cons_self).line_ne_end hs' _ _)
  | cons kv hs ih =>
    have hkv := h kv List.mem_cons_self
    cases hs' with
    | nil => exact absurd he (hkv.line_ne_end hs _ _)
    | cons kv' hs' =>
      have hkv' := h' kv' List.mem_cons_self
      rw [List.flatMap_cons, List.flatMap_cons, hkv.line, hkv'.line] at he
      simp only [List.append_assoc, List.cons_append, List.nil_append] at he
      obtain ⟨hname, he⟩ := append_cons_unique 58 _ _ _ _ (hkv.name_not_mem (by decide))
        (hkv'.name_not_mem (by decide)) he
      obtain ⟨hvalue, he⟩ := append_cons_unique 13 _ _ _ _ (fun hm => (hkv.value _ hm).1 rfl)
        (fun hm => (hkv'.value _ hm).1 rfl) (List.cons.inj he).2
      obtain ⟨rfl, rfl⟩ := ih hs' (fun x hx => h x (List.mem_cons_of_mem _ hx))
        (fun x hx => h' x (List.mem_cons_of_mem _ hx)) (List.cons.inj he).2
      have hkv_eq : kv = kv' := by
        cases kv
        cases kv'
        simp_all
      rw [hkv_eq]
      exact ⟨rfl, rfl⟩

/-- The header names the value of `Content-Length`, up to case. -/
def KVPair.isContentLength (kv : KVPair) : Bool := kv.label.map toupper = ascii "CONTENT-LENGTH"

/-- The names whose headers change how a message is read. -/
def framingNames : List Bytes := [ascii "CONNECTION", ascii "UPGRADE", ascii "TRANSFER-ENCODING"]

/-- A request as a text: a known method, a target without blanks or control bytes,
header fields among which one `Content-Length` counts the body. -/
structure RequestText where
  method : LlhttpMethod
  target : Bytes
  minor : ℕ
  headers : List KVPair
  body : Bytes
  method_ok : method ≠ .connect
  target_ne : target ≠ []
  target_ok : ∀ b ∈ target, 32 < b ∧ b ≠ 127
  minor_ok : minor ≤ 1
  headers_ok : ∀ kv ∈ headers, FieldText kv
  headers_plain : ∀ kv ∈ headers, kv.label.map toupper ∉ framingNames
  length_ok : ∃ label, headers.filter KVPair.isContentLength = [⟨label, fmtD body.length⟩]

def RequestText.wire (t : RequestText) : Bytes :=
  requestLine t.method.name t.target 1 t.minor ++ t.headers.flatMap headerLine ++ crlf ++ t.body

def LlhttpMethod.all : List LlhttpMethod :=
  [.delete, .get, .head, .post, .put, .connect, .options, .trace, .copy, .lock, .mkcol, .move,
    .propfind, .proppatch, .search, .unlock, .bind, .rebind, .unbind, .acl, .report, .mkactivity,
    .checkout, .merge, .msearch, .notify, .subscribe, .unsubscribe, .patch, .purge, .mkcalendar,
    .link, .unlink, .source, .pri, .describe, .announce, .setup, .play, .pause, .teardown,
    .getParameter, .setParameter, .redirect, .record, .flush]

theorem LlhttpMethod.find_name (m : LlhttpMethod) :
    LlhttpMethod.all.find? (fun k => k.name = m.name) = some m := by
  cases m <;> decide

theorem LlhttpMethod.name_injective (m m' : LlhttpMethod) (h : m.name = m'.name) : m = m' := by
  have hm := m.find_name
  rw [h, m'.find_name] at hm
  exact (Option.some.inj hm).symm

theorem LlhttpMethod.blank_not_mem_name (m : LlhttpMethod) : 32 ∉ m.name := by
  cases m <;> decide

theorem fmtD_not_mem (z : ℤ) (x : UInt8) (hx : x.toNat < 45) : x ∉ fmtD z := fun h => by
  have := fmtD_bytes z x h
  omega

theorem fmtD_minor_injective (m m' : ℕ) (h : m ≤ 1) (h' : m' ≤ 1) (he : fmtD m = fmtD m') :
    m = m' := by
  interval_cases m <;> interval_cases m' <;> revert he <;> decide

/-- A text is the wire form of one request only. -/
theorem RequestText.wire_unique (t t' : RequestText) (h : t.wire = t'.wire) :
    t.method = t'.method ∧ t.target = t'.target ∧ t.minor = t'.minor ∧ t.headers = t'.headers ∧
      t.body = t'.body := by
  have hblank (t : RequestText) : 32 ∉ t.target := fun hm => absurd (t.target_ok 32 hm).1 (by decide)
  have hshape (t : RequestText) : t.wire = t.method.name ++ 32 :: (t.target ++ 32 ::
      (ascii "HTTP/1." ++ (fmtD t.minor ++ 13 :: 10 :: (t.headers.flatMap headerLine ++
        (crlf ++ t.body))))) := by
    have hone : fmtD 1 = [49] := by decide
    simp [RequestText.wire, requestLine, crlf, ascii, hone]
  rw [hshape, hshape] at h
  obtain ⟨hmethod, h⟩ := append_cons_unique 32 _ _ _ _ t.method.blank_not_mem_name
    t'.method.blank_not_mem_name h
  obtain ⟨htarget, h⟩ := append_cons_unique 32 _ _ _ _ (hblank t) (hblank t') h
  obtain ⟨hminor, h⟩ := append_cons_unique 13 _ _ _ _ (fmtD_not_mem _ _ (by decide))
    (fmtD_not_mem _ _ (by decide)) (List.append_cancel_left h)
  obtain ⟨hheaders, hbody⟩ := headerBlock_unique _ _ _ _ t.headers_ok t'.headers_ok (List.cons.inj h).2
  exact ⟨LlhttpMethod.name_injective _ _ hmethod, htarget,
    fmtD_minor_injective _ _ t.minor_ok t'.minor_ok hminor, hheaders, hbody⟩

/-- `llhttp` reports the request `t` with these callbacks, cut in any way. -/
def RequestText.Reported (t : RequestText) (trace : List Callback) : Prop :=
  ∃ f : MessageFrags, ∃ url, trace = f.callbacks ∧ f.start = .request url ∧
    url.flatten = t.target ∧ f.method = t.method ∧ f.httpMinor = t.minor ∧
    f.headers.map (fun h => KVPair.mk h.name.flatten h.value.flatten) = t.headers ∧
    f.body.flatten = t.body ∧ f.trailers = []

/-- What is assumed of `llhttp` on the input `chunks`: if they make up a request, it
reports that request. -/
def ReadsRequest (llhttp : List Bytes → List Callback) (chunks : List Bytes) : Prop :=
  ∀ t : RequestText, chunks.flatten = t.wire → t.Reported (llhttp chunks)

/-- A response as a text. The digits may be missing: a second blank behind the
version then ends the empty status code. -/
structure ResponseText where
  minor : ℕ
  digits : Bytes
  reason : Bytes
  headers : List KVPair
  body : Bytes
  minor_ok : minor ≤ 1
  digits_ok : ∀ b ∈ digits, 48 ≤ b ∧ b ≤ 57
  reason_ne : reason ≠ []
  reason_ok : ∀ b ∈ reason, b ≠ 13 ∧ b ≠ 10 ∧ b ≠ 0
  headers_ok : ∀ kv ∈ headers, FieldText kv
  length_ok : ∃ kv ∈ headers, kv.isContentLength ∧ kv.value = fmtD body.length

def ResponseText.statusLine (t : ResponseText) : Bytes :=
  ascii "HTTP/1." ++ fmtD t.minor ++ ascii " " ++ t.digits ++ ascii " " ++ t.reason ++ crlf

def ResponseText.wire (t : ResponseText) : Bytes :=
  t.statusLine ++ t.headers.flatMap headerLine ++ crlf ++ t.body

/-- `status_code`, accumulated from the digits. -/
def ResponseText.statusCode (t : ResponseText) : ℕ :=
  t.digits.foldl (fun n b => n*10+(b.toNat-48)) 0

theorem ResponseText.wire_unique (t t' : ResponseText) (h : t.wire = t'.wire) :
    t.minor = t'.minor ∧ t.digits = t'.digits ∧ t.reason = t'.reason ∧ t.headers = t'.headers ∧
      t.body = t'.body := by
  have hdigits (t : ResponseText) : 32 ∉ t.digits := fun hm => absurd (t.digits_ok 32 hm).1 (by decide)
  have hreason (t : ResponseText) : 13 ∉ t.reason := fun hm => (t.reason_ok 13 hm).1 rfl
  have hshape (t : ResponseText) : t.wire = ascii "HTTP/1." ++ (fmtD t.minor ++ 32 :: (t.digits ++
      32 :: (t.reason ++ 13 :: 10 :: (t.headers.flatMap headerLine ++ (crlf ++ t.body))))) := by
    simp [ResponseText.wire, ResponseText.statusLine, crlf, ascii]
  rw [hshape, hshape] at h
  obtain ⟨hminor, h⟩ := append_cons_unique 32 _ _ _ _ (fmtD_not_mem _ _ (by decide))
    (fmtD_not_mem _ _ (by decide)) (List.append_cancel_left h)
  obtain ⟨hdig, h⟩ := append_cons_unique 32 _ _ _ _ (hdigits t) (hdigits t') h
  obtain ⟨hrea, h⟩ := append_cons_unique 13 _ _ _ _ (hreason t) (hreason t') h
  obtain ⟨hheaders, hbody⟩ := headerBlock_unique _ _ _ _ t.headers_ok t'.headers_ok (List.cons.inj h).2
  exact ⟨fmtD_minor_injective _ _ t.minor_ok t'.minor_ok hminor, hdig, hrea, hheaders, hbody⟩

/-- `llhttp` reports the response `t` with these callbacks: the reason in one fragment,
the rest cut in any way. -/
def ResponseText.Reported (t : ResponseText) (trace : List Callback) : Prop :=
  ∃ f : MessageFrags, trace = f.callbacks ∧ f.start = .response t.statusCode [t.reason] ∧
    f.httpMinor = t.minor ∧
    f.headers.map (fun h => KVPair.mk h.name.flatten h.value.flatten) = t.headers ∧
    f.body.flatten = t.body ∧ f.trailers = []

/-- What is assumed of `llhttp` on the input `chunks`: if they make up a response whose
status line is not split, it reports that response. -/
def ReadsResponse (llhttp : List Bytes → List Callback) (chunks : List Bytes) : Prop :=
  ∀ t : ResponseText, chunks.flatten = t.wire →
    (∃ c ∈ chunks.head?, t.statusLine.length ≤ c.length) → t.Reported (llhttp chunks)

end CHttp
