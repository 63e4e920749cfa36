import CHttp.HttpSerialize

/-! `HdrList`, the list behind the headers of a message. Labels are upper-cased when they are
stored and when they are looked for, which makes the list an ordered multimap up to case;
`http_message_set_content_length` writes to its first entry of that name. The linked list is
the sequence that it holds. -/
namespace CHttp

section source

/-- `make_upper` stops at the NUL of its argument. -/
def makeUpper (src : Bytes) : Bytes := (cstr src).map toupper

/-- `KVPair_set_value`. The length of the value, which it does not touch, is never read. -/
def kvpairSetValue (hlref : KVPair) (valptr : Bytes) : KVPair := { hlref with value := valptr }

def hdrListNew : List KVPair := []

def hdrListAddCstr (this : List KVPair) (label value : Bytes) : List KVPair :=
  this ++ [kvpairNew (cstr label) (cstr value)]

/-- Label and value are the `lablen` and `vallen` bytes that the pointers stand for. -/
def hdrListAddLine (this : List KVPair) (label value : Bytes) : List KVPair :=
  kvpairNew label value :: this

/-- The rows in front of the one that ends the array. -/
def hdrListAddArr (this : List KVPair) (ar : List (Bytes × Bytes)) : List KVPair :=
  ar.foldl (fun this row => hdrListAddCstr this row.1 row.2) this

def hdrListFromArray (ar : List (Bytes × Bytes)) : List KVPair := hdrListAddArr hdrListNew ar

/-- The test of the search loop, a `strcmp` with the upper-cased key. -/
def labelMatches (key : Bytes) (hlr : KVPair) : Bool := cstr hlr.label = makeUpper key

/-- An iterator is a position of the list. -/
def hdrListFindIter (hlref : List KVPair) (key : Bytes) : Option ℕ :=
  hlref.findIdx? (labelMatches key)

def hdrListFind (hlref : List KVPair) (key : Bytes) : Option KVPair :=
  (hdrListFindIter hlref key).bind fun iter => hlref[iter]?

def hdrListRemove (hlref : List KVPair) (key : Bytes) : List KVPair :=
  match hdrListFindIter hlref key with
  | none => hlref
  | some iter => hlref.eraseIdx iter

/-- `HttpMessage_cmp_header`; its loop runs over the common length. -/
def httpMessageCmpHeader (msgref : HttpMessage) (key testValue : Bytes) : ℤ :=
  match hdrListFind msgref.headers key with
  | none => -1
  | some kvp =>
    let v := cstr kvp.value
    let t := cstr testValue
    if v.length ≠ t.length then 0
    else if (v.zip t).all fun c => toupper c.1 = toupper c.2 then 1
    else 0

def httpMessageSetContentLength (this : HttpMessage) (length : ℤ) : Res HttpMessage := do
  cAssert (0 ≤ length) "length >= 0"
  let buf := fmtD length
  match hdrListFindIter this.headers (ascii "Content-length") with
  | some iter => .ok { this with headers := this.headers.modify iter (kvpairSetValue · buf) }
  | none => .ok { this with headers := hdrListAddCstr this.headers (ascii "Content-length") buf }

end source

section ignoringCase

def LetterPair (upper lower : UInt8) : Prop :=
  65 ≤ upper.toNat ∧ upper.toNat ≤ 90 ∧ lower.toNat = upper.toNat+32

instance (upper lower : UInt8) : Decidable (LetterPair upper lower) :=
  inferInstanceAs (Decidable (_ ∧ _))

/-- Two texts that differ at most in the case of their letters. -/
def SameText (a b : Bytes) : Prop :=
  List.Forall₂ (fun x y => x = y ∨ LetterPair x y ∨ LetterPair y x) a b

instance (a b : Bytes) : Decidable (SameText a b) :=
  inferInstanceAs (Decidable (List.Forall₂ _ a b))

theorem toNat_toupper (c : UInt8) :
    (toupper c).toNat = if 97 ≤ c.toNat ∧ c.toNat ≤ 122 then c.toNat-32 else c.toNat := by
  have hiff : 97 ≤ c ∧ c ≤ 122 ↔ 97 ≤ c.toNat ∧ c.toNat ≤ 122 := Iff.rfl
  unfold toupper
  by_cases h : 97 ≤ c ∧ c ≤ 122
  · rw [if_pos h, if_pos (hiff.mp h)]
    exact UInt8.toNat_sub_of_le c 32 (UInt8.le_trans (by decide : (32 : UInt8) ≤ 97) h.1)
  · rw [if_neg h, if_neg (hiff.not.mp h)]

/-- `toupper` identifies exactly the two cases of a letter. -/
theorem toupper_eq_iff (x y : UInt8) :
    toupper x = toupper y ↔ x = y ∨ LetterPair x y ∨ LetterPair y x := by
  rw [← UInt8.toNat_inj, ← UInt8.toNat_inj, toNat_toupper, toNat_toupper]
  unfold LetterPair
  split_ifs <;> omega

theorem toupper_toupper (c : UInt8) : toupper (toupper c) = toupper c := by
  rw [← UInt8.toNat_inj, toNat_toupper, toNat_toupper]
  split_ifs <;> omega

theorem toupper_eq_zero_iff (c : UInt8) : toupper c = 0 ↔ c = 0 := by
  rw [← UInt8.toNat_inj, ← UInt8.toNat_inj, toNat_toupper, UInt8.toNat_zero]
  split_ifs <;> omega

theorem sameText_iff (a b : Bytes) : SameText a b ↔ a.map toupper = b.map toupper := by
  rw [← List.forall₂_eq_eq_eq, List.forall₂_map_left_iff, List.forall₂_map_right_iff]
  simp only [toupper_eq_iff]
  rfl

theorem zero_not_mem_upper {b : Bytes} (h : 0 ∉ b) : 0 ∉ b.map toupper := by
  intro hmem
  obtain ⟨c, hc, hzero⟩ := List.mem_map.mp hmem
  rw [toupper_eq_zero_iff] at hzero
  exact h (hzero ▸ hc)

theorem makeUpper_eq {key : Bytes} (h : 0 ∉ key) : makeUpper key = key.map toupper := by
  rw [makeUpper, (cstr_eq_self_iff key).mpr h]

end ignoringCase

section search

variable (hlref : List KVPair) (key : Bytes)

theorem hdrListFind_eq : hdrListFind hlref key = hlref.find? (labelMatches key) :=
  List.find?_eq_bind_findIdx?_getElem?.symm

theorem hdrListRemove_eq : hdrListRemove hlref key = hlref.eraseP (labelMatches key) :=
  List.eraseP_eq_eraseIdx.symm

theorem hdrListAddArr_eq (ar : List (Bytes × Bytes)) :
    hdrListAddArr hlref ar = hlref ++ ar.map fun row => kvpairNew (cstr row.1) (cstr row.2) := by
  induction ar generalizing hlref with
  | nil => exact (List.append_nil hlref).symm
  | cons row ar ih =>
    rw [hdrListAddArr, List.foldl_cons, ← hdrListAddArr, ih, hdrListAddCstr, List.append_assoc]
    rfl

theorem eraseP_congr {α : Type} {p q : α → Bool} {l : List α} (h : ∀ x ∈ l, p x = q x) :
    l.eraseP p = l.eraseP q := by
  induction l with
  | nil => rfl
  | cons x l ih =>
    rw [List.eraseP_cons, List.eraseP_cons, h x List.mem_cons_self,
      ih fun y hy => h y (List.mem_cons_of_mem x hy)]

end search

section multimap

/-- Bytes that are neither NUL nor outside ASCII. -/
def PlainText (b : Bytes) : Prop := ∀ c ∈ b, c ≠ 0 ∧ c < 128

instance (b : Bytes) : Decidable (PlainText b) :=
  inferInstanceAs (Decidable (∀ c ∈ b, c ≠ 0 ∧ c < 128))

theorem PlainText.zero_not_mem {b : Bytes} (h : PlainText b) : 0 ∉ b :=
  fun hmem => (h 0 hmem).1 rfl

theorem PlainText.cstr_eq {b : Bytes} (h : PlainText b) : cstr b = b :=
  (cstr_eq_self_iff b).mpr h.zero_not_mem

inductive HeaderOp where
  | addCstr (label value : Bytes)
  | addCbuf (key value : Cbuffer)
  | addArr (ar : List (Bytes × Bytes))
  | addLine (label value : Bytes)
  | remove (key : Bytes)

namespace HeaderOp

def exec (this : List KVPair) : HeaderOp → List KVPair
  | addCstr label value => hdrListAddCstr this label value
  | addCbuf key value => hdrListAddCbuf this key value
  | addArr ar => hdrListAddArr this ar
  | addLine label value => hdrListAddLine this label value
  | remove key => hdrListRemove this key

/-- The pairs that an operation brings in. -/
def pairs : HeaderOp → List (Bytes × Bytes)
  | addCstr label value => [(label, value)]
  | addCbuf key value => [(key.data, value.data)]
  | addArr ar => ar
  | addLine label value => [(label, value)]
  | remove _ => []

def keys : HeaderOp → List Bytes
  | remove key => [key]
  | _ => []

/-- All texts that an operation is given are plain. -/
def Plain (op : HeaderOp) : Prop :=
  (∀ pair ∈ op.pairs, PlainText pair.1 ∧ PlainText pair.2) ∧ ∀ key ∈ op.keys, PlainText key

instance (op : HeaderOp) : Decidable op.Plain := inferInstanceAs (Decidable (_ ∧ _))

/-- A pair with its label in upper case. -/
def upper (pair : Bytes × Bytes) : Bytes × Bytes := (pair.1.map toupper, pair.2)

/-- What the operations are for: a sequence of pairs, new ones at its end or, for a line, at
its front, and a removal that takes the first pair of a name, whatever its case. -/
def apply (model : List (Bytes × Bytes)) : HeaderOp → List (Bytes × Bytes)
  | addLine label value => upper (label, value) :: model
  | remove key => model.eraseP fun pair => SameText pair.1 key
  | op => model ++ op.pairs.map upper

end HeaderOp

def KVPair.pair (kv : KVPair) : Bytes × Bytes := (kv.label, kv.value)

/-- A stored pair: its label is upper-case, and neither of its texts has a NUL. -/
structure KVPair.Stored (kv : KVPair) : Prop where
  upper : kv.label.map toupper = kv.label
  label : 0 ∉ kv.label
  value : 0 ∉ kv.value

theorem kvpairNew_stored {label value : Bytes} (hl : PlainText label) (hv : PlainText value) :
    (kvpairNew label value).Stored where
  upper := by
    rw [kvpairNew, List.map_map]
    exact List.map_congr_left fun c _ => toupper_toupper c
  label := zero_not_mem_upper hl.zero_not_mem
  value := hv.zero_not_mem

/-- On stored pairs the search compares labels up to case. -/
theorem labelMatches_stored {kv : KVPair} (h : kv.Stored) {key : Bytes} (hkey : 0 ∉ key) :
    labelMatches key kv = decide (SameText kv.pair.1 key) := by
  rw [labelMatches, (cstr_eq_self_iff _).mpr h.label, makeUpper_eq hkey, decide_eq_decide,
    sameText_iff, KVPair.pair, h.upper]

/-- The header list stands for the sequence `model`. -/
structure HeaderHolds (hlref : List KVPair) (model : List (Bytes × Bytes)) : Prop where
  pairs : hlref.map KVPair.pair = model
  stored : ∀ kv ∈ hlref, kv.Stored

section holds

variable {hlref : List KVPair} {model : List (Bytes × Bytes)} {key : Bytes}

theorem HeaderHolds.new : HeaderHolds hdrListNew [] :=
  ⟨rfl, fun _ hkv => absurd hkv List.not_mem_nil⟩

theorem HeaderHolds.append (h : HeaderHolds hlref model) {ar : List (Bytes × Bytes)}
    (har : ∀ pair ∈ ar, PlainText pair.1 ∧ PlainText pair.2) :
    HeaderHolds (hlref ++ ar.map fun row => kvpairNew row.1 row.2)
      (model ++ ar.map HeaderOp.upper) where
  pairs := by
    rw [List.map_append, h.pairs, List.map_map]
    rfl
  stored := by
    intro kv hkv
    rcases List.mem_append.mp hkv with hold | hnew
    · exact h.stored kv hold
    · obtain ⟨pair, hpair, rfl⟩ := List.mem_map.mp hnew
      exact kvpairNew_stored (har pair hpair).1 (har pair hpair).2

theorem HeaderHolds.find (h : HeaderHolds hlref model) (hkey : 0 ∉ key) :
    (hdrListFind hlref key).map KVPair.pair = model.find? fun pair => SameText pair.1 key := by
  rw [hdrListFind_eq, List.find?_congr fun kv hkv => labelMatches_stored (h.stored kv hkv) hkey,
    ← h.pairs, List.find?_map]
  rfl

theorem HeaderHolds.remove (h : HeaderHolds hlref model) (hkey : 0 ∉ key) :
    HeaderHolds (hdrListRemove hlref key) (model.eraseP fun pair => SameText pair.1 key) where
  pairs := by
    rw [hdrListRemove_eq, eraseP_congr fun kv hkv => labelMatches_stored (h.stored kv hkv) hkey,
      ← h.pairs, List.eraseP_map]
    rfl
  stored := by
    intro kv hkv
    rw [hdrListRemove_eq] at hkv
    exact h.stored kv (List.mem_of_mem_eraseP hkv)

theorem HeaderHolds.exec (h : HeaderHolds hlref model) {op : HeaderOp} (hop : op.Plain) :
    HeaderHolds (op.exec hlref) (op.apply model) := by
  cases op with
  | addCstr label value =>
    obtain ⟨hl, hv⟩ := hop.1 (label, value) List.mem_cons_self
    rw [HeaderOp.exec, hdrListAddCstr, hl.cstr_eq, hv.cstr_eq]
    exact h.append hop.1
  | addCbuf key value => exact h.append hop.1
  | addArr ar =>
    have hcstr : ∀ row ∈ ar, kvpairNew (cstr row.1) (cstr row.2) = kvpairNew row.1 row.2 := by
      intro row hrow
      rw [(hop.1 row hrow).1.cstr_eq, (hop.1 row hrow).2.cstr_eq]
    rw [HeaderOp.exec, hdrListAddArr_eq, List.map_congr_left hcstr]
    exact h.append hop.1
  | addLine label value =>
    obtain ⟨hl, hv⟩ := hop.1 (label, value) List.mem_cons_self
    refine ⟨congrArg _ h.pairs, fun kv hkv => ?_⟩
    rcases List.mem_cons.mp hkv with rfl | hold
    · exact kvpairNew_stored hl hv
    · exact h.stored kv hold
  | remove key => exact h.remove (hop.2 key List.mem_cons_self).zero_not_mem

theorem HeaderHolds.run (h : HeaderHolds hlref model) {ops : List HeaderOp}
    (hops : ∀ op ∈ ops, op.Plain) :
    HeaderHolds (ops.foldl HeaderOp.exec hlref) (ops.foldl HeaderOp.apply model) := by
  induction ops generalizing hlref model with
  | nil => exact h
  | cons op ops ih =>
    exact ih (h.exec (hops op List.mem_cons_self)) fun op' hop' =>
      hops op' (List.mem_cons_of_mem op hop')

end holds

/-- The comparison of two values goes by their texts up to case. -/
theorem cmp_values_eq {v t : Bytes} (hv : 0 ∉ v) (ht : 0 ∉ t) :
    (if (cstr v).length ≠ (cstr t).length then (0 : ℤ)
      else if ((cstr v).zip (cstr t)).all fun c => toupper c.1 = toupper c.2 then 1 else 0) =
      if SameText v t then 1 else 0 := by
  rw [(cstr_eq_self_iff v).mpr hv, (cstr_eq_self_iff t).mpr ht]
  have hiff : SameText v t ↔
      v.length = t.length ∧ ((v.zip t).all fun c => toupper c.1 = toupper c.2) = true := by
    rw [SameText, List.forall₂_iff_zip, List.all_eq_true]
    simp only [decide_eq_true_eq, toupper_eq_iff, Prod.forall]
  by_cases hlen : v.length = t.length
  · simp only [hiff, hlen, ne_eq, not_true_eq_false, ↓reduceIte, true_and]
  · simp only [hiff, hlen, ne_eq, not_false_eq_true, ↓reduceIte, false_and]

/-- What `HttpMessage_cmp_header` should answer for the sequence `model`. -/
def cmpAnswer (model : List (Bytes × Bytes)) (key testValue : Bytes) : ℤ :=
  match model.find? fun pair => SameText pair.1 key with
  | none => -1
  | some pair => if SameText pair.2 testValue then 1 else 0

theorem httpMessageCmpHeader_eq {msg : HttpMessage} {model : List (Bytes × Bytes)}
    (h : HeaderHolds msg.headers model) {key testValue : Bytes} (hkey : 0 ∉ key)
    (htest : 0 ∉ testValue) :
    httpMessageCmpHeader msg key testValue = cmpAnswer model key testValue := by
  rw [cmpAnswer, ← h.find hkey, httpMessageCmpHeader]
  cases hfind : hdrListFind msg.headers key with
  | none => rfl
  | some kvp =>
    have hmem : kvp ∈ msg.headers := by
      rw [hdrListFind_eq] at hfind
      exact List.mem_of_find?_eq_some hfind
    exact cmp_values_eq (h.stored kvp hmem).value htest

/-- After any operations on an empty list it is the sequence of upper-cased pairs; searching,
removing and comparing go by the first pair whose label is the key up to case. -/
theorem hdrList_multimap (ops : List HeaderOp) (hops : ∀ op ∈ ops, op.Plain) :
    let hlref := ops.foldl HeaderOp.exec hdrListNew
    let model := ops.foldl HeaderOp.apply []
    hlref.map KVPair.pair = model ∧
      ∀ key, PlainText key →
        (hdrListFind hlref key).map KVPair.pair = model.find? (fun pair => SameText pair.1 key) ∧
        (hdrListRemove hlref key).map KVPair.pair =
          model.eraseP (fun pair => SameText pair.1 key) ∧
        ∀ msg testValue, msg.headers = hlref → PlainText testValue →
          httpMessageCmpHeader msg key testValue = cmpAnswer model key testValue := by
  intro hlref model
  have h : HeaderHolds hlref model := HeaderHolds.new.run hops
  refine ⟨h.pairs, fun key hkey => ⟨h.find hkey.zero_not_mem, (h.remove hkey.zero_not_mem).pairs,
    fun msg testValue hmsg htest => ?_⟩⟩
  rw [← hmsg] at h
  exact httpMessageCmpHeader_eq h hkey.zero_not_mem htest.zero_not_mem

theorem hdrList_multimap_host :
    let ops : List HeaderOp :=
      [.addCstr (ascii "Host") (ascii "a"), .addLine (ascii "hOST") (ascii "b"),
        .addArr [(ascii "Accept", ascii "X"), (ascii "host", ascii "c")], .remove (ascii "HosT")]
    (∀ op ∈ ops, op.Plain) ∧
      (ops.foldl HeaderOp.exec hdrListNew).map KVPair.pair =
        [(ascii "HOST", ascii "a"), (ascii "ACCEPT", ascii "X"), (ascii "HOST", ascii "c")] := by
  intro ops
  have hplain : ∀ op ∈ ops, op.Plain := by decide +kernel
  refine ⟨hplain, ?_⟩
  rw [(hdrList_multimap ops hplain).1]
  decide

end multimap

section contentLength

/-- The label of a pair, which was upper-cased when the pair was stored. -/
def KVPair.NamesLength (kv : KVPair) : Prop := cstr kv.label = ascii "CONTENT-LENGTH"

instance (kv : KVPair) : Decidable kv.NamesLength :=
  inferInstanceAs (Decidable (cstr kv.label = ascii "CONTENT-LENGTH"))

/-- The first pair of the name takes the text as its value; without one it is appended. -/
def writeLength (text : Bytes) : List KVPair → List KVPair
  | [] => [⟨ascii "CONTENT-LENGTH", text⟩]
  | kv :: hlref =>
    if kv.NamesLength then kvpairSetValue kv text :: hlref else kv :: writeLength text hlref

/-- One list after the text was written to the other. -/
inductive LengthWritten (text : Bytes) : List KVPair → List KVPair → Prop where
  | replaced (pre : List KVPair) (kv : KVPair) (post : List KVPair) (hkv : kv.NamesLength)
      (hpre : ∀ kv' ∈ pre, ¬kv'.NamesLength) :
      LengthWritten text (pre ++ kv :: post) (pre ++ ⟨kv.label, text⟩ :: post)
  | appended (hlref : List KVPair) (h : ∀ kv ∈ hlref, ¬kv.NamesLength) :
      LengthWritten text hlref (hlref ++ [⟨ascii "CONTENT-LENGTH", text⟩])

theorem labelMatches_length {key : Bytes} (hkey : SameText key (ascii "content-length"))
    (kv : KVPair) : labelMatches key kv = decide kv.NamesLength := by
  have hupper : key.map toupper = ascii "CONTENT-LENGTH" := by
    rw [(sameText_iff _ _).mp hkey]
    decide
  have hzero : 0 ∉ key := by
    intro hmem
    have : (0 : UInt8) ∈ key.map toupper := List.mem_map.mpr ⟨0, hmem, rfl⟩
    rw [hupper] at this
    exact absurd this (by decide)
  rw [labelMatches, makeUpper_eq hzero, hupper]
  rfl

theorem namesLength_new (text : Bytes) :
    (⟨ascii "CONTENT-LENGTH", text⟩ : KVPair).NamesLength := by
  have h : cstr (ascii "CONTENT-LENGTH") = ascii "CONTENT-LENGTH" := by decide
  exact h

theorem kvpairNew_length (text : Bytes) :
    kvpairNew (cstr (ascii "Content-length")) text = ⟨ascii "CONTENT-LENGTH", text⟩ := by
  have h : (cstr (ascii "Content-length")).map toupper = ascii "CONTENT-LENGTH" := by decide
  rw [kvpairNew, h]

/-- Both branches of `http_message_set_content_length` in one. -/
theorem httpMessageSetContentLength_eq (this : HttpMessage) {length : ℤ} (h : 0 ≤ length) :
    httpMessageSetContentLength this length =
      .ok { this with headers := writeLength (fmtD length) this.headers } := by
  have hkey : SameText (ascii "Content-length") (ascii "content-length") := by decide
  have hmatch (kv : KVPair) := labelMatches_length hkey kv
  have hlist (hlref : List KVPair) :
      (match hdrListFindIter hlref (ascii "Content-length") with
        | some iter => hlref.modify iter (kvpairSetValue · (fmtD length))
        | none => hdrListAddCstr hlref (ascii "Content-length") (fmtD length)) =
        writeLength (fmtD length) hlref := by
    induction hlref with
    | nil =>
      rw [hdrListFindIter, List.findIdx?_nil, hdrListAddCstr, kvpairNew_length,
        (cstr_eq_self_iff _).mpr (zero_not_mem_fmtD length)]
      rfl
    | cons kv hlref ih =>
      rw [writeLength, ← ih, hdrListFindIter, hdrListFindIter, List.findIdx?_cons, hmatch]
      by_cases hkv : kv.NamesLength
      · rw [if_pos hkv, decide_eq_true hkv]
        rfl
      · rw [if_neg hkv, decide_eq_false hkv]
        cases hlref.findIdx? (labelMatches (ascii "Content-length")) with
        | none => rfl
        | some iter => rfl
  rw [httpMessageSetContentLength, decide_eq_true h, cAssert_true, ok_bind, ← hlist]
  cases hdrListFindIter this.headers (ascii "Content-length") with
  | none => rfl
  | some iter => rfl

theorem writeLength_writeLength (text text' : Bytes) (hlref : List KVPair) :
    writeLength text' (writeLength text hlref) = writeLength text' hlref := by
  induction hlref with
  | nil =>
    rw [writeLength, writeLength, writeLength, if_pos (namesLength_new text)]
    rfl
  | cons kv hlref ih =>
    by_cases hkv : kv.NamesLength
    · have hset : (kvpairSetValue kv text).NamesLength := hkv
      rw [writeLength, if_pos hkv, writeLength, if_pos hset, writeLength, if_pos hkv]
      rfl
    · rw [writeLength, if_neg hkv, writeLength, if_neg hkv, ih, writeLength, if_neg hkv]

theorem writeLength_written (text : Bytes) (hlref : List KVPair) :
    LengthWritten text hlref (writeLength text hlref) := by
  induction hlref with
  | nil =>
    refine .appended [] fun kv hkv => ?_
    cases hkv
  | cons kv hlref ih =>
    rw [writeLength]
    split_ifs with hkv
    · refine .replaced [] kv hlref hkv fun kv' hkv' => ?_
      cases hkv'
    · generalize writeLength text hlref = new at ih ⊢
      cases ih with
      | replaced pre kv' post hkv' hpre =>
        refine .replaced (kv :: pre) kv' post hkv' ?_
        exact List.forall_mem_cons.mpr ⟨hkv, hpre⟩
      | appended _ h =>
        refine .appended (kv :: hlref) ?_
        exact List.forall_mem_cons.mpr ⟨hkv, h⟩

theorem LengthWritten.length_eq {text : Bytes} {old new : List KVPair}
    (h : LengthWritten text old new) :
    new.length = old.length+(if ∃ kv ∈ old, kv.NamesLength then 0 else 1) := by
  cases h with
  | replaced pre kv post hkv hpre =>
    rw [if_pos ⟨kv, List.mem_append_right pre List.mem_cons_self, hkv⟩]
    simp only [List.length_append, List.length_cons, Nat.add_zero]
  | appended _ h =>
    rw [if_neg (by rintro ⟨kv, hmem, hkv⟩; exact h kv hmem hkv)]
    simp only [List.length_append, List.length_cons, List.length_nil]

theorem LengthWritten.find {text : Bytes} {old new : List KVPair} (h : LengthWritten text old new)
    {key : Bytes} (hkey : SameText key (ascii "content-length")) :
    (hdrListFind new key).map KVPair.value = some text := by
  have hmatch : labelMatches key = fun kv => decide kv.NamesLength :=
    funext (labelMatches_length hkey)
  have hfirst (pre : List KVPair) (kv : KVPair) (post : List KVPair) (hkv : kv.NamesLength)
      (hpre : ∀ kv' ∈ pre, ¬kv'.NamesLength) : hdrListFind (pre ++ kv :: post) key = some kv := by
    rw [hdrListFind_eq, hmatch, List.find?_eq_some_iff_append]
    refine ⟨decide_eq_true hkv, pre, post, rfl, fun kv' hmem => ?_⟩
    rw [decide_eq_false (hpre kv' hmem)]
    rfl
  cases h with
  | replaced pre kv post hkv hpre =>
    rw [hfirst pre ⟨kv.label, text⟩ post hkv hpre]
    rfl
  | appended _ h =>
    rw [hfirst old ⟨_, text⟩ [] (namesLength_new text) h]
    rfl

/-- Only the last call counts. -/
theorem foldlM_setContentLength (this : HttpMessage) (ns : List ℤ) (n : ℤ)
    (hns : ∀ k ∈ ns ++ [n], 0 ≤ k) :
    (ns ++ [n]).foldlM httpMessageSetContentLength this = httpMessageSetContentLength this n := by
  have hn : 0 ≤ n := hns n (by simp)
  induction ns generalizing this with
  | nil => rw [List.nil_append, List.foldlM_cons, httpMessageSetContentLength_eq this hn]; rfl
  | cons k ns ih =>
    rw [List.cons_append, List.foldlM_cons,
      httpMessageSetContentLength_eq this (hns k List.mem_cons_self), ok_bind,
      ih _ fun k' hk' => hns k' (List.mem_cons_of_mem k hk'),
      httpMessageSetContentLength_eq _ hn, httpMessageSetContentLength_eq this hn,
      writeLength_writeLength]

/-- Any calls of `http_message_set_content_length` end as the last one alone would: the first
pair of that name has its text, every other pair and field is as it was, and the name is found
in any case of its letters. -/
theorem set_content_length_last (this : HttpMessage) (ns : List ℤ) (n : ℤ)
    (hns : ∀ k ∈ ns ++ [n], 0 ≤ k) :
    ∃ headers, (ns ++ [n]).foldlM httpMessageSetContentLength this =
        .ok { this with headers := headers } ∧
      httpMessageSetContentLength this n = .ok { this with headers := headers } ∧
      LengthWritten (fmtD n) this.headers headers ∧
      headers.length = this.headers.length+(if ∃ kv ∈ this.headers, kv.NamesLength then 0 else 1) ∧
      ∀ key, SameText key (ascii "content-length") →
        (hdrListFind headers key).map KVPair.value = some (fmtD n) := by
  have hlast := httpMessageSetContentLength_eq this (hns n (by simp))
  have hwritten := writeLength_written (fmtD n) this.headers
  refine ⟨_, ?_, hlast, hwritten, hwritten.length_eq, fun key hkey => hwritten.find hkey⟩
  rw [foldlM_setContentLength this ns n hns]
  exact hlast

theorem set_content_length_twelve :
    let this : HttpMessage := { httpMessageNew ⟨false, 200, .get⟩ with
      headers := [⟨ascii "HOST", ascii "a"⟩, ⟨ascii "CONTENT-LENGTH", ascii "7"⟩,
        ⟨ascii "CONTENT-LENGTH", ascii "9"⟩] }
    [(5 : ℤ), 12].foldlM httpMessageSetContentLength this = .ok { this with
      headers := [⟨ascii "HOST", ascii "a"⟩, ⟨ascii "CONTENT-LENGTH", ascii "12"⟩,
        ⟨ascii "CONTENT-LENGTH", ascii "9"⟩] } := by
  intro this
  obtain ⟨headers, hfold, hlast, -⟩ := set_content_length_last this [5] 12 (by decide)
  refine hfold.trans ?_
  rw [← hlast]
  rfl

end contentLength

end CHttp
