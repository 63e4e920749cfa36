import CHttp.UrlGrammar

/-! What the two loops of the URL parser record of a text that is laid out in pieces, whatever
its length: each field's offset and length, both modulo 2^16. -/
namespace CHttp

/-- The fields of the pieces, recorded one after the other from position `p` on. -/
def recordFrom (p : ℕ) : List UrlPiece → ParserUrl → ParserUrl
  | [], u => u
  | (none, w) :: ps, u => recordFrom (p+w.length) ps u
  | (some uf, w) :: ps, u =>
    recordFrom (p+w.length) ps (if w.isEmpty then u else u.begin uf p (UInt16.ofNat w.length))

section record

theorem ParserUrl.begin_grow (u : ParserUrl) (uf : UrlField) (p n : ℕ) :
    (u.begin uf p (UInt16.ofNat n)).grow uf = u.begin uf p (UInt16.ofNat (n+1)) := by
  rw [UInt16.ofNat_add]
  simp only [ParserUrl.grow, ParserUrl.begin, Function.update_self, Function.update_idem]
  rfl

@[simp] theorem recordFrom_port (p : ℕ) (ps : List UrlPiece) (u : ParserUrl) :
    (recordFrom p ps u).port = u.port := by
  induction ps generalizing p u with
  | nil => rfl
  | cons piece ps ih =>
    obtain ⟨label, w⟩ := piece
    cases label with
    | none => exact ih _ _
    | some uf =>
      rw [recordFrom, ih]
      split_ifs <;> rfl

/-- A field that is the label of no piece is left alone. -/
theorem recordFrom_of_not_mem (f : UrlField) (p : ℕ) (ps : List UrlPiece) (u : ParserUrl)
    (h : f ∉ labels ps) :
    (recordFrom p ps u).fieldData f = u.fieldData f ∧
      (f ∈ (recordFrom p ps u).fieldSet ↔ f ∈ u.fieldSet) := by
  induction ps generalizing p u with
  | nil => exact ⟨rfl, Iff.rfl⟩
  | cons piece ps ih =>
    obtain ⟨label, w⟩ := piece
    cases label with
    | none => exact ih _ _ h
    | some uf =>
      rw [labels_some, List.mem_cons, not_or] at h
      rw [recordFrom]
      obtain ⟨hdata, hset⟩ := ih (p+w.length)
        (if w.isEmpty then u else u.begin uf p (UInt16.ofNat w.length)) h.2
      rw [hdata, hset]
      split_ifs
      · exact ⟨rfl, Iff.rfl⟩
      · refine ⟨u.begin_of_ne uf f p _ h.1, ?_⟩
        rw [ParserUrl.begin_fieldSet, Finset.mem_insert, or_iff_right h.1]

/-- What is recorded of a field is where its piece stands. -/
theorem recordFrom_field (f : UrlField) (p : ℕ) (ps : List UrlPiece) (u : ParserUrl)
    (h : (labels ps).Nodup) :
    ((recordFrom p ps u).fieldData f = match laidSpan f p ps with
      | none => u.fieldData f
      | some (q, n) => ⟨UInt16.ofNat q, UInt16.ofNat n⟩) ∧
    (f ∈ (recordFrom p ps u).fieldSet ↔ f ∈ u.fieldSet ∨ (laidSpan f p ps).isSome = true) := by
  induction ps generalizing p u with
  | nil => exact ⟨rfl, (or_iff_left Bool.false_ne_true).symm⟩
  | cons piece ps ih =>
    obtain ⟨label, w⟩ := piece
    cases label with
    | none =>
      rw [recordFrom, laidSpan, if_neg (by rintro ⟨⟨⟩, -⟩)]
      exact ih _ _ h
    | some uf =>
      rw [labels_some, List.nodup_cons] at h
      rw [recordFrom, laidSpan]
      by_cases hfirst : some uf = some f ∧ w.isEmpty = false
      · obtain ⟨huf, hw⟩ := hfirst
        obtain rfl := Option.some.inj huf
        obtain ⟨hdata, hset⟩ := recordFrom_of_not_mem uf (p+w.length) ps
          (u.begin uf p (UInt16.ofNat w.length)) h.1
        have hbegin : (if w.isEmpty then u else u.begin uf p (UInt16.ofNat w.length)) =
            u.begin uf p (UInt16.ofNat w.length) := if_neg (by rw [hw]; exact Bool.false_ne_true)
        rw [hbegin, if_pos ⟨rfl, hw⟩, hdata, hset]
        refine ⟨u.begin_self uf p _, iff_of_true (Finset.mem_insert_self _ _) (.inr rfl)⟩
      · rw [if_neg hfirst]
        obtain ⟨hdata, hset⟩ := ih (p+w.length)
          (if w.isEmpty then u else u.begin uf p (UInt16.ofNat w.length)) h.2
        rw [hdata, hset]
        split_ifs with hw
        · exact ⟨rfl, Iff.rfl⟩
        · have hne : f ≠ uf := by
            rintro rfl
            exact hfirst ⟨rfl, Bool.eq_false_of_not_eq_true hw⟩
          rw [u.begin_of_ne uf f p _ hne, ParserUrl.begin_fieldSet, Finset.mem_insert,
            or_iff_right hne]
          exact ⟨rfl, Iff.rfl⟩

theorem ParserUrl.ext_fields {u v : ParserUrl} (hport : u.port = v.port)
    (h : ∀ f, u.fieldData f = v.fieldData f ∧ (f ∈ u.fieldSet ↔ f ∈ v.fieldSet)) : u = v := by
  obtain ⟨uset, uport, udata⟩ := u
  obtain ⟨vset, vport, vdata⟩ := v
  obtain rfl : uport = vport := hport
  obtain rfl : uset = vset := Finset.ext fun f => (h f).2
  obtain rfl : udata = vdata := funext fun f => (h f).1
  rfl

theorem laidRecord_field (f : UrlField) (ps : List UrlPiece) (port : UInt16) (u₀ : ParserUrl) :
    f ∈ (laidRecord ps port u₀).fieldSet ↔ (laidSpan f 0 ps).isSome = true := by
  rw [laidRecord, Finset.mem_filter, and_iff_right (Finset.mem_univ f)]

theorem laidRecord_of_span {f : UrlField} {ps : List UrlPiece} {p n : ℕ} (port : UInt16)
    (u₀ : ParserUrl) (h : laidSpan f 0 ps = some (p, n)) :
    (laidRecord ps port u₀).fieldData f = ⟨UInt16.ofNat p, UInt16.ofNat n⟩ := by
  rw [laidRecord]
  dsimp only
  rw [h]

theorem mem_laidRecord (f : UrlField) (ps : List UrlPiece) (port : UInt16) (u₀ : ParserUrl) :
    f ∈ (laidRecord ps port u₀).fieldSet ↔ ∃ w, (some f, w) ∈ ps ∧ w ≠ [] :=
  (laidRecord_field f ps port u₀).trans (laidSpan_isSome f ps 0)

/-- From the beginning, with no field set. -/
theorem recordFrom_eq_laidRecord (ps : List UrlPiece) (u : ParserUrl) (h : (labels ps).Nodup)
    (hset : u.fieldSet = ∅) : recordFrom 0 ps u = laidRecord ps u.port u := by
  apply ParserUrl.ext_fields
  · exact recordFrom_port 0 ps u
  · intro f
    obtain ⟨hdata, hmem⟩ := recordFrom_field f 0 ps u h
    refine ⟨hdata, ?_⟩
    rw [hmem, laidRecord_field, hset, or_iff_right (Finset.notMem_empty f)]

end record

section urlLoop

/-- The field that a state counts its byte in; `none` where the loop returns. -/
def urlLabel (s : UrlState) : Option (Option UrlField) :=
  match urlAction s with
  | .fail | .unexpected => none
  | .skip => some none
  | .field uf => some (some uf)

/-- Whether the loop enters the state that sets `found_at`. -/
def sawAt : UrlState → Bytes → Bool
  | _, [] => false
  | s, c :: w => decide (parseUrlChar s c = .serverWithAt) || sawAt (parseUrlChar s c) w

theorem sawAt_append (s : UrlState) (w r : Bytes) :
    sawAt s (w ++ r) = (sawAt s w || sawAt (w.foldl parseUrlChar s) r) := by
  induction w generalizing s with
  | nil => rfl
  | cons c w ih => rw [List.cons_append, sawAt, sawAt, ih, List.foldl_cons, Bool.or_assoc]

theorem urlAction_of_label {s : UrlState} {uf : UrlField} (h : urlLabel s = some (some uf)) :
    urlAction s = .field uf := by
  rw [urlLabel] at h
  cases hact : urlAction s with
  | field f =>
    rw [hact] at h
    rw [Option.some.inj (Option.some.inj h)]
  | fail | skip | unexpected =>
    rw [hact] at h
    cases h

theorem urlAction_of_skip {s : UrlState} (h : urlLabel s = some none) : urlAction s = .skip := by
  rw [urlLabel] at h
  cases hact : urlAction s with
  | skip => rfl
  | fail | field | unexpected =>
    rw [hact] at h
    cases h

/-- Over bytes between the fields. -/
theorem urlLoop_skip (w rest : Bytes) (p : ℕ) (l : UrlLocals)
    (h : Visits parseUrlChar urlLabel none l.s w) :
    urlLoop p l (w ++ rest) = urlLoop (p+w.length)
      { l with s := w.foldl parseUrlChar l.s, foundAt := l.foundAt || sawAt l.s w } rest := by
  induction w generalizing p l with
  | nil =>
    rw [sawAt, Bool.or_false]
    rfl
  | cons c w ih =>
    obtain ⟨hlabel, hmore⟩ := h
    rw [List.cons_append, urlLoop]
    simp only [urlAction_of_skip hlabel]
    rw [ih _ _ hmore, List.length_cons, sawAt, Bool.or_assoc, List.foldl_cons, Nat.add_assoc,
      Nat.add_comm 1]

/-- Over bytes of the field that the loop is in, `n` bytes of which are behind it. -/
theorem urlLoop_grow (uf : UrlField) (u : ParserUrl) (q n : ℕ) (w rest : Bytes) (p : ℕ)
    (s : UrlState) (foundAt : Bool) (h : Visits parseUrlChar urlLabel (some uf) s w) :
    urlLoop p ⟨s, some uf, foundAt, u.begin uf q (UInt16.ofNat n)⟩ (w ++ rest) =
      urlLoop (p+w.length) ⟨w.foldl parseUrlChar s, some uf, foundAt || sawAt s w,
        u.begin uf q (UInt16.ofNat (n+w.length))⟩ rest := by
  induction w generalizing p s foundAt n with
  | nil =>
    rw [sawAt, Bool.or_false]
    rfl
  | cons c w ih =>
    obtain ⟨hlabel, hmore⟩ := h
    rw [List.cons_append, urlLoop]
    simp only [urlAction_of_label hlabel, UrlLocals.onField, if_true]
    rw [ParserUrl.begin_grow, ih _ _ _ _ hmore, List.length_cons, sawAt, Bool.or_assoc,
      List.foldl_cons, Nat.add_assoc, Nat.add_assoc, Nat.add_comm 1]

/-- Over the bytes of a field that the loop enters. -/
theorem urlLoop_field (uf : UrlField) (w rest : Bytes) (hw : w ≠ []) (p : ℕ) (l : UrlLocals)
    (hold : l.oldUf ≠ some uf) (h : Visits parseUrlChar urlLabel (some uf) l.s w) :
    urlLoop p l (w ++ rest) = urlLoop (p+w.length) ⟨w.foldl parseUrlChar l.s, some uf,
      l.foundAt || sawAt l.s w, l.u.begin uf p (UInt16.ofNat w.length)⟩ rest := by
  cases w with
  | nil => exact absurd rfl hw
  | cons c w =>
    obtain ⟨hlabel, hmore⟩ := h
    rw [List.cons_append, urlLoop]
    simp only [urlAction_of_label hlabel, UrlLocals.onField, if_neg hold]
    have hgrow := urlLoop_grow uf l.u p 1 w rest (p+1) (parseUrlChar l.s c)
      (l.foundAt || decide (parseUrlChar l.s c = .serverWithAt)) hmore
    rw [show UInt16.ofNat 1 = 1 from rfl] at hgrow
    rw [hgrow, List.length_cons, sawAt, Bool.or_assoc, List.foldl_cons, Nat.add_assoc,
      Nat.add_comm 1]

/-- The loop over a text laid out in pieces whose labels its states have. -/
theorem urlLoop_pieces (ps : List UrlPiece) (p : ℕ) (l : UrlLocals)
    (h : Drives parseUrlChar urlLabel l.s ps) (hnodup : (labels ps).Nodup)
    (hold : ∀ uf, l.oldUf = some uf → uf ∉ labels ps) :
    ∃ oldUf, urlLoop p l (laidText ps) = .ok ⟨(laidText ps).foldl parseUrlChar l.s, oldUf,
      l.foundAt || sawAt l.s (laidText ps), recordFrom p ps l.u⟩ := by
  induction ps generalizing p l with
  | nil =>
    refine ⟨l.oldUf, ?_⟩
    rw [laidText_nil, sawAt, Bool.or_false]
    rfl
  | cons piece ps ih =>
    obtain ⟨label, w⟩ := piece
    obtain ⟨hvisits, hrest⟩ := h
    rw [laidText_cons, List.foldl_append, sawAt_append, ← Bool.or_assoc]
    cases label with
    | none =>
      rw [urlLoop_skip w _ p l hvisits]
      exact ih _ _ hrest hnodup hold
    | some uf =>
      rw [labels_some, List.nodup_cons] at hnodup
      have hmem (f : UrlField) (hf : l.oldUf = some f) : f ≠ uf ∧ f ∉ labels ps := by
        have hnot := hold f hf
        rw [labels_some, List.mem_cons, not_or] at hnot
        exact hnot
      by_cases hw : w = []
      · rw [hw] at hrest ⊢
        have := ih p l hrest hnodup.2 fun f hf => (hmem f hf).2
        rw [List.foldl_nil, sawAt, Bool.or_false]
        exact this
      · rw [urlLoop_field uf w _ hw p l (fun hf => (hmem uf hf).1 rfl) hvisits, recordFrom,
          if_neg (by simpa using hw)]
        refine ih _ _ hrest hnodup.2 ?_
        rintro f ⟨⟩
        exact hnodup.1

/-- The state in which the loop ends is the scanner's. -/
theorem urlLoop_state (rest : Bytes) (p : ℕ) (l l' : UrlLocals) (h : urlLoop p l rest = .ok l') :
    l'.s = rest.foldl parseUrlChar l.s := by
  induction rest generalizing p l with
  | nil =>
    rw [← Except.ok.inj h]
    rfl
  | cons c rest ih =>
    rw [urlLoop] at h
    rw [List.foldl_cons]
    cases hact : urlAction (parseUrlChar l.s c) with
    | fail =>
      simp only [hact] at h
      have hdead : parseUrlChar l.s c = .dead := by
        revert hact
        cases parseUrlChar l.s c <;> decide
      rw [← Except.ok.inj h, hdead, foldl_dead parseUrlChar_dead]
    | skip =>
      simp only [hact] at h
      exact ih _ _ h
    | field uf =>
      simp only [hact] at h
      rw [ih _ _ h, UrlLocals.onField]
      split_ifs <;> rfl
    | unexpected =>
      simp only [hact] at h
      cases h

end urlLoop

section slice

/-- The next byte of a part of the buffer. -/
theorem byteAt_slice {buf : Bytes} {p n : ℕ} {c : UInt8} {w : Bytes}
    (h : (buf.drop p).take (n+1) = c :: w) :
    byteAt buf p = .ok c ∧ (buf.drop (p+1)).take n = w := by
  cases hdrop : buf.drop p with
  | nil =>
    rw [hdrop, List.take_nil] at h
    cases h
  | cons d rest =>
    rw [hdrop, List.take_succ_cons] at h
    obtain ⟨rfl, hw⟩ := List.cons.inj h
    constructor
    · have hget : buf[p]? = some d := by
        rw [← List.head?_drop, hdrop, List.head?_cons]
      rw [byteAt, hget]
    · rw [← List.tail_drop, hdrop, List.tail_cons]
      exact hw

end slice

section hostLoop

/-- The field that a state of the host counts its byte in. -/
def hostLabel : HttpHostState → Option (Option UrlField)
  | .dead => none
  | .host | .hostV6 | .hostV6ZoneStart | .hostV6Zone => some (some .host)
  | .hostPort => some (some .port)
  | .userinfo => some (some .userinfo)
  | .userinfoStart | .hostStart | .hostV6Start | .hostV6End | .hostPortStart => some none

/-- The loop over the host, on the bytes themselves. -/
def hostScan (p : ℕ) (s : HttpHostState) (u : ParserUrl) : Bytes → HttpHostState × ParserUrl
  | [] => (s, u)
  | ch :: rest =>
    let newS := cHttpParseHostChar s ch
    if newS = .dead then (.dead, u) else hostScan (p+1) newS (hostField s newS p u) rest

theorem hostLoop_slice (buf : Bytes) (w : Bytes) (p n : ℕ) (s : HttpHostState) (u : ParserUrl)
    (h : (buf.drop p).take n = w) (hn : w.length = n) :
    hostLoop buf p n s u = .ok (hostScan p s u w) := by
  induction w generalizing p n s u with
  | nil =>
    rw [← hn]
    rfl
  | cons c w ih =>
    obtain rfl : w.length+1 = n := hn
    obtain ⟨hbyte, hrest⟩ := byteAt_slice h
    rw [hostLoop, hbyte, ok_bind, hostScan]
    dsimp only
    split_ifs
    · rfl
    · exact ih _ _ _ _ hrest rfl

/-- The state in which the loop ends is the scanner's. -/
theorem hostScan_state (w : Bytes) (p : ℕ) (s : HttpHostState) (u : ParserUrl) :
    (hostScan p s u w).1 = w.foldl cHttpParseHostChar s := by
  induction w generalizing p s u with
  | nil => rfl
  | cons c w ih =>
    rw [hostScan, List.foldl_cons]
    split_ifs with hdead
    · rw [hdead, foldl_dead cHttpParseHostChar_dead]
    · exact ih _ _ _

section hostField

variable {s newS : HttpHostState} {ch : UInt8} {uf : UrlField}

theorem hostField_skip (p : ℕ) (u : ParserUrl) (h : hostLabel newS = some none) :
    hostField s newS p u = u := by
  cases newS <;> first | rfl | cases h

/-- A step inside a field only adds to its length. -/
theorem hostField_stay (p : ℕ) (u : ParserUrl) (hstep : cHttpParseHostChar s ch = newS)
    (hnew : hostLabel newS = some (some uf)) (hold : hostLabel s = some (some uf)) :
    hostField s newS p u = u.grow uf := by
  have hsame : newS = s ∨ newS = .hostV6ZoneStart ∨ newS = .hostV6Zone := by
    subst hstep
    revert hnew hold
    unfold cHttpParseHostChar
    cases s <;> dsimp only <;> (try split_ifs) <;> cases uf <;> decide
  rcases hsame with rfl | rfl | rfl
  · cases newS <;> simp only [hostLabel, Option.some.injEq, reduceCtorEq] at hnew <;>
      subst hnew <;> simp [hostField]
  · obtain rfl := Option.some.inj (Option.some.inj hnew)
    rfl
  · obtain rfl := Option.some.inj (Option.some.inj hnew)
    rfl

theorem ParserUrl.setOff_grow (u : ParserUrl) (p : ℕ) (huf : uf ∈ u.fieldSet)
    (hlen : (u.fieldData uf).len = 0) : (u.setOff uf p).grow uf = u.begin uf p 1 := by
  apply ParserUrl.ext_fields
  · rfl
  · intro f
    rw [ParserUrl.begin_fieldSet, Finset.insert_eq_of_mem huf]
    refine ⟨?_, Iff.rfl⟩
    by_cases hf : f = uf
    · rw [hf, ParserUrl.grow_self, ParserUrl.setOff_self, ParserUrl.begin_self]
      dsimp only
      rw [hlen]
      rfl
    · rw [ParserUrl.grow_of_ne _ _ _ hf, ParserUrl.setOff_of_ne _ _ _ _ hf,
        ParserUrl.begin_of_ne _ _ _ _ _ hf]

/-- A step into a field records where it starts. The host's length was cleared before. -/
theorem hostField_enter (p : ℕ) (u : ParserUrl) (hstep : cHttpParseHostChar s ch = newS)
    (hnew : hostLabel newS = some (some uf)) (hold : hostLabel s ≠ some (some uf))
    (hhost : uf = .host → UrlField.host ∈ u.fieldSet ∧ (u.fieldData .host).len = 0) :
    hostField s newS p u = u.begin uf p 1 := by
  have hbegin (f : UrlField) : (u.begin f p 0).grow f = u.begin f p 1 :=
    u.begin_grow f p 0
  have hzone : newS ≠ .hostV6ZoneStart ∧ newS ≠ .hostV6Zone ∧ s ≠ newS := by
    subst hstep
    revert hnew hold
    unfold cHttpParseHostChar
    cases s <;> dsimp only <;> (try split_ifs) <;> cases uf <;> decide
  obtain ⟨hstart, hzone, hne⟩ := hzone
  cases newS <;> simp only [hostLabel, Option.some.injEq, reduceCtorEq] at hnew <;> subst hnew
  · rw [hostField, if_pos hne]
    exact hbegin .userinfo
  · rw [hostField, if_pos hne]
    exact u.setOff_grow p (hhost rfl).1 (hhost rfl).2
  · rw [hostField, if_pos hne]
    exact u.setOff_grow p (hhost rfl).1 (hhost rfl).2
  · exact absurd rfl hstart
  · exact absurd rfl hzone
  · rw [hostField, if_pos hne]
    exact hbegin .port

end hostField

theorem ne_dead_of_hostLabel {s : HttpHostState} {l : Option UrlField} (h : hostLabel s = some l) :
    s ≠ .dead := by
  rintro rfl
  cases h

/-- Over bytes between the fields. -/
theorem hostScan_skip (w rest : Bytes) (p : ℕ) (s : HttpHostState) (u : ParserUrl)
    (h : Visits cHttpParseHostChar hostLabel none s w) :
    hostScan p s u (w ++ rest) =
      hostScan (p+w.length) (w.foldl cHttpParseHostChar s) u rest := by
  induction w generalizing p s with
  | nil => rfl
  | cons c w ih =>
    obtain ⟨hlabel, hmore⟩ := h
    rw [List.cons_append, hostScan]
    rw [if_neg (ne_dead_of_hostLabel hlabel), hostField_skip p u hlabel, ih _ _ hmore,
      List.length_cons, List.foldl_cons, Nat.add_assoc, Nat.add_comm 1]

theorem hostScan_grow (uf : UrlField) (u : ParserUrl) (q n : ℕ) (w rest : Bytes) (p : ℕ)
    (s : HttpHostState) (hs : hostLabel s = some (some uf))
    (h : Visits cHttpParseHostChar hostLabel (some uf) s w) :
    hostScan p s (u.begin uf q (UInt16.ofNat n)) (w ++ rest) =
      hostScan (p+w.length) (w.foldl cHttpParseHostChar s)
        (u.begin uf q (UInt16.ofNat (n+w.length))) rest := by
  induction w generalizing p s n with
  | nil => rfl
  | cons c w ih =>
    obtain ⟨hlabel, hmore⟩ := h
    rw [List.cons_append, hostScan]
    rw [if_neg (ne_dead_of_hostLabel hlabel), hostField_stay p _ rfl hlabel hs,
      ParserUrl.begin_grow, ih _ _ _ hlabel hmore, List.length_cons, List.foldl_cons, Nat.add_assoc,
      Nat.add_assoc, Nat.add_comm 1]

theorem hostScan_field (uf : UrlField) (w rest : Bytes) (hw : w ≠ []) (p : ℕ) (s : HttpHostState)
    (u : ParserUrl) (hold : hostLabel s ≠ some (some uf))
    (hhost : uf = .host → UrlField.host ∈ u.fieldSet ∧ (u.fieldData .host).len = 0)
    (h : Visits cHttpParseHostChar hostLabel (some uf) s w) :
    hostScan p s u (w ++ rest) = hostScan (p+w.length) (w.foldl cHttpParseHostChar s)
      (u.begin uf p (UInt16.ofNat w.length)) rest := by
  cases w with
  | nil => exact absurd rfl hw
  | cons c w =>
    obtain ⟨hlabel, hmore⟩ := h
    have hgrow := hostScan_grow uf u p 1 w rest (p+1) (cHttpParseHostChar s c) hlabel hmore
    rw [show UInt16.ofNat 1 = 1 from rfl] at hgrow
    rw [List.cons_append, hostScan]
    rw [if_neg (ne_dead_of_hostLabel hlabel), hostField_enter p u rfl hlabel hold hhost, hgrow,
      List.length_cons, List.foldl_cons, Nat.add_assoc, Nat.add_comm 1]

/-- Bytes between the fields leave the last field's label or have none. -/
theorem hostLabel_foldl_skip {uf : UrlField} {s : HttpHostState} {w : Bytes}
    (h : Visits cHttpParseHostChar hostLabel none s w)
    (hend : hostLabel (w.foldl cHttpParseHostChar s) = some (some uf)) :
    hostLabel s = some (some uf) := by
  induction w generalizing s with
  | nil => exact hend
  | cons c w ih =>
    have hlabel := ih h.2 hend
    rw [h.1] at hlabel
    cases hlabel

/-- The loop over a host laid out in pieces whose labels its states have. -/
theorem hostScan_pieces (ps : List UrlPiece) (p : ℕ) (s : HttpHostState) (u : ParserUrl)
    (h : Drives cHttpParseHostChar hostLabel s ps) (hnodup : (labels ps).Nodup)
    (hold : ∀ uf, hostLabel s = some (some uf) → uf ∉ labels ps)
    (hhost : UrlField.host ∈ labels ps →
      UrlField.host ∈ u.fieldSet ∧ (u.fieldData .host).len = 0) :
    hostScan p s u (laidText ps) =
      ((laidText ps).foldl cHttpParseHostChar s, recordFrom p ps u) := by
  induction ps generalizing p s u with
  | nil => rfl
  | cons piece ps ih =>
    obtain ⟨label, w⟩ := piece
    obtain ⟨hvisits, hrest⟩ := h
    rw [laidText_cons, List.foldl_append]
    cases label with
    | none =>
      rw [hostScan_skip w _ p s u hvisits]
      refine ih _ _ _ hrest hnodup ?_ hhost
      intro uf huf
      exact hold uf (hostLabel_foldl_skip hvisits huf)
    | some uf =>
      rw [labels_some, List.nodup_cons] at hnodup
      rw [labels_some] at hold hhost
      by_cases hw : w = []
      · rw [hw] at hrest ⊢
        exact ih p s u hrest hnodup.2 (fun f hf hmem => hold f hf (List.mem_cons_of_mem _ hmem))
          fun hmem => hhost (List.mem_cons_of_mem _ hmem)
      · rw [hostScan_field uf w _ hw p s u (fun hf => hold uf hf (List.mem_cons_self ..))
          (fun huf => hhost (huf ▸ List.mem_cons_self ..)) hvisits, recordFrom,
          if_neg (by simpa using hw)]
        refine ih _ _ _ hrest hnodup.2 ?_ ?_
        · intro f hf
          rw [label_foldl hw hvisits] at hf
          obtain rfl := Option.some.inj (Option.some.inj hf)
          exact hnodup.1
        · intro hmem
          have hne : UrlField.host ≠ uf := by
            rintro rfl
            exact hnodup.1 hmem
          rw [ParserUrl.begin_of_ne _ _ _ _ _ hne]
          obtain ⟨hset, hlen⟩ := hhost (List.mem_cons_of_mem _ hmem)
          exact ⟨Finset.mem_insert_of_mem hset, hlen⟩

end hostLoop

section port

theorem digitValue_of_isNum {c : UInt8} (h : isNum c = true) :
    digitValue c = ((c.toNat-48 : ℕ) : ℤ) ∧ c.toNat-48 ≤ 9 := by
  rw [isNum, decide_eq_true_eq, UInt8.le_iff_toNat_le, UInt8.le_iff_toNat_le] at h
  have hlt : c < 128 := by
    rw [UInt8.lt_iff_toNat_lt]
    exact Nat.lt_of_le_of_lt h.2 (by decide)
  obtain ⟨hl, hu⟩ := h
  change 48 ≤ c.toNat at hl
  change c.toNat ≤ 57 at hu
  rw [digitValue, if_pos hlt]
  omega

/-- The digits behind a number make it larger. -/
theorem le_foldl_decimal (w : Bytes) (v : ℕ) :
    v ≤ w.foldl (fun v c => v*10+(c.toNat-48)) v := by
  induction w generalizing v with
  | nil => exact le_rfl
  | cons c w ih =>
    rw [List.foldl_cons]
    exact le_trans (by omega) (ih _)

/-- The conversion of the port gives its value, or stops on one that is too large. -/
theorem portLoop_eq (buf : Bytes) (w : Bytes) (hw : ∀ c ∈ w, isNum c = true) (p n v : ℕ)
    (hv : v ≤ 0xffff) (h : (buf.drop p).take n = w) (hn : w.length = n) :
    portLoop buf p n v = .ok (
      if w.foldl (fun v c => v*10+(c.toNat-48)) v ≤ 0xffff
      then some ((w.foldl (fun v c => v*10+(c.toNat-48)) v : ℕ) : ℤ) else none) := by
  induction w generalizing p n v with
  | nil =>
    rw [← hn, List.foldl_nil, if_pos hv]
    rfl
  | cons c w ih =>
    obtain rfl : w.length+1 = n := hn
    obtain ⟨hbyte, hrest⟩ := byteAt_slice h
    obtain ⟨hdigit, hsmall⟩ := digitValue_of_isNum (hw c (List.mem_cons_self ..))
    have hvalue : ((v : ℤ)*10%2^64+digitValue c)%2^64 = ((v*10+(c.toNat-48) : ℕ) : ℤ) := by
      rw [hdigit]
      omega
    rw [portLoop, hbyte, ok_bind, List.foldl_cons]
    dsimp only
    rw [hvalue]
    by_cases hbig : v*10+(c.toNat-48) ≤ 0xffff
    · rw [if_neg (by omega)]
      exact ih (fun d hd => hw d (List.mem_cons_of_mem c hd)) _ _ _ hbig hrest rfl
    · have hmore := le_foldl_decimal w (v*10+(c.toNat-48))
      rw [if_pos (by omega), if_neg (by omega)]

end port

end CHttp
