import CHttp.BufferChain

/-! `BufferChain_eq_cstr`. One index runs through the string while the bytes of the
segments are compared with it; where the string ends is never asked. -/
namespace CHttp

/-- `cstr[i]`. Behind the bytes of the string lies its NUL, and nothing of it before. -/
def cstrAt (s : Bytes) (i : ℤ) : Res UInt8 :=
  if i < 0 then .error .outOfBounds
  else
    match (s ++ [0])[i.toNat]? with
    | none => .error .outOfBounds
    | some c => .ok c

/-- The inner loop over the data of a segment. It ends with the index, or with none where
the function returns false. -/
def bufferChainEqData (s : Bytes) : List Cell → ℤ → Res (Option ℤ)
  | [], cstrIndex => .ok (some cstrIndex)
  | cell :: data, cstrIndex => do
    let c ← cstrAt s cstrIndex
    match cell with
    | none => .error .indeterminate
    | some d => if c ≠ d then .ok none else bufferChainEqData s data (cInt (cstrIndex+1))

/-- The outer loop over the segments. -/
def bufferChainEqSegments (s : Bytes) : List IOBuffer → ℤ → Res Bool
  | [], _ => .ok true
  | tmp :: iter, cstrIndex => do
    match ← bufferChainEqData s (iobufferData tmp) cstrIndex with
    | none => .ok false
    | some cstrIndex => bufferChainEqSegments s iter cstrIndex

def bufferChainEqCstr (this : BufferChain) (s : Bytes) : Res Bool :=
  bufferChainEqSegments s this.mChain 0

theorem bufferChainEqData_append (s : Bytes) (d e : List Cell) (i : ℤ) :
    bufferChainEqData s (d ++ e) i = bufferChainEqData s d i >>= fun r =>
      match r with
      | none => .ok none
      | some j => bufferChainEqData s e j := by
  induction d generalizing i with
  | nil => rfl
  | cons cell d ih =>
    simp only [List.cons_append, bufferChainEqData]
    cases cstrAt s i with
    | error e => rfl
    | ok c =>
      cases cell with
      | none => rfl
      | some b =>
        by_cases hc : c = b
        · simp only [ok_bind, hc, ne_eq, not_true_eq_false, if_false, ih]
        · simp only [ok_bind, hc, ne_eq, not_false_eq_true, if_true]

/-- The segmentation does not matter: the loops compare the content. -/
theorem bufferChainEqSegments_eq (s : Bytes) (segs : List IOBuffer) (i : ℤ) :
    bufferChainEqSegments s segs i =
      bufferChainEqData s (segs.flatMap iobufferData) i >>= fun r => .ok r.isSome := by
  induction segs generalizing i with
  | nil => rfl
  | cons tmp segs ih =>
    rw [List.flatMap_cons, bufferChainEqData_append, bufferChainEqSegments]
    cases bufferChainEqData s (iobufferData tmp) i with
    | error e => rfl
    | ok r =>
      cases r with
      | none => rfl
      | some j => exact ih j

/-- Up to the NUL the string can be read. -/
theorem cstrAt_natCast (s : Bytes) (k : ℕ) (hk : k ≤ s.length) :
    cstrAt s k = .ok ((s.drop k).headD 0) := by
  have hneg : ¬((k : ℤ) < 0) := by omega
  rw [cstrAt, if_neg hneg, Int.toNat_natCast]
  rcases hk.lt_or_eq with hlt | rfl
  · rw [List.getElem?_append_left hlt, List.getElem?_eq_getElem hlt, List.drop_eq_getElem_cons hlt]
    rfl
  · rw [List.getElem?_concat_length, List.drop_length]
    rfl

/-- The index that follows 2147483647 points in front of the string. -/
theorem cstrAt_wrapped (s : Bytes) : cstrAt s (cInt ((2^31 : ℕ) : ℤ)) = .error .outOfBounds := by
  rw [cInt_wrap _ (by norm_num) (by norm_num), cstrAt, if_pos (by norm_num)]

/-- What the loop makes of bytes `b`, none of them NUL, from the index `k` on: it gets
through if the string goes on with `b`, and finds a difference if it does not, in both
cases before the index wraps. -/
theorem bufferChainEqData_spec (s b : Bytes) (k : ℕ) (hb : 0 ∉ b) (hk : k ≤ s.length)
    (hwrap : k ≤ 2^31) :
    ((∃ j, bufferChainEqData s (b.map some) (cInt k) = .ok (some j)) ↔
        b <+: s.drop k ∧ k+b.length ≤ 2^31) ∧
      (bufferChainEqData s (b.map some) (cInt k) = .ok none ↔ ¬b.take (2^31-k) <+: s.drop k) := by
  induction b generalizing k with
  | nil => simpa [bufferChainEqData] using hwrap
  | cons x b ih =>
    obtain ⟨hx, hb⟩ : 0 ≠ x ∧ 0 ∉ b := by simpa using hb
    rcases hwrap.lt_or_eq with hlt | rfl
    · have hroom : 2^31-k = (2^31-(k+1))+1 := by omega
      have hnext : cInt ((k : ℤ)+1) = cInt ((k+1 : ℕ) : ℤ) := by rw [Nat.cast_add, Nat.cast_one]
      simp only [List.map_cons, bufferChainEqData, cInt_natCast k hlt, cstrAt_natCast s k hk, ok_bind,
        hnext, hroom, List.take_succ_cons, List.length_cons]
      rcases hrest : s.drop k with _ | ⟨y, rest⟩
      · simp [hx]
      · obtain rfl : s.drop (k+1) = rest := by rw [← List.tail_drop, hrest, List.tail_cons]
        have hin : k < s.length := by
          by_contra hout
          rw [List.drop_eq_nil_of_le (not_lt.mp hout)] at hrest
          cases hrest
        by_cases hc : y = x
        · obtain ⟨hthrough, hdiffers⟩ := ih (k+1) hb hin hlt
          simp only [hc, List.headD_cons, ne_eq, not_true_eq_false, if_false, List.prefix_cons_inj,
            hthrough, hdiffers, and_true]
          rw [Nat.add_right_comm, Nat.add_assoc]
        · simp [hc, Ne.symm hc, List.cons_prefix_cons]
    · simp only [List.map_cons, bufferChainEqData, cstrAt_wrapped, error_bind]
      simp

/-- The function returns true if the loop gets through, and false if it finds a difference. -/
theorem bufferChainEqCstr_eq (chain : BufferChain) (b s : Bytes)
    (hcontent : bufferChainContent chain = b.map some) :
    (bufferChainEqCstr chain s = .ok true ↔
        ∃ j, bufferChainEqData s (b.map some) 0 = .ok (some j)) ∧
      (bufferChainEqCstr chain s = .ok false ↔ bufferChainEqData s (b.map some) 0 = .ok none) := by
  have hloop : bufferChainEqCstr chain s =
      bufferChainEqData s (b.map some) 0 >>= fun r => .ok r.isSome := by
    rw [bufferChainEqCstr, bufferChainEqSegments_eq, ← hcontent, bufferChainContent]
  rw [hloop]
  rcases bufferChainEqData s (b.map some) 0 with e | _ | j <;> simp

/-- The answer is right exactly if the content is the string and the index does not
wrap on the way, or differs from it at a byte that the index can reach. -/
theorem bufferChain_eqCstr_iff (chain : BufferChain) (b s : Bytes)
    (hcontent : bufferChainContent chain = b.map some) (hb : 0 ∉ b) :
    bufferChainEqCstr chain s = .ok (decide (b = s)) ↔
      (b = s ∧ b.length ≤ 2^31) ∨ ¬b.take (2^31) <+: s := by
  have hzero : cInt ((0 : ℕ) : ℤ) = 0 := cInt_natCast 0 (by decide)
  obtain ⟨hthrough, hdiffers⟩ := bufferChainEqData_spec s b 0 hb (Nat.zero_le _) (by decide)
  simp only [hzero, List.drop_zero, Nat.zero_add, Nat.sub_zero] at hthrough hdiffers
  obtain ⟨htrue, hfalse⟩ := bufferChainEqCstr_eq chain b s hcontent
  by_cases hbs : b = s
  · subst hbs
    have hpre : b.take (2^31) <+: b := List.take_prefix _ _
    rw [decide_eq_true rfl, htrue, hthrough]
    simp only [List.prefix_rfl, hpre, not_true_eq_false, or_false, true_and]
  · rw [decide_eq_false hbs, hfalse, hdiffers]
    simp only [hbs, false_and, false_or]

/-- A chain with a segment for each byte of `ab`. -/
def twoSegments : BufferChain :=
  ⟨[⟨[some 97, some 0], 1, 0, 1⟩, ⟨[some 98, some 0], 1, 0, 1⟩], 2⟩

theorem bufferChain_eqCstr_ab :
    bufferChainContent twoSegments = ([97, 98] : Bytes).map some ∧
      bufferChainEqCstr twoSegments [97, 98] = .ok true ∧
      bufferChainEqCstr twoSegments [97, 99] = .ok false := by
  have hcontent : bufferChainContent twoSegments = ([97, 98] : Bytes).map some := by decide
  refine ⟨hcontent, ?_, ?_⟩
  · exact (bufferChain_eqCstr_iff twoSegments [97, 98] [97, 98] hcontent (by decide)).mpr
      (.inl ⟨rfl, by decide⟩)
  · exact (bufferChain_eqCstr_iff twoSegments [97, 98] [97, 99] hcontent (by decide)).mpr
      (.inr (by decide))

/-- The chain is said to equal every string that goes on after `ab`. -/
theorem bufferChain_eqCstr_longer :
    bufferChainContent twoSegments = ([97, 98] : Bytes).map some ∧
      bufferChainEqCstr twoSegments [97, 98, 99] = .ok true := by
  decide

end CHttp
