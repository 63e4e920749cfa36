import CHttp.IOBuffer

/-! `IOBuffer_sprintf` step by step: what each call of `vsnprintf` writes, and into which
block. A pointer into a block that was freed is not a pointer into the block that replaces
it, even if malloc returns the same address. -/
namespace CHttp

/-- `vsnprintf(buf, n, ...)` for a text, with `buf` at `i` in a block: the first `n-1` bytes
and a NUL are written, and the length of the whole text is returned. -/
def vsnprintf (mem : List Cell) (i : ℕ) (n : ℕ) (text : Bytes) : Res (List Cell × ℤ) :=
  if n = 0 then .ok (mem, cInt text.length)
  else do
    let mem ← memWrite mem i ((text.take (n-1)).map some ++ [some 0])
    .ok (mem, cInt text.length)

/-- The buffer, and whether it has a new block. -/
def iobufferExpandAndReset (this : IOBuffer) (newCapacity : ℤ) : Res (IOBuffer × Bool) :=
  if newCapacity > this.bufferCapacity then do
    let this ← iobufferInit newCapacity
    .ok (this, true)
  else .ok (this, false)

/-- An `int` given as a `size_t`. -/
def sizeT (n : ℤ) : ℕ := (n%2^64).toNat

/-- The branch for a text that did not fit. The second call writes through the pointer that
the first was given: after an expansion that is the old block. -/
def iobufferSprintfAgain (this : IOBuffer) (buf : ℕ) (nchars1 : ℤ) (text : Bytes) :
    Res IOBuffer := do
  let (this, expanded) ← iobufferExpandAndReset this (cInt (2*nchars1))
  let len2 := iobufferSpaceLen this
  if expanded then .error .outOfBounds
  else do
    let (mem, nchars2) ← vsnprintf this.mem buf (sizeT len2) text
    cAssert (len2 > nchars2) "len2 > nchars2"
    iobufferCommit { this with mem := mem } nchars2.toNat

/-- `IOBuffer_sprintf`. -/
def iobufferSprintfCalls (this : IOBuffer) (text : Bytes) : Res IOBuffer := do
  let buf := this.bufferPtr+this.bufferRemaining
  let len1 := iobufferSpaceLen this
  let (mem, nchars1) ← vsnprintf this.mem buf (sizeT len1) text
  let this := { this with mem := mem }
  if nchars1 > len1-1 then iobufferSprintfAgain this buf nchars1 text
  else iobufferCommit this nchars1.toNat

/-- The buffer's data is now `d` and behind it the text. -/
def SprintfAppends (iob : IOBuffer) (d : List Cell) (text : Bytes) : Prop :=
  ∃ iob', iobufferSprintfCalls iob text = .ok iob' ∧ iobufferData iob' = d ++ text.map some ∧
    iobufferDataLen iob' = d.length+text.length

section appends

variable {iob : IOBuffer} {c : ℕ} {d : List Cell} {text : Bytes}

theorem sizeT_natCast (n : ℕ) (hn : n < 2^31) : sizeT n = n := by
  rw [sizeT, Int.emod_eq_of_lt (by omega) (by omega), Int.toNat_natCast]

/-- With room for the text and its terminator the first call is the only one. -/
theorem iobufferSprintfCalls_fits (h : iob.Holds c d) (hc : c+1 < 2^31) (hne : text ≠ [])
    (hf : d.length+text.length < c) :
    ∃ iob', iobufferSprintfCalls iob text = .ok iob' ∧ iobufferSprintf iob text = .ok iob' ∧
      iob'.Holds c (d ++ text.map some) := by
  obtain ⟨filled, iob', hfill, hcommit, hh⟩ := iobufferFillSpace_text iob c d text h hne hf
  have hspace : iobufferSpaceLen iob = ((c-d.length : ℕ) : ℤ) := by
    rw [h.queues.space, h.ptr]
    omega
  have hn : cInt text.length = text.length := cInt_natCast _ (by omega)
  have htake : text.take (c-d.length-1) = text := List.take_of_length_le (by omega)
  obtain ⟨mem, hwrite, hmem⟩ := (bind_eq_ok _ _ _).mp hfill
  obtain rfl := Except.ok.inj hmem
  have hcall : vsnprintf iob.mem (iob.bufferPtr+iob.bufferRemaining) (c-d.length) text =
      .ok (mem, text.length) := by
    rw [vsnprintf, if_neg (by omega), htake, hwrite, ok_bind, hn]
  have hroom : ¬((text.length : ℤ) > iobufferSpaceLen iob-1) := by
    rw [hspace]
    omega
  refine ⟨iob', ?_, ?_, hh⟩
  · simp only [iobufferSprintfCalls, hspace, sizeT_natCast _ (show c-d.length < 2^31 by omega),
      hcall, ok_bind]
    rw [← hspace, if_neg hroom, Int.toNat_natCast, hcommit]
  · simp only [iobufferSprintf, if_neg hroom, hfill, ok_bind, hcommit]

theorem vsnprintf_returns (mem mem' : List Cell) (i n : ℕ) (nchars : ℤ)
    (h : vsnprintf mem i n text = .ok (mem', nchars)) : nchars = cInt text.length := by
  rw [vsnprintf] at h
  split_ifs at h
  · exact (Prod.mk.inj (Except.ok.inj h)).2.symm
  · obtain ⟨mem'', -, h⟩ := (bind_eq_ok _ _ _).mp h
    exact (Prod.mk.inj (Except.ok.inj h)).2.symm

/-- Once the text was found too long, no path returns. -/
theorem iobufferSprintfAgain_ne_ok (this iob' : IOBuffer) (buf : ℕ) (nchars1 : ℤ)
    (hn : nchars1 = cInt text.length) (hlong : nchars1 > iobufferSpaceLen this-1) :
    iobufferSprintfAgain this buf nchars1 text ≠ .ok iob' := by
  intro hok
  obtain ⟨⟨iob, expanded⟩, hexpand, hok⟩ := (bind_eq_ok _ _ _).mp hok
  cases expanded with
  | true => cases hok
  | false =>
    have hsame : this = iob := by
      rw [iobufferExpandAndReset] at hexpand
      split_ifs at hexpand
      · obtain ⟨new, -, hnew⟩ := (bind_eq_ok _ _ _).mp hexpand
        cases hnew
      · exact (Prod.mk.inj (Except.ok.inj hexpand)).1
    subst hsame
    obtain ⟨⟨mem, nchars2⟩, hcall, hok⟩ := (bind_eq_ok _ _ _).mp hok
    have hn2 := vsnprintf_returns _ _ _ _ _ hcall
    rw [cAssert_bind_eq_ok, decide_eq_true_eq] at hok
    omega

/-- A call that returns without room for the text and its terminator has committed less. -/
theorem iobufferSprintfCalls_long (h : iob.Holds c d) (hf : c ≤ d.length+text.length)
    (iob' : IOBuffer) (hok : iobufferSprintfCalls iob text = .ok iob') :
    iobufferDataLen iob' ≠ d.length+text.length ∧ 2^31 ≤ text.length := by
  have hspace : iobufferSpaceLen iob = c-d.length := by
    rw [h.queues.space, h.ptr]
    omega
  obtain ⟨⟨mem, nchars1⟩, hcall, hok⟩ := (bind_eq_ok _ _ _).mp hok
  have hn := vsnprintf_returns _ _ _ _ _ hcall
  simp only at hok
  split_ifs at hok with hlong
  · exact absurd hok (iobufferSprintfAgain_ne_ok { iob with mem := mem } _ _ _ hn hlong)
  · have hrem : iob'.bufferRemaining = iob.bufferRemaining+nchars1.toNat :=
      (iobufferCommit_dataLen hok).2
    rw [iobufferDataLen, hrem, h.remaining]
    have hlt := cInt_lt text.length
    have hwrap : 2^31 ≤ text.length := by
      by_contra hsmall
      rw [cInt_natCast _ (by omega)] at hn
      omega
    exact ⟨by omega, hwrap⟩

end appends

/-- For every buffer with nothing consumed and every text, the text is appended exactly if it
is shorter than the space behind the data. -/
theorem iobuffer_sprintf_iff (iob : IOBuffer) (c : ℕ) (hc : c+1 < 2^31) (d : List Cell)
    (h : iob.Holds c d) (text : Bytes) (hne : text ≠ []) :
    SprintfAppends iob d text ↔ d.length+text.length < c := by
  constructor
  · rintro ⟨iob', hok, -, hlen⟩
    by_contra hlong
    exact (iobufferSprintfCalls_long h (by omega) iob' hok).1 hlen
  · intro hf
    obtain ⟨iob', hok, -, hh⟩ := iobufferSprintfCalls_fits h hc hne hf
    refine ⟨iob', hok, hh.data, ?_⟩
    rw [iobufferDataLen, hh.remaining, List.length_append, List.length_map]

theorem iobuffer_sprintf_new :
    ∃ iob, iobufferNewWithCapacity 8 = .ok iob ∧ SprintfAppends iob [] [72, 105] := by
  obtain ⟨iob, hnew, hh⟩ := iobufferInit_holds 8 (by decide)
  exact ⟨iob, hnew, (iobuffer_sprintf_iff iob 8 (by decide) [] hh [72, 105] (by decide)).mpr
    (by decide)⟩

/-- A new buffer of 8 bytes: a text of 8 has the second call write into the block that was
freed. With 6 bytes in it, a text of 2 ends in the assertion. -/
theorem iobuffer_sprintf_full :
    iobufferSprintfCalls ⟨List.replicate 9 none, 8, 0, 0⟩ (List.replicate 8 97) =
        .error .outOfBounds ∧
      iobufferSprintfCalls ⟨List.replicate 9 (some 98), 8, 0, 6⟩ [97, 97] =
        .error (.assertion "len2 > nchars2") := by
  decide

end CHttp
