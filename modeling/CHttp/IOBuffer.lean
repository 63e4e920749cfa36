import CHttp.CMemory

namespace CHttp

/-- `IOBuffer_s`. `mem` is the block of `allocated_capacity` cells at `mem_p`,
and `bufferPtr` is the distance of `buffer_ptr` from `mem_p`. -/
structure IOBuffer where
  mem : List Cell
  bufferCapacity : ℤ
  bufferPtr : ℕ
  bufferRemaining : ℕ
  deriving DecidableEq, Repr

/-- A negative `allocated_capacity` reaches malloc as a huge `size_t`. The
allocation fails and the caller is left with a freed pointer. -/
def iobufferInit (capacity : ℤ) : Res IOBuffer :=
  let allocated := cInt (capacity+1)
  if allocated < 0 then .error .allocation
  else .ok ⟨List.replicate allocated.toNat none, capacity, 0, 0⟩

def iobufferNewWithCapacity (capacity : ℤ) : Res IOBuffer := iobufferInit capacity

def iobufferDefaultCapacity : ℕ := 4*1024

def iobufferNew : Res IOBuffer := iobufferNewWithCapacity iobufferDefaultCapacity

def iobufferData (this : IOBuffer) : List Cell :=
  (this.mem.drop this.bufferPtr).take this.bufferRemaining

def iobufferDataLen (this : IOBuffer) : ℕ := this.bufferRemaining

def iobufferSpaceLen (this : IOBuffer) : ℤ :=
  this.bufferCapacity-(this.bufferPtr+this.bufferRemaining)

/-- The terminator goes to `mem_p + buffer_remaining`, not to the end of the
live data, so the two differ once something was consumed. -/
def iobufferCommit (this : IOBuffer) (bytesUsed : ℕ) : Res IOBuffer := do
  cAssert (0 < bytesUsed) "bytes_used > 0"
  let remaining := this.bufferRemaining+bytesUsed
  let mem ← memWrite this.mem remaining [some 0]
  .ok { this with mem := mem, bufferRemaining := remaining }

/-- Bytes written through the pointer `IOBuffer_space` returned. -/
def iobufferFillSpace (this : IOBuffer) (p : List Cell) : Res IOBuffer := do
  let mem ← memWrite this.mem (this.bufferPtr+this.bufferRemaining) p
  .ok { this with mem := mem }

def iobufferDataAdd (this : IOBuffer) (p : List Cell) : Res IOBuffer := do
  cAssert (p.length ≤ iobufferSpaceLen this) "mem_len >= len"
  let this ← iobufferFillSpace this p
  iobufferCommit this p.length

def iobufferConsume (this : IOBuffer) (byteCount : ℕ) : Res IOBuffer := do
  let ptr := this.bufferPtr+byteCount
  cAssert (ptr ≤ this.bufferCapacity) "buffer_ptr <= mem_p + buffer_capacity"
  cAssert (byteCount ≤ this.bufferRemaining) "buffer_remaining >= 0"
  let remaining := this.bufferRemaining-byteCount
  .ok { this with
    bufferPtr := if remaining = 0 then 0 else ptr
    bufferRemaining := remaining }

def iobufferReset (this : IOBuffer) : IOBuffer :=
  { this with bufferPtr := 0, bufferRemaining := 0 }

/-- The byte is read before `IOBuffer_consume` checks that there is one. -/
def iobufferConsumePopFront (this : IOBuffer) : Res (Cell × IOBuffer) :=
  match this.mem[this.bufferPtr]? with
  | none => .error .outOfBounds
  | some ch => do
    let this ← iobufferConsume this 1
    .ok (ch, this)

def iobufferCommitPushBack (this : IOBuffer) (ch : Cell) : Res IOBuffer :=
  iobufferDataAdd this [ch]

/-- The whole block is copied, into a new one of the same size. -/
def iobufferDup (this : IOBuffer) : Res IOBuffer := do
  let new ← iobufferNewWithCapacity this.bufferCapacity
  let mem ← memWrite new.mem 0 this.mem
  .ok { this with mem := mem }

/-- The buffer takes over the block of a new one into which its data was copied. -/
def iobufferConsolidateSpace (this : IOBuffer) : Res IOBuffer := do
  let tmp ← iobufferNewWithCapacity this.bufferCapacity
  iobufferDataAdd tmp (iobufferData this)

def iobufferEmpty (this : IOBuffer) : Bool := this.bufferRemaining = 0

def iobufferFromBuf (buf : Bytes) : Res IOBuffer := do
  let this ← iobufferNewWithCapacity (cInt (2*buf.length))
  let this ← iobufferFillSpace this (buf.map some)
  iobufferCommit this buf.length

def iobufferFromCstring (s : Bytes) : Res IOBuffer := iobufferFromBuf (cstr s)

/-- `text` is what the format and its arguments come to. A text that does not fit makes
`vsnprintf` run once more, with an argument list that is used up and, if the buffer was
expanded, a pointer into the block that was freed. -/
def iobufferSprintf (this : IOBuffer) (text : Bytes) : Res IOBuffer :=
  if (text.length : ℤ) > iobufferSpaceLen this-1 then
    if 2*(text.length : ℤ) > this.bufferCapacity then .error .outOfBounds
    else .error .indeterminate
  else do
    let this ← iobufferFillSpace this (text.map some ++ [some 0])
    iobufferCommit this text.length

/-- The string that a reader of `IOBuffer_cstr`'s pointer finds. -/
def iobufferCstr (this : IOBuffer) : Res Bytes := readCstr (this.mem.drop this.bufferPtr)

/-- A buffer of capacity `c` from which nothing was consumed and whose data is `d`. -/
structure IOBuffer.Holds (iob : IOBuffer) (c : ℕ) (d : List Cell) : Prop where
  mem_length : iob.mem.length = c+1
  capacity : iob.bufferCapacity = c
  ptr : iob.bufferPtr = 0
  remaining : iob.bufferRemaining = d.length
  fits : d.length ≤ c
  data : iobufferData iob = d

/-- The data of a buffer of capacity `c` is `d`, wherever in the block it starts. -/
structure IOBuffer.Queues (iob : IOBuffer) (c : ℕ) (d : List Cell) : Prop where
  mem_length : iob.mem.length = c+1
  capacity : iob.bufferCapacity = c
  inside : iob.bufferPtr+iob.bufferRemaining ≤ c
  data : iobufferData iob = d

theorem IOBuffer.Queues.remaining {iob : IOBuffer} {c : ℕ} {d : List Cell} (h : iob.Queues c d) :
    iob.bufferRemaining = d.length := by
  have hm := h.mem_length
  have hi := h.inside
  rw [← h.data, iobufferData, List.length_take, List.length_drop]
  omega

theorem IOBuffer.Queues.space {iob : IOBuffer} {c : ℕ} {d : List Cell} (h : iob.Queues c d) :
    iobufferSpaceLen iob = c-(iob.bufferPtr+d.length) := by
  rw [iobufferSpaceLen, h.capacity, h.remaining]

theorem IOBuffer.Holds.queues {iob : IOBuffer} {c : ℕ} {d : List Cell} (h : iob.Holds c d) :
    iob.Queues c d :=
  ⟨h.mem_length, h.capacity, by rw [h.ptr, h.remaining, Nat.zero_add]; exact h.fits, h.data⟩

theorem IOBuffer.Queues.holds {iob : IOBuffer} {c : ℕ} {d : List Cell} (h : iob.Queues c d)
    (hz : iob.bufferPtr = 0) : iob.Holds c d := by
  have hi := h.inside
  rw [hz, h.remaining, Nat.zero_add] at hi
  exact ⟨h.mem_length, h.capacity, hz, h.remaining, hi, h.data⟩

theorem iobufferData_getElem? (iob : IOBuffer) (j : ℕ) :
    (iobufferData iob)[j]? =
      if j < iob.bufferRemaining then iob.mem[iob.bufferPtr+j]? else none := by
  rw [iobufferData, List.getElem?_take, List.getElem?_drop]

theorem IOBuffer.Queues.cell {iob : IOBuffer} {c : ℕ} {d : List Cell} (h : iob.Queues c d) {j : ℕ}
    (hj : j < d.length) : iob.mem[iob.bufferPtr+j]? = d[j]? := by
  rw [← h.data, iobufferData_getElem?, h.remaining, if_pos hj]

/-- Filling the space leaves the data alone. -/
theorem iobufferFillSpace_spec (iob : IOBuffer) (c : ℕ) (d p : List Cell) (h : iob.Queues c d)
    (hf : iob.bufferPtr+d.length+p.length ≤ c) :
    ∃ filled, iobufferFillSpace iob p = .ok filled ∧ filled.Queues c d ∧
      filled.bufferPtr = iob.bufferPtr ∧
      ∀ j < p.length, filled.mem[iob.bufferPtr+d.length+j]? = p[j]? := by
  have hm := h.mem_length
  have hr := h.remaining
  obtain ⟨mem, hw, hml, hcells⟩ := memWrite_spec iob.mem (iob.bufferPtr+d.length) p (by omega)
  refine ⟨{ iob with mem := mem }, ?_, ⟨hml.trans hm, h.capacity, h.inside, ?_⟩, rfl, ?_⟩
  · simp only [iobufferFillSpace, hr, hw, ok_bind]
  · apply List.ext_getElem?
    intro j
    rw [← h.data, iobufferData_getElem?, iobufferData_getElem?]
    by_cases hj : j < iob.bufferRemaining
    · simp only [hj, if_true, hcells, if_neg (show ¬(iob.bufferPtr+d.length ≤ iob.bufferPtr+j ∧
        iob.bufferPtr+j < iob.bufferPtr+d.length+p.length) by omega)]
    · simp only [hj, if_false]
  · intro j hj
    rw [hcells, if_pos (by omega), Nat.add_sub_cancel_left]

/-- The terminator lands `n` bytes behind the data's length, counted from the start
of the block: inside the block always, behind the data only if nothing was consumed. -/
theorem iobufferCommit_spec (iob : IOBuffer) (c n : ℕ) (d : List Cell) (h : iob.Queues c d)
    (hn : 0 < n) (hf : iob.bufferPtr+d.length+n ≤ c) :
    ∃ iob', iobufferCommit iob n = .ok iob' ∧ iob'.mem.length = c+1 ∧ iob'.bufferCapacity = c ∧
      iob'.bufferPtr = iob.bufferPtr ∧ iob'.bufferRemaining = d.length+n ∧
      ∀ j, iob'.mem[j]? = if j = d.length+n then some (some 0) else iob.mem[j]? := by
  have hm := h.mem_length
  obtain ⟨mem, hw, hml, hcells⟩ := memWrite_spec iob.mem (d.length+n) [some 0]
    (by simp only [List.length_singleton]; omega)
  refine ⟨{ iob with mem := mem, bufferRemaining := d.length+n }, ?_, hml.trans hm, h.capacity,
    rfl, rfl, fun j => ?_⟩
  · simp only [iobufferCommit, hn, decide_true, cAssert_true, ok_bind, h.remaining, hw]
  · rw [hcells j, List.length_singleton]
    by_cases hj : j = d.length+n
    · rw [if_pos (by omega), if_pos hj, hj, Nat.sub_self]
      rfl
    · rw [if_neg (by omega), if_neg hj]

theorem iobufferInit_holds (c : ℕ) (hc : c+1 < 2^31) :
    ∃ iob, iobufferNewWithCapacity c = .ok iob ∧ iob.Holds c [] := by
  have hi : cInt ((c : ℤ)+1) = ((c+1 : ℕ) : ℤ) := by
    exact_mod_cast cInt_natCast (c+1) hc
  have hn : ¬(((c+1 : ℕ) : ℤ) < 0) := by omega
  refine ⟨⟨List.replicate (c+1) none, c, 0, 0⟩, ?_, by simp, rfl, rfl, rfl, by simp, rfl⟩
  simp only [iobufferNewWithCapacity, iobufferInit, hi, if_neg hn, Int.toNat_natCast]

theorem iobufferInit_negative (c : ℤ) (hl : -2^31 ≤ c) (hc : c < -1) :
    iobufferNewWithCapacity c = .error .allocation := by
  have hi : cInt (c+1) = c+1 := cInt_of_range _ (by omega) (by omega)
  simp only [iobufferNewWithCapacity, iobufferInit, hi, if_pos (show c+1 < 0 by omega)]

/-- With nothing consumed, a commit of the bytes behind the data appends them. -/
theorem iobufferCommit_holds (iob : IOBuffer) (c : ℕ) (d e : List Cell) (h : iob.Holds c d)
    (he : e ≠ []) (hf : d.length+e.length ≤ c)
    (hcells : ∀ j < e.length, iob.mem[d.length+j]? = e[j]?) :
    ∃ iob', iobufferCommit iob e.length = .ok iob' ∧ iob'.Holds c (d ++ e) := by
  obtain ⟨iob', hcommit, hml, hcap, hptr, hrem, hcells'⟩ := iobufferCommit_spec iob c e.length d
    h.queues (List.length_pos_iff.mpr he) (by rw [h.ptr]; omega)
  rw [h.ptr] at hptr
  refine ⟨iob', hcommit, hml, hcap, hptr, by rw [hrem, List.length_append],
    by rwa [List.length_append], ?_⟩
  apply List.ext_getElem?
  intro j
  rw [iobufferData_getElem?, hptr, hrem, Nat.zero_add, hcells']
  by_cases hj : j < d.length+e.length
  · rw [if_pos hj, if_neg (by omega)]
    by_cases hd : j < d.length
    · have hold := h.queues.cell hd
      rw [h.ptr, Nat.zero_add] at hold
      rw [List.getElem?_append_left hd, hold]
    · have hnew := hcells (j-d.length) (by omega)
      rw [Nat.add_sub_cancel' (by omega)] at hnew
      rw [List.getElem?_append_right (by omega), hnew]
  · rw [if_neg hj, List.getElem?_eq_none (by rw [List.length_append]; omega)]

/-- Where nothing was consumed, the byte behind the data is NUL after a commit. -/
theorem iobufferCommit_nul (iob iob' : IOBuffer) (n : ℕ) (h : iobufferCommit iob n = .ok iob') :
    iob'.mem[iob'.bufferRemaining]? = some (some 0) := by
  rw [iobufferCommit, cAssert_bind_eq_ok] at h
  obtain ⟨mem, hwrite, hok⟩ := (bind_eq_ok _ _ _).mp h.2
  obtain rfl := Except.ok.inj hok
  have hin : iob.bufferRemaining+n+[some (0 : UInt8)].length ≤ iob.mem.length := by
    by_contra hout
    rw [memWrite, if_neg hout] at hwrite
    cases hwrite
  obtain ⟨mem', hwrite', -, hcells⟩ := memWrite_spec iob.mem (iob.bufferRemaining+n) [some 0] hin
  obtain rfl := Except.ok.inj (hwrite.symm.trans hwrite')
  rw [hcells, if_pos (by simp), Nat.sub_self]
  rfl

/-- A commit counts a positive number of bytes. -/
theorem iobufferCommit_dataLen {iob iob' : IOBuffer} {n : ℕ} (h : iobufferCommit iob n = .ok iob') :
    0 < n ∧ iobufferDataLen iob' = iobufferDataLen iob+n := by
  rw [iobufferCommit, cAssert_bind_eq_ok, decide_eq_true_eq] at h
  obtain ⟨hn, h⟩ := h
  obtain ⟨mem, -, h⟩ := (bind_eq_ok _ _ _).mp h
  obtain rfl := Except.ok.inj h
  exact ⟨hn, rfl⟩

/-- Writing after the data and committing extends the data. -/
theorem iobufferFillSpace_commit (iob : IOBuffer) (c : ℕ) (d p : List Cell)
    (h : iob.Holds c d) (hp : p ≠ []) (hf : d.length+p.length ≤ c) :
    ∃ filled iob', iobufferFillSpace iob p = .ok filled ∧
      iobufferCommit filled p.length = .ok iob' ∧ iob'.Holds c (d ++ p) := by
  obtain ⟨filled, hfill, hq, hptr, hcells⟩ := iobufferFillSpace_spec iob c d p h.queues
    (by rw [h.ptr]; omega)
  simp only [h.ptr, Nat.zero_add] at hptr hcells
  obtain ⟨iob', hcommit, hh⟩ := iobufferCommit_holds filled c d p (hq.holds hptr) hp hf hcells
  exact ⟨filled, iob', hfill, hcommit, hh⟩

theorem iobufferDataAdd_holds (iob : IOBuffer) (c : ℕ) (d p : List Cell)
    (h : iob.Holds c d) (hp : p ≠ []) (hf : d.length+p.length ≤ c) :
    ∃ iob', iobufferDataAdd iob p = .ok iob' ∧ iob'.Holds c (d ++ p) := by
  obtain ⟨filled, iob', hfill, hcommit, hh⟩ := iobufferFillSpace_commit iob c d p h hp hf
  have hs : (p.length : ℤ) ≤ iobufferSpaceLen iob := by
    simp only [iobufferSpaceLen, h.capacity, h.ptr, h.remaining]
    omega
  exact ⟨iob', by simp only [iobufferDataAdd, hs, decide_true, cAssert_true, ok_bind, hfill, hcommit], hh⟩

/-- `IOBuffer_commit` refuses to commit nothing. -/
theorem iobufferDataAdd_ne_nil (iob iob' : IOBuffer) (p : List Cell)
    (h : iobufferDataAdd iob p = .ok iob') : p ≠ [] := by
  rw [iobufferDataAdd, cAssert_bind_eq_ok] at h
  obtain ⟨filled, -, hcommit⟩ := (bind_eq_ok _ _ _).mp h.2
  rw [iobufferCommit, cAssert_bind_eq_ok, decide_eq_true_eq] at hcommit
  exact List.length_pos_iff.mp hcommit.1

/-- An add that succeeds had room for its bytes. -/
theorem iobufferDataAdd_inv (iob iob' : IOBuffer) (c : ℕ) (d p : List Cell) (h : iob.Holds c d)
    (hadd : iobufferDataAdd iob p = .ok iob') : iob'.Holds c (d ++ p) := by
  have hroom := hadd
  rw [iobufferDataAdd, cAssert_bind_eq_ok, decide_eq_true_eq] at hroom
  have hroom := hroom.1
  simp only [iobufferSpaceLen, h.capacity, h.ptr, h.remaining] at hroom
  obtain ⟨iob'', hadd', hh⟩ := iobufferDataAdd_holds iob c d p h
    (iobufferDataAdd_ne_nil iob iob' p hadd) (by omega)
  obtain rfl : iob' = iob'' := Except.ok.inj (hadd.symm.trans hadd')
  exact hh

/-- A new buffer that takes something has a capacity that `int` can hold. -/
theorem iobufferNew_add_inv (z : ℤ) (hl : -2^31 ≤ z) (hu : z < 2^31) (fresh iob : IOBuffer)
    (p : List Cell) (hnew : iobufferNewWithCapacity z = .ok fresh)
    (hadd : iobufferDataAdd fresh p = .ok iob) :
    ∃ c : ℕ, z = c ∧ c+1 < 2^31 ∧ iob.Holds c p := by
  have hz : 0 ≤ z := by
    by_contra hneg
    rcases lt_or_eq_of_le (show z ≤ -1 by omega) with hlt | rfl
    · rw [iobufferInit_negative z hl hlt] at hnew
      cases hnew
    · cases hnew
      rw [iobufferDataAdd, cAssert_bind_eq_ok, decide_eq_true_eq] at hadd
      have hroom := hadd.1
      simp only [iobufferSpaceLen] at hroom
      omega
  obtain ⟨c, rfl⟩ := Int.eq_ofNat_of_zero_le hz
  have hc : c+1 < 2^31 := by
    by_contra hbig
    obtain rfl : c = 2^31-1 := by omega
    cases hnew
  obtain ⟨fresh', hnew', hh⟩ := iobufferInit_holds c hc
  obtain rfl : fresh = fresh' := Except.ok.inj (hnew.symm.trans hnew')
  exact ⟨c, rfl, hc, iobufferDataAdd_inv fresh iob c [] p hh hadd⟩

/-- A copy is the same buffer in a block of its own. -/
theorem iobufferDup_eq (iob : IOBuffer) (c : ℕ) (hc : c+1 < 2^31) (hcap : iob.bufferCapacity = c)
    (hmem : iob.mem.length = c+1) : iobufferDup iob = .ok iob := by
  obtain ⟨new, hnew, hh⟩ := iobufferInit_holds c hc
  have hwrite : memWrite new.mem 0 iob.mem = .ok iob.mem := by
    rw [memWrite_ok _ _ _ (by rw [hh.mem_length, hmem, Nat.zero_add]), List.take_zero,
      List.nil_append, Nat.zero_add, hmem, ← hh.mem_length, List.drop_length, List.append_nil]
  rw [← hcap] at hnew
  rw [iobufferDup, hnew, ok_bind, hwrite, ok_bind]

/-- Consuming takes bytes from the front, and a buffer left empty starts over. -/
theorem iobufferConsume_queues (iob : IOBuffer) (c k : ℕ) (d : List Cell) (h : iob.Queues c d)
    (hk : k ≤ d.length) :
    ∃ iob', iobufferConsume iob k = .ok iob' ∧ iob'.Queues c (d.drop k) ∧
      (k = d.length → iob'.bufferPtr = 0) := by
  have hi := h.inside
  have hr := h.remaining
  have hcap : ((iob.bufferPtr+k : ℕ) : ℤ) ≤ iob.bufferCapacity := by rw [h.capacity]; omega
  have hkr : k ≤ iob.bufferRemaining := by omega
  refine ⟨{ iob with
      bufferPtr := if iob.bufferRemaining-k = 0 then 0 else iob.bufferPtr+k
      bufferRemaining := iob.bufferRemaining-k }, ?_, ⟨h.mem_length, h.capacity, ?_, ?_⟩, ?_⟩
  · simp only [iobufferConsume, hcap, hkr, decide_true, cAssert_true, ok_bind]
  · simp only
    split_ifs <;> omega
  · apply List.ext_getElem?
    intro j
    rw [iobufferData_getElem?, List.getElem?_drop, ← h.data, iobufferData_getElem?]
    simp only
    by_cases hj : k+j < iob.bufferRemaining
    · rw [if_pos hj, if_pos (by omega), if_neg (by omega), Nat.add_assoc]
    · rw [if_neg hj, if_neg (by omega)]
  · intro hall
    rw [if_pos (by omega)]

theorem iobufferConsumePopFront_queues (iob : IOBuffer) (c : ℕ) (ch : Cell) (d : List Cell)
    (h : iob.Queues c (ch :: d)) :
    ∃ iob', iobufferConsumePopFront iob = .ok (ch, iob') ∧ iob'.Queues c d ∧
      (d = [] → iob'.bufferPtr = 0) := by
  have hcell : iob.mem[iob.bufferPtr]? = some ch := h.cell (j := 0) (by simp)
  obtain ⟨iob', hconsume, hq, hptr⟩ := iobufferConsume_queues iob c 1 (ch :: d) h (by simp)
  refine ⟨iob', ?_, hq, fun hd => hptr (by rw [hd]; rfl)⟩
  simp only [iobufferConsumePopFront, hcell, hconsume, ok_bind]

/-- Data followed by NUL reads as a C string. -/
theorem iobufferCstr_terminated (iob : IOBuffer) (b : Bytes) (hd : iobufferData iob = b.map some)
    (ht : iob.mem[iob.bufferPtr+iob.bufferRemaining]? = some (some 0)) (hb : 0 ∉ b) :
    iobufferCstr iob = .ok b := by
  obtain ⟨hlt, hget⟩ := List.getElem?_eq_some_iff.mp ht
  have hsplit : iob.mem.drop iob.bufferPtr =
      b.map some ++ some 0 :: iob.mem.drop (iob.bufferPtr+iob.bufferRemaining+1) := by
    rw [← hd, iobufferData, ← hget, ← List.drop_eq_getElem_cons hlt, ← List.drop_drop,
      List.take_append_drop]
  rw [iobufferCstr, hsplit, readCstr_append_nul, (cstr_eq_self_iff b).mpr hb]

/-- The buffer holds the text `b`, with nothing consumed, and NUL behind it unless it is
a new buffer. -/
structure IOBuffer.HoldsText (iob : IOBuffer) (c : ℕ) (b : Bytes) : Prop where
  holds : iob.Holds c (b.map some)
  terminated : b ≠ [] → iob.mem[b.length]? = some (some 0)

theorem IOBuffer.HoldsText.cstr {iob : IOBuffer} {c : ℕ} {b : Bytes} (h : iob.HoldsText c b)
    (hb : b ≠ []) (hz : 0 ∉ b) : iobufferCstr iob = .ok b := by
  refine iobufferCstr_terminated iob b h.holds.data ?_ hz
  rw [h.holds.ptr, h.holds.remaining, Nat.zero_add, List.length_map]
  exact h.terminated hb

/-- The terminator that the last commit wrote is in place. -/
theorem IOBuffer.Holds.text {iob before : IOBuffer} {c n : ℕ} {b : Bytes}
    (h : iob.Holds c (b.map some)) (hcommit : iobufferCommit before n = .ok iob) :
    iob.HoldsText c b := by
  refine ⟨h, fun _ => ?_⟩
  have hnul := iobufferCommit_nul before iob n hcommit
  rwa [h.remaining, List.length_map] at hnul

theorem iobufferNew_holdsText : ∃ iob, iobufferNew = .ok iob ∧
    iob.HoldsText iobufferDefaultCapacity [] := by
  obtain ⟨iob, hnew, hh⟩ := iobufferInit_holds iobufferDefaultCapacity (by decide)
  exact ⟨iob, hnew, hh, fun h => absurd rfl h⟩

theorem iobufferCommitPushBack_holdsText (iob : IOBuffer) (c : ℕ) (b : Bytes) (ch : UInt8)
    (h : iob.HoldsText c b) (hf : b.length < c) :
    ∃ iob', iobufferCommitPushBack iob (some ch) = .ok iob' ∧ iob'.HoldsText c (b ++ [ch]) := by
  obtain ⟨filled, iob', hfill, hcommit, hh⟩ := iobufferFillSpace_commit iob c (b.map some)
    [some ch] h.holds (List.cons_ne_nil _ _) (by rw [List.length_map, List.length_singleton]; omega)
  have hs : (([some ch] : List Cell).length : ℤ) ≤ iobufferSpaceLen iob := by
    rw [h.holds.queues.space, h.holds.ptr, List.length_map, List.length_singleton]
    omega
  refine ⟨iob', ?_, IOBuffer.Holds.text ?_ hcommit⟩
  · simp only [iobufferCommitPushBack, iobufferDataAdd, hs, decide_true, cAssert_true, ok_bind,
      hfill, hcommit]
  · rwa [List.map_append]

theorem iobufferCommitPushBack_full (iob : IOBuffer) (c : ℕ) (b : Bytes) (ch : Cell)
    (h : iob.HoldsText c b) (hf : b.length = c) :
    iobufferCommitPushBack iob ch = .error (.assertion "mem_len >= len") := by
  have hs : ¬((([ch] : List Cell).length : ℤ) ≤ iobufferSpaceLen iob) := by
    rw [h.holds.queues.space, h.holds.ptr, List.length_map, List.length_singleton]
    omega
  simp only [iobufferCommitPushBack, iobufferDataAdd, hs, decide_false, cAssert_false, error_bind]

theorem iobufferFromBuf_holdsText (buf : Bytes) (hne : buf ≠ []) (hsize : 2*buf.length+1 < 2^31) :
    ∃ iob, iobufferFromBuf buf = .ok iob ∧ iob.HoldsText (2*buf.length) buf := by
  obtain ⟨fresh, hnew, hh⟩ := iobufferInit_holds (2*buf.length) hsize
  obtain ⟨filled, iob, hfill, hcommit, hiob⟩ := iobufferFillSpace_commit fresh (2*buf.length) []
    (buf.map some) hh (List.map_eq_nil_iff.not.mpr hne) (by
      rw [List.length_nil, List.length_map]
      omega)
  have hcap : cInt (2*buf.length) = ((2*buf.length : ℕ) : ℤ) := by
    exact_mod_cast cInt_natCast (2*buf.length) (by omega)
  rw [List.length_map] at hcommit
  refine ⟨iob, ?_, IOBuffer.Holds.text hiob hcommit⟩
  simp only [iobufferFromBuf, hcap, hnew, ok_bind, hfill, hcommit]

/-- A text with its terminator, written into the space and committed without it. -/
theorem iobufferFillSpace_text (iob : IOBuffer) (c : ℕ) (d : List Cell) (text : Bytes)
    (h : iob.Holds c d) (hne : text ≠ []) (hf : d.length+text.length < c) :
    ∃ filled iob', iobufferFillSpace iob (text.map some ++ [some 0]) = .ok filled ∧
      iobufferCommit filled text.length = .ok iob' ∧ iob'.Holds c (d ++ text.map some) := by
  have hlen : (text.map some ++ [some (0 : UInt8)]).length = text.length+1 := by simp
  obtain ⟨filled, hfill, hq, hptr, hcells⟩ := iobufferFillSpace_spec iob c d
    (text.map some ++ [some 0]) h.queues (by rw [h.ptr, hlen]; omega)
  simp only [h.ptr, Nat.zero_add, hlen] at hptr hcells
  obtain ⟨iob', hcommit, hh⟩ := iobufferCommit_holds filled c d (text.map some) (hq.holds hptr)
    (List.map_eq_nil_iff.not.mpr hne) (by rw [List.length_map]; omega) (by
      intro j hj
      rw [hcells j (by rw [List.length_map] at hj; omega), List.getElem?_append_left hj])
  rw [List.length_map] at hcommit
  exact ⟨filled, iob', hfill, hcommit, hh⟩

/-- A text that leaves room for its terminator is formatted in one go. -/
theorem iobufferSprintf_holdsText (iob : IOBuffer) (c : ℕ) (text : Bytes)
    (h : iob.Holds c []) (hne : text ≠ []) (hf : text.length < c) :
    ∃ iob', iobufferSprintf iob text = .ok iob' ∧ iob'.HoldsText c text := by
  obtain ⟨filled, iob', hfill, hcommit, hh⟩ := iobufferFillSpace_text iob c [] text h hne (by simpa)
  have hroom : ¬((text.length : ℤ) > iobufferSpaceLen iob-1) := by
    rw [h.queues.space, h.ptr, List.length_nil]
    omega
  refine ⟨iob', ?_, IOBuffer.Holds.text hh hcommit⟩
  simp only [iobufferSprintf, if_neg hroom, hfill, ok_bind, hcommit]

/-- A buffer that is consumed whole starts over empty. -/
theorem iobufferConsume_all (iob : IOBuffer) (c : ℕ) (d : List Cell) (h : iob.Holds c d) :
    iobufferConsume iob d.length = .ok { iob with bufferRemaining := 0 } := by
  obtain ⟨_, hc, hz, hr, hf, _⟩ := h
  have hp : ((0+d.length : ℕ) : ℤ) ≤ (c : ℤ) := by omega
  simp only [iobufferConsume, hz, hc, hr, hp, le_refl, decide_true, cAssert_true, ok_bind,
    Nat.sub_self, ↓reduceIte]

end CHttp
