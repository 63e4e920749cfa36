import CHttp.IOBuffer

/-! The bounds of `IOBuffer`: where its data, its space and its terminators may lie in the
block, whatever is done to the buffer and to its copies. -/
namespace CHttp

/-- The calls of a buffer's owner. A commit need not follow a write. -/
inductive IOBufferCall where
  | dataAdd (p : List Cell)
  | commit (n : ℕ)
  | consume (k : ℕ)
  | consumePopFront
  | commitPushBack (ch : Cell)
  | reset
  | dup
  | consolidateSpace
  deriving DecidableEq, Repr

def IOBufferCall.Permitted (iob : IOBuffer) : IOBufferCall → Prop
  | .dataAdd p => p ≠ [] ∧ p.length ≤ iobufferSpaceLen iob
  | .commit n => 0 < n ∧ n ≤ iobufferSpaceLen iob
  | .consume k => k ≤ iobufferDataLen iob
  | .consumePopFront | .consolidateSpace => iobufferDataLen iob ≠ 0
  | .commitPushBack _ => 0 < iobufferSpaceLen iob
  | .reset | .dup => True

instance IOBufferCall.decidablePermitted (iob : IOBuffer) (call : IOBufferCall) :
    Decidable (call.Permitted iob) :=
  match call with
  | .dataAdd p => inferInstanceAs (Decidable (p ≠ [] ∧ p.length ≤ iobufferSpaceLen iob))
  | .commit n => inferInstanceAs (Decidable (0 < n ∧ n ≤ iobufferSpaceLen iob))
  | .consume k => inferInstanceAs (Decidable (k ≤ iobufferDataLen iob))
  | .consumePopFront | .consolidateSpace =>
    inferInstanceAs (Decidable (iobufferDataLen iob ≠ 0))
  | .commitPushBack _ => inferInstanceAs (Decidable (0 < iobufferSpaceLen iob))
  | .reset | .dup => inferInstanceAs (Decidable True)

/-- The buffers there are after a call: the buffer it was made on, and its copy. -/
def iobufferCall (iob : IOBuffer) : IOBufferCall → Res (List IOBuffer)
  | .dataAdd p => do
    let iob ← iobufferDataAdd iob p
    .ok [iob]
  | .commit n => do
    let iob ← iobufferCommit iob n
    .ok [iob]
  | .consume k => do
    let iob ← iobufferConsume iob k
    .ok [iob]
  | .consumePopFront => do
    let (_, iob) ← iobufferConsumePopFront iob
    .ok [iob]
  | .commitPushBack ch => do
    let iob ← iobufferCommitPushBack iob ch
    .ok [iob]
  | .reset => .ok [iobufferReset iob]
  | .dup => do
    let new ← iobufferDup iob
    .ok [iob, new]
  | .consolidateSpace => do
    let iob ← iobufferConsolidateSpace iob
    .ok [iob]

/-- Buffers, and calls on any one of them. -/
def iobufferPool : Machine (List IOBuffer) (ℕ × IOBufferCall) Fault where
  enabled pool e := ∃ iob ∈ pool[e.1]?, e.2.Permitted iob
  exec pool e :=
    match pool[e.1]? with
    | none => .error .outOfBounds
    | some iob => do
      let iobs ← iobufferCall iob e.2
      .ok (pool.take e.1 ++ iobs ++ pool.drop (e.1+1))

instance iobufferPool.decidableEnabled (pool : List IOBuffer) (e : ℕ × IOBufferCall) :
    Decidable (iobufferPool.enabled pool e) :=
  inferInstanceAs (Decidable (∃ iob ∈ pool[e.1]?, e.2.Permitted iob))

/-- The data lies within the capacity and the capacity within the block, so that there is a
byte for the terminator; an empty buffer has its whole capacity for new data. -/
structure IOBuffer.InBounds (iob : IOBuffer) (c : ℕ) : Prop where
  capacity : iob.bufferCapacity = c
  inside : ((iob.bufferPtr+iob.bufferRemaining : ℕ) : ℤ) ≤ iob.bufferCapacity
  allocated : iob.bufferCapacity < iob.mem.length
  space : 0 ≤ iobufferSpaceLen iob
  emptied : iob.bufferRemaining = 0 → iobufferSpaceLen iob = c

/-- All buffers are in bounds, and no permitted call on one of them fails. -/
structure PoolSound (c : ℕ) (pool : List IOBuffer) : Prop where
  bounds : ∀ iob ∈ pool, iob.InBounds c
  returns : ∀ e, iobufferPool.enabled pool e → ∃ pool', iobufferPool.exec pool e = .ok pool'

/-- What every call keeps: the data starts over at the front when there is none. -/
structure IOBuffer.Shaped (iob : IOBuffer) (c : ℕ) : Prop where
  mem_length : iob.mem.length = c+1
  capacity : iob.bufferCapacity = c
  inside : iob.bufferPtr+iob.bufferRemaining ≤ c
  front : iob.bufferRemaining = 0 → iob.bufferPtr = 0

section shaped

variable {iob : IOBuffer} {c : ℕ}

theorem IOBuffer.Shaped.queues (h : iob.Shaped c) : iob.Queues c (iobufferData iob) :=
  ⟨h.mem_length, h.capacity, h.inside, rfl⟩

theorem IOBuffer.Shaped.space (h : iob.Shaped c) :
    iobufferSpaceLen iob = c-(iob.bufferPtr+iob.bufferRemaining) := by
  rw [iobufferSpaceLen, h.capacity]

theorem IOBuffer.Shaped.inBounds (h : iob.Shaped c) : iob.InBounds c := by
  have hi := h.inside
  refine ⟨h.capacity, ?_, ?_, ?_, fun hzero => ?_⟩
  · rw [h.capacity]
    exact_mod_cast hi
  · rw [h.capacity, h.mem_length]
    omega
  · rw [h.space]
    omega
  · rw [h.space, hzero, h.front hzero]
    simp

theorem IOBuffer.Holds.shaped {d : List Cell} (h : iob.Holds c d) : iob.Shaped c :=
  ⟨h.mem_length, h.capacity, h.queues.inside, fun _ => h.ptr⟩

theorem iobufferCommit_shaped (h : iob.Shaped c) (n : ℕ) (hn : 0 < n)
    (hroom : n ≤ iobufferSpaceLen iob) :
    ∃ iob', iobufferCommit iob n = .ok iob' ∧ iob'.Shaped c := by
  rw [h.space] at hroom
  have hr := h.queues.remaining
  obtain ⟨iob', hx, hml, hcap, hptr, hrem, -⟩ := iobufferCommit_spec iob c n _ h.queues hn (by omega)
  exact ⟨iob', hx, hml, hcap, by omega, fun hzero => by omega⟩

theorem iobufferDataAdd_shaped (h : iob.Shaped c) (p : List Cell) (hp : p ≠ [])
    (hroom : p.length ≤ iobufferSpaceLen iob) :
    ∃ iob', iobufferDataAdd iob p = .ok iob' ∧ iob'.Shaped c := by
  have hr := h.queues.remaining
  have hspace := h.space
  obtain ⟨filled, hfill, hq, hptr, -⟩ := iobufferFillSpace_spec iob c _ p h.queues (by omega)
  have hrem := hq.remaining
  have hf : filled.Shaped c := by
    refine ⟨hq.mem_length, hq.capacity, hq.inside, fun hzero => ?_⟩
    rw [hptr]
    exact h.front (by omega)
  obtain ⟨iob', hx, hs⟩ := iobufferCommit_shaped hf p.length (List.length_pos_iff.mpr hp)
    (by rw [hf.space]; omega)
  refine ⟨iob', ?_, hs⟩
  simp only [iobufferDataAdd, hroom, decide_true, cAssert_true, ok_bind, hfill, hx]

theorem iobufferConsume_shaped (h : iob.Shaped c) (k : ℕ) (hk : k ≤ iobufferDataLen iob) :
    ∃ iob', iobufferConsume iob k = .ok iob' ∧ iob'.Shaped c := by
  have hr := h.queues.remaining
  obtain ⟨iob', hx, hq, hall⟩ := iobufferConsume_queues iob c k _ h.queues (hr ▸ hk)
  refine ⟨iob', hx, hq.mem_length, hq.capacity, hq.inside, fun hzero => hall ?_⟩
  have hrem := hq.remaining
  rw [List.length_drop] at hrem
  rw [iobufferDataLen] at hk
  omega

/-- The byte that is read lies in the block. -/
theorem iobufferConsumePopFront_shaped (h : iob.Shaped c) (hne : iobufferDataLen iob ≠ 0) :
    ∃ ch iob', iobufferConsumePopFront iob = .ok (ch, iob') ∧ iob'.Shaped c := by
  obtain ⟨iob', hx, hs⟩ := iobufferConsume_shaped h 1 (Nat.one_le_iff_ne_zero.mpr hne)
  obtain ⟨ch, hch⟩ : ∃ ch, iob.mem[iob.bufferPtr]? = some ch := by
    have hm := h.mem_length
    have hi := h.inside
    exact ⟨_, List.getElem?_eq_getElem (by omega)⟩
  exact ⟨ch, iob', by simp only [iobufferConsumePopFront, hch, hx, ok_bind], hs⟩

/-- The data fits the new block, since it was in one of the same size. -/
theorem iobufferConsolidateSpace_shaped (h : iob.Shaped c) (hc : c+1 < 2^31)
    (hne : iobufferDataLen iob ≠ 0) :
    ∃ iob', iobufferConsolidateSpace iob = .ok iob' ∧ iob'.Shaped c := by
  obtain ⟨tmp, hnew, hh⟩ := iobufferInit_holds c hc
  have hr := h.queues.remaining
  have hi := h.inside
  have hdata : iobufferData iob ≠ [] := List.length_pos_iff.mp (hr ▸ Nat.pos_of_ne_zero hne)
  obtain ⟨iob', hx, hs⟩ := iobufferDataAdd_holds tmp c [] _ hh hdata (by
    rw [List.length_nil]
    omega)
  exact ⟨iob', by simp only [iobufferConsolidateSpace, h.capacity, hnew, hx, ok_bind], hs.shaped⟩

/-- Whatever is called on a buffer with its shape, what comes out has it too. -/
theorem iobufferCall_shaped (h : iob.Shaped c) (hc : c+1 < 2^31) (call : IOBufferCall)
    (hp : call.Permitted iob) :
    ∃ iobs, iobufferCall iob call = .ok iobs ∧ ∀ iob' ∈ iobs, iob'.Shaped c := by
  have hone : ∀ iob', iob'.Shaped c → ∀ x ∈ [iob'], IOBuffer.Shaped x c := by
    intro iob' hs x hx
    rwa [List.mem_singleton.mp hx]
  cases call with
  | dataAdd p =>
    obtain ⟨iob', hx, hs⟩ := iobufferDataAdd_shaped h p hp.1 hp.2
    exact ⟨[iob'], by simp only [iobufferCall, hx, ok_bind], hone iob' hs⟩
  | commit n =>
    obtain ⟨iob', hx, hs⟩ := iobufferCommit_shaped h n hp.1 hp.2
    exact ⟨[iob'], by simp only [iobufferCall, hx, ok_bind], hone iob' hs⟩
  | consume k =>
    obtain ⟨iob', hx, hs⟩ := iobufferConsume_shaped h k hp
    exact ⟨[iob'], by simp only [iobufferCall, hx, ok_bind], hone iob' hs⟩
  | consumePopFront =>
    obtain ⟨ch, iob', hx, hs⟩ := iobufferConsumePopFront_shaped h hp
    exact ⟨[iob'], by simp only [iobufferCall, hx, ok_bind], hone iob' hs⟩
  | commitPushBack ch =>
    have hroom : (([ch] : List Cell).length : ℤ) ≤ iobufferSpaceLen iob := hp
    obtain ⟨iob', hx, hs⟩ := iobufferDataAdd_shaped h [ch] (List.cons_ne_nil _ _) hroom
    exact ⟨[iob'], by simp only [iobufferCall, iobufferCommitPushBack, hx, ok_bind], hone iob' hs⟩
  | reset =>
    refine ⟨[iobufferReset iob], rfl, hone _ ⟨h.mem_length, h.capacity, ?_, fun _ => rfl⟩⟩
    exact Nat.zero_le c
  | dup =>
    have hx := iobufferDup_eq iob c hc h.capacity h.mem_length
    refine ⟨[iob, iob], by simp only [iobufferCall, hx, ok_bind], fun x hx => ?_⟩
    rcases List.mem_cons.mp hx with rfl | hx
    · exact h
    · exact hone iob h x hx
  | consolidateSpace =>
    obtain ⟨iob', hx, hs⟩ := iobufferConsolidateSpace_shaped h hc hp
    exact ⟨[iob'], by simp only [iobufferCall, hx, ok_bind], hone iob' hs⟩

end shaped

theorem iobufferPool_step {c : ℕ} (hc : c+1 < 2^31) {pool : List IOBuffer}
    (h : ∀ iob ∈ pool, iob.Shaped c) (e : ℕ × IOBufferCall) (he : iobufferPool.enabled pool e) :
    ∃ pool', iobufferPool.exec pool e = .ok pool' ∧ ∀ iob ∈ pool', iob.Shaped c := by
  obtain ⟨iob, hiob, hp⟩ := he
  have hget : pool[e.1]? = some iob := hiob
  obtain ⟨iobs, hx, hs⟩ := iobufferCall_shaped (h iob (List.mem_of_getElem? hget)) hc e.2 hp
  refine ⟨pool.take e.1 ++ iobs ++ pool.drop (e.1+1), ?_, fun x hmem => ?_⟩
  · simp only [iobufferPool, hget, hx, ok_bind]
  · rw [List.mem_append, List.mem_append] at hmem
    rcases hmem with (hmem | hmem) | hmem
    · exact h x (List.mem_of_mem_take hmem)
    · exact hs x hmem
    · exact h x (List.mem_of_mem_drop hmem)

theorem poolSound_of_shaped {c : ℕ} (hc : c+1 < 2^31) {pool : List IOBuffer}
    (h : ∀ iob ∈ pool, iob.Shaped c) : PoolSound c pool := by
  refine ⟨fun iob hiob => (h iob hiob).inBounds, fun e he => ?_⟩
  obtain ⟨pool', hx, -⟩ := iobufferPool_step hc h e he
  exact ⟨pool', hx⟩

/-- A buffer can be made, and it and its copies stay in bounds in every run, exactly if its
capacity leaves an `int` for the byte of the terminator. -/
theorem iobuffer_bounds_iff (c : ℕ) (hone : 1 ≤ c) (hint : c < 2^31) :
    (∃ iob, iobufferNewWithCapacity c = .ok iob ∧
        ∀ es pool, iobufferPool.Run [iob] es pool → PoolSound c pool) ↔ c+1 < 2^31 := by
  constructor
  · rintro ⟨iob, hnew, -⟩
    by_contra hbig
    obtain rfl : c = 2^31-1 := by omega
    cases hnew
  · intro hc
    obtain ⟨iob, hnew, hh⟩ := iobufferInit_holds c hc
    refine ⟨iob, hnew, fun es pool hrun => poolSound_of_shaped hc ?_⟩
    refine hrun.keeps_of_total (I := fun pool => ∀ iob ∈ pool, iob.Shaped c)
      (fun pool e hpool he => iobufferPool_step hc hpool e he) ?_
    intro x hx
    rw [List.mem_singleton.mp hx]
    exact hh.shaped

theorem iobuffer_bounds_eight :
    ∃ iob, iobufferNewWithCapacity (8 : ℕ) = .ok iob ∧
      ∀ es pool, iobufferPool.Run [iob] es pool → PoolSound 8 pool :=
  (iobuffer_bounds_iff 8 (by decide) (by decide)).mpr (by decide)

/-- The largest `int` is refused: one more is negative, and malloc is asked for almost all
of memory. -/
theorem iobuffer_largest_capacity :
    iobufferNewWithCapacity ((2^31-1 : ℕ) : ℤ) = .error .allocation := by
  decide

end CHttp
