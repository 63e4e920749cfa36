import CHttp.IOBuffer

/-! `IOBuffer` against a byte queue. The queue says what the buffer is for; the
buffer keeps up with it exactly as long as no terminator falls into live data. -/
namespace CHttp

/-- The operations of a buffer's owner. `spaceCommit p n` writes `p` through the
pointer from `IOBuffer_space` and commits the first `n` bytes. -/
inductive IOBufferOp where
  | dataAdd (p : List Cell)
  | spaceCommit (p : List Cell) (n : ℕ)
  | consume (k : ℕ)
  | consumePopFront
  | reset
  deriving DecidableEq

/-- The same operations on a byte queue. -/
def queueStep (q : List Cell) : IOBufferOp → List Cell
  | .dataAdd p => q ++ p
  | .spaceCommit p n => q ++ p.take n
  | .consume k => q.drop k
  | .consumePopFront => q.drop 1
  | .reset => []

/-- Whether an operation ends in `IOBuffer_commit`. -/
def IOBufferOp.commits : IOBufferOp → Bool
  | .dataAdd _ | .spaceCommit _ _ => true
  | _ => false

def IOBufferOp.Allowed (iob : IOBuffer) : IOBufferOp → Prop
  | .dataAdd p => p ≠ [] ∧ p.length ≤ iobufferSpaceLen iob
  | .spaceCommit p n => 0 < n ∧ n ≤ p.length ∧ p.length ≤ iobufferSpaceLen iob
  | .consume k => k ≤ iobufferDataLen iob
  | .consumePopFront => iobufferDataLen iob ≠ 0
  | .reset => True

instance (iob : IOBuffer) (op : IOBufferOp) : Decidable (op.Allowed iob) :=
  match op with
  | .dataAdd p => inferInstanceAs (Decidable (p ≠ [] ∧ p.length ≤ iobufferSpaceLen iob))
  | .spaceCommit p n =>
    inferInstanceAs (Decidable (0 < n ∧ n ≤ p.length ∧ p.length ≤ iobufferSpaceLen iob))
  | .consume k => inferInstanceAs (Decidable (k ≤ iobufferDataLen iob))
  | .consumePopFront => inferInstanceAs (Decidable (iobufferDataLen iob ≠ 0))
  | .reset => inferInstanceAs (Decidable True)

def iobufferExec (iob : IOBuffer) : IOBufferOp → Res IOBuffer
  | .dataAdd p => iobufferDataAdd iob p
  | .spaceCommit p n => do
    let iob ← iobufferFillSpace iob p
    iobufferCommit iob n
  | .consume k => iobufferConsume iob k
  | .consumePopFront => do
    let (_, iob) ← iobufferConsumePopFront iob
    .ok iob
  | .reset => .ok (iobufferReset iob)

/-- A buffer, the queue it should hold, and whether it was just committed to. -/
structure IOBufferFifo where
  iob : IOBuffer
  queue : List Cell
  committed : Bool
  deriving DecidableEq

def iobufferMachine : Machine IOBufferFifo IOBufferOp Fault where
  enabled s op := op.Allowed s.iob
  exec s op := do
    let iob ← iobufferExec s.iob op
    .ok ⟨iob, queueStep s.queue op, op.commits⟩

instance (s : IOBufferFifo) (op : IOBufferOp) : Decidable (iobufferMachine.enabled s op) :=
  inferInstanceAs (Decidable (op.Allowed s.iob))

/-- The buffer holds the queue, and right after a commit its C string is the queue. -/
structure IOBufferFifo.Exact (s : IOBufferFifo) : Prop where
  data : iobufferData s.iob = s.queue
  data_len : iobufferDataLen s.iob = s.queue.length
  terminated : s.committed = true →
    s.iob.mem[s.iob.bufferPtr+s.iob.bufferRemaining]? = some (some 0)
  cstr : s.committed = true → ∀ b : Bytes, s.queue = b.map some → 0 ∉ b →
    iobufferCstr s.iob = .ok b

/-- No allowed operation fails. -/
def IOBufferFifo.Returns (s : IOBufferFifo) : Prop :=
  ∀ op : IOBufferOp, op.Allowed s.iob → ∃ t, iobufferMachine.exec s op = .ok t

/-- When the terminator of a commit of `n` bytes does no harm: nothing lies consumed in
front of the data, or the byte behind the data is NUL already and the byte that the
terminator overwrites, if it is live, is NUL as well. -/
def IOBuffer.CommitSound (iob : IOBuffer) (n : ℕ) : Prop :=
  iob.bufferPtr = 0 ∨
    (iob.mem[iob.bufferPtr+(iob.bufferRemaining+n)]? = some (some 0) ∧
      (iob.bufferPtr ≤ iob.bufferRemaining+n → iob.mem[iob.bufferRemaining+n]? = some (some 0)))

/-- The commit inside an operation, on the buffer with its space filled, is sound. -/
def IOBufferOp.Sound (iob : IOBuffer) : IOBufferOp → Prop
  | .dataAdd p => ∀ filled, iobufferFillSpace iob p = .ok filled → filled.CommitSound p.length
  | .spaceCommit p n => ∀ filled, iobufferFillSpace iob p = .ok filled → filled.CommitSound n
  | _ => True

/-- With nothing consumed in front of the data every operation is sound. -/
theorem IOBufferOp.sound_of_ptr (iob : IOBuffer) (hz : iob.bufferPtr = 0) (op : IOBufferOp) :
    op.Sound iob := by
  have hfill : ∀ p filled, iobufferFillSpace iob p = .ok filled → filled.bufferPtr = 0 := by
    intro p filled hfill
    obtain ⟨mem, -, hmem⟩ := (bind_eq_ok _ _ _).mp hfill
    obtain rfl := Except.ok.inj hmem
    exact hz
  cases op with
  | dataAdd p => exact fun filled h => .inl (hfill p filled h)
  | spaceCommit p n => exact fun filled h => .inl (hfill p filled h)
  | consume => trivial
  | consumePopFront => trivial
  | reset => trivial

/-- What holds of a buffer and its queue whether or not the bytes agree. -/
structure IOBufferFifo.Shape (s : IOBufferFifo) (c : ℕ) : Prop where
  mem_length : s.iob.mem.length = c+1
  capacity : s.iob.bufferCapacity = c
  inside : s.iob.bufferPtr+s.iob.bufferRemaining ≤ c
  count : s.iob.bufferRemaining = s.queue.length

theorem IOBufferFifo.Shape.queues {s : IOBufferFifo} {c : ℕ} (h : s.Shape c) :
    s.iob.Queues c (iobufferData s.iob) :=
  ⟨h.mem_length, h.capacity, h.inside, rfl⟩

theorem IOBufferFifo.Shape.exact_iff {s : IOBufferFifo} {c : ℕ} (h : s.Shape c) :
    s.Exact ↔ iobufferData s.iob = s.queue ∧
      (s.committed = true →
        s.iob.mem[s.iob.bufferPtr+s.iob.bufferRemaining]? = some (some 0)) := by
  refine ⟨fun he => ⟨he.data, he.terminated⟩, fun ⟨hd, ht⟩ => ⟨hd, h.count, ht, ?_⟩⟩
  intro hc b hb hz
  exact iobufferCstr_terminated s.iob b (hd.trans hb) (ht hc) hz

/-- A commit gets both the data and the byte behind it right exactly when it is sound. -/
theorem iobufferCommit_sound_iff (iob : IOBuffer) (c : ℕ) (d e : List Cell) (h : iob.Queues c d)
    (he : e ≠ []) (hf : iob.bufferPtr+d.length+e.length ≤ c)
    (hcells : ∀ j < e.length, iob.mem[iob.bufferPtr+d.length+j]? = e[j]?) :
    ∃ iob', iobufferCommit iob e.length = .ok iob' ∧ iob'.mem.length = c+1 ∧
      iob'.bufferCapacity = c ∧ iob'.bufferPtr = iob.bufferPtr ∧
      iob'.bufferRemaining = d.length+e.length ∧
      ((iobufferData iob' = d ++ e ∧
        iob'.mem[iob'.bufferPtr+iob'.bufferRemaining]? = some (some 0)) ↔
        iob.CommitSound e.length) := by
  obtain ⟨iob', hcommit, hml, hcap, hptr, hrem, hcells'⟩ := iobufferCommit_spec iob c e.length d h
    (List.length_pos_iff.mpr he) hf
  have hbefore : ∀ j < d.length+e.length, iob.mem[iob.bufferPtr+j]? = (d ++ e)[j]? := by
    intro j hj
    by_cases hd : j < d.length
    · rw [List.getElem?_append_left hd, h.cell hd]
    · have hnew := hcells (j-d.length) (by omega)
      rw [show iob.bufferPtr+d.length+(j-d.length) = iob.bufferPtr+j by omega] at hnew
      rw [List.getElem?_append_right (by omega), hnew]
  refine ⟨iob', hcommit, hml, hcap, hptr, hrem, ?_⟩
  rw [IOBuffer.CommitSound, h.remaining, hptr, hrem]
  constructor
  · rintro ⟨hdata, hnul⟩
    by_cases hz : iob.bufferPtr = 0
    · exact .inl hz
    · refine .inr ⟨?_, fun hle => ?_⟩
      · rwa [hcells', if_neg (by omega)] at hnul
      · have hlive := congrArg (·[d.length+e.length-iob.bufferPtr]?) hdata
        rw [iobufferData_getElem?, hptr, hrem, if_pos (by omega), Nat.add_sub_cancel' hle,
          hcells', if_pos rfl, ← hbefore _ (by omega), Nat.add_sub_cancel' hle] at hlive
        exact hlive.symm
  · intro hsound
    constructor
    · apply List.ext_getElem?
      intro j
      rw [iobufferData_getElem?, hptr, hrem, hcells']
      by_cases hj : j < d.length+e.length
      · rw [if_pos hj, ← hbefore j hj]
        split_ifs with hhit
        · rcases hsound with hz | ⟨-, hlive⟩
          · omega
          · rw [hhit, hlive (by omega)]
        · rfl
      · rw [if_neg hj, List.getElem?_eq_none (by rw [List.length_append]; omega)]
    · rw [hcells']
      rcases hsound with hz | ⟨hbehind, -⟩
      · rw [if_pos (by omega)]
      · split_ifs
        · rfl
        · exact hbehind

section step

variable {c : ℕ} {s : IOBufferFifo}

/-- Filling the space and committing part of it, from a buffer that is exact. -/
theorem fifo_spaceCommit (h : s.Shape c) (he : s.Exact) (p : List Cell) (n : ℕ)
    (ha : (IOBufferOp.spaceCommit p n).Allowed s.iob) :
    ∃ iob', iobufferExec s.iob (.spaceCommit p n) = .ok iob' ∧
      IOBufferFifo.Shape ⟨iob', s.queue ++ p.take n, true⟩ c ∧
      (IOBufferFifo.Exact ⟨iob', s.queue ++ p.take n, true⟩ ↔
        (IOBufferOp.spaceCommit p n).Sound s.iob) := by
  obtain ⟨hn, hp, hroom⟩ := ha
  have hq : s.iob.Queues c s.queue := he.data ▸ h.queues
  rw [hq.space] at hroom
  have hlen : (p.take n).length = n := by rw [List.length_take]; omega
  obtain ⟨filled, hfill, hqf, hptr, hcells⟩ := iobufferFillSpace_spec s.iob c s.queue p hq (by omega)
  obtain ⟨iob', hcommit, hml, hcap, hptr', hrem, hiff⟩ :=
    iobufferCommit_sound_iff filled c s.queue (p.take n) hqf
      (List.length_pos_iff.mp (by omega)) (by omega)
      (fun j hj => by rw [hptr, hcells j (by omega), List.getElem?_take_of_lt (by omega)])
  rw [hlen] at hcommit hrem hiff
  have hshape : IOBufferFifo.Shape ⟨iob', s.queue ++ p.take n, true⟩ c :=
    ⟨hml, hcap, by simp only [hptr', hptr, hrem]; omega, by
      simp only [hrem, List.length_append, hlen]⟩
  refine ⟨iob', by simp only [iobufferExec, hfill, ok_bind, hcommit], hshape, ?_⟩
  rw [hshape.exact_iff]
  constructor
  · rintro ⟨hdata, hnul⟩ filled' hfill'
    obtain rfl := Except.ok.inj (hfill.symm.trans hfill')
    exact hiff.mp ⟨hdata, hnul rfl⟩
  · intro hsound
    obtain ⟨hdata, hnul⟩ := hiff.mpr (hsound filled hfill)
    exact ⟨hdata, fun _ => hnul⟩

/-- Once its assertion holds, an add is a fill and a commit of everything. -/
theorem iobufferExec_dataAdd (iob : IOBuffer) (p : List Cell)
    (h : (p.length : ℤ) ≤ iobufferSpaceLen iob) :
    iobufferExec iob (.dataAdd p) = iobufferExec iob (.spaceCommit p p.length) := by
  simp only [iobufferExec, iobufferDataAdd, h, decide_true, cAssert_true, ok_bind]

theorem fifo_consume (h : s.Shape c) (he : s.Exact) (k : ℕ) (hk : k ≤ iobufferDataLen s.iob) :
    ∃ iob', iobufferConsume s.iob k = .ok iob' ∧
      IOBufferFifo.Shape ⟨iob', s.queue.drop k, false⟩ c ∧
      IOBufferFifo.Exact ⟨iob', s.queue.drop k, false⟩ := by
  have hq : s.iob.Queues c s.queue := he.data ▸ h.queues
  rw [iobufferDataLen, h.count] at hk
  obtain ⟨iob', hx, hq', -⟩ := iobufferConsume_queues s.iob c k s.queue hq hk
  have hshape : IOBufferFifo.Shape ⟨iob', s.queue.drop k, false⟩ c :=
    ⟨hq'.mem_length, hq'.capacity, hq'.inside, hq'.remaining⟩
  exact ⟨iob', hx, hshape, hshape.exact_iff.mpr ⟨hq'.data, nofun⟩⟩

/-- A byte is there to pop, and popping it consumes it. -/
theorem iobufferExec_consumePopFront (h : s.Shape c) :
    iobufferExec s.iob .consumePopFront = iobufferConsume s.iob 1 := by
  have hm := h.mem_length
  have hi := h.inside
  obtain ⟨ch, hch⟩ : ∃ ch, s.iob.mem[s.iob.bufferPtr]? = some ch :=
    ⟨_, List.getElem?_eq_getElem (by omega)⟩
  simp only [iobufferExec, iobufferConsumePopFront, hch]
  cases iobufferConsume s.iob 1 with
  | error e => rfl
  | ok iob => rfl

theorem fifo_reset (h : s.Shape c) :
    IOBufferFifo.Shape ⟨iobufferReset s.iob, [], false⟩ c ∧
      IOBufferFifo.Exact ⟨iobufferReset s.iob, [], false⟩ := by
  have hshape : IOBufferFifo.Shape ⟨iobufferReset s.iob, [], false⟩ c :=
    ⟨h.mem_length, h.capacity, by simp [iobufferReset], rfl⟩
  exact ⟨hshape, hshape.exact_iff.mpr ⟨by simp [iobufferData, iobufferReset], nofun⟩⟩

/-- Every allowed operation on an exact buffer returns, and leaves it exact precisely
when its commit, if it has one, is sound. -/
theorem fifo_step (h : s.Shape c) (he : s.Exact) (op : IOBufferOp) (ha : op.Allowed s.iob) :
    ∃ t, iobufferMachine.exec s op = .ok t ∧ t.Shape c ∧ (t.Exact ↔ op.Sound s.iob) := by
  cases op with
  | dataAdd p =>
    obtain ⟨hp, hroom⟩ := ha
    obtain ⟨iob', hx, hs, hiff⟩ := fifo_spaceCommit h he p p.length
      ⟨List.length_pos_iff.mpr hp, le_rfl, hroom⟩
    rw [← iobufferExec_dataAdd s.iob p hroom] at hx
    rw [List.take_length] at hs hiff
    exact ⟨_, by simp only [iobufferMachine, hx, ok_bind]; rfl, hs, hiff⟩
  | spaceCommit p n =>
    obtain ⟨iob', hx, hs, hiff⟩ := fifo_spaceCommit h he p n ha
    exact ⟨_, by simp only [iobufferMachine, hx, ok_bind]; rfl, hs, hiff⟩
  | consume k =>
    obtain ⟨iob', hx, hs, hex⟩ := fifo_consume h he k ha
    exact ⟨_, by simp only [iobufferMachine, iobufferExec, hx, ok_bind]; rfl, hs,
      iff_of_true hex trivial⟩
  | consumePopFront =>
    obtain ⟨iob', hx, hs, hex⟩ := fifo_consume h he 1 (Nat.one_le_iff_ne_zero.mpr ha)
    rw [← iobufferExec_consumePopFront h] at hx
    exact ⟨_, by simp only [iobufferMachine, hx, ok_bind]; rfl, hs, iff_of_true hex trivial⟩
  | reset =>
    obtain ⟨hs, hex⟩ := fifo_reset h
    exact ⟨_, rfl, hs, iff_of_true hex trivial⟩

end step

theorem fifo_new (c : ℕ) (hc : c+1 < 2^31) (iob : IOBuffer)
    (hnew : iobufferNewWithCapacity c = .ok iob) :
    IOBufferFifo.Shape ⟨iob, [], false⟩ c ∧ IOBufferFifo.Exact ⟨iob, [], false⟩ := by
  obtain ⟨iob', hnew', hh⟩ := iobufferInit_holds c hc
  obtain rfl := Except.ok.inj (hnew.symm.trans hnew')
  have hshape : IOBufferFifo.Shape ⟨iob, [], false⟩ c :=
    ⟨hh.mem_length, hh.capacity, hh.queues.inside, hh.remaining⟩
  exact ⟨hshape, hshape.exact_iff.mpr ⟨hh.data, nofun⟩⟩

/-- A buffer is a byte queue throughout a run exactly when all its commits are sound. -/
theorem iobuffer_fifo_iff (c : ℕ) (hc : c+1 < 2^31) (iob : IOBuffer)
    (hnew : iobufferNewWithCapacity c = .ok iob) (ops : List IOBufferOp) (t : IOBufferFifo)
    (hrun : iobufferMachine.Run ⟨iob, [], false⟩ ops t) :
    iobufferMachine.Always (fun u => u.Exact ∧ u.Returns) ⟨iob, [], false⟩ ops ↔
      (iobufferMachine.restrict fun u op => op.Sound u.iob).Run ⟨iob, [], false⟩ ops t := by
  have hreturns : ∀ u : IOBufferFifo, u.Shape c → u.Exact → u.Returns := by
    intro u hs he op ha
    obtain ⟨u', hx, -⟩ := fifo_step hs he op ha
    exact ⟨u', hx⟩
  obtain ⟨hs, he⟩ := fifo_new c hc iob hnew
  refine hrun.always_iff (J := fun u => u.Shape c) ?_ hs ⟨he, hreturns _ hs he⟩
  intro u op u' hj hp ha hx
  obtain ⟨u'', hx', hs', hiff⟩ := fifo_step hj hp.1 op ha
  obtain rfl := Except.ok.inj (hx.symm.trans hx')
  refine ⟨⟨fun hp' => hiff.mp hp'.1, fun hsound => ?_⟩, fun _ => hs'⟩
  have hexact := hiff.mpr hsound
  exact ⟨hexact, hreturns u' hs' hexact⟩

/-- Two bytes, consumed whole, then a third. -/
theorem iobuffer_fifo_whole :
    ∃ iob t, iobufferNewWithCapacity 8 = .ok iob ∧
      iobufferMachine.Run ⟨iob, [], false⟩
        [.dataAdd [some 97, some 98], .consume 2, .dataAdd [some 99]] t ∧
      iobufferMachine.Always (fun u => u.Exact ∧ u.Returns) ⟨iob, [], false⟩
        [.dataAdd [some 97, some 98], .consume 2, .dataAdd [some 99]] := by
  have hrun : (iobufferMachine.restrict fun u op => op.Sound u.iob).Run
      ⟨⟨List.replicate 9 none, 8, 0, 0⟩, [], false⟩
      [.dataAdd [some 97, some 98], .consume 2, .dataAdd [some 99]] _ :=
    .cons ⟨by decide, IOBufferOp.sound_of_ptr _ rfl _⟩ rfl
      (.cons ⟨by decide, trivial⟩ rfl
        (.cons ⟨by decide, IOBufferOp.sound_of_ptr _ rfl _⟩ rfl (.nil _)))
  exact ⟨_, _, rfl, hrun.of_restrict,
    (iobuffer_fifo_iff 8 (by decide) _ rfl _ _ hrun.of_restrict).mpr hrun⟩

/-- Two bytes, one of them consumed, then a third: the terminator takes its place. -/
theorem iobuffer_loses_byte :
    ∃ iob, iobufferNewWithCapacity 8 = .ok iob ∧
      ∃ t, iobufferMachine.Run ⟨iob, [], false⟩
          [.dataAdd [some 97, some 98], .consume 1, .dataAdd [some 99]] t ∧
        t.queue = [some 98, some 99] ∧ iobufferData t.iob = [some 98, some 0] ∧
        t.iob.mem[t.iob.bufferPtr+t.iob.bufferRemaining]? = some none :=
  ⟨_, rfl, Machine.exists_run_of_replay _ (by decide)⟩

end CHttp
