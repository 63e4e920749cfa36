import CHttp.BufferWorld

/-! Chains that are copied into others, and chains that are taken over by others. A copy
shares no memory with its original, and what is taken over has one owner again. -/
namespace CHttp

theorem cInt_sub_eq_zero_iff (x y : ℤ) : cInt (x-y) = 0 ↔ cInt x = cInt y := by
  rw [cInt, cInt, cInt, Int.bmod_def, Int.bmod_def, Int.bmod_def]
  split_ifs <;> omega

section values

/-- A copy has the value of its original. -/
theorem SegmentOk.dup_eq {iob : IOBuffer} (h : SegmentOk iob) : iobufferDup iob = .ok iob := by
  obtain ⟨c, hc, hh⟩ := h.2
  exact iobufferDup_eq iob c hc hh.capacity hh.mem_length

theorem bufferChainAppendBufferchain_list (v vo : BufferChain)
    (hsegs : ∀ iob ∈ vo.mChain, SegmentOk iob) :
    ∃ v', bufferChainAppendBufferchain v vo = .ok v' ∧ v'.mChain = v.mChain ++ vo.mChain := by
  obtain ⟨segs, size⟩ := vo
  simp only [bufferChainAppendBufferchain] at hsegs ⊢
  induction segs generalizing v with
  | nil => exact ⟨v, rfl, (List.append_nil _).symm⟩
  | cons iob segs ih =>
    obtain ⟨v', hx, hlist⟩ :=
      ih (bufferChainAddBack v iob) fun x hx => hsegs x (List.mem_cons_of_mem _ hx)
    refine ⟨v', ?_, ?_⟩
    · rw [List.foldlM_cons, (hsegs iob List.mem_cons_self).dup_eq, ok_bind, ok_bind, hx]
    · rw [hlist, bufferChainAddBack, List.append_assoc, List.singleton_append]

/-- The loop moves the segments and takes their bytes off the counter. -/
theorem bufferChainStealLoop_eq (v : BufferChain) (segs : List IOBuffer) (size : ℤ)
    (hint : cInt size = size) :
    (bufferChainStealLoop v segs size).1.mChain = v.mChain ++ segs ∧
      (bufferChainStealLoop v segs size).2 = ⟨[], cInt (size-(segs.map iobufferDataLen).sum)⟩ := by
  induction segs generalizing v size with
  | nil =>
    refine ⟨(List.append_nil _).symm, ?_⟩
    rw [bufferChainStealLoop, List.map_nil, List.sum_nil, Nat.cast_zero, sub_zero, hint]
  | cons iob segs ih =>
    obtain ⟨hlist, hsize⟩ := ih (bufferChainAddBack v iob) (cInt (size-iobufferDataLen iob))
      (cInt_of_range _ (le_cInt _) (cInt_lt _))
    rw [bufferChainStealLoop]
    refine ⟨?_, ?_⟩
    · rw [hlist, bufferChainAddBack, List.append_assoc, List.singleton_append]
    · rw [hsize, List.map_cons, List.sum_cons, sub_eq_add_neg (cInt _), cInt_add_left]
      congr 2
      push_cast
      ring

theorem bufferChainContent_append {v v' vo : BufferChain} (hlist : v'.mChain = v.mChain ++ vo.mChain) :
    bufferChainContent v' = bufferChainContent v ++ bufferChainContent vo := by
  rw [bufferChainContent, hlist, List.flatMap_append, bufferChainContent, bufferChainContent]

theorem length_bufferChainContent {v : BufferChain} (hsegs : ∀ iob ∈ v.mChain, SegmentOk iob) :
    (bufferChainContent v).length = (v.mChain.map iobufferDataLen).sum := by
  refine length_flatMap_data fun iob hiob => ?_
  obtain ⟨c, -, hh⟩ := (hsegs iob hiob).2
  exact hh.remaining.symm

end values

namespace ChainWorld

/-- Nothing that is done to other chains, and to buffers that are not this chain's, changes
this chain or what is in its buffers. -/
def Undisturbed (w : ChainWorld) (i : ℕ) : Prop :=
  ∀ es w', (chainMachine.restrict fun w e => i ∉ w.touches e).Run w es w' → w.Same w' i

/-- `BufferChain_append_bufferchain(a, b)` puts the content of `b` behind that of `a`, leaves
`b` as it is, and neither chain is changed by what is done to the other afterwards. -/
def Copies (w : ChainWorld) (a b : ℕ) (va vb : BufferChain) (places : List Allocation) : Prop :=
  ∃ w' va', w.exec (.appendBufferchain a b places) = .ok w' ∧ (w'.chains a).Reads w'.heap va' ∧
    bufferChainContent va' = bufferChainContent va ++ bufferChainContent vb ∧
    w.Same w' b ∧ w'.Undisturbed a ∧ w'.Undisturbed b

/-- `BufferChain_steal_bufferchain(a, b)` puts the content of `b` behind that of `a` and leaves
`b` empty, and every buffer of the two is in one place of one chain. -/
def Steals (w : ChainWorld) (a b : ℕ) (va vb : BufferChain) : Prop :=
  ∃ w' va', w.exec (.stealBufferchain a b) = .ok w' ∧ (w'.chains a).Reads w'.heap va' ∧
    bufferChainContent va' = bufferChainContent va ++ bufferChainContent vb ∧
    w'.chains b = ⟨[], 0⟩ ∧ (∀ i, (w'.chains i).mChain.Nodup) ∧
    ∀ x ∈ (w.chains a).mChain ++ (w.chains b).mChain, ∃! i, x ∈ (w'.chains i).mChain

section

variable {w : ChainWorld} {a b : ℕ} {va vb : BufferChain} {places : List Allocation}

theorem Sound.undisturbed (hw : w.Sound) (i : ℕ) : w.Undisturbed i :=
  fun _ _ hrun => (hw.run hrun).2

theorem Sound.copies (hw : w.Sound) (hab : a ≠ b) (ha : (w.chains a).Reads w.heap va)
    (hb : (w.chains b).Reads w.heap vb) (hsegs : ∀ iob ∈ vb.mChain, SegmentOk iob)
    (hfresh : w.heap.FreshAll places) (hlen : (w.chains b).mChain.length = places.length) :
    w.Copies a b va vb places := by
  obtain ⟨va', hva, hlist⟩ := bufferChainAppendBufferchain_list va vb hsegs
  obtain ⟨heap, chain, hx, hreads⟩ :=
    BufferHeap.chainAppendBufferchain_ok hw.owned ha hb hfresh hlen hva
  have hexec : w.exec (.appendBufferchain a b places) = .ok (w.set heap a chain) := by
    rw [exec, hx, ok_bind]
  have hev := hw.step (.appendBufferchain a b places) ⟨hab, hfresh, hlen⟩ hexec
  refine ⟨w.set heap a chain, va', hexec, ?_, bufferChainContent_append hlist,
    hev.same b hab.symm, hev.sound.undisturbed a, hev.sound.undisturbed b⟩
  rwa [set_chains_self]

/-- What stealing does in any case: the counter of the other chain is left with what its
buffers did not account for. -/
theorem Sound.steal_exec (hw : w.Sound) (hab : a ≠ b) (ha : (w.chains a).Reads w.heap va)
    (hb : (w.chains b).Reads w.heap vb) (hint : cInt (w.chains b).mSize = (w.chains b).mSize) :
    ∃ w' va', w.exec (.stealBufferchain a b) = .ok w' ∧ (w'.chains a).Reads w'.heap va' ∧
      bufferChainContent va' = bufferChainContent va ++ bufferChainContent vb ∧
      w'.chains b = ⟨[], cInt ((w.chains b).mSize-(vb.mChain.map iobufferDataLen).sum)⟩ ∧
      w'.Sound ∧ (w'.chains a).mChain = (w.chains a).mChain ++ (w.chains b).mChain := by
  obtain ⟨chain, left, hx, hchain, hleft⟩ := BufferHeap.chainSteal_ok ha hb
  obtain ⟨hlist, hempty⟩ := BufferHeap.chainSteal_list hx
  rw [hb.size] at hint ⊢
  obtain ⟨hsegs, hsize⟩ := bufferChainStealLoop_eq va vb.mChain vb.mSize hint
  have hexec : w.exec (.stealBufferchain a b) = .ok ((w.set w.heap b left).set w.heap a chain) := by
    rw [exec, hx, ok_bind]
  refine ⟨_, (bufferChainStealBufferchain va vb).1, hexec, ?_, bufferChainContent_append hsegs, ?_,
    (hw.step (.stealBufferchain a b) hab hexec).sound, ?_⟩
  · rwa [set_chains_self]
  · rw [set_chains_of_ne hab.symm, set_chains_self]
    have hcounter := hleft.size
    rw [bufferChainStealBufferchain, hsize] at hcounter
    obtain ⟨items, size⟩ := left
    obtain rfl : items = [] := hempty
    exact congrArg (ChainObject.mk []) hcounter
  · rw [set_chains_self, hlist]

theorem Sound.steals_iff (hw : w.Sound) (hab : a ≠ b) (ha : (w.chains a).Reads w.heap va)
    (hb : (w.chains b).Reads w.heap vb) (hint : cInt (w.chains b).mSize = (w.chains b).mSize)
    (hsegs : ∀ iob ∈ vb.mChain, SegmentOk iob) :
    w.Steals a b va vb ↔ (w.chains b).mSize = cInt (bufferChainContent vb).length := by
  obtain ⟨w', va', hexec, hreads, hcontent, hother, hsound, hlist⟩ := hw.steal_exec hab ha hb hint
  have hzero : cInt ((w.chains b).mSize-(vb.mChain.map iobufferDataLen).sum) = 0 ↔
      (w.chains b).mSize = cInt (bufferChainContent vb).length := by
    rw [cInt_sub_eq_zero_iff, hint, length_bufferChainContent hsegs]
  rw [← hzero]
  constructor
  · rintro ⟨w'', va'', hexec', -, -, hempty, -⟩
    obtain rfl := Except.ok.inj (hexec.symm.trans hexec')
    exact congrArg ChainObject.mSize (hother.symm.trans hempty)
  · intro hsize
    refine ⟨w', va', hexec, hreads, hcontent, by rw [hother, hsize], hsound.nodup, fun x hx => ?_⟩
    rw [← hlist] at hx
    refine ⟨a, hx, fun i hi => ?_⟩
    by_contra hne
    exact hsound.apart i a hne x hi hx

end

end ChainWorld

/-- Chains of non-empty buffers from which nothing was consumed, apart in memory: copying
one to the other and stealing it do what they should exactly if the counter of the other
chain is right, up to the wrap of `int`. -/
theorem bufferChain_copy_steal_iff (w : ChainWorld) (hw : w.Sound) (a b : ℕ) (hab : a ≠ b)
    (va vb : BufferChain) (ha : (w.chains a).Reads w.heap va) (hb : (w.chains b).Reads w.heap vb)
    (hsegs : ∀ iob ∈ va.mChain ++ vb.mChain, SegmentOk iob)
    (hint : cInt (w.chains b).mSize = (w.chains b).mSize) :
    ((∀ places, w.heap.FreshAll places → (w.chains b).mChain.length = places.length →
        w.Copies a b va vb places) ∧ w.Steals a b va vb) ↔
      (w.chains b).mSize = cInt (bufferChainContent vb).length := by
  have hother : ∀ iob ∈ vb.mChain, SegmentOk iob := fun iob hiob =>
    hsegs iob (List.mem_append_right _ hiob)
  rw [hw.steals_iff hab ha hb hint hother]
  exact and_iff_right fun places hfresh hlen => hw.copies hab ha hb hother hfresh hlen

theorem oneByteBuffer_segmentOk : SegmentOk oneByteBuffer :=
  ⟨by decide, 1, by decide, by decide, by decide, by decide, by decide, by decide, by decide⟩

/-- Two buffers of a byte in memory, and chains with nothing in them. -/
def twoBuffers : ChainWorld where
  heap := (BufferHeap.empty.put ⟨0, 0⟩ oneByteBuffer).put ⟨1, 1⟩ oneByteBuffer
  chains _ := ⟨[], 0⟩

theorem twoBuffers_sound : twoBuffers.Sound := by
  have hone : BufferHeap.empty.Fresh ⟨0, 0⟩ := ⟨rfl, rfl⟩
  have hopen := hone.open BufferHeap.empty_owned
  have hfirst : (BufferHeap.empty.put ⟨0, 0⟩ oneByteBuffer).Owned := BufferHeap.empty_owned.put hopen
  have htwo : (BufferHeap.empty.put ⟨0, 0⟩ oneByteBuffer).Fresh ⟨1, 1⟩ := ⟨rfl, rfl⟩
  exact ⟨hfirst.put (htwo.open hfirst), fun _ _ ha => absurd ha List.not_mem_nil,
    fun _ => List.nodup_nil, fun _ _ _ _ _ => List.not_mem_nil⟩

theorem twoBuffers_loose (a : ℕ) : twoBuffers.Loose a := fun _ => List.not_mem_nil

/-- A chain that was built at the back is copied and stolen as it should be. -/
theorem bufferChain_copy_steal_back :
    ∃ w, chainMachine.Run twoBuffers [.addBack 1 0, .addBack 1 1] w ∧
      (∀ places, w.heap.FreshAll places → (w.chains 1).mChain.length = places.length →
        w.Copies 0 1 bufferChainNew ⟨[oneByteBuffer, oneByteBuffer], 2⟩ places) ∧
      w.Steals 0 1 bufferChainNew ⟨[oneByteBuffer, oneByteBuffer], 2⟩ := by
  have hloose : (twoBuffers.set twoBuffers.heap 1 ⟨[0], 1⟩).Loose 1 :=
    (twoBuffers_loose 1).set (by decide)
  have hrun : (chainMachine.restrict fun w e => 0 ∉ w.touches e).Run twoBuffers
      [.addBack 1 0, .addBack 1 1]
      ((twoBuffers.set twoBuffers.heap 1 ⟨[0], 1⟩).set twoBuffers.heap 1 ⟨[0, 1], 2⟩) :=
    .cons ⟨twoBuffers_loose 0, Nat.zero_ne_one⟩ rfl (.cons ⟨hloose, Nat.zero_ne_one⟩ rfl (.nil _))
  refine ⟨_, hrun.of_restrict, (bufferChain_copy_steal_iff _ (twoBuffers_sound.run hrun).1 0 1
    Nat.zero_ne_one bufferChainNew ⟨[oneByteBuffer, oneByteBuffer], 2⟩ ⟨rfl, rfl⟩ ⟨rfl, rfl⟩ ?_
    (show cInt 2 = 2 by decide)).mpr (cInt_natCast 2 (by decide)).symm⟩
  intro iob hiob
  have hsame : iob = oneByteBuffer := by simpa [bufferChainNew] using hiob
  rw [hsame]
  exact oneByteBuffer_segmentOk

/-- One that was built at the front is left with a counter below zero. -/
theorem bufferChain_steal_front :
    ∃ w w', chainMachine.Run twoBuffers [.addFront 1 0, .addFront 1 1] w ∧
      (w.chains 1).Reads w.heap ⟨[oneByteBuffer, oneByteBuffer], 1⟩ ∧
      w.exec (.stealBufferchain 0 1) = .ok w' ∧ w'.chains 1 = ⟨[], -1⟩ := by
  have hloose : (twoBuffers.set twoBuffers.heap 1 ⟨[0], 1⟩).Loose 1 :=
    (twoBuffers_loose 1).set (by decide)
  exact ⟨_, _, .cons (twoBuffers_loose 0) rfl (.cons hloose rfl (.nil _)), ⟨rfl, rfl⟩, rfl, rfl⟩

end CHttp
