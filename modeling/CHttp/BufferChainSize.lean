import CHttp.BufferChain
import CHttp.IOBufferBounds

/-! The counter of a buffer chain against the buffers in it, when the chain is changed by
any of the public operations, other chains being appended to it and stolen from it. -/
namespace CHttp

/-- What `IOBuffer_data_len` adds up to over the buffers of a chain. -/
def bufferChainBytes (chain : BufferChain) : ℕ := (chain.mChain.map iobufferDataLen).sum

/-- A buffer with data in it, wherever in the block it starts. -/
def IOBuffer.Occupied (iob : IOBuffer) : Prop :=
  iobufferDataLen iob ≠ 0 ∧ ∃ c, c+1 < 2^31 ∧ iob.Shaped c

/-- A call, on chains that are told apart by number. -/
inductive BufferChainCall where
  | append (this : ℕ) (buf : Bytes)
  | addBack (this : ℕ) (iobuf : IOBuffer)
  | addFront (this : ℕ) (iobuf : IOBuffer)
  | popFront (this : ℕ)
  | removeIter (this : ℕ) (iter : ℕ)
  | appendBufferchain (this other : ℕ)
  | stealBufferchain (this other : ℕ)
  deriving DecidableEq

/-- An iterator points at an item. A chain that is appended to itself or stolen from
itself is walked along for ever. -/
def BufferChainCall.Permitted (w : ℕ → BufferChain) : BufferChainCall → Prop
  | .append _ buf => buf ≠ [] ∧ buf.length < 2^31
  | .addBack _ iobuf | .addFront _ iobuf => iobuf.Occupied
  | .popFront _ => True
  | .removeIter this iter => iter < (w this).mChain.length
  | .appendBufferchain this other | .stealBufferchain this other => this ≠ other

def bufferChainCall (w : ℕ → BufferChain) : BufferChainCall → Res (ℕ → BufferChain)
  | .append this buf => do
    let chain ← bufferChainAppend (w this) (buf.map some)
    .ok (Function.update w this chain)
  | .addBack this iobuf => .ok (Function.update w this (bufferChainAddBack (w this) iobuf))
  | .addFront this iobuf => .ok (Function.update w this (bufferChainAddFront (w this) iobuf))
  | .popFront this => .ok (Function.update w this (bufferChainPopFront (w this)).2)
  | .removeIter this iter => .ok (Function.update w this (bufferChainRemoveIter (w this) iter))
  | .appendBufferchain this other => do
    let chain ← bufferChainAppendBufferchain (w this) (w other)
    .ok (Function.update w this chain)
  | .stealBufferchain this other =>
    let (chain, left) := bufferChainStealBufferchain (w this) (w other)
    .ok (Function.update (Function.update w other left) this chain)

def bufferChainMachine : Machine (ℕ → BufferChain) BufferChainCall Fault where
  enabled w call := call.Permitted w
  exec := bufferChainCall

/-- The counter is the number of bytes, and the chain can be compacted. -/
structure BufferChain.Counted (chain : BufferChain) : Prop where
  size : bufferChainSize chain = bufferChainBytes chain
  compacts : ∃ iob, bufferChainCompact chain = .ok iob

/-- The calls that keep the counter right: buffers are put in front only where there are
none behind, none is taken out through an iterator, and the bytes stay an `int`, with one
to spare for the terminator of the compacted buffer. -/
def BufferChainCall.Counts (w : ℕ → BufferChain) : BufferChainCall → Prop
  | .append this buf => bufferChainBytes (w this)+buf.length+1 < 2^31
  | .addBack this iobuf => bufferChainBytes (w this)+iobufferDataLen iobuf+1 < 2^31
  | .addFront this _ => (w this).mChain = []
  | .popFront _ => True
  | .removeIter _ _ => False
  | .appendBufferchain this other | .stealBufferchain this other =>
    bufferChainBytes (w this)+bufferChainBytes (w other)+1 < 2^31

section bytes

theorem IOBuffer.Occupied.length_data {iob : IOBuffer} (h : iob.Occupied) :
    (iobufferData iob).length = iobufferDataLen iob := by
  obtain ⟨-, c, -, hs⟩ := h
  exact hs.queues.remaining.symm

theorem IOBuffer.Occupied.data_ne_nil {iob : IOBuffer} (h : iob.Occupied) : iobufferData iob ≠ [] := by
  intro hnil
  have hlen := h.length_data
  rw [hnil] at hlen
  exact h.1 hlen.symm

theorem IOBuffer.Occupied.dataLen_lt {iob : IOBuffer} (h : iob.Occupied) :
    iobufferDataLen iob+1 < 2^31 := by
  obtain ⟨-, c, hc, hs⟩ := h
  have hi := hs.inside
  rw [iobufferDataLen]
  omega

theorem bufferChainBytes_concat (segs : List IOBuffer) (iob : IOBuffer) (size : ℤ) :
    bufferChainBytes ⟨segs ++ [iob], size⟩ = (segs.map iobufferDataLen).sum+iobufferDataLen iob := by
  simp [bufferChainBytes]

theorem bufferChainBytes_eq_zero_iff {chain : BufferChain} (h : ∀ iob ∈ chain.mChain, iob.Occupied) :
    bufferChainBytes chain = 0 ↔ chain.mChain = [] := by
  rw [bufferChainBytes, List.sum_eq_zero_iff, List.eq_nil_iff_forall_not_mem]
  constructor
  · intro hz iob hiob
    exact (h iob hiob).1 (hz _ (List.mem_map_of_mem hiob))
  · intro hnone n hn
    obtain ⟨iob, hiob, -⟩ := List.mem_map.mp hn
    exact absurd hiob (hnone iob)

theorem iobufferDataAdd_dataLen {iob iob' : IOBuffer} {p : List Cell}
    (h : iobufferDataAdd iob p = .ok iob') :
    iobufferDataLen iob' = iobufferDataLen iob+p.length := by
  obtain ⟨-, h⟩ := (cAssert_bind_eq_ok _ _ _ _).mp h
  obtain ⟨filled, hfill, hcommit⟩ := (bind_eq_ok _ _ _).mp h
  obtain ⟨mem, -, hfill⟩ := (bind_eq_ok _ _ _).mp hfill
  obtain rfl := Except.ok.inj hfill
  exact (iobufferCommit_dataLen hcommit).2

end bytes

/-- A chain of non-empty buffers with `n` bytes in all, the counter right up to the wrap of
`int`. -/
structure BufferChain.Weighs (chain : BufferChain) (n : ℕ) : Prop where
  segments : ∀ iob ∈ chain.mChain, iob.Occupied
  bytes : bufferChainBytes chain = n
  size : chain.mSize = cInt n

section weighs

variable {chain : BufferChain} {n : ℕ}

theorem bufferChainNew_weighs : bufferChainNew.Weighs 0 :=
  ⟨fun _ hiob => absurd hiob List.not_mem_nil, rfl, (cInt_natCast 0 (by decide)).symm⟩

/-- Compaction asks for as much room as the counter says. -/
theorem BufferChain.Weighs.counted_iff (h : chain.Weighs n) : chain.Counted ↔ n+1 < 2^31 := by
  constructor
  · rintro ⟨hcount, iob, hcompact⟩
    have hint := cInt_lt n
    rw [bufferChainSize, h.size, h.bytes] at hcount
    obtain ⟨fresh, hnew, -⟩ := (bind_eq_ok _ _ _).mp hcompact
    by_contra hbig
    obtain rfl : n = 2^31-1 := by omega
    rw [bufferChainSize, h.size, hcount] at hnew
    cases hnew
  · intro hn
    have hcount : bufferChainSize chain = n := by
      rw [bufferChainSize, h.size, cInt_natCast n (by omega)]
    obtain ⟨fresh, hnew, hfresh⟩ := iobufferInit_holds n hn
    obtain ⟨iob, hfold, -⟩ := compact_fold chain.mChain fresh n []
      (fun iob hiob => (h.segments iob hiob).data_ne_nil) hfresh (by
        rw [length_flatMap_data fun iob hiob => (h.segments iob hiob).length_data, ← h.bytes,
          bufferChainBytes, List.length_nil, Nat.zero_add])
    refine ⟨by rw [hcount, h.bytes], iob, ?_⟩
    simp only [bufferChainCompact, hcount, hnew, ok_bind, hfold]

/-- A buffer at the back, with its bytes counted. -/
theorem BufferChain.Weighs.concat {segs : List IOBuffer} {size : ℤ} (h : BufferChain.Weighs ⟨segs, size⟩ n)
    {iob : IOBuffer} (hiob : iob.Occupied) :
    BufferChain.Weighs ⟨segs ++ [iob], cInt (size+iobufferDataLen iob)⟩ (n+iobufferDataLen iob) := by
  refine ⟨fun x hx => ?_, ?_, ?_⟩
  · rcases List.mem_append.mp hx with hx | hx
    · exact h.segments x hx
    · rwa [List.mem_singleton.mp hx]
  · rw [bufferChainBytes_concat, ← h.bytes, bufferChainBytes]
  · have hsize : size = cInt n := h.size
    rw [hsize, cInt_add_left, Nat.cast_add]

theorem BufferChain.Weighs.addBack (h : chain.Weighs n) {iob : IOBuffer} (hiob : iob.Occupied) :
    (bufferChainAddBack chain iob).Weighs (n+iobufferDataLen iob) :=
  h.concat hiob

/-- What leaves at the front leaves the counter too. -/
theorem BufferChain.Weighs.uncons {front : IOBuffer} {rest : List IOBuffer} {size : ℤ}
    (h : BufferChain.Weighs ⟨front :: rest, size⟩ n) :
    ∃ m, n = iobufferDataLen front+m ∧ front.Occupied ∧
      BufferChain.Weighs ⟨rest, cInt (size-iobufferDataLen front)⟩ m := by
  have hbytes : iobufferDataLen front+(rest.map iobufferDataLen).sum = n := h.bytes
  have hsize : size = cInt n := h.size
  refine ⟨(rest.map iobufferDataLen).sum, hbytes.symm, h.segments front List.mem_cons_self,
    fun x hx => h.segments x (List.mem_cons_of_mem _ hx), rfl, ?_⟩
  simp only [hsize, sub_eq_add_neg, cInt_add_left]
  congr 1
  omega

theorem BufferChain.Weighs.popFront (h : chain.Weighs n) :
    ∃ m ≤ n, (bufferChainPopFront chain).2.Weighs m := by
  obtain ⟨segs, size⟩ := chain
  rcases segs with _ | ⟨front, rest⟩
  · exact ⟨n, le_rfl, h⟩
  · obtain ⟨m, rfl, -, hrest⟩ := h.uncons
    exact ⟨m, by omega, hrest⟩

theorem bufferChainAddSegment_weighs {chain' : BufferChain} (h : chain.Weighs n) {b : List Cell}
    (hok : bufferChainAddSegment chain b b.length = .ok chain') : chain'.Weighs (n+b.length) := by
  obtain ⟨fresh, hnew, hok⟩ := (bind_eq_ok _ _ _).mp hok
  obtain ⟨iob, hadd, hok⟩ := (bind_eq_ok _ _ _).mp hok
  obtain rfl := Except.ok.inj hok
  obtain ⟨c, -, hc, hiob⟩ : ∃ c : ℕ, _ = (c : ℤ) ∧ c+1 < 2^31 ∧ iob.Holds c b := by
    refine iobufferNew_add_inv _ ?_ ?_ fresh iob b hnew hadd
    · split_ifs
      · exact le_cInt _
      · decide
    · split_ifs
      · exact cInt_lt _
      · decide
  have hlen : iobufferDataLen iob = b.length := hiob.remaining
  have hne : b ≠ [] := iobufferDataAdd_ne_nil fresh iob b hadd
  have hocc : iob.Occupied := ⟨by rw [hlen]; exact List.length_pos_iff.mpr hne |>.ne', c, hc, hiob.shaped⟩
  rw [← hlen]
  exact h.concat hocc

/-- Bytes put behind the last buffer are counted as part of it. -/
theorem BufferChain.Weighs.appendLast (h : chain.Weighs n) {b : List Cell} {last last' : IOBuffer}
    (hlast : chain.mChain.getLast? = some last) (hfit : (b.length : ℤ) ≤ iobufferSpaceLen last)
    (hadd : iobufferDataAdd last b = .ok last') :
    BufferChain.Weighs ⟨chain.mChain.dropLast ++ [last'], cInt (chain.mSize+b.length)⟩ (n+b.length) := by
  have hsplit : chain.mChain = chain.mChain.dropLast ++ [last] :=
    (List.dropLast_append_getLast? last hlast).symm
  obtain ⟨hdata, c, hc, hshaped⟩ := h.segments last (List.mem_of_getLast? hlast)
  have hne : b ≠ [] := iobufferDataAdd_ne_nil last last' b hadd
  obtain ⟨last'', hadd', hshaped'⟩ := iobufferDataAdd_shaped hshaped b hne hfit
  obtain rfl : last' = last'' := Except.ok.inj (hadd.symm.trans hadd')
  have hlen := iobufferDataAdd_dataLen hadd
  have hbytes := h.bytes
  rw [bufferChainBytes, hsplit, List.map_append, List.sum_append, List.map_singleton,
    List.sum_singleton] at hbytes
  refine ⟨fun x hx => ?_, ?_, ?_⟩
  · rcases List.mem_append.mp hx with hx | hx
    · exact h.segments x (List.dropLast_subset _ hx)
    · rw [List.mem_singleton.mp hx]
      exact ⟨by omega, c, hc, hshaped'⟩
  · rw [bufferChainBytes_concat]
    omega
  · simp only [h.size, cInt_add_left, Nat.cast_add]

/-- An append that returns has counted its bytes, wherever they went. -/
theorem BufferChain.Weighs.append {chain' : BufferChain} (h : chain.Weighs n) {b : List Cell}
    (hl : b.length < 2^31) (hok : bufferChainAppend chain b = .ok chain') :
    chain'.Weighs (n+b.length) := by
  rw [bufferChainAppend_eq chain b hl] at hok
  split_ifs at hok with hpos
  · split at hok
    · cases hok
    · split_ifs at hok with hfit
      · obtain ⟨last', hadd, hok⟩ := (bind_eq_ok _ _ _).mp hok
        obtain rfl := Except.ok.inj hok
        exact h.appendLast ‹_› hfit hadd
      · exact bufferChainAddSegment_weighs h hok
  · exact bufferChainAddSegment_weighs h hok

/-- A copy of each buffer goes to the back. -/
theorem BufferChain.Weighs.appendBufferchain {other chain' : BufferChain} {m : ℕ} (h : chain.Weighs n)
    (ho : other.Weighs m) (hok : bufferChainAppendBufferchain chain other = .ok chain') :
    chain'.Weighs (n+m) := by
  obtain ⟨segs, size⟩ := other
  obtain ⟨hsegs, rfl, -⟩ := ho
  rw [bufferChainAppendBufferchain] at hok
  simp only [bufferChainBytes] at hsegs hok ⊢
  clear size
  induction segs generalizing chain n with
  | nil =>
    obtain rfl := Except.ok.inj hok
    exact h
  | cons iob segs ih =>
    have hiob := hsegs iob List.mem_cons_self
    obtain ⟨c, hc, hshaped⟩ := hiob.2
    rw [List.foldlM_cons, iobufferDup_eq iob c hc hshaped.capacity hshaped.mem_length, ok_bind,
      ok_bind] at hok
    have hrest := ih (h.addBack hiob) hok fun x hx => hsegs x (List.mem_cons_of_mem _ hx)
    rwa [List.map_cons, List.sum_cons, ← Nat.add_assoc]

/-- Stealing moves every buffer with its bytes. -/
theorem BufferChain.Weighs.stealBufferchain {other : BufferChain} {m : ℕ} (h : chain.Weighs n)
    (ho : other.Weighs m) :
    (bufferChainStealBufferchain chain other).1.Weighs (n+m) ∧
      (bufferChainStealBufferchain chain other).2.Weighs 0 := by
  obtain ⟨segs, size⟩ := other
  rw [bufferChainStealBufferchain]
  induction segs generalizing chain n m size with
  | nil =>
    obtain ⟨-, rfl, hsize⟩ := ho
    exact ⟨h, fun _ hiob => absurd hiob List.not_mem_nil, rfl, hsize⟩
  | cons iob segs ih =>
    obtain ⟨m, rfl, hiob, hrest⟩ := ho.uncons
    rw [← Nat.add_assoc]
    exact ih (h.addBack hiob) _ hrest

theorem bufferChainAddFront_bytes (chain : BufferChain) (iob : IOBuffer) :
    bufferChainBytes (bufferChainAddFront chain iob) = iobufferDataLen iob+bufferChainBytes chain := by
  rw [bufferChainBytes, bufferChainAddFront, List.map_cons, List.sum_cons, bufferChainBytes]

theorem bufferChainAddFront_weighs (hempty : chain.mChain = []) {iob : IOBuffer} (hiob : iob.Occupied) :
    (bufferChainAddFront chain iob).Weighs (iobufferDataLen iob) := by
  have hlt := hiob.dataLen_lt
  have hzero : bufferChainBytes chain = 0 := by rw [bufferChainBytes, hempty]; rfl
  refine ⟨fun x hx => ?_, by rw [bufferChainAddFront_bytes, hzero, Nat.add_zero], ?_⟩
  · rw [bufferChainAddFront, hempty, List.mem_singleton] at hx
    rwa [hx]
  · exact (cInt_natCast _ (by omega)).symm

/-- A buffer put in front of others takes the counter for itself. -/
theorem BufferChain.Weighs.not_counted_addFront (h : chain.Weighs n) (hne : chain.mChain ≠ [])
    (iob : IOBuffer) : ¬(bufferChainAddFront chain iob).Counted := by
  rintro ⟨hsize, -⟩
  have hpos := (bufferChainBytes_eq_zero_iff h.segments).not.mpr hne
  rw [bufferChainAddFront_bytes] at hsize
  simp only [bufferChainSize, bufferChainAddFront] at hsize
  omega

/-- The bytes of a buffer taken out through an iterator stay in the counter. -/
theorem BufferChain.Weighs.not_counted_removeIter (h : chain.Weighs n) (hcounted : chain.Counted)
    {iter : ℕ} (hiter : iter < chain.mChain.length) :
    ¬(bufferChainRemoveIter chain iter).Counted := by
  rintro ⟨hsize, -⟩
  have hgone := (h.segments _ (List.getElem_mem hiter)).1
  have hsplit : iobufferDataLen chain.mChain[iter]+bufferChainBytes (bufferChainRemoveIter chain iter) =
      bufferChainBytes chain :=
    ((List.getElem_cons_eraseIdx_perm hiter).map iobufferDataLen).sum_eq
  have hkept : bufferChainSize (bufferChainRemoveIter chain iter) = bufferChainSize chain := rfl
  have hbefore := hcounted.size
  omega

end weighs

def AllCounted (w : ℕ → BufferChain) : Prop := ∀ i, (w i).Counted

/-- What is known of the chains of a run while their counters are right. -/
def AllWeigh (w : ℕ → BufferChain) : Prop := ∀ i, ∃ n, (w i).Weighs n

section step

variable {w : ℕ → BufferChain} {i : ℕ} {chain : BufferChain} {n : ℕ} {a : Prop}

/-- Only the chain that was changed is in question. -/
theorem holdsIff_update (hj : AllWeigh w) (hp : AllCounted w) (h : chain.Weighs n)
    (ha : n+1 < 2^31 ↔ a) :
    Machine.HoldsIff AllCounted AllWeigh (Function.update w i chain) a := by
  have hcounted : AllCounted (Function.update w i chain) ↔ chain.Counted :=
    (Function.forall_update_iff w fun _ chain => chain.Counted).trans
      ⟨And.left, fun hchain => ⟨hchain, fun j _ => hp j⟩⟩
  refine ⟨by rw [hcounted, h.counted_iff, ha], fun _ => ?_⟩
  exact (Function.forall_update_iff w fun _ chain => ∃ n, chain.Weighs n).mpr
    ⟨⟨n, h⟩, fun j _ => hj j⟩

theorem holdsIff_update_not (h : ¬chain.Counted) (ha : ¬a) :
    Machine.HoldsIff AllCounted AllWeigh (Function.update w i chain) a := by
  refine .of_not (fun hall => h ?_) ha
  exact ((Function.forall_update_iff w fun _ chain => chain.Counted).mp hall).1

/-- One call: every counter is right after it exactly if the call counts. -/
theorem bufferChainCall_counts {w' : ℕ → BufferChain} (call : BufferChainCall) (hj : AllWeigh w)
    (hp : AllCounted w) (hcall : call.Permitted w) (hx : bufferChainCall w call = .ok w') :
    Machine.HoldsIff AllCounted AllWeigh w' (call.Counts w) := by
  cases call with
  | append this buf =>
    obtain ⟨n, hn⟩ := hj this
    obtain ⟨chain, happ, hx⟩ := (bind_eq_ok _ _ _).mp hx
    obtain rfl := Except.ok.inj hx
    refine holdsIff_update hj hp (hn.append (by rw [List.length_map]; exact hcall.2) happ) ?_
    rw [BufferChainCall.Counts, hn.bytes, List.length_map]
  | addBack this iobuf =>
    obtain ⟨n, hn⟩ := hj this
    obtain rfl := Except.ok.inj hx
    refine holdsIff_update hj hp (hn.addBack hcall) ?_
    rw [BufferChainCall.Counts, hn.bytes]
  | addFront this iobuf =>
    obtain ⟨n, hn⟩ := hj this
    obtain rfl := Except.ok.inj hx
    by_cases hempty : (w this).mChain = []
    · exact holdsIff_update hj hp (bufferChainAddFront_weighs hempty hcall)
        (iff_of_true hcall.dataLen_lt hempty)
    · exact holdsIff_update_not (hn.not_counted_addFront hempty iobuf) hempty
  | popFront this =>
    obtain ⟨n, hn⟩ := hj this
    obtain rfl := Except.ok.inj hx
    obtain ⟨m, hm, hpop⟩ := hn.popFront
    have hlt := hn.counted_iff.mp (hp this)
    exact holdsIff_update hj hp hpop (iff_of_true (by omega) trivial)
  | removeIter this iter =>
    obtain ⟨n, hn⟩ := hj this
    obtain rfl := Except.ok.inj hx
    exact holdsIff_update_not (hn.not_counted_removeIter (hp this) hcall) id
  | appendBufferchain this other =>
    obtain ⟨n, hn⟩ := hj this
    obtain ⟨m, hm⟩ := hj other
    obtain ⟨chain, happ, hx⟩ := (bind_eq_ok _ _ _).mp hx
    obtain rfl := Except.ok.inj hx
    refine holdsIff_update hj hp (hn.appendBufferchain hm happ) ?_
    rw [BufferChainCall.Counts, hn.bytes, hm.bytes]
  | stealBufferchain this other =>
    obtain ⟨n, hn⟩ := hj this
    obtain ⟨m, hm⟩ := hj other
    obtain rfl := Except.ok.inj hx
    obtain ⟨hthis, hother⟩ := hn.stealBufferchain hm
    have hleft := holdsIff_update hj hp hother (i := other) (iff_of_true (by decide) trivial)
    have hp' := hleft.iff.mpr trivial
    refine holdsIff_update (hleft.known hp') hp' hthis ?_
    rw [BufferChainCall.Counts, hn.bytes, hm.bytes]

end step

/-- In every run over new chains the counters are right, and the chains can be compacted,
exactly as long as every call counts. -/
theorem bufferChain_counted_iff (calls : List BufferChainCall) (w : ℕ → BufferChain)
    (hrun : bufferChainMachine.Run (fun _ => bufferChainNew) calls w) :
    bufferChainMachine.Always AllCounted (fun _ => bufferChainNew) calls ↔
      (bufferChainMachine.restrict fun w call => call.Counts w).Run (fun _ => bufferChainNew) calls w :=
  hrun.always_iff (fun _ call _ hj hp he hx => bufferChainCall_counts call hj hp he hx)
    (fun _ => ⟨0, bufferChainNew_weighs⟩)
    fun _ => bufferChainNew_weighs.counted_iff.mpr (by decide)

theorem oneByteBuffer_occupied : oneByteBuffer.Occupied :=
  ⟨by decide, 1, by decide, by decide, by decide, by decide, by decide⟩

theorem bufferChain_counted_stolen :
    ∃ w, bufferChainMachine.Run (fun _ => bufferChainNew)
        [.addBack 0 oneByteBuffer, .stealBufferchain 1 0] w ∧
      (w 1).mChain = [oneByteBuffer] ∧
      bufferChainMachine.Always AllCounted (fun _ => bufferChainNew)
        [.addBack 0 oneByteBuffer, .stealBufferchain 1 0] := by
  have hrun : ∃ w, (bufferChainMachine.restrict fun w call => call.Counts w).Run
      (fun _ => bufferChainNew) [.addBack 0 oneByteBuffer, .stealBufferchain 1 0] w ∧
      (w 1).mChain = [oneByteBuffer] :=
    ⟨_, .cons ⟨oneByteBuffer_occupied, show (0+1+1 : ℕ) < 2^31 by decide⟩ rfl
      (.cons ⟨Nat.one_ne_zero, show (0+1+1 : ℕ) < 2^31 by decide⟩ rfl (.nil _)), by decide⟩
  obtain ⟨w, hw, hstolen⟩ := hrun
  exact ⟨w, hw.of_restrict, hstolen, (bufferChain_counted_iff _ w hw.of_restrict).mpr hw⟩

/-- Two buffers put in front count as one, so that the compacted buffer has no room for
the second; one that is taken out still counts. -/
theorem bufferChain_miscounts :
    (∃ w, bufferChainMachine.Run (fun _ => bufferChainNew)
        [.addFront 0 oneByteBuffer, .addFront 0 oneByteBuffer] w ∧
      bufferChainSize (w 0) = 1 ∧ bufferChainBytes (w 0) = 2 ∧
      bufferChainCompact (w 0) = .error (.assertion "mem_len >= len")) ∧
    ∃ w, bufferChainMachine.Run (fun _ => bufferChainNew)
        [.addBack 0 oneByteBuffer, .removeIter 0 0] w ∧
      bufferChainSize (w 0) = 1 ∧ bufferChainBytes (w 0) = 0 := by
  refine ⟨⟨_, .cons oneByteBuffer_occupied rfl (.cons oneByteBuffer_occupied rfl (.nil _)), ?_⟩,
    ⟨_, .cons oneByteBuffer_occupied rfl (.cons (show 0 < 1 by decide) rfl (.nil _)), ?_⟩⟩
  · decide
  · decide

end CHttp
