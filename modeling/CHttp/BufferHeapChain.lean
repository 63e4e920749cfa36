import CHttp.BufferHeap

/-! Buffer chains in memory: the list of a chain holds the addresses of its buffers. Every
operation is the one on values, and writes to the chain's own buffers and new ones only. -/
namespace CHttp

/-- `BufferChain_s`, with the addresses in its list. -/
structure ChainObject where
  mChain : List ℕ
  mSize : ℤ
  deriving DecidableEq, Repr

namespace BufferHeap

def chainAddSegment (h : BufferHeap) (this : ChainObject) (buf : List Cell) (len : ℤ)
    (place : Allocation) : Res (BufferHeap × ChainObject) := do
  let requiredLen := if 256*4*8 < len then cInt (len+100) else 256*4*8
  let h ← h.newWithCapacity place requiredLen
  let h ← h.modify place.object (iobufferDataAdd · buf)
  .ok (h, ⟨this.mChain ++ [place.object], cInt (this.mSize+len)⟩)

/-- `BufferChain_append`; `place` is used if a segment is added. -/
def chainAppend (h : BufferHeap) (this : ChainObject) (buf : List Cell) (place : Allocation) :
    Res (BufferHeap × ChainObject) :=
  let len := cInt buf.length
  if len < 0 then .error .outOfBounds
  else
    let data := buf.take len.toNat
    if 0 < this.mSize then
      match this.mChain.getLast? with
      | none => .error .nullPointer
      | some lastIob => do
        let iob ← h.load lastIob
        if len ≤ iobufferSpaceLen iob then do
          let h ← h.modify lastIob (iobufferDataAdd · data)
          .ok (h, { this with mSize := cInt (this.mSize+len) })
        else h.chainAddSegment this data len place
    else h.chainAddSegment this data len place

def chainAppendCstr (h : BufferHeap) (this : ChainObject) (s : Bytes) (place : Allocation) :
    Res (BufferHeap × ChainObject) :=
  h.chainAppend this ((cstr s).map some) place

def chainAppendIOBuffer (h : BufferHeap) (this : ChainObject) (iobuf : ℕ) (place : Allocation) :
    Res (BufferHeap × ChainObject) := do
  let iob ← h.load iobuf
  h.chainAppend this (iobufferData iob) place

/-- `BufferChain_compact`: the new buffer is at `place`. -/
def chainCompact (h : BufferHeap) (this : ChainObject) (place : Allocation) : Res BufferHeap := do
  let h ← h.newWithCapacity place this.mSize
  this.mChain.foldlM (fun h tmp => do
    let iob ← h.load tmp
    h.modify place.object (iobufferDataAdd · (iobufferData iob))) h

def chainAddBack (h : BufferHeap) (this : ChainObject) (iobuf : ℕ) : Res ChainObject := do
  let iob ← h.load iobuf
  .ok ⟨this.mChain ++ [iobuf], cInt (this.mSize+iobufferDataLen iob)⟩

def chainAddFront (h : BufferHeap) (this : ChainObject) (iobuf : ℕ) : Res ChainObject := do
  let iob ← h.load iobuf
  .ok ⟨iobuf :: this.mChain, iobufferDataLen iob⟩

def chainPopFront (h : BufferHeap) (this : ChainObject) : Res (Option ℕ × ChainObject) :=
  match this.mChain with
  | [] => .ok (none, this)
  | front :: rest => do
    let iob ← h.load front
    .ok (some front, ⟨rest, cInt (this.mSize-iobufferDataLen iob)⟩)

/-- The loop of `BufferChain_append_bufferchain` over the other chain's buffers, with an
allocation for each copy. -/
def chainAppendLoop (h : BufferHeap) (this : ChainObject) :
    List ℕ → List Allocation → Res (BufferHeap × ChainObject)
  | [], _ => .ok (h, this)
  | _ :: _, [] => .error .allocation
  | iob :: iter, place :: places => do
    let h ← h.dup iob place
    let this ← h.chainAddBack this place.object
    h.chainAppendLoop this iter places

def chainAppendBufferchain (h : BufferHeap) (this other : ChainObject) (places : List Allocation) :
    Res (BufferHeap × ChainObject) :=
  h.chainAppendLoop this other.mChain places

/-- The loop of `BufferChain_steal_bufferchain`: pop from the other chain, add to this. -/
def chainStealLoop (h : BufferHeap) (this : ChainObject) :
    List ℕ → ℤ → Res (ChainObject × ChainObject)
  | [], size => .ok (this, ⟨[], size⟩)
  | front :: rest, size => do
    let iob ← h.load front
    let this ← h.chainAddBack this front
    h.chainStealLoop this rest (cInt (size-iobufferDataLen iob))

def chainStealBufferchain (h : BufferHeap) (this other : ChainObject) :
    Res (ChainObject × ChainObject) :=
  h.chainStealLoop this other.mChain other.mSize

end BufferHeap

/-- The chain and its buffers have this value. -/
structure ChainObject.Reads (this : ChainObject) (h : BufferHeap) (v : BufferChain) : Prop where
  items : this.mChain.map h.load = v.mChain.map Except.ok
  size : this.mSize = v.mSize

namespace ChainObject

variable {this : ChainObject} {h h' : BufferHeap} {v : BufferChain} {a : ℕ} {iob : IOBuffer}

theorem Reads.load (hr : this.Reads h v) (ha : a ∈ this.mChain) :
    ∃ iob ∈ v.mChain, h.load a = .ok iob := by
  have hmem : h.load a ∈ this.mChain.map h.load := List.mem_map_of_mem ha
  rw [hr.items] at hmem
  obtain ⟨iob, hiob, hload⟩ := List.mem_map.mp hmem
  exact ⟨iob, hiob, hload.symm⟩

theorem Reads.alive (hr : this.Reads h v) : ∀ a ∈ this.mChain, (h.objects a).isSome := by
  intro a ha
  obtain ⟨iob, -, hload⟩ := hr.load ha
  exact BufferHeap.isSome_of_load hload

/-- The value depends on the chain's buffers alone. -/
theorem Reads.congr (hr : this.Reads h v) (hsame : ∀ a ∈ this.mChain, h'.load a = h.load a) :
    this.Reads h' v :=
  ⟨(List.map_congr_left hsame).trans hr.items, hr.size⟩

theorem Reads.kept (hr : this.Reads h v) {s : Set ℕ} (hc : h.Changes s h')
    (hs : ∀ a ∈ this.mChain, a ∉ s) : this.Reads h' v :=
  hr.congr fun a ha => hc.kept a (hs a ha) (hr.alive a ha)

theorem Reads.concat (hr : this.Reads h v) (hload : h.load a = .ok iob) (size : ℤ) :
    ChainObject.Reads ⟨this.mChain ++ [a], size⟩ h ⟨v.mChain ++ [iob], size⟩ := by
  refine ⟨?_, rfl⟩
  simp only [List.map_append, List.map_cons, List.map_nil, hr.items, hload]

/-- Malloc does not return the address of one of the chain's buffers. -/
theorem Reads.not_mem_fresh (hr : this.Reads h v) {place : Allocation} (hfresh : h.Fresh place) :
    ∀ a ∈ this.mChain, a ∉ ({place.object} : Set ℕ) := by
  intro a ha hat
  have halive := hr.alive a ha
  rw [Set.mem_singleton_iff.mp hat, hfresh.object] at halive
  cases halive

/-- The last address is that of the last buffer. -/
theorem Reads.getLast? (hr : this.Reads h v) :
    this.mChain.getLast?.map h.load = v.mChain.getLast?.map Except.ok := by
  rw [← List.getLast?_map, hr.items, List.getLast?_map]

end ChainObject

namespace BufferHeap

variable {h h' : BufferHeap} {this this' : ChainObject} {v v' : BufferChain} {place : Allocation}
  {buf : List Cell} {len : ℤ}

section refines

theorem chainAddSegment_ok (hr : this.Reads h v) (hh : h.Owned) (hfresh : h.Fresh place)
    (hx : bufferChainAddSegment v buf len = .ok v') :
    ∃ h' this', h.chainAddSegment this buf len place = .ok (h', this') ∧ this'.Reads h' v' := by
  obtain ⟨new, hnew, hx⟩ := (bind_eq_ok _ _ _).mp hx
  obtain ⟨iob, hadd, hx⟩ := (bind_eq_ok _ _ _).mp hx
  obtain rfl := Except.ok.inj hx
  obtain ⟨h₁, hx₁, hload₁⟩ := newWithCapacity_ok h place hnew
  obtain ⟨h₂, hx₂, hload₂⟩ := modify_ok (f := (iobufferDataAdd · buf)) hload₁ hadd
  have hc₁ := changes_newWithCapacity hh hfresh hx₁
  have hc := hc₁.trans_self (changes_modify hc₁.owned hx₂)
  have hkept : this.Reads h₂ v := hr.kept hc (hr.not_mem_fresh hfresh)
  refine ⟨h₂, ⟨this.mChain ++ [place.object], cInt (this.mSize+len)⟩,
    by simp only [chainAddSegment, hx₁, hx₂, ok_bind], ?_⟩
  rw [hr.size]
  exact hkept.concat hload₂ _

/-- Writing to the last buffer changes the last value. -/
theorem reads_modify_last (hr : this.Reads h v) (hh : h.Owned) (hnodup : this.mChain.Nodup) {last : ℕ}
    (hlast : this.mChain.getLast? = some last) {f : IOBuffer → Res IOBuffer} {iob iob' : IOBuffer}
    (hload : h.load last = .ok iob) (hf : f iob = .ok iob') (size : ℤ) :
    ∃ h', h.modify last f = .ok h' ∧
      ChainObject.Reads ⟨this.mChain, size⟩ h' ⟨v.mChain.dropLast ++ [iob'], size⟩ := by
  obtain ⟨h', hx, hload'⟩ := modify_ok hload hf
  have hsplit : this.mChain.dropLast ++ [last] = this.mChain := List.dropLast_append_getLast? last hlast
  have hinit : ChainObject.Reads ⟨this.mChain.dropLast, size⟩ h ⟨v.mChain.dropLast, size⟩ :=
    ⟨by simp only [List.map_dropLast, hr.items], rfl⟩
  have hkept : ChainObject.Reads ⟨this.mChain.dropLast, size⟩ h' ⟨v.mChain.dropLast, size⟩ := by
    refine hinit.kept (changes_modify hh hx) fun a ha hat => ?_
    rw [← hsplit, List.nodup_append] at hnodup
    exact hnodup.2.2 a ha last List.mem_cons_self (Set.mem_singleton_iff.mp hat)
  refine ⟨h', hx, ?_⟩
  have hconcat := hkept.concat hload' size
  rwa [hsplit] at hconcat

/-- An append that succeeds on the values succeeds in memory, with the same result. -/
theorem chainAppend_ok (hr : this.Reads h v) (hh : h.Owned) (hnodup : this.mChain.Nodup)
    (hfresh : h.Fresh place) (hx : bufferChainAppend v buf = .ok v') :
    ∃ h' this', h.chainAppend this buf place = .ok (h', this') ∧ this'.Reads h' v' := by
  simp only [bufferChainAppend] at hx
  simp only [chainAppend, hr.size]
  split_ifs at hx with hneg hpos
  · rw [if_neg hneg, if_pos hpos]
    have hlast := hr.getLast?
    cases hv : v.mChain.getLast? with
    | none =>
      rw [hv] at hx
      cases hx
    | some iob =>
      rw [hv] at hx hlast
      obtain ⟨last, hget, hload⟩ := Option.map_eq_some_iff.mp hlast
      simp only [hget, hload, ok_bind]
      by_cases hfit : cInt buf.length ≤ iobufferSpaceLen iob
      · simp only [hfit, if_true] at hx ⊢
        obtain ⟨iob', hadd, hx⟩ := (bind_eq_ok _ _ _).mp hx
        obtain rfl := Except.ok.inj hx
        obtain ⟨h', hmod, hreads⟩ := reads_modify_last hr hh hnodup hget
          (f := (iobufferDataAdd · (buf.take (cInt buf.length).toNat))) hload hadd
          (cInt (v.mSize+cInt buf.length))
        exact ⟨h', ⟨this.mChain, cInt (v.mSize+cInt buf.length)⟩, by simp only [hmod, ok_bind], hreads⟩
      · simp only [hfit, if_false] at hx ⊢
        exact chainAddSegment_ok hr hh hfresh hx
  · rw [if_neg hneg, if_neg hpos]
    exact chainAddSegment_ok hr hh hfresh hx

/-- The loop of a compaction reads buffers that it does not write. -/
theorem chainCompact_fold (hh : h.Owned) (items : List ℕ) (segs : List IOBuffer) {iob iob' : IOBuffer}
    (hitems : items.map h.load = segs.map Except.ok) (hload : h.load place.object = .ok iob)
    (hne : place.object ∉ items)
    (hx : segs.foldlM (fun iob tmp => iobufferDataAdd iob (iobufferData tmp)) iob = .ok iob') :
    ∃ h', items.foldlM (fun h tmp => do
        let iob ← BufferHeap.load h tmp
        BufferHeap.modify h place.object (iobufferDataAdd · (iobufferData iob))) h = .ok h' ∧
      h'.load place.object = .ok iob' := by
  induction items generalizing h segs iob with
  | nil =>
    obtain rfl : segs = [] := List.map_eq_nil_iff.mp hitems.symm
    obtain rfl := Except.ok.inj hx
    exact ⟨h, rfl, hload⟩
  | cons a items ih =>
    obtain ⟨seg, segs, rfl, hseg, hitems⟩ := List.map_eq_cons_iff.mp hitems.symm
    have hne := List.not_mem_of_not_mem_cons hne
    rw [List.foldlM_cons] at hx
    obtain ⟨mid, hadd, hx⟩ := (bind_eq_ok _ _ _).mp hx
    obtain ⟨h₁, hmod, hload₁⟩ := modify_ok (f := (iobufferDataAdd · (iobufferData seg))) hload hadd
    have hc := changes_modify hh hmod
    have hread : ChainObject.Reads ⟨items, 0⟩ h ⟨segs, 0⟩ := ⟨hitems.symm, rfl⟩
    have hkept := hread.kept hc fun b hb hbat => hne (Set.mem_singleton_iff.mp hbat ▸ hb)
    obtain ⟨h', hfold, hload'⟩ := ih hc.owned segs hkept.items hload₁ hne hx
    refine ⟨h', ?_, hload'⟩
    rw [List.foldlM_cons, ← hseg, ok_bind, hmod, ok_bind, hfold]

theorem chainCompact_ok (hr : this.Reads h v) (hh : h.Owned) (hfresh : h.Fresh place) {iob : IOBuffer}
    (hx : bufferChainCompact v = .ok iob) :
    ∃ h', h.chainCompact this place = .ok h' ∧ h'.load place.object = .ok iob := by
  obtain ⟨new, hnew, hx⟩ := (bind_eq_ok _ _ _).mp hx
  obtain ⟨h₁, hx₁, hload₁⟩ := newWithCapacity_ok h place hnew
  have hc := changes_newWithCapacity hh hfresh hx₁
  have hkept := hr.kept hc (hr.not_mem_fresh hfresh)
  obtain ⟨h', hfold, hload'⟩ := chainCompact_fold hc.owned this.mChain v.mChain hkept.items hload₁
    (fun hmem => hr.not_mem_fresh hfresh _ hmem rfl) hx
  exact ⟨h', by rw [chainCompact, hr.size]; simp only [bufferChainSize] at hx₁; rw [hx₁, ok_bind, hfold],
    hload'⟩

theorem chainAddBack_ok (hr : this.Reads h v) {a : ℕ} {iob : IOBuffer} (hload : h.load a = .ok iob) :
    ∃ this', h.chainAddBack this a = .ok this' ∧ this'.Reads h (bufferChainAddBack v iob) := by
  refine ⟨⟨this.mChain ++ [a], cInt (this.mSize+iobufferDataLen iob)⟩, ?_, ?_⟩
  · simp only [chainAddBack, hload, ok_bind]
  · rw [hr.size]
    exact hr.concat hload _

theorem chainPopFront_ok (hr : this.Reads h v) :
    ∃ front this', h.chainPopFront this = .ok (front, this') ∧
      this'.Reads h (bufferChainPopFront v).2 := by
  obtain ⟨items, size⟩ := this
  obtain ⟨segs, vsize⟩ := v
  obtain ⟨hitems, rfl⟩ := hr
  rcases items with _ | ⟨a, items⟩
  · obtain rfl : segs = [] := List.map_eq_nil_iff.mp hitems.symm
    exact ⟨none, ⟨[], size⟩, rfl, rfl, rfl⟩
  · obtain ⟨seg, segs, rfl, hseg, hitems⟩ := List.map_eq_cons_iff.mp hitems.symm
    refine ⟨some a, ⟨items, cInt (size-iobufferDataLen seg)⟩, ?_, hitems.symm, rfl⟩
    simp only [chainPopFront, ← hseg, ok_bind]

/-- Stealing changes no buffer, only who has it. -/
theorem chainSteal_ok {other : ChainObject} {vo : BufferChain} (hr : this.Reads h v)
    (ho : other.Reads h vo) :
    ∃ this' other', h.chainStealBufferchain this other = .ok (this', other') ∧
      this'.Reads h (bufferChainStealBufferchain v vo).1 ∧
      other'.Reads h (bufferChainStealBufferchain v vo).2 := by
  obtain ⟨items, size⟩ := other
  obtain ⟨segs, vsize⟩ := vo
  obtain ⟨hitems, hsize⟩ := ho
  obtain rfl : size = vsize := hsize
  simp only [chainStealBufferchain, bufferChainStealBufferchain]
  simp only at hitems
  induction items generalizing this v segs size with
  | nil =>
    obtain rfl : segs = [] := List.map_eq_nil_iff.mp hitems.symm
    exact ⟨this, ⟨[], size⟩, rfl, hr, rfl, rfl⟩
  | cons a items ih =>
    obtain ⟨seg, segs, rfl, hseg, hitems⟩ := List.map_eq_cons_iff.mp hitems.symm
    obtain ⟨mid, hadd, hmid⟩ := chainAddBack_ok hr hseg.symm
    obtain ⟨this', other', hx, hreads⟩ := ih hmid (cInt (size-iobufferDataLen seg)) segs hitems.symm
    refine ⟨this', other', ?_, hreads⟩
    simp only [chainStealLoop, ← hseg, hadd, ok_bind, hx]

/-- Each copy goes to the next of the addresses that malloc returns. -/
theorem chainAppendBufferchain_ok {other : ChainObject} {vo : BufferChain} {places : List Allocation}
    (hh : h.Owned) (hr : this.Reads h v) (ho : other.Reads h vo) (hfresh : h.FreshAll places)
    (hlen : other.mChain.length = places.length)
    (hx : bufferChainAppendBufferchain v vo = .ok v') :
    ∃ h' this', h.chainAppendBufferchain this other places = .ok (h', this') ∧ this'.Reads h' v' := by
  obtain ⟨items, size⟩ := other
  obtain ⟨segs, vsize⟩ := vo
  obtain ⟨hitems, -⟩ := ho
  simp only [chainAppendBufferchain, bufferChainAppendBufferchain] at hx hlen hitems ⊢
  induction items generalizing h this v segs places with
  | nil =>
    obtain rfl : segs = [] := List.map_eq_nil_iff.mp hitems.symm
    obtain rfl := Except.ok.inj hx
    exact ⟨h, this, rfl, hr⟩
  | cons a items ih =>
    rcases places with _ | ⟨place, places⟩
    · cases hlen
    obtain ⟨seg, segs, rfl, hseg, hitems⟩ := List.map_eq_cons_iff.mp hitems.symm
    rw [List.foldlM_cons] at hx
    obtain ⟨mid, hmid, hx⟩ := (bind_eq_ok _ _ _).mp hx
    obtain ⟨copy, hcopy, hmid⟩ := (bind_eq_ok _ _ _).mp hmid
    obtain rfl := Except.ok.inj hmid
    have hplace := hfresh.fresh place List.mem_cons_self
    obtain ⟨h₁, hdup, hload⟩ := dup_ok hplace hseg.symm hcopy
    have hc := changes_dup hh hplace hdup
    have hrest : ChainObject.Reads ⟨items, 0⟩ h ⟨segs, 0⟩ := ⟨hitems.symm, rfl⟩
    obtain ⟨this₁, hadd, hthis⟩ := chainAddBack_ok (hr.kept hc (hr.not_mem_fresh hplace)) hload
    obtain ⟨h', this', hloop, hreads⟩ := ih hc.owned hthis (hfresh.dup hdup)
      (Nat.succ.inj hlen) segs hx (hrest.kept hc (hrest.not_mem_fresh hplace)).items
    refine ⟨h', this', ?_, hreads⟩
    simp only [chainAppendLoop, hdup, hadd, ok_bind, hloop]

end refines

section frames

/-- A new segment is written and nothing else. -/
theorem chainAddSegment_changes (hh : h.Owned) (hfresh : h.Fresh place)
    (hx : h.chainAddSegment this buf len place = .ok (h', this')) :
    h.Changes {place.object} h' ∧ this'.mChain = this.mChain ++ [place.object] ∧
      (h'.objects place.object).isSome := by
  obtain ⟨h₁, hnew, hx⟩ := (bind_eq_ok _ _ _).mp hx
  obtain ⟨h₂, hmod, hx⟩ := (bind_eq_ok _ _ _).mp hx
  obtain ⟨rfl, rfl⟩ := Prod.mk.inj (Except.ok.inj hx)
  have hc := changes_newWithCapacity hh hfresh hnew
  have hc' := changes_modify hc.owned hmod
  obtain ⟨new, -, hput⟩ := (bind_eq_ok _ _ _).mp hnew
  obtain rfl := Except.ok.inj hput
  exact ⟨hc.trans_self hc', rfl, hc'.alive _ (isSome_of_load load_put_self)⟩

/-- An append writes to buffers of its chain and to a new one, which then is the chain's. -/
theorem chainAppend_changes (hh : h.Owned) (hfresh : h.Fresh place)
    (hx : h.chainAppend this buf place = .ok (h', this')) :
    h.Changes ({a | a ∈ this.mChain} ∪ {place.object}) h' ∧
      (this'.mChain = this.mChain ∨
        this'.mChain = this.mChain ++ [place.object] ∧ (h'.objects place.object).isSome) := by
  have hseg : ∀ data len, h.chainAddSegment this data len place = .ok (h', this') →
      h.Changes ({a | a ∈ this.mChain} ∪ {place.object}) h' ∧
        (this'.mChain = this.mChain ∨
          this'.mChain = this.mChain ++ [place.object] ∧ (h'.objects place.object).isSome) := by
    intro data len hx
    obtain ⟨hc, hnew⟩ := chainAddSegment_changes hh hfresh hx
    exact ⟨hc.mono Set.subset_union_right, .inr hnew⟩
  simp only [chainAppend] at hx
  split_ifs at hx with hneg hpos
  · split at hx
    · cases hx
    · next last hlast =>
      obtain ⟨iob, -, hx⟩ := (bind_eq_ok _ _ _).mp hx
      split_ifs at hx with hfit
      · obtain ⟨h₁, hmod, hx⟩ := (bind_eq_ok _ _ _).mp hx
        obtain ⟨rfl, rfl⟩ := Prod.mk.inj (Except.ok.inj hx)
        refine ⟨(changes_modify hh hmod).mono ?_, .inl rfl⟩
        exact Set.singleton_subset_iff.mpr (.inl (List.mem_of_getLast? hlast))
      · exact hseg _ _ hx
  · exact hseg _ _ hx

theorem chainCompact_changes (hh : h.Owned) (hfresh : h.Fresh place)
    (hx : h.chainCompact this place = .ok h') : h.Changes {place.object} h' := by
  obtain ⟨h₁, hnew, hx⟩ := (bind_eq_ok _ _ _).mp hx
  have hc := changes_newWithCapacity hh hfresh hnew
  refine hc.trans_self ?_
  have hh₁ := hc.owned
  clear hnew hc hh hfresh
  generalize this.mChain = items at hx
  induction items generalizing h₁ with
  | nil =>
    obtain rfl := Except.ok.inj hx
    exact .refl hh₁ _
  | cons a items ih =>
    rw [List.foldlM_cons] at hx
    obtain ⟨h₂, hstep, hx⟩ := (bind_eq_ok _ _ _).mp hx
    obtain ⟨iob, -, hmod⟩ := (bind_eq_ok _ _ _).mp hstep
    have hc := changes_modify hh₁ hmod
    exact hc.trans_self (ih h₂ hc.owned hx)

theorem chainAddBack_list {a : ℕ} (hx : h.chainAddBack this a = .ok this') :
    this'.mChain = this.mChain ++ [a] := by
  obtain ⟨iob, -, hx⟩ := (bind_eq_ok _ _ _).mp hx
  obtain rfl := Except.ok.inj hx
  rfl

/-- Copying a chain writes to the copies only, which go to the end of the list. -/
theorem chainAppendBufferchain_changes {other : ChainObject} {places : List Allocation} (hh : h.Owned)
    (hfresh : h.FreshAll places) (hlen : other.mChain.length = places.length)
    (hx : h.chainAppendBufferchain this other places = .ok (h', this')) :
    h.Changes {a | a ∈ places.map Allocation.object} h' ∧
      this'.mChain = this.mChain ++ places.map Allocation.object ∧
      ∀ place ∈ places, (h'.objects place.object).isSome := by
  rw [chainAppendBufferchain] at hx
  generalize other.mChain = items at hx hlen
  induction items generalizing h this places with
  | nil =>
    obtain rfl : places = [] := List.length_eq_zero_iff.mp hlen.symm
    obtain ⟨rfl, rfl⟩ := Prod.mk.inj (Except.ok.inj hx)
    exact ⟨.refl hh _, (List.append_nil _).symm, fun _ hp => absurd hp List.not_mem_nil⟩
  | cons a items ih =>
    rcases places with _ | ⟨place, places⟩
    · cases hlen
    obtain ⟨h₁, hdup, hx⟩ := (bind_eq_ok _ _ _).mp hx
    obtain ⟨this₁, hadd, hx⟩ := (bind_eq_ok _ _ _).mp hx
    have hc := changes_dup hh (hfresh.fresh place List.mem_cons_self) hdup
    obtain ⟨hcs, hlist, halive⟩ := ih hc.owned (hfresh.dup hdup) hx (Nat.succ.inj hlen)
    obtain ⟨new, copy, rfl⟩ := dup_eq_put hdup
    refine ⟨(hc.trans hcs).mono ?_, ?_, fun p hp => ?_⟩
    · rintro b (hb | hb)
      · exact List.mem_cons.mpr (.inl hb)
      · exact List.mem_cons_of_mem _ hb
    · rw [hlist, chainAddBack_list hadd, List.append_assoc, List.singleton_append, List.map_cons]
    · rcases List.mem_cons.mp hp with rfl | hp
      · exact hcs.alive _ (isSome_of_load load_put_self)
      · exact halive p hp

theorem chainPopFront_list {front : Option ℕ} (hx : h.chainPopFront this = .ok (front, this')) :
    this'.mChain = this.mChain.tail := by
  obtain ⟨items, size⟩ := this
  rcases items with _ | ⟨a, items⟩
  · obtain ⟨-, rfl⟩ := Prod.mk.inj (Except.ok.inj hx)
    rfl
  · obtain ⟨iob, -, hx⟩ := (bind_eq_ok _ _ _).mp hx
    obtain ⟨-, rfl⟩ := Prod.mk.inj (Except.ok.inj hx)
    rfl

theorem chainSteal_list {other left : ChainObject}
    (hx : h.chainStealBufferchain this other = .ok (this', left)) :
    this'.mChain = this.mChain ++ other.mChain ∧ left.mChain = [] := by
  obtain ⟨items, size⟩ := other
  simp only [chainStealBufferchain] at hx ⊢
  induction items generalizing this size with
  | nil =>
    obtain ⟨rfl, rfl⟩ := Prod.mk.inj (Except.ok.inj hx)
    exact ⟨(List.append_nil _).symm, rfl⟩
  | cons a items ih =>
    obtain ⟨iob, -, hx⟩ := (bind_eq_ok _ _ _).mp hx
    obtain ⟨mid, hadd, hx⟩ := (bind_eq_ok _ _ _).mp hx
    obtain ⟨hthis, hleft⟩ := ih (cInt (size-iobufferDataLen iob)) hx
    rw [chainAddBack_list hadd, List.append_assoc, List.singleton_append] at hthis
    exact ⟨hthis, hleft⟩

end frames

end BufferHeap

end CHttp
