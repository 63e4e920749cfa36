import CHttp.LinkedList
import CHttp.BufferHeap

/-! `List_safe_free` and `BufferChain_free`. Both take a list apart while they walk it, so what
has been freed, the successor that was saved and what is left have to fit together. Memory that
is not in use can be neither read nor freed, and every free is recorded. -/
namespace CHttp

inductive Release where
  /-- A call of `item_free`. -/
  | item (p : Option ℕ)
  | node (a : ℕ)
  | list (a : ℕ)
  | buffer (a : ℕ)
  | block (a : ℕ)
  | chain (a : ℕ)
  deriving DecidableEq, Repr

/-- The nodes and list objects in memory, whatever else there is, and what was freed. -/
structure ListMemory (ι : Type) where
  heap : ListHeap
  lists : ℕ → Option ListRef
  other : ι
  released : List Release

namespace ListMemory

variable {ι : Type}

/-- The heap after a call on a list; the nodes that the call freed are recorded. -/
def withHeap (m : ListMemory ι) (h : ListHeap) : ListMemory ι :=
  { m with heap := h, released := m.released ++ (h.frees.drop m.heap.frees.length).map .node }

def list (m : ListMemory ι) (lref : ℕ) : Res ListRef :=
  match m.lists lref with
  | none => .error .outOfBounds
  | some l => .ok l

def setList (m : ListMemory ι) (lref : ℕ) (l : Option ListRef) : ListMemory ι :=
  { m with lists := Function.update m.lists lref l }

/-- `item_free(item)`. -/
def callItemFree (itemFree : ι → Option ℕ → Res ι) (m : ListMemory ι) (item : Option ℕ) :
    Res (ListMemory ι) := do
  let other ← itemFree m.other item
  .ok { m with other := other, released := m.released ++ [.item item] }

end ListMemory

section source

variable {ι : Type}

/-- The loop of `List_safe_deinit`, as far as a number of rounds goes. -/
def listSafeDeinitLoop (itemFree : ι → Option ℕ → Res ι) :
    ℕ → Option ℕ → ListMemory ι → Res (ListMemory ι)
  | 0, _, _ => .error .indeterminate
  | _+1, none, m => .ok m
  | rounds+1, some t, m => do
    let node ← m.heap.load (some t)
    let m ← m.callItemFree itemFree node.item
    let node ← m.heap.load (some t)
    let h ← listNodeFree m.heap (some t)
    listSafeDeinitLoop itemFree rounds node.forward (m.withHeap h)

def listSafeDeinit (m : ListMemory ι) (this : ℕ) (itemFree : Option (ι → Option ℕ → Res ι))
    (rounds : ℕ) : Res (ListMemory ι) := do
  let l ← m.list this
  if l.count = 0 then .ok m
  else
    match itemFree with
    | none => .error (.assertion "item_free != NULL")
    | some itemFree => do
      let m ← listSafeDeinitLoop itemFree rounds l.head m
      .ok (m.setList this (some listInit))

def listFree (m : ListMemory ι) (lref : ℕ) : Res (ListMemory ι) := do
  let l ← m.list lref
  cAssert (l.count = 0) "lref->count == 0"
  .ok { m.setList lref none with released := m.released ++ [.list lref] }

def listSafeFree (m : ListMemory ι) (this : ℕ) (itemFree : Option (ι → Option ℕ → Res ι))
    (rounds : ℕ) : Res (ListMemory ι) := do
  let m ← listSafeDeinit m this itemFree rounds
  listFree m this

/-- `BufferChain_s` as it lies in memory. -/
structure ChainStruct where
  mChain : ℕ
  mSize : ℤ

/-- The buffers and the chains in memory. -/
structure ChainMemory where
  buffers : BufferHeap
  chains : ℕ → Option ChainStruct

/-- `IOBuffer_free`: first the block, then the struct. -/
def iobufferFree (m : ListMemory ChainMemory) (this : Option ℕ) : Res (ListMemory ChainMemory) :=
  match this with
  | none => .error .nullPointer
  | some a => do
    let obj ← m.other.buffers.object a
    let _ ← m.other.buffers.block obj.memP
    let buffers : BufferHeap := {
      objects := Function.update m.other.buffers.objects a none
      blocks := Function.update m.other.buffers.blocks obj.memP none }
    .ok { m with
      other := { m.other with buffers := buffers }
      released := m.released ++ [.block obj.memP, .buffer a] }

/-- `List_itr_remove` on a list object. -/
def removeNode (m : ListMemory ι) (lref : ℕ) (itr : Option ℕ) : Res (ListMemory ι) := do
  let l ← m.list lref
  let (h, l) ← listItrRemove m.heap l itr
  .ok ((m.withHeap h).setList lref (some l))

/-- The loop of `BufferChain_free`, as far as a number of rounds goes. -/
def bufferChainFreeLoop (mChain : ℕ) :
    ℕ → Option ℕ → ListMemory ChainMemory → Res (ListMemory ChainMemory)
  | 0, _, _ => .error .indeterminate
  | _+1, none, m => .ok m
  | rounds+1, some iter, m => do
    let node ← m.heap.load (some iter)
    let m ← iobufferFree m node.item
    let m ← removeNode m mChain (some iter)
    -- the successor was read before the node was freed
    bufferChainFreeLoop mChain rounds node.forward m

def bufferChainFree (m : ListMemory ChainMemory) (this : ℕ) (rounds : ℕ) :
    Res (ListMemory ChainMemory) :=
  match m.other.chains this with
  | none => .error .nullPointer
  | some chain => do
    let l ← m.list chain.mChain
    let m ← bufferChainFreeLoop chain.mChain rounds l.head m
    let m ← listFree m chain.mChain
    .ok { m with
      other := { m.other with chains := Function.update m.other.chains this none }
      released := m.released ++ [.chain this] }

end source

/-- A list object of these nodes and items. Its `count`, an `int`, is their number. -/
structure ListMemory.Lists {ι : Type} (m : ListMemory ι) (lref : ℕ) (l : ListRef) (seq : ListSeq) :
    Prop where
  object : m.lists lref = some l
  holds : m.heap.Holds l seq
  count : l.count = seq.length
  int : l.count < 2^31

/-- The record of freeing a list: each item and then its node, and the list at the end. -/
def listReleases (lref : ℕ) (seq : ListSeq) : List Release :=
  seq.flatMap (fun e => [.item e.2, .node e.1]) ++ [.list lref]

section list

variable {ι : Type} {m : ListMemory ι} {lref : ℕ} {seq : ListSeq}

theorem ListMemory.list_eq {l : ListRef} (h : m.lists lref = some l) : m.list lref = .ok l := by
  rw [ListMemory.list, h]

/-- A free of one node adds it to the record. -/
theorem ListMemory.withHeap_released {h : ListHeap} {a : ℕ}
    (hfrees : h.frees = m.heap.frees ++ [a]) :
    (m.withHeap h).released = m.released ++ [.node a] := by
  rw [ListMemory.withHeap, hfrees, List.drop_left]
  rfl

theorem listFree_eq {l : ListRef} (hobject : m.lists lref = some l) (hcount : l.count = 0) :
    listFree m lref =
      .ok { m.setList lref none with released := m.released ++ [.list lref] } := by
  rw [listFree, ListMemory.list_eq hobject, ok_bind, decide_eq_true hcount, cAssert_true, ok_bind]

/-- The loop calls `item_free` on the items in order. What is left of the list when a node has
been freed is still a segment of memory, which the saved successor points to. -/
theorem listSafeDeinitLoop_spec (itemFree : ι → Option ℕ → Res ι) (rounds : ℕ)
    (m : ListMemory ι) (prev : Option ℕ) (seq : ListSeq) (other : ι)
    (hrounds : seq.length < rounds) (hseg : Link.Segment m.heap.nodes prev seq none)
    (hdistinct : (seq.map Prod.fst).Nodup)
    (hitems : (seq.map Prod.snd).foldlM itemFree m.other = .ok other) :
    ∃ m', listSafeDeinitLoop itemFree rounds (Link.first seq none) m = .ok m' ∧
      m'.released = m.released ++ seq.flatMap (fun e => [.item e.2, .node e.1]) ∧
      m'.lists = m.lists ∧ m'.other = other := by
  induction seq generalizing m rounds prev with
  | nil =>
    obtain ⟨rounds, rfl⟩ := Nat.exists_eq_add_one_of_ne_zero (Nat.ne_zero_of_lt hrounds)
    exact ⟨m, rfl, by simp, rfl, Except.ok.inj hitems⟩
  | cons e seq ih =>
    obtain ⟨rounds, rfl⟩ := Nat.exists_eq_add_one_of_ne_zero (Nat.ne_zero_of_lt hrounds)
    obtain ⟨a, x⟩ := e
    obtain ⟨hnode, hrest⟩ := hseg
    obtain ⟨hnot, hdistinct⟩ := List.nodup_cons.mp hdistinct
    rw [List.map_cons, List.foldlM_cons] at hitems
    obtain ⟨other₁, hfree, hitems⟩ := (bind_eq_ok _ _ _).mp hitems
    let m₁ : ListMemory ι := { m with other := other₁, released := m.released ++ [.item x] }
    let h₁ : ListHeap := ⟨Function.update m.heap.nodes a none, m.heap.frees ++ [a]⟩
    have hrest' : Link.Segment (m₁.withHeap h₁).heap.nodes (some a) seq none :=
      hrest.update_other hnot none
    obtain ⟨m', hloop, hreleased, hlists, hother⟩ := ih rounds (m₁.withHeap h₁) (some a)
      (Nat.lt_of_succ_lt_succ hrounds) hrest' hdistinct hitems
    refine ⟨m', ?_, ?_, hlists, hother⟩
    · rw [Link.first, listSafeDeinitLoop, ListHeap.load_eq hnode, ok_bind,
        ListMemory.callItemFree, hfree, ok_bind, ok_bind, ListHeap.load_eq hnode, ok_bind,
        listNodeFree_eq hnode, ok_bind]
      exact hloop
    · rw [hreleased, ListMemory.withHeap_released rfl, List.flatMap_cons, List.append_assoc,
        List.append_assoc]
      rfl

theorem listSafeFree_spec {l : ListRef} (hm : m.Lists lref l seq)
    (itemFree : ι → Option ℕ → Res ι) (rounds : ℕ) (hrounds : seq.length < rounds) (other : ι)
    (hitems : (seq.map Prod.snd).foldlM itemFree m.other = .ok other) :
    ∃ m', listSafeFree m lref (some itemFree) rounds = .ok m' ∧
      m'.released = m.released ++ listReleases lref seq ∧ m'.lists lref = none ∧
      m'.other = other := by
  by_cases hzero : l.count = 0
  · have hnil : seq = [] := by
      rw [← List.length_eq_zero_iff]
      have := hm.count
      omega
    subst hnil
    refine ⟨{ m.setList lref none with released := m.released ++ [.list lref] }, ?_, rfl,
      Function.update_self _ _ _, Except.ok.inj hitems⟩
    rw [listSafeFree, listSafeDeinit, ListMemory.list_eq hm.object, ok_bind, if_pos hzero, ok_bind,
      listFree_eq hm.object hzero]
  · obtain ⟨m₁, hloop, hreleased, hlists, hother⟩ := listSafeDeinitLoop_spec itemFree rounds m none
      seq other hrounds hm.holds.segment hm.holds.distinct hitems
    have hobject : (m₁.setList lref (some listInit)).lists lref = some listInit :=
      Function.update_self _ _ _
    refine ⟨{ (m₁.setList lref (some listInit)).setList lref none with
      released := m₁.released ++ [.list lref] }, ?_, ?_, Function.update_self _ _ _, hother⟩
    · rw [listSafeFree, listSafeDeinit, ListMemory.list_eq hm.object, ok_bind, if_neg hzero]
      dsimp only
      rw [hm.holds.head, hloop, ok_bind, ok_bind, listFree_eq hobject rfl]
      rfl
    · rw [hreleased, listReleases, List.append_assoc]

end list

/-- A buffer of a chain: the node that has it as its item, its struct and its block. -/
structure ChainEntry where
  node : ℕ
  object : ℕ
  block : ℕ

namespace ChainEntry

def seq (entries : List ChainEntry) : ListSeq := entries.map fun e => (e.node, some e.object)

/-- The record of freeing one buffer with its node. -/
def releases (e : ChainEntry) : List Release := [.block e.block, .buffer e.object, .node e.node]

end ChainEntry

/-- The buffers are in memory, no two of them the same or in the same block. -/
structure ChainMemory.HasBuffers (m : ChainMemory) (entries : List ChainEntry) : Prop where
  objects : ∀ e ∈ entries, ∃ obj, m.buffers.objects e.object = some obj ∧ obj.memP = e.block
  blocks : ∀ e ∈ entries, ∃ mem, m.buffers.blocks e.block = some mem
  distinct_objects : (entries.map ChainEntry.object).Nodup
  distinct_blocks : (entries.map ChainEntry.block).Nodup

/-- A chain object whose list holds these buffers. -/
structure ListMemory.Chains (m : ListMemory ChainMemory) (this : ℕ) (chain : ChainStruct)
    (l : ListRef) (entries : List ChainEntry) : Prop where
  object : m.other.chains this = some chain
  list : m.Lists chain.mChain l (ChainEntry.seq entries)
  buffers : m.other.HasBuffers entries

/-- The record of freeing a chain. -/
def chainReleases (this lref : ℕ) (entries : List ChainEntry) : List Release :=
  entries.flatMap ChainEntry.releases ++ [.list lref, .chain this]

section chain

variable {m : ListMemory ChainMemory} {e : ChainEntry} {entries : List ChainEntry}

/-- A buffer is freed, and the others stay. -/
theorem iobufferFree_spec (hm : m.other.HasBuffers (e :: entries)) :
    ∃ m', iobufferFree m (some e.object) = .ok m' ∧ m'.other.HasBuffers entries ∧
      m'.other.chains = m.other.chains ∧ m'.heap = m.heap ∧ m'.lists = m.lists ∧
      m'.released = m.released ++ [.block e.block, .buffer e.object] := by
  obtain ⟨obj, hobj, hblock⟩ := hm.objects e List.mem_cons_self
  obtain ⟨mem, hmem⟩ := hm.blocks e List.mem_cons_self
  obtain ⟨hnotobj, hdobj⟩ := List.nodup_cons.mp hm.distinct_objects
  obtain ⟨hnotblock, hdblock⟩ := List.nodup_cons.mp hm.distinct_blocks
  rw [← hblock] at hmem hnotblock ⊢
  let buffers : BufferHeap :=
    ⟨Function.update m.other.buffers.objects e.object none,
      Function.update m.other.buffers.blocks obj.memP none⟩
  refine ⟨⟨m.heap, m.lists, ⟨buffers, m.other.chains⟩,
    m.released ++ [.block obj.memP, .buffer e.object]⟩, ?_, ⟨?_, ?_, hdobj, hdblock⟩,
    rfl, rfl, rfl, rfl⟩
  · simp only [iobufferFree, BufferHeap.object, hobj, ok_bind, BufferHeap.block, hmem, buffers]
  · intro e' he'
    have hne : e'.object ≠ e.object := fun heq => hnotobj (heq ▸ List.mem_map_of_mem he')
    obtain ⟨obj', hobj', hblock'⟩ := hm.objects e' (List.mem_cons_of_mem e he')
    exact ⟨obj', (Function.update_of_ne hne _ _).trans hobj', hblock'⟩
  · intro e' he'
    have hne : e'.block ≠ obj.memP := fun heq => hnotblock (heq ▸ List.mem_map_of_mem he')
    obtain ⟨mem', hmem'⟩ := hm.blocks e' (List.mem_cons_of_mem e he')
    exact ⟨mem', (Function.update_of_ne hne _ _).trans hmem'⟩

/-- The first node is taken out of a list, which is a list of the others then. -/
theorem removeNode_spec {ι : Type} {m : ListMemory ι} {lref a : ℕ} {x : Option ℕ} {l : ListRef}
    {seq : ListSeq} (hm : m.Lists lref l ((a, x) :: seq)) :
    ∃ m' l', removeNode m lref (some a) = .ok m' ∧ m'.Lists lref l' seq ∧ m'.other = m.other ∧
      m'.released = m.released ++ [.node a] := by
  have hcount := hm.count
  have hint := hm.int
  rw [List.length_cons] at hcount
  have hholds : m.heap.Holds l ([] ++ (a, x) :: seq) := hm.holds
  obtain ⟨h', l', hremove, hr⟩ := listItrRemove_spec hholds
    (by rw [List.nil_append]; exact hcount) (by rw [List.nil_append]; omega)
  rw [List.nil_append] at hr
  refine ⟨(m.withHeap h').setList lref (some l'), l', ?_, ⟨Function.update_self _ _ _, hr.holds,
    hr.count, ?_⟩, rfl, ListMemory.withHeap_released hr.frees⟩
  · rw [removeNode, ListMemory.list_eq hm.object, ok_bind, hremove, ok_bind]
  · rw [hr.count]
    omega

/-- After each turn of the loop the list holds the buffers that are still to be freed. -/
theorem bufferChainFreeLoop_spec (mChain rounds : ℕ) (m : ListMemory ChainMemory) (l : ListRef)
    (entries : List ChainEntry) (hrounds : entries.length < rounds)
    (hm : m.Lists mChain l (ChainEntry.seq entries)) (hbuffers : m.other.HasBuffers entries) :
    ∃ m' l', bufferChainFreeLoop mChain rounds l.head m = .ok m' ∧ m'.Lists mChain l' [] ∧
      m'.other.chains = m.other.chains ∧
      m'.released = m.released ++ entries.flatMap ChainEntry.releases := by
  induction entries generalizing m l rounds with
  | nil =>
    obtain ⟨rounds, rfl⟩ := Nat.exists_eq_add_one_of_ne_zero (Nat.ne_zero_of_lt hrounds)
    refine ⟨m, l, ?_, hm, rfl, by simp⟩
    rw [hm.holds.head]
    rfl
  | cons e entries ih =>
    obtain ⟨rounds, rfl⟩ := Nat.exists_eq_add_one_of_ne_zero (Nat.ne_zero_of_lt hrounds)
    obtain ⟨m₁, hfree, hbuffers₁, hchains₁, hheap₁, hlists₁, hreleased₁⟩ :=
      iobufferFree_spec (m := m) hbuffers
    have hm₁ : m₁.Lists mChain l ((e.node, some e.object) :: ChainEntry.seq entries) :=
      ⟨by rw [hlists₁]; exact hm.object, by rw [hheap₁]; exact hm.holds, hm.count, hm.int⟩
    obtain ⟨m₂, l₂, hremove, hm₂, hother₂, hreleased₂⟩ := removeNode_spec hm₁
    obtain ⟨m', l', hloop, hm', hchains', hreleased'⟩ := ih rounds m₂ l₂
      (Nat.lt_of_succ_lt_succ hrounds) hm₂ (by rw [hother₂]; exact hbuffers₁)
    refine ⟨m', l', ?_, hm', by rw [hchains', hother₂, hchains₁], ?_⟩
    · rw [hm.holds.head, ChainEntry.seq, List.map_cons, Link.first, bufferChainFreeLoop,
        ListHeap.load_eq hm.holds.segment.1, ok_bind, hfree, ok_bind, hremove, ok_bind]
      rw [hm₂.holds.head] at hloop
      exact hloop
    · rw [hreleased', hreleased₂, hreleased₁, List.flatMap_cons, ChainEntry.releases]
      simp only [List.append_assoc, List.cons_append, List.nil_append]

theorem bufferChainFree_spec {this : ℕ} {chain : ChainStruct} {l : ListRef}
    (hm : m.Chains this chain l entries) (rounds : ℕ) (hrounds : entries.length < rounds) :
    ∃ m', bufferChainFree m this rounds = .ok m' ∧
      m'.released = m.released ++ chainReleases this chain.mChain entries ∧
      m'.lists chain.mChain = none ∧ m'.other.chains this = none := by
  obtain ⟨m₁, l₁, hloop, hm₁, hchains, hreleased⟩ := bufferChainFreeLoop_spec chain.mChain rounds m
    l entries hrounds hm.list hm.buffers
  let m₂ : ListMemory ChainMemory :=
    { m₁.setList chain.mChain none with released := m₁.released ++ [.list chain.mChain] }
  refine ⟨{ m₂ with
    other := { m₂.other with chains := Function.update m₂.other.chains this none }
    released := m₂.released ++ [.chain this] }, ?_, ?_, Function.update_self _ _ _,
    Function.update_self _ _ _⟩
  · rw [bufferChainFree, hm.object]
    dsimp only
    rw [ListMemory.list_eq hm.list.object, ok_bind, hloop, ok_bind,
      listFree_eq hm₁.object hm₁.count, ok_bind]
  · simp only [m₂, hreleased, chainReleases, List.append_assoc, List.cons_append, List.nil_append]

end chain

section once

/-- Memory is freed, in contrast to a call of `item_free`. -/
def Release.isMemory : Release → Bool
  | .item _ => false
  | _ => true

theorem listReleases_memory (lref : ℕ) (seq : ListSeq) :
    (listReleases lref seq).filter Release.isMemory =
      seq.map (fun e => Release.node e.1) ++ [.list lref] := by
  rw [listReleases, List.filter_append]
  congr 1
  induction seq with
  | nil => rfl
  | cons e seq ih =>
    rw [List.flatMap_cons, List.filter_append, ih]
    rfl

theorem listReleases_nodup (lref : ℕ) {seq : ListSeq} (hdistinct : (seq.map Prod.fst).Nodup) :
    ((listReleases lref seq).filter Release.isMemory).Nodup := by
  rw [listReleases_memory]
  refine nodup_snoc ?_ (by simp)
  have hnodes := hdistinct.map fun a b (hab : Release.node a = .node b) => Release.node.inj hab
  rwa [List.map_map] at hnodes

theorem chainReleases_nodup (this lref : ℕ) {entries : List ChainEntry}
    (hnodes : (entries.map ChainEntry.node).Nodup)
    (hobjects : (entries.map ChainEntry.object).Nodup)
    (hblocks : (entries.map ChainEntry.block).Nodup) :
    (chainReleases this lref entries).Nodup := by
  have hentries : (entries.flatMap ChainEntry.releases).Nodup := by
    rw [List.nodup_flatMap]
    refine ⟨fun e _ => by simp [ChainEntry.releases], ?_⟩
    rw [List.Nodup, List.pairwise_map] at hnodes hobjects hblocks
    refine (hnodes.and (hobjects.and hblocks)).imp ?_
    rintro e e' ⟨hnode, hobject, hblock⟩ r hr hr'
    simp only [ChainEntry.releases, List.mem_cons, List.not_mem_nil, or_false] at hr hr'
    rcases hr with rfl | rfl | rfl <;> simp_all
  rw [chainReleases, List.nodup_append']
  refine ⟨hentries, by simp, fun r hr hr' => ?_⟩
  obtain ⟨e, -, he⟩ := List.mem_flatMap.mp hr
  simp only [ChainEntry.releases, List.mem_cons, List.not_mem_nil, or_false] at he hr'
  rcases he with rfl | rfl | rfl <;> simp at hr'

/-- Both functions go through and free everything exactly once: the items of a list in order,
each before its node, and the list at the end; the buffers of a chain, each with its block and
its node, then the list, whose count is zero by then, and the chain. -/
theorem bulk_release_once :
    (∀ (ι : Type) (m : ListMemory ι) (lref : ℕ) (l : ListRef) (seq : ListSeq)
      (itemFree : ι → Option ℕ → Res ι) (other : ι) (rounds : ℕ),
      m.Lists lref l seq → seq.length < rounds →
      (seq.map Prod.snd).foldlM itemFree m.other = .ok other →
      ∃ m', listSafeFree m lref (some itemFree) rounds = .ok m' ∧
        m'.released = m.released ++ listReleases lref seq ∧
        ((listReleases lref seq).filter Release.isMemory).Nodup ∧
        m'.lists lref = none ∧ m'.other = other) ∧
    ∀ (m : ListMemory ChainMemory) (this : ℕ) (chain : ChainStruct) (l : ListRef)
      (entries : List ChainEntry) (rounds : ℕ),
      m.Chains this chain l entries → entries.length < rounds →
      ∃ m', bufferChainFree m this rounds = .ok m' ∧
        m'.released = m.released ++ chainReleases this chain.mChain entries ∧
        (chainReleases this chain.mChain entries).Nodup ∧
        m'.lists chain.mChain = none ∧ m'.other.chains this = none := by
  constructor
  · intro ι m lref l seq itemFree other rounds hm hrounds hitems
    obtain ⟨m', hfree, hreleased, hlist, hother⟩ :=
      listSafeFree_spec hm itemFree rounds hrounds other hitems
    exact ⟨m', hfree, hreleased, listReleases_nodup lref hm.holds.distinct, hlist, hother⟩
  · intro m this chain l entries rounds hm hrounds
    obtain ⟨m', hfree, hreleased, hlist, hchain⟩ := bufferChainFree_spec hm rounds hrounds
    have hnodes : (entries.map ChainEntry.node).Nodup := by
      have hdistinct := hm.list.holds.distinct
      rwa [ChainEntry.seq, List.map_map] at hdistinct
    exact ⟨m', hfree, hreleased, chainReleases_nodup this chain.mChain hnodes
      hm.buffers.distinct_objects hm.buffers.distinct_blocks, hlist, hchain⟩

/-- A chain of two buffers; its list is freed as one as well. -/
theorem bulk_release_two :
    let nodes : ℕ → Option ListNode := fun a =>
      if a = 1 then some ⟨some 2, none, some 5⟩
      else if a = 2 then some ⟨none, some 1, some 6⟩ else none
    let lists : ℕ → Option ListRef := fun a => if a = 3 then some ⟨2, some 1, some 2⟩ else none
    let chains : ℕ → Option ChainStruct := fun a => if a = 4 then some ⟨3, 0⟩ else none
    let objects : ℕ → Option IOBufferObject := fun a =>
      if a = 5 then some ⟨7, 0, ⟨7, 0⟩, 0⟩ else if a = 6 then some ⟨8, 0, ⟨8, 0⟩, 0⟩ else none
    let m : ListMemory ChainMemory :=
      ⟨⟨nodes, []⟩, lists, ⟨⟨objects, fun _ => some [none]⟩, chains⟩, []⟩
    (∃ m', listSafeFree m 3 (some fun other _ => .ok other) 3 = .ok m' ∧
      m'.released = [.item (some 5), .node 1, .item (some 6), .node 2, .list 3]) ∧
    ∃ m', bufferChainFree m 4 3 = .ok m' ∧ m'.released =
      [.block 7, .buffer 5, .node 1, .block 8, .buffer 6, .node 2, .list 3, .chain 4] := by
  intro nodes lists chains objects m
  have hlist : m.Lists 3 ⟨2, some 1, some 2⟩ [(1, some 5), (2, some 6)] :=
    ⟨rfl, ⟨⟨rfl, rfl, trivial⟩, rfl, rfl, by decide⟩, rfl, by decide⟩
  have hbuffers : m.other.HasBuffers [⟨1, 5, 7⟩, ⟨2, 6, 8⟩] := by
    refine ⟨fun e he => ?_, fun e he => ⟨_, rfl⟩, by decide, by decide⟩
    fin_cases he
    · exact ⟨_, rfl, rfl⟩
    · exact ⟨_, rfl, rfl⟩
  obtain ⟨m₁, hfree₁, hreleased₁, -⟩ := bulk_release_once.1 _ m 3 _ _ (fun other _ => .ok other) _ 3
    hlist (by decide) rfl
  obtain ⟨m₂, hfree₂, hreleased₂, -⟩ := bulk_release_once.2 m 4 ⟨3, 0⟩ _ _ 3
    ⟨rfl, hlist, hbuffers⟩ (by decide)
  exact ⟨⟨m₁, hfree₁, hreleased₁⟩, m₂, hfree₂, hreleased₂⟩

end once

end CHttp
