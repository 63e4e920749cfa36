import CHttp.CMemory
import CHttp.DoublyLinked

/-! `List`: nodes in memory, linked both ways, against the sequence of nodes they stand for. -/
namespace CHttp

/-- `ListNode_s`. A pointer is an address, or `none` for NULL. -/
abbrev ListNode := Link ℕ (Option ℕ)

/-- The nodes in memory, and the addresses that were freed. -/
structure ListHeap where
  nodes : ℕ → Option ListNode
  frees : List ℕ

/-- `List_s`. -/
structure ListRef where
  count : ℤ
  head : Option ℕ
  tail : Option ℕ
  deriving DecidableEq, Repr

namespace ListHeap

/-- The node that a pointer points to. -/
def load (h : ListHeap) : Option ℕ → Res ListNode
  | none => .error .nullPointer
  | some a =>
    match h.nodes a with
    | none => .error .outOfBounds
    | some node => .ok node

/-- An assignment to fields of a node. -/
def store (h : ListHeap) (p : Option ℕ) (f : ListNode → ListNode) : Res ListHeap :=
  match p with
  | none => .error .nullPointer
  | some a =>
    match h.nodes a with
    | none => .error .outOfBounds
    | some node => .ok { h with nodes := Function.update h.nodes a (some (f node)) }

end ListHeap

/-- The address is what malloc returned. -/
def listNodeNew (h : ListHeap) (lnref : ℕ) (content prev next : Option ℕ) : ListHeap :=
  { h with nodes := Function.update h.nodes lnref (some ⟨next, prev, content⟩) }

/-- Only memory that is in use can be freed. -/
def listNodeFree (h : ListHeap) : Option ℕ → Res ListHeap
  | none => .ok h
  | some a =>
    match h.nodes a with
    | none => .error .outOfBounds
    | some _ => .ok ⟨Function.update h.nodes a none, h.frees ++ [a]⟩

def listInit : ListRef := ⟨0, none, none⟩

def listAddFront (h : ListHeap) (lref : ListRef) (content : Option ℕ) (lnref : ℕ) :
    Res (ListHeap × ListRef) := do
  let h := listNodeNew h lnref content none none
  if lref.count = 0 then .ok (h, ⟨cInt (lref.count+1), some lnref, some lnref⟩)
  else do
    let h ← h.store (some lnref) fun n => { n with forward := lref.head }
    let h ← h.store (some lnref) fun n => { n with backward := none }
    let h ← h.store lref.head fun n => { n with backward := some lnref }
    .ok (h, ⟨cInt (lref.count+1), some lnref, lref.tail⟩)

def listAddBack (h : ListHeap) (lref : ListRef) (content : Option ℕ) (lnref : ℕ) :
    Res (ListHeap × ListRef) := do
  -- in an empty list the head is NULL; in another the pointers are set below
  let h := listNodeNew h lnref content none lref.head
  if lref.count = 0 then .ok (h, ⟨cInt (lref.count+1), some lnref, some lnref⟩)
  else do
    let h ← h.store (some lnref) fun n => { n with backward := lref.tail }
    let h ← h.store (some lnref) fun n => { n with forward := none }
    let h ← h.store lref.tail fun n => { n with forward := some lnref }
    .ok (h, ⟨cInt (lref.count+1), lref.head, some lnref⟩)

/-- The branch for one node that both removals have. -/
def listRemoveOnly (h : ListHeap) (lref : ListRef) : Res (Option ℕ × ListHeap × ListRef) := do
  let node ← h.load lref.head
  let h ← h.store lref.head fun n => { n with item := none }
  let h ← listNodeFree h lref.head
  .ok (node.item, h, ⟨cInt (lref.count-1), none, none⟩)

def listRemoveFirst (h : ListHeap) (lref : ListRef) : Res (Option ℕ × ListHeap × ListRef) :=
  if lref.count = 0 then .ok (none, h, lref)
  else if lref.count = 1 then listRemoveOnly h lref
  else do
    let first ← h.load lref.head
    let h ← h.store first.forward fun n => { n with backward := none }
    -- the item is read after the store above, as in the source
    let content ← h.load lref.head
    let h ← h.store lref.head fun _ => ⟨none, none, none⟩
    let h ← listNodeFree h lref.head
    .ok (content.item, h, ⟨cInt (lref.count-1), first.forward, lref.tail⟩)

def listRemoveLast (h : ListHeap) (lref : ListRef) : Res (Option ℕ × ListHeap × ListRef) :=
  if lref.count = 0 then .ok (none, h, lref)
  else if lref.count = 1 then listRemoveOnly h lref
  else do
    let last ← h.load lref.tail
    let h ← h.store last.backward fun n => { n with forward := none }
    let content ← h.load lref.tail
    let h ← h.store lref.tail fun _ => ⟨none, none, none⟩
    let h ← listNodeFree h lref.tail
    .ok (content.item, h, ⟨cInt (lref.count-1), lref.head, last.backward⟩)

/-- The neighbours of the node are linked past it, where there are two, one or none. -/
def listUnlink (h : ListHeap) (lref : ListRef) (itr : Option ℕ) : Res (ListHeap × ListRef) := do
  let node ← h.load itr
  if lref.head = itr then do
    -- the next node takes over the NULL in front
    let h ← h.store node.forward fun n => { n with backward := node.backward }
    let node ← h.load itr
    .ok (h, { lref with head := node.forward })
  else if lref.tail = itr then do
    -- the node before takes over the NULL behind
    let h ← h.store node.backward fun n => { n with forward := node.forward }
    let node ← h.load itr
    .ok (h, { lref with tail := node.backward })
  else do
    let h ← h.store node.forward fun n => { n with backward := node.backward }
    let node ← h.load itr
    let h ← h.store node.backward fun n => { n with forward := node.forward }
    .ok (h, lref)

def listItrRemove (h : ListHeap) (lref : ListRef) (itr : Option ℕ) : Res (ListHeap × ListRef) := do
  cAssert itr.isSome "itr != NULL"
  if lref.count = 0 then .ok (h, lref)
  else if lref.count = 1 then do
    cAssert (itr = lref.head) "*itr_ptr == lref->head"
    let h ← listNodeFree h itr
    .ok (h, ⟨0, none, none⟩)
  else do
    let (h, lref) ← listUnlink h lref itr
    let h ← listNodeFree h itr
    .ok (h, { lref with count := cInt (lref.count-1) })

/-- The loop of `List_find`, as far as a number of rounds goes. -/
def listFindLoop (h : ListHeap) (needle : Option ℕ) : ℕ → Option ℕ → Res (Option ℕ)
  | 0, _ => .error .indeterminate
  | _+1, none => .ok none
  | rounds+1, some iter => do
    let node ← h.load (some iter)
    if node.item = needle then .ok (some iter) else listFindLoop h needle rounds node.forward

def listFind (h : ListHeap) (lref : ListRef) (needle : Option ℕ) (rounds : ℕ) : Res (Option ℕ) :=
  listFindLoop h needle rounds lref.head

/-- The nodes of the list in order, each with its item. -/
abbrev ListSeq := List (ℕ × Option ℕ)

/-- The memory holds the sequence, from `head` to `tail`. -/
structure ListHeap.Holds (h : ListHeap) (lref : ListRef) (seq : ListSeq) : Prop where
  segment : Link.Segment h.nodes none seq none
  head : lref.head = Link.first seq none
  tail : lref.tail = Link.last seq none
  distinct : (seq.map Prod.fst).Nodup

section memory

variable {h : ListHeap} {a : ℕ} {node : ListNode}

theorem ListHeap.load_eq (hn : h.nodes a = some node) : h.load (some a) = .ok node := by
  rw [ListHeap.load, hn]

theorem ListHeap.store_eq (hn : h.nodes a = some node) (f : ListNode → ListNode) :
    h.store (some a) f = .ok { h with nodes := Function.update h.nodes a (some (f node)) } := by
  rw [ListHeap.store, hn]

theorem listNodeFree_eq (hn : h.nodes a = some node) :
    listNodeFree h (some a) = .ok ⟨Function.update h.nodes a none, h.frees ++ [a]⟩ := by
  rw [listNodeFree, hn]

end memory

section specs

variable {h : ListHeap} {lref : ListRef} {seq : ListSeq}

/-- New memory is not a node of the list. -/
theorem ListHeap.Holds.fresh (hh : h.Holds lref seq) {a : ℕ} (ha : h.nodes a = none) :
    a ∉ seq.map Prod.fst := by
  intro hmem
  obtain ⟨node, hnode⟩ := hh.segment.mem hmem
  cases ha.symm.trans hnode

theorem listInit_holds (h : ListHeap) : h.Holds listInit [] := ⟨trivial, rfl, rfl, List.nodup_nil⟩

theorem count_pred {n : ℕ} (hcount : lref.count = (n+1 : ℕ)) (hfits : n+1 < 2^31) :
    cInt (lref.count-1) = n := by
  rw [hcount, cInt_of_range _ (by omega) (by omega)]
  push_cast
  omega

theorem nodup_of_snoc {a : ℕ} {x : Option ℕ} (hd : ((seq ++ [(a, x)]).map Prod.fst).Nodup) :
    a ∉ seq.map Prod.fst ∧ (seq.map Prod.fst).Nodup := by
  rw [List.map_append, List.nodup_append'] at hd
  exact ⟨fun hmem => hd.2.2 hmem List.mem_cons_self, hd.1⟩

theorem listAddFront_spec (hh : h.Holds lref seq) (hcount : lref.count = seq.length)
    (content : Option ℕ) (lnref : ℕ) (hnew : h.nodes lnref = none) :
    ∃ h' lref', listAddFront h lref content lnref = .ok (h', lref') ∧
      h'.Holds lref' ((lnref, content) :: seq) ∧ lref'.count = cInt (seq.length+1) ∧
      h'.frees = h.frees := by
  have hfresh := hh.fresh hnew
  have hdistinct : (((lnref, content) :: seq).map Prod.fst).Nodup :=
    List.nodup_cons.mpr ⟨hfresh, hh.distinct⟩
  cases seq with
  | nil =>
    have hzero : lref.count = 0 := hcount
    refine ⟨listNodeNew h lnref content none none, ⟨cInt (lref.count+1), some lnref, some lnref⟩,
      by rw [listAddFront, if_pos hzero], ⟨⟨Function.update_self _ _ _, trivial⟩, rfl, rfl,
      hdistinct⟩, by rw [hcount], rfl⟩
  | cons e seq =>
    obtain ⟨a, x⟩ := e
    have hne : lref.count ≠ 0 := by
      rw [hcount, List.length_cons]
      omega
    have hhead : lref.head = some a := hh.head
    have hna : a ≠ lnref := fun heq => hfresh (heq ▸ List.mem_cons_self)
    refine ⟨⟨Function.update (Function.update h.nodes lnref (some ⟨some a, none, content⟩)) a
      (some ⟨Link.first seq none, some lnref, x⟩), h.frees⟩,
      ⟨cInt (lref.count+1), some lnref, lref.tail⟩, ?_, ⟨⟨?_, ?_⟩, rfl, hh.tail, hdistinct⟩,
      by rw [hcount], rfl⟩
    · rw [listAddFront, if_neg hne]
      simp only [listNodeNew, hhead, ListHeap.store, Function.update_self, Function.update_idem,
        Function.update_of_ne hna, hh.segment.1, ok_bind]
    · exact (Function.update_of_ne hna.symm _ _).trans (Function.update_self _ _ _)
    · exact (hh.segment.update_other hfresh _).set_first (List.nodup_cons.mp hh.distinct).1

theorem listAddBack_spec (hh : h.Holds lref seq) (hcount : lref.count = seq.length)
    (content : Option ℕ) (lnref : ℕ) (hnew : h.nodes lnref = none) :
    ∃ h' lref', listAddBack h lref content lnref = .ok (h', lref') ∧
      h'.Holds lref' (seq ++ [(lnref, content)]) ∧ lref'.count = cInt (seq.length+1) ∧
      h'.frees = h.frees := by
  have hfresh := hh.fresh hnew
  have hdistinct : ((seq ++ [(lnref, content)]).map Prod.fst).Nodup := by
    rw [List.map_append]
    exact nodup_snoc hh.distinct hfresh
  rcases List.eq_nil_or_concat seq with rfl | ⟨seq, ⟨a, x⟩, rfl⟩
  · have hzero : lref.count = 0 := hcount
    have hhead : lref.head = none := hh.head
    refine ⟨listNodeNew h lnref content none none, ⟨cInt (lref.count+1), some lnref, some lnref⟩,
      by rw [listAddBack, if_pos hzero, hhead], ⟨⟨Function.update_self _ _ _, trivial⟩, rfl, rfl,
      hdistinct⟩, by rw [hcount], rfl⟩
  · rw [List.concat_eq_append] at hh hcount hfresh hdistinct ⊢
    have hne : lref.count ≠ 0 := by
      rw [hcount, List.length_append, List.length_singleton]
      omega
    have htail : lref.tail = some a := by rw [hh.tail, Link.last_append]; rfl
    have hna : a ≠ lnref := fun heq => hfresh (by rw [← heq]; simp)
    have hnot := (nodup_of_snoc hh.distinct).1
    have hseg := Link.segment_append.mp hh.segment
    refine ⟨⟨Function.update (Function.update h.nodes lnref (some ⟨none, some a, content⟩)) a
      (some ⟨some lnref, Link.last seq none, x⟩), h.frees⟩,
      ⟨cInt (lref.count+1), lref.head, some lnref⟩, ?_, ⟨?_, ?_, ?_, hdistinct⟩,
      by rw [hcount], rfl⟩
    · rw [listAddBack, if_neg hne]
      simp only [listNodeNew, htail, ListHeap.store, Function.update_self, Function.update_idem,
        Function.update_of_ne hna, hseg.2.1, ok_bind]
    · refine Link.segment_append.mpr ⟨(hh.segment.update_other hfresh _).set_last ?_, ?_, trivial⟩
      · exact hnot
      · rw [Link.last_append]
        exact (Function.update_of_ne hna.symm _ _).trans (Function.update_self _ _ _)
    · exact hh.head.trans (Link.first_append_of_ne_nil (by simp) _ _ _).symm
    · show some lnref = _
      rw [Link.last_append]
      rfl

/-- What the removals do to a list: a node is taken out of the sequence and freed. -/
structure ListHeap.Removed (h h' : ListHeap) (lref' : ListRef) (a : ℕ) (seq' : ListSeq) :
    Prop where
  holds : h'.Holds lref' seq'
  count : lref'.count = seq'.length
  frees : h'.frees = h.frees ++ [a]

theorem listRemoveOnly_spec {a : ℕ} {x : Option ℕ} (hh : h.Holds lref [(a, x)])
    (hcount : lref.count = 1) :
    ∃ h' lref', listRemoveOnly h lref = .ok (x, h', lref') ∧ h.Removed h' lref' a [] := by
  have hhead : lref.head = some a := hh.head
  refine ⟨⟨Function.update h.nodes a none, h.frees ++ [a]⟩, ⟨cInt (lref.count-1), none, none⟩, ?_,
    ⟨trivial, rfl, rfl, List.nodup_nil⟩, by rw [hcount]; rfl, rfl⟩
  simp only [listRemoveOnly, hhead, ListHeap.load, ListHeap.store, listNodeFree, hh.segment.1,
    Function.update_self, Function.update_idem, ok_bind]

theorem listRemoveFirst_spec {a : ℕ} {x : Option ℕ} (hh : h.Holds lref ((a, x) :: seq))
    (hcount : lref.count = (seq.length+1 : ℕ)) (hfits : seq.length+1 < 2^31) :
    ∃ h' lref', listRemoveFirst h lref = .ok (x, h', lref') ∧ h.Removed h' lref' a seq := by
  have hne : lref.count ≠ 0 := by omega
  cases seq with
  | nil =>
    have hone : lref.count = 1 := hcount
    obtain ⟨h', lref', hx, hr⟩ := listRemoveOnly_spec hh hone
    exact ⟨h', lref', by rw [listRemoveFirst, if_neg hne, if_pos hone, hx], hr⟩
  | cons e seq =>
    obtain ⟨b, y⟩ := e
    obtain ⟨hnot, hdistinct⟩ := List.nodup_cons.mp hh.distinct
    have hone : lref.count ≠ 1 := by
      rw [hcount, List.length_cons]
      omega
    have hhead : lref.head = some a := hh.head
    have hab : a ≠ b := fun heq => hnot (heq ▸ List.mem_cons_self)
    obtain ⟨hna, hseg⟩ := hh.segment
    refine ⟨⟨Function.update (Function.update h.nodes b (some ⟨Link.first seq none, none, y⟩)) a none,
      h.frees ++ [a]⟩, ⟨cInt (lref.count-1), some b, lref.tail⟩, ?_,
      ⟨(hseg.set_first (List.nodup_cons.mp hdistinct).1).update_other hnot none, rfl, hh.tail,
        hdistinct⟩, ?_, rfl⟩
    · rw [listRemoveFirst, if_neg hne, if_neg hone]
      simp only [hhead, ListHeap.load, ListHeap.store, listNodeFree, hna, hseg.1, Link.first,
        Function.update_self, Function.update_idem, Function.update_of_ne hab, ok_bind]
    · exact count_pred hcount hfits

theorem listRemoveLast_spec {a : ℕ} {x : Option ℕ} (hh : h.Holds lref (seq ++ [(a, x)]))
    (hcount : lref.count = (seq.length+1 : ℕ)) (hfits : seq.length+1 < 2^31) :
    ∃ h' lref', listRemoveLast h lref = .ok (x, h', lref') ∧ h.Removed h' lref' a seq := by
  have hne : lref.count ≠ 0 := by omega
  obtain ⟨hnot, hdistinct⟩ := nodup_of_snoc hh.distinct
  rcases List.eq_nil_or_concat seq with rfl | ⟨seq, ⟨b, y⟩, rfl⟩
  · have hone : lref.count = 1 := hcount
    obtain ⟨h', lref', hx, hr⟩ := listRemoveOnly_spec hh hone
    exact ⟨h', lref', by rw [listRemoveLast, if_neg hne, if_pos hone, hx], hr⟩
  · rw [List.concat_eq_append] at hh hcount hfits hnot hdistinct ⊢
    have hone : lref.count ≠ 1 := by
      rw [hcount, List.length_append, List.length_singleton]
      omega
    have htail : lref.tail = some a := by rw [hh.tail, Link.last_append]; rfl
    have hab : a ≠ b := fun heq => hnot (by rw [heq]; simp)
    obtain ⟨hseg, hna, -⟩ := Link.segment_append.mp hh.segment
    have hnb := (Link.segment_append.mp hseg).2.1
    rw [Link.last_append] at hna
    refine ⟨⟨Function.update (Function.update h.nodes b (some ⟨none, Link.last seq none, y⟩)) a none,
      h.frees ++ [a]⟩, ⟨cInt (lref.count-1), lref.head, some b⟩, ?_,
      ⟨(hseg.set_last (nodup_of_snoc hdistinct).1).update_other hnot none, ?_, ?_, hdistinct⟩,
      count_pred hcount hfits, rfl⟩
    · rw [listRemoveLast, if_neg hne, if_neg hone]
      simp only [htail, ListHeap.load, ListHeap.store, listNodeFree, hna, hnb, Link.last,
        Function.update_self, Function.update_idem, Function.update_of_ne hab, ok_bind]
    · exact hh.head.trans (Link.first_append_of_ne_nil (by simp) _ _ _)
    · show some b = _
      rw [Link.last_append]
      rfl

/-- A node of the list, apart from those before and after it. -/
theorem nodup_around {xs ys : ListSeq} {a : ℕ} {x : Option ℕ}
    (hd : ((xs ++ (a, x) :: ys).map Prod.fst).Nodup) :
    a ∉ (xs ++ ys).map Prod.fst ∧ ((xs ++ ys).map Prod.fst).Nodup := by
  rw [List.map_append, List.map_cons, List.nodup_middle, ← List.map_append] at hd
  exact List.nodup_cons.mp hd

/-- A list without one of its nodes, which is still in memory. -/
structure ListHeap.Unlinked (h h' : ListHeap) (lref lref' : ListRef) (a : ℕ) (seq' : ListSeq) :
    Prop where
  holds : h'.Holds lref' seq'
  node : ∃ node, h'.nodes a = some node
  count : lref'.count = lref.count
  frees : h'.frees = h.frees

section unlink

variable {xs ys : ListSeq} {a b c : ℕ} {x y z : Option ℕ}

theorem listUnlink_head (hh : h.Holds lref ((a, x) :: (b, y) :: ys)) :
    ∃ h' lref', listUnlink h lref (some a) = .ok (h', lref') ∧
      h.Unlinked h' lref lref' a ((b, y) :: ys) := by
  obtain ⟨hnot, hdistinct⟩ := List.nodup_cons.mp hh.distinct
  have hab : a ≠ b := fun heq => hnot (heq ▸ List.mem_cons_self)
  have hhead : lref.head = some a := hh.head
  obtain ⟨hna, hseg⟩ := hh.segment
  refine ⟨⟨Function.update h.nodes b (some ⟨Link.first ys none, none, y⟩), h.frees⟩,
    { lref with head := some b }, ?_,
    ⟨hseg.set_first (List.nodup_cons.mp hdistinct).1, rfl, hh.tail, hdistinct⟩,
    ⟨_, (Function.update_of_ne hab _ _).trans hna⟩, rfl, rfl⟩
  simp only [listUnlink, hhead, ListHeap.load, ListHeap.store, hna, hseg.1, Link.first, if_true,
    Function.update_of_ne hab, ok_bind]

theorem listUnlink_tail (hh : h.Holds lref (xs ++ [(b, y)] ++ [(a, x)])) :
    ∃ h' lref', listUnlink h lref (some a) = .ok (h', lref') ∧
      h.Unlinked h' lref lref' a (xs ++ [(b, y)]) := by
  obtain ⟨hnot, hdistinct⟩ := nodup_of_snoc hh.distinct
  have hab : a ≠ b := fun heq => hnot (by rw [heq]; simp)
  have htail : lref.tail = some a := by rw [hh.tail, Link.last_append]; rfl
  have hhead : lref.head ≠ some a := by
    rw [hh.head, Link.first_append_of_ne_nil (by simp) _ _ none]
    exact Link.first_ne (by simp) hnot _
  obtain ⟨hseg, hna, -⟩ := Link.segment_append.mp hh.segment
  have hnb := (Link.segment_append.mp hseg).2.1
  rw [Link.last_append] at hna
  refine ⟨⟨Function.update h.nodes b (some ⟨none, Link.last xs none, y⟩), h.frees⟩,
    { lref with tail := some b }, ?_,
    ⟨hseg.set_last (nodup_of_snoc hdistinct).1, ?_, ?_, hdistinct⟩,
    ⟨_, (Function.update_of_ne hab _ _).trans hna⟩, rfl, rfl⟩
  · simp only [listUnlink, hhead, htail, ListHeap.load, ListHeap.store, hna, hnb, Link.last,
      Link.first, if_true, if_false, Function.update_of_ne hab, ok_bind]
  · exact hh.head.trans (Link.first_append_of_ne_nil (by simp) _ _ _)
  · show some b = _
    rw [Link.last_append]
    rfl

theorem listUnlink_middle (hh : h.Holds lref (xs ++ [(c, z)] ++ (a, x) :: (b, y) :: ys)) :
    ∃ h' lref', listUnlink h lref (some a) = .ok (h', lref') ∧
      h.Unlinked h' lref lref' a (xs ++ [(c, z)] ++ (b, y) :: ys) := by
  obtain ⟨hnot, hdistinct⟩ := nodup_around hh.distinct
  obtain ⟨hnotc, hdistinct'⟩ : c ∉ (xs ++ (b, y) :: ys).map Prod.fst ∧
      ((xs ++ (b, y) :: ys).map Prod.fst).Nodup := by
    refine nodup_around (x := z) ?_
    rwa [List.append_assoc, List.singleton_append] at hdistinct
  obtain ⟨hnotb, -⟩ := nodup_around hdistinct'
  simp only [List.map_append, List.map_cons, List.mem_append, List.mem_cons, not_or, List.map_nil,
    List.not_mem_nil, not_false_eq_true, and_true] at hnot hnotc hnotb
  obtain ⟨⟨hax, hac⟩, hab, hay⟩ := hnot
  obtain ⟨hcx, hcb, hcy⟩ := hnotc
  have hhead : lref.head ≠ some a := by
    rw [hh.head, Link.first_append_of_ne_nil (by simp) _ _ none]
    exact Link.first_ne (by simp) (by simp [hax, hac]) _
  have htail : lref.tail ≠ some a := by
    rw [hh.tail, Link.last_append]
    have hnoty : a ∉ ((b, y) :: ys).map Prod.fst := by simp [hab, hay]
    exact Link.last_ne (by simp) hnoty (some a)
  obtain ⟨hsegx, hna, hsegy⟩ := Link.segment_append.mp hh.segment
  have hnc := (Link.segment_append.mp hsegx).2.1
  rw [Link.last_append] at hna
  refine ⟨⟨Function.update (Function.update h.nodes b (some ⟨Link.first ys none, some c, y⟩)) c
    (some ⟨some b, Link.last xs none, z⟩), h.frees⟩, lref, ?_,
    ⟨Link.segment_append.mpr ⟨?_, ?_⟩, ?_, ?_, hdistinct⟩,
    ⟨_, (Function.update_of_ne hac _ _).trans ((Function.update_of_ne hab _ _).trans hna)⟩, rfl, rfl⟩
  · simp only [listUnlink, hhead, htail, ListHeap.load, ListHeap.store, hna, hnc, hsegy.1, Link.last,
      Link.first, if_false, Function.update_of_ne hab, Function.update_of_ne hcb, ok_bind]
  · exact (hsegx.update_other (by simp [hnotb.1, Ne.symm hcb]) _).set_last hcx
  · rw [Link.last_append]
    exact (hsegy.set_first hnotb.2).update_other (by simp [hcb, hcy]) _
  · rw [hh.head]
    exact (Link.first_append_of_ne_nil (by simp) _ _ none).trans
      (Link.first_append_of_ne_nil (by simp) _ _ _).symm
  · rw [hh.tail, Link.last_append, Link.last_append (xs ++ [(c, z)]) ((b, y) :: ys)]
    rfl

/-- Wherever in a list of two or more nodes the node stands. -/
theorem listUnlink_spec (hh : h.Holds lref (xs ++ (a, x) :: ys)) (hne : xs ++ ys ≠ []) :
    ∃ h' lref', listUnlink h lref (some a) = .ok (h', lref') ∧
      h.Unlinked h' lref lref' a (xs ++ ys) := by
  rcases List.eq_nil_or_concat xs with rfl | ⟨xs, ⟨c, z⟩, rfl⟩
  · cases ys with
    | nil => exact absurd rfl hne
    | cons e ys => exact listUnlink_head hh
  · rw [List.concat_eq_append] at hh ⊢
    cases ys with
    | nil =>
      rw [List.append_nil]
      exact listUnlink_tail hh
    | cons e ys => exact listUnlink_middle hh

theorem listItrRemove_spec (hh : h.Holds lref (xs ++ (a, x) :: ys))
    (hcount : lref.count = ((xs ++ ys).length+1 : ℕ)) (hfits : (xs ++ ys).length+1 < 2^31) :
    ∃ h' lref', listItrRemove h lref (some a) = .ok (h', lref') ∧
      h.Removed h' lref' a (xs ++ ys) := by
  have hzero : lref.count ≠ 0 := by omega
  by_cases hne : xs ++ ys = []
  · obtain ⟨rfl, rfl⟩ := List.append_eq_nil_iff.mp hne
    have hone : lref.count = 1 := hcount
    have hhead : some a = lref.head := hh.head.symm
    refine ⟨⟨Function.update h.nodes a none, h.frees ++ [a]⟩, ⟨0, none, none⟩, ?_,
      ⟨trivial, rfl, rfl, List.nodup_nil⟩, rfl, rfl⟩
    simp only [listItrRemove, Option.isSome_some, cAssert_true, ok_bind, hone, one_ne_zero, if_false,
      if_true, ← hhead, decide_true, listNodeFree_eq hh.segment.1]
  · have hone : lref.count ≠ 1 := by
      have hpos := List.length_pos_iff.mpr hne
      omega
    obtain ⟨h₁, lref₁, hunlink, hu⟩ := listUnlink_spec hh hne
    obtain ⟨node, hnode⟩ := hu.node
    have hnot := (nodup_around hh.distinct).1
    refine ⟨⟨Function.update h₁.nodes a none, h₁.frees ++ [a]⟩,
      { lref₁ with count := cInt (lref₁.count-1) }, ?_,
      ⟨hu.holds.segment.update_other hnot none, hu.holds.head, hu.holds.tail, hu.holds.distinct⟩,
      count_pred (hu.count.trans hcount) hfits, by rw [hu.frees]⟩
    simp only [listItrRemove, Option.isSome_some, cAssert_true, ok_bind, hzero, hone, if_false,
      hunlink, listNodeFree_eq hnode]

end unlink

/-- Going through the nodes of a sequence, the loop stops at the first that has the needle. -/
theorem listFindLoop_spec (needle : Option ℕ) (rounds : ℕ) (prev : Option ℕ)
    (hseg : Link.Segment h.nodes prev seq none) (hrounds : seq.length < rounds) :
    listFindLoop h needle rounds (Link.first seq none) =
      .ok ((seq.find? fun e => e.2 = needle).map Prod.fst) := by
  induction seq generalizing prev rounds with
  | nil =>
    cases rounds with
    | zero => cases hrounds
    | succ rounds => rfl
  | cons e seq ih =>
    cases rounds with
    | zero => cases hrounds
    | succ rounds =>
      obtain ⟨hnode, hseg⟩ := hseg
      have hrest := ih rounds (some e.1) hseg (Nat.lt_of_succ_lt_succ hrounds)
      rw [Link.first, listFindLoop, ListHeap.load_eq hnode, ok_bind, List.find?_cons, hrest]
      by_cases hitem : e.2 = needle
      · simp only [hitem, if_true, decide_true, Option.map_some]
      · simp only [hitem, if_false, decide_false]

end specs

end CHttp
