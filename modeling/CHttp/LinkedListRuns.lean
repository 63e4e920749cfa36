import CHttp.LinkedList

/-! Runs of a list's operations, in any order: the list in memory beside the sequence that
the same operations make. -/
namespace CHttp

inductive ListOp where
  | addFront (content : Option ℕ) (lnref : ℕ)
  | addBack (content : Option ℕ) (lnref : ℕ)
  | removeFirst
  | removeLast
  | itrRemove (itr : ℕ)
  | find (needle : Option ℕ) (rounds : ℕ)
  deriving DecidableEq, Repr

/-- The same operations on a sequence of nodes. -/
def ListOp.apply (seq : ListSeq) : ListOp → ListSeq
  | .addFront content lnref => (lnref, content) :: seq
  | .addBack content lnref => seq ++ [(lnref, content)]
  | .removeFirst => seq.tail
  | .removeLast => seq.dropLast
  | .itrRemove itr => seq.filter fun e => e.1 ≠ itr
  | .find _ _ => seq

/-- The nodes that an operation takes out of the sequence. -/
def ListOp.removes (seq : ListSeq) : ListOp → List ℕ
  | .removeFirst => (seq.head?.map Prod.fst).toList
  | .removeLast => (seq.getLast?.map Prod.fst).toList
  | .itrRemove itr => [itr]
  | _ => []

/-- What an operation returns, where it returns something. -/
def ListOp.answer (seq : ListSeq) : ListOp → Option (Option ℕ)
  | .removeFirst => some (seq.head?.bind Prod.snd)
  | .removeLast => some (seq.getLast?.bind Prod.snd)
  | .find needle _ => some ((seq.find? fun e => e.2 = needle).map Prod.fst)
  | _ => none

/-- The list in memory and, beside it, what it should be: its sequence, the nodes removed
from it, and the answer of the last operation. -/
structure ListWorld where
  heap : ListHeap
  lref : ListRef
  returned : Option (Option ℕ)
  seq : ListSeq
  removed : List ℕ
  answer : Option (Option ℕ)

def listExec (h : ListHeap) (lref : ListRef) :
    ListOp → Res (Option (Option ℕ) × ListHeap × ListRef)
  | .addFront content lnref => do
    let (h, lref) ← listAddFront h lref content lnref
    .ok (none, h, lref)
  | .addBack content lnref => do
    let (h, lref) ← listAddBack h lref content lnref
    .ok (none, h, lref)
  | .removeFirst => do
    let (content, h, lref) ← listRemoveFirst h lref
    .ok (some content, h, lref)
  | .removeLast => do
    let (content, h, lref) ← listRemoveLast h lref
    .ok (some content, h, lref)
  | .itrRemove itr => do
    let (h, lref) ← listItrRemove h lref (some itr)
    .ok (none, h, lref)
  | .find needle rounds => do
    let iter ← listFind h lref needle rounds
    .ok (some iter, h, lref)

/-- malloc returns memory that is not in use, an iterator points into the list, and the loop
of `List_find` may go on for longer than the list is. -/
def ListWorld.Enabled (w : ListWorld) : ListOp → Prop
  | .addFront _ lnref | .addBack _ lnref => w.heap.nodes lnref = none
  | .itrRemove itr => itr ∈ w.seq.map Prod.fst
  | .find _ rounds => w.seq.length < rounds
  | .removeFirst | .removeLast => True

def listMachine : Machine ListWorld ListOp Fault where
  enabled := ListWorld.Enabled
  exec w op := do
    let (returned, heap, lref) ← listExec w.heap w.lref op
    .ok ⟨heap, lref, returned, op.apply w.seq, w.removed ++ op.removes w.seq, op.answer w.seq⟩

/-- A new list in memory that holds other nodes. -/
def ListWorld.new (nodes : ℕ → Option ListNode) : ListWorld :=
  ⟨⟨nodes, []⟩, listInit, none, [], [], none⟩

/-- The list is its sequence: forwards, backwards, in number and in what it answers. Every
node removed was freed, once, and nothing else was. -/
structure ListWorld.Lawful (w : ListWorld) : Prop where
  forward : Link.Follows w.heap.nodes Link.forward w.lref.head w.seq
  backward : Link.Follows w.heap.nodes Link.backward w.lref.tail w.seq.reverse
  distinct : (w.seq.map Prod.fst).Nodup
  count : w.lref.count = w.seq.length
  head : w.lref.head = none ↔ w.seq = []
  tail : w.lref.tail = none ↔ w.seq = []
  returned : w.returned = w.answer
  frees : w.heap.frees = w.removed

def ListWorld.Returns (w : ListWorld) : Prop :=
  ∀ op, listMachine.enabled w op → ∃ t, listMachine.exec w op = .ok t

/-- What holds of a list as long as its counter has been right. -/
structure ListWorld.Known (w : ListWorld) : Prop where
  holds : w.heap.Holds w.lref w.seq
  count : w.lref.count = cInt w.seq.length
  returned : w.returned = w.answer
  frees : w.heap.frees = w.removed

section step

variable {w : ListWorld}

/-- An `int` counts fewer than `2^31` nodes. -/
theorem ListWorld.Known.lawful_iff (hk : w.Known) : w.Lawful ↔ w.seq.length < 2^31 := by
  constructor
  · intro hl
    have hlt := cInt_lt w.seq.length
    rw [← hk.count, hl.count] at hlt
    omega
  · intro hlt
    have hh := hk.holds
    refine ⟨?_, ?_, hh.distinct, by rw [hk.count, cInt_natCast _ hlt], ?_, ?_, hk.returned,
      hk.frees⟩
    · rw [hh.head]
      exact hh.segment.follows_forward
    · rw [hh.tail]
      exact hh.segment.follows_backward
    · rw [hh.head, Link.first_eq_none_iff]
    · rw [hh.tail, Link.last_eq_none_iff]

/-- An operation on the memory, seen from the list's world. -/
theorem ListWorld.step_of_exec {op : ListOp} {returned : Option (Option ℕ)} {h' : ListHeap}
    {lref' : ListRef} (hx : listExec w.heap w.lref op = .ok (returned, h', lref'))
    (hh : h'.Holds lref' (op.apply w.seq)) (hcount : lref'.count = cInt (op.apply w.seq).length)
    (hreturned : returned = op.answer w.seq)
    (hfrees : h'.frees = w.removed ++ op.removes w.seq) :
    ∃ t, listMachine.exec w op = .ok t ∧ t.Known ∧ t.seq = op.apply w.seq := by
  refine ⟨⟨h', lref', returned, op.apply w.seq, w.removed ++ op.removes w.seq, op.answer w.seq⟩,
    ?_, ⟨hh, hcount, hreturned, hfrees⟩, rfl⟩
  simp only [listMachine, hx, ok_bind]

/-- A node removed, seen from the list's world. -/
theorem ListWorld.step_of_removed (hk : w.Known) {op : ListOp} {returned : Option (Option ℕ)}
    {h' : ListHeap} {lref' : ListRef} {a : ℕ}
    (hx : listExec w.heap w.lref op = .ok (returned, h', lref'))
    (hr : w.heap.Removed h' lref' a (op.apply w.seq)) (hfits : (op.apply w.seq).length < 2^31)
    (hreturned : returned = op.answer w.seq) (hremoves : op.removes w.seq = [a]) :
    ∃ t, listMachine.exec w op = .ok t ∧ t.Known ∧ t.seq = op.apply w.seq := by
  refine step_of_exec hx hr.holds ?_ hreturned ?_
  · rw [hr.count, cInt_natCast _ hfits]
  · rw [hr.frees, hk.frees, hremoves]

/-- An operation that removes nothing frees nothing. -/
theorem ListWorld.Known.frees_same (hk : w.Known) {h' : ListHeap} (hfrees : h'.frees = w.heap.frees) :
    h'.frees = w.removed ++ [] := by
  rw [hfrees, hk.frees, List.append_nil]

theorem list_step_removeFirst (hk : w.Known) (hfits : w.seq.length < 2^31)
    (hcount : w.lref.count = w.seq.length) :
    ∃ t, listMachine.exec w .removeFirst = .ok t ∧ t.Known ∧
      t.seq = ListOp.removeFirst.apply w.seq := by
  obtain ⟨h, lref, returned, seq, removed, answer⟩ := w
  cases seq with
  | nil =>
    have hzero : lref.count = 0 := hcount
    exact ListWorld.step_of_exec
      (by simp only [listExec, listRemoveFirst, hzero, if_true, ok_bind]; rfl)
      hk.holds hk.count rfl (hk.frees_same rfl)
  | cons e seq =>
    obtain ⟨h', lref', hx, hr⟩ := listRemoveFirst_spec hk.holds hcount hfits
    exact ListWorld.step_of_removed hk (by simp only [listExec, hx, ok_bind]; rfl) hr
      (Nat.lt_of_succ_lt hfits) rfl rfl

theorem list_step_removeLast (hk : w.Known) (hfits : w.seq.length < 2^31)
    (hcount : w.lref.count = w.seq.length) :
    ∃ t, listMachine.exec w .removeLast = .ok t ∧ t.Known ∧
      t.seq = ListOp.removeLast.apply w.seq := by
  obtain ⟨h, lref, returned, seq, removed, answer⟩ := w
  rcases List.eq_nil_or_concat seq with rfl | ⟨seq, e, rfl⟩
  · have hzero : lref.count = 0 := hcount
    exact ListWorld.step_of_exec
      (by simp only [listExec, listRemoveLast, hzero, if_true, ok_bind]; rfl)
      hk.holds hk.count rfl (hk.frees_same rfl)
  · simp only [List.concat_eq_append] at hk hfits hcount ⊢
    rw [List.length_append, List.length_singleton] at hfits hcount
    obtain ⟨h', lref', hx, hr⟩ := listRemoveLast_spec hk.holds hcount hfits
    have happly : ListOp.removeLast.apply (seq ++ [e]) = seq := List.dropLast_concat
    refine ListWorld.step_of_removed hk (by simp only [listExec, hx, ok_bind]; rfl) (happly ▸ hr)
      (by rw [happly]; omega) ?_ ?_
    · simp [ListOp.answer]
    · simp [ListOp.removes]

theorem list_step_itrRemove (hk : w.Known) (hfits : w.seq.length < 2^31)
    (hcount : w.lref.count = w.seq.length) (itr : ℕ) (he : itr ∈ w.seq.map Prod.fst) :
    ∃ t, listMachine.exec w (.itrRemove itr) = .ok t ∧ t.Known ∧
      t.seq = (ListOp.itrRemove itr).apply w.seq := by
  obtain ⟨h, lref, returned, seq, removed, answer⟩ := w
  obtain ⟨⟨a, x⟩, hmem, rfl⟩ := List.mem_map.mp he
  obtain ⟨xs, ys, rfl⟩ := List.append_of_mem hmem
  have hlen : (xs ++ (a, x) :: ys).length = (xs ++ ys).length+1 := by simp; omega
  obtain ⟨h', lref', hx, hr⟩ := listItrRemove_spec hk.holds (hlen ▸ hcount) (hlen ▸ hfits)
  have hnot := (nodup_around hk.holds.distinct).1
  have happly : (ListOp.itrRemove a).apply (xs ++ (a, x) :: ys) = xs ++ ys := by
    have hall : ∀ e ∈ xs ++ ys, decide (e.1 ≠ a) = true := by
      intro e hmem
      refine decide_eq_true fun heq => hnot ?_
      exact List.mem_map.mpr ⟨e, hmem, heq⟩
    rw [ListOp.apply, List.filter_append, List.filter_cons_of_neg (by simp), ← List.filter_append,
      List.filter_eq_self.mpr hall]
  refine ListWorld.step_of_removed hk (by simp only [listExec, hx, ok_bind]; rfl) ?_ ?_ rfl rfl
  · rw [happly]
    exact hr
  · rw [happly]
    simp only [hlen] at hfits
    omega

theorem list_step (hk : w.Known) (hfits : w.seq.length < 2^31) (op : ListOp)
    (he : listMachine.enabled w op) :
    ∃ t, listMachine.exec w op = .ok t ∧ t.Known ∧ t.seq = op.apply w.seq := by
  have hh := hk.holds
  have hcount : w.lref.count = w.seq.length := by rw [hk.count, cInt_natCast _ hfits]
  cases op with
  | addFront content lnref =>
    obtain ⟨h', lref', hx, hh', hcount', hfrees⟩ := listAddFront_spec hh hcount content lnref he
    exact ListWorld.step_of_exec (by simp only [listExec, hx, ok_bind]; rfl) hh' hcount' rfl
      (hk.frees_same hfrees)
  | addBack content lnref =>
    obtain ⟨h', lref', hx, hh', hcount', hfrees⟩ := listAddBack_spec hh hcount content lnref he
    refine ListWorld.step_of_exec (by simp only [listExec, hx, ok_bind]; rfl) hh' ?_ rfl
      (hk.frees_same hfrees)
    rw [hcount', ListOp.apply, List.length_append, List.length_singleton, Nat.cast_succ]
  | removeFirst => exact list_step_removeFirst hk hfits hcount
  | removeLast => exact list_step_removeLast hk hfits hcount
  | itrRemove itr => exact list_step_itrRemove hk hfits hcount itr he
  | find needle rounds =>
    have hx := listFindLoop_spec needle rounds none hh.segment he
    rw [← hh.head] at hx
    exact ListWorld.step_of_exec (by simp only [listExec, listFind, hx, ok_bind]; rfl) hh hk.count
      rfl (hk.frees_same rfl)

end step

theorem listNew_known (nodes : ℕ → Option ListNode) : (ListWorld.new nodes).Known :=
  ⟨listInit_holds _, (cInt_natCast 0 (by decide)).symm, rfl, rfl⟩

/-- A list with a counter that is right so far returns from every operation. -/
theorem ListWorld.Known.sound_iff {w : ListWorld} (hk : w.Known) :
    w.Lawful ∧ w.Returns ↔ w.seq.length < 2^31 := by
  refine ⟨fun h => hk.lawful_iff.mp h.1, fun hlt => ⟨hk.lawful_iff.mpr hlt, fun op he => ?_⟩⟩
  obtain ⟨t, hx, -⟩ := list_step hk hlt op he
  exact ⟨t, hx⟩

/-- In a run from a new list, among whatever other memory, the list is the sequence its
operations make, and no operation fails, exactly as long as it has fewer than `2^31` nodes. -/
theorem list_lawful_iff (nodes : ℕ → Option ListNode) (ops : List ListOp) (t : ListWorld)
    (hrun : listMachine.Run (.new nodes) ops t) :
    listMachine.Always (fun w => w.Lawful ∧ w.Returns) (.new nodes) ops ↔
      listMachine.Always (fun w => w.seq.length < 2^31) (.new nodes) ops := by
  have hstep : ∀ w op u, w.Known → w.seq.length < 2^31 → listMachine.enabled w op →
      listMachine.exec w op = .ok u → u.Known ∧ u.seq = op.apply w.seq := by
    intro w op u hk hlt he hx
    obtain ⟨u', hx', hk', hseq⟩ := list_step hk hlt op he
    obtain rfl := Except.ok.inj (hx.symm.trans hx')
    exact ⟨hk', hseq⟩
  have hnew := listNew_known nodes
  have hzero : (ListWorld.new nodes).seq.length < 2^31 := Nat.two_pow_pos 31
  rw [hrun.always_iff (J := ListWorld.Known) (A := fun w op => (op.apply w.seq).length < 2^31) ?_
      hnew (hnew.sound_iff.mpr hzero),
    hrun.always_iff (J := ListWorld.Known) (A := fun w op => (op.apply w.seq).length < 2^31) ?_
      hnew hzero]
  · intro w op u hk hlt he hx
    obtain ⟨hk', hseq⟩ := hstep w op u hk hlt he hx
    exact ⟨by rw [hseq], fun _ => hk'⟩
  · intro w op u hk hp he hx
    obtain ⟨hk', hseq⟩ := hstep w op u hk (hk.sound_iff.mp hp) he hx
    exact ⟨by rw [hk'.sound_iff, hseq], fun _ => hk'⟩

instance listMachine.decidableEnabled (w : ListWorld) (op : ListOp) :
    Decidable (listMachine.enabled w op) :=
  match op with
  | .addFront _ lnref | .addBack _ lnref => inferInstanceAs (Decidable (w.heap.nodes lnref = none))
  | .itrRemove itr => inferInstanceAs (Decidable (itr ∈ w.seq.map Prod.fst))
  | .find _ rounds => inferInstanceAs (Decidable (w.seq.length < rounds))
  | .removeFirst | .removeLast => inferInstanceAs (Decidable True)

theorem ListOp.length_apply_le (op : ListOp) (seq : ListSeq) :
    (op.apply seq).length ≤ seq.length+1 := by
  cases op with
  | addFront => exact le_rfl
  | addBack => rw [ListOp.apply, List.length_append, List.length_singleton]
  | removeFirst => rw [ListOp.apply, List.length_tail]; omega
  | removeLast => rw [ListOp.apply, List.length_dropLast]; omega
  | itrRemove itr => exact (List.length_filter_le _ _).trans (Nat.le_succ _)
  | find => exact Nat.le_succ _

theorem list_length_le {w t : ListWorld} {ops : List ListOp} (h : listMachine.Run w ops t) :
    t.seq.length ≤ w.seq.length+ops.length := by
  induction h with
  | nil w => exact le_rfl
  | @cons w u t op ops he hx _ ih =>
    obtain ⟨r, -, hu⟩ := (bind_eq_ok _ _ _).mp hx
    obtain rfl := Except.ok.inj hu
    have hle := op.length_apply_le w.seq
    simp only [List.length_cons] at ih ⊢
    omega

/-- Three nodes, of which the middle one is removed through an iterator and the others from
both ends. -/
theorem list_lawful_three :
    ∃ t, listMachine.Run (.new fun _ => none)
        [.addBack (some 10) 1, .addBack (some 20) 2, .addFront (some 30) 3, .find (some 10) 9,
          .itrRemove 1, .removeLast, .removeFirst] t ∧
      listMachine.Always (fun w => w.Lawful ∧ w.Returns) (.new fun _ => none)
        [.addBack (some 10) 1, .addBack (some 20) 2, .addFront (some 30) 3, .find (some 10) 9,
          .itrRemove 1, .removeLast, .removeFirst] := by
  obtain ⟨t, hrun⟩ : ∃ t, listMachine.Run (.new fun _ => none)
      [.addBack (some 10) 1, .addBack (some 20) 2, .addFront (some 30) 3, .find (some 10) 9,
        .itrRemove 1, .removeLast, .removeFirst] t :=
    Machine.exists_run_of_isSome (by decide)
  refine ⟨t, hrun, (list_lawful_iff _ _ _ hrun).mpr fun pre post u hops hu => ?_⟩
  have hle := list_length_le hu
  have hpre := congrArg List.length hops
  rw [List.length_append] at hpre
  simp only [List.length_cons, List.length_nil, ListWorld.new] at hle hpre
  omega

/-- An assignment leaves free memory free. -/
theorem ListHeap.store_free {h h' : ListHeap} {p : Option ℕ} {f : ListNode → ListNode}
    (hs : h.store p f = .ok h') {b : ℕ} (hb : h.nodes b = none) : h'.nodes b = none := by
  cases p with
  | none => cases hs
  | some a =>
    cases hn : h.nodes a with
    | none =>
      rw [ListHeap.store, hn] at hs
      cases hs
    | some node =>
      obtain rfl := Except.ok.inj ((ListHeap.store_eq hn f).symm.trans hs)
      refine (Function.update_of_ne ?_ _ _).trans hb
      rintro rfl
      cases hb.symm.trans hn

theorem listAddBack_free {h h' : ListHeap} {lref lref' : ListRef} {content : Option ℕ} {lnref : ℕ}
    (hx : listAddBack h lref content lnref = .ok (h', lref')) {b : ℕ} (hne : b ≠ lnref)
    (hb : h.nodes b = none) : h'.nodes b = none := by
  have hnew : (listNodeNew h lnref content none lref.head).nodes b = none :=
    (Function.update_of_ne hne _ _).trans hb
  rw [listAddBack] at hx
  split_ifs at hx
  · obtain ⟨rfl, -⟩ := Prod.mk.inj (Except.ok.inj hx)
    exact hnew
  · obtain ⟨h₁, hs₁, hx⟩ := (bind_eq_ok _ _ _).mp hx
    obtain ⟨h₂, hs₂, hx⟩ := (bind_eq_ok _ _ _).mp hx
    obtain ⟨h₃, hs₃, hx⟩ := (bind_eq_ok _ _ _).mp hx
    obtain ⟨rfl, -⟩ := Prod.mk.inj (Except.ok.inj hx)
    exact ListHeap.store_free hs₃ (ListHeap.store_free hs₂ (ListHeap.store_free hs₁ hnew))

/-- A list can be filled with any number of nodes that its counter can count, and one more. -/
theorem list_fills (n : ℕ) (hn : n ≤ 2^31) :
    ∃ t, listMachine.Run (.new fun _ => none) ((List.range n).map fun i => .addBack none i) t ∧
      t.Known ∧ t.seq.length = n ∧ ∀ b, n ≤ b → t.heap.nodes b = none := by
  induction n with
  | zero => exact ⟨_, .nil _, listNew_known _, rfl, fun _ _ => rfl⟩
  | succ n ih =>
    obtain ⟨w, hrun, hk, hlen, hfree⟩ := ih (by omega)
    have he : listMachine.enabled w (.addBack none n) := hfree n le_rfl
    obtain ⟨t, hx, hk', hseq⟩ := list_step hk (by omega) (.addBack none n) he
    refine ⟨t, ?_, hk', ?_, fun b hb => ?_⟩
    · rw [List.range_succ, List.map_append]
      exact hrun.append (.cons he hx (.nil t))
    · rw [hseq, ListOp.apply, List.length_append, hlen, List.length_singleton]
    · obtain ⟨r, hr, ht⟩ := (bind_eq_ok _ _ _).mp hx
      obtain ⟨r', hadd, hr⟩ := (bind_eq_ok _ _ _).mp hr
      obtain rfl := Except.ok.inj hr
      obtain rfl := Except.ok.inj ht
      exact listAddBack_free hadd (by omega) (hfree b (by omega))

/-- With `2^31` nodes in the list its counter is negative. -/
theorem list_count_wraps :
    ∃ t, listMachine.Run (.new fun _ => none)
        ((List.range (2^31)).map fun i => .addBack none i) t ∧
      t.seq.length = 2^31 ∧ t.lref.count = -2^31 := by
  obtain ⟨t, hrun, hk, hlen, -⟩ := list_fills (2^31) le_rfl
  refine ⟨t, hrun, hlen, ?_⟩
  rw [hk.count, hlen, cInt_wrap _ (by norm_num) (by norm_num)]
  norm_num

end CHttp
