import CHttp.CMemory
import CHttp.Ring

/-! `FunctorList`, the bounded queue of posted functions. -/
namespace CHttp

def runloopMaxFds : ℕ := 1024
def runloopReadyListMax : ℕ := 2*runloopMaxFds

/-- `FunctorList`. `head` is the entry added last and `tailPlus` the one in front of the
oldest; the array has an entry more than the circle. -/
structure FunctorList (α : Type) where
  capacity : ℕ
  head : ℕ
  tailPlus : ℕ
  list : List (Option α)
  deriving DecidableEq, Repr

section model

variable {α : Type}

def functorListNew (α : Type) (capacity : ℕ) : Res (FunctorList α) := do
  cAssert (capacity ≤ runloopReadyListMax) "capacity <= runloop_READY_LIST_MAX"
  .ok ⟨capacity, 0, 0, List.replicate (capacity+1) none⟩

def functorListAdd (lst : FunctorList α) (func : α) : Res (FunctorList α) := do
  let tmp := (lst.head+1)%lst.capacity
  cAssert (tmp ≠ lst.tailPlus) "functor list is full cannot add another element"
  let list ← arrayWrite lst.list tmp func
  .ok { lst with head := tmp, list := list }

def functorListSize (lst : FunctorList α) : ℕ :=
  (lst.head+lst.capacity-lst.tailPlus)%lst.capacity

def functorListRemove (lst : FunctorList α) : Res (α × FunctorList α) := do
  cAssert (functorListSize lst ≠ 0) "cannot remove an element from an empty list"
  let tmpix := (lst.tailPlus+1)%lst.capacity
  let func ← arrayRead lst.list tmpix
  .ok (func, { lst with tailPlus := tmpix })

/-- A list of capacity `c` that holds `xs`, oldest first. One entry stays free. -/
structure FunctorList.Holds (lst : FunctorList α) (c : ℕ) (xs : List α) : Prop where
  capacity : lst.capacity = c
  length : lst.list.length = c+1
  tail : lst.tailPlus < c
  head : lst.head = (lst.tailPlus+xs.length)%c
  fits : xs.length < c
  ring : RingHolds lst.list c (lst.tailPlus+1) xs

variable {lst : FunctorList α} {c : ℕ} {xs : List α}

theorem functorListNew_holds (c : ℕ) (hpos : 0 < c) (hmax : c ≤ runloopReadyListMax) :
    ∃ lst, functorListNew α c = .ok lst ∧ lst.Holds c [] := by
  refine ⟨⟨c, 0, 0, List.replicate (c+1) none⟩, ?_, rfl, List.length_replicate, hpos, ?_, hpos,
    ringHolds_nil⟩
  · simp only [functorListNew, hmax, decide_true, cAssert_true, ok_bind]
  · simp

theorem functorListSize_eq (h : lst.Holds c xs) : functorListSize lst = xs.length := by
  have ht := h.tail
  have hf := h.fits
  rw [functorListSize, h.capacity, h.head, Nat.add_mod_eq_ite, Nat.mod_eq_of_lt ht,
    Nat.mod_eq_of_lt hf]
  split_ifs with hwrap
  · rw [show lst.tailPlus+xs.length-c+c-lst.tailPlus = xs.length by omega, Nat.mod_eq_of_lt hf]
  · rw [show lst.tailPlus+xs.length+c-lst.tailPlus = xs.length+c by omega, Nat.add_mod_right,
      Nat.mod_eq_of_lt hf]

theorem functorListAdd_holds (h : lst.Holds c xs) (hroom : xs.length+1 < c) (func : α) :
    ∃ lst', functorListAdd lst func = .ok lst' ∧ lst'.Holds c (xs ++ [func]) := by
  have ht := h.tail
  have htmp : (lst.head+1)%lst.capacity = (lst.tailPlus+1+xs.length)%c := by
    rw [h.capacity, h.head, Nat.mod_add_mod]
    congr 1
    omega
  have hfree : (lst.tailPlus+1+xs.length)%c ≠ lst.tailPlus := by
    have hne := ring_index_ne lst.tailPlus (Nat.succ_pos xs.length) hroom
    rw [Nat.add_zero, Nat.mod_eq_of_lt ht] at hne
    rw [show lst.tailPlus+1+xs.length = lst.tailPlus+xs.length.succ by omega]
    exact hne.symm
  have hin : (lst.tailPlus+1+xs.length)%c < lst.list.length := by
    rw [h.length]
    exact (Nat.mod_lt _ (by omega)).trans (Nat.lt_succ_self c)
  refine ⟨{ lst with
      head := (lst.tailPlus+1+xs.length)%c
      list := lst.list.set ((lst.tailPlus+1+xs.length)%c) (some func) }, ?_,
    h.capacity, ?_, ht, ?_, ?_, h.ring.push h.fits (by rw [h.length]; omega) func⟩
  · simp only [functorListAdd, htmp, ne_eq, hfree, not_false_eq_true, decide_true, cAssert_true,
      ok_bind, arrayWrite_ok _ _ _ hin]
  · rw [List.length_set, h.length]
  · simp only [List.length_append, List.length_singleton]
    congr 1
    omega
  · rw [List.length_append, List.length_singleton]
    exact hroom

theorem functorListRemove_holds {func : α} (h : lst.Holds c (func :: xs)) :
    ∃ lst', functorListRemove lst = .ok (func, lst') ∧ lst'.Holds c xs := by
  have hf := h.fits
  rw [List.length_cons] at hf
  have hsize : functorListSize lst ≠ 0 := by
    rw [functorListSize_eq h, List.length_cons]
    omega
  refine ⟨{ lst with tailPlus := (lst.tailPlus+1)%c }, ?_, h.capacity, h.length,
    Nat.mod_lt _ (by omega), ?_, by omega, ?_⟩
  · simp only [functorListRemove, ne_eq, hsize, not_false_eq_true, decide_true, cAssert_true,
      ok_bind, h.capacity, arrayRead_ok _ _ _ h.ring.head]
  · simp only [h.head, List.length_cons, Nat.mod_add_mod]
    congr 1
    omega
  · rw [← ringHolds_mod, Nat.mod_add_mod, ringHolds_mod]
    exact h.ring.tail

end model

end CHttp
