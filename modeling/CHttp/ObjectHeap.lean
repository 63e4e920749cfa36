import Mathlib.Algebra.Order.Group.Multiset
import Mathlib.Data.Finset.Insert
import Mathlib.Data.Finset.Erase
import Mathlib.Tactic.Abel

/-! A heap of objects without contents: which have been allocated and not yet freed.
What is in use is compared with sums of multisets, one summand for each owner. -/
namespace CHttp

/-- An object, by its kind and the number of its allocation. -/
structure Object (κ : Type) where
  kind : κ
  id : ℕ
  deriving DecidableEq, Repr

/-- The objects in use, and the number the next one gets. -/
structure ObjectHeap (κ : Type) where
  next : ℕ
  live : Finset (Object κ)
  below : ∀ o ∈ live, o.id < next

namespace ObjectHeap

variable {κ φ : Type}

/-- The objects in use are those of `s`, each once. -/
def Holds (h : ObjectHeap κ) (s : Multiset (Object κ)) : Prop := h.live.val = s

theorem Holds.congr {h : ObjectHeap κ} {s t : Multiset (Object κ)} (hs : h.Holds s)
    (e : s = t) : h.Holds t := hs.trans e

theorem below_empty : ∀ o ∈ (∅ : Finset (Object κ)), o.id < 0 :=
  fun o ho => absurd ho (Finset.notMem_empty o)

def empty : ObjectHeap κ := ⟨0, ∅, below_empty⟩

variable [DecidableEq κ]

theorem below_insert (h : ObjectHeap κ) (kind : κ) :
    ∀ o ∈ insert ⟨kind, h.next⟩ h.live, o.id < h.next+1 := by
  intro o ho
  rcases Finset.mem_insert.mp ho with rfl | ho
  · exact Nat.lt_succ_self _
  · exact (h.below o ho).trans (Nat.lt_succ_self _)

theorem below_erase (h : ObjectHeap κ) (o : Object κ) : ∀ x ∈ h.live.erase o, x.id < h.next :=
  fun x hx => h.below x (Finset.mem_of_mem_erase hx)

def alloc (h : ObjectHeap κ) (kind : κ) : Object κ × ObjectHeap κ :=
  (⟨kind, h.next⟩, ⟨h.next+1, insert ⟨kind, h.next⟩ h.live, h.below_insert kind⟩)

/-- Freeing what is not in use is a fault. -/
def free (fault : φ) (h : ObjectHeap κ) (o : Object κ) : Except φ (ObjectHeap κ) :=
  if o ∈ h.live then .ok ⟨h.next, h.live.erase o, h.below_erase o⟩ else .error fault

def freeAll (fault : φ) (h : ObjectHeap κ) (os : List (Object κ)) : Except φ (ObjectHeap κ) :=
  os.foldlM (free fault) h

/-- An allocated object is new. -/
theorem Holds.alloc {h : ObjectHeap κ} {s : Multiset (Object κ)} (hs : h.Holds s) (kind : κ) :
    (h.alloc kind).2.Holds (s+{(h.alloc kind).1}) := by
  have hnew : (⟨kind, h.next⟩ : Object κ) ∉ h.live := fun hmem => (h.below _ hmem).false
  have hval := Finset.insert_val_of_notMem hnew
  rw [hs, ← Multiset.singleton_add, add_comm] at hval
  exact hval

theorem Holds.free {h : ObjectHeap κ} {s : Multiset (Object κ)} {o : Object κ}
    (hs : h.Holds (s+{o})) (fault : φ) : ∃ t, h.free fault o = .ok t ∧ t.Holds s := by
  have hmem : o ∈ h.live := by
    rw [← Finset.mem_val, hs]
    exact Multiset.mem_add.mpr (Or.inr (Multiset.mem_singleton_self o))
  refine ⟨_, if_pos hmem, ?_⟩
  rw [Holds, Finset.erase_val, hs, add_comm, Multiset.singleton_add, Multiset.erase_cons_head]

theorem Holds.freeAll {h : ObjectHeap κ} {s : Multiset (Object κ)} {os : List (Object κ)}
    (hs : h.Holds (s+os)) (fault : φ) : ∃ t, h.freeAll fault os = .ok t ∧ t.Holds s := by
  induction os generalizing h with
  | nil => exact ⟨h, rfl, hs.congr (add_zero s)⟩
  | cons o os ih =>
    have hcons : s+↑(o :: os) = s+↑os+{o} := by
      rw [← Multiset.cons_coe, ← Multiset.singleton_add]
      abel
    obtain ⟨t, hfree, ht⟩ := (hs.congr hcons).free fault
    obtain ⟨u, hrest, hu⟩ := ih ht
    refine ⟨u, ?_, hu⟩
    rw [ObjectHeap.freeAll, List.foldlM_cons, hfree]
    exact hrest

end ObjectHeap

end CHttp
