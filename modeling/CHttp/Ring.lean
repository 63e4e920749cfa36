import Mathlib

/-! A queue kept in an array that is used in a circle. Nothing here names a program:
a development says where its array starts and which cells it counts as the circle. -/
namespace CHttp

universe u

variable {α : Type u} {q : List (Option α)} {c first : ℕ} {x : α} {xs : List α}

/-- The cells from `first` on, around a circle of `c` cells, hold `xs`. -/
def RingHolds (q : List (Option α)) (c first : ℕ) (xs : List α) : Prop :=
  ∀ i < xs.length, q[(first+i)%c]? = some xs[i]?

theorem ringHolds_nil : RingHolds q c first [] := by
  intro i hi
  cases hi

/-- Two places less than one turn apart are different cells. -/
theorem ring_index_ne (first : ℕ) {i n : ℕ} (hi : i < n) (hn : n < c) :
    (first+i)%c ≠ (first+n)%c := by
  intro h
  have hmod : i%c = n%c := Nat.ModEq.add_left_cancel' first h
  rw [Nat.mod_eq_of_lt (hi.trans hn), Nat.mod_eq_of_lt hn] at hmod
  omega

/-- Writing behind the last element appends to the queue. -/
theorem RingHolds.push (h : RingHolds q c first xs) (hlen : xs.length < c) (hq : c ≤ q.length)
    (x : α) : RingHolds (q.set ((first+xs.length)%c) (some x)) c first (xs ++ [x]) := by
  intro i hi
  rw [List.length_append, List.length_singleton] at hi
  rcases Nat.lt_succ_iff_lt_or_eq.mp hi with hold | rfl
  · rw [List.getElem?_set_ne (ring_index_ne first hold hlen).symm, List.getElem?_append_left hold,
      h i hold]
  · have hin : (first+xs.length)%c < q.length := (Nat.mod_lt _ (by omega)).trans_le hq
    rw [List.getElem?_set_self hin, List.getElem?_append_right le_rfl, Nat.sub_self]
    rfl

theorem RingHolds.head (h : RingHolds q c first (x :: xs)) : q[first%c]? = some (some x) :=
  h 0 (Nat.zero_lt_succ _)

/-- Moving the start one cell on drops the first element. -/
theorem RingHolds.tail (h : RingHolds q c first (x :: xs)) : RingHolds q c (first+1) xs := by
  intro i hi
  have hnext := h (i+1) (Nat.succ_lt_succ hi)
  rwa [show first+(i+1) = first+1+i by omega, List.getElem?_cons_succ] at hnext

/-- The start counts around the circle only. -/
theorem ringHolds_mod : RingHolds q c (first%c) xs ↔ RingHolds q c first xs := by
  simp only [RingHolds, Nat.mod_add_mod]

end CHttp
