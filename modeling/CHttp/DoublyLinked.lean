import Mathlib

/-! Doubly linked nodes in a store. A segment is a list of nodes that point at each other
and, at its two ends, at what lies outside; a list is a segment between two null pointers.
Nothing here names a program: a development supplies the addresses and the items. -/
namespace CHttp

universe u v

structure Link (α : Type u) (β : Type v) where
  forward : Option α
  backward : Option α
  item : β
  deriving DecidableEq, Repr

namespace Link

variable {α : Type u} {β : Type v}

/-- The first address of a segment, or what follows it if it is empty. -/
def first : List (α × β) → Option α → Option α
  | [], next => next
  | (a, _) :: _, _ => some a

/-- The last address of a segment, or what precedes it if it is empty. -/
def last : List (α × β) → Option α → Option α
  | [], prev => prev
  | (a, _) :: xs, _ => last xs (some a)

/-- The nodes of `xs` point at each other, the first one back at `prev` and the last one
on to `next`. -/
def Segment (nodes : α → Option (Link α β)) : Option α → List (α × β) → Option α → Prop
  | _, [], _ => True
  | prev, (a, x) :: xs, next =>
    nodes a = some ⟨first xs next, prev, x⟩ ∧ Segment nodes (some a) xs next

/-- Going along one of the two pointers from `p` visits exactly `xs`, and ends in null. -/
def Follows (nodes : α → Option (Link α β)) (link : Link α β → Option α) :
    Option α → List (α × β) → Prop
  | p, [] => p = none
  | p, (a, x) :: xs =>
    p = some a ∧ ∃ node, nodes a = some node ∧ node.item = x ∧ Follows nodes link (link node) xs

theorem first_append (xs ys : List (α × β)) (next : Option α) :
    first (xs ++ ys) next = first xs (first ys next) := by
  cases xs with
  | nil => rfl
  | cons e xs => rfl

theorem last_append (xs ys : List (α × β)) (prev : Option α) :
    last (xs ++ ys) prev = last ys (last xs prev) := by
  induction xs generalizing prev with
  | nil => rfl
  | cons e xs ih => exact ih (some e.1)

/-- A list that is not empty begins where its first part begins. -/
theorem first_append_of_ne_nil {xs : List (α × β)} (hxs : xs ≠ []) (ys : List (α × β))
    (next next' : Option α) : first (xs ++ ys) next = first xs next' := by
  cases xs with
  | nil => exact absurd rfl hxs
  | cons e xs => rfl

theorem first_ne {xs : List (α × β)} (hxs : xs ≠ []) {a : α} (ha : a ∉ xs.map Prod.fst)
    (next : Option α) : first xs next ≠ some a := by
  cases xs with
  | nil => exact absurd rfl hxs
  | cons e xs =>
    intro heq
    obtain rfl := Option.some.inj heq
    exact ha List.mem_cons_self

theorem last_ne {xs : List (α × β)} (hxs : xs ≠ []) {a : α} (ha : a ∉ xs.map Prod.fst)
    (prev : Option α) : last xs prev ≠ some a := by
  rcases List.eq_nil_or_concat xs with rfl | ⟨xs, e, rfl⟩
  · exact absurd rfl hxs
  · intro heq
    rw [List.concat_eq_append, last_append] at heq
    obtain rfl := Option.some.inj heq
    exact ha (by simp)

theorem first_eq_none_iff (xs : List (α × β)) : first xs none = none ↔ xs = [] := by
  cases xs with
  | nil => simp [first]
  | cons e xs => simp [first]

theorem last_eq_none_iff (xs : List (α × β)) : last xs none = none ↔ xs = [] := by
  rcases List.eq_nil_or_concat xs with rfl | ⟨xs, e, rfl⟩
  · simp [last]
  · simp [last_append, last]

section segment

variable {nodes nodes' : α → Option (Link α β)} {prev next : Option α} {xs ys : List (α × β)}

theorem segment_append :
    Segment nodes prev (xs ++ ys) next ↔
      Segment nodes prev xs (first ys next) ∧ Segment nodes (last xs prev) ys next := by
  induction xs generalizing prev with
  | nil => simp [Segment, last]
  | cons e xs ih =>
    rw [List.cons_append, Segment, Segment, ih, first_append, last, and_assoc]

/-- A segment only depends on its own nodes. -/
theorem Segment.congr (h : Segment nodes prev xs next)
    (hsame : ∀ a ∈ xs.map Prod.fst, nodes' a = nodes a) : Segment nodes' prev xs next := by
  induction xs generalizing prev with
  | nil => trivial
  | cons e xs ih =>
    refine ⟨?_, ih h.2 fun a ha => hsame a (List.mem_cons_of_mem _ ha)⟩
    rw [hsame e.1 List.mem_cons_self]
    exact h.1

theorem Segment.follows_forward (h : Segment nodes prev xs none) :
    Follows nodes forward (first xs none) xs := by
  induction xs generalizing prev with
  | nil => rfl
  | cons e xs ih => exact ⟨rfl, _, h.1, rfl, ih h.2⟩

theorem Segment.follows_backward (h : Segment nodes none xs next) :
    Follows nodes backward (last xs none) xs.reverse := by
  induction xs using List.reverseRecOn generalizing next with
  | nil => rfl
  | append_singleton xs e ih =>
    rw [segment_append] at h
    rw [last_append, List.reverse_append]
    exact ⟨rfl, _, h.2.1, rfl, ih h.1⟩

/-- The node at an address of the segment. -/
theorem Segment.mem (h : Segment nodes prev xs next) {a : α} (ha : a ∈ xs.map Prod.fst) :
    ∃ node, nodes a = some node := by
  induction xs generalizing prev with
  | nil => cases ha
  | cons e xs ih =>
    rcases List.mem_cons.mp ha with rfl | ha
    · exact ⟨_, h.1⟩
    · exact ih h.2 ha

variable [DecidableEq α] {a : α} {x : β} {q : Option α}

theorem Segment.update_other (h : Segment nodes prev xs next) (ha : a ∉ xs.map Prod.fst)
    (node : Option (Link α β)) : Segment (Function.update nodes a node) prev xs next := by
  refine h.congr fun b hb => Function.update_of_ne ?_ _ _
  rintro rfl
  exact ha hb

/-- The first node of a segment is given another predecessor. -/
theorem Segment.set_first (h : Segment nodes prev ((a, x) :: xs) next)
    (ha : a ∉ xs.map Prod.fst) :
    Segment (Function.update nodes a (some ⟨first xs next, q, x⟩)) q ((a, x) :: xs) next :=
  ⟨Function.update_self _ _ _, h.2.update_other ha _⟩

/-- The last node of a segment is given another successor. -/
theorem Segment.set_last (h : Segment nodes prev (xs ++ [(a, x)]) next)
    (ha : a ∉ xs.map Prod.fst) :
    Segment (Function.update nodes a (some ⟨q, last xs prev, x⟩)) prev (xs ++ [(a, x)]) q := by
  rw [segment_append] at h ⊢
  exact ⟨h.1.update_other ha _, Function.update_self _ _ _, trivial⟩

end segment

end Link

end CHttp
