import CHttp.Runs

/-! A sequence cut at its separators: the pieces that a separator ends, the piece that is
still open, and how both grow as the sequence does. Nothing here names a program. -/
namespace CHttp

universe u

section pieces

variable {α : Type u} (p : α → Bool)

/-- The pieces ended by a separator. -/
def completePieces (l : List α) : List (List α) := (l.splitOnP p).dropLast

/-- What follows the last separator. -/
def lastPiece (l : List α) : List α := (l.splitOnP p).getLast (List.splitOnP_ne_nil p l)

theorem splitOnP_eq_pieces (l : List α) : l.splitOnP p = completePieces p l ++ [lastPiece p l] :=
  (List.dropLast_append_getLast (List.splitOnP_ne_nil p l)).symm

@[simp] theorem completePieces_nil : completePieces p [] = [] := rfl

@[simp] theorem lastPiece_nil : lastPiece p [] = [] := rfl

/-- The pieces are what the sequence splits into. -/
theorem pieces_unique {l : List α} (pieces : List (List α)) (last : List α)
    (h : l.splitOnP p = pieces ++ [last]) :
    completePieces p l = pieces ∧ lastPiece p l = last := by
  rw [splitOnP_eq_pieces] at h
  obtain ⟨hpieces, hlast⟩ := List.append_inj' h rfl
  exact ⟨hpieces, (List.cons.inj hlast).1⟩

/-- Without a separator there is one piece, and it is open. -/
theorem pieces_of_free {l : List α} (h : ∀ a ∈ l, p a = false) :
    completePieces p l = [] ∧ lastPiece p l = l :=
  pieces_unique p [] l (List.splitOnP_eq_singleton h)

/-- An element that is not a separator extends the open piece. -/
theorem splitOnP_snoc (l : List α) (a : α) (ha : p a = false) :
    (l ++ [a]).splitOnP p = completePieces p l ++ [lastPiece p l ++ [a]] := by
  induction l with
  | nil => simp [List.splitOnP_cons_eq_if_modifyHead, ha]
  | cons x l ih =>
    have hcons := List.splitOnP_cons_eq_if_modifyHead (p := p) x l
    rw [splitOnP_eq_pieces p l] at hcons
    rw [List.cons_append, List.splitOnP_cons_eq_if_modifyHead, ih]
    by_cases hx : p x = true
    · rw [if_pos hx, ← List.cons_append] at hcons
      obtain ⟨hpieces, hlast⟩ := pieces_unique p _ _ hcons
      rw [if_pos hx, hpieces, hlast, List.cons_append]
    · rw [if_neg hx] at hcons ⊢
      cases hp : completePieces p l with
      | nil =>
        rw [hp] at hcons
        obtain ⟨hpieces, hlast⟩ := pieces_unique p [] _ hcons
        rw [hpieces, hlast]
        rfl
      | cons y pieces =>
        rw [hp] at hcons
        obtain ⟨hpieces, hlast⟩ := pieces_unique p ((x :: y) :: pieces) _ hcons
        rw [hpieces, hlast]
        rfl

theorem completePieces_snoc (l : List α) (a : α) :
    completePieces p (l ++ [a]) =
      if p a then completePieces p l ++ [lastPiece p l] else completePieces p l := by
  split_ifs with ha
  · refine (pieces_unique p _ [] ?_).1
    rw [List.splitOnP_append_cons l [] ha, splitOnP_eq_pieces, List.splitOnP_nil]
  · exact (pieces_unique p _ _ (splitOnP_snoc p l a (Bool.eq_false_of_not_eq_true ha))).1

theorem lastPiece_snoc (l : List α) (a : α) :
    lastPiece p (l ++ [a]) = if p a then [] else lastPiece p l ++ [a] := by
  split_ifs with ha
  · refine (pieces_unique p (completePieces p l ++ [lastPiece p l]) [] ?_).2
    rw [List.splitOnP_append_cons l [] ha, splitOnP_eq_pieces, List.splitOnP_nil]
  · exact (pieces_unique p _ _ (splitOnP_snoc p l a (Bool.eq_false_of_not_eq_true ha))).2

/-- A complete piece stays as more of the sequence comes. -/
theorem completePieces_append (l m : List α) :
    completePieces p l <+: completePieces p (l ++ m) := by
  induction m using List.reverseRecOn with
  | nil => rw [List.append_nil]
  | append_singleton m a ih =>
    rw [← List.append_assoc, completePieces_snoc]
    split_ifs
    · exact ih.trans (List.prefix_append _ _)
    · exact ih

/-- The open piece is the start of a piece of the longer sequence. -/
theorem lastPiece_append (l m : List α) :
    (∃ piece ∈ completePieces p (l ++ m), lastPiece p l <+: piece) ∨
      lastPiece p l <+: lastPiece p (l ++ m) := by
  induction m using List.reverseRecOn with
  | nil =>
    right
    rw [List.append_nil]
  | append_singleton m a ih =>
    rw [← List.append_assoc, completePieces_snoc, lastPiece_snoc]
    rcases ih with ⟨piece, hmem, hpiece⟩ | hopen
    · left
      refine ⟨piece, ?_, hpiece⟩
      split_ifs
      · exact List.mem_append_left _ hmem
      · exact hmem
    · split_ifs
      · left
        exact ⟨_, List.mem_append_right _ (List.mem_singleton.mpr rfl), hopen⟩
      · right
        exact hopen.trans (List.prefix_append _ _)

/-- No piece contains a separator. -/
theorem pieces_free (l : List α) :
    (∀ piece ∈ completePieces p l, ∀ a ∈ piece, p a = false) ∧
      ∀ a ∈ lastPiece p l, p a = false := by
  induction l using List.reverseRecOn with
  | nil => exact ⟨nofun, nofun⟩
  | append_singleton l a ih =>
    obtain ⟨hpieces, hlast⟩ := ih
    rw [completePieces_snoc, lastPiece_snoc]
    split_ifs with ha
    · refine ⟨fun piece hmem => ?_, nofun⟩
      rcases List.mem_append.mp hmem with hold | hnew
      · exact hpieces piece hold
      · rw [List.mem_singleton.mp hnew]
        exact hlast
    · refine ⟨hpieces, fun b hmem => ?_⟩
      rcases List.mem_append.mp hmem with hold | hnew
      · exact hlast b hold
      · rw [List.mem_singleton.mp hnew]
        exact Bool.eq_false_of_not_eq_true ha

/-- One piece for each separator. -/
theorem length_completePieces (l : List α) : (completePieces p l).length = l.countP p := by
  induction l using List.reverseRecOn with
  | nil => rfl
  | append_singleton l a ih =>
    rw [completePieces_snoc, List.countP_append, List.countP_singleton]
    split_ifs
    · rw [List.length_append, List.length_singleton, ih]
    · exact ih

/-- Pieces written one after another, each with a separator, are the pieces read back. -/
theorem splitOnP_flatMap_snoc (pieces : List (List α)) (sep : α) (hsep : p sep = true)
    (hfree : ∀ piece ∈ pieces, ∀ a ∈ piece, p a = false) :
    (pieces.flatMap (· ++ [sep])).splitOnP p = pieces ++ [[]] := by
  induction pieces with
  | nil => rfl
  | cons piece pieces ih =>
    rw [List.forall_mem_cons] at hfree
    rw [List.flatMap_cons, List.append_assoc, List.singleton_append,
      List.splitOnP_append_cons piece _ hsep, List.splitOnP_eq_singleton hfree.1, ih hfree.2,
      List.singleton_append, List.cons_append]

end pieces

end CHttp
