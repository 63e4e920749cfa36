import Mathlib.Data.List.TakeWhile

/-! Deterministic scanners, which read a text symbol by symbol and give up in a dead state,
and texts laid out from labelled pieces. Nothing here names a program. -/
namespace CHttp

universe u v w

section scanner

variable {σ : Type u} {α : Type v} {step : σ → α → σ} {dead : σ}

theorem foldl_dead (hdead : ∀ c, step dead c = dead) (t : List α) : t.foldl step dead = dead := by
  induction t with
  | nil => rfl
  | cons c t ih => rw [List.foldl_cons, hdead, ih]

theorem foldl_stays {s : σ} {w : List α} (hw : ∀ c ∈ w, step s c = s) : w.foldl step s = s := by
  induction w with
  | nil => rfl
  | cons c w ih =>
    rw [List.foldl_cons, hw c (List.mem_cons_self ..)]
    exact ih fun d hd => hw d (List.mem_cons_of_mem c hd)

/-- A symbol of a text that the scanner survives does not kill it. -/
theorem step_ne_dead (hdead : ∀ c, step dead c = dead) {s : σ} {c : α} {r : List α}
    (h : r.foldl step (step s c) ≠ dead) : step s c ≠ dead := by
  intro hc
  rw [hc] at h
  exact h (foldl_dead hdead r)

/-- A text that the scanner survives: it stays in its state to the end, or behind a block on
which it stays a symbol takes it to another state, from which it ends where it would. -/
theorem live_split (hdead : ∀ c, step dead c = dead) {P : α → Prop} {s : σ}
    (hP : ∀ c, step s c = s → P c) {t : List α} (h : t.foldl step s ≠ dead) :
    ((∀ c ∈ t, P c) ∧ t.foldl step s = s) ∨
    ∃ w c r, t = w ++ c :: r ∧ (∀ d ∈ w, P d) ∧ step s c ≠ s ∧ step s c ≠ dead ∧
      r.foldl step (step s c) = t.foldl step s := by
  induction t with
  | nil => exact .inl ⟨nofun, rfl⟩
  | cons c t ih =>
    rw [List.foldl_cons] at h ⊢
    by_cases hc : step s c = s
    · rw [hc] at h ⊢
      have hcons {w : List α} (hw : ∀ d ∈ w, P d) : ∀ d ∈ c :: w, P d := by
        intro d hd
        rcases List.mem_cons.mp hd with rfl | hd
        · exact hP d hc
        · exact hw d hd
      rcases ih h with ⟨hstay, hend⟩ | ⟨w, d, r, rfl, hw, hd, hlive, hend⟩
      · exact .inl ⟨hcons hstay, hend⟩
      · exact .inr ⟨c :: w, d, r, rfl, hcons hw, hd, hlive, hend⟩
    · exact .inr ⟨[], c, t, rfl, nofun, hc, step_ne_dead hdead h, rfl⟩

end scanner

section layout

variable {κ : Type u} {α : Type v}

/-- The text that labelled pieces make; a piece without a label separates. -/
def laidText (ps : List (Option κ × List α)) : List α := ps.flatMap Prod.snd

@[simp] theorem laidText_nil : laidText ([] : List (Option κ × List α)) = [] := rfl

@[simp] theorem laidText_cons (label : Option κ) (w : List α) (ps : List (Option κ × List α)) :
    laidText ((label, w) :: ps) = w ++ laidText ps :=
  List.flatMap_cons

theorem laidText_append (ps qs : List (Option κ × List α)) :
    laidText (ps ++ qs) = laidText ps ++ laidText qs :=
  List.flatMap_append

/-- The labels of the pieces that have one. -/
def labels (ps : List (Option κ × List α)) : List κ := ps.filterMap Prod.fst

@[simp] theorem labels_none (w : List α) (ps : List (Option κ × List α)) :
    labels ((none, w) :: ps) = labels ps :=
  List.filterMap_cons_none rfl

@[simp] theorem labels_some (f : κ) (w : List α) (ps : List (Option κ × List α)) :
    labels ((some f, w) :: ps) = f :: labels ps :=
  List.filterMap_cons_some (f := Prod.fst) (a := (some f, w)) rfl

theorem labels_append (ps qs : List (Option κ × List α)) :
    labels (ps ++ qs) = labels ps ++ labels qs :=
  List.filterMap_append

variable [DecidableEq κ]

/-- Where the first piece with label `f` that is not empty stands, and its length, in a text
that starts at position `p`. -/
def laidSpan (f : κ) (p : ℕ) : List (Option κ × List α) → Option (ℕ × ℕ)
  | [] => none
  | (label, w) :: ps =>
    if label = some f ∧ w.isEmpty = false then some (p, w.length)
    else laidSpan f (p+w.length) ps

/-- The bytes at a span are its piece. -/
theorem slice_of_laidSpan (f : κ) (ps : List (Option κ × List α)) (pre : List α) (p n : ℕ)
    (h : laidSpan f pre.length ps = some (p, n)) :
    ∃ w, (some f, w) ∈ ps ∧ w ≠ [] ∧ n = w.length ∧
      ((pre ++ laidText ps).drop p).take n = w ∧ p+n ≤ (pre ++ laidText ps).length := by
  induction ps generalizing pre with
  | nil => cases h
  | cons piece ps ih =>
    obtain ⟨label, w⟩ := piece
    rw [laidSpan] at h
    split_ifs at h with hfirst
    · obtain ⟨rfl, rfl⟩ := Prod.mk.inj (Option.some.inj h)
      obtain ⟨rfl, hw⟩ := hfirst
      refine ⟨w, List.mem_cons_self .., ?_, rfl, ?_, ?_⟩
      · rintro rfl
        cases hw
      · rw [List.drop_left, laidText_cons, List.take_left]
      · rw [laidText_cons, List.length_append, List.length_append]
        omega
    · rw [← List.length_append] at h
      obtain ⟨v, hmem, hne, hn, hslice, hle⟩ := ih (pre ++ w) h
      rw [laidText_cons, ← List.append_assoc]
      exact ⟨v, List.mem_cons_of_mem _ hmem, hne, hn, hslice, hle⟩

/-- A label has a span when it has a piece that is not empty. -/
theorem laidSpan_isSome (f : κ) (ps : List (Option κ × List α)) (p : ℕ) :
    (laidSpan f p ps).isSome = true ↔ ∃ w, (some f, w) ∈ ps ∧ w ≠ [] := by
  induction ps generalizing p with
  | nil => exact iff_of_false nofun nofun
  | cons piece ps ih =>
    obtain ⟨label, v⟩ := piece
    rw [laidSpan]
    split_ifs with hfirst
    · obtain ⟨rfl, hv⟩ := hfirst
      refine iff_of_true rfl ⟨v, List.mem_cons_self .., ?_⟩
      rintro rfl
      cases hv
    · rw [ih]
      constructor
      · rintro ⟨w, hmem, hw⟩
        exact ⟨w, List.mem_cons_of_mem _ hmem, hw⟩
      · rintro ⟨w, hmem, hw⟩
        rcases List.mem_cons.mp hmem with heq | hmem
        · obtain ⟨rfl, rfl⟩ := Prod.mk.inj heq
          exact absurd ⟨rfl, by simpa using hw⟩ hfirst
        · exact ⟨w, hmem, hw⟩

omit [DecidableEq κ] in
theorem mem_labels {f : κ} {w : List α} {ps : List (Option κ × List α)} (h : (some f, w) ∈ ps) :
    f ∈ labels ps :=
  List.mem_filterMap.mpr ⟨_, h, rfl⟩

omit [DecidableEq κ] in
/-- Where no label is used twice, each has one piece. -/
theorem piece_unique {f : κ} {w v : List α} {ps : List (Option κ × List α)}
    (h : (labels ps).Nodup) (hw : (some f, w) ∈ ps) (hv : (some f, v) ∈ ps) : w = v := by
  induction ps with
  | nil => cases hw
  | cons piece ps ih =>
    obtain ⟨label, x⟩ := piece
    cases label with
    | none =>
      rw [List.mem_cons] at hw hv
      exact ih h (hw.resolve_left nofun) (hv.resolve_left nofun)
    | some g =>
      rw [labels_some, List.nodup_cons] at h
      rcases List.mem_cons.mp hw with hw | hw <;> rcases List.mem_cons.mp hv with hv | hv
      · rw [(Prod.mk.inj hw).2, (Prod.mk.inj hv).2]
      · rw [← Option.some.inj (Prod.mk.inj hw).1] at h
        exact absurd (mem_labels hv) h.1
      · rw [← Option.some.inj (Prod.mk.inj hv).1] at h
        exact absurd (mem_labels hw) h.1
      · exact ih h.2 hw hv

/-- The span of a piece that is not empty, and what stands there. -/
theorem laidSpan_of_mem {f : κ} {w : List α} {ps : List (Option κ × List α)}
    (h : (labels ps).Nodup) (hmem : (some f, w) ∈ ps) (hw : w ≠ []) :
    ∃ p, laidSpan f 0 ps = some (p, w.length) ∧ ((laidText ps).drop p).take w.length = w ∧
      p+w.length ≤ (laidText ps).length := by
  obtain ⟨⟨p, n⟩, hspan⟩ := Option.isSome_iff_exists.mp
    ((laidSpan_isSome f ps 0).mpr ⟨w, hmem, hw⟩)
  obtain ⟨v, hv, -, hn, hslice, hle⟩ := slice_of_laidSpan f ps [] p n hspan
  obtain rfl := piece_unique h hmem hv
  rw [hn] at hspan hslice hle
  exact ⟨p, hspan, hslice, hle⟩

theorem laidSpan_append (f : κ) (ps qs : List (Option κ × List α)) (p : ℕ) :
    laidSpan f p (ps ++ qs) =
      (laidSpan f p ps).or (laidSpan f (p+(laidText ps).length) qs) := by
  induction ps generalizing p with
  | nil => rfl
  | cons piece ps ih =>
    obtain ⟨label, w⟩ := piece
    rw [List.cons_append, laidSpan, laidSpan]
    split_ifs
    · rfl
    · rw [ih, laidText_cons, List.length_append, Nat.add_assoc]

theorem laidSpan_of_not_mem (f : κ) (ps : List (Option κ × List α)) (p : ℕ)
    (h : f ∉ labels ps) : laidSpan f p ps = none := by
  induction ps generalizing p with
  | nil => rfl
  | cons piece ps ih =>
    obtain ⟨label, w⟩ := piece
    cases label with
    | none =>
      rw [laidSpan, if_neg (fun hfirst => nomatch hfirst.1)]
      exact ih _ h
    | some g =>
      rw [labels_some, List.mem_cons, not_or] at h
      rw [laidSpan, if_neg (fun hfirst => h.1 (Option.some.inj hfirst.1).symm)]
      exact ih _ h.2

end layout

section labelled

variable {σ : Type u} {α : Type v} {κ : Type w} (step : σ → α → σ) (label : σ → Option (Option κ))

/-- Every state that the text enters has label `l`. A state without a label stops the scanner. -/
def Visits (l : Option κ) : σ → List α → Prop
  | _, [] => True
  | s, c :: w => label (step s c) = some l ∧ Visits l (step s c) w

/-- The states that the scanner enters have the labels of the pieces. -/
def Drives : σ → List (Option κ × List α) → Prop
  | _, [] => True
  | s, (l, w) :: ps => Visits step label l s w ∧ Drives (w.foldl step s) ps

variable {step label}

theorem drives_append {s : σ} {ps qs : List (Option κ × List α)} (hps : Drives step label s ps)
    (hqs : Drives step label ((laidText ps).foldl step s) qs) :
    Drives step label s (ps ++ qs) := by
  induction ps generalizing s with
  | nil => exact hqs
  | cons piece ps ih =>
    obtain ⟨l, w⟩ := piece
    refine ⟨hps.1, ih hps.2 ?_⟩
    rw [laidText_cons, List.foldl_append] at hqs
    exact hqs

/-- A block enters one state and stays in it. -/
theorem visits_of_stays {s t : σ} {l : Option κ} {w : List α} (hfirst : ∀ c ∈ w, step s c = t)
    (hmore : ∀ c ∈ w, step t c = t) (hl : label t = some l) : Visits step label l s w := by
  induction w generalizing s with
  | nil => trivial
  | cons c w ih =>
    have hc := hfirst c (List.mem_cons_self ..)
    have htail := fun d hd => hmore d (List.mem_cons_of_mem c hd)
    rw [Visits, hc]
    exact ⟨hl, ih htail htail⟩

theorem foldl_of_stays {s t : σ} {w : List α} (hne : w ≠ []) (hfirst : ∀ c ∈ w, step s c = t)
    (hmore : ∀ c ∈ w, step t c = t) : w.foldl step s = t := by
  cases w with
  | nil => exact absurd rfl hne
  | cons c w =>
    rw [List.foldl_cons, hfirst c (List.mem_cons_self ..)]
    exact foldl_stays fun d hd => hmore d (List.mem_cons_of_mem c hd)

theorem visits_append {s : σ} {l : Option κ} {w r : List α} (hw : Visits step label l s w)
    (hr : Visits step label l (w.foldl step s) r) : Visits step label l s (w ++ r) := by
  induction w generalizing s with
  | nil => exact hr
  | cons c w ih => exact ⟨hw.1, ih hw.2 hr⟩

theorem label_foldl {s : σ} {l : Option κ} {w : List α} (hw : w ≠ [])
    (h : Visits step label l s w) : label (w.foldl step s) = some l := by
  induction w generalizing s with
  | nil => exact absurd rfl hw
  | cons c w ih =>
    by_cases hmore : w = []
    · rw [hmore]
      exact h.1
    · exact ih hmore h.2

/-- A scanner that is driven over pieces does not die. -/
theorem drives_live {dead : σ} (hdead : label dead = none) {s : σ} (hs : s ≠ dead)
    {ps : List (Option κ × List α)} (h : Drives step label s ps) :
    (laidText ps).foldl step s ≠ dead := by
  induction ps generalizing s with
  | nil => exact hs
  | cons piece ps ih =>
    obtain ⟨l, w⟩ := piece
    rw [laidText_cons, List.foldl_append]
    refine ih ?_ h.2
    intro hend
    by_cases hw : w = []
    · rw [hw] at hend
      exact hs hend
    · have hlabel := label_foldl hw h.1
      rw [hend, hdead] at hlabel
      cases hlabel

end labelled

end CHttp
