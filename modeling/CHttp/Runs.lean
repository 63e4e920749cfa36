import Mathlib

/-! Runs of a machine whose steps may fault, and folds of a fallible step.
Nothing here names a program: a development supplies the states, the events
and the faults, and takes its run lemmas from the rules below. -/
namespace CHttp

universe u v w x

@[simp] theorem ok_bind {φ : Type u} {α β : Type v} (a : α) (f : α → Except φ β) :
    (Except.ok a >>= f) = f a := rfl

@[simp] theorem error_bind {φ : Type u} {α β : Type v} (e : φ) (f : α → Except φ β) :
    ((Except.error e : Except φ α) >>= f) = Except.error e := rfl

/-- A computation that ends well went well in its first part. -/
theorem bind_eq_ok {φ : Type u} {α β : Type v} (x : Except φ α) (f : α → Except φ β) (b : β) :
    (x >>= f) = .ok b ↔ ∃ a, x = .ok a ∧ f a = .ok b := by
  cases x with
  | error e => simp
  | ok a => simp

theorem map_eq_ok {φ : Type u} {α β : Type v} (f : α → β) (x : Except φ α) (b : β) :
    f <$> x = .ok b ↔ ∃ a, x = .ok a ∧ f a = b := by
  cases x with
  | error e => simp
  | ok a => simp

/-- A computation ends well exactly under the condition `a`, and then with `Q`. -/
structure OkIff {φ : Type u} {α : Type v} (x : Except φ α) (Q : α → Prop) (a : Prop) : Prop where
  iff : (∃ r, x = .ok r) ↔ a
  result : ∀ r, x = .ok r → Q r

section okIff

variable {φ : Type u} {α : Type v} {x : Except φ α} {Q : α → Prop} {a : Prop}

theorem OkIff.of_ok {r : α} (hx : x = .ok r) (hr : Q r) (ha : a) : OkIff x Q a := by
  refine ⟨iff_of_true ⟨r, hx⟩ ha, fun r' hx' => ?_⟩
  obtain rfl := Except.ok.inj (hx.symm.trans hx')
  exact hr

theorem OkIff.of_faults (hx : ∀ r, x ≠ .ok r) (ha : ¬a) : OkIff x Q a :=
  ⟨iff_of_false (fun ⟨r, hr⟩ => hx r hr) ha, fun r hr => absurd hr (hx r)⟩

theorem OkIff.of_error {e : φ} (hx : x = .error e) (ha : ¬a) : OkIff x Q a := by
  refine .of_faults (fun r hr => ?_) ha
  cases hx.symm.trans hr

theorem OkIff.congr {b : Prop} (h : OkIff x Q a) (hab : a ↔ b) : OkIff x Q b :=
  ⟨h.iff.trans hab, h.result⟩

theorem OkIff.imp {P : α → Prop} (h : OkIff x Q a) (hP : ∀ r, Q r → P r) : OkIff x P a :=
  ⟨h.iff, fun r hx => hP r (h.result r hx)⟩

/-- What follows the computation without a fault leaves the condition as it is. -/
theorem OkIff.bind {β : Type v} {P : β → Prop} (h : OkIff x Q a) (f : α → β)
    (hf : ∀ r, Q r → P (f r)) : OkIff (x >>= fun r => .ok (f r)) P a := by
  cases hx : x with
  | error e => exact .of_error rfl (h.iff.not.mp (by rw [hx]; rintro ⟨r, hr⟩; cases hr))
  | ok r => exact .of_ok rfl (hf r (h.result r hx)) (h.iff.mp ⟨r, hx⟩)

/-- Two computations in a row end well exactly under both conditions. -/
theorem OkIff.andThen {β : Type v} {P : β → Prop} {b : Prop} {f : α → Except φ β} (h : OkIff x Q a)
    (hf : ∀ r, Q r → OkIff (f r) P b) : OkIff (x >>= f) P (a ∧ b) := by
  cases hx : x with
  | error e =>
    refine .of_error rfl fun hab => ?_
    obtain ⟨r, hr⟩ := h.iff.mpr hab.1
    cases hx.symm.trans hr
  | ok r =>
    have hr := hf r (h.result r hx)
    have ha : a := h.iff.mp ⟨r, hx⟩
    exact hr.congr ⟨fun hb => ⟨ha, hb⟩, fun hab => hab.2⟩

end okIff

/-- A fold continues from the state its prefix ended in. -/
theorem foldlM_append_ok {φ : Type u} {σ ε : Type v} (f : σ → ε → Except φ σ) (s t : σ)
    (xs ys : List ε) (h : xs.foldlM f s = .ok t) :
    (xs ++ ys).foldlM f s = ys.foldlM f t := by
  rw [List.foldlM_append, h, ok_bind]

/-- A fold whose steps only touch one component of the state is a fold over
that component. -/
theorem foldlM_component {φ : Type u} {σ β ε : Type v} (f : σ → ε → Except φ σ)
    (g : β → ε → Except φ β) (put : β → σ)
    (h : ∀ b x, f (put b) x = g b x >>= fun b' => .ok (put b')) (b : β) (xs : List ε) :
    xs.foldlM f (put b) = xs.foldlM g b >>= fun b' => .ok (put b') := by
  induction xs generalizing b with
  | nil => rfl
  | cons x xs ih =>
    rw [List.foldlM_cons, List.foldlM_cons, h]
    cases g b x with
    | error e => rfl
    | ok b' => exact ih b'

/-- Two computations end together: with related results, or with the same fault. -/
def EndTogether {φ : Type u} {α : Type v} {β : Type w} (R : α → β → Prop) :
    Except φ α → Except φ β → Prop
  | .ok a, .ok b => R a b
  | .error e, .error f => e = f
  | .ok _, .error _ | .error _, .ok _ => False

/-- Folds of steps that end together end together. -/
theorem EndTogether.foldlM {φ : Type u} {α β ε : Type v} {R : α → β → Prop} {f : α → ε → Except φ α}
    {g : β → ε → Except φ β} (h : ∀ a b x, R a b → EndTogether R (f a x) (g b x)) {a : α} {b : β}
    (hab : R a b) (xs : List ε) : EndTogether R (xs.foldlM f a) (xs.foldlM g b) := by
  induction xs generalizing a b with
  | nil => exact hab
  | cons x xs ih =>
    have hstep := h a b x hab
    rw [List.foldlM_cons, List.foldlM_cons]
    cases hf : f a x with
    | error e =>
      cases hg : g b x with
      | error e' =>
        rw [hf, hg] at hstep
        exact hstep
      | ok b' =>
        rw [hf, hg] at hstep
        exact hstep.elim
    | ok a' =>
      cases hg : g b x with
      | error e' =>
        rw [hf, hg] at hstep
        exact hstep.elim
      | ok b' =>
        rw [hf, hg] at hstep
        exact ih hstep

theorem nodup_snoc {α : Type u} {l : List α} {a : α} (hl : l.Nodup) (ha : a ∉ l) :
    (l ++ [a]).Nodup := by
  rw [← List.concat_eq_append]
  exact hl.concat ha

/-- States, the events that may happen in them, and what an event does. -/
structure Machine (σ : Type u) (ε : Type v) (φ : Type w) where
  enabled : σ → ε → Prop
  exec : σ → ε → Except φ σ

namespace Machine

variable {σ : Type u} {ε : Type v} {φ : Type w} (M : Machine σ ε φ)

/-- A run performs enabled events, none of which faults. -/
inductive Run : σ → List ε → σ → Prop where
  | nil (s : σ) : Run s [] s
  | cons {s t u : σ} {e : ε} {es : List ε} (he : M.enabled s e) (hx : M.exec s e = .ok t)
      (hr : Run t es u) : Run s (e :: es) u

variable {M}

theorem Run.append {s t u : σ} {es fs : List ε} (h : M.Run s es t) (h' : M.Run t fs u) :
    M.Run s (es ++ fs) u := by
  induction h with
  | nil s => exact h'
  | cons he hx _ ih => exact .cons he hx (ih h')

/-- A run over a concatenation passes through a state between the two parts. -/
theorem Run.split {s u : σ} {es fs : List ε} (h : M.Run s (es ++ fs) u) :
    ∃ t, M.Run s es t ∧ M.Run t fs u := by
  induction es generalizing s with
  | nil => exact ⟨s, .nil s, h⟩
  | cons e es ih =>
    cases h with
    | cons he hx hr =>
      obtain ⟨t, ht, hu⟩ := ih hr
      exact ⟨t, .cons he hx ht, hu⟩

/-- What every allowed step preserves, every run of allowed steps preserves. -/
theorem Run.invariant {I : σ → Prop} {A : ε → Prop} {s t : σ} {es : List ε}
    (hstep : ∀ s e t, I s → A e → M.enabled s e → M.exec s e = .ok t → I t)
    (h : M.Run s es t) (hs : I s) (ha : ∀ e ∈ es, A e) : I t := by
  induction h with
  | nil s => exact hs
  | cons he hx _ ih =>
    exact ih (hstep _ _ _ hs (ha _ List.mem_cons_self) he hx)
      (fun e hm => ha e (List.mem_cons_of_mem _ hm))

/-- What every step preserves, every run preserves. -/
theorem Run.keeps {I : σ → Prop} {s t : σ} {es : List ε}
    (hstep : ∀ s e t, I s → M.enabled s e → M.exec s e = .ok t → I t)
    (h : M.Run s es t) (hs : I s) : I t :=
  h.invariant (A := fun _ => True) (fun s e t hi _ he hx => hstep s e t hi he hx) hs
    (fun _ _ => trivial)

/-- If every event that may happen goes through and keeps `I`, every run keeps it. -/
theorem Run.keeps_of_total {I : σ → Prop} {s t : σ} {es : List ε}
    (hstep : ∀ s e, I s → M.enabled s e → ∃ t, M.exec s e = .ok t ∧ I t)
    (h : M.Run s es t) (hs : I s) : I t := by
  refine h.keeps ?_ hs
  intro s e t hs he hx
  obtain ⟨t', hx', ht'⟩ := hstep s e hs he
  obtain rfl := Except.ok.inj (hx.symm.trans hx')
  exact ht'

/-- A model that takes the same events keeps to the state of a run. -/
theorem Run.models {μ : Type x} {R : μ → σ → Prop} {next : μ → ε → μ}
    (hstep : ∀ m s e t, R m s → M.enabled s e → M.exec s e = .ok t → R (next m e) t) {s t : σ}
    {es : List ε} (h : M.Run s es t) {m : μ} (hm : R m s) : R (es.foldl next m) t := by
  induction h generalizing m with
  | nil => exact hm
  | cons he hx _ ih => exact ih (hstep _ _ _ _ hm he hx)

/-- The same machine, taking only those steps that meet a condition. -/
def restrict (M : Machine σ ε φ) (A : σ → ε → Prop) : Machine σ ε φ where
  enabled s e := M.enabled s e ∧ A s e
  exec := M.exec

instance (M : Machine σ ε φ) (A : σ → ε → Prop) (s : σ) (e : ε) [Decidable (M.enabled s e)]
    [Decidable (A s e)] : Decidable ((M.restrict A).enabled s e) :=
  inferInstanceAs (Decidable (M.enabled s e ∧ A s e))

theorem Run.of_restrict {A : σ → ε → Prop} {s t : σ} {es : List ε}
    (h : (M.restrict A).Run s es t) : M.Run s es t := by
  induction h with
  | nil s => exact .nil s
  | cons he hx _ ih => exact .cons he.1 hx ih

/-- `P` holds in every state that a run passes through. -/
def Always (M : Machine σ ε φ) (P : σ → Prop) (s : σ) (es : List ε) : Prop :=
  ∀ pre post u, es = pre ++ post → M.Run s pre u → P u

theorem always_cons {P : σ → Prop} {s t : σ} {e : ε} {es : List ε} (he : M.enabled s e)
    (hx : M.exec s e = .ok t) : M.Always P s (e :: es) ↔ P s ∧ M.Always P t es := by
  constructor
  · intro h
    refine ⟨h [] _ s rfl (.nil s), fun pre post u hes hu => ?_⟩
    exact h (e :: pre) post u (by rw [hes, List.cons_append]) (.cons he hx hu)
  · rintro ⟨hs, ht⟩ pre post u hes hu
    cases hu with
    | nil => exact hs
    | cons he' hx' hr =>
      obtain ⟨rfl, htail⟩ := List.cons.inj hes
      obtain rfl := Except.ok.inj (hx.symm.trans hx')
      exact ht _ post u htail hr

/-- `P` holds in `t` exactly under the condition `a`, and then `J` does too. -/
structure HoldsIff (P J : σ → Prop) (t : σ) (a : Prop) : Prop where
  iff : P t ↔ a
  known : P t → J t

section holdsIff

variable {P J : σ → Prop} {t : σ} {a b : Prop}

theorem HoldsIff.of_holds (h : P t ∧ J t) (ha : a) : HoldsIff P J t a :=
  ⟨iff_of_true h.1 ha, fun _ => h.2⟩

theorem HoldsIff.of_not (h : ¬P t) (ha : ¬a) : HoldsIff P J t a :=
  ⟨iff_of_false h ha, fun hp => absurd hp h⟩

theorem HoldsIff.congr (h : HoldsIff P J t a) (hab : a ↔ b) : HoldsIff P J t b :=
  ⟨h.iff.trans hab, h.known⟩

end holdsIff

/-- If a step from a state with `P` keeps `P` exactly when it meets a condition, then
`P` holds throughout a run exactly when all its steps meet the condition. `J` is what
else is known along a run in which `P` holds. -/
theorem Run.always_iff {J P : σ → Prop} {A : σ → ε → Prop} {s t : σ} {es : List ε}
    (hstep : ∀ s e t, J s → P s → M.enabled s e → M.exec s e = .ok t → HoldsIff P J t (A s e))
    (h : M.Run s es t) (hj : J s) (hs : P s) :
    M.Always P s es ↔ (M.restrict A).Run s es t := by
  induction h with
  | nil s =>
    refine ⟨fun _ => .nil s, fun _ pre post u hes hu => ?_⟩
    obtain ⟨rfl, -⟩ := List.append_eq_nil_iff.mp hes.symm
    cases hu
    exact hs
  | @cons s u t e es he hx hr ih =>
    have hu := hstep s e u hj hs he hx
    rw [always_cons he hx]
    constructor
    · rintro ⟨-, halways⟩
      have hpu : P u := halways [] es u rfl (.nil u)
      exact .cons ⟨he, hu.iff.mp hpu⟩ hx ((ih (hu.known hpu) hpu).mp halways)
    · intro hres
      cases hres with
      | cons he' hx' hr' =>
        obtain rfl := Except.ok.inj (hx.symm.trans hx')
        have hpu := hu.iff.mpr he'.2
        exact ⟨hs, (ih (hu.known hpu) hpu).mpr hr'⟩

/-- The events can be performed one after another, and `P` holds in every state passed. -/
def Performs (M : Machine σ ε φ) (P : σ → Prop) (s : σ) (es : List ε) : Prop :=
  ∃ t, M.Run s es t ∧ M.Always P s es

theorem performs_nil {P : σ → Prop} {s : σ} (hs : P s) : M.Performs P s [] := by
  refine ⟨s, .nil s, fun pre post u hes hu => ?_⟩
  obtain ⟨rfl, -⟩ := List.append_eq_nil_iff.mp hes.symm
  cases hu
  exact hs

theorem performs_cons {P : σ → Prop} {s t : σ} {e : ε} {es : List ε} (he : M.enabled s e)
    (hx : M.exec s e = .ok t) (hs : P s) : M.Performs P s (e :: es) ↔ M.Performs P t es := by
  constructor
  · rintro ⟨u, hrun, halways⟩
    cases hrun with
    | cons he' hx' hr =>
      obtain rfl := Except.ok.inj (hx.symm.trans hx')
      exact ⟨u, hr, ((always_cons he hx).mp halways).2⟩
  · rintro ⟨u, hrun, halways⟩
    exact ⟨u, .cons he hx hrun, (always_cons he hx).mpr ⟨hs, halways⟩⟩

/-- The first of the events that are performed goes through, to a state with `P`. -/
theorem Performs.first {P : σ → Prop} {s : σ} {e : ε} {es : List ε}
    (h : M.Performs P s (e :: es)) : M.enabled s e ∧ ∃ t, M.exec s e = .ok t ∧ P t := by
  obtain ⟨u, hrun, halways⟩ := h
  cases hrun with
  | @cons _ t _ _ _ he hx hr =>
    exact ⟨he, t, hx, ((always_cons he hx).mp halways).2 [] es t rfl (.nil t)⟩

/-- The events meet a condition in turn, in a model that each of them moves on. -/
def Admits {μ : Type x} (next : μ → ε → μ) (A : μ → ε → Prop) : μ → List ε → Prop
  | _, [] => True
  | m, e :: es => A m e ∧ Admits next A (next m e) es

instance Admits.decidable {μ : Type x} (next : μ → ε → μ) (A : μ → ε → Prop)
    [∀ m e, Decidable (A m e)] : ∀ m es, Decidable (Admits next A m es)
  | _, [] => inferInstanceAs (Decidable True)
  | m, e :: es =>
    have := Admits.decidable next A (next m e) es
    inferInstanceAs (Decidable (A m e ∧ Admits next A (next m e) es))

theorem admits_append {μ : Type x} {next : μ → ε → μ} {A : μ → ε → Prop} (es fs : List ε) (m : μ) :
    Admits next A m (es ++ fs) ↔ Admits next A m es ∧ Admits next A (es.foldl next m) fs := by
  induction es generalizing m with
  | nil => exact (and_iff_right trivial).symm
  | cons e es ih =>
    rw [List.cons_append, Admits, Admits, ih, and_assoc]
    rfl

/-- If `J` describes states that have a model, and the events still to come, and an event goes
through and moves the model on exactly when it meets a condition in the model, then all events
can be performed exactly when they meet it in turn. -/
theorem performs_iff_admits {μ : Type x} {J : σ → List ε → Prop} {P : σ → Prop} (model : σ → μ)
    {next : μ → ε → μ} {A : μ → ε → Prop} (hP : ∀ s es, J s es → P s)
    (henabled : ∀ s e es, J s (e :: es) → A (model s) e → M.enabled s e)
    (hstep : ∀ s e es, J s (e :: es) → M.enabled s e →
      OkIff (M.exec s e) (fun t => J t es ∧ model t = next (model s) e) (A (model s) e))
    (s : σ) (es : List ε) (h : J s es) :
    M.Performs P s es ↔ Admits next A (model s) es := by
  induction es generalizing s with
  | nil => exact iff_of_true (performs_nil (hP s [] h)) trivial
  | cons e es ih =>
    constructor
    · intro hperforms
      obtain ⟨he, t, hx, -⟩ := hperforms.first
      obtain ⟨ht, hmodel⟩ := (hstep s e es h he).result t hx
      refine ⟨(hstep s e es h he).iff.mp ⟨t, hx⟩, ?_⟩
      rw [← hmodel, ← ih t ht]
      exact (performs_cons he hx (hP s _ h)).mp hperforms
    · rintro ⟨ha, hes⟩
      have he := henabled s e es h ha
      obtain ⟨t, hx⟩ := (hstep s e es h he).iff.mpr ha
      obtain ⟨ht, hmodel⟩ := (hstep s e es h he).result t hx
      rw [performs_cons he hx (hP s _ h), ih t ht, hmodel]
      exact hes

/-- Where an event leads; a state in which it faults stays as it is. -/
def next (M : Machine σ ε φ) (s : σ) (e : ε) : σ :=
  match M.exec s e with
  | .ok t => t
  | .error _ => s

theorem next_eq {s t : σ} {e : ε} (hx : M.exec s e = .ok t) : M.next s e = t := by
  rw [next, hx]

/-- The case in which the states are their own model. -/
theorem performs_iff_admits_next {J : σ → List ε → Prop} {P : σ → Prop} {A : σ → ε → Prop}
    (hP : ∀ s es, J s es → P s)
    (hstep : ∀ s e es, J s (e :: es) → M.enabled s e →
      OkIff (M.exec s e) (fun t => J t es) (A s e))
    (s : σ) (es : List ε) (h : J s es) :
    M.Performs P s es ↔ Admits M.next (fun s e => M.enabled s e ∧ A s e) s es := by
  refine performs_iff_admits id hP (fun s e es _ ha => ha.1) ?_ s es h
  intro s e es hs he
  have hgoes := hstep s e es hs he
  exact ⟨hgoes.iff.trans (and_iff_right he).symm, fun t hx => ⟨hgoes.result t hx, (next_eq hx).symm⟩⟩

/-- If an event that may come next, by the model, either goes through and moves the model on
or, where it fails a condition, does not lead to a state with `P`, then events that may come
one after another can be performed exactly when all of them meet the condition. -/
theorem performs_iff_forall {μ : Type x} {J P : σ → Prop} (model : σ → μ) {next : μ → ε → μ}
    {B : μ → ε → Prop} {A : ε → Prop} (hP : ∀ s, J s → P s)
    (hgoes : ∀ s e, J s → B (model s) e → A e →
      M.enabled s e ∧ ∃ t, M.exec s e = .ok t ∧ J t ∧ model t = next (model s) e)
    (hfails : ∀ s e t, J s → B (model s) e → ¬A e → M.exec s e = .ok t → ¬P t)
    (s : σ) (es : List ε) (h : J s) (hes : Admits next B (model s) es) :
    M.Performs P s es ↔ ∀ e ∈ es, A e := by
  induction es generalizing s with
  | nil => exact iff_of_true (performs_nil (hP s h)) (fun e he => absurd he List.not_mem_nil)
  | cons e es ih =>
    rw [List.forall_mem_cons]
    by_cases ha : A e
    · obtain ⟨he, t, hx, ht, hmodel⟩ := hgoes s e h hes.1 ha
      have htail : Admits next B (model t) es := by
        rw [hmodel]
        exact hes.2
      rw [performs_cons he hx (hP s h), ih t ht htail]
      exact ⟨fun hrest => ⟨ha, hrest⟩, fun hall => hall.2⟩
    · refine iff_of_false (fun hperforms => ?_) (fun hall => ha hall.1)
      obtain ⟨-, t, hx, ht⟩ := hperforms.first
      exact hfails s e t h hes.1 ha hx ht

/-- The case in which the states are their own model: an event that may happen goes through
exactly if it meets the condition. -/
theorem performs_iff_forall_next {J P : σ → Prop} {A : ε → Prop} (hP : ∀ s, J s → P s)
    (hstep : ∀ s e, J s → M.enabled s e → OkIff (M.exec s e) J (A e))
    (s : σ) (es : List ε) (h : J s) (hes : Admits M.next M.enabled s es) :
    M.Performs P s es ↔ ∀ e ∈ es, A e := by
  refine performs_iff_forall id hP ?_ ?_ s es h hes
  · intro s e hs he ha
    obtain ⟨t, hx⟩ := (hstep s e hs he).iff.mpr ha
    exact ⟨he, t, hx, (hstep s e hs he).result t hx, (next_eq hx).symm⟩
  · intro s e t hs he ha hx
    exact absurd ((hstep s e hs he).iff.mp ⟨t, hx⟩) ha

/-- Running a list of events, where it can be decided which are enabled. -/
def replay (M : Machine σ ε φ) [∀ s e, Decidable (M.enabled s e)] : σ → List ε → Option σ
  | s, [] => some s
  | s, e :: es =>
    if M.enabled s e then
      match M.exec s e with
      | .ok t => M.replay t es
      | .error _ => none
    else none

theorem Run.of_replay [∀ s e, Decidable (M.enabled s e)] {s t : σ} {es : List ε}
    (h : M.replay s es = some t) : M.Run s es t := by
  induction es generalizing s with
  | nil =>
    obtain rfl := Option.some.inj h
    exact .nil _
  | cons e es ih =>
    rw [replay] at h
    split_ifs at h with he
    split at h
    · exact .cons he ‹_› (ih h)
    · cases h

theorem exists_run_of_isSome [∀ s e, Decidable (M.enabled s e)] {s : σ} {es : List ε}
    (h : (M.replay s es).isSome = true) : ∃ t, M.Run s es t := by
  obtain ⟨t, ht⟩ := Option.isSome_iff_exists.mp h
  exact ⟨t, .of_replay ht⟩

/-- A concrete run, found and checked by evaluation. -/
theorem exists_run_of_replay [∀ s e, Decidable (M.enabled s e)] {s : σ} {es : List ε}
    (P : σ → Prop) [DecidablePred P] (h : (M.replay s es).any (fun t => P t) = true) :
    ∃ t, M.Run s es t ∧ P t := by
  cases ht : M.replay s es with
  | none =>
    rw [ht] at h
    cases h
  | some t =>
    rw [ht] at h
    exact ⟨t, .of_replay ht, of_decide_eq_true h⟩

end Machine

end CHttp
