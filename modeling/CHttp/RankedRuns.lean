import CHttp.Runs

/-! Machines that must come to an end: every event returns and lowers a rank. Nothing here
names a program. -/
namespace CHttp.Machine

universe u v w

variable {σ : Type u} {ε : Type v} {φ : Type w} (M : Machine σ ε φ)

/-- The invariant `I` gives a state its rank, and every event returns and lowers it. -/
def Descends (I : σ → ℕ → Prop) : Prop :=
  ∀ s n e, I s n → M.enabled s e → ∃ t m, M.exec s e = .ok t ∧ I t m ∧ m < n

/-- From `s` on there are at most `n` events, each of them returns, and they stop only in
a state of `F`. -/
structure MustFinish (s : σ) (F : σ → Prop) (n : ℕ) : Prop where
  bounded : ∀ es t, M.Run s es t → es.length ≤ n
  returns : ∀ es t e, M.Run s es t → M.enabled t e → ∃ u, M.exec t e = .ok u
  goesOn : ∀ es t, M.Run s es t → (∀ e, ¬M.enabled t e) → F t

variable {M} {I : σ → ℕ → Prop} {F : σ → Prop}

/-- A run pays for each of its events with the rank it started from. -/
theorem Descends.run (hd : M.Descends I) {s t : σ} {es : List ε} (h : M.Run s es t) {n : ℕ}
    (hs : I s n) : ∃ m, I t m ∧ m+es.length ≤ n := by
  induction h generalizing n with
  | nil s => exact ⟨n, hs, le_rfl⟩
  | @cons s t u e es he hx _ ih =>
    obtain ⟨t', k, hx', ht, hlt⟩ := hd s n e hs he
    obtain rfl := Except.ok.inj (hx.symm.trans hx')
    obtain ⟨m, hu, hle⟩ := ih ht
    refine ⟨m, hu, ?_⟩
    rw [List.length_cons]
    omega

theorem Descends.mustFinish (hd : M.Descends I)
    (hgo : ∀ s n, I s n → (∀ e, ¬M.enabled s e) → F s) {s : σ} {n : ℕ} (hs : I s n) :
    M.MustFinish s F n := by
  refine ⟨?_, ?_, ?_⟩
  · intro es t h
    obtain ⟨m, -, hle⟩ := hd.run h hs
    exact (Nat.le_add_left _ _).trans hle
  · intro es t e h he
    obtain ⟨m, ht, -⟩ := hd.run h hs
    obtain ⟨u, -, hx, -⟩ := hd t m e ht he
    exact ⟨u, hx⟩
  · intro es t h hstuck
    obtain ⟨m, ht, -⟩ := hd.run h hs
    exact hgo t m ht hstuck

end CHttp.Machine
