import CppRequest.ExitLoop

/-!
# Loops that mirror each other

The second loop does what the first one does, under maps of states and results, unless the first
one leaves with a result of some kind. This is a simulation up to these results: where the first
loop leaves with one of them, nothing is said about the second one.
-/

namespace ExitLoop

variable {σ τ ρ κ : Type*} {bad : ρ → Prop} {f : σ → τ} {g : ρ → κ}

/-- The first round leaves with a bad result, or the second one is its image. -/
def Mirrors (bad : ρ → Prop) (f : σ → τ) (g : ρ → κ) (x : σ ⊕ ρ) (y : τ ⊕ κ) : Prop :=
  (∃ r, x = .inr r ∧ bad r) ∨ y = x.map f g

variable {x x' : σ ⊕ ρ} {y y' : τ ⊕ κ}

theorem Mirrors.same (h : y = x.map f g) : Mirrors bad f g x y := .inr h

theorem Mirrors.of_bad {r : ρ} (h : bad r) : Mirrors bad f g (.inr r) y := .inl ⟨r, rfl, h⟩

/-- A branch that both take. -/
theorem Mirrors.ite {c : Prop} [Decidable c] (h : Mirrors bad f g x y)
    (h' : Mirrors bad f g x' y') : Mirrors bad f g (if c then x else x') (if c then y else y') := by
  by_cases hc : c
  · rw [if_pos hc, if_pos hc]
    exact h
  · rw [if_neg hc, if_neg hc]
    exact h'

/-- A guard that leaves with a bad result, and that the second round has weakened. -/
theorem Mirrors.guard {c c' : Prop} [Decidable c] [Decidable c'] {r : ρ} (hr : bad r)
    (hc : c' → c) (h : Mirrors bad f g x y) :
    Mirrors bad f g (if c then .inr r else x) (if c' then y' else y) := by
  by_cases hguard : c
  · rw [if_pos hguard]
    exact .of_bad hr
  · rw [if_neg hguard, if_neg fun hc' => hguard (hc hc')]
    exact h

theorem Mirrors.cases (h : Mirrors bad f g x y) :
    (∃ s, x = .inl s ∧ y = .inl (f s)) ∨ ∃ r, x = .inr r ∧ (bad r ∨ y = .inr (g r)) := by
  obtain ⟨r, rfl, hr⟩ | rfl := h
  · exact .inr ⟨r, rfl, .inl hr⟩
  · cases x with
    | inl s => exact .inl ⟨s, rfl, rfl⟩
    | inr r => exact .inr ⟨r, rfl, .inr rfl⟩

/-- Loops whose rounds mirror each other have runs that do. -/
theorem run_mirrors {L : ExitLoop σ ρ} {M : ExitLoop τ κ} (I : σ → Prop)
    (step : ∀ s, I s → Mirrors bad f g (L.step s) (M.step (f s)))
    (next : ∀ s s', I s → L.step s = .inl s' → I s') {s : σ} (h : I s) (hgood : ¬ bad (L.run s)) :
    M.run (f s) = g (L.run s) := by
  refine L.run_induction (P := fun s r => I s → ¬ bad r → M.run (f s) = g r) ?_ ?_ s h hgood
  · intro s r hs hI hr
    obtain ⟨s', hs', -⟩ | ⟨r', hr', hmirrored⟩ := (step s hI).cases
    · cases hs.symm.trans hs'
    · cases hs.symm.trans hr'
      exact M.run_of_exit (hmirrored.resolve_left hr)
  · intro s s' r hs ih hI hr
    obtain ⟨s₁, hs₁, hmirrored⟩ | ⟨r', hr', -⟩ := (step s hI).cases
    · cases hs.symm.trans hs₁
      rw [M.run_of_next hmirrored]
      exact ih (next s s' hI hs) hr
    · cases hs.symm.trans hr'

end ExitLoop
