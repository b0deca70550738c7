import Mathlib

/-!
# Loops that leave through a result

A `while (true)` loop is a step function that either goes round with a new state
or leaves with a result, together with a measure that every round decreases. The
measure is part of the loop, so that running it is a total function and a loop
without a termination argument cannot be written down.
-/

/-- One loop: `.inl` goes round again, `.inr` leaves. -/
structure ExitLoop (σ ρ : Type*) where
  step : σ → σ ⊕ ρ
  measure : σ → ℕ
  decreases : ∀ {s s'}, step s = .inl s' → measure s' < measure s

namespace ExitLoop

variable {σ τ ρ κ : Type*} (L : ExitLoop σ ρ)

/-- Structural recursion on a bound above the measure; the bound is never used up. -/
def runWithin : (n : ℕ) → (s : σ) → L.measure s < n → ρ
  | 0, _, h => absurd h (Nat.not_lt_zero _)
  | n + 1, s, h =>
    match hs : L.step s with
    | .inr r => r
    | .inl s' => runWithin n s' (Nat.lt_of_lt_of_le (L.decreases hs) (Nat.le_of_lt_succ h))

def run (s : σ) : ρ := L.runWithin (L.measure s + 1) s (Nat.lt_succ_self _)

theorem runWithin_eq {n m : ℕ} {s : σ} (hn : L.measure s < n) (hm : L.measure s < m) :
    L.runWithin n s hn = L.runWithin m s hm := by
  induction n generalizing m s with
  | zero => exact absurd hn (Nat.not_lt_zero _)
  | succ n ih =>
    cases m with
    | zero => exact absurd hm (Nat.not_lt_zero _)
    | succ m =>
      simp only [runWithin]
      split
      · rfl
      · exact ih _ _

theorem run_of_exit {s : σ} {r : ρ} (h : L.step s = .inr r) : L.run s = r := by
  simp only [run, runWithin]
  split
  · next r' hr => exact Sum.inr.inj (hr.symm.trans h)
  · next s' hs => exact absurd (hs.symm.trans h) Sum.inl_ne_inr

theorem run_of_next {s s' : σ} (h : L.step s = .inl s') : L.run s = L.run s' := by
  have hrun : L.run s = L.runWithin (L.measure s) s' (L.decreases h) := by
    simp only [run, runWithin]
    split
    · next r hr => exact absurd (hr.symm.trans h) Sum.inr_ne_inl
    · next t ht => cases Sum.inl.inj (ht.symm.trans h); rfl
  exact hrun.trans (L.runWithin_eq _ _)

/-- The equation of the loop. -/
theorem run_eq (s : σ) : L.run s = Sum.elim L.run id (L.step s) := by
  cases h : L.step s with
  | inl s' => exact L.run_of_next h
  | inr r => exact L.run_of_exit h

/-- States with the same next step cannot be told apart by running. -/
theorem run_congr {s t : σ} (h : L.step s = L.step t) : L.run s = L.run t := by
  rw [L.run_eq s, L.run_eq t, h]

/-- Induction along a run: from the state that leaves back to the state it began in. -/
theorem run_induction {P : σ → ρ → Prop}
    (exit : ∀ s r, L.step s = .inr r → P s r)
    (next : ∀ s s' r, L.step s = .inl s' → P s' r → P s r) (s : σ) : P s (L.run s) := by
  induction hn : L.measure s using Nat.strongRecOn generalizing s with
  | _ n ih =>
    cases h : L.step s with
    | inr r => exact L.run_of_exit h ▸ exit s r h
    | inl s' =>
      rw [L.run_of_next h]
      exact next s s' _ h (ih _ (hn ▸ L.decreases h) s' rfl)

/-- The invariant rule: what every round keeps and every exit turns into `Q` holds of the result. -/
theorem run_post (I : σ → Prop) (Q : ρ → Prop)
    (next : ∀ s s', I s → L.step s = .inl s' → I s')
    (exit : ∀ s r, I s → L.step s = .inr r → Q r) {s : σ} (h : I s) : Q (L.run s) :=
  L.run_induction (P := fun s r => I s → Q r)
    (fun s r hs hi => exit s r hi hs)
    (fun s s' _ hs ih hi => ih (next s s' hi hs)) s h

/-- Going round from one state to another. -/
def Reaches : σ → σ → Prop := Relation.ReflTransGen fun s s' => L.step s = .inl s'

theorem Reaches.refl (s : σ) : L.Reaches s s := Relation.ReflTransGen.refl

variable {L} in
theorem Reaches.head {s s' t : σ} (h : L.step s = .inl s') (ht : L.Reaches s' t) :
    L.Reaches s t := Relation.ReflTransGen.head h ht

variable {L} in
theorem Reaches.invariant {I : σ → Prop} (next : ∀ s s', I s → L.step s = .inl s' → I s')
    {s t : σ} (h : L.Reaches s t) (hs : I s) : I t := by
  induction h with
  | refl => exact hs
  | tail _ hstep ih => exact next _ _ ih hstep

/-- Every run leaves from a state it reached. -/
theorem exists_exit (s : σ) : ∃ t, L.Reaches s t ∧ L.step t = .inr (L.run s) :=
  L.run_induction (P := fun s r => ∃ t, L.Reaches s t ∧ L.step t = .inr r)
    (fun s _ h => ⟨s, Reaches.refl L s, h⟩)
    (fun _ _ _ h ⟨t, ht, hr⟩ => ⟨t, ht.head h, hr⟩) s

/-- Simulation: two loops that go round together from related states leave with related results. -/
theorem run_sim (M : ExitLoop τ κ) (R : σ → τ → Prop) (E : ρ → κ → Prop)
    (next : ∀ s t s', R s t → L.step s = .inl s' → ∃ t', M.step t = .inl t' ∧ R s' t')
    (exit : ∀ s t r, R s t → L.step s = .inr r → ∃ k, M.step t = .inr k ∧ E r k)
    {s : σ} {t : τ} (h : R s t) : E (L.run s) (M.run t) := by
  refine L.run_induction (P := fun s r => ∀ t, R s t → E r (M.run t)) ?_ ?_ s t h
  · intro s r hs t ht
    obtain ⟨k, hk, he⟩ := exit s t r ht hs
    rwa [M.run_of_exit hk]
  · intro s s' r hs ih t ht
    obtain ⟨t', ht', hr⟩ := next s t s' ht hs
    rw [M.run_of_next ht']
    exact ih t' hr

/-! ## Counting the iterations -/

/-- The loop with a counter of its iterations; the one that leaves counts as well. -/
def counting : ExitLoop (σ × ℕ) ℕ where
  step s := match L.step s.1 with
    | .inl s' => .inl (s', s.2 + 1)
    | .inr _ => .inr (s.2 + 1)
  measure s := L.measure s.1
  decreases := by
    rintro ⟨s, n⟩ ⟨s', n'⟩ h
    cases hs : L.step s with
    | inl t =>
      rw [hs] at h
      cases h
      exact L.decreases hs
    | inr r =>
      rw [hs] at h
      cases h

/-- How many iterations a run makes. -/
def iterations (s : σ) : ℕ := L.counting.run (s, 0)

/-- A run makes one iteration more, at most, than a potential that every round uses up allows. -/
theorem iterations_le (potential : σ → ℕ) (I : σ → Prop)
    (next : ∀ s s', I s → L.step s = .inl s' → I s' ∧ potential s' < potential s)
    {s : σ} (h : I s) : L.iterations s ≤ potential s + 1 := by
  refine L.counting.run_post (fun t => I t.1 ∧ t.2 + potential t.1 ≤ potential s)
    (fun n => n ≤ potential s + 1) ?_ ?_ (s := (s, 0)) ⟨h, (Nat.zero_add _).le⟩
  · rintro ⟨t, n⟩ ⟨t', n'⟩ ⟨ht, hle⟩ hstep
    simp only [counting] at hstep
    split at hstep
    · next t'' hs =>
      cases hstep
      obtain ⟨ht', hlt⟩ := next t _ ht hs
      refine ⟨ht', ?_⟩
      simp only at hle ⊢
      omega
    · cases hstep
  · rintro ⟨t, n⟩ r ⟨-, hle⟩ hstep
    simp only [counting] at hstep
    split at hstep
    · cases hstep
    · cases hstep
      simp only at hle
      omega

/-! ## Iterations that throw -/

/-- The loop with iterations that may throw: `ok` says which do not. -/
def guarded (ok : σ → Bool) : ExitLoop σ (Option ρ) where
  step s := if ok s = true then (L.step s).map id some else .inr none
  measure := L.measure
  decreases := by
    intro s s' h
    split_ifs at h
    cases hs : L.step s with
    | inl t =>
      rw [hs] at h
      cases h
      exact L.decreases hs
    | inr r =>
      rw [hs] at h
      cases h

variable {L} in
theorem guarded_next {ok : σ → Bool} {s s' : σ} (hok : ok s = true) (h : L.step s = .inl s') :
    (L.guarded ok).run s = (L.guarded ok).run s' := by
  apply run_of_next
  simp only [guarded, hok, if_true, h]
  rfl

/-- Without a throw the run is the run of the loop. -/
theorem guarded_of_forall {ok : σ → Bool} {s : σ} (h : ∀ t, L.Reaches s t → ok t = true) :
    (L.guarded ok).run s = some (L.run s) := by
  refine L.run_induction (P := fun s r => (∀ t, L.Reaches s t → ok t = true) →
    (L.guarded ok).run s = some r) ?_ ?_ s h
  · intro s r hs hall
    apply run_of_exit
    simp only [guarded, hall s (Reaches.refl L s), if_true, hs]
    rfl
  · intro s s' r hs ih hall
    rw [guarded_next (hall s (Reaches.refl L s)) hs]
    exact ih fun t ht => hall t (ht.head hs)

theorem guarded_of_throw {ok : σ → Bool} {s t : σ} (h : L.Reaches s t) (ht : ok t = false) :
    (L.guarded ok).run s = none := by
  have hthrow : ∀ s, ok s = false → (L.guarded ok).run s = none := by
    intro s hs
    apply run_of_exit
    simp only [guarded, hs, Bool.false_eq_true, if_false]
  induction h using Relation.ReflTransGen.head_induction_on with
  | refl => exact hthrow t ht
  | @head s s' hs _ ih =>
    cases hok : ok s with
    | true => rwa [guarded_next hok hs]
    | false => exact hthrow s hok

theorem guarded_isSome_iff {ok : σ → Bool} {s : σ} :
    ((L.guarded ok).run s).isSome = true ↔ ∀ t, L.Reaches s t → ok t = true := by
  constructor
  · intro h t ht
    by_contra hok
    rw [L.guarded_of_throw ht (Bool.eq_false_iff.mpr hok)] at h
    cases h
  · intro h
    rw [L.guarded_of_forall h]
    rfl

theorem eq_of_guarded {ok : σ → Bool} {s : σ} {r : ρ} (h : (L.guarded ok).run s = some r) :
    r = L.run s := by
  have hall := L.guarded_isSome_iff.mp (Option.isSome_of_eq_some h)
  rw [L.guarded_of_forall hall] at h
  exact (Option.some.inj h).symm

end ExitLoop

/-- The invariant rule for a loop over a list that can leave with an error: `I` speaks of the
elements walked over so far. -/
theorem foldlM_post {σ α ε : Type*} {f : σ → α → Except ε σ} {I : List α → σ → Prop}
    (next : ∀ done a s s', I done s → f s a = .ok s' → I (done ++ [a]) s')
    {done xs : List α} {s s' : σ} (hs : I done s) (h : xs.foldlM f s = .ok s') :
    I (done ++ xs) s' := by
  induction xs generalizing done s with
  | nil =>
    cases h
    simpa using hs
  | cons a xs ih =>
    rw [List.foldlM_cons] at h
    cases ha : f s a with
    | error e => rw [ha] at h; cases h
    | ok s₁ =>
      rw [ha] at h
      simpa using ih (next done a s s₁ hs ha) h
