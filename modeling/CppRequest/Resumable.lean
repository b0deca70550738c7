import CppRequest.ExitLoop
import Mathlib

/-!
# Loops that can be stopped for more input and resumed

A resumable loop works on a state that holds unread input and either fails or
rests, waiting for more input or done. The two laws say that input which has not
arrived yet cannot influence a round, and that resting loses nothing: continuing
from the resting state is the same as never having stopped. From them it follows
that cutting the input into pieces cannot be observed.

A failing call may leave a state that depends on how the input was cut. Of that
state only its mark is compared.
-/

namespace Resumable

/-- The same answer, the same mark, and the same state unless the answer is a failure. -/
structure Agree {σ ε π μ : Type*} (mark : σ → μ) (r r' : Except ε π × σ) : Prop where
  answer : r.1 = r'.1
  mark : mark r.2 = mark r'.2
  state : ∀ p, r.1 = .ok p → r.2 = r'.2

namespace Agree

variable {σ ε π μ : Type*} {mark : σ → μ} {r r' r'' : Except ε π × σ}

theorem refl (mark : σ → μ) (r : Except ε π × σ) : Agree mark r r := ⟨rfl, rfl, fun _ _ => rfl⟩

theorem of_eq (h : r = r') : Agree mark r r' := h ▸ refl mark r

theorem of_error {e : ε} {s s' : σ} (h : mark s = mark s') :
    Agree (π := π) mark (.error e, s) (.error e, s') := ⟨rfl, h, fun _ hp => by cases hp⟩

theorem trans (h : Agree mark r r') (h' : Agree mark r' r'') : Agree mark r r'' where
  answer := h.answer.trans h'.answer
  mark := h.mark.trans h'.mark
  state p hp := (h.state p hp).trans (h'.state p (h.answer ▸ hp))

theorem eq_of_ok {p : π} {s : σ} (h : Agree mark r (.ok p, s)) : r = (.ok p, s) :=
  Prod.ext h.answer (h.state p h.answer)

end Agree

end Resumable

structure Resumable (α σ ε π μ : Type*) where
  loop : ExitLoop σ (Except ε π × σ)
  /-- Input that arrives behind the unread input. -/
  push : σ → List α → σ
  /-- What a failure still shows of its state. -/
  mark : σ → μ
  push_nil : ∀ s, push s [] = s
  push_push : ∀ s a b, push (push s a) b = push s (a ++ b)
  next_push : ∀ {s s'} b, loop.step s = .inl s' → loop.step (push s b) = .inl (push s' b)
  rest_push : ∀ {s p s'} b, loop.step s = .inr (.ok p, s') →
    Resumable.Agree mark (loop.run (push s b)) (loop.run (push s' b))

namespace Resumable

variable {α σ ε π μ : Type*} (M : Resumable α σ ε π μ)

def feed (s : σ) (b : List α) : Except ε π × σ := M.loop.run (M.push s b)

/-- Feeding pieces one after another, up to the first failure: every answer and the last state. -/
def feedAll (s : σ) : List (List α) → List (Except ε π) × σ
  | [] => ([], s)
  | b :: bs =>
    match M.feed s b with
    | (.error e, s') => ([.error e], s')
    | (.ok p, s') => (.ok p :: (feedAll s' bs).1, (feedAll s' bs).2)

theorem run_push_of_reaches {s t : σ} (b : List α) (h : M.loop.Reaches s t) :
    M.loop.run (M.push s b) = M.loop.run (M.push t b) := by
  induction h with
  | refl => rfl
  | tail _ hstep ih => exact ih.trans (M.loop.run_of_next (M.next_push b hstep))

/-- Resting loses nothing. -/
theorem run_push {s s' : σ} {p : π} (b : List α) (h : M.loop.run s = (.ok p, s')) :
    Agree M.mark (M.loop.run (M.push s b)) (M.loop.run (M.push s' b)) := by
  rcases M.loop.exists_exit s with ⟨t, ht, hexit⟩
  rw [M.run_push_of_reaches b ht]
  exact M.rest_push b (h ▸ hexit)

theorem feed_append {s s' : σ} {p : π} {a : List α} (b : List α)
    (h : M.feed s a = (.ok p, s')) : Agree M.mark (M.feed s (a ++ b)) (M.feed s' b) := by
  unfold feed
  rw [← M.push_push]
  exact M.run_push b h

theorem feedAll_cons_ok {s s' : σ} {p : π} {b : List α} (bs : List (List α))
    (h : M.feed s b = (.ok p, s')) :
    M.feedAll s (b :: bs) = (.ok p :: (M.feedAll s' bs).1, (M.feedAll s' bs).2) := by
  simp only [feedAll, h]

theorem feedAll_cons_error {s s' : σ} {e : ε} {b : List α} (bs : List (List α))
    (h : M.feed s b = (.error e, s')) : M.feedAll s (b :: bs) = ([.error e], s') := by
  simp only [feedAll, h]

/-- Every answer is the answer to a whole prefix fed at once. -/
theorem mem_feedAll {s : σ} {bs : List (List α)} {r : Except ε π}
    (h : r ∈ (M.feedAll s bs).1) :
    ∃ c, c ≠ [] ∧ c <+: bs ∧ r = (M.feed s c.flatten).1 := by
  induction bs generalizing s with
  | nil => simp [feedAll] at h
  | cons b bs ih =>
    have hone : [b] <+: b :: bs := ⟨bs, rfl⟩
    rcases hf : M.feed s b with ⟨e | p, s'⟩
    · rw [M.feedAll_cons_error bs hf, List.mem_singleton] at h
      exact ⟨[b], by simp, hone, by simp [hf, h]⟩
    · rw [M.feedAll_cons_ok bs hf, List.mem_cons] at h
      rcases h with rfl | h
      · exact ⟨[b], by simp, hone, by simp [hf]⟩
      · rcases ih h with ⟨c, hne, hpre, hr⟩
        refine ⟨b :: c, by simp, by simpa using hpre, ?_⟩
        rw [List.flatten_cons, (M.feed_append _ hf).answer, hr]

/-- The last answer and state are those of a prefix fed at once, and of everything fed at
once unless that answer is a failure. -/
theorem feedAll_last (s : σ) {bs : List (List α)} (hbs : bs ≠ []) :
    ∃ c r, c ≠ [] ∧ c <+: bs ∧ (M.feedAll s bs).1.getLast? = some r ∧
      Agree M.mark (M.feed s c.flatten) (r, (M.feedAll s bs).2) ∧ (c = bs ∨ ∃ e, r = .error e) := by
  induction bs generalizing s with
  | nil => exact absurd rfl hbs
  | cons b bs ih =>
    have hone : [b] <+: b :: bs := ⟨bs, rfl⟩
    rcases hf : M.feed s b with ⟨e | p, s'⟩
    · refine ⟨[b], .error e, by simp, hone, ?_⟩
      simp [M.feedAll_cons_error bs hf, hf, Agree.refl]
    · rw [M.feedAll_cons_ok bs hf]
      by_cases hnil : bs = []
      · subst hnil
        refine ⟨[b], .ok p, by simp, hone, ?_⟩
        simp [hf, feedAll, Agree.refl]
      · rcases ih s' hnil with ⟨c, r, hne, hpre, hlast, hagree, hor⟩
        have hres : (M.feedAll s' bs).1 ≠ [] := fun h0 => by simp [h0] at hlast
        refine ⟨b :: c, r, by simp, by simpa using hpre, ?_, ?_, by simpa using hor⟩
        · rw [List.getLast?_cons_of_ne_nil hres, hlast]
        · rw [List.flatten_cons]
          exact (M.feed_append _ hf).trans hagree

/-- The last answer and state are those of one call, made on a state that was reached before. -/
theorem feedAll_last_call (s : σ) {bs : List (List α)} (hbs : bs ≠ []) :
    ∃ s' b r, M.feed s' b = (r, (M.feedAll s bs).2) ∧ (M.feedAll s bs).1.getLast? = some r := by
  induction bs generalizing s with
  | nil => exact absurd rfl hbs
  | cons b bs ih =>
    rcases hf : M.feed s b with ⟨e | p, s'⟩
    · rw [M.feedAll_cons_error bs hf]
      exact ⟨s, b, .error e, hf, rfl⟩
    · rw [M.feedAll_cons_ok bs hf]
      by_cases hnil : bs = []
      · subst hnil
        exact ⟨s, b, .ok p, hf, rfl⟩
      · rcases ih s' hnil with ⟨t, c, r, hcall, hlast⟩
        have hres : (M.feedAll s' bs).1 ≠ [] := fun h0 => by simp [h0] at hlast
        exact ⟨t, c, r, hcall, (List.getLast?_cons_of_ne_nil hres).trans hlast⟩

/-- If a prefix fed at once fails, some piece does. -/
theorem feedAll_error (s : σ) {bs c : List (List α)} {e : ε} (hc : c <+: bs) (hne : c ≠ [])
    (h : (M.feed s c.flatten).1 = .error e) : ∃ e', .error e' ∈ (M.feedAll s bs).1 := by
  rcases hc with ⟨d, rfl⟩
  induction c generalizing s with
  | nil => exact absurd rfl hne
  | cons b c ih =>
    rw [List.cons_append]
    rcases hf : M.feed s b with ⟨e' | p, s'⟩
    · exact ⟨e', by simp [M.feedAll_cons_error _ hf]⟩
    · rw [List.flatten_cons, (M.feed_append _ hf).answer] at h
      by_cases hnil : c = []
      · -- a call without new input repeats the answer it rested with
        subst hnil
        have hagain := (M.feed_append [] hf).answer
        rw [List.append_nil, hf] at hagain
        rw [List.flatten_nil, ← hagain] at h
        cases h
      · rcases ih s' hnil h with ⟨e', he'⟩
        exact ⟨e', by simp [M.feedAll_cons_ok _ hf, he']⟩

end Resumable
