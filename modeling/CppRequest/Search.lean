import Mathlib

/-!
# First occurrences

Searching a list for the first place where another list occurs, and cutting the
list there. Input that arrives behind an occurrence does not move it, and an
occurrence that appears only with more input straddles the old end.
-/

namespace Search

variable {α : Type*}

/-- `a` stands before the first occurrence of `needle` in `a ++ needle ++ b`, for every `b`. -/
def Leads (needle a : List α) : Prop :=
  ∀ i < a.length, ¬ needle <+: (a ++ needle).drop i

theorem prefix_drop_append {needle a b : List α} {i : ℕ} (hi : i ≤ a.length) :
    needle <+: (a ++ needle ++ b).drop i ↔ needle <+: (a ++ needle).drop i := by
  rw [List.drop_append_of_le_length (by simp; omega)]
  refine ⟨fun h => ?_, fun h => h.trans (List.prefix_append _ _)⟩
  exact List.prefix_of_prefix_length_le h (List.prefix_append _ _) (by simp; omega)

theorem leads_singleton {c : α} {a : List α} : Leads [c] a ↔ c ∉ a := by
  constructor
  · intro h hc
    obtain ⟨i, hi, rfl⟩ := List.mem_iff_getElem.mp hc
    refine h i hi ?_
    rw [List.drop_append_of_le_length hi.le, List.drop_eq_getElem_cons hi]
    exact List.cons_prefix_cons.mpr ⟨rfl, List.nil_prefix⟩
  · intro h i hi hp
    refine h ?_
    rw [List.drop_append_of_le_length hi.le, List.drop_eq_getElem_cons hi] at hp
    obtain ⟨rfl, -⟩ := List.cons_prefix_cons.mp hp
    exact List.getElem_mem hi

/-- What does not contain the first element of the needle cannot contain the needle. -/
theorem leads_of_not_mem {c : α} {needle a : List α} (h : c ∉ a) : Leads (c :: needle) a := by
  intro i hi hp
  rw [List.drop_append_of_le_length hi.le, List.drop_eq_getElem_cons hi] at hp
  obtain ⟨rfl, -⟩ := List.cons_prefix_cons.mp hp
  exact h (List.getElem_mem hi)

/-- No occurrence begins in a part without the first element of the needle. -/
theorem leads_append {c : α} {needle a b : List α} (ha : c ∉ a) (hb : Leads (c :: needle) b) :
    Leads (c :: needle) (a ++ b) := by
  intro i hi hp
  by_cases hlt : i < a.length
  · rw [List.append_assoc, List.drop_append_of_le_length hlt.le,
      List.drop_eq_getElem_cons hlt] at hp
    obtain ⟨rfl, -⟩ := List.cons_prefix_cons.mp hp
    exact ha (List.getElem_mem hlt)
  · have hle : a.length ≤ i := not_lt.mp hlt
    rw [List.append_assoc, List.drop_append, List.drop_eq_nil_of_le hle, List.nil_append] at hp
    refine hb (i - a.length) ?_ hp
    rw [List.length_append] at hi
    omega

/-- The needle does not occur before it has arrived completely. -/
theorem Leads.not_infix {needle a s : List α} (h : Leads needle a) (hs : s <+: a ++ needle)
    (hlt : s.length < (a ++ needle).length) : ¬ needle <:+: s := by
  rintro ⟨b, c, rfl⟩
  simp only [List.length_append] at hlt
  refine h b.length (by omega) ?_
  rcases hs with ⟨d, hd⟩
  rw [← hd, List.append_assoc, List.append_assoc, List.drop_left]
  exact List.prefix_append _ _

/-- Two different elements cannot overlap themselves. -/
theorem leads_pair {x y : α} (hxy : x ≠ y) {a : List α} : Leads [x, y] a ↔ ¬ [x, y] <:+: a := by
  induction a with
  | nil => simp [Leads]
  | cons z a ih =>
    have hz : Leads [x, y] (z :: a) ↔ ¬ [x, y] <+: z :: (a ++ [x, y]) ∧ Leads [x, y] a := by
      constructor
      · exact fun h => ⟨h 0 (by simp), fun i hi => h (i + 1) (by simpa using hi)⟩
      · rintro ⟨h₀, h⟩ (_ | i) hi
        · exact h₀
        · exact h i (by simpa using hi)
    rw [hz, ih, List.infix_cons_iff, not_or]
    refine and_congr_left fun _ => not_congr ?_
    simp only [List.cons_prefix_cons]
    refine and_congr_right fun _ => ?_
    cases a with
    | nil => simp [hxy.symm]
    | cons w a => simp [List.cons_prefix_cons]

variable [DecidableEq α]

/-- Where `needle` first occurs. -/
def firstIndex (needle : List α) : List α → Option ℕ
  | [] => if needle = [] then some 0 else none
  | x :: xs => if needle <+: x :: xs then some 0 else (firstIndex needle xs).map (· + 1)

/-- What stands before the first occurrence of `needle` and what stands behind it. -/
def cut (needle s : List α) : Option (List α × List α) :=
  (firstIndex needle s).map fun i => (s.take i, s.drop (i + needle.length))

theorem firstIndex_le {needle s : List α} {i : ℕ} (h : firstIndex needle s = some i) :
    i + needle.length ≤ s.length := by
  induction s generalizing i with
  | nil =>
    simp only [firstIndex] at h
    split at h
    · next hn => cases h; simp [hn]
    · cases h
  | cons x xs ih =>
    simp only [firstIndex] at h
    split at h
    · next hp => cases h; simpa using hp.length_le
    · obtain ⟨j, hj, rfl⟩ := Option.map_eq_some_iff.mp h
      have := ih hj
      simp only [List.length_cons]
      omega

theorem prefix_of_firstIndex {needle s : List α} {i : ℕ} (h : firstIndex needle s = some i) :
    needle <+: s.drop i := by
  induction s generalizing i with
  | nil =>
    simp only [firstIndex] at h
    split at h
    · next hn => simp [hn]
    · cases h
  | cons x xs ih =>
    simp only [firstIndex] at h
    split at h
    · next hp => cases h; exact hp
    · obtain ⟨j, hj, rfl⟩ := Option.map_eq_some_iff.mp h
      exact ih hj

theorem firstIndex_least {needle s : List α} {i : ℕ} (h : firstIndex needle s = some i)
    {j : ℕ} (hj : j < i) : ¬ needle <+: s.drop j := by
  induction s generalizing i j with
  | nil => have := firstIndex_le h; simp at this; omega
  | cons x xs ih =>
    simp only [firstIndex] at h
    split at h
    · cases h; omega
    · next hp =>
      obtain ⟨k, hk, rfl⟩ := Option.map_eq_some_iff.mp h
      cases j with
      | zero => exact hp
      | succ j => exact ih hk (by omega)

theorem firstIndex_eq_none_iff {needle s : List α} :
    firstIndex needle s = none ↔ ¬ needle <:+: s := by
  induction s with
  | nil => simp [firstIndex]
  | cons x xs ih =>
    simp only [firstIndex, List.infix_cons_iff]
    split
    · next hp => simp [hp]
    · next hp => simp [hp, ih]

/-- An occurrence with none before it is the first one. -/
theorem firstIndex_eq_some {needle s : List α} {i : ℕ} (hp : needle <+: s.drop i)
    (hl : ∀ j < i, ¬ needle <+: s.drop j) : firstIndex needle s = some i := by
  cases hf : firstIndex needle s with
  | none =>
    exact absurd (hp.isInfix.trans (List.drop_suffix i s).isInfix) (firstIndex_eq_none_iff.mp hf)
  | some k =>
    rcases Nat.lt_trichotomy k i with h | h | h
    · exact absurd (prefix_of_firstIndex hf) (hl k h)
    · rw [h]
    · exact absurd hp (firstIndex_least hf h)

theorem firstIndex_leads {needle a : List α} (b : List α) (h : Leads needle a) :
    firstIndex needle (a ++ (needle ++ b)) = some a.length := by
  rw [← List.append_assoc]
  refine firstIndex_eq_some ?_ fun j hj hp => h j hj ((prefix_drop_append hj.le).mp hp)
  simp

theorem cut_eq_some_iff {needle s a b : List α} :
    cut needle s = some (a, b) ↔ s = a ++ (needle ++ b) ∧ Leads needle a := by
  rw [← List.append_assoc]
  constructor
  · intro h
    obtain ⟨i, hi, he⟩ := Option.map_eq_some_iff.mp h
    obtain ⟨rfl, rfl⟩ := Prod.mk.injEq .. ▸ he
    obtain ⟨c, hc⟩ := prefix_of_firstIndex hi
    have hle := firstIndex_le hi
    have hs : s = s.take i ++ needle ++ c := by
      rw [List.append_assoc, hc, List.take_append_drop]
    have hlen : (s.take i).length = i := by simp; omega
    have hdrop : s.drop (i + needle.length) = c := by
      rw [← List.drop_drop, ← hc, List.drop_left]
    refine ⟨hdrop ▸ hs, fun j hj hp => firstIndex_least hi (hlen ▸ hj) ?_⟩
    rw [hs]
    exact (prefix_drop_append hj.le).mpr hp
  · rintro ⟨rfl, hl⟩
    rw [cut, List.append_assoc, firstIndex_leads b hl, Option.map_some, List.take_left,
      ← List.append_assoc, ← List.length_append, List.drop_left]

/-- What stands before the first occurrence is read in one way only. -/
theorem Leads.inj {needle a a' b b' : List α} (h : Leads needle a) (h' : Leads needle a')
    (heq : a ++ (needle ++ b) = a' ++ (needle ++ b')) : a = a' ∧ b = b' := by
  have hcut := cut_eq_some_iff.mpr ⟨heq, h'⟩
  rw [cut_eq_some_iff.mpr ⟨rfl, h⟩] at hcut
  exact Prod.mk.inj (Option.some.inj hcut)

theorem cut_eq_none_iff {needle s : List α} : cut needle s = none ↔ ¬ needle <:+: s := by
  simp [cut, firstIndex_eq_none_iff]

theorem cut_leads {needle a : List α} (b : List α) (h : Leads needle a) :
    cut needle (a ++ (needle ++ b)) = some (a, b) :=
  cut_eq_some_iff.mpr ⟨rfl, h⟩

/-- Input behind an occurrence does not move it. -/
theorem cut_append {needle s a b : List α} (t : List α) (h : cut needle s = some (a, b)) :
    cut needle (s ++ t) = some (a, b ++ t) := by
  obtain ⟨rfl, hl⟩ := cut_eq_some_iff.mp h
  rw [List.append_assoc, List.append_assoc]
  exact cut_leads _ hl

/-- An occurrence that needs more input straddles the old end. -/
theorem length_lt_of_cut_append {needle s t a b : List α} (h : cut needle s = none)
    (h' : cut needle (s ++ t) = some (a, b)) : s.length < a.length + needle.length := by
  obtain ⟨he, -⟩ := cut_eq_some_iff.mp h'
  by_contra hlt
  refine cut_eq_none_iff.mp h ?_
  rw [← List.append_assoc] at he
  have hpre : a ++ needle <+: s :=
    List.prefix_of_prefix_length_le (he ▸ List.prefix_append _ b) (List.prefix_append s t)
      (by simp; omega)
  exact (List.suffix_append a needle).isInfix.trans hpre.isInfix

omit [DecidableEq α] in
/-- Every list splits where a predicate first fails. -/
theorem exists_span (p : α → Bool) (s : List α) :
    ∃ a b, s = a ++ b ∧ (∀ x ∈ a, p x = true) ∧ ∀ x, b.head? = some x → p x = false := by
  refine ⟨s.takeWhile p, s.dropWhile p, List.takeWhile_append_dropWhile.symm,
    fun x hx => List.mem_takeWhile_imp hx, fun x hx => ?_⟩
  have hhead := List.head?_dropWhile_not p s
  rw [hx] at hhead
  exact hhead

end Search
