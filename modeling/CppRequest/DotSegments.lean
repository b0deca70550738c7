import CppRequest.ExitLoop
import CppRequest.Search

/-!
# Removing dot segments

RFC 3986, 5.2.3 and 5.2.4, over any alphabet with a slash and a dot. The algorithm
rewrites an input buffer and an output buffer; on a path that begins with a slash it
is a stack of segments.
-/

namespace DotSegments

variable {α : Type*} [DecidableEq α] (slash dot : α)

/-! ## The algorithm -/

structure Buffers (α : Type*) where
  input : List α
  output : List α

/-- The output without its last segment and the slash in front of it, if there is one. -/
def removeLast (output : List α) : List α := (output.rdropWhile (· ≠ slash)).dropLast

/-- The first segment of the input, with the slash in front of it. -/
def firstSegment : List α → List α
  | [] => []
  | a :: rest => a :: rest.takeWhile (· ≠ slash)

/-- One round: the rules A to E in their order. -/
def removeStep (s : Buffers α) : Buffers α ⊕ List α :=
  if s.input = [] then .inr s.output
  else if [dot, dot, slash] <+: s.input then .inl { s with input := s.input.drop 3 }
  else if [dot, slash] <+: s.input then .inl { s with input := s.input.drop 2 }
  else if [slash, dot, slash] <+: s.input then .inl { s with input := slash :: s.input.drop 3 }
  else if s.input = [slash, dot] then .inl { s with input := [slash] }
  else if [slash, dot, dot, slash] <+: s.input then
    .inl ⟨slash :: s.input.drop 4, removeLast slash s.output⟩
  else if s.input = [slash, dot, dot] then .inl ⟨[slash], removeLast slash s.output⟩
  else if s.input = [dot] ∨ s.input = [dot, dot] then .inl { s with input := [] }
  else .inl ⟨s.input.drop (firstSegment slash s.input).length,
    s.output ++ firstSegment slash s.input⟩

theorem removeStep_decreases {s s' : Buffers α} (h : removeStep slash dot s = .inl s') :
    s'.input.length < s.input.length := by
  have hlong : ∀ {p : List α}, p <+: s.input → p.length ≤ s.input.length :=
    fun hp => hp.length_le
  unfold removeStep at h
  split_ifs at h with hnil hA hA' hB hB' hC hC' hD
  all_goals
    cases h
    have hpos := List.length_pos_iff.mpr hnil
  · rw [List.length_drop]
    omega
  · rw [List.length_drop]
    omega
  · have hle := hlong hB
    simp only [List.length_cons, List.length_nil, List.length_drop] at hle ⊢
    omega
  · rw [hB']
    exact Nat.lt_succ_self 1
  · have hle := hlong hC
    simp only [List.length_cons, List.length_nil, List.length_drop] at hle ⊢
    omega
  · rw [hC']
    exact Nat.lt_succ_of_lt (Nat.lt_succ_self 1)
  · exact hpos
  · have hfirst : 0 < (firstSegment slash s.input).length := by
      cases hs : s.input with
      | nil => exact absurd hs hnil
      | cons a rest => exact Nat.succ_pos _
    rw [List.length_drop]
    omega

def removeLoop : ExitLoop (Buffers α) (List α) where
  step := removeStep slash dot
  measure s := s.input.length
  decreases := removeStep_decreases slash dot

def removeDotSegments (path : List α) : List α := (removeLoop slash dot).run ⟨path, []⟩

/-- A reference that begins with a slash replaces the path of the base, any other one replaces its
last segment. -/
def merge (basePath reference : List α) : List α :=
  if reference.head? = some slash then reference
  else if basePath = [] then slash :: reference
  else basePath.rdropWhile (· ≠ slash) ++ reference

/-! ## The stack of segments -/

/-- What a segment does to the segments in front of it. -/
def keep (segments : List (List α)) (segment : List α) : List (List α) :=
  if segment = [dot, dot] then segments.dropLast
  else if segment = [dot] then segments
  else segments ++ [segment]

/-- A path that ends in a dot segment ends in a slash. -/
def close (segments : List (List α)) (last : List α) : List (List α) :=
  if last = [dot] ∨ last = [dot, dot] then segments ++ [[]] else segments

def join (segments : List (List α)) : List α := segments.flatMap fun s => slash :: s

variable {slash dot}

theorem rdropWhile_slash (a : List α) {s : List α} (hs : slash ∉ s) :
    (a ++ slash :: s).rdropWhile (· ≠ slash) = a ++ [slash] := by
  have hpos : ∀ x ∈ s.reverse, decide (x ≠ slash) = true := by
    intro x hx
    exact decide_eq_true fun h => hs (h ▸ List.mem_reverse.mp hx)
  rw [List.rdropWhile, List.reverse_append, List.reverse_cons, List.append_assoc,
    List.dropWhile_append_of_pos hpos, List.singleton_append,
    List.dropWhile_cons_of_neg (by simp)]
  simp

theorem removeLast_join {segments : List (List α)} (h : ∀ s ∈ segments, slash ∉ s) :
    removeLast slash (join slash segments) = join slash segments.dropLast := by
  induction segments using List.reverseRecOn with
  | nil => rfl
  | append_singleton segments s ih =>
    have hs : slash ∉ s := h s (by simp)
    have hjoin : join slash (segments ++ [s]) = join slash segments ++ slash :: s := by simp [join]
    rw [hjoin, removeLast, rdropWhile_slash _ hs, List.dropLast_concat, List.dropLast_concat]

/-- The text up to the first slash is the whole segment. -/
theorem prefix_slash_iff {p s : List α} (r : List α) (hp : slash ∉ p) (hs : slash ∉ s) :
    p ++ [slash] <+: s ++ slash :: r ↔ p = s := by
  constructor
  · rintro ⟨t, ht⟩
    rw [List.append_assoc] at ht
    exact ((Search.leads_singleton.mpr hp).inj (Search.leads_singleton.mpr hs) ht).1
  · rintro rfl
    exact ⟨r, by simp⟩

/-- The text from the last slash on is the whole segment. -/
theorem suffix_slash_iff {p s : List α} (a : List α) (hp : slash ∉ p) (hs : slash ∉ s) :
    slash :: p <:+ a ++ slash :: s ↔ p = s := by
  have hp' : slash ∉ p.reverse := fun h => hp (List.mem_reverse.mp h)
  have hs' : slash ∉ s.reverse := fun h => hs (List.mem_reverse.mp h)
  have hiff := prefix_slash_iff a.reverse hp' hs'
  rw [List.reverse_inj] at hiff
  rw [← List.reverse_prefix, ← hiff]
  simp

omit [DecidableEq α] in
theorem not_prefix_slash {p s : List α} (hs : slash ∉ s) : ¬ p ++ [slash] <+: s := by
  intro h
  exact hs (h.subset (by simp))

theorem firstSegment_slash {s : List α} (r : List α) (hs : slash ∉ s) :
    firstSegment slash (slash :: (s ++ slash :: r)) = slash :: s := by
  have hpos : ∀ x ∈ s, decide (x ≠ slash) = true := fun x hx => decide_eq_true fun h => hs (h ▸ hx)
  rw [firstSegment, List.takeWhile_append_of_pos hpos, List.takeWhile_cons_of_neg (by simp),
    List.append_nil]

theorem firstSegment_last {s : List α} (hs : slash ∉ s) :
    firstSegment slash (slash :: s) = slash :: s := by
  have hself : s.takeWhile (· ≠ slash) = s := by
    rw [List.takeWhile_eq_self_iff]
    exact fun x hx => decide_eq_true fun h => hs (h ▸ hx)
  rw [firstSegment, hself]

/-- A segment with more behind it. -/
theorem removeStep_segment (hne : slash ≠ dot) {segments : List (List α)} {s : List α}
    (r : List α) (h : ∀ s ∈ segments, slash ∉ s) (hs : slash ∉ s) :
    removeStep slash dot ⟨slash :: (s ++ slash :: r), join slash segments⟩ =
      .inl ⟨slash :: r, join slash (keep dot segments s)⟩ := by
  have hdot : slash ∉ [dot] := by simpa using hne
  have hdots : slash ∉ [dot, dot] := by simpa using hne
  have hA : ∀ p, ¬ dot :: p <+: slash :: (s ++ slash :: r) := by
    rintro p ⟨t, ht⟩
    exact hne (List.cons_eq_cons.mp ht).1.symm
  have hB : [slash, dot, slash] <+: slash :: (s ++ slash :: r) ↔ [dot] = s := by
    rw [← prefix_slash_iff r hdot hs]
    exact List.prefix_cons_inj slash
  have hC : [slash, dot, dot, slash] <+: slash :: (s ++ slash :: r) ↔ [dot, dot] = s := by
    rw [← prefix_slash_iff r hdots hs]
    exact List.prefix_cons_inj slash
  have hlast : ∀ {p : List α}, slash ∉ p → slash :: (s ++ slash :: r) ≠ slash :: p := by
    intro p hp heq
    exact hp ((List.cons_eq_cons.mp heq).2 ▸ by simp)
  have hD : ¬ (slash :: (s ++ slash :: r) = [dot] ∨ slash :: (s ++ slash :: r) = [dot, dot]) := by
    rintro (heq | heq)
    · exact hne (List.cons_eq_cons.mp heq).1
    · exact hne (List.cons_eq_cons.mp heq).1
  unfold removeStep
  rw [if_neg (List.cons_ne_nil _ _), if_neg (hA _), if_neg (hA _), if_neg (hlast hdot),
    if_neg (hlast hdots), if_neg hD]
  by_cases hone : [dot] = s
  · rw [if_pos (hB.mpr hone), ← hone]
    simp [keep]
  rw [if_neg fun h => hone (hB.mp h)]
  by_cases htwo : [dot, dot] = s
  · rw [if_pos (hC.mpr htwo), removeLast_join h, ← htwo]
    simp [keep]
  · rw [if_neg fun h => htwo (hC.mp h), firstSegment_slash r hs, keep, if_neg (Ne.symm htwo),
      if_neg (Ne.symm hone)]
    simp [join]

/-- The last segment. -/
theorem removeStep_last (hne : slash ≠ dot) {s : List α} (output : List α) (hs : slash ∉ s) :
    removeStep slash dot ⟨slash :: s, output⟩ =
      if s = [dot] then .inl ⟨[slash], output⟩
      else if s = [dot, dot] then .inl ⟨[slash], removeLast slash output⟩
      else .inl ⟨[], output ++ slash :: s⟩ := by
  have hA : ∀ p, ¬ dot :: p <+: slash :: s := by
    rintro p ⟨t, ht⟩
    exact hne (List.cons_eq_cons.mp ht).1.symm
  have hB : ¬ [slash, dot, slash] <+: slash :: s := fun hp =>
    not_prefix_slash (p := [dot]) hs ((List.prefix_cons_inj slash).mp hp)
  have hC : ¬ [slash, dot, dot, slash] <+: slash :: s := fun hp =>
    not_prefix_slash (p := [dot, dot]) hs ((List.prefix_cons_inj slash).mp hp)
  have hD : ¬ (slash :: s = [dot] ∨ slash :: s = [dot, dot]) := by
    rintro (heq | heq)
    · exact hne (List.cons_eq_cons.mp heq).1
    · exact hne (List.cons_eq_cons.mp heq).1
  unfold removeStep
  rw [if_neg (List.cons_ne_nil _ _), if_neg (hA _), if_neg (hA _), if_neg hB, if_neg hC,
    if_neg hD, firstSegment_last hs]
  simp only [List.cons.injEq, true_and, List.drop_length]

theorem run_nil (output : List α) : (removeLoop slash dot).run ⟨[], output⟩ = output :=
  (removeLoop slash dot).run_of_exit (s := ⟨[], output⟩) rfl

theorem run_last (hne : slash ≠ dot) {segments : List (List α)} {s : List α}
    (h : ∀ s ∈ segments, slash ∉ s) (hs : slash ∉ s) :
    (removeLoop slash dot).run ⟨slash :: s, join slash segments⟩ =
      join slash (close dot (keep dot segments s) s) := by
  have hstep : (removeLoop slash dot).step ⟨slash :: s, join slash segments⟩ = _ :=
    removeStep_last hne (join slash segments) hs
  have hend : ∀ output : List α,
      (removeLoop slash dot).run ⟨[slash], output⟩ = output ++ [slash] := by
    intro output
    have hslash : (removeLoop slash dot).step ⟨[slash], output⟩ = _ :=
      removeStep_last hne output List.not_mem_nil
    rw [if_neg (by simp), if_neg (by simp)] at hslash
    rw [(removeLoop slash dot).run_of_next hslash, run_nil]
  by_cases hone : s = [dot]
  · rw [if_pos hone] at hstep
    rw [(removeLoop slash dot).run_of_next hstep, hend, hone]
    simp [close, keep, join]
  rw [if_neg hone] at hstep
  by_cases htwo : s = [dot, dot]
  · rw [if_pos htwo, removeLast_join h] at hstep
    rw [(removeLoop slash dot).run_of_next hstep, hend, htwo]
    simp [close, keep, join]
  · rw [if_neg htwo] at hstep
    rw [(removeLoop slash dot).run_of_next hstep, run_nil, close, keep, if_neg htwo, if_neg hone,
      if_neg (not_or.mpr ⟨hone, htwo⟩)]
    simp [join]

theorem keep_all {P : List α → Prop} {segments : List (List α)} {s : List α}
    (h : ∀ s ∈ segments, P s) (hs : P s) : ∀ s' ∈ keep dot segments s, P s' := by
  intro s' hs'
  unfold keep at hs'
  split_ifs at hs'
  · exact h s' (List.mem_of_mem_dropLast hs')
  · exact h s' hs'
  · rcases List.mem_append.mp hs' with hs' | hs'
    · exact h s' hs'
    · rwa [List.mem_singleton.mp hs']

theorem foldl_keep_all {P : List α → Prop} {kept : List (List α)} (segments : List (List α))
    (h : ∀ s ∈ kept, P s) (hs : ∀ s ∈ segments, P s) :
    ∀ s ∈ segments.foldl (keep dot) kept, P s := by
  induction segments generalizing kept with
  | nil => exact h
  | cons s segments ih =>
    exact ih (keep_all h (hs s List.mem_cons_self))
      fun s' hs' => hs s' (List.mem_cons_of_mem _ hs')

theorem run_segments (hne : slash ≠ dot) {segments : List (List α)} (init : List (List α))
    {last : List α} (h : ∀ s ∈ segments, slash ∉ s) (hinit : ∀ s ∈ init, slash ∉ s)
    (hlast : slash ∉ last) :
    (removeLoop slash dot).run ⟨join slash (init ++ [last]), join slash segments⟩ =
      join slash (close dot ((init ++ [last]).foldl (keep dot) segments) last) := by
  induction init generalizing segments with
  | nil =>
    have hrun := run_last hne h hlast
    simpa [join] using hrun
  | cons s init ih =>
    have hs := hinit s List.mem_cons_self
    have hrest : ∃ r, join slash (init ++ [last]) = slash :: r := by
      cases init with
      | nil => exact ⟨last, by simp [join]⟩
      | cons s' init => exact ⟨s' ++ join slash (init ++ [last]), by simp [join]⟩
    rcases hrest with ⟨r, hr⟩
    have hinput : join slash (s :: init ++ [last]) = slash :: (s ++ slash :: r) := by
      rw [← hr]
      simp [join]
    have hstep : (removeLoop slash dot).step ⟨slash :: (s ++ slash :: r), join slash segments⟩ = _ :=
      removeStep_segment hne r h hs
    have hrun := @ih (keep dot segments s) (keep_all h hs)
      fun s' hs' => hinit s' (List.mem_cons_of_mem _ hs')
    rw [hinput, (removeLoop slash dot).run_of_next hstep, ← hr, hrun]
    rfl

/-- The algorithm on a path that begins with a slash, given by its segments. -/
theorem removeDotSegments_join (hne : slash ≠ dot) (init : List (List α)) {last : List α}
    (hinit : ∀ s ∈ init, slash ∉ s) (hlast : slash ∉ last) :
    removeDotSegments slash dot (join slash (init ++ [last])) =
      join slash (close dot ((init ++ [last]).foldl (keep dot) []) last) := by
  have hnil : ∀ s ∈ ([] : List (List α)), slash ∉ s := fun s hs => absurd hs List.not_mem_nil
  exact run_segments hne init hnil hinit hlast

theorem not_mem_splitOn {path s : List α} (hs : s ∈ path.splitOn slash) : slash ∉ s := by
  induction path generalizing s with
  | nil =>
    rw [List.splitOn_nil, List.mem_singleton] at hs
    rw [hs]
    exact List.not_mem_nil
  | cons a path ih =>
    rw [List.splitOn_cons_eq_if_modifyHead] at hs
    split_ifs at hs with ha
    · rcases List.mem_cons.mp hs with rfl | hs
      · exact List.not_mem_nil
      · exact ih hs
    · rcases List.exists_cons_of_ne_nil (List.splitOn_ne_nil slash path) with ⟨t, ts, hts⟩
      rw [hts] at hs ih
      rw [List.modifyHead_cons, List.mem_cons] at hs
      have hne : slash ≠ a := fun h => ha (by simp [h])
      rcases hs with rfl | hs
      · rw [List.mem_cons, not_or]
        exact ⟨hne, ih List.mem_cons_self⟩
      · exact ih (List.mem_cons_of_mem _ hs)

omit [DecidableEq α] in
theorem mem_intercalate_of_mem {a b : α} {parts : List (List α)} {part : List α}
    (hpart : part ∈ parts) (hb : b ∈ part) : b ∈ [a].intercalate parts := by
  induction parts with
  | nil => cases hpart
  | cons first parts ih =>
    rcases eq_or_ne parts [] with rfl | hne
    · rw [List.mem_singleton.mp hpart] at hb
      simpa using hb
    · rw [List.intercalate_cons_of_ne_nil hne, List.append_assoc, List.mem_append]
      rcases List.mem_cons.mp hpart with rfl | hpart
      · exact .inl hb
      · exact .inr (List.mem_append_right _ (ih hpart))

theorem mem_of_mem_splitOn {path s : List α} {b : α} (hs : s ∈ path.splitOn slash) (hb : b ∈ s) :
    b ∈ path := by
  have hmem := mem_intercalate_of_mem (a := slash) hs hb
  rwa [List.intercalate_splitOn] at hmem

omit [DecidableEq α] in
theorem join_eq_intercalate {segments : List (List α)} (hne : segments ≠ []) :
    join slash segments = slash :: [slash].intercalate segments := by
  induction segments with
  | nil => exact absurd rfl hne
  | cons s segments ih =>
    rcases eq_or_ne segments [] with rfl | hrest
    · simp [join]
    · have hjoin : join slash (s :: segments) = slash :: s ++ join slash segments := rfl
      rw [hjoin, ih hrest, List.intercalate_cons_of_ne_nil hrest]
      simp

/-- The segments of a path that begins with a slash. -/
theorem exists_segments {path : List α} (h : path.head? = some slash) :
    ∃ init last, (path.drop 1).splitOn slash = init ++ [last] ∧
      path = join slash (init ++ [last]) ∧ (∀ s ∈ init, slash ∉ s) ∧ slash ∉ last := by
  cases path with
  | nil => cases h
  | cons a path =>
    cases h
    rcases List.eq_nil_or_concat (path.splitOn slash) with hnil | ⟨init, last, hsplit⟩
    · exact absurd hnil (List.splitOn_ne_nil slash path)
    have hinside : ∀ s ∈ init ++ [last], slash ∉ s := by
      intro s hs
      rw [← List.concat_eq_append, ← hsplit] at hs
      exact not_mem_splitOn hs
    rw [List.concat_eq_append] at hsplit
    refine ⟨init, last, hsplit, ?_, fun s hs => hinside s (by simp [hs]), hinside last (by simp)⟩
    rw [join_eq_intercalate (by simp), ← hsplit, List.intercalate_splitOn]

end DotSegments
