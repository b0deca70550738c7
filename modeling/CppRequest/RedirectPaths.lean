import CppRequest.DotSegments
import CppRequest.Redirect
import CppRequest.UrlGrammar

/-!
# Path redirects and RFC 3986

`remove_dot_segments` keeps a stack of segments and adds a slash behind a path that ends
in a dot segment, unless the text already ends in one. It differs from the algorithm of
the RFC where that slash belongs to an empty segment in front.
-/

namespace CppRequest

open Search

def dotByte : Byte := '.'.toUInt8

/-! ## The last segment that is kept -/

/-- The last segment that no `..` takes away, walking back from the end of a path with `n` more
segments to be taken away. -/
def lastKept : ℕ → List Bytes → Option Bytes
  | _, [] => none
  | n, segment :: front =>
    if segment = dotDot then lastKept (n + 1) front
    else if segment = dot then lastKept n front
    else match n with
      | 0 => some segment
      | n + 1 => lastKept n front

/-- The path ends in a dot segment, and what it keeps in front of that ends in an empty segment. -/
def emptyBeforeDot (path : Bytes) : Bool :=
  ((pathSegments path).getLast? == some dot || (pathSegments path).getLast? == some dotDot)
    && lastKept 0 (pathSegments path).reverse == some []

theorem keepSegment_eq : keepSegment = DotSegments.keep dotByte := by
  funext segments segment
  show (if segment = [dotByte, dotByte] then _ else if segment ≠ [dotByte] then _ else _) =
    DotSegments.keep dotByte segments segment
  unfold DotSegments.keep
  by_cases htwo : segment = [dotByte, dotByte]
  · rw [if_pos htwo, if_pos htwo]
  · rw [if_neg htwo, if_neg htwo, ite_not]

theorem lastKept_ordinary {segment : Bytes} (n : ℕ) (front : List Bytes) (hone : segment ≠ dot)
    (htwo : segment ≠ dotDot) : lastKept n (segment :: front) =
      match n with
      | 0 => some segment
      | n + 1 => lastKept n front := by
  cases n <;> simp [lastKept, hone, htwo]

theorem lastKept_eq (segments : List Bytes) (n : ℕ) :
    (List.dropLast^[n] (segments.foldl keepSegment [])).getLast? = lastKept n segments.reverse := by
  induction segments using List.reverseRecOn generalizing n with
  | nil =>
    have hnil : ∀ n, List.dropLast^[n] ([] : List Bytes) = [] := by
      intro n
      induction n with
      | zero => rfl
      | succ n ih => exact ih
    rw [List.foldl_nil, hnil]
    simp [lastKept]
  | append_singleton segments segment ih =>
    rw [List.foldl_append, List.foldl_cons, List.foldl_nil, List.reverse_append,
      List.reverse_singleton, List.singleton_append, keepSegment]
    by_cases htwo : segment = dotDot
    · have htake : lastKept n (segment :: segments.reverse) = lastKept (n + 1) segments.reverse := by
        simp [lastKept, htwo]
      rw [if_pos htwo, htake, ← ih (n + 1)]
      rfl
    rw [if_neg htwo, ite_not]
    by_cases hone : segment = dot
    · have hskip : lastKept n (segment :: segments.reverse) = lastKept n segments.reverse := by
        rw [hone]
        cases n <;> simp [lastKept, dot, dotDot, bytes]
      rw [if_pos hone, hskip, ih n]
    · rw [if_neg hone, lastKept_ordinary n _ hone htwo]
      cases n with
      | zero => simp
      | succ n => rw [Function.iterate_succ_apply, List.dropLast_concat, ih n]

/-! ## The two algorithms -/

theorem join_concat (init : List Bytes) (last : Bytes) :
    DotSegments.join slash (init ++ [last]) = DotSegments.join slash init ++ slash :: last := by
  simp [DotSegments.join]

theorem getLast?_slash (front : Bytes) {last : Bytes} (hlast : slash ∉ last) :
    (front ++ slash :: last).getLast? = some slash ↔ last = [] := by
  rcases List.eq_nil_or_concat last with rfl | ⟨text, ch, rfl⟩
  · simp
  · rw [List.concat_eq_append] at hlast ⊢
    have hch : ch ≠ slash := fun h => hlast (by simp [h])
    rw [← List.cons_append, ← List.append_assoc, List.getLast?_concat]
    simp [hch]

/-- A path keeps its trailing slash if its last segment is empty or a dot segment. -/
theorem keepTrailingSlash_iff (init : List Bytes) {last : Bytes} (hlast : slash ∉ last) :
    (!(DotSegments.join slash (init ++ [last])).isEmpty &&
      ((DotSegments.join slash (init ++ [last])).getLast? == some slash
        || (bytes "/.").isSuffixOf (DotSegments.join slash (init ++ [last]))
        || (bytes "/..").isSuffixOf (DotSegments.join slash (init ++ [last])))) = true ↔
      last = [] ∨ last = dot ∨ last = dotDot := by
  have hdot : slash ∉ dot := by decide
  have hdots : slash ∉ dotDot := by decide
  have hone : bytes "/." <:+ DotSegments.join slash init ++ slash :: last ↔ dot = last :=
    DotSegments.suffix_slash_iff _ hdot hlast
  have htwo : bytes "/.." <:+ DotSegments.join slash init ++ slash :: last ↔ dotDot = last :=
    DotSegments.suffix_slash_iff _ hdots hlast
  rw [join_concat, Bool.and_eq_true, Bool.or_eq_true, Bool.or_eq_true, beq_iff_eq,
    List.isSuffixOf_iff_suffix, List.isSuffixOf_iff_suffix, getLast?_slash _ hlast, hone, htwo,
    eq_comm (a := dot), eq_comm (a := dotDot), or_assoc]
  exact and_iff_right (by simp)

/-- The segments that a path keeps, written out. -/
theorem normalized_eq (segments : List Bytes) :
    slash :: [slash].intercalate segments =
      if segments = [] then [slash] else DotSegments.join slash segments := by
  split_ifs with h
  · rw [h]
    rfl
  · exact (DotSegments.join_eq_intercalate h).symm

/-- Behind the segments that are kept a slash is added unless there is one. -/
theorem trailingSlash_eq {segments : List Bytes} {normalized : Bytes}
    (hinside : ∀ s ∈ segments, slash ∉ s)
    (hnormalized : normalized =
      if segments = [] then [slash] else DotSegments.join slash segments) :
    (if (normalized.getLast? != some slash) = true then normalized ++ [slash] else normalized) =
      if segments.getLast? = some [] then DotSegments.join slash segments
      else DotSegments.join slash (segments ++ [[]]) := by
  rcases List.eq_nil_or_concat segments with rfl | ⟨front, s, rfl⟩
  · rw [hnormalized]
    rfl
  · rw [List.concat_eq_append] at hinside hnormalized ⊢
    rw [if_neg (by simp), join_concat] at hnormalized
    have hlast := getLast?_slash (DotSegments.join slash front) (hinside s (by simp))
    rw [← hnormalized] at hlast
    rw [join_concat (front ++ [s]), join_concat, ← hnormalized]
    by_cases hempty : s = []
    · rw [if_neg (by simpa using hlast.mpr hempty), if_pos (by simp [hempty])]
    · rw [if_pos (by simpa using fun h => hempty (hlast.mp h)), if_neg (by simpa using hempty)]

/-- What `remove_dot_segments` makes of a path that begins with a slash. -/
theorem removeDotSegments_join (init : List Bytes) {last : Bytes}
    (hinit : ∀ s ∈ init, slash ∉ s) (hlast : slash ∉ last)
    (hsegments : pathSegments (DotSegments.join slash (init ++ [last])) = init ++ [last]) :
    removeDotSegments (DotSegments.join slash (init ++ [last])) =
      if (last = dot ∨ last = dotDot) ∧
          ((init ++ [last]).foldl keepSegment []).getLast? = some [] then
        DotSegments.join slash ((init ++ [last]).foldl keepSegment [])
      else DotSegments.join slash
        (DotSegments.close dotByte ((init ++ [last]).foldl keepSegment []) last) := by
  have hclose : ∀ segments : List Bytes, DotSegments.close dotByte segments last =
      if last = dot ∨ last = dotDot then segments ++ [[]] else segments := fun _ => rfl
  have hinside : ∀ s ∈ (init ++ [last]).foldl keepSegment [], slash ∉ s := by
    rw [keepSegment_eq]
    apply DotSegments.foldl_keep_all
    · exact fun s hs => absurd hs List.not_mem_nil
    · intro s hs
      rcases List.mem_append.mp hs with hs | hs
      · exact hinit s hs
      · rwa [List.mem_singleton.mp hs]
  have hkeep := keepTrailingSlash_iff init hlast
  have hordinary : ¬ (last = dot ∨ last = dotDot) → (init ++ [last]).foldl keepSegment [] =
      init.foldl keepSegment [] ++ [last] := by
    intro hdot
    rw [not_or] at hdot
    simp [keepSegment, hdot.1, hdot.2]
  unfold removeDotSegments
  simp only [hsegments, normalized_eq]
  rw [hclose]
  by_cases hdot : last = dot ∨ last = dotDot
  · rw [hkeep.mpr (.inr hdot), Bool.true_and, if_pos hdot, trailingSlash_eq hinside rfl]
    by_cases hempty : ((init ++ [last]).foldl keepSegment []).getLast? = some []
    · rw [if_pos hempty, if_pos ⟨hdot, hempty⟩]
    · rw [if_neg hempty, if_neg fun h => hempty h.2]
  · have hnil : init.foldl keepSegment [] ++ [last] ≠ [] := by simp
    rw [if_neg hdot, ite_self, hordinary hdot, if_neg hnil]
    have hslash := getLast?_slash (DotSegments.join slash (init.foldl keepSegment [])) hlast
    have hno : ¬ ((!(DotSegments.join slash (init ++ [last])).isEmpty &&
        ((DotSegments.join slash (init ++ [last])).getLast? == some slash
          || (bytes "/.").isSuffixOf (DotSegments.join slash (init ++ [last]))
          || (bytes "/..").isSuffixOf (DotSegments.join slash (init ++ [last])))) &&
        (DotSegments.join slash (init.foldl keepSegment [] ++ [last])).getLast? !=
          some slash) = true := by
      rw [Bool.and_eq_true, hkeep, or_iff_left hdot, bne_iff_ne, join_concat]
      exact fun h => h.2 (hslash.mpr h.1)
    exact if_neg hno

/-- The code agrees with the algorithm of the RFC, but for one kind of path. -/
theorem removeDotSegments_iff {path : Bytes} (h : path.head? = some slash) :
    removeDotSegments path = DotSegments.removeDotSegments slash dotByte path ↔
      emptyBeforeDot path = false := by
  rcases DotSegments.exists_segments h with ⟨init, last, hsplit, rfl, hinit, hlast⟩
  have hne : slash ≠ dotByte := by decide
  have hsegments : pathSegments (DotSegments.join slash (init ++ [last])) = init ++ [last] := by
    rw [pathSegments, if_pos h, hsplit]
  have hkept := lastKept_eq (init ++ [last]) 0
  have hempty : emptyBeforeDot (DotSegments.join slash (init ++ [last])) = true ↔
      (last = dot ∨ last = dotDot) ∧
        ((init ++ [last]).foldl keepSegment []).getLast? = some [] := by
    rw [emptyBeforeDot, hsegments, ← hkept, List.getLast?_concat]
    simp
  rw [removeDotSegments_join init hinit hlast hsegments,
    DotSegments.removeDotSegments_join hne init hinit hlast, ← keepSegment_eq,
    ← Bool.not_eq_true, hempty]
  by_cases hcase : (last = dot ∨ last = dotDot) ∧
      ((init ++ [last]).foldl keepSegment []).getLast? = some []
  · rw [if_pos hcase]
    refine iff_of_false (fun heq => ?_) (not_not.mpr hcase)
    have hlength := congrArg List.length heq
    have hclose : DotSegments.close dotByte ((init ++ [last]).foldl keepSegment []) last =
        (init ++ [last]).foldl keepSegment [] ++ [[]] := if_pos hcase.1
    rw [hclose, join_concat, List.length_append] at hlength
    simp at hlength
  · rw [if_neg hcase]
    exact iff_of_true rfl hcase

end CppRequest
