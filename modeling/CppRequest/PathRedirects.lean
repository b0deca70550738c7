import CppRequest.RedirectPaths
import CppRequest.UrlAuthority

/-!
# Redirects to a path

A Location without a scheme and without an authority is resolved to the origin of the
base, the merged path without its dot segments, and the query of the Location.
-/

namespace CppRequest

open Search Url

/-- A reference and its parts: a path, a query with its mark and a fragment with its mark. -/
structure Reference (path query fragment : Bytes) : Prop where
  path_inside : '?'.toUInt8 ∉ path ∧ '#'.toUInt8 ∉ path
  query_mark : ∀ ch, query.head? = some ch → ch = '?'.toUInt8
  query_inside : '#'.toUInt8 ∉ query
  fragment_mark : ∀ ch, fragment.head? = some ch → ch = '#'.toUInt8

/-- A Location that the code resolves against the path of the base. -/
structure PathReference (location : Bytes) : Prop where
  noScheme : schemeEnd location = none
  noAuthority : ¬ bytes "//" <+: location
  noQuery : location.head? ≠ some '?'.toUInt8
  noFragment : location.head? ≠ some '#'.toUInt8

theorem exists_reference (location : Bytes) :
    ∃ path query fragment, location = path ++ (query ++ fragment) ∧
      Reference path query fragment := by
  rcases exists_span (· != '#'.toUInt8) location with ⟨text, fragment, rfl, hno, hhash⟩
  rcases exists_span (· != '?'.toUInt8) text with ⟨path, query, rfl, hpath, hquery⟩
  refine ⟨path, query, fragment, List.append_assoc _ _ _, ⟨?_, ?_⟩, ?_, ?_, ?_⟩
  · intro hmem
    simpa using hpath _ hmem
  · intro hmem
    simpa using hno _ (List.mem_append_left query hmem)
  · intro ch hch
    simpa using hquery ch hch
  · intro hmem
    simpa using hno _ (List.mem_append_right path hmem)
  · intro ch hch
    simpa using hhash ch hch

namespace Reference

variable {path query fragment : Bytes}

theorem suffix_begin (h : Reference path query fragment) :
    (findFirstOf (path ++ (query ++ fragment)) (bytes "?#") 0).getD
      (path ++ (query ++ fragment)).length = path.length := by
  have hno : ∀ ch ∈ path, (bytes "?#").contains ch = false := by
    intro ch hch
    have hquery : ch ≠ '?'.toUInt8 := fun heq => h.path_inside.1 (heq ▸ hch)
    have hhash : ch ≠ '#'.toUInt8 := fun heq => h.path_inside.2 (heq ▸ hch)
    simp [bytes, hquery, hhash]
  have hat : ∀ ch, (query ++ fragment).head? = some ch → (bytes "?#").contains ch = true := by
    intro ch hch
    cases query with
    | nil =>
      rw [h.fragment_mark ch hch]
      decide
    | cons mark query =>
      rw [h.query_mark ch hch]
      decide
  have hfind := findFirstOf_drop (bytes "?#") path (query ++ fragment) List.drop_zero hno hat
  rw [hfind, Nat.zero_add]
  split_ifs with hnil
  · rw [hnil, List.append_nil]
    rfl
  · rfl

theorem referencePath_eq (h : Reference path query fragment) :
    referencePath (path ++ (query ++ fragment)) = path := by
  rw [referencePath, h.suffix_begin, List.take_left]

theorem referenceSuffix_eq (h : Reference path query fragment) :
    referenceSuffix (path ++ (query ++ fragment)) = query ++ fragment := by
  rw [referenceSuffix, h.suffix_begin, List.drop_left]

/-- What `strip_fragment` leaves of a text in front of the query. -/
theorem stripFragment_eq (h : Reference path query fragment) {before : Bytes}
    (hbefore : '#'.toUInt8 ∉ before) :
    stripFragment (before ++ (query ++ fragment)) = before ++ query := by
  have hno : '#'.toUInt8 ∉ before ++ query := by
    rw [List.mem_append, not_or]
    exact ⟨hbefore, h.query_inside⟩
  rw [← List.append_assoc]
  exact withoutFragment_eq hno h.fragment_mark

end Reference

/-! ## The merged path -/

theorem exists_last_slash {path : Bytes} (h : path.head? = some slash) :
    ∃ front last, path = front ++ slash :: last ∧ slash ∉ last := by
  have hmem : slash ∈ path.reverse := List.mem_reverse.mpr (List.mem_of_mem_head? h)
  rcases List.eq_append_cons_of_mem hmem with ⟨last, front, hsplit, hlast⟩
  refine ⟨front.reverse, last.reverse, ?_, fun hin => hlast (List.mem_reverse.mp hin)⟩
  have hpath := congrArg List.reverse hsplit
  rw [List.reverse_reverse] at hpath
  simp [hpath]

theorem merge_concat (front path : Bytes) {last : Bytes} (hlast : slash ∉ last) :
    DotSegments.merge slash (front ++ slash :: last) path =
      if path.head? = some slash then path else front ++ slash :: path := by
  unfold DotSegments.merge
  split_ifs with hhead hnil
  · rfl
  · simp at hnil
  · rw [DotSegments.rdropWhile_slash _ hlast, List.append_assoc]
    rfl

/-- Merging keeps what a base has up to its last slash. -/
theorem mergePath_eq {base : Url} (hbase : base.path.head? = some slash) (path : Bytes) :
    mergePath base path = DotSegments.merge slash base.path path := by
  rcases exists_last_slash hbase with ⟨front, last, hpath, hlast⟩
  rw [hpath, merge_concat _ _ hlast, mergePath, hpath, rfind_concat _ hlast]
  have htake : (front ++ slash :: last).take (front.length + 1) = front ++ [slash] := by
    rw [← List.singleton_append, ← List.append_assoc]
    exact List.take_left' (by simp)
  simp only [htake, List.append_assoc, List.singleton_append]

theorem merge_head? {base : Bytes} (hbase : base.head? = some slash) (path : Bytes) :
    (DotSegments.merge slash base path).head? = some slash := by
  rcases exists_last_slash hbase with ⟨front, last, rfl, hlast⟩
  rw [merge_concat _ _ hlast]
  split_ifs with hhead
  · exact hhead
  · cases front with
    | nil => rfl
    | cons ch front => exact hbase

/-! ## No number sign in front of the query -/

/-- A path without its dot segments consists of bytes of the path and slashes. -/
theorem mem_removeDotSegments {path : Bytes} {ch : Byte} (h : ch ∈ removeDotSegments path) :
    ch = slash ∨ ch ∈ path := by
  have hsegments : ∀ segment ∈ pathSegments path, ∀ b ∈ segment, b ∈ path := by
    intro segment hsegment b hb
    have hmem := DotSegments.mem_of_mem_splitOn hsegment hb
    split_ifs at hmem
    · exact List.mem_of_mem_drop hmem
    · exact hmem
  have hkept : ∀ segment ∈ (pathSegments path).foldl keepSegment [], ∀ b ∈ segment, b ∈ path := by
    rw [keepSegment_eq]
    exact DotSegments.foldl_keep_all (pathSegments path) (by simp) hsegments
  have hnormalized : ∀ b ∈ slash :: [slash].intercalate ((pathSegments path).foldl keepSegment []),
      b = slash ∨ b ∈ path := by
    intro b hb
    rw [normalized_eq] at hb
    split_ifs at hb
    · exact .inl (List.mem_singleton.mp hb)
    · rw [DotSegments.join, List.mem_flatMap] at hb
      rcases hb with ⟨segment, hsegment, hb⟩
      rcases List.mem_cons.mp hb with hb | hb
      · exact .inl hb
      · exact .inr (hkept segment hsegment b hb)
  unfold removeDotSegments at h
  simp only at h
  split_ifs at h
  · rcases List.mem_append.mp h with h | h
    · exact hnormalized ch h
    · exact .inl (List.mem_singleton.mp h)
  · exact hnormalized ch h

theorem mem_merge {base path : Bytes} {ch : Byte} (h : ch ∈ DotSegments.merge slash base path) :
    ch = slash ∨ ch ∈ base ∨ ch ∈ path := by
  unfold DotSegments.merge at h
  split_ifs at h
  · exact .inr (.inr h)
  · rcases List.mem_cons.mp h with h | h
    · exact .inl h
    · exact .inr (.inr h)
  · rcases List.mem_append.mp h with h | h
    · exact .inr (.inl ((List.rdropWhile_prefix _ base).subset h))
    · exact .inr (.inr h)

/-! ## Resolving -/

theorem removeDotSegments_head? (path : Bytes) : (removeDotSegments path).head? = some slash := by
  unfold removeDotSegments
  simp only
  split_ifs
  · rfl
  · rfl

theorem validateRedirectUrl_ok {inetPton6 : Bytes → Bool} {candidate result : Bytes}
    (h : validateRedirectUrl inetPton6 candidate = .ok result) :
    result = stripFragment candidate ∧ ∃ u, Url.parse inetPton6 result = .ok u := by
  unfold validateRedirectUrl at h
  cases hparse : Url.parse inetPton6 (stripFragment candidate) with
  | error e =>
    simp only [hparse] at h
    split_ifs at h
  | ok u =>
    rw [hparse] at h
    cases h
    exact ⟨rfl, u, hparse⟩

/-- A Location that is resolved against the path of the base. -/
theorem resolve_path {inetPton6 : Bytes → Bool} {base : Url} {location : Bytes}
    (h : PathReference location) (hne : location ≠ []) :
    resolveRedirectLocation inetPton6 base location =
      validateRedirectUrl inetPton6 (buildOrigin base ++
        removeDotSegments (mergePath base (referencePath location)) ++ referenceSuffix location) := by
  have hempty : ¬ location.isEmpty = true := by simpa using hne
  have hauthority : ¬ (bytes "//").isPrefixOf location = true := by
    rw [List.isPrefixOf_iff_prefix]
    exact h.noAuthority
  unfold resolveRedirectLocation
  rw [if_neg hempty, h.noScheme]
  simp only [if_neg hauthority, if_neg h.noFragment, if_neg h.noQuery]

/-- A path redirect is the one of the RFC, unless an empty segment ends up in front of a dot
segment at the end of the merged path. -/
theorem path_redirect_iff (inetPton6 : Bytes → Bool) :
    (∀ path : Bytes, path.head? = some slash →
      (removeDotSegments path = DotSegments.removeDotSegments slash dotByte path ↔
        emptyBeforeDot path = false)) ∧
    ∀ (input : Bytes) (base : Url) (path query fragment result : Bytes),
      Url.parse inetPton6 input = .ok base → Reference path query fragment →
      PathReference (path ++ (query ++ fragment)) →
      resolveRedirectLocation inetPton6 base (path ++ (query ++ fragment)) = .ok result →
      (result = buildOrigin base ++ (DotSegments.removeDotSegments slash dotByte
          (DotSegments.merge slash base.path path) ++ query) ↔
        emptyBeforeDot (DotSegments.merge slash base.path path) = false) := by
  refine ⟨fun path => removeDotSegments_iff, ?_⟩
  intro input base path query fragment result hbase href hpath hresult
  have hhead := Url.path_head? hbase
  have hne : path ++ (query ++ fragment) ≠ [] := by
    intro hnil
    rw [hnil] at hresult
    cases hresult
  rw [resolve_path hpath hne, href.referencePath_eq, href.referenceSuffix_eq,
    mergePath_eq hhead] at hresult
  have hhash : '#'.toUInt8 ∉ buildOrigin base ++
      removeDotSegments (DotSegments.merge slash base.path path) := by
    rw [List.mem_append]
    rintro (hmem | hmem)
    · exact (mem_buildOrigin hbase hmem).1 rfl
    · rcases mem_removeDotSegments hmem with hmem | hmem
      · exact absurd hmem (by decide)
      rcases mem_merge hmem with hmem | hmem | hmem
      · exact absurd hmem (by decide)
      · exact hash_not_mem_storage hbase (List.mem_of_mem_drop (List.mem_of_mem_take hmem))
      · exact href.path_inside.2 hmem
  have heq := (validateRedirectUrl_ok hresult).1
  rw [href.stripFragment_eq hhash, List.append_assoc] at heq
  rw [heq, List.append_cancel_left_eq, List.append_cancel_right_eq]
  exact removeDotSegments_iff (merge_head? hhead path)

/-- The base `http://h/a/b`. -/
def nestedUrl : Url where
  storage := bytes "http://h/a/b"
  schemeSize := 4
  hostBegin := 7
  hostSize := 1
  pathBegin := 8
  pathSize := 4
  queryBegin := 12

theorem path_redirect_nested :
    bytes "http://h/c?q" = buildOrigin nestedUrl ++ (DotSegments.removeDotSegments slash dotByte
      (DotSegments.merge slash nestedUrl.path (bytes "../c")) ++ bytes "?q") := by
  have hbase : Url.parse (fun _ => false) (bytes "http://h/a/b") = .ok nestedUrl := by
    decide +kernel
  have href : Reference (bytes "../c") (bytes "?q") (bytes "#f") :=
    ⟨by decide, fun _ h => (Option.some.inj h).symm, by decide,
      fun _ h => (Option.some.inj h).symm⟩
  have hpath : PathReference (bytes "../c?q#f") := ⟨by decide, by decide, by decide, by decide⟩
  have hresult : resolveRedirectLocation (fun _ => false) nestedUrl (bytes "../c?q#f") =
      .ok (bytes "http://h/c?q") := by decide +kernel
  have hiff := (path_redirect_iff fun _ => false).2 (bytes "http://h/a/b") nestedUrl
    (bytes "../c") (bytes "?q") (bytes "#f") (bytes "http://h/c?q") hbase href hpath hresult
  exact hiff.mpr (by decide)

/-- The slash of an empty segment is taken for the one that a dot segment leaves behind. -/
theorem empty_segment_lost :
    Url.parse (fun _ => false) (bytes "http://h/a/b") = .ok nestedUrl ∧
      PathReference (bytes "/a//.") ∧
      resolveRedirectLocation (fun _ => false) nestedUrl (bytes "/a//.") =
        .ok (bytes "http://h/a/") ∧
      buildOrigin nestedUrl ++ DotSegments.removeDotSegments slash dotByte
        (DotSegments.merge slash nestedUrl.path (bytes "/a//.")) = bytes "http://h/a//" ∧
      removeDotSegments (bytes "/a//.") ≠
        DotSegments.removeDotSegments slash dotByte (bytes "/a//.") := by
  have hrfc : DotSegments.removeDotSegments slash dotByte (bytes "/a//.") = bytes "/a//" := by
    have hinit : ∀ s ∈ [bytes "a", []], slash ∉ s := by decide +kernel
    have hlast : slash ∉ dot := by decide
    have hne : slash ≠ dotByte := by decide
    exact (DotSegments.removeDotSegments_join hne [bytes "a", []] hinit hlast).trans (by decide)
  have hmerge : DotSegments.merge slash nestedUrl.path (bytes "/a//.") = bytes "/a//." :=
    if_pos rfl
  have hcode : removeDotSegments (bytes "/a//.") = bytes "/a/" := by decide +kernel
  refine ⟨by decide +kernel, ⟨by decide, by decide, by decide, by decide⟩, by decide +kernel, ?_, ?_⟩
  · rw [hmerge, hrfc]
    decide +kernel
  · rw [hcode, hrfc]
    decide

end CppRequest
