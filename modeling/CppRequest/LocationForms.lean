import CppRequest.PathRedirects
import CppRequest.QueryParams

/-!
# Three ways to write a Location

A path can be written with the authority and the scheme of the base in front of it. Only
the form without them has its dot segments removed.
-/

namespace CppRequest

open Search Url

/-! ## What may stand behind an authority, in parts -/

/-- An escape does not reach across a byte that is no hexadecimal digit. -/
theorem validPercentEscapes_cut (a : Bytes) {b : Bytes}
    (h : ∀ ch, b.head? = some ch → isHexDigit ch = false) :
    validPercentEscapes (a ++ b) = (validPercentEscapes a && validPercentEscapes b) := by
  induction a using validPercentEscapes.induct with
  | case1 => rfl
  | case2 ch text hch ih =>
    have hne : ch ≠ '%'.toUInt8 := by simpa using hch
    rw [List.cons_append, validPercentEscapes_cons _ hne, validPercentEscapes_cons _ hne, ih]
  | case3 ch hch hi lo text ih =>
    have heq : ch = '%'.toUInt8 := by simpa using hch
    rw [heq, List.cons_append, List.cons_append, List.cons_append, validPercentEscapes_escape,
      validPercentEscapes_escape, ih, Bool.and_assoc _ (validPercentEscapes text)]
  | case4 ch text hch hshort =>
    have heq : ch = '%'.toUInt8 := by simpa using hch
    have hleft : validPercentEscapes (ch :: text) = false := by
      unfold validPercentEscapes
      rw [if_neg hch]
      cases text with
      | nil => rfl
      | cons hi text =>
        cases text with
        | nil => rfl
        | cons lo text => exact absurd rfl (hshort hi lo text)
    rw [hleft, Bool.false_and]
    cases text with
    | nil =>
      cases b with
      | nil => exact hleft
      | cons x b =>
        cases b with
        | nil =>
          unfold validPercentEscapes
          exact if_neg hch
        | cons y b =>
          rw [heq, List.cons_append, List.nil_append, validPercentEscapes_escape, h x rfl]
          rfl
    | cons hi text =>
      cases text with
      | nil =>
        cases b with
        | nil => exact hleft
        | cons x b =>
          rw [heq, List.cons_append, List.cons_append, List.nil_append,
            validPercentEscapes_escape, h x rfl, Bool.and_false, Bool.false_and]
      | cons lo text => exact absurd rfl (hshort hi lo text)

theorem usable_cut (a : Bytes) {b : Bytes}
    (h : ∀ ch, b.head? = some ch → isHexDigit ch = false) :
    usable (a ++ b) = (usable a && usable b) := by
  unfold usable
  rw [containsForbidden_append, validPercentEscapes_cut a h, Bool.not_or]
  ac_rfl

theorem usable_slash (text : Bytes) : usable (slash :: text) = usable text := by
  unfold usable
  rw [validPercentEscapes_cons text (by decide)]
  rfl

/-- A path and a query are usable if the segments and the query are. -/
theorem usable_join (segments : List Bytes) {query : Bytes}
    (h : ∀ ch, query.head? = some ch → isHexDigit ch = false) :
    usable (DotSegments.join slash segments ++ query) = (segments.all usable && usable query) := by
  induction segments with
  | nil => rfl
  | cons segment segments ih =>
    have hhead : ∀ ch, (DotSegments.join slash segments ++ query).head? = some ch →
        isHexDigit ch = false := by
      intro ch hch
      cases segments with
      | nil => exact h ch hch
      | cons s rest =>
        cases hch
        decide
    have hjoin : DotSegments.join slash (segment :: segments) ++ query =
        [slash] ++ (segment ++ (DotSegments.join slash segments ++ query)) := by
      simp [DotSegments.join]
    rw [hjoin, List.singleton_append, usable_slash, usable_cut segment hhead, ih, List.all_cons,
      Bool.and_assoc]

/-! ## Dot segments -/

def hasDotSegment (path : Bytes) : Bool :=
  (pathSegments path).contains dot || (pathSegments path).contains dotDot

theorem hasDotSegment_eq_false {path : Bytes} :
    hasDotSegment path = false ↔ ∀ s ∈ pathSegments path, s ≠ dot ∧ s ≠ dotDot := by
  rw [hasDotSegment, Bool.or_eq_false_iff, ← Bool.not_eq_true, ← Bool.not_eq_true,
    List.contains_iff_mem, List.contains_iff_mem]
  constructor
  · intro h s hs
    exact ⟨fun heq => h.1 (heq ▸ hs), fun heq => h.2 (heq ▸ hs)⟩
  · intro h
    exact ⟨fun hmem => (h dot hmem).1 rfl, fun hmem => (h dotDot hmem).2 rfl⟩

theorem pathSegments_join {segments : List Bytes} (hne : segments ≠ [])
    (h : ∀ s ∈ segments, slash ∉ s) : pathSegments (DotSegments.join slash segments) = segments := by
  rw [DotSegments.join_eq_intercalate hne, pathSegments]
  exact List.splitOn_intercalate slash h hne

theorem not_dot_of_kept (segments : List Bytes) :
    ∀ s ∈ segments.foldl keepSegment [], s ≠ dot ∧ s ≠ dotDot := by
  induction segments using List.reverseRecOn with
  | nil => simp
  | append_singleton segments segment ih =>
    rw [List.foldl_append, List.foldl_cons, List.foldl_nil, keepSegment]
    intro s hs
    split_ifs at hs with htwo hone
    · exact ih s (List.mem_of_mem_dropLast hs)
    · rcases List.mem_append.mp hs with hs | hs
      · exact ih s hs
      · rw [List.mem_singleton.mp hs]
        exact ⟨hone, htwo⟩
    · exact ih s hs

theorem kept_of_not_dot {segments : List Bytes} (h : ∀ s ∈ segments, s ≠ dot ∧ s ≠ dotDot) :
    segments.foldl keepSegment [] = segments := by
  induction segments using List.reverseRecOn with
  | nil => rfl
  | append_singleton segments segment ih =>
    have hlast := h segment (by simp)
    rw [List.foldl_append, List.foldl_cons, List.foldl_nil,
      ih fun s hs => h s (List.mem_append_left _ hs), keepSegment, if_neg hlast.2, if_pos hlast.1]

/-- Behind the segments that are kept both algorithms write nothing or a slash. -/
theorem exists_close {path : Bytes} (h : path.head? = some slash) :
    path = DotSegments.join slash (pathSegments path) ∧ (∀ s ∈ pathSegments path, slash ∉ s) ∧
      ∃ front front' : List Bytes, (front = [] ∨ front = [[]]) ∧ (front' = [] ∨ front' = [[]]) ∧
        removeDotSegments path =
          DotSegments.join slash ((pathSegments path).foldl keepSegment [] ++ front) ∧
        DotSegments.removeDotSegments slash dotByte path =
          DotSegments.join slash ((pathSegments path).foldl keepSegment [] ++ front') ∧
        (hasDotSegment path = false → front = []) := by
  rcases DotSegments.exists_segments h with ⟨init, last, hsplit, hpath, hinit, hlast⟩
  have hsegments : pathSegments path = init ++ [last] := by
    rw [pathSegments, if_pos h, hsplit]
  have hinside : ∀ s ∈ init ++ [last], slash ∉ s := by
    intro s hs
    rcases List.mem_append.mp hs with hs | hs
    · exact hinit s hs
    · rwa [List.mem_singleton.mp hs]
  have hrfc := DotSegments.removeDotSegments_join (show slash ≠ dotByte by decide) init hinit hlast
  have hcode := removeDotSegments_join init hinit hlast (hpath ▸ hsegments)
  have hclose : ∀ kept : List Bytes, ∃ front, (front = [] ∨ front = [[]]) ∧
      DotSegments.close dotByte kept last = kept ++ front ∧
      (last ≠ dot → last ≠ dotDot → front = []) := by
    intro kept
    unfold DotSegments.close
    split_ifs with hdot
    · refine ⟨[[]], .inr rfl, rfl, fun hone htwo => ?_⟩
      exact absurd hdot (not_or.mpr ⟨hone, htwo⟩)
    · exact ⟨[], .inl rfl, (List.append_nil _).symm, fun _ _ => rfl⟩
  rcases hclose ((init ++ [last]).foldl keepSegment []) with ⟨front', hfront', heq, hplain⟩
  rw [← keepSegment_eq, heq, ← hpath] at hrfc
  rw [heq, ← hpath] at hcode
  rw [hsegments]
  refine ⟨hpath, hinside, ?_⟩
  by_cases hempty : (last = dot ∨ last = dotDot) ∧
      ((init ++ [last]).foldl keepSegment []).getLast? = some []
  · rw [if_pos hempty] at hcode
    refine ⟨[], front', .inl rfl, hfront', ?_, hrfc, fun _ => rfl⟩
    rw [hcode, List.append_nil]
  · rw [if_neg hempty] at hcode
    refine ⟨front', front', hfront', hfront', hcode, hrfc, fun hno => ?_⟩
    have hmem : last ∈ pathSegments path := by
      rw [hsegments]
      exact List.mem_append_right _ (List.mem_singleton_self last)
    have hlast := hasDotSegment_eq_false.mp hno last hmem
    exact hplain hlast.1 hlast.2

/-- What is left has no dot segment. -/
theorem hasDotSegment_removeDotSegments {path : Bytes} (h : path.head? = some slash) :
    hasDotSegment (removeDotSegments path) = false := by
  rcases exists_close h with ⟨-, hinside, front, _, hfront, _, hcode, -⟩
  have hne : (pathSegments path).foldl keepSegment [] ++ front ≠ [] := by
    intro hnil
    have hhead := removeDotSegments_head? path
    rw [hcode, hnil] at hhead
    cases hhead
  have hkept : ∀ s ∈ (pathSegments path).foldl keepSegment [] ++ front,
      slash ∉ s ∧ s ≠ dot ∧ s ≠ dotDot := by
    have hslash : ∀ s ∈ (pathSegments path).foldl keepSegment [], slash ∉ s := by
      rw [keepSegment_eq]
      exact DotSegments.foldl_keep_all _ (by simp) hinside
    intro s hs
    rcases List.mem_append.mp hs with hs | hs
    · exact ⟨hslash s hs, not_dot_of_kept _ s hs⟩
    · rcases hfront with rfl | rfl
      · cases hs
      · rw [List.mem_singleton.mp hs]
        decide
  rw [hasDotSegment_eq_false, hcode, pathSegments_join hne fun s hs => (hkept s hs).1]
  exact fun s hs => (hkept s hs).2

/-- A path is left as it is if it has no dot segment. -/
theorem removeDotSegments_eq_self_iff {path : Bytes} (h : path.head? = some slash) :
    removeDotSegments path = path ↔ hasDotSegment path = false := by
  constructor
  · intro heq
    rw [← heq]
    exact hasDotSegment_removeDotSegments h
  · intro hno
    rcases exists_close h with ⟨hpath, -, front, _, -, -, hcode, -, hplain⟩
    have hkept := kept_of_not_dot (hasDotSegment_eq_false.mp hno)
    rw [hcode, hplain hno, hkept, List.append_nil]
    exact hpath.symm

theorem usable_removeDotSegments {path query : Bytes} (h : path.head? = some slash)
    (hquery : ∀ ch, query.head? = some ch → isHexDigit ch = false) :
    usable (removeDotSegments path ++ query) =
        usable (DotSegments.removeDotSegments slash dotByte path ++ query) ∧
      (usable (path ++ query) = true → usable (removeDotSegments path ++ query) = true) := by
  rcases exists_close h with ⟨hpath, hinside, front, front', hfront, hfront', hcode, hrfc, _⟩
  have hnil : ∀ front : List Bytes, front = [] ∨ front = [[]] → front.all usable = true := by
    rintro _ (rfl | rfl)
    · rfl
    · rfl
  constructor
  · rw [hcode, hrfc, usable_join _ hquery, usable_join _ hquery, List.all_append, List.all_append,
      hnil _ hfront, hnil _ hfront']
  · intro hraw
    rw [hpath, usable_join _ hquery, Bool.and_eq_true, List.all_eq_true] at hraw
    have hkept : ∀ s ∈ (pathSegments path).foldl keepSegment [], usable s = true := by
      rw [keepSegment_eq]
      exact DotSegments.foldl_keep_all _ (by simp) hraw.1
    rw [hcode, usable_join _ hquery, List.all_append, hnil _ hfront, Bool.and_true,
      List.all_eq_true.mpr hkept, hraw.2]
    rfl

/-! ## The three forms -/

section Forms

variable {inetPton6 : Bytes → Bool} {input : Bytes} {base : Url} {path query fragment : Bytes}

/-- A path behind the origin of the base is refused only for its bytes and escapes. -/
theorem validate_origin (hbase : Url.parse inetPton6 input = .ok base)
    (href : Reference path query fragment) {tail : Bytes} (hhead : tail.head? = some slash)
    (hhash : '#'.toUInt8 ∉ tail) :
    validateRedirectUrl inetPton6 (buildOrigin base ++ (tail ++ (query ++ fragment))) =
      if usable (tail ++ query) = true then .ok (buildOrigin base ++ (tail ++ query))
      else .error { code := .invalidUrl } := by
  have horigin : '#'.toUInt8 ∉ buildOrigin base ++ tail := by
    rw [List.mem_append, not_or]
    exact ⟨fun hmem => (mem_buildOrigin hbase hmem).1 rfl, hhash⟩
  have hstrip := href.stripFragment_eq horigin
  rw [List.append_assoc, List.append_assoc] at hstrip
  have hne : tail ≠ [] := by
    rintro rfl
    cases hhead
  have hhead' : (tail ++ query).head? = some slash := by
    rw [List.head?_append_of_ne_nil _ hne, hhead]
  have hhash' : '#'.toUInt8 ∉ tail ++ query := by
    rw [List.mem_append, not_or]
    exact ⟨hhash, href.query_inside⟩
  rcases parse_origin hbase hhead' hhash' with ⟨v, _, _, _, _, _, hparse⟩
  unfold validateRedirectUrl
  rw [hstrip, hparse]
  split_ifs <;> rfl

theorem resolve_schemeRelative (text : Bytes) :
    resolveRedirectLocation inetPton6 base (bytes "//" ++ text) =
      validateRedirectUrl inetPton6 (bytes "http://" ++ text) := rfl

theorem resolve_absolute (text : Bytes) :
    resolveRedirectLocation inetPton6 base (bytes "http://" ++ text) =
      validateRedirectUrl inetPton6 (bytes "http://" ++ text) := by
  have hscheme : schemeEnd (bytes "http://" ++ text) = some 4 := rfl
  unfold resolveRedirectLocation
  rw [hscheme]
  rfl

theorem pathReference_absolute (href : Reference path query fragment)
    (hhead : path.head? = some slash) (hauthority : ¬ bytes "//" <+: path) :
    PathReference (path ++ (query ++ fragment)) := by
  cases path with
  | nil => cases hhead
  | cons ch path =>
    cases hhead
    refine ⟨rfl, ?_, fun h => absurd (Option.some.inj h) (by decide),
      fun h => absurd (Option.some.inj h) (by decide)⟩
    rintro ⟨text, htext⟩
    have htail : slash :: text = path ++ (query ++ fragment) := (List.cons_eq_cons.mp htext).2
    cases path with
    | nil =>
      have hmark : (query ++ fragment).head? = some slash := by
        rw [List.nil_append] at htail
        rw [← htail]
        rfl
      cases query with
      | nil => exact absurd (href.fragment_mark slash hmark) (by decide)
      | cons ch query =>
        cases hmark
        exact absurd (href.query_mark slash rfl) (by decide)
    | cons ch path =>
      have hch : slash = ch := (List.cons_eq_cons.mp htail).1
      exact hauthority ⟨path, by rw [← hch]; rfl⟩

theorem resolve_absolutePath (href : Reference path query fragment)
    (hhead : path.head? = some slash) (hauthority : ¬ bytes "//" <+: path) :
    resolveRedirectLocation inetPton6 base (path ++ (query ++ fragment)) =
      validateRedirectUrl inetPton6
        (buildOrigin base ++ (removeDotSegments path ++ (query ++ fragment))) := by
  have hne : path ++ (query ++ fragment) ≠ [] := by
    intro hnil
    rw [(List.append_eq_nil_iff.mp hnil).1] at hhead
    cases hhead
  have hmerge : mergePath base path = path := if_pos hhead
  rw [resolve_path (pathReference_absolute href hhead hauthority) hne, href.referencePath_eq,
    href.referenceSuffix_eq, hmerge, List.append_assoc]

/-- The three forms of a Location agree unless two of them keep a dot segment. -/
theorem location_forms_iff (hbase : Url.parse inetPton6 input = .ok base)
    (href : Reference path query fragment) (hhead : path.head? = some slash)
    (hauthority : ¬ bytes "//" <+: path) :
    (resolveRedirectLocation inetPton6 base (path ++ (query ++ fragment)) =
        resolveRedirectLocation inetPton6 base
          (bytes "//" ++ (generatedHost base ++ (path ++ (query ++ fragment)))) ∧
      resolveRedirectLocation inetPton6 base (path ++ (query ++ fragment)) =
        resolveRedirectLocation inetPton6 base
          (bytes "http://" ++ (generatedHost base ++ (path ++ (query ++ fragment))))) ↔
    hasDotSegment path = false ∨
      usable (DotSegments.removeDotSegments slash dotByte path ++ query) = false := by
  have hhex : ∀ ch, query.head? = some ch → isHexDigit ch = false := by
    intro ch hch
    rw [href.query_mark ch hch]
    decide
  have hhash : '#'.toUInt8 ∉ removeDotSegments path := by
    intro hmem
    rcases mem_removeDotSegments hmem with hmem | hmem
    · exact absurd hmem (by decide)
    · exact href.path_inside.2 hmem
  rcases usable_removeDotSegments hhead hhex with ⟨hsame, hraw⟩
  have horigin : ∀ text, bytes "http://" ++ (generatedHost base ++ text) =
      buildOrigin base ++ text := by
    intro text
    rw [buildOrigin_eq, List.append_assoc]
  rw [resolve_schemeRelative, resolve_absolute, and_self,
    resolve_absolutePath href hhead hauthority, horigin,
    validate_origin hbase href (removeDotSegments_head? path) hhash,
    validate_origin hbase href hhead href.path_inside.2, ← hsame,
    ← removeDotSegments_eq_self_iff hhead]
  cases husable : usable (removeDotSegments path ++ query) with
  | false =>
    have hrefused : ¬ usable (path ++ query) = true := by
      intro h
      rw [hraw h] at husable
      cases husable
    rw [if_neg Bool.false_ne_true, if_neg hrefused]
    exact iff_of_true rfl (.inr rfl)
  | true =>
    rw [if_pos rfl, or_iff_left (by simp)]
    split_ifs with hboth
    · rw [Except.ok.injEq, List.append_cancel_left_eq, List.append_cancel_right_eq]
    · refine iff_of_false nofun fun heq => hboth ?_
      rw [heq] at husable
      exact husable

end Forms

/-- The base `http://[::1]:81/`. -/
def literalUrl : Url where
  storage := bytes "http://[::1]:81/"
  schemeSize := 4
  hostBegin := 8
  hostSize := 3
  pathBegin := 15
  pathSize := 1
  queryBegin := 16
  port := 81
  hasExplicitPort := true
  hostIsIpv6Literal := true

theorem parse_literalUrl :
    Url.parse (· == bytes "::1") (bytes "http://[::1]:81/") = .ok literalUrl := by
  decide +kernel

theorem location_forms_literal :
    resolveRedirectLocation (· == bytes "::1") literalUrl (bytes "/a/b?q#f") =
      resolveRedirectLocation (· == bytes "::1") literalUrl (bytes "//[::1]:81/a/b?q#f") := by
  have href : Reference (bytes "/a/b") (bytes "?q") (bytes "#f") :=
    ⟨by decide, fun _ h => (Option.some.inj h).symm, by decide,
      fun _ h => (Option.some.inj h).symm⟩
  have hiff := location_forms_iff parse_literalUrl href rfl (by decide)
  exact (hiff.mpr (.inl (by decide +kernel))).1

/-- An absolute Location keeps the dot segments that a path loses. -/
theorem absolute_keeps_dots :
    Url.parse (· == bytes "::1") (bytes "http://[::1]:81/") = .ok literalUrl ∧
      resolveRedirectLocation (· == bytes "::1") literalUrl (bytes "/a/../b") =
        .ok (bytes "http://[::1]:81/b") ∧
      resolveRedirectLocation (· == bytes "::1") literalUrl
          (bytes "//" ++ (generatedHost literalUrl ++ bytes "/a/../b")) =
        .ok (bytes "http://[::1]:81/a/../b") ∧
      resolveRedirectLocation (· == bytes "::1") literalUrl
          (bytes "http://" ++ (generatedHost literalUrl ++ bytes "/a/../b")) =
        .ok (bytes "http://[::1]:81/a/../b") ∧
      bytes "http://[::1]:81/b" ≠ bytes "http://[::1]:81/a/../b" := by
  refine ⟨parse_literalUrl, ?_, ?_, ?_, ?_⟩
  · decide +kernel
  · decide +kernel
  · decide +kernel
  · decide

end CppRequest
