import CppRequest.LocationForms
import CppRequest.RedirectLoop
import CppRequest.UrlRoundTrip

/-!
# Relative redirects stay with the server

Whatever bytes a Location without a scheme and without an authority has, the URL it is resolved to
has the origin of the base, and where it names a path that path does not lead out of the root.
-/

namespace CppRequest

open Search Url

variable {inetPton6 : Bytes → Bool} {input location result : Bytes} {base : Url}

theorem resolve_fragment (hscheme : schemeEnd location = none)
    (hauthority : ¬ bytes "//" <+: location) (hfragment : location.head? = some '#'.toUInt8) :
    resolveRedirectLocation inetPton6 base location =
      validateRedirectUrl inetPton6 (buildOrigin base ++ (base.target ++ location)) := by
  have hempty : ¬ location.isEmpty = true := by
    rw [List.isEmpty_iff]
    rintro rfl
    cases hfragment
  have hprefix := mt List.isPrefixOf_iff_prefix.mp hauthority
  unfold resolveRedirectLocation
  rw [if_neg hempty, hscheme]
  simp only [if_neg hprefix, if_pos hfragment, List.append_assoc]

theorem resolve_query (hscheme : schemeEnd location = none)
    (hauthority : ¬ bytes "//" <+: location) (hquery : location.head? = some '?'.toUInt8) :
    resolveRedirectLocation inetPton6 base location =
      validateRedirectUrl inetPton6 (buildOrigin base ++ (base.path ++ location)) := by
  have hempty : ¬ location.isEmpty = true := by
    rw [List.isEmpty_iff]
    rintro rfl
    cases hquery
  have hprefix := mt List.isPrefixOf_iff_prefix.mp hauthority
  have hfragment : ¬ location.head? = some '#'.toUInt8 := by
    rw [hquery]
    decide
  unfold resolveRedirectLocation
  rw [if_neg hempty, hscheme]
  simp only [if_neg hprefix, if_neg hfragment, if_pos hquery, List.append_assoc]

/-- What a relative Location is put behind the origin as: a path or a target of its own or of the
base, and the query of the Location. -/
theorem exists_candidate (hbase : Url.parse inetPton6 input = .ok base)
    (hscheme : schemeEnd location = none) (hauthority : ¬ bytes "//" <+: location)
    (h : resolveRedirectLocation inetPton6 base location = .ok result) :
    ∃ tail path query fragment, Reference path query fragment ∧ tail.head? = some slash ∧
      '#'.toUInt8 ∉ tail ∧
      validateRedirectUrl inetPton6 (buildOrigin base ++ (tail ++ (query ++ fragment))) =
        .ok result ∧
      (PathReference location → tail = removeDotSegments (DotSegments.merge slash base.path path) ∧
        location = path ++ (query ++ fragment)) := by
  have hhead := Url.path_head? hbase
  have hhash := hash_not_mem_storage hbase
  have hne : location ≠ [] := by
    rintro rfl
    cases h
  by_cases hfragment : location.head? = some '#'.toUInt8
  · refine ⟨base.target, [], [], location, ⟨⟨by simp, by simp⟩, nofun, by simp, ?_⟩,
      (parse_ok hbase).2, fun hmem => hhash (List.mem_of_mem_drop hmem), ?_,
      fun href => absurd hfragment href.noFragment⟩
    · intro ch hch
      rw [hfragment] at hch
      exact (Option.some.inj hch).symm
    · rw [← h, List.nil_append, resolve_fragment hscheme hauthority hfragment]
  obtain ⟨path, query, fragment, rfl, href⟩ := exists_reference location
  by_cases hquery : (path ++ (query ++ fragment)).head? = some '?'.toUInt8
  · have hpath : path = [] := by
      cases path with
      | nil => rfl
      | cons ch path =>
        have hch : ch = '?'.toUInt8 := Option.some.inj hquery
        exact absurd (hch ▸ List.mem_cons_self) href.path_inside.1
    subst hpath
    refine ⟨base.path, [], query, fragment, href, hhead,
      fun hmem => hhash (List.mem_of_mem_drop (List.mem_of_mem_take hmem)), ?_,
      fun href => absurd hquery href.noQuery⟩
    rw [← h, resolve_query hscheme hauthority hquery, List.nil_append]
  · have hreference : PathReference (path ++ (query ++ fragment)) :=
      ⟨hscheme, hauthority, hquery, hfragment⟩
    rw [resolve_path hreference hne, href.referencePath_eq, href.referenceSuffix_eq,
      mergePath_eq hhead, List.append_assoc] at h
    refine ⟨_, path, query, fragment, href, removeDotSegments_head? _, fun hmem => ?_, h,
      fun _ => ⟨rfl, rfl⟩⟩
    rcases mem_removeDotSegments hmem with hmem | hmem
    · exact absurd hmem (by decide)
    rcases mem_merge hmem with hmem | hmem | hmem
    · exact absurd hmem (by decide)
    · exact hhash (List.mem_of_mem_drop (List.mem_of_mem_take hmem))
    · exact href.path_inside.2 hmem

/-- The segments of a path that begins with a slash, the empty one in front included. -/
theorem splitOn_path {path : Bytes} (h : path.head? = some slash) :
    path.splitOn slash = [] :: pathSegments path := by
  cases path with
  | nil => cases h
  | cons ch path =>
    cases h
    have hsegments : pathSegments (slash :: path) = path.splitOn slash := rfl
    rw [hsegments, List.splitOn_cons_eq_if_modifyHead, if_pos (beq_self_eq_true slash)]

theorem relative_redirect (hbase : Url.parse inetPton6 input = .ok base)
    (hscheme : schemeEnd location = none) (hauthority : ¬ bytes "//" <+: location)
    (h : resolveRedirectLocation inetPton6 base location = .ok result) :
    '#'.toUInt8 ∉ result ∧ ∃ v, Url.parse inetPton6 result = .ok v ∧ v.host = base.host ∧
      v.port = base.port ∧ v.hasExplicitPort = base.hasExplicitPort ∧
      v.hostIsIpv6Literal = base.hostIsIpv6Literal ∧ sameOrigin base v = true ∧
      (location.head? ≠ some '?'.toUInt8 → location.head? ≠ some '#'.toUInt8 →
        v.path.head? = some slash ∧
          ∀ segment ∈ v.path.splitOn slash, segment ≠ dot ∧ segment ≠ dotDot) := by
  obtain ⟨tail, path, query, fragment, href, hhead, hhash, hresult, hpath⟩ :=
    exists_candidate hbase hscheme hauthority h
  have hne : tail ≠ [] := by
    rintro rfl
    cases hhead
  have hhead' : (tail ++ query).head? = some slash := by
    rw [List.head?_append_of_ne_nil _ hne, hhead]
  have hhash' : '#'.toUInt8 ∉ tail ++ query := by
    rw [List.mem_append, not_or]
    exact ⟨hhash, href.query_inside⟩
  rw [validate_origin hbase href hhead hhash] at hresult
  split_ifs at hresult with husable
  cases hresult
  obtain ⟨v, hhost, hport, hexplicit, hliteral, htarget, hparse⟩ :=
    parse_origin hbase hhead' hhash'
  rw [if_pos husable] at hparse
  refine ⟨?_, v, hparse, hhost, hport, hexplicit, hliteral, ?_, fun hquery hfragment => ?_⟩
  · rw [List.mem_append, not_or]
    exact ⟨fun hmem => (mem_buildOrigin hbase hmem).1 rfl, hhash'⟩
  · unfold sameOrigin
    rw [hport, hhost, asciiIequals_refl, Bool.and_true]
    exact beq_self_eq_true _
  · obtain ⟨htail, -⟩ := hpath ⟨hscheme, hauthority, hquery, hfragment⟩
    have hmerged := merge_head? (Url.path_head? hbase) path
    have hplain : '?'.toUInt8 ∉ tail := by
      rw [htail]
      intro hmem
      rcases mem_removeDotSegments hmem with hmem | hmem
      · exact absurd hmem (by decide)
      rcases mem_merge hmem with hmem | hmem | hmem
      · exact absurd hmem (by decide)
      · exact (parse_views hbase).2.1 hmem
      · exact href.path_inside.1 hmem
    have hsplit : tail ++ query = tail ∧ query.drop 1 = [] ∨
        tail ++ query = tail ++ '?'.toUInt8 :: query.drop 1 := by
      cases query with
      | nil => exact .inl ⟨List.append_nil _, rfl⟩
      | cons ch query =>
        rw [href.query_mark ch rfl]
        exact .inr rfl
    have hviews := parse_views hparse
    rw [htarget] at hviews
    have heq := (split_unique hviews.2.1 hplain hviews.2.2 hsplit).1
    rw [heq]
    refine ⟨hhead, ?_⟩
    have hsegments := hasDotSegment_eq_false.mp (hasDotSegment_removeDotSegments hmerged)
    rw [← htail] at hsegments
    rw [splitOn_path hhead]
    intro segment hsegment
    rcases List.mem_cons.mp hsegment with rfl | hsegment
    · decide
    · exact hsegments segment hsegment

/-- A Location that tries to name another host and to leave the root. -/
theorem relative_redirect_escape :
    '#'.toUInt8 ∉ bytes "http://h/@e:9//x?y" ∧ ∃ v,
      Url.parse (fun _ => false) (bytes "http://h/@e:9//x?y") = .ok v ∧ v.host = bytes "h" ∧
        v.port = 80 ∧ v.path.head? = some slash := by
  have hbase : Url.parse (fun _ => false) (bytes "http://h/a/b") = .ok nestedUrl := by
    decide +kernel
  have hauthority : ¬ bytes "//" <+: bytes "../../@e:9//./x?y#//f" := by decide +kernel
  have hresult : resolveRedirectLocation (fun _ => false) nestedUrl
      (bytes "../../@e:9//./x?y#//f") = .ok (bytes "http://h/@e:9//x?y") := by decide +kernel
  have hquery : (bytes "../../@e:9//./x?y#//f").head? ≠ some '?'.toUInt8 := by decide +kernel
  have hfragment : (bytes "../../@e:9//./x?y#//f").head? ≠ some '#'.toUInt8 := by decide +kernel
  obtain ⟨hhash, v, hv, hhost, hport, -, -, -, hpath⟩ :=
    relative_redirect hbase (by decide +kernel) hauthority hresult
  have hname : nestedUrl.host = bytes "h" := by decide +kernel
  exact ⟨hhash, v, hv, hhost.trans hname, hport, (hpath hquery hfragment).1⟩

end CppRequest
