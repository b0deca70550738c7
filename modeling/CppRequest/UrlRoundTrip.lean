import CppRequest.EffectiveUrl
import CppRequest.UrlText

/-!
# Printing a URL

The origin of a parsed URL and its target, one behind the other, are a text of the same URL. The
Host field that goes with it is the origin without the scheme.
-/

namespace CppRequest.Url

open Search

variable {inetPton6 : Bytes → Bool} {input : Bytes} {u v : Url}

/-- The scheme, the path and the query of a parsed URL. -/
theorem parse_views (h : parse inetPton6 input = .ok u) : u.scheme = bytes "http" ∧
    '?'.toUInt8 ∉ u.path ∧
    (u.target = u.path ∧ u.query = [] ∨ u.target = u.path ++ '?'.toUInt8 :: u.query) := by
  obtain ⟨_, authority, tail, _, base, _, hshape, _, hbase, hsize, _, rfl⟩ := parse_iff.mp h
  obtain ⟨literal, host, port, -, -, -, rfl⟩ := parseAuthority_iff.mp ⟨hbase, hsize⟩
  have hsplit := assemble_split (authorityUrl literal host port.isSome (portValue port)) authority
    (withSlash_head? tail hshape.outside)
  refine ⟨rfl, hsplit.1.2, ?_⟩
  rw [assemble_target]
  exact hsplit.2.1

/-- A target is divided in one way. -/
theorem split_unique {path path' query query' : Bytes} (hpath : '?'.toUInt8 ∉ path)
    (hpath' : '?'.toUInt8 ∉ path') {target : Bytes}
    (h : target = path ∧ query = [] ∨ target = path ++ '?'.toUInt8 :: query)
    (h' : target = path' ∧ query' = [] ∨ target = path' ++ '?'.toUInt8 :: query') :
    path = path' ∧ query = query' := by
  have hmem : ∀ a b : Bytes, '?'.toUInt8 ∈ a ++ '?'.toUInt8 :: b := fun a b =>
    List.mem_append_right a List.mem_cons_self
  rcases h with ⟨htarget, hquery⟩ | htarget
  · rcases h' with ⟨htarget', hquery'⟩ | htarget'
    · exact ⟨htarget.symm.trans htarget', hquery.trans hquery'.symm⟩
    · rw [htarget] at htarget'
      exact absurd (htarget' ▸ hmem path' query') hpath
  · rcases h' with ⟨htarget', -⟩ | htarget'
    · rw [htarget'] at htarget
      exact absurd (htarget ▸ hmem path query) hpath'
    · exact (leads_singleton.mpr hpath).inj (leads_singleton.mpr hpath')
        (htarget.symm.trans htarget')

theorem origin_rest (u : Url) : (buildOrigin u).drop 7 = generatedHost u := by
  rw [buildOrigin_eq]
  exact List.drop_left' rfl

/-- The Host field that is written where the caller gives none. -/
theorem host_written {request : Request} {s : SerializedRequest}
    (hu : parse inetPton6 request.url = .ok u) (hnone : request.headers.contains hostName = false)
    (hs : serializeRequest inetPton6 request = .ok s) :
    ∃ rest, s.head = methodToken request.method ++ (sp :: (requestTarget request u ++
      (bytes " HTTP/1.1" ++ (crlf ++ (hostName ++ (bytes ": " ++ (generatedHost u ++
        (crlf ++ rest)))))))) := by
  obtain ⟨url, counts, hurl, hc, -, -, -, rfl⟩ := serializeRequest_ok hs
  cases hurl.symm.trans hu
  have hzero : counts.hostCount = 0 := by
    rw [hc.hostCount, List.length_eq_zero_iff, Headers.values, List.map_eq_nil_iff,
      List.filter_eq_nil_iff]
    exact List.any_eq_false.mp hnone
  refine ⟨(request.headers.fields ++ if counts.contentLengthCount = 0
      ∧ (!request.body.isEmpty || methodHasContentSemantics request.method) = true then
        [(⟨contentLengthName, decimal request.body.length⟩ : Field)] else []).flatMap fieldText ++
      crlf, ?_⟩
  show requestHead request u counts = _
  unfold requestHead requestFields
  rw [if_pos hzero, List.singleton_append, List.flatMap_cons]
  unfold fieldText
  simp only [List.append_assoc]

/-- A printed URL is read as it was, and names the host of the request. -/
theorem print_parse (h : parse inetPton6 input = .ok u) :
    (∃ v, parse inetPton6 (buildOrigin u ++ u.target) = .ok v ∧ v.scheme = u.scheme ∧
      v.host = u.host ∧ v.port = u.port ∧ v.hasExplicitPort = u.hasExplicitPort ∧
      v.hostIsIpv6Literal = u.hostIsIpv6Literal ∧ v.path = u.path ∧ v.query = u.query ∧
      v.target = u.target) ∧
    buildOrigin u = bytes "http://" ++ (buildOrigin u).drop 7 ∧
    ∀ request s, request.url = input → request.headers.contains hostName = false →
      serializeRequest inetPton6 request = .ok s →
      ∃ rest, s.head = methodToken request.method ++ (sp :: (requestTarget request u ++
        (bytes " HTTP/1.1" ++ (crlf ++ (hostName ++ (bytes ": " ++ ((buildOrigin u).drop 7 ++
          (crlf ++ rest)))))))) := by
  have hviews := parse_views h
  have hhead := (parse_ok h).2
  have hhash : '#'.toUInt8 ∉ u.target := fun hmem =>
    hash_not_mem_storage h (List.mem_of_mem_drop hmem)
  have husable : usable u.target = true := by
    have hgood : containsForbiddenUrlByte u.target = false :=
      List.any_eq_false.mpr fun b hb => by
        simpa using (parse_ok h).1 b (List.mem_of_mem_drop hb)
    have hescapes := validPercentEscapes_params h []
    unfold usable
    rw [hgood]
    exact hescapes
  obtain ⟨v, hhost, hport, hexplicit, hliteral, htarget, hparse⟩ := parse_origin h hhead hhash
  rw [if_pos husable] at hparse
  have hviews' := parse_views hparse
  rw [htarget] at hviews'
  have hsplit := split_unique hviews'.2.1 hviews.2.1 hviews'.2.2 hviews.2.2
  refine ⟨⟨v, hparse, hviews'.1.trans hviews.1.symm, hhost, hport, hexplicit, hliteral, hsplit.1,
    hsplit.2, htarget⟩, ?_, ?_⟩
  · rw [origin_rest, buildOrigin_eq]
  · rintro request s rfl hnone hs
    rw [origin_rest]
    exact host_written h hnone hs

theorem print_parse_query :
    ∃ v, parse (fun _ => false) (bytes "http://h:81/?a") = .ok v ∧ v.host = bytes "h" ∧
      v.port = 81 ∧ v.query = bytes "a" := by
  have hu : parse (fun _ => false) queryRequest.url = .ok queryUrl := by decide +kernel
  have htext : buildOrigin queryUrl ++ queryUrl.target = bytes "http://h:81/?a" := by decide +kernel
  have hquery : queryUrl.query = bytes "a" := by decide +kernel
  have hhost : queryUrl.host = bytes "h" := by decide +kernel
  obtain ⟨⟨v, hv, -, hhost', hport, -, -, -, hquery', -⟩, -⟩ := print_parse hu
  exact ⟨v, htext ▸ hv, hhost'.trans hhost, hport, hquery'.trans hquery⟩

end CppRequest.Url
