import CppRequest.QueryParams
import CppRequest.UrlGrammar

/-!
# The URL of a request with its query parameters

The parameters are appended twice: to the text of the URL, against which a redirect is
resolved, and to the target of the parsed URL, which the request line carries. Both
ways lead to the same URL.
-/

namespace CppRequest

open Search Url

/-! ## Parameters behind a target -/

theorem validPercentEscapes_params {inetPton6 : Bytes → Bool} {input : Bytes} {u : Url}
    (hu : Url.parse inetPton6 input = .ok u) (params : List QueryParam) :
    validPercentEscapes (appendQueryParams u.target params) = true := by
  have hescapes : validPercentEscapes u.target = true := by
    rcases parse_iff.mp hu with ⟨_, authority, tail, _, base, _, _, _, _, _, hvalid, rfl⟩
    rwa [assemble_target]
  rcases eq_or_ne params [] with rfl | hne
  · exact hescapes
  have hmark : validPercentEscapes (queryMark u.target) = true := by
    unfold queryMark
    split_ifs <;> rfl
  rw [appendQueryParams_mark u.target hne, validPercentEscapes_append _ hescapes,
    validPercentEscapes_append _ hmark]
  exact (queryText_spec (queryText_query params)).1

/-- What `append_query_params` puts behind the target of a URL. -/
theorem query_params_survive {inetPton6 : Bytes → Bool} {input : Bytes} {u : Url}
    (hu : Url.parse inetPton6 input = .ok u) :
    (∀ params : List QueryParam, params ≠ [] →
      appendQueryParams u.target params =
        u.target ++ (queryMark u.target ++ encodedQuery params) ∧
      decodeQuery (encodedQuery params) = some params ∧
      queryText (encodedQuery params) = true ∧
      validPercentEscapes (appendQueryParams u.target params) = true ∧
      ∀ b ∈ appendQueryParams u.target params, forbiddenUrlByte b = false) ∧
    ∀ params params' : List QueryParam,
      appendQueryParams u.target params = appendQueryParams u.target params' →
        params = params' := by
  have hgood : ∀ b ∈ u.target, forbiddenUrlByte b = false := fun b hb =>
    (Url.parse_ok hu).1 b (List.mem_of_mem_drop hb)
  refine ⟨fun params hne => ?_, fun params params' => appendQueryParams_inj⟩
  exact ⟨appendQueryParams_mark u.target hne, decodeQuery_encoded hne, queryText_query params,
    validPercentEscapes_params hu params, appendQueryParams_good params hgood⟩

/-! ## Parameters behind the text of a URL -/

theorem mem_withSlash {tail : Bytes} {ch : Byte} (hch : ch ≠ '/'.toUInt8) :
    ch ∈ withSlash tail ↔ ch ∈ tail := by
  unfold withSlash
  split_ifs
  · rw [List.mem_cons, or_iff_right hch]
  · rfl

/-- The whole text and its target ask for the same mark. -/
theorem queryMark_text {scheme authority tail fragment : Bytes}
    (h : Shape scheme authority tail fragment) :
    queryMark (scheme ++ (bytes "://" ++ (authority ++ tail))) = queryMark (withSlash tail) := by
  have hmem : '?'.toUInt8 ∈ scheme ++ (bytes "://" ++ (authority ++ tail)) ↔
      '?'.toUInt8 ∈ withSlash tail := by
    rw [mem_withSlash (by decide), List.mem_append, List.mem_append, List.mem_append]
    constructor
    · rintro (hmem | hmem | hmem | hmem)
      · exact absurd rfl (h.mem_scheme hmem).2.2.1
      · exact absurd hmem (by decide)
      · exact absurd (h.inside _ hmem) (by decide)
      · exact hmem
    · exact fun hmem => .inr (.inr (.inr hmem))
  unfold queryMark
  by_cases hquery : '?'.toUInt8 ∈ withSlash tail
  · have hne : tail ≠ [] := List.ne_nil_of_mem ((mem_withSlash (by decide)).mp hquery)
    have hwhole : (scheme ++ (bytes "://" ++ (authority ++ tail))).getLast? = tail.getLast? := by
      simp only [List.getLast?_append_of_ne_nil _ hne, ← List.append_assoc]
    have htarget : (withSlash tail).getLast? = tail.getLast? := by
      unfold withSlash
      split_ifs
      · rw [← List.singleton_append, List.getLast?_append_of_ne_nil _ hne]
      · rfl
    rw [if_neg (not_not.mpr (hmem.mpr hquery)), if_neg (not_not.mpr hquery), hwhole, htarget]
  · rw [if_pos (fun hmem' => hquery (hmem.mp hmem')), if_pos hquery]

theorem withSlash_append {tail rest : Bytes} (h : tail = [] → rest.head? = some '?'.toUInt8) :
    withSlash (tail ++ rest) = withSlash tail ++ rest := by
  unfold withSlash
  cases tail with
  | nil => simp [h rfl]
  | cons ch tail =>
    simp only [List.cons_append, reduceCtorEq, List.head?_cons, false_or]
    split_ifs <;> rfl

/-- Appending the parameters to a text is appending them to its tail. -/
theorem exists_tail {scheme authority tail fragment : Bytes} (params : List QueryParam)
    (h : Shape scheme authority tail fragment) :
    ∃ tail', appendQueryParams (scheme ++ (bytes "://" ++ (authority ++ tail))) params =
        scheme ++ (bytes "://" ++ (authority ++ tail')) ∧
      withSlash tail' = appendQueryParams (withSlash tail) params ∧
      Shape scheme authority tail' [] := by
  rcases eq_or_ne params [] with rfl | hne
  · refine ⟨tail, rfl, rfl, h.scheme, h.inside, h.outside, h.noHash, nofun, fun ch hch => ?_⟩
    rw [List.append_nil] at hch
    exact h.good ch (by rw [← List.append_assoc]; exact List.mem_append_left _ hch)
  · have hhash : ∀ b ∈ queryMark (withSlash tail) ++ encodedQuery params,
        forbiddenUrlByte b = false ∧ b ≠ '#'.toUInt8 := by
      intro b hb
      rcases List.mem_append.mp hb with hb | hb
      · refine ⟨queryMark_good _ b hb, ?_⟩
        unfold queryMark at hb
        split_ifs at hb
        · cases hb
        · rw [List.mem_singleton.mp hb]
          decide
        · rw [List.mem_singleton.mp hb]
          decide
      · exact (queryText_spec (queryText_query params)).2 b hb
    have hnil : tail = [] → (queryMark (withSlash tail) ++ encodedQuery params).head? =
        some '?'.toUInt8 := by
      rintro rfl
      rfl
    refine ⟨tail ++ (queryMark (withSlash tail) ++ encodedQuery params), ?_, ?_, h.scheme,
      h.inside, ?_, ?_, nofun, ?_⟩
    · rw [appendQueryParams_mark _ hne, queryMark_text h]
      simp only [List.append_assoc]
    · rw [withSlash_append hnil, appendQueryParams_mark _ hne]
    · intro ch hch
      cases tail with
      | nil =>
        rw [List.nil_append, hnil rfl] at hch
        cases hch
        rfl
      | cons ch' tail => exact h.outside ch hch
    · rw [← List.append_assoc, List.mem_append, not_or]
      exact ⟨h.noHash, fun hmem => (hhash _ hmem).2 rfl⟩
    · intro ch hch
      rw [List.append_nil, ← List.append_assoc, List.mem_append] at hch
      rcases hch with hch | hch
      · exact h.good ch (by rw [← List.append_assoc]; exact List.mem_append_left _ hch)
      · exact (hhash ch hch).1

theorem exists_effectiveUrl {inetPton6 : Bytes → Bool} {request : Request} {u : Url}
    (hu : Url.parse inetPton6 request.url = .ok u) :
    ∃ v, Url.parse inetPton6 (effectiveRequestUrl request) = .ok v ∧
      v.host = u.host ∧ v.port = u.port ∧ v.hasExplicitPort = u.hasExplicitPort ∧
      v.hostIsIpv6Literal = u.hostIsIpv6Literal ∧ v.target = requestTarget request u := by
  have hvalid := validPercentEscapes_params hu request.queryParams
  rcases parse_iff.mp hu with
    ⟨scheme, authority, tail, fragment, base, htext, hshape, hne, hbase, hhost, hescapes, rfl⟩
  rcases exists_tail request.queryParams hshape with ⟨tail', happend, htail, hshape'⟩
  have hinside := (host_inside hbase).2
  have heffective : effectiveRequestUrl request =
      scheme ++ (bytes "://" ++ (authority ++ (tail' ++ []))) := by
    have hbefore := withoutFragment_eq hshape.hash_not_mem hshape.hash
    simp only [List.append_assoc] at hbefore
    unfold effectiveRequestUrl
    simp only [htext, hbefore, happend, List.append_nil]
  rw [assemble_target, ← htail] at hvalid
  refine ⟨assemble base authority tail', ?_, ?_, rfl, rfl, rfl, ?_⟩
  · rw [heffective]
    exact parse_iff.mpr ⟨scheme, authority, tail', [], base, rfl, hshape', hne, hbase, hhost,
      hvalid, rfl⟩
  · rw [assemble_host _ _ _ hinside, assemble_host _ _ _ hinside]
  · rw [assemble_target, htail, requestTarget, assemble_target]

/-- The URL whose text carries the parameters is the URL that is requested. -/
theorem effective_url_agrees {inetPton6 : Bytes → Bool} {request : Request} {u : Url}
    (hu : Url.parse inetPton6 request.url = .ok u) :
    ∃ v, Url.parse inetPton6 (effectiveRequestUrl request) = .ok v ∧
      v.host = u.host ∧ v.port = u.port ∧ v.hasExplicitPort = u.hasExplicitPort ∧
      v.hostIsIpv6Literal = u.hostIsIpv6Literal ∧ v.target = requestTarget request u ∧
      ∀ s, serializeRequest inetPton6 request = .ok s → s.url = u ∧ ∃ rest, s.head =
        methodToken request.method ++ (sp :: (v.target ++ (bytes " HTTP/1.1" ++ (crlf ++ rest)))) := by
  rcases exists_effectiveUrl hu with ⟨v, hv, hhost, hport, hexplicit, hliteral, htarget⟩
  refine ⟨v, hv, hhost, hport, hexplicit, hliteral, htarget, fun s hs => ?_⟩
  rcases serializeRequest_ok hs with ⟨url, counts, hurl, _, _, _, _, rfl⟩
  have hsame := Except.ok.inj (hurl.symm.trans hu)
  refine ⟨hsame, (requestFields request url counts).flatMap fieldText ++ crlf, ?_⟩
  rw [htarget]
  show requestHead request url counts = _
  rw [requestHead, hsame]

/-- A URL without a path, with a query and a fragment. -/
def queryRequest : Request where
  method := .get
  url := bytes "HTTP://h:81?a#b"
  queryParams := [⟨bytes "q", bytes " "⟩]

def queryUrl : Url where
  storage := bytes "http://h:81/?a"
  schemeSize := 4
  hostBegin := 7
  hostSize := 1
  pathBegin := 11
  pathSize := 1
  queryBegin := 13
  querySize := 1
  port := 81
  hasExplicitPort := true

theorem query_params_survive_query :
    Url.parse (fun _ => false) queryRequest.url = .ok queryUrl ∧
      appendQueryParams queryUrl.target queryRequest.queryParams = bytes "/?a&q=%20" ∧
      decodeQuery (bytes "q=%20") = some queryRequest.queryParams := by
  have hu : Url.parse (fun _ => false) queryRequest.url = .ok queryUrl := by decide +kernel
  have hsurvive := (query_params_survive hu).1 queryRequest.queryParams (by decide)
  have htext : appendQueryParams queryUrl.target queryRequest.queryParams = bytes "/?a&q=%20" := by
    decide +kernel
  exact ⟨hu, htext, hsurvive.2.1⟩

theorem effective_url_agrees_query :
    ∃ v, Url.parse (fun _ => false) (bytes "HTTP://h:81?a&q=%20") = .ok v ∧
      v.host = bytes "h" ∧ v.port = 81 ∧ v.target = bytes "/?a&q=%20" := by
  have hu : Url.parse (fun _ => false) queryRequest.url = .ok queryUrl := by decide +kernel
  rcases effective_url_agrees hu with ⟨v, hv, hhost, hport, _, _, htarget, _⟩
  have htext : effectiveRequestUrl queryRequest = bytes "HTTP://h:81?a&q=%20" := by decide +kernel
  have hreq : requestTarget queryRequest queryUrl = bytes "/?a&q=%20" := by decide +kernel
  exact ⟨v, htext ▸ hv, hhost, hport, htarget.trans hreq⟩

end CppRequest
