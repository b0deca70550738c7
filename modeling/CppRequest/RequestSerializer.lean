import CppRequest.ExitLoop
import CppRequest.Url

/-!
# Serializing a request

`serialize_request` and the URL of a request with its query parameters. The space
that the code reserves beforehand has no effect on the text and is left out.
-/

namespace CppRequest

open Headers

def methodToken : Method → Bytes
  | .get => bytes "GET"
  | .head => bytes "HEAD"
  | .post => bytes "POST"
  | .put => bytes "PUT"
  | .patch => bytes "PATCH"
  | .delete => bytes "DELETE"

def methodHasContentSemantics (method : Method) : Bool :=
  method == .post || method == .put || method == .patch

def isUnreserved (ch : Byte) : Bool :=
  isDigit ch || ('A'.toUInt8 ≤ ch && ch ≤ 'Z'.toUInt8) || ('a'.toUInt8 ≤ ch && ch ≤ 'z'.toUInt8)
    || ch == '-'.toUInt8 || ch == '.'.toUInt8 || ch == '_'.toUInt8 || ch == '~'.toUInt8

def kHex : Bytes := bytes "0123456789ABCDEF"

def percentEncoded (byte : Byte) : Bytes :=
  if isUnreserved byte then [byte]
  else ['%'.toUInt8, kHex.getD ((byte >>> 4) &&& 0x0f).toNat 0, kHex.getD (byte &&& 0x0f).toNat 0]

def appendPercentEncoded (output input : Bytes) : Bytes := output ++ input.flatMap percentEncoded

def encodedQueryParam (param : QueryParam) : Bytes :=
  appendPercentEncoded (appendPercentEncoded [] param.name ++ ['='.toUInt8]) param.value

def appendQueryParams (output : Bytes) (params : List QueryParam) : Bytes :=
  if params.isEmpty then output
  else
    let output :=
      if !output.contains '?'.toUInt8 then output ++ ['?'.toUInt8]
      else if !output.isEmpty && output.getLast? != some '?'.toUInt8
          && output.getLast? != some '&'.toUInt8 then output ++ ['&'.toUInt8]
      else output
    output ++ ['&'.toUInt8].intercalate (params.map encodedQueryParam)

/-- `std::to_chars` in base ten. -/
def decimal (value : ℕ) : Bytes := (Nat.toDigits 10 value).map Char.toUInt8

def generatedHost (url : Url) : Bytes :=
  (if url.hostIsIpv6Literal then '['.toUInt8 :: (url.host ++ [']'.toUInt8]) else url.host) ++
    if url.hasExplicitPort then ':'.toUInt8 :: decimal url.port else []

/-- A field as both the caller's fields and the generated ones are written. -/
def fieldText (field : Field) : Bytes := field.name ++ (bytes ": " ++ (field.value ++ crlf))

def effectiveRequestUrl (request : Request) : Bytes :=
  let withoutFragment := (find request.url ['#'.toUInt8] 0).elim request.url fun i =>
    request.url.take i
  appendQueryParams withoutFragment request.queryParams

/-- What the check of the caller's fields counts. -/
structure FieldCounts where
  hostCount : ℕ := 0
  contentLengthCount : ℕ := 0
  declaredContentLength : ℕ := 0
deriving Repr, DecidableEq

def checkField (counts : FieldCounts) (field : Field) : Result FieldCounts :=
  if !validHeaderName field.name || !validFieldValue field.value then
    .error { code := .invalidHeader }
  else if asciiIequals field.name hostName then
    if field.value.isEmpty then .error { code := .invalidHeader }
    else .ok { counts with hostCount := counts.hostCount + 1 }
  else if asciiIequals field.name contentLengthName then
    match parseContentLength field.value with
    | none => .error { code := .invalidContentLength }
    | some declaredContentLength => .ok { counts with
        contentLengthCount := counts.contentLengthCount + 1, declaredContentLength }
  else if asciiIequals field.name transferEncodingName then
    .error { code := .conflictingMessageFraming }
  else .ok counts

structure SerializedRequest where
  url : Url
  head : Bytes
  body : Bytes
deriving Repr, DecidableEq

def requestTarget (request : Request) (url : Url) : Bytes :=
  appendQueryParams url.target request.queryParams

/-- The fields of the head in their order. -/
def requestFields (request : Request) (url : Url) (counts : FieldCounts) : List Field :=
  (if counts.hostCount = 0 then [⟨hostName, generatedHost url⟩] else []) ++
    (request.headers.fields ++
      if counts.contentLengthCount = 0
          ∧ (!request.body.isEmpty || methodHasContentSemantics request.method) = true then
        [⟨contentLengthName, decimal request.body.length⟩]
      else [])

def requestHead (request : Request) (url : Url) (counts : FieldCounts) : Bytes :=
  methodToken request.method ++ (sp :: (requestTarget request url ++
    (bytes " HTTP/1.1" ++ (crlf ++
      ((requestFields request url counts).flatMap fieldText ++ crlf)))))

def serializeRequest (inetPton6 : Bytes → Bool) (request : Request) : Result SerializedRequest :=
  match Url.parse inetPton6 request.url with
  | .error e => .error e
  | .ok url =>
    if (methodToken request.method).isEmpty then .error { code := .unknown }
    else match request.headers.fields.foldlM checkField {} with
      | .error e => .error e
      | .ok counts =>
        if counts.hostCount > 1 then .error { code := .invalidHeader }
        else if counts.contentLengthCount > 1 then .error { code := .invalidContentLength }
        else if counts.contentLengthCount = 1
            ∧ counts.declaredContentLength ≠ request.body.length then
          .error { code := .invalidContentLength }
        else .ok { url, head := requestHead request url counts, body := request.body }

/-! ## What the checks let through -/

/-- The fields that have been checked, with what was counted. -/
structure Checked (fields : List Field) (counts : FieldCounts) : Prop where
  names : ∀ f ∈ fields, validHeaderName f.name = true
  values : ∀ f ∈ fields, validFieldValue f.value = true
  hostCount : counts.hostCount = ((⟨fields⟩ : Headers).values hostName).length
  lengthCount : counts.contentLengthCount = ((⟨fields⟩ : Headers).values contentLengthName).length
  length : ∀ value, ((⟨fields⟩ : Headers).values contentLengthName).getLast? = some value →
    parseContentLength value = some counts.declaredContentLength
  unchunked : (⟨fields⟩ : Headers).values transferEncodingName = []

theorem not_host {name : Bytes} (h : asciiIequals name hostName = true) :
    asciiIequals name contentLengthName = false ∧ asciiIequals name transferEncodingName = false := by
  rw [asciiIequals_comm] at h
  constructor
  · exact Bool.eq_false_iff.mpr fun h' => absurd (asciiIequals_trans h h') (by decide)
  · exact Bool.eq_false_iff.mpr fun h' => absurd (asciiIequals_trans h h') (by decide)

/-- What a field that passes the check is, and what it adds to the counts. -/
theorem checkField_cases {counts counts' : FieldCounts} {field : Field}
    (h : checkField counts field = .ok counts') :
    validHeaderName field.name = true ∧ validFieldValue field.value = true ∧
      asciiIequals field.name transferEncodingName = false ∧
      counts'.hostCount = counts.hostCount + (if asciiIequals field.name hostName then 1 else 0) ∧
      (asciiIequals field.name contentLengthName = true ∧
          counts'.contentLengthCount = counts.contentLengthCount + 1 ∧
          parseContentLength field.value = some counts'.declaredContentLength ∨
        asciiIequals field.name contentLengthName = false ∧
          counts'.contentLengthCount = counts.contentLengthCount ∧
          counts'.declaredContentLength = counts.declaredContentLength) := by
  unfold checkField at h
  split_ifs at h with hvalid hhost hempty hlength hcoding
  all_goals
    rw [Bool.or_eq_true, Bool.not_eq_true', Bool.not_eq_true', not_or, Bool.not_eq_false,
      Bool.not_eq_false] at hvalid
  · cases h
    have hno := not_host hhost
    exact ⟨hvalid.1, hvalid.2, hno.2, by simp [hhost], .inr ⟨hno.1, rfl, rfl⟩⟩
  · cases hn : parseContentLength field.value with
    | none => simp [hn] at h
    | some n =>
      simp only [hn, Except.ok.injEq] at h
      subst h
      exact ⟨hvalid.1, hvalid.2, not_transferEncoding hlength, by simp [hhost],
        .inl ⟨hlength, rfl, rfl⟩⟩
  · cases h
    rw [Bool.not_eq_true] at hlength hcoding
    exact ⟨hvalid.1, hvalid.2, hcoding, by simp [hhost], .inr ⟨hlength, rfl, rfl⟩⟩

theorem checkField_ok {fields : List Field} {counts counts' : FieldCounts} {field : Field}
    (hc : Checked fields counts) (h : checkField counts field = .ok counts') :
    Checked (fields ++ [field]) counts' := by
  rcases checkField_cases h with ⟨hname, hvalue, hcoding, hhost, hlength⟩
  constructor
  · simpa [or_imp, forall_and] using ⟨hc.names, hname⟩
  · simpa [or_imp, forall_and] using ⟨hc.values, hvalue⟩
  · rw [hhost, hc.hostCount, values_append, values_singleton]
    split_ifs <;> simp
  · rcases hlength with ⟨hlength, hcount, -⟩ | ⟨hlength, hcount, -⟩
    · simp [values_append, values_singleton, hlength, hcount, hc.lengthCount]
    · simp [values_append, values_singleton, hlength, hcount, hc.lengthCount]
  · rcases hlength with ⟨hlength, -, hparse⟩ | ⟨hlength, -, hdeclared⟩
    · simpa [values_append, values_singleton, hlength] using hparse
    · simpa [values_append, values_singleton, hlength, hdeclared] using hc.length
  · simp [values_append, values_singleton, hcoding, hc.unchunked]

/-- What `serialize_request` returns, and what it has found out by then. -/
theorem serializeRequest_ok {inetPton6 : Bytes → Bool} {request : Request} {s : SerializedRequest}
    (h : serializeRequest inetPton6 request = .ok s) :
    ∃ url counts, Url.parse inetPton6 request.url = .ok url ∧
      Checked request.headers.fields counts ∧ counts.hostCount ≤ 1 ∧
      counts.contentLengthCount ≤ 1 ∧
      (counts.contentLengthCount = 1 → counts.declaredContentLength = request.body.length) ∧
      s = ⟨url, requestHead request url counts, request.body⟩ := by
  unfold serializeRequest at h
  cases hurl : Url.parse inetPton6 request.url with
  | error e => rw [hurl] at h; cases h
  | ok url =>
    simp only [hurl] at h
    split_ifs at h with hmethod
    cases hfold : request.headers.fields.foldlM checkField {} with
    | error e => rw [hfold] at h; cases h
    | ok counts =>
      simp only [hfold] at h
      split_ifs at h with hhost hcount hdeclared
      cases h
      have hnil : Checked [] {} := ⟨nofun, nofun, rfl, rfl, nofun, rfl⟩
      have hchecked := foldlM_post (I := Checked) (fun _ _ _ _ => checkField_ok) hnil hfold
      exact ⟨url, counts, rfl, hchecked, not_lt.mp hhost, not_lt.mp hcount,
        fun hone => not_not.mp fun hne => hdeclared ⟨hone, hne⟩, rfl⟩

/-! ## The generated texts -/

theorem percentEncoded_good (byte : Byte) :
    (percentEncoded byte).all (fun b => !forbiddenUrlByte b) = true :=
  forall_byte (P := fun byte => (percentEncoded byte).all (fun b => !forbiddenUrlByte b) = true)
    (by decide) byte

theorem appendPercentEncoded_good {output input : Bytes}
    (h : ∀ b ∈ output, forbiddenUrlByte b = false) :
    ∀ b ∈ appendPercentEncoded output input, forbiddenUrlByte b = false := by
  intro b hb
  rcases List.mem_append.mp hb with hb | hb
  · exact h b hb
  · rcases List.mem_flatMap.mp hb with ⟨byte, -, hb⟩
    simpa using List.all_eq_true.mp (percentEncoded_good byte) b hb

theorem encodedQueryParam_good (param : QueryParam) :
    ∀ b ∈ encodedQueryParam param, forbiddenUrlByte b = false := by
  apply appendPercentEncoded_good
  intro b hb
  rcases List.mem_append.mp hb with hb | hb
  · exact appendPercentEncoded_good (by simp) b hb
  · rw [List.mem_singleton.mp hb]
    decide

theorem mem_intercalate {sep b : Byte} {parts : List Bytes} (h : b ∈ [sep].intercalate parts) :
    b = sep ∨ ∃ part ∈ parts, b ∈ part := by
  induction parts with
  | nil => simp at h
  | cons part parts ih =>
    rcases eq_or_ne parts [] with rfl | hne
    · exact .inr ⟨part, by simp, by simpa using h⟩
    · rw [List.intercalate_cons_of_ne_nil hne, List.append_assoc, List.mem_append,
        List.mem_append, List.mem_singleton] at h
      rcases h with h | h | h
      · exact .inr ⟨part, by simp, h⟩
      · exact .inl h
      · rcases ih h with h | ⟨p, hp, hb⟩
        · exact .inl h
        · exact .inr ⟨p, List.mem_cons_of_mem _ hp, hb⟩

def encodedQuery (params : List QueryParam) : Bytes :=
  ['&'.toUInt8].intercalate (params.map encodedQueryParam)

/-- What stands between a text and the parameters behind it. -/
def queryMark (output : Bytes) : Bytes :=
  if '?'.toUInt8 ∉ output then ['?'.toUInt8]
  else if output.getLast? = some '?'.toUInt8 ∨ output.getLast? = some '&'.toUInt8 then []
  else ['&'.toUInt8]

theorem appendQueryParams_mark (output : Bytes) {params : List QueryParam} (hne : params ≠ []) :
    appendQueryParams output params = output ++ (queryMark output ++ encodedQuery params) := by
  unfold appendQueryParams queryMark encodedQuery
  rw [if_neg (by simpa using hne)]
  by_cases hmark : '?'.toUInt8 ∈ output
  · have hnil : output ≠ [] := List.ne_nil_of_mem hmark
    by_cases hlast : output.getLast? = some '?'.toUInt8 ∨ output.getLast? = some '&'.toUInt8
    · rcases hlast with hlast | hlast <;> simp [hmark, hlast]
    · rw [not_or] at hlast
      simp [hmark, hnil, hlast.1, hlast.2]
  · simp [hmark]

theorem queryMark_good (output : Bytes) : ∀ b ∈ queryMark output, forbiddenUrlByte b = false := by
  intro b hb
  unfold queryMark at hb
  split_ifs at hb
  · cases hb
  · rw [List.mem_singleton.mp hb]
    decide
  · rw [List.mem_singleton.mp hb]
    decide

theorem encodedQuery_good (params : List QueryParam) :
    ∀ b ∈ encodedQuery params, forbiddenUrlByte b = false := by
  intro b hb
  rcases mem_intercalate hb with rfl | ⟨part, hpart, hb⟩
  · decide
  · rcases List.mem_map.mp hpart with ⟨param, -, rfl⟩
    exact encodedQueryParam_good param b hb

theorem appendQueryParams_good {output : Bytes} (params : List QueryParam)
    (h : ∀ b ∈ output, forbiddenUrlByte b = false) :
    ∀ b ∈ appendQueryParams output params, forbiddenUrlByte b = false := by
  rcases eq_or_ne params [] with rfl | hne
  · exact h
  · rw [appendQueryParams_mark output hne]
    intro b hb
    rcases List.mem_append.mp hb with hb | hb
    · exact h b hb
    rcases List.mem_append.mp hb with hb | hb
    · exact queryMark_good output b hb
    · exact encodedQuery_good params b hb

/-- What is appended to a target leaves its slash in front. -/
theorem appendQueryParams_head? {output : Bytes} {ch : Byte} (params : List QueryParam)
    (h : output.head? = some ch) : (appendQueryParams output params).head? = some ch := by
  rcases eq_or_ne params [] with rfl | hne
  · exact h
  · rw [appendQueryParams_mark output hne, List.head?_append, h]
    rfl

/-- The digits of a number are read back. -/
theorem decimal_spec (n : ℕ) :
    decimal n ≠ [] ∧ (∀ d ∈ decimal n, isDigit d = true) ∧ ofDigits 10 (decimal n) = n := by
  have hdigit : ∀ k < 10, isDigit k.digitChar.toUInt8 = true ∧
      digitValue 10 k.digitChar.toUInt8 = some k := by decide
  induction n using Nat.base_induction 10 (by decide) with
  | single m hm =>
    have htext : decimal m = [m.digitChar.toUInt8] := by
      rw [decimal, Nat.toDigits_of_lt_base hm]
      rfl
    rw [htext]
    refine ⟨by simp, by simpa using (hdigit m hm).1, ?_⟩
    simp [ofDigits, (hdigit m hm).2]
  | digit m k hk hm ih =>
    have htext : decimal (10 * m + k) = decimal m ++ [k.digitChar.toUInt8] := by
      rw [decimal, ← Nat.toDigits_append_toDigits (by decide) hm hk, List.map_append,
        Nat.toDigits_of_lt_base hk]
      rfl
    rcases ih with ⟨-, hdigits, hvalue⟩
    rw [htext, ofDigits_concat, hvalue, (hdigit k hk).2]
    refine ⟨by simp, ?_, by rw [Option.getD_some, Nat.mul_comm]⟩
    intro d hd
    rcases List.mem_append.mp hd with hd | hd
    · exact hdigits d hd
    · rw [List.mem_singleton.mp hd]
      exact (hdigit k hk).1

end CppRequest
