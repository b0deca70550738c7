import CppRequest.RequestSerializer

/-!
# Query parameters

A reader of queries: cut at every ampersand, each piece cut at its first equals sign,
both halves percent-decoded. It reads back what `append_query_params` writes behind
a target.
-/

namespace CppRequest

open Search

/-! ## Percent-encoding -/

/-- Malformed escapes are refused. -/
def percentDecode : Bytes → Option Bytes
  | [] => some []
  | ch :: text =>
    if ch = '%'.toUInt8 then
      match text with
      | hi :: lo :: text =>
        match digitValue 16 hi, digitValue 16 lo with
        | some high, some low =>
          (percentDecode text).map ((16 * high + low).toUInt8 :: ·)
        | _, _ => none
      | _ => none
    else (percentDecode text).map (ch :: ·)

/-- Unreserved bytes, escapes and the two separators. -/
def queryText : Bytes → Bool
  | [] => true
  | ch :: text =>
    if ch = '%'.toUInt8 then
      match text with
      | hi :: lo :: text => isHexDigit hi && isHexDigit lo && queryText text
      | _ => false
    else (isUnreserved ch || ch == '='.toUInt8 || ch == '&'.toUInt8) && queryText text

theorem percentDecode_cons {ch : Byte} (text : Bytes) (h : ch ≠ '%'.toUInt8) :
    percentDecode (ch :: text) = (percentDecode text).map (ch :: ·) := by
  conv_lhs => unfold percentDecode
  rw [if_neg h]

theorem percentDecode_escape {hi lo : Byte} {high low : ℕ} (text : Bytes)
    (hhi : digitValue 16 hi = some high) (hlo : digitValue 16 lo = some low) :
    percentDecode ('%'.toUInt8 :: hi :: lo :: text) =
      (percentDecode text).map ((16 * high + low).toUInt8 :: ·) := by
  conv_lhs => unfold percentDecode
  simp [hhi, hlo]

theorem queryText_cons {ch : Byte} (text : Bytes) (h : ch ≠ '%'.toUInt8) :
    queryText (ch :: text) =
      ((isUnreserved ch || ch == '='.toUInt8 || ch == '&'.toUInt8) && queryText text) := by
  conv_lhs => unfold queryText
  rw [if_neg h]

theorem queryText_escape {hi lo : Byte} (text : Bytes) (hhi : isHexDigit hi = true)
    (hlo : isHexDigit lo = true) : queryText ('%'.toUInt8 :: hi :: lo :: text) = queryText text := by
  conv_lhs => unfold queryText
  simp [hhi, hlo]

/-- One byte of a text is either itself or an escape. -/
theorem percentEncoded_cases (byte : Byte) :
    (isUnreserved byte = true ∧ percentEncoded byte = [byte]) ∨
      ∃ hi lo, percentEncoded byte = ['%'.toUInt8, hi, lo] ∧ isHexDigit hi = true ∧
        isHexDigit lo = true ∧ ∃ high low, digitValue 16 hi = some high ∧
          digitValue 16 lo = some low ∧ (16 * high + low).toUInt8 = byte := by
  have hhex : ∀ byte : Byte,
      isHexDigit (kHex.getD ((byte >>> 4) &&& 0x0f).toNat 0) = true ∧
        isHexDigit (kHex.getD (byte &&& 0x0f).toNat 0) = true ∧
        digitValue 16 (kHex.getD ((byte >>> 4) &&& 0x0f).toNat 0) =
          some ((byte >>> 4) &&& 0x0f).toNat ∧
        digitValue 16 (kHex.getD (byte &&& 0x0f).toNat 0) = some (byte &&& 0x0f).toNat ∧
        (16 * ((byte >>> 4) &&& 0x0f).toNat + (byte &&& 0x0f).toNat).toUInt8 = byte :=
    forall_byte (by decide)
  unfold percentEncoded
  split_ifs with hfree
  · exact .inl ⟨hfree, rfl⟩
  · rcases hhex byte with ⟨hhi, hlo, hhigh, hlow, hvalue⟩
    exact .inr ⟨_, _, rfl, hhi, hlo, _, _, hhigh, hlow, hvalue⟩

theorem isUnreserved_ne {ch : Byte} (h : isUnreserved ch = true) :
    ch ≠ '%'.toUInt8 ∧ ch ≠ '&'.toUInt8 ∧ ch ≠ '='.toUInt8 :=
  forall_byte (P := fun ch => isUnreserved ch = true →
    ch ≠ '%'.toUInt8 ∧ ch ≠ '&'.toUInt8 ∧ ch ≠ '='.toUInt8) (by decide) ch h

theorem isHexDigit_ne {ch : Byte} (h : isHexDigit ch = true) :
    ch ≠ '&'.toUInt8 ∧ ch ≠ '='.toUInt8 :=
  forall_byte (P := fun ch => isHexDigit ch = true → ch ≠ '&'.toUInt8 ∧ ch ≠ '='.toUInt8)
    (by decide) ch h

/-- Encoded bytes are decoded, whatever follows. -/
theorem percentDecode_encoded (input text : Bytes) :
    percentDecode (input.flatMap percentEncoded ++ text) =
      (percentDecode text).map (input ++ ·) := by
  induction input with
  | nil => simp
  | cons byte input ih =>
    rw [List.flatMap_cons, List.append_assoc]
    rcases percentEncoded_cases byte with ⟨hfree, hbyte⟩ | ⟨hi, lo, hbyte, -, -, high, low, hhi, hlo, hv⟩
    · rw [hbyte, List.singleton_append, percentDecode_cons _ (isUnreserved_ne hfree).1, ih,
        Option.map_map]
      rfl
    · rw [hbyte, List.cons_append, List.cons_append, List.singleton_append,
        percentDecode_escape _ hhi hlo, ih, hv, Option.map_map]
      rfl

theorem queryText_encoded (input text : Bytes) :
    queryText (input.flatMap percentEncoded ++ text) = queryText text := by
  induction input with
  | nil => rfl
  | cons byte input ih =>
    rw [List.flatMap_cons, List.append_assoc]
    rcases percentEncoded_cases byte with ⟨hfree, hbyte⟩ | ⟨hi, lo, hbyte, hhi, hlo, -⟩
    · rw [hbyte, List.singleton_append, queryText_cons _ (isUnreserved_ne hfree).1, ih, hfree]
      rfl
    · rw [hbyte, List.cons_append, List.cons_append, List.singleton_append,
        queryText_escape _ hhi hlo, ih]

/-- The separators do not occur in an encoded text. -/
theorem not_mem_encoded (input : Bytes) :
    '&'.toUInt8 ∉ input.flatMap percentEncoded ∧ '='.toUInt8 ∉ input.flatMap percentEncoded := by
  have hbyte : ∀ byte, ∀ ch ∈ percentEncoded byte, ch ≠ '&'.toUInt8 ∧ ch ≠ '='.toUInt8 := by
    intro byte ch hch
    rcases percentEncoded_cases byte with ⟨hfree, heq⟩ | ⟨hi, lo, heq, hhi, hlo, -⟩
    · rw [heq, List.mem_singleton] at hch
      rw [hch]
      exact (isUnreserved_ne hfree).2
    · rw [heq] at hch
      simp only [List.mem_cons, List.not_mem_nil, or_false] at hch
      rcases hch with rfl | rfl | rfl
      · decide
      · exact isHexDigit_ne hhi
      · exact isHexDigit_ne hlo
  constructor
  · intro h
    rcases List.mem_flatMap.mp h with ⟨byte, -, hch⟩
    exact (hbyte byte _ hch).1 rfl
  · intro h
    rcases List.mem_flatMap.mp h with ⟨byte, -, hch⟩
    exact (hbyte byte _ hch).2 rfl

/-! ## The reader -/

def decodeQueryParam (piece : Bytes) : Option QueryParam := do
  let (name, value) ← cut ['='.toUInt8] piece
  let name ← percentDecode name
  let value ← percentDecode value
  return ⟨name, value⟩

def decodeQuery (query : Bytes) : Option (List QueryParam) :=
  (query.splitOn '&'.toUInt8).mapM decodeQueryParam

theorem encodedQueryParam_eq (param : QueryParam) :
    encodedQueryParam param = param.name.flatMap percentEncoded ++
      ('='.toUInt8 :: param.value.flatMap percentEncoded) := by
  simp [encodedQueryParam, appendPercentEncoded]

theorem decodeQueryParam_encoded (param : QueryParam) :
    decodeQueryParam (encodedQueryParam param) = some param := by
  have hdecode : ∀ input : Bytes, percentDecode (input.flatMap percentEncoded) = some input := by
    intro input
    have h := percentDecode_encoded input []
    rw [List.append_nil] at h
    rw [h]
    simp [percentDecode]
  have hcut : cut ['='.toUInt8] (encodedQueryParam param) =
      some (param.name.flatMap percentEncoded, param.value.flatMap percentEncoded) := by
    rw [encodedQueryParam_eq]
    exact cut_leads _ (leads_of_not_mem (not_mem_encoded param.name).2)
  unfold decodeQueryParam
  rw [hcut]
  simp [hdecode]

theorem ampersand_not_mem (param : QueryParam) : '&'.toUInt8 ∉ encodedQueryParam param := by
  rw [encodedQueryParam_eq, List.mem_append, List.mem_cons]
  rintro (h | h | h)
  · exact (not_mem_encoded param.name).1 h
  · exact absurd h (by decide)
  · exact (not_mem_encoded param.value).1 h

/-- The parameters are read back from their text. -/
theorem decodeQuery_encoded {params : List QueryParam} (hne : params ≠ []) :
    decodeQuery (encodedQuery params) = some params := by
  have hsplit : (encodedQuery params).splitOn '&'.toUInt8 = params.map encodedQueryParam := by
    apply List.splitOn_intercalate
    · intro piece hpiece
      rcases List.mem_map.mp hpiece with ⟨param, -, rfl⟩
      exact ampersand_not_mem param
    · simpa using hne
  unfold decodeQuery
  rw [hsplit]
  clear hsplit hne
  induction params with
  | nil => rfl
  | cons param params ih =>
    rw [List.map_cons, List.mapM_cons, decodeQueryParam_encoded, ih]
    rfl

theorem queryText_param (param : QueryParam) (text : Bytes) :
    queryText (encodedQueryParam param ++ text) = queryText text := by
  have hequals : '='.toUInt8 ≠ '%'.toUInt8 := by decide
  rw [encodedQueryParam_eq, List.append_assoc, queryText_encoded, List.cons_append,
    queryText_cons _ hequals, queryText_encoded]
  rfl

theorem queryText_query (params : List QueryParam) : queryText (encodedQuery params) = true := by
  have hampersand : '&'.toUInt8 ≠ '%'.toUInt8 := by decide
  unfold encodedQuery
  induction params with
  | nil => rfl
  | cons param params ih =>
    rcases eq_or_ne params [] with rfl | hne
    · have h := queryText_param param []
      rw [List.append_nil] at h
      rw [List.map_singleton, List.intercalate_singleton]
      exact h.trans rfl
    · have hne' : params.map encodedQueryParam ≠ [] := by simpa using hne
      rw [List.map_cons, List.intercalate_cons_of_ne_nil hne', List.append_assoc, queryText_param,
        List.singleton_append, queryText_cons _ hampersand, ih]
      rfl

/-! ## What the text of a query is -/

/-- The escapes of a text are complete, so that what follows is checked by itself. -/
theorem validPercentEscapes_append {a : Bytes} (b : Bytes) (h : validPercentEscapes a = true) :
    validPercentEscapes (a ++ b) = validPercentEscapes b := by
  induction a using validPercentEscapes.induct with
  | case1 => rfl
  | case2 ch text hch ih =>
    have hne : ch ≠ '%'.toUInt8 := by simpa using hch
    rw [validPercentEscapes_cons _ hne] at h
    rw [List.cons_append, validPercentEscapes_cons _ hne]
    exact ih h
  | case3 ch hch hi lo text ih =>
    have heq : ch = '%'.toUInt8 := by simpa using hch
    rw [heq, validPercentEscapes_escape, Bool.and_eq_true, Bool.and_eq_true] at h
    rw [heq, List.cons_append, List.cons_append, List.cons_append, validPercentEscapes_escape,
      h.1.1, h.1.2, ih h.2]
    rfl
  | case4 ch text hch hshort =>
    unfold validPercentEscapes at h
    rw [if_neg hch] at h
    cases text with
    | nil => cases h
    | cons hi text =>
      cases text with
      | nil => cases h
      | cons lo text => exact (hshort hi lo text rfl).elim

theorem queryText_spec {text : Bytes} (h : queryText text = true) :
    validPercentEscapes text = true ∧ ∀ b ∈ text, forbiddenUrlByte b = false ∧ b ≠ '#'.toUInt8 := by
  induction text using queryText.induct with
  | case1 => exact ⟨rfl, nofun⟩
  | case2 hi lo text ih =>
    unfold queryText at h
    simp only [if_true, Bool.and_eq_true] at h
    rcases ih h.2 with ⟨hvalid, hgood⟩
    have hhex : ∀ b, isHexDigit b = true → forbiddenUrlByte b = false ∧ b ≠ '#'.toUInt8 :=
      forall_byte (by decide)
    constructor
    · rw [validPercentEscapes_escape, h.1.1, h.1.2, hvalid]
      rfl
    · simp only [List.forall_mem_cons]
      exact ⟨by decide, hhex hi h.1.1, hhex lo h.1.2, hgood⟩
  | case3 text hshort =>
    unfold queryText at h
    rw [if_pos rfl] at h
    cases text with
    | nil => cases h
    | cons hi text =>
      cases text with
      | nil => cases h
      | cons lo text => exact (hshort hi lo text rfl).elim
  | case4 ch text hch ih =>
    rw [queryText_cons _ hch, Bool.and_eq_true] at h
    rcases ih h.2 with ⟨hvalid, hgood⟩
    have hfree : ∀ b, (isUnreserved b || b == '='.toUInt8 || b == '&'.toUInt8) = true →
        forbiddenUrlByte b = false ∧ b ≠ '#'.toUInt8 := forall_byte (by decide)
    exact ⟨by rw [validPercentEscapes_cons _ hch, hvalid],
      List.forall_mem_cons.mpr ⟨hfree ch h.1, hgood⟩⟩

/-! ## The target with its parameters -/

theorem queryText_ne_nil {params : List QueryParam} (hne : params ≠ []) :
    encodedQuery params ≠ [] := by
  intro hnil
  have hread := decodeQuery_encoded hne
  rw [hnil] at hread
  cases hread

/-- Different parameters make different targets. -/
theorem appendQueryParams_inj {target : Bytes} {params params' : List QueryParam}
    (h : appendQueryParams target params = appendQueryParams target params') :
    params = params' := by
  have hlonger : ∀ {params : List QueryParam}, params ≠ [] →
      appendQueryParams target params ≠ target := by
    intro params hne heq
    rw [appendQueryParams_mark target hne] at heq
    have hnil := List.append_right_eq_self.mp heq
    exact queryText_ne_nil hne (List.append_eq_nil_iff.mp hnil).2
  rcases eq_or_ne params [] with rfl | hne
  · rcases eq_or_ne params' [] with rfl | hne'
    · rfl
    · exact absurd h.symm (hlonger hne')
  · rcases eq_or_ne params' [] with rfl | hne'
    · exact absurd h (hlonger hne)
    · rw [appendQueryParams_mark target hne, appendQueryParams_mark target hne'] at h
      have hquery := List.append_cancel_left (List.append_cancel_left h)
      have hread := decodeQuery_encoded hne
      rw [hquery, decodeQuery_encoded hne'] at hread
      exact (Option.some.inj hread).symm

end CppRequest
