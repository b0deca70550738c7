import CppRequest.ResponseParser

/-!
# What the framing fields say

`analyze_framing` counts while it walks over the fields. Here are the lists it
counts: the Content-Length values of a head, and the transfer codings that its
Transfer-Encoding fields name together.
-/

namespace CppRequest

namespace Headers

/-- The elements of a comma-separated value. -/
def elements (value : Bytes) : List Bytes := (value.splitOn ','.toUInt8).map trimOws

def contentLengths (h : Headers) : List Bytes := h.values contentLengthName

def transferCodings (h : Headers) : List Bytes :=
  (h.values transferEncodingName).flatMap elements

/-- Whether some Connection field asks for the connection to be closed. -/
def wantsClose (h : Headers) : Bool :=
  (h.values connectionName).any fun value => containsToken value (bytes "close")

end Headers

open Headers

def isChunkedCoding (coding : Bytes) : Bool := asciiIequals coding (bytes "chunked")

/-- The framing that has been analysed, with the fields that have been walked over. -/
structure Analyzed (fields : List Field) (framing : FramingInfo) : Prop where
  lengthCount : framing.contentLengthCount = (contentLengths ⟨fields⟩).length
  length : ∀ value, (contentLengths ⟨fields⟩).getLast? = some value →
    parseContentLength value = some framing.contentLength
  codingFields : framing.transferEncodingFields =
    ((⟨fields⟩ : Headers).values transferEncodingName).length
  codings : framing.transferEncodingTokens = (transferCodings ⟨fields⟩).length
  chunked : framing.transferEncodingIsChunked = (transferCodings ⟨fields⟩).all isChunkedCoding
  close : framing.connectionCloseRequested = wantsClose ⟨fields⟩

theorem analyzeCodings_eq {framing framing' : FramingInfo} {tokens : List Bytes}
    (h : analyzeCodings framing tokens = .ok framing') :
    framing' = { framing with
      transferEncodingTokens := framing.transferEncodingTokens + tokens.length
      transferEncodingIsChunked := framing.transferEncodingIsChunked &&
        (tokens.map trimOws).all isChunkedCoding } := by
  induction tokens generalizing framing with
  | nil =>
    cases h
    simp
  | cons token tokens ih =>
    unfold analyzeCodings at h
    split_ifs at h
    rw [ih h]
    simp [isChunkedCoding, Bool.and_assoc, Nat.add_assoc, Nat.add_comm tokens.length]

theorem analyzeField_ok {fields : List Field} {framing framing' : FramingInfo} {field : Field}
    (hf : Analyzed fields framing) (h : analyzeField framing field = .ok framing') :
    Analyzed (fields ++ [field]) framing' := by
  have hclose : wantsClose ⟨fields ++ [field]⟩ = (framing.connectionCloseRequested ||
      (asciiIequals field.name connectionName && containsToken field.value (bytes "close"))) := by
    rw [hf.close, wantsClose, values_append, List.any_append, values_singleton]
    by_cases hname : asciiIequals field.name connectionName <;> simp [hname, wantsClose]
  unfold analyzeField at h
  split_ifs at h with hlength hcoding
  · split at h
    · cases h
    · next n hn =>
      cases h
      have hno := not_transferEncoding hlength
      refine ⟨?_, ?_, ?_, ?_, ?_, hclose.symm⟩
      · simp [contentLengths, values_append, values_singleton, hlength, hf.lengthCount]
      · intro value hvalue
        simp only [contentLengths, values_append, values_singleton, hlength, if_true,
          List.getLast?_append, List.getLast?_singleton, Option.some_or, Option.some_inj] at hvalue
        rw [← hvalue]
        exact hn
      · simp [values_append, values_singleton, hno, hf.codingFields]
      · simp [transferCodings, values_append, values_singleton, hno, hf.codings]
      · simp [transferCodings, values_append, values_singleton, hno, hf.chunked]
  · cases h
    rw [Bool.not_eq_true'] at hcoding
    rw [Bool.not_eq_true] at hlength
    refine ⟨?_, ?_, ?_, ?_, ?_, hclose.symm⟩
    · simp [contentLengths, values_append, values_singleton, hlength, hf.lengthCount]
    · simpa [contentLengths, values_append, values_singleton, hlength] using hf.length
    · simp [values_append, values_singleton, hcoding, hf.codingFields]
    · simp [transferCodings, values_append, values_singleton, hcoding, hf.codings]
    · simp [transferCodings, values_append, values_singleton, hcoding, hf.chunked]
  · rw [Bool.not_eq_true', Bool.not_eq_false] at hcoding
    rw [Bool.not_eq_true] at hlength
    have heq := analyzeCodings_eq h
    subst heq
    refine ⟨?_, ?_, ?_, ?_, ?_, hclose.symm⟩
    · simp [contentLengths, values_append, values_singleton, hlength, hf.lengthCount]
    · simpa [contentLengths, values_append, values_singleton, hlength] using hf.length
    · simp [values_append, values_singleton, hcoding, hf.codingFields]
    · simp [transferCodings, values_append, values_singleton, hcoding, hf.codings, elements]
    · simp [transferCodings, values_append, values_singleton, hcoding, hf.chunked, elements]

theorem analyzeFraming_ok {h : Headers} {framing : FramingInfo}
    (hok : analyzeFraming h = .ok framing) :
    Analyzed h.fields framing ∧ framing.contentLengthCount ≤ 1 := by
  unfold analyzeFraming at hok
  cases hfold : h.fields.foldlM analyzeField {} with
  | error e => rw [hfold] at hok; cases hok
  | ok framing₁ =>
    simp only [hfold] at hok
    split_ifs at hok with hcount
    cases hok
    have hnil : Analyzed [] {} := ⟨rfl, nofun, rfl, rfl, rfl, rfl⟩
    have hfields := foldlM_post (I := Analyzed) (fun _ _ _ _ => analyzeField_ok) hnil hfold
    exact ⟨hfields, not_lt.mp hcount⟩

end CppRequest
