import CppRequest.ChunkedFormat

/-!
# The grammar of a chunked body

The messages that the decoder accepts, written out as the text they are read from.
-/

namespace CppRequest

open Search

/-- A trailer line: a name of token bytes, a colon and a value without control bytes. -/
def IsTrailer (line : Bytes) : Prop :=
  ∃ name value, line = name ++ ':'.toUInt8 :: value ∧ name ≠ [] ∧ (∀ ch ∈ name, isTchar ch = true) ∧
    (∀ ch ∈ value, IsTextByte ch) ∧
    asciiIequals name (bytes "Content-Length") = false ∧
    asciiIequals name (bytes "Transfer-Encoding") = false

/-- The text of a chunked body, cut into size lines, chunk data and trailer lines. -/
structure ChunkedText (limits : ResponseLimits) (chunks : List (Bytes × Bytes)) (last : Bytes)
    (trailers : List Bytes) : Prop where
  chunk : ∀ c ∈ chunks, ¬ crlf <:+: c.1 ∧ c.1.length ≤ limits.maxChunkLineBytes.toNat ∧
    parseChunkSize c.1 = .ok c.2.length ∧ c.2.length ≠ 0
  last : ¬ crlf <:+: last ∧ last.length ≤ limits.maxChunkLineBytes.toNat ∧
    parseChunkSize last = .ok 0
  body : (chunks.map fun c => c.2.length).sum ≤ limits.maxBodyBytes.toNat
  trailer : ∀ t ∈ trailers, ¬ crlf <:+: t ∧ IsTrailer t
  section_length : (trailers.flatMap (· ++ crlf) ++ crlf).length ≤ limits.maxTrailerBytes.toNat

/-- The lines that `valid_trailer_line` accepts. -/
theorem validTrailerLine_iff {line : Bytes} : validTrailerLine line = true ↔ IsTrailer line := by
  constructor
  · intro h
    unfold validTrailerLine at h
    split at h
    · cases h
    · next front tail =>
      split_ifs at h
      cases hfind : find (front :: tail) [':'.toUInt8] 0 with
      | none => simp [hfind] at h
      | some colon =>
        simp only [hfind, Bool.and_eq_true, bne_iff_ne, Bool.not_eq_true'] at h
        rcases h with ⟨⟨⟨⟨-, hname⟩, hvalue⟩, hlength⟩, hencoding⟩
        have hcut := cut_eq_find [':'.toUInt8] (front :: tail)
        rw [hfind, Option.map_some] at hcut
        have hline := (cut_eq_some_iff.mp hcut).1
        rcases validHeaderName_iff.mp hname with ⟨hne, hall⟩
        exact ⟨_, _, hline, hne, hall, validFieldValue_iff_text.mp hvalue, hlength, hencoding⟩
  · rintro ⟨name, value, rfl, hne, hall, hvalue, hlength, hencoding⟩
    have hno : ':'.toUInt8 ∉ name := fun h => (isTchar_ne (hall _ h)).2.2.1 rfl
    have hfind : find (name ++ ':'.toUInt8 :: value) [':'.toUInt8] 0 = some name.length :=
      find_leads value (leads_singleton.mpr hno)
    have htake : (name ++ ':'.toUInt8 :: value).take name.length = name := List.take_left
    have hdrop : (name ++ ':'.toUInt8 :: value).drop (name.length + 1) = value := by
      rw [← List.drop_drop, List.drop_left]
      rfl
    have hname := validHeaderName_iff.mpr ⟨hne, hall⟩
    have hpos : name.length ≠ 0 := fun h => hne (List.length_eq_zero_iff.mp h)
    rcases List.exists_cons_of_ne_nil hne with ⟨front, tail, rfl⟩
    have hfront := isTchar_ne (hall front List.mem_cons_self)
    unfold validTrailerLine
    simp only [List.cons_append] at hfind htake hdrop ⊢
    simp only [hfind, htake, hdrop, hname, validFieldValue_iff_text.mpr hvalue, hlength, hencoding]
    simp [hfront.1, hfront.2.1]

namespace ChunkedText

variable {limits : ResponseLimits}

theorem exists_chunks {parts : List (Bytes × Bytes)}
    (h : ∀ c ∈ parts, ¬ crlf <:+: c.1 ∧ parseChunkSize c.1 = .ok c.2.length ∧ c.2.length ≠ 0) :
    ∃ chunks : List Chunk, parts = chunks.map fun c => (c.size.line, c.data) := by
  induction parts with
  | nil => exact ⟨[], rfl⟩
  | cons c parts ih =>
    rcases h c List.mem_cons_self with ⟨hno, hsize, hne⟩
    rcases ih fun c hc => h c (List.mem_cons_of_mem _ hc) with ⟨chunks, rfl⟩
    exact ⟨⟨c.2, fun hnil => hne (congrArg List.length hnil), c.1, hno, hsize⟩ :: chunks, rfl⟩

theorem exists_trailers {lines : List Bytes} (h : ∀ t ∈ lines, ¬ crlf <:+: t ∧ IsTrailer t) :
    ∃ trailers : List TrailerLine, lines = trailers.map TrailerLine.line := by
  induction lines with
  | nil => exact ⟨[], rfl⟩
  | cons line lines ih =>
    rcases h line List.mem_cons_self with ⟨hno, hvalid⟩
    rcases ih fun t ht => h t (List.mem_cons_of_mem _ ht) with ⟨trailers, rfl⟩
    exact ⟨⟨line, hno, validTrailerLine_iff.mpr hvalid⟩ :: trailers, rfl⟩

end ChunkedText

namespace ChunkedMessage

/-- The text of a message. -/
theorem text (m : ChunkedMessage) {limits : ResponseLimits} (h : m.Within limits) :
    ChunkedText limits (m.chunks.map fun c => (c.size.line, c.data)) m.last.line
      (m.trailers.map TrailerLine.line) := by
  refine ⟨?_, ?_, ?_, ?_, ?_⟩
  · intro c hc
    rcases List.mem_map.mp hc with ⟨chunk, hchunk, rfl⟩
    rcases List.mem_iff_getElem.mp hchunk with ⟨k, hk, rfl⟩
    have hline := h.lines k
    rw [sizeLine, List.getElem?_eq_getElem hk] at hline
    exact ⟨m.chunks[k].size.noCrlf, hline, m.chunks[k].size.accepted, m.chunks[k].length_ne_zero⟩
  · have hline := h.lines m.chunks.length
    rw [sizeLine, List.getElem?_eq_none (Nat.le_refl _)] at hline
    exact ⟨m.last.noCrlf, hline, m.last.accepted⟩
  · have hbody := h.body
    rw [data, List.length_flatMap] at hbody
    rw [List.map_map]
    exact hbody
  · intro t ht
    rcases List.mem_map.mp ht with ⟨trailer, -, rfl⟩
    exact ⟨trailer.noCrlf, validTrailerLine_iff.mp trailer.valid⟩
  · rw [List.flatMap_map]
    exact h.trailers

theorem within_of_text {limits : ResponseLimits} {chunks : List Chunk} {last : SizeLine 0}
    {trailers : List TrailerLine}
    (h : ChunkedText limits (chunks.map fun c => (c.size.line, c.data)) last.line
      (trailers.map TrailerLine.line)) : (ChunkedMessage.mk chunks last trailers).Within limits := by
  refine ⟨fun k => ?_, ?_, ?_⟩
  · unfold sizeLine
    cases hk : chunks[k]? with
    | none => exact h.last.2.1
    | some c =>
      have hmem := List.mem_map_of_mem (f := fun c : Chunk => (c.size.line, c.data))
        (List.mem_of_getElem? hk)
      exact (h.chunk _ hmem).2.1
  · have hbody := h.body
    rw [List.map_map] at hbody
    rw [data, List.length_flatMap]
    exact hbody
  · have hsection := h.section_length
    rw [List.flatMap_map] at hsection
    exact hsection

end ChunkedMessage

namespace ChunkedDecoder

/-- A fresh decoder accepts the texts of the grammar and leaves alone what stands behind them. -/
theorem process_grammar_iff {limits : ResponseLimits} {input body rest : Bytes} :
    (∃ c, process { limits } input [] = (.ok .complete, c) ∧ c.output = body ∧ c.input = rest) ↔
      ∃ chunks last trailers, ChunkedText limits chunks last trailers ∧
        input = chunks.flatMap (fun c => c.1 ++ (crlf ++ (c.2 ++ crlf))) ++
          (last ++ (crlf ++ (trailers.flatMap (· ++ crlf) ++ (crlf ++ rest)))) ∧
        body = chunks.flatMap Prod.snd := by
  constructor
  · rintro ⟨c, hprocess, rfl, rfl⟩
    rcases process_complete_iff.mp hprocess with ⟨m, rest, rfl, hwithin, rfl⟩
    refine ⟨_, _, _, m.text hwithin, ?_, ?_⟩
    · simp only [ChunkedMessage.encode, ChunkedMessage.trailerSection, List.flatMap_map,
        List.append_assoc]
      rfl
    · rw [List.flatMap_map]
      rfl
  · rintro ⟨parts, last, lines, htext, rfl, rfl⟩
    rcases ChunkedText.exists_chunks fun c hc =>
      ⟨(htext.chunk c hc).1, (htext.chunk c hc).2.2⟩ with ⟨chunks, rfl⟩
    rcases ChunkedText.exists_trailers htext.trailer with ⟨trailers, rfl⟩
    rcases htext.last with ⟨hno, -, hsize⟩
    have hwithin := @ChunkedMessage.within_of_text limits chunks ⟨last, hno, hsize⟩ trailers htext
    refine ⟨_, process_complete_iff.mpr ⟨⟨chunks, ⟨last, hno, hsize⟩, trailers⟩, rest, ?_, hwithin,
      rfl⟩, ?_, rfl⟩
    · simp only [ChunkedMessage.encode, ChunkedMessage.trailerSection, List.flatMap_map,
        List.append_assoc]
      rfl
    · rw [List.flatMap_map]
      rfl

end ChunkedDecoder

end CppRequest
