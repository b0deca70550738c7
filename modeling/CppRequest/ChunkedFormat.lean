import CppRequest.DecoderRounds

/-!
# The chunked format

A chunked message as a value: the chunks with their size lines, the last size line
and the trailer lines. The decoder accepts exactly the encodings of such messages
that keep the limits, with the bytes behind them left alone.
-/

namespace CppRequest

open Search

/-- A line that `parse_chunk_size` accepts. -/
structure SizeLine (size : ℕ) where
  line : Bytes
  noCrlf : ¬ crlf <:+: line
  accepted : parseChunkSize line = .ok size

structure Chunk where
  data : Bytes
  nonempty : data ≠ []
  size : SizeLine data.length

structure TrailerLine where
  line : Bytes
  noCrlf : ¬ crlf <:+: line
  valid : validTrailerLine line = true

structure ChunkedMessage where
  chunks : List Chunk
  last : SizeLine 0
  trailers : List TrailerLine

def Chunk.encode (c : Chunk) : Bytes := c.size.line ++ (crlf ++ (c.data ++ crlf))

def TrailerLine.encode (t : TrailerLine) : Bytes := t.line ++ crlf

namespace ChunkedMessage

/-- The trailer section, with the empty line that ends it. -/
def trailerSection (trailers : List TrailerLine) : Bytes :=
  trailers.flatMap TrailerLine.encode ++ crlf

def encode (m : ChunkedMessage) : Bytes :=
  m.chunks.flatMap Chunk.encode ++ (m.last.line ++ (crlf ++ trailerSection m.trailers))

def data (m : ChunkedMessage) : Bytes := m.chunks.flatMap Chunk.data

/-- The size lines, numbered from the first chunk on; all numbers behind name the last one. -/
def sizeLine (m : ChunkedMessage) (k : ℕ) : Bytes :=
  (m.chunks[k]?.map fun c => c.size.line).getD m.last.line

structure Within (m : ChunkedMessage) (limits : ResponseLimits) : Prop where
  lines : ∀ k, (m.sizeLine k).length ≤ limits.maxChunkLineBytes.toNat
  body : m.data.length ≤ limits.maxBodyBytes.toNat
  trailers : (trailerSection m.trailers).length ≤ limits.maxTrailerBytes.toNat

/-- The message behind its first chunk. -/
def behind (m : ChunkedMessage) (chunks : List Chunk) : ChunkedMessage := { m with chunks }

end ChunkedMessage

theorem SizeLine.leads {size : ℕ} (l : SizeLine size) : Leads crlf l.line :=
  (leads_pair cr_ne_lf).mpr l.noCrlf

theorem TrailerLine.leads (t : TrailerLine) : Leads crlf t.line :=
  (leads_pair cr_ne_lf).mpr t.noCrlf

theorem Chunk.length_ne_zero (c : Chunk) : c.data.length ≠ 0 :=
  fun h => c.nonempty (List.length_eq_zero_iff.mp h)

namespace ChunkedDecoder

/-! ## Decoding a message -/

/-- The decoder in front of a size line. -/
def atSizeLine (limits : ResponseLimits) (input output : Bytes) : Config :=
  ⟨{ limits }, input, output⟩

/-- The decoder in front of a trailer line. -/
def atTrailers (limits : ResponseLimits) (seen : ℕ) (input output : Bytes) : Config :=
  ⟨{ limits, stage := .trailers, trailerBytesSeen := seen }, input, output⟩

/-- The decoder behind a message. -/
def atEnd (limits : ResponseLimits) (seen : ℕ) (input output : Bytes) : Config :=
  ⟨{ limits, stage := .complete, trailerBytesSeen := seen }, input, output⟩

theorem size_round {limits : ResponseLimits} {size : ℕ} (l : SizeLine size) (hsize : size ≠ 0)
    (rest output : Bytes) (hline : l.line.length ≤ limits.maxChunkLineBytes.toNat)
    (hbody : output.length + size ≤ limits.maxBodyBytes.toNat) :
    Round (atSizeLine limits (l.line ++ (crlf ++ rest)) output)
      ⟨{ limits, stage := .data, chunkRemaining := size }, rest, output⟩ := by
  have hround := @Round.size { limits } _ rest output _ rfl l.leads hline l.accepted (.inr hbody)
  rwa [afterSize, if_neg hsize] at hround

theorem data_round {limits : ResponseLimits} (data rest output : Bytes) :
    Round ⟨{ limits, stage := .data, chunkRemaining := data.length }, data ++ rest, output⟩
      ⟨{ limits, stage := .dataCrlf }, rest, output ++ data⟩ :=
  Round.data rfl rfl

theorem crlf_round {limits : ResponseLimits} (rest output : Bytes) :
    Round ⟨{ limits, stage := .dataCrlf }, crlf ++ rest, output⟩ (atSizeLine limits rest output) :=
  Round.dataCrlf rfl

theorem last_round {limits : ResponseLimits} (l : SizeLine 0) (rest output : Bytes)
    (hline : l.line.length ≤ limits.maxChunkLineBytes.toNat) :
    Round (atSizeLine limits (l.line ++ (crlf ++ rest)) output)
      (atTrailers limits 0 rest output) :=
  Round.size (d := { limits }) rfl l.leads hline l.accepted (.inl rfl)

theorem trailer_round {limits : ResponseLimits} {seen : ℕ} (t : TrailerLine) (rest output : Bytes)
    (hseen : seen + t.encode.length ≤ limits.maxTrailerBytes.toNat) :
    Round (atTrailers limits seen (t.encode ++ rest) output)
      (atTrailers limits (seen + t.encode.length) rest output) := by
  have hround := @Round.trailer { limits, stage := .trailers, trailerBytesSeen := seen } _ rest
    output rfl t.leads (by simpa [TrailerLine.encode, crlf] using hseen) t.valid
  simpa [atTrailers, TrailerLine.encode, crlf] using hround

theorem chunk_run {limits : ResponseLimits} (c : Chunk) (rest output : Bytes)
    (hline : c.size.line.length ≤ limits.maxChunkLineBytes.toNat)
    (hbody : output.length + c.data.length ≤ limits.maxBodyBytes.toNat) :
    unreadLoop.run (atSizeLine limits (c.encode ++ rest) output) =
      unreadLoop.run (atSizeLine limits rest (output ++ c.data)) := by
  rw [Chunk.encode, List.append_assoc, List.append_assoc, List.append_assoc]
  calc unreadLoop.run (atSizeLine limits (c.size.line ++ (crlf ++ (c.data ++ (crlf ++ rest)))) output)
      = _ := (size_round c.size c.length_ne_zero _ output hline hbody).run
    _ = _ := (data_round c.data _ output).run
    _ = _ := (crlf_round rest _).run

theorem trailers_run {limits : ResponseLimits} {seen : ℕ} (trailers : List TrailerLine)
    (rest output : Bytes)
    (hseen : seen + (ChunkedMessage.trailerSection trailers).length ≤
      limits.maxTrailerBytes.toNat) :
    unreadLoop.run (atTrailers limits seen (ChunkedMessage.trailerSection trailers ++ rest) output) =
      (.ok .complete,
        atEnd limits (seen + (ChunkedMessage.trailerSection trailers).length) rest output) := by
  unfold ChunkedMessage.trailerSection at hseen ⊢
  induction trailers generalizing seen with
  | nil => exact (Rest.lastLine rfl hseen).run
  | cons t trailers ih =>
    simp only [List.flatMap_cons, List.append_assoc, List.length_append] at hseen ih ⊢
    rw [(trailer_round t _ output (by omega)).run, ih (by omega)]
    simp only [Nat.add_assoc]

theorem message_run {limits : ResponseLimits} (m : ChunkedMessage) (rest output : Bytes)
    (hlines : ∀ k, (m.sizeLine k).length ≤ limits.maxChunkLineBytes.toNat)
    (hbody : output.length + m.data.length ≤ limits.maxBodyBytes.toNat)
    (htrailers : (ChunkedMessage.trailerSection m.trailers).length ≤
      limits.maxTrailerBytes.toNat) :
    unreadLoop.run (atSizeLine limits (m.encode ++ rest) output) =
      (.ok .complete, atEnd limits (ChunkedMessage.trailerSection m.trailers).length rest
        (output ++ m.data)) := by
  obtain ⟨chunks, last, trailers⟩ := m
  induction chunks generalizing output with
  | nil =>
    have hline : last.line.length ≤ limits.maxChunkLineBytes.toNat := hlines 0
    simp only [ChunkedMessage.encode, ChunkedMessage.data, List.flatMap_nil, List.nil_append,
      List.append_nil, List.append_assoc]
    rw [(last_round last _ output hline).run, trailers_run trailers rest output (by simpa using htrailers)]
    simp
  | cons c chunks ih =>
    have hline : c.size.line.length ≤ limits.maxChunkLineBytes.toNat := hlines 0
    simp only [ChunkedMessage.data, List.flatMap_cons, List.length_append] at hbody
    have hchunk := chunk_run c ((ChunkedMessage.mk chunks last trailers).encode ++ rest) output
      hline (by omega)
    have hrest := ih (output ++ c.data) (fun k => hlines (k + 1))
      (by simp only [ChunkedMessage.data, List.length_append]; omega) htrailers
    simp only [ChunkedMessage.encode, ChunkedMessage.data, List.flatMap_cons,
      List.append_assoc] at hchunk hrest ⊢
    rw [hchunk, hrest]

/-! ## Nothing else is decoded -/

/-- A call that completes goes round or has reached the end. -/
theorem next_of_complete {c c' : Config} (h : unreadLoop.run c = (.ok .complete, c')) :
    (∃ c₁, Round c c₁ ∧ unreadLoop.run c₁ = (.ok .complete, c')) ∨ Rest c .complete c' := by
  cases hstep : unreadStep c with
  | inl c₁ =>
    have hround := round_of_step hstep
    exact .inl ⟨c₁, hround, hround.run.symm.trans h⟩
  | inr r =>
    have hexit : unreadLoop.run c = r := unreadLoop.run_of_exit hstep
    rw [h] at hexit
    subst hexit
    exact .inr (rest_of_step hstep)

theorem round_of_complete {c c' : Config} (h : unreadLoop.run c = (.ok .complete, c'))
    (htrailers : c.decoder.stage ≠ .trailers) (hcomplete : c.decoder.stage ≠ .complete) :
    ∃ c₁, Round c c₁ ∧ unreadLoop.run c₁ = (.ok .complete, c') :=
  (next_of_complete h).resolve_right fun hrest => hrest.of_complete.elim htrailers hcomplete

theorem trailers_of_complete {limits : ResponseLimits} {seen : ℕ} {input output : Bytes}
    {c' : Config} (h : unreadLoop.run (atTrailers limits seen input output) = (.ok .complete, c')) :
    ∃ trailers rest, input = ChunkedMessage.trailerSection trailers ++ rest ∧
      seen + (ChunkedMessage.trailerSection trailers).length ≤ limits.maxTrailerBytes.toNat ∧
      c' = atEnd limits (seen + (ChunkedMessage.trailerSection trailers).length) rest output := by
  induction hn : input.length using Nat.strongRecOn generalizing input seen with
  | _ n ih =>
    rcases next_of_complete h with ⟨c₁, hround, hrun⟩ | hrest
    · rcases hround.of_trailers rfl with ⟨line, rest, hinput, hline, hseen, hvalid, rfl⟩
      have hlt : rest.length < n := by
        rw [← hn, show input = _ from hinput]
        simp only [List.length_append, crlf, List.length_cons, List.length_nil]
        omega
      rcases ih _ hlt hrun rfl with ⟨trailers, rest', rfl, hmax, rfl⟩
      let t : TrailerLine := ⟨line, (leads_pair cr_ne_lf).mp hline, hvalid⟩
      have hlength : (ChunkedMessage.trailerSection (t :: trailers)).length =
          line.length + 2 + (ChunkedMessage.trailerSection trailers).length := by
        simp [ChunkedMessage.trailerSection, TrailerLine.encode, t, crlf]
        omega
      refine ⟨t :: trailers, rest', ?_, ?_, ?_⟩
      · rw [show input = _ from hinput]
        simp [ChunkedMessage.trailerSection, TrailerLine.encode, t]
      · rw [hlength, ← Nat.add_assoc]
        exact hmax
      · show atEnd limits (seen + (line.length + 2) + _) rest' output = _
        rw [hlength, Nat.add_assoc]
    · generalize hc : atTrailers limits seen input output = c at hrest
      cases hrest with
      | lastLine hs hseen =>
        cases hc
        exact ⟨[], _, rfl, hseen, rfl⟩
      | complete hs =>
        cases hc
        cases hs

/-- The rounds that read the data of a chunk and the line end behind it. -/
theorem data_of_complete {limits : ResponseLimits} {size : ℕ} {input output : Bytes} {c' : Config}
    (h : unreadLoop.run ⟨{ limits, stage := .data, chunkRemaining := size }, input, output⟩ =
      (.ok .complete, c')) :
    ∃ data rest, data.length = size ∧ input = data ++ (crlf ++ rest) ∧
      unreadLoop.run (atSizeLine limits rest (output ++ data)) = (.ok .complete, c') := by
  rcases round_of_complete h nofun nofun with ⟨c₁, hround, hrun⟩
  rcases hround.of_data rfl with ⟨data, rest, hinput, hlen, rfl⟩
  rcases round_of_complete hrun nofun nofun with ⟨c₂, hround', hrun'⟩
  rcases hround'.of_dataCrlf rfl with ⟨rest', hrest, rfl⟩
  exact ⟨data, rest', hlen, hinput.trans (congrArg _ hrest), hrun'⟩

/-- Whatever is decoded is the encoding of a message, with the bytes behind it. -/
theorem message_of_complete {limits : ResponseLimits} {input output : Bytes} {c' : Config}
    (hout : output.length ≤ limits.maxBodyBytes.toNat)
    (h : unreadLoop.run (atSizeLine limits input output) = (.ok .complete, c')) :
    ∃ m : ChunkedMessage, ∃ rest, input = m.encode ++ rest ∧
      (∀ k, (m.sizeLine k).length ≤ limits.maxChunkLineBytes.toNat) ∧
      output.length + m.data.length ≤ limits.maxBodyBytes.toNat ∧
      (ChunkedMessage.trailerSection m.trailers).length ≤ limits.maxTrailerBytes.toNat ∧
      c' = atEnd limits (ChunkedMessage.trailerSection m.trailers).length rest
        (output ++ m.data) := by
  induction hn : input.length using Nat.strongRecOn generalizing input output with
  | _ n ih =>
    rcases round_of_complete h nofun nofun with ⟨c₁, hround, hrun⟩
    rcases hround.of_sizeLine rfl with ⟨line, rest, size, hinput, hline, hlen, hsize, hbody, rfl⟩
    have hno := (leads_pair cr_ne_lf).mp hline
    rw [show input = _ from hinput] at hn ⊢
    by_cases hzero : size = 0
    · subst hzero
      rcases trailers_of_complete hrun with ⟨trailers, rest', rfl, hmax, rfl⟩
      refine ⟨⟨[], ⟨line, hno, hsize⟩, trailers⟩, rest', ?_, fun k => ?_, ?_, ?_, ?_⟩
      · simp [ChunkedMessage.encode]
      · simpa [ChunkedMessage.sizeLine, atSizeLine] using hlen
      · simpa [ChunkedMessage.data] using hout
      · rw [← Nat.zero_add (ChunkedMessage.trailerSection trailers).length]
        exact hmax
      · show atEnd limits (0 + _) rest' output = _
        simp [ChunkedMessage.data]
    · rw [afterSize, if_neg hzero] at hrun
      rcases data_of_complete hrun with ⟨data, rest', rfl, rfl, hrun'⟩
      have hlimit := hbody.resolve_left hzero
      have hlt : rest'.length < n := by
        rw [← hn]
        simp only [List.length_append, crlf, List.length_cons, List.length_nil]
        omega
      have hout' : (output ++ data).length ≤ limits.maxBodyBytes.toNat := by
        rw [List.length_append]
        exact hlimit
      rcases ih _ hlt hout' hrun' rfl with ⟨m, rest, rfl, hlines, hbody', htrailers, rfl⟩
      have hne : data ≠ [] := fun hnil => hzero (by rw [hnil]; rfl)
      refine ⟨{ m with chunks := ⟨data, hne, line, hno, hsize⟩ :: m.chunks }, rest, ?_, ?_, ?_,
        htrailers, ?_⟩
      · simp [ChunkedMessage.encode, Chunk.encode]
      · rintro (_ | k)
        · exact hlen
        · exact hlines k
      · simpa [ChunkedMessage.data, Nat.add_assoc] using hbody'
      · simp [ChunkedMessage.data]

/-- The decoder accepts the encodings of the messages within the limits, and nothing else. -/
theorem process_complete_iff {limits : ResponseLimits} {input : Bytes} {c : Config} :
    process { limits } input [] = (.ok .complete, c) ↔
      ∃ m : ChunkedMessage, ∃ rest, input = m.encode ++ rest ∧ m.Within limits ∧
        c = atEnd limits (ChunkedMessage.trailerSection m.trailers).length rest m.data := by
  rw [process_ok_iff]
  constructor
  · intro h
    rcases message_of_complete (Nat.zero_le _) h with
      ⟨m, rest, hinput, hlines, hbody, htrailers, hc⟩
    refine ⟨m, rest, hinput, ⟨hlines, ?_, htrailers⟩, hc⟩
    simpa using hbody
  · rintro ⟨m, rest, rfl, ⟨hlines, hbody, htrailers⟩, rfl⟩
    exact message_run m rest [] hlines (by simpa using hbody) htrailers

end ChunkedDecoder

end CppRequest
