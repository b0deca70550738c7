import CppRequest.MemoryBounds

/-!
# No size wraps around

The additions and subtractions of `std::size_t` values in `process`, `process_buffer`
and `finish_eof`, written as operations that have no result where the machine would
wrap around. On a buffer that fits into memory every round computed with them is the
round of the model, so no operation wraps around, whatever the limits are.
-/

namespace CppRequest

def checkedAdd (a b : ℕ) : Option ℕ := if a + b < sizeBound then some (a + b) else none

def checkedSub (a b : ℕ) : Option ℕ := if b ≤ a then some (a - b) else none

theorem checkedAdd_eq {a b : ℕ} (h : a + b < sizeBound) : checkedAdd a b = some (a + b) := if_pos h

theorem checkedSub_eq {a b : ℕ} (h : b ≤ a) : checkedSub a b = some (a - b) := if_pos h

def wouldExceedChecked (current addition limit : ℕ) : Option Bool :=
  if current > limit then some true
  else do
    let room ← checkedSub limit current
    some (addition > room)

/-- The comparison is made so that it cannot wrap around. -/
theorem wouldExceedChecked_eq (current addition limit : ℕ) :
    wouldExceedChecked current addition limit = some (wouldExceed current addition limit) := by
  unfold wouldExceedChecked wouldExceed
  by_cases h : current > limit
  · simp [h]
  · simp [h, checkedSub_eq (not_lt.mp h)]

namespace ChunkedDecoder

/-- `processStep` with checked arithmetic. -/
def processStepChecked (s : ProcessState) : Option (ProcessState ⊕ ProcessExit) :=
  let d := s.decoder
  match d.stage with
  | .sizeLine =>
    match find s.input crlf s.cursor with
    | none => do
      let pending ← checkedSub s.input.length s.cursor
      some (if pending > d.limits.maxChunkLineBytes.toNat then
          s.fail { code := .responseLimitExceeded }
        else s.finish .needMore)
    | some lineEnd => do
      let lineBytes ← checkedSub lineEnd s.cursor
      if lineBytes > d.limits.maxChunkLineBytes.toNat then
        some (s.fail { code := .responseLimitExceeded })
      else match parseChunkSize (substr s.input s.cursor lineBytes) with
        | .error e => some (s.fail e)
        | .ok size => do
          let exceeds ← wouldExceedChecked s.output.length size d.limits.maxBodyBytes.toNat
          if size != 0 && exceeds then some (s.fail { code := .responseLimitExceeded })
          else do
            let cursor ← checkedAdd lineEnd 2
            some (.inl { s with
              cursor
              decoder := { d with
                chunkRemaining := size
                stage := if size = 0 then .trailers else .data } })
  | .data => do
    let available ← checkedSub s.input.length s.cursor
    let amount := min d.chunkRemaining available
    let cursor ← checkedAdd s.cursor amount
    let remaining ← checkedSub d.chunkRemaining amount
    let s := { s with
      output := s.output ++ substr s.input s.cursor amount
      cursor
      decoder := { d with chunkRemaining := remaining } }
    some (if remaining != 0 then s.finish .needMore
      else .inl { s with decoder := { s.decoder with stage := .dataCrlf } })
  | .dataCrlf => do
    let available ← checkedSub s.input.length s.cursor
    if available < 2 then some (s.finish .needMore)
    else if substr s.input s.cursor 2 != crlf then
      some (s.fail { code := .invalidChunkFraming })
    else do
      let cursor ← checkedAdd s.cursor 2
      some (.inl { s with cursor, decoder := { d with stage := .sizeLine } })
  | .trailers =>
    match find s.input crlf s.cursor with
    | none => do
      let pending ← checkedSub s.input.length s.cursor
      let exceeds ← wouldExceedChecked d.trailerBytesSeen pending d.limits.maxTrailerBytes.toNat
      some (if exceeds then s.fail { code := .responseLimitExceeded } else s.finish .needMore)
    | some lineEnd => do
      let length ← checkedSub lineEnd s.cursor
      let lineBytes ← checkedAdd length 2
      let exceeds ← wouldExceedChecked d.trailerBytesSeen lineBytes d.limits.maxTrailerBytes.toNat
      if exceeds then some (s.fail { code := .responseLimitExceeded })
      else do
        let seen ← checkedAdd d.trailerBytesSeen lineBytes
        let line := substr s.input s.cursor length
        let cursor ← checkedAdd lineEnd 2
        let s := { s with cursor, decoder := { d with trailerBytesSeen := seen } }
        some (if line.isEmpty then
            { s with decoder := { s.decoder with stage := .complete } }.finish .complete
          else if !validTrailerLine line then s.fail { code := .invalidHeader }
          else .inl s)
  | .complete => some (s.finish .complete)

/-- A line end that has been found lies within the input. -/
theorem lineEnd_eq {input : Bytes} {cursor lineEnd : ℕ} (hf : find input crlf cursor = some lineEnd)
    (hinput : input.length < sizeBound) :
    checkedSub lineEnd cursor = some (lineEnd - cursor) ∧
      checkedAdd lineEnd 2 = some (lineEnd + 2) ∧
      checkedAdd (lineEnd - cursor) 2 = some (lineEnd - cursor + 2) := by
  rcases find_eq_some hf with ⟨hle, hend⟩
  have hneedle : crlf.length = 2 := rfl
  rw [hneedle] at hend
  exact ⟨checkedSub_eq hle, checkedAdd_eq (by omega), checkedAdd_eq (by omega)⟩

theorem processStepChecked_eq {s : ProcessState} (hcursor : s.cursor ≤ s.input.length)
    (hinput : s.input.length < sizeBound) : processStepChecked s = some (processStep s) := by
  rcases s with ⟨⟨limits, stage, remaining, seen⟩, input, output, cursor⟩
  simp only at hcursor hinput
  have hpending := checkedSub_eq hcursor
  cases stage with
  | sizeLine =>
    simp only [processStepChecked, processStep, wouldExceedChecked_eq]
    cases hf : find input crlf cursor with
    | none => simp only [hpending, Option.bind_eq_bind, Option.bind_some]
    | some lineEnd =>
      rcases lineEnd_eq hf hinput with ⟨hlength, hnext, -⟩
      simp only [hlength, hnext, Option.bind_eq_bind, Option.bind_some]
      split_ifs
      · rfl
      · cases parseChunkSize (substr input cursor (lineEnd - cursor)) with
        | error e => rfl
        | ok size =>
          simp only
          split_ifs <;> rfl
  | data =>
    have hnext := checkedAdd_eq
      (show cursor + min remaining (input.length - cursor) < sizeBound by omega)
    have hremaining := checkedSub_eq (min_le_left remaining (input.length - cursor))
    simp only [processStepChecked, processStep, hpending, hnext, hremaining, Option.bind_eq_bind,
      Option.bind_some]
  | dataCrlf =>
    simp only [processStepChecked, processStep, hpending, Option.bind_eq_bind, Option.bind_some]
    split_ifs
    · rfl
    · rfl
    · rw [checkedAdd_eq (show cursor + 2 < sizeBound by omega)]
      rfl
  | trailers =>
    simp only [processStepChecked, processStep, wouldExceedChecked_eq]
    cases hf : find input crlf cursor with
    | none => simp only [hpending, Option.bind_eq_bind, Option.bind_some]
    | some lineEnd =>
      rcases lineEnd_eq hf hinput with ⟨hlength, hnext, hline⟩
      simp only [hlength, hnext, hline, Option.bind_eq_bind, Option.bind_some]
      by_cases hover : wouldExceed seen (lineEnd - cursor + 2) limits.maxTrailerBytes.toNat = true
      · simp only [if_pos hover]
      · simp only [if_neg hover]
        rw [Bool.not_eq_true, wouldExceed_eq_false] at hover
        rw [checkedAdd_eq (hover.trans_lt limits.maxTrailerBytes.toNat_lt)]
        rfl
  | complete => rfl

/-- Every round of every call on an input that fits into memory. -/
theorem process_no_wrap {d : ChunkedDecoder} {input output : Bytes} {s : ProcessState}
    (hinput : input.length < sizeBound) (h : processLoop.Reaches ⟨d, input, output, 0⟩ s) :
    processStepChecked s = some (processStep s) := by
  have hinv : s.cursor ≤ s.input.length ∧ s.input = input := by
    refine h.invariant (I := fun s => s.cursor ≤ s.input.length ∧ s.input = input) ?_
      ⟨Nat.zero_le _, rfl⟩
    rintro t t' ⟨hcursor, rfl⟩ hstep
    rcases processStep_unread hcursor with ⟨u, hu, hle, hsame, -⟩ | ⟨r, -, hr⟩
    · cases Sum.inl.inj (hu.symm.trans hstep)
      exact ⟨hle, hsame⟩
    · exact absurd (hr.symm.trans hstep) Sum.inr_ne_inl
  rcases hinv with ⟨hcursor, rfl⟩
  exact processStepChecked_eq hcursor hinput

end ChunkedDecoder

namespace ResponseParser

def takeCloseDelimitedChecked (p : ResponseParser) : Option (Except ErrorCode ResponseParser) :=
  if p.bodyForbidden && !p.buffer.isEmpty then some (.error .malformedResponse)
  else if p.buffer.isEmpty then some (.ok p)
  else do
    let exceeds ← wouldExceedChecked p.response.body.length p.buffer.length
      p.limits.maxBodyBytes.toNat
    some (if exceeds then .error .responseLimitExceeded
      else .ok { p with
        response := { p.response with body := p.response.body ++ p.buffer }, buffer := [] })

/-- `bufferStep` with checked arithmetic; the decoder's own is in `processStepChecked`. -/
def bufferStepChecked (p : ResponseParser) : Option (ResponseParser ⊕ ParseExit) :=
  match p.stage with
  | .head =>
    match find p.buffer crlfcrlf 0 with
    | none =>
      some (if p.buffer.length > p.limits.maxHeadBytes.toNat then p.fail .responseLimitExceeded
        else p.finish .needMore)
    | some headEnd => do
      let exceeds ← wouldExceedChecked headEnd 4 p.limits.maxHeadBytes.toNat
      if exceeds then some (p.fail .responseLimitExceeded)
      else match parseHead (substr p.buffer 0 headEnd) with
        | .error e => some (.inr (.error e, p))
        | .ok head => do
          let erased ← checkedAdd headEnd 4
          some (acceptHead { p with buffer := p.buffer.drop erased } head)
  | .contentLengthBody => do
    let amount := min p.contentLengthRemaining p.buffer.length
    let remaining ← checkedSub p.contentLengthRemaining amount
    let p := { p with
      response := { p.response with body := p.response.body ++ p.buffer.take amount }
      buffer := p.buffer.drop amount
      contentLengthRemaining := remaining }
    some (if p.contentLengthRemaining == 0 then { p with stage := .complete }.finish .complete
      else p.finish .needMore)
  | .closeDelimitedBody => do
    let taken ← p.takeCloseDelimitedChecked
    some (match taken with
      | .error code => p.fail code
      | .ok p => p.finish .needMore)
  | .chunkedBody | .complete => some p.bufferStep

def finishEofChecked (p : ResponseParser) : Option ParseExit :=
  match p.stage with
  | .closeDelimitedBody => do
    let taken ← p.takeCloseDelimitedChecked
    some (match taken with
      | .error code => (.error { code }, p)
      | .ok p => (.ok .complete, { p with stage := .complete }))
  | .complete | .contentLengthBody | .head | .chunkedBody => some p.finishEof

theorem takeCloseDelimitedChecked_eq (p : ResponseParser) :
    p.takeCloseDelimitedChecked = some p.takeCloseDelimited := by
  unfold takeCloseDelimitedChecked takeCloseDelimited
  rw [wouldExceedChecked_eq]
  split_ifs <;> simp_all

theorem bufferStepChecked_eq {p : ResponseParser} (hbuffer : p.buffer.length < sizeBound) :
    bufferStepChecked p = some (bufferStep p) := by
  unfold bufferStepChecked
  cases hs : p.stage with
  | head =>
    simp only [bufferStep, hs]
    cases hf : find p.buffer crlfcrlf 0 with
    | none => rfl
    | some headEnd =>
      have hend := (find_eq_some hf).2
      have hneedle : crlfcrlf.length = 4 := rfl
      rw [hneedle] at hend
      simp only [wouldExceedChecked_eq, checkedAdd_eq (show headEnd + 4 < sizeBound by omega),
        Option.bind_eq_bind, Option.bind_some]
      split_ifs
      · rfl
      · cases parseHead (substr p.buffer 0 headEnd) with
        | error e => rfl
        | ok head => rfl
  | contentLengthBody =>
    simp only [bufferStep, hs]
    rw [checkedSub_eq (min_le_left p.contentLengthRemaining p.buffer.length)]
    rfl
  | closeDelimitedBody =>
    simp only [bufferStep, hs]
    rw [takeCloseDelimitedChecked_eq]
    rfl
  | chunkedBody => rfl
  | complete => rfl

theorem finishEofChecked_eq (p : ResponseParser) : p.finishEofChecked = some p.finishEof := by
  unfold finishEofChecked
  cases hs : p.stage with
  | closeDelimitedBody =>
    simp only [finishEof, hs]
    rw [takeCloseDelimitedChecked_eq]
    rfl
  | head | contentLengthBody | chunkedBody | complete => rfl

/-- Nothing wraps around in a call of `feed` whose loop begins in `p`, or in one of `finish_eof`. -/
structure NoWrap (p : ResponseParser) : Prop where
  rounds : ∀ t, bufferLoop.Reaches p t → t.bufferStepChecked = some t.bufferStep
  decoding : ∀ t s, bufferLoop.Reaches p t →
    ChunkedDecoder.processLoop.Reaches ⟨t.chunkedDecoder, t.buffer, t.response.body, 0⟩ s →
      ChunkedDecoder.processStepChecked s = some (ChunkedDecoder.processStep s)
  eof : p.finishEofChecked = some p.finishEof

theorem noWrap {p : ResponseParser} (hbuffer : p.buffer.length < sizeBound) : p.NoWrap := by
  have hshort : ∀ t, bufferLoop.Reaches p t → t.buffer.length < sizeBound := by
    intro t ht
    refine ht.invariant (I := fun t => t.buffer.length < sizeBound) ?_ hbuffer
    exact fun t t' hlt hstep => (bufferStep_decreases hstep).trans hlt
  exact ⟨fun t ht => bufferStepChecked_eq (hshort t ht),
    fun t s ht hs => ChunkedDecoder.process_no_wrap (hshort t ht) hs, finishEofChecked_eq p⟩

/-- The bounds hold behind any calls, whatever they have answered; the next call leaves no more
pending than they allow, and on a buffer that fits into memory no size in it wraps around. -/
theorem memory_bounded (requestMethod : Method) (limits : ResponseLimits) (calls : List Call) :
    let p := (fresh requestMethod limits).afterCalls calls
    p.limits = limits ∧ p.Bounded ∧
      (∀ b p', p.feed b = (.ok .needMore, p') →
        p'.pendingBytes.length ≤ max limits.maxHeadBytes.toNat
          (max limits.maxChunkLineBytes.toNat (max limits.maxTrailerBytes.toNat 1))) ∧
      ∀ b, (p.buffer ++ b).length < sizeBound → (p.push b).NoWrap := by
  intro p
  have hlimits : p.limits = limits := afterCalls_limits _ calls
  have hcontained : p.Contained :=
    afterCalls_contained calls (fresh_contained requestMethod limits)
  refine ⟨hlimits, hcontained.toBounded, fun b p' h => ?_, fun b hb => noWrap hb⟩
  have hpending := pending_of_needMore hcontained b h
  have hsame : p'.limits = limits := by
    rw [← hlimits, ← feed_limits p b, h]
  rwa [hsame] at hpending

end ResponseParser

end CppRequest
