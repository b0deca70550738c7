import CppRequest.ResponseParser

/-!
# What one round of the response parser can do

`Round`, `Rest` and `Fault` list the ways the loop of `process_buffer` goes round, the
ways it returns without an error and the ways it fails, with everything each of them
checks and the parser it leaves. Later results argue from these lists and never open
`bufferStep` again.
-/

namespace CppRequest.ResponseParser

open Search

/-- The head stage, with the head cut off the buffer. -/
theorem bufferStep_head {p : ResponseParser} (hs : p.stage = .head) :
    bufferStep p = match cut crlfcrlf p.buffer with
      | none =>
        if p.buffer.length > p.limits.maxHeadBytes.toNat then p.fail .responseLimitExceeded
        else p.finish .needMore
      | some (block, rest) =>
        if wouldExceed block.length 4 p.limits.maxHeadBytes.toNat then
          p.fail .responseLimitExceeded
        else match parseHead block with
          | .error e => .inr (.error e, p)
          | .ok head => acceptHead { p with buffer := rest } head := by
  unfold bufferStep
  rw [hs, cut_eq_find]
  cases hf : find p.buffer crlfcrlf 0 with
  | none => rfl
  | some i =>
    have hi := find_eq_some hf
    have hlen : (p.buffer.take i).length = i := List.length_take_of_le (by omega)
    have hneedle : crlfcrlf.length = 4 := rfl
    simp only [Option.map_some, substr, List.drop_zero, hneedle]
    rewrite [hlen]
    rfl

/-! ## Choosing the body -/

/-- How the body of a message is delimited. -/
inductive BodyFraming
  | none | chunked | length (n : ℕ) | untilClose
deriving Repr, DecidableEq

/-- The framings that `process_buffer` accepts. -/
inductive Framed (requestMethod : Method) (statusCode : ℕ) (framing : FramingInfo) :
    BodyFraming → Prop
  | none (hterm : isHeaderTerminatedResponse requestMethod statusCode = true)
      (hone : framing.transferEncodingFields = 0 ∨ framing.contentLengthCount = 0)
      (hstatus : framingHeaderForbiddenOnStatus statusCode = true →
        framing.transferEncodingFields = 0 ∧ framing.contentLengthCount = 0) :
      Framed requestMethod statusCode framing .none
  | chunked (hterm : isHeaderTerminatedResponse requestMethod statusCode = false)
      (hte : framing.transferEncodingFields ≠ 0) (hcl : framing.contentLengthCount = 0)
      (hone : framing.transferEncodingTokens = 1)
      (hchunked : framing.transferEncodingIsChunked = true) :
      Framed requestMethod statusCode framing .chunked
  | length (hterm : isHeaderTerminatedResponse requestMethod statusCode = false)
      (hte : framing.transferEncodingFields = 0) (hcl : framing.contentLengthCount = 1)
      (hreset : statusCode = 205 → framing.contentLength = 0) :
      Framed requestMethod statusCode framing (.length framing.contentLength)
  | untilClose (hterm : isHeaderTerminatedResponse requestMethod statusCode = false)
      (hte : framing.transferEncodingFields = 0) (hcl : framing.contentLengthCount ≠ 1) :
      Framed requestMethod statusCode framing .untilClose

theorem Framed.of_length {requestMethod : Method} {statusCode n : ℕ} {framing : FramingInfo}
    (h : Framed requestMethod statusCode framing (.length n)) :
    isHeaderTerminatedResponse requestMethod statusCode = false ∧
      framing.transferEncodingFields = 0 ∧ framing.contentLengthCount = 1 ∧
      n = framing.contentLength := by
  generalize hk : BodyFraming.length n = k at h
  cases h with
  | length hterm hte hcl =>
    cases hk
    exact ⟨hterm, hte, hcl, rfl⟩
  | none | chunked | untilClose => cases hk

/-- A length is refused before any of the body has been read. -/
def BodyFraming.Fits (limits : ResponseLimits) : BodyFraming → Prop
  | .length n => n ≤ limits.maxBodyBytes.toNat
  | _ => True

/-- A 205 response must not have a body. -/
def forbid (p : ResponseParser) : ResponseParser :=
  { p with bodyForbidden := p.bodyForbidden || p.response.statusCode == 205 }

def done (p : ResponseParser) : ResponseParser := { p with stage := .complete }

/-- The length of the body is known; that of a 205 response is zero and not stored. -/
def expect (p : ResponseParser) (n : ℕ) : ResponseParser :=
  { p.forbid with
    contentLengthRemaining :=
      if p.response.statusCode = 205 then p.contentLengthRemaining else n }

/-- The round that accepts a final head. -/
def begin (p : ResponseParser) : BodyFraming → ResponseParser ⊕ ParseExit
  | .none => p.done.finish .complete
  | .chunked => .inl { p.forbid with stage := .chunkedBody }
  | .length n =>
    if n = 0 then (p.expect n).done.finish .complete
    else .inl { p.expect n with stage := .contentLengthBody }
  | .untilClose => .inl { p.forbid with closeDelimited := true, stage := .closeDelimitedBody }

theorem stage_of_begin {p p' : ResponseParser} {k : BodyFraming} {q : ResponseParseProgress}
    (h : p.begin k = .inr (.ok q, p')) : p'.stage = .complete := by
  cases k with
  | none => cases h; rfl
  | chunked | untilClose => cases h
  | length n =>
    unfold begin at h
    simp only at h
    split_ifs at h
    cases h
    rfl

theorem chooseBody_of_framed {p : ResponseParser} {framing : FramingInfo} {k : BodyFraming}
    (h : Framed p.requestMethod p.response.statusCode framing k) (hfits : k.Fits p.limits) :
    p.chooseBody framing = p.begin k := by
  have hterminated : ∀ {status : ℕ}, isHeaderTerminatedResponse p.requestMethod status = false →
      framingHeaderForbiddenOnStatus status = false := by
    intro status hterm
    simp only [isHeaderTerminatedResponse, framingHeaderForbiddenOnStatus,
      Bool.or_eq_false_iff] at hterm ⊢
    exact ⟨hterm.1.1.2, hterm.1.2⟩
  unfold chooseBody begin
  cases h with
  | none hterm hone hstatus =>
    have hboth : (framing.transferEncodingFields != 0 && framing.contentLengthCount != 0) = false := by
      rcases hone with h | h <;> simp [h]
    have hforbidden : (framingHeaderForbiddenOnStatus p.response.statusCode &&
        (framing.contentLengthCount != 0 || framing.transferEncodingFields != 0)) = false := by
      cases hs : framingHeaderForbiddenOnStatus p.response.statusCode with
      | false => rfl
      | true => simp [hstatus hs]
    simp [hboth, hforbidden, hterm, done]
  | chunked hterm hte hcl hone hchunked =>
    simp only [hcl, hterminated hterm, hterm, hone, hchunked, forbid]
    by_cases hreset : p.response.statusCode = 205 <;> simp [hreset, hte]
  | length hterm hte hcl hreset =>
    simp only [hcl, hterminated hterm, hterm, hte, forbid, expect]
    by_cases hstatus : p.response.statusCode = 205
    · simp [hstatus, hreset hstatus, done]
    · have hbeq : (p.response.statusCode == 205) = false := beq_eq_false_iff_ne.mpr hstatus
      by_cases hzero : framing.contentLength = 0 <;>
        simp [hstatus, hbeq, hzero, done, not_lt.mpr (show _ ≤ p.limits.maxBodyBytes.toNat from hfits)]
  | untilClose hterm hte hcl =>
    simp only [hterminated hterm, hterm, hte, forbid]
    by_cases hreset : p.response.statusCode = 205 <;> simp [hreset, hcl]

theorem chooseBody_refused {p : ResponseParser} {framing : FramingInfo}
    (h : ∀ k, Framed p.requestMethod p.response.statusCode framing k → ¬ k.Fits p.limits) :
    ∃ code q, p.chooseBody framing = .inr (.error { code }, q) ∧ (q = p ∨ q = p.forbid) := by
  unfold chooseBody
  simp only [fail, finish, Bool.and_eq_true, Bool.or_eq_true, bne_iff_ne, beq_iff_eq,
    Bool.not_eq_true']
  have hforbid : p.response.statusCode = 205 → { p with bodyForbidden := true } = p.forbid := by
    intro hreset
    rw [forbid, hreset, beq_self_eq_true, Bool.or_true]
  by_cases hone : framing.transferEncodingFields = 0 ∨ framing.contentLengthCount = 0
  swap
  · rw [if_pos (by tauto)]
    exact ⟨_, _, rfl, .inl rfl⟩
  rw [if_neg (by tauto)]
  split_ifs with hstatus hterm hreset hte hchunked hcl hzero hte hchunked hcl hmax hzero
  · exact ⟨_, _, rfl, .inl rfl⟩
  · exact absurd trivial (h _ (Framed.none hterm hone (by tauto)))
  · exact ⟨_, _, rfl, .inr (hforbid hreset)⟩
  · rw [Bool.not_eq_true] at hterm
    refine absurd trivial (h _ (Framed.chunked hterm hte (by tauto) (by tauto) ?_))
    simpa using not_or.mp hchunked |>.2
  · exact ⟨_, _, rfl, .inr (hforbid hreset)⟩
  · rw [Bool.not_eq_true] at hterm
    have hlength : framing.contentLength = 0 := by tauto
    refine absurd ?_ (h _ (Framed.length hterm (by tauto) hcl (fun _ => hlength)))
    exact hlength.trans_le (Nat.zero_le _)
  · rw [Bool.not_eq_true] at hterm
    exact absurd trivial (h _ (Framed.untilClose hterm (by tauto) hcl))
  · exact ⟨_, _, rfl, .inl rfl⟩
  · rw [Bool.not_eq_true] at hterm
    refine absurd trivial (h _ (Framed.chunked hterm hte (by tauto) (by tauto) ?_))
    simpa using not_or.mp hchunked |>.2
  · exact ⟨_, _, rfl, .inl rfl⟩
  all_goals
    rw [Bool.not_eq_true] at hterm
  · exact absurd (not_lt.mp hmax) (h _ (Framed.length hterm (by tauto) hcl (absurd · hreset)))
  · exact absurd (not_lt.mp hmax) (h _ (Framed.length hterm (by tauto) hcl (absurd · hreset)))
  · exact absurd trivial (h _ (Framed.untilClose hterm (by tauto) hcl))

/-- The body has room for what is in the buffer. -/
structure Takes (p : ResponseParser) : Prop where
  allowed : p.bodyForbidden = true → p.buffer = []
  room : p.buffer ≠ [] → p.response.body.length + p.buffer.length ≤ p.limits.maxBodyBytes.toNat

def taken (p : ResponseParser) : ResponseParser :=
  { p with response := { p.response with body := p.response.body ++ p.buffer }, buffer := [] }

theorem takeCloseDelimited_ok_iff {p p' : ResponseParser} :
    p.takeCloseDelimited = .ok p' ↔ p.Takes ∧ p' = p.taken := by
  unfold takeCloseDelimited
  cases hb : p.buffer with
  | nil =>
    have htaken : p.taken = p := by
      unfold taken
      rw [hb, List.append_nil, ← hb]
    have htakes : p.Takes := ⟨fun _ => hb, fun hne => absurd hb hne⟩
    simp [htaken, htakes, eq_comm]
  | cons x b =>
    constructor
    · intro h
      split_ifs at h with hforbidden hempty hlimit
      · cases hempty
      · cases h
        rw [Bool.not_eq_true, wouldExceed_eq_false, ← hb] at hlimit
        refine ⟨⟨fun hf => absurd hf (by simpa using hforbidden), fun _ => hlimit⟩, ?_⟩
        rw [taken, hb]
    · rintro ⟨⟨hallowed, hroom⟩, rfl⟩
      have hforbidden : p.bodyForbidden = false := by
        rw [← Bool.not_eq_true]
        intro hf
        rw [hallowed hf] at hb
        cases hb
      have hlimit := hroom (by rw [hb]; simp)
      rw [hb] at hlimit
      simp [hforbidden, wouldExceed_eq_false.mpr hlimit, taken, hb, -List.length_cons]

theorem takeCloseDelimited_error {p : ResponseParser} {code : ErrorCode}
    (h : p.takeCloseDelimited = .error code) :
    p.buffer ≠ [] ∧ (code = .malformedResponse ∧ p.bodyForbidden = true ∨
      code = .responseLimitExceeded ∧ p.bodyForbidden = false ∧
        p.limits.maxBodyBytes.toNat < p.response.body.length + p.buffer.length) := by
  unfold takeCloseDelimited at h
  split_ifs at h with hforbidden hempty hlimit
  · rw [Bool.and_eq_true] at hforbidden
    cases h
    exact ⟨by simpa using hforbidden.2, .inl ⟨rfl, hforbidden.1⟩⟩
  · have hne : p.buffer ≠ [] := by simpa using hempty
    cases h
    exact ⟨hne, .inr ⟨rfl, by simpa [hne] using hforbidden, wouldExceed_eq_true.mp hlimit⟩⟩

/-! ## The lists -/

/-- A head has been read off the buffer and its framing analysed. -/
structure HeadRead (p : ResponseParser) (block rest : Bytes) (head : ParsedHead)
    (framing : FramingInfo) : Prop where
  stage : p.stage = .head
  buffer : p.buffer = block ++ (crlfcrlf ++ rest)
  leads : Leads crlfcrlf block
  within : block.length + 4 ≤ p.limits.maxHeadBytes.toNat
  parses : parseHead block = .ok head
  analyzed : analyzeFraming head.headers = .ok framing

/-- The head that has been read is the final one. -/
def final (p : ResponseParser) (head : ParsedHead) (framing : FramingInfo) (rest : Bytes) :
    ResponseParser :=
  { p with
    buffer := rest
    response := { p.response with
      statusCode := head.statusCode, reason := head.reason, headers := head.headers }
    connectionCloseRequested := framing.connectionCloseRequested || head.statusCode == 101 }

/-- The decoder has been called on the buffer and has left `c`. -/
def decoded (p : ResponseParser) (c : ChunkedDecoder.Config) : ResponseParser :=
  { p with
    response := { p.response with body := c.output }
    buffer := c.input, chunkedDecoder := c.decoder }

/-- The last byte of a body of known length has been taken. -/
def lengthDone (p : ResponseParser) (data rest : Bytes) : ResponseParser :=
  { p with
    response := { p.response with body := p.response.body ++ data }
    buffer := rest, contentLengthRemaining := 0, stage := .complete }

inductive Round : ResponseParser → ResponseParser → Prop
  | interim {p : ResponseParser} {block rest : Bytes} {head : ParsedHead} {framing : FramingInfo}
      (hread : HeadRead p block rest head framing)
      (hinterim : isInterimStatus head.statusCode = true)
      (hcl : framing.contentLengthCount = 0) (hte : framing.transferEncodingFields = 0) :
      Round p { p with buffer := rest }
  | final {p p' : ResponseParser} {block rest : Bytes} {head : ParsedHead} {framing : FramingInfo}
      {k : BodyFraming} (hread : HeadRead p block rest head framing)
      (hfinal : isInterimStatus head.statusCode = false)
      (hframed : Framed p.requestMethod head.statusCode framing k) (hfits : k.Fits p.limits)
      (hbegin : (p.final head framing rest).begin k = .inl p') : Round p p'

inductive Rest : ResponseParser → ResponseParseProgress → ResponseParser → Prop
  | head {p : ResponseParser} (hs : p.stage = .head) (hno : ¬ crlfcrlf <:+: p.buffer)
      (hlen : p.buffer.length ≤ p.limits.maxHeadBytes.toNat) : Rest p .needMore p
  | headDone {p p' : ResponseParser} {block rest : Bytes} {head : ParsedHead}
      {framing : FramingInfo} {k : BodyFraming} (hread : HeadRead p block rest head framing)
      (hfinal : isInterimStatus head.statusCode = false)
      (hframed : Framed p.requestMethod head.statusCode framing k) (hfits : k.Fits p.limits)
      (hbegin : (p.final head framing rest).begin k = .inr (.ok .complete, p')) :
      Rest p .complete p'
  | length {p : ResponseParser} (hs : p.stage = .contentLengthBody)
      (hlen : p.buffer.length < p.contentLengthRemaining) :
      Rest p .needMore { p.taken with
        contentLengthRemaining := p.contentLengthRemaining - p.buffer.length }
  | lengthDone {p : ResponseParser} {data rest : Bytes} (hs : p.stage = .contentLengthBody)
      (hlen : data.length = p.contentLengthRemaining) (hb : p.buffer = data ++ rest) :
      Rest p .complete (p.lengthDone data rest)
  | closeDelimited {p : ResponseParser} (hs : p.stage = .closeDelimitedBody) (htakes : p.Takes) :
      Rest p .needMore p.taken
  | chunked {p : ResponseParser} {c : ChunkedDecoder.Config} (hs : p.stage = .chunkedBody)
      (hdecoded : p.chunkedDecoder.process p.buffer p.response.body = (.ok .needMore, c))
      (hallowed : p.bodyForbidden = true → c.output = []) :
      Rest p .needMore (p.decoded c)
  | chunkedDone {p : ResponseParser} {c : ChunkedDecoder.Config} (hs : p.stage = .chunkedBody)
      (hdecoded : p.chunkedDecoder.process p.buffer p.response.body = (.ok .complete, c))
      (hallowed : p.bodyForbidden = true → c.output = []) :
      Rest p .complete (p.decoded c).done
  | complete {p : ResponseParser} (hs : p.stage = .complete) : Rest p .complete p

inductive Fault : ResponseParser → Error → ResponseParser → Prop
  | headTooLong {p : ResponseParser} (hs : p.stage = .head) (hno : ¬ crlfcrlf <:+: p.buffer)
      (hlen : p.limits.maxHeadBytes.toNat < p.buffer.length) :
      Fault p { code := .responseLimitExceeded } p
  /-- A whole head that is too long, malformed or whose framing is refused. -/
  | head {p p' : ResponseParser} {block rest : Bytes} {e : Error} (hs : p.stage = .head)
      (hcut : cut crlfcrlf p.buffer = some (block, rest))
      (hstep : bufferStep p = .inr (.error e, p'))
      (hleft : p' = p ∨ p' = { p with buffer := rest } ∨ ∃ head framing,
        p' = p.final head framing rest ∨ p' = (p.final head framing rest).forbid) :
      Fault p e p'
  | closeDelimited {p : ResponseParser} {code : ErrorCode} (hs : p.stage = .closeDelimitedBody)
      (htake : p.takeCloseDelimited = .error code) : Fault p { code } p
  | chunked {p : ResponseParser} {c : ChunkedDecoder.Config} {e : Error}
      (hs : p.stage = .chunkedBody)
      (hdecoded : p.chunkedDecoder.process p.buffer p.response.body = (.error e, c)) :
      Fault p e (p.decoded c)
  | chunkedForbidden {p : ResponseParser} {c : ChunkedDecoder.Config} {q : ChunkDecodeProgress}
      (hs : p.stage = .chunkedBody)
      (hdecoded : p.chunkedDecoder.process p.buffer p.response.body = (.ok q, c))
      (hforbidden : p.bodyForbidden = true) (hdata : c.output ≠ []) :
      Fault p { code := .malformedResponse } (p.decoded c)

/-! ## Each entry is a round -/

/-- The step that reads a whole head. -/
theorem HeadRead.step {p : ResponseParser} {block rest : Bytes} {head : ParsedHead}
    {framing : FramingInfo} (h : HeadRead p block rest head framing) :
    bufferStep p = if isInterimStatus head.statusCode then
        if framing.contentLengthCount != 0 || framing.transferEncodingFields != 0 then
          fail { p with buffer := rest } .malformedResponse
        else .inl { p with buffer := rest }
      else (p.final head framing rest).chooseBody framing := by
  rw [bufferStep_head h.stage, h.buffer, cut_leads rest h.leads]
  simp only [wouldExceed_eq_false.mpr h.within, h.parses, acceptHead, h.analyzed]
  rfl

theorem HeadRead.step_final {p : ResponseParser} {block rest : Bytes} {head : ParsedHead}
    {framing : FramingInfo} {k : BodyFraming} (h : HeadRead p block rest head framing)
    (hfinal : isInterimStatus head.statusCode = false)
    (hframed : Framed p.requestMethod head.statusCode framing k) (hfits : k.Fits p.limits) :
    bufferStep p = (p.final head framing rest).begin k := by
  rw [h.step, hfinal, if_neg Bool.false_ne_true]
  exact chooseBody_of_framed (p := p.final head framing rest) hframed hfits

theorem Round.step {p p' : ResponseParser} (h : Round p p') : bufferStep p = .inl p' := by
  cases h with
  | interim hread hinterim hcl hte => simp [hread.step, hinterim, hcl, hte]
  | final hread hfinal hframed hfits hbegin =>
    rw [hread.step_final hfinal hframed hfits, hbegin]

theorem Rest.step {p p' : ResponseParser} {q : ResponseParseProgress} (h : Rest p q p') :
    bufferStep p = .inr (.ok q, p') := by
  cases h with
  | head hs hno hlen =>
    rw [bufferStep_head hs, cut_eq_none_iff.mpr hno]
    exact if_neg (not_lt.mpr hlen)
  | headDone hread hfinal hframed hfits hbegin =>
    rw [hread.step_final hfinal hframed hfits, hbegin]
  | length hs hlen =>
    have hne : p.contentLengthRemaining - p.buffer.length ≠ 0 := by omega
    simp [bufferStep, hs, Nat.min_eq_right hlen.le, hne, finish, taken]
  | lengthDone hs hlen hb => simp [bufferStep, ResponseParser.lengthDone, hs, hb, ← hlen, finish]
  | closeDelimited hs htakes =>
    simp [bufferStep, hs, takeCloseDelimited_ok_iff.mpr ⟨htakes, rfl⟩, finish]
  | chunked hs hdecoded hallowed =>
    simpa [bufferStep, decoded, hs, hdecoded, finish, fail] using hallowed
  | chunkedDone hs hdecoded hallowed =>
    simpa [bufferStep, decoded, done, hs, hdecoded, finish, fail] using hallowed
  | complete hs => simp [bufferStep, hs, finish]

theorem Fault.step {p p' : ResponseParser} {e : Error} (h : Fault p e p') :
    bufferStep p = .inr (.error e, p') := by
  cases h with
  | headTooLong hs hno hlen =>
    rw [bufferStep_head hs, cut_eq_none_iff.mpr hno]
    exact if_pos hlen
  | head hs hcut hstep hleft => exact hstep
  | closeDelimited hs htake => simp [bufferStep, hs, htake, fail]
  | chunked hs hdecoded => simp [bufferStep, hs, hdecoded, decoded]
  | chunkedForbidden hs hdecoded hforbidden hdata =>
    simp [bufferStep, hs, hdecoded, decoded, hforbidden, hdata, fail]

theorem Round.run {p p' : ResponseParser} (h : Round p p') :
    bufferLoop.run p = bufferLoop.run p' := bufferLoop.run_of_next h.step

theorem Rest.run {p p' : ResponseParser} {q : ResponseParseProgress} (h : Rest p q p') :
    bufferLoop.run p = (.ok q, p') := bufferLoop.run_of_exit h.step

theorem Fault.run {p p' : ResponseParser} {e : Error} (h : Fault p e p') :
    bufferLoop.run p = (.error e, p') := bufferLoop.run_of_exit h.step

/-! ## Each round is an entry -/

/-- The head stage waits, fails or reads a head. -/
theorem head_cases {p : ResponseParser} (hs : p.stage = .head) :
    (¬ crlfcrlf <:+: p.buffer ∧ p.buffer.length ≤ p.limits.maxHeadBytes.toNat) ∨
      (∃ e p', Fault p e p' ∧ bufferStep p = .inr (.error e, p')) ∨
      ∃ block rest head framing, HeadRead p block rest head framing := by
  cases hcut : cut crlfcrlf p.buffer with
  | none =>
    have hno := cut_eq_none_iff.mp hcut
    by_cases hlen : p.buffer.length ≤ p.limits.maxHeadBytes.toNat
    · exact .inl ⟨hno, hlen⟩
    · refine .inr (.inl ⟨_, _, .headTooLong hs hno (not_le.mp hlen), ?_⟩)
      rw [bufferStep_head hs, hcut]
      exact if_pos (not_le.mp hlen)
  | some r =>
    rcases r with ⟨block, rest⟩
    have hstep := bufferStep_head hs
    simp only [hcut] at hstep
    by_cases hlimit : wouldExceed block.length 4 p.limits.maxHeadBytes.toNat = true
    · rw [if_pos hlimit] at hstep
      exact .inr (.inl ⟨_, _, .head hs hcut hstep (.inl rfl), hstep⟩)
    · rw [if_neg hlimit] at hstep
      cases hhead : parseHead block with
      | error e =>
        rw [hhead] at hstep
        exact .inr (.inl ⟨_, _, .head hs hcut hstep (.inl rfl), hstep⟩)
      | ok head =>
        cases hframing : analyzeFraming head.headers with
        | error e =>
          simp only [hhead, acceptHead, hframing] at hstep
          exact .inr (.inl ⟨_, _, .head hs hcut hstep (.inr (.inl rfl)), hstep⟩)
        | ok framing =>
          rcases cut_eq_some_iff.mp hcut with ⟨hbuffer, hleads⟩
          rw [Bool.not_eq_true, wouldExceed_eq_false] at hlimit
          exact .inr (.inr ⟨block, rest, head, framing,
            ⟨hs, hbuffer, hleads, hlimit, hhead, hframing⟩⟩)

theorem HeadRead.cut_eq {p : ResponseParser} {block rest : Bytes} {head : ParsedHead}
    {framing : FramingInfo} (h : HeadRead p block rest head framing) :
    cut crlfcrlf p.buffer = some (block, rest) := by
  rw [h.buffer]
  exact cut_leads rest h.leads

theorem begin_cases (p : ResponseParser) (k : BodyFraming) :
    (∃ p', p.begin k = .inl p') ∨ ∃ p', p.begin k = .inr (.ok .complete, p') := by
  cases k with
  | none => exact .inr ⟨_, rfl⟩
  | chunked => exact .inl ⟨_, rfl⟩
  | untilClose => exact .inl ⟨_, rfl⟩
  | length n =>
    unfold begin
    simp only
    split_ifs
    · exact .inr ⟨_, rfl⟩
    · exact .inl ⟨_, rfl⟩

/-- A round, with its place in the lists. -/
inductive Outcome (p : ResponseParser) : ResponseParser ⊕ ParseExit → Prop
  | round {p' : ResponseParser} (h : Round p p') : Outcome p (.inl p')
  | rest {q : ResponseParseProgress} {p' : ResponseParser} (h : Rest p q p') :
      Outcome p (.inr (.ok q, p'))
  | fault {e : Error} {p' : ResponseParser} (h : Fault p e p') : Outcome p (.inr (.error e, p'))

theorem HeadRead.outcome {p : ResponseParser} {block rest : Bytes} {head : ParsedHead}
    {framing : FramingInfo} (h : HeadRead p block rest head framing) :
    Outcome p (bufferStep p) := by
  have hstep := h.step
  have hfault := fun e p' hs' => @Fault.head p p' block rest e h.stage h.cut_eq hs'
  cases hinterim : isInterimStatus head.statusCode with
  | true =>
    rw [hinterim, if_pos rfl] at hstep
    by_cases hno : (framing.contentLengthCount != 0 || framing.transferEncodingFields != 0) = true
    · rw [if_pos hno] at hstep
      rw [hstep]
      exact .fault (hfault _ _ hstep (.inr (.inl rfl)))
    · rw [if_neg hno] at hstep
      rw [hstep]
      simp only [Bool.or_eq_true, bne_iff_ne, not_or, not_not] at hno
      exact .round (.interim h hinterim hno.1 hno.2)
  | false =>
    rw [hinterim, if_neg Bool.false_ne_true] at hstep
    by_cases hframed : ∃ k, Framed p.requestMethod head.statusCode framing k ∧ k.Fits p.limits
    · rcases hframed with ⟨k, hk, hfits⟩
      rw [h.step_final hinterim hk hfits]
      rcases begin_cases (p.final head framing rest) k with ⟨p', hbegin⟩ | ⟨p', hbegin⟩
      · rw [hbegin]
        exact .round (.final h hinterim hk hfits hbegin)
      · rw [hbegin]
        exact .rest (.headDone h hinterim hk hfits hbegin)
    · rcases chooseBody_refused (p := p.final head framing rest)
          (fun k hk hfits => hframed ⟨k, hk, hfits⟩) with ⟨code, q, hrefused, hleft⟩
      rw [hrefused] at hstep
      rw [hstep]
      exact .fault (hfault _ _ hstep (.inr (.inr ⟨head, framing, hleft⟩)))

/-- Every round is in one of the lists. -/
theorem outcome (p : ResponseParser) : Outcome p (bufferStep p) := by
  have hrest := fun q p' (h : Rest p q p') => h.step ▸ Outcome.rest h
  have hfault := fun e p' (h : Fault p e p') => h.step ▸ Outcome.fault h
  cases hs : p.stage with
  | head =>
    rcases head_cases hs with ⟨hno, hlen⟩ | ⟨e, p', h, -⟩ | ⟨block, rest, head, framing, hread⟩
    · exact hrest _ _ (.head hs hno hlen)
    · exact hfault _ _ h
    · exact hread.outcome
  | contentLengthBody =>
    by_cases hlen : p.buffer.length < p.contentLengthRemaining
    · exact hrest _ _ (.length hs hlen)
    · exact hrest _ _ (.lengthDone hs (List.length_take_of_le (not_lt.mp hlen))
        (List.take_append_drop _ _).symm)
  | closeDelimitedBody =>
    cases htake : p.takeCloseDelimited with
    | error code => exact hfault _ _ (.closeDelimited hs htake)
    | ok p' => exact hrest _ _ (.closeDelimited hs (takeCloseDelimited_ok_iff.mp htake).1)
  | chunkedBody =>
    rcases hdecoded : p.chunkedDecoder.process p.buffer p.response.body with ⟨e | q, c⟩
    · exact hfault _ _ (.chunked hs hdecoded)
    · by_cases hforbidden : p.bodyForbidden = true ∧ c.output ≠ []
      · exact hfault _ _ (.chunkedForbidden hs hdecoded hforbidden.1 hforbidden.2)
      · have hallowed : p.bodyForbidden = true → c.output = [] := by tauto
        cases q with
        | needMore => exact hrest _ _ (.chunked hs hdecoded hallowed)
        | complete => exact hrest _ _ (.chunkedDone hs hdecoded hallowed)
  | complete => exact hrest _ _ (.complete hs)

theorem round_of_step {p p' : ResponseParser} (h : bufferStep p = .inl p') : Round p p' := by
  have hout := outcome p
  rw [h] at hout
  cases hout with
  | round hround => exact hround

theorem rest_of_step {p p' : ResponseParser} {q : ResponseParseProgress}
    (h : bufferStep p = .inr (.ok q, p')) : Rest p q p' := by
  have hout := outcome p
  rw [h] at hout
  cases hout with
  | rest hrest => exact hrest

theorem fault_of_step {p p' : ResponseParser} {e : Error}
    (h : bufferStep p = .inr (.error e, p')) : Fault p e p' := by
  have hout := outcome p
  rw [h] at hout
  cases hout with
  | fault hfault => exact hfault

/-! ## Rests from a given stage -/

section

variable {p p' : ResponseParser} {q : ResponseParseProgress}

theorem Rest.of_head (h : Rest p q p') (hs : p.stage = .head) :
    (q = .needMore ∧ p' = p ∧ ¬ crlfcrlf <:+: p.buffer ∧
        p.buffer.length ≤ p.limits.maxHeadBytes.toNat) ∨
      ∃ block rest head framing k, HeadRead p block rest head framing ∧
        isInterimStatus head.statusCode = false ∧
        Framed p.requestMethod head.statusCode framing k ∧ k.Fits p.limits ∧
        (p.final head framing rest).begin k = .inr (.ok q, p') := by
  cases h with
  | head hs' hno hlen => exact .inl ⟨rfl, rfl, hno, hlen⟩
  | headDone hread hfinal hframed hfits hbegin =>
    exact .inr ⟨_, _, _, _, _, hread, hfinal, hframed, hfits, hbegin⟩
  | length hs' | lengthDone hs' | closeDelimited hs' | chunked hs' | chunkedDone hs'
  | complete hs' => cases hs'.symm.trans hs

theorem Rest.of_length (h : Rest p q p') (hs : p.stage = .contentLengthBody) :
    (q = .needMore ∧ p.buffer.length < p.contentLengthRemaining ∧ p' = { p.taken with
        contentLengthRemaining := p.contentLengthRemaining - p.buffer.length }) ∨
      q = .complete ∧ ∃ data rest, data.length = p.contentLengthRemaining ∧
        p.buffer = data ++ rest ∧ p' = p.lengthDone data rest := by
  cases h with
  | length hs' hlen => exact .inl ⟨rfl, hlen, rfl⟩
  | lengthDone hs' hlen hb => exact .inr ⟨rfl, _, _, hlen, hb, rfl⟩
  | headDone hread => cases hread.stage.symm.trans hs
  | head hs' | closeDelimited hs' | chunked hs' | chunkedDone hs' | complete hs' =>
    cases hs'.symm.trans hs

theorem Rest.of_closeDelimited (h : Rest p q p') (hs : p.stage = .closeDelimitedBody) :
    q = .needMore ∧ p.Takes ∧ p' = p.taken := by
  cases h with
  | closeDelimited hs' htakes => exact ⟨rfl, htakes, rfl⟩
  | headDone hread => cases hread.stage.symm.trans hs
  | head hs' | length hs' | lengthDone hs' | chunked hs' | chunkedDone hs' | complete hs' =>
    cases hs'.symm.trans hs

theorem Rest.of_chunked (h : Rest p q p') (hs : p.stage = .chunkedBody) :
    ∃ c, (p.bodyForbidden = true → c.output = []) ∧
      (q = .needMore ∧ p' = p.decoded c ∧
          p.chunkedDecoder.process p.buffer p.response.body = (.ok .needMore, c) ∨
        q = .complete ∧ p' = (p.decoded c).done ∧
          p.chunkedDecoder.process p.buffer p.response.body = (.ok .complete, c)) := by
  cases h with
  | chunked hs' hdecoded hallowed => exact ⟨_, hallowed, .inl ⟨rfl, rfl, hdecoded⟩⟩
  | chunkedDone hs' hdecoded hallowed => exact ⟨_, hallowed, .inr ⟨rfl, rfl, hdecoded⟩⟩
  | headDone hread => cases hread.stage.symm.trans hs
  | head hs' | length hs' | lengthDone hs' | closeDelimited hs' | complete hs' =>
    cases hs'.symm.trans hs

end

/-- The answer of a call that does not fail says whether the response is complete. -/
theorem complete_iff_of_run {p p' : ResponseParser} {q : ResponseParseProgress}
    (h : bufferLoop.run p = (.ok q, p')) : p'.isComplete = true ↔ q = .complete := by
  rcases bufferLoop.exists_exit p with ⟨t, -, hexit⟩
  rw [h] at hexit
  have hstage : p'.stage = .complete ↔ q = .complete := by
    cases rest_of_step hexit with
    | head hs | length hs | closeDelimited hs | chunked hs => simp [taken, decoded, hs]
    | headDone hread hfinal hframed hfits hbegin => simp [stage_of_begin hbegin]
    | lengthDone | chunkedDone => simp [ResponseParser.lengthDone, done]
    | complete hs => simp [hs]
  rw [isComplete, beq_iff_eq, hstage]

/-- A call that fails leaves a response that is not complete and that no end of input completes. -/
theorem Fault.not_complete {p p' : ResponseParser} {e : Error} (h : Fault p e p') :
    p'.isComplete = false ∧ p'.finishEof.2.isComplete = false := by
  have hstage : ∀ {q : ResponseParser}, q.stage = .head ∨ q.stage = .chunkedBody →
      q.isComplete = false ∧ q.finishEof.2.isComplete = false := by
    intro q hq
    unfold finishEof isComplete
    rcases hq with hq | hq <;> simp [hq]
  cases h with
  | headTooLong hs => exact hstage (.inl hs)
  | head hs hcut hstep hleft =>
    rcases hleft with rfl | rfl | ⟨head, framing, rfl | rfl⟩
    · exact hstage (.inl hs)
    · exact hstage (.inl hs)
    · exact hstage (.inl hs)
    · exact hstage (.inl hs)
  | closeDelimited hs htake =>
    unfold finishEof isComplete
    simp [hs, htake]
  | chunked hs | chunkedForbidden hs => exact hstage (.inr hs)

theorem fault_of_run {p p' : ResponseParser} {e : Error} (h : bufferLoop.run p = (.error e, p')) :
    ∃ t, bufferLoop.Reaches p t ∧ Fault t e p' := by
  rcases bufferLoop.exists_exit p with ⟨t, hreach, hexit⟩
  rw [h] at hexit
  exact ⟨t, hreach, fault_of_step hexit⟩

/-- The end of input completes a response or is an error. -/
theorem finishEof_ok {p p' : ResponseParser} {q : ResponseParseProgress}
    (h : p.finishEof = (.ok q, p')) : q = .complete ∧ p'.isComplete = true := by
  unfold finishEof at h
  cases hs : p.stage with
  | closeDelimitedBody =>
    rw [hs] at h
    simp only at h
    split at h
    · cases h
    · cases h
      exact ⟨rfl, rfl⟩
  | complete =>
    rw [hs] at h
    cases h
    exact ⟨rfl, by rw [isComplete, hs]; rfl⟩
  | head | contentLengthBody | chunkedBody =>
    rw [hs] at h
    cases h

theorem finishEof_error {p p' : ResponseParser} {e : Error}
    (h : p.finishEof = (.error e, p')) : p'.isComplete = false := by
  unfold finishEof at h
  cases hs : p.stage with
  | closeDelimitedBody =>
    rw [hs] at h
    simp only at h
    split at h
    · cases h
      rw [isComplete, hs]
      rfl
    · cases h
  | complete =>
    rw [hs] at h
    cases h
  | head | contentLengthBody | chunkedBody =>
    rw [hs] at h
    cases h
    rw [isComplete, hs]
    rfl

/-- Behind the head stage a call is a single round. -/
theorem rest_of_run {p p' : ResponseParser} {q : ResponseParseProgress} {s : ParserStage}
    (hs : p.stage = s) (hne : s ≠ .head) (h : bufferLoop.run p = (.ok q, p')) : Rest p q p' := by
  subst hs
  cases hstep : bufferStep p with
  | inl p₁ =>
    cases round_of_step hstep with
    | interim hread | final hread => exact absurd hread.stage hne
  | inr r =>
    have hexit : bufferLoop.run p = r := bufferLoop.run_of_exit hstep
    rw [h] at hexit
    subst hexit
    exact rest_of_step hstep

end CppRequest.ResponseParser
