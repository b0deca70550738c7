import CppRequest.LimitEnforcement
import CppRequest.MirroredLoops
import CppRequest.ParserHistory

/-!
# Looser limits

The limits decide nothing but whether a response is refused for its size: a run of calls none of
which is refused so is the same run under limits that allow more.
-/

namespace CppRequest

open ExitLoop

/-- The other limits allow at least as much. -/
structure ResponseLimits.Loosens (limits limits' : ResponseLimits) : Prop where
  maxHeadBytes : limits.maxHeadBytes ≤ limits'.maxHeadBytes
  maxBodyBytes : limits.maxBodyBytes ≤ limits'.maxBodyBytes
  maxChunkLineBytes : limits.maxChunkLineBytes ≤ limits'.maxChunkLineBytes
  maxTrailerBytes : limits.maxTrailerBytes ≤ limits'.maxTrailerBytes

theorem wouldExceed_tighter {current addition limit limit' : ℕ}
    (h : wouldExceed current addition limit' = true) (hle : limit ≤ limit') :
    wouldExceed current addition limit = true := by
  rw [wouldExceed_eq_true] at h ⊢
  omega

/-! ## The decoder -/

namespace ChunkedDecoder

def relimit (limits : ResponseLimits) (d : ChunkedDecoder) : ChunkedDecoder := { d with limits }

def ProcessState.relimit (limits : ResponseLimits) (s : ProcessState) : ProcessState :=
  { s with decoder := s.decoder.relimit limits }

def relimitExit (limits : ResponseLimits) (r : ProcessExit) : ProcessExit :=
  (r.1, { r.2 with decoder := r.2.decoder.relimit limits })

section

variable {limits : ResponseLimits}

/-- The call has been refused for its size. -/
def Exceeded (r : ProcessExit) : Prop := r.1 = .error limitExceeded

theorem processStep_mirrors {s : ProcessState} (h : s.decoder.limits.Loosens limits) :
    Mirrors Exceeded (ProcessState.relimit limits) (relimitExit limits) (processStep s)
      (processStep (s.relimit limits)) := by
  have hline := UInt64.le_iff_toNat_le.mp h.maxChunkLineBytes
  have hbody := UInt64.le_iff_toNat_le.mp h.maxBodyBytes
  have htrailer := UInt64.le_iff_toNat_le.mp h.maxTrailerBytes
  obtain ⟨⟨limits₀, stage, remaining, seen⟩, input, output, cursor⟩ := s
  dsimp only at hline hbody htrailer
  unfold processStep ProcessState.relimit relimit
  cases stage with
  | sizeLine =>
    cases hfind : find input crlf cursor with
    | none => exact .guard rfl (fun hlong => hline.trans_lt hlong) (.same rfl)
    | some lineEnd =>
      refine .guard rfl (fun hlong => hline.trans_lt hlong) ?_
      cases hsize : parseChunkSize (substr input cursor (lineEnd - cursor)) with
      | error e => exact .same rfl
      | ok size =>
        refine .guard rfl (fun hexceeds => ?_) (.same rfl)
        rw [Bool.and_eq_true] at hexceeds ⊢
        exact hexceeds.imp_right fun h => wouldExceed_tighter h hbody
  | data => exact .ite (.same rfl) (.same rfl)
  | dataCrlf => exact .ite (.same rfl) (.ite (.same rfl) (.same rfl))
  | trailers =>
    cases hfind : find input crlf cursor with
    | none => exact .guard rfl (fun h => wouldExceed_tighter h htrailer) (.same rfl)
    | some lineEnd =>
      refine .guard rfl (fun h => wouldExceed_tighter h htrailer) ?_
      exact .ite (.same rfl) (.ite (.same rfl) (.same rfl))
  | complete => exact .same rfl

/-- What the call returns is the same, and what it leaves but for the limits. -/
theorem process_relimit {d : ChunkedDecoder} (h : d.limits.Loosens limits) (input output : Bytes)
    (hno : (d.process input output).1 ≠ .error limitExceeded) :
    (d.relimit limits).process input output = relimitExit limits (d.process input output) :=
  run_mirrors (L := processLoop) (M := processLoop)
    (fun s => s.decoder.limits.Loosens limits) (fun _ hs => processStep_mirrors hs)
    (fun _ _ hs hstep => (keeps_of_next hstep).1.symm ▸ hs) (s := ⟨d, input, output, 0⟩) h hno

end

end ChunkedDecoder

/-! ## The parser -/

namespace ResponseParser

def relimit (limits : ResponseLimits) (p : ResponseParser) : ResponseParser :=
  { p with limits, chunkedDecoder := p.chunkedDecoder.relimit limits }

def relimitExit (limits : ResponseLimits) (r : ParseExit) : ParseExit := (r.1, r.2.relimit limits)

def Exceeded (r : ParseExit) : Prop := r.1 = .error limitExceeded

section

variable {limits : ResponseLimits} {p p' : ResponseParser}

theorem chooseBody_mirrors (h : p.limits.Loosens limits) (framing : FramingInfo) :
    Mirrors Exceeded (relimit limits) (relimitExit limits) (p.chooseBody framing)
      ((p.relimit limits).chooseBody framing) := by
  have hbody := UInt64.le_iff_toNat_le.mp h.maxBodyBytes
  unfold chooseBody
  refine .ite (.same rfl) (.ite (.same rfl) (.ite (.same rfl) (.ite ?_ (.ite ?_ (.ite ?_ ?_)))))
  · refine .ite (.ite (.same rfl) (.same rfl)) (.ite ?_ (.same rfl))
    exact .ite (.same rfl) (.same rfl)
  · exact .ite (.same rfl) (.same rfl)
  · refine .guard rfl (fun hlong => hbody.trans_lt hlong) ?_
    exact .ite (.same rfl) (.same rfl)
  · exact .same rfl

theorem takeCloseDelimited_relimit (h : p.limits.Loosens limits) :
    p.takeCloseDelimited = .error .responseLimitExceeded ∨
      (p.relimit limits).takeCloseDelimited = p.takeCloseDelimited.map (relimit limits) := by
  have hbody := UInt64.le_iff_toNat_le.mp h.maxBodyBytes
  unfold takeCloseDelimited relimit
  dsimp only
  by_cases hforbidden : (p.bodyForbidden && !p.buffer.isEmpty) = true
  · rw [if_pos hforbidden, if_pos hforbidden]
    exact .inr rfl
  · rw [if_neg hforbidden, if_neg hforbidden]
    by_cases hempty : p.buffer.isEmpty = true
    · rw [if_pos hempty, if_pos hempty]
      exact .inr rfl
    · rw [if_neg hempty, if_neg hempty]
      by_cases hexceeds : wouldExceed p.response.body.length p.buffer.length
          p.limits.maxBodyBytes.toNat = true
      · rw [if_pos hexceeds]
        exact .inl rfl
      · rw [if_neg hexceeds, if_neg fun h => hexceeds (wouldExceed_tighter h hbody)]
        exact .inr rfl

theorem bufferStep_mirrors (hp : p.Contained) (h : p.limits.Loosens limits) :
    Mirrors Exceeded (relimit limits) (relimitExit limits) (bufferStep p)
      (bufferStep (p.relimit limits)) := by
  have hhead := UInt64.le_iff_toNat_le.mp h.maxHeadBytes
  unfold bufferStep
  rw [show (p.relimit limits).stage = p.stage from rfl,
    show (p.relimit limits).buffer = p.buffer from rfl]
  cases hs : p.stage with
  | head =>
    cases hfind : find p.buffer crlfcrlf 0 with
    | none => exact .guard rfl (fun hlong => hhead.trans_lt hlong) (.same rfl)
    | some headEnd =>
      refine .guard rfl (fun h => wouldExceed_tighter h hhead) ?_
      cases hparse : parseHead (substr p.buffer 0 headEnd) with
      | error e => exact .same rfl
      | ok head =>
        unfold acceptHead
        dsimp only
        cases hframing : analyzeFraming head.headers with
        | error e => exact .same rfl
        | ok framing =>
          refine .ite (.ite (.same rfl) (.same rfl)) ?_
          exact chooseBody_mirrors (p := { p with
            stage := .head
            buffer := p.buffer.drop (headEnd + 4)
            response := { p.response with
              statusCode := head.statusCode, reason := head.reason, headers := head.headers }
            connectionCloseRequested :=
              framing.connectionCloseRequested || head.statusCode == 101 }) h framing
  | contentLengthBody => exact .ite (.same rfl) (.same rfl)
  | closeDelimitedBody =>
    obtain hlimit | hsame := takeCloseDelimited_relimit h
    · rw [hlimit]
      exact .of_bad rfl
    · rw [hsame]
      cases p.takeCloseDelimited with
      | error code => exact .same rfl
      | ok p' => exact .same rfl
  | chunkedBody =>
    by_cases hlimit : (p.chunkedDecoder.process p.buffer p.response.body).1 = .error limitExceeded
    · dsimp only
      rw [hlimit]
      exact .of_bad rfl
    · have hsame : (p.relimit limits).chunkedDecoder.process p.buffer
          (p.relimit limits).response.body =
            ChunkedDecoder.relimitExit limits (p.chunkedDecoder.process p.buffer p.response.body) :=
        ChunkedDecoder.process_relimit (hp.decoderLimits.symm ▸ h) p.buffer p.response.body hlimit
      dsimp only
      rw [hsame]
      generalize p.chunkedDecoder.process p.buffer p.response.body = r
      obtain ⟨e | progress, c⟩ := r
      · exact .same rfl
      · refine .ite (.same rfl) ?_
        cases progress with
        | needMore => exact .same rfl
        | complete => exact .same rfl
  | complete => exact .same rfl

/-! ## Calls -/

theorem call_relimit (hp : p.Contained) (h : p.limits.Loosens limits) (c : Call)
    (hno : (p.call c).1 ≠ .error limitExceeded) :
    (p.relimit limits).call c = relimitExit limits (p.call c) := by
  cases c with
  | feed b =>
    refine run_mirrors (L := bufferLoop) (M := bufferLoop)
      (fun t => t.Contained ∧ t.limits.Loosens limits) (fun t ht => bufferStep_mirrors ht.1 ht.2)
      (fun t t' ht hstep => ?_) (s := p.push b) ⟨hp.push b, h⟩ hno
    have hround := round_of_step hstep
    exact ⟨hround.contained ht.1, hround.later.limits.symm ▸ ht.2⟩
  | finishEof =>
    simp only [call, finishEof] at hno ⊢
    rw [show (p.relimit limits).stage = p.stage from rfl]
    cases hs : p.stage with
    | closeDelimitedBody =>
      rw [hs] at hno
      obtain hlimit | hsame := takeCloseDelimited_relimit h
      · rw [hlimit] at hno
        exact absurd rfl hno
      · dsimp only
        rw [hsame]
        cases p.takeCloseDelimited with
        | error code => rfl
        | ok p' => rfl
    | complete | head | contentLengthBody | chunkedBody => rfl

/-- What the calls answer, one after another. -/
def answers (p : ResponseParser) : List Call → List (Result ResponseParseProgress)
  | [] => []
  | c :: calls => (p.call c).1 :: answers (p.call c).2 calls

theorem call_contained (hp : p.Contained) (c : Call) : (p.call c).2.Contained := by
  cases c with
  | feed b => exact feed_contained b hp
  | finishEof => exact finishEof_contained hp

theorem afterCalls_relimit (hp : p.Contained) (h : p.limits.Loosens limits) (calls : List Call)
    (hno : .error limitExceeded ∉ p.answers calls) :
    (p.relimit limits).answers calls = p.answers calls ∧
      (p.relimit limits).afterCalls calls = (p.afterCalls calls).relimit limits := by
  induction calls generalizing p with
  | nil => exact ⟨rfl, rfl⟩
  | cons c calls ih =>
    unfold answers at hno
    rw [List.mem_cons, not_or] at hno
    have hlater : (p.call c).2.limits = p.limits := (afterCalls_later p [c]).limits
    have hcall := call_relimit hp h c (Ne.symm hno.1)
    obtain ⟨hanswers, hleft⟩ := ih (call_contained hp c) (hlater.symm ▸ h) hno.2
    unfold answers afterCalls
    rw [List.foldl_cons, List.foldl_cons, hcall]
    exact ⟨congrArg _ hanswers, hleft⟩

/-- Whatever is received, and however the calls are made. -/
theorem limits_transparent (requestMethod : Method) {limits limits' : ResponseLimits}
    (h : limits.Loosens limits') (calls : List Call)
    (hno : .error limitExceeded ∉ (fresh requestMethod limits).answers calls) :
    (fresh requestMethod limits').answers calls = (fresh requestMethod limits).answers calls ∧
      (fresh requestMethod limits').afterCalls calls =
        ((fresh requestMethod limits).afterCalls calls).relimit limits' :=
  afterCalls_relimit (fresh_contained requestMethod limits) h calls hno

/-- Limits that a chunked body just meets, beside the ones of a new client. -/
theorem limits_transparent_chunked :
    let limits : ResponseLimits :=
      { maxHeadBytes := 47, maxBodyBytes := 3, maxChunkLineBytes := 1, maxTrailerBytes := 2 }
    let calls : List Call :=
      [.feed (bytes "HTTP/1.1 200 OK\r\nTransfer-Encoding: chunked\r\n\r\n3\r\nab"), .finishEof,
        .feed (bytes "c\r\n0\r\n\r\n"), .finishEof]
    (fresh .get limits).answers calls =
        [.ok .needMore, .error { code := .unexpectedEof }, .ok .complete, .ok .complete] ∧
      (fresh .get {}).answers calls = (fresh .get limits).answers calls ∧
      (fresh .get {}).afterCalls calls = ((fresh .get limits).afterCalls calls).relimit {} := by
  intro limits calls
  have hanswers : (fresh .get limits).answers calls =
      [.ok .needMore, .error { code := .unexpectedEof }, .ok .complete, .ok .complete] := by
    decide +kernel
  have hno : .error limitExceeded ∉ (fresh .get limits).answers calls := by
    rw [hanswers]
    decide
  have hlooser : limits.Loosens {} := ⟨by decide, by decide, by decide, by decide⟩
  exact ⟨hanswers, limits_transparent .get hlooser calls hno⟩

end

end ResponseParser

end CppRequest
