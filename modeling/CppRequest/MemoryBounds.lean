import CppRequest.Segmentation

/-!
# What a parser can hold

Bounds on the memory of a parser that hold after any calls of `feed` and `finish_eof`,
also behind calls that have failed half-way. The body and what is still expected of it
stay within the body limit, the trailer count within the trailer limit, and a call that
asks for more leaves no more bytes pending than one unfinished element may have.
-/

namespace CppRequest

open Search

/-! ## The decoder -/

namespace ChunkedDecoder

/-- What every round of the decoder keeps. -/
structure Config.Bounded (limits : ResponseLimits) (c : Config) : Prop where
  same : c.decoder.limits = limits
  output : c.output.length ≤ limits.maxBodyBytes.toNat
  data : c.decoder.stage = .data →
    c.output.length + c.decoder.chunkRemaining ≤ limits.maxBodyBytes.toNat
  trailers : c.decoder.trailerBytesSeen ≤ limits.maxTrailerBytes.toNat

variable {limits : ResponseLimits}

theorem Round.bounded {c c' : Config} (h : Round c c') (hc : c.Bounded limits) :
    c'.Bounded limits := by
  rcases hc with ⟨rfl, hout, hdata, hseen⟩
  cases h with
  | @size d line rest output size hs hline hlen hsize hbody =>
    refine ⟨rfl, hout, fun hstage => ?_, hseen⟩
    have hzero : size ≠ 0 := by
      rintro rfl
      cases hstage
    exact hbody.resolve_left hzero
  | data hs hlen =>
    refine ⟨rfl, ?_, nofun, hseen⟩
    have hroom := hdata hs
    rw [List.length_append]
    simp only at hroom ⊢
    omega
  | dataCrlf => exact ⟨rfl, hout, nofun, hseen⟩
  | trailer hs hline hseen' => exact ⟨rfl, hout, fun hstage => absurd (hs.symm.trans hstage) nofun, hseen'⟩

theorem Rest.bounded {c c' : Config} {p : ChunkDecodeProgress} (h : Rest c p c')
    (hc : c.Bounded limits) : c'.Bounded limits := by
  rcases hc with ⟨rfl, hout, hdata, hseen⟩
  cases h with
  | data hs hlen =>
    have hroom := hdata hs
    simp only at hroom hlen
    refine ⟨rfl, ?_, fun _ => ?_, hseen⟩
    · rw [List.length_append]
      simp only
      omega
    · simp only [List.length_append]
      omega
  | lastLine hs hseen' => exact ⟨rfl, hout, nofun, hseen'⟩
  | sizeLine | dataCrlf | trailers | complete => exact ⟨rfl, hout, hdata, hseen⟩

/-- A round that fails changes nothing but the trailer count. -/
theorem error_of_step {c c' : Config} {e : Error} (h : unreadStep c = .inr (.error e, c')) :
    c'.output = c.output ∧ (c'.decoder = c.decoder ∨
      c.decoder.stage = .trailers ∧ ∃ seen ≤ c.decoder.limits.maxTrailerBytes.toNat,
        c'.decoder = { c.decoder with trailerBytesSeen := seen }) := by
  obtain ⟨⟨limits, stage, remaining, seen⟩, input, output⟩ := c
  cases stage with
  | sizeLine =>
    simp only [unreadStep, Config.fail, Config.finish] at h
    split at h
    · split_ifs at h <;> cases h
      exact ⟨rfl, .inl rfl⟩
    · split_ifs at h
      · cases h
        exact ⟨rfl, .inl rfl⟩
      · split at h
        · cases h
          exact ⟨rfl, .inl rfl⟩
        · split_ifs at h
          cases h
          exact ⟨rfl, .inl rfl⟩
  | data =>
    simp only [unreadStep, Config.finish] at h
    split_ifs at h
    cases h
  | dataCrlf =>
    simp only [unreadStep, Config.fail, Config.finish] at h
    split_ifs at h <;> cases h
    exact ⟨rfl, .inl rfl⟩
  | trailers =>
    simp only [unreadStep, Config.fail, Config.finish] at h
    split at h
    · split_ifs at h <;> cases h
      exact ⟨rfl, .inl rfl⟩
    · next line rest hcut =>
      split_ifs at h with hseen hnil hvalid
      · cases h
        exact ⟨rfl, .inl rfl⟩
      · cases h
      · cases h
        rw [Bool.not_eq_true, wouldExceed_eq_false] at hseen
        exact ⟨rfl, .inr ⟨rfl, _, hseen, rfl⟩⟩
  | complete =>
    simp only [unreadStep, Config.finish] at h
    cases h

theorem bounded_of_error {c c' : Config} {e : Error} (h : unreadStep c = .inr (.error e, c'))
    (hc : c.Bounded limits) : c'.Bounded limits := by
  rcases hc with ⟨rfl, hout, hdata, hseen⟩
  rcases error_of_step h with ⟨houtput, hdecoder | ⟨hs, seen, hle, hdecoder⟩⟩
  · refine ⟨congrArg ChunkedDecoder.limits hdecoder, houtput ▸ hout, ?_, ?_⟩
    · rw [hdecoder, houtput]
      exact hdata
    · rw [hdecoder]
      exact hseen
  · refine ⟨?_, houtput ▸ hout, ?_, ?_⟩
    · rw [hdecoder]
    · rw [hdecoder]
      exact fun hstage => absurd (hs.symm.trans hstage) nofun
    · rw [hdecoder]
      exact hle

/-- Whatever a call answers. -/
theorem process_bounded {d : ChunkedDecoder} {input output : Bytes}
    (h : Config.Bounded limits ⟨d, input, output⟩) :
    (d.process input output).2.Bounded limits := by
  have hrun : (unreadLoop.run ⟨d, input, output⟩).2.Bounded limits := by
    refine unreadLoop.run_post (Config.Bounded limits) (fun r => r.2.Bounded limits)
      (fun c c' hc hstep => (round_of_step hstep).bounded hc) ?_ h
    rintro c ⟨e | p, c'⟩ hc hstep
    · exact bounded_of_error hstep hc
    · exact (rest_of_step hstep).bounded hc
  rw [process_eq]
  generalize unreadLoop.run ⟨d, input, output⟩ = r at hrun ⊢
  rcases r with ⟨e | p, c⟩
  · exact ⟨hrun.same, hrun.output, hrun.data, hrun.trailers⟩
  · exact hrun

/-- The input that a call leaves when it asks for more. -/
theorem input_of_needMore {d : ChunkedDecoder} {input output : Bytes} {c : Config}
    (h : d.process input output = (.ok .needMore, c)) :
    c.input.length ≤ max d.limits.maxChunkLineBytes.toNat (max d.limits.maxTrailerBytes.toNat 1) := by
  rcases rest_of_process h with ⟨t, hreach, hrest⟩
  have hlimits : t.decoder.limits = d.limits := (frame_of_reaches hreach).1
  rw [← hlimits]
  cases hrest with
  | sizeLine hs hno hlen => exact hlen.trans (le_max_left _ _)
  | data => exact Nat.zero_le _
  | dataCrlf hs hlen =>
    exact (Nat.le_of_lt_succ hlen).trans ((le_max_right _ _).trans (le_max_right _ _))
  | trailers hs hno hseen =>
    exact ((Nat.le_add_left _ _).trans hseen).trans ((le_max_left _ _).trans (le_max_right _ _))

end ChunkedDecoder

/-! ## The parser -/

namespace ResponseParser

/-- The bounds on the memory of a parser. -/
structure Bounded (p : ResponseParser) : Prop where
  body : p.response.body.length ≤ p.limits.maxBodyBytes.toNat
  length : p.stage = .contentLengthBody →
    p.response.body.length + p.contentLengthRemaining ≤ p.limits.maxBodyBytes.toNat
  chunk : p.chunkedDecoder.stage = .data →
    p.response.body.length + p.chunkedDecoder.chunkRemaining ≤ p.limits.maxBodyBytes.toNat
  trailers : p.chunkedDecoder.trailerBytesSeen ≤ p.limits.maxTrailerBytes.toNat

/-- What makes the bounds last: the body is empty in front of the final head, and only a chunked
body moves the decoder. -/
structure Contained (p : ResponseParser) : Prop extends Bounded p where
  decoderLimits : p.chunkedDecoder.limits = p.limits
  empty : p.stage = .head → p.response.body = []
  idle : p.stage = .head ∨ p.stage = .contentLengthBody ∨ p.stage = .closeDelimitedBody →
    p.chunkedDecoder = { limits := p.limits }

theorem fresh_contained (requestMethod : Method) (limits : ResponseLimits) :
    (fresh requestMethod limits).Contained where
  body := Nat.zero_le _
  length := nofun
  chunk := nofun
  trailers := Nat.zero_le _
  decoderLimits := rfl
  empty _ := rfl
  idle _ := rfl

theorem Contained.push {p : ResponseParser} (b : Bytes) (h : p.Contained) :
    (p.push b).Contained :=
  ⟨⟨h.body, h.length, h.chunk, h.trailers⟩, h.decoderLimits, h.empty, h.idle⟩

/-- A parser that has not left the head stage. -/
theorem Contained.of_head {p p' : ResponseParser} (hp : p.Contained) (hs : p.stage = .head)
    (hlimits : p'.limits = p.limits) (hdecoder : p'.chunkedDecoder = p.chunkedDecoder)
    (hbody : p'.response.body = p.response.body) (hstage : p'.stage ≠ .contentLengthBody) :
    p'.Contained := by
  have hidle := hp.idle (.inl hs)
  have hempty := hp.empty hs
  refine ⟨⟨?_, fun h => absurd h hstage, ?_, ?_⟩, ?_, fun _ => hbody.trans hempty, fun _ => ?_⟩
  · rw [hbody, hempty]
    exact Nat.zero_le _
  · rw [hdecoder, hidle]
    exact nofun
  · rw [hdecoder, hidle]
    exact Nat.zero_le _
  · rw [hdecoder, hlimits]
    exact hp.decoderLimits
  · rw [hdecoder, hlimits]
    exact hidle

/-- What completing a response with its head leaves alone. -/
theorem begin_done {p p' : ResponseParser} {k : BodyFraming} {q : ResponseParseProgress}
    (h : p.begin k = .inr (.ok q, p')) :
    p'.limits = p.limits ∧ p'.chunkedDecoder = p.chunkedDecoder ∧ p'.response = p.response := by
  cases k with
  | none =>
    cases h
    exact ⟨rfl, rfl, rfl⟩
  | chunked | untilClose => cases h
  | length n =>
    unfold begin at h
    simp only [finish] at h
    split_ifs at h
    cases h
    exact ⟨rfl, rfl, rfl⟩

/-- The expected length of a body is within the limit. -/
theorem begin_length {p p' : ResponseParser} {head : ParsedHead} {framing : FramingInfo}
    {k : BodyFraming} {rest : Bytes} (hframed : Framed p.requestMethod head.statusCode framing k)
    (hfits : k.Fits p.limits) (h : (p.final head framing rest).begin k = .inl p')
    (hs : p'.stage = .contentLengthBody) :
    p'.contentLengthRemaining ≤ p.limits.maxBodyBytes.toNat := by
  cases hframed with
  | none => cases h
  | chunked | untilClose =>
    cases h
    cases hs
  | length hterm hte hcl hreset =>
    unfold begin at h
    simp only [finish] at h
    split_ifs at h with hzero
    cases h
    have hstatus : head.statusCode ≠ 205 := fun hs => hzero (hreset hs)
    exact (if_neg hstatus).trans_le hfits

theorem Round.contained {p p' : ResponseParser} (h : Round p p') (hp : p.Contained) :
    p'.Contained := by
  cases h with
  | interim hread =>
    exact hp.of_head hread.stage rfl rfl rfl (by simp [hread.stage])
  | @final _ block rest head framing k hread hfinal hframed hfits hbegin =>
    rcases begin_next hbegin with ⟨-, hlimits, hdecoder, hresponse, -⟩
    have hbody : p'.response.body = p.response.body := by rw [hresponse]; rfl
    by_cases hs : p'.stage = .contentLengthBody
    · have hidle := hp.idle (.inl hread.stage)
      have hempty := hp.empty hread.stage
      have hlength := begin_length hframed hfits hbegin hs
      refine ⟨⟨?_, fun _ => ?_, ?_, ?_⟩, ?_, ?_, fun _ => ?_⟩
      · rw [hbody, hlimits]
        exact hp.body
      · rw [hbody, hempty, hlimits, List.length_nil, Nat.zero_add]
        exact hlength
      · rw [hbody, hdecoder, hlimits]
        exact hp.chunk
      · rw [hdecoder, hlimits]
        exact hp.trailers
      · rw [hdecoder, hlimits]
        exact hp.decoderLimits
      · exact fun h => absurd (hs.symm.trans h) nofun
      · rw [hdecoder, hlimits]
        exact hidle
    · exact hp.of_head hread.stage hlimits hdecoder hbody hs

/-- The decoder has been called. -/
theorem Contained.decoded {p : ResponseParser} {r : Result ChunkDecodeProgress}
    {c : ChunkedDecoder.Config} (hp : p.Contained) (hs : p.stage = .chunkedBody)
    (h : p.chunkedDecoder.process p.buffer p.response.body = (r, c)) : (p.decoded c).Contained := by
  have hbounded : ChunkedDecoder.Config.Bounded p.limits
      ⟨p.chunkedDecoder, p.buffer, p.response.body⟩ :=
    ⟨hp.decoderLimits, hp.body, hp.chunk, hp.trailers⟩
  have hc := ChunkedDecoder.process_bounded hbounded
  rw [h] at hc
  refine ⟨⟨hc.output, ?_, hc.data, hc.trailers⟩, hc.same, ?_, ?_⟩
  · exact fun h => absurd (hs.symm.trans h) nofun
  · exact fun h => absurd (hs.symm.trans h) nofun
  · rintro (h | h | h)
    · exact absurd (hs.symm.trans h) nofun
    · exact absurd (hs.symm.trans h) nofun
    · exact absurd (hs.symm.trans h) nofun

theorem Contained.done {p : ResponseParser} (hp : p.Contained) : p.done.Contained :=
  ⟨⟨hp.body, nofun, hp.chunk, hp.trailers⟩, hp.decoderLimits, nofun, nofun⟩

/-- The buffer has been taken into the body. -/
theorem Contained.taken {p : ResponseParser} (hp : p.Contained)
    (hs : p.stage = .closeDelimitedBody) (htakes : p.Takes) : p.taken.Contained := by
  have hidle := hp.idle (.inr (.inr hs))
  have hne : ∀ {s}, s ≠ .closeDelimitedBody → p.stage ≠ s := fun h heq => h (heq.symm.trans hs)
  refine ⟨⟨?_, fun h => absurd h (hne nofun), ?_, hp.trailers⟩, hp.decoderLimits,
    fun h => absurd h (hne nofun), fun _ => hidle⟩
  · show (p.response.body ++ p.buffer).length ≤ _
    rw [List.length_append]
    by_cases hnil : p.buffer = []
    · rw [hnil]
      exact hp.body
    · exact htakes.room hnil
  · show p.chunkedDecoder.stage = .data → _
    rw [hidle]
    exact nofun

theorem Rest.contained {p p' : ResponseParser} {q : ResponseParseProgress} (h : Rest p q p')
    (hp : p.Contained) : p'.Contained := by
  cases h with
  | head | complete => exact hp
  | headDone hread hfinal hframed hfits hbegin =>
    rcases begin_done hbegin with ⟨hlimits, hdecoder, hresponse⟩
    refine hp.of_head hread.stage hlimits hdecoder (by rw [hresponse]; rfl) ?_
    rw [stage_of_begin hbegin]
    exact nofun
  | length hs hlen =>
    have hroom := hp.length hs
    have hidle := hp.idle (.inr (.inl hs))
    refine ⟨⟨?_, fun _ => ?_, ?_, hp.trailers⟩, hp.decoderLimits, fun h => ?_, fun _ => hidle⟩
    · show (p.response.body ++ p.buffer).length ≤ p.limits.maxBodyBytes.toNat
      rw [List.length_append]
      omega
    · show (p.response.body ++ p.buffer).length + (p.contentLengthRemaining - p.buffer.length) ≤
        p.limits.maxBodyBytes.toNat
      rw [List.length_append]
      omega
    · show p.chunkedDecoder.stage = .data → _
      rw [hidle]
      exact nofun
    · exact absurd (hs.symm.trans h) nofun
  | @lengthDone data rest hs hlen hb =>
    have hroom := hp.length hs
    have hidle := hp.idle (.inr (.inl hs))
    refine ⟨⟨?_, nofun, ?_, hp.trailers⟩, hp.decoderLimits, nofun, nofun⟩
    · show (p.response.body ++ data).length ≤ p.limits.maxBodyBytes.toNat
      rw [List.length_append]
      omega
    · show p.chunkedDecoder.stage = .data → _
      rw [hidle]
      exact nofun
  | closeDelimited hs htakes => exact hp.taken hs htakes
  | chunked hs hdecoded => exact hp.decoded hs hdecoded
  | chunkedDone hs hdecoded => exact (hp.decoded hs hdecoded).done

/-- A call that fails half-way keeps the bounds as well. -/
theorem Fault.contained {p p' : ResponseParser} {e : Error} (h : Fault p e p')
    (hp : p.Contained) : p'.Contained := by
  cases h with
  | headTooLong | closeDelimited => exact hp
  | head hs hcut hstep hleft =>
    have hstage : p.stage ≠ .contentLengthBody := by simp [hs]
    rcases hleft with rfl | rfl | ⟨head, framing, rfl | rfl⟩
    · exact hp
    · exact hp.of_head hs rfl rfl rfl hstage
    · exact hp.of_head hs rfl rfl rfl hstage
    · exact hp.of_head hs rfl rfl rfl hstage
  | chunked hs hdecoded => exact hp.decoded hs hdecoded
  | chunkedForbidden hs hdecoded => exact hp.decoded hs hdecoded

theorem feed_contained {p : ResponseParser} (b : Bytes) (hp : p.Contained) :
    (p.feed b).2.Contained := by
  refine bufferLoop.run_post Contained (fun r => r.2.Contained)
    (fun t t' ht hstep => (round_of_step hstep).contained ht) ?_ (hp.push b)
  rintro t ⟨e | q, t'⟩ ht hstep
  · exact (fault_of_step hstep).contained ht
  · exact (rest_of_step hstep).contained ht

theorem finishEof_contained {p : ResponseParser} (hp : p.Contained) : p.finishEof.2.Contained := by
  unfold finishEof
  cases hs : p.stage with
  | closeDelimitedBody =>
    simp only
    split
    · exact hp
    · next p' htake =>
      rcases takeCloseDelimited_ok_iff.mp htake with ⟨htakes, rfl⟩
      exact (hp.taken hs htakes).done
  | complete | head | contentLengthBody | chunkedBody => exact hp

/-- No call changes the limits. -/
theorem Rest.limits {p p' : ResponseParser} {q : ResponseParseProgress} (h : Rest p q p') :
    p'.limits = p.limits := by
  cases h with
  | headDone hread hfinal hframed hfits hbegin => exact (begin_done hbegin).1
  | head | length | lengthDone | closeDelimited | chunked | chunkedDone | complete => rfl

theorem Fault.limits {p p' : ResponseParser} {e : Error} (h : Fault p e p') :
    p'.limits = p.limits := by
  cases h with
  | head hs hcut hstep hleft => rcases hleft with rfl | rfl | ⟨head, framing, rfl | rfl⟩ <;> rfl
  | headTooLong | closeDelimited | chunked | chunkedForbidden => rfl

theorem feed_limits (p : ResponseParser) (b : Bytes) : (p.feed b).2.limits = p.limits := by
  refine bufferLoop.run_post (fun t => t.limits = p.limits) (fun r => r.2.limits = p.limits) ?_ ?_
    (s := p.push b) rfl
  · rintro t t' ht hstep
    cases round_of_step hstep with
    | interim => exact ht
    | final hread hfinal hframed hfits hbegin => exact (begin_next hbegin).2.1.trans ht
  · rintro t ⟨e | q, t'⟩ ht hstep
    · exact (fault_of_step hstep).limits.trans ht
    · exact (rest_of_step hstep).limits.trans ht

theorem finishEof_limits (p : ResponseParser) : p.finishEof.2.limits = p.limits := by
  unfold finishEof
  cases hs : p.stage with
  | closeDelimitedBody =>
    simp only
    split
    · rfl
    · next p' htake =>
      rcases takeCloseDelimited_ok_iff.mp htake with ⟨-, rfl⟩
      rfl
  | complete | head | contentLengthBody | chunkedBody => rfl

/-- What a call that asks for more leaves pending. -/
theorem pending_of_needMore {p p' : ResponseParser} (hp : p.Contained) (b : Bytes)
    (h : p.feed b = (.ok .needMore, p')) :
    p'.pendingBytes.length ≤ max p'.limits.maxHeadBytes.toNat
      (max p'.limits.maxChunkLineBytes.toNat (max p'.limits.maxTrailerBytes.toNat 1)) := by
  rcases bufferLoop.exists_exit (p.push b) with ⟨t, hreach, hexit⟩
  have ht : t.Contained := hreach.invariant (I := Contained)
    (fun t t' ht hstep => (round_of_step hstep).contained ht) (hp.push b)
  rw [show bufferLoop.run (p.push b) = _ from h] at hexit
  cases rest_of_step hexit with
  | head hs hno hlen => exact hlen.trans (le_max_left _ _)
  | length | closeDelimited => exact Nat.zero_le _
  | chunked hs hdecoded =>
    have hinput := ChunkedDecoder.input_of_needMore hdecoded
    rw [ht.decoderLimits] at hinput
    exact hinput.trans (le_max_right _ _)

/-! ## Any calls -/

inductive Call
  | feed (bytes : Bytes)
  | finishEof

def call (p : ResponseParser) : Call → ParseExit
  | .feed b => p.feed b
  | .finishEof => p.finishEof

/-- The parser behind calls made one after another, whatever they have answered. -/
def afterCalls (p : ResponseParser) (calls : List Call) : ResponseParser :=
  calls.foldl (fun p c => (p.call c).2) p

theorem afterCalls_limits (p : ResponseParser) (calls : List Call) :
    (p.afterCalls calls).limits = p.limits := by
  unfold afterCalls
  induction calls generalizing p with
  | nil => rfl
  | cons c calls ih =>
    rw [List.foldl_cons, ih]
    cases c with
    | feed b => exact feed_limits p b
    | finishEof => exact finishEof_limits p

theorem afterCalls_contained {p : ResponseParser} (calls : List Call) (hp : p.Contained) :
    (p.afterCalls calls).Contained := by
  unfold afterCalls
  induction calls generalizing p with
  | nil => exact hp
  | cons c calls ih =>
    rw [List.foldl_cons]
    cases c with
    | feed b => exact ih (feed_contained b hp)
    | finishEof => exact ih (finishEof_contained hp)

end ResponseParser

end CppRequest
