import CppRequest.MemoryBounds

/-!
# Calls after a refused one

There is no error stage. Whether a parser that has refused something goes on refusing
depends on what it has read before it refused: nothing of it may be left in the buffer
with the stage advanced, and no head may be gone. Where that holds, every later call is
refused as well.
-/

namespace CppRequest

open Search

namespace ChunkedDecoder

/-! ## The decoder -/

/-- The first thing in the input is refused. -/
inductive Refused (c : Config) : Prop
  | longLine (hs : c.decoder.stage = .sizeLine) (hno : cut crlf c.input = none)
      (hlen : c.decoder.limits.maxChunkLineBytes.toNat < c.input.length)
  | line {line rest : Bytes} (hs : c.decoder.stage = .sizeLine)
      (hcut : cut crlf c.input = some (line, rest))
      (hbad : c.decoder.limits.maxChunkLineBytes.toNat < line.length ∨
        (∃ e, parseChunkSize line = .error e) ∨ ∃ size, parseChunkSize line = .ok size ∧
          size ≠ 0 ∧ c.decoder.limits.maxBodyBytes.toNat < c.output.length + size)
  | dataCrlf (hs : c.decoder.stage = .dataCrlf) (hlen : 2 ≤ c.input.length)
      (hne : c.input.take 2 ≠ crlf)
  | longTrailer (hs : c.decoder.stage = .trailers) (hno : cut crlf c.input = none)
      (hlen : c.decoder.limits.maxTrailerBytes.toNat <
        c.decoder.trailerBytesSeen + c.input.length)
  | trailer {line rest : Bytes} (hs : c.decoder.stage = .trailers)
      (hcut : cut crlf c.input = some (line, rest))
      (hbad : c.decoder.limits.maxTrailerBytes.toNat <
          c.decoder.trailerBytesSeen + (line.length + 2) ∨
        line ≠ [] ∧ validTrailerLine line = false)

/-- A size line of the greatest length of which only the LF is missing. -/
structure CutsLine (c : Config) : Prop where
  stage : c.decoder.stage = .sizeLine
  noCrlf : cut crlf c.input = none
  length : c.input.length = c.decoder.limits.maxChunkLineBytes.toNat + 1
  last : c.input.getLast? = some cr

/-- A decoder that refuses the first thing in its input, whatever comes behind it. -/
structure Stuck (c : Config) : Prop where
  refused : Refused c
  whole : ¬ CutsLine c

theorem refused_of_step {c c' : Config} {e : Error} (h : unreadStep c = .inr (.error e, c')) :
    Refused c := by
  cases hs : c.decoder.stage with
  | sizeLine =>
    simp only [unreadStep, hs, Config.fail, Config.finish] at h
    split at h
    · next hno =>
      split_ifs at h with hlen
      · exact .longLine hs hno hlen
      · cases h
    · next line rest hcut =>
      split_ifs at h with hlen
      · exact .line hs hcut (.inl hlen)
      · split at h
        · next e' hsize => exact .line hs hcut (.inr (.inl ⟨e', hsize⟩))
        · next size hsize =>
          split_ifs at h with hbody
          rw [Bool.and_eq_true, bne_iff_ne, wouldExceed_eq_true] at hbody
          exact .line hs hcut (.inr (.inr ⟨size, hsize, hbody⟩))
  | data =>
    simp only [unreadStep, hs, Config.finish] at h
    split_ifs at h
    cases h
  | dataCrlf =>
    simp only [unreadStep, hs, Config.fail, Config.finish] at h
    split_ifs at h with hlen hne
    · cases h
    · rw [bne_iff_ne] at hne
      exact .dataCrlf hs (not_lt.mp hlen) hne
  | trailers =>
    simp only [unreadStep, hs, Config.fail, Config.finish] at h
    split at h
    · next hno =>
      split_ifs at h with hseen
      · exact .longTrailer hs hno (wouldExceed_eq_true.mp hseen)
      · cases h
    · next line rest hcut =>
      split_ifs at h with hseen hnil hvalid
      · exact .trailer hs hcut (.inl (wouldExceed_eq_true.mp hseen))
      · cases h
      · refine .trailer hs hcut (.inr ⟨by simpa using hnil, by simpa using hvalid⟩)
  | complete =>
    simp only [unreadStep, hs, Config.finish] at h
    cases h

theorem Refused.step {c : Config} (h : Refused c) :
    ∃ e input seen, c.decoder.trailerBytesSeen ≤ seen ∧ unreadStep c =
      .inr (.error e, ⟨{ c.decoder with trailerBytesSeen := seen }, input, c.output⟩) := by
  have hkept : ∀ {e : Error}, unreadStep c = c.fail e →
      ∃ e input seen, c.decoder.trailerBytesSeen ≤ seen ∧ unreadStep c =
        .inr (.error e, ⟨{ c.decoder with trailerBytesSeen := seen }, input, c.output⟩) :=
    fun hstep => ⟨_, c.input, c.decoder.trailerBytesSeen, Nat.le_refl _, hstep⟩
  cases h with
  | longLine hs hno hlen =>
    have hstep : unreadStep c = c.fail { code := .responseLimitExceeded } := by
      simp [unreadStep, hs, hno, hlen]
    exact hkept hstep
  | @line line rest hs hcut hbad =>
    by_cases hlen : c.decoder.limits.maxChunkLineBytes.toNat < line.length
    · have hstep : unreadStep c = c.fail { code := .responseLimitExceeded } := by
        simp [unreadStep, hs, hcut, hlen]
      exact hkept hstep
    · rcases hbad.resolve_left hlen with ⟨e, hsize⟩ | ⟨size, hsize, hne, hbody⟩
      · have hstep : unreadStep c = c.fail e := by simp [unreadStep, hs, hcut, hlen, hsize]
        exact hkept hstep
      · have hstep : unreadStep c = c.fail { code := .responseLimitExceeded } := by
          simp [unreadStep, hs, hcut, hlen, hsize, hne, wouldExceed_eq_true.mpr hbody]
        exact hkept hstep
  | dataCrlf hs hlen hne =>
    have hstep : unreadStep c = c.fail { code := .invalidChunkFraming } := by
      simp [unreadStep, hs, not_lt.mpr hlen, substr, hne]
    exact hkept hstep
  | longTrailer hs hno hlen =>
    have hstep : unreadStep c = c.fail { code := .responseLimitExceeded } := by
      simp [unreadStep, hs, hno, wouldExceed_eq_true.mpr hlen]
    exact hkept hstep
  | @trailer line rest hs hcut hbad =>
    by_cases hlen : c.decoder.limits.maxTrailerBytes.toNat <
        c.decoder.trailerBytesSeen + (line.length + 2)
    · have hstep : unreadStep c = c.fail { code := .responseLimitExceeded } := by
        simp [unreadStep, hs, hcut, wouldExceed_eq_true.mpr hlen]
      exact hkept hstep
    · rcases hbad.resolve_left hlen with ⟨hne, hvalid⟩
      refine ⟨{ code := .invalidHeader }, rest, _, Nat.le_add_right _ (line.length + 2), ?_⟩
      simp [unreadStep, hs, hcut, wouldExceed_eq_false.mpr (not_lt.mp hlen), hne, hvalid,
        Config.fail]

/-- A call that is refused at once leaves the input and the output. -/
theorem Refused.process {d : ChunkedDecoder} {input output : Bytes}
    (h : Refused ⟨d, input, output⟩) :
    ∃ e seen, d.trailerBytesSeen ≤ seen ∧
      d.process input output = (.error e, ⟨{ d with trailerBytesSeen := seen }, input, output⟩) := by
  rcases h.step with ⟨e, unread, seen, hseen, hstep⟩
  refine ⟨e, seen, hseen, ?_⟩
  rw [process_eq, unreadLoop.run_of_exit hstep]
  rfl

/-- Counting more trailer bytes does not make a refused input acceptable. -/
theorem Stuck.count {d : ChunkedDecoder} {input output : Bytes} {seen : ℕ}
    (h : Stuck ⟨d, input, output⟩) (hseen : d.trailerBytesSeen ≤ seen) :
    Stuck ⟨{ d with trailerBytesSeen := seen }, input, output⟩ := by
  refine ⟨?_, fun hcuts => h.whole ⟨hcuts.stage, hcuts.noCrlf, hcuts.length, hcuts.last⟩⟩
  cases h.refused with
  | longLine hs hno hlen => exact .longLine hs hno hlen
  | line hs hcut hbad => exact .line hs hcut hbad
  | dataCrlf hs hlen hne => exact .dataCrlf hs hlen hne
  | longTrailer hs hno hlen =>
    exact .longTrailer hs hno (Nat.lt_of_lt_of_le hlen (Nat.add_le_add_right hseen _))
  | trailer hs hcut hbad =>
    refine .trailer hs hcut (hbad.imp_left fun hlen => ?_)
    exact Nat.lt_of_lt_of_le hlen (Nat.add_le_add_right hseen _)

theorem not_cutsLine {c : Config} {stage : ChunkStage} (hs : c.decoder.stage = stage)
    (hne : stage ≠ .sizeLine) : ¬ CutsLine c :=
  fun hcuts => hne (hs.symm.trans hcuts.stage)

/-- More input behind what is refused is refused as well. -/
theorem Stuck.push {c : Config} (b : Bytes) (h : Stuck c) : Stuck (c.push b) := by
  have hlength : (c.push b).input.length = c.input.length + b.length := List.length_append
  cases h.refused with
  | longLine hs hno hlen =>
    rcases eq_or_ne b [] with rfl | hb
    · rw [Config.push, List.append_nil]
      exact h
    have hpos := List.length_pos_iff.mpr hb
    cases hcut : cut crlf (c.input ++ b) with
    | none =>
      refine ⟨.longLine hs hcut ?_, fun hcuts => ?_⟩
      · rw [hlength]
        exact Nat.lt_add_right _ hlen
      · have hlong : (c.push b).input.length = c.decoder.limits.maxChunkLineBytes.toNat + 1 :=
          hcuts.length
        omega
    | some parts =>
      rcases parts with ⟨line, rest⟩
      have hle := cut_push_none hno hcut
      have hlong : c.decoder.limits.maxChunkLineBytes.toNat < line.length := by
        by_contra hshort
        have hline : line.length = c.decoder.limits.maxChunkLineBytes.toNat := by omega
        refine h.whole ⟨hs, hno, by omega, ?_⟩
        -- the input ends between the CR and the LF
        have htake : c.input = line ++ [cr] := by
          have hwhole := congrArg (List.take c.input.length) (cut_eq_some_iff.mp hcut).1
          have hone : c.input.length = (line ++ [cr]).length := by
            rw [List.length_append, List.length_singleton]
            omega
          rw [List.take_left, hone] at hwhole
          rw [hwhole]
          have hcrlf : line ++ (crlf ++ rest) = (line ++ [cr]) ++ lf :: rest := by simp [crlf]
          rw [hcrlf, List.take_left]
        rw [htake, List.getLast?_concat]
      refine ⟨.line hs hcut (.inl hlong), fun hcuts => ?_⟩
      have hnone : cut crlf (c.input ++ b) = none := hcuts.noCrlf
      rw [hcut] at hnone
      cases hnone
  | @line line rest hs hcut hbad =>
    refine ⟨.line hs (cut_append b hcut) hbad, fun hcuts => ?_⟩
    have hnone : cut crlf (c.input ++ b) = none := hcuts.noCrlf
    rw [cut_append b hcut] at hnone
    cases hnone
  | dataCrlf hs hlen hne =>
    refine ⟨.dataCrlf hs ?_ ?_, not_cutsLine hs (by decide)⟩
    · rw [hlength]
      exact Nat.le_add_right_of_le hlen
    · have htake : (c.push b).input.take 2 = c.input.take 2 := List.take_append_of_le_length hlen
      rw [htake]
      exact hne
  | longTrailer hs hno hlen =>
    refine ⟨?_, not_cutsLine hs (by decide)⟩
    cases hcut : cut crlf (c.input ++ b) with
    | none =>
      refine .longTrailer hs hcut ?_
      rw [hlength]
      exact Nat.lt_of_lt_of_le hlen (Nat.add_le_add_left (Nat.le_add_right _ _) _)
    | some parts =>
      rcases parts with ⟨line, rest⟩
      have hle := cut_push_none hno hcut
      refine .trailer hs hcut (.inl ?_)
      exact Nat.lt_of_lt_of_le hlen (Nat.add_le_add_left (by omega) _)
  | trailer hs hcut hbad =>
    exact ⟨.trailer hs (cut_append b hcut) hbad, not_cutsLine hs (by decide)⟩

/-! ## What is delivered is read -/

/-- Reading on takes bytes off the input, and what it appends to the output is among them. -/
def Moves (input output input' output' : Bytes) : Prop :=
  ∃ read data, input = read ++ input' ∧ output' = output ++ data ∧ data.Sublist read

theorem Moves.refl (input output : Bytes) : Moves input output input output :=
  ⟨[], [], rfl, (List.append_nil _).symm, List.Sublist.refl _⟩

theorem Moves.trans {input output input' output' input'' output'' : Bytes}
    (h : Moves input output input' output') (h' : Moves input' output' input'' output'') :
    Moves input output input'' output'' := by
  rcases h with ⟨read, data, rfl, rfl, hdata⟩
  rcases h' with ⟨read', data', rfl, rfl, hdata'⟩
  exact ⟨read ++ read', data ++ data', (List.append_assoc _ _ _).symm, List.append_assoc _ _ _,
    hdata.append hdata'⟩

theorem moves_read (read input output : Bytes) : Moves (read ++ input) output input output :=
  ⟨read, [], rfl, (List.append_nil _).symm, List.nil_sublist _⟩

theorem moves_data (data input output : Bytes) :
    Moves (data ++ input) output input (output ++ data) :=
  ⟨data, data, rfl, rfl, List.Sublist.refl _⟩

theorem Round.moves {c c' : Config} (h : Round c c') :
    Moves c.input c.output c'.input c'.output := by
  cases h with
  | @size d line rest output =>
    have hmoves := moves_read (line ++ crlf) rest output
    rwa [List.append_assoc] at hmoves
  | @data d data rest output => exact moves_data data rest output
  | @dataCrlf d rest output => exact moves_read crlf rest output
  | @trailer d line rest output =>
    have hmoves := moves_read (line ++ crlf) rest output
    rwa [List.append_assoc] at hmoves

theorem Rest.moves {c c' : Config} {p : ChunkDecodeProgress} (h : Rest c p c') :
    Moves c.input c.output c'.input c'.output := by
  cases h with
  | sizeLine | dataCrlf | trailers | complete => exact .refl _ _
  | @data d input output =>
    have hmoves := moves_data input [] output
    rwa [List.append_nil] at hmoves
  | @lastLine d rest output => exact moves_read crlf rest output

theorem moves_of_reaches {c c' : Config} (h : unreadLoop.Reaches c c') :
    Moves c.input c.output c'.input c'.output :=
  h.invariant (I := fun t => Moves c.input c.output t.input t.output)
    (fun _ _ ht hstep => ht.trans (round_of_step hstep).moves) (.refl _ _)

theorem moves_of_process {d : ChunkedDecoder} {input output : Bytes} {p : ChunkDecodeProgress}
    {c : Config} (h : d.process input output = (.ok p, c)) :
    Moves input output c.input c.output := by
  rcases rest_of_process h with ⟨t, hreach, hrest⟩
  exact (moves_of_reaches hreach).trans hrest.moves

/-- A call that is refused at once, or only behind something it has read. -/
theorem refused_of_process {d : ChunkedDecoder} {input output : Bytes} {e : Error} {c : Config}
    (h : d.process input output = (.error e, c)) :
    output <+: c.output ∧ (Refused ⟨d, input, output⟩ ∨ ∃ c₁ c₂, Round ⟨d, input, output⟩ c₁ ∧
      unreadLoop.Reaches c₁ c₂ ∧ Refused c₂) := by
  rw [process_eq] at h
  rcases unreadLoop.exists_exit ⟨d, input, output⟩ with ⟨t, hreach, hexit⟩
  rcases hresult : unreadLoop.run ⟨d, input, output⟩ with ⟨e' | q, c'⟩
  · rw [hresult] at h hexit
    cases h
    have hrefused := refused_of_step hexit
    refine ⟨?_, ?_⟩
    · have houtput : c'.output = t.output := (error_of_step hexit).1
      rw [houtput]
      exact (frame_of_reaches hreach).2.2
    · rcases Relation.ReflTransGen.cases_head hreach with rfl | ⟨c₁, hstep, hreach'⟩
      · exact .inl hrefused
      · exact .inr ⟨c₁, t, round_of_step hstep, hreach', hrefused⟩
  · rw [hresult] at h
    cases h

end ChunkedDecoder

/-! ## The parser -/

namespace ResponseParser

/-- The head that has been read is refused for its framing, its status or its length. -/
def HeadRefused (p : ResponseParser) (head : ParsedHead) : Prop :=
  ∀ framing, analyzeFraming head.headers = .ok framing →
    (isInterimStatus head.statusCode = true →
      framing.contentLengthCount ≠ 0 ∨ framing.transferEncodingFields ≠ 0) ∧
    (isInterimStatus head.statusCode = false →
      ∀ k, Framed p.requestMethod head.statusCode framing k → ¬ k.Fits p.limits)

/-- The states in which something is refused that does not stay in front of the parser. -/
inductive Ambiguous (p : ResponseParser) : Prop
  | head {block rest : Bytes} {head : ParsedHead} (hs : p.stage = .head)
      (hcut : cut crlfcrlf p.buffer = some (block, rest))
      (hwithin : block.length + 4 ≤ p.limits.maxHeadBytes.toNat)
      (hparses : parseHead block = .ok head) (hrefused : p.HeadRefused head)
  | chunked {c c' : ChunkedDecoder.Config} (hs : p.stage = .chunkedBody)
      (hround : ChunkedDecoder.Round ⟨p.chunkedDecoder, p.buffer, p.response.body⟩ c)
      (hreach : ChunkedDecoder.unreadLoop.Reaches c c') (hrefused : ChunkedDecoder.Refused c')
  | sizeLine (hs : p.stage = .chunkedBody)
      (hcuts : ChunkedDecoder.CutsLine ⟨p.chunkedDecoder, p.buffer, p.response.body⟩)

/-- A parser that refuses whatever comes. -/
inductive Stuck (p : ResponseParser) : Prop
  | headTooLong (hs : p.stage = .head) (hno : cut crlfcrlf p.buffer = none)
      (hlen : p.limits.maxHeadBytes.toNat < p.buffer.length)
  | head {block rest : Bytes} (hs : p.stage = .head)
      (hcut : cut crlfcrlf p.buffer = some (block, rest))
      (hbad : p.limits.maxHeadBytes.toNat < block.length + 4 ∨ ∃ e, parseHead block = .error e)
  | closeDelimited {code : ErrorCode} (hs : p.stage = .closeDelimitedBody)
      (htake : p.takeCloseDelimited = .error code)
  | chunked (hs : p.stage = .chunkedBody)
      (hstuck : ChunkedDecoder.Stuck ⟨p.chunkedDecoder, p.buffer, p.response.body⟩)
  | forbidden (hs : p.stage = .chunkedBody) (hforbidden : p.bodyForbidden = true)
      (hbody : p.response.body ≠ [])

theorem Stuck.not_complete {p : ResponseParser} (h : p.Stuck) :
    p.isComplete = false ∧ p.connectionReusable = false := by
  have hopen : p.isComplete = false := by
    unfold isComplete
    cases h with
    | headTooLong hs | head hs | closeDelimited hs | chunked hs | forbidden hs =>
      rw [hs]
      rfl
  exact ⟨hopen, by rw [connectionReusable, hopen]; rfl⟩

/-- The end of input is an error, too. -/
theorem Stuck.finishEof {p : ResponseParser} (h : p.Stuck) : ∃ e, p.finishEof = (.error e, p) := by
  unfold ResponseParser.finishEof
  cases h with
  | headTooLong hs | head hs | chunked hs | forbidden hs =>
    rw [hs]
    exact ⟨_, rfl⟩
  | closeDelimited hs htake =>
    rw [hs, htake]
    exact ⟨_, rfl⟩

theorem Stuck.push {p : ResponseParser} (b : Bytes) (h : p.Stuck) : (p.push b).Stuck := by
  cases h with
  | headTooLong hs hno hlen =>
    have hlength : (p.push b).buffer.length = p.buffer.length + b.length := List.length_append
    cases hcut : cut crlfcrlf (p.buffer ++ b) with
    | none =>
      refine .headTooLong hs hcut ?_
      rw [hlength]
      exact Nat.lt_add_right _ hlen
    | some parts =>
      rcases parts with ⟨block, rest⟩
      have hlt := length_lt_of_cut_append hno hcut
      exact .head hs hcut (.inl (hlen.trans hlt))
  | head hs hcut hbad => exact .head hs (cut_append b hcut) hbad
  | closeDelimited hs htake => exact .closeDelimited hs (takeCloseDelimited_error_push b htake)
  | chunked hs hstuck => exact .chunked hs (hstuck.push b)
  | forbidden hs hforbidden hbody => exact .forbidden hs hforbidden hbody

/-- A call on a parser that is stuck. -/
theorem Stuck.run {p : ResponseParser} (h : p.Stuck) :
    ∃ e p', bufferLoop.run p = (.error e, p') ∧ p'.Stuck := by
  cases h with
  | headTooLong hs hno hlen =>
    exact ⟨_, p, (Fault.headTooLong hs (cut_eq_none_iff.mp hno) hlen).run, .headTooLong hs hno hlen⟩
  | @head block rest hs hcut hbad =>
    have hstep := bufferStep_head hs
    simp only [hcut] at hstep
    by_cases hlimit : wouldExceed block.length 4 p.limits.maxHeadBytes.toNat = true
    · rw [if_pos hlimit] at hstep
      exact ⟨_, p, bufferLoop.run_of_exit hstep, .head hs hcut hbad⟩
    · rw [if_neg hlimit] at hstep
      rw [Bool.not_eq_true, wouldExceed_eq_false] at hlimit
      rcases hbad.resolve_left (not_lt.mpr hlimit) with ⟨e, hparse⟩
      rw [hparse] at hstep
      exact ⟨e, p, bufferLoop.run_of_exit hstep, .head hs hcut hbad⟩
  | closeDelimited hs htake =>
    exact ⟨_, p, (Fault.closeDelimited hs htake).run, .closeDelimited hs htake⟩
  | chunked hs hstuck =>
    rcases hstuck.refused.process with ⟨e, seen, hseen, hprocess⟩
    exact ⟨e, _, (Fault.chunked hs hprocess).run, .chunked hs (hstuck.count hseen)⟩
  | forbidden hs hforbidden hbody =>
    have hdata : ∀ {output : Bytes}, p.response.body <+: output → output ≠ [] :=
      fun hgrows hnil => hbody (List.prefix_nil.mp (hnil ▸ hgrows))
    rcases hdecoded : p.chunkedDecoder.process p.buffer p.response.body with ⟨e | q, c⟩
    · have hgrows := (ChunkedDecoder.refused_of_process hdecoded).1
      exact ⟨e, _, (Fault.chunked hs hdecoded).run, .forbidden hs hforbidden (hdata hgrows)⟩
    · have hgrows := ChunkedDecoder.output_grows hdecoded
      exact ⟨_, _, (Fault.chunkedForbidden hs hdecoded hforbidden (hdata hgrows)).run,
        .forbidden hs hforbidden (hdata hgrows)⟩

/-! ## What a call moves -/

/-- What a parser appends to the body it takes off the buffer. -/
def Moves (p p' : ResponseParser) : Prop :=
  ChunkedDecoder.Moves p.buffer p.response.body p'.buffer p'.response.body

theorem begin_moves {p p' : ResponseParser} {k : BodyFraming} {q : ResponseParseProgress}
    (h : p.begin k = .inl p' ∨ p.begin k = .inr (.ok q, p')) :
    p'.buffer = p.buffer ∧ p'.response.body = p.response.body := by
  cases k with
  | none | chunked | untilClose =>
    rcases h with h | h <;> cases h
    exact ⟨rfl, rfl⟩
  | length n =>
    unfold begin at h
    simp only at h
    split_ifs at h
    all_goals
      rcases h with h | h <;> cases h
      exact ⟨rfl, rfl⟩

theorem HeadRead.moves {p p' : ResponseParser} {block rest : Bytes} {head : ParsedHead}
    {framing : FramingInfo} (h : HeadRead p block rest head framing)
    (hp' : p'.buffer = rest ∧ p'.response.body = p.response.body) : p.Moves p' := by
  unfold Moves
  rw [h.buffer, hp'.1, hp'.2]
  have hmoves := ChunkedDecoder.moves_read (block ++ crlfcrlf) rest p.response.body
  rwa [List.append_assoc] at hmoves

theorem Round.moves {p p' : ResponseParser} (h : Round p p') : p.Moves p' := by
  cases h with
  | interim hread => exact hread.moves ⟨rfl, rfl⟩
  | final hread hfinal hframed hfits hbegin =>
    exact hread.moves (begin_moves (q := .complete) (.inl hbegin))

theorem taken_moves (p : ResponseParser) : p.Moves p.taken := by
  have hmoves := ChunkedDecoder.moves_data p.buffer [] p.response.body
  rwa [List.append_nil] at hmoves

theorem Rest.moves {p p' : ResponseParser} {q : ResponseParseProgress} (h : Rest p q p') :
    p.Moves p' := by
  cases h with
  | head | complete => exact .refl _ _
  | headDone hread hfinal hframed hfits hbegin => exact hread.moves (begin_moves (.inr hbegin))
  | length | closeDelimited => exact taken_moves p
  | lengthDone hs hlen hb =>
    unfold Moves
    rw [hb]
    exact ChunkedDecoder.moves_data _ _ _
  | chunked hs hdecoded | chunkedDone hs hdecoded => exact ChunkedDecoder.moves_of_process hdecoded

/-- The round that has read a head and fails. -/
theorem HeadRead.refused {p p' : ResponseParser} {block rest : Bytes} {head : ParsedHead}
    {framing : FramingInfo} {e : Error} (h : HeadRead p block rest head framing)
    (hstep : bufferStep p = .inr (.error e, p')) :
    (isInterimStatus head.statusCode = true →
      framing.contentLengthCount ≠ 0 ∨ framing.transferEncodingFields ≠ 0) ∧
    (isInterimStatus head.statusCode = false →
      ∀ k, Framed p.requestMethod head.statusCode framing k → ¬ k.Fits p.limits) := by
  constructor
  · intro hinterim
    rw [h.step, if_pos hinterim] at hstep
    split_ifs at hstep with hframing
    simpa using hframing
  · intro hfinal k hframed hfits
    rw [h.step_final hfinal hframed hfits] at hstep
    rcases begin_cases (p.final head framing rest) k with ⟨q, hbegin⟩ | ⟨q, hbegin⟩
    · rw [hbegin] at hstep
      cases hstep
    · rw [hbegin] at hstep
      cases hstep

/-- A fault that is not ambiguous takes nothing off the buffer that it does not keep account of, and
leaves a parser that is stuck. -/
theorem Fault.stuck {p p' : ResponseParser} {e : Error} (h : Fault p e p') (hclear : ¬ p.Ambiguous) :
    p.Moves p' ∧ p'.Stuck := by
  cases h with
  | headTooLong hs hno hlen =>
    exact ⟨.refl _ _, .headTooLong hs (cut_eq_none_iff.mpr hno) hlen⟩
  | @head _ block rest _ hs hcut hstep hleft =>
    have hstep' := bufferStep_head hs
    simp only [hcut] at hstep'
    by_cases hlimit : wouldExceed block.length 4 p.limits.maxHeadBytes.toNat = true
    · rw [if_pos hlimit, hstep] at hstep'
      cases hstep'
      exact ⟨.refl _ _, .head hs hcut (.inl (wouldExceed_eq_true.mp hlimit))⟩
    · rw [if_neg hlimit, hstep] at hstep'
      rw [Bool.not_eq_true, wouldExceed_eq_false] at hlimit
      cases hparse : parseHead block with
      | error e' =>
        rw [hparse] at hstep'
        cases hstep'
        exact ⟨.refl _ _, .head hs hcut (.inr ⟨_, hparse⟩)⟩
      | ok head =>
        refine absurd (.head hs hcut hlimit hparse fun framing hframing => ?_) hclear
        rcases cut_eq_some_iff.mp hcut with ⟨hbuffer, hleads⟩
        exact HeadRead.refused ⟨hs, hbuffer, hleads, hlimit, hparse, hframing⟩ hstep
  | closeDelimited hs htake => exact ⟨.refl _ _, .closeDelimited hs htake⟩
  | @chunked c _ hs hdecoded =>
    rcases (ChunkedDecoder.refused_of_process hdecoded).2 with hrefused | ⟨c₁, c₂, hround, hreach, hbad⟩
    · rcases hrefused.process with ⟨e', seen, hseen, hprocess⟩
      rw [hdecoded] at hprocess
      cases hprocess
      have hstuck : ChunkedDecoder.Stuck ⟨p.chunkedDecoder, p.buffer, p.response.body⟩ :=
        ⟨hrefused, fun hcuts => hclear (.sizeLine hs hcuts)⟩
      exact ⟨.refl _ _, .chunked hs (hstuck.count hseen)⟩
    · exact absurd (.chunked hs hround hreach hbad) hclear
  | chunkedForbidden hs hdecoded hforbidden hdata =>
    exact ⟨ChunkedDecoder.moves_of_process hdecoded, .forbidden hs hforbidden hdata⟩

/-! ## Runs -/

/-- What a call has to read. -/
def offered (p : ResponseParser) : Call → ResponseParser
  | .feed b => p.push b
  | .finishEof => p

/-- A call that is not refused in an ambiguous state. -/
def Clear (p : ResponseParser) : Call → Prop
  | .feed b => ∀ t, bufferLoop.Reaches (p.push b) t → ¬ t.Ambiguous
  | .finishEof => True

theorem moves_of_reaches {p t : ResponseParser} (h : bufferLoop.Reaches p t) : p.Moves t :=
  h.invariant (I := fun t => p.Moves t) (fun _ _ ht hstep => ht.trans (round_of_step hstep).moves)
    (.refl _ _)

theorem finishEof_moves (p : ResponseParser) : p.Moves p.finishEof.2 := by
  unfold finishEof
  cases hs : p.stage with
  | closeDelimitedBody =>
    simp only
    cases htake : p.takeCloseDelimited with
    | error code => exact .refl _ _
    | ok p' =>
      cases (takeCloseDelimited_ok_iff.mp htake).2
      exact taken_moves p
  | head | contentLengthBody | chunkedBody | complete => exact .refl _ _

/-- A clear call moves what it delivers, and leaves a parser that is stuck if it is refused. -/
theorem Clear.call {p : ResponseParser} {c : Call} (h : p.Clear c) :
    (p.offered c).Moves (p.call c).2 ∧
      ∀ b e, c = .feed b → (p.call c).1 = .error e → (p.call c).2.Stuck := by
  cases c with
  | finishEof => exact ⟨finishEof_moves p, nofun⟩
  | feed b =>
    rcases bufferLoop.exists_exit (p.push b) with ⟨t, hreach, hexit⟩
    have hcall : p.call (.feed b) = bufferLoop.run (p.push b) := rfl
    rw [hcall]
    have hmoves : (p.push b).Moves t := moves_of_reaches hreach
    rcases hrun : bufferLoop.run (p.push b) with ⟨e | q, p'⟩
    · rw [hrun] at hexit
      rcases (fault_of_step hexit).stuck (h t hreach) with ⟨hmoves', hstuck⟩
      exact ⟨hmoves.trans hmoves', fun _ _ _ _ => hstuck⟩
    · rw [hrun] at hexit
      exact ⟨hmoves.trans (rest_of_step hexit).moves, nofun⟩

theorem Stuck.call {p : ResponseParser} (c : Call) (h : p.Stuck) :
    (∃ e, (p.call c).1 = .error e) ∧ (p.call c).2.Stuck := by
  cases c with
  | feed b =>
    rcases (h.push b).run with ⟨e, p', hrun, hstuck⟩
    have hcall : p.call (.feed b) = bufferLoop.run (p.push b) := rfl
    rw [hcall, hrun]
    exact ⟨⟨e, rfl⟩, hstuck⟩
  | finishEof =>
    rcases h.finishEof with ⟨e, heof⟩
    have hcall : p.call .finishEof = p.finishEof := rfl
    rw [hcall, heof]
    exact ⟨⟨e, rfl⟩, h⟩

theorem Stuck.afterCalls {p : ResponseParser} (calls : List Call) (h : p.Stuck) :
    (p.afterCalls calls).Stuck := by
  unfold ResponseParser.afterCalls
  induction calls generalizing p with
  | nil => exact h
  | cons c calls ih => exact ih (h.call c).2

theorem afterCalls_append (p : ResponseParser) (calls calls' : List Call) :
    p.afterCalls (calls ++ calls') = (p.afterCalls calls).afterCalls calls' := List.foldl_append

/-- Calls of `feed` only. -/
theorem feedEach_afterCalls (p : ResponseParser) (pieces : List Bytes) :
    (p.feedEach pieces).2 = p.afterCalls (pieces.map .feed) := by
  induction pieces generalizing p with
  | nil => rfl
  | cons b pieces ih => exact ih (p.feed b).2

theorem Stuck.feedEach {p : ResponseParser} (pieces : List Bytes) (h : p.Stuck) :
    (p.feedEach pieces).2.Stuck := by
  rw [feedEach_afterCalls]
  exact h.afterCalls _

/-- The error of a feed call is final: no later call completes, the response stays incomplete, and
every byte that a call delivers to the body is taken off the buffer by that call, so that no later
call delivers it again. -/
structure ErrorsFinal (requestMethod : Method) (limits : ResponseLimits) (calls : List Call) :
    Prop where
  later : ∀ before b after e, calls = before ++ .feed b :: after →
    (((fresh requestMethod limits).afterCalls before).feed b).1 = .error e →
    ∀ between, between <+: after →
      ((fresh requestMethod limits).afterCalls (before ++ .feed b :: between)).isComplete = false ∧
      ((fresh requestMethod limits).afterCalls
        (before ++ .feed b :: between)).connectionReusable = false ∧
      ∀ c, between ++ [c] <+: after →
        (((fresh requestMethod limits).afterCalls
          (before ++ .feed b :: between)).call c).1 ≠ .ok .complete
  once : ∀ before c after, calls = before ++ c :: after →
    (((fresh requestMethod limits).afterCalls before).offered c).Moves
      ((fresh requestMethod limits).afterCalls (before ++ [c]))

/-- Errors are final in every run of calls that are clear. -/
theorem errors_final (requestMethod : Method) (limits : ResponseLimits) (calls : List Call)
    (hclear : ∀ before c after, calls = before ++ c :: after →
      ((fresh requestMethod limits).afterCalls before).Clear c) :
    ErrorsFinal requestMethod limits calls := by
  constructor
  · intro before b after e hcalls herror between hbetween
    have hone := (hclear before (.feed b) after hcalls).call.2 b e rfl herror
    have hstuck : ((fresh requestMethod limits).afterCalls (before ++ .feed b :: between)).Stuck := by
      rw [afterCalls_append]
      exact hone.afterCalls between
    refine ⟨hstuck.not_complete.1, hstuck.not_complete.2, fun c _ hanswer => ?_⟩
    rcases (hstuck.call c).1 with ⟨e', hcall⟩
    rw [hcall] at hanswer
    cases hanswer
  · intro before c after hcalls
    have hmoves := (hclear before c after hcalls).call.1
    rw [afterCalls_append]
    exact hmoves

/-- Input behind a head block that is too long or does not parse. -/
theorem clear_of_refused_head {p : ResponseParser} {b : Bytes} (block rest : Bytes)
    (hs : p.stage = .head) (hcut : cut crlfcrlf (p.buffer ++ b) = some (block, rest))
    (hbad : p.limits.maxHeadBytes.toNat < block.length + 4 ∨ ∃ e, parseHead block = .error e) :
    p.Clear (.feed b) := by
  have hexit : ∃ e', bufferStep (p.push b) = .inr (.error e', p.push b) := by
    have hstep := bufferStep_head (p := p.push b) hs
    have hcut' : cut crlfcrlf (p.push b).buffer = some (block, rest) := hcut
    rw [hcut'] at hstep
    simp only at hstep
    split_ifs at hstep with hlimit
    · exact ⟨_, hstep⟩
    · rw [Bool.not_eq_true, wouldExceed_eq_false] at hlimit
      rcases hbad.resolve_left (not_lt.mpr hlimit) with ⟨e, hparse⟩
      rw [hparse] at hstep
      exact ⟨e, hstep⟩
  rcases hexit with ⟨e', hexit⟩
  intro t ht hbad
  have hfirst : p.push b = t := by
    rcases Relation.ReflTransGen.cases_head ht with heq | ⟨p', hstep, -⟩
    · exact heq
    · exact absurd (hexit.symm.trans hstep) Sum.inr_ne_inl
  subst hfirst
  cases hbad with
  | head hs' hcut' hwithin hparses hrefused =>
    cases hcut.symm.trans hcut'
    rcases hbad.resolve_left (not_lt.mpr hwithin) with ⟨e, hparse⟩
    cases hparse.symm.trans hparses
  | chunked hs' | sizeLine hs' => exact absurd (hs.symm.trans hs') (by decide)

/-- The head stays in the buffer, so that the well-formed one behind it is refused, too. -/
theorem errors_final_malformed : ErrorsFinal .get {}
    [.feed (bytes "HTTP/2 200 OK\r\n\r\n"), .feed (bytes "HTTP/1.1 200 OK\r\n\r\n")] := by
  refine errors_final .get {} _ fun before c after h => ?_
  rcases before with _ | ⟨c₁, _ | ⟨c₂, before⟩⟩
  · cases h
    exact clear_of_refused_head (bytes "HTTP/2 200 OK") [] (by decide +kernel) (by decide +kernel)
      (.inr ⟨{ code := .invalidStatusLine }, by decide +kernel⟩)
  · cases h
    exact clear_of_refused_head (bytes "HTTP/2 200 OK") (bytes "HTTP/1.1 200 OK\r\n\r\n")
      (by decide +kernel) (by decide +kernel)
      (.inr ⟨{ code := .invalidStatusLine }, by decide +kernel⟩)
  · exact absurd (congrArg List.length h) (by simp)

/-- A response whose Content-Length is no number, and behind it one that is well formed. -/
def twoHeads : List Call :=
  [.feed (bytes "HTTP/1.1 200 OK\r\nContent-Length: x\r\n\r\n"),
    .feed (bytes "HTTP/1.1 200 OK\r\nContent-Length: 0\r\n\r\n")]

/-- The refused head is gone, and the next call completes. -/
theorem head_behind_refused_head : ¬ ErrorsFinal .get {} twoHeads := by
  intro h
  have herror : ((fresh .get {}).feed
      (bytes "HTTP/1.1 200 OK\r\nContent-Length: x\r\n\r\n")).1 =
        .error { code := .invalidContentLength } := by decide +kernel
  have hlater := h.later [] _ _ _ rfl herror _ List.prefix_rfl
  exact absurd hlater.1 (by decide +kernel)

end ResponseParser

end CppRequest
