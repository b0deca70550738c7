import CppRequest.UnreadInput

/-!
# What one round of the decoder can do

`Round` and `Rest` list the ways the loop over unread input goes round and the ways
it returns without an error, with everything each of them checks. Later results
argue from these lists and never open `unreadStep` again.
-/

namespace CppRequest.ChunkedDecoder

open Search

inductive Round : Config → Config → Prop
  | size {d : ChunkedDecoder} {line rest output : Bytes} {size : ℕ} (hs : d.stage = .sizeLine)
      (hline : Leads crlf line) (hlen : line.length ≤ d.limits.maxChunkLineBytes.toNat)
      (hsize : parseChunkSize line = .ok size)
      (hbody : size = 0 ∨ output.length + size ≤ d.limits.maxBodyBytes.toNat) :
      Round ⟨d, line ++ (crlf ++ rest), output⟩
        ⟨{ d with chunkRemaining := size, stage := afterSize size }, rest, output⟩
  | data {d : ChunkedDecoder} {data rest output : Bytes} (hs : d.stage = .data)
      (hlen : data.length = d.chunkRemaining) :
      Round ⟨d, data ++ rest, output⟩
        ⟨{ d with chunkRemaining := 0, stage := .dataCrlf }, rest, output ++ data⟩
  | dataCrlf {d : ChunkedDecoder} {rest output : Bytes} (hs : d.stage = .dataCrlf) :
      Round ⟨d, crlf ++ rest, output⟩ ⟨{ d with stage := .sizeLine }, rest, output⟩
  | trailer {d : ChunkedDecoder} {line rest output : Bytes} (hs : d.stage = .trailers)
      (hline : Leads crlf line)
      (hseen : d.trailerBytesSeen + (line.length + 2) ≤ d.limits.maxTrailerBytes.toNat)
      (hvalid : validTrailerLine line = true) :
      Round ⟨d, line ++ (crlf ++ rest), output⟩
        ⟨{ d with trailerBytesSeen := d.trailerBytesSeen + (line.length + 2) }, rest, output⟩

inductive Rest : Config → ChunkDecodeProgress → Config → Prop
  | sizeLine {d : ChunkedDecoder} {input output : Bytes} (hs : d.stage = .sizeLine)
      (hno : ¬ crlf <:+: input) (hlen : input.length ≤ d.limits.maxChunkLineBytes.toNat) :
      Rest ⟨d, input, output⟩ .needMore ⟨d, input, output⟩
  | data {d : ChunkedDecoder} {input output : Bytes} (hs : d.stage = .data)
      (hlen : input.length < d.chunkRemaining) :
      Rest ⟨d, input, output⟩ .needMore
        ⟨{ d with chunkRemaining := d.chunkRemaining - input.length }, [], output ++ input⟩
  | dataCrlf {d : ChunkedDecoder} {input output : Bytes} (hs : d.stage = .dataCrlf)
      (hlen : input.length < 2) : Rest ⟨d, input, output⟩ .needMore ⟨d, input, output⟩
  | trailers {d : ChunkedDecoder} {input output : Bytes} (hs : d.stage = .trailers)
      (hno : ¬ crlf <:+: input)
      (hseen : d.trailerBytesSeen + input.length ≤ d.limits.maxTrailerBytes.toNat) :
      Rest ⟨d, input, output⟩ .needMore ⟨d, input, output⟩
  | lastLine {d : ChunkedDecoder} {rest output : Bytes} (hs : d.stage = .trailers)
      (hseen : d.trailerBytesSeen + 2 ≤ d.limits.maxTrailerBytes.toNat) :
      Rest ⟨d, crlf ++ rest, output⟩ .complete
        ⟨{ d with trailerBytesSeen := d.trailerBytesSeen + 2, stage := .complete }, rest, output⟩
  | complete {d : ChunkedDecoder} {input output : Bytes} (hs : d.stage = .complete) :
      Rest ⟨d, input, output⟩ .complete ⟨d, input, output⟩

theorem leads_nil : Leads crlf ([] : Bytes) := fun i hi => absurd hi (Nat.not_lt_zero i)

theorem validTrailerLine_ne_nil {line : Bytes} (h : validTrailerLine line = true) : line ≠ [] := by
  rintro rfl
  simp [validTrailerLine] at h

/-- The limit test on a chunk size, without the subtraction. -/
theorem size_within_iff {size current limit : ℕ} :
    (size != 0 && wouldExceed current size limit) = false ↔
      size = 0 ∨ current + size ≤ limit := by
  rw [Bool.and_eq_false_iff, wouldExceed_eq_false, bne_eq_false_iff_eq]

theorem Round.step {c c' : Config} (h : Round c c') : unreadStep c = .inl c' := by
  cases h with
  | size hs hline hlen hsize hbody =>
    simp only [unreadStep, hs, cut_leads _ hline, hsize, size_within_iff.mpr hbody,
      if_neg (not_lt.mpr hlen)]
    rfl
  | data hs hlen => simp [unreadStep, hs, ← hlen]
  | dataCrlf hs =>
    simp [unreadStep, hs, crlf, substr]
  | trailer hs hline hseen hvalid =>
    have hne := validTrailerLine_ne_nil hvalid
    simp [unreadStep, hs, cut_leads _ hline, wouldExceed_eq_false.mpr hseen, hvalid, hne]

theorem Rest.step {c c' : Config} {p : ChunkDecodeProgress} (h : Rest c p c') :
    unreadStep c = .inr (.ok p, c') := by
  cases h with
  | sizeLine hs hno hlen =>
    simp [unreadStep, hs, cut_eq_none_iff.mpr hno, Config.finish, not_lt.mpr hlen]
  | @data d input output hs hlen =>
    have hmin : min d.chunkRemaining input.length = input.length := by omega
    have hne : d.chunkRemaining - input.length ≠ 0 := by omega
    simp [unreadStep, hs, hmin, hne, Config.finish]
  | dataCrlf hs hlen => simp [unreadStep, hs, hlen, Config.finish]
  | trailers hs hno hseen =>
    simp [unreadStep, hs, cut_eq_none_iff.mpr hno, Config.finish, wouldExceed_eq_false.mpr hseen]
  | @lastLine d rest output hs hseen =>
    have hcut : cut crlf (crlf ++ rest) = some ([], rest) := cut_leads rest leads_nil
    simp [unreadStep, hs, hcut, Config.finish, wouldExceed_eq_false.mpr hseen]
  | complete hs => simp [unreadStep, hs, Config.finish]

theorem round_of_step {c c' : Config} (h : unreadStep c = .inl c') : Round c c' := by
  obtain ⟨d, input, output⟩ := c
  cases hs : d.stage with
  | sizeLine =>
    simp only [unreadStep, hs, Config.fail, Config.finish] at h
    split at h
    · split_ifs at h
    · next line rest hcut =>
      obtain ⟨rfl, hline⟩ := cut_eq_some_iff.mp hcut
      split_ifs at h with hlen
      split at h
      · cases h
      · next size hsize =>
        split_ifs at h with hbody
        cases h
        exact .size hs hline (not_lt.mp hlen) hsize
          (size_within_iff.mp (Bool.eq_false_iff.mpr hbody))
  | data =>
    simp only [unreadStep, hs, Config.finish] at h
    split_ifs at h with hrem
    have hle : d.chunkRemaining ≤ input.length := by
      simp only [bne_iff_ne, ne_eq, not_not] at hrem
      omega
    have hround := @Round.data d _ (input.drop d.chunkRemaining) output hs
      (List.length_take_of_le hle)
    rw [List.take_append_drop] at hround
    cases h
    simpa [Nat.min_eq_left hle] using hround
  | dataCrlf =>
    simp only [unreadStep, hs, Config.fail, Config.finish] at h
    split_ifs at h with hlen hne
    cases h
    have hpre : input = crlf ++ input.drop 2 := by
      rw [bne_iff_ne, ne_eq, not_not] at hne
      rw [← hne]
      exact (List.take_append_drop 2 input).symm
    have hround := @Round.dataCrlf d (input.drop 2) output hs
    rwa [← hpre] at hround
  | trailers =>
    simp only [unreadStep, hs, Config.fail, Config.finish] at h
    split at h
    · split_ifs at h
    · next line rest hcut =>
      obtain ⟨rfl, hline⟩ := cut_eq_some_iff.mp hcut
      split_ifs at h with hseen hnil hvalid
      cases h
      rw [Bool.not_eq_true', Bool.not_eq_false] at hvalid
      simpa [hs] using @Round.trailer d line rest output hs hline
        (wouldExceed_eq_false.mp (Bool.eq_false_iff.mpr hseen)) hvalid
  | complete => simp [unreadStep, hs, Config.finish] at h

theorem rest_of_step {c c' : Config} {p : ChunkDecodeProgress}
    (h : unreadStep c = .inr (.ok p, c')) : Rest c p c' := by
  obtain ⟨d, input, output⟩ := c
  cases hs : d.stage with
  | sizeLine =>
    simp only [unreadStep, hs, Config.fail, Config.finish] at h
    split at h
    · next hcut =>
      split_ifs at h with hlen <;> cases h
      exact .sizeLine hs (cut_eq_none_iff.mp hcut) (not_lt.mp hlen)
    · split_ifs at h
      · cases h
      · split at h
        · cases h
        · split_ifs at h
          cases h
  | data =>
    simp only [unreadStep, hs, Config.finish] at h
    split_ifs at h with hrem
    have hlt : input.length < d.chunkRemaining := by
      simp only [bne_iff_ne, ne_eq] at hrem
      omega
    cases h
    simpa [hs, Nat.min_eq_right hlt.le] using @Rest.data d input output hs hlt
  | dataCrlf =>
    simp only [unreadStep, hs, Config.fail, Config.finish] at h
    split_ifs at h with hlen <;> cases h
    exact .dataCrlf hs hlen
  | trailers =>
    simp only [unreadStep, hs, Config.fail, Config.finish] at h
    split at h
    · next hcut =>
      split_ifs at h with hseen <;> cases h
      exact .trailers hs (cut_eq_none_iff.mp hcut)
        (wouldExceed_eq_false.mp (Bool.eq_false_iff.mpr hseen))
    · next line rest hcut =>
      obtain ⟨rfl, -⟩ := cut_eq_some_iff.mp hcut
      split_ifs at h with hseen hnil <;> cases h
      cases List.isEmpty_iff.mp hnil
      exact .lastLine hs (wouldExceed_eq_false.mp (Bool.eq_false_iff.mpr hseen))
  | complete =>
    simp only [unreadStep, hs, Config.finish] at h
    cases h
    exact .complete hs

theorem Round.run {c c' : Config} (h : Round c c') : unreadLoop.run c = unreadLoop.run c' :=
  unreadLoop.run_of_next h.step

theorem Rest.run {c c' : Config} {p : ChunkDecodeProgress} (h : Rest c p c') :
    unreadLoop.run c = (.ok p, c') := unreadLoop.run_of_exit h.step

/-! ## Rounds from a given stage -/

theorem Round.of_sizeLine {c c' : Config} (h : Round c c') (hs : c.decoder.stage = .sizeLine) :
    ∃ line rest size, c.input = line ++ (crlf ++ rest) ∧ Leads crlf line ∧
      line.length ≤ c.decoder.limits.maxChunkLineBytes.toNat ∧ parseChunkSize line = .ok size ∧
      (size = 0 ∨ c.output.length + size ≤ c.decoder.limits.maxBodyBytes.toNat) ∧
      c' = ⟨{ c.decoder with chunkRemaining := size, stage := afterSize size }, rest, c.output⟩ := by
  cases h with
  | size hs' hline hlen hsize hbody => exact ⟨_, _, _, rfl, hline, hlen, hsize, hbody, rfl⟩
  | data hs' | dataCrlf hs' | trailer hs' => cases hs'.symm.trans hs

theorem Round.of_data {c c' : Config} (h : Round c c') (hs : c.decoder.stage = .data) :
    ∃ data rest, c.input = data ++ rest ∧ data.length = c.decoder.chunkRemaining ∧
      c' = ⟨{ c.decoder with chunkRemaining := 0, stage := .dataCrlf }, rest,
        c.output ++ data⟩ := by
  cases h with
  | data hs' hlen => exact ⟨_, _, rfl, hlen, rfl⟩
  | size hs' | dataCrlf hs' | trailer hs' => cases hs'.symm.trans hs

theorem Round.of_dataCrlf {c c' : Config} (h : Round c c') (hs : c.decoder.stage = .dataCrlf) :
    ∃ rest, c.input = crlf ++ rest ∧
      c' = ⟨{ c.decoder with stage := .sizeLine }, rest, c.output⟩ := by
  cases h with
  | dataCrlf hs' => exact ⟨_, rfl, rfl⟩
  | size hs' | data hs' | trailer hs' => cases hs'.symm.trans hs

theorem Round.of_trailers {c c' : Config} (h : Round c c') (hs : c.decoder.stage = .trailers) :
    ∃ line rest, c.input = line ++ (crlf ++ rest) ∧ Leads crlf line ∧
      c.decoder.trailerBytesSeen + (line.length + 2) ≤ c.decoder.limits.maxTrailerBytes.toNat ∧
      validTrailerLine line = true ∧
      c' = ⟨{ c.decoder with trailerBytesSeen := c.decoder.trailerBytesSeen + (line.length + 2) },
        rest, c.output⟩ := by
  cases h with
  | trailer hs' hline hseen hvalid => exact ⟨_, _, rfl, hline, hseen, hvalid, rfl⟩
  | size hs' | data hs' | dataCrlf hs' => cases hs'.symm.trans hs

theorem Rest.of_complete {c c' : Config} (h : Rest c .complete c') :
    c.decoder.stage = .trailers ∨ c.decoder.stage = .complete := by
  cases h with
  | lastLine hs => exact .inl hs
  | complete hs => exact .inr hs

/-- What no round changes or lengthens. -/
theorem Round.frame {c c' : Config} (h : Round c c') :
    c'.decoder.limits = c.decoder.limits ∧ c'.input.length ≤ c.input.length ∧
      c.output <+: c'.output := by
  cases h with
  | size | trailer =>
    refine ⟨rfl, ?_, List.prefix_rfl⟩
    simp only [List.length_append]
    omega
  | data => exact ⟨rfl, by simp, List.prefix_append _ _⟩
  | dataCrlf => exact ⟨rfl, by simp, List.prefix_rfl⟩

theorem frame_of_reaches {c c' : Config} (h : unreadLoop.Reaches c c') :
    c'.decoder.limits = c.decoder.limits ∧ c'.input.length ≤ c.input.length ∧
      c.output <+: c'.output := by
  refine h.invariant (I := fun t => t.decoder.limits = c.decoder.limits ∧
    t.input.length ≤ c.input.length ∧ c.output <+: t.output) ?_ ⟨rfl, le_rfl, List.prefix_rfl⟩
  rintro t t' ⟨hlimits, hlen, hout⟩ hstep
  rcases (round_of_step hstep).frame with ⟨hlimits', hlen', hout'⟩
  exact ⟨hlimits'.trans hlimits, hlen'.trans hlen, hout.trans hout'⟩

theorem process_ok_iff {d : ChunkedDecoder} {input output : Bytes} {p : ChunkDecodeProgress}
    {c : Config} : d.process input output = (.ok p, c) ↔
      unreadLoop.run ⟨d, input, output⟩ = (.ok p, c) := by
  rw [process_eq, restoreInput_ok]

/-- A call that has succeeded left through one of the rests. -/
theorem rest_of_process {d : ChunkedDecoder} {input output : Bytes} {p : ChunkDecodeProgress}
    {c : Config} (h : d.process input output = (.ok p, c)) :
    ∃ c', unreadLoop.Reaches ⟨d, input, output⟩ c' ∧ Rest c' p c := by
  rcases unreadLoop.exists_exit ⟨d, input, output⟩ with ⟨c', hreach, hexit⟩
  rw [process_ok_iff.mp h] at hexit
  exact ⟨c', hreach, rest_of_step hexit⟩

theorem output_grows {d : ChunkedDecoder} {input output : Bytes} {p : ChunkDecodeProgress}
    {c : Config} (h : d.process input output = (.ok p, c)) : output <+: c.output := by
  rcases rest_of_process h with ⟨c', hreach, hrest⟩
  have hout : output <+: c'.output := (frame_of_reaches hreach).2.2
  refine hout.trans ?_
  cases hrest with
  | data => exact List.prefix_append _ _
  | sizeLine | dataCrlf | trailers | lastLine | complete => exact List.prefix_rfl

theorem stage_of_complete {d : ChunkedDecoder} {input output : Bytes} {c : Config}
    (h : d.process input output = (.ok .complete, c)) : c.decoder.stage = .complete := by
  rcases rest_of_process h with ⟨c', -, hrest⟩
  cases hrest with
  | lastLine => rfl
  | complete hs => exact hs

theorem process_complete {d : ChunkedDecoder} (input output : Bytes) (hs : d.stage = .complete) :
    d.process input output = (.ok .complete, ⟨d, input, output⟩) :=
  process_ok_iff.mpr (Rest.complete hs).run

end CppRequest.ChunkedDecoder
