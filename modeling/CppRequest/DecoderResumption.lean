import CppRequest.DecoderRounds

/-!
# The chunked decoder can be resumed

Input that has not arrived cannot influence a round, and a call that asks for more
can be continued as if it had never stopped. A failure is final for the input
behind it as well, provided the chunk-size line has room for all of it: the test on
an unfinished size line counts the CR of its line end, the test on a finished one
does not.
-/

namespace CppRequest.ChunkedDecoder

open Search

def Config.push (c : Config) (b : Bytes) : Config := { c with input := c.input ++ b }

theorem Round.push {c c' : Config} (b : Bytes) (h : Round c c') : Round (c.push b) (c'.push b) := by
  cases h with
  | size hs hline hlen hsize hbody =>
    simpa [Config.push] using Round.size hs hline hlen hsize hbody
  | data hs hlen => simpa [Config.push] using Round.data hs hlen
  | dataCrlf hs => simpa [Config.push] using Round.dataCrlf hs
  | trailer hs hline hseen hvalid =>
    simpa [Config.push] using Round.trailer hs hline hseen hvalid

/-- Unfinished chunk data: reading what is there and then the rest is reading all of it. -/
theorem data_push {d : ChunkedDecoder} {input output : Bytes} (b : Bytes) (hs : d.stage = .data)
    (hlen : input.length < d.chunkRemaining) :
    unreadStep ⟨d, input ++ b, output⟩ =
      unreadStep ⟨{ d with chunkRemaining := d.chunkRemaining - input.length }, b,
        output ++ input⟩ := by
  by_cases hmore : (input ++ b).length < d.chunkRemaining
  · have hb : b.length < d.chunkRemaining - input.length := by
      rw [List.length_append] at hmore
      omega
    have hright := @Rest.data { d with chunkRemaining := d.chunkRemaining - input.length } b
      (output ++ input) hs hb
    rw [(Rest.data hs hmore).step, hright.step]
    simp [Nat.sub_sub]
  · have hle : d.chunkRemaining - input.length ≤ b.length := by
      rw [List.length_append] at hmore
      omega
    have htake : (b.take (d.chunkRemaining - input.length)).length =
        d.chunkRemaining - input.length := List.length_take_of_le hle
    have hwhole : (input ++ b.take (d.chunkRemaining - input.length)).length =
        d.chunkRemaining := by
      rw [List.length_append, htake]
      omega
    have hsplit := List.take_append_drop (d.chunkRemaining - input.length) b
    have hleft := @Round.data d _ (b.drop (d.chunkRemaining - input.length)) output hs hwhole
    have hright := @Round.data { d with chunkRemaining := d.chunkRemaining - input.length } _
      (b.drop (d.chunkRemaining - input.length)) (output ++ input) hs htake
    rw [List.append_assoc, hsplit] at hleft
    rw [hsplit] at hright
    rw [hleft.step, hright.step, List.append_assoc]

theorem Rest.push {c c' : Config} {p : ChunkDecodeProgress} (b : Bytes) (h : Rest c p c') :
    unreadLoop.run (c.push b) = unreadLoop.run (c'.push b) := by
  cases h with
  | sizeLine | dataCrlf | trailers | complete => rfl
  | data hs hlen => exact unreadLoop.run_congr (data_push b hs hlen)
  | @lastLine d rest output hs hseen =>
    have hfirst := (@Rest.lastLine d (rest ++ b) output hs hseen).run
    have hagain := (@Rest.complete { d with
      trailerBytesSeen := d.trailerBytesSeen + 2, stage := .complete } (rest ++ b) output rfl).run
    rw [Config.push, Config.push, List.append_assoc]
    exact hfirst.trans hagain.symm

def resumable : Resumable Byte Config Error ChunkDecodeProgress Unit where
  loop := unreadLoop
  push := Config.push
  mark _ := ()
  push_nil c := by simp [Config.push]
  push_push c a b := by simp [Config.push]
  next_push b h := ((round_of_step h).push b).step
  rest_push b h := Resumable.Agree.of_eq ((rest_of_step h).push b)

theorem cut_push_none {input b line rest : Bytes} (h : cut crlf input = none)
    (h' : cut crlf (input ++ b) = some (line, rest)) : input.length ≤ line.length + 1 := by
  have := length_lt_of_cut_append h h'
  simp only [crlf, List.length_cons, List.length_nil] at this
  omega

/-- A failing round fails in the same way when more input is there. -/
theorem error_push {c c' : Config} {e : Error} (b : Bytes)
    (hroom : (c.input ++ b).length ≤ c.decoder.limits.maxChunkLineBytes.toNat)
    (h : unreadStep c = .inr (.error e, c')) :
    ∃ c'', unreadStep (c.push b) = .inr (.error e, c'') := by
  obtain ⟨d, input, output⟩ := c
  simp only [Config.push] at hroom ⊢
  rw [List.length_append] at hroom
  cases hs : d.stage with
  | sizeLine =>
    simp only [unreadStep, hs, Config.fail, Config.finish] at h ⊢
    split at h
    · split_ifs at h with hlen
      · omega
      · cases h
    · next line rest hcut =>
      rw [cut_append b hcut]
      simp only
      cases hsize : parseChunkSize line with
      | error e' =>
        simp only [hsize] at h ⊢
        split_ifs at h ⊢ <;> cases h <;> exact ⟨_, rfl⟩
      | ok size =>
        simp only [hsize] at h ⊢
        split_ifs at h ⊢ <;> cases h <;> exact ⟨_, rfl⟩
  | data =>
    simp only [unreadStep, hs, Config.finish] at h
    split_ifs at h
    cases h
  | dataCrlf =>
    simp only [unreadStep, hs, Config.fail, Config.finish] at h ⊢
    split_ifs at h with hlen hne
    · cases h
    · cases h
      have htake : substr (input ++ b) 0 2 = substr input 0 2 := by
        simp only [substr, List.drop_zero]
        exact List.take_append_of_le_length (by omega)
      rw [htake, if_pos hne, if_neg (by rw [List.length_append]; omega)]
      exact ⟨_, rfl⟩
  | trailers =>
    simp only [unreadStep, hs, Config.fail, Config.finish] at h ⊢
    split at h
    · next hcut =>
      split_ifs at h with hseen <;> cases h
      rw [wouldExceed_eq_true] at hseen
      cases hcut' : cut crlf (input ++ b) with
      | none =>
        have hmore : wouldExceed d.trailerBytesSeen (input ++ b).length
            d.limits.maxTrailerBytes.toNat = true := by
          rw [wouldExceed_eq_true, List.length_append]
          omega
        simp only [hmore, if_true]
        exact ⟨_, rfl⟩
      | some p =>
        obtain ⟨line, rest⟩ := p
        have hle := cut_push_none hcut hcut'
        have hmore : wouldExceed d.trailerBytesSeen (line.length + 2)
            d.limits.maxTrailerBytes.toNat = true := by
          rw [wouldExceed_eq_true]
          omega
        simp only [hmore, if_true]
        exact ⟨_, rfl⟩
    · next line rest hcut =>
      rw [cut_append b hcut]
      simp only
      split_ifs at h ⊢ <;> cases h <;> exact ⟨_, rfl⟩
  | complete => simp [unreadStep, hs, Config.finish] at h

theorem process_error_push {d : ChunkedDecoder} {input output : Bytes} {e : Error} {c : Config}
    (b : Bytes) (hroom : (input ++ b).length ≤ d.limits.maxChunkLineBytes.toNat)
    (h : d.process input output = (.error e, c)) :
    (d.process (input ++ b) output).1 = .error e := by
  rw [process_eq, restoreInput_fst]
  have hanswer : (unreadLoop.run ⟨d, input, output⟩).1 = .error e := by
    rw [← restoreInput_fst input, ← process_eq, h]
  rcases unreadLoop.exists_exit ⟨d, input, output⟩ with ⟨t, hreach, hexit⟩
  rcases frame_of_reaches hreach with ⟨hlimits, hlen, -⟩
  rcases hrun : unreadLoop.run ⟨d, input, output⟩ with ⟨r, c'⟩
  rw [hrun] at hanswer hexit
  simp only at hanswer
  subst hanswer
  have hroom' : (t.input ++ b).length ≤ t.decoder.limits.maxChunkLineBytes.toNat := by
    rw [List.length_append] at hroom
    simp only at hlen hlimits
    rw [hlimits, List.length_append]
    omega
  rcases error_push b hroom' hexit with ⟨c'', hpush⟩
  have hsame : unreadLoop.run ⟨d, input ++ b, output⟩ = unreadLoop.run (t.push b) :=
    resumable.run_push_of_reaches b hreach
  rw [hsame, unreadLoop.run_of_exit hpush]

end CppRequest.ChunkedDecoder
