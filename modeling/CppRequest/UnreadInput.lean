import CppRequest.ChunkedDecoder
import CppRequest.Resumable

/-!
# The chunked decoder over its unread input

The cursor of `process` only marks how much of the input has been read, so the
loop can be told by the unread input alone. `unreadStep` is the loop in these
terms; `process_eq` says that `process` computes what it computes, except that a
failing call keeps the whole input. Over unread input the loop is resumable.
-/

namespace CppRequest.ChunkedDecoder

open Search

namespace Config

def fail (c : Config) (error : Error) : Config ⊕ ProcessExit := .inr (.error error, c)

def finish (c : Config) (progress : ChunkDecodeProgress) : Config ⊕ ProcessExit :=
  .inr (.ok progress, c)

end Config

/-- The stage behind a size line. -/
def afterSize (size : ℕ) : ChunkStage := if size = 0 then .trailers else .data

/-- One round, over the unread input. -/
def unreadStep (c : Config) : Config ⊕ ProcessExit :=
  let d := c.decoder
  match d.stage with
  | .sizeLine =>
    match cut crlf c.input with
    | none =>
      if c.input.length > d.limits.maxChunkLineBytes.toNat then
        c.fail { code := .responseLimitExceeded }
      else c.finish .needMore
    | some (line, rest) =>
      if line.length > d.limits.maxChunkLineBytes.toNat then
        c.fail { code := .responseLimitExceeded }
      else match parseChunkSize line with
        | .error e => c.fail e
        | .ok size =>
          if size != 0 && wouldExceed c.output.length size d.limits.maxBodyBytes.toNat then
            c.fail { code := .responseLimitExceeded }
          else .inl { c with
            input := rest
            decoder := { d with
              chunkRemaining := size
              stage := afterSize size } }
  | .data =>
    let amount := min d.chunkRemaining c.input.length
    let c : Config :=
      ⟨{ d with chunkRemaining := d.chunkRemaining - amount }, c.input.drop amount,
        c.output ++ c.input.take amount⟩
    if d.chunkRemaining - amount != 0 then c.finish .needMore
    else .inl { c with decoder := { c.decoder with stage := .dataCrlf } }
  | .dataCrlf =>
    if c.input.length < 2 then c.finish .needMore
    else if substr c.input 0 2 != crlf then c.fail { code := .invalidChunkFraming }
    else .inl { c with input := c.input.drop 2, decoder := { d with stage := .sizeLine } }
  | .trailers =>
    match cut crlf c.input with
    | none =>
      if wouldExceed d.trailerBytesSeen c.input.length d.limits.maxTrailerBytes.toNat then
        c.fail { code := .responseLimitExceeded }
      else c.finish .needMore
    | some (line, rest) =>
      let lineBytes := line.length + 2
      if wouldExceed d.trailerBytesSeen lineBytes d.limits.maxTrailerBytes.toNat then
        c.fail { code := .responseLimitExceeded }
      else
        let c : Config :=
          ⟨{ d with trailerBytesSeen := d.trailerBytesSeen + lineBytes }, rest, c.output⟩
        if line.isEmpty then
          { c with decoder := { c.decoder with stage := .complete } }.finish .complete
        else if !validTrailerLine line then c.fail { code := .invalidHeader }
        else .inl c
  | .complete => c.finish .complete

/-- The unread part of a loop state. -/
def ProcessState.unread (s : ProcessState) : Config := ⟨s.decoder, s.input.drop s.cursor, s.output⟩

/-- A result of the loop over unread input, when the call began with `input`. -/
def restoreInput (input : Bytes) : ProcessExit → ProcessExit
  | (.ok p, c) => (.ok p, c)
  | (.error e, c) => (.error e, { c with input })

@[simp] theorem restoreInput_fst (input : Bytes) (r : ProcessExit) :
    (restoreInput input r).1 = r.1 := by
  rcases r with ⟨e | p, c⟩ <;> rfl

theorem restoreInput_snd {input : Bytes} {r : ProcessExit} {p : ChunkDecodeProgress}
    (h : r.1 = .ok p) : (restoreInput input r).2 = r.2 := by
  rcases r with ⟨e | p', c⟩
  · cases h
  · rfl

theorem restoreInput_ok {input : Bytes} {r : ProcessExit} {p : ChunkDecodeProgress} {c : Config} :
    restoreInput input r = (.ok p, c) ↔ r = (.ok p, c) := by
  rcases r with ⟨e | p', c'⟩ <;> simp [restoreInput]

theorem processStep_unread {s : ProcessState} (h : s.cursor ≤ s.input.length) :
    (∃ s', processStep s = .inl s' ∧ s'.cursor ≤ s'.input.length ∧ s'.input = s.input ∧
      unreadStep s.unread = .inl s'.unread) ∨
    ∃ r, unreadStep s.unread = .inr r ∧ processStep s = .inr (restoreInput s.input r) := by
  obtain ⟨d, input, output, cursor⟩ := s
  have hcut := cut_drop crlf h
  simp only at h hcut
  cases hs : d.stage with
  | sizeLine =>
    simp only [processStep, unreadStep, ProcessState.unread, hs, hcut, List.length_drop]
    cases hf : find input crlf cursor with
    | none =>
      simp only [Option.map_none, ProcessState.fail, ProcessState.finish, Config.fail,
        Config.finish]
      split_ifs <;> exact .inr ⟨_, rfl, rfl⟩
    | some i =>
      have hi := find_eq_some hf
      have hlen : (substr input cursor (i - cursor)).length = i - cursor := by
        simp [substr]; omega
      simp only [Option.map_some, hlen, ProcessState.fail, Config.fail]
      split_ifs
      · exact .inr ⟨_, rfl, rfl⟩
      · cases parseChunkSize (substr input cursor (i - cursor)) with
        | error e => exact .inr ⟨_, rfl, rfl⟩
        | ok size =>
          simp only
          by_cases hlimit :
              (size != 0 && wouldExceed output.length size d.limits.maxBodyBytes.toNat) = true
          · simp only [hlimit, if_true]
            exact .inr ⟨_, rfl, rfl⟩
          · simp only [hlimit]
            exact .inl ⟨_, rfl, hi.2, rfl, rfl⟩
  | data =>
    simp only [processStep, unreadStep, ProcessState.unread, hs, List.length_drop,
      ProcessState.finish, Config.finish, List.drop_drop, substr]
    split_ifs
    · exact .inr ⟨_, rfl, rfl⟩
    · exact .inl ⟨_, rfl, by simp only; omega, rfl, rfl⟩
  | dataCrlf =>
    simp only [processStep, unreadStep, ProcessState.unread, hs, List.length_drop,
      ProcessState.finish, Config.finish, ProcessState.fail, Config.fail, substr,
      List.drop_drop, Nat.add_zero]
    split_ifs
    · exact .inr ⟨_, rfl, rfl⟩
    · exact .inr ⟨_, rfl, rfl⟩
    · exact .inl ⟨_, rfl, show cursor + 2 ≤ input.length by omega, rfl, rfl⟩
  | trailers =>
    simp only [processStep, unreadStep, ProcessState.unread, hs, hcut, List.length_drop]
    cases hf : find input crlf cursor with
    | none =>
      simp only [Option.map_none, ProcessState.fail, ProcessState.finish, Config.fail,
        Config.finish]
      split_ifs <;> exact .inr ⟨_, rfl, rfl⟩
    | some i =>
      have hi := find_eq_some hf
      have hlen : (substr input cursor (i - cursor)).length = i - cursor := by
        simp [substr]; omega
      simp only [Option.map_some, hlen, ProcessState.fail, Config.fail, ProcessState.finish,
        Config.finish]
      split_ifs
      · exact .inr ⟨_, rfl, rfl⟩
      · exact .inr ⟨_, rfl, rfl⟩
      · exact .inr ⟨_, rfl, rfl⟩
      · exact .inl ⟨_, rfl, hi.2, rfl, rfl⟩
  | complete =>
    simp only [processStep, unreadStep, ProcessState.unread, hs, ProcessState.finish,
      Config.finish]
    exact .inr ⟨_, rfl, rfl⟩

/-- Unread input, counted as in `ProcessState.measure`. -/
def Config.measure (c : Config) : ℕ :=
  2 * c.input.length + rank c.decoder.stage

theorem unreadStep_decreases {c c' : Config} (h : unreadStep c = .inl c') :
    c'.measure < c.measure := by
  rcases processStep_unread (s := ⟨c.decoder, c.input, c.output, 0⟩) (Nat.zero_le _) with
    ⟨s', hs, -, -, hu⟩ | ⟨r, hr, -⟩
  · rw [ProcessState.unread, List.drop_zero, h] at hu
    cases hu
    simpa [ProcessState.measure, Config.measure, ProcessState.unread] using
      processStep_decreases hs
  · rw [ProcessState.unread, List.drop_zero, h] at hr
    cases hr

def unreadLoop : ExitLoop Config ProcessExit where
  step := unreadStep
  measure := Config.measure
  decreases := unreadStep_decreases

/-- `process` refines the loop over unread input. -/
theorem process_eq (d : ChunkedDecoder) (input output : Bytes) :
    d.process input output = restoreInput input (unreadLoop.run ⟨d, input, output⟩) := by
  refine processLoop.run_sim unreadLoop
    (fun s c => s.cursor ≤ s.input.length ∧ s.input = input ∧ s.unread = c)
    (fun r k => r = restoreInput input k) ?_ ?_ (s := ⟨d, input, output, 0⟩) ?_
  · rintro s c s' ⟨hcur, hin, rfl⟩ hs
    rcases processStep_unread hcur with ⟨t, ht, hle, hinput, hu⟩ | ⟨r, -, hr⟩
    · cases Sum.inl.inj (ht.symm.trans hs)
      exact ⟨_, hu, hle, hinput.trans hin, rfl⟩
    · exact absurd (hs.symm.trans hr) Sum.inl_ne_inr
  · rintro s c r ⟨hcur, rfl, rfl⟩ hs
    rcases processStep_unread hcur with ⟨t, ht, -⟩ | ⟨k, hk, hr⟩
    · exact absurd (ht.symm.trans hs) Sum.inl_ne_inr
    · exact ⟨k, hk, Sum.inr.inj (hs.symm.trans hr)⟩
  · exact ⟨Nat.zero_le _, rfl, rfl⟩

end CppRequest.ChunkedDecoder
