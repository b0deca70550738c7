import CppRequest.DecoderResumption
import CppRequest.ParserRounds

/-!
# The response parser can be resumed

The parser inherits from its decoder that input which has not arrived cannot
influence a round and that asking for more loses nothing. A failure is final for the
input behind it under the same proviso on the chunk-size line. It keeps its code,
except that a 205 response with a chunked body is refused for the first byte of
data in one cut and for a later framing error in another.
-/

namespace CppRequest.ResponseParser

open Search Resumable

def push (p : ResponseParser) (b : Bytes) : ResponseParser := { p with buffer := p.buffer ++ b }

theorem push_push (p : ResponseParser) (a b : Bytes) : (p.push a).push b = p.push (a ++ b) := by
  simp [push]

/-- A failure still shows which final status has been read, if any. -/
def statusMark (p : ResponseParser) : ℕ := p.response.statusCode

def pushExit (b : Bytes) : ResponseParser ⊕ ParseExit → ResponseParser ⊕ ParseExit :=
  Sum.map (·.push b) (Prod.map id (·.push b))

theorem chooseBody_push (p : ResponseParser) (framing : FramingInfo) (b : Bytes) :
    (p.push b).chooseBody framing = pushExit b (p.chooseBody framing) := by
  unfold chooseBody pushExit
  simp only [push, fail, finish, apply_ite (Sum.map _ _)]
  rfl

theorem acceptHead_push (p : ResponseParser) (head : ParsedHead) (b : Bytes) :
    (p.push b).acceptHead head = pushExit b (p.acceptHead head) := by
  unfold acceptHead
  cases analyzeFraming head.headers with
  | error e => rfl
  | ok framing =>
    simp only [fail, pushExit, apply_ite (Sum.map _ _)]
    split_ifs
    · rfl
    · rfl
    · exact chooseBody_push { p with
        response := { p.response with
          statusCode := head.statusCode, reason := head.reason, headers := head.headers }
        connectionCloseRequested :=
          framing.connectionCloseRequested || head.statusCode == 101 } framing b

/-- A head that is in the buffer is read in the same way when more stands behind it. -/
theorem bufferStep_push_cut {p : ResponseParser} {block rest : Bytes} (b : Bytes)
    (hs : p.stage = .head) (hcut : cut crlfcrlf p.buffer = some (block, rest)) :
    bufferStep (p.push b) = pushExit b (bufferStep p) := by
  have hpush : cut crlfcrlf (p.push b).buffer = some (block, rest ++ b) := cut_append b hcut
  rw [bufferStep_head hs, bufferStep_head (p := p.push b) hs, hcut, hpush]
  simp only
  split_ifs with hlimit hlimit'
  · rfl
  · exact absurd hlimit hlimit'
  · exact absurd ‹_› hlimit
  · cases parseHead block with
    | error e => rfl
    | ok head => exact acceptHead_push { p with buffer := rest } head b

theorem Round.push {p p' : ResponseParser} (b : Bytes) (h : Round p p') :
    bufferStep (p.push b) = .inl (p'.push b) := by
  have hstep := h.step
  cases h with
  | interim hread | final hread =>
    rw [bufferStep_push_cut b hread.stage hread.cut_eq, hstep]
    rfl

/-! ## Resting -/

/-- Taking bytes as they come is taking them together. -/
theorem takeCloseDelimited_push {p : ResponseParser} (b : Bytes) (h : p.Takes) :
    (p.push b).takeCloseDelimited = (p.taken.push b).takeCloseDelimited := by
  have htaken : (p.push b).taken = (p.taken.push b).taken := by
    simp [taken, push]
  have htakes : (p.push b).Takes ↔ (p.taken.push b).Takes := by
    rcases h with ⟨hallowed, hroom⟩
    constructor
    · rintro ⟨hallowed', hroom'⟩
      refine ⟨fun hf => ?_, fun hne => ?_⟩
      · exact (List.append_eq_nil_iff.mp (hallowed' hf)).2
      · have hne' : b ≠ [] := by simpa [push, taken] using hne
        simpa [push, taken, Nat.add_assoc] using hroom' (by simp [push, hne'])
    · rintro ⟨hallowed', hroom'⟩
      refine ⟨fun hf => ?_, fun _ => ?_⟩
      · simpa [push, taken, hallowed hf] using hallowed' hf
      · cases b with
        | nil => simpa [push] using hroom (by simpa [push] using ‹(p.push []).buffer ≠ []›)
        | cons x b => simpa [push, taken, Nat.add_assoc] using hroom' (by simp [push])
  by_cases ht : (p.push b).Takes
  · rw [takeCloseDelimited_ok_iff.mpr ⟨ht, rfl⟩, eq_comm]
    exact takeCloseDelimited_ok_iff.mpr ⟨htakes.mp ht, htaken⟩
  · cases hr : (p.push b).takeCloseDelimited with
    | ok q => exact absurd (takeCloseDelimited_ok_iff.mp hr).1 ht
    | error code =>
      cases hr' : (p.taken.push b).takeCloseDelimited with
      | ok q => exact absurd (htakes.mpr (takeCloseDelimited_ok_iff.mp hr').1) ht
      | error code' =>
        have hforbidden : (p.push b).bodyForbidden = (p.taken.push b).bodyForbidden := rfl
        have hcode := (takeCloseDelimited_error hr).2
        have hcode' := (takeCloseDelimited_error hr').2
        rw [hforbidden] at hcode
        grind

/-- The decoder called with more input, and the decoder called again where it rested. -/
theorem process_push {d : ChunkedDecoder} {input output : Bytes} {q : ChunkDecodeProgress}
    {c : ChunkedDecoder.Config} (b : Bytes) (h : d.process input output = (.ok q, c)) :
    (d.process (input ++ b) output).1 = (c.decoder.process (c.input ++ b) c.output).1 ∧
      ∀ q', (d.process (input ++ b) output).1 = .ok q' →
        (d.process (input ++ b) output).2 = (c.decoder.process (c.input ++ b) c.output).2 := by
  simp only [ChunkedDecoder.process_eq] at h ⊢
  have hrun : ChunkedDecoder.unreadLoop.run ⟨d, input, output⟩ = (.ok q, c) :=
    ChunkedDecoder.restoreInput_ok.mp h
  have hagree : Agree ChunkedDecoder.resumable.mark
      (ChunkedDecoder.unreadLoop.run ⟨d, input ++ b, output⟩)
      (ChunkedDecoder.unreadLoop.run ⟨c.decoder, c.input ++ b, c.output⟩) :=
    ChunkedDecoder.resumable.run_push b hrun
  simp only [ChunkedDecoder.restoreInput_fst]
  refine ⟨hagree.answer, fun q' hq => ?_⟩
  have hq' := hagree.answer ▸ hq
  rw [ChunkedDecoder.restoreInput_snd hq, ChunkedDecoder.restoreInput_snd hq']
  exact hagree.state q' hq

/-- An unfinished body of known length: what is there and then the rest, or all of it at once. -/
theorem length_push {p : ResponseParser} (b : Bytes) (hs : p.stage = .contentLengthBody)
    (hlen : p.buffer.length < p.contentLengthRemaining) :
    bufferStep (p.push b) = bufferStep (ResponseParser.push { p.taken with
      contentLengthRemaining := p.contentLengthRemaining - p.buffer.length } b) := by
  by_cases hmore : (p.push b).buffer.length < p.contentLengthRemaining
  · have hleft := Rest.length (p := p.push b) hs hmore
    have hb : b.length < p.contentLengthRemaining - p.buffer.length := by
      simp only [push, List.length_append] at hmore
      omega
    have hright := Rest.length (p := ResponseParser.push { p.taken with
      contentLengthRemaining := p.contentLengthRemaining - p.buffer.length } b) hs hb
    rw [hleft.step, hright.step]
    simp [push, taken, Nat.sub_sub]
  · have hle : p.contentLengthRemaining - p.buffer.length ≤ b.length := by
      simp only [push, List.length_append] at hmore
      omega
    have htake := List.length_take_of_le hle
    have hsplit := (List.take_append_drop (p.contentLengthRemaining - p.buffer.length) b).symm
    have hwhole : (p.buffer ++ b.take (p.contentLengthRemaining - p.buffer.length)).length =
        p.contentLengthRemaining := by
      rw [List.length_append, htake]
      omega
    have hleft := Rest.lengthDone (p := p.push b) hs hwhole
      (by rw [List.append_assoc, ← hsplit]; rfl)
    have hright := Rest.lengthDone (p := ResponseParser.push { p.taken with
      contentLengthRemaining := p.contentLengthRemaining - p.buffer.length } b) hs htake hsplit
    rw [hleft.step, hright.step]
    simp [push, taken, lengthDone]

/-- A complete parser keeps what arrives behind the message. -/
theorem run_push_complete {p : ResponseParser} (p' : ResponseParser) (b : Bytes) (hs' : p'.stage = .complete)
    (h : bufferStep (p.push b) = .inr (.ok .complete, p'.push b)) :
    bufferLoop.run (p.push b) = bufferLoop.run (p'.push b) := by
  rw [bufferLoop.run_of_exit h, (Rest.complete (p := p'.push b) hs').run]

/-- An unfinished body without a length. -/
theorem closeDelimited_push {p : ResponseParser} (b : Bytes) (hs : p.stage = .closeDelimitedBody)
    (htakes : p.Takes) :
    Agree statusMark (bufferLoop.run (p.push b)) (bufferLoop.run (p.taken.push b)) := by
  have htake := takeCloseDelimited_push b htakes
  cases hr : (p.push b).takeCloseDelimited with
  | error code =>
    rw [(Fault.closeDelimited (p := p.push b) hs hr).run,
      (Fault.closeDelimited (p := p.taken.push b) hs (htake ▸ hr)).run]
    exact Agree.of_error rfl
  | ok p₁ =>
    rcases takeCloseDelimited_ok_iff.mp hr with ⟨hleft, rfl⟩
    rcases takeCloseDelimited_ok_iff.mp (htake ▸ hr) with ⟨hright, heq⟩
    rw [(Rest.closeDelimited (p := p.push b) hs hleft).run, (Rest.closeDelimited (p := p.taken.push b) hs hright).run, heq]
    exact Agree.refl _ _

/-- An unfinished chunked body. -/
theorem chunked_push {p : ResponseParser} {c : ChunkedDecoder.Config} (b : Bytes)
    (hs : p.stage = .chunkedBody)
    (hdecoded : p.chunkedDecoder.process p.buffer p.response.body = (.ok .needMore, c)) :
    Agree statusMark (bufferLoop.run (p.push b)) (bufferLoop.run ((p.decoded c).push b)) := by
  rcases process_push b hdecoded with ⟨hanswer, hstate⟩
  rcases hleft : p.chunkedDecoder.process (p.buffer ++ b) p.response.body with ⟨r, c₁⟩
  rcases hright : c.decoder.process (c.input ++ b) c.output with ⟨r', c₂⟩
  rw [hleft, hright] at hanswer hstate
  simp only at hanswer hstate
  subst hanswer
  cases r with
  | error e =>
    rw [(Fault.chunked (p := p.push b) hs hleft).run,
      (Fault.chunked (p := (p.decoded c).push b) hs hright).run]
    exact Agree.of_error rfl
  | ok q =>
    cases hstate q rfl
    have hstep : bufferStep (p.push b) = bufferStep ((p.decoded c).push b) := by
      simp only [bufferStep, decoded, push, hs, hleft, hright]
    rw [bufferLoop.run_congr hstep]
    exact Agree.refl _ _

theorem Rest.push {p p' : ResponseParser} {q : ResponseParseProgress} (b : Bytes)
    (h : Rest p q p') : Agree statusMark (bufferLoop.run (p.push b)) (bufferLoop.run (p'.push b)) := by
  cases h with
  | head | complete => exact Agree.refl _ _
  | headDone hread hfinal hframed hfits hbegin =>
    have hpush : bufferStep (p.push b) = .inr (.ok .complete, p'.push b) := by
      rw [bufferStep_push_cut b hread.stage hread.cut_eq,
        (Rest.headDone hread hfinal hframed hfits hbegin).step]
      rfl
    rw [run_push_complete _ b (stage_of_begin hbegin) hpush]
    exact Agree.refl _ _
  | length hs hlen =>
    rw [bufferLoop.run_congr (length_push b hs hlen)]
    exact Agree.refl _ _
  | lengthDone hs hlen hb =>
    have hpush := Rest.lengthDone (p := p.push b) hs hlen
      (show p.buffer ++ b = _ by rw [hb, List.append_assoc])
    rw [run_push_complete (p.lengthDone _ _) b rfl hpush.step]
    exact Agree.refl _ _
  | closeDelimited hs htakes => exact closeDelimited_push b hs htakes
  | chunked hs hdecoded hallowed => exact chunked_push b hs hdecoded
  | @chunkedDone c hs hdecoded hallowed =>
    have hpush : p.chunkedDecoder.process (p.buffer ++ b) p.response.body =
        (.ok .complete, ⟨c.decoder, c.input ++ b, c.output⟩) := by
      rcases process_push b hdecoded with ⟨hanswer, hstate⟩
      rw [ChunkedDecoder.process_complete _ _ (ChunkedDecoder.stage_of_complete hdecoded)]
        at hanswer hstate
      exact Prod.ext hanswer (hstate _ hanswer)
    have hrest := Rest.chunkedDone (p := p.push b) hs hpush hallowed
    rw [run_push_complete (p.decoded c).done b rfl hrest.step]
    exact Agree.refl _ _

def resumable : Resumable Byte ResponseParser Error ResponseParseProgress ℕ where
  loop := bufferLoop
  push := push
  mark := statusMark
  push_nil p := by simp [push]
  push_push := push_push
  next_push b h := (round_of_step h).push b
  rest_push b h := (rest_of_step h).push b

theorem feed_eq (p : ResponseParser) (b : Bytes) : p.feed b = resumable.feed p b := rfl

end CppRequest.ResponseParser
