import CppRequest.MemoryBounds

/-!
# The parsing loops make progress

Every iteration of either loop but the last reads something. For the decoder this
rests on what its calls keep, also those that fail: the data stage is only entered,
and only left behind, with bytes remaining. So no call makes more iterations than
there are bytes in front of it, and one.
-/

namespace CppRequest

namespace ChunkedDecoder

/-- In the data stage there are bytes remaining. -/
def Ready (d : ChunkedDecoder) : Prop := d.stage = .data → 0 < d.chunkRemaining

theorem fresh_ready (limits : ResponseLimits) : Ready { limits } := nofun

theorem Round.ready {c c' : Config} (h : Round c c') : c'.decoder.Ready := by
  cases h with
  | @size d line rest output size hs hline hlen hsize hbody =>
    intro hstage
    rcases Nat.eq_zero_or_pos size with rfl | hpos
    · cases hstage
    · exact hpos
  | data | dataCrlf => exact nofun
  | trailer hs => exact fun hstage => absurd (hs.symm.trans hstage) nofun

/-- A round reads something. -/
theorem Round.reads {c c' : Config} (h : Round c c') (hc : c.decoder.Ready) :
    c'.input.length < c.input.length := by
  cases h with
  | size | trailer | dataCrlf =>
    simp only [List.length_append, crlf, List.length_cons, List.length_nil]
    omega
  | @data d data rest output hs hlen =>
    have hpos : 0 < d.chunkRemaining := hc hs
    simp only [List.length_append]
    omega

theorem Rest.ready {c c' : Config} {p : ChunkDecodeProgress} (h : Rest c p c')
    (hc : c.decoder.Ready) : c'.decoder.Ready := by
  cases h with
  | data hs hlen => exact fun _ => Nat.sub_pos_of_lt hlen
  | lastLine => exact nofun
  | sizeLine | dataCrlf | trailers | complete => exact hc

theorem ready_of_error {c c' : Config} {e : Error} (h : unreadStep c = .inr (.error e, c'))
    (hc : c.decoder.Ready) : c'.decoder.Ready := by
  obtain ⟨-, hdecoder | ⟨hs, seen, -, hdecoder⟩⟩ := error_of_step h
  · rwa [hdecoder]
  · rw [hdecoder]
    exact fun hstage => absurd (hs.symm.trans hstage) nofun

/-- Whatever a call answers. -/
theorem process_ready {d : ChunkedDecoder} (input output : Bytes) (h : d.Ready) :
    (d.process input output).2.decoder.Ready := by
  have hrun : (unreadLoop.run ⟨d, input, output⟩).2.decoder.Ready := by
    refine unreadLoop.run_post (fun c => c.decoder.Ready) (fun r => r.2.decoder.Ready)
      (fun c c' _ hstep => (round_of_step hstep).ready) ?_ h
    rintro c ⟨e | p, c'⟩ hc hstep
    · exact ready_of_error hstep hc
    · exact (rest_of_step hstep).ready hc
  rw [process_eq]
  generalize unreadLoop.run ⟨d, input, output⟩ = r at hrun ⊢
  obtain ⟨e | p, c⟩ := r
  · exact hrun
  · exact hrun

theorem processLoop_iterations {d : ChunkedDecoder} (input output : Bytes) (h : d.Ready) :
    processLoop.iterations ⟨d, input, output, 0⟩ ≤ input.length + 1 := by
  refine processLoop.iterations_le (fun s => s.input.length - s.cursor)
    (fun s => s.cursor ≤ s.input.length ∧ s.decoder.Ready) ?_ ⟨Nat.zero_le _, h⟩
  rintro s s' ⟨hcursor, hready⟩ hstep
  obtain ⟨t, ht, hle, -, hunread⟩ | ⟨r, -, hr⟩ := processStep_unread hcursor
  · cases Sum.inl.inj (ht.symm.trans hstep)
    have hround := round_of_step hunread
    refine ⟨⟨hle, hround.ready⟩, ?_⟩
    simpa only [ProcessState.unread, List.length_drop] using hround.reads hready
  · exact absurd (hstep.symm.trans hr) Sum.inl_ne_inr

/-- The decoders that calls of `process` lead to, whatever the calls were given and answered. -/
inductive Reachable : ChunkedDecoder → Prop
  | fresh (limits : ResponseLimits) : Reachable { limits }
  | process {d : ChunkedDecoder} (h : Reachable d) (input output : Bytes) :
      Reachable (d.process input output).2.decoder

theorem Reachable.ready {d : ChunkedDecoder} (h : d.Reachable) : d.Ready := by
  induction h with
  | fresh limits => exact fresh_ready limits
  | process _ input output ih => exact process_ready input output ih

end ChunkedDecoder

namespace ResponseParser

theorem bufferLoop_iterations (p : ResponseParser) :
    bufferLoop.iterations p ≤ p.buffer.length + 1 :=
  bufferLoop.iterations_le (fun p => p.buffer.length) (fun _ => True)
    (fun _ _ _ hstep => ⟨trivial, bufferStep_decreases hstep⟩) trivial

/-! ## The decoder of a parser -/

theorem Round.decoder {p p' : ResponseParser} (h : Round p p') :
    p'.chunkedDecoder = p.chunkedDecoder := by
  cases h with
  | interim => rfl
  | final hread hfinal hframed hfits hbegin => exact (begin_next hbegin).2.2.1

theorem reachable_decoded {p : ResponseParser} {r : Result ChunkDecodeProgress}
    {c : ChunkedDecoder.Config} (hp : p.chunkedDecoder.Reachable)
    (h : p.chunkedDecoder.process p.buffer p.response.body = (r, c)) : c.decoder.Reachable := by
  have hprocess := hp.process p.buffer p.response.body
  rwa [h] at hprocess

theorem Rest.decoder {p p' : ResponseParser} {q : ResponseParseProgress} (h : Rest p q p')
    (hp : p.chunkedDecoder.Reachable) : p'.chunkedDecoder.Reachable := by
  cases h with
  | headDone hread hfinal hframed hfits hbegin => rwa [(begin_done hbegin).2.1]
  | chunked hs hdecoded => exact reachable_decoded hp hdecoded
  | chunkedDone hs hdecoded => exact reachable_decoded hp hdecoded
  | head | length | lengthDone | closeDelimited | complete => exact hp

theorem Fault.decoder {p p' : ResponseParser} {e : Error} (h : Fault p e p')
    (hp : p.chunkedDecoder.Reachable) : p'.chunkedDecoder.Reachable := by
  cases h with
  | headTooLong | closeDelimited => exact hp
  | head hs hcut hstep hleft =>
    rcases hleft with rfl | rfl | ⟨head, framing, rfl | rfl⟩
    · exact hp
    · exact hp
    · exact hp
    · exact hp
  | chunked hs hdecoded => exact reachable_decoded hp hdecoded
  | chunkedForbidden hs hdecoded => exact reachable_decoded hp hdecoded

/-- The decoder a parser calls is one that calls of `process` have led to, in every iteration. -/
theorem decoder_of_reaches {p p' : ResponseParser} (h : bufferLoop.Reaches p p')
    (hp : p.chunkedDecoder.Reachable) : p'.chunkedDecoder.Reachable :=
  h.invariant (I := fun t => t.chunkedDecoder.Reachable)
    (fun _ _ ht hstep => by rwa [(round_of_step hstep).decoder]) hp

theorem feed_decoder {p : ResponseParser} (b : Bytes) (hp : p.chunkedDecoder.Reachable) :
    (p.feed b).2.chunkedDecoder.Reachable := by
  obtain ⟨t, hreach, hexit⟩ := bufferLoop.exists_exit (p.push b)
  have ht := decoder_of_reaches hreach hp
  change (bufferLoop.run (p.push b)).2.chunkedDecoder.Reachable
  generalize bufferLoop.run (p.push b) = r at hexit ⊢
  obtain ⟨e | q, p'⟩ := r
  · exact (fault_of_step hexit).decoder ht
  · exact (rest_of_step hexit).decoder ht

theorem finishEof_decoder (p : ResponseParser) :
    p.finishEof.2.chunkedDecoder = p.chunkedDecoder := by
  unfold finishEof
  cases hs : p.stage with
  | closeDelimitedBody =>
    simp only
    split
    · rfl
    · next p' htake =>
      obtain ⟨-, rfl⟩ := takeCloseDelimited_ok_iff.mp htake
      rfl
  | complete | head | contentLengthBody | chunkedBody => rfl

theorem afterCalls_decoder {p : ResponseParser} (calls : List Call)
    (hp : p.chunkedDecoder.Reachable) : (p.afterCalls calls).chunkedDecoder.Reachable := by
  unfold afterCalls
  induction calls generalizing p with
  | nil => exact hp
  | cons c calls ih =>
    rw [List.foldl_cons]
    apply ih
    cases c with
    | feed b => exact feed_decoder b hp
    | finishEof =>
      rw [call, finishEof_decoder]
      exact hp

end ResponseParser

/-- No call of `process` makes more iterations than its input has bytes, and one, and no call of
`feed` more than its buffer has; the calls of `process` that a `feed` makes are bounded likewise. -/
theorem parsing_progress :
    (∀ d : ChunkedDecoder, d.Reachable → ∀ input output : Bytes,
      ChunkedDecoder.processLoop.iterations ⟨d, input, output, 0⟩ ≤ input.length + 1) ∧
    ∀ (requestMethod : Method) (limits : ResponseLimits) (calls : List ResponseParser.Call)
      (b : Bytes),
      let p := (ResponseParser.fresh requestMethod limits).afterCalls calls
      let pushed := { p with buffer := p.buffer ++ b }
      p.feed b = ResponseParser.bufferLoop.run pushed ∧
      ResponseParser.bufferLoop.iterations pushed ≤ pushed.buffer.length + 1 ∧
      ∀ t, ResponseParser.bufferLoop.Reaches pushed t →
        ChunkedDecoder.processLoop.iterations ⟨t.chunkedDecoder, t.buffer, t.response.body, 0⟩ ≤
          t.buffer.length + 1 := by
  refine ⟨fun d hd input output => ChunkedDecoder.processLoop_iterations input output hd.ready, ?_⟩
  intro requestMethod limits calls b p pushed
  have hp : p.chunkedDecoder.Reachable :=
    ResponseParser.afterCalls_decoder calls (ChunkedDecoder.Reachable.fresh limits)
  refine ⟨rfl, ResponseParser.bufferLoop_iterations pushed, fun t ht => ?_⟩
  have hready := (ResponseParser.decoder_of_reaches ht hp).ready
  exact ChunkedDecoder.processLoop_iterations t.buffer t.response.body hready

end CppRequest
