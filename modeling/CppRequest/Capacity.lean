import CppRequest.MemoryBounds

/-!
# Strings that cannot grow any further

The parser with the exceptions that its strings throw: a `reserve` or an `append` for which a
string would need more than `max_size()` bytes ends the call with `std::length_error`. A call
that throws is `none`; one that does not is the call of `ResponseParser`.
-/

namespace CppRequest

open Search

/-- `append` behind `size` bytes, which is only called with something to append. -/
def appendFits (maxSize size amount : ℕ) : Bool := amount == 0 || decide (size + amount ≤ maxSize)

theorem appendFits_of_le {maxSize size amount : ℕ} (h : size + amount ≤ maxSize) :
    appendFits maxSize size amount = true := by
  rw [appendFits, decide_eq_true h, Bool.or_true]

namespace ChunkedDecoder

/-- The data stage appends to the output. -/
def roundFits (maxSize : ℕ) (s : ProcessState) : Bool :=
  match s.decoder.stage with
  | .data =>
    appendFits maxSize s.output.length (min s.decoder.chunkRemaining (s.input.length - s.cursor))
  | _ => true

/-- `process(input, output)`. -/
def processWithin (maxSize : ℕ) (d : ChunkedDecoder) (input output : Bytes) :
    Option ProcessExit := (processLoop.guarded (roundFits maxSize)).run ⟨d, input, output, 0⟩

/-- What has been appended is still to be read or has been. -/
theorem Round.holds {c c' : Config} (h : Round c c') :
    c'.output.length + c'.input.length ≤ c.output.length + c.input.length := by
  cases h with
  | size | trailer | dataCrlf =>
    simp only [List.length_append]
    omega
  | data =>
    simp only [List.length_append]
    omega

theorem Rest.holds {c c' : Config} {p : ChunkDecodeProgress} (h : Rest c p c') :
    c'.output.length + c'.input.length ≤ c.output.length + c.input.length := by
  cases h with
  | data =>
    simp only [List.length_append, List.length_nil]
    omega
  | lastLine =>
    simp only [List.length_append]
    omega
  | sizeLine | dataCrlf | trailers | complete => exact le_rfl

theorem holds_of_process {d : ChunkedDecoder} {input output : Bytes} {p : ChunkDecodeProgress}
    {c : Config} (h : d.process input output = (.ok p, c)) :
    c.output.length + c.input.length ≤ output.length + input.length := by
  obtain ⟨c', hreach, hrest⟩ := rest_of_process h
  refine hrest.holds.trans ?_
  exact hreach.invariant
    (I := fun t => t.output.length + t.input.length ≤ output.length + input.length)
    (fun _ _ ht hstep => (round_of_step hstep).holds.trans ht) le_rfl

/-- Input and output together have room in one string. -/
theorem processWithin_isSome {maxSize : ℕ} (d : ChunkedDecoder) {input output : Bytes}
    (h : output.length + input.length ≤ maxSize) :
    (d.processWithin maxSize input output).isSome = true := by
  refine processLoop.guarded_isSome_iff.mpr fun s hs => ?_
  have hroom : s.cursor ≤ s.input.length ∧
      s.output.length + (s.input.length - s.cursor) ≤ maxSize := by
    refine hs.invariant (I := fun s => s.cursor ≤ s.input.length ∧
      s.output.length + (s.input.length - s.cursor) ≤ maxSize) ?_ ⟨Nat.zero_le _, h⟩
    rintro s s' ⟨hcursor, hroom⟩ hstep
    obtain ⟨t, ht, hle, -, hunread⟩ | ⟨r, -, hr⟩ := processStep_unread hcursor
    · cases Sum.inl.inj (ht.symm.trans hstep)
      have hholds := (round_of_step hunread).holds
      simp only [ProcessState.unread, List.length_drop] at hholds
      exact ⟨hle, hholds.trans hroom⟩
    · exact absurd (hstep.symm.trans hr) Sum.inl_ne_inr
  unfold roundFits
  split
  · apply appendFits_of_le
    omega
  · rfl

end ChunkedDecoder

namespace ResponseParser

/-- The size that `response_.body_.reserve` is called with behind a final head, if it is. -/
def reserved (requestMethod : Method) (limits : ResponseLimits) (statusCode : ℕ)
    (framing : FramingInfo) : Option ℕ :=
  if framing.transferEncodingFields != 0 && framing.contentLengthCount != 0 then none
  else if framingHeaderForbiddenOnStatus statusCode
      && (framing.contentLengthCount != 0 || framing.transferEncodingFields != 0) then none
  else if isHeaderTerminatedResponse requestMethod statusCode then none
  else if statusCode == 205 then none
  else if framing.transferEncodingFields != 0 then none
  else if framing.contentLengthCount == 1 then
    if framing.contentLength > limits.maxBodyBytes.toNat then none
    else some framing.contentLength
  else none

def headFits (maxSize : ℕ) (p : ResponseParser) : Bool :=
  match find p.buffer crlfcrlf 0 with
  | none => true
  | some headEnd =>
    if wouldExceed headEnd 4 p.limits.maxHeadBytes.toNat then true
    else match parseHead (substr p.buffer 0 headEnd) with
      | .error _ => true
      | .ok head =>
        match analyzeFraming head.headers with
        | .error _ => true
        | .ok framing =>
          if isInterimStatus head.statusCode then true
          else (reserved p.requestMethod p.limits head.statusCode framing).all (· ≤ maxSize)

/-- The appending to a close-delimited body. -/
def takeFits (maxSize : ℕ) (p : ResponseParser) : Bool :=
  match p.takeCloseDelimited with
  | .error _ => true
  | .ok _ => appendFits maxSize p.response.body.length p.buffer.length

/-- One round of the loop of `process_buffer` throws nothing. -/
def roundFits (maxSize : ℕ) (p : ResponseParser) : Bool :=
  match p.stage with
  | .head => p.headFits maxSize
  | .contentLengthBody =>
    appendFits maxSize p.response.body.length (min p.contentLengthRemaining p.buffer.length)
  | .closeDelimitedBody => p.takeFits maxSize
  | .chunkedBody => (p.chunkedDecoder.processWithin maxSize p.buffer p.response.body).isSome
  | .complete => true

def feedWithin (maxSize : ℕ) (p : ResponseParser) (b : Bytes) : Option ParseExit :=
  if appendFits maxSize p.buffer.length b.length then
    (bufferLoop.guarded (roundFits maxSize)).run { p with buffer := p.buffer ++ b }
  else none

def finishEofWithin (maxSize : ℕ) (p : ResponseParser) : Option ParseExit :=
  if p.stage == .closeDelimitedBody && !p.takeFits maxSize then none else some p.finishEof

def callWithin (maxSize : ℕ) (p : ResponseParser) : Call → Option ParseExit
  | .feed b => p.feedWithin maxSize b
  | .finishEof => p.finishEofWithin maxSize

/-- The calls one after another, whatever they answer, up to the first that throws. -/
def callsWithin (maxSize : ℕ) (p : ResponseParser) : List Call → Option ResponseParser
  | [] => some p
  | c :: calls => (p.callWithin maxSize c).bind fun r => r.2.callsWithin maxSize calls

/-! ## The sizes that heads announce -/

/-- A final head in front of the buffer, behind any interim ones, announces a body of a length
that the limit allows. -/
inductive Announces : ResponseParser → ℕ → Prop
  | final {p : ResponseParser} {block rest : Bytes} {head : ParsedHead} {framing : FramingInfo}
      (hread : HeadRead p block rest head framing)
      (hfinal : isInterimStatus head.statusCode = false) (hreset : head.statusCode ≠ 205)
      (hterm : isHeaderTerminatedResponse p.requestMethod head.statusCode = false)
      (hte : framing.transferEncodingFields = 0) (hcl : framing.contentLengthCount = 1)
      (hlimit : framing.contentLength ≤ p.limits.maxBodyBytes.toNat) :
      Announces p framing.contentLength
  | behind {p : ResponseParser} {block rest : Bytes} {head : ParsedHead} {framing : FramingInfo}
      {n : ℕ} (hread : HeadRead p block rest head framing)
      (hinterim : isInterimStatus head.statusCode = true)
      (hcl : framing.contentLengthCount = 0) (hte : framing.transferEncodingFields = 0)
      (h : Announces { p with buffer := rest } n) : Announces p n

theorem Announces.stage {p : ResponseParser} {n : ℕ} (h : p.Announces n) : p.stage = .head := by
  cases h with
  | final hread => exact hread.stage
  | behind hread => exact hread.stage

theorem reserved_iff {requestMethod : Method} {limits : ResponseLimits} {statusCode n : ℕ}
    {framing : FramingInfo} : reserved requestMethod limits statusCode framing = some n ↔
      isHeaderTerminatedResponse requestMethod statusCode = false ∧ statusCode ≠ 205 ∧
      framing.transferEncodingFields = 0 ∧ framing.contentLengthCount = 1 ∧
      framing.contentLength ≤ limits.maxBodyBytes.toNat ∧ n = framing.contentLength := by
  have hforbidden : isHeaderTerminatedResponse requestMethod statusCode = false →
      framingHeaderForbiddenOnStatus statusCode = false := by
    intro hterm
    simp only [isHeaderTerminatedResponse, framingHeaderForbiddenOnStatus,
      Bool.or_eq_false_iff] at hterm ⊢
    exact ⟨hterm.1.1.2, hterm.1.2⟩
  constructor
  · intro h
    unfold reserved at h
    split_ifs at h with _ _ hterm hreset hte hcl hlimit
    cases h
    simp only [Bool.not_eq_true, bne_iff_ne, ne_eq, not_not, beq_iff_eq] at hterm hreset hte hcl
    refine ⟨hterm, ?_, hte, hcl, not_lt.mp hlimit, rfl⟩
    simpa using hreset
  · rintro ⟨hterm, hreset, hte, hcl, hlimit, rfl⟩
    unfold reserved
    simp [hterm, hforbidden hterm, hreset, hte, hcl, not_lt.mpr hlimit]

theorem headFits_iff {maxSize : ℕ} {p : ResponseParser} (hs : p.stage = .head) :
    p.headFits maxSize = true ↔ ∀ block rest head framing, HeadRead p block rest head framing →
      isInterimStatus head.statusCode = false →
      ∀ n, reserved p.requestMethod p.limits head.statusCode framing = some n → n ≤ maxSize := by
  have hcut := cut_eq_find crlfcrlf p.buffer
  unfold headFits
  cases hf : find p.buffer crlfcrlf 0 with
  | none =>
    rw [hf] at hcut
    refine ⟨fun _ block rest head framing hread => ?_, fun _ => rfl⟩
    cases hread.cut_eq.symm.trans hcut
  | some i =>
    have hi := find_eq_some hf
    have hlen : (p.buffer.take i).length = i := List.length_take_of_le (by omega)
    have hblock : substr p.buffer 0 i = p.buffer.take i := rfl
    rw [hf, Option.map_some] at hcut
    simp only [hblock]
    constructor
    · intro h block rest head framing hread hfinal n hn
      cases hread.cut_eq.symm.trans hcut
      have hwithin := hread.within
      rw [hlen] at hwithin
      simpa [wouldExceed_eq_false.mpr hwithin, hread.parses, hread.analyzed, hfinal, hn] using h
    · intro h
      obtain ⟨hbuffer, hleads⟩ := cut_eq_some_iff.mp hcut
      split_ifs with hlimit
      · rfl
      · rw [Bool.not_eq_true, wouldExceed_eq_false] at hlimit
        split
        · rfl
        · next head hhead =>
          split
          · rfl
          · next framing hframing =>
            split_ifs with hinterim
            · rfl
            · rw [Bool.not_eq_true] at hinterim
              rw [← hlen] at hlimit
              have hall := h _ _ head framing
                ⟨hs, hbuffer, hleads, hlimit, hhead, hframing⟩ hinterim
              cases hn : reserved p.requestMethod p.limits head.statusCode framing with
              | none => rfl
              | some n =>
                rw [hn] at hall
                exact decide_eq_true (hall n rfl)

theorem announces_of_reaches {p t : ResponseParser} {n : ℕ} (h : bufferLoop.Reaches p t)
    (ht : t.Announces n) : p.Announces n := by
  induction h using Relation.ReflTransGen.head_induction_on with
  | refl => exact ht
  | @head p p' hs _ ih =>
    cases round_of_step hs with
    | interim hread hinterim hcl hte => exact .behind hread hinterim hcl hte ih
    | final hread hfinal hframed hfits hbegin =>
      exact absurd ih.stage (begin_next hbegin).1

/-- The iteration that reserves too much. -/
theorem Announces.throws {maxSize n : ℕ} {p : ResponseParser} (h : p.Announces n)
    (hn : maxSize < n) : ∃ t, bufferLoop.Reaches p t ∧ t.roundFits maxSize = false := by
  induction h with
  | @final p block rest head framing hread hfinal hreset hterm hte hcl hlimit =>
    refine ⟨p, .refl _ p, ?_⟩
    rw [← Bool.not_eq_true]
    intro hfits
    simp only [roundFits, hread.stage] at hfits
    have hreserved := reserved_iff.mpr ⟨hterm, hreset, hte, hcl, hlimit, rfl⟩
    have hle := (headFits_iff hread.stage).mp hfits _ _ _ _ hread hfinal _ hreserved
    exact absurd hle (not_le.mpr hn)
  | behind hread hinterim hcl hte _ ih =>
    obtain ⟨t, ht, hthrow⟩ := ih hn
    exact ⟨t, ht.head (Round.interim hread hinterim hcl hte).step, hthrow⟩

/-! ## What a parser holds -/

/-- The bytes of the body and those that are pending. -/
def held (p : ResponseParser) : ℕ := p.response.body.length + p.buffer.length

theorem held_push (p : ResponseParser) (b : Bytes) : (p.push b).held = p.held + b.length := by
  simp only [held, push, List.length_append]
  omega

theorem begin_buffer {p p' : ResponseParser} {k : BodyFraming} {q : ResponseParseProgress}
    (h : p.begin k = .inr (.ok q, p')) : p'.buffer = p.buffer := by
  cases k with
  | none =>
    cases h
    rfl
  | chunked | untilClose => cases h
  | length n =>
    unfold begin at h
    simp only [finish] at h
    split_ifs at h
    cases h
    rfl

theorem Round.held_le {p p' : ResponseParser} (h : Round p p') : p'.held ≤ p.held := by
  have hshorter := bufferStep_decreases h.step
  have hbody : p'.response.body = p.response.body := by
    cases h with
    | interim => rfl
    | final hread hfinal hframed hfits hbegin =>
      rw [(begin_next hbegin).2.2.2.1]
      rfl
  rw [held, held, hbody]
  omega

theorem held_of_reaches {p p' : ResponseParser} (h : bufferLoop.Reaches p p') :
    p'.held ≤ p.held :=
  h.invariant (I := fun t => t.held ≤ p.held)
    (fun _ _ ht hstep => (round_of_step hstep).held_le.trans ht) le_rfl

theorem held_taken (p : ResponseParser) : p.taken.held = p.held := by
  simp only [held, taken, List.length_append, List.length_nil]
  omega

theorem Rest.held_le {p p' : ResponseParser} {q : ResponseParseProgress} (h : Rest p q p') :
    p'.held ≤ p.held := by
  cases h with
  | head | complete => exact le_rfl
  | @headDone _ block rest head framing k hread hfinal hframed hfits hbegin =>
    have hbuffer : p'.buffer = rest := begin_buffer hbegin
    have hbody : p'.response.body = p.response.body := by
      rw [(begin_done hbegin).2.2]
      rfl
    rw [held, held, hbody, hbuffer, hread.buffer]
    simp only [List.length_append]
    omega
  | length => exact (held_taken p).le
  | lengthDone hs hlen hb =>
    simp only [held, ResponseParser.lengthDone, hb, List.length_append]
    omega
  | closeDelimited => exact (held_taken p).le
  | chunked hs hdecoded => exact ChunkedDecoder.holds_of_process hdecoded
  | chunkedDone hs hdecoded => exact ChunkedDecoder.holds_of_process hdecoded

theorem feed_held {p p' : ResponseParser} {b : Bytes} {q : ResponseParseProgress}
    (h : p.feed b = (.ok q, p')) : p'.held ≤ p.held + b.length := by
  obtain ⟨t, hreach, hexit⟩ := bufferLoop.exists_exit (p.push b)
  rw [show bufferLoop.run (p.push b) = _ from h] at hexit
  rw [← held_push]
  exact (rest_of_step hexit).held_le.trans (held_of_reaches hreach)

theorem finishEof_held {p p' : ResponseParser} {q : ResponseParseProgress}
    (h : p.finishEof = (.ok q, p')) : p'.held ≤ p.held := by
  unfold finishEof at h
  cases hs : p.stage with
  | closeDelimitedBody =>
    simp only [hs] at h
    split at h
    · cases h
    · next t htake =>
      obtain ⟨-, rfl⟩ := takeCloseDelimited_ok_iff.mp htake
      cases h
      exact (held_taken p).le
  | complete =>
    simp only [hs] at h
    cases h
    exact le_rfl
  | head | contentLengthBody | chunkedBody =>
    simp only [hs] at h
    cases h

/-! ## One call -/

/-- What a call hands over. -/
def Call.bytes : Call → Bytes
  | .feed b => b
  | .finishEof => []

theorem takeFits_of_held {maxSize : ℕ} {p : ResponseParser} (h : p.held ≤ maxSize) :
    p.takeFits maxSize = true := by
  unfold takeFits
  split
  · rfl
  · exact appendFits_of_le h

/-- With room for what is held, only a head can ask for too much. -/
theorem roundFits_of_held {maxSize : ℕ} {p : ResponseParser} (h : p.held ≤ maxSize)
    (hheads : ∀ n, p.Announces n → n ≤ maxSize) : p.roundFits maxSize = true := by
  unfold roundFits
  cases hs : p.stage with
  | head =>
    refine (headFits_iff hs).mpr fun block rest head framing hread hfinal n hn => ?_
    obtain ⟨hterm, hreset, hte, hcl, hlimit, rfl⟩ := reserved_iff.mp hn
    exact hheads _ (.final hread hfinal hreset hterm hte hcl hlimit)
  | contentLengthBody =>
    apply appendFits_of_le
    unfold held at h
    omega
  | closeDelimitedBody => exact takeFits_of_held h
  | chunkedBody => exact ChunkedDecoder.processWithin_isSome _ h
  | complete => rfl

theorem feedWithin_isSome_iff {maxSize : ℕ} {p : ResponseParser} {b : Bytes}
    (h : p.held + b.length ≤ maxSize) : (p.feedWithin maxSize b).isSome = true ↔
      ∀ n, (p.push b).Announces n → n ≤ maxSize := by
  have happend : appendFits maxSize p.buffer.length b.length = true := by
    apply appendFits_of_le
    unfold held at h
    omega
  rw [← held_push] at h
  rw [feedWithin, if_pos happend]
  refine bufferLoop.guarded_isSome_iff.trans ⟨fun hall n hn => ?_, fun hheads t ht => ?_⟩
  · by_contra hle
    obtain ⟨t, ht, hthrow⟩ := hn.throws (not_le.mp hle)
    rw [hall t ht] at hthrow
    cases hthrow
  · exact roundFits_of_held ((held_of_reaches ht).trans h)
      fun n hn => hheads n (announces_of_reaches ht hn)

theorem finishEofWithin_of_held {maxSize : ℕ} {p : ResponseParser} (h : p.held ≤ maxSize) :
    p.finishEofWithin maxSize = some p.finishEof := by
  unfold finishEofWithin
  rw [takeFits_of_held h, Bool.not_true, Bool.and_false]
  rfl

/-- A call that does not throw is the call. -/
theorem call_of_within {maxSize : ℕ} {p : ResponseParser} {c : Call} {r : ParseExit}
    (h : p.callWithin maxSize c = some r) : r = p.call c := by
  cases c with
  | feed b =>
    simp only [callWithin, feedWithin] at h
    split_ifs at h
    exact bufferLoop.eq_of_guarded h
  | finishEof =>
    simp only [callWithin, finishEofWithin] at h
    split_ifs at h
    exact (Option.some.inj h).symm

theorem callWithin_isSome_iff {maxSize : ℕ} {p : ResponseParser} {c : Call}
    (h : p.held + c.bytes.length ≤ maxSize) : (p.callWithin maxSize c).isSome = true ↔
      ∀ b, c = .feed b → ∀ n, (p.push b).Announces n → n ≤ maxSize := by
  cases c with
  | feed b =>
    refine (feedWithin_isSome_iff h).trans ⟨?_, fun hall => hall b rfl⟩
    rintro hall _ ⟨⟩
    exact hall
  | finishEof =>
    rw [callWithin, finishEofWithin_of_held h]
    exact ⟨fun _ => nofun, fun _ => rfl⟩

/-! ## Runs -/

theorem callsWithin_isSome_iff {maxSize : ℕ} {p : ResponseParser} {calls : List Call}
    (hroom : ∀ pre c post, calls = pre ++ c :: post →
      (p.afterCalls pre).held + c.bytes.length ≤ maxSize) :
    (p.callsWithin maxSize calls).isSome = true ↔ ∀ pre b post, calls = pre ++ .feed b :: post →
      ∀ n, ((p.afterCalls pre).push b).Announces n → n ≤ maxSize := by
  induction calls generalizing p with
  | nil =>
    refine ⟨fun _ pre b post hsplit => ?_, fun _ => rfl⟩
    cases pre with
    | nil => cases hsplit
    | cons => cases hsplit
  | cons c calls ih =>
    have hfirst : p.held + c.bytes.length ≤ maxSize := hroom [] c calls rfl
    have hcall := callWithin_isSome_iff hfirst
    cases hc : p.callWithin maxSize c with
    | none =>
      rw [hc] at hcall
      rw [callsWithin, hc]
      refine ⟨nofun, fun hall => ?_⟩
      refine absurd (hcall.mpr fun b hb => ?_) nofun
      exact hall [] b calls (by rw [hb]; rfl)
    | some r =>
      rw [hc] at hcall
      rw [callsWithin, hc, call_of_within hc]
      refine (ih fun pre c' post hsplit => ?_).trans ⟨fun hall pre b post hsplit => ?_,
        fun hall pre b post hsplit => ?_⟩
      · exact hroom (c :: pre) c' post (by rw [hsplit]; rfl)
      · cases pre with
        | nil =>
          cases hsplit
          exact hcall.mp rfl b rfl
        | cons c' pre =>
          cases hsplit
          exact hall pre b post rfl
      · exact hall (c :: pre) b post (by rw [hsplit]; rfl)

/-- No call has failed. -/
def AllSucceed (p : ResponseParser) : List Call → Prop
  | [] => True
  | c :: calls => (∃ q, (p.call c).1 = .ok q) ∧ (p.call c).2.AllSucceed calls

theorem call_held {p : ResponseParser} {c : Call} {q : ResponseParseProgress}
    (h : (p.call c).1 = .ok q) : (p.call c).2.held ≤ p.held + c.bytes.length := by
  cases c with
  | feed b => exact feed_held (Prod.ext h rfl)
  | finishEof => exact finishEof_held (Prod.ext h rfl)

theorem AllSucceed.held_le {p : ResponseParser} {calls : List Call} (h : p.AllSucceed calls) :
    (p.afterCalls calls).held ≤ p.held + (calls.map fun c => c.bytes.length).sum := by
  induction calls generalizing p with
  | nil => exact le_rfl
  | cons c calls ih =>
    obtain ⟨⟨q, hq⟩, hcalls⟩ := h
    have hheld := call_held hq
    have hrest : ((p.call c).2.afterCalls calls).held ≤ _ := ih hcalls
    rw [List.map_cons, List.sum_cons]
    refine hrest.trans ?_
    omega

/-- Calls that hand over no more than a string can have throw nothing, whatever they answer, if
and only if no head they bring makes the parser reserve more. What is asked of a call behind one
that has failed is room for what the parser already holds. -/
theorem calls_return_iff {maxSize : ℕ} {requestMethod : Method} {limits : ResponseLimits}
    {calls : List Call} (hfed : (calls.map fun c => c.bytes.length).sum ≤ maxSize)
    (hroom : ∀ pre c post, calls = pre ++ c :: post →
      (fresh requestMethod limits).AllSucceed pre ∨
        ((fresh requestMethod limits).afterCalls pre).held + c.bytes.length ≤ maxSize) :
    ((fresh requestMethod limits).callsWithin maxSize calls).isSome = true ↔
      ∀ pre b post, calls = pre ++ .feed b :: post →
        ∀ n, (((fresh requestMethod limits).afterCalls pre).push b).Announces n → n ≤ maxSize := by
  refine callsWithin_isSome_iff fun pre c post hsplit => ?_
  obtain hall | hheld := hroom pre c post hsplit
  · have hle := hall.held_le
    have hzero : (fresh requestMethod limits).held = 0 := rfl
    rw [hsplit, List.map_append, List.sum_append, List.map_cons, List.sum_cons] at hfed
    omega
  · exact hheld

def shortResponse : Bytes := bytes "HTTP/1.1 200 OK\r\nContent-Length: 2\r\n\r\nhi"

theorem calls_return_short :
    ((fresh .get {}).callsWithin 100 [.feed shortResponse]).isSome = true ↔
      ∀ pre b post, [Call.feed shortResponse] = pre ++ .feed b :: post →
        ∀ n, (((fresh .get {}).afterCalls pre).push b).Announces n → n ≤ 100 := by
  refine calls_return_iff (by decide +kernel) fun pre c post hsplit => ?_
  cases pre with
  | nil => exact .inl trivial
  | cons c' pre =>
    have hnil := (List.cons.inj hsplit).2
    simp at hnil

/-- A head that declares the largest length of all, under the largest limit. -/
theorem declared_length_throws :
    let limits : ResponseLimits := { maxBodyBytes := 2 ^ 64 - 1 }
    let head := bytes "HTTP/1.1 200 OK\r\nContent-Length: 18446744073709551615\r\n\r\n"
    let maxSize := 2 ^ 63 - 1
    head.length ≤ maxSize ∧ maxSize < 2 ^ 64 - 1 ∧
      ((fresh .get limits).callsWithin maxSize [.feed head]).isSome = false := by
  decide +kernel

end ResponseParser

end CppRequest
