import CppRequest.MemoryBounds

/-!
# What a parser takes back

Of a body nothing: whatever calls are made and whatever they answer, it only grows at its end. What
the final head says stays as it is from the moment that the parser has gone on from it, while a head
that has been refused may be written anew by another one. A complete response does not change.
-/

namespace CppRequest

/-! ## The decoder -/

namespace ChunkedDecoder

theorem keeps_of_next {s s' : ProcessState} (h : processStep s = .inl s') :
    s'.decoder.limits = s.decoder.limits ∧ s.output <+: s'.output := by
  simp only [processStep, ProcessState.fail, ProcessState.finish] at h
  split at h
  · split at h
    · split_ifs at h
    · split_ifs at h
      split at h
      · cases h
      · split_ifs at h
        all_goals
          cases h
          exact ⟨rfl, List.prefix_rfl⟩
  · split_ifs at h
    cases h
    exact ⟨rfl, List.prefix_append _ _⟩
  · split_ifs at h
    cases h
    exact ⟨rfl, List.prefix_rfl⟩
  · split at h
    · split_ifs at h
    · split_ifs at h
      cases h
      exact ⟨rfl, List.prefix_rfl⟩
  · cases h

theorem keeps_of_exit {s : ProcessState} {r : ProcessExit} (h : processStep s = .inr r) :
    r.2.decoder.limits = s.decoder.limits ∧ s.output <+: r.2.output := by
  simp only [processStep, ProcessState.fail, ProcessState.finish] at h
  split at h
  · split at h
    · split_ifs at h
      all_goals
        cases h
        exact ⟨rfl, List.prefix_rfl⟩
    · split_ifs at h
      · cases h
        exact ⟨rfl, List.prefix_rfl⟩
      · split at h
        · cases h
          exact ⟨rfl, List.prefix_rfl⟩
        · split_ifs at h
          cases h
          exact ⟨rfl, List.prefix_rfl⟩
  · split_ifs at h
    cases h
    exact ⟨rfl, List.prefix_append _ _⟩
  · split_ifs at h
    all_goals
      cases h
      exact ⟨rfl, List.prefix_rfl⟩
  · split at h
    · split_ifs at h
      all_goals
        cases h
        exact ⟨rfl, List.prefix_rfl⟩
    · split_ifs at h
      all_goals
        cases h
        exact ⟨rfl, List.prefix_rfl⟩
  · cases h
    exact ⟨rfl, List.prefix_rfl⟩

/-- Also where the call fails. -/
theorem process_keeps (d : ChunkedDecoder) (input output : Bytes) :
    (d.process input output).2.decoder.limits = d.limits ∧
      output <+: (d.process input output).2.output := by
  refine processLoop.run_post
    (fun s => s.decoder.limits = d.limits ∧ output <+: s.output)
    (fun r => r.2.decoder.limits = d.limits ∧ output <+: r.2.output) ?_ ?_
    (s := ⟨d, input, output, 0⟩) ⟨rfl, List.prefix_rfl⟩
  · rintro s s' ⟨hlimits, hgrows⟩ hstep
    obtain ⟨hlimits', hgrows'⟩ := keeps_of_next hstep
    exact ⟨hlimits'.trans hlimits, hgrows.trans hgrows'⟩
  · rintro s r ⟨hlimits, hgrows⟩ hstep
    obtain ⟨hlimits', hgrows'⟩ := keeps_of_exit hstep
    exact ⟨hlimits'.trans hlimits, hgrows.trans hgrows'⟩

end ChunkedDecoder

/-! ## The parser -/

namespace ResponseParser

/-- What is known once the final head has been accepted. -/
def reported (p : ResponseParser) : ℕ × Bytes × Headers × Bool × Bool × Bool :=
  (p.response.statusCode, p.response.reason, p.response.headers, p.connectionCloseRequested,
    p.closeDelimited, p.bodyForbidden)

/-- What a parser may have become. As long as it is at the head this may be read again. -/
structure Later (p p' : ResponseParser) : Prop where
  requestMethod : p'.requestMethod = p.requestMethod
  limits : p'.limits = p.limits
  body : p.response.body <+: p'.response.body
  reported : p.stage ≠ .head → p'.reported = p.reported
  stage : p.stage ≠ .head → p'.stage = p.stage ∨ p'.stage = .complete
  complete : p.stage = .complete → p'.response = p.response ∧ p.buffer <+: p'.buffer

section

variable {p p' p'' : ResponseParser}

theorem Later.refl (p : ResponseParser) : Later p p :=
  ⟨rfl, rfl, List.prefix_rfl, fun _ => rfl, fun _ => .inl rfl, fun _ => ⟨rfl, List.prefix_rfl⟩⟩

theorem Later.trans (h : Later p p') (h' : Later p' p'') : Later p p'' := by
  have hnext : p.stage ≠ .head → p'.stage ≠ .head := by
    intro hs
    obtain hsame | hdone := h.stage hs
    · rwa [hsame]
    · rw [hdone]
      exact ParserStage.noConfusion
  refine ⟨h'.requestMethod.trans h.requestMethod, h'.limits.trans h.limits, h.body.trans h'.body,
    fun hs => (h'.reported (hnext hs)).trans (h.reported hs), fun hs => ?_, fun hs => ?_⟩
  · obtain hsame | hdone := h'.stage (hnext hs)
    · rw [hsame]
      exact h.stage hs
    · exact .inr hdone
  · have hne : p.stage ≠ .head := by
      rw [hs]
      exact ParserStage.noConfusion
    have hdone : p'.stage = .complete := (h.stage hne).elim (fun hsame => hsame.trans hs) id
    obtain ⟨hresponse, hbuffer⟩ := h.complete hs
    obtain ⟨hresponse', hbuffer'⟩ := h'.complete hdone
    exact ⟨hresponse'.trans hresponse, hbuffer.trans hbuffer'⟩

/-- Before the final head has been read only the body counts. -/
theorem Later.of_head (hs : p.stage = .head) (hmethod : p'.requestMethod = p.requestMethod)
    (hlimits : p'.limits = p.limits) (hbody : p'.response.body = p.response.body) : Later p p' := by
  refine ⟨hmethod, hlimits, hbody ▸ List.prefix_rfl, fun hne => absurd hs hne,
    fun hne => absurd hs hne, fun hdone => ?_⟩
  cases hs.symm.trans hdone

/-- While a body is read. -/
theorem Later.of_body (hs : p.stage ≠ .complete) (hmethod : p'.requestMethod = p.requestMethod)
    (hlimits : p'.limits = p.limits) (hbody : p.response.body <+: p'.response.body)
    (hreported : p'.reported = p.reported) (hstage : p'.stage = p.stage ∨ p'.stage = .complete) :
    Later p p' :=
  ⟨hmethod, hlimits, hbody, fun _ => hreported, fun _ => hstage, fun hdone => absurd hdone hs⟩

theorem begin_later {k : BodyFraming} {x : ResponseParser ⊕ ParseExit} (h : p.begin k = x) :
    x.elim (fun p' => p'.requestMethod = p.requestMethod ∧ p'.limits = p.limits ∧
        p'.response = p.response)
      fun r => r.2.requestMethod = p.requestMethod ∧ r.2.limits = p.limits ∧
        r.2.response = p.response := by
  subst h
  cases k with
  | none | chunked | untilClose => exact ⟨rfl, rfl, rfl⟩
  | length n =>
    unfold begin
    dsimp only
    split_ifs
    · exact ⟨rfl, rfl, rfl⟩
    · exact ⟨rfl, rfl, rfl⟩

theorem Round.later (h : Round p p') : Later p p' := by
  cases h with
  | interim hread => exact .of_head hread.stage rfl rfl rfl
  | final hread hfinal hframed hfits hbegin =>
    obtain ⟨hmethod, hlimits, hresponse⟩ := begin_later hbegin
    exact .of_head hread.stage hmethod hlimits (by rw [hresponse]; rfl)

theorem Rest.later {q : ResponseParseProgress} (h : Rest p q p') : Later p p' := by
  cases h with
  | head => exact .refl p
  | headDone hread hfinal hframed hfits hbegin =>
    obtain ⟨hmethod, hlimits, hresponse⟩ := begin_later hbegin
    exact .of_head hread.stage hmethod hlimits (by rw [hresponse]; rfl)
  | length hs =>
    exact .of_body (by simp [hs]) rfl rfl (List.prefix_append _ _) rfl (.inl rfl)
  | lengthDone hs =>
    exact .of_body (by simp [hs]) rfl rfl (List.prefix_append _ _) rfl (.inr rfl)
  | closeDelimited hs =>
    exact .of_body (by simp [hs]) rfl rfl (List.prefix_append _ _) rfl (.inl rfl)
  | chunked hs hdecoded =>
    have hgrows := (p.chunkedDecoder.process_keeps p.buffer p.response.body).2
    rw [hdecoded] at hgrows
    exact .of_body (by simp [hs]) rfl rfl hgrows rfl (.inl rfl)
  | chunkedDone hs hdecoded =>
    have hgrows := (p.chunkedDecoder.process_keeps p.buffer p.response.body).2
    rw [hdecoded] at hgrows
    exact .of_body (by simp [hs]) rfl rfl hgrows rfl (.inr rfl)
  | complete => exact .refl p

theorem Fault.later {e : Error} (h : Fault p e p') : Later p p' := by
  cases h with
  | headTooLong | closeDelimited => exact .refl p
  | head hs hcut hstep hleft =>
    obtain rfl | rfl | ⟨head, framing, rfl | rfl⟩ := hleft
    · exact .refl _
    · exact .of_head hs rfl rfl rfl
    · exact .of_head hs rfl rfl rfl
    · exact .of_head hs rfl rfl rfl
  | chunked hs hdecoded | chunkedForbidden hs hdecoded =>
    have hgrows := (p.chunkedDecoder.process_keeps p.buffer p.response.body).2
    rw [hdecoded] at hgrows
    exact .of_body (by simp [hs]) rfl rfl hgrows rfl (.inl rfl)

theorem feed_later (p : ResponseParser) (b : Bytes) : Later p (p.feed b).2 := by
  have hpush : Later p (p.push b) :=
    ⟨rfl, rfl, List.prefix_rfl, fun _ => rfl, fun _ => .inl rfl,
      fun _ => ⟨rfl, List.prefix_append _ _⟩⟩
  refine bufferLoop.run_post (Later p) (fun r => Later p r.2) ?_ ?_ (s := p.push b) hpush
  · exact fun t t' ht hstep => ht.trans (round_of_step hstep).later
  · rintro t ⟨e | q, t'⟩ ht hstep
    · exact ht.trans (fault_of_step hstep).later
    · exact ht.trans (rest_of_step hstep).later

theorem finishEof_later (p : ResponseParser) : Later p p.finishEof.2 := by
  unfold finishEof
  cases hs : p.stage with
  | closeDelimitedBody =>
    dsimp only
    split
    · exact .refl p
    · next p' htake =>
      obtain ⟨-, rfl⟩ := takeCloseDelimited_ok_iff.mp htake
      exact .of_body (by simp [hs]) rfl rfl (List.prefix_append _ _) rfl (.inr rfl)
  | complete | head | contentLengthBody | chunkedBody => exact .refl p

theorem afterCalls_later (p : ResponseParser) (calls : List Call) : Later p (p.afterCalls calls) := by
  unfold afterCalls
  induction calls generalizing p with
  | nil => exact .refl p
  | cons c calls ih =>
    rw [List.foldl_cons]
    cases c with
    | feed b => exact (feed_later p b).trans (ih _)
    | finishEof => exact (finishEof_later p).trans (ih _)

/-- At every two moments of a run of calls, whatever they have answered. -/
theorem history_kept (requestMethod : Method) (limits : ResponseLimits) (calls calls' : List Call) :
    Later ((fresh requestMethod limits).afterCalls calls)
      ((fresh requestMethod limits).afterCalls (calls ++ calls')) := by
  unfold afterCalls
  rw [List.foldl_append]
  exact afterCalls_later _ calls'

end

end ResponseParser

end CppRequest
