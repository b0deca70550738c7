import CppRequest.ParserResumption

/-!
# Segmentation of the response

How the bytes of a response are cut into calls of `feed` cannot be observed, as long
as no limit on chunk-size lines binds. Asking for more loses nothing by resumption;
what remains is that a failure stays a failure when the calls are cut differently.
It keeps its code, except that a 205 response with a chunked body is refused for its
first byte of data in one cut and for a later framing error in another.
-/

namespace CppRequest.ResponseParser

open Search Resumable

/-- Calls of `feed` up to the first one that fails: the answers and the last parser. -/
def feedAll (p : ResponseParser) (pieces : List Bytes) :
    List (Result ResponseParseProgress) × ResponseParser := resumable.feedAll p pieces

/-- Calls of `feed`, made to the last one even on a parser that has refused some bytes. -/
def feedEach (p : ResponseParser) :
    List Bytes → List (Result ResponseParseProgress) × ResponseParser
  | [] => ([], p)
  | b :: pieces =>
    ((p.feed b).1 :: (feedEach (p.feed b).2 pieces).1, (feedEach (p.feed b).2 pieces).2)

/-! ## A parser that has not failed -/

/-- What holds of a parser none of whose calls has failed. -/
structure Steady (p : ResponseParser) : Prop where
  decoderLimits : p.chunkedDecoder.limits = p.limits
  headAllowed : p.stage = .head → p.bodyForbidden = false
  forbidden : p.bodyForbidden = true → p.response.statusCode = 205

theorem fresh_steady (requestMethod : Method) (limits : ResponseLimits) :
    (fresh requestMethod limits).Steady := ⟨rfl, fun _ => rfl, fun h => by cases h⟩

theorem Steady.push {p : ResponseParser} (b : Bytes) (h : p.Steady) : (p.push b).Steady :=
  ⟨h.decoderLimits, h.headAllowed, h.forbidden⟩

/-- What accepting a final head leaves alone. -/
theorem begin_next {p p' : ResponseParser} {k : BodyFraming} (h : p.begin k = .inl p') :
    p'.stage ≠ .head ∧ p'.limits = p.limits ∧ p'.chunkedDecoder = p.chunkedDecoder ∧
      p'.response = p.response ∧ p'.bodyForbidden = p.forbid.bodyForbidden := by
  cases k with
  | none => cases h
  | chunked | untilClose =>
    cases h
    exact ⟨by simp, rfl, rfl, rfl, rfl⟩
  | length n =>
    unfold begin at h
    simp only [finish] at h
    split_ifs at h
    cases h
    exact ⟨by simp, rfl, rfl, rfl, rfl⟩

theorem Round.steady {p p' : ResponseParser} (h : Round p p') (hp : p.Steady) : p'.Steady := by
  cases h with
  | interim => exact ⟨hp.decoderLimits, hp.headAllowed, hp.forbidden⟩
  | final hread hfinal hframed hfits hbegin =>
    rcases begin_next hbegin with ⟨hstage, hlimits, hdecoder, hresponse, hforbidden⟩
    refine ⟨?_, fun hs => absurd hs hstage, fun hf => ?_⟩
    · rw [hlimits, hdecoder]
      exact hp.decoderLimits
    · rw [hforbidden] at hf
      rw [hresponse]
      simpa [ResponseParser.forbid, ResponseParser.final, hp.headAllowed hread.stage] using hf

/-! ## A failure is final -/

theorem takeCloseDelimited_error_push {p : ResponseParser} {code : ErrorCode} (b : Bytes)
    (h : p.takeCloseDelimited = .error code) : (p.push b).takeCloseDelimited = .error code := by
  rcases takeCloseDelimited_error h with ⟨hne, hcode⟩
  have hne' : (p.push b).buffer ≠ [] := by simp [push, hne]
  have hlen : (p.push b).buffer.length = p.buffer.length + b.length := List.length_append
  cases hr : (p.push b).takeCloseDelimited with
  | ok q =>
    rcases takeCloseDelimited_ok_iff.mp hr with ⟨⟨hallowed, hroom⟩, -⟩
    rcases hcode with ⟨-, hforbidden⟩ | ⟨-, -, hlong⟩
    · exact absurd (hallowed hforbidden) hne'
    · have hshort : p.response.body.length + (p.push b).buffer.length ≤
          p.limits.maxBodyBytes.toNat := hroom hne'
      omega
  | error code' =>
    rcases takeCloseDelimited_error hr with ⟨-, hcode'⟩
    have hforbidden : (p.push b).bodyForbidden = p.bodyForbidden := rfl
    rw [hforbidden] at hcode'
    grind

/-- The round that fails also fails with more input behind it. -/
theorem Fault.push {p p' : ResponseParser} {e : Error} (b : Bytes) (h : Fault p e p')
    (hp : p.Steady) (hroom : (p.buffer ++ b).length ≤ p.limits.maxChunkLineBytes.toNat) :
    ∃ e' p'', bufferStep (p.push b) = .inr (.error e', p'') ∧
      statusMark p'' = statusMark p' ∧ (statusMark p' = 205 ∨ e' = e) := by
  cases h with
  | headTooLong hs hno hlen =>
    have hstep := bufferStep_head (p := p.push b) hs
    cases hcut : cut crlfcrlf (p.push b).buffer with
    | none =>
      have hlong : p.limits.maxHeadBytes.toNat < (p.buffer ++ b).length := by
        rw [List.length_append]
        omega
      rw [hcut] at hstep
      exact ⟨_, _, hstep.trans (if_pos hlong), rfl, .inr rfl⟩
    | some r =>
      have hblock := length_lt_of_cut_append (cut_eq_none_iff.mpr hno) hcut
      have hneedle : crlfcrlf.length = 4 := rfl
      have hlong : wouldExceed r.1.length 4 p.limits.maxHeadBytes.toNat = true := by
        rw [wouldExceed_eq_true]
        omega
      rw [hcut] at hstep
      exact ⟨_, _, hstep.trans (if_pos hlong), rfl, .inr rfl⟩
  | head hs hcut hstep hleft =>
    refine ⟨e, p'.push b, ?_, rfl, .inr rfl⟩
    rw [bufferStep_push_cut b hs hcut, hstep]
    rfl
  | closeDelimited hs htake =>
    have hpush := Fault.closeDelimited (p := p.push b) hs (takeCloseDelimited_error_push b htake)
    exact ⟨_, _, hpush.step, rfl, .inr rfl⟩
  | @chunked c _ hs hdecoded =>
    have hagain := ChunkedDecoder.process_error_push b
      (by rw [hp.decoderLimits]; exact hroom) hdecoded
    rcases hmore : p.chunkedDecoder.process (p.buffer ++ b) p.response.body with ⟨r, c'⟩
    rw [hmore] at hagain
    simp only at hagain
    subst hagain
    exact ⟨e, _, (Fault.chunked (p := p.push b) hs hmore).step, rfl, .inr rfl⟩
  | @chunkedForbidden c q hs hdecoded hforbidden hdata =>
    have hreset : statusMark (p.decoded c) = 205 := hp.forbidden hforbidden
    rcases hmore : p.chunkedDecoder.process (p.buffer ++ b) p.response.body with ⟨e' | q', c'⟩
    · exact ⟨e', _, (Fault.chunked (p := p.push b) hs hmore).step, rfl, .inl hreset⟩
    · have hdata' : c'.output ≠ [] := by
        have hstate := (process_push b hdecoded).2 q' (by rw [hmore])
        have hagain := (process_push b hdecoded).1
        rw [hmore] at hagain hstate
        have hpre := ChunkedDecoder.output_grows (Prod.ext hagain.symm hstate.symm)
        exact fun hnil => hdata (List.prefix_nil.mp (hnil ▸ hpre))
      exact ⟨_, _, (Fault.chunkedForbidden (p := p.push b) hs hmore hforbidden hdata').step, rfl,
        .inl hreset⟩

theorem Round.frame {p p' : ResponseParser} (h : Round p p') :
    p'.limits = p.limits ∧ p'.buffer.length ≤ p.buffer.length := by
  refine ⟨?_, (bufferStep_decreases h.step).le⟩
  cases h with
  | interim => rfl
  | final hread hfinal hframed hfits hbegin => exact (begin_next hbegin).2.1

theorem run_error_push {p p' : ResponseParser} {e : Error} (b : Bytes) (hp : p.Steady)
    (hroom : (p.buffer ++ b).length ≤ p.limits.maxChunkLineBytes.toNat)
    (h : bufferLoop.run p = (.error e, p')) :
    ∃ e' p'', bufferLoop.run (p.push b) = (.error e', p'') ∧
      statusMark p'' = statusMark p' ∧ (statusMark p' = 205 ∨ e' = e) := by
  rcases bufferLoop.exists_exit p with ⟨t, hreach, hexit⟩
  have hframe : t.Steady ∧ t.limits = p.limits ∧ t.buffer.length ≤ p.buffer.length := by
    refine hreach.invariant (I := fun t => t.Steady ∧ t.limits = p.limits ∧
      t.buffer.length ≤ p.buffer.length) ?_ ⟨hp, rfl, le_rfl⟩
    rintro t t' ⟨hsteady, hlimits, hlen⟩ hstep
    have hround := round_of_step hstep
    exact ⟨hround.steady hsteady, hround.frame.1.trans hlimits, hround.frame.2.trans hlen⟩
  rcases hframe with ⟨hsteady, hlimits, hlen⟩
  rw [h] at hexit
  have hroom' : (t.buffer ++ b).length ≤ t.limits.maxChunkLineBytes.toNat := by
    rw [List.length_append] at hroom ⊢
    rw [hlimits]
    omega
  rcases (fault_of_step hexit).push b hsteady hroom' with ⟨e', p'', hstep, hmark, hcode⟩
  have hsame : bufferLoop.run (p.push b) = bufferLoop.run (t.push b) :=
    resumable.run_push_of_reaches b hreach
  exact ⟨e', p'', hsame.trans (bufferLoop.run_of_exit hstep), hmark, hcode⟩

/-! ## All cuts at once -/

/-- The error that the calls of a run have ended with. -/
def failure (answers : List (Result ResponseParseProgress)) : Option Error :=
  match answers.getLast? with
  | some (.error e) => some e
  | _ => none

theorem failure_of_last_ok {answers : List (Result ResponseParseProgress)}
    {q : ResponseParseProgress} (h : answers.getLast? = some (.ok q)) : failure answers = none := by
  simp [failure, h]

theorem failure_of_last_error {answers : List (Result ResponseParseProgress)} {e : Error}
    (h : answers.getLast? = some (.error e)) : failure answers = some e := by
  simp [failure, h]

theorem feed_nil_fresh (requestMethod : Method) (limits : ResponseLimits) :
    (fresh requestMethod limits).feed [] = (.ok .needMore, fresh requestMethod limits) :=
  (Rest.head (p := fresh requestMethod limits) rfl (by simp [fresh, crlfcrlf])
    (Nat.zero_le _)).run

theorem failure_of_last {answers : List (Result ResponseParseProgress)}
    {r : Result ResponseParseProgress} (h : answers.getLast? = some r) :
    failure answers = none ↔ ∃ q, r = .ok q := by
  cases r with
  | ok q => simp [failure_of_last_ok h]
  | error e => simp [failure_of_last_error h]

/-- Pieces that are all accepted lead where all bytes in one call lead. -/
theorem feed_of_no_failure {requestMethod : Method} {limits : ResponseLimits}
    {pieces : List Bytes}
    (h : failure ((fresh requestMethod limits).feedAll pieces).1 = none) :
    ∃ q, (fresh requestMethod limits).feed pieces.flatten =
      (.ok q, ((fresh requestMethod limits).feedAll pieces).2) := by
  by_cases hnil : pieces = []
  · subst hnil
    exact ⟨_, feed_nil_fresh requestMethod limits⟩
  · rcases resumable.feedAll_last (fresh requestMethod limits) hnil with
      ⟨c, r, -, ⟨d, rfl⟩, hlast, hagree, hor⟩
    rcases (failure_of_last hlast).mp h with ⟨q, rfl⟩
    have hd : d = [] := by
      simpa using hor.resolve_right fun ⟨e, he⟩ => by cases he
    subst hd
    rw [List.append_nil] at hagree ⊢
    exact ⟨q, hagree.eq_of_ok⟩

/-- If no beginning of the pieces is refused in one call, no piece is refused. -/
theorem failure_eq_none {requestMethod : Method} {limits : ResponseLimits} {pieces : List Bytes}
    (h : ∀ c, c <+: pieces → ∃ q, ((fresh requestMethod limits).feed c.flatten).1 = .ok q) :
    failure ((fresh requestMethod limits).feedAll pieces).1 = none := by
  by_cases hnil : pieces = []
  · subst hnil
    rfl
  · rcases resumable.feedAll_last (fresh requestMethod limits) hnil with
      ⟨c, r, -, hc, hlast, hagree, -⟩
    rcases h c hc with ⟨q, hq⟩
    exact failure_of_last_ok (hlast.trans (congrArg some (hagree.answer.symm.trans hq)))

/-- Feeding pieces, compared with feeding everything in one call. -/
theorem feedAll_whole (requestMethod : Method) (limits : ResponseLimits) (pieces : List Bytes)
    (hroom : pieces.flatten.length ≤ limits.maxChunkLineBytes.toNat) :
    let run := (fresh requestMethod limits).feedAll pieces
    let whole := (fresh requestMethod limits).feed pieces.flatten
    (failure run.1 = none ∧ ∃ q, whole = (.ok q, run.2)) ∨
      ∃ e e' p', failure run.1 = some e ∧ whole = (.error e', p') ∧
        statusMark p' = statusMark run.2 ∧ (statusMark p' = 205 ∨ e' = e) := by
  intro run whole
  by_cases hfailure : failure run.1 = none
  · exact .inl ⟨hfailure, feed_of_no_failure hfailure⟩
  · right
    have hnil : pieces ≠ [] := by
      rintro rfl
      exact hfailure rfl
    rcases resumable.feedAll_last (fresh requestMethod limits) hnil with
      ⟨c, r, -, ⟨d, rfl⟩, hlast, hagree, -⟩
    cases r with
    | ok q => exact absurd (failure_of_last_ok hlast) hfailure
    | error e =>
      rcases hpart : (fresh requestMethod limits).feed c.flatten with ⟨r, p₁⟩
      rw [← feed_eq, hpart] at hagree
      have hanswer : r = .error e := hagree.answer
      subst hanswer
      have hsteady := (fresh_steady requestMethod limits).push c.flatten
      rw [List.flatten_append] at hroom
      rcases run_error_push d.flatten hsteady hroom hpart with ⟨e', p', hrun, hmark, hcode⟩
      refine ⟨e, e', p', failure_of_last_error hlast, ?_, hmark.trans hagree.mark, ?_⟩
      · rw [← hrun, push_push, ← List.flatten_append]
        rfl
      · rw [hmark]
        exact hcode

/-- Neither run has failed and both have left the same parser, or both have failed, with the same
error unless the final status is 205. -/
def SameOutcome (run run' : List (Result ResponseParseProgress) × ResponseParser) : Prop :=
  (failure run.1 = none ∧ failure run'.1 = none ∧ run.2 = run'.2 ∧
      run.2.finishEof = run'.2.finishEof) ∨
    ∃ e e', failure run.1 = some e ∧ failure run'.1 = some e' ∧
      run.2.response.statusCode = run'.2.response.statusCode ∧
      (run.2.response.statusCode ≠ 205 → e = e')

theorem segmentation_independent (requestMethod : Method) (limits : ResponseLimits)
    (pieces pieces' : List Bytes) (hsame : pieces.flatten = pieces'.flatten)
    (hroom : pieces.flatten.length ≤ limits.maxChunkLineBytes.toNat) :
    SameOutcome ((fresh requestMethod limits).feedAll pieces)
      ((fresh requestMethod limits).feedAll pieces') := by
  have h := feedAll_whole requestMethod limits pieces hroom
  have h' := feedAll_whole requestMethod limits pieces' (hsame ▸ hroom)
  rw [← hsame] at h'
  rcases h with ⟨hnone, q, hwhole⟩ | ⟨e, e₀, p, hsome, hwhole, hmark, hcode⟩ <;>
    rcases h' with ⟨hnone', q', hwhole'⟩ | ⟨e', e₀', p', hsome', hwhole', hmark', hcode'⟩
  · rw [hwhole] at hwhole'
    have hstate := (Prod.mk.inj hwhole').2
    exact .inl ⟨hnone, hnone', hstate, by rw [hstate]⟩
  · rw [hwhole] at hwhole'
    cases hwhole'
  · rw [hwhole] at hwhole'
    cases hwhole'
  · rw [hwhole] at hwhole'
    cases hwhole'
    refine .inr ⟨e, e', hsome, hsome', hmark.symm.trans hmark', fun hne => ?_⟩
    have hmark205 : statusMark p ≠ 205 := by
      rw [hmark]
      exact hne
    exact (hcode.resolve_left hmark205).symm.trans (hcode'.resolve_left hmark205)

theorem segmentation_independent_two_calls :
    SameOutcome ((fresh .get {}).feedAll [bytes "HTTP/1.1 200 OK\r", bytes "\n\r\n", bytes "body"])
      ((fresh .get {}).feedAll [bytes "HTTP/1.1 200 OK\r\n\r\nbody", []]) :=
  segmentation_independent .get {} _ _ (by decide) (by decide)

/-! ## Calls behind a refused one -/

theorem failure_cons_ok {q : ResponseParseProgress}
    {answers : List (Result ResponseParseProgress)} :
    failure (.ok q :: answers) = failure answers := by
  cases answers with
  | nil => rfl
  | cons r answers =>
    unfold failure
    rw [List.getLast?_cons_cons]

theorem feedEach_append (p : ResponseParser) (before after : List Bytes) :
    p.feedEach (before ++ after) =
      ((p.feedEach before).1 ++ ((p.feedEach before).2.feedEach after).1,
        ((p.feedEach before).2.feedEach after).2) := by
  induction before generalizing p with
  | nil => rfl
  | cons b before ih =>
    rw [List.cons_append, feedEach, ih]
    rfl

theorem failure_of_forall_ok {answers : List (Result ResponseParseProgress)}
    (h : ∀ e, .error e ∉ answers) : failure answers = none := by
  unfold failure
  split
  · next e hlast => exact absurd (List.mem_of_getLast? hlast) (h e)
  · rfl

/-- Without a refusal the runs are the same. -/
theorem feedEach_of_no_failure {p : ResponseParser} {pieces : List Bytes}
    (h : failure (p.feedAll pieces).1 = none) : p.feedEach pieces = p.feedAll pieces := by
  induction pieces generalizing p with
  | nil => rfl
  | cons b pieces ih =>
    rcases hf : p.feed b with ⟨e | q, p'⟩
    · rw [feedAll, resumable.feedAll_cons_error pieces hf] at h
      cases h
    · rw [feedAll, resumable.feedAll_cons_ok pieces hf] at h ⊢
      rw [feedEach, hf, ih (failure_cons_ok.symm.trans h)]
      rfl

/-- The runs differ only behind a refusal. -/
theorem feedEach_eq_feedAll (p : ResponseParser) (pieces : List Bytes)
    (h : ∀ c, c <+: pieces → c ≠ pieces → failure (p.feedAll c).1 = none) :
    p.feedEach pieces = p.feedAll pieces := by
  induction pieces generalizing p with
  | nil => rfl
  | cons b pieces ih =>
    rcases hf : p.feed b with ⟨e | q, p'⟩
    · cases pieces with
      | nil =>
        rw [feedAll, resumable.feedAll_cons_error [] hf, feedEach, hf]
        rfl
      | cons b' pieces =>
        have hone := h [b] ⟨b' :: pieces, rfl⟩ (by simp)
        rw [feedAll, resumable.feedAll_cons_error [] hf] at hone
        cases hone
    · have hrest := ih p' fun c hc hne => by
        have hcons := h (b :: c) (List.cons_prefix_cons.mpr ⟨rfl, hc⟩) (by simpa using hne)
        rw [feedAll, resumable.feedAll_cons_ok c hf] at hcons
        exact failure_cons_ok.symm.trans hcons
      rw [feedAll, resumable.feedAll_cons_ok pieces hf, feedEach, hf]
      rw [hrest]
      rfl

/-- Up to the first refusal the answers are the same. -/
theorem answers_feedAll (p : ResponseParser) (pieces : List Bytes) :
    (p.feedAll pieces).1 <+: (p.feedEach pieces).1 := by
  induction pieces generalizing p with
  | nil => exact List.prefix_rfl
  | cons b pieces ih =>
    rcases hf : p.feed b with ⟨e | q, p'⟩
    · rw [feedAll, resumable.feedAll_cons_error pieces hf, feedEach, hf]
      exact List.cons_prefix_cons.mpr ⟨rfl, List.nil_prefix⟩
    · rw [feedAll, resumable.feedAll_cons_ok pieces hf, feedEach, hf]
      exact List.cons_prefix_cons.mpr ⟨rfl, ih p'⟩

/-- No call is refused, or there is a first one that is. -/
theorem first_refused (p : ResponseParser) (pieces : List Bytes) :
    failure (p.feedAll pieces).1 = none ∨ ∃ before b after e,
      pieces = before ++ b :: after ∧ failure (p.feedAll before).1 = none ∧
        ((p.feedEach before).2.feed b).1 = .error e := by
  induction pieces generalizing p with
  | nil => exact .inl rfl
  | cons b pieces ih =>
    rcases hf : p.feed b with ⟨e | q, p'⟩
    · exact .inr ⟨[], b, pieces, e, rfl, rfl, congrArg Prod.fst hf⟩
    · rcases ih p' with hnone | ⟨before, b', after, e, rfl, hnone, herror⟩
      · left
        rw [feedAll, resumable.feedAll_cons_ok pieces hf]
        exact failure_cons_ok.trans hnone
      · refine .inr ⟨b :: before, b', after, e, rfl, ?_, ?_⟩
        · rw [feedAll, resumable.feedAll_cons_ok before hf]
          exact failure_cons_ok.trans hnone
        · rw [feedEach, hf]
          exact herror

/-- Behind a call that answers so the parser is complete. -/
theorem complete_of_answers {p : ResponseParser} {pieces : List Bytes}
    (h : .ok .complete ∈ (p.feedEach pieces).1) :
    ∃ c, c <+: pieces ∧ (p.feedEach c).2.isComplete = true := by
  induction pieces generalizing p with
  | nil => cases h
  | cons b pieces ih =>
    rw [feedEach, List.mem_cons] at h
    rcases h with h | h
    · have hf : p.feed b = (.ok .complete, (p.feed b).2) := Prod.ext h.symm rfl
      exact ⟨[b], ⟨pieces, rfl⟩, (complete_iff_of_run hf).mpr rfl⟩
    · rcases ih h with ⟨c, hc, hcomplete⟩
      exact ⟨b :: c, List.cons_prefix_cons.mpr ⟨rfl, hc⟩, hcomplete⟩

end CppRequest.ResponseParser
