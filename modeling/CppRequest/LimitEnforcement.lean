import CppRequest.PartialResponse
import CppRequest.Refusals
import CppRequest.ResponseText
import CppRequest.UniqueReading

/-!
# What the limits reject

A response that keeps the limits, and one that exceeds them, in pieces, all of which are
fed. What keeps the limits is accepted, unless a piece ends between the CR and the LF of a
size line that is as long as the limit allows. What exceeds a limit never completes, unless
there are calls behind one that has refused something and not kept it.
-/

namespace CppRequest

open Search

def limitExceeded : Error := { code := .responseLimitExceeded }

namespace ResponseParser

variable {requestMethod : Method}

/-- The limits reject the response, fed in `pieces`, if and only if it exceeds them. All calls are
made, also those behind a refused one. The end of input may come after any of the pieces. -/
structure RejectsExactly (w : WireResponse requestMethod) (limits : ResponseLimits)
    (pieces : List Bytes) : Prop where
  accepts : w.Within limits → ∀ c, c <+: pieces →
    .error limitExceeded ∉ ((fresh requestMethod limits).feedEach c).1 ∧
      ((fresh requestMethod limits).feedEach c).2.finishEof.1 ≠ .error limitExceeded
  refuses : ¬ w.Within limits →
    .ok .complete ∉ ((fresh requestMethod limits).feedEach pieces).1 ∧
      (∀ c, c <+: pieces → ((fresh requestMethod limits).feedEach c).2.isComplete = false) ∧
      ((fresh requestMethod limits).feedEach pieces).2.finishEof.1 ≠ .ok .complete ∧
      ((fresh requestMethod limits).feedEach pieces).2.finishEof.2.isComplete = false

/-- Whatever is refused before the last call stays in front of the parser. -/
def EarlierClear (requestMethod : Method) (limits : ResponseLimits) (pieces : List Bytes) : Prop :=
  ∀ before b after, pieces = before ++ b :: after → after ≠ [] →
    ((fresh requestMethod limits).feedEach before).2.Clear (.feed b)

variable {limits : ResponseLimits} {pieces : List Bytes}

/-- The parser behind pieces the last of which has been refused. -/
theorem not_complete_of_failure {e : Error}
    (h : failure ((fresh requestMethod limits).feedAll pieces).1 = some e) :
    ((fresh requestMethod limits).feedAll pieces).2.isComplete = false ∧
      ((fresh requestMethod limits).feedAll pieces).2.finishEof.2.isComplete = false := by
  have hne : pieces ≠ [] := by
    rintro rfl
    cases h
  rcases resumable.feedAll_last_call (fresh requestMethod limits) hne with
    ⟨p, b, r, hcall, hlast⟩
  cases r with
  | ok q => exact absurd ((failure_of_last_ok hlast).symm.trans h) nofun
  | error e' =>
    rcases fault_of_run hcall with ⟨t, -, hfault⟩
    exact hfault.not_complete

/-- Only responses within the limits complete. -/
theorem within_of_complete (w : WireResponse requestMethod) (hsplit : pieces.flatten <+: w.encode)
    (h : ((fresh requestMethod limits).feedAll pieces).2.isComplete = true) : w.Within limits := by
  cases hfailure : failure ((fresh requestMethod limits).feedAll pieces).1 with
  | some e => exact absurd (h.symm.trans (not_complete_of_failure hfailure).1) nofun
  | none =>
    rcases feed_of_no_failure hfailure with ⟨q, hfeed⟩
    have hq : q = .complete := (complete_iff_of_run hfeed).mp h
    subst hq
    rcases feed_complete_iff.mp hfeed with ⟨w', rest, hflat, hin, hself, -⟩
    rcases hsplit with ⟨tail, htail⟩
    rw [hflat, List.append_assoc, ← List.append_nil w.encode] at htail
    rcases WireResponse.encode_inj (fun hclose => absurd hclose hself) htail with ⟨rfl, -⟩
    exact hin

theorem within_of_eof (w : WireResponse requestMethod) (hsplit : pieces.flatten = w.encode)
    (h : ((fresh requestMethod limits).feedAll pieces).2.finishEof.2.isComplete = true) :
    w.Within limits := by
  cases hfailure : failure ((fresh requestMethod limits).feedAll pieces).1 with
  | some e => exact absurd (h.symm.trans (not_complete_of_failure hfailure).2) nofun
  | none =>
    rcases feed_of_no_failure hfailure with ⟨q, hfeed⟩
    cases q with
    | complete =>
      exact within_of_complete w (hsplit ▸ List.prefix_rfl) ((complete_iff_of_run hfeed).mpr rfl)
    | needMore =>
      rcases heof : ((fresh requestMethod limits).feedAll pieces).2.finishEof with ⟨e | q, p⟩
      · rw [heof] at h
        exact absurd (h.symm.trans (finishEof_error heof)) nofun
      · rcases finishEof_complete_iff.mp ⟨_, q, hfeed, heof⟩ with ⟨w', hflat, hin, hclose, -⟩
        have hsame : w'.encode ++ [] = w.encode ++ [] := by rw [← hflat, hsplit]
        rcases WireResponse.encode_inj (fun _ => ⟨rfl, rfl⟩) hsame with ⟨rfl, -⟩
        exact hin

/-- What one call says of the first bytes of a response within the limits. -/
theorem feed_within (w : WireResponse requestMethod) {P : Bytes} (hin : w.Within limits)
    (hP : P <+: w.encode) :
    (¬ w.CutInLine limits P ∧ ∃ q p, (fresh requestMethod limits).feed P = (.ok q, p) ∧
        (p.finishEof.1 = .ok .complete ∨ p.finishEof.1 = .error { code := .unexpectedEof })) ∨
      w.CutInLine limits P ∧ ((fresh requestMethod limits).feed P).1 = .error limitExceeded := by
  by_cases hwhole : w.body.framing = .untilClose ∨ P ≠ w.encode
  · rcases feed_begun w hin hP hwhole with ⟨hcut, p, hfeed, heof⟩ | ⟨hcut, p, hfeed⟩
    · refine .inl ⟨hcut, _, p, hfeed, ?_⟩
      split_ifs at heof with hclose
      · exact heof.imp_right (congrArg Prod.fst)
      · exact .inr (congrArg Prod.fst heof)
    · exact .inr ⟨hcut, congrArg Prod.fst hfeed⟩
  · rw [not_or, not_not] at hwhole
    rcases hwhole with ⟨hself, rfl⟩
    have hdone := feed_complete_iff.mpr ⟨w, [], (List.append_nil _).symm, hin, hself, rfl⟩
    exact .inl ⟨fun hcut => hcut.ne_encode rfl, _, _, hdone, .inl rfl⟩

theorem accepted_of_no_cut (w : WireResponse requestMethod) (hin : w.Within limits)
    (hsplit : pieces.flatten <+: w.encode)
    (hcut : ∀ c, c <+: pieces → ¬ w.CutInLine limits c.flatten) :
    (∀ e, .error e ∉ ((fresh requestMethod limits).feedAll pieces).1) ∧
      (((fresh requestMethod limits).feedAll pieces).2.finishEof.1 = .ok .complete ∨
        ((fresh requestMethod limits).feedAll pieces).2.finishEof.1 =
          .error { code := .unexpectedEof }) := by
  have hpart : ∀ {c}, c <+: pieces → c.flatten <+: w.encode := fun hc => hc.flatten.trans hsplit
  have hok : ∀ c, c <+: pieces → ∃ q, ((fresh requestMethod limits).feed c.flatten).1 = .ok q := by
    intro c hc
    rcases feed_within w hin (hpart hc) with ⟨-, q, p, hfeed, -⟩ | ⟨hyes, -⟩
    · exact ⟨q, congrArg Prod.fst hfeed⟩
    · exact absurd hyes (hcut c hc)
  constructor
  · intro e he
    rcases resumable.mem_feedAll he with ⟨c, -, hc, hanswer⟩
    rcases hok c hc with ⟨q, hq⟩
    exact nomatch hanswer.trans hq
  · rcases feed_of_no_failure (failure_eq_none hok) with ⟨q, hwhole⟩
    rcases feed_within w hin hsplit with ⟨-, q', p, hfeed, heof⟩ | ⟨hyes, -⟩
    · rw [hwhole] at hfeed
      rwa [(Prod.mk.inj hfeed).2]
    · exact absurd hyes (hcut pieces List.prefix_rfl)

/-- Pieces that end in a full size line are refused. -/
theorem refused_of_cut (w : WireResponse requestMethod) (hin : w.Within limits)
    (hsplit : pieces.flatten = w.encode) {c : List Bytes} (hc : c <+: pieces)
    (hcut : w.CutInLine limits c.flatten) :
    .error limitExceeded ∈ ((fresh requestMethod limits).feedAll pieces).1 := by
  have hpart : ∀ {c}, c <+: pieces → c.flatten <+: w.encode := fun hc => hsplit ▸ hc.flatten
  have hrefused : ∀ {c}, c <+: pieces → ∀ {e},
      ((fresh requestMethod limits).feed c.flatten).1 = .error e → e = limitExceeded := by
    intro c hc e he
    rcases feed_within w hin (hpart hc) with ⟨-, q, p, hfeed, -⟩ | ⟨-, hlimit⟩
    · rw [hfeed] at he
      cases he
    · exact Except.error.inj (he.symm.trans hlimit)
  have hne : c ≠ [] := by
    rintro rfl
    rcases feed_within w hin (hpart hc) with ⟨hno, -⟩ | ⟨-, hlimit⟩
    · exact hno hcut
    · rw [List.flatten_nil, feed_nil_fresh] at hlimit
      cases hlimit
  rcases feed_within w hin (hpart hc) with ⟨hno, -⟩ | ⟨-, hlimit⟩
  · exact absurd hcut hno
  · rcases resumable.feedAll_error (fresh requestMethod limits) hc hne hlimit with ⟨e, he⟩
    rcases resumable.mem_feedAll he with ⟨c', -, hc', hanswer⟩
    rwa [hrefused hc' hanswer.symm] at he

/-! ## All calls -/

/-- A run in which a call has been refused does not complete. -/
theorem not_complete_behind {before after : List Bytes} {b : Bytes} {e : Error}
    (hclear : after ≠ [] → ((fresh requestMethod limits).feedEach before).2.Clear (.feed b))
    (herror : (((fresh requestMethod limits).feedEach before).2.feed b).1 = .error e) :
    ((fresh requestMethod limits).feedEach (before ++ b :: after)).2.isComplete = false ∧
      ((fresh requestMethod limits).feedEach (before ++ b :: after)).2.finishEof.2.isComplete =
        false := by
  rw [feedEach_append, feedEach]
  generalize ((fresh requestMethod limits).feedEach before).2 = p at hclear herror
  rcases eq_or_ne after [] with rfl | hlast
  · rcases hcall : p.feed b with ⟨r, p'⟩
    rw [hcall] at herror
    cases herror
    rcases fault_of_run hcall with ⟨t, -, hfault⟩
    exact hfault.not_complete
  · have hone : (p.feed b).2.Stuck := (hclear hlast).call.2 b e rfl herror
    have hstuck := hone.feedEach after
    rcases hstuck.finishEof with ⟨e', heof⟩
    refine ⟨hstuck.not_complete.1, ?_⟩
    rw [heof]
    exact hstuck.not_complete.1

/-- What exceeds a limit does not complete, and no end of input behind all of it completes it. -/
theorem not_complete_of_not_within (w : WireResponse requestMethod)
    (hsplit : pieces.flatten = w.encode) (hclear : EarlierClear requestMethod limits pieces)
    (hout : ¬ w.Within limits) {c : List Bytes} (hc : c <+: pieces) :
    ((fresh requestMethod limits).feedEach c).2.isComplete = false ∧
      (c = pieces → ((fresh requestMethod limits).feedEach c).2.finishEof.2.isComplete = false) := by
  rcases first_refused (fresh requestMethod limits) c with
    hnone | ⟨before, b, after, e, rfl, -, herror⟩
  · have hpart : c.flatten <+: w.encode := hsplit ▸ hc.flatten
    rw [feedEach_of_no_failure hnone]
    refine ⟨?_, fun hall => ?_⟩
    · rw [Bool.eq_false_iff]
      exact fun hcomplete => hout (within_of_complete w hpart hcomplete)
    · rw [← hall] at hsplit
      rw [Bool.eq_false_iff]
      exact fun hcomplete => hout (within_of_eof w hsplit hcomplete)
  · rcases hc with ⟨d, rfl⟩
    have hone : after ≠ [] → ((fresh requestMethod limits).feedEach before).2.Clear (.feed b) :=
      fun hlast => hclear before b (after ++ d) (by simp) (by simp [hlast])
    have hbehind := not_complete_behind hone herror
    exact ⟨hbehind.1, fun _ => hbehind.2⟩

/-- The limits reject exactly what exceeds them, unless the response keeps the limits and some
piece ends between the CR and the LF of a size line of the greatest length. Where the response
exceeds a limit, no call but the last one refuses anything that does not stay in front of the
parser. -/
theorem rejectsExactly_iff (w : WireResponse requestMethod) (limits : ResponseLimits)
    (pieces : List Bytes) (hsplit : pieces.flatten = w.encode)
    (hclear : ¬ w.Within limits → EarlierClear requestMethod limits pieces) :
    RejectsExactly w limits pieces ↔
      ¬ (w.Within limits ∧ ∃ c, c <+: pieces ∧ w.CutInLine limits c.flatten) := by
  constructor
  · rintro h ⟨hin, c, hc, hcut⟩
    have hrefused := refused_of_cut w hin hsplit hc hcut
    exact (h.accepts hin pieces List.prefix_rfl).1 ((answers_feedAll _ pieces).subset hrefused)
  · intro h
    refine ⟨fun hin c hc => ?_, fun hout => ?_⟩
    · have hpart : c.flatten <+: w.encode := hsplit ▸ hc.flatten
      rcases accepted_of_no_cut w hin hpart fun c' hc' hcut => h ⟨hin, c', hc'.trans hc, hcut⟩ with
        ⟨hanswers, heof⟩
      rw [feedEach_of_no_failure (failure_of_forall_ok hanswers)]
      refine ⟨hanswers _, fun hlimit => ?_⟩
      rcases heof with heof | heof
      · exact nomatch heof.symm.trans hlimit
      · exact nomatch heof.symm.trans hlimit
    · have hopen := fun {c} (hc : c <+: pieces) =>
        not_complete_of_not_within w hsplit (hclear hout) hout hc
      have heof := (hopen List.prefix_rfl).2 rfl
      refine ⟨fun hmem => ?_, fun c hc => (hopen hc).1, fun hdone => ?_, heof⟩
      · rcases complete_of_answers hmem with ⟨c, hc, hcomplete⟩
        exact nomatch hcomplete.symm.trans (hopen hc).1
      · rcases hend : ((fresh requestMethod limits).feedEach pieces).2.finishEof with ⟨r, p⟩
        rw [hend] at hdone heof
        cases hdone
        exact nomatch (finishEof_ok hend).2.symm.trans heof

/-- A chunked response without data, and the piece that ends behind the CR of its size line. -/
def emptyChunked : WireResponse .get where
  interims := []
  interim := nofun
  final :=
    { block := (HeadText.mk okStatus [chunkedField.line]).block
      head := (HeadText.mk okStatus [chunkedField.line]).parsed
      framing := { transferEncodingFields := 1, transferEncodingTokens := 1 }
      leads := HeadText.leads _
      parses := HeadText.parse _
      analyzed := by decide }
  isFinal := by decide
  body := .chunked ⟨[], ⟨bytes "0", by decide, by decide⟩, []⟩
  framed := .chunked (by decide) (by decide) rfl rfl rfl
  reset := fun _ => rfl

def emptyChunkedPieces : List Bytes :=
  [bytes "HTTP/1.1 200 OK\r\nTransfer-Encoding: chunked\r\n\r\n0\r", bytes "\n\r\n"]

theorem rejectsExactly_iff_default :
    (RejectsExactly emptyChunked {} emptyChunkedPieces ↔ ¬ (emptyChunked.Within {} ∧
        ∃ c, c <+: emptyChunkedPieces ∧ emptyChunked.CutInLine {} c.flatten)) ∧
      ¬ emptyChunked.Within { maxHeadBytes := 10 } ∧
      (RejectsExactly emptyChunked { maxHeadBytes := 10 } emptyChunkedPieces ↔
        ¬ (emptyChunked.Within { maxHeadBytes := 10 } ∧ ∃ c, c <+: emptyChunkedPieces ∧
          emptyChunked.CutInLine { maxHeadBytes := 10 } c.flatten)) := by
  have hsplit : emptyChunkedPieces.flatten = emptyChunked.encode := by decide
  have hin : emptyChunked.Within {} :=
    ⟨nofun, by decide,
      ChunkedMessage.forall_sizeLine
        (p := fun line => line.length ≤ ({} : ResponseLimits).maxChunkLineBytes.toNat)
        nofun (by decide),
      by decide, by decide⟩
  have hout : ¬ emptyChunked.Within { maxHeadBytes := 10 } := fun h => absurd h.final (by decide)
  refine ⟨rejectsExactly_iff emptyChunked {} emptyChunkedPieces hsplit fun h => absurd hin h, hout,
    rejectsExactly_iff emptyChunked { maxHeadBytes := 10 } emptyChunkedPieces hsplit fun _ => ?_⟩
  intro before b after hpieces hlast
  rcases before with _ | ⟨b₁, before⟩
  · cases hpieces
    exact clear_of_refused_head (bytes "HTTP/1.1 200 OK\r\nTransfer-Encoding: chunked")
      (bytes "0\r") rfl (by decide) (.inl (by decide))
  · have hlength := congrArg List.length hpieces
    have hpos := List.length_pos_iff.mpr hlast
    simp [emptyChunkedPieces] at hlength
    omega

theorem sixteen_wellFormed : validHeaderName (bytes "Content-Length") = true ∧
    validFieldValue (bytes "16") = true ∧ trimOws (bytes "16") = bytes "16" := by
  decide

def sixteen : FieldLine where
  field := ⟨bytes "Content-Length", bytes "16"⟩
  before := [sp]
  after := []
  name := sixteen_wellFormed.1
  value := sixteen_wellFormed.2.1
  trimmed := sixteen_wellFormed.2.2
  blankBefore := rfl
  blankAfter := List.all_nil

/-- A response with sixteen bytes of data, which read like a head. -/
def nestedHead : WireResponse .get where
  interims := []
  interim := nofun
  final :=
    { block := (HeadText.mk okStatus [sixteen]).block
      head := (HeadText.mk okStatus [sixteen]).parsed
      framing := { contentLengthCount := 1, contentLength := 16 }
      leads := HeadText.leads _
      parses := HeadText.parse _
      analyzed := by decide }
  isFinal := by decide
  body := .length (bytes "HTTP/1.1 204\r\n\r\n")
  framed := .length (by decide) rfl rfl (by decide)
  reset := nofun

def nestedHeadPieces : List Bytes :=
  [bytes "HTTP/1.1 200 OK\r\nContent-Length: 16\r\n\r\n", bytes "HTTP/1.1 204\r\n\r\n"]

/-- A size line of the greatest length is refused. And the data of a response whose head has been
refused is read as a response. -/
theorem limits_reject_inexactly :
    (emptyChunked.final.head.statusCode = 200 ∧
      emptyChunkedPieces.flatten = emptyChunked.encode ∧
      emptyChunked.Within { maxChunkLineBytes := 1 } ∧
      ¬ RejectsExactly emptyChunked { maxChunkLineBytes := 1 } emptyChunkedPieces) ∧
    nestedHead.final.head.statusCode = 200 ∧ nestedHeadPieces.flatten = nestedHead.encode ∧
      ¬ nestedHead.Within { maxBodyBytes := 15 } ∧
      ¬ RejectsExactly nestedHead { maxBodyBytes := 15 } nestedHeadPieces := by
  have hsplit : emptyChunkedPieces.flatten = emptyChunked.encode := by decide
  have hin : emptyChunked.Within { maxChunkLineBytes := 1 } :=
    ⟨nofun, by decide,
      ChunkedMessage.forall_sizeLine (p := fun line => line.length ≤ 1) nofun (by decide),
      by decide, by decide⟩
  have hout : ¬ nestedHead.Within { maxBodyBytes := 15 } := fun h => by
    have hbody : (16 : ℕ) ≤ 15 := h.body
    omega
  refine ⟨⟨by decide, hsplit, hin, fun h => ?_⟩, by decide, by decide, hout, fun h => ?_⟩
  · have hcut : emptyChunked.CutInLine { maxChunkLineBytes := 1 }
        (emptyChunkedPieces.take 1).flatten := ⟨bytes "0\r", by decide, 0, le_rfl, by decide, by decide⟩
    have hrefused := refused_of_cut emptyChunked hin hsplit (List.take_prefix _ _) hcut
    exact (h.accepts hin _ List.prefix_rfl).1 ((answers_feedAll _ _).subset hrefused)
  · have hcomplete : ((fresh .get { maxBodyBytes := 15 }).feedEach nestedHeadPieces).2.isComplete =
        true := by decide +kernel
    exact nomatch hcomplete.symm.trans ((h.refuses hout).2.1 _ List.prefix_rfl)

end ResponseParser

end CppRequest
