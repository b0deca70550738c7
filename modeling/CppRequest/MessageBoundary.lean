import CppRequest.FramingFields
import CppRequest.Segmentation
import CppRequest.WireResponse

/-!
# Message boundaries

A parser that has completed has consumed exactly one response: its interim heads, its
final head and the body that the final head prescribes. What the head prescribes is
told here by its fields alone.
-/

namespace CppRequest

open ResponseParser

/-- An interim head: a 1xx status other than 101 and no framing field. -/
structure IsInterim (head : ParsedHead) : Prop where
  status : 100 ≤ head.statusCode ∧ head.statusCode ≤ 199 ∧ head.statusCode ≠ 101
  contentLength : head.headers.contentLengths = []
  transferEncoding : head.headers.values transferEncodingName = []

/-- The response ends with its head. -/
def HeaderTerminated (requestMethod : Method) (head : ParsedHead) : Prop :=
  requestMethod = .head ∨ head.statusCode = 101 ∨ head.statusCode = 204 ∨ head.statusCode = 304

def SingleChunked (head : ParsedHead) : Prop :=
  ∃ coding, head.headers.transferCodings = [coding] ∧ isChunkedCoding coding = true

/-- The bytes `wire` are the body prescribed by `head`, and `data` is its content. -/
structure BodyOf (requestMethod : Method) (head : ParsedHead) (eof : Bool)
    (wire data pending : Bytes) : Prop where
  terminated : HeaderTerminated requestMethod head → wire = [] ∧ data = []
  chunked : ¬ HeaderTerminated requestMethod head → SingleChunked head →
    ∃ m : ChunkedMessage, wire = m.encode ∧ data = m.data
  length : ¬ HeaderTerminated requestMethod head → ¬ SingleChunked head →
    ∀ value, head.headers.contentLengths = [value] →
      parseContentLength value = some wire.length ∧ data = wire
  untilClose : ¬ HeaderTerminated requestMethod head → ¬ SingleChunked head →
    (∀ value, head.headers.contentLengths ≠ [value]) →
      eof = true ∧ data = wire ∧ pending = []

theorem headerTerminated_iff {requestMethod : Method} {head : ParsedHead} :
    isHeaderTerminatedResponse requestMethod head.statusCode = true ↔
      HeaderTerminated requestMethod head := by
  simp [isHeaderTerminatedResponse, HeaderTerminated, or_assoc]

theorem HeadBlock.Interim.isInterim {h : HeadBlock} (hi : h.Interim) : IsInterim h.head := by
  rcases analyzeFraming_ok h.analyzed with ⟨hfields, -⟩
  have hstatus := hi.status
  simp only [isInterimStatus, Bool.and_eq_true, decide_eq_true_eq, bne_iff_ne] at hstatus
  refine ⟨⟨hstatus.1.1, by omega, hstatus.2⟩, ?_, ?_⟩
  · exact List.length_eq_zero_iff.mp (hfields.lengthCount.symm.trans hi.contentLength)
  · exact List.length_eq_zero_iff.mp (hfields.codingFields.symm.trans hi.transferEncoding)

theorem not_singleChunked {h : HeadBlock} (hte : h.framing.transferEncodingFields = 0) :
    ¬ SingleChunked h.head := by
  rintro ⟨coding, hcoding, -⟩
  rcases analyzeFraming_ok h.analyzed with ⟨hfields, -⟩
  have hnone := List.length_eq_zero_iff.mp (hfields.codingFields.symm.trans hte)
  rw [Headers.transferCodings, hnone] at hcoding
  cases hcoding

theorem single_length {h : HeadBlock} {value : Bytes}
    (hvalue : h.head.headers.contentLengths = [value]) :
    h.framing.contentLengthCount = 1 ∧
      parseContentLength value = some h.framing.contentLength := by
  rcases analyzeFraming_ok h.analyzed with ⟨hfields, -⟩
  have hcount := hfields.lengthCount
  have hlast := hfields.length value
  rw [hvalue] at hcount hlast
  exact ⟨hcount, hlast rfl⟩

/-- The body of a response is the one its final head prescribes. -/
theorem WireResponse.bodyOf {requestMethod : Method} (w : WireResponse requestMethod) {eof : Bool}
    {pending : Bytes} (hclose : w.body.framing = .untilClose → eof = true ∧ pending = []) :
    BodyOf requestMethod w.final.head eof w.body.encode w.body.data pending := by
  rcases analyzeFraming_ok w.final.analyzed with ⟨hfields, hcount⟩
  have hframed := w.framed
  have hterm : ∀ {b}, isHeaderTerminatedResponse requestMethod w.final.head.statusCode = b →
      (HeaderTerminated requestMethod w.final.head ↔ b = true) := by
    rintro b rfl
    exact headerTerminated_iff.symm
  cases hb : w.body with
  | none =>
    rw [hb] at hframed
    cases hframed with
    | none ht =>
      have hyes := (hterm ht).mpr rfl
      exact ⟨fun _ => ⟨rfl, rfl⟩, fun hno => absurd hyes hno, fun hno => absurd hyes hno,
        fun hno => absurd hyes hno⟩
  | chunked m =>
    rw [hb] at hframed
    cases hframed with
    | chunked ht hte hcl hone hchunked =>
      have hsingle : SingleChunked w.final.head := by
        rw [hfields.codings, List.length_eq_one_iff] at hone
        rcases hone with ⟨coding, hcoding⟩
        rw [hfields.chunked, hcoding] at hchunked
        exact ⟨coding, hcoding, by simpa using hchunked⟩
      have hno : ¬ HeaderTerminated requestMethod w.final.head := by simp [hterm ht]
      exact ⟨fun hyes => absurd hyes hno, fun _ _ => ⟨m, rfl, rfl⟩,
        fun _ hmany => absurd hsingle hmany, fun _ hmany => absurd hsingle hmany⟩
  | length data =>
    rw [hb] at hframed
    rcases hframed.of_length with ⟨ht, hte, hcl, hlength⟩
    have hno : ¬ HeaderTerminated requestMethod w.final.head := by simp [hterm ht]
    have hmany := not_singleChunked hte
    refine ⟨fun hyes => absurd hyes hno, fun _ hsingle => absurd hsingle hmany,
      fun _ _ value hvalue => ⟨(single_length hvalue).2.trans (by rw [← hlength]; rfl), rfl⟩,
      fun _ _ hnone => ?_⟩
    rw [hfields.lengthCount, List.length_eq_one_iff] at hcl
    rcases hcl with ⟨value, hvalue⟩
    exact absurd hvalue (hnone value)
  | untilClose data =>
    rw [hb] at hframed hclose
    cases hframed with
    | untilClose ht hte hcl =>
      have hno : ¬ HeaderTerminated requestMethod w.final.head := by simp [hterm ht]
      have hmany := not_singleChunked hte
      refine ⟨fun hyes => absurd hyes hno, fun _ hsingle => absurd hsingle hmany,
        fun _ _ value hvalue => absurd (single_length hvalue).1 hcl, fun _ _ _ => ?_⟩
      exact ⟨(hclose rfl).1, rfl, (hclose rfl).2⟩

/-- The stream is interim heads, a final head, the body that it prescribes and the pending bytes,
and the response is that of the head and the body. -/
def ConsumesOne (requestMethod : Method) (stream : Bytes) (eof : Bool) (p : ResponseParser) : Prop :=
  ∃ interims : List HeadBlock, ∃ final : HeadBlock, ∃ wire,
    stream = interims.flatMap HeadBlock.encode ++ (final.encode ++ (wire ++ p.pendingBytes)) ∧
    (∀ h ∈ interims, IsInterim h.head) ∧
    isInterimStatus final.head.statusCode = false ∧
    p.response = ⟨final.head.statusCode, final.head.reason, final.head.headers,
      p.response.body⟩ ∧
    BodyOf requestMethod final.head eof wire p.response.body p.pendingBytes

/-- A run that completes has consumed one response, and the bytes behind it are pending. -/
theorem message_boundary (requestMethod : Method) (limits : ResponseLimits) (pieces : List Bytes)
    (eof : Bool) (p : ResponseParser)
    (hfeeds : failure ((fresh requestMethod limits).feedAll pieces).1 = none)
    (heof : if eof then
        ∃ q, ((fresh requestMethod limits).feedAll pieces).2.finishEof = (.ok q, p)
      else ((fresh requestMethod limits).feedAll pieces).2 = p)
    (hcomplete : p.isComplete = true) : ConsumesOne requestMethod pieces.flatten eof p := by
  rcases feed_of_no_failure hfeeds with ⟨q, hwhole⟩
  generalize hp₀ : ((fresh requestMethod limits).feedAll pieces).2 = p₀ at heof hwhole
  have hdone := complete_iff_of_run hwhole
  have hw : ∃ w : WireResponse requestMethod, ∃ pending, pieces.flatten = w.encode ++ pending ∧
      p = behind w limits pending ∧
      (w.body.framing = .untilClose → eof = true ∧ pending = []) := by
    cases q with
    | complete =>
      have hsame : p = p₀ := by
        have hstage := hdone.mpr rfl
        rw [isComplete, beq_iff_eq] at hstage
        cases eof with
        | false => exact heof.symm
        | true =>
          rcases heof with ⟨q', heof⟩
          rw [finishEof, hstage] at heof
          cases heof
          rfl
      rcases feed_complete_iff.mp hwhole with ⟨w, pending, hb, -, hself, rfl⟩
      exact ⟨w, pending, hb, hsame, fun hclose => absurd hclose hself⟩
    | needMore =>
      cases eof with
      | false =>
        have hp : p₀ = p := heof
        subst hp
        cases hdone.mp hcomplete
      | true =>
        rcases heof with ⟨q', heof⟩
        rcases finishEof_complete_iff.mp ⟨p₀, q', hwhole, heof⟩ with ⟨w, hb, -, -, rfl⟩
        exact ⟨w, [], by rw [List.append_nil, hb], rfl, fun _ => ⟨rfl, rfl⟩⟩
  rcases hw with ⟨w, pending, hb, rfl, hclose⟩
  refine ⟨w.interims, w.final, w.body.encode, ?_, fun h hm => (w.interim h hm).isInterim, w.isFinal,
    rfl, w.bodyOf hclose⟩
  rw [hb, WireResponse.encode, List.append_assoc, List.append_assoc]
  rfl

theorem message_boundary_no_content :
    ConsumesOne .get (bytes "HTTP/1.1 204\r\n\r\nNEXT") false
      ((fresh .get {}).feed (bytes "HTTP/1.1 204\r\n\r\nNEXT")).2 :=
  message_boundary .get {} [bytes "HTTP/1.1 204\r\n\r\n", bytes "NEXT"] false _ rfl rfl rfl

end CppRequest
