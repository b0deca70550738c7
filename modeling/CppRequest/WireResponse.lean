import CppRequest.ChunkedFormat
import CppRequest.ParserRounds

/-!
# The response format

A response as a value: its interim heads, its final head and its body in one of the
framings the final head allows. A parser that starts fresh completes on exactly the
encodings of such responses that keep the limits, and leaves the bytes behind them
pending.
-/

namespace CppRequest

open Search
open ResponseParser (BodyFraming Framed)

/-- A head that parses and whose framing can be analysed, without the CRLFCRLF behind it. -/
structure HeadBlock where
  block : Bytes
  head : ParsedHead
  framing : FramingInfo
  leads : Leads crlfcrlf block
  parses : parseHead block = .ok head
  analyzed : analyzeFraming head.headers = .ok framing

namespace HeadBlock

def encode (h : HeadBlock) : Bytes := h.block ++ crlfcrlf

structure Interim (h : HeadBlock) : Prop where
  status : isInterimStatus h.head.statusCode = true
  contentLength : h.framing.contentLengthCount = 0
  transferEncoding : h.framing.transferEncodingFields = 0

theorem length_encode (h : HeadBlock) : h.encode.length = h.block.length + 4 := by
  rw [encode, List.length_append]
  rfl

end HeadBlock

inductive MessageBody
  | none
  | chunked (m : ChunkedMessage)
  | length (data : Bytes)
  | untilClose (data : Bytes)

namespace MessageBody

def framing : MessageBody → BodyFraming
  | none => .none
  | chunked _ => .chunked
  | length data => .length data.length
  | untilClose _ => .untilClose

def encode : MessageBody → Bytes
  | none => []
  | chunked m => m.encode
  | length data | untilClose data => data

def data : MessageBody → Bytes
  | none => []
  | chunked m => m.data
  | length data | untilClose data => data

def Within (limits : ResponseLimits) : MessageBody → Prop
  | none => True
  | chunked m => m.Within limits
  | length data | untilClose data => data.length ≤ limits.maxBodyBytes.toNat

/-- The decoder behind a body. -/
def decoder (limits : ResponseLimits) : MessageBody → ChunkedDecoder
  | chunked m =>
    { limits, stage := .complete
      trailerBytesSeen := (ChunkedMessage.trailerSection m.trailers).length }
  | _ => { limits }

theorem Within.fits {limits : ResponseLimits} {body : MessageBody} (h : body.Within limits) :
    body.framing.Fits limits := by
  cases body with
  | length data => exact h
  | none | chunked m | untilClose data => trivial

end MessageBody

structure WireResponse (requestMethod : Method) where
  interims : List HeadBlock
  interim : ∀ h ∈ interims, h.Interim
  final : HeadBlock
  isFinal : isInterimStatus final.head.statusCode = false
  body : MessageBody
  framed : Framed requestMethod final.head.statusCode final.framing body.framing
  reset : final.head.statusCode = 205 → body.data = []

namespace WireResponse

variable {requestMethod : Method}

def encode (w : WireResponse requestMethod) : Bytes :=
  w.interims.flatMap HeadBlock.encode ++ (w.final.encode ++ w.body.encode)

structure Within (w : WireResponse requestMethod) (limits : ResponseLimits) : Prop where
  interims : ∀ h ∈ w.interims, h.encode.length ≤ limits.maxHeadBytes.toNat
  final : w.final.encode.length ≤ limits.maxHeadBytes.toNat
  body : w.body.Within limits

def response (w : WireResponse requestMethod) : Response :=
  ⟨w.final.head.statusCode, w.final.head.reason, w.final.head.headers, w.body.data⟩

end WireResponse

namespace ResponseParser

/-! ## Reading heads -/

/-- The parser in front of a head. -/
def atHead (requestMethod : Method) (limits : ResponseLimits) (buffer : Bytes) : ResponseParser :=
  { fresh requestMethod limits with buffer }

theorem feed_fresh (requestMethod : Method) (limits : ResponseLimits) (b : Bytes) :
    (fresh requestMethod limits).feed b = bufferLoop.run (atHead requestMethod limits b) := rfl

section

variable {requestMethod : Method} {limits : ResponseLimits}

variable (requestMethod) in
theorem headRead (h : HeadBlock) (rest : Bytes)
    (hlen : h.encode.length ≤ limits.maxHeadBytes.toNat) :
    HeadRead (atHead requestMethod limits (h.encode ++ rest)) h.block rest h.head h.framing where
  stage := rfl
  buffer := List.append_assoc _ _ _
  leads := h.leads
  within := h.length_encode ▸ hlen
  parses := h.parses
  analyzed := h.analyzed

variable (requestMethod) in
theorem interims_run (interims : List HeadBlock) (rest : Bytes)
    (hinterim : ∀ h ∈ interims, h.Interim)
    (hlen : ∀ h ∈ interims, h.encode.length ≤ limits.maxHeadBytes.toNat) :
    bufferLoop.run (atHead requestMethod limits (interims.flatMap HeadBlock.encode ++ rest)) =
      bufferLoop.run (atHead requestMethod limits rest) := by
  induction interims with
  | nil => rfl
  | cons h interims ih =>
    have hh := hinterim h List.mem_cons_self
    have hread := headRead requestMethod h
      (interims.flatMap HeadBlock.encode ++ rest) (hlen h List.mem_cons_self)
    have hround := Round.interim hread hh.status hh.contentLength hh.transferEncoding
    rw [List.flatMap_cons, List.append_assoc, hround.run]
    exact ih (fun h' hm => hinterim h' (List.mem_cons_of_mem _ hm))
      (fun h' hm => hlen h' (List.mem_cons_of_mem _ hm))

/-! ## Reading bodies -/

/-- The parser behind the final head `h`, with the stage still to be chosen. -/
def atBody (requestMethod : Method) (limits : ResponseLimits) (h : HeadBlock) (rest : Bytes) :
    ResponseParser := (fresh requestMethod limits).final h.head h.framing rest

/-- The parser behind a response with final head `h`. -/
def atEnd (requestMethod : Method) (limits : ResponseLimits) (h : HeadBlock) (body : MessageBody)
    (pending : Bytes) : ResponseParser where
  requestMethod := requestMethod
  limits := limits
  stage := .complete
  response := ⟨h.head.statusCode, h.head.reason, h.head.headers, body.data⟩
  buffer := pending
  chunkedDecoder := body.decoder limits
  connectionCloseRequested := h.framing.connectionCloseRequested || h.head.statusCode == 101
  closeDelimited := body.framing == .untilClose
  bodyForbidden := body.framing != .none && h.head.statusCode == 205

/-- Running from the round that has chosen the body. -/
def bodyRun (p : ResponseParser) (k : BodyFraming) : ParseExit :=
  Sum.elim bufferLoop.run id (p.begin k)

theorem final_run (h : HeadBlock) (rest : Bytes) {k : BodyFraming}
    (hlen : h.encode.length ≤ limits.maxHeadBytes.toNat)
    (hfinal : isInterimStatus h.head.statusCode = false)
    (hframed : Framed requestMethod h.head.statusCode h.framing k) (hfits : k.Fits limits) :
    bufferLoop.run (atHead requestMethod limits (h.encode ++ rest)) =
      bodyRun (atBody requestMethod limits h rest) k := by
  have hstep := (headRead requestMethod h rest hlen).step_final hfinal hframed hfits
  rw [bufferLoop.run_eq]
  exact congrArg _ hstep

theorem body_run (h : HeadBlock) (body : MessageBody) (rest : Bytes) (hin : body.Within limits)
    (hself : body.framing ≠ .untilClose) (hreset : h.head.statusCode = 205 → body.data = []) :
    bodyRun (atBody requestMethod limits h (body.encode ++ rest)) body.framing =
      (.ok .complete, atEnd requestMethod limits h body rest) := by
  generalize hp : atBody requestMethod limits h (body.encode ++ rest) = p
  cases body with
  | none =>
    subst hp
    rfl
  | untilClose data => exact absurd rfl hself
  | length data =>
    unfold bodyRun MessageBody.framing begin
    by_cases hzero : data.length = 0
    · have hnil : data = [] := List.length_eq_zero_iff.mp hzero
      subst hp hnil
      simp [finish, done, expect, forbid, atBody, ResponseParser.final, fresh, atEnd,
        MessageBody.encode, MessageBody.data, MessageBody.framing, MessageBody.decoder]
      exact ite_self 0
    · have hstatus : h.head.statusCode ≠ 205 := by
        intro hs
        exact hzero (List.length_eq_zero_iff.mpr (hreset hs))
      simp only [if_neg hzero, Sum.elim_inl]
      have hrest := @Rest.lengthDone { p.expect data.length with stage := .contentLengthBody }
        data rest rfl (by subst hp; exact (if_neg hstatus).symm)
        (by subst hp; rfl)
      rw [hrest.run]
      subst hp
      rfl
  | chunked m =>
    unfold bodyRun MessageBody.framing begin
    have hdecoded := ChunkedDecoder.process_complete_iff.mpr ⟨m, rest, rfl, hin, rfl⟩
    have hrest := Rest.chunkedDone (p := { p.forbid with stage := .chunkedBody }) rfl
      (by subst hp; exact hdecoded) (fun hforbidden => ?_)
    · rw [Sum.elim_inl, hrest.run]
      subst hp
      rfl
    · subst hp
      exact hreset (by simpa [forbid, atBody, ResponseParser.final, fresh] using hforbidden)

variable (requestMethod) in
/-- A body without a length is taken as far as it is there, and the end of input completes it. -/
theorem close_run (h : HeadBlock) (data : Bytes)
    (hin : (MessageBody.untilClose data).Within limits)
    (hreset : h.head.statusCode = 205 → data = []) :
    ∃ p, bodyRun (atBody requestMethod limits h data) .untilClose = (.ok .needMore, p) ∧
      p.stage = .closeDelimitedBody ∧
      p.finishEof = (.ok .complete, atEnd requestMethod limits h (.untilClose data) []) := by
  generalize hp : atBody requestMethod limits h data = p
  let q : ResponseParser := { p.forbid with closeDelimited := true, stage := .closeDelimitedBody }
  have htakes : q.Takes := by
    subst hp
    refine ⟨fun hforbidden => ?_, fun _ => (Nat.zero_add _).trans_le hin⟩
    exact hreset (by simpa [q, forbid, atBody, ResponseParser.final, fresh] using hforbidden)
  have hrest := Rest.closeDelimited (p := q) rfl htakes
  refine ⟨q.taken, hrest.run, rfl, ?_⟩
  have hnone : q.taken.takeCloseDelimited = .ok q.taken.taken :=
    takeCloseDelimited_ok_iff.mpr ⟨⟨fun _ => rfl, fun hne => absurd rfl hne⟩, rfl⟩
  unfold finishEof
  rw [show q.taken.stage = .closeDelimitedBody from rfl]
  simp only [hnone]
  subst hp
  simp [q, taken, forbid, atBody, ResponseParser.final, fresh, atEnd, MessageBody.data,
    MessageBody.framing, MessageBody.decoder]

/-! ## Nothing else is read -/

/-- A body that completes a call. -/
theorem body_of_complete {h : HeadBlock} {k : BodyFraming} {rest : Bytes} {p : ResponseParser}
    (hframed : Framed requestMethod h.head.statusCode h.framing k) (hfits : k.Fits limits)
    (hrun : bodyRun (atBody requestMethod limits h rest) k = (.ok .complete, p)) :
    ∃ body : MessageBody, ∃ pending, body.framing = k ∧ rest = body.encode ++ pending ∧
      body.Within limits ∧ (h.head.statusCode = 205 → body.data = []) ∧
      p = atEnd requestMethod limits h body pending := by
  cases hframed with
  | none hterm =>
    cases hrun
    exact ⟨.none, rest, rfl, rfl, trivial, fun _ => rfl, rfl⟩
  | untilClose hterm =>
    cases ((rest_of_run (s := .closeDelimitedBody) rfl (by simp) hrun).of_closeDelimited rfl).1
  | chunked hterm =>
    rcases (rest_of_run (s := .chunkedBody) rfl (by simp) hrun).of_chunked rfl with
      ⟨c, hallowed, ⟨hq, -⟩ | ⟨-, rfl, hdecoded⟩⟩
    · cases hq
    · rcases ChunkedDecoder.process_complete_iff.mp hdecoded with ⟨m, pending, hrest, hin, rfl⟩
      refine ⟨.chunked m, pending, rfl, hrest, hin, fun hreset => ?_, rfl⟩
      exact hallowed (by simp [forbid, atBody, ResponseParser.final, hreset])
  | length hterm hte hcl hreset =>
    unfold bodyRun begin at hrun
    by_cases hzero : h.framing.contentLength = 0
    · simp only [hzero, if_true] at hrun
      cases hrun
      refine ⟨.length [], rest, by rw [hzero]; rfl, rfl, Nat.zero_le _, fun _ => rfl, ?_⟩
      simp [done, expect, forbid, atBody, ResponseParser.final, fresh, atEnd, MessageBody.data,
        MessageBody.framing, MessageBody.decoder]
      exact ite_self 0
    · simp only [hzero, if_false] at hrun
      have hstatus : h.head.statusCode ≠ 205 := fun hs => hzero (hreset hs)
      rcases (rest_of_run (s := .contentLengthBody) rfl (by simp) hrun).of_length rfl with
        ⟨hq, -⟩ | ⟨-, data, pending, hlen, hrest, rfl⟩
      · cases hq
      · have hdata : data.length = h.framing.contentLength := hlen.trans (if_neg hstatus)
        refine ⟨.length data, pending, by rw [← hdata]; rfl, hrest, ?_,
          fun hs => absurd hs hstatus, rfl⟩
        exact hdata.trans_le hfits

theorem HeadRead.toBlock {b block rest : Bytes} {head : ParsedHead} {framing : FramingInfo}
    (hread : HeadRead (atHead requestMethod limits b) block rest head framing) :
    ∃ h : HeadBlock, h.head = head ∧ h.framing = framing ∧ b = h.encode ++ rest ∧
      h.encode.length ≤ limits.maxHeadBytes.toNat := by
  refine ⟨⟨block, head, framing, hread.leads, hread.parses, hread.analyzed⟩, rfl, rfl, ?_, ?_⟩
  · exact hread.buffer.trans (List.append_assoc _ _ _).symm
  · rw [HeadBlock.length_encode]
    exact hread.within

/-- A call on a parser in front of a head reads interim heads, then the final head or nothing. -/
theorem heads_of_ok {b : Bytes} {q : ResponseParseProgress} {p : ResponseParser}
    (hrun : bufferLoop.run (atHead requestMethod limits b) = (.ok q, p)) :
    ∃ interims : List HeadBlock, ∃ rest, b = interims.flatMap HeadBlock.encode ++ rest ∧
      (∀ h ∈ interims, h.Interim) ∧
      (∀ h ∈ interims, h.encode.length ≤ limits.maxHeadBytes.toNat) ∧
      (q = .needMore ∧ p = atHead requestMethod limits rest ∧ ¬ crlfcrlf <:+: rest ∨
        ∃ h : HeadBlock, ∃ k rest', rest = h.encode ++ rest' ∧
          h.encode.length ≤ limits.maxHeadBytes.toNat ∧
          isInterimStatus h.head.statusCode = false ∧
          Framed requestMethod h.head.statusCode h.framing k ∧ k.Fits limits ∧
          bodyRun (atBody requestMethod limits h rest') k = (.ok q, p)) := by
  induction hn : b.length using Nat.strongRecOn generalizing b with
  | _ n ih =>
    cases hstep : bufferStep (atHead requestMethod limits b) with
    | inl p₁ =>
      have hround := round_of_step hstep
      have hlt : p₁.buffer.length < n := hn ▸ bufferStep_decreases hstep
      rw [hround.run] at hrun
      cases hround with
      | interim hread hinterim hcl hte =>
        rcases hread.toBlock with ⟨h, rfl, rfl, rfl, hlen⟩
        rcases ih _ hlt hrun rfl with ⟨interims, rest, hrest, hinterims, hlens, hor⟩
        refine ⟨h :: interims, rest, ?_, ?_, ?_, hor⟩
        · rw [show _ = _ from hrest, List.flatMap_cons, List.append_assoc]
        · exact List.forall_mem_cons.mpr ⟨⟨hinterim, hcl, hte⟩, hinterims⟩
        · exact List.forall_mem_cons.mpr ⟨hlen, hlens⟩
      | final hread hfinal hframed hfits hbegin =>
        rcases hread.toBlock with ⟨h, rfl, rfl, rfl, hlen⟩
        refine ⟨[], _, rfl, by simp, by simp, .inr ⟨h, _, _, rfl, hlen, hfinal, hframed, hfits, ?_⟩⟩
        exact (congrArg (Sum.elim bufferLoop.run id) hbegin).trans hrun
    | inr r =>
      have hexit : bufferLoop.run (atHead requestMethod limits b) = r :=
        bufferLoop.run_of_exit hstep
      rw [hrun] at hexit
      subst hexit
      rcases (rest_of_step hstep).of_head rfl with ⟨rfl, rfl, hno, -⟩ |
        ⟨block, rest, head, framing, k, hread, hfinal, hframed, hfits, hbegin⟩
      · exact ⟨[], b, rfl, by simp, by simp, .inl ⟨rfl, rfl, hno⟩⟩
      · rcases hread.toBlock with ⟨h, rfl, rfl, rfl, hlen⟩
        refine ⟨[], _, rfl, by simp, by simp, .inr ⟨h, _, _, rfl, hlen, hfinal, hframed, hfits, ?_⟩⟩
        exact congrArg (Sum.elim bufferLoop.run id) hbegin

/-- A body that is completed by the end of input. -/
theorem body_of_eof {h : HeadBlock} {k : BodyFraming} {rest : Bytes} {p p' : ResponseParser}
    {q' : ResponseParseProgress}
    (hframed : Framed requestMethod h.head.statusCode h.framing k)
    (hrun : bodyRun (atBody requestMethod limits h rest) k = (.ok .needMore, p))
    (heof : p.finishEof = (.ok q', p')) :
    k = .untilClose ∧ (MessageBody.untilClose rest).Within limits ∧
      (h.head.statusCode = 205 → rest = []) ∧ q' = .complete ∧
      p' = atEnd requestMethod limits h (.untilClose rest) [] := by
  cases hframed with
  | none hterm => cases hrun
  | chunked hterm =>
    rcases (rest_of_run (s := .chunkedBody) rfl nofun hrun).of_chunked rfl with
      ⟨c, hallowed, ⟨-, rfl, -⟩ | ⟨hq, -⟩⟩
    · cases heof
    · cases hq
  | length hterm hte hcl hreset =>
    unfold bodyRun begin at hrun
    by_cases hzero : h.framing.contentLength = 0
    · simp only [hzero, if_true] at hrun
      cases hrun
    · simp only [hzero, if_false] at hrun
      rcases (rest_of_run (s := .contentLengthBody) rfl nofun hrun).of_length rfl with
        ⟨-, -, rfl⟩ | ⟨hq, -⟩
      · cases heof
      · cases hq
  | untilClose hterm =>
    rcases (rest_of_run (s := .closeDelimitedBody) rfl nofun hrun).of_closeDelimited rfl with
      ⟨-, ⟨hallowed, hroom⟩, rfl⟩
    have hreset : h.head.statusCode = 205 → rest = [] := by
      intro hs
      exact hallowed (by simp [forbid, atBody, ResponseParser.final, hs])
    have hin : (MessageBody.untilClose rest).Within limits := by
      by_cases hnil : rest = []
      · rw [hnil]
        exact Nat.zero_le _
      · exact (Nat.zero_add _).symm.trans_le (hroom hnil)
    rcases close_run requestMethod h rest hin hreset with ⟨p₁, hrun₁, -, heof₁⟩
    have hsame : p₁ = _ := (Prod.mk.inj (hrun₁.symm.trans hrun)).2
    rw [← hsame, heof₁] at heof
    cases heof
    exact ⟨rfl, hin, hreset, rfl, rfl⟩

end

/-! ## What is accepted -/

section

variable {requestMethod : Method} {limits : ResponseLimits} {b : Bytes}

/-- The parser behind a response. -/
def behind (w : WireResponse requestMethod) (limits : ResponseLimits) (pending : Bytes) :
    ResponseParser := atEnd requestMethod limits w.final w.body pending

theorem head_run (w : WireResponse requestMethod) (rest : Bytes) (hin : w.Within limits) :
    (fresh requestMethod limits).feed (w.encode ++ rest) =
      bodyRun (atBody requestMethod limits w.final (w.body.encode ++ rest)) w.body.framing := by
  rw [feed_fresh, WireResponse.encode, List.append_assoc, List.append_assoc,
    interims_run _ _ _ w.interim hin.interims]
  exact final_run w.final _ hin.final w.isFinal w.framed hin.body.fits

/-- A fresh parser completes on the encodings of the responses within the limits, and on nothing
else; what stands behind the response is pending. -/
theorem feed_complete_iff {p : ResponseParser} :
    (fresh requestMethod limits).feed b = (.ok .complete, p) ↔
      ∃ w : WireResponse requestMethod, ∃ pending, b = w.encode ++ pending ∧ w.Within limits ∧
        w.body.framing ≠ .untilClose ∧ p = behind w limits pending := by
  constructor
  · intro h
    rw [feed_fresh] at h
    rcases heads_of_ok h with ⟨interims, rest, rfl, hinterims, hlens,
      ⟨hq, -⟩ | ⟨head, k, rest', rfl, hlen, hfinal, hframed, hfits, hbody⟩⟩
    · cases hq
    · rcases body_of_complete hframed hfits hbody with
        ⟨body, pending, rfl, rfl, hin, hreset, rfl⟩
      refine ⟨⟨interims, hinterims, head, hfinal, body, hframed, hreset⟩, pending, ?_,
        ⟨hlens, hlen, hin⟩, fun hclose => ?_, rfl⟩
      · simp [WireResponse.encode]
      · change body.framing = .untilClose at hclose
        rw [hclose] at hbody
        cases ((rest_of_run (s := .closeDelimitedBody) rfl nofun hbody).of_closeDelimited rfl).1
  · rintro ⟨w, pending, rfl, hin, hself, rfl⟩
    rw [head_run w pending hin]
    exact body_run w.final w.body pending hin.body hself w.reset

/-- What the end of input completes is a response whose body lasts until then. -/
theorem finishEof_complete_iff {p' : ResponseParser} :
    (∃ p q, (fresh requestMethod limits).feed b = (.ok .needMore, p) ∧
        p.finishEof = (.ok q, p')) ↔
      ∃ w : WireResponse requestMethod, b = w.encode ∧ w.Within limits ∧
        w.body.framing = .untilClose ∧ p' = behind w limits [] := by
  constructor
  · rintro ⟨p, q, h, heof⟩
    rw [feed_fresh] at h
    rcases heads_of_ok h with ⟨interims, rest, rfl, hinterims, hlens,
      ⟨-, rfl, -⟩ | ⟨head, k, rest', rfl, hlen, hfinal, hframed, hfits, hbody⟩⟩
    · cases heof
    · rcases body_of_eof hframed hbody heof with ⟨rfl, hin, hreset, rfl, rfl⟩
      exact ⟨⟨interims, hinterims, head, hfinal, .untilClose rest', hframed, hreset⟩, rfl,
        ⟨hlens, hlen, hin⟩, rfl, rfl⟩
  · rintro ⟨w, rfl, hin, hclose, rfl⟩
    have hrun := head_run w [] hin
    unfold behind
    have hreset := w.reset
    have hbody := hin.body
    cases hb : w.body with
    | none | chunked m | length data =>
      rw [hb] at hclose
      cases hclose
    | untilClose data =>
      rw [hb] at hrun hreset hbody
      rcases close_run requestMethod w.final data hbody hreset with
        ⟨p, hneed, -, heof⟩
      rw [List.append_nil, MessageBody.encode, List.append_nil] at hrun
      exact ⟨p, _, hrun.trans hneed, heof⟩

end

end ResponseParser

end CppRequest
