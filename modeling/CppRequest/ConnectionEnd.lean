import CppRequest.FramingFields
import CppRequest.Reception
import CppRequest.Segmentation
import CppRequest.WireResponse

/-!
# Responses that end with the connection

A response whose head does not say how long its body is ends when the peer has shut the connection
down. A connection that has been reset ends it as well, and nothing else that `execute_once` returns
is taken from a connection that has broken.
-/

namespace CppRequest

open Procedure Monitor ResponseParser

/-! ## Parsers that are fed -/

/-- A new parser that has been fed with the stream has come to this one and has not objected. -/
def Fed (requestMethod : Method) (limits : ResponseLimits) (stream : Bytes) (p : ResponseParser) :
    Prop :=
  ∃ q, (fresh requestMethod limits).feed stream = (.ok q, p)

/-- The head says nothing about where the body ends. -/
structure Response.EndsWithConnection (requestMethod : Method) (response : Response) : Prop where
  body : isHeaderTerminatedResponse requestMethod response.statusCode = false
  contentLength : response.headers.contentLengths = []
  chunked : ∀ coding ∈ response.headers.transferCodings, isChunkedCoding coding = false

section

variable {requestMethod : Method} {limits : ResponseLimits} {stream data : Bytes}
variable {p p' : ResponseParser} {q : ResponseParseProgress}

theorem fed_nil : Fed requestMethod limits [] (fresh requestMethod limits) :=
  ⟨_, feed_nil_fresh requestMethod limits⟩

theorem Fed.feed (h : Fed requestMethod limits stream p) (hfeed : p.feed data = (.ok q, p')) :
    Fed requestMethod limits (stream ++ data) p' := by
  obtain ⟨q₀, h⟩ := h
  have hagree := resumable.feed_append data h
  rw [show resumable.feed p data = (.ok q, p') from hfeed] at hagree
  exact ⟨q, hagree.eq_of_ok⟩

theorem endsWithConnection_iff (w : WireResponse requestMethod) (pending : Bytes) :
    (behind w limits pending).response.EndsWithConnection requestMethod ↔
      w.body.framing = .untilClose := by
  obtain ⟨hfields, hcount⟩ := analyzeFraming_ok w.final.analyzed
  have hframed := w.framed
  generalize w.body.framing = k at hframed
  constructor
  · rintro ⟨hbody, hlength, hchunked⟩
    cases hframed with
    | none hterm => cases hbody.symm.trans hterm
    | chunked hterm hte hcl hone hall =>
      rw [hfields.codings, List.length_eq_one_iff] at hone
      obtain ⟨coding, hcoding⟩ := hone
      rw [hfields.chunked, hcoding] at hall
      have hmem : coding ∈ w.final.head.headers.transferCodings := by
        rw [Headers.transferCodings] at hcoding ⊢
        rw [hcoding]
        exact List.mem_singleton_self coding
      simp [hchunked coding hmem] at hall
    | length hterm hte hcl =>
      have hnone : Headers.contentLengths ⟨w.final.head.headers.fields⟩ = [] := hlength
      rw [hfields.lengthCount, hnone] at hcl
      cases hcl
    | untilClose => rfl
  · rintro rfl
    cases hframed with
    | untilClose hterm hte hcl =>
      refine ⟨hterm, ?_, ?_⟩
      · have hzero : w.final.framing.contentLengthCount = 0 := by omega
        exact List.length_eq_zero_iff.mp (hfields.lengthCount.symm.trans hzero)
      · have hnone := List.length_eq_zero_iff.mp (hfields.codingFields.symm.trans hte)
        have hempty : w.final.head.headers.transferCodings = [] := by
          rw [Headers.transferCodings, hnone]
          rfl
        intro coding hcoding
        exact absurd (hempty ▸ hcoding) List.not_mem_nil

theorem Fed.complete (h : Fed requestMethod limits stream p) (hcomplete : p.isComplete = true) :
    ∃ w : WireResponse requestMethod, ∃ pending, stream = w.encode ++ pending ∧
      w.body.framing ≠ .untilClose ∧ p = behind w limits pending := by
  obtain ⟨q, h⟩ := h
  cases (complete_iff_of_run h).mp hcomplete
  obtain ⟨w, pending, hstream, -, hself, hp⟩ := feed_complete_iff.mp h
  exact ⟨w, pending, hstream, hself, hp⟩

/-- A parser that waits for the end of the connection has taken everything. -/
theorem buffer_of_feed (h : p.feed data = (.ok q, p')) (hs : p'.stage = .closeDelimitedBody) :
    p'.buffer = [] := by
  obtain ⟨t, -, hexit⟩ := bufferLoop.exists_exit { p with buffer := p.buffer ++ data }
  rw [show bufferLoop.run { p with buffer := p.buffer ++ data } = (.ok q, p') from h] at hexit
  cases rest_of_step hexit with
  | closeDelimited => rfl
  | headDone hread hfinal hframed hfits hbegin => cases hs.symm.trans (stage_of_begin hbegin)
  | head hs' | length hs' | chunked hs' | complete hs' => cases hs'.symm.trans hs
  | lengthDone | chunkedDone => cases hs

theorem Fed.closeDelimited (h : Fed requestMethod limits stream p)
    (hs : p.stage = .closeDelimitedBody) : ∃ w : WireResponse requestMethod, stream = w.encode ∧
      w.body.framing = .untilClose ∧ p.finishEof = (.ok .complete, behind w limits []) := by
  obtain ⟨q, h⟩ := h
  have hbuffer := buffer_of_feed h hs
  have hq : q = .needMore := by
    cases q with
    | needMore => rfl
    | complete =>
      have hcomplete := (complete_iff_of_run h).mpr rfl
      rw [isComplete, hs] at hcomplete
      cases hcomplete
  subst hq
  have htakes : p.Takes := ⟨fun _ => hbuffer, fun hne => absurd hbuffer hne⟩
  have heof : p.finishEof = (.ok .complete, p.taken.done) := by
    unfold finishEof
    rw [hs]
    dsimp only
    rw [takeCloseDelimited_ok_iff.mpr ⟨htakes, rfl⟩]
    rfl
  obtain ⟨w, hstream, -, hclose, hp⟩ := finishEof_complete_iff.mp ⟨p, _, h, heof⟩
  exact ⟨w, hstream, hclose, by rw [heof, hp]⟩

end

/-! ## Reading a response -/

/-- What was received last completes a response, or the response has been read up to the end of the
connection. An error says more than the response does. -/
def Ended (requestMethod : Method) : Result Response → Hearing → Prop
  | .ok response, s => s.last = some .data ∧ ¬ response.EndsWithConnection requestMethod ∨
      s.parser.stage = .closeDelimitedBody ∧ (s.last = some .shutdown ∨ s.Broken)
  | .error _, s => ¬ (s.parser.stage = .closeDelimitedBody ∧ s.Broken)

/-- A client that waits for the rest of a response, or has just received it. -/
structure Expecting (requestMethod : Method) (limits : ResponseLimits) (p : ResponseParser)
    (s : Hearing) : Prop where
  listening : Listening p s
  fed : ∃ stream, Fed requestMethod limits stream p
  heard : p.isComplete = true → s.last = some .data

section

variable {requestMethod : Method} {limits : ResponseLimits} {p : ResponseParser} {s : Hearing}
variable {connection : TcpConnection} {handle : Handle}

theorem Expecting.ended (h : Expecting requestMethod limits p s) (hcomplete : p.isComplete = true) :
    Ended requestMethod (.ok p.response) s := by
  obtain ⟨stream, hfed⟩ := h.fed
  obtain ⟨w, pending, -, hself, rfl⟩ := hfed.complete hcomplete
  exact .inl ⟨h.heard hcomplete, fun hends => hself ((endsWithConnection_iff w pending).mp hends)⟩

/-- Reading has ended with the connection. -/
theorem ended_of_closed (hfed : ∃ stream, Fed requestMethod limits stream p)
    (hcomplete : ¬ p.isComplete = true) {e : Error} (hcode : e.code = .connectionClosed)
    (hparser : s.parser = p) (hlast : s.last = some .shutdown ∨ s.Broken) :
    Ended requestMethod ((Client.endOfInput p e).map response) s := by
  unfold Client.endOfInput
  rw [if_pos hcode]
  by_cases hs : p.stage = .closeDelimitedBody
  · obtain ⟨stream, hfed⟩ := hfed
    obtain ⟨w, -, -, heof⟩ := hfed.closeDelimited hs
    rw [heof]
    exact .inr ⟨by rw [hparser, hs], hlast⟩
  · have hother : ∀ e', Ended requestMethod (.error e') s := by
      rintro e' ⟨hstage, -⟩
      exact hs (hparser ▸ hstage)
    cases heof : p.finishEof with
    | mk r p' =>
      cases r with
      | error e' => exact hother e'
      | ok q =>
        have hdone : p.stage = .complete := by
          unfold finishEof at heof
          cases hstage : p.stage with
          | complete => rfl
          | closeDelimitedBody => exact absurd hstage hs
          | head | contentLengthBody | chunkedBody =>
            rw [hstage] at heof
            cases heof
        exact absurd (by rw [isComplete, hdone]; rfl) hcomplete

theorem triple_responseRound_heard (hhandle : connection.socket.handle = some handle)
    (readTimeout : ℤ) (state : TcpConnection × ResponseParser) :
    reception.Triple
      (fun s => state.1 = connection ∧ Expecting requestMethod limits state.2 s)
      (Client.responseRound readTimeout state) fun r s =>
        r.elim (fun state => state.1 = connection ∧ Expecting requestMethod limits state.2 s)
          fun r => Ended requestMethod (r.1.map response) s := by
  obtain ⟨connection', p⟩ := state
  refine triple_and fun hsame => ?_
  cases hsame
  unfold Client.responseRound
  dsimp only
  split
  · next hcomplete => exact triple_pure fun s h => h.ended hcomplete
  next hcomplete =>
  refine Triple.weaken (P := fun s => (∃ stream, Fed requestMethod limits stream p) ∧ Listening p s)
    (triple_and fun hfed => ?_) (fun s h => ⟨h.fed, h.listening⟩) fun _ _ h => h
  have hcapacity : kReadBufferSize ≠ 0 := by decide
  refine (triple_readSome_heard hhandle hcapacity readTimeout).bind fun r => ?_
  obtain ⟨e | data, connection''⟩ := r
  · refine triple_pure fun s h => ?_
    obtain ⟨⟨hcode, hparser, hlast⟩ | ⟨hcode, hsound⟩, -⟩ := h
    · exact ended_of_closed hfed hcomplete hcode hparser hlast
    · show Ended requestMethod ((Client.endOfInput p e).map response) s
      unfold Client.endOfInput
      rw [if_neg hcode]
      exact fun hbroken => hsound hbroken.2
  · dsimp only
    have hsound : ∀ {s : Hearing}, s.last = some .data → ¬ s.Broken := by
      rintro s hlast ⟨code, hlast', -⟩
      cases hlast.symm.trans hlast'
    cases hfeed : p.feed data with
    | mk r p' =>
      cases r with
      | error e => exact triple_pure fun s h hbroken => hsound h.1.2 hbroken.2
      | ok q =>
        refine triple_pure fun s h => ?_
        obtain ⟨⟨hparser, hlast⟩, hsame, -⟩ := h
        obtain ⟨stream, hfed⟩ := hfed
        refine ⟨hsame, ⟨?_, hsound hlast⟩, ⟨_, hfed.feed hfeed⟩, fun _ => hlast⟩
        rw [hparser, hfeed]

/-- What a new parser has heard that nothing has been received for. -/
def unheard (requestMethod : Method) (limits : ResponseLimits) : Hearing where
  parser := fresh requestMethod limits

theorem triple_exchange_heard (client : Client) (hhandle : connection.socket.handle = some handle)
    (serialized : SerializedRequest) :
    reception.Triple (fun s => s = unheard requestMethod limits)
      (client.exchange connection serialized (fresh requestMethod limits))
      fun r s => Ended requestMethod (r.1.map response) s := by
  have hK := ordinary_reception
  refine (writes_writeRequest hK (fun _ _ _ => rfl) connection serialized _).ignored.bind
    fun r => ?_
  obtain ⟨e | u, connection'⟩ := r
  · refine triple_pure ?_
    rintro s ⟨-, rfl⟩ ⟨hs, -⟩
    cases hs
  refine triple_and fun hsame => ?_
  obtain ⟨rfl, -⟩ := hsame
  refine (triple_loop (fun state s => state.1 = connection' ∧
    Expecting requestMethod limits state.2 s) (triple_responseRound_heard hhandle _) _).weaken
    ?_ fun _ _ h => h
  rintro s rfl
  refine ⟨rfl, ⟨rfl, ?_⟩, ⟨[], fed_nil⟩, ?_⟩
  · rintro ⟨code, hlast, -⟩
    cases hlast
  · intro hcomplete
    cases hcomplete

theorem triple_executeOnce_heard (client : Client) (platform : Platform) (this : ClientId)
    (request : Request) :
    reception.Triple (fun s => s = unheard request.method client.settings.responseLimits)
      (client.executeOnce platform this request) fun r s => Ended request.method r.1 s := by
  have hK := ordinary_reception
  have hearly : ∀ e s, s = unheard request.method client.settings.responseLimits →
      Ended request.method (.error e) s := by
    rintro e s rfl ⟨hs, -⟩
    cases hs
  unfold Client.executeOnce
  cases serializeRequest platform.inetPton6 request with
  | error e => exact triple_pure fun s h => hearly e s h
  | ok serialized =>
    refine (writes_obtainConnection hK client platform this serialized.url).ignored.bind fun r => ?_
    obtain ⟨e | connection, client'⟩ := r
    · exact triple_pure fun s h => hearly e s h.2
    refine triple_and fun hobtained => ?_
    obtain ⟨hconnects, rfl⟩ := hobtained
    obtain ⟨handle, rfl⟩ := hconnects connection rfl
    refine Triple.bind (Q := fun _ s => s = unheard request.method client.settings.responseLimits)
      (triple_emit fun s h => ⟨s, rfl, h⟩) fun _ => ?_
    refine (triple_exchange_heard client.cleared rfl serialized).bind fun r => ?_
    obtain ⟨e | parser, connection'⟩ := r
    · refine Triple.bind ((writes_close hK connection'.socket).ignored.bind fun _ =>
        triple_pure fun _ h => h.2) fun _ => triple_pure fun _ h => h
    · refine (writes_conclude hK _ this connection' _ request parser).ignored.weaken
        (fun _ h => h) fun r s h => ?_
      rw [h.1.1]
      exact h.2

/-- A response whose end cannot be told from its head has been taken for whole behind an orderly
shutdown only, and behind a connection that has failed there is no response. -/
structure ResetDetected (requestMethod : Method) (heard : Hearing) (result : Result Response) :
    Prop where
  shutdown : ∀ response, result = .ok response → response.EndsWithConnection requestMethod →
    heard.last = some .shutdown
  failed : ∀ code, heard.last = some (.failed code) → ∃ e, result = .error e

theorem resetDetected_of_ended {result : Result Response} (h : Ended requestMethod result s) :
    ResetDetected requestMethod s result ↔ ¬ (s.parser.stage = .closeDelimitedBody ∧ s.Broken) := by
  cases result with
  | error e => exact iff_of_true ⟨nofun, fun _ _ => ⟨e, rfl⟩⟩ h
  | ok response =>
    obtain ⟨hlast, hself⟩ | ⟨hs, hlast | hbroken⟩ := h
    · refine iff_of_true ⟨?_, fun code hfailed => ?_⟩ ?_
      · rintro response' ⟨⟩ hends
        exact absurd hends hself
      · cases hlast.symm.trans hfailed
      · rintro ⟨-, code, hfailed, -⟩
        cases hlast.symm.trans hfailed
    · refine iff_of_true ⟨fun _ _ _ => hlast, fun code hfailed => ?_⟩ ?_
      · cases hlast.symm.trans hfailed
      · rintro ⟨-, code, hfailed, -⟩
        cases hlast.symm.trans hfailed
    · refine iff_of_false (fun hdetected => ?_) fun hno => hno ⟨hs, hbroken⟩
      obtain ⟨code, hfailed, -⟩ := hbroken
      obtain ⟨e, he⟩ := hdetected.failed code hfailed
      cases he

/-- In every call, whatever the system answers: `heard` is the parser of the response that has been
fed with everything received, and the way in which receiving has ended. -/
theorem reset_detected_iff (client : Client) (platform : Platform) (this : ClientId)
    (request : Request) (w w' : World Answer Event) (result : Result Response) (client' : Client)
    (h : (client.executeOnce platform this request).run w = (some (result, client'), w')) :
    ∃ events, w'.log = w.log ++ events ∧
      let heard := events.foldl Hearing.hear
        (unheard request.method client.settings.responseLimits)
      (ResetDetected request.method heard result ↔
        ¬ (heard.parser.stage = .closeDelimitedBody ∧ heard.Broken)) := by
  obtain ⟨events, s, hlog, hreads, hresult⟩ :=
    triple_executeOnce_heard client platform this request w _ trivial rfl
  rw [h] at hlog hresult
  rw [reception_reads] at hreads
  cases hreads
  exact ⟨events, hlog, resetDetected_of_ended (hresult _ rfl)⟩

end

/-- The answers to a request whose peer sends a head and a part of a body before this happens. -/
def breakWorld (last : Answer) : World Answer Event :=
  let address : AddrInfo :=
    { address := some (List.replicate 16 0), family := 2, socketType := 1, protocol := 6 }
  let zero : Answer := {}
  ⟨[{ addresses := [address] }] ++ List.replicate 15 zero ++ [{ result := 1000 }] ++
    List.replicate 6 zero ++ [{ data := bytes "HTTP/1.1 200 OK\r\n\r\npartial" }] ++
    List.replicate 6 zero ++ [last], []⟩

def breakRequest : Request := { method := .get, url := bytes "http://a/" }

def breakOff (last : Answer) : Option (Result Response × Client) × World Answer Event :=
  (Client.executeOnce {} { inetPton6 := fun _ => false } 0 breakRequest).run (breakWorld last)

/-- The response that `breakOff` has, its body ended by an orderly shutdown or by a reset. -/
def brokenOff : Response where
  statusCode := 200
  reason := bytes "OK"
  body := bytes "partial"

theorem breakOff_shutdown : breakOff {} = (some (.ok brokenOff, {}), (breakOff {}).2) := by
  have hresult : (breakOff {}).1 = some (.ok brokenOff, {}) := by decide +kernel
  rw [← hresult]

theorem reset_detected_shutdown :
    ∃ events, (breakOff {}).2.log = (breakWorld {}).log ++ events ∧
      let heard := events.foldl Hearing.hear
        (unheard breakRequest.method ({} : Client).settings.responseLimits)
      (ResetDetected breakRequest.method heard (.ok brokenOff) ↔
        ¬ (heard.parser.stage = .closeDelimitedBody ∧ heard.Broken)) :=
  reset_detected_iff {} { inetPton6 := fun _ => false } 0 breakRequest (breakWorld {})
    (breakOff {}).2 (.ok brokenOff) {} breakOff_shutdown

/-- A connection that is reset completes the body. -/
theorem reset_completes :
    (breakOff { result := -1, errno := ECONNRESET }).1 = some (.ok brokenOff, {}) ∧
      ¬ ResetDetected .get
        ((breakOff { result := -1, errno := ECONNRESET }).2.log.foldl Hearing.hear
          (unheard .get {}))
        (.ok brokenOff) := by
  have hlast : ((breakOff { result := -1, errno := ECONNRESET }).2.log.foldl Hearing.hear
      (unheard .get {})).last = some (.failed ECONNRESET) := by decide +kernel
  refine ⟨by decide +kernel, fun hdetected => ?_⟩
  obtain ⟨e, he⟩ := hdetected.failed _ hlast
  cases he

end CppRequest
