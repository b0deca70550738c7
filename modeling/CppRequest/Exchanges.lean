import CppRequest.Failures
import CppRequest.Transmission
import CppRequest.WholeResponses

/-!
# One exchange

What is known of a handle while a request goes out over it and a response comes back, said once
for whatever follows the bytes in both directions.
-/

namespace CppRequest

open Procedure Monitor ResponseParser

/-- What is known of a handle follows the bytes of the request that it accepts, and behind these the
bytes that it receives. -/
structure FollowsExchange {S : Type} (M : Monitor Event S) (K : Event → Prop) (handle : Handle)
    (text : Bytes) (P : Bytes → Bytes → S → Prop) : Prop where
  sending : FollowsSending M K handle text fun sent => P sent []
  readable : ∀ milliseconds result, K (.waited handle false milliseconds result)
  keeps : ∀ stream e s, K e → P text stream s → ∃ s', M.step s e = some s' ∧ P text stream s'
  received : ∀ stream outcome s, P text stream s →
    ∃ s', M.step s (.received handle outcome) = some s' ∧
      P text (stream ++ receivedBytes outcome) s'

/-- The parser has objected to the stream: to its last piece, or to its end. -/
def Objected (requestMethod : Method) (limits : ResponseLimits) (stream : Bytes) (e : Error) :
    Prop :=
  (∃ before piece p, stream = before ++ piece ∧ Fed requestMethod limits before p ∧
      (p.feed piece).1 = .error e) ∨
    ∃ p, Fed requestMethod limits stream p ∧ p.isComplete = false ∧ p.finishEof.1 = .error e

/-- Why an exchange has failed: before anything was received, or behind the whole request. -/
def GivenUp (requestMethod : Method) (limits : ResponseLimits) (text sent stream : Bytes)
    (e : Error) : Prop :=
  stream = [] ∧ e.code ∈ sendErrors ∨
    sent = text ∧ (e.code = .readTimeout ∨ e.code = .readFailed ∨
      Objected requestMethod limits stream e)

/-- A response has been read, and it is the beginning of what has been received. The connection is
as it was, or the response has ended with it. -/
def Heard {S : Type} (requestMethod : Method) (limits : ResponseLimits)
    (connection : TcpConnection) (text : Bytes) (P : Bytes → Bytes → S → Prop) :
    Result ResponseParser × TcpConnection → S → Prop
  | (.ok parser, connection'), s => ∃ (wire : WireResponse requestMethod) (pending : Bytes),
      parser = behind wire limits pending ∧ P text (wire.encode ++ pending) s ∧
        (connection' = connection ∧ wire.body.framing ≠ .untilClose ∨
          connection' = {} ∧ wire.body.framing = .untilClose ∧ pending = [])
  | (.error e, _), s => ∃ sent stream, P sent stream s ∧
      GivenUp requestMethod limits text sent stream e

section

variable {S : Type} {M : Monitor Event S} {K : Event → Prop} {handle : Handle}
variable {P : Bytes → Bytes → S → Prop} {connection : TcpConnection}
variable {serialized : SerializedRequest} {requestMethod : Method} {limits : ResponseLimits}

theorem triple_writeRequest_of (hK : Basic K)
    (h : FollowsSending M K handle serialized.text fun sent => P sent [])
    (hhandle : connection.socket.handle = some handle) (timeout : ℤ) :
    M.Triple (P [] []) (Client.writeRequest connection serialized timeout)
      (Yields connection (fun _ => P serialized.text []) fun _ s => ∃ sent, P sent [] s) := by
  have hquiet : ∀ {α : Type} {q : Proc α} {Q : α → Prop} {sent : Bytes}, q.Writes K Q →
      M.Triple (P sent []) q fun a s => Q a ∧ P sent [] s := fun hq => hq.triple (h.keeps _)
  have hhead : [] ++ serialized.head <+: serialized.text := List.prefix_append _ _
  have hbody : serialized.head ++ serialized.body <+: serialized.text := List.prefix_rfl
  refine (hquiet (writes_clock hK)).bind fun now => triple_and fun _ => ?_
  refine (hquiet (writes_remainingTimeout hK _)).bind fun remaining => triple_and fun _ => ?_
  refine (triple_writeAll_of hK h hhead hhandle remaining).bind fun r => ?_
  obtain ⟨e | n, connection'⟩ := r
  · exact triple_pure fun s ⟨hclosed, sent, _, hs⟩ => ⟨hclosed, sent, hs⟩
  refine triple_and fun hsame => triple_and fun _ => ?_
  subst hsame
  rw [List.nil_append]
  dsimp only
  split
  · next hempty =>
    refine triple_pure fun s hs => ⟨rfl, ?_⟩
    rwa [SerializedRequest.text, List.isEmpty_iff.mp hempty, List.append_nil]
  refine (hquiet (writes_remainingTimeout hK _)).bind fun remaining => triple_and fun _ => ?_
  refine (triple_writeAll_of hK h hbody hhandle remaining).bind fun r => ?_
  obtain ⟨e | n, connection''⟩ := r
  · exact triple_pure fun s ⟨hclosed, sent, _, hs⟩ => ⟨hclosed, sent, hs⟩
  · exact triple_pure fun s ⟨hsame, _, hs⟩ => ⟨hsame, hs⟩

/-- The end of the connection completes a response only where the response lasts until then. -/
theorem ended_of_endOfInput {stream : Bytes} {p p' : ResponseParser} {e : Error}
    (hfed : Fed requestMethod limits stream p) (hopen : p.isComplete = false)
    (h : Client.endOfInput p e = .ok p') : e.code = .connectionClosed ∧
      ∃ wire : WireResponse requestMethod, stream = wire.encode ∧
        wire.body.framing = .untilClose ∧ p' = behind wire limits [] := by
  unfold Client.endOfInput at h
  split_ifs at h with hcode
  refine ⟨hcode, ?_⟩
  cases hs : p.stage with
  | closeDelimitedBody =>
    obtain ⟨wire, hstream, hclose, heof⟩ := hfed.closeDelimited hs
    rw [heof] at h
    refine ⟨wire, hstream, hclose, ?_⟩
    dsimp only at h
    split_ifs at h
    exact (Except.ok.inj h).symm
  | complete => simp [isComplete, hs] at hopen
  | head | contentLengthBody | chunkedBody =>
    rw [finishEof, hs] at h
    cases h

/-- Where the end of the input is no end of the response, the parser has objected to it. -/
theorem objected_of_endOfInput {p : ResponseParser} {e e' : Error} (he : e.code ∈ receiveErrors)
    (h : Client.endOfInput p e = .error e') : e'.code = .readTimeout ∨ e'.code = .readFailed ∨
      e.code = .connectionClosed ∧ p.finishEof.1 = .error e' := by
  unfold Client.endOfInput at h
  split_ifs at h with hcode
  · have hcomplete : ∀ q p', p.finishEof = (.ok q, p') → p'.isComplete = true := by
      intro q p' heof
      unfold finishEof at heof
      split at heof
      · split at heof
        · cases heof
        · cases heof
          rfl
      · next hs =>
        cases heof
        simp [isComplete, hs]
      · cases heof
      · cases heof
      · cases heof
    rcases heof : p.finishEof with ⟨e₁ | q, p'⟩
    · rw [heof] at h
      cases h
      exact .inr (.inr ⟨hcode, rfl⟩)
    · rw [heof] at h
      simp [hcomplete q p' heof] at h
  · cases h
    simp only [receiveErrors, List.mem_cons, List.not_mem_nil, or_false] at he
    obtain hclosed | hrest := he
    · exact absurd hclosed hcode
    · exact hrest.imp_right .inl

theorem triple_responseRound_of (hK : Basic K)
    (h : FollowsExchange M K handle serialized.text P)
    (hhandle : connection.socket.handle = some handle) (readTimeout : ℤ)
    (state : TcpConnection × ResponseParser) :
    M.Triple (fun s => state.1 = connection ∧ ∃ stream,
        Fed requestMethod limits stream state.2 ∧ P serialized.text stream s)
      (Client.responseRound readTimeout state) fun r s =>
        r.elim (fun state => state.1 = connection ∧ ∃ stream,
          Fed requestMethod limits stream state.2 ∧ P serialized.text stream s)
          fun r => Heard requestMethod limits connection serialized.text P r s := by
  obtain ⟨connection', parser⟩ := state
  refine triple_and fun hsame => triple_exists fun stream => triple_and fun hfed => ?_
  cases hsame
  unfold Client.responseRound
  dsimp only
  split
  · next hcomplete =>
    obtain ⟨wire, pending, rfl, hself, hparser⟩ := hfed.complete hcomplete
    exact triple_pure fun s hs => ⟨wire, pending, hparser, hs, .inl ⟨rfl, hself⟩⟩
  next hopen =>
  refine ((returns_readSome connection' _ readTimeout).beside ((triple_readSome_ends
    (P := fun data => P serialized.text (stream ++ data)) hK h.readable
    (fun data e s he hs => h.keeps _ e s he hs) ?_ hhandle _ readTimeout).weaken ?_
    fun _ _ hr => hr)).bind fun r => triple_and fun hcodes => ?_
  · intro outcome s hs
    rw [List.append_nil] at hs
    exact h.received stream outcome s hs
  · intro s hs
    rwa [List.append_nil]
  obtain ⟨e | data, connection''⟩ := r
  · refine triple_pure fun s hr => ?_
    obtain ⟨hclosed, data, hs, hlost⟩ := hr
    have hnone : e.code = .connectionClosed → data = [] := by
      intro hcode
      by_contra hdata
      cases hcode.symm.trans (hlost hdata)
    show Heard requestMethod limits connection' serialized.text P
      (Client.endOfInput parser e, connection'') s
    cases hend : Client.endOfInput parser e with
    | error e' =>
      refine ⟨_, _, hs, .inr ⟨rfl, ?_⟩⟩
      obtain htimedOut | hfailed | ⟨hcode, heof⟩ := objected_of_endOfInput (hcodes e rfl) hend
      · exact .inl htimedOut
      · exact .inr (.inl hfailed)
      · rw [hnone hcode, List.append_nil]
        exact .inr (.inr (.inr ⟨parser, hfed, by simpa using hopen, heof⟩))
    | ok parser' =>
      obtain ⟨hcode, wire, rfl, hclose, hparser⟩ :=
        ended_of_endOfInput hfed (by simpa using hopen) hend
      rw [hnone hcode] at hs
      exact ⟨wire, [], hparser, hs, .inr ⟨hclosed, hclose, rfl⟩⟩
  · refine triple_and fun hsame => ?_
    subst hsame
    dsimp only
    cases hfeed : parser.feed data with
    | mk r parser' =>
      cases r with
      | error e =>
        refine triple_pure fun s hs => ⟨_, _, hs, .inr ⟨rfl, .inr (.inr (.inl ?_))⟩⟩
        exact ⟨stream, data, parser, rfl, hfed, congrArg Prod.fst hfeed⟩
      | ok q => exact triple_pure fun s hs => ⟨rfl, stream ++ data, hfed.feed hfeed, hs⟩

/-- The request has been accepted whole before anything is received, and what comes back is a
response and what may follow it. -/
theorem triple_exchange_of (hK : Basic K) (h : FollowsExchange M K handle serialized.text P)
    (hhandle : connection.socket.handle = some handle) (client : Client) :
    M.Triple (P [] []) (client.exchange connection serialized (fresh requestMethod limits))
      (Heard requestMethod limits connection serialized.text P) := by
  refine ((returns_writeRequest connection serialized _).beside
    (triple_writeRequest_of hK h.sending hhandle _)).bind fun r => triple_and fun hcodes => ?_
  obtain ⟨e | u, connection'⟩ := r
  · exact triple_pure fun s ⟨_, sent, hs⟩ => ⟨sent, [], hs, .inl ⟨rfl, hcodes e rfl⟩⟩
  refine triple_and fun hsame => ?_
  subst hsame
  exact (triple_loop _ (triple_responseRound_of hK h hhandle _) _).weaken
    (fun s hs => ⟨rfl, [], fed_nil, hs⟩) fun _ _ hr => hr

end

end CppRequest
