import CppRequest.Conversations

/-!
# Turns are taken

`execute_once` goes on with a conversation where it rests, and leaves it at rest where it keeps the
connection. With the isolation of clients, so does every operation.
-/

namespace CppRequest

open Procedure Monitor ResponseParser

/-! ## One request -/

/-- A request has begun behind these turns, of which this much has been accepted, and this much of
its answer received. -/
structure Speaking {platform : Platform} (handle : Handle) (origin : Bytes × ℕ)
    (turns : List (Turn platform)) (text sent stream : Bytes) (s : Talks) : Prop where
  opened : handle < s.opened
  origin : (s.talk handle).origin = some origin
  begins : sent <+: text
  said : (s.talk handle).Says turns sent stream

section

variable {platform : Platform} {handle : Handle} {origin : Bytes × ℕ}
variable {turns : List (Turn platform)} {text sent stream : Bytes} {s : Talks} {e : Event}

/-- Behind an event that brings nothing. -/
theorem unused_step (he : e.carries = false) (s : Talks) :
    ∃ s', (conversation platform).step s e = some s' ∧ s.opened ≤ s'.opened ∧
      s'.talk = s.talk := by
  cases e with
  | opened => exact ⟨_, rfl, Nat.le_succ _, rfl⟩
  | began | sent | received => cases he
  | clock | resolved | closed | used | waited | retained | adopted | moved =>
    exact ⟨s, rfl, le_rfl, rfl⟩

theorem Speaking.unused (h : Speaking handle origin turns text sent stream s)
    (he : e.carries = false) : ∃ s', (conversation platform).step s e = some s' ∧
      Speaking handle origin turns text sent stream s' := by
  obtain ⟨s', hstep, hle, hsame⟩ := unused_step he s
  refine ⟨s', hstep, h.opened.trans_le hle, ?_, h.begins, ?_⟩
  · rw [hsame]
    exact h.origin
  · rw [hsame]
    exact h.said

/-- What a request in progress sends and receives is part of a turn. -/
theorem speaking_set (h : Speaking handle origin turns text sent stream s) {sent' stream' : Bytes}
    (hsent : sent' <+: text) (hspoken : ((s.talk handle).next handle e).Says turns sent' stream')
    (horigin : ((s.talk handle).next handle e).origin = (s.talk handle).origin) :
    Speaking handle origin turns text sent' stream'
      (s.set handle ((s.talk handle).next handle e)) := by
  refine ⟨h.opened, ?_, hsent, ?_⟩
  · rw [Talks.set_self, horigin, h.origin]
  · rwa [Talks.set_self]

theorem followsExchange_speaking {request : Request} {serialized : SerializedRequest}
    (hserialized : serializeRequest platform.inetPton6 request = .ok serialized) :
    FollowsExchange (conversation platform) (fun e => e.carries = false) handle serialized.text
      (Speaking handle origin turns serialized.text) := by
  have hspoken : ∀ {sent stream : Bytes} {s : Talks} {outcome : Except ℤ Bytes},
      Speaking handle origin turns serialized.text sent stream s →
      ((s.talk handle).next handle (.sent handle outcome)).Says turns
          (sent ++ receivedBytes outcome) stream ∧
        ((s.talk handle).next handle (.received handle outcome)).Says turns sent
          (stream ++ receivedBytes outcome) ∧
        ((s.talk handle).next handle (.sent handle outcome)).origin = (s.talk handle).origin ∧
        ((s.talk handle).next handle (.received handle outcome)).origin =
          (s.talk handle).origin := by
    intro sent stream s outcome h
    simp only [Talk.next, if_true, and_true]
    refine ⟨⟨?_, h.said.received⟩, ⟨h.said.accepted, ?_⟩⟩
    · rw [← List.append_assoc, ← h.said.accepted]
    · rw [← List.append_assoc, ← h.said.received]
  have hsend : ∀ outcome sent s, sent ++ receivedBytes outcome <+: serialized.text →
      Speaking handle origin turns serialized.text sent [] s →
      ∃ s', (conversation platform).step s (.sent handle outcome) = some s' ∧
        Speaking handle origin turns serialized.text (sent ++ receivedBytes outcome) [] s' := by
    intro outcome sent s hprefix h
    obtain ⟨hsaid, -, horigin, -⟩ := @hspoken sent [] s outcome h
    refine ⟨_, if_pos ⟨h.opened, ?_⟩, speaking_set h hprefix hsaid horigin⟩
    exact ⟨turns, request, serialized, _, [], hserialized, hprefix, absurd rfl, hsaid⟩
  refine ⟨⟨fun sent e s he h => h.unused he, fun nativeCode sent s h => ?_,
    fun sent piece s hprefix h => hsend (.ok piece) sent s hprefix h⟩, fun _ _ => rfl,
    fun stream e s he h => h.unused he, fun stream outcome s h => ?_⟩
  · have hrefused := hsend (.error nativeCode) sent s
    simp only [receivedBytes, List.append_nil] at hrefused
    exact hrefused h.begins h
  · obtain ⟨-, hheard, -, horigin⟩ := @hspoken _ stream s outcome h
    refine ⟨_, if_pos ⟨h.opened, ?_⟩, speaking_set h h.begins hheard horigin⟩
    exact ⟨turns, request, serialized, _, _, hserialized, h.begins, fun _ => rfl, hheard⟩

end

/-! ## `execute_once` -/

/-- The handle has been opened, and what has gone over it are whole turns. -/
def RestsOn (platform : Platform) (handle : Handle) (s : Talks) : Prop :=
  handle < s.opened ∧ (s.talk handle).Rests platform

/-- The conversation of the connection that a client keeps rests. -/
def Client.AtRest (client : Client) (platform : Platform) (s : Talks) : Prop :=
  ∀ handle, client.hasHandle handle → RestsOn platform handle s

/-- A response was read behind whole turns and all of the request, over a connection on which the
request was begun for this host and port. -/
def AnsweredOver (platform : Platform) (request : Request) (serialized : SerializedRequest)
    (response : Response) (t : Talk) : Prop :=
  t.origin = some (serialized.url.host, serialized.url.port) ∧
    ∃ (turns : List (Turn platform)) (wire : WireResponse request.method) (pending : Bytes),
      t.Says turns serialized.text (wire.encode ++ pending) ∧ response = wire.response

section

variable {platform : Platform} {this : ClientId} {client : Client} {handle : Handle} {s : Talks}
variable {e : Event}

theorem RestsOn.unused (h : RestsOn platform handle s) (he : e.carries = false) :
    ∃ s', (conversation platform).step s e = some s' ∧ RestsOn platform handle s' := by
  obtain ⟨s', hstep, hle, hsame⟩ := unused_step he s
  refine ⟨s', hstep, h.1.trans_le hle, ?_⟩
  rw [hsame]
  exact h.2

theorem atRest_cleared (client : Client) (s : Talks) : client.cleared.AtRest platform s := by
  rintro handle ⟨hhas, -⟩
  cases hhas

theorem triple_unused {α : Type} {q : Proc α} {Q : α → Prop} {P : Talks → Prop}
    (h : q.Writes (fun e => e.carries = false) Q) :
    (conversation platform).Triple P q fun a _ => Q a ∧ True := by
  refine (h.triple (P := fun _ => True) fun e s he _ => ?_).weaken (fun _ _ => trivial)
    fun _ _ hq => hq
  obtain ⟨s', hstep, -⟩ := unused_step he s
  exact ⟨s', hstep, trivial⟩

theorem triple_obtainConnection_atRest (url : Url) :
    (conversation platform).Triple (client.AtRest platform)
      (client.obtainConnection platform this url) fun r s => r.2 = client.cleared ∧
        ConnectsTo (RestsOn platform) r.1 s := by
  unfold Client.obtainConnection
  split
  · next hkeeps =>
    unfold Client.keepsConnectionTo at hkeeps
    rw [Bool.and_eq_true] at hkeeps
    refine (triple_emit (Q := fun _ => client.AtRest platform) fun s h => ⟨s, rfl, h⟩).bind
      fun _ => triple_pure fun s h => ⟨rfl, ?_⟩
    rintro connection ⟨⟩
    exact ⟨_, rfl, h _ ⟨hkeeps.1, rfl⟩⟩
  · refine (triple_unused (writes_closeReusableConnection ordinary_unused client this)).bind
      fun client' => triple_and fun hclient => ?_
    subst hclient
    refine (triple_unused (writes_resolve ordinary_unused.resolved url.host url.port)).bind fun resolved => ?_
    cases resolved with
    | error e => exact triple_pure fun s _ => ⟨rfl, connectsTo_error e s⟩
    | ok endpoints =>
      have hfresh : (conversation platform).Triple (fun _ => True) freshHandle fun handle s =>
          handle = s.opened ∧ s.talk handle = {} := by
        refine (triple_history (Q := fun log s => Talks.Counted log s)
          fun _ _ hfits _ => hfits).bind fun log => triple_pure fun s h => ⟨h.opened, ?_⟩
        exact h.unopened _ h.opened.ge
      have hcreate : (conversation platform).Triple (fun _ => True) (createTcpSocket platform)
          fun r s => ∀ handle, r.1.handle = some handle → RestsOn platform handle s := by
        refine triple_createTcpSocket_of ordinary_unused (fun _ _ _ he h => h.unused he) hfresh ?_
        intro handle s ⟨hnew, hempty⟩
        refine ⟨_, rfl, hnew ▸ Nat.lt_succ_self _, ?_⟩
        show (s.talk handle).Rests platform
        rw [hempty]
        exact Talk.rests_empty platform none
      have haccepts : ∀ e s, Event.carries e = false →
          ∃ s', (conversation platform).step s e = some s' := fun e s he =>
        (unused_step he s).imp fun _ h => h.1
      refine Triple.bind ((triple_connect_of ordinary_unused haccepts
        (fun _ _ _ he h => h.unused he) hcreate endpoints _).weaken (fun _ _ => trivial)
        fun _ _ h => h) fun result => triple_pure fun s h => ⟨rfl, h⟩

/-- Behind a response the connection is kept where the conversation rests. -/
theorem atRest_of_concluded {request : Request} {serialized : SerializedRequest}
    {turns : List (Turn platform)} {connection : TcpConnection} {parser : ResponseParser}
    {r : Result Response × Client} {origin : Bytes × ℕ}
    (hserialized : serializeRequest platform.inetPton6 request = .ok serialized)
    (h : Concluded client.cleared connection serialized.url request parser r)
    (hheard : Heard request.method client.settings.responseLimits (.adoptNativeHandle handle)
      serialized.text (Speaking handle origin turns serialized.text) (.ok parser, connection) s) :
    r.2.AtRest platform s := by
  obtain ⟨-, h⟩ := h
  split_ifs at h with hreusable
  · obtain ⟨handle', hhandle, hclient⟩ := h
    obtain ⟨-, hparser, hpending, -⟩ := reusable_iff.mp hreusable
    obtain ⟨wire, pending, rfl, hspeaking, ⟨rfl, -⟩ | ⟨rfl, -⟩⟩ := hheard
    · cases hhandle
      have hnone : pending = [] := hpending
      subst hnone
      rw [hclient]
      rintro other ⟨-, rfl⟩
      refine ⟨hspeaking.opened, turns ++ [⟨request, serialized, hserialized, wire,
        keepsConnection_of_reusable hparser⟩], ?_, ?_⟩
      · show (s.talk handle).accepted = _
        rw [hspeaking.said.accepted]
        simp [Turn.text]
      · show (s.talk handle).received = _
        rw [hspeaking.said.received]
        simp [Turn.encode]
    · cases hhandle
  · rw [h]
    exact atRest_cleared client s

theorem heard_unused {requestMethod : Method} {limits : ResponseLimits} {text : Bytes}
    {connection : TcpConnection} {turns : List (Turn platform)} {origin : Bytes × ℕ}
    {r : Result ResponseParser × TcpConnection} (he : e.carries = false)
    (h : Heard requestMethod limits connection text (Speaking handle origin turns text) r s) :
    ∃ s', (conversation platform).step s e = some s' ∧
      Heard requestMethod limits connection text (Speaking handle origin turns text) r s' := by
  obtain ⟨e' | parser, connection'⟩ := r
  · obtain ⟨sent, stream, hspeaking, hgivenUp⟩ := h
    obtain ⟨s', hstep, hspeaking'⟩ := hspeaking.unused he
    exact ⟨s', hstep, sent, stream, hspeaking', hgivenUp⟩
  · obtain ⟨wire, pending, hparser, hspeaking, hends⟩ := h
    obtain ⟨s', hstep, hspeaking'⟩ := hspeaking.unused he
    exact ⟨s', hstep, wire, pending, hparser, hspeaking', hends⟩

/-- Why a call has failed: the request cannot be written down, there is no connection, or the
exchange has failed behind whole turns. -/
def Unanswered (platform : Platform) (limits : ResponseLimits) (request : Request) (e : Error)
    (talk : Handle → Talk) : Prop :=
  serializeRequest platform.inetPton6 request = .error e ∨
    ∃ serialized, serializeRequest platform.inetPton6 request = .ok serialized ∧
      (e.code ∈ connectErrors ∨
        ∃ (handle : Handle) (turns : List (Turn platform)) (sent stream : Bytes),
          (talk handle).Says turns sent stream ∧ sent <+: serialized.text ∧
            GivenUp request.method limits serialized.text sent stream e)

/-- Behind one call the conversation rests again, and a response is that of this request. -/
structure TurnTaken (platform : Platform) (client : Client) (request : Request)
    (r : Result Response × Client) (s : Talks) : Prop where
  rests : r.2.AtRest platform s
  settings : r.2.settings = client.settings
  answered : ∀ response, r.1 = .ok response →
    ∃ serialized, serializeRequest platform.inetPton6 request = .ok serialized ∧
      ∃ handle, AnsweredOver platform request serialized response (s.talk handle)
  failed : ∀ e, r.1 = .error e →
    Unanswered platform client.settings.responseLimits request e s.talk

theorem turnTaken_error {request : Request} {e : Error} {client' : Client}
    (hrests : client'.AtRest platform s) (hsettings : client'.settings = client.settings)
    (h : Unanswered platform client.settings.responseLimits request e s.talk) :
    TurnTaken platform client request (.error e, client') s := by
  refine ⟨hrests, hsettings, nofun, ?_⟩
  rintro e' ⟨⟩
  exact h

theorem settings_of_concluded {connection : TcpConnection} {url : Url} {request : Request}
    {parser : ResponseParser} {r : Result Response × Client}
    (h : Concluded client connection url request parser r) : r.2.settings = client.settings := by
  obtain ⟨-, h⟩ := h
  split_ifs at h
  · obtain ⟨handle, -, hclient⟩ := h
    rw [hclient]
    rfl
  · rw [h]

theorem triple_executeOnce_talks (this : ClientId) (client : Client) (request : Request) :
    (conversation platform).Triple (client.AtRest platform)
      (client.executeOnce platform this request) (TurnTaken platform client request) := by
  unfold Client.executeOnce
  cases hserialized : serializeRequest platform.inetPton6 request with
  | error e => exact triple_pure fun s h => turnTaken_error h rfl (.inl hserialized)
  | ok serialized =>
    refine ((returns_obtainConnection client platform this serialized.url).beside
      (triple_obtainConnection_atRest serialized.url)).bind fun r =>
        triple_and fun hcodes => triple_and fun hclient => ?_
    obtain ⟨r, client'⟩ := r
    cases hclient
    cases r with
    | error e =>
      exact triple_pure fun s _ => turnTaken_error (atRest_cleared client s) rfl
        (.inr ⟨serialized, hserialized, .inl (hcodes e rfl)⟩)
    | ok connection =>
      refine Triple.weaken (P := fun s => ∃ handle, connection = .adoptNativeHandle handle ∧
        RestsOn platform handle s) ?_ (fun s h => h connection rfl) fun _ _ h => h
      refine triple_exists fun handle => triple_and fun hconnection => ?_
      subst hconnection
      let origin : Bytes × ℕ := (serialized.url.host, serialized.url.port)
      refine Triple.bind (Q := fun _ s => ∃ turns : List (Turn platform),
        Speaking handle origin turns serialized.text [] [] s) ?_ fun _ => ?_
      · refine triple_emit fun s h => ⟨_, if_pos h, ?_⟩
        obtain ⟨hopened, turns, hspoken⟩ := h
        refine ⟨turns, hopened, ?_, List.nil_prefix, ?_⟩
        · rw [Talks.set_self, Talk.next, if_pos rfl]
        · rw [Talks.set_self, Talk.next, if_pos rfl]
          exact ⟨hspoken.accepted, hspoken.received⟩
      refine triple_exists fun turns => ?_
      refine (triple_exchange_of ordinary_unused.toBasic
        (followsExchange_speaking hserialized) rfl client.cleared).bind fun r => ?_
      obtain ⟨e | parser, connection⟩ := r
      · refine Triple.bind (Q := fun _ => Heard request.method client.settings.responseLimits
          (.adoptNativeHandle handle) serialized.text
          (Speaking handle origin turns serialized.text) (.error e, connection)) ?_ fun _ => ?_
        · exact ((writes_close ordinary_unused connection.socket).triple
            fun e' s he h => heard_unused he h).bind fun _ => triple_pure fun _ h => h.2
        refine triple_pure fun s h => turnTaken_error (atRest_cleared client s) rfl ?_
        obtain ⟨sent, stream, hspeaking, hgivenUp⟩ := h
        exact .inr ⟨serialized, hserialized, .inr ⟨handle, turns, sent, stream, hspeaking.said,
          hspeaking.begins, hgivenUp⟩⟩
      · refine ((writes_conclude ordinary_unused _ this connection _ request parser).triple
          fun e s he h => heard_unused he h).weaken (fun _ h => h) fun r s h => ?_
        have hsettings : r.2.settings = client.cleared.settings := settings_of_concluded h.1
        refine ⟨atRest_of_concluded hserialized h.1 h.2, hsettings, fun response hr => ?_,
          fun e he => ?_⟩
        · obtain ⟨wire, pending, rfl, hspeaking, -⟩ := h.2
          refine ⟨serialized, hserialized, handle, hspeaking.origin, turns, wire, pending,
            hspeaking.said, ?_⟩
          exact Except.ok.inj (hr.symm.trans h.1.1)
        · cases he.symm.trans h.1.1

theorem triple_request_talks (client : Client) (request : Request) :
    (conversation platform).Triple (client.AtRest platform)
      (client.request platform this request) fun r => r.2.AtRest platform :=
  Dialogue.triple_play (fun client => client.AtRest platform)
    (fun request client => (triple_executeOnce_talks this client request).weaken (fun _ h => h)
      fun _ _ h => h.rests) _ client

end

/-! ## Operations -/

/-- All clients are at rest. -/
def Clients.AtRest (clients : Clients) (platform : Platform) (s : Talks) : Prop :=
  ∀ this client, clients this = some client → client.AtRest platform s

section

variable {platform : Platform} {clients : Clients}

theorem clients_unused {s : Talks} {e : Event} (he : e.carries = false)
    (h : clients.AtRest platform s) :
    ∃ s', (conversation platform).step s e = some s' ∧ clients.AtRest platform s' := by
  obtain ⟨s', hstep, hle, hsame⟩ := unused_step he s
  refine ⟨s', hstep, fun this client hclient handle hhas => ?_⟩
  obtain ⟨hlt, hrests⟩ := h this client hclient handle hhas
  rw [RestsOn, hsame]
  exact ⟨hlt.trans_le hle, hrests⟩

theorem writes_handOver_unused (source : Client) (other this : ClientId) :
    (source.handOver other this).Writes (fun e => e.carries = false) fun _ => True := by
  unfold Client.handOver
  split
  · exact writes_emit rfl
  · exact writes_pure trivial

theorem moved_atRest {s : Talks} {this other : ClientId} {source : Client}
    (h : clients.AtRest platform s) (hsource : clients other = some source) :
    ∀ id ∈ [this, other], ∀ client,
      Function.update (Function.update clients other (some source.cleared)) this (some source) id =
        some client → client.AtRest platform s := by
  intro id hid client hclient
  rcases eq_or_ne id this with rfl | hne
  · rw [Function.update_self] at hclient
    cases hclient
    exact h other source hsource
  · rw [Function.update_of_ne hne] at hclient
    obtain rfl : id = other := by simpa [hne] using hid
    rw [Function.update_self] at hclient
    cases hclient
    exact atRest_cleared source s

/-- The clients that an operation is about are at rest behind it. -/
theorem triple_perform_talks (operation : ClientOperation) :
    (conversation platform).Triple (clients.AtRest platform) (perform platform clients operation)
      fun clients' s => ∀ this ∈ operation.involves, ∀ client, clients' this = some client →
        client.AtRest platform s := by
  have hquiet : ∀ {α : Type} {q : Proc α} {Q : α → Prop}, q.Writes (fun e => e.carries = false) Q →
      (conversation platform).Triple (clients.AtRest platform) q fun a s =>
        Q a ∧ clients.AtRest platform s := fun hq => hq.triple fun _ _ he h => clients_unused he h
  have hnone : (conversation platform).Triple (clients.AtRest platform)
      (pure clients : Proc Clients) fun clients' s => ∀ this ∈ operation.involves, ∀ client,
        clients' this = some client → client.AtRest platform s :=
    triple_pure fun s h this _ client hclient => h this client hclient
  unfold perform
  cases operation with
  | construct this =>
    dsimp only
    split
    · exact hnone
    · refine triple_pure fun s _ other hother client hclient => ?_
      rw [List.mem_singleton.mp hother, Function.update_self] at hclient
      cases hclient
      rintro handle ⟨hhas, -⟩
      cases hhas
  | moveConstruct this other =>
    dsimp only
    split
    · next source hthis hsource =>
      refine (hquiet (writes_handOver_unused source other this)).bind fun _ =>
        triple_pure fun s h => ?_
      exact moved_atRest h.2 hsource
    · exact hnone
  | moveAssign this other =>
    dsimp only
    split
    · next client source hclient hsource =>
      split
      · exact hnone
      refine (hquiet (writes_closeReusableConnection ordinary_unused client this)).bind
        fun _ => triple_and fun _ => ?_
      refine (hquiet (writes_handOver_unused source other this)).bind fun _ =>
        triple_pure fun s h => ?_
      exact moved_atRest h.2 hsource
    · exact hnone
  | destroy this =>
    dsimp only
    split
    · next client hclient =>
      refine (hquiet (writes_closeReusableConnection ordinary_unused client this)).bind
        fun _ => triple_pure fun s _ other hother client' hclient' => ?_
      rw [List.mem_singleton.mp hother, Function.update_self] at hclient'
      cases hclient'
    · exact hnone
  | configure this settings =>
    dsimp only
    split
    · next client hclient =>
      refine triple_pure fun s h other hother client' hclient' => ?_
      rw [List.mem_singleton.mp hother, Function.update_self] at hclient'
      cases hclient'
      exact fun handle hhas => h this client hclient handle hhas
    · exact hnone
  | request this request =>
    dsimp only
    split
    · next client hclient =>
      refine ((triple_request_talks client request).weaken (fun s h => h this client hclient)
        fun _ _ h => h).bind fun r => triple_pure fun s h other hother client' hclient' => ?_
      rw [List.mem_singleton.mp hother, Function.update_self] at hclient'
      cases hclient'
      exact h
    · exact hnone

end

/-! ## Runs -/

/-- At rest, or a request is being answered. -/
def Talk.Orderly (platform : Platform) (t : Talk) : Prop := t.Rests platform ∨ t.Speaks platform

/-- What is known between operations: where the handles are, and that all that has been said on them
was in order. -/
structure Conversant (platform : Platform) (clients : Clients) (log : List Event) : Prop where
  owned : ∃ places, handleLedger.reads [] log = some places ∧
    Holds none (Clients.keeps clients) places
  spoken : ∃ s, (conversation platform).reads {} log = some s ∧ clients.AtRest platform s

section

variable {platform : Platform} {clients : Clients}

theorem conversant_new : Conversant platform (fun _ => none) [] := by
  refine ⟨⟨[], rfl, fun _ _ => by simp, fun _ _ _ _ => by simp [Clients.keeps]⟩, {}, rfl, ?_⟩
  intro this client hclient
  cases hclient

theorem talks_fit {log : List Event} {s : Talks}
    (h : (conversation platform).reads {} log = some s) : (conversation platform).fits log s := by
  have hempty : (conversation platform).fits [] {} := ⟨rfl, fun _ _ => rfl⟩
  exact (conversation platform).fits_reads hempty h

/-- The clients that an operation is about are at rest, and it has left the others alone. -/
theorem conversant_perform {w : World Answer Event} (h : Conversant platform clients w.log)
    (operation : ClientOperation) :
    (∃ s, (conversation platform).reads {}
        ((perform platform clients operation).run w).2.log = some s) ∧
      ∀ clients', ((perform platform clients operation).run w).1 = some clients' →
        Conversant platform clients' ((perform platform clients operation).run w).2.log := by
  obtain ⟨⟨places, hplaces, hholds⟩, s, hs, hrest⟩ := h
  have hcounted := counted_of_reads hplaces
  obtain ⟨events, places', hlog, hreads, howned⟩ :=
    triple_perform platform operation w places hcounted hholds
  obtain ⟨events', s', hlog', hreads', hspoken⟩ :=
    triple_perform_talks operation w s (talks_fit hs) hrest
  have hevents : events' = events := List.append_cancel_left (hlog'.symm.trans hlog)
  subst hevents
  have hall : (conversation platform).reads {} (w.log ++ events') = some s' := by
    rw [reads_append, hs]
    exact hreads'
  rw [hlog]
  refine ⟨⟨s', hall⟩, fun clients' hclients' => ⟨⟨places', ?_, howned clients' hclients'⟩, s', hall,
    fun this client hclient => ?_⟩⟩
  · rw [reads_append, hplaces]
    exact hreads
  by_cases hthis : this ∈ operation.involves
  · exact hspoken clients' hclients' this hthis client hclient
  have hspares : (perform platform clients operation).Writes (Event.Spares this) fun clients' =>
    clients' this = clients this := writes_perform hthis
  obtain ⟨events'', u, hlog'', hobserved, hsame⟩ := hspares w () trivial trivial
  have hevents : events'' = events' := List.append_cancel_left (hlog''.symm.trans hlog)
  subst hevents
  rw [hsame clients' hclients'] at hclient
  intro handle hhas
  have hkept := (hholds.kept this handle client.reusableHost client.reusablePort).mp
    (Clients.keeps_eq_some.mpr ⟨client, hclient, hhas, rfl, rfl⟩)
  have huntouched := spared_reads hreads hkept (kind_of_observed hobserved)
  obtain ⟨hlt, hrests⟩ := hrest this client hclient handle hhas
  refine ⟨?_, ?_⟩
  · rw [← (talks_fit hall).opened, List.countP_append]
    rw [← (talks_fit hs).opened] at hlt
    exact hlt.trans_le (Nat.le_add_right _ _)
  · rw [talk_of_reads hall, talk_untouched w.log huntouched, ← talk_of_reads hs]
    exact hrests

theorem conversant_performAll {w : World Answer Event} (h : Conversant platform clients w.log)
    (operations : List ClientOperation) :
    (∃ s, (conversation platform).reads {}
        ((performAll platform clients operations).run w).2.log = some s) ∧
      ∀ clients', ((performAll platform clients operations).run w).1 = some clients' →
        Conversant platform clients' ((performAll platform clients operations).run w).2.log := by
  induction operations generalizing clients w with
  | nil =>
    obtain ⟨s, hs, -⟩ := h.spoken
    refine ⟨⟨s, hs⟩, fun clients' hclients' => ?_⟩
    cases hclients'
    exact h
  | cons operation operations ih =>
    obtain ⟨hone, hnext⟩ := conversant_perform h operation
    unfold performAll
    rcases hrun : (perform platform clients operation).run w with ⟨_ | clients₁, w₁⟩
    · rw [run_bind_none hrun]
      rw [hrun] at hone
      exact ⟨hone, nofun⟩
    · rw [run_bind_some hrun]
      rw [hrun] at hnext
      exact ih (hnext clients₁ rfl)

theorem orderly_step {s s' : Talks} {e : Event} (h : talksStep platform s e = some s')
    (hs : ∀ handle, (s.talk handle).Orderly platform) (handle : Handle) :
    (s'.talk handle).Orderly platform := by
  obtain ⟨other, rfl, rfl⟩ | ⟨-, -, rfl⟩ | ⟨other, -, -, -, -, rfl, hturn⟩ := talksStep_cases h
  · exact hs handle
  · exact hs handle
  rcases eq_or_ne other handle with rfl | hne
  · rw [Talks.set_self]
    obtain ⟨⟨turns, hspoken⟩, host, port, parser, rfl⟩ | hspeaks := hturn
    · rw [Talk.next, if_pos rfl]
      exact .inl ⟨turns, hspoken.accepted, hspoken.received⟩
    · exact .inr hspeaks
  · rw [Talks.set_other s hne]
    exact hs handle

theorem orderly_of_reads {log : List Event} {s s' : Talks}
    (h : (conversation platform).reads s log = some s')
    (hs : ∀ handle, (s.talk handle).Orderly platform) (handle : Handle) :
    (s'.talk handle).Orderly platform := by
  induction log generalizing s with
  | nil =>
    cases h
    exact hs handle
  | cons e log ih =>
    unfold reads at h
    rw [List.foldlM_cons] at h
    obtain ⟨t, hstep, hrest⟩ := Option.bind_eq_some_iff.mp h
    exact ih hrest (orderly_step hstep hs)

/-- In every run of operations on clients, whatever the system answers and however far the run has
come: at every moment there are whole requests and whole responses in turn on every connection,
with at most one request behind them whose answer is being read and of which nothing is received
before all of it has been accepted. A request begins behind whole turns only, and so is every
connection that a client keeps. -/
theorem conversations_orderly (platform : Platform) (operations : List ClientOperation)
    (answers : List Answer) :
    let r := (performAll platform (fun _ => none) operations).run ⟨answers, []⟩
    (∀ past handle, past <+: r.2.log →
      (talk handle past).Rests platform ∨ (talk handle past).Speaks platform) ∧
    (∀ past handle host port parser rest,
      r.2.log = past ++ .began handle host port parser :: rest →
        (talk handle past).Rests platform) ∧
    ∀ clients, r.1 = some clients → ∀ this client handle, clients this = some client →
      client.hasHandle handle → (talk handle r.2.log).Rests platform := by
  intro r
  have hnew : Conversant platform (fun _ => none) [] := conversant_new
  obtain ⟨⟨s, hs⟩, hclients⟩ := conversant_performAll (w := ⟨answers, []⟩) hnew operations
  refine ⟨fun past handle hpast => ?_, fun past handle host port parser rest hlog => ?_,
    fun clients hr this client handle hclient hhas => ?_⟩
  · obtain ⟨s', hreads⟩ := reads_past _ hs hpast
    rw [← talk_of_reads hreads]
    exact orderly_of_reads hreads (fun _ => .inl (Talk.rests_empty platform none)) handle
  · obtain ⟨s', s'', hreads, hstep⟩ := reads_upto _ hs hlog
    rw [← talk_of_reads hreads]
    simp only [conversation, talksStep] at hstep
    split_ifs at hstep with hrests
    exact hrests.2
  · obtain ⟨-, s', hs', hrest⟩ := hclients clients hr
    rw [← talk_of_reads hs']
    exact (hrest this client hclient handle hhas).2

end

end CppRequest
