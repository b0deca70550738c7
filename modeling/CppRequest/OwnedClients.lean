import CppRequest.Client
import CppRequest.OwnedSockets

/-!
# Clients own what they keep

The functions of the client under the ledger, and the operations on clients. Between operations a
handle that is open is the one that exactly one client keeps.
-/

namespace CppRequest

open Procedure Monitor

/-! ## The endpoints -/

variable {kept : KeptHandles}

/-- A connection that has been made, on a new handle. -/
def Made (kept : KeptHandles) : Result TcpConnection → Places → Prop
  | .ok connection, places => ∃ handle, connection.socket.handle = some handle ∧
      Holds (some (handle, .idle none)) kept places
  | .error _, places => Holds none kept places

theorem triple_connectLoop (platform : Platform) (deadline : ℤ) (state : TcpConnection.ConnectState)
    (endpoints : List Endpoint) :
    handleLedger.Triple (Holds none kept)
      (TcpConnection.connectLoop platform deadline state endpoints) (Made kept) := by
  induction endpoints generalizing state with
  | nil =>
    unfold TcpConnection.connectLoop
    split
    · exact triple_pure fun _ h => h
    split
    · exact triple_pure fun _ h => h
    · exact triple_pure fun _ h => h
  | cons endpoint endpoints ih =>
    unfold TcpConnection.connectLoop
    split
    · exact ih state
    refine (triple_clock _).bind fun now => ?_
    split
    · exact triple_pure fun _ h => h
    refine (triple_createTcpSocket platform).bind fun r => ?_
    rcases r with ⟨⟨_ | handle⟩, createError⟩
    · exact ih _
    refine (triple_remainingTimeout _ deadline).bind fun remaining => ?_
    refine (triple_connectWithTimeout endpoint.address remaining rfl).bind fun attempt => ?_
    split
    · exact triple_pure fun _ h => ⟨handle, rfl, h⟩
    refine (triple_close { handle := some handle } rfl).bind fun _ => ?_
    split
    · exact triple_pure fun _ h => h.2
    · exact (ih _).weaken (fun _ h => h.2) fun _ _ h => h

theorem triple_connect (platform : Platform) (endpoints : List Endpoint) (timeout : ℤ) :
    handleLedger.Triple (Holds none kept) (TcpConnection.connect platform endpoints timeout)
      (Made kept) := by
  unfold TcpConnection.connect
  split
  · exact triple_pure fun _ h => h
  split
  · exact triple_pure fun _ h => h
  exact (triple_clock _).bind fun now => triple_connectLoop platform _ _ endpoints

theorem triple_resolve (P : Places → Prop) (host : Bytes) (port : ℕ) :
    handleLedger.Triple P (resolve host port) fun _ => P := by
  unfold resolve
  split
  · exact triple_pure fun _ h => h
  have hlogged : ∀ outcome, handleLedger.Triple P (emit (.resolved host port outcome) : Proc Unit)
      fun _ => P := fun outcome => triple_emit fun s h => ⟨s, rfl, h⟩
  refine triple_read.bind fun answer => ?_
  split
  · exact (hlogged _).bind fun _ => triple_pure fun _ h => h
  refine (hlogged _).bind fun _ => ?_
  dsimp only
  split
  · exact triple_pure fun _ h => h
  · exact triple_pure fun _ h => h

/-! ## The connection that is kept -/

namespace Client

/-- The handle a client keeps, with the host and the port. -/
def keeps (client : Client) : Option (Handle × Bytes × ℕ) :=
  if client.hasReusableConnection then
    some (decodeSocketHandle client.reusableSocketToken, client.reusableHost, client.reusablePort)
  else none

theorem keeps_cleared (client : Client) : client.cleared.keeps = none := rfl

end Client

variable {client : Client} {this : ClientId}

/-- The handle of a client goes to a socket. -/
theorem triple_adopted {handle : Handle} {host : Bytes} {port : ℕ}
    (hkept : kept this = some (handle, host, port)) :
    handleLedger.Triple (Holds none kept) (emit (.adopted this handle) : Proc Unit)
      fun _ => Holds (some (handle, .idle (some (host, port)))) (Function.update kept this none) :=
  triple_emit fun _ h => ⟨_, ledgerStep_handle rfl rfl ((h.kept _ _ _ _).mp hkept)
    (Place.next_of_step .adopted) (.inr (.inr h.free)), h.adopt hkept⟩

theorem triple_closeReusableConnection (hkept : kept this = client.keeps) :
    handleLedger.Triple (Holds none kept) (client.closeReusableConnection this)
      fun client' places => client' = client.cleared ∧
        Holds none (Function.update kept this none) places := by
  unfold Client.closeReusableConnection
  unfold Client.keeps at hkept
  split at hkept
  · next hhas =>
    rw [if_pos hhas]
    refine (triple_adopted hkept).bind fun _ => ?_
    refine (triple_close { handle := some _ } rfl).bind fun _ => ?_
    exact triple_pure fun _ h => ⟨rfl, h.2⟩
  · next hhas =>
    rw [if_neg hhas]
    refine triple_pure fun places h => ⟨rfl, ?_⟩
    rwa [← hkept, Function.update_eq_self]

/-- The connection of an exchange: one that suits its origin, and the client keeps none. -/
def Obtained (client : Client) (this : ClientId) (url : Url) (kept : KeptHandles) :
    Result TcpConnection × Client → Places → Prop
  | (.ok connection, client'), places => client' = client.cleared ∧ ∃ handle origin,
      connection.socket.handle = some handle ∧ Place.suits origin url.host url.port = true ∧
        Holds (some (handle, .idle origin)) (Function.update kept this none) places
  | (.error _, client'), places => client' = client.cleared ∧
      Holds none (Function.update kept this none) places

theorem triple_obtainConnection (platform : Platform) (url : Url) (hkept : kept this = client.keeps) :
    handleLedger.Triple (Holds none kept) (client.obtainConnection platform this url)
      (Obtained client this url kept) := by
  unfold Client.obtainConnection
  split
  · next hkeeps =>
    unfold Client.keepsConnectionTo at hkeeps
    rw [Bool.and_eq_true] at hkeeps
    unfold Client.keeps at hkept
    rw [if_pos hkeeps.1] at hkept
    refine (triple_adopted hkept).bind fun _ => ?_
    exact triple_pure fun _ h =>
      ⟨rfl, _, some (client.reusableHost, client.reusablePort), rfl, hkeeps.2, h⟩
  · refine (triple_closeReusableConnection hkept).bind fun client' => triple_and fun hclient => ?_
    subst hclient
    refine (triple_resolve _ _ _).bind fun endpoints => ?_
    cases endpoints with
    | error e => exact triple_pure fun _ h => ⟨rfl, h⟩
    | ok endpoints =>
      refine (triple_connect platform endpoints _).bind fun result => ?_
      cases result with
      | error e => exact triple_pure fun _ h => ⟨rfl, h⟩
      | ok connection =>
        refine triple_pure fun _ h => ⟨rfl, ?_⟩
        rcases h with ⟨handle, hhandle, hplace⟩
        exact ⟨handle, none, hhandle, rfl, hplace⟩

/-! ## Exchanges -/

/-- Behind an exchange the connection is still there, with the parser that has the response, or
closed. -/
def Exchanged (handle : Handle) (kept : KeptHandles) (host : Bytes) (port : ℕ) :
    Result ResponseParser × TcpConnection → Places → Prop
  | (.ok parser, connection), places =>
    connection.socket.handle = some handle ∧
        Holds (some (handle, .busy host port parser)) kept places ∨
      connection.socket.handle = none ∧ Holds none kept places
  | (.error _, connection), places => ∃ p, p.owned = true ∧
      Holds (connection.socket.handle.map fun handle => (handle, p)) kept places

variable {connection : TcpConnection} {handle : Handle} {host : Bytes} {port : ℕ}
variable {parser : ResponseParser}

theorem triple_writeRequest (hhandle : connection.socket.handle = some handle)
    (serialized : SerializedRequest) (timeout : ℤ) :
    handleLedger.Triple (Holds (some (handle, .busy host port parser)) kept)
      (Client.writeRequest connection serialized timeout)
      (After connection handle kept fun _ => .busy host port parser) := by
  refine (triple_clock _).bind fun now => ?_
  refine (triple_remainingTimeout _ _).bind fun remaining => ?_
  refine (triple_writeAll hhandle _ _).bind fun r => ?_
  rcases r with ⟨e | written, connection'⟩
  · exact triple_pure fun _ h => h
  · refine triple_and fun hsame => ?_
    subst hsame
    dsimp only
    split
    · exact triple_pure fun _ h => ⟨rfl, h⟩
    refine (triple_remainingTimeout _ _).bind fun remaining => ?_
    refine (triple_writeAll hhandle _ _).bind fun r => ?_
    rcases r with ⟨e | written, connection'⟩
    · exact triple_pure fun _ h => h
    · exact triple_pure fun _ h => h

theorem triple_responseRound (hhandle : connection.socket.handle = some handle) (readTimeout : ℤ)
    (state : TcpConnection × ResponseParser) :
    handleLedger.Triple (fun places => state.1 = connection ∧
        Holds (some (handle, .busy host port state.2)) kept places)
      (Client.responseRound readTimeout state) fun r places =>
        r.elim (fun state' => state'.1 = connection ∧
          Holds (some (handle, .busy host port state'.2)) kept places) fun r =>
            Exchanged handle kept host port r places := by
  rcases state with ⟨connection', parser⟩
  refine triple_and fun hsame => ?_
  cases hsame
  unfold Client.responseRound
  dsimp only
  split
  · exact triple_pure fun _ h => .inl ⟨hhandle, h⟩
  refine (triple_readSome hhandle (by decide) _).bind fun r => ?_
  rcases r with ⟨e | data, connection'⟩
  · refine triple_pure fun places h => ?_
    show Exchanged handle kept host port (Client.endOfInput parser e, connection') places
    cases Client.endOfInput parser e with
    | error e' =>
      refine ⟨.idle none, rfl, ?_⟩
      rw [h.1]
      exact h.2
    | ok parser' => exact .inr h
  · refine triple_and fun hsame => ?_
    subst hsame
    dsimp only
    rcases hfeed : parser.feed data with ⟨e | q, parser'⟩
    · refine triple_pure fun places h => ⟨.busy host port parser', rfl, ?_⟩
      rw [hhandle]
      exact h
    · exact triple_pure fun places h => ⟨rfl, h⟩

theorem triple_exchange (client : Client) (hhandle : connection.socket.handle = some handle)
    (serialized : SerializedRequest) :
    handleLedger.Triple (Holds (some (handle, .busy host port parser)) kept)
      (client.exchange connection serialized parser) (Exchanged handle kept host port) := by
  refine (triple_writeRequest hhandle serialized _).bind fun r => ?_
  rcases r with ⟨e | u, connection'⟩
  · refine triple_pure fun places h => ⟨.idle none, rfl, ?_⟩
    rw [h.1]
    exact h.2
  · refine triple_and fun hsame => ?_
    subst hsame
    exact (triple_loop (fun state places => state.1 = connection' ∧
      Holds (some (handle, .busy host port state.2)) kept places)
      (triple_responseRound hhandle _) (connection', parser)).weaken (fun _ h => ⟨rfl, h⟩)
      fun _ _ h => h

/-! ## `execute_once` -/

/-- Between two calls on a client. -/
theorem triple_conclude (hnone : kept this = none) (hclient : client.keeps = none) (url : Url)
    (request : Request) (parser : ResponseParser) (connection : TcpConnection) :
    handleLedger.Triple (Exchanged handle kept url.host url.port (.ok parser, connection))
      (client.conclude this connection url request parser)
      fun r => Holds none (Function.update kept this r.2.keeps) := by
  have hkeep : Function.update kept this client.keeps = kept := by
    rw [hclient, ← hnone, Function.update_eq_self]
  rcases connection with ⟨⟨_ | handle'⟩⟩
  · have hpre : ∀ places, Exchanged handle kept url.host url.port (.ok parser, {}) places →
        Holds none kept places := by
      rintro places (⟨hhandle, -⟩ | ⟨-, h⟩)
      · cases hhandle
      · exact h
    refine Triple.weaken (P := Holds none kept) ?_ hpre fun _ _ h => h
    refine (Triple.bind (Q := fun _ => Holds none kept) ?_ fun _ => triple_pure fun _ h => ?_)
    · exact triple_pure fun _ h => h
    · rwa [hkeep]
  · have hpre : ∀ places, Exchanged handle kept url.host url.port
        (.ok parser, { socket := { handle := some handle' } }) places →
        Holds (some (handle', .busy url.host url.port parser)) kept places := by
      rintro places (⟨hhandle, h⟩ | ⟨hhandle, -⟩)
      · cases hhandle
        exact h
      · cases hhandle
    refine Triple.weaken (P := Holds (some (handle', .busy url.host url.port parser)) kept) ?_ hpre
      fun _ _ h => h
    unfold Client.conclude
    dsimp only
    cases hreusable : Client.reusable { socket := { handle := some handle' } } parser request with
    | true =>
      have hfinished : Place.finished parser = true := by
        simp only [Client.reusable, Bool.and_eq_true] at hreusable
        have hcomplete : parser.isComplete = true := by
          have hboth := hreusable.1.1.2
          simp only [ResponseParser.connectionReusable, Bool.and_eq_true] at hboth
          exact hboth.1.1
        simp only [Place.finished, Bool.and_eq_true]
        exact ⟨⟨hcomplete, hreusable.1.1.2⟩, hreusable.1.2⟩
      refine (triple_step (Q := fun _ => Holds none
        (Function.update kept this (some (handle', url.host, url.port)))) rfl rfl
        (.retained hfinished) fun _ h => h.retain url.host url.port hnone).bind fun _ => ?_
      exact triple_pure fun _ h => h
    | false =>
      refine Triple.bind (Q := fun _ => Holds none kept) ?_ fun _ => triple_pure fun _ h => ?_
      · exact (triple_close { handle := some handle' } rfl).bind fun _ => triple_pure fun _ h => h.2
      · rwa [hkeep]

theorem triple_executeOnce (platform : Platform) (request : Request)
    (hkept : kept this = client.keeps) :
    handleLedger.Triple (Holds none kept) (client.executeOnce platform this request)
      fun r => Holds none (Function.update kept this r.2.keeps) := by
  unfold Client.executeOnce
  cases serializeRequest platform.inetPton6 request with
  | error e =>
    refine triple_pure fun _ h => ?_
    rwa [← hkept, Function.update_eq_self]
  | ok serialized =>
    refine (triple_obtainConnection platform serialized.url hkept).bind fun r => ?_
    rcases r with ⟨e | connection, client'⟩
    · refine triple_and fun hclient => ?_
      subst hclient
      exact triple_pure fun _ h => h
    · refine triple_and fun hclient => ?_
      subst hclient
      refine triple_exists fun handle => triple_exists fun origin => triple_and fun hhandle =>
        triple_and fun hsuits => ?_
      refine Triple.bind (Q := fun _ => Holds (some (handle, .busy serialized.url.host
        serialized.url.port (.fresh request.method client.settings.responseLimits)))
        (Function.update kept this none)) ?_ fun _ => ?_
      · unfold Client.beginExchange
        rw [hhandle]
        exact triple_step rfl rfl (.began hsuits) fun _ h => h.set rfl
      refine (triple_exchange client.cleared hhandle serialized).bind fun r => ?_
      rcases r with ⟨e | parser, connection'⟩
      · refine triple_exists fun p => triple_and fun hp => ?_
        refine Triple.bind (Q := fun _ => Holds none (Function.update kept this none)) ?_
          fun _ => triple_pure fun _ h => h
        exact (triple_close connection'.socket hp).bind fun _ => triple_pure fun _ h => h.2
      · refine (triple_conclude (Function.update_self this none kept) (Client.keeps_cleared client)
          serialized.url request parser connection').weaken (fun _ h => h) fun _ _ h => ?_
        rwa [Function.update_idem] at h

/-- Redirects keep this up. -/
theorem triple_request (platform : Platform) (request : Request) :
    handleLedger.Triple (Holds none (Function.update kept this client.keeps))
      (client.request platform this request)
      fun r => Holds none (Function.update kept this r.2.keeps) := by
  refine Dialogue.triple_play (fun client => Holds none (Function.update kept this client.keeps))
    (fun request client => ?_) _ client
  refine (triple_executeOnce platform request (Function.update_self this _ kept)).weaken
    (fun _ h => h) fun _ _ h => ?_
  rwa [Function.update_idem] at h

/-! ## Operations on clients -/

/-- What each of the clients keeps. -/
def Clients.keeps (clients : Clients) : KeptHandles := fun this => (clients this).bind Client.keeps

variable {clients : Clients}

theorem keeps_of (hclient : clients this = some client) : Clients.keeps clients this = client.keeps := by
  unfold Clients.keeps
  rw [hclient]
  rfl

theorem keeps_of_none (hnone : clients this = none) : Clients.keeps clients this = none := by
  unfold Clients.keeps
  rw [hnone]
  rfl

theorem keeps_update (clients : Clients) (this : ClientId) (client : Option Client) :
    Clients.keeps (Function.update clients this client) =
      Function.update (Clients.keeps clients) this (client.bind Client.keeps) := by
  funext other
  unfold Clients.keeps
  rcases eq_or_ne other this with rfl | hne
  · rw [Function.update_self, Function.update_self]
  · rw [Function.update_of_ne hne, Function.update_of_ne hne]

/-- The target of a move keeps what its source has kept. -/
theorem triple_handOver {other : ClientId} {source : Client} (hsource : kept other = source.keeps)
    (hthis : kept this = none) :
    handleLedger.Triple (Holds none kept) (source.handOver other this) fun _ =>
      Holds none (Function.update (Function.update kept other none) this source.keeps) := by
  unfold Client.handOver
  cases hkeeps : source.hasReusableConnection with
  | false =>
    have hnone : source.keeps = none := by
      unfold Client.keeps
      rw [hkeeps]
      rfl
    rw [if_neg (by simp)]
    refine triple_pure fun _ h => ?_
    rw [hnone] at hsource ⊢
    have hother : Function.update kept other none = kept := by
      rw [← hsource, Function.update_eq_self]
    rwa [hother, ← hthis, Function.update_eq_self]
  | true =>
    have hsome : source.keeps = some (decodeSocketHandle source.reusableSocketToken,
        source.reusableHost, source.reusablePort) := by
      unfold Client.keeps
      rw [hkeeps]
      rfl
    rw [if_pos rfl, hsome]
    rw [hsome] at hsource
    exact triple_emit fun places h => ⟨_, ledgerStep_handle rfl rfl ((h.kept _ _ _ _).mp hsource)
      (Place.next_of_step .moved) (.inr (.inl rfl)), h.move hsource hthis⟩

/-- Between operations no socket has a handle, and the clients keep what the ledger says. -/
theorem triple_perform (platform : Platform) (operation : ClientOperation) :
    handleLedger.Triple (Holds none (Clients.keeps clients)) (perform platform clients operation)
      fun clients' => Holds none (Clients.keeps clients') := by
  unfold perform
  cases operation with
  | construct this =>
    dsimp only
    split
    · exact triple_pure fun _ h => h
    · next hnone =>
      refine triple_pure fun _ h => ?_
      rw [keeps_update]
      show Holds none (Function.update (Clients.keeps clients) this none) _
      rwa [← keeps_of_none hnone, Function.update_eq_self]
  | moveConstruct this other =>
    dsimp only
    split
    · next source hnone hsource =>
      refine (triple_handOver (keeps_of hsource) (keeps_of_none hnone)).bind fun _ => ?_
      refine triple_pure fun _ h => ?_
      rw [keeps_update, keeps_update]
      exact h
    · exact triple_pure fun _ h => h
  | moveAssign this other =>
    dsimp only
    split
    · next client source hclient hsource =>
      split
      · exact triple_pure fun _ h => h
      · next hne =>
        refine (triple_closeReusableConnection (keeps_of hclient)).bind fun _ => triple_and fun _ => ?_
        have hother : Function.update (Clients.keeps clients) this none other = source.keeps := by
          rw [Function.update_of_ne (Ne.symm hne), keeps_of hsource]
        have hthis : Function.update (Clients.keeps clients) this none this = none := by
          rw [Function.update_self]
        refine (triple_handOver hother hthis).bind fun _ => ?_
        refine triple_pure fun _ h => ?_
        rw [keeps_update, keeps_update]
        have hcomm : Function.update (Function.update (Clients.keeps clients) this none) other none =
            Function.update (Function.update (Clients.keeps clients) other none) this none :=
          Function.update_comm hne _ _ _
        rwa [hcomm, Function.update_idem] at h
    · exact triple_pure fun _ h => h
  | destroy this =>
    dsimp only
    split
    · next client hclient =>
      refine (triple_closeReusableConnection (keeps_of hclient)).bind fun _ => triple_and fun _ => ?_
      refine triple_pure fun _ h => ?_
      rw [keeps_update]
      exact h
    · exact triple_pure fun _ h => h
  | configure this settings =>
    dsimp only
    split
    · next client hclient =>
      refine triple_pure fun _ h => ?_
      rw [keeps_update]
      show Holds none (Function.update (Clients.keeps clients) this client.keeps) _
      rwa [← keeps_of hclient, Function.update_eq_self]
    · exact triple_pure fun _ h => h
  | request this request =>
    dsimp only
    split
    · next client hclient =>
      have hrequest := @triple_request (Clients.keeps clients) client this platform request
      rw [← keeps_of hclient, Function.update_eq_self] at hrequest
      refine hrequest.bind fun r => triple_pure fun _ h => ?_
      rw [keeps_update]
      exact h
    · exact triple_pure fun _ h => h

theorem triple_performAll (platform : Platform) (operations : List ClientOperation) :
    handleLedger.Triple (Holds none (Clients.keeps clients))
      (performAll platform clients operations) fun clients' => Holds none (Clients.keeps clients') := by
  induction operations generalizing clients with
  | nil => exact triple_pure fun _ h => h
  | cons operation operations ih => exact (triple_perform platform operation).bind fun _ => ih

end CppRequest
