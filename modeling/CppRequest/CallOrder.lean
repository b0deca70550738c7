import CppRequest.SocketLives

/-!
# Calls in order

Requests on clients keep to the lives of sockets, and so do runs of operations. From this it is read
off that nothing is done with a socket that could block beyond its timeout, or busily.
-/

namespace CppRequest

open Procedure Monitor

/-! ## Requests -/

section

variable {platform : Platform} {this : ClientId} {handle : Handle}

/-- The connection that a client keeps is idle. -/
def Client.Idle (client : Client) (s : Machines Phase) : Prop := client.RestsAt (· = .idle) s

theorem resting_idle : socketLife.Resting (· = .idle) := by
  rintro p e rfl he
  cases e with
  | closed | adopted | moved => exact ⟨.idle, rfl, rfl⟩
  | clock | resolved | opened | used | waited | sent | received | began | retained => cases he

/-- What a client keeps is gone before an idle connection is there. -/
theorem triple_obtainConnection_life (client : Client) (url : Url) :
    (machines socketLife).Triple client.Idle (client.obtainConnection platform this url)
      fun r s => r.2 = client.cleared ∧ ConnectsTo (fun handle s => s.At handle .idle) r.1 s := by
  unfold Client.obtainConnection
  split
  · next hkeeps =>
    unfold Client.keepsConnectionTo at hkeeps
    rw [Bool.and_eq_true] at hkeeps
    let handle := decodeSocketHandle client.reusableSocketToken
    refine Triple.weaken (P := fun s => s.At handle .idle) ?_ (fun s h => ?_) fun _ _ h => h
    · refine (triple_use (m := socketLife) (q := .idle) rfl rfl rfl).bind fun _ =>
        triple_pure fun s h => ⟨rfl, ?_⟩
      rintro connection ⟨⟩
      exact ⟨_, rfl, h⟩
    · obtain ⟨p, hat, rfl⟩ := h _ ⟨hkeeps.1, rfl⟩
      exact hat
  · have hclose : (machines socketLife).Triple
        (Clients.RestAt (fun _ => some client) (· = Phase.idle))
        (client.closeReusableConnection this) fun client' s => client' = client.cleared ∧
          Clients.RestAt (fun _ => some client) (· = Phase.idle) s :=
      triple_closeReusableConnection_rest resting_idle rfl
    refine (hclose.weaken (fun s h id c hc => ?_) fun _ _ h => h).bind fun client' =>
      triple_and fun hclient => ?_
    · cases hc
      exact h
    subst hclient
    refine Triple.bind ((triple_resolve_any url.host url.port).weaken (fun _ _ => trivial)
      fun _ _ h => h) fun resolved => ?_
    cases resolved with
    | error e => exact triple_pure fun s _ => ⟨rfl, connectsTo_error e s⟩
    | ok endpoints =>
      refine Triple.bind ((triple_connect_life platform endpoints _).weaken (fun _ _ => trivial)
        fun _ _ h => h) fun result => triple_pure fun _ h => ⟨rfl, h⟩

theorem triple_writeRequest_life {connection : TcpConnection}
    (hhandle : connection.socket.handle = some handle) (serialized : SerializedRequest)
    (timeout : ℤ) :
    (machines socketLife).Triple (fun s => s.At handle .idle)
      (Client.writeRequest connection serialized timeout) (LeavesIdle connection handle) := by
  refine triple_clock_at.bind fun now => ?_
  refine (triple_remainingTimeout_at _).bind fun remaining => ?_
  refine (triple_writeAll_life hhandle _ remaining).bind fun r => ?_
  obtain ⟨e | n, connection'⟩ := r
  · exact triple_pure fun s h => h
  refine triple_and fun hsame => ?_
  subst hsame
  dsimp only
  split
  · exact triple_pure fun s h => ⟨rfl, h⟩
  refine (triple_remainingTimeout_at _).bind fun remaining => ?_
  refine (triple_writeAll_life hhandle _ remaining).bind fun r => ?_
  obtain ⟨e | n, connection''⟩ := r
  · exact triple_pure fun s h => h
  · exact triple_pure fun s h => h

/-- The connection is idle, if it is still there. -/
def IdleOrClosed (connection : TcpConnection) (s : Machines Phase) : Prop :=
  ∀ handle, connection.socket.handle = some handle → s.At handle .idle

theorem idleOrClosed_closed (s : Machines Phase) : IdleOrClosed {} s := nofun

theorem idleOrClosed_idle {s : Machines Phase} (h : s.At handle .idle) :
    IdleOrClosed (.adoptNativeHandle handle) s := by
  rintro other ⟨⟩
  exact h

theorem triple_responseRound_life (readTimeout : ℤ) (state : TcpConnection × ResponseParser) :
    (machines socketLife).Triple
      (fun s => state.1 = .adoptNativeHandle handle ∧ s.At handle .idle)
      (Client.responseRound readTimeout state) fun r s =>
        r.elim (fun state' => state'.1 = .adoptNativeHandle handle ∧ s.At handle .idle)
          fun r => IdleOrClosed r.2 s := by
  obtain ⟨connection, parser⟩ := state
  refine triple_and fun hsame => ?_
  cases hsame
  unfold Client.responseRound
  dsimp only
  split
  · exact triple_pure fun s h => idleOrClosed_idle h
  refine (triple_readSome_life rfl _ _).bind fun r => ?_
  obtain ⟨e | data, connection'⟩ := r
  · refine triple_pure fun s h => ?_
    rw [show connection' = {} from h]
    exact idleOrClosed_closed s
  refine triple_and fun hsame => ?_
  subst hsame
  dsimp only
  split
  · exact triple_pure fun s h => idleOrClosed_idle h
  · exact triple_pure fun s h => ⟨rfl, h⟩

theorem triple_exchange_life (client : Client) (serialized : SerializedRequest)
    (parser : ResponseParser) :
    (machines socketLife).Triple (fun s => s.At handle .idle)
      (client.exchange (.adoptNativeHandle handle) serialized parser)
      fun r s => IdleOrClosed r.2 s := by
  refine (triple_writeRequest_life rfl serialized _).bind fun r => ?_
  obtain ⟨e | u, connection⟩ := r
  · refine triple_pure fun s h => ?_
    rw [show connection = {} from h]
    exact idleOrClosed_closed s
  refine triple_and fun hsame => ?_
  subst hsame
  exact (triple_loop (fun state s => state.1 = .adoptNativeHandle handle ∧ s.At handle .idle)
    (triple_responseRound_life _) (_, parser)).weaken (fun _ h => ⟨rfl, h⟩) fun _ _ h => h

theorem triple_close_idle (connection : TcpConnection) :
    (machines socketLife).Triple (IdleOrClosed connection) connection.close fun _ _ => True :=
  Triple.bind ((triple_close_life connection.socket).weaken
    (fun _ h handle hhandle => (h handle hhandle).opened) fun _ _ h => h) fun _ =>
      triple_pure fun _ _ => trivial

theorem triple_conclude_life {client : Client} (hnone : client.hasReusableConnection = false)
    (connection : TcpConnection) (url : Url) (request : Request) (parser : ResponseParser) :
    (machines socketLife).Triple (IdleOrClosed connection)
      (client.conclude this connection url request parser) fun r => r.2.Idle := by
  have hclient : ∀ s : Machines Phase, client.Idle s := by
    rintro s handle ⟨hhas, -⟩
    cases hnone.symm.trans hhas
  unfold Client.conclude
  split
  · next handle hhandle hkept =>
    refine Triple.weaken (P := fun s => s.At handle .idle) ?_ (fun s h => h handle hhandle)
      fun _ _ h => h
    refine (triple_use (m := socketLife) (q := .idle) rfl rfl rfl).bind fun _ =>
      triple_pure fun s h => ?_
    rintro other ⟨-, rfl⟩
    exact ⟨.idle, h, rfl⟩
  · exact (triple_close_idle connection).bind fun _ => triple_pure fun s _ => hclient s

theorem triple_executeOnce_life (client : Client) (request : Request) :
    (machines socketLife).Triple client.Idle (client.executeOnce platform this request)
      fun r => r.2.Idle := by
  unfold Client.executeOnce
  cases serializeRequest platform.inetPton6 request with
  | error e => exact triple_pure fun _ h => h
  | ok serialized =>
    refine (triple_obtainConnection_life client serialized.url).bind fun r => ?_
    obtain ⟨e | connection, client'⟩ := r
    · refine triple_pure fun s h => ?_
      rw [h.1]
      exact restsAt_cleared client s
    refine triple_and fun hclient => ?_
    subst hclient
    refine Triple.weaken (P := fun s => ∃ handle, connection = .adoptNativeHandle handle ∧
      s.At handle .idle) ?_ (fun s h => h connection rfl) fun _ _ h => h
    refine triple_exists fun handle => triple_and fun hconnection => ?_
    subst hconnection
    refine (triple_use (m := socketLife) rfl rfl rfl).bind fun _ => ?_
    refine (triple_exchange_life client.cleared serialized _).bind fun r => ?_
    obtain ⟨e | parser, connection⟩ := r
    · exact (triple_close_idle connection).bind fun _ => triple_pure fun s _ =>
        restsAt_cleared client s
    · exact triple_conclude_life rfl connection serialized.url request parser

theorem acceptsRequests_life (platform : Platform) :
    socketLife.AcceptsRequests (· = .idle) platform := by
  intro this client request
  refine Dialogue.triple_play (fun client => client.Idle) (fun request client => ?_) _ client
  exact triple_executeOnce_life client request

end

/-! ## Order -/

/-- A mode that the socket is told. -/
def Event.setsMode (handle : Handle) : Event → Option Bool
  | .used other (.setFlags nonblocking) => if other = handle then some nonblocking else none
  | _ => none

/-- The mode that the socket has been told last. A new socket blocks. -/
def setToNonblock (handle : Handle) (log : List Event) : Bool :=
  ((log.filterMap (Event.setsMode handle)).getLast?).getD false

/-- Calls that do not come back at once on a socket that blocks. -/
def Event.mayBlock : Event → Bool
  | .used _ (.connect _) | .sent .. | .received .. => true
  | _ => false

/-- An attempt to send, or else to receive, that would have blocked. -/
def Event.wouldBlock (handle : Handle) (writable : Bool) : Event → Bool
  | .sent other (.error nativeCode) =>
    other == handle && writable && socketErrorIsWouldBlock nativeCode
  | .received other (.error nativeCode) =>
    other == handle && !writable && socketErrorIsWouldBlock nativeCode
  | _ => false

section

variable {handle : Handle} {p p' : Phase} {e : Event} {log : List Event}

theorem setToNonblock_concat (handle : Handle) (log : List Event) (e : Event) :
    setToNonblock handle (log ++ [e]) =
      (e.setsMode handle).getD (setToNonblock handle log) := by
  unfold setToNonblock
  rw [List.filterMap_append]
  cases h : e.setsMode handle with
  | none => simp [h]
  | some nonblocking => simp [h]

theorem setsMode_of_off (h : e.isOn handle = false) : e.setsMode handle = none := by
  cases e with
  | used other call =>
    have hne : other ≠ handle := by simpa [Event.isOn, Event.handle, Event.isOpened] using h
    cases call with
    | setFlags nonblocking => exact if_neg hne
    | setNoSigpipe | getFlags | connect | getError => rfl
  | clock | resolved | opened | closed | waited | sent | received | began
  | retained | adopted | moved => rfl

/-- What is begun on the socket may take time: it is being connected, or data is transferred. -/
def Phase.engaged : Phase → Bool
  | .connecting | .answered | .ready | .again _ | .waiting _ | .transferred _ | .spent => true
  | _ => false

theorem nonblocking_of_engaged (h : p.engaged = true) : p.nonblocking = true := by
  cases p with
  | created | toConnect | idle | toTransfer => cases h
  | unconnected | connecting | answered | connected | toRest | ready | again | waiting
  | transferred | spent => rfl

theorem engaged_of_attempts {writable : Bool} (h : p.attempts writable = true) :
    p.engaged = true := by
  cases p with
  | ready | again | transferred => rfl
  | created | toConnect | unconnected | connecting | answered | connected | toRest | idle
  | toTransfer | waiting | spent => cases h

theorem engaged_afterAttempt (writable : Bool) (outcome : Except ℤ Bytes) :
    (Phase.afterAttempt writable outcome).engaged = true := by
  unfold Phase.afterAttempt Phase.afterError
  split
  · split
    · rfl
    · rfl
  · split_ifs
    · rfl
    · rfl
    · rfl

theorem engaged_afterWait {result : SocketWaitResult} (h : p.afterWait result = some p') :
    p.engaged = true ∧ p'.engaged = true := by
  unfold Phase.afterWait at h
  split at h
  · cases h
    split
    · exact ⟨rfl, rfl⟩
    · exact ⟨rfl, rfl⟩
  · cases h
    split_ifs
    · exact ⟨rfl, rfl⟩
    · exact ⟨rfl, rfl⟩
    · exact ⟨rfl, rfl⟩
  · cases h

/-- Only where its mode is set does the mode of a socket change. -/
theorem nonblocking_next (h : p.next e = some p') (hhandle : e.handle = some handle) :
    p'.nonblocking = (e.setsMode handle).getD p.nonblocking := by
  cases e with
  | clock | resolved | opened => cases h
  | closed other =>
    cases h
    rfl
  | used other call =>
    cases hhandle
    simp only [Phase.next, Phase.afterCall] at h
    split at h
    all_goals cases h
    all_goals simp [Event.setsMode, Phase.nonblocking]
  | waited other writable milliseconds result =>
    simp only [Phase.next] at h
    split_ifs at h
    obtain ⟨hp, hp'⟩ := engaged_afterWait h
    rw [nonblocking_of_engaged hp, nonblocking_of_engaged hp']
    rfl
  | sent other outcome | received other outcome =>
    simp only [Phase.next] at h
    split_ifs at h with hattempts
    cases h
    rw [nonblocking_of_engaged (engaged_afterAttempt _ _),
      nonblocking_of_engaged (engaged_of_attempts hattempts)]
    rfl
  | began | retained | adopted | moved =>
    simp only [Phase.next] at h
    split_ifs at h with hidle
    cases h
    rw [hidle]
    rfl

theorem nonblocking_follow (h : socketLife.follow handle log = some p) :
    p.nonblocking = setToNonblock handle log := by
  induction log using List.reverseRecOn generalizing p with
  | nil =>
    cases h
    rfl
  | append_singleton log e ih =>
    rw [socketLife.follow_concat] at h
    rw [setToNonblock_concat]
    cases hon : e.isOn handle with
    | false =>
      rw [hon, if_neg Bool.false_ne_true] at h
      rw [setsMode_of_off hon]
      exact ih h
    | true =>
      rw [hon, if_pos rfl] at h
      obtain ⟨q, hq, hnext⟩ := Option.bind_eq_some_iff.mp h
      simp only [Event.isOn, Bool.and_eq_true, beq_iff_eq] at hon
      rw [← ih hq]
      exact nonblocking_next hnext hon.1

theorem nonblocking_of_mayBlock (h : p.next e = some p') (he : e.mayBlock = true) :
    p.nonblocking = true := by
  cases e with
  | used other call =>
    cases call with
    | connect =>
      cases p with
      | unconnected => rfl
      | created | toConnect | connecting | answered | connected | toRest | idle | toTransfer
      | ready | again | waiting | transferred | spent => cases h
    | setNoSigpipe | getFlags | setFlags | getError => cases he
  | sent | received =>
    simp only [Phase.next] at h
    split_ifs at h with hattempts
    exact nonblocking_of_engaged (engaged_of_attempts hattempts)
  | clock | resolved | opened | closed | waited | began | retained | adopted | moved => cases he

theorem not_opened_of_mayBlock (h : e.mayBlock = true) : e.isOpened = false := by
  cases e with
  | opened => cases h
  | clock | resolved | closed | used | waited | sent | received | began
  | retained | adopted | moved => rfl

theorem mayBlock_of_wouldBlock {writable : Bool} (h : e.wouldBlock handle writable = true) :
    e.mayBlock = true := by
  cases e with
  | sent | received => rfl
  | clock | resolved | opened | closed | used | waited | began
  | retained | adopted | moved => cases h

theorem handle_of_wouldBlock {writable : Bool} (h : e.wouldBlock handle writable = true) :
    e.handle = some handle := by
  cases e with
  | sent other outcome | received other outcome =>
    obtain nativeCode | data := outcome
    · simp only [Event.wouldBlock, Bool.and_eq_true, beq_iff_eq] at h
      exact congrArg some h.1.1
    · cases h
  | clock | resolved | opened | closed | used | waited | began
  | retained | adopted | moved => cases h

theorem waiting_of_wouldBlock {writable : Bool} (h : p.next e = some p')
    (he : e.wouldBlock handle writable = true) : p' = .waiting writable := by
  have hblocks : ∀ {writable : Bool} {nativeCode : ℤ}, socketErrorIsWouldBlock nativeCode = true →
      Phase.afterError writable nativeCode = .waiting writable := by
    intro writable nativeCode hcode
    have hinterrupted : socketErrorIsInterrupted nativeCode = false := by
      unfold socketErrorIsWouldBlock EAGAIN EWOULDBLOCK at hcode
      have hvalue : nativeCode = 11 := by simpa using hcode
      rw [hvalue]
      rfl
    unfold Phase.afterError
    rw [hinterrupted, if_neg Bool.false_ne_true, if_pos hcode]
  cases e with
  | sent other outcome =>
    obtain nativeCode | data := outcome
    · simp only [Event.wouldBlock, Bool.and_eq_true] at he
      simp only [Phase.next] at h
      split_ifs at h
      cases h
      rw [he.1.2]
      exact hblocks he.2
    · cases he
  | received other outcome =>
    obtain nativeCode | data := outcome
    · simp only [Event.wouldBlock, Bool.and_eq_true, Bool.not_eq_true'] at he
      simp only [Phase.next] at h
      split_ifs at h
      cases h
      rw [he.1.2]
      exact hblocks he.2
    · cases he
  | clock | resolved | opened | closed | used | waited | began
  | retained | adopted | moved => cases he

theorem not_mayBlock_waiting {writable : Bool} (h : (Phase.waiting writable).next e = some p) :
    e.mayBlock = false := by
  cases e with
  | used other call =>
    cases call with
    | connect => cases h
    | setNoSigpipe | getFlags | setFlags | getError => rfl
  | sent | received => cases h
  | clock | resolved | opened | closed | waited | began | retained | adopted | moved => rfl

/-- Nothing but a wait in its direction leads out of waiting. -/
theorem waiting_until {writable : Bool} {events : List Event}
    (h : (events.filter (Event.isOn handle)).foldlM Phase.next (.waiting writable) = some p) :
    (∃ (milliseconds : ℤ) (result : SocketWaitResult),
      .waited handle writable milliseconds result ∈ events ∧
        1 ≤ milliseconds ∧ milliseconds ≤ kMaxInt) ∨ p = .waiting writable := by
  induction events with
  | nil =>
    cases h
    exact .inr rfl
  | cons e events ih =>
    cases hon : e.isOn handle with
    | false =>
      rw [List.filter_cons_of_neg (by simp [hon])] at h
      obtain ⟨milliseconds, result, hmem, hbounds⟩ | rfl := ih h
      · exact .inl ⟨milliseconds, result, List.mem_cons_of_mem _ hmem, hbounds⟩
      · exact .inr rfl
    | true =>
      rw [List.filter_cons_of_pos hon, List.foldlM_cons] at h
      obtain ⟨q, hnext, hrest⟩ := Option.bind_eq_some_iff.mp h
      simp only [Event.isOn, Bool.and_eq_true, beq_iff_eq] at hon
      cases e with
      | closed other =>
        cases hnext
        obtain ⟨milliseconds, result, hmem, hbounds⟩ | rfl := ih hrest
        · exact .inl ⟨milliseconds, result, List.mem_cons_of_mem _ hmem, hbounds⟩
        · exact .inr rfl
      | waited other writable' milliseconds result =>
        cases hon.1
        simp only [Phase.next] at hnext
        split_ifs at hnext with hwait
        obtain ⟨rfl, hbounds⟩ := hwait
        exact .inl ⟨milliseconds, result, List.mem_cons_self, hbounds⟩
      | clock | resolved | opened | used | sent | received | began
      | retained | adopted | moved => cases hnext

end

/-- In every run of operations on clients, whatever the system answers and however far the run has
come, what is done with a socket follows its life. So connecting, sending and receiving happen only
in the mode that does not block; where an attempt would have blocked, there is a wait in its
direction before the next one; and the connection that a client keeps blocks. -/
theorem calls_in_order (platform : Platform) (operations : List ClientOperation)
    (answers : List Answer) :
    let r := (performAll platform (fun _ => none) operations).run ⟨answers, []⟩
    (∀ past handle, past <+: r.2.log → ∃ p, socketLife.follow handle past = some p) ∧
    (∀ past e rest handle, r.2.log = past ++ e :: rest → e.handle = some handle →
      e.mayBlock = true → setToNonblock handle past = true) ∧
    (∀ past e between e' rest handle writable,
      r.2.log = past ++ e :: (between ++ e' :: rest) → e.wouldBlock handle writable = true →
      e'.handle = some handle → e'.mayBlock = true →
      ∃ (milliseconds : ℤ) (result : SocketWaitResult),
        .waited handle writable milliseconds result ∈ between ∧
          1 ≤ milliseconds ∧ milliseconds ≤ kMaxInt) ∧
    ∀ clients, r.1 = some clients → ∀ this client handle, clients this = some client →
      client.hasHandle handle → socketLife.follow handle r.2.log = some .idle ∧
        setToNonblock handle r.2.log = false := by
  intro r
  obtain ⟨haccepted, hrest⟩ :=
    machines_accept resting_idle (acceptsRequests_life platform) operations answers
  refine ⟨haccepted, fun past e rest handle hlog hhandle he => ?_,
    fun past e between e' rest handle writable hlog he hhandle' he' => ?_,
    fun clients hr this client handle hclient hhas => ?_⟩
  · obtain ⟨p, hp⟩ := haccepted (past ++ [e]) handle ⟨rest, by rw [hlog, List.append_assoc]; rfl⟩
    obtain ⟨q, hq, hnext⟩ := socketLife.follow_step hp hhandle (not_opened_of_mayBlock he)
    rw [← nonblocking_follow hq]
    exact nonblocking_of_mayBlock hnext he
  · obtain ⟨p, hp⟩ := haccepted (past ++ e :: (between ++ [e'])) handle
      ⟨rest, by rw [hlog]; simp⟩
    rw [show past ++ e :: (between ++ [e']) = past ++ [e] ++ between ++ [e'] by simp] at hp
    obtain ⟨q', hq', hnext'⟩ := socketLife.follow_step hp hhandle' (not_opened_of_mayBlock he')
    rw [socketLife.follow_append] at hq'
    obtain ⟨q, hq, hbetween⟩ := Option.bind_eq_some_iff.mp hq'
    obtain ⟨q₀, -, hnext⟩ := socketLife.follow_step hq (handle_of_wouldBlock he)
      (not_opened_of_mayBlock (mayBlock_of_wouldBlock he))
    rw [waiting_of_wouldBlock hnext he] at hbetween
    obtain hwaited | hwaiting := waiting_until hbetween
    · exact hwaited
    · rw [hwaiting] at hnext'
      cases (not_mayBlock_waiting hnext').symm.trans he'
  · obtain ⟨p, hfollow, rfl⟩ := hrest clients hr this client handle hclient hhas
    exact ⟨hfollow, (nonblocking_follow hfollow).symm⟩

end CppRequest
