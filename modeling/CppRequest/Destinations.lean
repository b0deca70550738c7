import CppRequest.CallOrder
import CppRequest.ConnectionReuse

/-!
# Where connections lead

A socket is connected once, and an exchange goes over it only where its address was looked up for
the host and the port of the exchange. This outlasts the request for which the connection was made:
clients keep connections, and hand them on.
-/

namespace CppRequest

open Procedure Monitor

/-! ## Lookups and connections -/

def Event.connectOf (handle : Handle) : Event → Option Bytes
  | .used other (.connect address) => if other = handle then some address else none
  | _ => none

/-- The addresses to which the socket has been connected. -/
def connects (handle : Handle) (log : List Event) : List Bytes :=
  log.filterMap (Event.connectOf handle)

/-- The address is one of those that a lookup of this host and this port has found. -/
def LookedUp (origin : Bytes × ℕ) (address : Bytes) (log : List Event) : Prop :=
  ∃ host port infos, .resolved host port (.ok infos) ∈ log ∧ SameOrigin (host, port) origin ∧
    ∃ info ∈ infos, info.address = some address

/-- The socket has been connected to an address that had been looked up for this host and port. -/
def ConnectedFor (handle : Handle) (origin : Bytes × ℕ) (log : List Event) : Prop :=
  ∃ before address after, log = before ++ .used handle (.connect address) :: after ∧
    LookedUp origin address before

/-- So it has, and it is connected once. -/
def LeadsTo (handle : Handle) (origin : Bytes × ℕ) (log : List Event) : Prop :=
  ∃ before address after, log = before ++ .used handle (.connect address) :: after ∧
    LookedUp origin address before ∧ connects handle before = [] ∧ connects handle after = []

/-- Exchanges with a host and a port go over connections that lead there, at every moment. -/
def Destined (log : List Event) : Prop :=
  ∀ past handle host port parser, past <+: log → .began handle host port parser ∈ past →
    LeadsTo handle (host, port) past

/-! ## One connection for each socket -/

/-- No connection has been asked for yet. -/
def Phase.isNew : Phase → Bool
  | .created | .toConnect | .unconnected => true
  | _ => false

theorem connects_append (handle : Handle) (log log' : List Event) :
    connects handle (log ++ log') = connects handle log ++ connects handle log' :=
  List.filterMap_append

section

variable {handle : Handle} {p p' : Phase} {e : Event} {log : List Event}

theorem connectOf_of_off (h : e.isOn handle = false) : e.connectOf handle = none := by
  cases e with
  | used other call =>
    have hne : other ≠ handle := by simpa [Event.isOn, Event.handle, Event.isOpened] using h
    cases call with
    | connect address => exact if_neg hne
    | setNoSigpipe | getFlags | setFlags | getError => rfl
  | clock | resolved | opened | closed | waited | sent | received | began
  | retained | adopted | moved => rfl

theorem isNew_of_engaged (h : p.engaged = true) : p.isNew = false := by
  cases p with
  | created | toConnect | unconnected => cases h
  | connecting | answered | connected | toRest | idle | toTransfer | ready | again | waiting
  | transferred | spent => rfl

/-- A socket is new until a connection is asked for, and never again. -/
theorem isNew_next (h : p.next e = some p') (hhandle : e.handle = some handle) :
    (e.connectOf handle).toList.length + (if p.isNew then 0 else 1) =
      if p'.isNew then 0 else 1 := by
  cases e with
  | clock | resolved | opened => cases h
  | closed other =>
    cases h
    exact Nat.zero_add _
  | used other call =>
    cases hhandle
    simp only [Phase.next, Phase.afterCall] at h
    split at h
    all_goals cases h
    all_goals simp [Event.connectOf, Phase.isNew]
  | waited other writable milliseconds result =>
    simp only [Phase.next] at h
    split_ifs at h
    obtain ⟨hp, hp'⟩ := engaged_afterWait h
    rw [isNew_of_engaged hp, isNew_of_engaged hp']
    rfl
  | sent other outcome | received other outcome =>
    simp only [Phase.next] at h
    split_ifs at h with hattempts
    cases h
    rw [isNew_of_engaged (engaged_afterAttempt _ _),
      isNew_of_engaged (engaged_of_attempts hattempts)]
    rfl
  | began | retained | adopted | moved =>
    simp only [Phase.next] at h
    split_ifs at h with hidle
    cases h
    rw [hidle]
    rfl

theorem connects_follow (h : socketLife.follow handle log = some p) :
    (connects handle log).length = if p.isNew then 0 else 1 := by
  induction log using List.reverseRecOn generalizing p with
  | nil =>
    cases h
    rfl
  | append_singleton log e ih =>
    rw [socketLife.follow_concat] at h
    have hlast : connects handle [e] = (e.connectOf handle).toList := by
      cases h : e.connectOf handle with
      | none => simp [connects, h]
      | some address => simp [connects, h]
    rw [connects_append, List.length_append, hlast]
    cases hon : e.isOn handle with
    | false =>
      rw [hon, if_neg Bool.false_ne_true] at h
      rw [connectOf_of_off hon, ih h]
      rfl
    | true =>
      rw [hon, if_pos rfl] at h
      obtain ⟨q, hq, hnext⟩ := Option.bind_eq_some_iff.mp h
      simp only [Event.isOn, Bool.and_eq_true, beq_iff_eq] at hon
      rw [ih hq, ← isNew_next hnext hon.1, Nat.add_comm]

end

/-! ## Following lookups -/

/-- What lookups have found, and the hosts and ports for which sockets have been connected. -/
structure Routes where
  found : List ((Bytes × ℕ) × Bytes) := []
  roads : List (Handle × (Bytes × ℕ)) := []

instance (o o' : Bytes × ℕ) : Decidable (SameOrigin o o') :=
  inferInstanceAs (Decidable (_ ∧ _))

def Event.finds : Event → List ((Bytes × ℕ) × Bytes)
  | .resolved host port (.ok infos) =>
    infos.filterMap fun info => info.address.map fun address => ((host, port), address)
  | _ => []

def Event.paves (found : List ((Bytes × ℕ) × Bytes)) : Event → List (Handle × (Bytes × ℕ))
  | .used handle (.connect address) =>
    (found.filter fun f => f.2 = address).map fun f => (handle, f.1)
  | _ => []

/-- There is a road to this host and this port. -/
def Routes.Reaches (s : Routes) (handle : Handle) (origin : Bytes × ℕ) : Prop :=
  ∃ o, (handle, o) ∈ s.roads ∧ SameOrigin o origin

/-- Whether an exchange may begin. -/
def Routes.allows (s : Routes) : Event → Bool
  | .began handle host port _ =>
    s.roads.any fun r => decide (r.1 = handle ∧ SameOrigin r.2 (host, port))
  | _ => true

def Routes.behind (s : Routes) (e : Event) : Routes :=
  { found := s.found ++ e.finds
    roads := s.roads ++ e.paves s.found }

section

variable {log : List Event} {origin o : Bytes × ℕ} {address : Bytes} {handle : Handle}

theorem LookedUp.later (h : LookedUp o address log) (events : List Event) :
    LookedUp o address (log ++ events) := by
  obtain ⟨host, port, infos, hmem, hsame, hinfo⟩ := h
  exact ⟨host, port, infos, List.mem_append_left _ hmem, hsame, hinfo⟩

theorem ConnectedFor.later (h : ConnectedFor handle o log) (events : List Event) :
    ConnectedFor handle o (log ++ events) := by
  obtain ⟨before, address, after, rfl, hfound⟩ := h
  exact ⟨before, address, after ++ events, by simp, hfound⟩

theorem ConnectedFor.same (h : ConnectedFor handle o log) (hsame : SameOrigin o origin) :
    ConnectedFor handle origin log := by
  obtain ⟨before, address, after, hlog, host, port, infos, hmem, hsame', hinfo⟩ := h
  exact ⟨before, address, after, hlog, host, port, infos, hmem, hsame'.trans hsame, hinfo⟩

/-- What the lists stand for. -/
structure Routes.Fits (log : List Event) (s : Routes) : Prop where
  found : ∀ f ∈ s.found, LookedUp f.1 f.2 log
  roads : ∀ r ∈ s.roads, ConnectedFor r.1 r.2 log

theorem lookedUp_of_finds {e : Event} {f : (Bytes × ℕ) × Bytes} (h : f ∈ e.finds) :
    LookedUp f.1 f.2 (log ++ [e]) := by
  cases e with
  | resolved host port outcome =>
    cases outcome with
    | error nativeCode => cases h
    | ok infos =>
      obtain ⟨info, hinfo, hsome⟩ := List.mem_filterMap.mp h
      obtain ⟨address, haddress, rfl⟩ := Option.map_eq_some_iff.mp hsome
      exact ⟨host, port, infos, List.mem_append_right _ (List.mem_singleton_self _), .refl _, info,
        hinfo, haddress⟩
  | clock | opened | closed | used | waited | sent | received | began | retained | adopted
  | moved => cases h

theorem connectedFor_of_paves {e : Event} {s : Routes} {r : Handle × (Bytes × ℕ)}
    (hs : s.Fits log) (h : r ∈ e.paves s.found) : ConnectedFor r.1 r.2 (log ++ [e]) := by
  unfold Event.paves at h
  split at h
  · next handle address =>
    obtain ⟨f, hf, rfl⟩ := List.mem_map.mp h
    obtain ⟨hfound, haddress⟩ := List.mem_filter.mp hf
    refine ⟨log, address, [], rfl, ?_⟩
    rw [← of_decide_eq_true haddress]
    exact hs.found f hfound
  · cases h

theorem Routes.Fits.behind {s : Routes} (h : s.Fits log) (e : Event) :
    (s.behind e).Fits (log ++ [e]) := by
  refine ⟨fun f hf => ?_, fun r hr => ?_⟩
  · obtain hf | hf := List.mem_append.mp hf
    · exact (h.found f hf).later [e]
    · exact lookedUp_of_finds hf
  · obtain hr | hr := List.mem_append.mp hr
    · exact (h.roads r hr).later [e]
    · exact connectedFor_of_paves h hr

end

/-- Who objects when an exchange begins over a socket that does not lead there. -/
def routes : Monitor Event Routes where
  step s e := if s.allows e then some (s.behind e) else none
  fits log s := s.Fits log
  fits_step := by
    intro log s e s' h hstep
    split_ifs at hstep
    cases hstep
    exact h.behind e

section

variable {s s' : Routes} {handle : Handle} {origin : Bytes × ℕ}

theorem routes_began {host : Bytes} {port : ℕ} {parser : ResponseParser} :
    s.allows (.began handle host port parser) = true ↔ s.Reaches handle (host, port) := by
  simp [Routes.allows, Routes.Reaches]

/-- What has been found stays found, and roads stay. -/
theorem Routes.Reaches.later {e : Event} (hstep : routes.step s e = some s')
    (h : s.Reaches handle origin) : s'.Reaches handle origin := by
  simp only [routes] at hstep
  split_ifs at hstep
  cases hstep
  exact h.imp fun o ho => ⟨List.mem_append_left _ ho.1, ho.2⟩

theorem found_later {e : Event} {f : (Bytes × ℕ) × Bytes} (hstep : routes.step s e = some s')
    (h : f ∈ s.found) : f ∈ s'.found := by
  simp only [routes] at hstep
  split_ifs at hstep
  cases hstep
  exact List.mem_append_left _ h

/-! ## One call -/

def Event.isBegan : Event → Bool
  | .began .. => true
  | _ => false

theorem routes_step {e : Event} (he : e.isBegan = false) (s : Routes) :
    routes.step s e = some (s.behind e) := by
  refine if_pos ?_
  cases e with
  | began => cases he
  | clock | resolved | opened | closed | used | waited | sent | received | retained | adopted
  | moved => rfl

theorem ordinary_unbegun : Ordinary fun e => e.isBegan = false where
  clock _ := rfl
  opened _ := rfl
  closed _ := rfl
  used _ _ := rfl
  writable _ _ _ := rfl
  resolved _ _ _ := rfl
  retained _ _ _ _ := rfl
  adopted _ _ := rfl

theorem transfers_unbegun : Transfers fun e => e.isBegan = false where
  toBasic := ordinary_unbegun.toBasic
  readable _ _ _ := rfl
  sent _ _ := rfl
  received _ _ := rfl

/-- What only grows outlasts everything but the beginning of an exchange. -/
theorem triple_unbegun {α : Type} {q : Proc α} {Q : α → Prop} {I : Routes → Prop}
    (hI : ∀ s e s', routes.step s e = some s' → I s → I s')
    (h : q.Writes (fun e => e.isBegan = false) Q) :
    routes.Triple I q fun a s => Q a ∧ I s :=
  h.triple fun e s he hs => ⟨_, routes_step he s, hI s e _ (routes_step he s) hs⟩

theorem triple_outlasts {α : Type} {q : Proc α} {Q : α → Prop} {I : Routes → Prop}
    (hI : ∀ s e s', routes.step s e = some s' → I s → I s')
    (h : q.Writes (fun e => e.isBegan = false) Q) : routes.Triple I q fun _ => I :=
  (triple_unbegun hI h).weaken (fun _ h => h) fun _ _ h => h.2

/-- The addresses of these endpoints have been found for this host and port. -/
def Found (origin : Bytes × ℕ) (endpoints : List Endpoint) (s : Routes) : Prop :=
  ∀ endpoint ∈ endpoints, (origin, endpoint.address) ∈ s.found

theorem found_stays (endpoints : List Endpoint) : ∀ s e s', routes.step s e = some s' →
    Found origin endpoints s → Found origin endpoints s' :=
  fun _ _ _ hstep h endpoint hendpoint => found_later hstep (h endpoint hendpoint)

theorem reaches_stays : ∀ s e s', routes.step s e = some s' →
    s.Reaches handle origin → s'.Reaches handle origin :=
  fun _ _ _ hstep h => h.later hstep

theorem addEndpoint_address {endpoints : List Endpoint} {infos : List AddrInfo}
    {endpoint : Endpoint} (h : endpoint ∈ infos.foldl addEndpoint endpoints) :
    endpoint ∈ endpoints ∨ ∃ info ∈ infos, info.address = some endpoint.address := by
  induction infos generalizing endpoints with
  | nil => exact .inl h
  | cons info infos ih =>
    obtain h | ⟨info', hinfo, haddress⟩ := ih h
    · unfold addEndpoint at h
      split at h
      · exact .inl h
      · next address haddress =>
        split at h
        · exact .inl h
        split at h
        · exact .inl h
        next hsize =>
        obtain h | h := List.mem_append.mp h
        · exact .inl h
        · obtain ⟨-, hlong⟩ := not_or.mp hsize
          refine .inr ⟨info, List.mem_cons_self, ?_⟩
          rw [List.mem_singleton.mp h, haddress]
          exact congrArg some (if_pos (not_lt.mp hlong)).symm
    · exact .inr ⟨info', List.mem_cons_of_mem _ hinfo, haddress⟩

theorem triple_resolve_routes (host : Bytes) (port : ℕ) :
    routes.Triple (fun _ => True) (resolve host port) fun r s =>
      ∀ endpoints, r = .ok endpoints → Found (host, port) endpoints s := by
  unfold resolve
  split
  · exact triple_pure fun s _ => nofun
  refine triple_read.bind fun answer => ?_
  split
  · refine Triple.bind (Q := fun _ _ => True) ?_ fun _ => triple_pure fun s _ => nofun
    exact triple_emit fun s _ => ⟨_, routes_step rfl s, trivial⟩
  refine Triple.bind (Q := fun _ => Found (host, port) (answer.addresses.foldl addEndpoint []))
    ?_ fun _ => ?_
  · refine triple_emit fun s _ => ⟨_, routes_step rfl s, fun endpoint hendpoint => ?_⟩
    obtain h | ⟨info, hinfo, haddress⟩ := addEndpoint_address hendpoint
    · cases h
    refine List.mem_append_right _ (List.mem_filterMap.mpr ⟨info, hinfo, ?_⟩)
    rw [haddress]
    rfl
  · dsimp only
    split
    · exact triple_pure fun s _ => nofun
    · refine triple_pure fun s h => ?_
      rintro endpoints ⟨⟩
      exact h

/-- A socket that has been connected leads where its address was looked up for. -/
theorem triple_connectWithTimeout_routes (handle : Handle) (address : Bytes) (timeout : ℤ) :
    routes.Triple (fun s => (origin, address) ∈ s.found) (connectWithTimeout handle address timeout)
      fun attempt s => attempt.status = .connected → s.Reaches handle origin := by
  have hdone : ∀ attempt : ConnectAttemptResult, routes.Triple (fun s => s.Reaches handle origin)
      (pure attempt : Proc ConnectAttemptResult)
      fun attempt s => attempt.status = .connected → s.Reaches handle origin :=
    fun attempt => triple_pure fun s h _ => h
  have hrestored : ∀ result : ConnectAttemptResult, result.status ≠ .timedOut →
      routes.Triple (fun s => s.Reaches handle origin) (restoreBlocking handle result)
        fun attempt s => attempt.status = .connected → s.Reaches handle origin :=
    fun result hresult => (triple_outlasts reaches_stays (writes_restoreBlocking
      ordinary_unbegun.toUntimed handle hresult)).weaken (fun _ h => h) fun _ _ h _ => h
  unfold connectWithTimeout
  split
  · exact triple_pure fun s _ => nofun
  refine (triple_outlasts (fun _ _ _ hstep h => found_later hstep h)
    (writes_setSocketNonblocking ordinary_unbegun.used handle true)).bind fun mode => ?_
  cases mode with
  | error nativeCode => exact triple_pure fun s _ => nofun
  | ok =>
    refine Triple.bind (Q := fun _ s => s.Reaches handle origin) ?_ fun _ => ?_
    · refine triple_emit fun s h => ⟨_, routes_step rfl s, origin, ?_, .refl _⟩
      exact List.mem_append_right _ (List.mem_map.mpr
        ⟨_, List.mem_filter.mpr ⟨h, decide_eq_true rfl⟩, rfl⟩)
    refine triple_read.bind fun answer => ?_
    split
    · exact hrestored _ (by decide)
    split
    · exact hdone _
    refine (triple_outlasts reaches_stays (writes_waitSocket (ordinary_unbegun.writable handle)
      timeout)).bind fun wait => ?_
    cases wait.status with
    | timedOut => exact hdone _
    | failed => exact hdone _
    | ready =>
      refine Triple.bind ((triple_unbegun reaches_stays (writes_socketErrorResult
        ordinary_unbegun.toUntimed handle))) fun result => triple_and fun hresult => ?_
      split
      · exact hrestored result hresult
      · exact hdone result

theorem triple_connectLoop_routes (platform : Platform) (deadline : ℤ)
    (state : TcpConnection.ConnectState) (endpoints : List Endpoint) :
    routes.Triple (Found origin endpoints)
      (TcpConnection.connectLoop platform deadline state endpoints)
      (ConnectsTo fun handle s => s.Reaches handle origin) := by
  induction endpoints generalizing state with
  | nil =>
    unfold TcpConnection.connectLoop
    split_ifs
    · exact triple_pure fun s _ => connectsTo_error _ s
    · exact triple_pure fun s _ => connectsTo_error _ s
    · exact triple_pure fun s _ => connectsTo_error _ s
  | cons endpoint endpoints ih =>
    have hstays := @found_stays origin (endpoint :: endpoints)
    have hlater : ∀ state, routes.Triple (Found origin (endpoint :: endpoints))
        (TcpConnection.connectLoop platform deadline state endpoints)
        (ConnectsTo fun handle s => s.Reaches handle origin) :=
      fun state => (ih state).weaken (fun _ h e he => h e (List.mem_cons_of_mem _ he))
        fun _ _ h => h
    unfold TcpConnection.connectLoop
    split
    · exact hlater state
    refine (triple_outlasts hstays (writes_clock ordinary_unbegun.toBasic)).bind fun now => ?_
    split
    · exact triple_pure fun s _ => connectsTo_error _ s
    refine (triple_outlasts hstays (writes_createTcpSocket ordinary_unbegun.toUntimed
      platform)).bind fun r => ?_
    obtain ⟨⟨_ | handle⟩, createError⟩ := r
    · exact hlater _
    refine (triple_outlasts hstays (writes_remainingTimeout ordinary_unbegun.toBasic
      deadline)).bind fun remaining => ?_
    refine Triple.bind (((triple_connectWithTimeout_routes handle endpoint.address remaining).frame
      hstays).weaken (fun s h => ⟨h, h endpoint List.mem_cons_self⟩) fun _ _ h => h)
        fun attempt => ?_
    split
    · next hstatus =>
      refine triple_pure fun s h => ?_
      rintro connection ⟨⟩
      exact ⟨handle, rfl, h.2 hstatus⟩
    refine Triple.bind ((triple_outlasts hstays (writes_close ordinary_unbegun.toUntimed
      _)).weaken (fun _ h => h.1) fun _ _ h => h) fun _ => ?_
    split
    · exact triple_pure fun s _ => connectsTo_error _ s
    · exact hlater _

theorem triple_connect_routes (platform : Platform) (endpoints : List Endpoint) (timeout : ℤ) :
    routes.Triple (Found origin endpoints) (TcpConnection.connect platform endpoints timeout)
      (ConnectsTo fun handle s => s.Reaches handle origin) := by
  unfold TcpConnection.connect
  split
  · exact triple_pure fun s _ => connectsTo_error _ s
  split
  · exact triple_pure fun s _ => connectsTo_error _ s
  · exact (triple_outlasts (found_stays _) (writes_clock ordinary_unbegun.toBasic)).bind
      fun now => triple_connectLoop_routes platform _ _ _

/-- The connection that the client keeps leads where the client says. -/
def Client.Routed (client : Client) (s : Routes) : Prop :=
  ∀ handle, client.hasHandle handle → s.Reaches handle (client.reusableHost, client.reusablePort)

theorem routed_stays (client : Client) : ∀ s e s', routes.step s e = some s' →
    client.Routed s → client.Routed s' :=
  fun _ _ _ hstep h handle hhas => (h handle hhas).later hstep

theorem routed_cleared (client : Client) (s : Routes) : client.cleared.Routed s := by
  rintro handle ⟨hhas, -⟩
  cases hhas

variable {platform : Platform} {this : ClientId}

theorem triple_obtainConnection_routes (client : Client) (url : Url) :
    routes.Triple client.Routed (client.obtainConnection platform this url) fun r s =>
      r.2 = client.cleared ∧ ConnectsTo (fun handle s => s.Reaches handle (url.host, url.port))
        r.1 s := by
  unfold Client.obtainConnection
  split
  · next hkeeps =>
    simp only [Client.keepsConnectionTo, Bool.and_eq_true, beq_iff_eq] at hkeeps
    refine Triple.bind (Q := fun _ => client.Routed) ?_ fun _ => triple_pure fun s h => ⟨rfl, ?_⟩
    · exact triple_emit fun s h =>
        ⟨_, routes_step rfl s, routed_stays client s _ _ (routes_step rfl s) h⟩
    rintro connection ⟨⟩
    obtain ⟨o, ho, hsame⟩ := h _ ⟨hkeeps.1, rfl⟩
    exact ⟨_, rfl, o, ho, hsame.trans hkeeps.2⟩
  · refine (triple_unbegun (I := fun _ => True) (fun _ _ _ _ h => h)
      (writes_closeReusableConnection ordinary_unbegun client this)).weaken (fun _ _ => trivial)
        (fun _ _ h => h) |>.bind fun client' => triple_and fun hclient => ?_
    subst hclient
    refine (triple_resolve_routes url.host url.port).bind fun resolved => ?_
    cases resolved with
    | error e => exact triple_pure fun s _ => ⟨rfl, connectsTo_error e s⟩
    | ok endpoints =>
      refine Triple.bind ((triple_connect_routes platform endpoints _).weaken
        (fun s h => h endpoints rfl) fun _ _ h => h) fun result => triple_pure fun _ h => ⟨rfl, h⟩

theorem triple_executeOnce_routes (client : Client) (request : Request) :
    routes.Triple client.Routed (client.executeOnce platform this request)
      fun r => r.2.Routed := by
  unfold Client.executeOnce
  cases serializeRequest platform.inetPton6 request with
  | error e => exact triple_pure fun _ h => h
  | ok serialized =>
    refine (triple_obtainConnection_routes client serialized.url).bind fun r => ?_
    obtain ⟨e | connection, client'⟩ := r
    · refine triple_pure fun s h => ?_
      rw [h.1]
      exact routed_cleared client s
    refine triple_and fun hclient => ?_
    subst hclient
    refine Triple.weaken (P := fun s => ∃ handle, connection = .adoptNativeHandle handle ∧
      s.Reaches handle (serialized.url.host, serialized.url.port)) ?_ (fun s h => h connection rfl)
      fun _ _ h => h
    refine triple_exists fun handle => triple_and fun hconnection => ?_
    subst hconnection
    refine Triple.bind (Q := fun _ s =>
      s.Reaches handle (serialized.url.host, serialized.url.port)) ?_ fun _ => ?_
    · refine triple_emit fun s h => ⟨_, if_pos (routes_began.mpr h), ?_⟩
      exact h.imp fun o ho => ⟨List.mem_append_left _ ho.1, ho.2⟩
    refine (triple_unbegun reaches_stays (writes_exchange transfers_unbegun client.cleared _
      serialized _)).bind fun r => triple_and fun hconnection => ?_
    obtain ⟨e | parser, connection⟩ := r
    · refine Triple.bind (Q := fun _ _ => True) ?_ fun _ => triple_pure fun s _ =>
        routed_cleared client s
      refine Triple.bind (Q := fun _ _ => True) ?_ fun _ => triple_pure fun _ _ => trivial
      exact (triple_unbegun reaches_stays (writes_close ordinary_unbegun.toUntimed
        connection.socket)).weaken (fun _ h => h) fun _ _ _ => trivial
    · refine (triple_unbegun reaches_stays (writes_conclude ordinary_unbegun client.cleared this
        connection serialized.url request parser)).weaken (fun _ h => h) fun r s h => ?_
      obtain ⟨⟨-, hkept⟩, hreaches⟩ := h
      split_ifs at hkept
      · obtain ⟨other, hother, hclient⟩ := hkept
        rw [hclient]
        rintro kept ⟨-, rfl⟩
        obtain hsame | hsame := hconnection
        · cases hsame
          cases hother
          exact hreaches
        · cases hsame
          cases hother
      · rw [hkept]
        exact routed_cleared client s

theorem triple_request_routes (client : Client) (request : Request) :
    routes.Triple client.Routed (client.request platform this request) fun r => r.2.Routed :=
  Dialogue.triple_play (fun client => client.Routed)
    (fun request client => triple_executeOnce_routes client request) _ client

/-! ## Runs -/

def Clients.Routed (clients : Clients) (s : Routes) : Prop :=
  ∀ this client, clients this = some client → client.Routed s

theorem clientsRouted_stays (clients : Clients) : ∀ s e s', routes.step s e = some s' →
    clients.Routed s → clients.Routed s' :=
  fun s e s' hstep h this client hclient => routed_stays client s e s' hstep (h this client hclient)

theorem Clients.Routed.update {clients : Clients} (h : clients.Routed s) {client : Option Client}
    (hclient : ∀ c ∈ client, c.Routed s) :
    Clients.Routed (Function.update clients this client) s := by
  intro id c hc
  rcases eq_or_ne id this with rfl | hne
  · rw [Function.update_self] at hc
    exact hclient c hc
  · rw [Function.update_of_ne hne] at hc
    exact h id c hc

theorem writes_handOver_unbegun (source : Client) (other this : ClientId) :
    (source.handOver other this).Writes (fun e => e.isBegan = false) fun _ => True := by
  unfold Client.handOver
  split
  · exact writes_emit rfl
  · exact writes_pure trivial

theorem triple_perform_routes (clients : Clients) (operation : ClientOperation) :
    routes.Triple clients.Routed (perform platform clients operation) Clients.Routed := by
  have hsame : routes.Triple clients.Routed (pure clients : Proc Clients) Clients.Routed :=
    triple_pure fun _ h => h
  have hstays := clientsRouted_stays clients
  have hmoved : ∀ {s : Routes} {this other : ClientId} {source : Client},
      clients other = some source → clients.Routed s → Clients.Routed (Function.update
        (Function.update clients other (some source.cleared)) this (some source)) s := by
    intro s this other source hsource h
    refine (h.update ?_).update ?_
    · rintro c ⟨⟩
      exact routed_cleared source s
    · rintro c ⟨⟩
      exact h other source hsource
  unfold perform
  cases operation with
  | construct this =>
    dsimp only
    split
    · exact hsame
    · refine triple_pure fun s h => h.update ?_
      rintro c ⟨⟩ handle ⟨hhas, -⟩
      cases hhas
  | moveConstruct this other =>
    dsimp only
    split
    · next source hthis hsource =>
      refine (triple_outlasts hstays (writes_handOver_unbegun source other this)).bind fun _ => ?_
      exact triple_pure fun s h => hmoved hsource h
    · exact hsame
  | moveAssign this other =>
    dsimp only
    split
    · next client source hclient hsource =>
      split
      · exact hsame
      refine (triple_outlasts hstays (writes_closeReusableConnection ordinary_unbegun client
        this)).bind fun _ => ?_
      refine (triple_outlasts hstays (writes_handOver_unbegun source other this)).bind fun _ => ?_
      exact triple_pure fun s h => hmoved hsource h
    · exact hsame
  | destroy this =>
    dsimp only
    split
    · next client hclient =>
      refine (triple_outlasts hstays (writes_closeReusableConnection ordinary_unbegun client
        this)).bind fun _ => triple_pure fun s h => h.update ?_
      rintro c ⟨⟩
    · exact hsame
  | configure this settings =>
    dsimp only
    split
    · next client hclient =>
      refine triple_pure fun s h => h.update ?_
      rintro c ⟨⟩
      exact h this client hclient
    · exact hsame
  | request this request =>
    dsimp only
    split
    · next client hclient =>
      refine Triple.bind (((triple_request_routes client request).frame hstays).weaken
        (fun s h => ⟨h, h this client hclient⟩) fun _ _ h => h) fun r =>
          triple_pure fun s h => h.1.update ?_
      rintro c ⟨⟩
      exact h.2
    · exact hsame

theorem triple_performAll_routes (platform : Platform) (clients : Clients)
    (operations : List ClientOperation) :
    routes.Triple clients.Routed (performAll platform clients operations) Clients.Routed := by
  induction operations generalizing clients with
  | nil => exact triple_pure fun _ h => h
  | cons operation operations ih =>
    exact (triple_perform_routes clients operation).bind fun clients' => ih clients'

theorem destined_of_reads {log : List Event} {s : Routes}
    (h : routes.reads {} log = some s)
    (hmachines : ∀ past handle, past <+: log → ∃ p, socketLife.follow handle past = some p) :
    Destined log := by
  intro past handle host port parser hpast hbegan
  obtain ⟨behind, between, rfl⟩ := List.append_of_mem hbegan
  obtain ⟨s₁, hreads⟩ := reads_past _ h hpast
  obtain ⟨s₂, s₃, hbehind, hstep⟩ := reads_upto _ hreads rfl
  have hempty : routes.fits [] {} := ⟨fun _ hf => absurd hf List.not_mem_nil,
    fun _ hr => absurd hr List.not_mem_nil⟩
  have hfits : Routes.Fits ([] ++ behind) s₂ := routes.fits_reads hempty hbehind
  rw [List.nil_append] at hfits
  simp only [routes] at hstep
  split_ifs at hstep with hallowed
  obtain ⟨o, ho, hsame⟩ := routes_began.mp hallowed
  have hconnected := ((hfits.roads _ ho).same hsame).later (.began handle host port parser :: between)
  obtain ⟨before, address, after, hlog, hfound⟩ := hconnected
  obtain ⟨p, hp⟩ := hmachines _ handle hpast
  have hone := connects_follow hp
  have hcount : (connects handle before).length + (connects handle after).length = 0 := by
    have hthis : connects handle (.used handle (.connect address) :: after) =
        address :: connects handle after := by
      simp [connects, Event.connectOf]
    rw [hlog, connects_append, hthis, List.length_append, List.length_cons] at hone
    split_ifs at hone
    omega
  refine ⟨before, address, after, hlog, hfound, ?_, ?_⟩
  · exact List.eq_nil_of_length_eq_zero (by omega)
  · exact List.eq_nil_of_length_eq_zero (by omega)

/-- In every run of operations on clients, whatever the system answers: an exchange with a host and
a port goes over a connection that leads there. -/
theorem destined_performAll (platform : Platform) (operations : List ClientOperation)
    (answers : List Answer) :
    Destined ((performAll platform (fun _ => none) operations).run ⟨answers, []⟩).2.log := by
  have hempty : routes.fits [] {} := ⟨fun _ hf => absurd hf List.not_mem_nil,
    fun _ hr => absurd hr List.not_mem_nil⟩
  have hnone : Clients.Routed (fun _ => none) {} := nofun
  obtain ⟨events, s, hlog, hreads, -⟩ :=
    triple_performAll_routes platform (fun _ => none) operations ⟨answers, []⟩ {} hempty hnone
  have hmachines := (machines_accept resting_idle (acceptsRequests_life platform) operations
    answers).1
  rw [hlog, List.nil_append] at hmachines ⊢
  exact destined_of_reads hreads hmachines

/-- More operations go on where the others have come back. -/
theorem run_performAll_append {clients clients' : Clients} {operations : List ClientOperation}
    {w w' : World Answer Event}
    (h : (performAll platform clients operations).run w = (some clients', w'))
    (more : List ClientOperation) :
    (performAll platform clients (operations ++ more)).run w =
      (performAll platform clients' more).run w' := by
  induction operations generalizing clients w with
  | nil =>
    cases h
    rfl
  | cons operation operations ih =>
    obtain ⟨clients₁, w₁, hone, hrest⟩ := run_bind_cases h
    rw [List.cons_append]
    exact (run_bind_some hone).trans (ih hrest)

/-- The same of a request that is made next, however far it comes. -/
theorem destined_request {operations : List ClientOperation} {answers : List Answer}
    {clients : Clients} {client : Client} {w : World Answer Event} (request : Request)
    (hrun : (performAll platform (fun _ => none) operations).run ⟨answers, []⟩ = (some clients, w))
    (hclient : clients this = some client) :
    Destined ((client.request platform this request).run w).2.log := by
  have hall := destined_performAll platform (operations ++ [.request this request]) answers
  rw [run_performAll_append hrun] at hall
  rcases hcall : (client.request platform this request).run w with ⟨_ | r, w'⟩
  · have hperform : (perform platform clients (.request this request)).run w = (none, w') := by
      unfold perform
      dsimp only
      rw [hclient]
      exact run_bind_none hcall
    rwa [performAll, run_bind_none hperform] at hall
  · have hperform : (perform platform clients (.request this request)).run w =
        (some (Function.update clients this (some r.2)), w') := by
      unfold perform
      dsimp only
      rw [hclient]
      exact run_bind_some hcall
    rwa [performAll, run_bind_some hperform] at hall

end

end CppRequest
