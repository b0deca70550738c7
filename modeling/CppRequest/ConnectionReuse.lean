import CppRequest.WholeResponses

/-!
# Connections are used again

What one call of `execute_once` keeps, and what follows for runs of calls: a connection carries
requests to one host and port, and each of them begins behind whole responses.
-/

namespace CppRequest

open Procedure Monitor ResponseParser

/-! ## Origins -/

/-- The same port, and the same host apart from the case of letters. -/
def SameOrigin (o o' : Bytes × ℕ) : Prop := o.2 = o'.2 ∧ asciiIequals o.1 o'.1 = true

theorem SameOrigin.refl (o : Bytes × ℕ) : SameOrigin o o := ⟨rfl, asciiIequals_refl _⟩

theorem SameOrigin.symm {o o' : Bytes × ℕ} (h : SameOrigin o o') : SameOrigin o' o :=
  ⟨h.1.symm, by rw [asciiIequals_comm, h.2]⟩

theorem SameOrigin.trans {o o' o'' : Bytes × ℕ} (h : SameOrigin o o') (h' : SameOrigin o' o'') :
    SameOrigin o o'' := ⟨h.1.trans h'.1, asciiIequals_trans h.2 h'.2⟩

def Event.origin (handle : Handle) : Event → List (Bytes × ℕ)
  | .began other host port _ | .retained _ other host port =>
    if other = handle then [(host, port)] else []
  | _ => []

/-- The hosts and ports of the requests that begin on the handle, and those with which clients keep
it. -/
def origins (handle : Handle) (events : List Event) : List (Bytes × ℕ) :=
  events.flatMap (Event.origin handle)

namespace Place

/-- The origin of a handle that is open. -/
def origin : Place → Option (Option (Bytes × ℕ))
  | .idle origin => some origin
  | .busy host port _ | .kept _ host port => some (some (host, port))
  | .closed => none

def isBusy : Place → Bool
  | .busy .. => true
  | _ => false

/-- A handle at this place may have had these origins. -/
structure Fits (p : Place) (past : List (Bytes × ℕ)) : Prop where
  same : ∀ o ∈ past, ∀ o' ∈ past, SameOrigin o o'
  placed : ∀ origin, p.origin = some origin → ∀ o ∈ past, ∃ o', origin = some o' ∧ SameOrigin o o'
  busy : p.isBusy = true → past ≠ []

theorem fits_nil : Fits (.idle none) [] :=
  ⟨fun _ ho => absurd ho List.not_mem_nil, fun _ _ _ ho => absurd ho List.not_mem_nil, nofun⟩

variable {p : Place} {past : List (Bytes × ℕ)} {o : Bytes × ℕ}

theorem fits_closed (h : p.Fits past) : Fits .closed past :=
  ⟨h.same, nofun, nofun⟩

/-- One more origin, which is that of the new place. -/
theorem fits_append (hpast : ∀ o' ∈ past, SameOrigin o' o)
    (horigin : p.origin = some (some o)) : p.Fits (past ++ [o]) := by
  have hall : ∀ o' ∈ past ++ [o], SameOrigin o' o := by
    intro o' ho'
    obtain ho' | ho' := List.mem_append.mp ho'
    · exact hpast o' ho'
    · rw [List.mem_singleton.mp ho']
      exact .refl o
  refine ⟨fun a ha b hb => (hall a ha).trans (hall b hb).symm, ?_, fun _ => by simp⟩
  rintro origin horigin' o' ho'
  cases horigin.symm.trans horigin'
  exact ⟨o, rfl, hall o' ho'⟩

/-- Another place with the same origin. -/
theorem Fits.move {p' : Place} (h : p.Fits past) (horigin : p'.origin = p.origin)
    (hbusy : p'.isBusy = true → p.isBusy = true) : p'.Fits past :=
  ⟨h.same, fun origin horigin' => h.placed origin (horigin ▸ horigin'), fun hb => h.busy (hbusy hb)⟩

theorem Step.fits {p' : Place} {e : Event} {handle : Handle} (hstep : Step p e p')
    (hhandle : e.handle = some handle) (h : p.Fits past) : p'.Fits (past ++ e.origin handle) := by
  have hsame : e.origin handle = [] → p'.Fits past → p'.Fits (past ++ e.origin handle) := by
    intro hnone hp'
    rwa [hnone, List.append_nil]
  cases hstep with
  | closed => exact hsame rfl (fits_closed h)
  | used | waited | sent => exact hsame rfl h
  | received => exact hsame rfl (h.move rfl fun _ => rfl)
  | adopted => exact hsame rfl (h.move rfl nofun)
  | moved => exact hsame rfl (h.move rfl nofun)
  | @began origin host port parser other hsuits =>
    cases hhandle
    rw [Event.origin, if_pos rfl]
    refine fits_append (fun o ho => ?_) rfl
    obtain ⟨⟨host', port'⟩, rfl, hsame'⟩ := h.placed origin rfl o ho
    simp only [suits, Bool.and_eq_true, beq_iff_eq] at hsuits
    exact hsame'.trans hsuits
  | @retained host port parser this other hfinished =>
    cases hhandle
    rw [Event.origin, if_pos rfl]
    refine fits_append (fun o ho => ?_) rfl
    obtain ⟨o', horigin, hsame'⟩ := h.placed _ rfl o ho
    cases horigin
    exact hsame'

end Place

/-- The places of the handles, and where they have been before. -/
structure OneOrigin (log : List Event) (places : Places) : Prop where
  fits : ∀ (handle : Handle) (p : Place), places[handle]? = some p → p.Fits (origins handle log)
  unopened : ∀ handle : Handle, places.length ≤ handle → origins handle log = []

theorem origin_of_handle {e : Event} {handle : Handle} (h : e.handle ≠ some handle) :
    e.origin handle = [] := by
  cases e with
  | began other | retained _ other => exact if_neg fun heq => h (congrArg some heq)
  | clock | resolved | opened | closed | used | waited | sent | received | adopted | moved => rfl

theorem origins_concat (handle : Handle) (log : List Event) (e : Event) :
    origins handle (log ++ [e]) = origins handle log ++ e.origin handle := by
  unfold origins
  rw [List.flatMap_append, List.flatMap_singleton]

theorem oneOrigin_step {log : List Event} {places places' : Places} {e : Event}
    (h : OneOrigin log places) (hstep : ledgerStep places e = some places') :
    OneOrigin (log ++ [e]) places' := by
  have hother : ∀ handle, e.handle ≠ some handle →
      origins handle (log ++ [e]) = origins handle log := by
    intro handle hne
    rw [origins_concat, origin_of_handle hne, List.append_nil]
  obtain ⟨hnone, rfl⟩ | ⟨rfl, -, rfl⟩ | ⟨handle, p, p', hhandle, -, hp, hnext, -, rfl⟩ :=
    ledgerStep_cases hstep
  · have hne : ∀ handle, e.handle ≠ some handle := by
      intro handle hsome
      cases hnone.symm.trans hsome
    refine ⟨fun handle p hp => ?_, fun handle hle => ?_⟩
    · rw [hother handle (hne handle)]
      exact h.fits handle p hp
    · rw [hother handle (hne handle)]
      exact h.unopened handle hle
  · have hsame : ∀ handle,
        origins handle (log ++ [.opened places.length]) = origins handle log := by
      intro handle
      rw [origins_concat]
      exact List.append_nil _
    refine ⟨fun handle p hp => ?_, fun handle hle => ?_⟩
    · rw [hsame]
      rw [List.getElem?_append] at hp
      split_ifs at hp with hlt
      · exact h.fits handle p hp
      · rw [List.getElem?_singleton] at hp
        split_ifs at hp
        cases hp
        rw [h.unopened handle (not_lt.mp hlt)]
        exact Place.fits_nil
    · rw [hsame]
      rw [List.length_append] at hle
      exact h.unopened handle (by omega)
  · have hlt := (List.getElem?_eq_some_iff.mp hp).1
    refine ⟨fun other q hq => ?_, fun other hle => ?_⟩
    · rcases eq_or_ne handle other with rfl | hne
      · rw [List.getElem?_set_self hlt] at hq
        cases hq
        rw [origins_concat]
        exact (Place.step_of_next hnext).fits hhandle (h.fits handle p hp)
      · rw [List.getElem?_set_ne hne] at hq
        rw [hother other (by rw [hhandle]; simpa using hne)]
        exact h.fits other q hq
    · rw [List.length_set] at hle
      have hne : handle ≠ other := by
        rintro rfl
        exact absurd hlt (not_lt.mpr hle)
      rw [hother other (by rw [hhandle]; simpa using hne)]
      exact h.unopened other hle

/-- The ledger, read for origins. -/
def originLedger : Monitor Event Places where
  step := ledgerStep
  fits := OneOrigin
  fits_step := oneOrigin_step

theorem oneOrigin_of_reads {log : List Event} {places : Places}
    (h : handleLedger.reads [] log = some places) : OneOrigin log places := by
  have hempty : originLedger.fits [] [] := ⟨fun _ _ hp => absurd hp (by simp), fun _ _ => rfl⟩
  exact originLedger.fits_reads hempty h

/-! ## One call -/

/-- A Connection field of the request has an element `close`. -/
def Request.AsksToClose (request : Request) : Prop :=
  ∃ value ∈ request.headers.values connectionName, ∃ element ∈ Headers.elements value,
    asciiIequals element (bytes "close") = true

theorem requestWantsConnectionClose_iff {request : Request} :
    requestWantsConnectionClose request = true ↔ request.AsksToClose := by
  simp [requestWantsConnectionClose, Request.AsksToClose, Headers.values, Headers.elements,
    containsToken, and_assoc]

/-- The event is one of a request or of a response. -/
def Event.carries : Event → Bool
  | .sent .. | .received .. | .began .. => true
  | _ => false

theorem ordinary_unused : Ordinary fun e => e.carries = false where
  clock _ := rfl
  opened _ := rfl
  closed _ := rfl
  used _ _ := rfl
  writable _ _ _ := rfl
  resolved _ _ _ := rfl
  retained _ _ _ _ := rfl
  adopted _ _ := rfl

/-- Who takes everything down. -/
def chronicle : Monitor Event (List Event) where
  step s e := some (s ++ [e])
  fits _ _ := True
  fits_step _ _ := trivial

theorem chronicle_reads (s events : List Event) :
    chronicle.reads s events = some (s ++ events) := by
  unfold reads
  induction events generalizing s with
  | nil => rw [List.append_nil]; rfl
  | cons e events ih =>
    rw [List.foldlM_cons]
    show chronicle.reads (s ++ [e]) events = _
    exact (ih _).trans (by rw [List.append_assoc]; rfl)

section

variable {client : Client} {platform : Platform} {this : ClientId}

/-- A connection that a client has obtained is the one that it keeps, to the same origin, or a new
one. -/
def Adopts (client : Client) (url : Url) (handle : Handle) (events : List Event) : Prop :=
  client.hasHandle handle ∧
      SameOrigin (client.reusableHost, client.reusablePort) (url.host, url.port) ∨
    .opened handle ∈ events

theorem triple_obtainConnection_adopts (url : Url) :
    chronicle.Triple (fun _ => True) (client.obtainConnection platform this url)
      fun r => ConnectsTo (Adopts client url) r.1 := by
  have hany : ∀ {α : Type} {q : Proc α} {Q : α → Prop}, q.Writes (fun e => e.carries = false) Q →
      chronicle.Triple (fun _ => True) q fun a _ => Q a ∧ True := fun h =>
    h.triple fun e s _ _ => ⟨_, rfl, trivial⟩
  unfold Client.obtainConnection
  split
  · next hkeeps =>
    simp only [Client.keepsConnectionTo, Bool.and_eq_true, beq_iff_eq] at hkeeps
    refine (triple_emit (Q := fun _ _ => True) fun s _ => ⟨_, rfl, trivial⟩).bind fun _ =>
      triple_pure fun s _ => ?_
    rintro connection ⟨⟩
    exact ⟨_, rfl, .inl ⟨⟨hkeeps.1, rfl⟩, hkeeps.2⟩⟩
  · refine (hany (writes_closeReusableConnection ordinary_unused client this)).bind
      fun client' => ?_
    refine ((hany (writes_resolve ordinary_unused.resolved url.host url.port)).weaken (fun _ _ => trivial) fun _ _ h => h).bind
      fun resolved => ?_
    cases resolved with
    | error e => exact triple_pure fun s _ => connectsTo_error e s
    | ok endpoints =>
      have hkeeps : ∀ handle e (s : List Event), e.carries = false → .opened handle ∈ s →
          ∃ s', chronicle.step s e = some s' ∧ .opened handle ∈ s' :=
        fun handle e s _ h => ⟨_, rfl, List.mem_append_left _ h⟩
      have hfresh : chronicle.Triple (fun _ => True) freshHandle fun _ _ => True :=
        (triple_history (Q := fun _ _ => True) fun _ _ _ h => h).bind fun _ =>
          triple_pure fun _ h => h
      have hcreate : chronicle.Triple (fun _ => True) (createTcpSocket platform) fun r s =>
          ∀ handle, r.1.handle = some handle → Event.opened handle ∈ s :=
        triple_createTcpSocket_of ordinary_unused hkeeps hfresh fun handle s _ =>
          ⟨_, rfl, List.mem_append_right _ List.mem_cons_self⟩
      have hconnect := triple_connect_of (P := fun handle s => Event.opened handle ∈ s)
        ordinary_unused (fun e s _ => ⟨_, rfl⟩) hkeeps hcreate endpoints
        client'.settings.connectTimeout
      refine Triple.bind (hconnect.weaken (fun _ _ => trivial) fun _ _ h => h) fun result =>
        triple_pure fun s h connection hr => ?_
      obtain ⟨handle, hconnection, hopened⟩ := h connection hr
      exact ⟨handle, hconnection, .inr hopened⟩

/-- The exchange of the request has come to this parser over this connection. -/
def Client.Completes (client : Client) (platform : Platform) (this : ClientId) (request : Request)
    (w : World Answer Event) (url : Url) (connection : TcpConnection) (parser : ResponseParser) :
    Prop :=
  let first := fresh request.method client.settings.responseLimits
  ∃ serialized obtained w₁ w₂ w₃,
    serializeRequest platform.inetPton6 request = .ok serialized ∧ serialized.url = url ∧
    (client.obtainConnection platform this url).run w = (some (.ok obtained, client.cleared), w₁) ∧
    (Client.beginExchange obtained url first).run w₁ = (some (), w₂) ∧
    (client.cleared.exchange obtained serialized first).run w₂ = (some (.ok parser, connection), w₃)

/-- The ways in which a call returns. -/
theorem executeOnce_cases {request : Request} {w w' : World Answer Event}
    {result : Result Response} {client' : Client}
    (h : (client.executeOnce platform this request).run w = (some (result, client'), w')) :
    (∃ e, serializeRequest platform.inetPton6 request = .error e ∧ result = .error e ∧
        client' = client ∧ w' = w) ∨
      (∃ serialized e, serializeRequest platform.inetPton6 request = .ok serialized ∧
        result = .error e ∧ client' = client.cleared) ∨
      ∃ url connection parser, client.Completes platform this request w url connection parser ∧
        Concluded client.cleared connection url request parser (result, client') := by
  unfold Client.executeOnce at h
  cases hserialized : serializeRequest platform.inetPton6 request with
  | error e =>
    rw [hserialized] at h
    cases h
    exact .inl ⟨e, rfl, rfl, rfl, rfl⟩
  | ok serialized =>
    rw [hserialized] at h
    obtain ⟨r, w₁, hobtained, h⟩ := run_bind_cases h
    obtain ⟨⟨-, hclient⟩, -⟩ :=
      (writes_obtainConnection ordinary_unused client platform this serialized.url).run hobtained
    obtain ⟨e | obtained, client₁⟩ := r
    · cases h
      exact .inr (.inl ⟨serialized, e, rfl, rfl, hclient⟩)
    cases hclient
    obtain ⟨u, w₂, hbegan, h⟩ := run_bind_cases h
    obtain ⟨r, w₃, hexchange, h⟩ := run_bind_cases h
    obtain ⟨e | parser, connection⟩ := r
    · obtain ⟨closed, w₄, -, h⟩ := run_bind_cases h
      cases h
      exact .inr (.inl ⟨serialized, e, rfl, rfl, rfl⟩)
    · obtain ⟨hconcluded, -⟩ :=
        (writes_conclude ordinary_unused _ this connection _ request parser).run h
      exact .inr (.inr ⟨serialized.url, connection, parser,
        ⟨serialized, obtained, w₁, w₂, w₃, hserialized, rfl, hobtained, hbegan, hexchange⟩,
        hconcluded⟩)

/-- What one call on a client keeps: a connection behind a response on the conditions of the code,
nothing behind an error of a request that has been accepted, and what was kept behind that of a
request that has not. What is kept is taken for its own origin only, and before it is used the
client keeps it no more. -/
structure Retention (client : Client) (platform : Platform) (this : ClientId) (request : Request)
    (w : World Answer Event) : Prop where
  succeeded : ∀ response client' w',
    (client.executeOnce platform this request).run w = (some (.ok response, client'), w') →
    ∃ url connection parser, client.Completes platform this request w url connection parser ∧
      response = parser.response ∧
      (client'.hasReusableConnection = true ↔ connection.connected = true ∧
        parser.connectionReusable = true ∧ parser.pendingBytes = [] ∧ ¬ request.AsksToClose) ∧
      (client'.hasReusableConnection = true → client'.reusableHost = url.host ∧
        client'.reusablePort = url.port ∧
        ∀ handle, client'.hasHandle handle → connection.socket.handle = some handle)
  failed : ∀ e client' w',
    (client.executeOnce platform this request).run w = (some (.error e, client'), w') →
    serializeRequest platform.inetPton6 request = .error e ∧ client' = client ∧ w' = w ∨
      (∃ serialized, serializeRequest platform.inetPton6 request = .ok serialized) ∧
        client' = client.cleared
  adopted : ∀ url r w', (client.obtainConnection platform this url).run w = (some r, w') →
    r.2 = client.cleared ∧ ∃ events, w'.log = w.log ++ events ∧
      (∀ e ∈ events, e.carries = false) ∧ ConnectsTo (Adopts client url) r.1 events

theorem reusable_iff {connection : TcpConnection} {parser : ResponseParser} {request : Request} :
    Client.reusable connection parser request = true ↔ connection.connected = true ∧
      parser.connectionReusable = true ∧ parser.pendingBytes = [] ∧ ¬ request.AsksToClose := by
  simp [Client.reusable, and_assoc, ← requestWantsConnectionClose_iff]

theorem retention (client : Client) (platform : Platform) (this : ClientId) (request : Request)
    (w : World Answer Event) : Retention client platform this request w := by
  refine ⟨fun response client' w' h => ?_, fun e client' w' h => ?_, fun url r w' h => ?_⟩
  · obtain ⟨e, -, he, -⟩ | ⟨serialized, e, -, he, -⟩ |
      ⟨url, connection, parser, hcompletes, hresult, hclient⟩ := executeOnce_cases h
    · cases he
    · cases he
    cases hresult
    refine ⟨url, connection, parser, hcompletes, rfl, ?_⟩
    rw [← reusable_iff]
    split_ifs at hclient with hreusable
    · obtain ⟨handle, hhandle, rfl⟩ := hclient
      refine ⟨iff_of_true rfl hreusable, fun _ => ⟨rfl, rfl, ?_⟩⟩
      rintro other ⟨-, rfl⟩
      exact hhandle
    · subst hclient
      exact ⟨iff_of_false nofun hreusable, nofun⟩
  · obtain ⟨e', hserialized, he, rfl, rfl⟩ | ⟨serialized, e', hserialized, -, rfl⟩ |
      ⟨url, connection, parser, -, hresult, -⟩ := executeOnce_cases h
    · cases he
      exact .inl ⟨hserialized, rfl, rfl⟩
    · exact .inr ⟨⟨serialized, hserialized⟩, rfl⟩
    · cases hresult
  · obtain ⟨⟨-, hclient⟩, events, hlog, hunused⟩ :=
      (writes_obtainConnection ordinary_unused client platform this url).run h
    obtain ⟨events', s, hlog', hreads, hresult⟩ :=
      @triple_obtainConnection_adopts client platform this url w [] trivial trivial
    rw [h] at hlog' hresult
    rw [chronicle_reads] at hreads
    cases hreads
    have hsame : events' = events := List.append_cancel_left (hlog'.symm.trans hlog)
    subst hsame
    exact ⟨hclient, events', hlog, hunused, hresult r rfl⟩

end

/-! ## Runs -/

/-- One call of `execute_once` behind the other, each with the settings of that time. -/
def executeAll (platform : Platform) (this : ClientId) :
    Client → List (ClientSettings × Request) → Proc (List (Result Response) × Client)
  | client, [] => pure ([], client)
  | client, (settings, request) :: calls => do
    let (result, client) ← Client.executeOnce { client with settings } platform this request
    let (results, client) ← executeAll platform this client calls
    pure (result :: results, client)

/-- A handle has one origin, requests and responses go over handles on which a request has begun,
and every request begins behind whole responses. -/
structure Reused (log : List Event) : Prop where
  origin : ∀ handle, ∀ o ∈ origins handle log, ∀ o' ∈ origins handle log, SameOrigin o o'
  begun : ∀ past e rest handle, log = past ++ e :: rest → e.handle = some handle →
    e.carries = true → origins handle (past ++ [e]) ≠ []
  whole : ∀ past handle host port parser rest,
    log = past ++ .began handle host port parser :: rest → (traffic handle past).Whole

section

variable {platform : Platform} {this : ClientId}

/-- What every call keeps up holds behind a run. -/
theorem triple_executeAll {S : Type} {M : Monitor Event S} {I : Client → S → Prop}
    (hsettings : ∀ (client : Client) settings s, I client s → I { client with settings } s)
    (hcall : ∀ client request, M.Triple (I client) (client.executeOnce platform this request)
      fun r => I r.2)
    (client : Client) (calls : List (ClientSettings × Request)) :
    M.Triple (I client) (executeAll platform this client calls) fun r => I r.2 := by
  induction calls generalizing client with
  | nil => exact triple_pure fun _ h => h
  | cons call calls ih =>
    obtain ⟨settings, request⟩ := call
    refine ((hcall _ request).weaken (fun s h => hsettings client settings s h)
      fun _ _ h => h).bind fun r => ?_
    exact (ih r.2).bind fun r => triple_pure fun _ h => h

theorem reused_of_reads {log : List Event} {places : Places} {s : Streams}
    (h : handleLedger.reads [] log = some places) (hs : streams.reads {} log = some s) :
    Reused log := by
  refine ⟨fun handle => ?_, fun past e rest handle hlog hhandle hcarries => ?_,
    fun past handle host port parser rest hlog => whole_of_began hs hlog⟩
  · have hone := oneOrigin_of_reads h
    cases hp : places[handle]? with
    | some p => exact (hone.fits handle p hp).same
    | none =>
      rw [hone.unopened handle (List.getElem?_eq_none_iff.mp hp)]
      exact fun o ho => absurd ho List.not_mem_nil
  · obtain ⟨places', places'', hreads, hstep⟩ := handleLedger.reads_upto h hlog
    have hone := oneOrigin_step (oneOrigin_of_reads hreads) hstep
    obtain ⟨hnone, -⟩ | ⟨rfl, -⟩ | ⟨handle', p, p', hhandle', -, hp, hnext, -, rfl⟩ :=
      ledgerStep_cases hstep
    · cases hnone.symm.trans hhandle
    · cases hcarries
    cases hhandle.symm.trans hhandle'
    have hbusy : p'.isBusy = true := by
      cases Place.step_of_next hnext with
      | sent | received | began => rfl
      | closed | used | waited | retained | adopted | moved => cases hcarries
    refine (hone.fits handle p' ?_).busy hbusy
    exact List.getElem?_set_self (List.getElem?_eq_some_iff.mp hp).1

/-- A client that has a handle keeps it. -/
theorem isOpen_iff_of_holds {log : List Event} {places : Places} {client : Client}
    (hcounted : Counted log places)
    (h : Holds none (Function.update (fun _ => none) this client.keeps) places) (handle : Handle) :
    IsOpen log handle ↔ client.hasHandle handle := by
  have hkeeps : Holds none
      (Clients.keeps (Function.update (fun _ => none) this (some client))) places := by
    rw [keeps_update]
    exact h
  have hsettled := settled_of_holds hcounted hkeeps
  constructor
  · intro hopen
    obtain ⟨other, ⟨client', hclient, hhas⟩, -⟩ := hsettled.kept handle hopen
    rcases eq_or_ne other this with rfl | hne
    · rw [Function.update_self] at hclient
      cases hclient
      exact hhas
    · rw [Function.update_of_ne hne] at hclient
      cases hclient
  · exact hsettled.isOpen this client handle (by rw [Function.update_self])

/-- A new client keeps no handle. -/
theorem holds_new : Holds none (Function.update (fun _ => none) this ({} : Client).keeps) [] := by
  refine ⟨fun _ _ => by simp, fun other handle host port => ?_⟩
  simp [Client.keeps, Function.update_apply]

variable (platform this) in
theorem triple_executeAll_holds (client : Client) (calls : List (ClientSettings × Request)) :
    handleLedger.Triple (Holds none (Function.update (fun _ => none) this client.keeps))
      (executeAll platform this client calls)
      fun r => Holds none (Function.update (fun _ => none) this r.2.keeps) := by
  refine triple_executeAll
    (I := fun client => Holds none (Function.update (fun _ => none) this client.keeps))
    (fun _ _ _ h => h) (fun client request => ?_) client calls
  have hkept : Function.update (fun _ => none) this client.keeps this = client.keeps := by
    rw [Function.update_self]
  refine (triple_executeOnce platform request hkept).weaken (fun _ h => h) fun r _ h => ?_
  rwa [Function.update_idem] at h

variable (platform this) in
theorem triple_executeAll_rests (client : Client) (calls : List (ClientSettings × Request)) :
    streams.Triple client.Rests (executeAll platform this client calls) fun r => r.2.Rests :=
  triple_executeAll (fun _ _ _ h => h) (fun _ request => triple_executeOnce_rests request) client
    calls

theorem run_reused (calls : List (ClientSettings × Request)) (answers : List Answer)
    {r : Option (List (Result Response) × Client) × World Answer Event}
    (hr : (executeAll platform this {} calls).run ⟨answers, []⟩ = r) :
    Reused r.2.log ∧ ∀ results client, r.1 = some (results, client) →
      ∀ handle, IsOpen r.2.log handle ↔ client.hasHandle handle := by
  obtain ⟨events, places, hlog, hreads, hresult⟩ :=
    triple_executeAll_holds platform this {} calls ⟨answers, []⟩ []
      counted_nil holds_new
  obtain ⟨events', s, hlog', hreads', -⟩ :=
    triple_executeAll_rests platform this {} calls ⟨answers, []⟩ {}
      ⟨rfl, fun _ _ => rfl⟩ (rests_cleared {} _)
  rw [hr, List.nil_append] at hlog hlog'
  rw [hr] at hresult
  have hsame : events' = events := hlog'.symm.trans hlog
  subst hsame
  rw [hlog]
  exact ⟨reused_of_reads hreads hreads', fun results client hclient =>
    isOpen_iff_of_holds (counted_of_reads hreads) (hresult _ hclient)⟩

/-- What every call keeps, from any client and whatever the system answers; and in every run of
calls on a new client, however far it has come, what its connections carry, and which are open
between the calls. -/
theorem connections_reused (platform : Platform) (this : ClientId) :
    (∀ client request w, Retention client platform this request w) ∧
    ∀ (calls : List (ClientSettings × Request)) (answers : List Answer),
      let r := (executeAll platform this {} calls).run ⟨answers, []⟩
      Reused r.2.log ∧ ∀ results client, r.1 = some (results, client) →
        ∀ handle, IsOpen r.2.log handle ↔ client.hasHandle handle :=
  ⟨fun client request w => retention client platform this request w,
    fun calls answers => run_reused calls answers rfl⟩

end

end CppRequest
