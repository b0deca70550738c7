import CppRequest.ConnectionEnd
import CppRequest.HandleOwnership

/-!
# What connections carry between requests

A request begins on a connection when all that has been received on it is whole responses, whose
heads leave the connection open. A connection that a client keeps is always in this state.
-/

namespace CppRequest

open Procedure Monitor ResponseParser

/-! ## Whole responses -/

/-- The response says where it ends, and the connection goes on behind it. -/
structure WireResponse.KeepsConnection {requestMethod : Method} (w : WireResponse requestMethod) :
    Prop where
  delimited : w.body.framing ≠ .untilClose
  close : w.final.head.headers.wantsClose = false
  upgrade : w.final.head.statusCode ≠ 101

/-- What goes over a connection: the methods of the requests that begin, and the bytes that are
received. -/
structure Traffic where
  requests : List Method := []
  received : Bytes := []

namespace Traffic

def request (t : Traffic) (requestMethod : Method) : Traffic :=
  { t with requests := t.requests ++ [requestMethod] }

def hear (t : Traffic) (data : Bytes) : Traffic := { t with received := t.received ++ data }

theorem hear_nil (t : Traffic) : t.hear [] = t := by
  unfold hear
  rw [List.append_nil]

theorem hear_hear (t : Traffic) (data data' : Bytes) :
    (t.hear data).hear data' = t.hear (data ++ data') := by
  unfold hear
  rw [List.append_assoc]

/-- One whole response for each request, in order. -/
inductive Whole : Traffic → Prop
  | nil : Whole {}
  | append {t : Traffic} {requestMethod : Method} (w : WireResponse requestMethod) (h : Whole t)
      (hkeeps : w.KeepsConnection) : Whole ((t.request requestMethod).hear w.encode)

/-- The event is on the handle. -/
def next (handle : Handle) (t : Traffic) : Event → Traffic
  | .received other outcome => if other = handle then t.hear (receivedBytes outcome) else t
  | .began other _ _ parser => if other = handle then t.request parser.requestMethod else t
  | _ => t

end Traffic

/-- What has gone over the handle in these events. -/
def traffic (handle : Handle) (events : List Event) : Traffic :=
  events.foldl (Traffic.next handle) {}

theorem keepsConnection_of_reusable {requestMethod : Method} {w : WireResponse requestMethod}
    {limits : ResponseLimits} {pending : Bytes}
    (h : (behind w limits pending).connectionReusable = true) : w.KeepsConnection := by
  obtain ⟨hfields, -⟩ := analyzeFraming_ok w.final.analyzed
  have hclose : w.final.framing.connectionCloseRequested = w.final.head.headers.wantsClose :=
    hfields.close
  simp only [connectionReusable, behind, atEnd, Bool.and_eq_true, Bool.not_eq_true',
    Bool.or_eq_false_iff, beq_eq_false_iff_ne, hclose] at h
  obtain ⟨⟨-, hno, hupgrade⟩, hself⟩ := h
  exact ⟨hself, hno, hupgrade⟩

/-! ## What has been received -/

/-- How many sockets have been opened, and what has gone over each of them. -/
structure Streams where
  opened : ℕ := 0
  traffic : Handle → Traffic := fun _ => {}

def Streams.set (s : Streams) (handle : Handle) (t : Traffic) : Streams :=
  { s with traffic := Function.update s.traffic handle t }

theorem Streams.set_self (s : Streams) (handle : Handle) (t : Traffic) :
    (s.set handle t).traffic handle = t :=
  Function.update_self _ _ _

theorem Streams.set_other (s : Streams) {handle other : Handle} (h : other ≠ handle) (t : Traffic) :
    (s.set other t).traffic handle = s.traffic handle :=
  Function.update_of_ne (Ne.symm h) _ _

open Classical in
/-- Who objects when a request begins elsewhere than behind whole responses, or on a handle that has
not been opened, and when something is received on such a handle. -/
noncomputable def streamsStep (s : Streams) : Event → Option Streams
  | .opened _ => some { s with opened := s.opened + 1 }
  | .received handle outcome =>
    if handle < s.opened then
      some (s.set handle ((s.traffic handle).hear (receivedBytes outcome)))
    else none
  | .began handle _ _ parser =>
    if handle < s.opened ∧ (s.traffic handle).Whole then
      some (s.set handle ((s.traffic handle).request parser.requestMethod))
    else none
  | _ => some s

/-- The number is that of the log, and nothing has gone over handles that are still to come. -/
structure Streams.Counted (log : List Event) (s : Streams) : Prop where
  opened : log.countP Event.isOpened = s.opened
  unopened : ∀ handle, s.opened ≤ handle → s.traffic handle = {}

theorem streams_step {s s' : Streams} {e : Event} (h : streamsStep s e = some s')
    (handle : Handle) : s'.traffic handle = (s.traffic handle).next handle e := by
  cases e with
  | opened other =>
    cases h
    rfl
  | received other outcome =>
    simp only [streamsStep] at h
    split_ifs at h
    cases h
    rw [Traffic.next]
    split_ifs with hother
    · rw [hother, Streams.set_self]
    · rw [Streams.set_other s hother]
  | began other host port parser =>
    simp only [streamsStep] at h
    split_ifs at h
    cases h
    rw [Traffic.next]
    split_ifs with hother
    · rw [hother, Streams.set_self]
    · rw [Streams.set_other s hother]
  | clock | resolved | closed | used | waited | sent | retained | adopted | moved =>
    cases h
    rfl

theorem streams_counted {log : List Event} {s s' : Streams} {e : Event}
    (hs : Streams.Counted log s) (h : streamsStep s e = some s') :
    Streams.Counted (log ++ [e]) s' := by
  have hset : ∀ {other : Handle} (t : Traffic), other < s.opened → ∀ handle, s.opened ≤ handle →
      (s.set other t).traffic handle = {} := by
    intro other t hlt handle hle
    rw [Streams.set_other s (hlt.trans_le hle).ne]
    exact hs.unopened handle hle
  have hcount : e.isOpened = false → (log ++ [e]).countP Event.isOpened = s.opened := by
    intro hno
    rw [countP_concat, hno]
    exact hs.opened
  cases e with
  | opened other =>
    cases h
    refine ⟨?_, fun handle hle => hs.unopened handle (Nat.le_of_succ_le hle)⟩
    rw [countP_concat, hs.opened]
    rfl
  | received other outcome =>
    simp only [streamsStep] at h
    split_ifs at h with hlt
    cases h
    exact ⟨hcount rfl, hset _ hlt⟩
  | began other host port parser =>
    simp only [streamsStep] at h
    split_ifs at h with hlt
    cases h
    exact ⟨hcount rfl, hset _ hlt.1⟩
  | clock | resolved | closed | used | waited | sent | retained | adopted | moved =>
    cases h
    exact ⟨hcount rfl, hs.unopened⟩

noncomputable def streams : Monitor Event Streams where
  step := streamsStep
  fits := Streams.Counted
  fits_step := streams_counted

theorem streams_reads {events : List Event} {s s' : Streams} (h : streams.reads s events = some s')
    (handle : Handle) :
    s'.traffic handle = events.foldl (Traffic.next handle) (s.traffic handle) := by
  induction events generalizing s with
  | nil =>
    cases h
    rfl
  | cons e events ih =>
    unfold reads at h
    rw [List.foldlM_cons] at h
    obtain ⟨t, hstep, hrest⟩ := Option.bind_eq_some_iff.mp h
    rw [ih hrest, streams_step hstep, List.foldl_cons]

/-- A request begins behind whole responses. -/
theorem whole_of_began {log past rest : List Event} {s : Streams} {handle : Handle} {host : Bytes}
    {port : ℕ} {parser : ResponseParser} (h : streams.reads {} log = some s)
    (hlog : log = past ++ .began handle host port parser :: rest) :
    (traffic handle past).Whole := by
  obtain ⟨t, t', hreads, hstep⟩ := reads_upto _ h hlog
  have htraffic := streams_reads hreads handle
  simp only [streams, streamsStep] at hstep
  split_ifs at hstep with hbegins
  have hwhole := hbegins.2
  rwa [htraffic] at hwhole

/-! ## Exchanges -/

/-- The handle has been opened, and this has gone over it. -/
def HasReceived (handle : Handle) (t : Traffic) (s : Streams) : Prop :=
  handle < s.opened ∧ s.traffic handle = t

def Event.Silent : Event → Prop
  | .received .. | .began .. => False
  | _ => True

theorem ordinary_silent : Ordinary Event.Silent where
  clock _ := trivial
  opened _ := trivial
  closed _ := trivial
  used _ _ := trivial
  writable _ _ _ := trivial
  retained _ _ _ _ := trivial
  resolved _ _ _ := trivial
  adopted _ _ := trivial

/-- Behind an event that nothing comes with, and that begins no request. -/
theorem silent_step {e : Event} (he : e.Silent) (s : Streams) :
    ∃ s', streams.step s e = some s' ∧ s.opened ≤ s'.opened ∧ s'.traffic = s.traffic := by
  cases e with
  | opened => exact ⟨_, rfl, Nat.le_succ _, rfl⟩
  | received | began => exact absurd he id
  | clock | resolved | closed | used | waited | sent | retained | adopted | moved =>
    exact ⟨s, rfl, le_rfl, rfl⟩

section

variable {handle : Handle} {base : Traffic} {connection : TcpConnection}
variable {requestMethod : Method} {limits : ResponseLimits}

theorem hasReceived_silent {t : Traffic} {e : Event} {s : Streams} (he : e.Silent)
    (h : HasReceived handle t s) :
    ∃ s', streams.step s e = some s' ∧ HasReceived handle t s' := by
  obtain ⟨s', hstep, hle, hsame⟩ := silent_step he s
  exact ⟨s', hstep, h.1.trans_le hle, by rw [hsame, h.2]⟩

theorem triple_readSome_received (hhandle : connection.socket.handle = some handle) (capacity : ℕ)
    (timeout : ℤ) :
    streams.Triple (HasReceived handle base) (connection.readSome capacity timeout)
      (Leaves connection fun data => HasReceived handle (base.hear data)) := by
  refine (triple_readSome_of (P := fun data => HasReceived handle (base.hear data)) ordinary_silent
    (fun _ _ => trivial) (fun data e s he h => hasReceived_silent he h) ?_ hhandle capacity
    timeout).weaken ?_ fun _ _ h => h
  · intro outcome s h
    refine ⟨_, if_pos h.1, h.1, ?_⟩
    rw [Streams.set_self, h.2, Traffic.hear_nil]
  · intro s h
    rwa [Traffic.hear_nil]

/-- Behind an exchange the connection is there with the parser that has heard its answer, or it is
closed. -/
def Answered (requestMethod : Method) (limits : ResponseLimits) (connection : TcpConnection)
    (handle : Handle) (base : Traffic) :
    Result ResponseParser × TcpConnection → Streams → Prop
  | (.ok parser, connection'), s => connection' = {} ∨ connection' = connection ∧
      ∃ stream, Fed requestMethod limits stream parser ∧ HasReceived handle (base.hear stream) s
  | (.error _, _), _ => True

theorem answered_silent {r : Result ResponseParser × TcpConnection} {e : Event} {s : Streams}
    (he : e.Silent) (h : Answered requestMethod limits connection handle base r s) :
    ∃ s', streams.step s e = some s' ∧
      Answered requestMethod limits connection handle base r s' := by
  obtain ⟨s₁, hstep₁, -⟩ := silent_step he s
  obtain ⟨e' | parser, connection'⟩ := r
  · exact ⟨s₁, hstep₁, trivial⟩
  obtain hclosed | ⟨hsame, stream, hfed, hreceived⟩ := h
  · exact ⟨s₁, hstep₁, .inl hclosed⟩
  · obtain ⟨s', hstep, hreceived'⟩ := hasReceived_silent he hreceived
    exact ⟨s', hstep, .inr ⟨hsame, stream, hfed, hreceived'⟩⟩

theorem triple_responseRound_received (hhandle : connection.socket.handle = some handle)
    (readTimeout : ℤ) (state : TcpConnection × ResponseParser) :
    streams.Triple (fun s => state.1 = connection ∧
        ∃ stream, Fed requestMethod limits stream state.2 ∧
          HasReceived handle (base.hear stream) s)
      (Client.responseRound readTimeout state) fun r s =>
        r.elim (fun state => state.1 = connection ∧
          ∃ stream, Fed requestMethod limits stream state.2 ∧
            HasReceived handle (base.hear stream) s)
          fun r => Answered requestMethod limits connection handle base r s := by
  obtain ⟨connection', parser⟩ := state
  refine triple_and fun hsame => triple_exists fun stream => triple_and fun hfed => ?_
  cases hsame
  unfold Client.responseRound
  dsimp only
  split
  · exact triple_pure fun s h => .inr ⟨rfl, stream, hfed, h⟩
  refine (triple_readSome_received hhandle _ readTimeout).bind fun r => ?_
  obtain ⟨e | data, connection''⟩ := r
  · refine triple_pure fun s h => ?_
    show Answered requestMethod limits connection' handle base
      (Client.endOfInput parser e, connection'') s
    cases Client.endOfInput parser e with
    | error e' => exact trivial
    | ok parser' => exact .inl h
  · refine triple_and fun hsame => ?_
    subst hsame
    dsimp only
    cases hfeed : parser.feed data with
    | mk r parser' =>
      cases r with
      | error e => exact triple_pure fun _ _ => trivial
      | ok q =>
        refine triple_pure fun s h => ⟨rfl, stream ++ data, hfed.feed hfeed, ?_⟩
        rwa [← Traffic.hear_hear]

theorem triple_exchange_received (client : Client)
    (hhandle : connection.socket.handle = some handle)
    (serialized : SerializedRequest) :
    streams.Triple (HasReceived handle base)
      (client.exchange connection serialized (fresh requestMethod limits))
      (Answered requestMethod limits connection handle base) := by
  refine ((writes_writeRequest ordinary_silent (fun _ _ => trivial) connection serialized
    _).triple fun e s he h => hasReceived_silent he h).bind fun r => ?_
  obtain ⟨e | u, connection'⟩ := r
  · exact triple_pure fun _ _ => trivial
  refine triple_and fun hsame => ?_
  obtain ⟨rfl, -⟩ := hsame
  refine (triple_loop _ (triple_responseRound_received hhandle _) _).weaken
    (fun s h => ⟨rfl, [], fed_nil, ?_⟩) fun _ _ h => h
  rwa [Traffic.hear_nil]

end

/-! ## `execute_once` -/

/-- The handle has received whole responses. -/
def Rested (handle : Handle) (s : Streams) : Prop :=
  handle < s.opened ∧ (s.traffic handle).Whole

theorem triple_silent {α : Type} {q : Proc α} {Q : α → Prop} {P : Streams → Prop}
    (h : q.Writes Event.Silent Q) : streams.Triple P q fun a _ => Q a ∧ True := by
  refine (h.triple (P := fun _ => True) fun e s he _ => ?_).weaken (fun _ _ => trivial)
    fun _ _ h => h
  obtain ⟨s', hstep, -⟩ := silent_step he s
  exact ⟨s', hstep, trivial⟩

theorem rested_silent {handle : Handle} {e : Event} {s : Streams} (he : e.Silent)
    (h : Rested handle s) : ∃ s', streams.step s e = some s' ∧ Rested handle s' := by
  obtain ⟨s', hstep, hle, hsame⟩ := silent_step he s
  exact ⟨s', hstep, h.1.trans_le hle, by rw [hsame]; exact h.2⟩

/-- The connection that a client keeps rests. -/
def Client.Rests (client : Client) (s : Streams) : Prop :=
  ∀ handle, client.hasHandle handle → Rested handle s

theorem rests_cleared (client : Client) (s : Streams) : client.cleared.Rests s := by
  rintro handle ⟨hhas, -⟩
  cases hhas

section

variable {client : Client} {platform : Platform} {this : ClientId}

theorem triple_connect_rests (endpoints : List Endpoint) (timeout : ℤ) :
    streams.Triple (fun _ => True) (TcpConnection.connect platform endpoints timeout)
      (ConnectsTo Rested) := by
  have hfresh : streams.Triple (fun _ => True) freshHandle fun handle s =>
      handle = s.opened ∧ s.traffic handle = {} := by
    refine (triple_history (Q := fun log s => Streams.Counted log s)
      fun _ _ hfits _ => hfits).bind fun log => triple_pure fun s h => ⟨h.opened, ?_⟩
    exact h.unopened _ h.opened.ge
  refine triple_connect_of (P := Rested) ordinary_silent (fun e s he => ?_)
    (fun _ _ _ => rested_silent)
    (triple_createTcpSocket_of ordinary_silent (fun _ _ _ => rested_silent) hfresh ?_) endpoints
    timeout
  · obtain ⟨s', hstep, -⟩ := silent_step he s
    exact ⟨s', hstep⟩
  · rintro handle s ⟨rfl, hempty⟩
    refine ⟨_, rfl, Nat.lt_succ_self _, ?_⟩
    show (s.traffic s.opened).Whole
    rw [hempty]
    exact .nil

theorem triple_obtainConnection_rests (url : Url) :
    streams.Triple client.Rests (client.obtainConnection platform this url) fun r s =>
      r.2 = client.cleared ∧ ConnectsTo Rested r.1 s := by
  unfold Client.obtainConnection
  split
  · next hkeeps =>
    unfold Client.keepsConnectionTo at hkeeps
    rw [Bool.and_eq_true] at hkeeps
    refine (triple_emit (Q := fun _ => client.Rests) fun s h => ⟨s, rfl, h⟩).bind fun _ =>
      triple_pure fun s h => ⟨rfl, ?_⟩
    rintro connection ⟨⟩
    exact ⟨_, rfl, h _ ⟨hkeeps.1, rfl⟩⟩
  · refine (triple_silent (writes_closeReusableConnection ordinary_silent client this)).bind
      fun client' => triple_and fun hclient => ?_
    subst hclient
    refine (triple_silent (writes_resolve ordinary_silent.resolved url.host url.port)).bind fun resolved => ?_
    cases resolved with
    | error e => exact triple_pure fun s _ => ⟨rfl, connectsTo_error e s⟩
    | ok endpoints =>
      refine Triple.bind ((triple_connect_rests endpoints _).weaken (fun _ _ => trivial)
        fun _ _ h => h) fun result => triple_pure fun s h => ⟨rfl, h⟩

/-- A connection is kept behind a whole response. -/
theorem rests_of_concluded {requestMethod : Method} {limits : ResponseLimits} {handle : Handle}
    {base : Traffic} {connection : TcpConnection} {url : Url} {request : Request}
    {parser : ResponseParser} {r : Result Response × Client} {s : Streams} (hbase : base.Whole)
    (h : Concluded client.cleared connection url request parser r)
    (hanswered : Answered requestMethod limits (.adoptNativeHandle handle) handle
      (base.request requestMethod) (.ok parser, connection) s) : r.2.Rests s := by
  obtain ⟨-, h⟩ := h
  split_ifs at h with hreusable
  · obtain ⟨handle', hhandle, hclient⟩ := h
    simp only [Client.reusable, Bool.and_eq_true, List.isEmpty_iff] at hreusable
    obtain ⟨⟨⟨-, hparser⟩, hpending⟩, -⟩ := hreusable
    obtain rfl | ⟨rfl, stream, hfed, hlt, htraffic⟩ := hanswered
    · cases hhandle
    · cases hhandle
      have hcomplete : parser.isComplete = true := by
        simp only [connectionReusable, Bool.and_eq_true] at hparser
        exact hparser.1.1
      obtain ⟨w, pending, rfl, -, rfl⟩ := hfed.complete hcomplete
      have hnone : pending = [] := hpending
      subst hnone
      rw [hclient]
      rintro other ⟨-, rfl⟩
      refine ⟨hlt, ?_⟩
      show (s.traffic handle).Whole
      rw [htraffic, List.append_nil]
      exact hbase.append w (keepsConnection_of_reusable hparser)
  · rw [h]
    exact rests_cleared client s

theorem triple_executeOnce_rests (request : Request) :
    streams.Triple client.Rests (client.executeOnce platform this request) fun r => r.2.Rests := by
  unfold Client.executeOnce
  cases serializeRequest platform.inetPton6 request with
  | error e => exact triple_pure fun _ h => h
  | ok serialized =>
    refine (triple_obtainConnection_rests serialized.url).bind fun r => triple_and fun hclient => ?_
    obtain ⟨r, client'⟩ := r
    cases hclient
    cases r with
    | error e => exact triple_pure fun s _ => rests_cleared client s
    | ok connection =>
      refine Triple.weaken (P := fun s => ∃ handle, connection = .adoptNativeHandle handle ∧
        Rested handle s) ?_ (fun s h => h connection rfl) fun _ _ h => h
      refine triple_exists fun handle => triple_and fun hconnection => ?_
      subst hconnection
      refine Triple.bind (Q := fun _ s => ∃ base : Traffic, base.Whole ∧
        HasReceived handle (base.request request.method) s) ?_ fun _ => ?_
      · refine triple_emit fun s h => ⟨_, if_pos h, s.traffic handle, h.2, h.1, ?_⟩
        exact Streams.set_self s handle _
      refine triple_exists fun base => triple_and fun hbase => ?_
      refine (triple_exchange_received client.cleared rfl serialized).bind fun r => ?_
      obtain ⟨e | parser, connection⟩ := r
      · refine Triple.bind (Q := fun _ _ => True) ?_ fun _ =>
          triple_pure fun s _ => rests_cleared client s
        refine Triple.bind (Q := fun _ _ => True) ?_ fun _ => triple_pure fun _ _ => trivial
        exact (triple_silent (writes_close ordinary_silent connection.socket)).weaken
          (fun _ h => h) fun _ _ _ => trivial
      · refine ((writes_conclude ordinary_silent _ this connection _ request parser).triple
          fun e s he h => answered_silent he h).weaken (fun _ h => h) fun _ _ h => ?_
        exact rests_of_concluded hbase h.1 h.2

end

end CppRequest
