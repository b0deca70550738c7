import CppRequest.Isolation

/-!
# Machines that follow handles

A machine for each handle that sees what is done with it, apart from its being opened. Where it
accepts what one request does, and the connection that a client keeps leaves it in a state of rest,
it accepts what any operations on clients do.
-/

namespace CppRequest

open Procedure Monitor

structure HandleMachine (P : Type) where
  initial : P
  next : P → Event → Option P

/-- Done with this handle once it is open. -/
def Event.isOn (handle : Handle) (e : Event) : Bool := e.handle == some handle && !e.isOpened

namespace HandleMachine

variable {P : Type} (m : HandleMachine P)

/-- The state behind these events, if all are accepted. -/
def follow (handle : Handle) (events : List Event) : Option P :=
  (events.filter (Event.isOn handle)).foldlM m.next m.initial

theorem follow_append (handle : Handle) (log events : List Event) :
    m.follow handle (log ++ events) = (m.follow handle log).bind fun p =>
      (events.filter (Event.isOn handle)).foldlM m.next p := by
  unfold follow
  rw [List.filter_append, List.foldlM_append]
  rfl

theorem follow_concat (handle : Handle) (log : List Event) (e : Event) :
    m.follow handle (log ++ [e]) =
      if e.isOn handle then (m.follow handle log).bind fun p => m.next p e
      else m.follow handle log := by
  rw [m.follow_append]
  split_ifs with he
  · rw [List.filter_cons_of_pos he]
    exact congrArg _ (funext fun p => bind_pure (m.next p e))
  · rw [List.filter_cons_of_neg he]
    exact Option.bind_fun_some _

/-- What is done with a handle is a step of its machine. -/
theorem follow_step {handle : Handle} {log : List Event} {e : Event} {p : P}
    (h : m.follow handle (log ++ [e]) = some p) (hhandle : e.handle = some handle)
    (hopened : e.isOpened = false) : ∃ q, m.follow handle log = some q ∧ m.next q e = some p := by
  rw [m.follow_concat, if_pos (by simp [Event.isOn, hhandle, hopened])] at h
  exact Option.bind_eq_some_iff.mp h

end HandleMachine

/-! ## All handles together -/

/-- How many sockets have been opened, and the state of the machine of each handle. -/
structure Machines (P : Type) where
  opened : ℕ
  state : Handle → P

section

variable {P : Type} {m : HandleMachine P} {s s' : Machines P} {e : Event} {handle : Handle}

def Machines.set (s : Machines P) (handle : Handle) (p : P) : Machines P :=
  { s with state := Function.update s.state handle p }

theorem Machines.set_self (s : Machines P) (handle : Handle) (p : P) :
    (s.set handle p).state handle = p := Function.update_self _ _ _

theorem Machines.set_other (s : Machines P) {other : Handle} (h : other ≠ handle) (p : P) :
    (s.set handle p).state other = s.state other := Function.update_of_ne h _ _

/-- Who objects where a machine does, and to what is done with a handle that has not been opened. -/
def machinesStep (m : HandleMachine P) (s : Machines P) (e : Event) : Option (Machines P) :=
  if e.isOpened then some { s with opened := s.opened + 1 }
  else match e.handle with
    | none => some s
    | some handle =>
      if handle < s.opened then (m.next (s.state handle) e).map (s.set handle) else none

theorem machinesStep_cases (h : machinesStep m s e = some s') :
    (e.isOpened = true ∧ s' = { s with opened := s.opened + 1 }) ∨
      (e.isOpened = false ∧ e.handle = none ∧ s' = s) ∨
      ∃ handle p, e.isOpened = false ∧ e.handle = some handle ∧ handle < s.opened ∧
        m.next (s.state handle) e = some p ∧ s' = s.set handle p := by
  unfold machinesStep at h
  cases hopened : e.isOpened with
  | true =>
    rw [hopened, if_pos rfl] at h
    exact .inl ⟨rfl, (Option.some.inj h).symm⟩
  | false =>
    rw [hopened, if_neg Bool.false_ne_true] at h
    cases hhandle : e.handle with
    | none =>
      rw [hhandle] at h
      exact .inr (.inl ⟨rfl, rfl, (Option.some.inj h).symm⟩)
    | some handle =>
      rw [hhandle] at h
      dsimp only at h
      split_ifs at h with hlt
      obtain ⟨p, hp, rfl⟩ := Option.map_eq_some_iff.mp h
      exact .inr (.inr ⟨handle, p, rfl, rfl, hlt, hp, rfl⟩)

/-- Every machine has followed its handle, and there is nothing to follow before it is opened. -/
structure Machines.Fits (m : HandleMachine P) (log : List Event) (s : Machines P) : Prop where
  opened : log.countP Event.isOpened = s.opened
  state : ∀ handle, m.follow handle log = some (s.state handle)
  unopened : ∀ handle, s.opened ≤ handle → s.state handle = m.initial

theorem machines_fit {log : List Event} (h : s.Fits m log) (hstep : machinesStep m s e = some s') :
    s'.Fits m (log ++ [e]) := by
  have hother : ∀ handle, e.isOn handle = false →
      m.follow handle (log ++ [e]) = some (s.state handle) := by
    intro handle hoff
    rw [m.follow_concat, if_neg (by simp [hoff])]
    exact h.state handle
  obtain ⟨hopened, rfl⟩ | ⟨hopened, hnone, rfl⟩ | ⟨handle, p, hopened, hhandle, hlt, hp, rfl⟩ :=
    machinesStep_cases hstep
  · refine ⟨?_, fun handle => hother handle ?_, fun handle hle => ?_⟩
    · rw [countP_concat, hopened, h.opened]
      rfl
    · rw [Event.isOn, hopened, Bool.not_true, Bool.and_false]
    · exact h.unopened handle (Nat.le_of_succ_le hle)
  · refine ⟨?_, fun handle => hother handle ?_, h.unopened⟩
    · rw [countP_concat, hopened]
      exact h.opened
    · rw [Event.isOn, hnone]
      rfl
  · refine ⟨?_, fun other => ?_, fun other hle => ?_⟩
    · rw [countP_concat, hopened]
      exact h.opened
    · rcases eq_or_ne other handle with rfl | hne
      · rw [m.follow_concat, if_pos (by simp [Event.isOn, hhandle, hopened]), h.state]
        rw [Machines.set_self]
        exact hp
      · rw [hother other (by simp [Event.isOn, hhandle, Ne.symm hne]), s.set_other hne]
    · have hne : other ≠ handle := (hlt.trans_le hle).ne'
      rw [s.set_other hne]
      exact h.unopened other hle

end

section

variable {P : Type}

def machines (m : HandleMachine P) : Monitor Event (Machines P) where
  step := machinesStep m
  fits := Machines.Fits m
  fits_step := machines_fit

/-- Before anything has been opened. -/
def Machines.new (m : HandleMachine P) : Machines P := ⟨0, fun _ => m.initial⟩

variable {m : HandleMachine P} {s : Machines P} {log : List Event}

theorem machines_fits (h : (machines m).reads (.new m) log = some s) : s.Fits m log := by
  have hnew : (machines m).fits [] (.new m) := ⟨rfl, fun _ => rfl, fun _ _ => rfl⟩
  exact (machines m).fits_reads hnew h

/-- A machine does not notice what is done with other handles. -/
theorem follow_untouched {handle : Handle} {events : List Event} (log : List Event)
    (h : ∀ e ∈ events, e.handle ≠ some handle) :
    m.follow handle (log ++ events) = m.follow handle log := by
  have hnone : events.filter (Event.isOn handle) = [] := by
    rw [List.filter_eq_nil_iff]
    intro e he hon
    simp only [Event.isOn, Bool.and_eq_true, beq_iff_eq] at hon
    exact h e he hon.1
  unfold HandleMachine.follow
  rw [List.filter_append, hnone, List.append_nil]

/-! ## What is known of one machine -/

/-- The handle has been opened, and this is the state of its machine. -/
structure Machines.At (s : Machines P) (handle : Handle) (p : P) : Prop where
  opened : handle < s.opened
  state : s.state handle = p

variable {handle : Handle} {p q : P} {e : Event}

theorem Machines.At.step (h : s.At handle p) (hhandle : e.handle = some handle)
    (hopened : e.isOpened = false) (hnext : m.next p e = some q) :
    ∃ s', (machines m).step s e = some s' ∧ s'.At handle q := by
  refine ⟨s.set handle q, ?_, h.opened, s.set_self handle q⟩
  show machinesStep m s e = _
  unfold machinesStep
  rw [hopened, hhandle]
  dsimp only
  rw [if_neg Bool.false_ne_true, if_pos h.opened, h.state, hnext]
  rfl

/-- Where the handle is used, its machine takes a step. -/
theorem triple_use (hhandle : e.handle = some handle) (hopened : e.isOpened = false)
    (hnext : m.next p e = some q) :
    (machines m).Triple (fun s => s.At handle p) (emit e : Proc Unit) fun _ s => s.At handle q :=
  triple_emit fun _ h => h.step hhandle hopened hnext

theorem triple_clock_at : (machines m).Triple (fun s => s.At handle p) steadyClockNow
    fun _ s => s.At handle p :=
  triple_read.bind fun _ => (triple_emit (Q := fun _ (s : Machines P) => s.At handle p)
    fun s h => ⟨s, rfl, h⟩).bind fun _ => triple_pure fun _ h => h

theorem triple_clock_any :
    (machines m).Triple (fun _ => True) steadyClockNow fun _ _ => True :=
  triple_read.bind fun _ => (triple_emit (Q := fun _ _ => True)
    fun s h => ⟨s, rfl, h⟩).bind fun _ => triple_pure fun _ h => h

theorem triple_resolve_any (host : Bytes) (port : ℕ) :
    (machines m).Triple (fun _ => True) (resolve host port) fun _ _ => True := by
  have hwrites : (resolve host port).Writes (fun e => e.isOpened = false ∧ e.handle = none)
      fun _ => True := writes_resolve (fun _ _ _ => ⟨rfl, rfl⟩) host port
  refine (hwrites.triple fun e s he _ => ⟨s, ?_, trivial⟩).weaken (fun _ h => h)
    fun _ _ _ => trivial
  show machinesStep m s e = _
  unfold machinesStep
  rw [he.1, he.2]
  rfl

theorem triple_remainingTimeout_at (deadline : ℤ) :
    (machines m).Triple (fun s => s.At handle p) (remainingTimeout deadline)
      fun _ s => s.At handle p := by
  refine triple_clock_at.bind fun now => ?_
  split
  · exact triple_pure fun _ h => h
  · exact triple_pure fun _ h => h

/-- This is the handle of the next socket. -/
structure Machines.Next (m : HandleMachine P) (s : Machines P) (handle : Handle) : Prop where
  opened : handle = s.opened
  state : s.state handle = m.initial

theorem triple_freshHandle_at :
    (machines m).Triple (fun _ => True) freshHandle fun handle s => s.Next m handle :=
  (triple_history (Q := fun log (s : Machines P) => s.Fits m log) fun _ _ hfits _ => hfits).bind
    fun _ => triple_pure fun _ h => ⟨h.opened, h.unopened _ h.opened.ge⟩

theorem triple_opened_at :
    (machines m).Triple (fun s => s.Next m handle) (emit (.opened handle) : Proc Unit)
      fun _ s => s.At handle m.initial :=
  triple_emit fun _ h => ⟨_, rfl, h.opened ▸ Nat.lt_succ_self _, h.state⟩

end

/-! ## Connections that are kept -/

/-- What is done with the connection of a client between its requests. -/
def Event.hands : Event → Bool
  | .adopted .. | .closed _ | .moved .. => true
  | _ => false

/-- In a state of rest a connection may be handed on or closed. -/
def HandleMachine.Resting {P : Type} (m : HandleMachine P) (rests : P → Prop) : Prop :=
  ∀ p e, rests p → e.hands = true → ∃ p', m.next p e = some p' ∧ rests p'

section

variable {P : Type} {m : HandleMachine P} {rests : P → Prop} {platform : Platform}

/-- The connection that the client keeps is in a state of rest. -/
def Client.RestsAt (client : Client) (rests : P → Prop) (s : Machines P) : Prop :=
  ∀ handle, client.hasHandle handle → ∃ p, s.At handle p ∧ rests p

def Clients.RestAt (clients : Clients) (rests : P → Prop) (s : Machines P) : Prop :=
  ∀ this client, clients this = some client → client.RestsAt rests s

theorem restsAt_cleared (client : Client) (s : Machines P) : client.cleared.RestsAt rests s := by
  rintro handle ⟨hhas, -⟩
  cases hhas

variable {clients : Clients} {this other : ClientId} {client source : Client}

/-- Handing on one connection leaves all of them at rest. -/
theorem restAt_step {s : Machines P} {e : Event} {handle : Handle} (hm : m.Resting rests)
    (h : clients.RestAt rests s) (hclient : clients this = some client)
    (hhas : client.hasHandle handle) (hhandle : e.handle = some handle) (he : e.hands = true) :
    ∃ s', (machines m).step s e = some s' ∧ clients.RestAt rests s' := by
  have hopened : e.isOpened = false := by
    cases e with
    | opened => cases he
    | clock | resolved | closed | used | waited | sent | received | began
    | retained | adopted | moved => rfl
  obtain ⟨p, hat, hp⟩ := h this client hclient handle hhas
  obtain ⟨p', hnext, hp'⟩ := hm p e hp he
  refine ⟨s.set handle p', ?_, fun id client' hclient' handle' hhas' => ?_⟩
  · show machinesStep m s e = _
    unfold machinesStep
    rw [hopened, hhandle]
    dsimp only
    rw [if_neg Bool.false_ne_true, if_pos hat.opened, hat.state, hnext]
    rfl
  · rcases eq_or_ne handle' handle with rfl | hne
    · exact ⟨p', ⟨hat.opened, s.set_self handle' p'⟩, hp'⟩
    · obtain ⟨q, hq, hrests⟩ := h id client' hclient' handle' hhas'
      exact ⟨q, ⟨hq.opened, (s.set_other hne p').trans hq.state⟩, hrests⟩

theorem triple_closeReusableConnection_rest (hm : m.Resting rests)
    (hclient : clients this = some client) :
    (machines m).Triple (clients.RestAt rests) (client.closeReusableConnection this)
      fun client' s => client' = client.cleared ∧ clients.RestAt rests s := by
  unfold Client.closeReusableConnection
  split
  · next hkeeps =>
    have hhas : client.hasHandle (decodeSocketHandle client.reusableSocketToken) := ⟨hkeeps, rfl⟩
    have hstep : ∀ e : Event, e.handle = some (decodeSocketHandle client.reusableSocketToken) →
        e.hands = true → (machines m).Triple (clients.RestAt rests) (emit e : Proc Unit)
          fun _ => clients.RestAt rests :=
      fun e hhandle he => triple_emit fun s h => restAt_step hm h hclient hhas hhandle he
    refine (hstep (.adopted this _) rfl rfl).bind fun _ => ?_
    refine Triple.bind (Q := fun _ => clients.RestAt rests) ?_ fun _ =>
      triple_pure fun _ h => ⟨rfl, h⟩
    exact (hstep (.closed _) rfl rfl).bind fun _ => triple_pure fun _ h => h
  · exact triple_pure fun _ h => ⟨rfl, h⟩

theorem triple_handOver_rest (hm : m.Resting rests) (hsource : clients other = some source) :
    (machines m).Triple (clients.RestAt rests) (source.handOver other this)
      fun _ => clients.RestAt rests := by
  unfold Client.handOver
  split
  · next hkeeps =>
    exact triple_emit fun s h => restAt_step hm h hsource ⟨hkeeps, rfl⟩ rfl rfl
  · exact triple_pure fun _ h => h

theorem moved_restAt {s : Machines P} (h : clients.RestAt rests s)
    (hsource : clients other = some source) : ∀ id ∈ [this, other], ∀ client,
      Function.update (Function.update clients other (some source.cleared)) this (some source) id =
        some client → client.RestsAt rests s := by
  intro id hid client hclient
  rcases eq_or_ne id this with rfl | hne
  · rw [Function.update_self] at hclient
    cases hclient
    exact h other source hsource
  · rw [Function.update_of_ne hne] at hclient
    obtain rfl : id = other := by simpa [hne] using hid
    rw [Function.update_self] at hclient
    cases hclient
    exact restsAt_cleared source s

/-- One request, on a client that keeps a connection at rest, is accepted and leaves it so. -/
def HandleMachine.AcceptsRequests (m : HandleMachine P) (rests : P → Prop) (platform : Platform) :
    Prop :=
  ∀ (this : ClientId) (client : Client) (request : Request),
    (machines m).Triple (client.RestsAt rests) (client.request platform this request)
      fun r => r.2.RestsAt rests

/-- The clients that an operation is about are at rest behind it. -/
theorem triple_perform_rest (hm : m.Resting rests) (hrequest : m.AcceptsRequests rests platform)
    (operation : ClientOperation) :
    (machines m).Triple (clients.RestAt rests) (perform platform clients operation)
      fun clients' s => ∀ this ∈ operation.involves, ∀ client, clients' this = some client →
        client.RestsAt rests s := by
  have hnone : (machines m).Triple (clients.RestAt rests) (pure clients : Proc Clients)
      fun clients' s => ∀ this ∈ operation.involves, ∀ client, clients' this = some client →
        client.RestsAt rests s :=
    triple_pure fun s h this _ client hclient => h this client hclient
  have hone : ∀ {this : ClientId} {client : Option Client} {s : Machines P},
      (∀ c ∈ client, c.RestsAt rests s) → ∀ id ∈ [this], ∀ c,
        Function.update clients this client id = some c → c.RestsAt rests s := by
    intro this client s h id hid c hc
    rw [List.mem_singleton.mp hid, Function.update_self] at hc
    exact h c hc
  unfold perform
  cases operation with
  | construct this =>
    dsimp only
    split
    · exact hnone
    · refine triple_pure fun s _ => hone ?_
      rintro client ⟨⟩ handle ⟨hhas, -⟩
      cases hhas
  | moveConstruct this other =>
    dsimp only
    split
    · next source hthis hsource =>
      exact (triple_handOver_rest hm hsource).bind fun _ => triple_pure fun s h =>
        moved_restAt h hsource
    · exact hnone
  | moveAssign this other =>
    dsimp only
    split
    · next client source hclient hsource =>
      split
      · exact hnone
      refine (triple_closeReusableConnection_rest hm hclient).bind fun _ => triple_and fun _ => ?_
      exact (triple_handOver_rest hm hsource).bind fun _ => triple_pure fun s h =>
        moved_restAt h hsource
    · exact hnone
  | destroy this =>
    dsimp only
    split
    · next client hclient =>
      refine (triple_closeReusableConnection_rest hm hclient).bind fun _ => triple_pure
        fun s _ => hone ?_
      rintro client' ⟨⟩
    · exact hnone
  | configure this settings =>
    dsimp only
    split
    · next client hclient =>
      refine triple_pure fun s h => hone ?_
      rintro client' ⟨⟩
      exact fun handle hhas => h this client hclient handle hhas
    · exact hnone
  | request this request =>
    dsimp only
    split
    · next client hclient =>
      refine ((hrequest this client request).weaken (fun s h => h this client hclient)
        fun _ _ h => h).bind fun r => triple_pure fun s h => hone ?_
      rintro client' ⟨⟩
      exact h
    · exact hnone

/-! ## Runs -/

/-- Between operations: where the handles are, and that the machines have accepted all that was done
and the connections that are kept are at rest. -/
structure Followed (m : HandleMachine P) (rests : P → Prop) (clients : Clients)
    (log : List Event) : Prop where
  owned : ∃ places, handleLedger.reads [] log = some places ∧
    Holds none (Clients.keeps clients) places
  accepted : ∃ s, (machines m).reads (.new m) log = some s ∧ clients.RestAt rests s

theorem followed_new : Followed m rests (fun _ => none) [] := by
  refine ⟨⟨[], rfl, fun _ _ => by simp, fun _ _ _ _ => by simp [Clients.keeps]⟩, .new m, rfl, ?_⟩
  intro this client hclient
  cases hclient

/-- The clients that an operation is about are at rest, and it has left the others alone. -/
theorem followed_perform (hm : m.Resting rests) (hrequest : m.AcceptsRequests rests platform)
    {w : World Answer Event} (h : Followed m rests clients w.log) (operation : ClientOperation) :
    (∃ s, (machines m).reads (.new m) ((perform platform clients operation).run w).2.log =
        some s) ∧
      ∀ clients', ((perform platform clients operation).run w).1 = some clients' →
        Followed m rests clients' ((perform platform clients operation).run w).2.log := by
  obtain ⟨⟨places, hplaces, hholds⟩, s, hs, hrest⟩ := h
  obtain ⟨events, places', hlog, hreads, howned⟩ :=
    triple_perform platform operation w places (counted_of_reads hplaces) hholds
  obtain ⟨events', s', hlog', hreads', haccepted⟩ :=
    triple_perform_rest hm hrequest operation w s (machines_fits hs) hrest
  have hevents : events' = events := List.append_cancel_left (hlog'.symm.trans hlog)
  subst hevents
  have hall : (machines m).reads (.new m) (w.log ++ events') = some s' := by
    rw [reads_append, hs]
    exact hreads'
  rw [hlog]
  refine ⟨⟨s', hall⟩, fun clients' hclients' => ⟨⟨places', ?_, howned clients' hclients'⟩, s', hall,
    fun this client hclient => ?_⟩⟩
  · rw [reads_append, hplaces]
    exact hreads
  by_cases hthis : this ∈ operation.involves
  · exact haccepted clients' hclients' this hthis client hclient
  have hspares : (perform platform clients operation).Writes (Event.Spares this) fun clients' =>
    clients' this = clients this := writes_perform hthis
  obtain ⟨events'', u, hlog'', hobserved, hsame⟩ := hspares w () trivial trivial
  have hevents : events'' = events' := List.append_cancel_left (hlog''.symm.trans hlog)
  subst hevents
  rw [hsame clients' hclients'] at hclient
  intro handle hhas
  obtain ⟨p, hat, hp⟩ := hrest this client hclient handle hhas
  have hkept := (hholds.kept this handle client.reusableHost client.reusablePort).mp
    (Clients.keeps_eq_some.mpr ⟨client, hclient, hhas, rfl, rfl⟩)
  have huntouched := spared_reads hreads hkept (kind_of_observed hobserved)
  have hfits := machines_fits hs
  have hfits' := machines_fits hall
  refine ⟨p, ⟨?_, ?_⟩, hp⟩
  · rw [← hfits'.opened, List.countP_append, hfits.opened]
    exact hat.opened.trans_le (Nat.le_add_right _ _)
  · have hstate := hfits'.state handle
    rw [follow_untouched w.log huntouched, hfits.state handle, hat.state] at hstate
    exact (Option.some.inj hstate).symm

theorem followed_performAll (hm : m.Resting rests) (hrequest : m.AcceptsRequests rests platform)
    {w : World Answer Event} (h : Followed m rests clients w.log)
    (operations : List ClientOperation) :
    (∃ s, (machines m).reads (.new m) ((performAll platform clients operations).run w).2.log =
        some s) ∧
      ∀ clients', ((performAll platform clients operations).run w).1 = some clients' →
        Followed m rests clients' ((performAll platform clients operations).run w).2.log := by
  induction operations generalizing clients w with
  | nil =>
    obtain ⟨s, hs, -⟩ := h.accepted
    refine ⟨⟨s, hs⟩, fun clients' hclients' => ?_⟩
    cases hclients'
    exact h
  | cons operation operations ih =>
    obtain ⟨hone, hnext⟩ := followed_perform hm hrequest h operation
    unfold performAll
    rcases hrun : (perform platform clients operation).run w with ⟨_ | clients₁, w₁⟩
    · rw [run_bind_none hrun]
      rw [hrun] at hone
      exact ⟨hone, nofun⟩
    · rw [run_bind_some hrun]
      rw [hrun] at hnext
      exact ih (hnext clients₁ rfl)

/-- In every run of operations on clients the machines accept what is done at every moment, and the
connections that clients keep are at rest between operations. -/
theorem machines_accept (hm : m.Resting rests) (hrequest : m.AcceptsRequests rests platform)
    (operations : List ClientOperation) (answers : List Answer) :
    let r := (performAll platform (fun _ => none) operations).run ⟨answers, []⟩
    (∀ past handle, past <+: r.2.log → ∃ p, m.follow handle past = some p) ∧
      ∀ clients, r.1 = some clients → ∀ this client handle, clients this = some client →
        client.hasHandle handle → ∃ p, m.follow handle r.2.log = some p ∧ rests p := by
  intro r
  obtain ⟨⟨s, hs⟩, hclients⟩ :=
    followed_performAll hm hrequest (w := ⟨answers, []⟩) followed_new operations
  refine ⟨fun past handle hpast => ?_, fun clients hr this client handle hclient hhas => ?_⟩
  · obtain ⟨s', hreads⟩ := reads_past _ hs hpast
    exact ⟨_, (machines_fits hreads).state handle⟩
  · obtain ⟨-, s', hs', hrest⟩ := hclients clients hr
    obtain ⟨p, hat, hp⟩ := hrest this client hclient handle hhas
    have hstate := (machines_fits hs').state handle
    rw [hat.state] at hstate
    exact ⟨p, hstate, hp⟩

end

end CppRequest
