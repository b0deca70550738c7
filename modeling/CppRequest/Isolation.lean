import CppRequest.HandleOwnership
import CppRequest.SocketEvents

/-!
# Clients do not disturb each other

What is done with some clients leaves the others alone: they stay as they are, and nothing happens
to the connections that they keep.
-/

namespace CppRequest

open Procedure Monitor

/-! ## Events that leave a client alone -/

/-- The connection of this client stays where it is. -/
def Event.Spares (other : ClientId) : Event → Prop
  | .adopted this _ | .moved this _ _ => this ≠ other
  | _ => True

theorem callOf_spares {this other : ClientId} (h : this ≠ other) :
    CallOf this (Event.Spares other) where
  clock _ := trivial
  opened _ := trivial
  closed _ := trivial
  used _ _ := trivial
  writable _ _ _ := trivial
  resolved _ _ _ := trivial
  retained _ _ _ := trivial
  adopted _ := h
  readable _ _ _ := trivial
  sent _ _ := trivial
  received _ _ := trivial
  began _ _ _ _ := trivial

/-- Only the client that keeps a handle can do something with it. -/
theorem spared_step {places places' : Places} {e : Event} {other : ClientId} {handle : Handle}
    {host : Bytes} {port : ℕ} (h : ledgerStep places e = some places')
    (hkept : places[handle]? = some (.kept other host port)) (hspares : e.Spares other) :
    e.handle ≠ some handle ∧ places'[handle]? = some (.kept other host port) := by
  obtain ⟨hnone, rfl⟩ | ⟨rfl, -, rfl⟩ | ⟨handle', p, p', hhandle, -, hp, hnext, -, rfl⟩ :=
    ledgerStep_cases h
  · rw [hnone]
    exact ⟨nofun, hkept⟩
  · have hlt := (List.getElem?_eq_some_iff.mp hkept).1
    rw [List.getElem?_append_left hlt]
    refine ⟨fun heq => ?_, hkept⟩
    cases heq
    exact lt_irrefl _ hlt
  · have hne : handle' ≠ handle := by
      rintro rfl
      cases hp.symm.trans hkept
      cases Place.step_of_next hnext with
      | closed howned | used howned | waited howned => cases howned
      | adopted | moved => exact hspares rfl
    rw [List.getElem?_set_ne hne, hhandle]
    exact ⟨fun heq => hne (Option.some.inj heq), hkept⟩

theorem spared_reads {places places' : Places} {events : List Event} {other : ClientId}
    {handle : Handle} {host : Bytes} {port : ℕ} (h : handleLedger.reads places events = some places')
    (hkept : places[handle]? = some (.kept other host port))
    (hspares : ∀ e ∈ events, e.Spares other) : ∀ e ∈ events, e.handle ≠ some handle := by
  induction events generalizing places with
  | nil => exact fun e he => absurd he List.not_mem_nil
  | cons e events ih =>
    unfold reads at h
    rw [List.foldlM_cons] at h
    obtain ⟨places₁, hstep, hrest⟩ := Option.bind_eq_some_iff.mp h
    obtain ⟨hother, hkept₁⟩ := spared_step hstep hkept (hspares e List.mem_cons_self)
    have hlater := ih hrest hkept₁ fun e' he' => hspares e' (List.mem_cons_of_mem _ he')
    intro e' he'
    obtain rfl | he' := List.mem_cons.mp he'
    · exact hother
    · exact hlater e' he'

/-! ## Operations -/

/-- The clients that an operation is about. -/
def ClientOperation.involves : ClientOperation → List ClientId
  | .construct this | .destroy this | .configure this _ | .request this _ => [this]
  | .moveConstruct this other | .moveAssign this other => [this, other]

section

variable {platform : Platform} {other : ClientId}

theorem writes_handOver {source : Client} {this from' : ClientId} (h : from' ≠ other) :
    (source.handOver from' this).Writes (Event.Spares other) fun _ => True := by
  unfold Client.handOver
  split
  · exact writes_emit h
  · exact writes_pure trivial

theorem writes_perform {clients : Clients} {operation : ClientOperation}
    (h : other ∉ operation.involves) :
    (perform platform clients operation).Writes (Event.Spares other) fun clients' =>
      clients' other = clients other := by
  have hsame : (pure clients : Proc Clients).Writes (Event.Spares other) fun clients' =>
      clients' other = clients other := writes_pure rfl
  unfold perform
  cases operation with
  | construct this =>
    have hne : other ≠ this := fun heq => h (List.mem_singleton.mpr heq)
    dsimp only
    split
    · exact hsame
    · exact writes_pure (Function.update_of_ne hne _ _)
  | moveConstruct this source =>
    obtain ⟨hne, hne'⟩ : other ≠ this ∧ other ≠ source := by
      simpa [ClientOperation.involves] using h
    dsimp only
    split
    · refine (writes_handOver (Ne.symm hne')).bind fun _ _ => writes_pure ?_
      rw [Function.update_of_ne hne, Function.update_of_ne hne']
    · exact hsame
  | moveAssign this source =>
    obtain ⟨hne, hne'⟩ : other ≠ this ∧ other ≠ source := by
      simpa [ClientOperation.involves] using h
    dsimp only
    split
    · split
      · exact hsame
      refine (writes_closeReusableConnection_for
        (callOf_spares (Ne.symm hne)).toOrdinaryFor _).bind fun _ _ => ?_
      refine (writes_handOver (Ne.symm hne')).bind fun _ _ => writes_pure ?_
      rw [Function.update_of_ne hne, Function.update_of_ne hne']
    · exact hsame
  | destroy this =>
    have hne : other ≠ this := fun heq => h (List.mem_singleton.mpr heq)
    dsimp only
    split
    · refine (writes_closeReusableConnection_for
        (callOf_spares (Ne.symm hne)).toOrdinaryFor _).bind fun _ _ => ?_
      exact writes_pure (Function.update_of_ne hne _ _)
    · exact hsame
  | configure this settings =>
    have hne : other ≠ this := fun heq => h (List.mem_singleton.mpr heq)
    dsimp only
    split
    · exact writes_pure (Function.update_of_ne hne _ _)
    · exact hsame
  | request this request =>
    have hne : other ≠ this := fun heq => h (List.mem_singleton.mpr heq)
    dsimp only
    split
    · refine (writes_request (callOf_spares (Ne.symm hne)) _ platform request).bind fun _ _ => ?_
      exact writes_pure (Function.update_of_ne hne _ _)
    · exact hsame

theorem writes_performAll {clients : Clients} {operations : List ClientOperation}
    (h : ∀ operation ∈ operations, other ∉ operation.involves) :
    (performAll platform clients operations).Writes (Event.Spares other) fun clients' =>
      clients' other = clients other := by
  induction operations generalizing clients with
  | nil => exact writes_pure rfl
  | cons operation operations ih =>
    refine (writes_perform (h operation List.mem_cons_self)).bind fun clients₁ hsame => ?_
    refine (ih fun op hop => h op (List.mem_cons_of_mem _ hop)).weaken fun clients' hsame' => ?_
    exact hsame'.trans hsame

end

/-! ## Isolation -/

/-- In every run of operations: whatever is done next with other clients, whatever the system
answers and however far it comes, a client stays as it is and nothing happens to its connection. -/
theorem client_isolated (platform : Platform) {before operations : List ClientOperation}
    {answers : List Answer} {clients : Clients} {w : World Answer Event} {other : ClientId}
    {client : Client}
    (hbefore : (performAll platform (fun _ => none) before).run ⟨answers, []⟩ = (some clients, w))
    (hclient : clients other = some client)
    (hothers : ∀ operation ∈ operations, other ∉ operation.involves) :
    let r := (performAll platform clients operations).run w
    ∃ events, r.2.log = w.log ++ events ∧
      (∀ handle, client.hasHandle handle → ∀ e ∈ events, e.handle ≠ some handle) ∧
      ∀ clients', r.1 = some clients' → clients' other = some client := by
  have hinitial : Holds none (Clients.keeps fun _ => none) [] :=
    ⟨fun _ _ => by simp, fun _ _ _ _ => by simp [Clients.keeps]⟩
  obtain ⟨past, places, hlog, hpast, hresult⟩ :=
    triple_performAll platform before ⟨answers, []⟩ [] counted_nil hinitial
  rw [hbefore, List.nil_append] at hlog
  rw [hbefore] at hresult
  have hcounted : handleLedger.fits w.log places := by
    rw [show w.log = past from hlog]
    exact counted_of_reads hpast
  have hholds := hresult clients rfl
  obtain ⟨events, places', hlog', hreads, -⟩ :=
    triple_performAll platform operations w places hcounted hholds
  obtain ⟨events', u, hlog'', hobserved, hsame⟩ :=
    writes_performAll hothers w () trivial trivial
  have hevents : events' = events := List.append_cancel_left (hlog''.symm.trans hlog')
  subst hevents
  refine ⟨events', hlog', fun handle hhas => ?_, fun clients' hclients' => ?_⟩
  · have hkept := (hholds.kept other handle client.reusableHost client.reusablePort).mp
      (Clients.keeps_eq_some.mpr ⟨client, hclient, hhas, rfl, rfl⟩)
    exact spared_reads hreads hkept (kind_of_observed hobserved)
  · rw [hsame clients' hclients', hclient]

/-- What the system answers where every call succeeds at once and this response comes over a new
connection. -/
def promptAnswers (response : Bytes) : List Answer :=
  let zero : Answer := {}
  let address : AddrInfo := ⟨some (List.replicate 16 0), AF_INET, SOCK_STREAM, IPPROTO_TCP⟩
  { addresses := [address] } :: List.replicate 15 zero ++ { result := 1000 } ::
    List.replicate 6 zero ++ { data := response } :: List.replicate 2 zero

def plainRequest : Request := { method := .get, url := bytes "http://h/" }

/-- The first of two clients keeps a connection while the second one makes a request. -/
theorem client_isolated_second :
    ∃ clients w client, (performAll { inetPton6 := fun _ => false } (fun _ => none)
        [.construct 0, .construct 1, .request 0 plainRequest]).run
          ⟨promptAnswers (bytes "HTTP/1.1 204 No Content\r\n\r\n"), []⟩ = (some clients, w) ∧
      clients 0 = some client ∧ client.hasHandle 0 ∧
      let r := (performAll { inetPton6 := fun _ => false } clients
        [.request 1 plainRequest, .destroy 1]).run w
      ∃ events, r.2.log = w.log ++ events ∧
        (∀ handle, client.hasHandle handle → ∀ e ∈ events, e.handle ≠ some handle) ∧
        ∀ clients', r.1 = some clients' → clients' 0 = some client := by
  have hsome : (((performAll { inetPton6 := fun _ => false } (fun _ => none)
      [.construct 0, .construct 1, .request 0 plainRequest]).run
        ⟨promptAnswers (bytes "HTTP/1.1 204 No Content\r\n\r\n"), []⟩).1.bind
          fun clients => (clients 0).map fun client =>
            (client.hasReusableConnection, client.reusableSocketToken)) = some (true, 0) := by
    decide +kernel
  generalize hrun : (performAll { inetPton6 := fun _ => false } (fun _ => none)
    [.construct 0, .construct 1, .request 0 plainRequest]).run
      ⟨promptAnswers (bytes "HTTP/1.1 204 No Content\r\n\r\n"), []⟩ = r at hsome
  obtain ⟨result, w⟩ := r
  obtain ⟨clients, rfl, hclients⟩ := Option.bind_eq_some_iff.mp hsome
  obtain ⟨client, hclient, htoken⟩ := Option.map_eq_some_iff.mp hclients
  refine ⟨clients, w, client, rfl, hclient, ?_, ?_⟩
  · exact ⟨congrArg Prod.fst htoken, congrArg Prod.snd htoken⟩
  · exact client_isolated _ hrun hclient (by decide)

end CppRequest
