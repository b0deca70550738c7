import CppRequest.OwnedClients

/-!
# Handles are owned linearly

What the ledger accepts is read off the log itself: a handle is opened once, it is in one place at
every moment, nothing is done with it before it has been opened or after it has been closed, and it
is closed once. Between operations on clients the handles that are open are those that clients keep,
one at most for every client, and where no client is left none is open.
-/

namespace CppRequest

/-- Opened and not closed. -/
def IsOpen (log : List Event) (handle : Handle) : Prop :=
  log.countP (Event.opens handle) = 1 ∧ log.countP (Event.closes handle) = 0

/-- Where the handles are that have been opened. -/
structure Located (log : List Event) (places : Places) : Prop where
  accepted : handleLedger.reads [] log = some places
  placed : ∀ handle : Handle,
    log.countP (Event.opens handle) = 1 ↔ ∃ p : Place, places[handle]? = some p
  closed : ∀ (handle : Handle) (p : Place), places[handle]? = some p →
    (p.isClosed = true ↔ log.countP (Event.closes handle) = 1)
  alone : Places.Alone places

structure OwnedLinearly (log : List Event) : Prop where
  located : ∀ past, past <+: log → ∃ places, Located past places
  opened_once : ∀ handle, log.countP (Event.opens handle) ≤ 1
  closed_once : ∀ handle, log.countP (Event.closes handle) ≤ 1
  open_at : ∀ past e rest handle, log = past ++ e :: rest → e.handle = some handle →
    e.isOpened = false → IsOpen past handle

/-- The client has the handle. -/
def Client.hasHandle (client : Client) (handle : Handle) : Prop :=
  client.hasReusableConnection = true ∧ decodeSocketHandle client.reusableSocketToken = handle

/-- What is open when no call is active. -/
structure Settled (log : List Event) (clients : Clients) : Prop where
  kept : ∀ handle, IsOpen log handle →
    ∃! this, ∃ client, clients this = some client ∧ client.hasHandle handle
  isOpen : ∀ this client handle, clients this = some client → client.hasHandle handle →
    IsOpen log handle
  single : ∀ this client, clients this = some client →
    ∀ handle handle', client.hasHandle handle → client.hasHandle handle' → handle = handle'
  destroyed : (∀ this, clients this = none) →
    ∀ handle, log.countP (Event.opens handle) = log.countP (Event.closes handle)

/-! ## Accepted logs -/

theorem counted_nil : Counted [] [] :=
  ⟨rfl, fun _ => rfl, fun _ => rfl, fun _ _ _ _ h => by cases h⟩

theorem counted_of_reads {log : List Event} {places : Places}
    (h : handleLedger.reads [] log = some places) : Counted log places :=
  handleLedger.fits_reads counted_nil h

namespace Counted

variable {log : List Event} {places : Places} (h : Counted log places)
include h

theorem opens_eq_one (handle : Handle) :
    log.countP (Event.opens handle) = 1 ↔ ∃ p : Place, places[handle]? = some p := by
  rw [h.opened]
  by_cases hlt : handle < places.length
  · rw [if_pos hlt]
    exact iff_of_true rfl ⟨_, List.getElem?_eq_getElem hlt⟩
  · rw [if_neg hlt]
    refine iff_of_false (by decide) ?_
    rintro ⟨p, hp⟩
    exact hlt (List.getElem?_eq_some_iff.mp hp).1

theorem closes_eq {handle : Handle} {p : Place} (hp : places[handle]? = some p) :
    log.countP (Event.closes handle) = if p.isClosed then 1 else 0 := by
  rw [h.closed, hp]
  rfl

theorem isOpen_iff (handle : Handle) :
    IsOpen log handle ↔ ∃ p : Place, places[handle]? = some p ∧ p.isClosed = false := by
  unfold IsOpen
  rw [h.opens_eq_one]
  constructor
  · rintro ⟨⟨p, hp⟩, hcount⟩
    rw [h.closes_eq hp] at hcount
    refine ⟨p, hp, ?_⟩
    by_contra hclosed
    rw [if_pos (by simpa using hclosed)] at hcount
    cases hcount
  · rintro ⟨p, hp, hclosed⟩
    refine ⟨⟨p, hp⟩, ?_⟩
    rw [h.closes_eq hp, hclosed]
    rfl

theorem located (haccepted : handleLedger.reads [] log = some places) : Located log places where
  accepted := haccepted
  placed := h.opens_eq_one
  closed handle p hp := by
    rw [h.closes_eq hp]
    cases p.isClosed <;> simp
  alone := h.alone

end Counted

theorem ownedLinearly_of_reads {log : List Event} {places : Places}
    (h : handleLedger.reads [] log = some places) : OwnedLinearly log := by
  have hcounted := counted_of_reads h
  refine ⟨fun past hpast => ?_, fun handle => ?_, fun handle => ?_,
    fun past e rest handle hlog hhandle hopened => ?_⟩
  · obtain ⟨places', hreads⟩ := handleLedger.reads_past h hpast
    exact ⟨places', (counted_of_reads hreads).located hreads⟩
  · rw [hcounted.opened]
    split_ifs <;> decide
  · rw [hcounted.closed]
    split_ifs <;> decide
  · obtain ⟨places', places'', hreads, hstep⟩ := handleLedger.reads_upto h hlog
    apply ((counted_of_reads hreads).isOpen_iff handle).mpr
    rcases ledgerStep_cases hstep with ⟨hnone, -⟩ | ⟨rfl, -⟩ | ⟨handle', p, p', hhandle', -, hp,
      hnext, -⟩
    · rw [hnone] at hhandle
      cases hhandle
    · cases hopened
    · rw [hhandle] at hhandle'
      cases hhandle'
      exact ⟨p, hp, (Place.step_of_next hnext).open⟩

/-! ## Clients -/

theorem Clients.keeps_eq_some {clients : Clients} {this : ClientId} {handle : Handle} {host : Bytes}
    {port : ℕ} : Clients.keeps clients this = some (handle, host, port) ↔
      ∃ client, clients this = some client ∧ client.hasHandle handle ∧
        client.reusableHost = host ∧ client.reusablePort = port := by
  unfold Clients.keeps
  rw [Option.bind_eq_some_iff]
  refine exists_congr fun client => and_congr_right fun _ => ?_
  unfold Client.keeps Client.hasHandle
  split_ifs with hhas
  · simp [hhas]
  · simp [hhas]

theorem settled_of_holds {log : List Event} {places : Places} {clients : Clients}
    (hcounted : Counted log places) (h : Holds none (Clients.keeps clients) places) :
    Settled log clients := by
  have hkept : ∀ (handle : Handle) (p : Place), places[handle]? = some p → p.isClosed = false →
      ∃ this host port, p = .kept this host port := by
    intro handle p hp hclosed
    cases p with
    | idle | busy => cases (h.socket handle _).mpr ⟨rfl, hp⟩
    | kept this host port => exact ⟨this, host, port, rfl⟩
    | closed => cases hclosed
  have hhandle : ∀ this client handle, clients this = some client → client.hasHandle handle →
      places[handle]? = some (.kept this client.reusableHost client.reusablePort) :=
    fun this client handle hclient hhas =>
      (h.kept _ _ _ _).mp (Clients.keeps_eq_some.mpr ⟨client, hclient, hhas, rfl, rfl⟩)
  refine ⟨fun handle hopen => ?_, fun this client handle hclient hhas => ?_,
    fun _ _ _ handle handle' hhas hhas' => hhas.2.symm.trans hhas'.2, fun hnone handle => ?_⟩
  · obtain ⟨p, hp, hclosed⟩ := (hcounted.isOpen_iff handle).mp hopen
    obtain ⟨this, host, port, rfl⟩ := hkept handle p hp hclosed
    obtain ⟨client, hclient, hhas, -⟩ := Clients.keeps_eq_some.mp ((h.kept _ _ _ _).mpr hp)
    refine ⟨this, ⟨client, hclient, hhas⟩, ?_⟩
    rintro this' ⟨client', hclient', hhas'⟩
    cases hp.symm.trans (hhandle this' client' handle hclient' hhas')
    rfl
  · exact (hcounted.isOpen_iff handle).mpr ⟨_, hhandle this client handle hclient hhas, rfl⟩
  · by_cases hlt : handle < places.length
    · have hp := List.getElem?_eq_getElem hlt
      rw [(hcounted.opens_eq_one handle).mpr ⟨_, hp⟩, hcounted.closes_eq hp]
      cases hclosed : places[handle].isClosed with
      | true => rfl
      | false =>
        obtain ⟨this, host, port, hplace⟩ := hkept handle _ hp hclosed
        rw [hplace] at hp
        obtain ⟨client, hclient, -⟩ := Clients.keeps_eq_some.mp ((h.kept _ _ _ _).mpr hp)
        rw [hnone] at hclient
        cases hclient
    · rw [hcounted.opened, hcounted.closed, if_neg hlt, List.getElem?_eq_none (not_lt.mp hlt)]
      rfl

/-- In every run of operations on clients, whatever the system answers and however far the run has
come. -/
theorem handles_owned_linearly (platform : Platform) (operations : List ClientOperation)
    (answers : List Answer) :
    OwnedLinearly ((performAll platform (fun _ => none) operations).run ⟨answers, []⟩).2.log ∧
      ∀ clients,
        ((performAll platform (fun _ => none) operations).run ⟨answers, []⟩).1 = some clients →
        Settled ((performAll platform (fun _ => none) operations).run ⟨answers, []⟩).2.log
          clients := by
  have hinitial : Holds none (Clients.keeps fun _ => none) [] :=
    ⟨fun _ _ => by simp, fun _ _ _ _ => by simp [Clients.keeps]⟩
  obtain ⟨events, places, hlog, hreads, hresult⟩ :=
    triple_performAll platform operations ⟨answers, []⟩ [] counted_nil hinitial
  rw [List.nil_append] at hlog
  rw [hlog]
  exact ⟨ownedLinearly_of_reads hreads, fun clients hclients =>
    settled_of_holds (counted_of_reads hreads) (hresult clients hclients)⟩

end CppRequest
