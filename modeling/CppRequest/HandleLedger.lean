import CppRequest.TcpConnection

/-!
# The ledger of handles

A monitor that knows where every handle is: in a socket, with a client, or closed. It objects to
what is done with a handle in the wrong place, and to a connection that is kept, or used again,
where the next response could begin with something else.
-/

namespace CppRequest

/-! ## Places -/

/-- A handle in a socket is idle or carries an exchange. An origin is a host and a port. -/
inductive Place
  | idle (origin : Option (Bytes × ℕ))
  | busy (host : Bytes) (port : ℕ) (parser : ResponseParser)
  | kept (this : ClientId) (host : Bytes) (port : ℕ)
  | closed

namespace Place

/-- A socket has it. -/
def owned : Place → Bool
  | .idle _ | .busy .. => true
  | .kept .. | .closed => false

/-- Before the first exchange every origin will do. -/
def suits (origin : Option (Bytes × ℕ)) (host : Bytes) (port : ℕ) : Bool :=
  match origin with
  | none => true
  | some (host', port') => port' == port && asciiIequals host' host

/-- A parser is fed what has been received. -/
def hear (parser : ResponseParser) : Except ℤ Bytes → ResponseParser
  | .ok data => if data.isEmpty then parser else (parser.feed data).2
  | .error _ => parser

/-- Nothing is left over that could be taken for the next response. -/
def finished (parser : ResponseParser) : Bool :=
  parser.isComplete && parser.connectionReusable && parser.pendingBytes.isEmpty

/-- Where an event on its handle leaves it. -/
def next (p : Place) : Event → Option Place
  | .clock _ | .resolved .. | .opened _ => none
  | .closed _ => if p.owned then some .closed else none
  | .used .. | .waited .. => if p.owned then some p else none
  | .sent .. =>
    match p with
    | .busy .. => some p
    | _ => none
  | .received _ outcome =>
    match p with
    | .busy host port parser => some (.busy host port (hear parser outcome))
    | _ => none
  | .began _ host port parser =>
    match p with
    | .idle origin => if suits origin host port then some (.busy host port parser) else none
    | _ => none
  | .retained this _ host port =>
    match p with
    | .busy host' port' parser =>
      if host' = host ∧ port' = port ∧ finished parser then some (.kept this host port) else none
    | _ => none
  | .adopted this _ =>
    match p with
    | .kept this' host port => if this' = this then some (.idle (some (host, port))) else none
    | _ => none
  | .moved other this _ =>
    match p with
    | .kept this' host port => if this' = other then some (.kept this host port) else none
    | _ => none

end Place

def Event.handle : Event → Option Handle
  | .clock _ | .resolved .. => none
  | .opened handle | .closed handle | .used handle _ | .waited handle .. | .sent handle _
  | .received handle _ | .began handle .. | .retained _ handle .. | .adopted _ handle
  | .moved _ _ handle => some handle

def Event.opens (handle : Handle) : Event → Bool
  | .opened handle' => handle' == handle
  | _ => false

def Event.closes (handle : Handle) : Event → Bool
  | .closed handle' => handle' == handle
  | _ => false

/-! ## The monitor -/

/-- The places of the handles that have been opened. -/
abbrev Places := List Place

/-- No socket has a handle. -/
def Places.free (places : Places) : Bool := places.all fun p => !p.owned

/-- One handle at a time is in a socket. -/
def ledgerStep (places : Places) : Event → Option Places
  | .clock _ | .resolved .. => some places
  | .opened handle =>
    if handle = places.length ∧ Places.free places then some (places ++ [.idle none]) else none
  | e => do
    let handle ← e.handle
    let p ← places[handle]?
    let p' ← p.next e
    if p.owned || !p'.owned || Places.free places then some (places.set handle p') else none

/-- The ways in which the ledger goes on. -/
theorem ledgerStep_cases {places places' : Places} {e : Event}
    (h : ledgerStep places e = some places') :
    (e.handle = none ∧ places' = places) ∨
    (e = .opened places.length ∧ Places.free places = true ∧ places' = places ++ [.idle none]) ∨
    ∃ handle p p', e.handle = some handle ∧ e.isOpened = false ∧ places[handle]? = some p ∧
      p.next e = some p' ∧ (p.owned = true ∨ p'.owned = false ∨ Places.free places = true) ∧
      places' = places.set handle p' := by
  have hother : e.isOpened = false → (do
      let handle ← e.handle
      let p ← places[handle]?
      let p' ← p.next e
      if p.owned || !p'.owned || Places.free places then some (places.set handle p') else none) =
        some places' →
      ∃ handle p p', e.handle = some handle ∧ e.isOpened = false ∧ places[handle]? = some p ∧
        p.next e = some p' ∧ (p.owned = true ∨ p'.owned = false ∨ Places.free places = true) ∧
        places' = places.set handle p' := by
    intro hopened hsteps
    simp only [Option.bind_eq_bind, Option.bind_eq_some_iff] at hsteps
    rcases hsteps with ⟨handle, hhandle, p, hp, p', hp', heq⟩
    split_ifs at heq with hsocket
    simp only [Bool.or_eq_true, Bool.not_eq_true', or_assoc] at hsocket
    exact ⟨handle, p, p', hhandle, hopened, hp, hp', hsocket, (Option.some.inj heq).symm⟩
  cases e with
  | clock | resolved =>
    cases h
    exact .inl ⟨rfl, rfl⟩
  | opened handle =>
    simp only [ledgerStep] at h
    split_ifs at h with hfresh
    cases h
    exact .inr (.inl ⟨by rw [hfresh.1], hfresh.2, rfl⟩)
  | closed | used | waited | sent | received | began | retained | adopted | moved =>
    exact .inr (.inr (hother rfl h))

theorem ledgerStep_handle {places : Places} {e : Event} {handle : Handle} {p p' : Place}
    (hhandle : e.handle = some handle) (hopened : e.isOpened = false)
    (hp : places[handle]? = some p) (hnext : p.next e = some p')
    (hsocket : p.owned = true ∨ p'.owned = false ∨ Places.free places = true) :
    ledgerStep places e = some (places.set handle p') := by
  have htakes : p.owned = false → p'.owned = true → Places.free places = true := by
    intro hp' hp''
    simpa [hp', hp''] using hsocket
  cases e with
  | clock | resolved => cases hhandle
  | opened => cases hopened
  | closed | used | waited | sent | received | began | retained | adopted | moved =>
    cases hhandle
    simpa [ledgerStep, Event.handle, hp, hnext] using htakes

namespace Place

/-- The rules of `next`. -/
inductive Step : Place → Event → Place → Prop
  | closed {p : Place} {handle : Handle} (h : p.owned = true) : Step p (.closed handle) .closed
  | used {p : Place} {handle : Handle} {call : SocketCall} (h : p.owned = true) :
      Step p (.used handle call) p
  | waited {p : Place} {handle : Handle} {writable : Bool} {milliseconds : ℤ}
      {result : SocketWaitResult} (h : p.owned = true) :
      Step p (.waited handle writable milliseconds result) p
  | sent {host : Bytes} {port : ℕ} {parser : ResponseParser} {handle : Handle}
      {outcome : Except ℤ Bytes} :
      Step (.busy host port parser) (.sent handle outcome) (.busy host port parser)
  | received {host : Bytes} {port : ℕ} {parser : ResponseParser} {handle : Handle}
      {outcome : Except ℤ Bytes} :
      Step (.busy host port parser) (.received handle outcome)
        (.busy host port (hear parser outcome))
  | began {origin : Option (Bytes × ℕ)} {host : Bytes} {port : ℕ} {parser : ResponseParser}
      {handle : Handle} (h : suits origin host port = true) :
      Step (.idle origin) (.began handle host port parser) (.busy host port parser)
  | retained {host : Bytes} {port : ℕ} {parser : ResponseParser} {this : ClientId}
      {handle : Handle} (h : finished parser = true) :
      Step (.busy host port parser) (.retained this handle host port) (.kept this host port)
  | adopted {this : ClientId} {host : Bytes} {port : ℕ} {handle : Handle} :
      Step (.kept this host port) (.adopted this handle) (.idle (some (host, port)))
  | moved {other this : ClientId} {host : Bytes} {port : ℕ} {handle : Handle} :
      Step (.kept other host port) (.moved other this handle) (.kept this host port)

theorem next_of_step {p p' : Place} {e : Event} (h : Step p e p') : p.next e = some p' := by
  cases h with
  | closed howned | used howned | waited howned => simp [next, howned]
  | sent | received => rfl
  | began hsuits => simp [next, hsuits]
  | retained hfinished => simp [next, hfinished]
  | adopted | moved => simp [next]

theorem step_of_next {p p' : Place} {e : Event} (h : p.next e = some p') : Step p e p' := by
  unfold next at h
  split at h
  · cases h
  · cases h
  · cases h
  · split_ifs at h with howned
    cases h
    exact .closed howned
  · split_ifs at h with howned
    cases h
    exact .used howned
  · split_ifs at h with howned
    cases h
    exact .waited howned
  · split at h
    · cases h
      exact .sent
    · cases h
  · split at h
    · cases h
      exact .received
    · cases h
  · split at h
    · split_ifs at h with hsuits
      cases h
      exact .began hsuits
    · cases h
  · split at h
    · split_ifs at h with hkeeps
      rcases hkeeps with ⟨rfl, rfl, hfinished⟩
      cases h
      exact .retained hfinished
    · cases h
  · split at h
    · split_ifs at h with hthis
      cases h
      cases hthis
      exact .adopted
    · cases h
  · split at h
    · split_ifs at h with hother
      cases h
      cases hother
      exact .moved
    · cases h

def isClosed : Place → Bool
  | .closed => true
  | _ => false

theorem isClosed_of_owned {p : Place} (h : p.owned = true) : p.isClosed = false := by
  cases p with
  | idle | busy => rfl
  | kept | closed => cases h

/-- Nothing happens to a closed handle. -/
theorem Step.open {p p' : Place} {e : Event} (h : Step p e p') : p.isClosed = false := by
  cases h with
  | closed howned | used howned | waited howned => exact isClosed_of_owned howned
  | sent | received | began | retained | adopted | moved => rfl

/-- Only closing closes. -/
theorem Step.closes {p p' : Place} {e : Event} {handle : Handle} (h : Step p e p')
    (hhandle : e.handle = some handle) : e.closes handle = p'.isClosed := by
  cases h with
  | closed =>
    cases hhandle
    simp [Event.closes, isClosed]
  | used howned | waited howned => exact (isClosed_of_owned howned).symm
  | sent | received | began | retained | adopted | moved => rfl

end Place

/-! ## Logs that are accepted -/

/-- At most one handle is in a socket. -/
def Places.Alone (places : Places) : Prop :=
  ∀ (handle handle' : Handle) (p p' : Place), places[handle]? = some p →
    places[handle']? = some p' → p.owned = true → p'.owned = true → handle = handle'

theorem not_owned_of_free {places : Places} (h : Places.free places = true) {handle : Handle}
    {p : Place} (hp : places[handle]? = some p) : p.owned = false := by
  simpa using List.all_eq_true.mp h p (List.mem_of_getElem? hp)

/-- The handle that has been taken is the only one. -/
theorem alone_of_others {places : Places} (handle : Handle)
    (h : ∀ (other : Handle) (p : Place), other ≠ handle → places[other]? = some p → p.owned = false) :
    Places.Alone places := by
  have hthis : ∀ (other : Handle) (p : Place), places[other]? = some p → p.owned = true → other = handle := by
    intro other p hp howned
    by_contra hne
    rw [h other p hne hp] at howned
    cases howned
  intro other other' p p' hp hp' howned howned'
  rw [hthis other p hp howned, hthis other' p' hp' howned']

theorem alone_step {places places' : Places} {e : Event} (h : Places.Alone places)
    (hstep : ledgerStep places e = some places') : Places.Alone places' := by
  rcases ledgerStep_cases hstep with ⟨-, rfl⟩ | ⟨rfl, hfree, rfl⟩ | ⟨handle, p, p', -, -, hp, -,
    hsocket, rfl⟩
  · exact h
  · refine alone_of_others places.length fun other q hne hq => ?_
    rw [List.getElem?_append] at hq
    split_ifs at hq with hlt
    · exact not_owned_of_free hfree hq
    · have hlast : other - places.length = 0 := by
        have hbound := (List.getElem?_eq_some_iff.mp hq).1
        rwa [List.length_singleton, Nat.lt_one_iff] at hbound
      exact absurd (Nat.le_antisymm (Nat.sub_eq_zero_iff_le.mp hlast) (not_lt.mp hlt)) hne
  rcases hsocket with howned | howned | hfree
  · refine alone_of_others handle fun other q hne hq => ?_
    rw [List.getElem?_set_ne (Ne.symm hne)] at hq
    rw [← Bool.not_eq_true]
    exact fun hother => hne (h _ _ _ _ hq hp hother howned)
  · have hold : ∀ (other : Handle) (q : Place), (places.set handle p')[other]? = some q → q.owned = true →
        places[other]? = some q := by
      intro other q hq hother
      rcases eq_or_ne handle other with rfl | hne
      · rw [List.getElem?_set_self (List.getElem?_eq_some_iff.mp hp).1] at hq
        cases hq
        rw [howned] at hother
        cases hother
      · rwa [List.getElem?_set_ne hne] at hq
    exact fun a b q q' hq hq' ha hb => h a b q q' (hold a q hq ha) (hold b q' hq' hb) ha hb
  · refine alone_of_others handle fun other q hne hq => ?_
    rw [List.getElem?_set_ne (Ne.symm hne)] at hq
    exact not_owned_of_free hfree hq

/-- What the places say about the log. -/
structure Counted (log : List Event) (places : Places) : Prop where
  all : log.countP Event.isOpened = places.length
  opened : ∀ handle, log.countP (Event.opens handle) = if handle < places.length then 1 else 0
  closed : ∀ handle, log.countP (Event.closes handle) =
    if (places[handle]?).any Place.isClosed then 1 else 0
  alone : Places.Alone places

theorem opens_eq_false {e : Event} (h : e.isOpened = false) (handle : Handle) :
    e.opens handle = false := by
  cases e with
  | opened => cases h
  | clock | resolved | closed | used | waited | sent | received | began
  | retained | adopted | moved => rfl

/-- An event on one handle closes no other. -/
theorem closes_eq_false {e : Event} {handle : Handle} (h : e.handle ≠ some handle) :
    e.closes handle = false := by
  cases e with
  | closed handle' =>
    unfold Event.closes
    rw [beq_eq_false_iff_ne]
    rintro rfl
    exact h rfl
  | clock | resolved | opened | used | waited | sent | received | began
  | retained | adopted | moved => rfl

theorem countP_concat (log : List Event) (e : Event) (f : Event → Bool) :
    (log ++ [e]).countP f = log.countP f + if f e then 1 else 0 := by
  rw [List.countP_append, List.countP_singleton]

theorem counted_step {log : List Event} {places places' : Places} {e : Event}
    (h : Counted log places) (hstep : ledgerStep places e = some places') :
    Counted (log ++ [e]) places' := by
  have halone := alone_step h.alone hstep
  rcases ledgerStep_cases hstep with ⟨hnone, rfl⟩ | ⟨rfl, -, rfl⟩ | ⟨handle, p, p', hhandle, hopened,
    hp, hnext, -, rfl⟩
  · have hopened : e.isOpened = false := by
      cases e with
      | clock | resolved => rfl
      | opened | closed | used | waited | sent | received | began
      | retained | adopted | moved =>
        cases hnone
    have hother : ∀ handle, e.handle ≠ some handle := fun handle hsome =>
      absurd (hnone.symm.trans hsome) (by simp)
    refine ⟨?_, fun handle => ?_, fun handle => ?_, halone⟩
    · rw [countP_concat, hopened]
      exact h.all
    · rw [countP_concat, opens_eq_false hopened]
      exact h.opened handle
    · rw [countP_concat, closes_eq_false (hother handle)]
      exact h.closed handle
  · refine ⟨?_, fun handle => ?_, fun handle => ?_, halone⟩
    · rw [countP_concat, h.all, List.length_append]
      rfl
    · have hopens : Event.opens handle (.opened places.length) = (places.length == handle) := rfl
      have hnew : ∀ a b : ℕ, ((if a < b then 1 else 0) + if b = a then 1 else 0) =
          if a < b + 1 then 1 else 0 := by
        intro a b
        split_ifs <;> omega
      rw [countP_concat, h.opened, hopens, List.length_append, List.length_singleton]
      simp only [beq_iff_eq]
      exact hnew handle places.length
    · have hcloses : Event.closes handle (.opened places.length) = false := rfl
      rw [countP_concat, h.closed, hcloses]
      rcases Nat.lt_trichotomy handle places.length with hlt | rfl | hgt
      · rw [List.getElem?_append_left hlt]
        rfl
      · simp [Place.isClosed]
      · rw [List.getElem?_eq_none (Nat.le_of_lt hgt), List.getElem?_eq_none (by simpa using hgt)]
        rfl
  · have hstep' := Place.step_of_next hnext
    refine ⟨?_, fun other => ?_, fun other => ?_, halone⟩
    · rw [countP_concat, hopened, List.length_set]
      exact h.all
    · rw [countP_concat, opens_eq_false hopened, List.length_set]
      exact h.opened other
    · rw [countP_concat, h.closed]
      rcases eq_or_ne handle other with rfl | hne
      · rw [hstep'.closes hhandle, hp, List.getElem?_set_self (List.getElem?_eq_some_iff.mp hp).1]
        simp [hstep'.open]
      · rw [closes_eq_false (by rw [hhandle]; simpa using hne), List.getElem?_set_ne hne]
        rfl

/-- The monitor of handles. -/
def handleLedger : Monitor Event Places where
  step := ledgerStep
  fits := Counted
  fits_step := counted_step

end CppRequest
