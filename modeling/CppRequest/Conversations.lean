import CppRequest.ConnectionReuse
import CppRequest.Exchanges
import CppRequest.Isolation

/-!
# Conversations

What goes over a connection in both directions: whole requests and whole responses in turn, and
behind them at most one request that is being answered. This holds of every connection at every
moment of every run of operations on clients.
-/

namespace CppRequest

open Procedure Monitor ResponseParser

/-! ## Turns -/

/-- A request, as it is serialized, and a response to it behind which the connection goes on. -/
structure Turn (platform : Platform) where
  request : Request
  serialized : SerializedRequest
  accepted : serializeRequest platform.inetPton6 request = .ok serialized
  response : WireResponse request.method
  keeps : response.KeepsConnection

namespace Turn

variable {platform : Platform}

def text (turn : Turn platform) : Bytes := turn.serialized.text

def encode (turn : Turn platform) : Bytes := turn.response.encode

end Turn

/-- What has gone over a connection, and the host and the port of the request that has begun last. -/
structure Talk where
  origin : Option (Bytes × ℕ) := none
  accepted : Bytes := []
  received : Bytes := []

namespace Talk

variable {platform : Platform}

def next (handle : Handle) (t : Talk) : Event → Talk
  | .began other host port _ => if other = handle then { t with origin := some (host, port) } else t
  | .sent other outcome =>
    if other = handle then { t with accepted := t.accepted ++ receivedBytes outcome } else t
  | .received other outcome =>
    if other = handle then { t with received := t.received ++ receivedBytes outcome } else t
  | _ => t

/-- These turns, and behind them these bytes in either direction. -/
structure Says (t : Talk) (turns : List (Turn platform)) (sent stream : Bytes) : Prop where
  accepted : t.accepted = turns.flatMap Turn.text ++ sent
  received : t.received = turns.flatMap Turn.encode ++ stream

/-- Whole turns. -/
def Rests (platform : Platform) (t : Talk) : Prop :=
  ∃ turns : List (Turn platform), t.Says turns [] []

/-- Whole turns and a request that is being answered: nothing is received before all of it has been
accepted. -/
def Speaks (platform : Platform) (t : Talk) : Prop :=
  ∃ (turns : List (Turn platform)) (request : Request) (serialized : SerializedRequest)
    (sent stream : Bytes), serializeRequest platform.inetPton6 request = .ok serialized ∧
      sent <+: serialized.text ∧ (stream ≠ [] → sent = serialized.text) ∧ t.Says turns sent stream

theorem rests_empty (platform : Platform) (origin : Option (Bytes × ℕ)) :
    Rests platform { origin } :=
  ⟨[], rfl, rfl⟩

theorem next_of_handle {t : Talk} {e : Event} {handle : Handle} (h : e.handle ≠ some handle) :
    t.next handle e = t := by
  cases e with
  | began other | sent other | received other =>
    exact if_neg fun heq => h (congrArg some heq)
  | clock | resolved | opened | closed | used | waited | retained | adopted | moved => rfl

end Talk

/-- What has gone over the handle in these events. -/
def talk (handle : Handle) (events : List Event) : Talk := events.foldl (Talk.next handle) {}

theorem talk_append (handle : Handle) (log events : List Event) :
    talk handle (log ++ events) = events.foldl (Talk.next handle) (talk handle log) :=
  List.foldl_append

/-- Nothing goes over a handle that nothing happens to. -/
theorem talk_untouched {handle : Handle} {events : List Event} (log : List Event)
    (h : ∀ e ∈ events, e.handle ≠ some handle) : talk handle (log ++ events) = talk handle log := by
  rw [talk_append]
  generalize talk handle log = t
  induction events with
  | nil => rfl
  | cons e events ih =>
    rw [List.foldl_cons, Talk.next_of_handle (h e List.mem_cons_self)]
    exact ih fun e' he' => h e' (List.mem_cons_of_mem _ he')

/-! ## Listening to both sides -/

/-- How many sockets have been opened, and what has gone over each of them. -/
structure Talks where
  opened : ℕ := 0
  talk : Handle → Talk := fun _ => {}

def Talks.set (s : Talks) (handle : Handle) (t : Talk) : Talks :=
  { s with talk := Function.update s.talk handle t }

theorem Talks.set_self (s : Talks) (handle : Handle) (t : Talk) : (s.set handle t).talk handle = t :=
  Function.update_self _ _ _

theorem Talks.set_other (s : Talks) {handle other : Handle} (h : other ≠ handle) (t : Talk) :
    (s.set other t).talk handle = s.talk handle :=
  Function.update_of_ne (Ne.symm h) _ _

open Classical in
/-- Who objects when a request begins elsewhere than behind whole turns, when something is sent or
received that is no part of a turn, and when this is on a handle that has not been opened. -/
noncomputable def talksStep (platform : Platform) (s : Talks) (e : Event) : Option Talks :=
  match e with
  | .opened _ => some { s with opened := s.opened + 1 }
  | .began handle _ _ _ =>
    if handle < s.opened ∧ (s.talk handle).Rests platform then
      some (s.set handle ((s.talk handle).next handle e))
    else none
  | .sent handle _ | .received handle _ =>
    if handle < s.opened ∧ ((s.talk handle).next handle e).Speaks platform then
      some (s.set handle ((s.talk handle).next handle e))
    else none
  | _ => some s

/-- The number is that of the log, and nothing has gone over handles that are still to come. -/
structure Talks.Counted (log : List Event) (s : Talks) : Prop where
  opened : log.countP Event.isOpened = s.opened
  unopened : ∀ handle, s.opened ≤ handle → s.talk handle = {}

section

variable {platform : Platform} {s s' : Talks} {e : Event} {handle : Handle}

/-- The ways in which a conversation goes on. -/
theorem talksStep_cases (h : talksStep platform s e = some s') :
    (∃ other, e = .opened other ∧ s' = { s with opened := s.opened + 1 }) ∨
      (e.isOpened = false ∧ e.carries = false ∧ s' = s) ∨
      ∃ other, e.handle = some other ∧ e.isOpened = false ∧ e.carries = true ∧ other < s.opened ∧
        s' = s.set other ((s.talk other).next other e) ∧
        ((s.talk other).Rests platform ∧ (∃ host port parser, e = .began other host port parser) ∨
          ((s.talk other).next other e).Speaks platform) := by
  cases e with
  | opened other =>
    cases h
    exact .inl ⟨other, rfl, rfl⟩
  | began other host port parser =>
    simp only [talksStep] at h
    split_ifs at h with hrests
    cases h
    exact .inr (.inr ⟨other, rfl, rfl, rfl, hrests.1, rfl, .inl ⟨hrests.2, host, port, parser, rfl⟩⟩)
  | sent other outcome | received other outcome =>
    simp only [talksStep] at h
    split_ifs at h with hspeaks
    cases h
    exact .inr (.inr ⟨other, rfl, rfl, rfl, hspeaks.1, rfl, .inr hspeaks.2⟩)
  | clock | resolved | closed | used | waited | retained | adopted | moved =>
    cases h
    exact .inr (.inl ⟨rfl, rfl, rfl⟩)

theorem next_of_carries {t : Talk} (hno : e.carries = false) : t.next handle e = t := by
  cases e with
  | began | sent | received => cases hno
  | clock | resolved | opened | closed | used | waited | retained | adopted | moved => rfl

theorem talks_step (h : talksStep platform s e = some s') (handle : Handle) :
    s'.talk handle = (s.talk handle).next handle e := by
  obtain ⟨other, rfl, rfl⟩ | ⟨-, hno, rfl⟩ | ⟨other, hhandle, -, -, -, rfl, -⟩ := talksStep_cases h
  · rfl
  · exact (next_of_carries hno).symm
  · rcases eq_or_ne other handle with rfl | hne
    · exact Talks.set_self s other _
    · rw [Talks.set_other s hne, Talk.next_of_handle]
      rw [hhandle]
      exact fun heq => hne (Option.some.inj heq)

theorem talks_counted {log : List Event} (hs : Talks.Counted log s)
    (h : talksStep platform s e = some s') : Talks.Counted (log ++ [e]) s' := by
  obtain ⟨other, rfl, rfl⟩ | ⟨hopened, -, rfl⟩ | ⟨other, -, hopened, -, hlt, rfl, -⟩ :=
    talksStep_cases h
  · refine ⟨?_, fun handle hle => hs.unopened handle (Nat.le_of_succ_le hle)⟩
    rw [countP_concat, hs.opened]
    rfl
  · refine ⟨?_, hs.unopened⟩
    rw [countP_concat, hopened]
    exact hs.opened
  · refine ⟨?_, fun handle hle => ?_⟩
    · rw [countP_concat, hopened]
      exact hs.opened
    · rw [Talks.set_other s (hlt.trans_le hle).ne]
      exact hs.unopened handle hle

end

noncomputable def conversation (platform : Platform) : Monitor Event Talks where
  step := talksStep platform
  fits := Talks.Counted
  fits_step := talks_counted

section

variable {platform : Platform} {log : List Event} {s : Talks}

theorem conversation_reads {s' : Talks} (h : (conversation platform).reads s log = some s')
    (handle : Handle) : s'.talk handle = log.foldl (Talk.next handle) (s.talk handle) := by
  induction log generalizing s with
  | nil =>
    cases h
    rfl
  | cons e log ih =>
    unfold reads at h
    rw [List.foldlM_cons] at h
    obtain ⟨t, hstep, hrest⟩ := Option.bind_eq_some_iff.mp h
    rw [ih hrest, talks_step hstep, List.foldl_cons]

theorem talk_of_reads (h : (conversation platform).reads {} log = some s) (handle : Handle) :
    s.talk handle = talk handle log := conversation_reads h handle

end

end CppRequest
