import CppRequest.SocketEvents

/-!
# Deadlines

The clock as a run sees it: what it has shown, and the least that it can show next when time does
not go backwards and a wait that times out has taken its time. Against this clock, a timeout is
reported when the time given is over, unless the time given is too long for the arithmetic.
-/

namespace CppRequest

open Procedure Monitor

/-! ## Nanoseconds -/

def Representable (count : ℤ) : Prop := -2 ^ 63 ≤ count ∧ count < 2 ^ 63

theorem wrapNanoseconds_eq {count : ℤ} (h : Representable count) : wrapNanoseconds count = count :=
  Int.bmod_eq_of_le (by have := h.1; omega) (by have := h.2; omega)

/-- The times given that a deadline is counted and waited for exactly. -/
structure Meets (timeout now : ℤ) : Prop where
  represented : -2 ^ 63 ≤ now
  wait : timeout ≤ 2 ^ 31
  sum : now + timeout * nanosecondsPerMillisecond < 2 ^ 63

theorem deadlineAfter_eq {timeout now : ℤ} (h : Meets timeout now) (htimeout : 0 < timeout) :
    deadlineAfter now timeout = now + timeout * nanosecondsPerMillisecond := by
  have hnow := h.represented
  refine wrapNanoseconds_eq ⟨?_, h.sum⟩
  unfold nanosecondsPerMillisecond
  omega

/-! ## The clock -/

structure Clock where
  first : Option ℤ := none
  now : ℤ
deriving Repr, DecidableEq

/-- What is known of the clock behind an event; nothing when the event cannot be. -/
def Clock.tick (c : Clock) : Event → Option Clock
  | .clock time =>
    if c.now ≤ time ∧ time < 2 ^ 63 then some { first := c.first.or (some time), now := time }
    else none
  | .waited _ _ milliseconds result =>
    if result.status = .timedOut then
      -- a wait without end does not time out
      if 0 ≤ milliseconds then
        some { c with now := c.now + milliseconds * nanosecondsPerMillisecond }
      else none
    else some c
  | _ => some c

/-- The clock behind these events, for a run that begins at this time. -/
def clockAfter (start : ℤ) (events : List Event) : Option Clock :=
  events.foldlM Clock.tick { now := start }

/-- Who reads the clock along, as long as it can be. -/
def timeline : Monitor Event (Option Clock) where
  step c e := some (c.bind fun c => c.tick e)
  fits _ _ := True
  fits_step _ _ := trivial

theorem timeline_reads (c : Option Clock) (events : List Event) :
    timeline.reads c events = some (c.bind fun c => events.foldlM Clock.tick c) := by
  unfold reads
  induction events generalizing c with
  | nil =>
    cases c with
    | none => rfl
    | some c => rfl
  | cons e events ih =>
    rw [List.foldlM_cons]
    refine (ih _).trans ?_
    cases c with
    | none => rfl
    | some c => rfl

/-- It holds of the clock, if there is one. -/
def Timely (P : Clock → Prop) (c : Option Clock) : Prop := ∀ clock, c = some clock → P clock

theorem Timely.mono {P Q : Clock → Prop} {c : Option Clock} (h : Timely P c)
    (hPQ : ∀ clock, P clock → Q clock) : Timely Q c := fun clock hclock => hPQ clock (h clock hclock)

theorem Timely.step {P Q : Clock → Prop} {c : Option Clock} {e : Event} (h : Timely P c)
    (hstep : ∀ clock clock', P clock → clock.tick e = some clock' → Q clock') :
    ∃ c', timeline.step c e = some c' ∧ Timely Q c' := by
  refine ⟨_, rfl, fun clock' hclock' => ?_⟩
  obtain ⟨clock, rfl, htick⟩ := Option.bind_eq_some_iff.mp hclock'
  exact hstep clock clock' (h clock rfl) htick

/-- Time passes, and what has been shown first stays. -/
theorem Clock.tick_le {c c' : Clock} {e : Event} (h : c.tick e = some c') :
    c.now ≤ c'.now ∧ ∀ time, c.first = some time → c'.first = some time := by
  cases e with
  | clock time =>
    simp only [tick] at h
    split_ifs at h with hle
    cases h
    refine ⟨hle.1, fun first hfirst => ?_⟩
    simp only [hfirst, Option.some_or]
  | waited handle writable milliseconds result =>
    simp only [tick] at h
    split_ifs at h with hstatus hmilliseconds
    · cases h
      refine ⟨?_, fun _ hfirst => hfirst⟩
      simp only [nanosecondsPerMillisecond]
      omega
    · cases h
      exact ⟨le_rfl, fun _ hfirst => hfirst⟩
  | resolved | opened | closed | used | sent | received | began | retained | adopted | moved =>
    cases h
    exact ⟨le_rfl, fun _ hfirst => hfirst⟩

/-! ## A run behind its first look at the clock -/

/-- The run began before the clock showed this first. -/
structure Running (start first : ℤ) (c : Clock) : Prop where
  shown : c.first = some first
  begun : start ≤ first
  passed : first ≤ c.now

/-- What stays true while time passes. -/
def Lasting (P : Clock → Prop) : Prop :=
  ∀ c c' e, P c → c.tick e = some c' → P c'

section

variable {timeout start first : ℤ} {α : Type}

theorem running_lasting : Lasting (Running start first) := by
  intro c c' e h htick
  obtain ⟨hle, hfirst⟩ := Clock.tick_le htick
  exact ⟨hfirst _ h.shown, h.begun, h.passed.trans hle⟩

theorem passed_lasting (time : ℤ) : Lasting fun c => time ≤ c.now :=
  fun _ _ _ h htick => h.trans (Clock.tick_le htick).1

theorem Lasting.and {P Q : Clock → Prop} (hP : Lasting P) (hQ : Lasting Q) :
    Lasting fun c => P c ∧ Q c :=
  fun c c' e h htick => ⟨hP c c' e h.1 htick, hQ c c' e h.2 htick⟩

theorem Lasting.imp {P : Clock → Prop} (φ : Prop) (hP : Lasting P) :
    Lasting fun c => φ → P c :=
  fun c c' e h htick hφ => hP c c' e (h hφ) htick

theorem Lasting.triple {P : Clock → Prop} {p : Proc α} {Q : α → Prop} (hP : Lasting P)
    (h : p.Writes (fun _ => True) Q) :
    timeline.Triple (Timely P) p fun a c => Q a ∧ Timely P c :=
  h.triple fun e _ _ hc => hc.step fun clock clock' hclock htick => hP clock clock' e hclock htick

/-- The clock is read: it shows the time. -/
theorem triple_now {P : Clock → Prop} {Q : ℤ → Clock → Prop}
    (h : ∀ c time, P c → c.now ≤ time → time < 2 ^ 63 →
      Q time { first := c.first.or (some time), now := time }) :
    timeline.Triple (Timely P) steadyClockNow fun time => Timely (Q time) := by
  refine triple_read.bind fun answer => ?_
  refine Triple.bind (Q := fun _ c => Timely (Q answer.time) c) ?_ fun _ =>
    triple_pure fun _ h => h
  refine triple_emit fun c hc => hc.step fun clock clock' hclock htick => ?_
  simp only [Clock.tick] at htick
  split_ifs at htick with hle
  cases htick
  exact h clock answer.time hclock hle.1 hle.2

/-- The deadline, but for the rounding. -/
def Due (timeout first : ℤ) (c : Clock) : Prop :=
  Meets timeout first → first + (timeout - 1) * nanosecondsPerMillisecond ≤ c.now

theorem due_lasting : Lasting (Due timeout first) :=
  Lasting.imp _ (passed_lasting _)

/-- Waiting so long is enough. -/
def Enough (timeout first remaining : ℤ) (c : Clock) : Prop :=
  Meets timeout first → if remaining ≤ 0 then
    first + timeout * nanosecondsPerMillisecond ≤ c.now
  else first + (timeout - 1) * nanosecondsPerMillisecond ≤
    c.now + min (max 1 remaining) kMaxInt * nanosecondsPerMillisecond

theorem enough_lasting (remaining : ℤ) : Lasting (Enough timeout first remaining) := by
  intro c c' e h htick hmeets
  have hle := (Clock.tick_le htick).1
  have henough := h hmeets
  split_ifs at henough ⊢ with hremaining
  · exact henough.trans hle
  · omega

theorem due_of_passed {c : Clock} (h : Meets timeout first →
    first + timeout * nanosecondsPerMillisecond ≤ c.now) : Due timeout first c := by
  intro hmeets
  have hpassed := h hmeets
  simp only [nanosecondsPerMillisecond] at hpassed ⊢
  omega

theorem Enough.due {remaining : ℤ} {c : Clock} (h : Enough timeout first remaining c)
    (hremaining : remaining ≤ 0) : Due timeout first c := by
  refine due_of_passed fun hmeets => ?_
  have henough := h hmeets
  rwa [if_pos hremaining] at henough

variable (htimeout : 0 < timeout)

include htimeout

/-- The clock shows a time at or behind the deadline. -/
theorem due_of_deadline {c : Clock} (h : c.now ≥ deadlineAfter first timeout) :
    Due timeout first c := by
  refine due_of_passed fun hmeets => ?_
  rwa [deadlineAfter_eq hmeets htimeout] at h

theorem triple_remaining :
    timeline.Triple (Timely (Running start first))
      (remainingTimeout (deadlineAfter first timeout)) fun remaining =>
        Timely fun c => Running start first c ∧ Enough timeout first remaining c := by
  refine Triple.bind (triple_now (Q := fun now c => Running start first c ∧ c.now = now)
    fun c time h hle _ => ?_) fun now => ?_
  · exact ⟨⟨by rw [h.shown, Option.some_or], h.begun, h.passed.trans hle⟩, rfl⟩
  split
  · next hpassed =>
    refine triple_pure fun c hc => hc.mono fun clock h => ⟨h.1, fun hmeets => ?_⟩
    rw [if_pos le_rfl, h.2, ← deadlineAfter_eq hmeets htimeout]
    exact hpassed
  · next hpassed =>
    refine triple_pure fun c hc => hc.mono fun clock h => ⟨h.1, fun hmeets => ?_⟩
    obtain ⟨hrunning, rfl⟩ := h
    have hbegun := hrunning.passed
    have hwait := hmeets.wait
    rw [deadlineAfter_eq hmeets htimeout] at hpassed
    rw [deadlineAfter_eq hmeets htimeout, wrapNanoseconds_eq ?_]
    · generalize hremaining : (first + timeout * nanosecondsPerMillisecond - clock.now).tdiv
        nanosecondsPerMillisecond = remaining
      simp only [nanosecondsPerMillisecond, kMaxInt] at hremaining hpassed ⊢
      rw [Int.tdiv_eq_ediv_of_nonneg (by omega)] at hremaining
      split_ifs <;> omega
    · unfold Representable
      simp only [nanosecondsPerMillisecond] at hpassed ⊢
      omega

omit htimeout in
/-- A wait that times out has taken its time. -/
theorem triple_wait (handle : Handle) (remaining : ℤ) (writable : Bool) :
    timeline.Triple
      (Timely fun c => Running start first c ∧ Enough timeout first remaining c)
      (waitSocket handle remaining writable) fun wait => Timely fun c =>
        Running start first c ∧ (wait.status = .timedOut → Due timeout first c) := by
  unfold waitSocket
  split
  · next hremaining =>
    exact triple_pure fun c hc => hc.mono fun clock h => ⟨h.1, fun _ => h.2.due hremaining⟩
  · next hremaining =>
    refine triple_read.bind fun answer => ?_
    dsimp only
    generalize (if answer.result = 0 then ({ status := .timedOut } : SocketWaitResult)
      else if answer.result < 0 then { status := .failed, nativeCode := answer.errno }
      else { status := .ready }) = result
    refine Triple.bind (Q := fun _ => Timely fun c => Running start first c ∧
      (result.status = .timedOut → Due timeout first c)) ?_ fun _ => triple_pure fun _ h => h
    refine triple_emit fun c hc => hc.step fun clock clock' h htick => ?_
    refine ⟨running_lasting _ _ _ h.1 htick, fun hstatus hmeets => ?_⟩
    have henough := h.2 hmeets
    rw [if_neg hremaining] at henough
    simp only [Clock.tick, hstatus, if_true] at htick
    split_ifs at htick
    cases htick
    exact henough

end

end CppRequest
