import CppRequest.Timeouts

/-!
# How long a timeout may be

The setters of a client take every number of milliseconds. A timeout is kept, and its deadlines are
computed without overflow, exactly as long as it is one that `poll` can wait for and as the
deadline can be counted in nanoseconds.
-/

namespace CppRequest

open Procedure Monitor

/-- The computations of a deadline, and of what remains until it at each look at the clock, stay
within 64 bits. -/
def NoOverflow (timeout : ℤ) (events : List Event) (clock : Clock) : Prop :=
  ∀ first, clock.first = some first →
    Representable (timeout * nanosecondsPerMillisecond) ∧
    Representable (first + timeout * nanosecondsPerMillisecond) ∧
    ∀ time, .clock time ∈ events → time < first + timeout * nanosecondsPerMillisecond →
      Representable (first + timeout * nanosecondsPerMillisecond - time)

/-- Whenever such a call begins, and whatever the system answers: if the clock can have shown what
it has, and this first, nothing overflows and the timeout is not reported before all but a
millisecond of the time given is over. -/
def KeepsTime {α : Type} (p : Proc α) (timeout first : ℤ) (timedOut : α → Prop) : Prop :=
  ∀ (w : World Answer Event) (start : ℤ) (events : List Event) (clock : Clock),
    (p.run w).2.log = w.log ++ events → clockAfter start events = some clock →
    (∀ time, clock.first = some time → time = first) →
    NoOverflow timeout events clock ∧ ∀ a, (p.run w).1 = some a → timedOut a →
      start + (timeout - 1) * nanosecondsPerMillisecond ≤ clock.now

/-- The functions that are given a timeout, and the deadline that the two halves of a request
share. -/
structure OnTime (timeout first : ℤ) : Prop where
  connect : ∀ platform endpoints,
    KeepsTime (TcpConnection.connect platform endpoints timeout) timeout first
      (TimedOut .connectTimeout)
  write : ∀ (connection : TcpConnection) data,
    KeepsTime (connection.writeAll data timeout) timeout first fun r => TimedOut .writeTimeout r.1
  read : ∀ (connection : TcpConnection) capacity,
    KeepsTime (connection.readSome capacity timeout) timeout first
      fun r => TimedOut .readTimeout r.1
  request : ∀ connection serialized,
    KeepsTime (Client.writeRequest connection serialized timeout) timeout first fun _ => False

/-! ## What is kept -/

theorem clockAfter_concat (start : ℤ) (events : List Event) (e : Event) :
    clockAfter start (events ++ [e]) = (clockAfter start events).bind fun c => c.tick e := by
  unfold clockAfter
  rw [List.foldlM_append]
  cases events.foldlM Clock.tick { now := start } with
  | none => rfl
  | some c =>
    cases h : c.tick e with
    | none =>
      show (c.tick e >>= pure) = _
      rw [h]
      exact h.symm
    | some c' =>
      show (c.tick e >>= pure) = _
      rw [h]
      exact h.symm

/-- What is known of a clock that has been read. -/
structure Read (start : ℤ) (events : List Event) (c : Clock) : Prop where
  now : start ≤ c.now
  first : ∀ first, c.first = some first → start ≤ first ∧ first ≤ c.now
  readings : ∀ time, .clock time ∈ events → ∃ first, c.first = some first ∧ first ≤ time

theorem read_of_clockAfter {start : ℤ} {events : List Event} {clock : Clock}
    (h : clockAfter start events = some clock) : Read start events clock := by
  induction events using List.reverseRecOn generalizing clock with
  | nil =>
    cases h
    refine ⟨le_rfl, fun first hshown => ?_, fun time htime => ?_⟩
    · cases hshown
    · cases htime
  | append_singleton events e ih =>
    rw [clockAfter_concat] at h
    obtain ⟨c, hc, htick⟩ := Option.bind_eq_some_iff.mp h
    have hread := ih hc
    obtain ⟨hle, hfirst⟩ := Clock.tick_le htick
    have hbefore : ∀ time, .clock time ∈ events →
        ∃ first, clock.first = some first ∧ first ≤ time := by
      intro time htime
      obtain ⟨first, hshown, hbefore⟩ := hread.readings time htime
      exact ⟨first, hfirst _ hshown, hbefore⟩
    have hsame : clock.first = c.first → (∀ time, e ≠ .clock time) →
        Read start (events ++ [e]) clock := by
      intro heq hno
      refine ⟨hread.now.trans hle, fun first hshown => ?_, fun time htime => ?_⟩
      · rw [heq] at hshown
        exact ⟨(hread.first _ hshown).1, (hread.first _ hshown).2.trans hle⟩
      · obtain htime | htime := List.mem_append.mp htime
        · exact hbefore time htime
        · exact absurd (List.mem_singleton.mp htime).symm (hno time)
    cases e with
    | clock time =>
      simp only [Clock.tick] at htick
      split_ifs at htick with htime
      cases htick
      cases hshown : c.first with
      | none =>
        simp only [hshown, Option.none_or] at hbefore ⊢
        refine ⟨hread.now.trans htime.1, ?_, ?_⟩
        · rintro first ⟨⟩
          exact ⟨hread.now.trans htime.1, le_rfl⟩
        · intro time' htime'
          obtain htime' | htime' := List.mem_append.mp htime'
          · exact hbefore time' htime'
          · cases List.mem_singleton.mp htime'
            exact ⟨time, rfl, le_rfl⟩
      | some first =>
        simp only [hshown, Option.some_or] at hbefore ⊢
        obtain ⟨hstart, hnow⟩ := hread.first first hshown
        refine ⟨hread.now.trans htime.1, ?_, ?_⟩
        · rintro first' ⟨⟩
          exact ⟨hstart, hnow.trans htime.1⟩
        · intro time' htime'
          obtain htime' | htime' := List.mem_append.mp htime'
          · exact hbefore time' htime'
          · cases List.mem_singleton.mp htime'
            exact ⟨first, rfl, hnow.trans htime.1⟩
    | waited handle writable milliseconds result =>
      apply hsame
      swap
      · rintro time ⟨⟩
      simp only [Clock.tick] at htick
      split_ifs at htick
      · cases htick
        rfl
      · cases htick
        rfl
    | resolved | opened | closed | used | sent | received | began | retained | adopted | moved =>
      apply hsame
      · cases htick
        rfl
      · rintro time ⟨⟩

section

variable {timeout first : ℤ} {α : Type} {p : Proc α}

theorem noOverflow_of_meets (htimeout : 0 < timeout) (hmeets : Meets timeout first) {start : ℤ}
    {events : List Event} {clock : Clock} (hclock : clockAfter start events = some clock)
    (hfirst : ∀ time, clock.first = some time → time = first) :
    NoOverflow timeout events clock := by
  intro first' hshown
  obtain rfl := hfirst first' hshown
  have hlow := hmeets.represented
  have hwait := hmeets.wait
  have hsum := hmeets.sum
  unfold Representable
  simp only [nanosecondsPerMillisecond] at hsum ⊢
  refine ⟨by omega, by omega, fun time htime hbefore => ?_⟩
  obtain ⟨first', hshown', hle⟩ := (read_of_clockAfter hclock).readings time htime
  cases hshown.symm.trans hshown'
  omega

theorem keepsTime_of_triple (htimeout : 0 < timeout) (hmeets : Meets timeout first)
    {timedOut : α → Prop} (h : ∀ start, timeline.Triple (Timely fun c => c = { now := start }) p
      fun a => Timely (Punctual timeout start (timedOut a))) :
    KeepsTime p timeout first timedOut := by
  intro w start events clock hlog hclock hfirst
  refine ⟨noOverflow_of_meets htimeout hmeets hclock hfirst, fun a ha htimedOut => ?_⟩
  have hbegin : Timely (fun c => c = { now := start }) (some { now := start }) := by
    rintro c ⟨⟩
    rfl
  obtain ⟨events', c, hlog', hreads, hresult⟩ := h start w _ trivial hbegin
  obtain rfl : events = events' := List.append_cancel_left (hlog.symm.trans hlog')
  rw [timeline_reads] at hreads
  have hc : c = some clock := (Option.some.inj hreads).symm.trans hclock
  obtain ⟨time, hrunning, hdue⟩ := hresult a ha clock hc htimedOut
  obtain rfl := hfirst time hrunning.shown
  exact (Int.add_le_add_right hrunning.begun _).trans (hdue hmeets)

theorem onTime_of_meets (htimeout : 0 < timeout) (hmeets : Meets timeout first) :
    OnTime timeout first where
  connect platform endpoints := keepsTime_of_triple htimeout hmeets fun _ =>
    triple_connect_punctual htimeout platform endpoints
  write connection data := keepsTime_of_triple htimeout hmeets fun _ =>
    triple_writeAll_punctual htimeout connection data
  read connection capacity := keepsTime_of_triple htimeout hmeets fun _ =>
    triple_readSome_punctual htimeout connection capacity
  request _ _ := fun _ _ _ _ _ hclock hfirst =>
    ⟨noOverflow_of_meets htimeout hmeets hclock hfirst, nofun⟩

end

/-! ## What is not kept -/

section

variable {timeout first : ℤ}

/-- The log behind the first look at the clock. -/
def begun (first : ℤ) : List Event := [.used 0 .getFlags, .used 0 (.setFlags true), .clock first]

theorem readSome_begins (htimeout : 0 < timeout) (rest : List Answer) :
    ((TcpConnection.adoptNativeHandle 0).readSome 1 timeout).run
        ⟨{} :: {} :: { time := first } :: rest, []⟩ =
      (loop ((TcpConnection.adoptNativeHandle 0).readRound 0 1 (deadlineAfter first timeout))
        (TcpConnection.readRound_reads _ 0 1 _) ()).run ⟨rest, begun first⟩ := by
  unfold TcpConnection.readSome
  dsimp only [TcpConnection.adoptNativeHandle]
  rw [if_neg (by decide), if_neg (not_le.mpr htimeout)]
  rfl

/-- The deadline is computed. -/
theorem representable_of_onTime (htimeout : 0 < timeout) (hfirst : Representable first)
    (h : OnTime timeout first) : Representable (timeout * nanosecondsPerMillisecond) ∧
      Representable (first + timeout * nanosecondsPerMillisecond) := by
  have hrun := @readSome_begins _ first htimeout []
  rw [run_loop_none rfl] at hrun
  have hlt : first < 9223372036854775808 := hfirst.2
  have hclock : clockAfter first (begun first) = some { first := some first, now := first } := by
    simp [clockAfter, begun, Clock.tick, hlt]
  obtain ⟨hno, -⟩ := h.read _ 1 _ first (begun first) _ (congrArg (fun r => r.2.log) hrun) hclock
    (by rintro time ⟨⟩; rfl)
  obtain ⟨hproduct, hsum, -⟩ := hno first rfl
  exact ⟨hproduct, hsum⟩

/-- Nothing arrives, and `poll` waits as long as it can. -/
def idleAnswers (first : ℤ) : List Answer :=
  [{ time := first }, { result := -1, errno := EAGAIN }, { time := first }, {}]

def idled (first : ℤ) : List Event :=
  begun first ++ [.clock first, .received 0 (.error EAGAIN), .clock first,
    .waited 0 false kMaxInt { status := .timedOut }, .closed 0]

theorem readSome_idle (hlong : 2 ^ 31 < timeout)
    (hproduct : Representable (timeout * nanosecondsPerMillisecond))
    (hsum : Representable (first + timeout * nanosecondsPerMillisecond)) :
    ((TcpConnection.adoptNativeHandle 0).readSome 1 timeout).run
        ⟨{} :: {} :: { time := first } :: idleAnswers first, []⟩ =
      (some (.error { code := .readTimeout }, {}), ⟨[], idled first⟩) := by
  have hahead : ¬ first ≥ first + timeout * nanosecondsPerMillisecond := by
    simp only [nanosecondsPerMillisecond]
    omega
  have hwhole : (timeout * nanosecondsPerMillisecond).tdiv nanosecondsPerMillisecond = timeout :=
    Int.mul_tdiv_cancel _ (by decide)
  have hbounded : min (max 1 timeout) (kMaxInt : ℤ) = kMaxInt := by
    simp only [kMaxInt]
    omega
  have hremaining : ∀ (log : List Event) (rest : List Answer),
      (remainingTimeout (first + timeout * nanosecondsPerMillisecond)).run
        ⟨{ time := first } :: rest, log⟩ = (some timeout, ⟨rest, log ++ [.clock first]⟩) := by
    intro log rest
    refine (run_bind_some rfl).trans ?_
    dsimp only
    rw [if_neg hahead, add_sub_cancel_left, wrapNanoseconds_eq hproduct, hwhole]
    show (pure (if timeout ≤ 0 then 1 else timeout) : Proc ℤ).run _ = _
    rw [if_neg (by omega)]
    rfl
  have hwait : ∀ (log : List Event) (rest : List Answer),
      (waitSocket 0 timeout false).run ⟨{} :: rest, log⟩ = (some { status := .timedOut },
        ⟨rest, log ++ [.waited 0 false kMaxInt { status := .timedOut }]⟩) := by
    intro log rest
    unfold waitSocket
    rw [if_neg (by omega), hbounded]
    rfl
  rw [readSome_begins (by omega), deadlineAfter, wrapNanoseconds_eq hsum]
  refine run_loop_exit ?_
  refine (run_bind_some rfl).trans ?_
  dsimp only
  rw [if_neg hahead]
  refine (run_bind_some rfl).trans ?_
  refine (run_bind_some (a := some (.error { code := .readTimeout }, {})) ?_).trans rfl
  refine (run_bind_some (hremaining _ _)).trans ?_
  rw [if_neg (by omega)]
  exact (run_bind_some (hwait _ _)).trans rfl

/-- `poll` gives up early when the timeout is longer than it can wait. -/
theorem wait_of_onTime (htimeout : 0 < timeout) (hfirst : Representable first)
    (h : OnTime timeout first) : timeout ≤ 2 ^ 31 := by
  by_contra hlong
  rw [not_le] at hlong
  obtain ⟨hproduct, hsum⟩ := representable_of_onTime htimeout hfirst h
  have hrun := readSome_idle hlong hproduct hsum
  have hlt : first < 9223372036854775808 := hfirst.2
  have hclock : clockAfter first (idled first) = some
      { first := some first, now := first + kMaxInt * nanosecondsPerMillisecond } := by
    simp [clockAfter, idled, begun, Clock.tick, hlt]
  obtain ⟨-, hkept⟩ := h.read _ 1 _ first (idled first) _ (congrArg (fun r => r.2.log) hrun)
    hclock (by rintro time ⟨⟩; rfl)
  have hearly := hkept _ (congrArg Prod.fst hrun) ⟨_, rfl, rfl⟩
  simp only [nanosecondsPerMillisecond, kMaxInt] at hearly
  omega

end

/-- The timeouts that are kept, by the time at which the call first looks at the clock. -/
theorem onTime_iff {timeout first : ℤ} (htimeout : 0 < timeout) (hfirst : Representable first) :
    OnTime timeout first ↔
      timeout ≤ 2 ^ 31 ∧ first + timeout * nanosecondsPerMillisecond < 2 ^ 63 := by
  constructor
  · intro h
    exact ⟨wait_of_onTime htimeout hfirst h, (representable_of_onTime htimeout hfirst h).2.2⟩
  · rintro ⟨hwait, hsum⟩
    exact onTime_of_meets htimeout ⟨hfirst.1, hwait, hsum⟩

theorem onTime_second : OnTime 1000 0 ↔
    (1000 : ℤ) ≤ 2 ^ 31 ∧ 0 + 1000 * nanosecondsPerMillisecond < 2 ^ 63 :=
  onTime_iff (by decide) ⟨by decide, by decide⟩

/-- The largest number of milliseconds: the deadline lies before the beginning, and the timeout is
reported at once. -/
theorem largest_timeout_reported :
    let r := ((TcpConnection.adoptNativeHandle 0).readSome 1 (2 ^ 63 - 1)).run
      ⟨[{}, {}, { time := 0 }, { time := 0 }], []⟩
    r.1 = some (.error { code := .readTimeout }, {}) ∧
      clockAfter 0 r.2.log = some { first := some 0, now := 0 } ∧
      ¬ Representable (0 + (2 ^ 63 - 1) * nanosecondsPerMillisecond) := by
  refine ⟨by decide +kernel, by decide +kernel, ?_⟩
  unfold Representable
  decide

end CppRequest
