import CppRequest.Deadlines

/-!
# Calls end in time

No call outlasts its timeout: where waits return in time and everything else between two looks at
the clock takes at most some slack, it is over a millisecond and the slack behind its deadline.
The two halves of a request share a deadline, and may take that much each.
-/

namespace CppRequest

open Procedure Monitor

/-! ## Time that has passed at most -/

def latestStep (time : Option ℤ) : Event → Option ℤ
  | .clock time' => some time'
  | .waited _ _ milliseconds _ => time.map (· + milliseconds * nanosecondsPerMillisecond)
  | _ => time

/-- The last time shown, and what was waited since at most. -/
def latest (events : List Event) : Option ℤ := events.foldl latestStep none

def Event.shows : Event → Option ℤ
  | .clock time => some time
  | _ => none

/-- Waits take no longer than they may, what else is done between two looks at the clock takes at
most the slack, and the clock counts in 64 bits. -/
def Prompt (slack : ℤ) (events : List Event) : Prop :=
  ∀ past time rest, events = past ++ .clock time :: rest →
    -2 ^ 63 ≤ time ∧ ∀ before, latest past = some before → time ≤ before + slack

/-- Whatever the system answers promptly, the call is never further behind its first look at the
clock than its timeout, and a millisecond and the slack for each round. -/
def EndsWithin {α : Type} (p : Proc α) (timeout rounds : ℤ) : Prop :=
  ∀ (w : World Answer Event) (events : List Event) (slack first : ℤ),
    (p.run w).2.log = w.log ++ events → 0 ≤ slack → Prompt slack events →
    events.findSome? Event.shows = some first → ∀ past, past <+: events →
    ∀ time, latest past = some time →
      time < first + (timeout + rounds) * nanosecondsPerMillisecond + rounds * slack

theorem latest_concat (events : List Event) (e : Event) :
    latest (events ++ [e]) = latestStep (latest events) e := by
  unfold latest
  rw [List.foldl_append]
  rfl

theorem latest_eq_none {events : List Event} (h : latest events = none) :
    events.findSome? Event.shows = none := by
  induction events using List.reverseRecOn with
  | nil => rfl
  | append_singleton events e ih =>
    rw [latest_concat] at h
    rw [List.findSome?_append]
    cases e with
    | clock => cases h
    | waited handle writable milliseconds result =>
      rw [ih (Option.map_eq_none_iff.mp h)]
      rfl
    | resolved | opened | closed | used | sent | received | began | retained | adopted | moved =>
      rw [ih h]
      rfl

theorem prompt_nil {slack : ℤ} : Prompt slack [] := fun past time rest hsplit =>
  absurd (congrArg List.length hsplit) (by simp)

theorem Prompt.past {slack : ℤ} {past events : List Event} (h : Prompt slack events)
    (hpast : past <+: events) : Prompt slack past := by
  obtain ⟨rest, rfl⟩ := hpast
  exact fun before time after heq =>
    h before time (after ++ rest) (by rw [heq, List.append_assoc]; rfl)

theorem shows_past {first : ℤ} {past events : List Event} (hpast : past <+: events)
    (h : events.findSome? Event.shows = some first) :
    past.findSome? Event.shows = none ∨ past.findSome? Event.shows = some first := by
  obtain ⟨rest, rfl⟩ := hpast
  rw [List.findSome?_append] at h
  cases hshown : past.findSome? Event.shows with
  | none => exact .inl rfl
  | some time =>
    rw [hshown] at h
    exact .inr h

/-- Read event by event. -/
def promptBehind (slack : ℤ) (before : Option ℤ) : List Event → Bool
  | [] => true
  | e :: events =>
    e.shows.all (fun time => -2 ^ 63 ≤ time && before.all fun before => time ≤ before + slack) &&
      promptBehind slack (latestStep before e) events

theorem prompt_of_promptBehind {slack : ℤ} {past events : List Event} (h : Prompt slack past)
    (hbehind : promptBehind slack (latest past) events = true) : Prompt slack (past ++ events) := by
  induction events generalizing past with
  | nil => rwa [List.append_nil]
  | cons e events ih =>
    simp only [promptBehind, Bool.and_eq_true] at hbehind
    have hone : Prompt slack (past ++ [e]) := by
      intro before time after hsplit
      obtain rfl | ⟨after', last, rfl⟩ := List.eq_nil_or_concat after
      · obtain ⟨rfl, hlast⟩ := List.append_inj' hsplit rfl
        cases hlast
        obtain ⟨hlow, hbefore⟩ : -2 ^ 63 ≤ time ∧
            (latest past).all (fun before => time ≤ before + slack) = true := by
          simpa [Event.shows] using hbehind.1
        refine ⟨hlow, fun before' hlatest => ?_⟩
        rw [hlatest] at hbefore
        simpa using hbefore
      · have hsame : past ++ [e] = before ++ .clock time :: after' ++ [last] := by
          rw [hsplit]
          simp
        exact h before time after' (List.append_inj' hsame rfl).1
    rw [← latest_concat] at hbehind
    have hrest := ih hone hbehind.2
    rwa [List.append_assoc] at hrest

/-! ## Watching the time -/

/-- Who objects when the bound may have been reached, as long as the system is prompt. The state is
the time that has passed at most. -/
def paceStep (slack bound : ℤ) (s : Option ℤ) (e : Event) : Option (Option ℤ) :=
  match s with
  | none => some none
  | some time =>
    match e with
    | .clock time' =>
      if -2 ^ 63 ≤ time' ∧ time' ≤ time + slack then
        if time' < bound then some (some time') else none
      else some none
    | .waited _ _ milliseconds _ =>
      if 0 ≤ milliseconds ∧ time + milliseconds * nanosecondsPerMillisecond < bound then
        some (some (time + milliseconds * nanosecondsPerMillisecond))
      else none
    | _ => some (some time)

def pace (slack bound : ℤ) : Monitor Event (Option ℤ) where
  step := paceStep slack bound
  fits _ _ := True
  fits_step _ _ := trivial

/-- What is watched is the time that has passed at most. -/
structure Paced (first slack bound : ℤ) (events : List Event) (time : ℤ) : Prop where
  begins : latest events = none → first - slack ≤ time
  latest : ∀ time', latest events = some time' → time' = time ∧ time < bound

section

variable {first slack bound : ℤ} {events : List Event}

theorem paced_step {time : ℤ} {e : Event} {s : Option ℤ} (h : Paced first slack bound events time)
    (hprompt : ∀ time', e = .clock time' → -2 ^ 63 ≤ time' ∧
      (∀ before, latest events = some before → time' ≤ before + slack) ∧
      (latest events = none → time' = first))
    (hstep : paceStep slack bound (some time) e = some s) :
    ∃ time', s = some time' ∧ Paced first slack bound (events ++ [e]) time' := by
  have hsame : latestStep (latest events) e = latest events → s = some time →
      ∃ time', s = some time' ∧ Paced first slack bound (events ++ [e]) time' := by
    rintro hlatest rfl
    refine ⟨time, rfl, ?_, ?_⟩
    · rw [latest_concat, hlatest]
      exact h.begins
    · rw [latest_concat, hlatest]
      exact h.latest
  cases e with
  | clock time' =>
    obtain ⟨hlow, hsome, hnone⟩ := hprompt time' rfl
    have hslack : time' ≤ time + slack := by
      cases hlatest : latest events with
      | none =>
        have hbegins := h.begins hlatest
        have hfirst := hnone hlatest
        omega
      | some before =>
        have hbefore := hsome before hlatest
        rwa [(h.latest before hlatest).1] at hbefore
    simp only [paceStep] at hstep
    rw [if_pos ⟨hlow, hslack⟩] at hstep
    split_ifs at hstep with hbound
    cases hstep
    refine ⟨time', rfl, ?_, ?_⟩
    · rw [latest_concat]
      rintro ⟨⟩
    · rw [latest_concat]
      rintro _ ⟨⟩
      exact ⟨rfl, hbound⟩
  | waited handle writable milliseconds result =>
    simp only [paceStep] at hstep
    split_ifs at hstep with hbound
    cases hstep
    refine ⟨_, rfl, ?_, ?_⟩
    · rw [latest_concat]
      intro hnone
      have hbegins := h.begins (Option.map_eq_none_iff.mp hnone)
      have hpasses : 0 ≤ milliseconds * nanosecondsPerMillisecond := by
        unfold nanosecondsPerMillisecond
        omega
      omega
    · rw [latest_concat]
      intro time' htime'
      obtain ⟨before, hbefore, rfl⟩ := Option.map_eq_some_iff.mp htime'
      rw [(h.latest before hbefore).1]
      exact ⟨rfl, hbound.2⟩
  | resolved | opened | closed | used | sent | received | began | retained | adopted | moved =>
    exact hsame rfl (Option.some.inj hstep).symm

theorem paced_of_reads {s : Option ℤ} (hprompt : Prompt slack events)
    (hfirst : events.findSome? Event.shows = none ∨ events.findSome? Event.shows = some first)
    (hreads : (pace slack bound).reads (some (first - slack)) events = some s) :
    ∃ time, s = some time ∧ Paced first slack bound events time := by
  induction events using List.reverseRecOn generalizing s with
  | nil =>
    cases hreads
    exact ⟨_, rfl, fun _ => le_rfl, nofun⟩
  | append_singleton events e ih =>
    rw [reads_append] at hreads
    obtain ⟨t, ht, hlast⟩ := Option.bind_eq_some_iff.mp hreads
    have hpast : Prompt slack events := fun past time rest heq =>
      hprompt past time (rest ++ [e]) (by rw [heq, List.append_assoc]; rfl)
    rw [List.findSome?_append] at hfirst
    have hfirst' : events.findSome? Event.shows = none ∨
        events.findSome? Event.shows = some first := by
      cases hshown : events.findSome? Event.shows with
      | none => exact .inl rfl
      | some time =>
        rw [hshown] at hfirst
        exact hfirst
    obtain ⟨time, rfl, hpaced⟩ := ih hpast hfirst' ht
    have hstep : paceStep slack bound (some time) e = some s := by
      unfold reads at hlast
      rw [List.foldlM_cons] at hlast
      obtain ⟨s', hstep, hnil⟩ := Option.bind_eq_some_iff.mp hlast
      cases hnil
      exact hstep
    refine paced_step hpaced (fun time' he => ?_) hstep
    subst he
    obtain ⟨hlow, hbefore⟩ := hprompt events time' [] rfl
    refine ⟨hlow, hbefore, fun hnone => ?_⟩
    rw [latest_eq_none hnone] at hfirst
    obtain hno | hyes := hfirst
    · cases hno
    · exact Option.some.inj hyes

end

/-- It holds of the time that has passed at most, as long as the system is prompt. -/
def By (P : ℤ → Prop) (s : Option ℤ) : Prop := ∀ time, s = some time → P time

theorem By.mono {P Q : ℤ → Prop} {s : Option ℤ} (h : By P s) (hPQ : ∀ time, P time → Q time) :
    By Q s := fun time hs => hPQ time (h time hs)

theorem endsWithin_of_triple {α : Type} {p : Proc α} {timeout rounds : ℤ}
    (h : ∀ slack first, 0 ≤ slack →
      (pace slack (first + (timeout + rounds) * nanosecondsPerMillisecond + rounds * slack)).Triple
        (By fun time => time = first - slack) p fun _ _ => True) :
    EndsWithin p timeout rounds := by
  intro w events slack first hlog hslack hprompt hfirst past hpast time htime
  have hbegin : By (fun time => time = first - slack) (some (first - slack)) := by
    rintro time' ⟨⟩
    rfl
  obtain ⟨events', s, hlog', hreads, -⟩ := h slack first hslack w _ trivial hbegin
  obtain rfl : events = events' := List.append_cancel_left (hlog.symm.trans hlog')
  obtain ⟨s', hpastReads⟩ := reads_past _ hreads hpast
  obtain ⟨time', -, hpaced⟩ := paced_of_reads (hprompt.past hpast) (shows_past hpast hfirst)
    hpastReads
  obtain ⟨rfl, hbound⟩ := hpaced.latest time htime
  exact hbound

/-! ## Looking at the clock and waiting -/

def Event.takesTime : Event → Bool
  | .clock _ | .waited .. => true
  | _ => false

theorem untimed_timeless : Untimed fun e => e.takesTime = false where
  opened _ := rfl
  closed _ := rfl
  used _ _ := rfl

theorem wrapNanoseconds_le {count : ℤ} (h : -2 ^ 63 ≤ count) : wrapNanoseconds count ≤ count := by
  unfold wrapNanoseconds
  rw [Int.bmod_def]
  split_ifs
  · omega
  · omega

theorem deadlineAfter_le {now timeout : ℤ} (hnow : -2 ^ 63 ≤ now) (htimeout : 0 < timeout) :
    deadlineAfter now timeout ≤ now + timeout * nanosecondsPerMillisecond := by
  refine wrapNanoseconds_le ?_
  unfold nanosecondsPerMillisecond
  omega

section

variable {slack bound deadline : ℤ} {α : Type} {P : ℤ → Prop}

theorem paceStep_timeless {time : ℤ} {e : Event} (h : e.takesTime = false) :
    paceStep slack bound (some time) e = some (some time) := by
  cases e with
  | clock | waited => cases h
  | resolved | opened | closed | used | sent | received | began | retained | adopted | moved => rfl

theorem pace_excused (events : List Event) : (pace slack bound).reads none events = some none := by
  induction events with
  | nil => rfl
  | cons e events ih => exact ih

theorem triple_timeless {p : Proc α} {Q : α → Prop}
    (h : p.Writes (fun e => e.takesTime = false) Q) :
    (pace slack bound).Triple (By P) p fun a s => Q a ∧ By P s := by
  refine h.triple fun e s he hs => ⟨s, ?_, hs⟩
  cases s with
  | none => rfl
  | some time => exact paceStep_timeless he

/-- What is known beside the time stays known. -/
theorem triple_frame {p : Proc α} {Q : α → Option ℤ → Prop} {φ : Prop}
    (h : (pace slack bound).Triple (By P) p Q) :
    (pace slack bound).Triple (By fun time => P time ∧ φ) p fun a s =>
      Q a s ∧ By (fun _ => φ) s := by
  intro w s hfits hs
  obtain ⟨events, s', hlog, hreads, hresult⟩ := h w s hfits (hs.mono fun _ h => h.1)
  refine ⟨events, s', hlog, hreads, fun a ha => ⟨hresult a ha, fun time hs' => ?_⟩⟩
  cases s with
  | some before => exact (hs before rfl).2
  | none =>
    rw [pace_excused, hs'] at hreads
    cases hreads

/-- The clock shows a time that has passed at most. -/
theorem triple_clock_pace (hP : ∀ time, P time → time + slack < bound) :
    (pace slack bound).Triple (By P) steadyClockNow fun now => By fun time =>
      time = now ∧ -2 ^ 63 ≤ now ∧ ∃ before, P before ∧ now ≤ before + slack := by
  refine triple_read.bind fun answer => ?_
  refine Triple.bind (Q := fun _ => By fun time => time = answer.time ∧ -2 ^ 63 ≤ answer.time ∧
    ∃ before, P before ∧ answer.time ≤ before + slack) ?_ fun _ => triple_pure fun _ h => h
  refine triple_emit fun s hs => ?_
  cases s with
  | none => exact ⟨none, rfl, nofun⟩
  | some before =>
    have hbefore := hs before rfl
    show ∃ s', paceStep slack bound (some before) (.clock answer.time) = some s' ∧ _
    simp only [paceStep]
    by_cases hprompt : -2 ^ 63 ≤ answer.time ∧ answer.time ≤ before + slack
    · rw [if_pos hprompt, if_pos (hprompt.2.trans_lt (hP before hbefore))]
      refine ⟨_, rfl, ?_⟩
      rintro time ⟨⟩
      exact ⟨rfl, hprompt.1, before, hbefore, hprompt.2⟩
    · rw [if_neg hprompt]
      exact ⟨none, rfl, nofun⟩

/-- Waiting so long leads at most a millisecond behind the deadline. -/
theorem triple_remainingTimeout_pace (hP : ∀ time, P time → time + slack < bound) :
    (pace slack bound).Triple (By P) (remainingTimeout deadline) fun remaining => By fun time =>
      (∃ before, P before ∧ time ≤ before + slack) ∧ (0 < remaining →
        time + remaining * nanosecondsPerMillisecond < deadline + nanosecondsPerMillisecond) := by
  refine (triple_clock_pace hP).bind fun now => ?_
  split
  · refine triple_pure fun s hs => hs.mono fun time h => ⟨?_, fun hpos => absurd hpos (lt_irrefl 0)⟩
    rw [h.1]
    exact h.2.2
  · next hpassed =>
    refine triple_pure fun s hs => hs.mono fun time h => ⟨?_, fun _ => ?_⟩
    · rw [h.1]
      exact h.2.2
    have hwrap : wrapNanoseconds (deadline - now) ≤ deadline - now :=
      wrapNanoseconds_le (by omega)
    rw [h.1]
    generalize wrapNanoseconds (deadline - now) = left at hwrap
    unfold nanosecondsPerMillisecond
    split_ifs with hnone
    · omega
    · by_cases hleft : 0 ≤ left
      · rw [Int.tdiv_eq_ediv_of_nonneg hleft] at hnone ⊢
        omega
      · have hnonneg : 0 ≤ (-left).tdiv 1000000 := Int.tdiv_nonneg (by omega) (by decide)
        rw [Int.neg_tdiv] at hnonneg
        omega

/-- There is room for a look at the clock, and a millisecond behind the deadline there still is. -/
structure Near (slack bound deadline time : ℤ) : Prop where
  now : time + slack < bound
  deadline : deadline + nanosecondsPerMillisecond + slack ≤ bound

theorem triple_near_clock :
    (pace slack bound).Triple (By (Near slack bound deadline)) steadyClockNow fun now =>
      By fun time => time = now ∧ deadline + nanosecondsPerMillisecond + slack ≤ bound :=
  (triple_clock_pace fun _ h => h.now).weaken (fun _ h => h) fun _ _ hs =>
    hs.mono fun _ h => ⟨h.1, h.2.2.elim fun _ hbefore => hbefore.1.deadline⟩

/-- Before the deadline. -/
theorem near_of_shown {now : ℤ} {s : Option ℤ}
    (h : By (fun time => time = now ∧ deadline + nanosecondsPerMillisecond + slack ≤ bound) s)
    (hnow : now < deadline) : By (Near slack bound deadline) s := by
  refine h.mono fun time hs => ⟨?_, hs.2⟩
  obtain ⟨rfl, hroom⟩ := hs
  unfold nanosecondsPerMillisecond at hroom
  omega

/-- So much time remains, if any. -/
def Ahead (slack bound deadline remaining time : ℤ) : Prop :=
  (0 < remaining →
    time + remaining * nanosecondsPerMillisecond < deadline + nanosecondsPerMillisecond) ∧
  deadline + nanosecondsPerMillisecond + slack ≤ bound

theorem Ahead.near {remaining time : ℤ} (h : Ahead slack bound deadline remaining time)
    (hremaining : 0 < remaining) : Near slack bound deadline time := by
  refine ⟨?_, h.2⟩
  have hends := h.1 hremaining
  have hroom := h.2
  simp only [nanosecondsPerMillisecond] at hends hroom
  omega

theorem triple_near_remaining :
    (pace slack bound).Triple (By (Near slack bound deadline)) (remainingTimeout deadline)
      fun remaining => By (Ahead slack bound deadline remaining) :=
  (triple_remainingTimeout_pace fun _ h => h.now).weaken (fun _ h => h) fun _ _ hs =>
    hs.mono fun _ h => ⟨h.2, h.1.elim fun _ hbefore => hbefore.1.deadline⟩

theorem triple_waitSocket_pace (hslack : 0 ≤ slack) {remaining : ℤ} (hremaining : 0 < remaining)
    (handle : Handle) (writable : Bool) :
    (pace slack bound).Triple (By (Ahead slack bound deadline remaining))
      (waitSocket handle remaining writable) fun _ => By (Near slack bound deadline) := by
  unfold waitSocket
  rw [if_neg (not_le.mpr hremaining)]
  refine triple_read.bind fun answer => ?_
  refine Triple.bind (Q := fun _ => By (Near slack bound deadline)) ?_ fun _ =>
    triple_pure fun _ h => h
  refine triple_emit fun s hs => ?_
  cases s with
  | none => exact ⟨none, rfl, nofun⟩
  | some before =>
    obtain ⟨hends, hroom⟩ := hs before rfl
    have hlow : 1 ≤ min (max 1 remaining) (kMaxInt : ℤ) := by
      unfold kMaxInt
      omega
    have hhigh : min (max 1 remaining) (kMaxInt : ℤ) ≤ remaining := by omega
    generalize min (max 1 remaining) (kMaxInt : ℤ) = milliseconds at hlow hhigh
    have hnear : Near slack bound deadline
        (before + milliseconds * nanosecondsPerMillisecond) := by
      refine ⟨?_, hroom⟩
      have hbefore := hends hremaining
      simp only [nanosecondsPerMillisecond] at hbefore hroom ⊢
      omega
    refine ⟨some (before + milliseconds * nanosecondsPerMillisecond), ?_, ?_⟩
    · refine if_pos ⟨by omega, ?_⟩
      have hspare := hnear.now
      omega
    · rintro time ⟨⟩
      exact hnear

end

end CppRequest
