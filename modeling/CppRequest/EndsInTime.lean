import CppRequest.Promptness

/-!
# The calls that end in time

The loops over endpoints, and over what is still to be written or read, stay near their deadline.
-/

namespace CppRequest

open Procedure Monitor

section

variable {slack bound deadline : ℤ}

/-! ## Connecting -/

/-- Where an attempt has not taken too long there is time for another one. -/
theorem triple_connectWithTimeout_pace (hslack : 0 ≤ slack) (handle : Handle) (address : Bytes)
    (remaining : ℤ) :
    (pace slack bound).Triple (By (Ahead slack bound deadline remaining))
      (connectWithTimeout handle address remaining) fun attempt => By fun time =>
        attempt.status ≠ .timedOut → Near slack bound deadline time := by
  have hnear : ∀ attempt : ConnectAttemptResult,
      (pace slack bound).Triple (By (Near slack bound deadline))
        (pure attempt : Proc ConnectAttemptResult) fun attempt => By fun time =>
          attempt.status ≠ .timedOut → Near slack bound deadline time :=
    fun attempt => triple_pure fun _ h => h.mono fun _ hnear _ => hnear
  have hrestore : ∀ result : ConnectAttemptResult, result.status ≠ .timedOut →
      (pace slack bound).Triple (By (Near slack bound deadline)) (restoreBlocking handle result)
        fun attempt => By fun time => attempt.status ≠ .timedOut → Near slack bound deadline time :=
    fun result hresult => (triple_timeless (writes_restoreBlocking untimed_timeless handle
      hresult)).weaken (fun _ h => h) fun _ _ h => h.2.mono fun _ hnear _ => hnear
  unfold connectWithTimeout
  split
  · exact triple_pure fun _ h => h.mono fun _ _ hstatus => absurd rfl hstatus
  next hremaining =>
  have hpos : 0 < remaining := not_le.mp hremaining
  have hless : ∀ s : Option ℤ, By (Ahead slack bound deadline remaining) s →
      By (Near slack bound deadline) s := fun s h => h.mono fun _ hahead => hahead.near hpos
  refine (triple_timeless (writes_setSocketNonblocking untimed_timeless.used handle true)).bind
    fun mode => triple_and fun _ => ?_
  cases mode with
  | error nativeCode => exact (hnear _).weaken hless fun _ _ h => h
  | ok =>
    refine (triple_timeless (writes_emit rfl)).bind fun _ => triple_and fun _ => ?_
    refine triple_read.bind fun answer => ?_
    split
    · exact (hrestore _ (by decide)).weaken hless fun _ _ h => h
    split
    · exact (hnear _).weaken hless fun _ _ h => h
    refine (triple_waitSocket_pace hslack hpos handle true).bind fun wait => ?_
    cases wait.status with
    | timedOut => exact hnear _
    | failed => exact hnear _
    | ready =>
      refine (triple_timeless (writes_socketErrorResult untimed_timeless handle)).bind
        fun result => triple_and fun hresult => ?_
      split
      · exact hrestore result hresult
      · exact hnear result

theorem triple_connectLoop_pace (hslack : 0 ≤ slack) (platform : Platform)
    (state : TcpConnection.ConnectState) (endpoints : List Endpoint) :
    (pace slack bound).Triple (By (Near slack bound deadline))
      (TcpConnection.connectLoop platform deadline state endpoints) fun _ _ => True := by
  induction endpoints generalizing state with
  | nil =>
    unfold TcpConnection.connectLoop
    split_ifs
    · exact triple_pure fun _ _ => trivial
    · exact triple_pure fun _ _ => trivial
    · exact triple_pure fun _ _ => trivial
  | cons endpoint endpoints ih =>
    unfold TcpConnection.connectLoop
    split
    · exact ih state
    refine (triple_near_clock).bind fun now => ?_
    split
    · exact triple_pure fun _ _ => trivial
    next hnow =>
    refine Triple.bind ((triple_timeless (writes_createTcpSocket untimed_timeless platform)).weaken
      (fun s h => near_of_shown h (not_le.mp hnow)) fun _ _ h => h.2) fun r => ?_
    obtain ⟨⟨_ | handle⟩, createError⟩ := r
    · exact ih _
    refine (triple_near_remaining).bind fun remaining => ?_
    refine (triple_connectWithTimeout_pace hslack handle endpoint.address remaining).bind fun attempt => ?_
    split
    · exact triple_pure fun _ _ => trivial
    refine (triple_timeless (writes_close untimed_timeless _)).bind fun _ => triple_and fun _ => ?_
    split
    · exact triple_pure fun _ _ => trivial
    · next hstatus =>
      exact (ih _).weaken (fun _ h => By.mono h fun _ hnear => hnear hstatus) fun _ _ h => h

/-! ## Transferring -/

variable {connection : TcpConnection} {handle : Handle}

theorem triple_fail_pace {α : Type} {P : ℤ → Prop} (connection : TcpConnection) (code : ErrorCode)
    (nativeCode : ℤ) :
    (pace slack bound).Triple (By P)
      (connection.fail code nativeCode : Proc (Result α × TcpConnection)) fun r _ => Failed r :=
  (triple_timeless (writes_fail untimed_timeless connection code nativeCode)).weaken
    (fun _ h => h) fun _ _ h => ⟨_, h.1⟩

/-- What goes round again is still near the deadline. -/
theorem triple_retry_pace {α : Type} (hslack : 0 ≤ slack) (connection : TcpConnection)
    (handle : Handle) (writable : Bool) (timedOut failed : ErrorCode) (attempt : SocketIoAttempt) :
    (pace slack bound).Triple (By (Near slack bound deadline))
      (connection.retry handle deadline writable timedOut failed attempt :
        Proc (Option (Result α × TcpConnection)))
      fun r s => r.elim (By (Near slack bound deadline) s) Failed := by
  have hfail : ∀ {P : ℤ → Prop} code nativeCode, (pace slack bound).Triple (By P)
      (some <$> connection.fail code nativeCode : Proc (Option (Result α × TcpConnection)))
      fun r s => r.elim (By (Near slack bound deadline) s) Failed :=
    fun code nativeCode => (triple_fail_pace connection code nativeCode).bind fun _ =>
      triple_pure fun _ h => h
  have hagain : (pace slack bound).Triple (By (Near slack bound deadline))
      (pure none : Proc (Option (Result α × TcpConnection)))
      fun r s => r.elim (By (Near slack bound deadline) s) Failed := triple_pure fun _ h => h
  unfold TcpConnection.retry
  split
  · exact hfail _ _
  split
  · exact hagain
  split
  · exact hfail _ _
  split
  · exact hfail _ _
  refine triple_near_remaining.bind fun remaining => ?_
  split
  · exact hfail _ _
  next hremaining =>
  refine (triple_waitSocket_pace hslack (not_le.mp hremaining) handle writable).bind fun wait => ?_
  split
  · exact hagain
  split
  · exact hagain
  unfold TcpConnection.waitFailed
  split
  · exact hfail _ _
  split
  · exact hfail _ _
  · exact hfail _ _

/-- Behind a call that has succeeded there is room for a look at the clock. -/
def Spares {α : Type} (slack bound : ℤ) (r : Result α × TcpConnection) (s : Option ℤ) : Prop :=
  (∃ a, r.1 = .ok a) → By (fun time => time + slack < bound) s

theorem spares_failed {α : Type} {r : Result α × TcpConnection} (h : Failed r) (s : Option ℤ) :
    Spares slack bound r s := by
  obtain ⟨e, rfl⟩ := h
  rintro ⟨a, ha⟩
  cases ha

theorem triple_writeRound_pace (hslack : 0 ≤ slack) (connection : TcpConnection) (handle : Handle)
    (data : Bytes) (n : ℕ) :
    (pace slack bound).Triple (By (Near slack bound deadline))
      (TcpConnection.writeRound connection handle data deadline n) fun r s =>
        r.elim (fun _ => By (Near slack bound deadline) s) fun r => Spares slack bound r s := by
  unfold TcpConnection.writeRound
  split
  · refine triple_near_clock.bind fun now => ?_
    split
    · exact (triple_fail_pace connection _ _).bind fun _ => triple_pure fun s h => spares_failed h s
    next hnow =>
    refine Triple.bind ((triple_timeless (writes_sendSome (fun _ => rfl) _)).weaken
      (fun s h => near_of_shown h (not_le.mp hnow)) fun _ _ h => h.2) fun attempt => ?_
    split
    · exact triple_pure fun _ h => h
    refine (triple_retry_pace hslack connection handle true _ _ attempt).bind fun r => ?_
    cases r with
    | none => exact triple_pure fun _ h => h
    | some result => exact triple_pure fun s h => spares_failed h s
  · refine (triple_timeless (writes_setSocketNonblocking untimed_timeless.used handle false)).bind
      fun mode => triple_and fun _ => ?_
    cases mode with
    | error nativeCode =>
      exact (triple_fail_pace connection _ _).bind fun _ => triple_pure fun s h => spares_failed h s
    | ok => exact triple_pure fun _ h _ => h.mono fun _ hnear => hnear.now

theorem triple_readRound_pace (hslack : 0 ≤ slack) (connection : TcpConnection) (handle : Handle)
    (capacity : ℕ) (u : Unit) :
    (pace slack bound).Triple (By (Near slack bound deadline))
      (TcpConnection.readRound connection handle capacity deadline u) fun r s =>
        r.elim (fun _ => By (Near slack bound deadline) s) fun _ => True := by
  refine triple_near_clock.bind fun now => ?_
  split
  · exact (triple_fail_pace connection _ _).bind fun _ => triple_pure fun _ _ => trivial
  next hnow =>
  refine Triple.bind ((triple_timeless (writes_receiveSome (fun _ => rfl) _)).weaken
    (fun s h => near_of_shown h (not_le.mp hnow)) fun _ _ h => h.2) fun r => ?_
  obtain ⟨attempt, data⟩ := r
  dsimp only
  split
  · refine (triple_timeless (writes_setSocketNonblocking untimed_timeless.used handle false)).bind
      fun mode => triple_and fun _ => ?_
    cases mode with
    | error nativeCode =>
      exact (triple_fail_pace connection _ _).bind fun _ => triple_pure fun _ _ => trivial
    | ok => exact triple_pure fun _ _ => trivial
  refine (triple_retry_pace hslack connection handle false _ _ attempt).bind fun r => ?_
  cases r with
  | none => exact triple_pure fun _ h => h
  | some result => exact triple_pure fun _ _ => trivial

/-! ## Whole calls -/

/-- A call with this timeout may begin. -/
structure Begins (slack bound timeout time : ℤ) : Prop where
  now : time + slack < bound
  ends : 0 < timeout → time + (timeout + 1) * nanosecondsPerMillisecond + 2 * slack ≤ bound

/-- The deadline of a call is counted from its first look at the clock. -/
theorem triple_begin {timeout : ℤ} (htimeout : 0 < timeout) :
    (pace slack bound).Triple (By (Begins slack bound timeout)) steadyClockNow fun now =>
      By (Near slack bound (deadlineAfter now timeout)) := by
  refine (triple_clock_pace fun _ h => h.now).weaken (fun _ h => h) fun now s hs =>
    hs.mono fun time h => ?_
  obtain ⟨rfl, hlow, before, hbegins, hshown⟩ := h
  have hdeadline := deadlineAfter_le hlow htimeout
  have hends := hbegins.ends htimeout
  generalize deadlineAfter time timeout = deadline at hdeadline ⊢
  simp only [nanosecondsPerMillisecond] at hdeadline hends
  refine ⟨?_, ?_⟩
  · omega
  · simp only [nanosecondsPerMillisecond]
    omega

theorem triple_connect_pace (hslack : 0 ≤ slack) (platform : Platform) (endpoints : List Endpoint)
    (timeout : ℤ) :
    (pace slack bound).Triple (By (Begins slack bound timeout))
      (TcpConnection.connect platform endpoints timeout) fun _ _ => True := by
  unfold TcpConnection.connect
  split
  · exact triple_pure fun _ _ => trivial
  next htimeout =>
  split
  · exact triple_pure fun _ _ => trivial
  · exact (triple_begin (not_le.mp htimeout)).bind fun now =>
      triple_connectLoop_pace hslack platform _ endpoints

theorem triple_writeAll_pace (hslack : 0 ≤ slack) (connection : TcpConnection) (data : Bytes)
    (timeout : ℤ) :
    (pace slack bound).Triple (By (Begins slack bound timeout)) (connection.writeAll data timeout)
      (Spares slack bound) := by
  unfold TcpConnection.writeAll
  split
  · exact triple_pure fun s _ => spares_failed ⟨_, rfl⟩ s
  split
  · exact triple_pure fun _ h _ => h.mono fun _ hbegins => hbegins.now
  split
  · exact (triple_fail_pace connection _ _).weaken (fun _ h => h) fun _ s h => spares_failed h s
  next htimeout =>
  refine (triple_timeless (writes_setSocketNonblocking untimed_timeless.used _ true)).bind
    fun mode => triple_and fun _ => ?_
  cases mode with
  | error nativeCode =>
    exact (triple_fail_pace connection _ _).weaken (fun _ h => h) fun _ s h => spares_failed h s
  | ok =>
    refine (triple_begin (not_le.mp htimeout)).bind fun now => ?_
    exact triple_loop (fun _ => By (Near slack bound (deadlineAfter now timeout)))
      (triple_writeRound_pace hslack connection _ data) 0

theorem triple_readSome_pace (hslack : 0 ≤ slack) (connection : TcpConnection) (capacity : ℕ)
    (timeout : ℤ) :
    (pace slack bound).Triple (By (Begins slack bound timeout))
      (connection.readSome capacity timeout) fun _ _ => True := by
  unfold TcpConnection.readSome
  split
  · exact triple_pure fun _ _ => trivial
  split
  · exact triple_pure fun _ _ => trivial
  split
  · exact (triple_fail_pace connection _ _).weaken (fun _ h => h) fun _ _ _ => trivial
  next htimeout =>
  refine (triple_timeless (writes_setSocketNonblocking untimed_timeless.used _ true)).bind
    fun mode => triple_and fun _ => ?_
  cases mode with
  | error nativeCode =>
    exact (triple_fail_pace connection _ _).weaken (fun _ h => h) fun _ _ _ => trivial
  | ok =>
    refine (triple_begin (not_le.mp htimeout)).bind fun now => ?_
    exact triple_loop (fun _ => By (Near slack bound (deadlineAfter now timeout)))
      (triple_readRound_pace hslack connection _ capacity) ()

/-- Both halves of a request are to end a millisecond behind what they were given. -/
def Halved (slack bound deadline : ℤ) : Prop :=
  deadline + 2 * nanosecondsPerMillisecond + 2 * slack ≤ bound

/-- What remains until the deadline is a timeout with which one of the halves may begin. -/
theorem triple_remaining_begins {P : ℤ → Prop}
    (hP : ∀ time, P time → time + slack < bound ∧ Halved slack bound deadline) :
    (pace slack bound).Triple (By P) (remainingTimeout deadline) fun remaining => By fun time =>
      (∃ before, P before ∧ time ≤ before + slack) ∧
      (0 < remaining → Begins slack bound remaining time) := by
  refine (triple_remainingTimeout_pace fun time h => (hP time h).1).weaken (fun _ h => h)
    fun remaining s hs => hs.mono fun time h => ⟨h.1, fun hremaining => ?_⟩
  obtain ⟨before, hbefore, hle⟩ := h.1
  obtain ⟨hroom, hbound⟩ := hP before hbefore
  have hends := h.2 hremaining
  simp only [Halved, nanosecondsPerMillisecond] at hends hbound
  refine ⟨?_, fun _ => ?_⟩
  · omega
  · simp only [nanosecondsPerMillisecond]
    omega

/-- Where nothing remains the other half is not begun. -/
theorem triple_writeAll_late {P : ℤ → Prop} {data : Bytes} {timeout : ℤ}
    (connection : TcpConnection) (hdata : data.isEmpty = false) (htimeout : timeout ≤ 0) :
    (pace slack bound).Triple (By P) (connection.writeAll data timeout) fun _ _ => True := by
  unfold TcpConnection.writeAll
  split
  · exact triple_pure fun _ _ => trivial
  rw [hdata, if_neg Bool.false_ne_true, if_pos htimeout]
  exact (triple_fail_pace connection _ _).weaken (fun _ h => h) fun _ _ _ => trivial

theorem triple_writeRequest_pace {timeout first : ℤ} (htimeout : 0 < timeout) (hslack : 0 ≤ slack)
    (hbound : bound = first + (timeout + 2) * nanosecondsPerMillisecond + 2 * slack)
    (connection : TcpConnection) (serialized : SerializedRequest) :
    (pace slack bound).Triple (By fun time => time = first - slack)
      (Client.writeRequest connection serialized timeout) fun _ _ => True := by
  have hroom : first + 2 * slack < bound := by
    simp only [nanosecondsPerMillisecond] at hbound
    omega
  refine (triple_clock_pace fun time htime => by omega).bind fun now => ?_
  -- the deadline is counted from the time shown first
  refine Triple.bind (Q := fun remaining => By fun time => Begins slack bound remaining time ∧
    Halved slack bound (deadlineAfter now timeout)) ((triple_remaining_begins
      (P := fun time => time ≤ first ∧ Halved slack bound (deadlineAfter now timeout))
      fun time h => ⟨by omega, h.2⟩).weaken ?_ ?_) fun remaining => ?_
  · refine fun s hs => hs.mono fun time h => ?_
    obtain ⟨rfl, hlow, before, rfl, hshown⟩ := h
    have hdeadline := deadlineAfter_le hlow htimeout
    simp only [Halved, nanosecondsPerMillisecond] at hdeadline hbound ⊢
    omega
  · refine fun remaining s hs => hs.mono fun time h => ?_
    obtain ⟨⟨before, ⟨hbefore, hhalved⟩, hle⟩, hbegins⟩ := h
    exact ⟨⟨by omega, fun hremaining => (hbegins hremaining).ends hremaining⟩, hhalved⟩
  refine (triple_frame (triple_writeAll_pace hslack connection serialized.head remaining)).bind
    fun r => ?_
  obtain ⟨_ | _, connection'⟩ := r
  · exact triple_pure fun _ _ => trivial
  dsimp only
  split
  · exact triple_pure fun _ _ => trivial
  next hbody =>
  refine Triple.bind ((triple_remaining_begins (P := fun time => time + slack < bound ∧
    Halved slack bound (deadlineAfter now timeout)) fun _ h => h).weaken ?_ fun _ _ h => h)
    fun remaining => ?_
  · exact fun s hs time htime => ⟨hs.1 ⟨_, rfl⟩ time htime, hs.2 time htime⟩
  refine Triple.bind (Q := fun _ _ => True) ?_ fun r => ?_
  · by_cases hremaining : 0 < remaining
    · exact (triple_writeAll_pace hslack connection' serialized.body remaining).weaken
        (fun s hs => By.mono hs fun time h => h.2 hremaining) fun _ _ _ => trivial
    · exact triple_writeAll_late connection' (by simpa using hbody) (not_lt.mp hremaining)
  · obtain ⟨_ | _, connection''⟩ := r
    · exact triple_pure fun _ _ => trivial
    · exact triple_pure fun _ _ => trivial

end

/-- The time given to a call bounds it: whatever the system answers, as long as waits return in
time and the rest takes no longer than the slack, a call is at most a millisecond and the slack
behind its timeout, however many endpoints are tried, and however often it has to wait. The two
halves of a request share one deadline. -/
theorem calls_end_in_time {timeout : ℤ} (htimeout : 0 < timeout) :
    (∀ platform endpoints,
      EndsWithin (TcpConnection.connect platform endpoints timeout) timeout 1) ∧
    (∀ (connection : TcpConnection) data,
      EndsWithin (connection.writeAll data timeout) timeout 1) ∧
    (∀ (connection : TcpConnection) capacity,
      EndsWithin (connection.readSome capacity timeout) timeout 1) ∧
    ∀ connection serialized,
      EndsWithin (Client.writeRequest connection serialized timeout) timeout 2 := by
  have hbegins : ∀ {slack first : ℤ}, 0 ≤ slack → ∀ s, By (fun time => time = first - slack) s →
      By (Begins slack (first + (timeout + 1) * nanosecondsPerMillisecond + 1 * slack) timeout)
        s := by
    intro slack first hslack s hs
    refine hs.mono fun time htime => ⟨?_, fun _ => ?_⟩
    · simp only [nanosecondsPerMillisecond]
      omega
    · simp only [nanosecondsPerMillisecond]
      omega
  refine ⟨fun platform endpoints => ?_, fun connection data => ?_, fun connection capacity => ?_,
    fun connection serialized => ?_⟩
  · exact endsWithin_of_triple fun slack first hslack =>
      (triple_connect_pace hslack platform endpoints timeout).weaken (hbegins hslack)
        fun _ _ h => h
  · exact endsWithin_of_triple fun slack first hslack =>
      (triple_writeAll_pace hslack connection data timeout).weaken (hbegins hslack)
        fun _ _ _ => trivial
  · exact endsWithin_of_triple fun slack first hslack =>
      (triple_readSome_pace hslack connection capacity timeout).weaken (hbegins hslack)
        fun _ _ h => h
  · exact endsWithin_of_triple fun slack first hslack =>
      triple_writeRequest_pace htimeout hslack rfl connection serialized

/-- A peer takes two of three bytes, and no more until the timeout of a millisecond is over. -/
def stallingAnswers : List Answer :=
  [{}, {}, { time := 1 }, { time := 2 }, { result := 2 }, { time := 3 },
    { result := -1, errno := EAGAIN }, { time := 4 }, { result := 1 }, { time := 1000003 }]

theorem calls_end_in_time_stalling :
    ∃ w, (TcpConnection.writeAll (.adoptNativeHandle 0) (bytes "abc") 1).run
        ⟨stallingAnswers, []⟩ = (some (.error { code := .writeTimeout }, {}), w) ∧
      ∀ past, past <+: w.log → ∀ time, latest past = some time →
        time < 1 + (1 + 1) * nanosecondsPerMillisecond + 1 * 10 := by
  have hdone : ((TcpConnection.writeAll (.adoptNativeHandle 0) (bytes "abc") 1).run
      ⟨stallingAnswers, []⟩).1 = some (.error { code := .writeTimeout }, {}) := by decide +kernel
  have hprompt : promptBehind 10 (latest [])
      ((TcpConnection.writeAll (.adoptNativeHandle 0) (bytes "abc") 1).run
        ⟨stallingAnswers, []⟩).2.log = true := by decide +kernel
  have hfirst : ((TcpConnection.writeAll (.adoptNativeHandle 0) (bytes "abc") 1).run
      ⟨stallingAnswers, []⟩).2.log.findSome? Event.shows = some 1 := by decide +kernel
  have hcall := (calls_end_in_time (show (0 : ℤ) < 1 by decide)).2.1 (.adoptNativeHandle 0)
    (bytes "abc") ⟨stallingAnswers, []⟩
  generalize (TcpConnection.writeAll (.adoptNativeHandle 0) (bytes "abc") 1).run
    ⟨stallingAnswers, []⟩ = r at hdone hprompt hfirst hcall
  exact ⟨r.2, Prod.ext hdone rfl, fun past hpast time htime => hcall r.2.log 10 1 rfl (by decide)
    (prompt_of_promptBehind prompt_nil hprompt) hfirst past hpast time htime⟩

end CppRequest
