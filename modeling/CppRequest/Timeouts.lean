import CppRequest.Deadlines

/-!
# Timeouts are reported when they are due

Each function that waits, against the clock: behind its first look at the clock it reports its
timeout only when the time given is over.
-/

namespace CppRequest

open Procedure Monitor

def TimedOut {α : Type} (code : ErrorCode) (r : Result α) : Prop :=
  ∃ e, r = .error e ∧ e.code = code

/-- A report is due. -/
def Reported (timeout start first : ℤ) (timedOut : Prop) (c : Clock) : Prop :=
  Running start first c ∧ (timedOut → Due timeout first c)

section

variable {timeout start first : ℤ} {α : Type}

theorem not_timedOut {code code' : ErrorCode} {nativeCode : ℤ} (h : code' ≠ code) :
    ¬ TimedOut code (.error { code := code', nativeCode } : Result α) := by
  rintro ⟨e, he, hcode⟩
  cases he
  exact h hcode

theorem not_timedOut_ok {code : ErrorCode} (a : α) : ¬ TimedOut code (.ok a) := by
  rintro ⟨e, he, -⟩
  cases he

/-- Nothing is reported. -/
theorem Reported.none {timedOut : Prop} {c : Clock} (h : Running start first c) (hno : ¬ timedOut) :
    Reported timeout start first timedOut c := ⟨h, fun ht => absurd ht hno⟩

/-! ## Failing -/

/-- A connection that fails with its timeout does so when that is due. -/
theorem triple_fail_due {P : Clock → Prop} (hP : Lasting P) (connection : TcpConnection)
    (timedOut : ErrorCode) {code : ErrorCode} (nativeCode : ℤ)
    (h : ∀ c, P c → Reported timeout start first (code = timedOut) c) :
    timeline.Triple (Timely P)
      (connection.fail code nativeCode : Proc (Result α × TcpConnection))
      fun r => Timely (Reported timeout start first (TimedOut timedOut r.1)) := by
  refine (hP.triple (writes_fail ordinary_any connection code nativeCode)).weaken
    (fun _ h => h) fun r c hr => ?_
  obtain ⟨rfl, hc⟩ := hr
  refine hc.mono fun clock hclock => ⟨(h clock hclock).1, fun htimedOut => ?_⟩
  obtain ⟨e, he, hcode⟩ := htimedOut
  cases he
  exact (h clock hclock).2 hcode

variable (htimeout : 0 < timeout)

include htimeout

theorem triple_retry_due (connection : TcpConnection) (handle : Handle) (writable : Bool)
    {timedOut failed : ErrorCode} (hclosed : .connectionClosed ≠ timedOut)
    (hfailed : failed ≠ timedOut) (attempt : SocketIoAttempt) :
    timeline.Triple (Timely (Running start first))
      (connection.retry handle (deadlineAfter first timeout) writable timedOut failed attempt :
        Proc (Option (Result α × TcpConnection)))
      fun r => Timely (Reported timeout start first
        (r.elim False fun r => TimedOut timedOut r.1)) := by
  have hfail : ∀ {P : Clock → Prop} (_ : Lasting P) code nativeCode,
      (∀ c, P c → Reported timeout start first (code = timedOut) c) →
      timeline.Triple (Timely P) (some <$> connection.fail code nativeCode :
        Proc (Option (Result α × TcpConnection))) fun r => Timely (Reported timeout start first
          (r.elim False fun r => TimedOut timedOut r.1)) :=
    fun hP code nativeCode h => (triple_fail_due hP connection timedOut nativeCode h).bind fun _ =>
      triple_pure fun _ h => h
  have hother : ∀ code nativeCode, code ≠ timedOut →
      timeline.Triple (Timely (Running start first)) (some <$> connection.fail code nativeCode :
        Proc (Option (Result α × TcpConnection))) fun r => Timely (Reported timeout start first
          (r.elim False fun r => TimedOut timedOut r.1)) :=
    fun code nativeCode hcode => hfail running_lasting code nativeCode fun _ h => .none h hcode
  have hagain : timeline.Triple (Timely (Running start first))
      (pure none : Proc (Option (Result α × TcpConnection))) fun r => Timely (Reported timeout
        start first (r.elim False fun r => TimedOut timedOut r.1)) :=
    triple_pure fun _ h => h.mono fun _ h => .none h not_false
  unfold TcpConnection.retry
  split
  · exact hother _ _ hclosed
  split
  · exact hagain
  split
  · exact hother _ _ hclosed
  split
  · exact hother _ _ hfailed
  refine (triple_remaining htimeout).bind fun remaining => ?_
  split
  · next hremaining =>
    exact hfail (running_lasting.and (enough_lasting remaining)) _ _
      fun c h => ⟨h.1, fun _ => h.2.due hremaining⟩
  refine (triple_wait handle remaining writable).bind fun wait => ?_
  have hrunning : ∀ c : Option Clock, Timely (fun c => Running start first c ∧
      (wait.status = .timedOut → Due timeout first c)) c → Timely (Running start first) c :=
    fun c h => h.mono fun _ h => h.1
  split
  · exact hagain.weaken hrunning fun _ _ h => h
  split
  · exact hagain.weaken hrunning fun _ _ h => h
  unfold TcpConnection.waitFailed
  split
  · next hstatus =>
    exact hfail (running_lasting.and (due_lasting.imp _)) _ _ fun c h => ⟨h.1, fun _ => h.2 hstatus⟩
  split
  · exact (hother _ _ hclosed).weaken hrunning fun _ _ h => h
  · exact (hother _ _ hfailed).weaken hrunning fun _ _ h => h

/-! ## Writing and reading -/

omit htimeout in
/-- The clock is read once more. -/
theorem triple_look :
    timeline.Triple (Timely (Running start first)) steadyClockNow fun now =>
      Timely fun c => Running start first c ∧ c.now = now :=
  triple_now fun _ _ h hle _ =>
    ⟨⟨by rw [h.shown, Option.some_or], h.begun, h.passed.trans hle⟩, rfl⟩

omit htimeout in
theorem running_look {now : ℤ} (c : Option Clock)
    (h : Timely (fun c => Running start first c ∧ c.now = now) c) :
    Timely (Running start first) c := h.mono fun _ h => h.1

/-- The deadline has passed. -/
theorem triple_overdue (connection : TcpConnection) {now : ℤ} (timedOut : ErrorCode)
    (nativeCode : ℤ) (hnow : now ≥ deadlineAfter first timeout) :
    timeline.Triple (Timely fun c => Running start first c ∧ c.now = now)
      (connection.fail timedOut nativeCode : Proc (Result α × TcpConnection))
      fun r => Timely (Reported timeout start first (TimedOut timedOut r.1)) := by
  refine (triple_fail_due (running_lasting.and due_lasting) connection timedOut nativeCode
    fun c h => ⟨h.1, fun _ => h.2⟩).weaken (fun c h => h.mono fun clock hclock => ?_) fun _ _ h => h
  obtain ⟨hrunning, rfl⟩ := hclock
  exact ⟨hrunning, due_of_deadline htimeout hnow⟩

theorem triple_writeRound_due (connection : TcpConnection) (handle : Handle) (data : Bytes)
    (totalWritten : ℕ) :
    timeline.Triple (Timely (Running start first))
      (TcpConnection.writeRound connection handle data (deadlineAfter first timeout) totalWritten)
      fun r c => r.elim (fun _ => Timely (Running start first) c)
        fun r => Timely (Reported timeout start first (TimedOut .writeTimeout r.1)) c := by
  unfold TcpConnection.writeRound
  split
  · refine triple_look.bind fun now => ?_
    split
    · next hnow =>
      exact (triple_overdue htimeout connection _ _ hnow).bind fun _ => triple_pure fun _ h => h
    refine Triple.bind ((running_lasting.triple (writes_sendSome (fun _ => trivial)
      _)).weaken running_look fun _ _ h => h.2) fun attempt => ?_
    split
    · exact triple_pure fun _ h => h
    refine (triple_retry_due htimeout connection handle true (by decide) (by decide) attempt).bind
      fun r => ?_
    cases r with
    | none => exact triple_pure fun _ h => h.mono fun _ h => h.1
    | some result => exact triple_pure fun _ h => h
  · refine Triple.bind ((running_lasting.triple (writes_setSocketNonblocking ordinary_any.used
      handle false)).weaken (fun _ h => h) fun _ _ h => h.2) fun mode => ?_
    cases mode with
    | error nativeCode =>
      exact (triple_fail_due running_lasting connection .writeTimeout _ fun _ h =>
        .none h (by decide)).bind
        fun _ => triple_pure fun _ h => h
    | ok => exact triple_pure fun _ h => h.mono fun _ h => .none h (not_timedOut_ok _)

theorem triple_readRound_due (connection : TcpConnection) (handle : Handle) (capacity : ℕ)
    (u : Unit) :
    timeline.Triple (Timely (Running start first))
      (TcpConnection.readRound connection handle capacity (deadlineAfter first timeout) u)
      fun r c => r.elim (fun _ => Timely (Running start first) c)
        fun r => Timely (Reported timeout start first (TimedOut .readTimeout r.1)) c := by
  refine triple_look.bind fun now => ?_
  split
  · next hnow =>
    exact (triple_overdue htimeout connection _ _ hnow).bind fun _ => triple_pure fun _ h => h
  refine Triple.bind ((running_lasting.triple (writes_receiveSome (fun _ => trivial)
    _)).weaken running_look fun _ _ h => h.2) fun r => ?_
  obtain ⟨attempt, data⟩ := r
  dsimp only
  split
  · refine Triple.bind ((running_lasting.triple (writes_setSocketNonblocking ordinary_any.used
      handle false)).weaken (fun _ h => h) fun _ _ h => h.2) fun mode => ?_
    cases mode with
    | error nativeCode =>
      exact (triple_fail_due running_lasting connection .readTimeout _ fun _ h =>
        .none h (by decide)).bind
        fun _ => triple_pure fun _ h => h
    | ok => exact triple_pure fun _ h => h.mono fun _ h => .none h (not_timedOut_ok _)
  · refine (triple_retry_due htimeout connection handle false (by decide) (by decide) attempt).bind
      fun r => ?_
    cases r with
    | none => exact triple_pure fun _ h => h.mono fun _ h => h.1
    | some result => exact triple_pure fun _ h => h

/-! ## Connecting -/

omit htimeout in
theorem triple_connectWithTimeout_due (handle : Handle) (address : Bytes) (remaining : ℤ) :
    timeline.Triple
      (Timely fun c => Running start first c ∧ Enough timeout first remaining c)
      (connectWithTimeout handle address remaining)
      fun result => Timely (Reported timeout start first (result.status = .timedOut)) := by
  have hlasting : Lasting fun c => Running start first c ∧ Enough timeout first remaining c :=
    running_lasting.and (enough_lasting remaining)
  have hno : ∀ {result : ConnectAttemptResult}, result.status ≠ .timedOut →
      timeline.Triple
        (Timely fun c => Running start first c ∧ Enough timeout first remaining c)
        (pure result : Proc ConnectAttemptResult)
        fun result => Timely (Reported timeout start first (result.status = .timedOut)) :=
    fun hresult => triple_pure fun _ h => h.mono fun _ h => .none h.1 hresult
  have hrestore : ∀ {result : ConnectAttemptResult}, result.status ≠ .timedOut →
      timeline.Triple (Timely (Running start first)) (restoreBlocking handle result)
        fun result => Timely (Reported timeout start first (result.status = .timedOut)) :=
    fun hresult => (running_lasting.triple (writes_restoreBlocking ordinary_any handle
      hresult)).weaken (fun _ h => h) fun _ _ h => h.2.mono fun _ hc => .none hc h.1
  have hrunning : ∀ c : Option Clock, Timely (fun c => Running start first c ∧
      Enough timeout first remaining c) c → Timely (Running start first) c :=
    fun c h => h.mono fun _ h => h.1
  unfold connectWithTimeout
  split
  · next hremaining =>
    exact triple_pure fun _ h => h.mono fun _ h => ⟨h.1, fun _ => h.2.due hremaining⟩
  refine Triple.bind ((hlasting.triple (writes_setSocketNonblocking ordinary_any.used handle
    true)).weaken (fun _ h => h) fun _ _ h => h.2) fun mode => ?_
  cases mode with
  | error nativeCode => exact hno nofun
  | ok =>
    refine Triple.bind ((hlasting.triple (writes_emit trivial)).weaken (fun _ h => h)
      fun _ _ h => h.2) fun _ => ?_
    refine Triple.bind ((hlasting.triple writes_read).weaken (fun _ h => h)
      fun _ _ h => h.2) fun answer => ?_
    split
    · exact (hrestore (by decide)).weaken hrunning fun _ _ h => h
    split
    · exact hno nofun
    refine (triple_wait handle remaining true).bind fun wait => ?_
    cases hstatus : wait.status with
    | timedOut => exact triple_pure fun _ h => h.mono fun _ h => ⟨h.1, fun _ => h.2 rfl⟩
    | failed => exact triple_pure fun _ h => h.mono fun _ h => .none h.1 nofun
    | ready =>
      refine Triple.bind ((running_lasting.triple (writes_socketErrorResult ordinary_any
        handle)).weaken (fun c h => h.mono fun _ h => h.1) fun _ _ h => h) fun result => ?_
      refine triple_and fun hresult => ?_
      split
      · exact hrestore hresult
      · exact triple_pure fun _ h => h.mono fun _ h => .none h hresult

theorem triple_connectLoop_due (platform : Platform) (state : TcpConnection.ConnectState)
    (endpoints : List Endpoint) :
    timeline.Triple (Timely (Running start first))
      (TcpConnection.connectLoop platform (deadlineAfter first timeout) state endpoints)
      fun r => Timely (Reported timeout start first (TimedOut .connectTimeout r)) := by
  have hno : ∀ {r : Result TcpConnection}, ¬ TimedOut .connectTimeout r →
      timeline.Triple (Timely (Running start first)) (pure r : Proc (Result TcpConnection))
        fun r => Timely (Reported timeout start first (TimedOut .connectTimeout r)) :=
    fun hr => triple_pure fun _ h => h.mono fun _ h => .none h hr
  induction endpoints generalizing state with
  | nil =>
    unfold TcpConnection.connectLoop
    split_ifs
    · exact hno (not_timedOut (by decide))
    · exact hno (not_timedOut (by decide))
    · exact hno (not_timedOut (by decide))
  | cons endpoint endpoints ih =>
    unfold TcpConnection.connectLoop
    split
    · exact ih state
    refine triple_look.bind fun now => ?_
    split
    · next hnow =>
      refine triple_pure fun _ h => h.mono fun clock hclock => ?_
      obtain ⟨hrunning, rfl⟩ := hclock
      exact ⟨hrunning, fun _ => due_of_deadline htimeout hnow⟩
    refine Triple.bind ((running_lasting.triple (writes_createTcpSocket ordinary_any
      platform)).weaken running_look fun _ _ h => h.2) fun r => ?_
    obtain ⟨⟨_ | handle⟩, createError⟩ := r
    · exact ih _
    · refine (triple_remaining htimeout).bind fun remaining => ?_
      refine (triple_connectWithTimeout_due handle endpoint.address remaining).bind fun attempt => ?_
      have hlasting : Lasting (Reported timeout start first (attempt.status = .timedOut)) :=
        running_lasting.and (due_lasting.imp _)
      split
      · exact triple_pure fun _ h => h.mono fun _ h => .none h.1 (not_timedOut_ok _)
      refine Triple.bind ((hlasting.triple (writes_close ordinary_any _)).weaken (fun _ h => h)
        fun _ _ h => h.2) fun _ => ?_
      split
      · next hstatus => exact triple_pure fun _ h => h.mono fun _ h => ⟨h.1, fun _ => h.2 hstatus⟩
      · exact (ih _).weaken (fun _ h => h.mono fun _ h => h.1) fun _ _ h => h

/-! ## Whole calls -/

/-- The timeout of a call that began at this time is reported when it is due. -/
def Punctual (timeout start : ℤ) (timedOut : Prop) (c : Clock) : Prop :=
  timedOut → ∃ first, Running start first c ∧ Due timeout first c

omit htimeout in
theorem Reported.punctual {timedOut : Prop} {c : Clock}
    (h : Reported timeout start first timedOut c) : Punctual timeout start timedOut c :=
  fun ht => ⟨first, h.1, h.2 ht⟩

omit htimeout in
/-- The first look at the clock. -/
theorem triple_first :
    timeline.Triple (Timely fun c => c = { now := start }) steadyClockNow
      fun now => Timely (Running start now) := by
  refine triple_now fun c time h hle _ => ?_
  subst h
  exact ⟨rfl, hle, le_rfl⟩

omit htimeout in
theorem timeline_ignores_used (handle : Handle) (call : SocketCall) :
    timeline.Ignores (.used handle call) := by
  intro c
  cases c with
  | none => rfl
  | some c => rfl

theorem triple_connect_punctual (platform : Platform) (endpoints : List Endpoint) :
    timeline.Triple (Timely fun c => c = { now := start })
      (TcpConnection.connect platform endpoints timeout)
      fun r => Timely (Punctual timeout start (TimedOut .connectTimeout r)) := by
  unfold TcpConnection.connect
  rw [if_neg (not_le.mpr htimeout)]
  split
  · exact triple_pure fun _ h => h.mono fun _ _ ht => absurd ht (not_timedOut (by decide))
  · refine triple_first.bind fun now => ?_
    exact (triple_connectLoop_due htimeout platform _ _).weaken (fun _ h => h)
      fun _ _ h => h.mono fun _ h => h.punctual

theorem triple_writeAll_punctual (connection : TcpConnection) (data : Bytes) :
    timeline.Triple (Timely fun c => c = { now := start }) (connection.writeAll data timeout)
      fun r => Timely (Punctual timeout start (TimedOut .writeTimeout r.1)) := by
  unfold TcpConnection.writeAll
  split
  · exact triple_pure fun _ h => h.mono fun _ _ ht => absurd ht (not_timedOut (by decide))
  split
  · exact triple_pure fun _ h => h.mono fun _ _ ht => absurd ht (not_timedOut_ok _)
  rw [if_neg (not_le.mpr htimeout)]
  refine Triple.bind (writes_setSocketNonblocking timeline_ignores_used _ true).ignored
    fun mode => triple_and fun _ => ?_
  cases mode with
  | error nativeCode =>
    have hany : Lasting fun _ => True := fun _ _ _ _ _ => trivial
    refine (hany.triple (writes_fail ordinary_any connection _ nativeCode)).weaken
      (fun _ _ _ _ => trivial) fun r c h => ?_
    obtain ⟨rfl, -⟩ := h
    exact fun _ _ ht => absurd ht (not_timedOut (by decide))
  | ok =>
    refine triple_first.bind fun now => ?_
    exact (triple_loop (fun _ c => Timely (Running start now) c)
      (triple_writeRound_due htimeout connection _ data) 0).weaken (fun _ h => h)
      fun _ _ h => h.mono fun _ h => h.punctual

theorem triple_readSome_punctual (connection : TcpConnection) (capacity : ℕ) :
    timeline.Triple (Timely fun c => c = { now := start }) (connection.readSome capacity timeout)
      fun r => Timely (Punctual timeout start (TimedOut .readTimeout r.1)) := by
  unfold TcpConnection.readSome
  split
  · exact triple_pure fun _ h => h.mono fun _ _ ht => absurd ht (not_timedOut (by decide))
  split
  · exact triple_pure fun _ h => h.mono fun _ _ ht => absurd ht (not_timedOut_ok _)
  rw [if_neg (not_le.mpr htimeout)]
  refine Triple.bind (writes_setSocketNonblocking timeline_ignores_used _ true).ignored
    fun mode => triple_and fun _ => ?_
  cases mode with
  | error nativeCode =>
    have hany : Lasting fun _ => True := fun _ _ _ _ _ => trivial
    refine (hany.triple (writes_fail ordinary_any connection _ nativeCode)).weaken
      (fun _ _ _ _ => trivial) fun r c h => ?_
    obtain ⟨rfl, -⟩ := h
    exact fun _ _ ht => absurd ht (not_timedOut (by decide))
  | ok =>
    refine triple_first.bind fun now => ?_
    exact (triple_loop (fun _ c => Timely (Running start now) c)
      (triple_readRound_due htimeout connection _ capacity) ()).weaken (fun _ h => h)
      fun _ _ h => h.mono fun _ h => h.punctual

end

end CppRequest
