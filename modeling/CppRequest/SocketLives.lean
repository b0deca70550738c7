import CppRequest.HandleMachines

/-!
# The lives of sockets

The order of the calls on a socket, as a machine. A new socket is told not to block, connected, and
told to block again. So is a connection for every transfer of data: an attempt that would block is
made again only when a wait in its direction, and not one for ever, has come back.
-/

namespace CppRequest

open Procedure Monitor

/-! ## The machine -/

/-- How far a socket has come. Before its mode is set its flags are fetched. -/
inductive Phase
  | created | toConnect
  | unconnected | connecting | answered | connected
  | toRest | idle | toTransfer
  | ready | again (writable : Bool) | waiting (writable : Bool) | transferred (writable : Bool)
  | spent
deriving Repr, DecidableEq

namespace Phase

/-- The socket has been told not to block. -/
def nonblocking : Phase → Bool
  | .created | .toConnect | .idle | .toTransfer => false
  | _ => true

def afterCall : Phase → SocketCall → Option Phase
  | .created, .setNoSigpipe => some .created
  | .created, .getFlags => some .toConnect
  | .toConnect, .setFlags true => some .unconnected
  | .unconnected, .connect _ => some .connecting
  | .answered, .getError => some .connected
  | .connecting, .getFlags | .connected, .getFlags | .transferred _, .getFlags => some .toRest
  | .toRest, .setFlags false => some .idle
  | .idle, .getFlags => some .toTransfer
  | .toTransfer, .setFlags true => some .ready
  | _, _ => none

/-- Another attempt is made at once behind an interruption, and after waiting where the last one
would have blocked. -/
def afterError (writable : Bool) (nativeCode : ℤ) : Phase :=
  if socketErrorIsInterrupted nativeCode then .again writable
  else if socketErrorIsWouldBlock nativeCode then .waiting writable
  else .spent

/-- Nothing is transferred only at the end of the connection. -/
def afterAttempt (writable : Bool) : Except ℤ Bytes → Phase
  | .ok data => if data.isEmpty then .spent else .transferred writable
  | .error nativeCode => afterError writable nativeCode

/-- What has been received ends the call, and what has been sent need not. -/
def attempts (writable : Bool) : Phase → Bool
  | .ready => true
  | .again writable' => writable' == writable
  | .transferred writable' => writable' && writable
  | _ => false

def afterWait (result : SocketWaitResult) : Phase → Option Phase
  | .connecting => some (if result.status = .ready then .answered else .spent)
  | .waiting writable => some (
      if result.status = .ready then .again writable
      else if result.status = .failed && socketErrorIsInterrupted result.nativeCode then
        .again writable
      else .spent)
  | _ => none

/-- What a wait in this phase is for. -/
def waitsFor : Phase → Bool
  | .waiting writable => writable
  | _ => true

/-- A socket may be closed at any time. -/
def next (p : Phase) : Event → Option Phase
  | .clock _ | .resolved .. | .opened _ => none
  | .closed _ => some p
  | .used _ call => p.afterCall call
  | .waited _ writable milliseconds result =>
    if writable = p.waitsFor ∧ 1 ≤ milliseconds ∧ milliseconds ≤ kMaxInt then p.afterWait result
    else none
  | .sent _ outcome => if p.attempts true then some (afterAttempt true outcome) else none
  | .received _ outcome => if p.attempts false then some (afterAttempt false outcome) else none
  | .began .. | .retained .. | .adopted .. | .moved .. => if p = .idle then some .idle else none

end Phase

def socketLife : HandleMachine Phase where
  initial := .created
  next := Phase.next

section

variable {handle : Handle} {p : Phase} {connection : TcpConnection}

/-! ## Calls on a socket -/

theorem triple_used {p' : Phase} {call : SocketCall} (h : p.afterCall call = some p') :
    (machines socketLife).Triple (fun s => s.At handle p) (emit (.used handle call) : Proc Unit)
      fun _ s => s.At handle p' :=
  triple_use (m := socketLife) rfl rfl h

/-- A mode that can be set from here is set, or the socket is closed. -/
theorem triple_setSocketNonblocking_life {p' p'' : Phase} {enabled : Bool}
    (hflags : p.afterCall .getFlags = some p')
    (hmode : p'.afterCall (.setFlags enabled) = some p'') :
    (machines socketLife).Triple (fun s => s.At handle p) (setSocketNonblocking handle enabled)
      fun r s => handle < s.opened ∧ (r = .ok () → s.At handle p'') := by
  refine (triple_used hflags).bind fun _ => triple_read.bind fun flags => ?_
  split
  · exact triple_pure fun s h => ⟨h.opened, nofun⟩
  refine (triple_used hmode).bind fun _ => triple_read.bind fun answer => ?_
  split
  · exact triple_pure fun s h => ⟨h.opened, fun _ => h⟩
  · exact triple_pure fun s h => ⟨h.opened, nofun⟩

/-- No wait is for ever. -/
theorem triple_waitSocket_life {after : SocketWaitResult → Phase} {writable : Bool}
    (hdirection : p.waitsFor = writable) (hwait : ∀ result, p.afterWait result = some (after result))
    {timeout : ℤ} (htimeout : 0 < timeout) :
    (machines socketLife).Triple (fun s => s.At handle p) (waitSocket handle timeout writable)
      fun result s => s.At handle (after result) := by
  unfold waitSocket
  rw [if_neg (not_le.mpr htimeout)]
  refine triple_read.bind fun answer => ?_
  dsimp only
  have hlow : 1 ≤ min (max 1 timeout) kMaxInt := by
    unfold kMaxInt
    omega
  have hbounds : writable = p.waitsFor ∧ 1 ≤ min (max 1 timeout) (kMaxInt : ℤ) ∧
      min (max 1 timeout) (kMaxInt : ℤ) ≤ kMaxInt :=
    ⟨hdirection.symm, hlow, min_le_right _ _⟩
  generalize (if answer.result = 0 then ({ status := .timedOut } : SocketWaitResult)
    else if answer.result < 0 then { status := .failed, nativeCode := answer.errno }
    else { status := .ready }) = result
  refine (triple_use (m := socketLife) rfl rfl ?_).bind fun _ => triple_pure fun _ h => h
  exact (if_pos hbounds).trans (hwait result)

theorem triple_close_life (socket : NativeSocket) :
    (machines socketLife).Triple (fun s => ∀ handle, socket.handle = some handle → handle < s.opened)
      socket.close fun socket' _ => socket' = {} := by
  unfold NativeSocket.close NativeSocket.reset
  obtain ⟨_ | handle⟩ := socket
  · exact triple_pure fun _ _ => rfl
  · refine (triple_emit (Q := fun _ _ => True) fun s h => ?_).bind fun _ => triple_pure fun _ _ => rfl
    have hat : s.At handle (s.state handle) := ⟨h handle rfl, rfl⟩
    obtain ⟨s', hstep, -⟩ := hat.step (m := socketLife) (e := .closed handle) rfl rfl rfl
    exact ⟨s', hstep, trivial⟩

/-! ## Connecting -/

/-- A socket is new, or closed. -/
theorem triple_createTcpSocket_life (platform : Platform) :
    (machines socketLife).Triple (fun _ => True) (createTcpSocket platform) fun r s =>
      ∀ handle, r.1.handle = some handle → s.At handle .created := by
  refine triple_read.bind fun answer => ?_
  split
  · exact triple_pure fun s _ => nofun
  refine triple_freshHandle_at.bind fun handle => triple_opened_at.bind fun _ => ?_
  have hsocket : ∀ code : ℤ, (machines socketLife).Triple (fun s => s.At handle .created)
      (pure ({ handle := some handle }, code) : Proc (NativeSocket × ℤ)) fun r s =>
        ∀ handle, r.1.handle = some handle → s.At handle .created := by
    intro code
    refine triple_pure fun s h => ?_
    rintro other ⟨⟩
    exact h
  dsimp only
  split
  · refine (triple_used rfl).bind fun _ => triple_read.bind fun answer => ?_
    split
    · refine Triple.bind ((triple_close_life _).weaken (fun s h => ?_) fun _ _ h => h) fun _ =>
        triple_pure fun s _ => nofun
      rintro other ⟨⟩
      exact h.opened
    · exact hsocket 0
  · exact hsocket 0

/-- A connection has been made, and the socket blocks again. -/
def Connected (handle : Handle) (attempt : ConnectAttemptResult) (s : Machines Phase) : Prop :=
  handle < s.opened ∧ (attempt.status = .connected → s.At handle .idle)

theorem triple_restoreBlocking_life (hflags : p.afterCall .getFlags = some .toRest)
    (result : ConnectAttemptResult) :
    (machines socketLife).Triple (fun s => s.At handle p) (restoreBlocking handle result)
      (Connected handle) := by
  refine (triple_setSocketNonblocking_life hflags rfl).bind fun mode => ?_
  cases mode with
  | error nativeCode => exact triple_pure fun s h => ⟨h.1, nofun⟩
  | ok => exact triple_pure fun s h => ⟨h.1, fun _ => h.2 rfl⟩

theorem triple_connectWithTimeout_life (address : Bytes) (timeout : ℤ) :
    (machines socketLife).Triple (fun s => s.At handle .created)
      (connectWithTimeout handle address timeout) (Connected handle) := by
  have hfailed : ∀ {p : Phase} (attempt : ConnectAttemptResult), attempt.status ≠ .connected →
      (machines socketLife).Triple (fun s => s.At handle p)
        (pure attempt : Proc ConnectAttemptResult) (Connected handle) :=
    fun attempt hstatus => triple_pure fun s h => ⟨h.opened, fun hdone => absurd hdone hstatus⟩
  unfold connectWithTimeout
  split
  · exact hfailed _ nofun
  next htimeout =>
  refine (triple_setSocketNonblocking_life rfl rfl).bind fun mode => ?_
  cases mode with
  | error nativeCode => exact triple_pure fun s h => ⟨h.1, nofun⟩
  | ok =>
    refine Triple.weaken (P := fun s => s.At handle .unconnected) ?_ (fun s h => h.2 rfl)
      fun _ _ h => h
    refine (triple_used rfl).bind fun _ => triple_read.bind fun answer => ?_
    split
    · exact triple_restoreBlocking_life rfl _
    split
    · exact hfailed _ nofun
    refine (triple_waitSocket_life rfl (fun _ => rfl) (not_le.mp htimeout)).bind fun wait => ?_
    cases wait.status with
    | timedOut => exact hfailed _ nofun
    | failed => exact hfailed _ nofun
    | ready =>
      refine Triple.bind (Q := fun _ s => s.At handle .connected) ?_ fun result => ?_
      · refine (triple_used rfl).bind fun _ => triple_read.bind fun answer => ?_
        split
        · exact triple_pure fun _ h => h
        · exact triple_pure fun _ h => h
      · split
        · exact triple_restoreBlocking_life rfl result
        · next hstatus => exact hfailed result hstatus

/-- A connection that has been made blocks. -/
theorem triple_connectLoop_life (platform : Platform) (deadline : ℤ)
    (state : TcpConnection.ConnectState) (endpoints : List Endpoint) :
    (machines socketLife).Triple (fun _ => True)
      (TcpConnection.connectLoop platform deadline state endpoints)
      (ConnectsTo fun handle s => s.At handle .idle) := by
  induction endpoints generalizing state with
  | nil =>
    unfold TcpConnection.connectLoop
    split_ifs
    · exact triple_pure fun s _ => connectsTo_error _ s
    · exact triple_pure fun s _ => connectsTo_error _ s
    · exact triple_pure fun s _ => connectsTo_error _ s
  | cons endpoint endpoints ih =>
    unfold TcpConnection.connectLoop
    split
    · exact ih state
    refine triple_clock_any.bind fun now => ?_
    split
    · exact triple_pure fun s _ => connectsTo_error _ s
    refine (triple_createTcpSocket_life platform).bind fun r => ?_
    obtain ⟨⟨_ | handle⟩, createError⟩ := r
    · exact (ih _).weaken (fun _ _ => trivial) fun _ _ h => h
    refine Triple.weaken (P := fun s => s.At handle .created) ?_ (fun s h => h handle rfl)
      fun _ _ h => h
    refine (triple_remainingTimeout_at deadline).bind fun remaining => ?_
    refine (triple_connectWithTimeout_life endpoint.address remaining).bind fun attempt => ?_
    split
    · next hstatus =>
      refine triple_pure fun s h => ?_
      rintro connection ⟨⟩
      exact ⟨handle, rfl, h.2 hstatus⟩
    refine Triple.bind ((triple_close_life _).weaken (fun s h => ?_) fun _ _ h => h) fun _ => ?_
    · rintro other ⟨⟩
      exact h.1
    split
    · exact triple_pure fun s _ => connectsTo_error _ s
    · exact (ih _).weaken (fun _ _ => trivial) fun _ _ h => h

theorem triple_connect_life (platform : Platform) (endpoints : List Endpoint) (timeout : ℤ) :
    (machines socketLife).Triple (fun _ => True)
      (TcpConnection.connect platform endpoints timeout)
      (ConnectsTo fun handle s => s.At handle .idle) := by
  unfold TcpConnection.connect
  split
  · exact triple_pure fun s _ => connectsTo_error _ s
  split
  · exact triple_pure fun s _ => connectsTo_error _ s
  · exact triple_clock_any.bind fun now => triple_connectLoop_life platform _ _ _

/-! ## Transferring -/

theorem triple_fail_life {α : Type} (hhandle : connection.socket.handle = some handle)
    (code : ErrorCode) (nativeCode : ℤ) :
    (machines socketLife).Triple (fun s => handle < s.opened)
      (connection.fail code nativeCode : Proc (Result α × TcpConnection)) fun r _ => Failed r := by
  refine Triple.bind (Q := fun connection' _ => connection' = {}) ?_ fun connection' =>
    triple_pure fun s h => ?_
  swap
  · rw [h]
    exact ⟨_, rfl⟩
  refine Triple.bind ((triple_close_life connection.socket).weaken (fun s h => ?_)
    fun _ _ h => h) fun socket => triple_pure fun s h => h ▸ rfl
  intro other hother
  cases hhandle.symm.trans hother
  exact h

/-- The phase behind an attempt that has transferred nothing. -/
def Phase.stopped (writable : Bool) (attempt : SocketIoAttempt) : Phase :=
  if attempt.transferred = 0 then .spent else .afterError writable attempt.nativeCode

/-- What goes round again may make another attempt. -/
theorem triple_retry_life {α : Type} (hhandle : connection.socket.handle = some handle)
    (deadline : ℤ) (writable : Bool) (timedOut failed : ErrorCode) (attempt : SocketIoAttempt) :
    (machines socketLife).Triple (fun s => s.At handle (.stopped writable attempt))
      (connection.retry handle deadline writable timedOut failed attempt :
        Proc (Option (Result α × TcpConnection)))
      fun r s => r.elim (s.At handle (.again writable)) Failed := by
  have hfail : ∀ {p : Phase} (code : ErrorCode) (nativeCode : ℤ),
      (machines socketLife).Triple (fun s => s.At handle p) (some <$> connection.fail code nativeCode :
        Proc (Option (Result α × TcpConnection)))
        fun r s => r.elim (s.At handle (.again writable)) Failed :=
    fun code nativeCode => Triple.bind ((triple_fail_life hhandle code nativeCode).weaken
      (fun _ h => h.opened) fun _ _ h => h) fun _ => triple_pure fun _ h => h
  unfold TcpConnection.retry Phase.stopped Phase.afterError
  by_cases hzero : attempt.transferred = 0
  · rw [if_pos hzero, if_pos hzero]
    exact hfail _ _
  rw [if_neg hzero, if_neg hzero]
  by_cases hinterrupted : socketErrorIsInterrupted attempt.nativeCode = true
  · rw [if_pos hinterrupted, if_pos hinterrupted]
    exact triple_pure fun _ h => h
  rw [if_neg hinterrupted, if_neg hinterrupted]
  by_cases hclosed : socketErrorIsConnectionClosed attempt.nativeCode = true
  · rw [if_pos hclosed]
    exact hfail _ _
  rw [if_neg hclosed]
  cases hblocks : socketErrorIsWouldBlock attempt.nativeCode with
  | false => exact hfail _ _
  | true =>
    rw [if_pos rfl, if_neg (by decide)]
    refine (triple_remainingTimeout_at deadline).bind fun remaining => ?_
    split
    · exact hfail _ _
    next hremaining =>
    refine (triple_waitSocket_life (p := .waiting writable) rfl (fun _ => rfl)
      (not_le.mp hremaining)).bind fun wait => ?_
    split
    · exact triple_pure fun _ h => h
    split
    · exact triple_pure fun _ h => h
    unfold TcpConnection.waitFailed
    split
    · exact hfail _ _
    split
    · exact hfail _ _
    · exact hfail _ _

/-- The phase behind any attempt. -/
def Phase.attempted (writable : Bool) (attempt : SocketIoAttempt) : Phase :=
  if attempt.transferred > 0 then .transferred writable else .stopped writable attempt

theorem afterAttempt_ok (writable : Bool) (data : Bytes) :
    Phase.afterAttempt writable (.ok data) = .attempted writable { transferred := data.length } := by
  cases data with
  | nil => rfl
  | cons byte rest => exact (if_pos (by simp)).symm

theorem triple_sendSome_life (h : p.attempts true = true) (data : Bytes) :
    (machines socketLife).Triple (fun s => s.At handle p) (sendSome handle data)
      fun attempt s => s.At handle (.attempted true attempt) := by
  have hsend : ∀ outcome, (machines socketLife).Triple (fun s => s.At handle p)
      (emit (.sent handle outcome) : Proc Unit)
      fun _ s => s.At handle (.afterAttempt true outcome) :=
    fun outcome => triple_use (m := socketLife) rfl rfl (if_pos h)
  refine triple_read.bind fun answer => ?_
  split
  · exact (hsend _).bind fun _ => triple_pure fun _ h => h
  · refine (hsend _).bind fun _ => triple_pure fun _ h => ?_
    rwa [afterAttempt_ok] at h

theorem triple_receiveSome_life (h : p.attempts false = true) (capacity : ℕ) :
    (machines socketLife).Triple (fun s => s.At handle p) (receiveSome handle capacity)
      fun r s => s.At handle (.attempted false r.1) := by
  have hreceive : ∀ outcome, (machines socketLife).Triple (fun s => s.At handle p)
      (emit (.received handle outcome) : Proc Unit)
      fun _ s => s.At handle (.afterAttempt false outcome) :=
    fun outcome => triple_use (m := socketLife) rfl rfl (if_pos h)
  refine triple_read.bind fun answer => ?_
  split
  · exact (hreceive _).bind fun _ => triple_pure fun _ h => h
  · refine (hreceive _).bind fun _ => triple_pure fun _ h => ?_
    rwa [afterAttempt_ok] at h

/-- A call on a connection leaves it blocking, or has closed it. -/
def LeavesIdle {α : Type} (connection : TcpConnection) (handle : Handle)
    (r : Result α × TcpConnection) (s : Machines Phase) : Prop :=
  Leaves connection (fun _ s => s.At handle .idle) r s

theorem triple_fail_idle {α : Type} (hhandle : connection.socket.handle = some handle)
    (code : ErrorCode) (nativeCode : ℤ) :
    (machines socketLife).Triple (fun s => handle < s.opened)
      (connection.fail code nativeCode : Proc (Result α × TcpConnection))
      (LeavesIdle connection handle) :=
  (triple_fail_life hhandle code nativeCode).weaken (fun _ h => h) fun _ s h => h.leaves s

theorem triple_writeRound_life (hhandle : connection.socket.handle = some handle) (data : Bytes)
    (deadline : ℤ) (n : ℕ) :
    (machines socketLife).Triple (fun s => ∃ p, s.At handle p ∧ p.attempts true = true ∧
        (data.length ≤ n → p = .transferred true))
      (TcpConnection.writeRound connection handle data deadline n) fun r s =>
        r.elim (fun n => ∃ p, s.At handle p ∧ p.attempts true = true ∧
          (data.length ≤ n → p = .transferred true)) fun r => LeavesIdle connection handle r s := by
  refine triple_exists fun p => ?_
  unfold TcpConnection.writeRound
  split
  · next hlt =>
    refine Triple.weaken (P := fun s => p.attempts true = true ∧ s.At handle p) ?_
      (fun _ h => ⟨h.2.1, h.1⟩) fun _ _ h => h
    refine triple_and fun hp => ?_
    refine triple_clock_at.bind fun now => ?_
    split
    · exact Triple.bind ((triple_fail_idle hhandle _ _).weaken (fun _ h => h.opened)
        fun _ _ h => h) fun _ => triple_pure fun _ h => h
    refine (triple_sendSome_life hp _).bind fun attempt => ?_
    unfold Phase.attempted
    split
    · exact triple_pure fun s h => ⟨_, h, rfl, fun _ => rfl⟩
    refine (triple_retry_life hhandle _ _ _ _ attempt).bind fun r => ?_
    cases r with
    | none => exact triple_pure fun s h => ⟨_, h, rfl, fun hle => absurd hlt (not_lt.mpr hle)⟩
    | some result => exact triple_pure fun s h => Failed.leaves h s
  · next hdone =>
    refine Triple.weaken (P := fun s => s.At handle (.transferred true)) ?_
      (fun s h => h.2.2 (not_lt.mp hdone) ▸ h.1) fun _ _ h => h
    refine (triple_setSocketNonblocking_life rfl rfl).bind fun mode => ?_
    cases mode with
    | error nativeCode =>
      exact Triple.bind ((triple_fail_idle hhandle _ _).weaken (fun _ h => h.1)
        fun _ _ h => h) fun _ => triple_pure fun _ h => h
    | ok => exact triple_pure fun s h => ⟨rfl, h.2 rfl⟩

theorem triple_writeAll_life (hhandle : connection.socket.handle = some handle) (data : Bytes)
    (timeout : ℤ) :
    (machines socketLife).Triple (fun s => s.At handle .idle) (connection.writeAll data timeout)
      (LeavesIdle connection handle) := by
  unfold TcpConnection.writeAll
  rw [hhandle]
  dsimp only
  split
  · exact triple_pure fun s h => ⟨rfl, h⟩
  next hempty =>
  split
  · exact (triple_fail_idle hhandle _ _).weaken (fun _ h => h.opened) fun _ _ h => h
  refine (triple_setSocketNonblocking_life rfl rfl).bind fun mode => ?_
  cases mode with
  | error nativeCode =>
    exact (triple_fail_idle hhandle _ _).weaken (fun _ h => h.1) fun _ _ h => h
  | ok =>
    refine Triple.weaken (P := fun s => s.At handle .ready) ?_ (fun s h => h.2 rfl) fun _ _ h => h
    refine triple_clock_at.bind fun now => ?_
    refine (triple_loop (fun n s => ∃ p, s.At handle p ∧ p.attempts true = true ∧
      (data.length ≤ n → p = .transferred true))
      (triple_writeRound_life hhandle data _) 0).weaken (fun s h => ⟨_, h, rfl, fun hle => ?_⟩)
      fun _ _ h => h
    exact absurd (List.length_eq_zero_iff.mp (Nat.le_zero.mp hle)) (by simpa using hempty)

theorem triple_readRound_life (hhandle : connection.socket.handle = some handle) (capacity : ℕ)
    (deadline : ℤ) (u : Unit) :
    (machines socketLife).Triple (fun s => ∃ p, s.At handle p ∧ p.attempts false = true)
      (TcpConnection.readRound connection handle capacity deadline u) fun r s =>
        r.elim (fun _ => ∃ p, s.At handle p ∧ p.attempts false = true)
          fun r => LeavesIdle connection handle r s := by
  refine triple_exists fun p => Triple.weaken (P := fun s => p.attempts false = true ∧ s.At handle p)
    ?_ (fun _ h => ⟨h.2, h.1⟩) fun _ _ h => h
  refine triple_and fun hp => triple_clock_at.bind fun now => ?_
  split
  · exact Triple.bind ((triple_fail_idle hhandle _ _).weaken (fun _ h => h.opened)
      fun _ _ h => h) fun _ => triple_pure fun _ h => h
  refine (triple_receiveSome_life hp capacity).bind fun r => ?_
  obtain ⟨attempt, data⟩ := r
  unfold Phase.attempted
  dsimp only
  split
  · refine (triple_setSocketNonblocking_life rfl rfl).bind fun mode => ?_
    cases mode with
    | error nativeCode =>
      exact Triple.bind ((triple_fail_idle hhandle _ _).weaken (fun _ h => h.1)
        fun _ _ h => h) fun _ => triple_pure fun _ h => h
    | ok => exact triple_pure fun s h => ⟨rfl, h.2 rfl⟩
  refine (triple_retry_life hhandle _ _ _ _ attempt).bind fun r => ?_
  cases r with
  | none => exact triple_pure fun s h => ⟨_, h, rfl⟩
  | some result => exact triple_pure fun s h => Failed.leaves h s

theorem triple_readSome_life (hhandle : connection.socket.handle = some handle) (capacity : ℕ)
    (timeout : ℤ) :
    (machines socketLife).Triple (fun s => s.At handle .idle)
      (connection.readSome capacity timeout) (LeavesIdle connection handle) := by
  unfold TcpConnection.readSome
  rw [hhandle]
  dsimp only
  split
  · exact triple_pure fun s h => ⟨rfl, h⟩
  split
  · exact (triple_fail_idle hhandle _ _).weaken (fun _ h => h.opened) fun _ _ h => h
  refine (triple_setSocketNonblocking_life rfl rfl).bind fun mode => ?_
  cases mode with
  | error nativeCode =>
    exact (triple_fail_idle hhandle _ _).weaken (fun _ h => h.1) fun _ _ h => h
  | ok =>
    refine Triple.weaken (P := fun s => s.At handle .ready) ?_ (fun s h => h.2 rfl) fun _ _ h => h
    refine triple_clock_at.bind fun now => ?_
    exact (triple_loop (fun _ s => ∃ p, s.At handle p ∧ p.attempts false = true)
      (triple_readRound_life hhandle capacity _) ()).weaken (fun s h => ⟨_, h, rfl⟩) fun _ _ h => h

end

end CppRequest
