import CppRequest.Client

/-!
# What functions on sockets write down

Most of the functions move no data: they open, close and set up sockets, wait until one is
writable and read the clock. What they write is said once, for any kind of events that includes
these, beside what they return.
-/

namespace CppRequest

open Procedure Monitor

/-- A kind of events that includes what opens and closes sockets and sets them up. -/
structure Untimed (K : Event → Prop) : Prop where
  opened : ∀ handle, K (.opened handle)
  closed : ∀ handle, K (.closed handle)
  used : ∀ handle call, K (.used handle call)

/-- A kind of events that includes what is done with sockets, but for data that is sent or received,
and waiting for data. -/
structure Basic (K : Event → Prop) : Prop extends Untimed K where
  clock : ∀ time, K (.clock time)
  writable : ∀ handle milliseconds result, K (.waited handle true milliseconds result)

/-- A kind of events that includes everything but data that is sent or received, waiting for data,
and the beginning of an exchange. -/
structure Ordinary (K : Event → Prop) : Prop extends Basic K where
  resolved : ∀ host port outcome, K (.resolved host port outcome)
  retained : ∀ this handle host port, K (.retained this handle host port)
  adopted : ∀ this handle, K (.adopted this handle)

/-- The same, where only one client takes back and keeps connections. -/
structure OrdinaryFor (this : ClientId) (K : Event → Prop) : Prop extends Basic K where
  resolved : ∀ host port outcome, K (.resolved host port outcome)
  retained : ∀ handle host port, K (.retained this handle host port)
  adopted : ∀ handle, K (.adopted this handle)

instance {K : Event → Prop} : CoeOut (Basic K) (Untimed K) := ⟨Basic.toUntimed⟩

instance {K : Event → Prop} : CoeOut (Ordinary K) (Basic K) := ⟨Ordinary.toBasic⟩

instance {K : Event → Prop} {this : ClientId} : CoeOut (OrdinaryFor this K) (Basic K) :=
  ⟨OrdinaryFor.toBasic⟩

theorem Ordinary.for {K : Event → Prop} (h : Ordinary K) (this : ClientId) : OrdinaryFor this K :=
  ⟨h.toBasic, h.resolved, h.retained this, h.adopted this⟩

/-- Everything that is written. -/
theorem ordinary_any : Ordinary fun _ => True where
  clock _ := trivial
  opened _ := trivial
  closed _ := trivial
  used _ _ := trivial
  writable _ _ _ := trivial
  resolved _ _ _ := trivial
  retained _ _ _ _ := trivial
  adopted _ _ := trivial

variable {K : Event → Prop}

/-! ## Sockets -/

theorem writes_clock (hK : Basic K) : steadyClockNow.Writes K fun _ => True :=
  writes_read.bind fun _ _ => (writes_emit (hK.clock _)).bind fun _ _ => writes_pure trivial

theorem writes_remainingTimeout (hK : Basic K) (deadline : ℤ) :
    (remainingTimeout deadline).Writes K fun _ => True := by
  refine (writes_clock hK).bind fun now _ => ?_
  split
  · exact writes_pure trivial
  · exact writes_pure trivial

theorem writes_close (hK : Untimed K) (socket : NativeSocket) :
    socket.close.Writes K fun socket => socket = {} := by
  unfold NativeSocket.close NativeSocket.reset
  split
  · next hnone =>
    obtain ⟨handle⟩ := socket
    cases hnone
    exact writes_pure rfl
  · split
    · exact (writes_emit (hK.closed _)).bind fun _ _ => writes_pure rfl
    · exact writes_pure rfl

theorem writes_createTcpSocket (hK : Untimed K) (platform : Platform) :
    (createTcpSocket platform).Writes K fun _ => True := by
  refine writes_read.bind fun answer _ => ?_
  split
  · exact writes_pure trivial
  refine (writes_history.bind fun _ _ => writes_pure trivial : freshHandle.Writes K
    fun _ => True).bind fun handle _ => ?_
  refine (writes_emit (hK.opened _)).bind fun _ _ => ?_
  split
  · refine (writes_emit (hK.used _ _)).bind fun _ _ => writes_read.bind fun answer _ => ?_
    split
    · exact (writes_close hK _).bind fun _ _ => writes_pure trivial
    · exact writes_pure trivial
  · exact writes_pure trivial

theorem writes_setSocketNonblocking (hused : ∀ handle call, K (.used handle call))
    (handle : Handle) (enabled : Bool) :
    (setSocketNonblocking handle enabled).Writes K fun _ => True := by
  refine (writes_emit (hused _ _)).bind fun _ _ => writes_read.bind fun flags _ => ?_
  split
  · exact writes_pure trivial
  refine (writes_emit (hused _ _)).bind fun _ _ => writes_read.bind fun answer _ => ?_
  split
  · exact writes_pure trivial
  · exact writes_pure trivial

theorem writes_waitSocket {handle : Handle} {writable : Bool}
    (hwaited : ∀ milliseconds result, K (.waited handle writable milliseconds result))
    (timeout : ℤ) : (waitSocket handle timeout writable).Writes K fun _ => True := by
  unfold waitSocket
  split
  · exact writes_pure trivial
  · refine writes_read.bind fun answer _ => ?_
    exact (writes_emit (hwaited _ _)).bind fun _ _ => writes_pure trivial

theorem writes_socketErrorResult (hK : Untimed K) (handle : Handle) :
    (socketErrorResult handle).Writes K fun result => result.status ≠ .timedOut := by
  refine (writes_emit (hK.used _ _)).bind fun _ _ => writes_read.bind fun answer _ => ?_
  split
  · exact writes_pure nofun
  · dsimp only
    split
    · exact writes_pure nofun
    · exact writes_pure nofun

theorem writes_restoreBlocking (hK : Untimed K) (handle : Handle)
    {result : ConnectAttemptResult} (hresult : result.status ≠ .timedOut) :
    (restoreBlocking handle result).Writes K fun result => result.status ≠ .timedOut := by
  refine (writes_setSocketNonblocking hK.used handle false).bind fun mode _ => ?_
  cases mode with
  | error nativeCode => exact writes_pure nofun
  | ok => exact writes_pure hresult

theorem writes_connectWithTimeout (hK : Basic K) (handle : Handle) (address : Bytes)
    (timeout : ℤ) : (connectWithTimeout handle address timeout).Writes K fun _ => True := by
  unfold connectWithTimeout
  split
  · exact writes_pure trivial
  refine (writes_setSocketNonblocking hK.used handle true).bind fun mode _ => ?_
  cases mode with
  | error nativeCode => exact writes_pure trivial
  | ok =>
    refine (writes_emit (hK.used _ _)).bind fun _ _ => writes_read.bind fun answer _ => ?_
    split
    · exact (writes_restoreBlocking hK handle (by decide)).weaken fun _ _ => trivial
    split
    · exact writes_pure trivial
    refine (writes_waitSocket (hK.writable handle) timeout).bind fun wait _ => ?_
    cases wait.status with
    | timedOut => exact writes_pure trivial
    | failed => exact writes_pure trivial
    | ready =>
      refine (writes_socketErrorResult hK handle).bind fun result hresult => ?_
      split
      · exact (writes_restoreBlocking hK handle hresult).weaken fun _ _ => trivial
      · exact writes_pure trivial

/-! ## Connections -/

/-- A connection with a handle of which this is known, or an error. -/
def ConnectsTo {S : Type} (P : Handle → S → Prop) (r : Result TcpConnection) (s : S) : Prop :=
  ∀ connection, r = .ok connection → ∃ handle, connection = .adoptNativeHandle handle ∧ P handle s

theorem connectsTo_error {S : Type} {P : Handle → S → Prop} (e : Error) (s : S) :
    ConnectsTo P (.error e) s := nofun

section

variable {S : Type} {M : Monitor Event S} {P : Handle → S → Prop} {platform : Platform}

theorem triple_createTcpSocket_of {F : Handle → S → Prop} (hK : Basic K)
    (hkeeps : ∀ handle e s, K e → P handle s → ∃ s', M.step s e = some s' ∧ P handle s')
    (hfresh : M.Triple (fun _ => True) freshHandle F)
    (hopened : ∀ handle s, F handle s →
      ∃ s', M.step s (.opened handle) = some s' ∧ P handle s') :
    M.Triple (fun _ => True) (createTcpSocket platform) fun r s =>
      ∀ handle, r.1.handle = some handle → P handle s := by
  have hsocket : ∀ (handle : Handle) (code : ℤ), M.Triple (P handle)
      (pure ({ handle := some handle }, code) : Proc (NativeSocket × ℤ)) fun r s =>
        ∀ handle, r.1.handle = some handle → P handle s := by
    intro handle code
    refine triple_pure fun s h => ?_
    rintro other ⟨⟩
    exact h
  refine triple_read.bind fun answer => ?_
  split
  · exact triple_pure fun s _ => nofun
  refine hfresh.bind fun handle => ?_
  refine (triple_emit (Q := fun _ => P handle) fun s h => hopened handle s h).bind fun _ => ?_
  dsimp only
  split
  · refine (triple_emit (Q := fun _ => P handle) fun s h =>
      hkeeps handle _ s (hK.used _ _) h).bind fun _ => ?_
    refine triple_read.bind fun answer => ?_
    split
    · refine Triple.bind (Q := fun _ _ => True) ?_ fun _ => triple_pure fun s _ => nofun
      exact ((writes_close hK _).triple (hkeeps handle)).weaken (fun _ h => h) fun _ _ _ => trivial
    · exact hsocket handle 0
  · exact hsocket handle 0

/-- What is known of a socket that has just been created is known of a connection that has been
made. -/
theorem triple_connectLoop_of (hK : Basic K) (haccepts : ∀ e s, K e → ∃ s', M.step s e = some s')
    (hkeeps : ∀ handle e s, K e → P handle s → ∃ s', M.step s e = some s' ∧ P handle s')
    (hcreate : M.Triple (fun _ => True) (createTcpSocket platform) fun r s =>
      ∀ handle, r.1.handle = some handle → P handle s)
    (deadline : ℤ) (state : TcpConnection.ConnectState) (endpoints : List Endpoint) :
    M.Triple (fun _ => True) (TcpConnection.connectLoop platform deadline state endpoints)
      (ConnectsTo P) := by
  have hany : ∀ {α : Type} {q : Proc α} {Q : α → Prop}, q.Writes K Q →
      M.Triple (fun _ => True) q fun _ _ => True := fun h =>
    (h.triple fun e s he _ => (haccepts e s he).imp fun _ hs => ⟨hs, trivial⟩).weaken
      (fun _ h => h) fun _ _ _ => trivial
  induction endpoints generalizing state with
  | nil =>
    unfold TcpConnection.connectLoop
    split_ifs
    · exact triple_pure fun s _ => connectsTo_error _ s
    · exact triple_pure fun s _ => connectsTo_error _ s
    · exact triple_pure fun s _ => connectsTo_error _ s
  | cons endpoint endpoints ih =>
    unfold TcpConnection.connectLoop
    split
    · exact ih state
    refine (hany (writes_clock hK)).bind fun now => ?_
    split
    · exact triple_pure fun s _ => connectsTo_error _ s
    refine hcreate.bind fun r => ?_
    obtain ⟨⟨_ | handle⟩, createError⟩ := r
    · exact (ih _).weaken (fun _ _ => trivial) fun _ _ h => h
    have hknown : ∀ {α : Type} {q : Proc α} {Q : α → Prop}, q.Writes K Q →
        M.Triple (P handle) q fun _ => P handle := fun h =>
      (h.triple (hkeeps handle)).weaken (fun _ h => h) fun _ _ h => h.2
    refine Triple.weaken (P := P handle) ?_ (fun s h => h handle rfl) fun _ _ h => h
    refine (hknown (writes_remainingTimeout hK deadline)).bind fun remaining => ?_
    refine (hknown (writes_connectWithTimeout hK handle endpoint.address remaining)).bind fun attempt => ?_
    split
    · refine triple_pure fun s h => ?_
      rintro connection ⟨⟩
      exact ⟨handle, rfl, h⟩
    refine (hknown (writes_close hK _)).bind fun _ => ?_
    split
    · exact triple_pure fun s _ => connectsTo_error _ s
    · exact (ih _).weaken (fun _ _ => trivial) fun _ _ h => h

theorem triple_connect_of (hK : Basic K) (haccepts : ∀ e s, K e → ∃ s', M.step s e = some s')
    (hkeeps : ∀ handle e s, K e → P handle s → ∃ s', M.step s e = some s' ∧ P handle s')
    (hcreate : M.Triple (fun _ => True) (createTcpSocket platform) fun r s =>
      ∀ handle, r.1.handle = some handle → P handle s)
    (endpoints : List Endpoint) (timeout : ℤ) :
    M.Triple (fun _ => True) (TcpConnection.connect platform endpoints timeout)
      (ConnectsTo P) := by
  unfold TcpConnection.connect
  split
  · exact triple_pure fun s _ => connectsTo_error _ s
  split
  · exact triple_pure fun s _ => connectsTo_error _ s
  refine Triple.bind (Q := fun _ _ => True) ?_ fun now =>
    triple_connectLoop_of hK haccepts hkeeps hcreate _ _ _
  refine ((writes_clock hK).triple fun e s he _ => ?_).weaken (fun _ h => h) fun _ _ _ => trivial
  exact (haccepts e s he).imp fun _ hs => ⟨hs, trivial⟩

end

/-- A connection with a handle, or an error. -/
def Connects (r : Result TcpConnection) : Prop :=
  ∀ connection, r = .ok connection → ∃ handle, connection = .adoptNativeHandle handle

theorem connects_error (e : Error) : Connects (.error e) := nofun

theorem writes_connect (hK : Basic K) (platform : Platform) (endpoints : List Endpoint)
    (timeout : ℤ) :
    (TcpConnection.connect platform endpoints timeout).Writes K Connects := by
  have haccepts : ∀ e s, K e → ∃ s', (observer K).step s e = some s' := fun e s he =>
    ⟨(), if_pos he⟩
  refine (triple_connect_of (P := fun _ _ => True) hK haccepts
    (fun _ e s he _ => ⟨(), if_pos he, trivial⟩) ?_ endpoints timeout).weaken
    (fun _ h => h) fun r s h connection hr => ?_
  · exact (writes_createTcpSocket hK platform).weaken fun _ _ _ _ => trivial
  · obtain ⟨handle, hconnection, -⟩ := h connection hr
    exact ⟨handle, hconnection⟩

theorem writes_fail {α : Type} (hK : Untimed K) (connection : TcpConnection) (code : ErrorCode)
    (nativeCode : ℤ) : (connection.fail code nativeCode : Proc (Result α × TcpConnection)).Writes K
      fun r => r = (.error { code, nativeCode }, {}) := by
  refine Writes.bind (Q := fun connection' => connection' = {}) ?_ fun connection' h => ?_
  · refine (writes_close hK connection.socket).bind fun socket h => ?_
    rw [h]
    exact writes_pure rfl
  · rw [h]
    exact writes_pure rfl

/-- The call has failed and closed the connection. -/
def Failed {α : Type} (r : Result α × TcpConnection) : Prop := ∃ e, r = (.error e, {})

/-- A call on a connection has left it as it was, or has failed and closed it. -/
def Leaves {α S : Type} (connection : TcpConnection) (Q : α → S → Prop) :
    Result α × TcpConnection → S → Prop
  | (.ok a, connection'), s => connection' = connection ∧ Q a s
  | (.error _, connection'), _ => connection' = {}

theorem Failed.leaves {α S : Type} {connection : TcpConnection} {Q : α → S → Prop}
    {r : Result α × TcpConnection} (h : Failed r) (s : S) : Leaves connection Q r s := by
  obtain ⟨e, rfl⟩ := h
  exact rfl

/-- A call on a connection has left it as it was, or has failed and closed it. This is known of its
result, and this of its error. -/
def Yields {α S : Type} (connection : TcpConnection) (Q : α → S → Prop) (F : Error → S → Prop) :
    Result α × TcpConnection → S → Prop
  | (.ok a, connection'), s => connection' = connection ∧ Q a s
  | (.error e, connection'), s => connection' = {} ∧ F e s

theorem Yields.leaves {α S : Type} {connection : TcpConnection} {Q : α → S → Prop}
    {F : Error → S → Prop} {r : Result α × TcpConnection} {s : S} (h : Yields connection Q F r s) :
    Leaves connection Q r s := by
  obtain ⟨e | a, connection'⟩ := r
  · exact h.1
  · exact h

theorem Failed.yields {α S : Type} {connection : TcpConnection} {Q : α → S → Prop}
    {F : Error → S → Prop} {r : Result α × TcpConnection} {s : S} (h : Failed r)
    (hF : ∀ e, F e s) : Yields connection Q F r s := by
  obtain ⟨e, rfl⟩ := h
  exact ⟨rfl, hF e⟩

theorem writes_retry {α : Type} (hK : Basic K) (connection : TcpConnection) {handle : Handle}
    {writable : Bool}
    (hwaited : ∀ milliseconds result, K (.waited handle writable milliseconds result))
    (deadline : ℤ) (timedOut failed : ErrorCode) (attempt : SocketIoAttempt) :
    (connection.retry handle deadline writable timedOut failed attempt :
      Proc (Option (Result α × TcpConnection))).Writes K fun r => r.elim True Failed := by
  have hfail : ∀ code nativeCode, (some <$> connection.fail code nativeCode :
      Proc (Option (Result α × TcpConnection))).Writes K fun r => r.elim True Failed :=
    fun code nativeCode => (writes_fail hK connection code nativeCode).bind fun _ h =>
      writes_pure ⟨_, h⟩
  have hagain : (pure none : Proc (Option (Result α × TcpConnection))).Writes K
      fun r => r.elim True Failed := writes_pure trivial
  unfold TcpConnection.retry
  split
  · exact hfail _ _
  split
  · exact hagain
  split
  · exact hfail _ _
  split
  · exact hfail _ _
  refine (writes_remainingTimeout hK deadline).bind fun remaining _ => ?_
  split
  · exact hfail _ _
  refine (writes_waitSocket hwaited remaining).bind fun wait _ => ?_
  split
  · exact hagain
  split
  · exact hagain
  unfold TcpConnection.waitFailed
  split
  · exact hfail _ _
  split
  · exact hfail _ _
  · exact hfail _ _

/-- A connection that a call has not closed is the one that it was given. -/
def Stays {α : Type} (connection : TcpConnection) (r : Result α × TcpConnection) : Prop :=
  Leaves connection (fun _ _ => True) r ()

theorem writes_sendSome {handle : Handle} (hsent : ∀ outcome, K (.sent handle outcome))
    (data : Bytes) : (sendSome handle data).Writes K fun _ => True := by
  refine writes_read.bind fun answer _ => ?_
  split
  · exact (writes_emit (hsent _)).bind fun _ _ => writes_pure trivial
  · exact (writes_emit (hsent _)).bind fun _ _ => writes_pure trivial

theorem writes_receiveSome {handle : Handle} (hreceived : ∀ outcome, K (.received handle outcome))
    (capacity : ℕ) : (receiveSome handle capacity).Writes K fun _ => True := by
  refine writes_read.bind fun answer _ => ?_
  split
  · exact (writes_emit (hreceived _)).bind fun _ _ => writes_pure trivial
  · exact (writes_emit (hreceived _)).bind fun _ _ => writes_pure trivial

theorem writes_writeAll (hK : Basic K) (hsent : ∀ handle outcome, K (.sent handle outcome))
    (connection : TcpConnection) (data : Bytes) (timeout : ℤ) :
    (connection.writeAll data timeout).Writes K (Stays connection) := by
  have hfail : ∀ code nativeCode, (connection.fail code nativeCode).Writes K
      (Stays connection : Result ℕ × TcpConnection → Prop) :=
    fun code nativeCode => (writes_fail hK connection code nativeCode).weaken fun _ h =>
      Failed.leaves ⟨_, h⟩ ()
  unfold TcpConnection.writeAll
  split
  · next hnone =>
    refine writes_pure ?_
    obtain ⟨⟨_ | handle⟩⟩ := connection
    · exact rfl
    · cases hnone
  split
  · exact writes_pure ⟨rfl, trivial⟩
  split
  · exact hfail _ _
  refine (writes_setSocketNonblocking hK.used _ true).bind fun mode _ => ?_
  cases mode with
  | error nativeCode => exact hfail _ _
  | ok =>
    refine (writes_clock hK).bind fun now _ => ?_
    refine writes_loop (fun _ => True) (fun totalWritten _ => ?_) trivial
    unfold TcpConnection.writeRound
    split
    · refine (writes_clock hK).bind fun now _ => ?_
      split
      · exact (hfail _ _).bind fun _ h => writes_pure h
      refine (writes_sendSome (hsent _) _).bind fun attempt _ => ?_
      split
      · exact writes_pure trivial
      refine (writes_retry hK connection (hK.writable _) _ _ _ attempt).bind fun r h => ?_
      cases r with
      | none => exact writes_pure trivial
      | some result => exact writes_pure (Failed.leaves h ())
    · refine (writes_setSocketNonblocking hK.used _ false).bind fun mode _ => ?_
      cases mode with
      | error nativeCode => exact (hfail _ _).bind fun _ h => writes_pure h
      | ok => exact writes_pure ⟨rfl, trivial⟩

/-- The bytes of a reception. -/
def receivedBytes : Except ℤ Bytes → Bytes
  | .ok data => data
  | .error _ => []

section

variable {S : Type} {M : Monitor Event S} {P : Bytes → S → Prop} {handle : Handle}
variable {connection : TcpConnection}

/-- What one reception changes. -/
theorem triple_receiveSome_of (hreceived : ∀ outcome s, P [] s →
      ∃ s', M.step s (.received handle outcome) = some s' ∧ P (receivedBytes outcome) s')
    (capacity : ℕ) : M.Triple (P []) (receiveSome handle capacity) fun r s =>
      P r.2 s ∧ (¬ r.1.transferred > 0 → r.2 = []) := by
  have hemit : ∀ outcome, M.Triple (P []) (emit (.received handle outcome) : Proc Unit)
      fun _ => P (receivedBytes outcome) :=
    fun outcome => triple_emit fun s h => hreceived outcome s h
  refine triple_read.bind fun answer => ?_
  split
  · exact (hemit _).bind fun _ => triple_pure fun _ h => ⟨h, fun _ => rfl⟩
  · refine (hemit _).bind fun _ => triple_pure fun _ h => ⟨h, fun hnone => ?_⟩
    dsimp only at hnone ⊢
    rw [← List.length_eq_zero_iff]
    omega

/-- What is known of a connection changes with what is received, and with nothing else that reading
does. Data are lost only where the socket cannot be set to block again. -/
theorem triple_readSome_ends (hK : Basic K)
    (hreadable : ∀ milliseconds result, K (.waited handle false milliseconds result))
    (hkeeps : ∀ data e s, K e → P data s → ∃ s', M.step s e = some s' ∧ P data s')
    (hreceived : ∀ outcome s, P [] s →
      ∃ s', M.step s (.received handle outcome) = some s' ∧ P (receivedBytes outcome) s')
    (hhandle : connection.socket.handle = some handle) (capacity : ℕ) (timeout : ℤ) :
    M.Triple (P []) (connection.readSome capacity timeout) (Yields connection P fun e s =>
      ∃ data, P data s ∧ (data ≠ [] → e.code = .readFailed)) := by
  have hquiet : ∀ {α : Type} {q : Proc α} {Q : α → Prop} {data : Bytes}, q.Writes K Q →
      M.Triple (P data) q fun a s => Q a ∧ P data s := fun h => h.triple (hkeeps _)
  have hfail : ∀ code nativeCode, M.Triple (P [])
      (connection.fail code nativeCode : Proc (Result Bytes × TcpConnection))
      (Yields connection P fun e s => ∃ data, P data s ∧ (data ≠ [] → e.code = .readFailed)) :=
    fun code nativeCode => (hquiet (writes_fail hK connection code nativeCode)).weaken
      (fun _ h => h) fun _ s h => Failed.yields ⟨_, h.1⟩ fun _ => ⟨[], h.2, absurd rfl⟩
  unfold TcpConnection.readSome
  rw [hhandle]
  dsimp only
  split
  · exact triple_pure fun _ h => ⟨rfl, h⟩
  split
  · exact hfail _ _
  refine (hquiet (writes_setSocketNonblocking hK.used handle true)).bind fun mode =>
    triple_and fun _ => ?_
  cases mode with
  | error nativeCode => exact hfail _ _
  | ok =>
    refine (hquiet (writes_clock hK)).bind fun now => triple_and fun _ => ?_
    refine triple_loop (fun _ => P []) (fun u => ?_) ()
    refine (hquiet (writes_clock hK)).bind fun now => triple_and fun _ => ?_
    split
    · exact (hfail _ _).bind fun _ => triple_pure fun _ h => h
    refine (triple_receiveSome_of hreceived capacity).bind fun r => ?_
    obtain ⟨attempt, data⟩ := r
    dsimp only
    split
    · refine Triple.weaken (P := P data) ?_ (fun _ h => h.1) fun _ _ h => h
      refine (hquiet (writes_setSocketNonblocking hK.used handle false)).bind fun mode =>
        triple_and fun _ => ?_
      cases mode with
      | error nativeCode =>
        refine (hquiet (writes_fail hK connection .readFailed nativeCode)).bind fun r => ?_
        refine triple_pure fun s h => ?_
        rw [h.1]
        exact ⟨rfl, data, h.2, fun _ => rfl⟩
      | ok => exact triple_pure fun _ h => ⟨rfl, h⟩
    · next hnone =>
      refine Triple.weaken (P := P []) ?_ (fun s h => h.2 hnone ▸ h.1) fun _ _ h => h
      refine (hquiet (writes_retry hK connection hreadable _ _ _ attempt)).bind fun r => ?_
      cases r with
      | none => exact triple_pure fun _ h => h.2
      | some result =>
        exact triple_pure fun s h => Failed.yields h.1 fun _ => ⟨[], h.2, absurd rfl⟩

theorem triple_readSome_of (hK : Ordinary K)
    (hreadable : ∀ milliseconds result, K (.waited handle false milliseconds result))
    (hkeeps : ∀ data e s, K e → P data s → ∃ s', M.step s e = some s' ∧ P data s')
    (hreceived : ∀ outcome s, P [] s →
      ∃ s', M.step s (.received handle outcome) = some s' ∧ P (receivedBytes outcome) s')
    (hhandle : connection.socket.handle = some handle) (capacity : ℕ) (timeout : ℤ) :
    M.Triple (P []) (connection.readSome capacity timeout) (Leaves connection P) :=
  (triple_readSome_ends hK.toBasic hreadable hkeeps hreceived hhandle capacity timeout).weaken
    (fun _ h => h) fun _ _ h => h.leaves

end

/-- What is known of a socket follows the bytes of a text that it accepts. -/
structure FollowsSending {S : Type} (M : Monitor Event S) (K : Event → Prop) (handle : Handle)
    (text : Bytes) (P : Bytes → S → Prop) : Prop where
  keeps : ∀ sent e s, K e → P sent s → ∃ s', M.step s e = some s' ∧ P sent s'
  refused : ∀ nativeCode sent s, P sent s →
    ∃ s', M.step s (.sent handle (.error nativeCode)) = some s' ∧ P sent s'
  accepted : ∀ sent piece s, sent ++ piece <+: text → P sent s →
    ∃ s', M.step s (.sent handle (.ok piece)) = some s' ∧ P (sent ++ piece) s'

section

variable {S : Type} {M : Monitor Event S} {P : Bytes → S → Prop} {handle : Handle}
variable {connection : TcpConnection} {text before data : Bytes}

/-- What one call changes. -/
theorem triple_sendSome_of (h : FollowsSending M K handle text P) (htext : before ++ data <+: text) :
    M.Triple (P before) (sendSome handle data) fun attempt s =>
      attempt.transferred.toNat ≤ data.length ∧
        P (before ++ data.take attempt.transferred.toNat) s := by
  refine triple_read.bind fun answer => ?_
  split
  · refine (triple_emit (Q := fun _ => P before) fun s hs => h.refused _ _ s hs).bind fun _ => ?_
    refine triple_pure fun s hs => ⟨Nat.zero_le _, ?_⟩
    show P (before ++ data.take 0) s
    rwa [List.take_zero, List.append_nil]
  · dsimp only
    generalize min answer.result.toNat (boundedIoSize data.length) = n
    refine (triple_emit (Q := fun _ => P (before ++ data.take n)) fun s hs => ?_).bind
      fun _ => triple_pure fun s hs => ?_
    · apply h.accepted _ _ s ?_ hs
      exact ((List.prefix_append_right_inj before).mpr (List.take_prefix _ data)).trans htext
    · rw [Int.toNat_natCast, List.length_take]
      refine ⟨Nat.min_le_right _ _, ?_⟩
      rwa [← List.take_take, List.take_length]

/-- All the data have been accepted behind what was accepted before, or a part of the text has. -/
def Written (connection : TcpConnection) (P : Bytes → S → Prop) (text before data : Bytes) :
    Result ℕ × TcpConnection → S → Prop :=
  Yields connection (fun n s => n = data.length ∧ P (before ++ data) s) fun _ s =>
    ∃ sent, sent <+: text ∧ P sent s

theorem triple_fail_written (hK : Basic K) (h : FollowsSending M K handle text P)
    (htext : before ++ data <+: text) (n : ℕ) (code : ErrorCode) (nativeCode : ℤ) :
    M.Triple (P (before ++ data.take n)) (connection.fail code nativeCode)
      (Written connection P text before data) := by
  have hbegins : before ++ data.take n <+: text :=
    ((List.prefix_append_right_inj before).mpr (List.take_prefix n data)).trans htext
  exact ((writes_fail hK connection code nativeCode).triple (h.keeps _)).weaken (fun _ h => h)
    fun _ _ hs => Failed.yields ⟨_, hs.1⟩ fun _ => ⟨_, hbegins, hs.2⟩

theorem triple_writeRound_of (hK : Basic K) (h : FollowsSending M K handle text P)
    (htext : before ++ data <+: text) (deadline : ℤ) (n : ℕ) :
    M.Triple (fun s => n ≤ data.length ∧ P (before ++ data.take n) s)
      (TcpConnection.writeRound connection handle data deadline n) fun r s =>
        r.elim (fun n => n ≤ data.length ∧ P (before ++ data.take n) s)
          fun r => Written connection P text before data r s := by
  have hquiet : ∀ {α : Type} {q : Proc α} {Q : α → Prop} {sent : Bytes}, q.Writes K Q →
      M.Triple (P sent) q fun a s => Q a ∧ P sent s := fun hq => hq.triple (h.keeps _)
  refine triple_and fun hle => ?_
  unfold TcpConnection.writeRound
  split
  · refine (hquiet (writes_clock hK)).bind fun now => triple_and fun _ => ?_
    split
    · exact (triple_fail_written hK h htext n _ _).bind fun _ => triple_pure fun _ hs => hs
    have hrest : (before ++ data.take n) ++ data.drop n <+: text := by
      rwa [List.append_assoc, List.take_append_drop]
    refine (triple_sendSome_of h hrest).bind fun attempt => triple_and fun hroom => ?_
    rw [List.append_assoc, ← List.take_add]
    split
    · refine triple_pure fun s hs => ⟨?_, hs⟩
      rw [List.length_drop] at hroom
      omega
    · next hnone =>
      have hzero : attempt.transferred.toNat = 0 := by omega
      rw [hzero, Nat.add_zero]
      refine (hquiet (writes_retry hK connection (hK.writable handle) _ _ _ attempt)).bind
        fun r => triple_and fun hr => ?_
      cases r with
      | none => exact triple_pure fun s hs => ⟨hle, hs⟩
      | some result =>
        refine triple_pure fun s hs => Failed.yields hr fun _ => ⟨_, ?_, hs⟩
        exact (List.prefix_append _ _).trans hrest
  · next hdone =>
    have hall : n = data.length := le_antisymm hle (not_lt.mp hdone)
    refine (hquiet (writes_setSocketNonblocking hK.used handle false)).bind fun mode =>
      triple_and fun _ => ?_
    cases mode with
    | error nativeCode =>
      exact (triple_fail_written hK h htext n _ _).bind fun _ => triple_pure fun _ hs => hs
    | ok =>
      refine triple_pure fun s hs => ⟨rfl, hall, ?_⟩
      rwa [hall, List.take_length] at hs

/-- What is known of a connection changes with the data that are accepted, and with nothing else
that writing does. -/
theorem triple_writeAll_of (hK : Basic K) (h : FollowsSending M K handle text P)
    (htext : before ++ data <+: text) (hhandle : connection.socket.handle = some handle)
    (timeout : ℤ) :
    M.Triple (P before) (connection.writeAll data timeout)
      (Written connection P text before data) := by
  have hquiet : ∀ {α : Type} {q : Proc α} {Q : α → Prop}, q.Writes K Q →
      M.Triple (P (before ++ data.take 0)) q fun a s => Q a ∧ P (before ++ data.take 0) s :=
    fun hq => hq.triple (h.keeps _)
  have hstart : before ++ data.take 0 = before := List.append_nil before
  refine Triple.weaken (P := P (before ++ data.take 0)) ?_ (fun s hs => hstart.symm ▸ hs)
    fun _ _ hr => hr
  unfold TcpConnection.writeAll
  rw [hhandle]
  dsimp only
  split
  · next hempty =>
    cases List.isEmpty_iff.mp hempty
    exact triple_pure fun _ hs => ⟨rfl, rfl, hs⟩
  split
  · exact triple_fail_written hK h htext 0 _ _
  refine (hquiet (writes_setSocketNonblocking hK.used handle true)).bind fun mode =>
    triple_and fun _ => ?_
  cases mode with
  | error nativeCode => exact triple_fail_written hK h htext 0 _ _
  | ok =>
    refine (hquiet (writes_clock hK)).bind fun now => triple_and fun _ => ?_
    exact (triple_loop (fun n s => n ≤ data.length ∧ P (before ++ data.take n) s)
      (triple_writeRound_of hK h htext _) 0).weaken (fun s hs => ⟨Nat.zero_le _, hs⟩)
      fun _ _ hr => hr

end

/-! ## Clients -/

theorem writes_writeRequest (hK : Basic K)
    (hsent : ∀ handle outcome, K (.sent handle outcome)) (connection : TcpConnection)
    (serialized : SerializedRequest) (timeout : ℤ) :
    (Client.writeRequest connection serialized timeout).Writes K (Stays connection) := by
  refine (writes_clock hK).bind fun now _ => ?_
  refine (writes_remainingTimeout hK _).bind fun remaining _ => ?_
  refine (writes_writeAll hK hsent connection _ remaining).bind fun r h => ?_
  obtain ⟨e | n, connection'⟩ := r
  · exact writes_pure h
  obtain ⟨rfl, -⟩ := h
  dsimp only
  split
  · exact writes_pure ⟨rfl, trivial⟩
  refine (writes_remainingTimeout hK _).bind fun remaining _ => ?_
  refine (writes_writeAll hK hsent connection' _ remaining).bind fun r h => ?_
  obtain ⟨e | n, connection''⟩ := r
  · exact writes_pure h
  · exact writes_pure h

section

variable {this : ClientId}

theorem writes_closeReusableConnection_for (hK : OrdinaryFor this K) (client : Client) :
    (client.closeReusableConnection this).Writes K fun client' => client' = client.cleared := by
  unfold Client.closeReusableConnection
  split
  · refine (writes_emit (hK.adopted _)).bind fun _ _ => ?_
    exact (writes_close hK _).bind fun _ _ => writes_pure rfl
  · exact writes_pure rfl

theorem writes_closeReusableConnection (hK : Ordinary K) (client : Client) (this : ClientId) :
    (client.closeReusableConnection this).Writes K fun client' => client' = client.cleared :=
  writes_closeReusableConnection_for (hK.for this) client

theorem writes_resolve (hresolved : ∀ host port outcome, K (.resolved host port outcome))
    (host : Bytes) (port : ℕ) : (resolve host port).Writes K fun _ => True := by
  unfold resolve
  split
  · exact writes_pure trivial
  refine writes_read.bind fun answer _ => ?_
  split
  · exact (writes_emit (hresolved _ _ _)).bind fun _ _ => writes_pure trivial
  · refine (writes_emit (hresolved _ _ _)).bind fun _ _ => ?_
    dsimp only
    split
    · exact writes_pure trivial
    · exact writes_pure trivial

/-- What a client keeps is gone before a connection is there. -/
theorem writes_obtainConnection_for (hK : OrdinaryFor this K) (client : Client) (platform : Platform)
    (url : Url) : (client.obtainConnection platform this url).Writes K
      fun r => Connects r.1 ∧ r.2 = client.cleared := by
  unfold Client.obtainConnection
  split
  · refine (writes_emit (hK.adopted _)).bind fun _ _ => writes_pure ⟨?_, rfl⟩
    rintro connection ⟨⟩
    exact ⟨_, rfl⟩
  · refine (writes_closeReusableConnection_for hK client).bind fun client' h => ?_
    subst h
    refine (writes_resolve hK.resolved url.host url.port).bind fun resolved _ => ?_
    cases resolved with
    | error e => exact writes_pure ⟨connects_error e, rfl⟩
    | ok endpoints =>
      refine (writes_connect hK platform endpoints _).bind fun result h => ?_
      exact writes_pure ⟨h, rfl⟩

theorem writes_obtainConnection (hK : Ordinary K) (client : Client) (platform : Platform)
    (this : ClientId) (url : Url) : (client.obtainConnection platform this url).Writes K
      fun r => Connects r.1 ∧ r.2 = client.cleared :=
  writes_obtainConnection_for (hK.for this) client platform url

/-- The members of a client that keeps a connection. -/
def Client.keeping (client : Client) (handle : Handle) (url : Url) : Client :=
  { client with
    reusableSocketToken := encodeSocketHandle handle
    hasReusableConnection := true
    reusableHost := url.host
    reusablePort := url.port }

/-- The connection of a response is kept, or it is closed. -/
def Concluded (client : Client) (connection : TcpConnection) (url : Url) (request : Request)
    (parser : ResponseParser) (r : Result Response × Client) : Prop :=
  r.1 = .ok parser.response ∧ if Client.reusable connection parser request = true then
    ∃ handle, connection.socket.handle = some handle ∧ r.2 = client.keeping handle url
  else r.2 = client

theorem writes_conclude_for (hK : OrdinaryFor this K) (client : Client) (connection : TcpConnection)
    (url : Url) (request : Request) (parser : ResponseParser) :
    (client.conclude this connection url request parser).Writes K
      (Concluded client connection url request parser) := by
  have hclose : ¬ Client.reusable connection parser request = true → (do
      let _ ← connection.close
      pure (.ok parser.response, client) : Proc (Result Response × Client)).Writes K
        (Concluded client connection url request parser) := by
    intro hkept
    refine Writes.bind (Q := fun _ => True) ?_ fun _ _ => writes_pure ⟨rfl, ?_⟩
    · exact (writes_close hK _).bind fun _ _ => writes_pure trivial
    · rw [if_neg hkept]
  unfold Client.conclude
  split
  · next handle hhandle hkept =>
    refine (writes_emit (hK.retained _ _ _)).bind fun _ _ => writes_pure ⟨rfl, ?_⟩
    rw [if_pos hkept]
    exact ⟨handle, hhandle, rfl⟩
  · next hother =>
    refine hclose fun hkept => ?_
    obtain ⟨⟨_ | handle⟩⟩ := connection
    · simp [Client.reusable, TcpConnection.connected] at hkept
    · exact hother handle rfl hkept

theorem writes_conclude (hK : Ordinary K) (client : Client) (this : ClientId)
    (connection : TcpConnection) (url : Url) (request : Request) (parser : ResponseParser) :
    (client.conclude this connection url request parser).Writes K
      (Concluded client connection url request parser) :=
  writes_conclude_for (hK.for this) client connection url request parser

end

/-! ## Calls on a client -/

/-- A kind of events that includes what is done with sockets and with data. -/
structure Transfers (K : Event → Prop) : Prop extends Basic K where
  readable : ∀ handle milliseconds result, K (.waited handle false milliseconds result)
  sent : ∀ handle outcome, K (.sent handle outcome)
  received : ∀ handle outcome, K (.received handle outcome)

/-- A kind of events that includes all that a call on this client may write. -/
structure CallOf (this : ClientId) (K : Event → Prop) : Prop extends
    OrdinaryFor this K, Transfers K where
  began : ∀ handle host port parser, K (.began handle host port parser)

section

variable {this : ClientId}

theorem writes_readSome (hK : Transfers K) (connection : TcpConnection) (capacity : ℕ)
    (timeout : ℤ) : (connection.readSome capacity timeout).Writes K (Stays connection) := by
  rcases hhandle : connection.socket.handle with _ | handle
  · unfold TcpConnection.readSome
    rw [hhandle]
    refine writes_pure ?_
    obtain ⟨⟨_⟩⟩ := connection
    cases hhandle
    exact rfl
  · exact (triple_readSome_ends (M := observer K) (P := fun _ _ => True) hK.toBasic
      (hK.readable handle) (fun _ _ _ he _ => ⟨(), if_pos he, trivial⟩)
      (fun outcome _ _ => ⟨(), if_pos (hK.received handle outcome), trivial⟩) hhandle capacity
      timeout).weaken (fun _ h => h) fun _ _ h => h.leaves

/-- The connection of an exchange is still there, or it has been closed. -/
theorem writes_exchange (hK : Transfers K) (client : Client) (connection : TcpConnection)
    (serialized : SerializedRequest) (parser : ResponseParser) :
    (client.exchange connection serialized parser).Writes K
      fun r => r.2 = connection ∨ r.2 = {} := by
  refine (writes_writeRequest hK.toBasic hK.sent connection serialized _).bind fun r h => ?_
  obtain ⟨e | u, connection'⟩ := r
  · exact writes_pure (.inr h)
  obtain ⟨rfl, -⟩ := h
  refine writes_loop (fun state => state.1 = connection') (fun state h => ?_) rfl
  obtain ⟨connection'', parser'⟩ := state
  cases h
  unfold Client.responseRound
  dsimp only
  split
  · exact writes_pure (.inl rfl)
  refine (writes_readSome hK connection'' _ _).bind fun r h => ?_
  obtain ⟨e | data, connection₁⟩ := r
  · exact writes_pure (.inr h)
  obtain ⟨rfl, -⟩ := h
  dsimp only
  split
  · exact writes_pure (.inl rfl)
  · exact writes_pure rfl

theorem writes_executeOnce (hK : CallOf this K) (client : Client) (platform : Platform)
    (request : Request) : (client.executeOnce platform this request).Writes K fun _ => True := by
  unfold Client.executeOnce
  split
  · exact writes_pure trivial
  refine (writes_obtainConnection_for hK.toOrdinaryFor client platform _).bind fun r _ => ?_
  obtain ⟨e | connection, client'⟩ := r
  · exact writes_pure trivial
  refine Writes.bind (Q := fun _ => True) ?_ fun _ _ => ?_
  · unfold Client.beginExchange
    split
    · exact writes_emit (hK.began _ _ _ _)
    · exact writes_pure trivial
  refine (writes_exchange hK.toTransfers client' connection _ _).bind fun r _ => ?_
  obtain ⟨e | parser, connection'⟩ := r
  · refine Writes.bind (Q := fun _ => True) ?_ fun _ _ => writes_pure trivial
    exact (writes_close hK.toBasic _).bind fun _ _ => writes_pure trivial
  · exact (writes_conclude_for hK.toOrdinaryFor client' connection' _ request parser).weaken
      fun _ _ => trivial

theorem writes_request (hK : CallOf this K) (client : Client) (platform : Platform)
    (request : Request) : (client.request platform this request).Writes K fun _ => True :=
  Dialogue.triple_play (M := observer K) (fun _ _ => True)
    (fun request client => writes_executeOnce hK client platform request) _ client

end

end CppRequest
