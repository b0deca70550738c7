import CppRequest.SocketEvents

/-!
# Which errors are returned

Each phase of a call has error codes of its own: resolving, connecting, sending and receiving.
-/

namespace CppRequest

open Procedure Monitor

def connectErrors : List ErrorCode :=
  [.resolveFailed, .socketCreateFailed, .connectFailed, .connectTimeout]

def sendErrors : List ErrorCode := [.connectionClosed, .writeTimeout, .writeFailed]

def receiveErrors : List ErrorCode := [.connectionClosed, .readTimeout, .readFailed]

/-- An error has one of these codes. -/
def ErrorIn {α : Type} (codes : List ErrorCode) (r : Result α) : Prop :=
  ∀ e, r = .error e → e.code ∈ codes

section

variable {α : Type} {codes : List ErrorCode}

theorem errorIn_ok (a : α) : ErrorIn codes (.ok a) := nofun

theorem errorIn_error {e : Error} (h : e.code ∈ codes) :
    ErrorIn codes (.error e : Result α) := by
  rintro e' ⟨⟩
  exact h

end

/-- Whatever the procedure writes, this is known of what it returns. -/
abbrev Proc.Returns {α : Type} (p : Proc α) (Q : α → Prop) : Prop := p.Writes (fun _ => True) Q

/-! ## Connections -/

section

variable {α : Type} {codes : List ErrorCode} {connection : TcpConnection} {handle : Handle}

theorem returns_fail {code : ErrorCode} (h : code ∈ codes) (nativeCode : ℤ) :
    Proc.Returns (connection.fail code nativeCode : Proc (Result α × TcpConnection))
      fun r => ErrorIn codes r.1 :=
  (writes_fail ordinary_any connection code nativeCode).weaken fun r hr => by
    rw [hr]
    exact errorIn_error h

theorem returns_retry {timedOut failed : ErrorCode} (hclosed : .connectionClosed ∈ codes)
    (htimedOut : timedOut ∈ codes) (hfailed : failed ∈ codes) (deadline : ℤ) (writable : Bool)
    (attempt : SocketIoAttempt) :
    Proc.Returns (connection.retry handle deadline writable timedOut failed attempt :
      Proc (Option (Result α × TcpConnection))) fun r => ∀ x, r = some x → ErrorIn codes x.1 := by
  have hfail : ∀ {code} nativeCode, code ∈ codes →
      Proc.Returns (some <$> connection.fail code nativeCode :
        Proc (Option (Result α × TcpConnection))) fun r => ∀ x, r = some x → ErrorIn codes x.1 := by
    intro code nativeCode hcode
    refine (returns_fail hcode nativeCode).bind fun r hr => writes_pure ?_
    rintro x ⟨⟩
    exact hr
  have hagain : Proc.Returns (pure none : Proc (Option (Result α × TcpConnection)))
      fun r => ∀ x, r = some x → ErrorIn codes x.1 := writes_pure nofun
  unfold TcpConnection.retry
  split
  · exact hfail _ hclosed
  split
  · exact hagain
  split
  · exact hfail _ hclosed
  split
  · exact hfail _ hfailed
  refine (writes_remainingTimeout ordinary_any deadline).bind fun remaining _ => ?_
  split
  · exact hfail _ htimedOut
  refine (writes_waitSocket (fun _ _ => trivial) remaining).bind fun wait _ => ?_
  split
  · exact hagain
  split
  · exact hagain
  unfold TcpConnection.waitFailed
  split
  · exact hfail _ htimedOut
  split
  · exact hfail _ hclosed
  · exact hfail _ hfailed

theorem returns_writeAll (connection : TcpConnection) (data : Bytes) (timeout : ℤ) :
    Proc.Returns (connection.writeAll data timeout) fun r => ErrorIn sendErrors r.1 := by
  have hclosed : ErrorCode.connectionClosed ∈ sendErrors := by decide
  have htimedOut : ErrorCode.writeTimeout ∈ sendErrors := by decide
  have hfailed : ErrorCode.writeFailed ∈ sendErrors := by decide
  unfold TcpConnection.writeAll
  split
  · exact writes_pure (errorIn_error hclosed)
  next handle hhandle =>
  split
  · exact writes_pure (errorIn_ok 0)
  split
  · exact returns_fail htimedOut _
  refine (writes_setSocketNonblocking ordinary_any.used handle true).bind fun mode _ => ?_
  cases mode with
  | error nativeCode => exact returns_fail hfailed _
  | ok =>
    refine (writes_clock ordinary_any).bind fun now _ => ?_
    refine writes_loop (fun _ => True) (fun totalWritten _ => ?_) trivial
    unfold TcpConnection.writeRound
    split
    · refine (writes_clock ordinary_any).bind fun now _ => ?_
      split
      · exact (returns_fail htimedOut _).bind fun _ h => writes_pure h
      refine (writes_sendSome (fun _ => trivial) _).bind fun attempt _ => ?_
      split
      · exact writes_pure trivial
      refine (returns_retry hclosed htimedOut hfailed _ _ attempt).bind fun r h => ?_
      cases r with
      | none => exact writes_pure trivial
      | some result => exact writes_pure (h result rfl)
    · refine (writes_setSocketNonblocking ordinary_any.used handle false).bind fun mode _ => ?_
      cases mode with
      | error nativeCode => exact (returns_fail hfailed _).bind fun _ h => writes_pure h
      | ok => exact writes_pure (errorIn_ok totalWritten)

theorem returns_readSome (connection : TcpConnection) (capacity : ℕ) (timeout : ℤ) :
    Proc.Returns (connection.readSome capacity timeout) fun r => ErrorIn receiveErrors r.1 := by
  have hclosed : ErrorCode.connectionClosed ∈ receiveErrors := by decide
  have htimedOut : ErrorCode.readTimeout ∈ receiveErrors := by decide
  have hfailed : ErrorCode.readFailed ∈ receiveErrors := by decide
  unfold TcpConnection.readSome
  split
  · exact writes_pure (errorIn_error hclosed)
  next handle hhandle =>
  split
  · exact writes_pure (errorIn_ok [])
  split
  · exact returns_fail htimedOut _
  refine (writes_setSocketNonblocking ordinary_any.used handle true).bind fun mode _ => ?_
  cases mode with
  | error nativeCode => exact returns_fail hfailed _
  | ok =>
    refine (writes_clock ordinary_any).bind fun now _ => ?_
    refine writes_loop (fun _ => True) (fun u _ => ?_) trivial
    unfold TcpConnection.readRound
    refine (writes_clock ordinary_any).bind fun now _ => ?_
    split
    · exact (returns_fail htimedOut _).bind fun _ h => writes_pure h
    refine (writes_receiveSome (fun _ => trivial) _).bind fun r _ => ?_
    obtain ⟨attempt, data⟩ := r
    dsimp only
    split
    · refine (writes_setSocketNonblocking ordinary_any.used handle false).bind fun mode _ => ?_
      cases mode with
      | error nativeCode => exact (returns_fail hfailed _).bind fun _ h => writes_pure h
      | ok => exact writes_pure (errorIn_ok data)
    · refine (returns_retry hclosed htimedOut hfailed _ _ attempt).bind fun r h => ?_
      cases r with
      | none => exact writes_pure trivial
      | some result => exact writes_pure (h result rfl)

end

/-! ## Resolving and connecting -/

theorem returns_resolve (host : Bytes) (port : ℕ) :
    Proc.Returns (resolve host port) (ErrorIn connectErrors) := by
  have hresolve : ErrorCode.resolveFailed ∈ connectErrors := by decide
  unfold resolve
  split
  · exact writes_pure (errorIn_error hresolve)
  refine writes_read.bind fun answer _ => ?_
  split
  · exact (writes_emit trivial).bind fun _ _ => writes_pure (errorIn_error hresolve)
  · refine (writes_emit trivial).bind fun _ _ => ?_
    dsimp only
    split
    · exact writes_pure (errorIn_error hresolve)
    · exact writes_pure (errorIn_ok _)

theorem returns_connectLoop (platform : Platform) (deadline : ℤ)
    (state : TcpConnection.ConnectState) (endpoints : List Endpoint) :
    Proc.Returns (TcpConnection.connectLoop platform deadline state endpoints)
      (ErrorIn connectErrors) := by
  have hfailed : ErrorCode.connectFailed ∈ connectErrors := by decide
  have hsocket : ErrorCode.socketCreateFailed ∈ connectErrors := by decide
  have htimedOut : ErrorCode.connectTimeout ∈ connectErrors := by decide
  induction endpoints generalizing state with
  | nil =>
    unfold TcpConnection.connectLoop
    split_ifs
    · exact writes_pure (errorIn_error hfailed)
    · exact writes_pure (errorIn_error hsocket)
    · exact writes_pure (errorIn_error hfailed)
  | cons endpoint endpoints ih =>
    unfold TcpConnection.connectLoop
    split
    · exact ih state
    refine (writes_clock ordinary_any).bind fun now _ => ?_
    split
    · exact writes_pure (errorIn_error htimedOut)
    refine (writes_createTcpSocket ordinary_any platform).bind fun r _ => ?_
    obtain ⟨⟨_ | handle⟩, createError⟩ := r
    · exact ih _
    refine (writes_remainingTimeout ordinary_any deadline).bind fun remaining _ => ?_
    refine (writes_connectWithTimeout ordinary_any handle endpoint.address remaining).bind fun attempt _ => ?_
    split
    · exact writes_pure (errorIn_ok _)
    refine (writes_close ordinary_any _).bind fun _ _ => ?_
    split
    · exact writes_pure (errorIn_error htimedOut)
    · exact ih _

theorem returns_connect (platform : Platform) (endpoints : List Endpoint) (timeout : ℤ) :
    Proc.Returns (TcpConnection.connect platform endpoints timeout) (ErrorIn connectErrors) := by
  unfold TcpConnection.connect
  split
  · exact writes_pure (errorIn_error (by decide))
  split
  · exact writes_pure (errorIn_error (by decide))
  exact (writes_clock ordinary_any).bind fun now _ => returns_connectLoop platform _ _ _

/-! ## Clients -/

theorem returns_writeRequest (connection : TcpConnection) (serialized : SerializedRequest)
    (timeout : ℤ) : Proc.Returns (Client.writeRequest connection serialized timeout)
      fun r => ErrorIn sendErrors r.1 := by
  refine (writes_clock ordinary_any).bind fun now _ => ?_
  refine (writes_remainingTimeout ordinary_any _).bind fun remaining _ => ?_
  refine (returns_writeAll connection serialized.head remaining).bind fun r h => ?_
  obtain ⟨e | n, connection'⟩ := r
  · exact writes_pure (errorIn_error (h e rfl))
  dsimp only
  split
  · exact writes_pure (errorIn_ok ())
  refine (writes_remainingTimeout ordinary_any _).bind fun remaining _ => ?_
  refine (returns_writeAll connection' serialized.body remaining).bind fun r h => ?_
  obtain ⟨e | n, connection''⟩ := r
  · exact writes_pure (errorIn_error (h e rfl))
  · exact writes_pure (errorIn_ok ())

theorem returns_obtainConnection (client : Client) (platform : Platform) (this : ClientId)
    (url : Url) : Proc.Returns (client.obtainConnection platform this url)
      fun r => ErrorIn connectErrors r.1 := by
  unfold Client.obtainConnection
  split
  · exact (writes_emit trivial).bind fun _ _ => writes_pure (errorIn_ok _)
  · refine Writes.bind (Q := fun _ => True) ?_ fun client' _ => ?_
    · exact (writes_closeReusableConnection ordinary_any client this).weaken fun _ _ => trivial
    refine (returns_resolve url.host url.port).bind fun resolved h => ?_
    cases resolved with
    | error e => exact writes_pure (errorIn_error (h e rfl))
    | ok endpoints =>
      exact (returns_connect platform endpoints _).bind fun result h => writes_pure h

end CppRequest
