import CppRequest.Sockets

/-!
# Connections

`Resolver::resolve`, and `TcpConnection` with its loops over endpoints, over what is still to be
written and over the attempts to read.
-/

namespace CppRequest

open Procedure

def sizeofSockaddrStorage : ℕ := 128

/-- The storage holds the bytes of an address, none where it is not valid. -/
structure Endpoint where
  address : Bytes
  socketType : ℤ
  protocol : ℤ
deriving Repr, DecidableEq

namespace Endpoint

/-- The constructor, with an address. -/
def ofAddress (address : Bytes) (socketType protocol : ℤ) : Endpoint where
  address := if address.length ≤ sizeofSockaddrStorage then address else []
  socketType := socketType
  protocol := protocol

def addressSize (endpoint : Endpoint) : ℕ := endpoint.address.length

def valid (endpoint : Endpoint) : Bool := endpoint.addressSize != 0

end Endpoint

/-! ## Resolving -/

def AF_INET : ℤ := 2
def AF_INET6 : ℤ := 10
def SOCK_STREAM : ℤ := 1
def IPPROTO_TCP : ℤ := 6

/-- One round of the loop over the results. -/
def addEndpoint (endpoints : List Endpoint) (current : AddrInfo) : List Endpoint :=
  match current.address with
  | none => endpoints
  | some address =>
    if current.family ≠ AF_INET ∧ current.family ≠ AF_INET6 then endpoints
    else if address.length = 0 ∨ address.length > sizeofSockaddrStorage then endpoints
    else endpoints ++ [.ofAddress address
      (if current.socketType ≠ 0 then current.socketType else SOCK_STREAM)
      (if current.protocol ≠ 0 then current.protocol else IPPROTO_TCP)]

/-- The runtime is always there, and the decimal text of a port fits its buffer. -/
def resolve (host : Bytes) (port : ℕ) : Proc (Result (List Endpoint)) :=
  if host.isEmpty || host.contains 0 then pure (.error { code := .resolveFailed })
  else do
    let answer ← read
    if answer.result ≠ 0 then
      emit (.resolved host port (.error answer.result))
      pure (.error { code := .resolveFailed, nativeCode := answer.result })
    else
      emit (.resolved host port (.ok answer.addresses))
      let endpoints := answer.addresses.foldl addEndpoint []
      if endpoints.isEmpty then pure (.error { code := .resolveFailed }) else pure (.ok endpoints)

/-! ## Connections -/

structure TcpConnection where
  socket : NativeSocket := {}
deriving Repr, DecidableEq

namespace TcpConnection

def adoptNativeHandle (handle : Handle) : TcpConnection := { socket := { handle := some handle } }

def connected (connection : TcpConnection) : Bool := connection.socket.handle.isSome

def close (connection : TcpConnection) : Proc TcpConnection := do
  let socket ← connection.socket.close
  pure { socket }

/-- `close(); return Error{…};` -/
def fail {α : Type} (connection : TcpConnection) (code : ErrorCode) (nativeCode : ℤ) :
    Proc (Result α × TcpConnection) := do
  let connection ← connection.close
  pure (.error { code, nativeCode }, connection)

/-! ## Connecting -/

/-- The variables of the loop over the endpoints. -/
structure ConnectState where
  createdSocket : Bool := false
  sawValidEndpoint : Bool := false
  lastNativeError : ℤ := 0
deriving Repr, DecidableEq

def connectLoop (platform : Platform) (deadline : ℤ) :
    ConnectState → List Endpoint → Proc (Result TcpConnection)
  | state, [] =>
    if !state.sawValidEndpoint then pure (.error { code := .connectFailed })
    else if !state.createdSocket then
      pure (.error { code := .socketCreateFailed, nativeCode := state.lastNativeError })
    else pure (.error { code := .connectFailed, nativeCode := state.lastNativeError })
  | state, endpoint :: endpoints =>
    if !endpoint.valid then connectLoop platform deadline state endpoints
    else do
      let state := { state with sawValidEndpoint := true }
      let now ← steadyClockNow
      if now ≥ deadline then
        pure (.error { code := .connectTimeout, nativeCode := state.lastNativeError })
      else
        let (socket, createError) ← createTcpSocket platform
        match socket.handle with
        | none =>
          connectLoop platform deadline { state with lastNativeError := createError } endpoints
        | some handle =>
          let remaining ← remainingTimeout deadline
          let attempt ← connectWithTimeout handle endpoint.address remaining
          if attempt.status = .connected then pure (.ok { socket })
          else
            -- the socket is destroyed at the end of the round
            let _ ← socket.close
            if attempt.status = .timedOut then
              pure (.error { code := .connectTimeout, nativeCode := attempt.nativeCode })
            else
              connectLoop platform deadline
                { state with createdSocket := true, lastNativeError := attempt.nativeCode } endpoints

def connect (platform : Platform) (endpoints : List Endpoint) (timeout : ℤ) :
    Proc (Result TcpConnection) :=
  if timeout ≤ 0 then pure (.error { code := .connectTimeout })
  else if endpoints.isEmpty then pure (.error { code := .connectFailed })
  else do
    let now ← steadyClockNow
    connectLoop platform (deadlineAfter now timeout) {} endpoints

/-! ## Waiting between attempts -/

/-- What follows a wait that neither goes round again nor has come back ready. -/
def waitFailed {α : Type} (connection : TcpConnection) (timedOut failed : ErrorCode)
    (wait : SocketWaitResult) : Proc (Result α × TcpConnection) :=
  if wait.status = .timedOut then connection.fail timedOut wait.nativeCode
  else if socketErrorIsConnectionClosed wait.nativeCode then
    connection.fail .connectionClosed wait.nativeCode
  else connection.fail failed wait.nativeCode

/-- What follows an attempt that has transferred nothing: `none` goes round again. The two loops
differ in their error codes and in what they wait for. -/
def retry {α : Type} (connection : TcpConnection) (handle : Handle) (deadline : ℤ)
    (writable : Bool) (timedOut failed : ErrorCode) (attempt : SocketIoAttempt) :
    Proc (Option (Result α × TcpConnection)) :=
  if attempt.transferred = 0 then some <$> connection.fail .connectionClosed 0
  else if socketErrorIsInterrupted attempt.nativeCode then pure none
  else if socketErrorIsConnectionClosed attempt.nativeCode then
    some <$> connection.fail .connectionClosed attempt.nativeCode
  else if !socketErrorIsWouldBlock attempt.nativeCode then
    some <$> connection.fail failed attempt.nativeCode
  else do
    let remaining ← remainingTimeout deadline
    if remaining ≤ 0 then some <$> connection.fail timedOut 0
    else
      let wait ← waitSocket handle remaining writable
      if wait.status = .ready then pure none
      else if wait.status = .failed && socketErrorIsInterrupted wait.nativeCode then pure none
      else some <$> connection.waitFailed timedOut failed wait

/-! ## Writing -/

/-- One round of the loop of `write_all`; when everything is written, what follows the loop. -/
def writeRound (connection : TcpConnection) (handle : Handle) (data : Bytes) (deadline : ℤ)
    (totalWritten : ℕ) : Proc (ℕ ⊕ (Result ℕ × TcpConnection)) :=
  if totalWritten < data.length then do
    let now ← steadyClockNow
    if now ≥ deadline then .inr <$> connection.fail .writeTimeout 0
    else
      let attempt ← sendSome handle (data.drop totalWritten)
      if attempt.transferred > 0 then pure (.inl (totalWritten + attempt.transferred.toNat))
      else
        match ← connection.retry handle deadline true .writeTimeout .writeFailed attempt with
        | none => pure (.inl totalWritten)
        | some result => pure (.inr result)
  else do
    match ← setSocketNonblocking handle false with
    | .error nativeCode => .inr <$> connection.fail .writeFailed nativeCode
    | .ok () => pure (.inr (.ok totalWritten, connection))

theorem reads_clock (K : ℤ → Prop) : steadyClockNow.Reads K :=
  (reads_read fun _ => True).first

theorem reads_setSocketNonblocking (socket : Handle) (enabled : Bool) (K : Except ℤ Unit → Prop) :
    (setSocketNonblocking socket enabled).Reads K :=
  .second fun _ => (reads_read fun _ => True).first

theorem writeRound_reads (connection : TcpConnection) (handle : Handle) (data : Bytes)
    (deadline : ℤ) (totalWritten : ℕ) :
    (writeRound connection handle data deadline totalWritten).Reads fun r => r.isLeft = true := by
  unfold writeRound
  split_ifs
  · exact (reads_clock _).first
  · exact (reads_setSocketNonblocking _ _ _).first

def writeAll (connection : TcpConnection) (data : Bytes) (timeout : ℤ) :
    Proc (Result ℕ × TcpConnection) :=
  match connection.socket.handle with
  | none => pure (.error { code := .connectionClosed }, connection)
  | some handle =>
    if data.isEmpty then pure (.ok 0, connection)
    else if timeout ≤ 0 then connection.fail .writeTimeout 0
    else do
      match ← setSocketNonblocking handle true with
      | .error nativeCode => connection.fail .writeFailed nativeCode
      | .ok () =>
        let now ← steadyClockNow
        let deadline := deadlineAfter now timeout
        loop (writeRound connection handle data deadline)
          (writeRound_reads connection handle data deadline) 0

/-! ## Reading -/

/-- One round of the loop of `read_some`. -/
def readRound (connection : TcpConnection) (handle : Handle) (capacity : ℕ) (deadline : ℤ)
    (_ : Unit) : Proc (Unit ⊕ (Result Bytes × TcpConnection)) := do
  let now ← steadyClockNow
  if now ≥ deadline then .inr <$> connection.fail .readTimeout 0
  else
    let (attempt, data) ← receiveSome handle capacity
    if attempt.transferred > 0 then
      match ← setSocketNonblocking handle false with
      | .error nativeCode => .inr <$> connection.fail .readFailed nativeCode
      | .ok () => pure (.inr (.ok data, connection))
    else
      match ← connection.retry handle deadline false .readTimeout .readFailed attempt with
      | none => pure (.inl ())
      | some result => pure (.inr result)

theorem readRound_reads (connection : TcpConnection) (handle : Handle) (capacity : ℕ)
    (deadline : ℤ) (u : Unit) :
    (readRound connection handle capacity deadline u).Reads fun r => r.isLeft = true :=
  (reads_clock _).first

/-- The buffer is there; the bytes that are put into it are the result. -/
def readSome (connection : TcpConnection) (capacity : ℕ) (timeout : ℤ) :
    Proc (Result Bytes × TcpConnection) :=
  match connection.socket.handle with
  | none => pure (.error { code := .connectionClosed }, connection)
  | some handle =>
    if capacity = 0 then pure (.ok [], connection)
    else if timeout ≤ 0 then connection.fail .readTimeout 0
    else do
      match ← setSocketNonblocking handle true with
      | .error nativeCode => connection.fail .readFailed nativeCode
      | .ok () =>
        let now ← steadyClockNow
        let deadline := deadlineAfter now timeout
        loop (readRound connection handle capacity deadline)
          (readRound_reads connection handle capacity deadline) ()

/-- Reading data takes time. -/
theorem readSome_reads (connection : TcpConnection) {capacity : ℕ} (timeout : ℤ)
    (hcapacity : capacity ≠ 0) :
    (connection.readSome capacity timeout).Reads fun r => ∃ data, r.1 = .ok data := by
  unfold readSome
  split
  · exact reads_done nofun
  · rw [if_neg hcapacity]
    split_ifs
    · exact .second fun _ => reads_done nofun
    · exact (reads_setSocketNonblocking _ _ _).first

end TcpConnection

end CppRequest
