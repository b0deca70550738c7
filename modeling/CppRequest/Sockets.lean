import CppRequest.Procedure
import CppRequest.ResponseParser

/-!
# Sockets

The calls of the operating system on sockets, and the functions around them. One item of the input
is the answer to one call. Handles are names: a socket that is opened gets one that no other socket
has had. The error numbers are those of Linux.
-/

namespace CppRequest

abbrev Handle := ℕ

/-- The place of a client in memory. -/
abbrev ClientId := ℕ

/-- A node of the list that `getaddrinfo` returns. An address is there or not, and has as many bytes
as `ai_addrlen` says. -/
structure AddrInfo where
  address : Option Bytes
  family : ℤ
  socketType : ℤ
  protocol : ℤ
deriving Repr, DecidableEq

/-- The answer to a call, which reads the members it is about. The clock counts nanoseconds. -/
structure Answer where
  result : ℤ := 0
  errno : ℤ := 0
  time : ℤ := 0
  data : Bytes := []
  addresses : List AddrInfo := []
deriving Repr, DecidableEq

inductive SocketWaitStatus
  | ready | timedOut | failed
deriving Repr, DecidableEq

structure SocketWaitResult where
  status : SocketWaitStatus := .failed
  nativeCode : ℤ := 0
deriving Repr, DecidableEq

/-- The calls that carry no data. -/
inductive SocketCall
  | setNoSigpipe | getFlags | setFlags (nonblocking : Bool) | connect (address : Bytes) | getError
deriving Repr, DecidableEq

/-- What is written down. The last four kinds are no calls: an exchange begins on a handle, with the
host and the port of its URL and the parser of its response, and clients keep handles, take them
back and hand them on. -/
inductive Event
  | clock (time : ℤ)
  | resolved (host : Bytes) (port : ℕ) (outcome : Except ℤ (List AddrInfo))
  | opened (handle : Handle)
  | closed (handle : Handle)
  | used (handle : Handle) (call : SocketCall)
  | waited (handle : Handle) (writable : Bool) (milliseconds : ℤ) (result : SocketWaitResult)
  | sent (handle : Handle) (outcome : Except ℤ Bytes)
  | received (handle : Handle) (outcome : Except ℤ Bytes)
  | began (handle : Handle) (host : Bytes) (port : ℕ) (parser : ResponseParser)
  | retained (this : ClientId) (handle : Handle) (host : Bytes) (port : ℕ)
  | adopted (this : ClientId) (handle : Handle)
  | moved (other this : ClientId) (handle : Handle)

def Event.isOpened : Event → Bool
  | .opened _ => true
  | _ => false

abbrev Proc := Procedure Answer Event

/-- What the build decides. -/
structure Platform where
  inetPton6 : Bytes → Bool
  setsNoSigpipe : Bool := false

open Procedure

/-! ## The clock -/

def steadyClockNow : Proc ℤ := do
  let answer ← read
  emit (.clock answer.time)
  pure answer.time

/-- The representation of a duration in nanoseconds, which wraps around. -/
def wrapNanoseconds (count : ℤ) : ℤ := Int.bmod count (2 ^ 64)

def nanosecondsPerMillisecond : ℤ := 1000000

/-- `now + timeout`. -/
def deadlineAfter (now timeout : ℤ) : ℤ :=
  wrapNanoseconds (now + timeout * nanosecondsPerMillisecond)

def remainingTimeout (deadline : ℤ) : Proc ℤ := do
  let now ← steadyClockNow
  if now ≥ deadline then pure 0
  else
    let remaining := (wrapNanoseconds (deadline - now)).tdiv nanosecondsPerMillisecond
    pure (if remaining ≤ 0 then 1 else remaining)

/-! ## Error numbers -/

def EINTR : ℤ := 4
def EAGAIN : ℤ := 11
def EWOULDBLOCK : ℤ := 11
def EPIPE : ℤ := 32
def ECONNRESET : ℤ := 104
def ENOTCONN : ℤ := 107
def ESHUTDOWN : ℤ := 108
def EALREADY : ℤ := 114
def EINPROGRESS : ℤ := 115

def socketErrorIsWouldBlock (code : ℤ) : Bool := code == EAGAIN || code == EWOULDBLOCK

def socketErrorIsInterrupted (code : ℤ) : Bool := code == EINTR

def socketErrorIsConnectionClosed (code : ℤ) : Bool :=
  code == EPIPE || code == ECONNRESET || code == ENOTCONN || code == ESHUTDOWN

def connectInProgress (code : ℤ) : Bool :=
  code == EINPROGRESS || code == EWOULDBLOCK || code == EALREADY

/-! ## Owning a handle -/

structure NativeSocket where
  handle : Option Handle := none
deriving Repr, DecidableEq

namespace NativeSocket

def reset (socket : NativeSocket) (replacement : Option Handle) : Proc NativeSocket :=
  if socket.handle = replacement then pure socket
  else do
    match socket.handle with
    | some handle => emit (.closed handle)
    | none => pure ()
    pure { handle := replacement }

/-- The destructor as well. -/
def close (socket : NativeSocket) : Proc NativeSocket := socket.reset none

end NativeSocket

/-- The handle that `::socket` returns. -/
def freshHandle : Proc Handle := do
  let log ← history
  pure (log.countP Event.isOpened)

def createTcpSocket (platform : Platform) : Proc (NativeSocket × ℤ) := do
  let answer ← read
  if answer.result = -1 then pure ({}, answer.errno)
  else
    let handle ← freshHandle
    emit (.opened handle)
    let socket : NativeSocket := { handle := some handle }
    if platform.setsNoSigpipe then
      emit (.used handle .setNoSigpipe)
      let answer ← read
      if answer.result ≠ 0 then
        let _ ← socket.close
        pure ({}, answer.errno)
      else pure (socket, 0)
    else pure (socket, 0)

/-! ## Calls on a handle -/

def setSocketNonblocking (socket : Handle) (enabled : Bool) : Proc (Except ℤ Unit) := do
  emit (.used socket .getFlags)
  let flags ← read
  if flags.result = -1 then pure (.error flags.errno)
  else
    emit (.used socket (.setFlags enabled))
    let answer ← read
    if answer.result = 0 then pure (.ok ()) else pure (.error answer.errno)

def kMaxInt : ℕ := 2 ^ 31 - 1

def boundedIoSize (size : ℕ) : ℕ := min size kMaxInt

def waitSocket (socket : Handle) (timeout : ℤ) (writable : Bool) : Proc SocketWaitResult :=
  if timeout ≤ 0 then pure { status := .timedOut }
  else do
    let bounded := min (max 1 timeout) kMaxInt
    let answer ← read
    let result : SocketWaitResult :=
      if answer.result = 0 then { status := .timedOut }
      else if answer.result < 0 then { status := .failed, nativeCode := answer.errno }
      else { status := .ready }
    emit (.waited socket writable bounded result)
    pure result

structure SocketIoAttempt where
  transferred : ℤ := -1
  nativeCode : ℤ := 0
deriving Repr, DecidableEq

/-- The system accepts at most what it is offered. -/
def sendSome (socket : Handle) (data : Bytes) : Proc SocketIoAttempt := do
  let answer ← read
  if answer.result < 0 then
    emit (.sent socket (.error answer.errno))
    pure { nativeCode := answer.errno }
  else
    let accepted := data.take (min answer.result.toNat (boundedIoSize data.length))
    emit (.sent socket (.ok accepted))
    pure { transferred := accepted.length }

/-- With the bytes that are in the buffer then, at most as many as it holds. -/
def receiveSome (socket : Handle) (capacity : ℕ) : Proc (SocketIoAttempt × Bytes) := do
  let answer ← read
  if answer.result < 0 then
    emit (.received socket (.error answer.errno))
    pure ({ nativeCode := answer.errno }, [])
  else
    let data := answer.data.take (boundedIoSize capacity)
    emit (.received socket (.ok data))
    pure ({ transferred := data.length }, data)

/-! ## Connecting -/

inductive ConnectStatus
  | connected | failed | timedOut
deriving Repr, DecidableEq

structure ConnectAttemptResult where
  status : ConnectStatus := .failed
  nativeCode : ℤ := 0
deriving Repr, DecidableEq

def socketErrorResult (socket : Handle) : Proc ConnectAttemptResult := do
  emit (.used socket .getError)
  let answer ← read
  if answer.result ≠ 0 then pure { nativeCode := answer.errno }
  else
    -- `SO_ERROR` is put where the call points to
    let error := answer.errno
    pure (if error = 0 then { status := .connected } else { nativeCode := error })

/-- A connected socket blocks again. -/
def restoreBlocking (socket : Handle) (result : ConnectAttemptResult) :
    Proc ConnectAttemptResult := do
  match ← setSocketNonblocking socket false with
  | .error nativeCode => pure { nativeCode }
  | .ok () => pure result

def connectWithTimeout (socket : Handle) (address : Bytes) (timeout : ℤ) :
    Proc ConnectAttemptResult :=
  if timeout ≤ 0 then pure { status := .timedOut }
  else do
    match ← setSocketNonblocking socket true with
    | .error nativeCode => pure { nativeCode }
    | .ok () =>
      emit (.used socket (.connect address))
      let answer ← read
      if answer.result = 0 then restoreBlocking socket { status := .connected }
      else if !connectInProgress answer.errno then pure { nativeCode := answer.errno }
      else
        let wait ← waitSocket socket timeout true
        match wait.status with
        | .timedOut => pure { status := .timedOut, nativeCode := wait.nativeCode }
        | .failed => pure { nativeCode := wait.nativeCode }
        | .ready =>
          let result ← socketErrorResult socket
          if result.status = .connected then restoreBlocking socket result else pure result

end CppRequest
