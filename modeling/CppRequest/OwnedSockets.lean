import CppRequest.HandleLedger

/-!
# Sockets own their handles

The functions on sockets and connections under the ledger: which handle the one socket that is
around has when they begin and when they return, while the clients keep what they have.
-/

namespace CppRequest

open Procedure Monitor

/-- What a client keeps. -/
abbrev KeptHandles := ClientId → Option (Handle × Bytes × ℕ)

/-- The socket has this handle at this place, or none, and the clients have these. -/
structure Holds (socket : Option (Handle × Place)) (kept : KeptHandles) (places : Places) :
    Prop where
  socket : ∀ handle p, socket = some (handle, p) ↔ p.owned = true ∧ places[handle]? = some p
  kept : ∀ this handle host port,
    kept this = some (handle, host, port) ↔ places[handle]? = some (.kept this host port)

namespace Holds

variable {socket socket' : Option (Handle × Place)} {kept kept' : KeptHandles} {places : Places}
variable {handle : Handle} {p p' : Place}

theorem getElem? (h : Holds (some (handle, p)) kept places) : places[handle]? = some p :=
  ((h.socket handle p).mp rfl).2

theorem owned (h : Holds (some (handle, p)) kept places) : p.owned = true :=
  ((h.socket handle p).mp rfl).1

theorem free (h : Holds none kept places) : Places.free places = true := by
  refine List.all_eq_true.mpr fun p hp => ?_
  rcases List.mem_iff_getElem?.mp hp with ⟨handle, hhandle⟩
  rw [Bool.not_eq_true', ← Bool.not_eq_true]
  intro howned
  cases (h.socket handle p).mpr ⟨howned, hhandle⟩

/-- What a socket has no client has. -/
theorem not_kept (h : Holds (some (handle, p)) kept places) (this : ClientId) (host : Bytes)
    (port : ℕ) : kept this ≠ some (handle, host, port) := by
  intro hkept
  have howned := h.owned
  cases h.getElem?.symm.trans ((h.kept _ _ _ _).mp hkept)
  cases howned

/-- One handle goes to another place. -/
theorem update (h : Holds socket kept places) (hlt : handle < places.length)
    (hsocket : ∀ other q, socket' = some (other, q) ↔
      if other = handle then q = p' ∧ q.owned = true else socket = some (other, q))
    (hkept : ∀ this other host port, kept' this = some (other, host, port) ↔
      if other = handle then p' = .kept this host port else kept this = some (other, host, port)) :
    Holds socket' kept' (places.set handle p') := by
  constructor
  · intro other q
    rw [hsocket]
    split_ifs with hother
    · rw [hother, List.getElem?_set_self hlt, Option.some.injEq, and_comm, @eq_comm _ q p']
    · rw [List.getElem?_set_ne (Ne.symm hother)]
      exact h.socket other q
  · intro this other host port
    rw [hkept]
    split_ifs with hother
    · rw [hother, List.getElem?_set_self hlt, Option.some.injEq]
    · rw [List.getElem?_set_ne (Ne.symm hother)]
      exact h.kept this other host port

/-- The socket goes on to another place. -/
theorem set (h : Holds (some (handle, p)) kept places) (hp' : p'.owned = true) :
    Holds (some (handle, p')) kept (places.set handle p') := by
  refine h.update (List.getElem?_eq_some_iff.mp h.getElem?).1 (fun other q => ?_)
    fun this other host port => ?_
  · split_ifs with hother
    · subst hother
      simp only [Option.some.injEq, Prod.mk.injEq, true_and]
      exact ⟨fun heq => ⟨heq.symm, heq ▸ hp'⟩, fun heq => heq.1.symm⟩
    · simp [Ne.symm hother]
  · split_ifs with hother
    · subst hother
      refine ⟨fun hkept => absurd hkept (h.not_kept _ _ _), ?_⟩
      rintro rfl
      cases hp'
    · rfl

/-- The socket is closed. -/
theorem close (h : Holds (some (handle, p)) kept places) :
    Holds none kept (places.set handle .closed) := by
  refine h.update (List.getElem?_eq_some_iff.mp h.getElem?).1 (fun other q => ?_)
    fun this other host port => ?_
  · split_ifs with hother
    · refine ⟨nofun, ?_⟩
      rintro ⟨rfl, howned⟩
      cases howned
    · simp [Ne.symm hother]
  · split_ifs with hother
    · subst hother
      exact ⟨fun hkept => absurd hkept (h.not_kept _ _ _), nofun⟩
    · rfl

/-- The handle goes from the socket to a client that keeps none. -/
theorem retain (h : Holds (some (handle, p)) kept places) {this : ClientId} (host : Bytes)
    (port : ℕ) (hnone : kept this = none) :
    Holds none (Function.update kept this (some (handle, host, port)))
      (places.set handle (.kept this host port)) := by
  refine h.update (List.getElem?_eq_some_iff.mp h.getElem?).1 (fun other q => ?_)
    fun client other host' port' => ?_
  · split_ifs with hother
    · refine ⟨nofun, ?_⟩
      rintro ⟨rfl, howned⟩
      cases howned
    · simp [Ne.symm hother]
  · rcases eq_or_ne client this with rfl | hclient
    · rw [Function.update_self, hnone]
      split_ifs with hother
      · simp [hother]
      · simp [Ne.symm hother]
    · rw [Function.update_of_ne hclient]
      split_ifs with hother
      · subst hother
        refine ⟨fun hkept => absurd hkept (h.not_kept _ _ _), fun hkept => ?_⟩
        cases hkept
        exact absurd rfl hclient
      · rfl

/-- The handle of a client goes to the socket. -/
theorem adopt (h : Holds none kept places) {this : ClientId} {host : Bytes} {port : ℕ}
    (hkept : kept this = some (handle, host, port)) :
    Holds (some (handle, .idle (some (host, port)))) (Function.update kept this none)
      (places.set handle (.idle (some (host, port)))) := by
  have hplace := (h.kept _ _ _ _).mp hkept
  refine h.update (List.getElem?_eq_some_iff.mp hplace).1 (fun other q => ?_)
    fun client other host' port' => ?_
  · split_ifs with hother
    · subst hother
      simp only [Option.some.injEq, Prod.mk.injEq, true_and]
      exact ⟨fun heq => ⟨heq.symm, heq ▸ rfl⟩, fun heq => heq.1.symm⟩
    · simp [Ne.symm hother]
  · rcases eq_or_ne client this with rfl | hclient
    · rw [Function.update_self, hkept]
      split_ifs with hother
      · exact ⟨nofun, nofun⟩
      · simp [Ne.symm hother]
    · rw [Function.update_of_ne hclient]
      split_ifs with hother
      · subst hother
        refine ⟨fun hother => ?_, nofun⟩
        cases hplace.symm.trans ((h.kept _ _ _ _).mp hother)
        exact absurd rfl hclient
      · rfl

/-- The handle of a client goes to another one that keeps none. -/
theorem move (h : Holds none kept places) {source this : ClientId} {host : Bytes} {port : ℕ}
    (hkept : kept source = some (handle, host, port)) (hnone : kept this = none) :
    Holds none (Function.update (Function.update kept source none) this
      (some (handle, host, port))) (places.set handle (.kept this host port)) := by
  have hplace := (h.kept _ _ _ _).mp hkept
  refine h.update (List.getElem?_eq_some_iff.mp hplace).1 (fun other q => ?_)
    fun client other host' port' => ?_
  · split_ifs with hother
    · refine ⟨nofun, ?_⟩
      rintro ⟨rfl, howned⟩
      cases howned
    · rfl
  · rcases eq_or_ne client this with rfl | hclient
    · rw [Function.update_self, hnone]
      split_ifs with hother
      · simp [hother]
      · simp [Ne.symm hother]
    · rw [Function.update_of_ne hclient]
      rcases eq_or_ne client source with rfl | hsource
      · rw [Function.update_self, hkept]
        split_ifs with hother
        · refine ⟨nofun, fun heq => ?_⟩
          cases heq
          exact absurd rfl hclient
        · simp [Ne.symm hother]
      · rw [Function.update_of_ne hsource]
        split_ifs with hother
        · subst hother
          refine ⟨fun hother => ?_, fun heq => ?_⟩
          · cases hplace.symm.trans ((h.kept _ _ _ _).mp hother)
            exact absurd rfl hsource
          · cases heq
            exact absurd rfl hclient
        · rfl

/-- A socket is opened. -/
theorem openNew (h : Holds none kept places) :
    Holds (some (places.length, .idle none)) kept (places ++ [.idle none]) := by
  have hnew : ∀ (other : Handle) (q : Place), (places ++ [Place.idle none])[other]? = some q ↔
      places[other]? = some q ∨ other = places.length ∧ q = .idle none := by
    intro other q
    rw [List.getElem?_append]
    split_ifs with hlt
    · have hne : other ≠ places.length := Nat.ne_of_lt hlt
      simp [hne]
    · rw [List.getElem?_eq_none (not_lt.mp hlt), List.getElem?_singleton]
      rcases eq_or_ne other places.length with rfl | hne
      · simp [eq_comm]
      · have hpos : other - places.length ≠ 0 := by
          have hle := not_lt.mp hlt
          intro hzero
          exact hne (Nat.le_antisymm (Nat.sub_eq_zero_iff_le.mp hzero) hle)
        simp [hne, hpos]
  constructor
  · intro other q
    rw [hnew]
    constructor
    · intro heq
      cases heq
      exact ⟨rfl, .inr ⟨rfl, rfl⟩⟩
    · rintro ⟨howned, hold | ⟨rfl, rfl⟩⟩
      · cases (h.socket other q).mpr ⟨howned, hold⟩
      · rfl
  · intro this other host port
    rw [hnew, h.kept]
    simp

end Holds

/-! ## Events -/

variable {kept : KeptHandles} {handle : Handle} {p p' : Place} {e : Event}

/-- An event on the handle of the socket. -/
theorem triple_step (hhandle : e.handle = some handle) (hopened : e.isOpened = false)
    (hstep : Place.Step p e p') {Q : Unit → Places → Prop}
    (hQ : ∀ places, Holds (some (handle, p)) kept places → Q () (places.set handle p')) :
    handleLedger.Triple (Holds (some (handle, p)) kept) (emit e : Proc Unit) Q :=
  triple_emit fun places h =>
    ⟨_, ledgerStep_handle hhandle hopened h.getElem? (Place.next_of_step hstep) (.inl h.owned),
      hQ places h⟩

/-- An event that leaves the handle where it is. -/
theorem triple_same (hhandle : e.handle = some handle) (hopened : e.isOpened = false)
    (hstep : Place.Step p e p) :
    handleLedger.Triple (Holds (some (handle, p)) kept) (emit e : Proc Unit)
      fun _ => Holds (some (handle, p)) kept :=
  triple_step hhandle hopened hstep fun _ h => h.set h.owned

theorem triple_clock (P : Places → Prop) :
    handleLedger.Triple P steadyClockNow fun _ => P :=
  triple_read.bind fun _ =>
    (triple_emit (Q := fun _ => P) fun places h => ⟨places, rfl, h⟩).bind fun _ =>
      triple_pure fun _ h => h

theorem triple_remainingTimeout (P : Places → Prop) (deadline : ℤ) :
    handleLedger.Triple P (remainingTimeout deadline) fun _ => P := by
  refine (triple_clock P).bind fun now => ?_
  split_ifs
  · exact triple_pure fun _ h => h
  · exact triple_pure fun _ h => h

/-! ## Sockets -/

theorem triple_close (socket : NativeSocket) (hp : p.owned = true) :
    handleLedger.Triple (Holds (socket.handle.map fun handle => (handle, p)) kept) socket.close
      fun socket' places => socket'.handle = none ∧ Holds none kept places := by
  unfold NativeSocket.close NativeSocket.reset
  rcases socket with ⟨_ | handle⟩
  · exact triple_pure fun places h => ⟨rfl, h⟩
  · rw [if_neg (by simp)]
    refine (triple_step (Q := fun _ => Holds none kept) rfl rfl (.closed hp) fun _ h =>
      h.close).bind fun _ => ?_
    exact triple_pure fun places h => ⟨rfl, h⟩

theorem triple_freshHandle :
    handleLedger.Triple (Holds none kept) freshHandle fun handle places =>
      handle = places.length ∧ Holds none kept places :=
  (triple_history fun _ _ hfits h => ⟨hfits.all, h⟩).bind fun _ => triple_pure fun _ h => h

/-- A socket that has been created has a handle that nothing else has. -/
theorem triple_createTcpSocket (platform : Platform) :
    handleLedger.Triple (Holds none kept) (createTcpSocket platform) fun r =>
      Holds (r.1.handle.map fun handle => (handle, .idle none)) kept := by
  refine triple_read.bind fun answer => ?_
  by_cases hfailed : answer.result = -1
  · rw [if_pos hfailed]
    exact triple_pure fun _ h => h
  · rw [if_neg hfailed]
    refine triple_freshHandle.bind fun handle => ?_
    have hopen : handleLedger.Triple (fun places => handle = places.length ∧ Holds none kept places)
        (emit (.opened handle) : Proc Unit) fun _ => Holds (some (handle, .idle none)) kept := by
      refine triple_emit fun places h => ⟨places ++ [.idle none], ?_, ?_⟩
      · exact if_pos ⟨h.1, h.2.free⟩
      · rw [h.1]
        exact h.2.openNew
    refine hopen.bind fun _ => ?_
    dsimp only
    split_ifs
    · refine (triple_same rfl rfl (.used rfl)).bind fun _ => ?_
      refine triple_read.bind fun answer => ?_
      split_ifs
      · refine (triple_close { handle := some handle } rfl).bind fun _ => ?_
        exact triple_pure fun _ h => h.2
      · exact triple_pure fun _ h => h
    · exact triple_pure fun _ h => h

/-! ## Calls on a handle -/

theorem triple_setSocketNonblocking (enabled : Bool) (hp : p.owned = true) :
    handleLedger.Triple (Holds (some (handle, p)) kept) (setSocketNonblocking handle enabled)
      fun _ => Holds (some (handle, p)) kept := by
  refine (triple_same rfl rfl (.used hp)).bind fun _ => ?_
  refine triple_read.bind fun flags => ?_
  split_ifs
  · exact triple_pure fun _ h => h
  · refine (triple_same rfl rfl (.used hp)).bind fun _ => ?_
    refine triple_read.bind fun answer => ?_
    split_ifs
    · exact triple_pure fun _ h => h
    · exact triple_pure fun _ h => h

theorem triple_waitSocket (timeout : ℤ) (writable : Bool) (hp : p.owned = true) :
    handleLedger.Triple (Holds (some (handle, p)) kept) (waitSocket handle timeout writable)
      fun _ => Holds (some (handle, p)) kept := by
  unfold waitSocket
  split_ifs
  · exact triple_pure fun _ h => h
  · refine triple_read.bind fun answer => ?_
    exact (triple_same rfl rfl (.waited hp)).bind fun _ => triple_pure fun _ h => h

theorem triple_socketErrorResult (hp : p.owned = true) :
    handleLedger.Triple (Holds (some (handle, p)) kept) (socketErrorResult handle)
      fun _ => Holds (some (handle, p)) kept := by
  refine (triple_same rfl rfl (.used hp)).bind fun _ => ?_
  refine triple_read.bind fun answer => ?_
  split_ifs
  · exact triple_pure fun _ h => h
  · exact triple_pure fun _ h => h

theorem triple_restoreBlocking (result : ConnectAttemptResult) (hp : p.owned = true) :
    handleLedger.Triple (Holds (some (handle, p)) kept) (restoreBlocking handle result)
      fun _ => Holds (some (handle, p)) kept := by
  refine (triple_setSocketNonblocking false hp).bind fun mode => ?_
  cases mode with
  | error nativeCode => exact triple_pure fun _ h => h
  | ok => exact triple_pure fun _ h => h

theorem triple_connectWithTimeout (address : Bytes) (timeout : ℤ) (hp : p.owned = true) :
    handleLedger.Triple (Holds (some (handle, p)) kept) (connectWithTimeout handle address timeout)
      fun _ => Holds (some (handle, p)) kept := by
  unfold connectWithTimeout
  split_ifs
  · exact triple_pure fun _ h => h
  · refine (triple_setSocketNonblocking true hp).bind fun mode => ?_
    cases mode with
    | error nativeCode => exact triple_pure fun _ h => h
    | ok =>
      refine (triple_same rfl rfl (.used hp)).bind fun _ => ?_
      refine triple_read.bind fun answer => ?_
      split_ifs
      · exact triple_restoreBlocking _ hp
      · exact triple_pure fun _ h => h
      · refine (triple_waitSocket timeout true hp).bind fun wait => ?_
        cases wait.status with
        | timedOut | failed => exact triple_pure fun _ h => h
        | ready =>
          refine (triple_socketErrorResult hp).bind fun result => ?_
          split_ifs
          · exact triple_restoreBlocking _ hp
          · exact triple_pure fun _ h => h

/-! ## Transferring data -/

variable {host : Bytes} {port : ℕ} {parser : ResponseParser}

theorem triple_sendSome (data : Bytes) :
    handleLedger.Triple (Holds (some (handle, .busy host port parser)) kept) (sendSome handle data)
      fun _ => Holds (some (handle, .busy host port parser)) kept := by
  refine triple_read.bind fun answer => ?_
  split_ifs
  · exact (triple_same rfl rfl .sent).bind fun _ => triple_pure fun _ h => h
  · exact (triple_same rfl rfl .sent).bind fun _ => triple_pure fun _ h => h

/-- What has been received the parser of the place has heard. -/
theorem triple_receiveSome (capacity : ℕ) :
    handleLedger.Triple (Holds (some (handle, .busy host port parser)) kept)
      (receiveSome handle capacity) fun r places =>
        Holds (some (handle, .busy host port (Place.hear parser (.ok r.2)))) kept places ∧
          (r.1.transferred ≤ 0 ↔ r.2 = []) := by
  refine triple_read.bind fun answer => ?_
  split_ifs
  · refine (triple_same rfl rfl .received).bind fun _ => ?_
    exact triple_pure fun _ h => ⟨h, iff_of_true (Int.negSucc_lt_zero 0).le rfl⟩
  · refine (triple_step (Q := fun _ => Holds (some (handle, .busy host port (Place.hear parser
      (.ok (answer.data.take (boundedIoSize capacity)))))) kept) rfl rfl .received
      fun _ h => h.set rfl).bind fun _ => ?_
    refine triple_pure fun _ h => ⟨h, ?_⟩
    show ((answer.data.take (boundedIoSize capacity)).length : ℤ) ≤ 0 ↔ _
    rw [← List.length_eq_zero_iff, ← Nat.le_zero]
    exact Int.ofNat_le

/-! ## Connections -/

/-- A call on a connection has left it as it was, or has failed and closed it. -/
def After {α : Type} (connection : TcpConnection) (handle : Handle) (kept : KeptHandles)
    (p : α → Place) : Result α × TcpConnection → Places → Prop
  | (.ok a, connection'), places =>
    connection' = connection ∧ Holds (some (handle, p a)) kept places
  | (.error _, connection'), places => connection'.socket.handle = none ∧ Holds none kept places

variable {connection : TcpConnection}

theorem triple_fail {α : Type} (place : α → Place) (hhandle : connection.socket.handle = some handle)
    (hp : p.owned = true) (code : ErrorCode) (nativeCode : ℤ) :
    handleLedger.Triple (Holds (some (handle, p)) kept) (connection.fail code nativeCode)
      (After connection handle kept place) := by
  have hclose : handleLedger.Triple
      (Holds (connection.socket.handle.map fun handle => (handle, p)) kept) connection.socket.close
      fun socket' places => socket'.handle = none ∧ Holds none kept places :=
    triple_close connection.socket hp
  rw [hhandle, Option.map_some] at hclose
  refine Triple.bind (Q := fun connection' places => connection'.socket.handle = none ∧
    Holds none kept places) (hclose.bind fun socket => triple_pure fun _ h => h) fun connection' => ?_
  exact triple_pure fun _ h => h

theorem triple_retry {α : Type} (place : α → Place)
    (hhandle : connection.socket.handle = some handle) (hp : p.owned = true) (deadline : ℤ)
    (writable : Bool) (timedOut failed : ErrorCode) (attempt : SocketIoAttempt) :
    handleLedger.Triple (Holds (some (handle, p)) kept)
      (connection.retry handle deadline writable timedOut failed attempt)
      fun r places => r.elim (Holds (some (handle, p)) kept places) fun r =>
        After connection handle kept place r places := by
  have hfail : ∀ code nativeCode, handleLedger.Triple (Holds (some (handle, p)) kept)
      (some <$> connection.fail code nativeCode) fun r places =>
        r.elim (Holds (some (handle, p)) kept places) fun r =>
          After connection handle kept place r places :=
    fun code nativeCode => (triple_fail place hhandle hp code nativeCode).bind fun _ =>
      triple_pure fun _ h => h
  have hagain : handleLedger.Triple (Holds (some (handle, p)) kept)
      (pure none : Proc (Option (Result α × TcpConnection))) fun r places =>
        r.elim (Holds (some (handle, p)) kept places) fun r =>
          After connection handle kept place r places := triple_pure fun _ h => h
  unfold TcpConnection.retry
  split
  · exact hfail _ _
  split
  · exact hagain
  split
  · exact hfail _ _
  split
  · exact hfail _ _
  refine (triple_remainingTimeout _ deadline).bind fun remaining => ?_
  split
  · exact hfail _ _
  refine (triple_waitSocket remaining writable hp).bind fun wait => ?_
  split
  · exact hagain
  split
  · exact hagain
  unfold TcpConnection.waitFailed
  split
  · exact hfail _ _
  split
  · exact hfail _ _
  · exact hfail _ _

/-! ## Writing and reading -/

theorem triple_writeRound (hhandle : connection.socket.handle = some handle) (data : Bytes)
    (deadline : ℤ) (totalWritten : ℕ) :
    handleLedger.Triple (Holds (some (handle, .busy host port parser)) kept)
      (TcpConnection.writeRound connection handle data deadline totalWritten) fun r places =>
        r.elim (fun _ => Holds (some (handle, .busy host port parser)) kept places) fun r =>
          After connection handle kept (fun _ => .busy host port parser) r places := by
  have hfail : ∀ code nativeCode, handleLedger.Triple
      (Holds (some (handle, .busy host port parser)) kept)
      (.inr <$> connection.fail code nativeCode : Proc (ℕ ⊕ (Result ℕ × TcpConnection)))
      fun r places => r.elim (fun _ => Holds (some (handle, .busy host port parser)) kept places)
        fun r => After connection handle kept (fun _ => .busy host port parser) r places :=
    fun code nativeCode => (triple_fail _ hhandle rfl code nativeCode).bind fun _ =>
      triple_pure fun _ h => h
  unfold TcpConnection.writeRound
  split
  · refine (triple_clock _).bind fun now => ?_
    split
    · exact hfail _ _
    refine (triple_sendSome _).bind fun attempt => ?_
    split
    · exact triple_pure fun _ h => h
    refine (triple_retry (fun _ => .busy host port parser) hhandle rfl deadline true .writeTimeout
      .writeFailed attempt).bind fun r => ?_
    cases r with
    | none => exact triple_pure fun _ h => h
    | some result => exact triple_pure fun _ h => h
  · refine (triple_setSocketNonblocking false rfl).bind fun mode => ?_
    cases mode with
    | error nativeCode => exact hfail _ _
    | ok => exact triple_pure fun _ h => ⟨rfl, h⟩

theorem triple_writeAll (hhandle : connection.socket.handle = some handle) (data : Bytes)
    (timeout : ℤ) :
    handleLedger.Triple (Holds (some (handle, .busy host port parser)) kept)
      (connection.writeAll data timeout)
      (After connection handle kept fun _ => .busy host port parser) := by
  unfold TcpConnection.writeAll
  rw [hhandle]
  dsimp only
  split
  · exact triple_pure fun _ h => ⟨rfl, h⟩
  split
  · exact triple_fail _ hhandle rfl _ _
  refine (triple_setSocketNonblocking true rfl).bind fun mode => ?_
  cases mode with
  | error nativeCode => exact triple_fail _ hhandle rfl _ _
  | ok =>
    refine (triple_clock _).bind fun now => ?_
    exact triple_loop (fun _ => Holds (some (handle, .busy host port parser)) kept)
      (triple_writeRound hhandle data _) 0

theorem triple_readRound (hhandle : connection.socket.handle = some handle) (capacity : ℕ)
    (deadline : ℤ) (u : Unit) :
    handleLedger.Triple (Holds (some (handle, .busy host port parser)) kept)
      (TcpConnection.readRound connection handle capacity deadline u) fun r places =>
        r.elim (fun _ => Holds (some (handle, .busy host port parser)) kept places) fun r =>
          After connection handle kept (fun data => .busy host port (parser.feed data).2) r places := by
  have hfail : ∀ {p : Place}, p.owned = true → ∀ code nativeCode, handleLedger.Triple
      (Holds (some (handle, p)) kept)
      (.inr <$> connection.fail code nativeCode : Proc (Unit ⊕ (Result Bytes × TcpConnection)))
      fun r places => r.elim (fun _ => Holds (some (handle, .busy host port parser)) kept places)
        fun r => After connection handle kept (fun data => .busy host port (parser.feed data).2)
          r places :=
    fun hp code nativeCode => (triple_fail _ hhandle hp code nativeCode).bind fun _ =>
      triple_pure fun _ h => h
  refine (triple_clock _).bind fun now => ?_
  split
  · exact hfail rfl _ _
  refine (triple_receiveSome capacity).bind fun r => ?_
  rcases r with ⟨attempt, data⟩
  dsimp only
  split
  · next hsome =>
    refine Triple.weaken (P := Holds (some (handle, .busy host port (parser.feed data).2)) kept)
      ((triple_setSocketNonblocking false rfl).bind fun mode => ?_) (fun places h => ?_)
      fun _ _ h => h
    · cases mode with
      | error nativeCode => exact hfail rfl _ _
      | ok => exact triple_pure fun _ h => ⟨rfl, h⟩
    · have hdata : data ≠ [] := fun hnil => absurd (h.2.mpr hnil) (not_le.mpr hsome)
      have hheard : Place.hear parser (.ok data) = (parser.feed data).2 :=
        if_neg (by simpa using hdata)
      rw [hheard] at h
      exact h.1
  · next hnone =>
    refine (Triple.weaken (P := Holds (some (handle, .busy host port parser)) kept)
      (triple_retry (fun data => .busy host port (parser.feed data).2) hhandle rfl deadline false
        .readTimeout .readFailed attempt) (fun places h => ?_) fun _ _ h => h).bind fun r => ?_
    · have hdata := h.2.mp (not_lt.mp hnone)
      rw [hdata] at h
      exact h.1
    · cases r with
      | none => exact triple_pure fun _ h => h
      | some result => exact triple_pure fun _ h => h

/-- Data that has been read is data that has been received. -/
theorem triple_readSome (hhandle : connection.socket.handle = some handle) {capacity : ℕ}
    (hcapacity : capacity ≠ 0) (timeout : ℤ) :
    handleLedger.Triple (Holds (some (handle, .busy host port parser)) kept)
      (connection.readSome capacity timeout)
      (After connection handle kept fun data => .busy host port (parser.feed data).2) := by
  unfold TcpConnection.readSome
  rw [hhandle]
  dsimp only
  rw [if_neg hcapacity]
  split
  · exact triple_fail _ hhandle rfl _ _
  refine (triple_setSocketNonblocking true rfl).bind fun mode => ?_
  cases mode with
  | error nativeCode => exact triple_fail _ hhandle rfl _ _
  | ok =>
    refine (triple_clock _).bind fun now => ?_
    exact triple_loop (fun _ => Holds (some (handle, .busy host port parser)) kept)
      (triple_readRound hhandle capacity _) ()

end CppRequest
