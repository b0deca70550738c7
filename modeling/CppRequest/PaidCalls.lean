import CppRequest.Credit
import CppRequest.Latency

/-!
# Calls that the clock pays for

A look at the clock pays for the calls of the system behind it. Where the clock goes on there are
only so many looks before every timeout is over, and more of them only for data that have been
received. So a request makes only so many calls for as much as it receives; a server that keeps
sending interim responses keeps it reading.
-/

namespace CppRequest

open Procedure

/-! ## What is paid for -/

/-- For each look at the clock there are at most so many calls of the system. -/
def callsPerLook : ℕ := 6

def Event.pay : Event → ℕ
  | .clock _ => callsPerLook
  | _ => 0

section

variable {k : ℕ} {α : Type}

theorem pays_unpaid {e : Event} (h : e.pay = 0) :
    Pays Event.pay k (emit e : Proc Unit) fun _ => k :=
  (pays_emit e).weaken le_rfl fun _ => by omega

theorem pays_clock : Pays Event.pay (k + 1) steadyClockNow fun _ => k + 6 :=
  pays_read.bind fun answer => (pays_emit (Event.clock answer.time)).bind fun _ => pays_pure le_rfl

theorem pays_remainingTimeout (deadline : ℤ) :
    Pays Event.pay (k + 1) (remainingTimeout deadline) fun _ => k + 6 := by
  refine pays_clock.bind fun now => ?_
  split
  · exact pays_pure le_rfl
  · exact pays_pure le_rfl

theorem pays_closeSocket (socket : NativeSocket) :
    Pays Event.pay k socket.close fun _ => k := by
  unfold NativeSocket.close NativeSocket.reset
  split
  · exact pays_pure le_rfl
  split
  · exact (pays_unpaid rfl).bind fun _ => pays_pure le_rfl
  · exact pays_pure le_rfl

theorem pays_close (connection : TcpConnection) :
    Pays Event.pay k connection.close fun _ => k :=
  (pays_closeSocket connection.socket).bind fun _ => pays_pure le_rfl

theorem pays_fail (connection : TcpConnection) (code : ErrorCode) (nativeCode : ℤ) :
    Pays Event.pay k (connection.fail code nativeCode : Proc (Result α × TcpConnection))
      fun _ => k :=
  (pays_close connection).bind fun _ => pays_pure le_rfl

theorem pays_setSocketNonblocking (handle : Handle) (enabled : Bool) :
    Pays Event.pay (k + 2) (setSocketNonblocking handle enabled) fun _ => k := by
  refine (pays_unpaid rfl).bind fun _ => pays_read.bind fun flags => ?_
  split
  · exact pays_pure (Nat.le_succ _)
  refine (pays_unpaid rfl).bind fun _ => pays_read.bind fun answer => ?_
  split
  · exact pays_pure le_rfl
  · exact pays_pure le_rfl

theorem pays_waitSocket (handle : Handle) (timeout : ℤ) (writable : Bool) :
    Pays Event.pay (k + 1) (waitSocket handle timeout writable) fun _ => k := by
  unfold waitSocket
  split
  · exact pays_pure (Nat.le_succ _)
  · exact pays_read.bind fun _ => (pays_unpaid rfl).bind fun _ => pays_pure le_rfl

theorem pays_createTcpSocket (platform : Platform) :
    Pays Event.pay (k + 2) (createTcpSocket platform) fun _ => k := by
  refine pays_read.bind fun answer => ?_
  split
  · exact pays_pure (Nat.le_succ _)
  refine Pays.bind (R := fun _ => k + 1) ?_ fun handle => ?_
  · exact pays_history.bind fun _ => pays_pure le_rfl
  refine (pays_unpaid rfl).bind fun _ => ?_
  dsimp only
  split
  · refine (pays_unpaid rfl).bind fun _ => pays_read.bind fun answer => ?_
    split
    · exact (pays_closeSocket _).bind fun _ => pays_pure le_rfl
    · exact pays_pure le_rfl
  · exact pays_pure (Nat.le_succ _)

/-! ## Connecting -/

theorem pays_restoreBlocking (handle : Handle) (result : ConnectAttemptResult) :
    Pays Event.pay (k + 2) (restoreBlocking handle result) fun _ => k := by
  refine (pays_setSocketNonblocking handle false).bind fun mode => ?_
  cases mode with
  | error nativeCode => exact pays_pure le_rfl
  | ok => exact pays_pure le_rfl

theorem pays_socketErrorResult (handle : Handle) :
    Pays Event.pay (k + 1) (socketErrorResult handle) fun _ => k := by
  refine (pays_unpaid rfl).bind fun _ => pays_read.bind fun answer => ?_
  split
  · exact pays_pure le_rfl
  · exact pays_pure le_rfl

theorem pays_connectWithTimeout (handle : Handle) (address : Bytes) (timeout : ℤ) :
    Pays Event.pay (k + 7) (connectWithTimeout handle address timeout) fun _ => k := by
  have hdone : ∀ {m : ℕ} (attempt : ConnectAttemptResult), k ≤ m →
      Pays Event.pay m (pure attempt : Proc ConnectAttemptResult) fun _ => k :=
    fun _ hle => pays_pure hle
  unfold connectWithTimeout
  split
  · exact hdone _ (by omega)
  refine (pays_setSocketNonblocking handle true).bind fun mode => ?_
  cases mode with
  | error nativeCode => exact hdone _ (by omega)
  | ok =>
    refine (pays_unpaid rfl).bind fun _ => pays_read.bind fun answer => ?_
    split
    · exact (pays_restoreBlocking handle _).weaken (by omega) fun _ => le_rfl
    split
    · exact hdone _ (by omega)
    refine (pays_waitSocket handle timeout true).bind fun wait => ?_
    cases wait.status with
    | timedOut => exact hdone _ (by omega)
    | failed => exact hdone _ (by omega)
    | ready =>
      refine (pays_socketErrorResult handle).bind fun result => ?_
      split
      · exact pays_restoreBlocking handle result
      · exact hdone _ (by omega)

theorem pays_connectLoop (platform : Platform) (deadline : ℤ)
    (state : TcpConnection.ConnectState) (endpoints : List Endpoint) :
    Pays Event.pay (k + 1) (TcpConnection.connectLoop platform deadline state endpoints)
      fun _ => k := by
  induction endpoints generalizing state with
  | nil =>
    unfold TcpConnection.connectLoop
    split_ifs
    · exact pays_pure (Nat.le_succ _)
    · exact pays_pure (Nat.le_succ _)
    · exact pays_pure (Nat.le_succ _)
  | cons endpoint endpoints ih =>
    unfold TcpConnection.connectLoop
    split
    · exact ih state
    refine pays_clock.bind fun now => ?_
    split
    · exact pays_pure (by omega)
    refine (pays_createTcpSocket platform).bind fun r => ?_
    obtain ⟨⟨_ | handle⟩, createError⟩ := r
    · exact (ih _).weaken (by omega) fun _ => le_rfl
    refine (pays_remainingTimeout deadline).bind fun remaining => ?_
    refine (pays_connectWithTimeout handle endpoint.address remaining).bind fun attempt => ?_
    split
    · exact pays_pure (by omega)
    refine (pays_closeSocket _).bind fun _ => ?_
    split
    · exact pays_pure (by omega)
    · exact (ih _).weaken (by omega) fun _ => le_rfl

theorem pays_connect (platform : Platform) (endpoints : List Endpoint) (timeout : ℤ) :
    Pays Event.pay (k + 1) (TcpConnection.connect platform endpoints timeout)
      fun _ => k + 1 := by
  unfold TcpConnection.connect
  split
  · exact pays_pure le_rfl
  split
  · exact pays_pure le_rfl
  · exact pays_clock.bind fun now =>
      (pays_connectLoop (k := k + 5) platform _ _ endpoints).weaken le_rfl fun _ => by omega

/-! ## Transferring -/

theorem pays_retry (connection : TcpConnection) (handle : Handle) (deadline : ℤ) (writable : Bool)
    (timedOut failed : ErrorCode) (attempt : SocketIoAttempt) :
    Pays Event.pay (k + 2) (connection.retry handle deadline writable timedOut failed attempt :
      Proc (Option (Result α × TcpConnection))) fun _ => k + 2 := by
  have hfail : ∀ {m : ℕ} code nativeCode, k + 2 ≤ m → Pays Event.pay m
      (some <$> connection.fail code nativeCode : Proc (Option (Result α × TcpConnection)))
      fun _ => k + 2 :=
    fun code nativeCode hle => (pays_fail connection code nativeCode).bind fun _ => pays_pure hle
  have hagain : ∀ {m : ℕ}, k + 2 ≤ m → Pays Event.pay m
      (pure none : Proc (Option (Result α × TcpConnection))) fun _ => k + 2 :=
    fun hle => pays_pure hle
  unfold TcpConnection.retry
  split
  · exact hfail _ _ le_rfl
  split
  · exact hagain le_rfl
  split
  · exact hfail _ _ le_rfl
  split
  · exact hfail _ _ le_rfl
  refine (pays_remainingTimeout deadline).bind fun remaining => ?_
  split
  · exact hfail _ _ (by omega)
  refine (pays_waitSocket handle remaining writable).bind fun wait => ?_
  split
  · exact hagain (by omega)
  split
  · exact hagain (by omega)
  unfold TcpConnection.waitFailed
  split
  · exact hfail _ _ (by omega)
  split
  · exact hfail _ _ (by omega)
  · exact hfail _ _ (by omega)

theorem pays_sendSome (handle : Handle) (data : Bytes) :
    Pays Event.pay (k + 1) (sendSome handle data) fun _ => k := by
  refine pays_read.bind fun answer => ?_
  split
  · exact (pays_unpaid rfl).bind fun _ => pays_pure le_rfl
  · exact (pays_unpaid rfl).bind fun _ => pays_pure le_rfl

theorem pays_receiveSome (handle : Handle) (capacity : ℕ) :
    Pays Event.pay (k + 1) (receiveSome handle capacity) fun _ => k := by
  refine pays_read.bind fun answer => ?_
  split
  · exact (pays_unpaid rfl).bind fun _ => pays_pure le_rfl
  · exact (pays_unpaid rfl).bind fun _ => pays_pure le_rfl

theorem pays_writeRound (connection : TcpConnection) (handle : Handle) (data : Bytes)
    (deadline : ℤ) (n : ℕ) :
    Pays Event.pay (k + 3) (TcpConnection.writeRound connection handle data deadline n)
      fun r => r.elim (fun _ => k + 3) fun _ => k + 1 := by
  unfold TcpConnection.writeRound
  split
  · refine pays_clock.bind fun now => ?_
    split
    · exact (pays_fail connection _ _).bind fun _ => pays_pure (Nat.le_add_right (k + 1) 7)
    refine (pays_sendSome handle _).bind fun attempt => ?_
    split
    · exact pays_pure (Nat.le_add_right (k + 3) 4)
    refine (pays_retry connection handle deadline true _ _ attempt).bind fun r => ?_
    cases r with
    | none => exact pays_pure (Nat.le_add_right (k + 3) 4)
    | some result => exact pays_pure (Nat.le_add_right (k + 1) 6)
  · refine (pays_setSocketNonblocking handle false).bind fun mode => ?_
    cases mode with
    | error nativeCode => exact (pays_fail connection _ _).bind fun _ => pays_pure le_rfl
    | ok => exact pays_pure le_rfl

theorem pays_writeAll (connection : TcpConnection) (data : Bytes) (timeout : ℤ) :
    Pays Event.pay (k + 3) (connection.writeAll data timeout) fun _ => k + 1 := by
  unfold TcpConnection.writeAll
  split
  · exact pays_pure (by omega)
  split
  · exact pays_pure (by omega)
  split
  · exact (pays_fail connection _ _).weaken le_rfl fun _ => by omega
  refine (pays_setSocketNonblocking _ true).bind fun mode => ?_
  cases mode with
  | error nativeCode => exact pays_fail connection _ _
  | ok =>
    refine pays_clock.bind fun now => ?_
    exact (pays_loop (pays_writeRound (k := k + 3) connection _ data _) 0).weaken le_rfl
      fun _ => by omega

theorem pays_readRound (connection : TcpConnection) (handle : Handle) (capacity : ℕ)
    (deadline : ℤ) (u : Unit) :
    Pays Event.pay (k + 3) (TcpConnection.readRound connection handle capacity deadline u)
      fun r => r.elim (fun _ => k + 3) fun _ => k + 5 := by
  refine pays_clock.bind fun now => ?_
  split
  · exact (pays_fail connection _ _).bind fun _ => pays_pure (Nat.le_add_right (k + 5) 3)
  refine (pays_receiveSome handle capacity).bind fun r => ?_
  obtain ⟨attempt, data⟩ := r
  dsimp only
  split
  · refine (pays_setSocketNonblocking handle false).bind fun mode => ?_
    cases mode with
    | error nativeCode => exact (pays_fail connection _ _).bind fun _ => pays_pure le_rfl
    | ok => exact pays_pure le_rfl
  refine (pays_retry connection handle deadline false _ _ attempt).bind fun r => ?_
  cases r with
  | none => exact pays_pure (Nat.le_add_right (k + 3) 4)
  | some result => exact pays_pure (Nat.le_add_right (k + 5) 2)

/-- Where reading has succeeded it has looked at the clock. -/
def readCredit (k : ℕ) : Result Bytes × TcpConnection → ℕ
  | (.ok _, _) => k + 3
  | (.error _, _) => k + 1

theorem readCredit_le (r : Result Bytes × TcpConnection) : readCredit k r ≤ k + 3 := by
  obtain ⟨_ | _, connection⟩ := r
  · exact Nat.le_add_right (k + 1) 2
  · exact le_rfl

theorem pays_readSome (connection : TcpConnection) (capacity : ℕ) (timeout : ℤ) :
    Pays Event.pay (k + 3) (connection.readSome capacity timeout) (readCredit k) := by
  unfold TcpConnection.readSome
  split
  · exact pays_pure (readCredit_le _)
  split
  · exact pays_pure (readCredit_le _)
  split
  · exact (pays_fail connection _ _).weaken le_rfl readCredit_le
  refine (pays_setSocketNonblocking _ true).bind fun mode => ?_
  cases mode with
  | error nativeCode =>
    exact (pays_close connection).bind fun _ => pays_pure le_rfl
  | ok =>
    refine pays_clock.bind fun now => ?_
    exact (pays_loop (pays_readRound (k := k + 3) connection _ capacity _) ()).weaken le_rfl
      fun r => (readCredit_le r).trans (by omega)

/-! ## One exchange -/

theorem pays_writeRequest (connection : TcpConnection) (serialized : SerializedRequest)
    (timeout : ℤ) :
    Pays Event.pay (k + 1) (Client.writeRequest connection serialized timeout)
      fun _ => k + 9 := by
  refine pays_clock.bind fun now => (pays_remainingTimeout _).bind fun remaining => ?_
  refine Pays.bind (R := fun _ => k + 9) ((pays_writeAll connection _ remaining).weaken le_rfl
    fun _ => le_rfl) fun r => ?_
  obtain ⟨_ | _, connection'⟩ := r
  · exact pays_pure le_rfl
  dsimp only
  split
  · exact pays_pure le_rfl
  refine (pays_remainingTimeout _).bind fun remaining => ?_
  refine (pays_writeAll (k := k + 11) connection' _ remaining).bind fun r => ?_
  obtain ⟨_ | _, connection''⟩ := r
  · exact pays_pure (by omega)
  · exact pays_pure (by omega)

theorem pays_readResponse (connection : TcpConnection) (parser : ResponseParser) (timeout : ℤ) :
    Pays Event.pay (k + 3) (Client.readResponse connection parser timeout) fun _ => k + 1 := by
  refine pays_loop (fun state => ?_) (connection, parser)
  obtain ⟨connection', parser'⟩ := state
  unfold Client.responseRound
  dsimp only
  split
  · exact pays_pure (Nat.le_add_right (k + 1) 2)
  refine (pays_readSome connection' _ timeout).bind fun r => ?_
  obtain ⟨e | data, connection''⟩ := r
  · exact pays_pure le_rfl
  · dsimp only
    split
    · exact pays_pure (Nat.le_add_right (k + 1) 2)
    · exact pays_pure le_rfl

theorem pays_closeReusableConnection (client : Client) (this : ClientId) :
    Pays Event.pay k (client.closeReusableConnection this) fun _ => k := by
  unfold Client.closeReusableConnection
  split
  · exact (pays_unpaid rfl).bind fun _ => (pays_closeSocket _).bind fun _ => pays_pure le_rfl
  · exact pays_pure le_rfl

theorem pays_resolve (host : Bytes) (port : ℕ) :
    Pays Event.pay (k + 1) (resolve host port) fun _ => k := by
  unfold resolve
  split
  · exact pays_pure (Nat.le_succ _)
  refine pays_read.bind fun answer => ?_
  split
  · exact (pays_unpaid rfl).bind fun _ => pays_pure le_rfl
  refine (pays_unpaid rfl).bind fun _ => ?_
  dsimp only
  split
  · exact pays_pure le_rfl
  · exact pays_pure le_rfl

theorem pays_obtainConnection (client : Client) (platform : Platform) (this : ClientId)
    (url : Url) :
    Pays Event.pay (k + 2) (client.obtainConnection platform this url) fun _ => k + 1 := by
  unfold Client.obtainConnection
  split
  · exact (pays_unpaid rfl).bind fun _ => pays_pure (by omega)
  refine (pays_closeReusableConnection client this).bind fun client' => ?_
  refine (pays_resolve url.host url.port).bind fun resolved => ?_
  cases resolved with
  | error e => exact pays_pure le_rfl
  | ok endpoints =>
    exact (pays_connect platform endpoints _).bind fun result => pays_pure le_rfl

theorem pays_conclude (client : Client) (this : ClientId) (connection : TcpConnection) (url : Url)
    (request : Request) (parser : ResponseParser) :
    Pays Event.pay k (client.conclude this connection url request parser) fun _ => k := by
  unfold Client.conclude
  split
  · exact (pays_unpaid rfl).bind fun _ => pays_pure le_rfl
  · exact (pays_close connection).bind fun _ => pays_pure le_rfl

theorem pays_executeOnce (client : Client) (platform : Platform) (this : ClientId)
    (request : Request) :
    Pays Event.pay (k + 2) (client.executeOnce platform this request) fun _ => k + 1 := by
  unfold Client.executeOnce
  split
  · exact pays_pure (Nat.le_succ _)
  refine (pays_obtainConnection client platform this _).bind fun r => ?_
  obtain ⟨e | connection, client'⟩ := r
  · exact pays_pure le_rfl
  refine Pays.bind (R := fun _ => k + 1) ?_ fun _ => ?_
  · unfold Client.beginExchange
    split
    · exact pays_unpaid rfl
    · exact pays_pure le_rfl
  refine Pays.bind (R := fun _ => k + 1) ?_ fun r => ?_
  · refine (pays_writeRequest connection _ _).bind fun r => ?_
    obtain ⟨e | u, connection'⟩ := r
    · exact pays_pure (by omega)
    · exact (pays_readResponse (k := k + 6) connection' _ _).weaken le_rfl fun _ => by omega
  obtain ⟨e | parser, connection'⟩ := r
  · exact (pays_close connection').bind fun _ => pays_pure le_rfl
  · exact pays_conclude client' this connection' _ request parser

/-- What a request takes from the input is paid for by its exchanges and its looks at the clock. -/
theorem pays_request (client : Client) (platform : Platform) (this : ClientId)
    (request : Request) :
    Pays Event.pay (1 + (client.settings.maxRedirects + 1))
      (client.request platform this request) fun _ => 1 := by
  refine Dialogue.pays_play (fun n q client' => ?_)
    (fun log q hasks => Nat.lt_succ_of_le (asked_confined hasks).1) client
  rw [Nat.add_comm 1 (n + 1), Nat.add_comm 1 n]
  exact pays_executeOnce client' platform this q

end

/-! ## Looks at the clock -/

/-- The clock goes on from look to look. -/
def Advances (events : List Event) : Prop := (events.filterMap Event.shows).Pairwise (· < ·)

theorem paid_eq (events : List Event) :
    paid Event.pay events = callsPerLook * (events.filterMap Event.shows).length := by
  induction events with
  | nil => rfl
  | cons e events ih =>
    have hcons : paid Event.pay (e :: events) = e.pay + paid Event.pay events := rfl
    rw [hcons, ih]
    cases e with
    | clock time =>
      show callsPerLook + callsPerLook * (events.filterMap Event.shows).length =
        callsPerLook * ((events.filterMap Event.shows).length + 1)
      rw [Nat.mul_succ, Nat.add_comm]
    | resolved | opened | closed | used | waited | sent | received | began
    | retained | adopted | moved =>
      exact Nat.zero_add _

/-- There are only so many times between two times. -/
theorem length_le_of_advances {times : List ℤ} {first bound : ℤ} (h : times.Pairwise (· < ·))
    (hfirst : times.head? = some first) (hbound : ∀ time ∈ times, time < bound) :
    (times.length : ℤ) ≤ bound - first := by
  obtain ⟨rest, rfl⟩ := List.head?_eq_some_iff.mp hfirst
  have hrest := (List.pairwise_cons.mp h).1
  have hinside : (first :: rest).toFinset ⊆ Finset.Ico first bound := by
    intro time htime
    rw [List.mem_toFinset] at htime
    refine Finset.mem_Ico.mpr ⟨?_, hbound time htime⟩
    obtain rfl | htime := List.mem_cons.mp htime
    · exact le_rfl
    · exact (hrest time htime).le
  have hcard := Finset.card_le_card hinside
  rw [List.toFinset_card_of_nodup (h.imp fun hlt => hlt.ne), Int.card_Ico] at hcard
  have hone := hbound first List.mem_cons_self
  omega

/-- What keeps to a budget looks at the clock only so often. -/
theorem looks_le {α : Type} {p : Proc α} {slack piece total : ℤ} {w : World Answer Event}
    {events : List Event} (hslack : 0 ≤ slack) (hpiece : 0 ≤ piece) (htotal : 0 ≤ total)
    (h : (budget slack piece).Triple (Room total) p fun _ _ => True)
    (hlog : (p.run w).2.log = w.log ++ events) (hprompt : Prompt slack events)
    (hadvances : Advances events) :
    ((events.filterMap Event.shows).length : ℤ) ≤ total + pieces events * piece := by
  have hpieces : 0 ≤ (pieces events : ℤ) * piece := mul_nonneg (Int.natCast_nonneg _) hpiece
  cases hfirst : events.findSome? Event.shows with
  | none =>
    rw [List.filterMap_eq_nil_iff.mpr (List.findSome?_eq_none_iff.mp hfirst)]
    exact add_nonneg htotal hpieces
  | some first =>
    have hhead : (events.filterMap Event.shows).head? = some first := by
      rw [List.head?_filterMap, hfirst]
    refine (length_le_of_advances hadvances hhead fun time htime => ?_).trans_eq
      (add_sub_cancel_left first _)
    -- the bound is that of the moment when this time was shown
    obtain ⟨e, he, hshows⟩ := List.mem_filterMap.mp htime
    obtain ⟨past, rest, rfl⟩ := List.append_of_mem he
    have hlatest : latest (past ++ [e]) = some time := by
      rw [latest_concat]
      cases e with
      | clock time' => exact hshows
      | resolved | opened | closed | used | waited | sent | received | began
      | retained | adopted | moved =>
        cases hshows
    have hpast : past ++ [e] <+: past ++ e :: rest := ⟨rest, by rw [List.append_assoc]; rfl⟩
    have hwithin := latest_within hpiece h hlog hprompt hfirst hpast hlatest
    have hless : (pieces (past ++ [e]) : ℤ) * piece ≤ pieces (past ++ e :: rest) * piece :=
      mul_le_mul_of_nonneg_right (Int.ofNat_le.mpr hpast.sublist.countP_le) hpiece
    omega

/-- Where the clock goes on, a request that has not come back has made only so many calls of the
system, by its exchanges and by the pieces of data that it has received, however many these are. -/
theorem request_calls_bounded {client : Client} (htimed : client.settings.Timed)
    (platform : Platform) (this : ClientId) (request : Request) (w : World Answer Event)
    {events : List Event} {slack : ℤ}
    (hlog : ((client.request platform this request).run w).2.log = w.log ++ events)
    (hslack : 0 ≤ slack) (hprompt : Prompt slack events) (hadvances : Advances events)
    (hnone : ((client.request platform this request).run w).1 = none) :
    (w.input.length : ℤ) ≤ client.settings.maxRedirects + 2 +
      callsPerLook * ((client.settings.maxRedirects + 1 : ℕ) * client.settings.exchangeTime slack +
        pieces events * client.settings.pieceTime slack) := by
  have htotal : 0 ≤ ((client.settings.maxRedirects + 1 : ℕ) : ℤ) *
      client.settings.exchangeTime slack :=
    mul_nonneg (Int.natCast_nonneg _) (htimed.exchangeTime_nonneg hslack)
  have hlooks := looks_le hslack (htimed.pieceTime_nonneg hslack) htotal
    (triple_request_room hslack htimed platform this request) hlog hprompt hadvances
  obtain ⟨events', hlog', htaken, -⟩ := pays_request client platform this request w
  obtain rfl : events = events' := List.append_cancel_left (hlog.symm.trans hlog')
  have hcalls := htaken hnone
  rw [paid_eq] at hcalls
  generalize ((client.settings.maxRedirects + 1 : ℕ) : ℤ) * client.settings.exchangeTime slack +
    pieces events * client.settings.pieceTime slack = total at hlooks
  simp only [callsPerLook] at hcalls ⊢
  omega

/-- The answers end while the request is being written. -/
theorem request_calls_bounded_writing : ∃ w',
    (({} : Client).request { inetPton6 := fun _ => false } 0 plainRequest).run
      ⟨timedAnswers ((promptAnswers []).take 16), []⟩ = (none, w') ∧
    (16 : ℤ) ≤ (10 : ℕ) + 2 + callsPerLook * ((11 : ℕ) * ({} : ClientSettings).exchangeTime 10 +
      pieces w'.log * ({} : ClientSettings).pieceTime 10) := by
  have hnone : ((({} : Client).request { inetPton6 := fun _ => false } 0 plainRequest).run
      ⟨timedAnswers ((promptAnswers []).take 16), []⟩).1.isNone = true := by decide +kernel
  have hprompt : promptBehind 10 (latest [])
      ((({} : Client).request { inetPton6 := fun _ => false } 0 plainRequest).run
        ⟨timedAnswers ((promptAnswers []).take 16), []⟩).2.log = true := by decide +kernel
  have hadvances : (((({} : Client).request { inetPton6 := fun _ => false } 0 plainRequest).run
      ⟨timedAnswers ((promptAnswers []).take 16), []⟩).2.log.filterMap Event.shows).Pairwise
        (· < ·) := by decide +kernel
  generalize hcall : (({} : Client).request { inetPton6 := fun _ => false } 0 plainRequest).run
    ⟨timedAnswers ((promptAnswers []).take 16), []⟩ = r at hnone hprompt hadvances
  obtain ⟨_ | result, w'⟩ := r
  · exact ⟨w', rfl, request_calls_bounded ⟨by decide, by decide, by decide⟩ _ 0 plainRequest _
      (congrArg (fun r => r.2.log) hcall) (by decide) (prompt_of_promptBehind prompt_nil hprompt)
      hadvances (congrArg Prod.fst hcall)⟩
  · cases hnone

end CppRequest
