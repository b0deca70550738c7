import CppRequest.ParserRounds
import CppRequest.SocketEvents

/-!
# What has been received

The parser that has heard everything a connection has received, and how the receiving ended: with
data, with an orderly shutdown or with an error. A response that ends with the connection is taken
for complete behind a shutdown, and also behind an error that says the connection is closed.
-/

namespace CppRequest

open Procedure Monitor

/-! ## Hearing -/

inductive Reception
  | data | shutdown | failed (code : ℤ)
deriving Repr, DecidableEq

structure Hearing where
  parser : ResponseParser
  last : Option Reception := none
deriving Repr, DecidableEq

/-- Waiting until something can be received may fail as receiving does. -/
def Hearing.hear (s : Hearing) : Event → Hearing
  | .received _ (.ok data) =>
    if data.isEmpty then { s with last := some .shutdown }
    else { parser := (s.parser.feed data).2, last := some .data }
  | .received _ (.error code) => { s with last := some (.failed code) }
  | .waited _ false _ result =>
    if result.status = .failed then { s with last := some (.failed result.nativeCode) } else s
  | _ => s

/-- The last that was received was an error of a closed connection. -/
def Hearing.Broken (s : Hearing) : Prop :=
  ∃ code, s.last = some (.failed code) ∧ socketErrorIsConnectionClosed code = true

/-- Who hears everything and objects to nothing. -/
def reception : Monitor Event Hearing where
  step s e := some (s.hear e)
  fits _ _ := True
  fits_step _ _ := trivial

theorem reception_reads (s : Hearing) (events : List Event) :
    reception.reads s events = some (events.foldl Hearing.hear s) := by
  unfold reads
  induction events generalizing s with
  | nil => rfl
  | cons e events ih => exact ih _

theorem ordinary_reception : Ordinary reception.Ignores where
  clock _ _ := rfl
  opened _ _ := rfl
  closed _ _ := rfl
  used _ _ _ := rfl
  writable _ _ _ _ := rfl
  retained _ _ _ _ _ := rfl
  resolved _ _ _ _ := rfl
  adopted _ _ _ := rfl

theorem Hearing.not_broken {s : Hearing} {code : ℤ} (h : s.last = some (.failed code))
    (hcode : ¬ socketErrorIsConnectionClosed code = true) : ¬ s.Broken := by
  rintro ⟨code', h', hcode'⟩
  cases h.symm.trans h'
  exact hcode hcode'

theorem not_closed_of_interrupted {code : ℤ} (h : socketErrorIsInterrupted code = true) :
    ¬ socketErrorIsConnectionClosed code = true := by
  obtain rfl : code = EINTR := by simpa [socketErrorIsInterrupted] using h
  decide

/-! ## Reading -/

section

variable {p : ResponseParser} {connection : TcpConnection} {handle : Handle}

/-- Nothing more has been received, or nothing that counts. -/
def Listening (p : ResponseParser) (s : Hearing) : Prop := s.parser = p ∧ ¬ s.Broken

/-- An attempt that has brought no data. -/
def Attempted (p : ResponseParser) (attempt : SocketIoAttempt) (s : Hearing) : Prop :=
  s.parser = p ∧ (attempt.transferred = 0 ∧ s.last = some .shutdown ∨
    attempt.transferred ≠ 0 ∧ s.last = some (.failed attempt.nativeCode))

/-- A call has read data, or has failed, in one way behind a shutdown or a closed connection and in
another otherwise. -/
def HasRead (p : ResponseParser) : Result Bytes × TcpConnection → Hearing → Prop
  | (.ok data, _), s => s.parser = (p.feed data).2 ∧ s.last = some .data
  | (.error e, _), s =>
    e.code = .connectionClosed ∧ s.parser = p ∧ (s.last = some .shutdown ∨ s.Broken) ∨
      e.code ≠ .connectionClosed ∧ ¬ s.Broken

theorem triple_receive_heard (capacity : ℕ) :
    reception.Triple (fun s => s.parser = p) (receiveSome handle capacity) fun r s =>
      (r.1.transferred > 0 ∧ s.parser = (p.feed r.2).2 ∧ s.last = some .data) ∨
        (¬ r.1.transferred > 0 ∧ Attempted p r.1 s) := by
  refine triple_read.bind fun answer => ?_
  split
  · have hnone : ¬ (-1 : ℤ) > 0 := by decide
    have hother : (-1 : ℤ) ≠ 0 := by decide
    refine Triple.bind (Q := fun _ s => s.parser = p ∧ s.last = some (.failed answer.errno)) ?_
      fun _ => triple_pure fun s h => .inr ⟨hnone, h.1, .inr ⟨hother, h.2⟩⟩
    · exact triple_emit fun s h => ⟨_, rfl, h, rfl⟩
  · dsimp only
    generalize answer.data.take (boundedIoSize capacity) = data
    cases data with
    | nil =>
      refine Triple.bind (Q := fun _ s => s.parser = p ∧ s.last = some .shutdown) ?_
        fun _ => triple_pure fun s h => .inr ⟨by decide, h.1, .inl ⟨rfl, h.2⟩⟩
      exact triple_emit fun s h => ⟨_, rfl, h, rfl⟩
    | cons ch data =>
      refine Triple.bind (Q := fun _ s => s.parser = (p.feed (ch :: data)).2 ∧
        s.last = some .data) ?_ fun _ => triple_pure fun s h => .inl ⟨?_, h⟩
      · refine triple_emit fun s h => ⟨_, rfl, ?_, rfl⟩
        rw [← h]
        rfl
      · simp only [List.length_cons]
        omega

theorem triple_wait_heard (timeout : ℤ) :
    reception.Triple (Listening p) (waitSocket handle timeout false) fun wait s =>
      s.parser = p ∧ (wait.status ≠ .failed ∧ ¬ s.Broken ∨
        wait.status = .failed ∧ s.last = some (.failed wait.nativeCode)) := by
  unfold waitSocket
  split
  · exact triple_pure fun s h => ⟨h.1, .inl ⟨nofun, h.2⟩⟩
  · refine triple_read.bind fun answer => ?_
    dsimp only
    generalize (if answer.result = 0 then ({ status := .timedOut } : SocketWaitResult)
      else if answer.result < 0 then { status := .failed, nativeCode := answer.errno }
      else { status := .ready }) = result
    refine Triple.bind (Q := fun _ s => s.parser = p ∧ (result.status ≠ .failed ∧ ¬ s.Broken ∨
      result.status = .failed ∧ s.last = some (.failed result.nativeCode))) ?_
      fun _ => triple_pure fun _ h => h
    refine triple_emit fun s h => ⟨_, rfl, ?_⟩
    unfold Hearing.hear
    dsimp only
    split
    · next hfailed => exact ⟨h.1, .inr ⟨hfailed, rfl⟩⟩
    · next hfailed => exact ⟨h.1, .inl ⟨hfailed, h.2⟩⟩

theorem triple_fail_heard {P : Hearing → Prop} {code : ErrorCode} (nativeCode : ℤ)
    (h : ∀ s, P s → HasRead p (.error { code, nativeCode }, {}) s) :
    reception.Triple P (connection.fail code nativeCode)
      fun r s => HasRead p r s ∧ Stays connection r := by
  refine (writes_fail ordinary_reception connection code nativeCode).ignored.weaken
    (fun _ h => h) fun r s hr => ?_
  obtain ⟨rfl, hs⟩ := hr
  exact ⟨h s hs, rfl⟩

theorem triple_retry_heard (deadline : ℤ) (attempt : SocketIoAttempt) :
    reception.Triple (Attempted p attempt)
      (connection.retry handle deadline false .readTimeout .readFailed attempt :
        Proc (Option (Result Bytes × TcpConnection)))
      fun r s => r.elim (Listening p s) fun r => HasRead p r s ∧ Stays connection r := by
  have hfail : ∀ {P : Hearing → Prop} {code : ErrorCode} nativeCode,
      (∀ s, P s → HasRead p (.error { code, nativeCode }, {}) s) →
      reception.Triple P (some <$> connection.fail code nativeCode :
        Proc (Option (Result Bytes × TcpConnection)))
        fun r s => r.elim (Listening p s) fun r => HasRead p r s ∧ Stays connection r :=
    fun nativeCode h => (triple_fail_heard nativeCode h).bind fun _ => triple_pure fun _ h => h
  have hagain : reception.Triple (Listening p)
      (pure none : Proc (Option (Result Bytes × TcpConnection)))
      fun r s => r.elim (Listening p s) fun r => HasRead p r s ∧ Stays connection r :=
    triple_pure fun _ h => h
  have hother : ∀ {code : ErrorCode} nativeCode, code ≠ .connectionClosed →
      ∀ s, Listening p s → HasRead p (.error { code, nativeCode }, {}) s :=
    fun _ hcode _ h => .inr ⟨hcode, h.2⟩
  have hclosed : ∀ (nativeCode : ℤ) (s : Hearing), s.parser = p → (s.last = some .shutdown ∨
      s.Broken) → HasRead p (.error { code := .connectionClosed, nativeCode }, {}) s :=
    fun _ _ hparser hlast => .inl ⟨rfl, hparser, hlast⟩
  unfold TcpConnection.retry
  split
  · next hzero =>
    refine hfail _ fun s h => hclosed _ s h.1 (.inl ?_)
    obtain ⟨-, hlast⟩ | ⟨hne, -⟩ := h.2
    · exact hlast
    · exact absurd hzero hne
  next hnonzero =>
  have hlast : ∀ s, Attempted p attempt s →
      s.parser = p ∧ s.last = some (.failed attempt.nativeCode) := by
    rintro s ⟨hparser, ⟨hzero, -⟩ | ⟨-, hlast⟩⟩
    · exact absurd hzero hnonzero
    · exact ⟨hparser, hlast⟩
  have hlistening : ¬ socketErrorIsConnectionClosed attempt.nativeCode = true →
      ∀ s, Attempted p attempt s → Listening p s :=
    fun hcode s h => ⟨h.1, Hearing.not_broken (hlast s h).2 hcode⟩
  split
  · next hinterrupted =>
    exact hagain.weaken (hlistening (not_closed_of_interrupted hinterrupted)) fun _ _ h => h
  split
  · next hcode =>
    exact hfail _ fun s h => hclosed _ s h.1 (.inr ⟨_, (hlast s h).2, hcode⟩)
  next hcode =>
  refine Triple.weaken (P := Listening p) ?_ (hlistening hcode) fun _ _ h => h
  split
  · exact hfail _ (hother _ (by decide))
  refine Triple.bind ((writes_remainingTimeout ordinary_reception deadline).ignored.weaken
    (fun _ h => h) fun _ _ h => h.2) fun remaining => ?_
  split
  · exact hfail _ (hother _ (by decide))
  refine (triple_wait_heard remaining).bind fun wait => ?_
  have hnotFailed : wait.status ≠ .failed → ∀ s : Hearing, (s.parser = p ∧
      (wait.status ≠ .failed ∧ ¬ s.Broken ∨
        wait.status = .failed ∧ s.last = some (.failed wait.nativeCode))) → Listening p s := by
    rintro hne s ⟨hparser, ⟨-, hs⟩ | ⟨hstatus, -⟩⟩
    · exact ⟨hparser, hs⟩
    · exact absurd hstatus hne
  have hfailed : ¬ socketErrorIsConnectionClosed wait.nativeCode = true →
      ∀ s : Hearing, (s.parser = p ∧ (wait.status ≠ .failed ∧ ¬ s.Broken ∨
        wait.status = .failed ∧ s.last = some (.failed wait.nativeCode))) → Listening p s := by
    rintro hcode s ⟨hparser, ⟨-, hs⟩ | ⟨-, hs⟩⟩
    · exact ⟨hparser, hs⟩
    · exact ⟨hparser, Hearing.not_broken hs hcode⟩
  split
  · next hready =>
    exact hagain.weaken (hnotFailed (by rw [hready]; decide)) fun _ _ h => h
  next hready =>
  split
  · next hinterrupted =>
    rw [Bool.and_eq_true, decide_eq_true_iff] at hinterrupted
    exact hagain.weaken (hfailed (not_closed_of_interrupted hinterrupted.2)) fun _ _ h => h
  unfold TcpConnection.waitFailed
  split
  · next htimedOut =>
    exact (hfail _ (hother _ (by decide))).weaken (hnotFailed (by rw [htimedOut]; decide))
      fun _ _ h => h
  next htimedOut =>
  split
  · next hcode' =>
    refine hfail _ fun s h => hclosed _ s h.1 (.inr ⟨_, ?_, hcode'⟩)
    obtain ⟨hstatus, -⟩ | ⟨-, hs⟩ := h.2
    · cases hw : wait.status with
      | ready => exact absurd hw hready
      | timedOut => exact absurd hw htimedOut
      | failed => exact absurd hw hstatus
    · exact hs
  · next hcode' =>
    exact (hfail _ (hother _ (by decide))).weaken (hfailed hcode') fun _ _ h => h

theorem triple_readSome_heard (hhandle : connection.socket.handle = some handle) {capacity : ℕ}
    (hcapacity : capacity ≠ 0) (timeout : ℤ) :
    reception.Triple (Listening p) (connection.readSome capacity timeout)
      fun r s => HasRead p r s ∧ Stays connection r := by
  have hK := ordinary_reception
  have hother : ∀ {code : ErrorCode} nativeCode, code ≠ .connectionClosed →
      reception.Triple (Listening p) (connection.fail code nativeCode)
        fun r s => HasRead p r s ∧ Stays connection r :=
    fun nativeCode hcode => triple_fail_heard nativeCode fun _ h => .inr ⟨hcode, h.2⟩
  have hquiet : ∀ {α : Type} {q : Proc α}, q.Writes reception.Ignores (fun _ => True) →
      ∀ {P : Hearing → Prop}, reception.Triple P q fun _ => P :=
    fun h => h.ignored.weaken (fun _ h => h) fun _ _ h => h.2
  have hlost : ∀ nativeCode data, reception.Triple
      (fun s => s.parser = (p.feed data).2 ∧ s.last = some .data)
      (connection.fail .readFailed nativeCode : Proc (Result Bytes × TcpConnection))
      fun r s => HasRead p r s ∧ Stays connection r := by
    intro nativeCode data
    have hcode : ErrorCode.readFailed ≠ .connectionClosed := by decide
    refine triple_fail_heard nativeCode fun s h => .inr ⟨hcode, ?_⟩
    rintro ⟨code, hlast, -⟩
    cases h.2.symm.trans hlast
  unfold TcpConnection.readSome
  rw [hhandle]
  dsimp only
  rw [if_neg hcapacity]
  split
  · exact hother _ (by decide)
  refine (hquiet (writes_setSocketNonblocking hK.used handle true)).bind fun mode => ?_
  cases mode with
  | error nativeCode => exact hother _ (by decide)
  | ok =>
    refine (hquiet (writes_clock hK)).bind fun now => ?_
    refine triple_loop (fun _ => Listening p) (fun u => ?_) ()
    refine (hquiet (writes_clock hK)).bind fun now => ?_
    split
    · exact (hother _ (by decide)).bind fun _ => triple_pure fun _ h => h
    refine ((triple_receive_heard capacity).weaken (fun _ h => h.1) fun _ _ h => h).bind
      fun r => ?_
    obtain ⟨attempt, data⟩ := r
    dsimp only
    split
    · next hsome =>
      refine Triple.weaken (P := fun s => s.parser = (p.feed data).2 ∧ s.last = some .data)
        ((hquiet (writes_setSocketNonblocking hK.used handle false)).bind fun mode => ?_)
        (fun s h => ?_) fun _ _ h => h
      · cases mode with
        | error nativeCode => exact (hlost nativeCode data).bind fun _ => triple_pure fun _ h => h
        | ok => exact triple_pure fun _ h => ⟨h, rfl, trivial⟩
      · obtain ⟨-, hs⟩ | ⟨hnone, -⟩ := h
        · exact hs
        · exact absurd hsome hnone
    · next hnone =>
      have hattempted : ∀ s : Hearing, (attempt.transferred > 0 ∧ s.parser = (p.feed data).2 ∧
          s.last = some .data ∨ ¬ attempt.transferred > 0 ∧ Attempted p attempt s) →
          Attempted p attempt s := by
        rintro s (⟨hsome, -⟩ | ⟨-, hs⟩)
        · exact absurd hsome hnone
        · exact hs
      refine Triple.bind ((triple_retry_heard _ attempt).weaken hattempted fun _ _ h => h)
        fun r => ?_
      cases r with
      | none => exact triple_pure fun _ h => h
      | some result => exact triple_pure fun _ h => h

end

end CppRequest
