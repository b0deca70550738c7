import CppRequest.EndsInTime
import CppRequest.Errands

/-!
# Whole requests end in time

The time that a request takes is counted by its exchanges and by the data that it receives: in each
exchange it connects, writes and reads once, and it reads once more for each piece of data.
-/

namespace CppRequest

open Procedure Monitor

/-! ## Budgets -/

/-- Data are received, and not the end of them. -/
def Event.isPiece : Event → Bool
  | .received _ (.ok data) => !data.isEmpty
  | _ => false

def pieces (events : List Event) : ℕ := events.countP Event.isPiece

/-- The time is watched against a bound that every piece of data moves. -/
def budgetStep (slack piece : ℤ) : Option (ℤ × ℤ) → Event → Option (Option (ℤ × ℤ))
  | none, _ => some none
  | some (time, bound), e => (paceStep slack bound (some time) e).map fun s =>
      s.map fun time' => (time', bound + if e.isPiece then piece else 0)

def budget (slack piece : ℤ) : Monitor Event (Option (ℤ × ℤ)) where
  step := budgetStep slack piece
  fits _ _ := True
  fits_step _ _ := trivial

section

variable {slack piece bound bound' time : ℤ} {s : Option ℤ}

theorem paceStep_cases {e : Event} (h : paceStep slack bound (some time) e = some s) :
    s = none ∨ s = some time ∨ ∃ time', s = some time' ∧ time' < bound := by
  cases e with
  | clock time' =>
    simp only [paceStep] at h
    split_ifs at h with hprompt hbound
    · cases h
      exact .inr (.inr ⟨time', rfl, hbound⟩)
    · cases h
      exact .inl rfl
  | waited handle writable milliseconds result =>
    simp only [paceStep] at h
    split_ifs at h with hbound
    cases h
    exact .inr (.inr ⟨_, rfl, hbound.2⟩)
  | resolved | opened | closed | used | sent | received | began | retained | adopted | moved =>
    exact .inr (.inl (Option.some.inj h).symm)

theorem paceStep_mono {e : Event} (h : paceStep slack bound (some time) e = some s)
    (hle : bound ≤ bound') : paceStep slack bound' (some time) e = some s := by
  cases e with
  | clock time' =>
    simp only [paceStep] at h ⊢
    split_ifs at h with hprompt hbound
    · cases h
      rw [if_pos hprompt, if_pos (hbound.trans_le hle)]
    · cases h
      rw [if_neg hprompt]
  | waited handle writable milliseconds result =>
    simp only [paceStep] at h ⊢
    split_ifs at h with hbound
    cases h
    rw [if_pos ⟨hbound.1, hbound.2.trans_le hle⟩]
  | resolved | opened | closed | used | sent | received | began
  | retained | adopted | moved => exact h

theorem budget_excused (events : List Event) :
    (budget slack piece).reads none events = some none := by
  induction events with
  | nil => rfl
  | cons e events ih => exact ih

theorem pieces_cons (e : Event) (events : List Event) :
    pieces (e :: events) = pieces events + if e.isPiece then 1 else 0 := List.countP_cons

/-- What is within the bound is within a budget. -/
theorem budget_of_pace {events : List Event} (hpiece : 0 ≤ piece)
    (h : (pace slack bound).reads (some time) events = some s) (hle : bound ≤ bound') :
    (budget slack piece).reads (some (time, bound')) events =
      some (s.map fun time' => (time', bound' + pieces events * piece)) := by
  induction events generalizing time bound' with
  | nil =>
    cases h
    simp [pieces, reads]
  | cons e events ih =>
    unfold reads at h ⊢
    rw [List.foldlM_cons] at h ⊢
    obtain ⟨t, hstep, hrest⟩ := Option.bind_eq_some_iff.mp h
    have hbudget : (budget slack piece).step (some (time, bound')) e =
        some (t.map fun time' => (time', bound' + if e.isPiece then piece else 0)) :=
      congrArg (Option.map _) (paceStep_mono hstep hle)
    rw [hbudget]
    cases t with
    | none =>
      cases (pace_excused events).symm.trans hrest
      exact budget_excused events
    | some time' =>
      have hmoved : bound ≤ bound' + if e.isPiece then piece else 0 := by
        split_ifs
        · omega
        · omega
      refine (ih hrest hmoved).trans ?_
      rw [pieces_cons]
      split_ifs
      · push_cast
        rw [add_mul, one_mul, add_assoc, add_comm piece]
      · rw [Nat.add_zero, add_zero]

/-- What is within a budget is within the bound to which it has moved. -/
theorem pace_of_budget {events : List Event} {s : Option (ℤ × ℤ)} (hpiece : 0 ≤ piece)
    (h : (budget slack piece).reads (some (time, bound)) events = some s) :
    (pace slack (bound + pieces events * piece)).reads (some time) events =
      some (s.map Prod.fst) := by
  induction events generalizing time bound with
  | nil =>
    cases h
    rfl
  | cons e events ih =>
    unfold reads at h ⊢
    rw [List.foldlM_cons] at h ⊢
    obtain ⟨t, hbudget, hrest⟩ := Option.bind_eq_some_iff.mp h
    obtain ⟨s', hstep, rfl⟩ := Option.map_eq_some_iff.mp hbudget
    have hmoved : 0 ≤ (pieces (e :: events) : ℤ) * piece :=
      mul_nonneg (Int.natCast_nonneg _) hpiece
    have hwider : (pace slack (bound + pieces (e :: events) * piece)).step (some time) e =
        some s' := paceStep_mono hstep (by omega)
    rw [hwider]
    cases s' with
    | none =>
      cases (budget_excused events).symm.trans hrest
      exact pace_excused events
    | some time' =>
      have hbound : bound + pieces (e :: events) * piece =
          bound + (if e.isPiece then piece else 0) + pieces events * piece := by
        rw [pieces_cons]
        split_ifs
        · push_cast
          rw [add_mul, one_mul, add_assoc, add_comm piece]
        · rw [Nat.add_zero, add_zero]
      rw [hbound]
      exact ih hrest

/-- A procedure ends where it began, or within the bound. -/
theorem pace_ends {events : List Event} {time' : ℤ}
    (h : (pace slack bound).reads (some time) events = some (some time')) :
    time' = time ∨ time' < bound := by
  induction events generalizing time with
  | nil =>
    cases h
    exact .inl rfl
  | cons e events ih =>
    unfold reads at h
    rw [List.foldlM_cons] at h
    obtain ⟨t, hstep, hrest⟩ := Option.bind_eq_some_iff.mp h
    obtain rfl | rfl | ⟨time₁, rfl, hbound⟩ := paceStep_cases hstep
    · cases (pace_excused events).symm.trans hrest
    · exact ih hrest
    · obtain rfl | hlt := ih hrest
      · exact .inr hbound
      · exact .inr hlt

end

/-! ## Spending -/

/-- So much of the budget is left. -/
def Room (room : ℤ) (s : Option (ℤ × ℤ)) : Prop :=
  ∀ time bound, s = some (time, bound) → time + room ≤ bound

/-- So many pieces of data have come when the procedure comes back. -/
def Brings {α : Type} (p : Proc α) (count : α → ℕ) : Prop :=
  ∀ (w : World Answer Event) events, (p.run w).2.log = w.log ++ events →
    ∀ a, (p.run w).1 = some a → count a ≤ pieces events

section

variable {slack piece : ℤ} {α : Type} {p : Proc α}

theorem Room.mono {room room' : ℤ} {s : Option (ℤ × ℤ)} (h : Room room s) (hle : room' ≤ room) :
    Room room' s := fun time bound hs => by
  have hroom := h time bound hs
  omega

/-- What keeps to a bound of its own spends it, and gets back what its data bring. -/
theorem triple_spend {Q : α → Option ℤ → Prop} {count : α → ℕ} {cost room : ℤ}
    (hpiece : 0 ≤ piece) (hcost : 0 ≤ cost) (hroom : 0 ≤ room) (hbrings : Brings p count)
    (h : ∀ time, (pace slack (time + cost)).Triple (By fun time' => time' = time) p Q) :
    (budget slack piece).Triple (Room (cost + room)) p fun a => Room (room + count a * piece) := by
  intro w s _ hs
  cases s with
  | none =>
    obtain ⟨events, -, hlog, -⟩ := h 0 w none trivial nofun
    exact ⟨events, none, hlog, budget_excused events, fun _ _ => nofun⟩
  | some state =>
    obtain ⟨time, bound⟩ := state
    have hbound : time + (cost + room) ≤ bound := hs time bound rfl
    obtain ⟨events, s', hlog, hreads, -⟩ := h time w (some time) trivial fun time' htime' =>
      (Option.some.inj htime').symm
    have hbudget := budget_of_pace hpiece hreads (show time + cost ≤ bound by omega)
    refine ⟨events, _, hlog, hbudget, fun a ha time' bound' hs' => ?_⟩
    obtain ⟨time₁, rfl, heq⟩ := Option.map_eq_some_iff.mp hs'
    cases heq
    have hends := pace_ends hreads
    have hcount : (count a : ℤ) * piece ≤ pieces events * piece :=
      mul_le_mul_of_nonneg_right (Int.ofNat_le.mpr (hbrings w events hlog a ha)) hpiece
    omega

/-- What takes no time leaves the budget as it is. -/
theorem triple_free {Q : α → Prop} {room : ℤ} (hpiece : 0 ≤ piece)
    (h : p.Writes (fun e => e.takesTime = false) Q) :
    (budget slack piece).Triple (Room room) p fun a s => Q a ∧ Room room s := by
  refine h.triple fun e s he hs => ?_
  cases s with
  | none => exact ⟨none, rfl, nofun⟩
  | some state =>
    obtain ⟨time, bound⟩ := state
    refine ⟨some (time, bound + if e.isPiece then piece else 0), ?_, ?_⟩
    · show (paceStep slack bound (some time) e).map _ = _
      rw [paceStep_timeless he]
      rfl
    · rintro time' bound' ⟨⟩
      have hroom := hs time bound rfl
      split_ifs
      · omega
      · omega

end

/-! ## What reading brings -/

/-- Who counts the pieces of data. -/
def pieceCounter : Monitor Event ℕ where
  step n e := some (n + if e.isPiece then 1 else 0)
  fits _ _ := True
  fits_step _ _ := trivial

theorem pieceCounter_reads (n : ℕ) (events : List Event) :
    pieceCounter.reads n events = some (n + pieces events) := by
  induction events generalizing n with
  | nil => rfl
  | cons e events ih =>
    rw [pieces_cons, Nat.add_comm (pieces events), ← Nat.add_assoc]
    exact ih _

theorem brings_of_triple {α : Type} {p : Proc α} {count : α → ℕ}
    (h : pieceCounter.Triple (fun _ => True) p fun a n => count a ≤ n) : Brings p count := by
  intro w events hlog a ha
  obtain ⟨events', n, hlog', hreads, hresult⟩ := h w 0 trivial trivial
  obtain rfl : events = events' := List.append_cancel_left (hlog.symm.trans hlog')
  rw [pieceCounter_reads, Nat.zero_add] at hreads
  cases hreads
  exact hresult a ha

theorem brings_nothing {α : Type} (p : Proc α) : Brings p fun _ => 0 :=
  fun _ _ _ _ _ => Nat.zero_le _

/-- A call that reads and succeeds has received data. -/
def readPieces : Result Bytes × TcpConnection → ℕ
  | (.ok _, _) => 1
  | (.error _, _) => 0

theorem Failed.readPieces_eq {r : Result Bytes × TcpConnection} (h : Failed r) :
    readPieces r = 0 := by
  obtain ⟨e, rfl⟩ := h
  rfl

theorem triple_receiveSome_counted (handle : Handle) (capacity : ℕ) :
    pieceCounter.Triple (fun _ => True) (receiveSome handle capacity) fun r n =>
      r.1.transferred > 0 → 1 ≤ n := by
  refine triple_read.bind fun answer => ?_
  split
  · exact (triple_emit (Q := fun _ _ => True) fun n _ => ⟨_, rfl, trivial⟩).bind fun _ =>
      triple_pure fun _ _ hsome => absurd hsome (show ¬ (-1 : ℤ) > 0 by decide)
  · refine (triple_emit (Q := fun _ n => answer.data.take (boundedIoSize capacity) ≠ [] → 1 ≤ n)
      fun n _ => ⟨_, rfl, fun hdata => ?_⟩).bind fun _ => triple_pure fun n hn hsome => hn ?_
    · have hpiece : Event.isPiece
          (.received handle (.ok (answer.data.take (boundedIoSize capacity)))) = true := by
        simpa [Event.isPiece] using hdata
      rw [hpiece, if_pos rfl]
      omega
    · rintro hnone
      rw [hnone] at hsome
      exact absurd hsome (by decide)

theorem brings_readSome {capacity : ℕ} (hcapacity : capacity ≠ 0) (connection : TcpConnection)
    (timeout : ℤ) : Brings (connection.readSome capacity timeout) readPieces := by
  have hquiet : ∀ {α : Type} {p : Proc α} {Q : α → Prop} {k : ℕ}, p.Writes (fun _ => True) Q →
      pieceCounter.Triple (fun n => k ≤ n) p fun a n => Q a ∧ k ≤ n :=
    fun h => h.triple fun e n _ hn => ⟨_, rfl, by omega⟩
  have hfail : ∀ (code : ErrorCode) (nativeCode : ℤ), pieceCounter.Triple (fun n => 0 ≤ n)
      (connection.fail code nativeCode : Proc (Result Bytes × TcpConnection))
      fun r n => readPieces r ≤ n := fun code nativeCode =>
    (hquiet (writes_fail ordinary_any.toUntimed connection code nativeCode)).weaken (fun _ h => h)
      fun r n h => (Failed.readPieces_eq ⟨_, h.1⟩).trans_le (Nat.zero_le n)
  refine brings_of_triple (Triple.weaken (P := fun n => 0 ≤ n) ?_ (fun n _ => Nat.zero_le n)
    fun _ _ h => h)
  unfold TcpConnection.readSome
  split
  · exact triple_pure fun n _ => Nat.zero_le n
  rw [if_neg hcapacity]
  split
  · exact hfail _ _
  refine (hquiet (writes_setSocketNonblocking (fun _ _ => trivial) _ true)).bind fun mode =>
    triple_and fun _ => ?_
  cases mode with
  | error nativeCode => exact hfail _ _
  | ok =>
    refine (hquiet (writes_clock ordinary_any.toBasic)).bind fun now => triple_and fun _ => ?_
    refine triple_loop (fun _ n => 0 ≤ n) (fun u => ?_) ()
    refine (hquiet (writes_clock ordinary_any.toBasic)).bind fun now => triple_and fun _ => ?_
    split
    · exact (hfail _ _).bind fun _ => triple_pure fun _ h => h
    refine Triple.bind ((triple_receiveSome_counted _ capacity).weaken (fun _ _ => trivial)
      fun _ _ h => h) fun r => ?_
    obtain ⟨attempt, data⟩ := r
    dsimp only
    split
    · next hsome =>
      refine Triple.bind ((hquiet (k := 1) (writes_setSocketNonblocking (fun _ _ => trivial) _
        false)).weaken (fun n h => h hsome) fun _ _ h => h) fun mode => triple_and fun _ => ?_
      cases mode with
      | error nativeCode =>
        exact ((hfail _ _).weaken (fun n _ => Nat.zero_le n) fun _ _ h => h).bind fun _ =>
          triple_pure fun _ h => h
      | ok => exact triple_pure fun n h => h
    · refine Triple.bind ((hquiet (k := 0) (writes_retry ordinary_any.toBasic connection
        (fun _ _ => trivial) _ _ _ attempt)).weaken (fun n _ => Nat.zero_le n) fun _ _ h => h)
        fun r => ?_
      cases r with
      | none => exact triple_pure fun n h => h.2
      | some result =>
        refine triple_pure fun n h => ?_
        show readPieces result ≤ n
        rw [Failed.readPieces_eq h.1]
        exact h.2

/-! ## One exchange -/

/-- A call with this timeout, which looks at the clock behind some slack, takes less. -/
def callTime (slack timeout rounds : ℤ) : ℤ :=
  (timeout + rounds) * nanosecondsPerMillisecond + (rounds + 1) * slack

theorem callTime_nonneg {slack timeout rounds : ℤ} (hslack : 0 ≤ slack) (htimeout : 0 < timeout)
    (hrounds : 0 ≤ rounds) : 0 ≤ callTime slack timeout rounds := by
  have htime : 0 ≤ (timeout + rounds) * nanosecondsPerMillisecond :=
    mul_nonneg (by omega) (by decide)
  have hslacks : 0 ≤ (rounds + 1) * slack := mul_nonneg (by omega) hslack
  unfold callTime
  omega

theorem begins_of_callTime {slack timeout time : ℤ} (hslack : 0 ≤ slack) (htimeout : 0 < timeout) :
    ∀ s, By (fun time' => time' = time) s →
      By (Begins slack (time + callTime slack timeout 1) timeout) s := by
  intro s hs
  refine hs.mono fun time' htime => ⟨?_, fun _ => ?_⟩
  · simp only [callTime, nanosecondsPerMillisecond]
    omega
  · simp only [callTime, nanosecondsPerMillisecond]
    omega

namespace ClientSettings

/-- The timeouts are some. -/
structure Timed (settings : ClientSettings) : Prop where
  connect : 0 < settings.connectTimeout
  read : 0 < settings.readTimeout
  write : 0 < settings.writeTimeout

/-- What is read once more for a piece of data takes less. -/
def pieceTime (settings : ClientSettings) (slack : ℤ) : ℤ := callTime slack settings.readTimeout 1

/-- An exchange that reads once takes less. -/
def exchangeTime (settings : ClientSettings) (slack : ℤ) : ℤ :=
  callTime slack settings.connectTimeout 1 +
    (callTime slack settings.writeTimeout 2 + settings.pieceTime slack)

end ClientSettings

section

variable {slack room : ℤ} {settings : ClientSettings}

theorem ClientSettings.Timed.pieceTime_nonneg (h : settings.Timed) (hslack : 0 ≤ slack) :
    0 ≤ settings.pieceTime slack := callTime_nonneg hslack h.read (by decide)

theorem ClientSettings.Timed.exchangeTime_nonneg (h : settings.Timed) (hslack : 0 ≤ slack) :
    0 ≤ settings.exchangeTime slack :=
  add_nonneg (callTime_nonneg hslack h.connect (by decide))
    (add_nonneg (callTime_nonneg hslack h.write (by decide)) (h.pieceTime_nonneg hslack))

theorem triple_connect_room {timeout piece : ℤ} (hslack : 0 ≤ slack) (htimeout : 0 < timeout)
    (hpiece : 0 ≤ piece) (hroom : 0 ≤ room) (platform : Platform) (endpoints : List Endpoint) :
    (budget slack piece).Triple (Room (callTime slack timeout 1 + room))
      (TcpConnection.connect platform endpoints timeout) fun _ => Room room :=
  (triple_spend hpiece (callTime_nonneg hslack htimeout (by decide)) hroom (brings_nothing _)
    fun time => (triple_connect_pace hslack platform endpoints timeout).weaken
      (begins_of_callTime hslack htimeout) fun _ _ h => h).weaken (fun _ h => h)
    fun _ _ h => h.mono (by omega)

theorem triple_writeRequest_room {timeout piece : ℤ} (hslack : 0 ≤ slack) (htimeout : 0 < timeout)
    (hpiece : 0 ≤ piece) (hroom : 0 ≤ room) (connection : TcpConnection)
    (serialized : SerializedRequest) :
    (budget slack piece).Triple (Room (callTime slack timeout 2 + room))
      (Client.writeRequest connection serialized timeout) fun _ => Room room := by
  refine (triple_spend (Q := fun _ _ => True) hpiece (callTime_nonneg hslack htimeout (by decide))
    hroom (brings_nothing _) fun time => ?_).weaken (fun _ h => h) fun _ _ h => h.mono (by omega)
  have hbound : time + callTime slack timeout 2 =
      (time + slack) + (timeout + 2) * nanosecondsPerMillisecond + 2 * slack := by
    unfold callTime
    omega
  exact (triple_writeRequest_pace htimeout hslack hbound connection serialized).weaken
    (fun s hs => hs.mono fun time' htime => by omega) fun _ _ h => h

/-- What is read pays for the call that reads on. -/
theorem triple_readResponse_room {timeout : ℤ} (hslack : 0 ≤ slack) (htimeout : 0 < timeout)
    (hroom : 0 ≤ room) (connection : TcpConnection) (parser : ResponseParser) :
    (budget slack (callTime slack timeout 1)).Triple (Room (callTime slack timeout 1 + room))
      (Client.readResponse connection parser timeout) fun _ => Room room := by
  have hcost : 0 ≤ callTime slack timeout 1 := callTime_nonneg hslack htimeout (by decide)
  refine triple_loop (fun _ => Room (callTime slack timeout 1 + room)) (fun state => ?_)
    (connection, parser)
  obtain ⟨connection', parser'⟩ := state
  unfold Client.responseRound
  dsimp only
  split
  · exact triple_pure fun s h => h.mono (by omega)
  refine Triple.bind (triple_spend hcost hcost hroom
    (brings_readSome (by decide) connection' timeout) fun time =>
      (triple_readSome_pace hslack connection' _ timeout).weaken
        (begins_of_callTime hslack htimeout) fun _ _ h => h) fun r => ?_
  obtain ⟨e | data, connection''⟩ := r
  · exact triple_pure fun s h => Room.mono h (by simp [readPieces])
  · have hpaid : room + (readPieces (.ok data, connection'') : ℤ) * callTime slack timeout 1 =
        callTime slack timeout 1 + room := by
      simp only [readPieces]
      omega
    rw [hpaid]
    dsimp only
    split
    · exact triple_pure fun s h => h.mono (by omega)
    · exact triple_pure fun s h => h

theorem writes_closeReusableConnection_timeless (client : Client) (this : ClientId) :
    (client.closeReusableConnection this).Writes (fun e => e.takesTime = false)
      fun client' => client' = client.cleared := by
  unfold Client.closeReusableConnection
  split
  · refine (writes_emit (K := fun e : Event => e.takesTime = false) rfl).bind fun _ _ => ?_
    exact (writes_close untimed_timeless _).bind fun _ _ => writes_pure rfl
  · exact writes_pure rfl

theorem triple_obtainConnection_room {client : Client} {piece : ℤ} (hslack : 0 ≤ slack)
    (htimeout : 0 < client.settings.connectTimeout) (hpiece : 0 ≤ piece) (hroom : 0 ≤ room)
    (platform : Platform) (this : ClientId) (url : Url) :
    (budget slack piece).Triple
      (Room (callTime slack client.settings.connectTimeout 1 + room))
      (client.obtainConnection platform this url)
      fun r s => r.2.settings = client.settings ∧ Room room s := by
  have hcost : 0 ≤ callTime slack client.settings.connectTimeout 1 :=
    callTime_nonneg hslack htimeout (by decide)
  unfold Client.obtainConnection
  split
  · refine (triple_free hpiece (writes_emit rfl)).bind fun _ => triple_and fun _ => ?_
    exact triple_pure fun s h => ⟨rfl, h.mono (by omega)⟩
  refine (triple_free hpiece (writes_closeReusableConnection_timeless client this)).bind
    fun client' => triple_and fun hclient => ?_
  subst hclient
  refine (triple_free hpiece (writes_resolve (fun _ _ _ => rfl) url.host url.port)).bind fun resolved =>
    triple_and fun _ => ?_
  cases resolved with
  | error e => exact triple_pure fun s h => ⟨rfl, h.mono (by omega)⟩
  | ok endpoints =>
    exact (triple_connect_room hslack htimeout hpiece hroom platform endpoints).bind fun result =>
      triple_pure fun s h => ⟨rfl, h⟩

theorem writes_closeConnection_timeless (connection : TcpConnection) :
    connection.close.Writes (fun e => e.takesTime = false) fun _ => True :=
  (writes_close untimed_timeless _).bind fun _ _ => writes_pure trivial

theorem writes_conclude_timeless (client : Client) (this : ClientId) (connection : TcpConnection)
    (url : Url) (request : Request) (parser : ResponseParser) :
    (client.conclude this connection url request parser).Writes (fun e => e.takesTime = false)
      fun r => r.2.settings = client.settings := by
  unfold Client.conclude
  split
  · exact (writes_emit (K := fun e : Event => e.takesTime = false) rfl).bind fun _ _ =>
      writes_pure rfl
  · exact (writes_closeConnection_timeless connection).bind fun _ _ => writes_pure rfl

theorem triple_executeOnce_room {client : Client} (hslack : 0 ≤ slack)
    (htimed : client.settings.Timed) (hroom : 0 ≤ room) (platform : Platform) (this : ClientId)
    (request : Request) :
    (budget slack (client.settings.pieceTime slack)).Triple
      (Room (client.settings.exchangeTime slack + room)) (client.executeOnce platform this request)
      fun r s => r.2.settings = client.settings ∧ Room room s := by
  have hpiece := htimed.pieceTime_nonneg hslack
  have hconnect : 0 ≤ callTime slack client.settings.connectTimeout 1 :=
    callTime_nonneg hslack htimed.connect (by decide)
  have hwrite : 0 ≤ callTime slack client.settings.writeTimeout 2 :=
    callTime_nonneg hslack htimed.write (by decide)
  unfold Client.executeOnce
  split
  · refine triple_pure fun s h => ⟨rfl, h.mono ?_⟩
    unfold ClientSettings.exchangeTime
    omega
  next serialized hserialized =>
  unfold ClientSettings.exchangeTime
  rw [add_assoc, add_assoc]
  refine (triple_obtainConnection_room hslack htimed.connect hpiece (by omega) platform this
    serialized.url).bind fun r => ?_
  obtain ⟨e | connection, client'⟩ := r
  · exact triple_pure fun s h => ⟨h.1, h.2.mono (by omega)⟩
  refine triple_and fun hsettings => ?_
  dsimp only at hsettings ⊢
  refine Triple.bind (Q := fun _ => Room (callTime slack client.settings.writeTimeout 2 +
    (client.settings.pieceTime slack + room))) ?_ fun _ => ?_
  · unfold Client.beginExchange
    split
    · exact (triple_free hpiece (writes_emit rfl)).weaken (fun _ h => h) fun _ _ h => h.2
    · exact triple_pure fun _ h => h
  refine Triple.bind (Q := fun _ => Room room) ?_ fun r => ?_
  · unfold Client.exchange
    rw [hsettings]
    refine (triple_writeRequest_room hslack htimed.write hpiece (by omega) connection
      serialized).bind fun r => ?_
    obtain ⟨e | u, connection'⟩ := r
    · exact triple_pure fun s h => h.mono (by omega)
    · exact triple_readResponse_room hslack htimed.read hroom connection' _
  obtain ⟨e | parser, connection'⟩ := r
  · refine (triple_free hpiece (writes_closeConnection_timeless connection')).bind
      fun _ => triple_and fun _ => ?_
    exact triple_pure fun s h => ⟨hsettings, h⟩
  · exact (triple_free hpiece (writes_conclude_timeless client' this connection' _ request
      parser)).weaken (fun _ h => h) fun _ _ h => ⟨h.1.trans hsettings, h.2⟩

theorem triple_request_room {client : Client} (hslack : 0 ≤ slack)
    (htimed : client.settings.Timed) (platform : Platform) (this : ClientId) (request : Request) :
    (budget slack (client.settings.pieceTime slack)).Triple
      (Room ((client.settings.maxRedirects + 1 : ℕ) * client.settings.exchangeTime slack))
      (client.request platform this request) fun _ _ => True := by
  have hexchange := htimed.exchangeTime_nonneg hslack
  refine (Dialogue.triple_play_counted (fun n client' s => client'.settings = client.settings ∧
    Room (n * client.settings.exchangeTime slack) s) (fun n q client' => ?_)
    (fun log q hasks => Nat.lt_succ_of_le (asked_confined hasks).1) client).weaken
    (fun s hs => ⟨rfl, hs⟩) fun _ _ _ => trivial
  refine triple_and fun hsettings => ?_
  have hroom : 0 ≤ (n : ℤ) * client.settings.exchangeTime slack :=
    mul_nonneg (Int.natCast_nonneg n) hexchange
  have htimed' : client'.settings.Timed := by
    rw [hsettings]
    exact htimed
  have hone := triple_executeOnce_room hslack htimed' hroom platform this q
  rw [hsettings] at hone
  refine hone.weaken (fun s hs => hs.mono ?_) fun _ _ h => h
  push_cast
  rw [add_mul, one_mul, add_comm]

end

/-! ## All exchanges -/

/-- What keeps to a budget is within it, as far as it has come. -/
theorem latest_within {α : Type} {p : Proc α} {slack piece total first time : ℤ}
    {w : World Answer Event} {past events : List Event} (hpiece : 0 ≤ piece)
    (h : (budget slack piece).Triple (Room total) p fun _ _ => True)
    (hlog : (p.run w).2.log = w.log ++ events) (hprompt : Prompt slack events)
    (hfirst : events.findSome? Event.shows = some first) (hpast : past <+: events)
    (htime : latest past = some time) :
    time < first - slack + total + pieces past * piece := by
  have hstart : Room total (some (first - slack, first - slack + total)) := by
    rintro time' bound ⟨⟩
    exact le_rfl
  obtain ⟨events', s, hlog', hreads, -⟩ := h w _ trivial hstart
  obtain rfl : events = events' := List.append_cancel_left (hlog.symm.trans hlog')
  obtain ⟨s', hpastReads⟩ := reads_past _ hreads hpast
  obtain ⟨time', -, hpaced⟩ := paced_of_reads (hprompt.past hpast) (shows_past hpast hfirst)
    (pace_of_budget hpiece hpastReads)
  obtain ⟨rfl, hbound⟩ := hpaced.latest time htime
  exact hbound

/-- However far a request has come, the time that has passed at most since it first looked at the
clock is less than its exchanges may take, and reading once more for each piece of data. -/
theorem request_ends_in_time {client : Client} (htimed : client.settings.Timed)
    (platform : Platform) (this : ClientId) (request : Request) (w : World Answer Event)
    {events : List Event} {slack first : ℤ}
    (hlog : ((client.request platform this request).run w).2.log = w.log ++ events)
    (hslack : 0 ≤ slack) (hprompt : Prompt slack events)
    (hfirst : events.findSome? Event.shows = some first) {past : List Event}
    (hpast : past <+: events) {time : ℤ} (htime : latest past = some time) :
    time < first + (client.settings.maxRedirects + 1 : ℕ) * client.settings.exchangeTime slack +
      pieces past * client.settings.pieceTime slack := by
  have hbound := latest_within (htimed.pieceTime_nonneg hslack)
    (triple_request_room hslack htimed platform this request) hlog hprompt hfirst hpast htime
  omega

/-- The answers, with a clock that shows how many have come. -/
def timedAnswers (answers : List Answer) : List Answer :=
  answers.zipIdx.map fun (answer, n) => { answer with time := n }

theorem request_ends_in_time_noContent : ∃ result w',
    (({} : Client).request { inetPton6 := fun _ => false } 0 plainRequest).run
      ⟨timedAnswers (promptAnswers (bytes "HTTP/1.1 204 No Content\r\n\r\n")), []⟩ =
        (result, w') ∧
    ∀ past, past <+: w'.log → ∀ time, latest past = some time →
      time < 1 + (11 : ℕ) * ({} : ClientSettings).exchangeTime 10 +
        pieces past * ({} : ClientSettings).pieceTime 10 := by
  have hprompt : promptBehind 10 (latest [])
      ((({} : Client).request { inetPton6 := fun _ => false } 0 plainRequest).run
        ⟨timedAnswers (promptAnswers (bytes "HTTP/1.1 204 No Content\r\n\r\n")), []⟩).2.log =
          true := by decide +kernel
  have hfirst : ((({} : Client).request { inetPton6 := fun _ => false } 0 plainRequest).run
      ⟨timedAnswers (promptAnswers (bytes "HTTP/1.1 204 No Content\r\n\r\n")), []⟩).2.log.findSome?
        Event.shows = some 1 := by decide +kernel
  generalize hcall : (({} : Client).request { inetPton6 := fun _ => false } 0 plainRequest).run
    ⟨timedAnswers (promptAnswers (bytes "HTTP/1.1 204 No Content\r\n\r\n")), []⟩ = r
    at hprompt hfirst
  obtain ⟨result, w'⟩ := r
  refine ⟨result, w', rfl, fun past hpast time htime => ?_⟩
  exact request_ends_in_time ⟨by decide, by decide, by decide⟩ _ 0 plainRequest _
    (congrArg (fun r => r.2.log) hcall) (by decide) (prompt_of_promptBehind prompt_nil hprompt)
    hfirst hpast htime

end CppRequest
