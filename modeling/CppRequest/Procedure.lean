import CppRequest.ExitLoop

/-!
# Procedures between an environment and a log

A procedure takes what the environment tells it from a list, one item at a time, and writes what
it does into a log. Where the list is used up the procedure has not come back yet: there is no
result, and the log is what has been done so far. A loop that takes at least one item in every
round is a procedure.
-/

structure World (ι ο : Type) where
  input : List ι
  log : List ο

/-- Input is only taken, and the log only grows. -/
structure Procedure (ι ο α : Type) where
  run : World ι ο → Option α × World ι ο
  consumes : ∀ w, (run w).2.input.length ≤ w.input.length
  records : ∀ w, w.log <+: (run w).2.log

namespace Procedure

variable {ι ο α β σ : Type}

@[ext] theorem ext {p q : Procedure ι ο α} (h : ∀ w, p.run w = q.run w) : p = q := by
  cases p
  cases q
  congr
  exact funext h

/-! ## Constructions -/

def done (a : α) : Procedure ι ο α where
  run w := (some a, w)
  consumes _ := Nat.le_refl _
  records _ := List.prefix_rfl

/-- One item of the input. -/
def read : Procedure ι ο ι where
  run w := match w.input with
    | [] => (none, w)
    | i :: rest => (some i, { w with input := rest })
  consumes w := by
    cases h : w.input with
    | nil => simp [h]
    | cons i rest => simp
  records w := by
    cases w.input with
    | nil => exact List.prefix_rfl
    | cons i rest => exact List.prefix_rfl

def emit (e : ο) : Procedure ι ο Unit where
  run w := (some (), { w with log := w.log ++ [e] })
  consumes _ := Nat.le_refl _
  records _ := List.prefix_append _ _

/-- What has been done so far. -/
def history : Procedure ι ο (List ο) where
  run w := (some w.log, w)
  consumes _ := Nat.le_refl _
  records _ := List.prefix_rfl

def andThen (p : Procedure ι ο α) (f : α → Procedure ι ο β) : Procedure ι ο β where
  run w := match p.run w with
    | (none, w') => (none, w')
    | (some a, w') => (f a).run w'
  consumes w := by
    have hp := p.consumes w
    split
    · next w' h =>
      rw [h] at hp
      exact hp
    · next a w' h =>
      rw [h] at hp
      exact ((f a).consumes w').trans hp
  records w := by
    have hp := p.records w
    split
    · next w' h =>
      rw [h] at hp
      exact hp
    · next a w' h =>
      rw [h] at hp
      exact hp.trans ((f a).records w')

instance : Monad (Procedure ι ο) where
  pure := done
  bind := andThen

theorem run_bind_none {p : Procedure ι ο α} {f : α → Procedure ι ο β} {w w' : World ι ο}
    (h : p.run w = (none, w')) : (p >>= f).run w = (none, w') := by
  show (match p.run w with
    | (none, w') => (none, w')
    | (some a, w') => (f a).run w') = _
  rw [h]

theorem run_bind_some {p : Procedure ι ο α} {f : α → Procedure ι ο β} {w w' : World ι ο} {a : α}
    (h : p.run w = (some a, w')) : (p >>= f).run w = (f a).run w' := by
  show (match p.run w with
    | (none, w') => (none, w')
    | (some a, w') => (f a).run w') = _
  rw [h]

/-- What comes back has come through the first procedure. -/
theorem run_bind_cases {p : Procedure ι ο α} {f : α → Procedure ι ο β} {w w' : World ι ο} {b : β}
    (h : (p >>= f).run w = (some b, w')) :
    ∃ a w₁, p.run w = (some a, w₁) ∧ (f a).run w₁ = (some b, w') := by
  rcases hrun : p.run w with ⟨_ | a, w₁⟩
  · cases h.symm.trans (run_bind_none hrun)
  · exact ⟨a, w₁, rfl, (run_bind_some hrun).symm.trans h⟩

/-! ## Loops -/

/-- Where the result is one of these, something has been taken from the input. -/
def Reads (p : Procedure ι ο α) (K : α → Prop) : Prop :=
  ∀ w a, (p.run w).1 = some a → K a → (p.run w).2.input.length < w.input.length

theorem reads_read (K : ι → Prop) : (read : Procedure ι ο ι).Reads K := by
  intro w a h _
  rcases w with ⟨_ | ⟨i, rest⟩, log⟩
  · cases h
  · exact Nat.lt_succ_self _

theorem reads_done {a : α} {K : α → Prop} (h : ¬ K a) : (pure a : Procedure ι ο α).Reads K := by
  intro w a' ha hK
  cases ha
  exact absurd hK h

/-- Either part may take something. -/
theorem Reads.bind {p : Procedure ι ο α} {f : α → Procedure ι ο β} {K : α → Prop} {L : β → Prop}
    (hp : p.Reads K) (hf : ∀ a, ¬ K a → (f a).Reads L) : (p >>= f).Reads L := by
  intro w b hb hL
  rcases hrun : p.run w with ⟨_ | a, w'⟩
  · rw [run_bind_none hrun] at hb
    cases hb
  · rw [run_bind_some hrun] at hb ⊢
    have hle := p.consumes w
    rw [hrun] at hle
    by_cases hK : K a
    · have hlt := hp w a (by rw [hrun]) hK
      rw [hrun] at hlt
      exact Nat.lt_of_le_of_lt ((f a).consumes w') hlt
    · exact Nat.lt_of_lt_of_le (hf a hK w' b hb hL) hle

theorem Reads.first {p : Procedure ι ο α} {f : α → Procedure ι ο β} {L : β → Prop}
    (hp : p.Reads fun _ => True) : (p >>= f).Reads L :=
  hp.bind fun _ h => absurd trivial h

theorem Reads.second {p : Procedure ι ο α} {f : α → Procedure ι ο β} {L : β → Prop}
    (hf : ∀ a, (f a).Reads L) : (p >>= f).Reads L :=
  Reads.bind (K := fun _ => False) (fun _ _ _ h => h.elim) fun a _ => hf a

/-- One round, in the world that the last one has left. -/
def round (body : σ → Procedure ι ο (σ ⊕ α)) (t : σ × World ι ο) :
    (σ × World ι ο) ⊕ (Option α × World ι ο) :=
  match (body t.1).run t.2 with
  | (none, w) => .inr (none, w)
  | (some (.inl s), w) => .inl (s, w)
  | (some (.inr a), w) => .inr (some a, w)

/-- Going round means having taken something. -/
def rounds (body : σ → Procedure ι ο (σ ⊕ α))
    (reads : ∀ s, (body s).Reads fun r => r.isLeft = true) :
    ExitLoop (σ × World ι ο) (Option α × World ι ο) where
  step := round body
  measure t := t.2.input.length
  decreases := by
    intro t t' h
    unfold round at h
    rcases hrun : (body t.1).run t.2 with ⟨_ | s | a, w⟩
    · rw [hrun] at h
      cases h
    · rw [hrun] at h
      cases h
      have hlt := reads t.1 t.2 (.inl s) (by rw [hrun]) rfl
      rwa [hrun] at hlt
    · rw [hrun] at h
      cases h

theorem round_cases {body : σ → Procedure ι ο (σ ⊕ α)} {t : σ × World ι ο}
    {r : (σ × World ι ο) ⊕ (Option α × World ι ο)} (h : round body t = r) :
    (∃ w, (body t.1).run t.2 = (none, w) ∧ r = .inr (none, w)) ∨
    (∃ s w, (body t.1).run t.2 = (some (.inl s), w) ∧ r = .inl (s, w)) ∨
    ∃ a w, (body t.1).run t.2 = (some (.inr a), w) ∧ r = .inr (some a, w) := by
  unfold round at h
  rcases hrun : (body t.1).run t.2 with ⟨_ | s | a, w⟩
  · rw [hrun] at h
    exact .inl ⟨w, rfl, h.symm⟩
  · rw [hrun] at h
    exact .inr (.inl ⟨s, w, rfl, h.symm⟩)
  · rw [hrun] at h
    exact .inr (.inr ⟨a, w, rfl, h.symm⟩)

/-- What holds of the world in which a round begins and is kept by the rounds holds in the end. -/
theorem rounds_post {body : σ → Procedure ι ο (σ ⊕ α)}
    {reads : ∀ s, (body s).Reads fun r => r.isLeft = true} (I : World ι ο → Prop)
    (h : ∀ s w, I w → I ((body s).run w).2) {s : σ} {w : World ι ο} (hw : I w) :
    I ((rounds body reads).run (s, w)).2 := by
  refine (rounds body reads).run_post (fun t => I t.2) (fun r => I r.2) ?_ ?_ hw
  · intro t t' ht hstep
    rcases round_cases hstep with ⟨w', -, hr⟩ | ⟨s', w', hrun, hr⟩ | ⟨a, w', -, hr⟩
    · cases hr
    · cases hr
      have hkept := h t.1 t.2 ht
      rwa [hrun] at hkept
    · cases hr
  · intro t r ht hstep
    rcases round_cases hstep with ⟨w', hrun, hr⟩ | ⟨s', w', -, hr⟩ | ⟨a, w', hrun, hr⟩
    · cases hr
      have hkept := h t.1 t.2 ht
      rwa [hrun] at hkept
    · cases hr
    · cases hr
      have hkept := h t.1 t.2 ht
      rwa [hrun] at hkept

def loop (body : σ → Procedure ι ο (σ ⊕ α))
    (reads : ∀ s, (body s).Reads fun r => r.isLeft = true) (s : σ) : Procedure ι ο α where
  run w := (rounds body reads).run (s, w)
  consumes w := rounds_post (fun w' => w'.input.length ≤ w.input.length)
    (fun s w' hw => ((body s).consumes w').trans hw) (Nat.le_refl _)
  records w := rounds_post (fun w' => w.log <+: w'.log)
    (fun s w' hw => hw.trans ((body s).records w')) List.prefix_rfl

theorem run_loop_exit {body : σ → Procedure ι ο (σ ⊕ α)}
    {reads : ∀ s, (body s).Reads fun r => r.isLeft = true} {s : σ} {a : α} {w w' : World ι ο}
    (h : (body s).run w = (some (.inr a), w')) : (loop body reads s).run w = (some a, w') := by
  refine (rounds body reads).run_of_exit ?_
  show Procedure.round body (s, w) = _
  unfold Procedure.round
  rw [h]

theorem run_loop_none {body : σ → Procedure ι ο (σ ⊕ α)}
    {reads : ∀ s, (body s).Reads fun r => r.isLeft = true} {s : σ} {w w' : World ι ο}
    (h : (body s).run w = (none, w')) : (loop body reads s).run w = (none, w') := by
  refine (rounds body reads).run_of_exit ?_
  show Procedure.round body (s, w) = _
  unfold Procedure.round
  rw [h]

end Procedure

/-! ## Monitors -/

/-- Who reads the log along and may object. A state is always one that fits what has been read. -/
structure Monitor (ο S : Type) where
  step : S → ο → Option S
  fits : List ο → S → Prop
  fits_step : ∀ {log s e s'}, fits log s → step s e = some s' → fits (log ++ [e]) s'

namespace Monitor

variable {ι ο α β σ S : Type} (M : Monitor ο S)

/-- Reading further. -/
def reads (s : S) (events : List ο) : Option S := events.foldlM M.step s

theorem reads_append (s : S) (events events' : List ο) :
    M.reads s (events ++ events') = (M.reads s events).bind fun s' => M.reads s' events' := by
  unfold reads
  rw [List.foldlM_append]
  rfl

/-- What has been read was accepted up to every event and with it. -/
theorem reads_upto {s t : S} {log past rest : List ο} {e : ο} (h : M.reads s log = some t)
    (hlog : log = past ++ e :: rest) : ∃ s' s'', M.reads s past = some s' ∧ M.step s' e = some s'' := by
  rw [hlog, reads_append] at h
  rcases Option.bind_eq_some_iff.mp h with ⟨s', hpast, hrest⟩
  unfold reads at hrest
  rw [List.foldlM_cons] at hrest
  rcases Option.bind_eq_some_iff.mp hrest with ⟨s'', hstep, -⟩
  exact ⟨s', s'', hpast, hstep⟩

theorem reads_past {s t : S} {log past : List ο} (h : M.reads s log = some t)
    (hpast : past <+: log) : ∃ s', M.reads s past = some s' := by
  rcases hpast with ⟨rest, rfl⟩
  rw [reads_append] at h
  rcases Option.bind_eq_some_iff.mp h with ⟨s', hpast, -⟩
  exact ⟨s', hpast⟩

theorem fits_reads {log events : List ο} {s s' : S} (h : M.fits log s)
    (hreads : M.reads s events = some s') : M.fits (log ++ events) s' := by
  induction events generalizing log s with
  | nil =>
    cases hreads
    rwa [List.append_nil]
  | cons e events ih =>
    unfold reads at hreads
    rw [List.foldlM_cons] at hreads
    cases hstep : M.step s e with
    | none =>
      rw [hstep] at hreads
      cases hreads
    | some t =>
      rw [hstep] at hreads
      have hrest := ih (M.fits_step h hstep) hreads
      rwa [List.append_assoc] at hrest

/-- What the procedure writes the monitor accepts, from every state in which `P` holds, and `Q`
holds when the procedure comes back. -/
def Triple (P : S → Prop) (p : Procedure ι ο α) (Q : α → S → Prop) : Prop :=
  ∀ w s, M.fits w.log s → P s → ∃ events s', (p.run w).2.log = w.log ++ events ∧
    M.reads s events = some s' ∧ ∀ a, (p.run w).1 = some a → Q a s'

variable {M}
variable {P P' : S → Prop} {p : Procedure ι ο α} {Q Q' : α → S → Prop} {R : β → S → Prop}

theorem Triple.weaken (h : M.Triple P p Q) (hP : ∀ s, P' s → P s) (hQ : ∀ a s, Q a s → Q' a s) :
    M.Triple P' p Q' := by
  intro w s hfits hs
  rcases h w s hfits (hP s hs) with ⟨events, s', hlog, hreads, hresult⟩
  exact ⟨events, s', hlog, hreads, fun a ha => hQ a s' (hresult a ha)⟩

/-- What is known beside the state may be used. -/
theorem triple_and {φ : Prop} (h : φ → M.Triple P p Q) : M.Triple (fun s => φ ∧ P s) p Q :=
  fun w s hfits hs => h hs.1 w s hfits hs.2

theorem triple_exists {τ : Type} {P : τ → S → Prop} (h : ∀ x, M.Triple (P x) p Q) :
    M.Triple (fun s => ∃ x, P x s) p Q :=
  fun w s hfits ⟨x, hs⟩ => h x w s hfits hs

theorem triple_pure {a : α} (h : ∀ s, P s → Q a s) :
    M.Triple P (pure a : Procedure ι ο α) Q := by
  intro w s _ hs
  refine ⟨[], s, (List.append_nil _).symm, rfl, fun a' ha' => ?_⟩
  cases ha'
  exact h s hs

theorem triple_read : M.Triple P (Procedure.read : Procedure ι ο ι) fun _ => P := by
  intro w s _ hs
  rcases w with ⟨_ | ⟨i, rest⟩, log⟩
  · exact ⟨[], s, (List.append_nil _).symm, rfl, nofun⟩
  · refine ⟨[], s, (List.append_nil _).symm, rfl, fun a ha => ?_⟩
    cases ha
    exact hs

theorem triple_emit {e : ο} {Q : Unit → S → Prop}
    (h : ∀ s, P s → ∃ s', M.step s e = some s' ∧ Q () s') :
    M.Triple P (Procedure.emit e : Procedure ι ο Unit) Q := by
  intro w s _ hs
  rcases h s hs with ⟨s', hstep, hQ⟩
  refine ⟨[e], s', rfl, ?_, fun _ _ => hQ⟩
  show (M.step s e >>= pure) = some s'
  rw [hstep]
  rfl

theorem triple_history {Q : List ο → S → Prop} (h : ∀ log s, M.fits log s → P s → Q log s) :
    M.Triple P (Procedure.history : Procedure ι ο (List ο)) Q := by
  intro w s hfits hs
  refine ⟨[], s, (List.append_nil _).symm, rfl, fun log hlog => ?_⟩
  cases hlog
  exact h w.log s hfits hs

theorem Triple.bind {f : α → Procedure ι ο β} (hp : M.Triple P p Q)
    (hf : ∀ a, M.Triple (Q a) (f a) R) : M.Triple P (p >>= f) R := by
  intro w s hfits hs
  rcases hp w s hfits hs with ⟨events, s', hlog, hreads, hresult⟩
  rcases hrun : p.run w with ⟨_ | a, w'⟩
  · rw [Procedure.run_bind_none hrun]
    rw [hrun] at hlog
    exact ⟨events, s', hlog, hreads, nofun⟩
  · rw [Procedure.run_bind_some hrun]
    rw [hrun] at hlog hresult
    have hfits' : M.fits w'.log s' := by
      rw [hlog]
      exact M.fits_reads hfits hreads
    rcases hf a w' s' hfits' (hresult a rfl) with ⟨events', s'', hlog', hreads', hresult'⟩
    refine ⟨events ++ events', s'', ?_, ?_, hresult'⟩
    · rw [hlog', hlog, List.append_assoc]
    · rw [reads_append, hreads]
      exact hreads'

/-- What every step of the monitor keeps stays known beside what a procedure does. -/
theorem Triple.frame {I : S → Prop} (hI : ∀ s e s', M.step s e = some s' → I s → I s')
    (h : M.Triple P p Q) : M.Triple (fun s => I s ∧ P s) p fun a s => I s ∧ Q a s := by
  have hreads : ∀ (events : List ο) (s s' : S), M.reads s events = some s' → I s → I s' := by
    intro events
    induction events with
    | nil =>
      intro s s' hreads hs
      cases hreads
      exact hs
    | cons e events ih =>
      intro s s' hreads hs
      unfold reads at hreads
      rw [List.foldlM_cons] at hreads
      rcases Option.bind_eq_some_iff.mp hreads with ⟨t, hstep, hrest⟩
      exact ih t s' hrest (hI s e t hstep hs)
  intro w s hfits hs
  rcases h w s hfits hs.2 with ⟨events, s', hlog, hread, hresult⟩
  exact ⟨events, s', hlog, hread, fun a ha => ⟨hreads events s s' hread hs.1, hresult a ha⟩⟩

/-- The invariant of a loop may depend on its variables. -/
theorem triple_loop {body : σ → Procedure ι ο (σ ⊕ α)}
    {reads : ∀ s, (body s).Reads fun r => r.isLeft = true} (I : σ → S → Prop)
    (hbody : ∀ x, M.Triple (I x) (body x) fun r s => r.elim (fun x' => I x' s) fun a => Q a s)
    (x : σ) : M.Triple (I x) (Procedure.loop body reads x) Q := by
  intro w s hfits hs
  have hround : ∀ y w', (∃ events s', w'.log = w.log ++ events ∧ M.reads s events = some s' ∧
      I y s') → ∃ events s', ((body y).run w').2.log = w.log ++ events ∧
      M.reads s events = some s' ∧ ∀ r, ((body y).run w').1 = some r →
        r.elim (fun x' => I x' s') fun a => Q a s' := by
    rintro y w' ⟨events, s', hlog, hreads, hI⟩
    have hfits' : M.fits w'.log s' := by
      rw [hlog]
      exact M.fits_reads hfits hreads
    rcases hbody y w' s' hfits' hI with ⟨events', s'', hlog', hreads', hresult⟩
    refine ⟨events ++ events', s'', ?_, ?_, hresult⟩
    · rw [hlog', hlog, List.append_assoc]
    · rw [reads_append, hreads]
      exact hreads'
  refine (Procedure.rounds body reads).run_post
    (fun t => ∃ events s', t.2.log = w.log ++ events ∧ M.reads s events = some s' ∧ I t.1 s')
    (fun r => ∃ events s', r.2.log = w.log ++ events ∧ M.reads s events = some s' ∧
      ∀ a, r.1 = some a → Q a s') ?_ ?_ ⟨[], s, (List.append_nil _).symm, rfl, hs⟩
  · intro t t' ht hstep
    rcases hround t.1 t.2 ht with ⟨events, s', hlog, hreads, hresult⟩
    rcases Procedure.round_cases hstep with ⟨w', -, hr⟩ | ⟨y, w', hrun, hr⟩ | ⟨a, w', -, hr⟩
    · cases hr
    · cases hr
      rw [hrun] at hlog hresult
      exact ⟨events, s', hlog, hreads, hresult _ rfl⟩
    · cases hr
  · intro t r ht hstep
    rcases hround t.1 t.2 ht with ⟨events, s', hlog, hreads, hresult⟩
    rcases Procedure.round_cases hstep with ⟨w', hrun, hr⟩ | ⟨y, w', -, hr⟩ | ⟨a, w', hrun, hr⟩
    · cases hr
      rw [hrun] at hlog
      exact ⟨events, s', hlog, hreads, nofun⟩
    · cases hr
    · cases hr
      rw [hrun] at hlog hresult
      refine ⟨events, s', hlog, hreads, fun a' ha' => ?_⟩
      cases ha'
      exact hresult _ rfl

/-! ## What is written -/

/-- The event does not matter to the monitor. -/
def Ignores (M : Monitor ο S) (e : ο) : Prop := ∀ s, M.step s e = some s

open Classical in
/-- Who objects to everything that is not of one kind. -/
noncomputable def observer (K : ο → Prop) : Monitor ο Unit where
  step _ e := if K e then some () else none
  fits _ _ := True
  fits_step _ _ := trivial

end Monitor

namespace Procedure

open Monitor

variable {ι ο α β σ S : Type} {K : ο → Prop}

/-- The procedure writes nothing but events of this kind, and has one of these results when it
comes back. -/
def Writes (p : Procedure ι ο α) (K : ο → Prop) (Q : α → Prop) : Prop :=
  (observer K).Triple (fun _ => True) p fun a _ => Q a

variable {p : Procedure ι ο α} {Q Q' : α → Prop} {R : β → Prop}

theorem writes_pure {a : α} (h : Q a) : (pure a : Procedure ι ο α).Writes K Q :=
  triple_pure fun _ _ => h

theorem writes_read : (read : Procedure ι ο ι).Writes K fun _ => True :=
  triple_read

theorem writes_emit {e : ο} (h : K e) : (emit e : Procedure ι ο Unit).Writes K fun _ => True :=
  triple_emit fun _ _ => ⟨(), if_pos h, trivial⟩

theorem writes_history : (history : Procedure ι ο (List ο)).Writes K fun _ => True :=
  triple_history fun _ _ _ _ => trivial

theorem Writes.weaken (h : p.Writes K Q) (hQ : ∀ a, Q a → Q' a) : p.Writes K Q' :=
  Triple.weaken h (fun _ hs => hs) fun a _ ha => hQ a ha

theorem Writes.bind {f : α → Procedure ι ο β} (hp : p.Writes K Q)
    (hf : ∀ a, Q a → (f a).Writes K R) : (p >>= f).Writes K R := by
  refine Triple.bind hp fun a => ?_
  exact Triple.weaken (triple_and fun ha => hf a ha) (fun _ ha => ⟨ha, trivial⟩) fun _ _ h => h

theorem writes_loop {body : σ → Procedure ι ο (σ ⊕ α)}
    {reads : ∀ s, (body s).Reads fun r => r.isLeft = true} (I : σ → Prop)
    (hbody : ∀ x, I x → (body x).Writes K fun r => r.elim I Q) {x : σ} (hx : I x) :
    (loop body reads x).Writes K Q := by
  refine Triple.weaken (triple_loop (M := observer K) (fun x _ => I x) (fun y => ?_) x)
    (fun _ _ => hx) fun _ _ h => h
  refine Triple.weaken (triple_and (P := fun _ => True) fun hy => hbody y hy)
    (fun _ hy => ⟨hy, trivial⟩) fun r s h => ?_
  cases r with
  | inl y => exact h
  | inr a => exact h

theorem kind_of_observed {events : List ο} {s s' : Unit}
    (h : (observer K).reads s events = some s') : ∀ e ∈ events, K e := by
  induction events generalizing s with
  | nil => exact nofun
  | cons e events ih =>
    unfold reads at h
    rw [List.foldlM_cons] at h
    obtain ⟨t, hstep, hrest⟩ := Option.bind_eq_some_iff.mp h
    simp only [observer] at hstep
    split_ifs at hstep with he
    intro e' he'
    rcases List.mem_cons.mp he' with rfl | he'
    · exact he
    · exact ih hrest e' he'

/-- One run of the procedure. -/
theorem Writes.run {w w' : World ι ο} {a : α} (h : p.Writes K Q) (hrun : p.run w = (some a, w')) :
    Q a ∧ ∃ events, w'.log = w.log ++ events ∧ ∀ e ∈ events, K e := by
  obtain ⟨events, u, hlog, hreads, hresult⟩ := h w () trivial trivial
  rw [hrun] at hlog hresult
  exact ⟨hresult a rfl, events, hlog, kind_of_observed hreads⟩

/-- What a monitor knows outlasts events that it does not mind. -/
theorem Writes.triple {M : Monitor ο S} {P : S → Prop} (h : p.Writes K Q)
    (hK : ∀ e s, K e → P s → ∃ s', M.step s e = some s' ∧ P s') :
    M.Triple P p fun a s => Q a ∧ P s := by
  intro w s _ hs
  obtain ⟨events, u, hlog, hreads, hresult⟩ := h w () trivial trivial
  have hkept : ∀ rest : List ο, (∀ e ∈ rest, K e) → ∀ s, P s →
      ∃ s', M.reads s rest = some s' ∧ P s' := by
    intro rest hrest
    induction rest with
    | nil => exact fun s hs => ⟨s, rfl, hs⟩
    | cons e rest ih =>
      intro s hs
      obtain ⟨t, hstep, ht⟩ := hK e s (hrest e List.mem_cons_self) hs
      obtain ⟨s', hs', hP⟩ := ih (fun e' he' => hrest e' (List.mem_cons_of_mem _ he')) t ht
      refine ⟨s', ?_, hP⟩
      unfold Monitor.reads
      rw [List.foldlM_cons, hstep]
      exact hs'
  obtain ⟨s', hs', hP⟩ := hkept events (kind_of_observed hreads) s hs
  exact ⟨events, s', hlog, hs', fun a ha => ⟨hresult a ha, hP⟩⟩

/-- What the procedure returns is known beside what a monitor knows. -/
theorem Writes.beside {M : Monitor ο S} {P : S → Prop} {R : α → S → Prop} (h : p.Writes K Q)
    (hM : M.Triple P p R) : M.Triple P p fun a s => Q a ∧ R a s := by
  intro w s hfits hs
  obtain ⟨events, s', hlog, hreads, hresult⟩ := hM w s hfits hs
  obtain ⟨_, _, -, -, hreturned⟩ := h w () trivial trivial
  exact ⟨events, s', hlog, hreads, fun a ha => ⟨hreturned a ha, hresult a ha⟩⟩

theorem Writes.ignored {M : Monitor ο S} {P : S → Prop} (h : p.Writes M.Ignores Q) :
    M.Triple P p fun a s => Q a ∧ P s :=
  h.triple fun _ s he hs => ⟨s, he s, hs⟩

end Procedure
