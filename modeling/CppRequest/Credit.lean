import CppRequest.Dialogue

/-!
# What procedures take from their input

A procedure pays for every item that it takes from the input, and is paid for what it writes. So
what it has taken is bounded by what it has written, also where it has not come back.
-/

namespace Procedure

variable {ι ο α β σ : Type} {pay : ο → ℕ}

def paid (pay : ο → ℕ) (events : List ο) : ℕ := (events.map pay).sum

theorem paid_append (events events' : List ο) :
    paid pay (events ++ events') = paid pay events + paid pay events' := by
  unfold paid
  rw [List.map_append, List.sum_append]

/-- The procedure begins with so much credit, and has so much left when it comes back. Where it has
not come back, all of the input is taken. -/
def Pays (pay : ο → ℕ) (credit : ℕ) (p : Procedure ι ο α) (R : α → ℕ) : Prop :=
  ∀ w, ∃ events, (p.run w).2.log = w.log ++ events ∧
    ((p.run w).1 = none → w.input.length ≤ credit + paid pay events) ∧
    ∀ a, (p.run w).1 = some a →
      w.input.length + R a ≤ (p.run w).2.input.length + (credit + paid pay events)

variable {credit credit' : ℕ} {p : Procedure ι ο α} {R R' : α → ℕ} {L : β → ℕ}

theorem Pays.weaken (h : Pays pay credit p R) (hcredit : credit ≤ credit')
    (hrest : ∀ a, R' a ≤ R a) : Pays pay credit' p R' := by
  intro w
  obtain ⟨events, hlog, hnone, hsome⟩ := h w
  refine ⟨events, hlog, fun hrun => ?_, fun a hrun => ?_⟩
  · have htaken := hnone hrun
    omega
  · have htaken := hsome a hrun
    have hle := hrest a
    omega

theorem pays_pure {a : α} (h : R a ≤ credit) :
    Pays pay credit (pure a : Procedure ι ο α) R := by
  intro w
  refine ⟨[], (List.append_nil _).symm, nofun, fun a' ha' => ?_⟩
  cases ha'
  show w.input.length + R a ≤ w.input.length + (credit + 0)
  omega

theorem pays_read : Pays pay (credit + 1) (read : Procedure ι ο ι) fun _ => credit := by
  intro w
  rcases w with ⟨_ | ⟨i, input⟩, log⟩
  · exact ⟨[], (List.append_nil _).symm, fun _ => Nat.zero_le _, nofun⟩
  · refine ⟨[], (List.append_nil _).symm, nofun, fun a ha => ?_⟩
    cases ha
    show input.length + 1 + credit ≤ input.length + (credit + 1 + 0)
    omega

theorem pays_emit (e : ο) :
    Pays pay credit (emit e : Procedure ι ο Unit) fun _ => credit + pay e := by
  intro w
  refine ⟨[e], rfl, nofun, fun _ _ => ?_⟩
  show w.input.length + (credit + pay e) ≤ w.input.length + (credit + (pay e + 0))
  omega

theorem pays_history : Pays pay credit (history : Procedure ι ο (List ο)) fun _ => credit := by
  intro w
  refine ⟨[], (List.append_nil _).symm, nofun, fun _ _ => ?_⟩
  show w.input.length + credit ≤ w.input.length + (credit + 0)
  omega

theorem Pays.bind {f : α → Procedure ι ο β} (hp : Pays pay credit p R)
    (hf : ∀ a, Pays pay (R a) (f a) L) : Pays pay credit (p >>= f) L := by
  intro w
  obtain ⟨events, hlog, hnone, hsome⟩ := hp w
  rcases hrun : p.run w with ⟨_ | a, w'⟩
  · rw [hrun] at hlog hnone
    rw [run_bind_none hrun]
    exact ⟨events, hlog, fun _ => hnone rfl, nofun⟩
  · rw [hrun] at hlog hsome
    rw [run_bind_some hrun]
    obtain ⟨events', hlog', hnone', hsome'⟩ := hf a w'
    have hfirst := hsome a rfl
    refine ⟨events ++ events', ?_, fun hrest => ?_, fun b hb => ?_⟩
    · rw [hlog', hlog, List.append_assoc]
    · have hsecond := hnone' hrest
      rw [paid_append]
      dsimp only at hfirst
      omega
    · have hsecond := hsome' b hb
      rw [paid_append]
      dsimp only at hfirst
      omega

/-- Every round leaves the credit that the next one needs. -/
theorem pays_loop {body : σ → Procedure ι ο (σ ⊕ α)}
    {reads : ∀ s, (body s).Reads fun r => r.isLeft = true}
    (h : ∀ s, Pays pay credit (body s) fun r => r.elim (fun _ => credit) R) (s : σ) :
    Pays pay credit (loop body reads s) R := by
  intro w
  refine (rounds body reads).run_post
    (fun t => ∃ events, t.2.log = w.log ++ events ∧
      w.input.length ≤ t.2.input.length + paid pay events)
    (fun r => ∃ events, r.2.log = w.log ++ events ∧
      (r.1 = none → w.input.length ≤ credit + paid pay events) ∧ ∀ a, r.1 = some a →
        w.input.length + R a ≤ r.2.input.length + (credit + paid pay events))
    ?_ ?_ ⟨[], (List.append_nil _).symm, Nat.le_refl _⟩
  · rintro t t' ⟨events, hlog, htaken⟩ hstep
    obtain ⟨events', hlog', hnone, hsome⟩ := h t.1 t.2
    rcases round_cases hstep with ⟨w', -, hr⟩ | ⟨s', w', hrun, hr⟩ | ⟨a, w', -, hr⟩
    · cases hr
    · cases hr
      rw [hrun] at hlog' hsome
      have hround := hsome (.inl s') rfl
      refine ⟨events ++ events', ?_, ?_⟩
      · rw [hlog', hlog, List.append_assoc]
      · rw [paid_append]
        dsimp only [Sum.elim_inl] at hround ⊢
        omega
    · cases hr
  · rintro t r ⟨events, hlog, htaken⟩ hstep
    obtain ⟨events', hlog', hnone, hsome⟩ := h t.1 t.2
    rcases round_cases hstep with ⟨w', hrun, hr⟩ | ⟨s', w', -, hr⟩ | ⟨a, w', hrun, hr⟩
    · cases hr
      rw [hrun] at hlog' hnone
      have hround := hnone rfl
      refine ⟨events ++ events', ?_, fun _ => ?_, nofun⟩
      · rw [hlog', hlog, List.append_assoc]
      · rw [paid_append]
        omega
    · cases hr
    · cases hr
      rw [hrun] at hlog' hsome
      have hround := hsome (.inr a) rfl
      refine ⟨events ++ events', ?_, nofun, fun a' ha' => ?_⟩
      · rw [hlog', hlog, List.append_assoc]
      · cases ha'
        rw [paid_append]
        dsimp only [Sum.elim_inr] at hround ⊢
        omega

end Procedure

/-- Every question costs one, and there is enough for those that are asked. -/
theorem Dialogue.pays_play {ι ο κ ρ α τ : Type} {pay : ο → ℕ} {credit : ℕ}
    {answer : κ → τ → Procedure ι ο (ρ × τ)}
    (h : ∀ n q s, Procedure.Pays pay (credit + (n + 1)) (answer q s) fun _ => credit + n)
    {d : Dialogue κ ρ α} {n : ℕ} (hd : ∀ log q, d.Asks log q → log.length < n) (s : τ) :
    Procedure.Pays pay (credit + n) (d.play answer s) fun _ => credit := by
  induction d generalizing n s with
  | done a => exact Procedure.pays_pure (Nat.le_add_right _ _)
  | ask q next ih =>
    obtain ⟨m, rfl⟩ := Nat.exists_eq_succ_of_ne_zero (hd [] q .now).ne'
    exact (h m q s).bind fun r => ih r.1 (fun log q' hasks =>
      Nat.lt_of_succ_lt_succ (hd _ _ hasks.later)) r.2
