import CppRequest.Procedure

/-!
# Programs that ask

A program that asks questions and goes on with the answers is a tree. Every branch of the tree
is finite, so that whoever answers, the program ends. What the one who answers may do is a
function of the questions and answers so far.
-/

/-- A program that asks for a `ρ` by a `κ` until it has an `α`. -/
inductive Dialogue (κ ρ α : Type*)
  | done (a : α)
  | ask (q : κ) (next : ρ → Dialogue κ ρ α)

namespace Dialogue

variable {κ ρ α : Type*}

/-- The questions and answers that lead through a program to a result. -/
inductive Transcript : Dialogue κ ρ α → List (κ × ρ) → α → Prop
  | done (a : α) : Transcript (.done a) [] a
  | ask {q : κ} {next : ρ → Dialogue κ ρ α} {r : ρ} {log : List (κ × ρ)} {a : α}
      (h : Transcript (next r) log a) : Transcript (.ask q next) ((q, r) :: log) a

/-- The run against someone who knows all that has been said. -/
def run (server : List (κ × ρ) → κ → ρ) (past : List (κ × ρ)) :
    Dialogue κ ρ α → List (κ × ρ) × α
  | .done a => ([], a)
  | .ask q next =>
    let r := server past q
    let rest := (next r).run server (past ++ [(q, r)])
    ((q, r) :: rest.1, rest.2)

theorem transcript_run (server : List (κ × ρ) → κ → ρ) (past : List (κ × ρ))
    (d : Dialogue κ ρ α) : d.Transcript (d.run server past).1 (d.run server past).2 := by
  induction d generalizing past with
  | done a => exact .done a
  | ask q next ih => exact .ask (ih _ _)

/-- The run against a procedure that answers and has a state of its own. -/
def play {ι ο κ ρ α σ : Type} (answer : κ → σ → Procedure ι ο (ρ × σ)) :
    Dialogue κ ρ α → σ → Procedure ι ο (α × σ)
  | .done a, s => pure (a, s)
  | .ask q next, s => do
    let (r, s') ← answer q s
    (next r).play answer s'

/-- What every answer keeps the whole run keeps. -/
theorem triple_play {ι ο κ ρ α σ S : Type} {M : Monitor ο S}
    {answer : κ → σ → Procedure ι ο (ρ × σ)} (I : σ → S → Prop)
    (h : ∀ q s, M.Triple (I s) (answer q s) fun r => I r.2) (d : Dialogue κ ρ α) (s : σ) :
    M.Triple (I s) (d.play answer s) fun r => I r.2 := by
  induction d generalizing s with
  | done a => exact Monitor.triple_pure fun _ hs => hs
  | ask q next ih => exact (h q s).bind fun r => ih r.1 r.2

/-- The program asks this behind these questions and answers. -/
inductive Asks : Dialogue κ ρ α → List (κ × ρ) → κ → Prop
  | now {q : κ} {next : ρ → Dialogue κ ρ α} : Asks (.ask q next) [] q
  | later {q q' : κ} {next : ρ → Dialogue κ ρ α} {r : ρ} {log : List (κ × ρ)}
      (h : Asks (next r) log q') : Asks (.ask q next) ((q, r) :: log) q'

/-- Whatever it is answered, the program comes to an end. -/
theorem Asks.transcript {d : Dialogue κ ρ α} {log : List (κ × ρ)} {q : κ} (h : d.Asks log q)
    (r : ρ) : ∃ rest a, d.Transcript (log ++ (q, r) :: rest) a := by
  induction h with
  | @now q next =>
    have hrest := transcript_run (fun _ _ => r) [] (next r)
    exact ⟨_, _, .ask hrest⟩
  | later h ih =>
    obtain ⟨rest, a, htranscript⟩ := ih
    exact ⟨rest, a, .ask htranscript⟩

/-- Every question costs one, and there is enough for those that are asked. -/
theorem triple_play_counted {ι ο κ ρ α σ S : Type} {M : Monitor ο S}
    {answer : κ → σ → Procedure ι ο (ρ × σ)} (I : ℕ → σ → S → Prop)
    (h : ∀ n q s, M.Triple (I (n + 1) s) (answer q s) fun r => I n r.2) {d : Dialogue κ ρ α} {n : ℕ}
    (hd : ∀ log q, d.Asks log q → log.length < n) (s : σ) :
    M.Triple (I n s) (d.play answer s) fun r s' => ∃ m, I m r.2 s' := by
  induction d generalizing n s with
  | done a => exact Monitor.triple_pure fun _ hs => ⟨n, hs⟩
  | ask q next ih =>
    obtain ⟨m, rfl⟩ := Nat.exists_eq_succ_of_ne_zero (hd [] q .now).ne'
    exact (h m q s).bind fun r => ih r.1 (fun log q' hasks =>
      Nat.lt_of_succ_lt_succ (hd _ _ hasks.later)) r.2

/-- One question, its answer if it has come, and what was done meanwhile. -/
structure Episode (κ ρ ο : Type) where
  question : κ
  answer : Option ρ
  events : List ο

/-- These are the questions of the program in their order, and all but the last have been
answered. -/
def Episodes {κ ρ α ο : Type} (d : Dialogue κ ρ α) (episodes : List (Episode κ ρ ο)) : Prop :=
  ∀ before x after, episodes = before ++ x :: after → ∃ log, d.Asks log x.question ∧
    log.map (fun e => (e.1, some e.2)) = before.map fun y => (y.question, y.answer)

theorem episodes_cons {κ ρ α ο : Type} {q : κ} {next : ρ → Dialogue κ ρ α} {r : ρ}
    {episodes : List (Episode κ ρ ο)} (h : (next r).Episodes episodes) (events : List ο) :
    (ask q next).Episodes (⟨q, some r, events⟩ :: episodes) := by
  intro before x after hsplit
  cases before with
  | nil =>
    cases hsplit
    exact ⟨[], .now, rfl⟩
  | cons y before =>
    obtain ⟨rfl, hrest⟩ := List.cons.inj hsplit
    obtain ⟨log, hasks, hlog⟩ := h before x after hrest
    refine ⟨(q, r) :: log, .later hasks, ?_⟩
    rw [List.map_cons, List.map_cons, hlog]

theorem episodes_single {κ ρ α ο : Type} (q : κ) (next : ρ → Dialogue κ ρ α) (answer : Option ρ)
    (events : List ο) : (ask q next).Episodes [⟨q, answer, events⟩] := by
  intro before x after hsplit
  cases before with
  | nil =>
    cases hsplit
    exact ⟨[], .now, rfl⟩
  | cons y before => exact absurd (congrArg List.length hsplit) (by simp)

/-- The log of a run is made of the logs of its answers, also where it has not come back. -/
theorem episodes_of_play {ι ο κ ρ α σ : Type} {answer : κ → σ → Procedure ι ο (ρ × σ)}
    {P : κ → Option ρ → List ο → Prop}
    (h : ∀ q s w, ∃ events, ((answer q s).run w).2.log = w.log ++ events ∧
      P q (((answer q s).run w).1.map Prod.fst) events)
    (d : Dialogue κ ρ α) (s : σ) (w : World ι ο) : ∃ episodes : List (Episode κ ρ ο),
      ((d.play answer s).run w).2.log = w.log ++ episodes.flatMap Episode.events ∧
        d.Episodes episodes ∧ ∀ x ∈ episodes, P x.question x.answer x.events := by
  induction d generalizing s w with
  | done a =>
    refine ⟨[], (List.append_nil _).symm, fun before x after hsplit => ?_, fun x hx => ?_⟩
    · exact absurd (congrArg List.length hsplit) (by simp)
    · exact absurd hx List.not_mem_nil
  | ask q next ih =>
    unfold play
    obtain ⟨events, hlog, hP⟩ := h q s w
    rcases hrun : (answer q s).run w with ⟨_ | ⟨r, s₁⟩, w₁⟩
    · rw [hrun] at hlog hP
      rw [Procedure.run_bind_none hrun]
      refine ⟨[⟨q, none, events⟩], ?_, episodes_single q next none events, ?_⟩
      · rw [List.flatMap_singleton]
        exact hlog
      · intro x hx
        rw [List.mem_singleton.mp hx]
        exact hP
    · rw [hrun] at hlog hP
      rw [Procedure.run_bind_some hrun]
      obtain ⟨episodes, hrest, hfollow, hlater⟩ := ih r s₁ w₁
      refine ⟨⟨q, some r, events⟩ :: episodes, ?_, episodes_cons hfollow events, ?_⟩
      · rw [List.flatMap_cons, ← List.append_assoc]
        rw [show w₁.log = w.log ++ events from hlog] at hrest
        exact hrest
      · intro x hx
        obtain rfl | hx := List.mem_cons.mp hx
        · exact hP
        · exact hlater x hx

end Dialogue
