import CppRequest.Text

/-!
# Lines that CRLF separates

Lines without a CR are read back from the text that joins them, and the CRLFCRLF
behind lines of which none is empty is the first one.
-/

namespace CppRequest

open Search

/-- The text cut at every CRLF. -/
def splitLines : Bytes → List Bytes
  | [] => [[]]
  | [ch] => [[ch]]
  | ch :: next :: text =>
    if ch = cr ∧ next = lf then [] :: splitLines text
    else match splitLines (next :: text) with
      | [] => [[ch]]
      | line :: lines => (ch :: line) :: lines

theorem splitLines_cons {ch : Byte} {text line : Bytes} {lines : List Bytes} (hch : ch ≠ cr)
    (h : splitLines text = line :: lines) : splitLines (ch :: text) = (ch :: line) :: lines := by
  cases text with
  | nil =>
    cases h
    rfl
  | cons next text =>
    unfold splitLines
    rw [if_neg fun hcrlf => hch hcrlf.1, h]

theorem splitLines_line {line : Bytes} (h : cr ∉ line) : splitLines line = [line] := by
  induction line with
  | nil => rfl
  | cons ch line ih =>
    rw [List.mem_cons, not_or] at h
    exact splitLines_cons (Ne.symm h.1) (ih h.2)

theorem splitLines_append {line : Bytes} (text : Bytes) (h : cr ∉ line) :
    splitLines (line ++ (crlf ++ text)) = line :: splitLines text := by
  induction line with
  | nil => rfl
  | cons ch line ih =>
    rw [List.mem_cons, not_or] at h
    exact splitLines_cons (Ne.symm h.1) (ih h.2)

theorem splitLines_leads {line : Bytes} (text : Bytes) (h : Leads crlf line) :
    splitLines (line ++ (crlf ++ text)) = line :: splitLines text := by
  induction line with
  | nil => rfl
  | cons ch line ih =>
    have hrest : Leads crlf line := fun i hi => h (i + 1) (Nat.succ_lt_succ hi)
    have hfirst : ¬ crlf <+: ch :: (line ++ crlf) := h 0 (Nat.succ_pos _)
    rcases List.exists_cons_of_ne_nil (show line ++ crlf ≠ [] by simp [crlf]) with
      ⟨next, tail, htail⟩
    rw [htail] at hfirst
    have hno : ¬ (ch = cr ∧ next = lf) := by
      rintro ⟨rfl, rfl⟩
      exact hfirst ⟨tail, rfl⟩
    have hline := ih hrest
    rw [← List.append_assoc, htail, List.cons_append] at hline
    rw [List.cons_append, ← List.append_assoc, htail, List.cons_append, splitLines, if_neg hno,
      hline]

theorem splitLines_single {line : Bytes} (h : ¬ crlf <:+: line) : splitLines line = [line] := by
  induction line with
  | nil => rfl
  | cons ch line ih =>
    have hline := ih fun hin => h (List.infix_cons hin)
    cases line with
    | nil => rfl
    | cons next line =>
      have hno : ¬ (ch = cr ∧ next = lf) := by
        rintro ⟨rfl, rfl⟩
        exact h ⟨[], line, rfl⟩
      rw [splitLines, if_neg hno, hline]

/-- Lines are read back from the text that joins them. -/
theorem splitLines_intercalate {lines : List Bytes} (hne : lines ≠ [])
    (h : ∀ line ∈ lines, cr ∉ line) : splitLines (crlf.intercalate lines) = lines := by
  induction lines with
  | nil => exact absurd rfl hne
  | cons line lines ih =>
    have hline := h line List.mem_cons_self
    rcases eq_or_ne lines [] with rfl | hlines
    · rw [List.intercalate_singleton, splitLines_line hline]
    · rw [List.intercalate_cons_of_ne_nil hlines, List.append_assoc, splitLines_append _ hline,
        ih hlines fun l hl => h l (List.mem_cons_of_mem _ hl)]

/-- A CRLF in front of a line that is not empty begins no CRLFCRLF. -/
theorem leads_crlf {ch : Byte} {text : Bytes} (hch : ch ≠ cr) (h : Leads crlfcrlf (ch :: text)) :
    Leads crlfcrlf (crlf ++ ch :: text) := by
  rintro (_ | _ | i) hi hp
  · simp [crlf, crlfcrlf, hch.symm] at hp
  · simp [crlf, crlfcrlf, cr_ne_lf] at hp
  · exact h i (by simpa [crlf] using hi) hp

/-- The CRLFCRLF behind lines that are not empty is the first one. -/
theorem leads_intercalate {lines : List Bytes} (hne : lines ≠ [])
    (h : ∀ line ∈ lines, line ≠ [] ∧ cr ∉ line) : Leads crlfcrlf (crlf.intercalate lines) := by
  induction lines with
  | nil => exact absurd rfl hne
  | cons line lines ih =>
    have hline := (h line List.mem_cons_self).2
    cases lines with
    | nil =>
      rw [List.intercalate_singleton]
      exact leads_of_not_mem hline
    | cons next lines =>
      have hnext := h next (by simp)
      rcases List.exists_cons_of_ne_nil hnext.1 with ⟨ch, tail, rfl⟩
      have hch : ch ≠ cr := fun hcr => hnext.2 (by simp [hcr])
      have hrest := ih (by simp) fun l hl => h l (List.mem_cons_of_mem _ hl)
      rw [List.intercalate_cons_cons_left] at hrest
      rw [List.intercalate_cons_cons, List.append_assoc, List.intercalate_cons_cons_left]
      exact leads_append hline (leads_crlf hch hrest)

/-- Lines that end with CRLF, and the CRLF of the empty line behind them. -/
theorem flatMap_crlf {lines : List Bytes} (hne : lines ≠ []) :
    lines.flatMap (fun line => line ++ crlf) ++ crlf = crlf.intercalate lines ++ crlfcrlf := by
  induction lines with
  | nil => exact absurd rfl hne
  | cons line lines ih =>
    rcases eq_or_ne lines [] with rfl | hlines
    · simp [crlf, crlfcrlf]
    · rw [List.flatMap_cons, List.append_assoc, ih hlines, List.intercalate_cons_of_ne_nil hlines]
      simp only [List.append_assoc]

end CppRequest
