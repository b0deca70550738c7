import CppRequest.Lines
import CppRequest.ResponseParser

/-!
# The format of a response head

A head as a value: a status line and field lines, each of them well formed by
construction. Its text is read back by `parse_head`, and the CRLFCRLF behind it is
the first one.
-/

namespace CppRequest

open Search

/-! ## Lines -/

/-- A status line. -/
structure StatusLine where
  digits : Bytes
  three : digits.length = 3
  numeric : digits.all isDigit = true
  large : 100 ≤ ofDigits 10 digits
  reason : Option Bytes
  valid : ∀ r ∈ reason, validFieldValue r = true

/-- A field line, with the whitespace around its value. -/
structure FieldLine where
  field : Field
  before : Bytes
  after : Bytes
  name : validHeaderName field.name = true
  value : validFieldValue field.value = true
  trimmed : trimOws field.value = field.value
  blankBefore : before.all isOws = true
  blankAfter : after.all isOws = true

namespace StatusLine

def text (l : StatusLine) : Bytes :=
  versionPrefix ++ (l.digits ++ l.reason.elim [] (sp :: ·))

def code (l : StatusLine) : ℕ := ofDigits 10 l.digits

theorem parse (l : StatusLine) :
    parseStatusLine l.text = .ok (l.code, l.reason.getD []) := by
  have hlen : versionPrefix.length = 9 := rfl
  have hdigits : ∀ d ∈ l.digits, (digitValue 10 d).isSome = true := by
    intro d hd
    rw [isSome_digitValue]
    exact List.all_eq_true.mp l.numeric d hd
  have hlt : ofDigits 10 l.digits < 1000 := by
    have := ofDigits_lt l.digits hdigits
    rwa [l.three] at this
  have hne : l.digits ≠ [] := fun h => by simpa [h] using l.three
  have hchars : fromChars 10 (2 ^ 31) l.digits = some (l.code, []) := by
    have := fromChars_digits (2 ^ 31) [] hne hdigits nofun (by omega)
    rwa [List.append_nil] at this
  have hpre : substr l.text 0 9 = versionPrefix := List.take_left' hlen
  have hcode : substr l.text 9 3 = l.digits := by
    rw [substr, text, List.drop_left' hlen, List.take_left' l.three]
  have hreason : l.text.drop 12 = l.reason.elim [] (sp :: ·) := by
    rw [text, ← List.append_assoc]
    exact List.drop_left' (by rw [List.length_append, hlen, l.three])
  have hlong : ¬ l.text.length < 12 := by
    rw [text, List.length_append, List.length_append, hlen, l.three]
    omega
  have hlarge : ¬ (l.code < 100 ∨ 999 < l.code) := by
    have := l.large
    unfold code
    omega
  unfold parseStatusLine
  simp only [hlen, hpre, hcode, hreason, hchars, l.numeric]
  cases hr : l.reason with
  | none => simpa [hlong] using hlarge
  | some r => simpa [hlong, l.valid r hr] using hlarge

end StatusLine

namespace FieldLine

def text (l : FieldLine) : Bytes :=
  l.field.name ++ (':'.toUInt8 :: (l.before ++ (l.field.value ++ l.after)))

theorem name_all (l : FieldLine) : ∀ ch ∈ l.field.name, isTchar ch = true := by
  have h := l.name
  rw [validHeaderName, Bool.and_eq_true] at h
  exact List.all_eq_true.mp h.2

theorem name_ne_nil (l : FieldLine) : l.field.name ≠ [] := by
  have h := l.name
  rw [validHeaderName, Bool.and_eq_true] at h
  simpa using h.1

theorem parse (l : FieldLine) : parseFieldLine l.text = .ok l.field := by
  have hno : ':'.toUInt8 ∉ l.field.name := fun h => (isTchar_ne (l.name_all _ h)).2.2.1 rfl
  have hcolon : find l.text [':'.toUInt8] 0 = some l.field.name.length :=
    find_leads _ (leads_of_not_mem hno)
  have hvalue : trimOws (l.text.drop (l.field.name.length + 1)) = l.field.value := by
    rw [text, ← List.drop_drop, List.drop_left, List.drop_one, List.tail_cons,
      trimOws_pad _ _ _ l.blankBefore l.blankAfter, l.trimmed]
  rcases List.exists_cons_of_ne_nil l.name_ne_nil with ⟨ch, name, hname⟩
  have hfront := isTchar_ne (l.name_all ch (by simp [hname]))
  have htake : l.text.take l.field.name.length = l.field.name := List.take_left
  have htext : ∃ tail, l.text = ch :: tail := by
    rw [text, hname]
    exact ⟨_, rfl⟩
  rcases htext with ⟨tail, htext⟩
  rw [htext] at hcolon hvalue htake ⊢
  unfold parseFieldLine
  simp only [hcolon, hvalue, htake, l.name, l.value]
  simp [hfront.1, hfront.2.1, l.name_ne_nil]

theorem cr_not_mem (l : FieldLine) : cr ∉ l.text := by
  have hows : ∀ {s : Bytes}, s.all isOws = true → cr ∉ s := fun hs hcr =>
    isOws_ne (List.all_eq_true.mp hs cr hcr) rfl
  rw [text, List.mem_append, List.mem_cons, List.mem_append, List.mem_append]
  rintro (h | h | h | h | h)
  · exact (isTchar_ne (l.name_all cr h)).2.2.2 rfl
  · exact absurd h (by decide)
  · exact hows l.blankBefore h
  · exact validFieldValue_ne l.value h
  · exact hows l.blankAfter h

theorem no_crlf (l : FieldLine) : ¬ crlf <:+: l.text :=
  fun h => l.cr_not_mem (h.subset List.mem_cons_self)

end FieldLine

theorem StatusLine.cr_not_mem (l : StatusLine) : cr ∉ l.text := by
  rw [text, List.mem_append, List.mem_append]
  rintro (h | h | h)
  · exact absurd h (by decide)
  · exact absurd (List.all_eq_true.mp l.numeric cr h) (by decide)
  · cases hr : l.reason with
    | none => simp [hr] at h
    | some r =>
      rw [hr, Option.elim_some, List.mem_cons] at h
      rcases h with h | h
      · exact absurd h (by decide)
      · exact validFieldValue_ne (l.valid r hr) h

theorem StatusLine.no_crlf (l : StatusLine) : ¬ crlf <:+: l.text :=
  fun h => l.cr_not_mem (h.subset List.mem_cons_self)

/-! ## Heads -/

structure HeadText where
  status : StatusLine
  fields : List FieldLine

namespace HeadText

/-- The lines behind the status line, each with the CRLF in front of it. -/
def lines (fields : List FieldLine) : Bytes := fields.flatMap fun l => crlf ++ l.text

/-- The head without its CRLFCRLF. -/
def block (h : HeadText) : Bytes := h.status.text ++ lines h.fields

def parsed (h : HeadText) : ParsedHead :=
  ⟨h.status.code, h.status.reason.getD [], ⟨h.fields.map FieldLine.field⟩⟩

/-- One round over the header lines, with the line cut off. -/
theorem headStep_cut {block : Bytes} {pos : ℕ} (headers : Headers) (hlt : pos < block.length) :
    headStep ⟨block, pos, headers⟩ = match cut crlf (block.drop pos) with
      | none => match parseFieldLine (block.drop pos) with
        | .error e => .inr (.error e)
        | .ok field => .inr (.ok (headers.add field.name field.value))
      | some (line, _) => match parseFieldLine line with
        | .error e => .inr (.error e)
        | .ok field => .inl ⟨block, pos + line.length + 2, headers.add field.name field.value⟩ := by
  rw [cut_drop crlf hlt.le]
  unfold headStep
  simp only [hlt, if_true]
  cases hf : find block crlf pos with
  | none =>
    have htake : (block.drop pos).take (block.length - pos) = block.drop pos :=
      List.take_of_length_le (by simp)
    simp only [Option.getD_none, Option.map_none, substr]
    rewrite [htake]
    rfl
  | some i =>
    have hi := find_eq_some hf
    have hlen : (substr block pos (i - pos)).length = i - pos := by
      have : crlf.length = 2 := rfl
      simp [substr]
      omega
    have hsum : pos + (i - pos) = i := by omega
    simp only [Option.getD_some, Option.map_some, hlen]
    rewrite [hsum]
    rfl

theorem length_lt (done : Bytes) (l : FieldLine) (rest : Bytes) :
    done.length < (done ++ (l.text ++ rest)).length := by
  have hpos : 0 < l.field.name.length := List.length_pos_iff.mpr l.name_ne_nil
  simp only [FieldLine.text, List.length_append]
  omega

theorem headStep_last (done : Bytes) (l : FieldLine) (headers : Headers) :
    headStep ⟨done ++ l.text, done.length, headers⟩ =
      .inr (.ok (headers.add l.field.name l.field.value)) := by
  have hstep := headStep_cut headers (length_lt done l [])
  rw [List.append_nil, List.drop_left, cut_eq_none_iff.mpr l.no_crlf] at hstep
  simpa only [l.parse] using hstep

theorem headStep_next (done : Bytes) (l : FieldLine) (rest : Bytes) (headers : Headers) :
    headStep ⟨done ++ (l.text ++ (crlf ++ rest)), done.length, headers⟩ =
      .inl ⟨done ++ (l.text ++ (crlf ++ rest)), done.length + l.text.length + 2,
        headers.add l.field.name l.field.value⟩ := by
  have hleads : Leads crlf l.text := leads_of_not_mem l.cr_not_mem
  have hstep := headStep_cut headers (length_lt done l (crlf ++ rest))
  rw [List.drop_left, cut_leads rest hleads] at hstep
  simpa only [l.parse] using hstep

theorem headLoop_run (fields : List FieldLine) (l : FieldLine) (done : Bytes) (headers : Headers) :
    headLoop.run ⟨done ++ (l.text ++ lines fields), done.length, headers⟩ =
      .ok ⟨headers.fields ++ (l :: fields).map FieldLine.field⟩ := by
  induction fields generalizing l done headers with
  | nil =>
    have hlast := headStep_last done l headers
    rw [← List.append_nil l.text] at hlast
    exact headLoop.run_of_exit hlast
  | cons l' fields ih =>
    have hlines : lines (l' :: fields) = crlf ++ (l'.text ++ lines fields) := by simp [lines]
    have hnext := ih l' (done ++ (l.text ++ crlf)) (headers.add l.field.name l.field.value)
    have hlen : (done ++ (l.text ++ crlf)).length = done.length + l.text.length + 2 := by
      rw [List.length_append, List.length_append, ← Nat.add_assoc]
      rfl
    rw [hlen, List.append_assoc, List.append_assoc] at hnext
    rw [hlines, headLoop.run_of_next (headStep_next done l _ headers), hnext]
    simp

theorem find_first (h : HeadText) :
    find h.block crlf 0 = if h.fields = [] then none else some h.status.text.length := by
  cases hf : h.fields with
  | nil =>
    have hblock : h.block = h.status.text := by
      rw [block, hf]
      exact List.append_nil _
    rw [if_pos rfl, hblock]
    have hcut := cut_eq_find crlf h.status.text
    rw [cut_eq_none_iff.mpr h.status.no_crlf] at hcut
    exact Option.map_eq_none_iff.mp hcut.symm
  | cons l fields =>
    have hleads : Leads crlf h.status.text := leads_of_not_mem h.status.cr_not_mem
    have hblock : h.block = h.status.text ++ (crlf ++ (l.text ++ lines fields)) := by
      simp [block, hf, lines]
    rw [if_neg (List.cons_ne_nil l fields), hblock]
    exact find_leads _ hleads

/-- The text of a head is read back. -/
theorem parse (h : HeadText) : parseHead h.block = .ok h.parsed := by
  unfold parseHead
  rw [h.find_first]
  cases hf : h.fields with
  | nil =>
    have hblock : h.block = h.status.text := by
      rw [block, hf]
      exact List.append_nil _
    simp [hblock, h.status.parse, parsed, hf]
  | cons l fields =>
    have hblock : h.block = h.status.text ++ (crlf ++ (l.text ++ lines fields)) := by
      simp [block, hf, lines]
    have hloop := headLoop_run fields l (h.status.text ++ crlf) {}
    have hlen : (h.status.text ++ crlf).length = h.status.text.length + 2 := List.length_append
    have hfirst : substr h.block 0 h.status.text.length = h.status.text := by
      rw [hblock]
      exact List.take_left
    rw [hlen, List.append_assoc, ← hblock] at hloop
    simp only [reduceCtorEq, if_false, Option.elim_some, hfirst, h.status.parse, hloop]
    simp [parsed, hf]

theorem leads_lines (text : Bytes) (fields : List FieldLine) (h : cr ∉ text) :
    Leads crlfcrlf (text ++ lines fields) := by
  induction fields generalizing text with
  | nil => exact leads_append h fun i hi => absurd hi (Nat.not_lt_zero i)
  | cons l fields ih =>
    have hlines : lines (l :: fields) = crlf ++ (l.text ++ lines fields) := by simp [lines]
    have htext := ih l.text l.cr_not_mem
    rcases List.exists_cons_of_ne_nil l.name_ne_nil with ⟨ch, name, hname⟩
    have hch := (isTchar_ne (l.name_all ch (by simp [hname]))).2.2.2
    have hcons : ∃ tail, l.text ++ lines fields = ch :: tail := by
      rw [FieldLine.text, hname]
      exact ⟨_, rfl⟩
    rcases hcons with ⟨tail, hcons⟩
    rw [hcons] at htext
    rw [hlines, hcons]
    exact leads_append h (leads_crlf hch htext)

/-- The CRLFCRLF behind a head is the first one. -/
theorem leads (h : HeadText) : Leads crlfcrlf h.block :=
  leads_lines h.status.text h.fields h.status.cr_not_mem

end HeadText

end CppRequest
