import Mathlib
import CppRequest.Search

/-!
# Byte strings and the scanning helpers of the library

Every source file carries its own copy of the ASCII helpers below in an unnamed
namespace; the copies are identical, so one definition stands for all of them.
`std::string` and `std::string_view` are lists of bytes, positions are natural
numbers.
-/

namespace CppRequest

abbrev Byte := UInt8
abbrev Bytes := List Byte

/-- The bytes of an ASCII literal. -/
def bytes (s : String) : Bytes := s.toList.map Char.toUInt8

def cr : Byte := 13
def lf : Byte := 10
def sp : Byte := 32
def htab : Byte := 9

def crlf : Bytes := [cr, lf]
def crlfcrlf : Bytes := [cr, lf, cr, lf]

/-- One above the largest `std::size_t`. -/
def sizeBound : ℕ := 2 ^ 64

def asciiLower (ch : Byte) : Byte :=
  if 'A'.toUInt8 ≤ ch ∧ ch ≤ 'Z'.toUInt8 then ch + ('a'.toUInt8 - 'A'.toUInt8) else ch

def asciiIequals (lhs rhs : Bytes) : Bool :=
  lhs.length == rhs.length && (lhs.zip rhs).all fun p => asciiLower p.1 == asciiLower p.2

def isDigit (ch : Byte) : Bool := '0'.toUInt8 ≤ ch && ch ≤ '9'.toUInt8

def isTchar (ch : Byte) : Bool :=
  isDigit ch || ('A'.toUInt8 ≤ ch && ch ≤ 'Z'.toUInt8) || ('a'.toUInt8 ≤ ch && ch ≤ 'z'.toUInt8)
    || (bytes "!#$%&'*+-.^_`|~").contains ch

def isOws (ch : Byte) : Bool := ch == sp || ch == htab

/-- `valid_header_name` of the parser and the serializer, `valid_field_name` of the decoder. -/
def validHeaderName (name : Bytes) : Bool := !name.isEmpty && name.all isTchar

/-- `valid_field_value`, `valid_header_value` and `valid_reason_phrase`. -/
def validFieldValue (value : Bytes) : Bool :=
  value.all fun byte => byte == htab || !(byte < 0x20 || byte == 0x7f)

def trimOws (value : Bytes) : Bytes := (value.dropWhile isOws).rdropWhile isOws

def containsToken (value expected : Bytes) : Bool :=
  (value.splitOn ','.toUInt8).any fun token => asciiIequals (trimOws token) expected

/-- The comparison is made without adding, so that it cannot wrap around. -/
def wouldExceed (current addition limit : ℕ) : Bool :=
  current > limit || addition > limit - current

/-- `s.find(needle, pos)`. -/
def find (s needle : Bytes) (pos : ℕ) : Option ℕ :=
  if pos ≤ s.length then (Search.firstIndex needle (s.drop pos)).map (pos + ·) else none

/-- `s.substr(pos, count)`. -/
abbrev substr (s : Bytes) (pos count : ℕ) : Bytes := (s.drop pos).take count

/-- The value of a digit in a base up to 16. -/
def digitValue (base : ℕ) (ch : Byte) : Option ℕ :=
  let v := if isDigit ch then some (ch - '0'.toUInt8).toNat
    else if 'a'.toUInt8 ≤ ch ∧ ch ≤ 'f'.toUInt8 then some ((ch - 'a'.toUInt8).toNat + 10)
    else if 'A'.toUInt8 ≤ ch ∧ ch ≤ 'F'.toUInt8 then some ((ch - 'A'.toUInt8).toNat + 10)
    else none
  v.filter (· < base)

def ofDigits (base : ℕ) (digits : Bytes) : ℕ :=
  digits.foldl (fun value ch => value * base + (digitValue base ch).getD 0) 0

/-- `std::from_chars` for an unsigned type whose values are below `bound`: the value of the longest
run of digits and the text behind it. -/
def fromChars (base bound : ℕ) (text : Bytes) : Option (ℕ × Bytes) :=
  let digits := text.takeWhile fun ch => (digitValue base ch).isSome
  if digits.isEmpty then none
  else if ofDigits base digits < bound then some (ofDigits base digits, text.drop digits.length)
  else none

def parseContentLength (text : Bytes) : Option ℕ :=
  if text.isEmpty then none
  else match fromChars 10 sizeBound text with
    | some (value, []) => some value
    | _ => none

/-! ## What the helpers decide -/

theorem forall_byte {P : Byte → Prop} (h : ∀ b : BitVec 8, P ⟨b⟩) (ch : Byte) : P ch :=
  h ch.toBitVec

theorem asciiIequals_iff {lhs rhs : Bytes} :
    asciiIequals lhs rhs = true ↔ lhs.map asciiLower = rhs.map asciiLower := by
  induction lhs generalizing rhs with
  | nil => cases rhs <;> simp [asciiIequals]
  | cons a as ih =>
    cases rhs with
    | nil => simp [asciiIequals]
    | cons b bs =>
      have := @ih bs
      simp only [asciiIequals, Bool.and_eq_true, beq_iff_eq] at this
      simp only [asciiIequals, List.length_cons, List.zip_cons_cons, List.all_cons,
        Bool.and_eq_true, beq_iff_eq, Nat.add_right_cancel_iff, List.map_cons, List.cons.injEq,
        ← this]
      tauto

theorem asciiIequals_refl (a : Bytes) : asciiIequals a a = true := asciiIequals_iff.mpr rfl

theorem asciiIequals_comm (a b : Bytes) : asciiIequals a b = asciiIequals b a :=
  Bool.eq_iff_iff.mpr (by rw [asciiIequals_iff, asciiIequals_iff, eq_comm])

theorem asciiIequals_trans {a b c : Bytes} (h : asciiIequals a b = true)
    (h' : asciiIequals b c = true) : asciiIequals a c = true :=
  asciiIequals_iff.mpr ((asciiIequals_iff.mp h).trans (asciiIequals_iff.mp h'))

/-- The test that the comparison stands for. -/
theorem wouldExceed_eq (current addition limit : ℕ) :
    wouldExceed current addition limit = decide (limit < current + addition) := by
  rw [Bool.eq_iff_iff, wouldExceed, Bool.or_eq_true, decide_eq_true_iff, decide_eq_true_iff,
    decide_eq_true_iff]
  omega

theorem wouldExceed_eq_false {current addition limit : ℕ} :
    wouldExceed current addition limit = false ↔ current + addition ≤ limit := by
  rw [wouldExceed_eq, decide_eq_false_iff_not, not_lt]

theorem wouldExceed_eq_true {current addition limit : ℕ} :
    wouldExceed current addition limit = true ↔ limit < current + addition := by
  rw [wouldExceed_eq, decide_eq_true_iff]

theorem cr_ne_lf : cr ≠ lf := by decide

theorem find_eq_some {s needle : Bytes} {pos i : ℕ} (h : find s needle pos = some i) :
    pos ≤ i ∧ i + needle.length ≤ s.length := by
  simp only [find] at h
  split at h
  · next hpos =>
    obtain ⟨j, hj, rfl⟩ := Option.map_eq_some_iff.mp h
    have := Search.firstIndex_le hj
    rw [List.length_drop] at this
    omega
  · cases h

theorem find_leads {needle a : Bytes} (b : Bytes) (h : Search.Leads needle a) :
    find (a ++ (needle ++ b)) needle 0 = some a.length := by
  simp [find, Search.firstIndex_leads b h]

/-- Searching from a position is cutting what lies behind it. -/
theorem cut_drop {s : Bytes} (needle : Bytes) {pos : ℕ} (h : pos ≤ s.length) :
    Search.cut needle (s.drop pos) =
      (find s needle pos).map fun i => (substr s pos (i - pos), s.drop (i + needle.length)) := by
  simp only [Search.cut, find, h, if_true, Option.map_map]
  congr 1
  funext i
  simp [substr, Nat.add_assoc]

theorem cut_eq_find (needle s : Bytes) :
    Search.cut needle s =
      (find s needle 0).map fun i => (s.take i, s.drop (i + needle.length)) := by
  simpa [substr] using cut_drop (s := s) needle (Nat.zero_le _)

/-! ## Reading numerals and values -/

theorem ofDigits_concat (base : ℕ) (digits : Bytes) (d : Byte) :
    ofDigits base (digits ++ [d]) = ofDigits base digits * base + (digitValue base d).getD 0 := by
  simp [ofDigits]

theorem digitValue_lt {base : ℕ} {d : Byte} (h : (digitValue base d).isSome = true) :
    (digitValue base d).getD 0 < base := by
  rcases Option.isSome_iff_exists.mp h with ⟨v, hv⟩
  have hlt := (Option.filter_eq_some_iff.mp hv).2
  rw [hv]
  simpa using hlt

theorem ofDigits_lt {base : ℕ} (digits : Bytes)
    (h : ∀ d ∈ digits, (digitValue base d).isSome = true) :
    ofDigits base digits < base ^ digits.length := by
  induction digits using List.reverseRecOn with
  | nil => simp [ofDigits]
  | append_singleton digits d ih =>
    have hd := digitValue_lt (h d (by simp))
    have hdigits := ih fun d' hd' => h d' (by simp [hd'])
    rw [ofDigits_concat, List.length_append, List.length_singleton, Nat.pow_succ]
    calc ofDigits base digits * base + (digitValue base d).getD 0
        < ofDigits base digits * base + base := by omega
      _ = (ofDigits base digits + 1) * base := by rw [Nat.add_mul, Nat.one_mul]
      _ ≤ base ^ digits.length * base := Nat.mul_le_mul_right _ hdigits

/-- `std::from_chars` reads digits up to the first byte that is none. -/
theorem fromChars_digits {base : ℕ} (bound : ℕ) {digits : Bytes} (rest : Bytes) (hne : digits ≠ [])
    (hdigits : ∀ d ∈ digits, (digitValue base d).isSome = true)
    (hrest : ∀ d ∈ rest.head?, (digitValue base d).isSome = false)
    (hbound : ofDigits base digits < bound) :
    fromChars base bound (digits ++ rest) = some (ofDigits base digits, rest) := by
  have htake : (digits ++ rest).takeWhile (fun ch => (digitValue base ch).isSome) = digits := by
    rw [List.takeWhile_append_of_pos hdigits]
    cases rest with
    | nil => simp
    | cons d rest => simp [hrest d rfl]
  unfold fromChars
  rw [htake]
  simp [hne, hbound]

theorem fromChars_some {base bound value : ℕ} {text rest : Bytes}
    (h : fromChars base bound text = some (value, rest)) :
    ∃ digits : Bytes, digits ≠ [] ∧ (∀ d ∈ digits, (digitValue base d).isSome = true) ∧
      text = digits ++ rest ∧ value = ofDigits base digits ∧ value < bound := by
  unfold fromChars at h
  simp only at h
  split_ifs at h with hempty hbound
  simp only [Option.some.injEq, Prod.mk.injEq] at h
  rcases h with ⟨rfl, rfl⟩
  refine ⟨text.takeWhile fun ch => (digitValue base ch).isSome, by simpa using hempty, ?_, ?_, rfl,
    hbound⟩
  · intro d hd
    exact List.mem_takeWhile_imp (p := fun ch => (digitValue base ch).isSome) hd
  · have hpre := List.takeWhile_prefix (p := fun ch => (digitValue base ch).isSome) (l := text)
    exact (List.prefix_iff_eq_append.mp hpre).symm

theorem rdropWhile_append {l after : Bytes} {p : Byte → Bool} (h : after.all p = true) :
    (l ++ after).rdropWhile p = l.rdropWhile p := by
  unfold List.rdropWhile
  rw [List.reverse_append, List.dropWhile_append_of_pos (by simpa using h)]

/-- Trimming takes blanks away and nothing else. -/
theorem mem_trimOws {value : Bytes} {ch : Byte} (h : ch ∈ value) :
    ch ∈ trimOws value ∨ isOws ch = true := by
  unfold trimOws
  rw [← List.takeWhile_append_dropWhile (p := isOws) (l := value), List.mem_append] at h
  rcases h with h | h
  · exact .inr (List.mem_takeWhile_imp h)
  · rw [← List.mem_reverse, ← List.takeWhile_append_dropWhile (p := isOws)
      (l := (value.dropWhile isOws).reverse), List.mem_append] at h
    rcases h with h | h
    · exact .inr (List.mem_takeWhile_imp h)
    · exact .inl (List.mem_reverse.mpr h)

theorem trimOws_subset (value : Bytes) : trimOws value ⊆ value := fun _ h =>
  (List.dropWhile_suffix isOws).subset ((List.rdropWhile_prefix isOws _).subset h)

theorem trimOws_pad (before value after : Bytes) (hb : before.all isOws = true)
    (ha : after.all isOws = true) : trimOws (before ++ (value ++ after)) = trimOws value := by
  unfold trimOws
  rw [List.dropWhile_append_of_pos (by simpa using hb), List.dropWhile_append]
  split_ifs with hnil
  · rw [List.isEmpty_iff] at hnil
    have hafter : after.dropWhile isOws = [] := by
      rw [List.dropWhile_eq_nil_iff]
      simpa using ha
    rw [hnil, hafter]
  · exact rdropWhile_append ha

theorem isSome_digitValue (d : Byte) : (digitValue 10 d).isSome = isDigit d := by
  revert d
  exact forall_byte (by decide)

/-- A byte of a header name is none of the bytes that end a name or a line. -/
theorem isTchar_ne {ch : Byte} (h : isTchar ch = true) :
    ch ≠ sp ∧ ch ≠ htab ∧ ch ≠ ':'.toUInt8 ∧ ch ≠ cr :=
  forall_byte (P := fun ch => isTchar ch = true →
    ch ≠ sp ∧ ch ≠ htab ∧ ch ≠ ':'.toUInt8 ∧ ch ≠ cr) (by decide) ch h

theorem isOws_ne {ch : Byte} (h : isOws ch = true) : ch ≠ cr :=
  forall_byte (P := fun ch => isOws ch = true → ch ≠ cr) (by decide) ch h

/-- No control byte, a tab apart. -/
def IsTextByte (ch : Byte) : Prop := ch = htab ∨ 0x20 ≤ ch ∧ ch ≠ 0x7f

theorem validFieldValue_iff_text {value : Bytes} :
    validFieldValue value = true ↔ ∀ ch ∈ value, IsTextByte ch := by
  have hbyte : ∀ ch : Byte, (ch == htab || !(ch < 0x20 || ch == 0x7f)) = true ↔
      ch = htab ∨ 0x20 ≤ ch ∧ ch ≠ 0x7f := forall_byte (by decide)
  rw [validFieldValue, List.all_eq_true]
  exact forall₂_congr fun ch _ => hbyte ch

theorem validHeaderName_iff {name : Bytes} :
    validHeaderName name = true ↔ name ≠ [] ∧ ∀ ch ∈ name, isTchar ch = true := by
  rw [validHeaderName, Bool.and_eq_true, List.all_eq_true]
  simp

theorem validFieldValue_ne {value : Bytes} (h : validFieldValue value = true) : cr ∉ value := by
  intro hcr
  have := List.all_eq_true.mp h cr hcr
  simp [cr, htab] at this

end CppRequest
