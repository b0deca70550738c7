import CppRequest.ChunkedFormat
import CppRequest.HeadFormat

/-!
# The text of a size line

A size line as a value: hexadecimal digits in any letter case and with any number of
leading zeros, whitespace and extensions. It is read back by `parse_chunk_size`, and
it contains no line end.
-/

namespace CppRequest

open Search

/-! ## Extensions contain no line end -/

theorem cr_mem_dropWhile {p : Byte → Bool} (hp : p cr = false) {text : Bytes} (h : cr ∈ text) :
    cr ∈ text.dropWhile p := by
  rw [← List.takeWhile_append_dropWhile (p := p) (l := text), List.mem_append] at h
  refine h.resolve_left fun htake => ?_
  have := List.mem_takeWhile_imp htake
  rw [hp] at this
  cases this

theorem parseToken_cr {text rest : Bytes} (h : parseToken text = some rest) (hcr : cr ∈ text) :
    cr ∈ rest := by
  unfold parseToken at h
  split_ifs at h
  cases h
  exact cr_mem_dropWhile (by decide) hcr

theorem parseQuotedRest_cr {text rest : Bytes} (h : parseQuotedRest text = some rest)
    (hcr : cr ∈ text) : cr ∈ rest := by
  have hquote : cr ≠ dquote := by decide
  have hslash : cr ≠ backslash := by decide
  have hpair : isQuotedPairChar cr = false := by decide
  have hplain : isQdtext cr = false := by decide
  induction hn : text.length using Nat.strongRecOn generalizing text with
  | _ n ih =>
    cases text with
    | nil => cases hcr
    | cons ch text =>
      unfold parseQuotedRest at h
      rw [List.mem_cons] at hcr
      by_cases hq : ch = dquote
      · rw [hq, if_pos (beq_self_eq_true _)] at h
        cases h
        exact hcr.resolve_left fun heq => hquote (heq.trans hq)
      · rw [if_neg (by simpa using hq)] at h
        by_cases hs : ch = backslash
        · rw [hs, if_pos (beq_self_eq_true _)] at h
          have hmem := hcr.resolve_left fun heq => hslash (heq.trans hs)
          cases text with
          | nil => cases h
          | cons escaped text =>
            simp only at h
            split_ifs at h with hescaped
            refine ih _ ?_ h ((List.mem_cons.mp hmem).resolve_left fun heq => ?_) rfl
            · rw [← hn, List.length_cons, List.length_cons]
              omega
            · rw [← heq, hpair] at hescaped
              cases hescaped
        · rw [if_neg (by simpa using hs)] at h
          split_ifs at h with hqd
          refine ih _ ?_ h (hcr.resolve_left fun heq => ?_) rfl
          · rw [← hn, List.length_cons]
            omega
          · rw [← heq, hplain] at hqd
            cases hqd

theorem parseExtensionValue_cr {text rest : Bytes} (h : parseExtensionValue text = some rest)
    (hcr : cr ∈ text) : cr ∈ rest := by
  cases text with
  | nil => cases hcr
  | cons ch text =>
    unfold parseExtensionValue at h
    simp only at h
    split_ifs at h with heq
    · have hmem : cr ∈ skipOws text := by
        refine cr_mem_dropWhile (by decide) ((List.mem_cons.mp hcr).resolve_left fun hch => ?_)
        rw [← hch] at heq
        exact absurd heq (by decide)
      split at h
      · cases h
      · next first tail htail =>
        rcases Option.map_eq_some_iff.mp h with ⟨mid, hmid, rfl⟩
        refine cr_mem_dropWhile (by decide) ?_
        rw [htail] at hmem
        split_ifs at hmid with hq
        · rw [parseQuotedString, if_pos hq] at hmid
          refine parseQuotedRest_cr hmid ((List.mem_cons.mp hmem).resolve_left fun hch => ?_)
          rw [← hch] at hq
          exact absurd hq (by decide)
        · exact parseToken_cr hmid hmem
    · cases h
      exact hcr

theorem chunkExtensionStep_cr {text : Bytes} (hcr : cr ∈ text) :
    chunkExtensionStep text = .inr false ∨ ∃ rest, chunkExtensionStep text = .inl rest ∧ cr ∈ rest := by
  unfold chunkExtensionStep
  cases htoken : parseToken (skipOws text) with
  | none => exact .inl rfl
  | some rest =>
    have hrest := parseToken_cr htoken (cr_mem_dropWhile (by decide) hcr)
    cases hvalue : parseExtensionValue (skipOws rest) with
    | none => exact .inl (by simp only [hvalue])
    | some behind =>
      have hbehind := parseExtensionValue_cr hvalue (cr_mem_dropWhile (by decide) hrest)
      cases behind with
      | nil => cases hbehind
      | cons ch behind =>
        simp only [hvalue]
        by_cases hch : ch = ';'.toUInt8
        · rw [hch, List.mem_cons] at hbehind
          have hmem : cr ∈ behind := hbehind.resolve_left (by decide)
          refine .inr ⟨behind, ?_, hmem⟩
          rw [hch, if_neg (by decide), if_neg]
          rw [List.isEmpty_iff]
          rintro rfl
          cases hmem
        · rw [if_pos (by simpa using hch)]
          exact .inl rfl

/-- No extension that is accepted contains a CR. -/
theorem validChunkExtensions_ne {extension : Bytes} (h : validChunkExtensions extension = true) :
    cr ∉ extension := by
  intro hcr
  unfold validChunkExtensions at h
  split_ifs at h
  have hfalse : chunkExtensionLoop.run extension = false := by
    refine chunkExtensionLoop.run_post (I := fun text => cr ∈ text) (Q := fun r => r = false)
      ?_ ?_ hcr
    · intro text text' hmem hstep
      rcases chunkExtensionStep_cr hmem with hexit | ⟨rest, hnext, hrest⟩
      · exact absurd (hexit.symm.trans hstep) Sum.inr_ne_inl
      · cases Sum.inl.inj (hnext.symm.trans hstep)
        exact hrest
    · intro text r hmem hstep
      rcases chunkExtensionStep_cr hmem with hexit | ⟨rest, hnext, -⟩
      · exact (Sum.inr.inj (hexit.symm.trans hstep)).symm
      · exact absurd (hnext.symm.trans hstep) Sum.inl_ne_inr
  rw [hfalse] at h
  cases h

/-! ## Size lines -/

structure SizeText (size : ℕ) where
  digits : Bytes
  nonempty : digits ≠ []
  hexadecimal : ∀ d ∈ digits, (digitValue 16 d).isSome = true
  value : ofDigits 16 digits = size
  blank : Bytes
  blanks : blank.all isOws = true
  extension : Option Bytes
  valid : ∀ e ∈ extension, validChunkExtensions e = true

/-- A hexadecimal digit is none of the bytes that end a size. -/
theorem digitValue_ne {ch : Byte} (h : (digitValue 16 ch).isSome = true) :
    ch ≠ ';'.toUInt8 ∧ ch ≠ cr ∧ isOws ch = false :=
  forall_byte (P := fun ch => (digitValue 16 ch).isSome = true →
    ch ≠ ';'.toUInt8 ∧ ch ≠ cr ∧ isOws ch = false) (by decide) ch h

theorem isOws_ne_semicolon {ch : Byte} (h : isOws ch = true) : ch ≠ ';'.toUInt8 :=
  forall_byte (P := fun ch => isOws ch = true → ch ≠ ';'.toUInt8) (by decide) ch h

namespace SizeText

variable {size : ℕ} (t : SizeText size)

def line : Bytes := t.digits ++ (t.blank ++ t.extension.elim [] (';'.toUInt8 :: ·))

theorem semicolon_not_mem : ';'.toUInt8 ∉ t.digits ++ t.blank := by
  rw [List.mem_append]
  rintro (h | h)
  · exact (digitValue_ne (t.hexadecimal _ h)).1 rfl
  · exact isOws_ne_semicolon (List.all_eq_true.mp t.blanks _ h) rfl

theorem cr_not_mem : cr ∉ t.line := by
  rw [line, List.mem_append, List.mem_append]
  rintro (h | h | h)
  · exact (digitValue_ne (t.hexadecimal _ h)).2.1 rfl
  · exact isOws_ne (List.all_eq_true.mp t.blanks _ h) rfl
  · cases he : t.extension with
    | none => simp [he] at h
    | some e =>
      rw [he, Option.elim_some, List.mem_cons] at h
      rcases h with h | h
      · exact absurd h (by decide)
      · exact validChunkExtensions_ne (t.valid e he) h

/-- Trimming the whitespace leaves the digits. -/
theorem rdropWhile_blank : (t.digits ++ t.blank).rdropWhile isOws = t.digits := by
  rw [rdropWhile_append t.blanks, List.rdropWhile_eq_self_iff]
  intro hne
  exact Bool.eq_false_iff.mp (digitValue_ne (t.hexadecimal _ (List.getLast_mem hne))).2.2

theorem parse (hsize : size < sizeBound) : parseChunkSize t.line = .ok size := by
  have hchars : fromChars 16 sizeBound t.digits = some (size, []) := by
    have := fromChars_digits sizeBound [] t.nonempty t.hexadecimal nofun
      (t.value.trans_lt hsize)
    rwa [List.append_nil, t.value] at this
  have hdigits : t.digits.isEmpty = false := by simpa using t.nonempty
  unfold parseChunkSize
  cases he : t.extension with
  | none =>
    have hline : t.line = t.digits ++ t.blank := by simp [line, he]
    have hfind : find t.line [';'.toUInt8] 0 = none := by
      have hcut := cut_eq_find [';'.toUInt8] t.line
      have hno : ¬ [';'.toUInt8] <:+: t.line := by
        intro h
        rw [hline] at h
        exact t.semicolon_not_mem (h.subset List.mem_cons_self)
      rw [cut_eq_none_iff.mpr hno] at hcut
      exact Option.map_eq_none_iff.mp hcut.symm
    have hsizeText : t.line.rdropWhile isOws = t.digits := by rw [hline, t.rdropWhile_blank]
    simp only [hfind, Option.elim_none, hsizeText, hdigits, hchars]
    rfl
  | some e =>
    have hline : t.line = (t.digits ++ t.blank) ++ ([';'.toUInt8] ++ e) := by simp [line, he]
    have hleads : Leads [';'.toUInt8] (t.digits ++ t.blank) :=
      leads_singleton.mpr t.semicolon_not_mem
    have hfind : find t.line [';'.toUInt8] 0 = some (t.digits ++ t.blank).length := by
      rw [hline]
      exact find_leads _ hleads
    have htake : t.line.take (t.digits ++ t.blank).length = t.digits ++ t.blank := by
      rw [hline, List.take_left]
    have hdrop : t.line.drop ((t.digits ++ t.blank).length + 1) = e := by
      rw [hline, ← List.drop_drop, List.drop_left]
      rfl
    simp only [hfind, Option.elim_some, htake, t.rdropWhile_blank, hdigits, Option.any_some, hdrop,
      t.valid e he, hchars]
    rfl

def toSizeLine (hsize : size < sizeBound) : SizeLine size where
  line := t.line
  noCrlf h := t.cr_not_mem (h.subset List.mem_cons_self)
  accepted := t.parse hsize

end SizeText

end CppRequest
