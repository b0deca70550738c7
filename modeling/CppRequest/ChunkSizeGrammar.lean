import CppRequest.SizeText
import CppRequest.Url

/-!
# The grammar of size lines

Tokens, quoted strings and extensions as a grammar, with no scanner in it. The scanner of
`parse_chunk_size` accepts the lines of this grammar, with the value of the digits.
-/

namespace CppRequest

open Search

/-! ## The grammar -/

def Blank (text : Bytes) : Prop := ∀ ch ∈ text, isOws ch = true

def IsToken (text : Bytes) : Prop := text ≠ [] ∧ ∀ ch ∈ text, isTchar ch = true

/-- What stands between two quotes. A backslash takes any text byte with it. -/
inductive QuotedBody : Bytes → Prop
  | nil : QuotedBody []
  | plain {ch : Byte} {text : Bytes} (hch : IsTextByte ch) (hquote : ch ≠ dquote)
      (hslash : ch ≠ backslash) (h : QuotedBody text) : QuotedBody (ch :: text)
  | escaped {ch : Byte} {text : Bytes} (hch : IsTextByte ch) (h : QuotedBody text) :
      QuotedBody (backslash :: ch :: text)

def IsQuotedString (text : Bytes) : Prop :=
  ∃ body, QuotedBody body ∧ text = dquote :: (body ++ [dquote])

inductive IsExtension : Bytes → Prop
  | name {before token after : Bytes} (hbefore : Blank before) (htoken : IsToken token)
      (hafter : Blank after) : IsExtension (before ++ (token ++ after))
  | value {before token after before' value after' : Bytes} (hbefore : Blank before)
      (htoken : IsToken token) (hafter : Blank after) (hbefore' : Blank before')
      (hvalue : IsToken value ∨ IsQuotedString value) (hafter' : Blank after') :
      IsExtension (before ++ (token ++ (after ++ '='.toUInt8 :: (before' ++ (value ++ after')))))

inductive IsExtensions : Bytes → Prop
  | last {e : Bytes} (h : IsExtension e) : IsExtensions e
  | more {e rest : Bytes} (h : IsExtension e) (hrest : IsExtensions rest) :
      IsExtensions (e ++ ';'.toUInt8 :: rest)

/-- A size line: digits of a value, blanks and, behind a semicolon, extensions. -/
structure IsSizeLine (line : Bytes) (value : ℕ) : Prop where
  text : ∃ digits blank extension : Bytes, digits ≠ [] ∧ (∀ d ∈ digits, isHexDigit d = true) ∧
    ofDigits 16 digits = value ∧ Blank blank ∧ line = digits ++ (blank ++ extension) ∧
    (extension = [] ∨ ∃ e, extension = ';'.toUInt8 :: e ∧ IsExtensions e)
  bound : value < 2 ^ 64

/-! ## Blanks and tokens -/

theorem dropWhile_span {p : Byte → Bool} {a b : Bytes} (ha : ∀ ch ∈ a, p ch = true)
    (hb : ∀ ch, b.head? = some ch → p ch = false) : (a ++ b).dropWhile p = b := by
  rw [List.dropWhile_append_of_pos ha]
  cases b with
  | nil => rfl
  | cons ch b => exact List.dropWhile_cons_of_neg (by rw [hb ch rfl]; exact Bool.false_ne_true)

/-- A text that begins in one way and then goes on. -/
theorem head?_append_cases {a b : Bytes} {p : Byte → Prop} (ha : ∀ ch ∈ a, p ch)
    (hb : ∀ ch, b.head? = some ch → p ch) (ch : Byte) (h : (a ++ b).head? = some ch) : p ch := by
  cases a with
  | nil => exact hb ch h
  | cons ch' a =>
    cases h
    exact ha ch List.mem_cons_self

theorem skipOws_complete {blank rest : Bytes} (hblank : Blank blank)
    (hrest : ∀ ch, rest.head? = some ch → isOws ch = false) : skipOws (blank ++ rest) = rest :=
  dropWhile_span hblank hrest

theorem exists_blank (text : Bytes) : ∃ blank, Blank blank ∧ text = blank ++ skipOws text :=
  ⟨text.takeWhile isOws, fun _ hch => List.mem_takeWhile_imp hch,
    (List.takeWhile_append_dropWhile).symm⟩

theorem parseToken_complete {token rest : Bytes} (htoken : IsToken token)
    (hrest : ∀ ch, rest.head? = some ch → isTchar ch = false) :
    parseToken (token ++ rest) = some rest := by
  have hne : ¬ ((token ++ rest).takeWhile isTchar).isEmpty = true := by
    rw [List.takeWhile_append_of_pos htoken.2, List.isEmpty_iff]
    exact fun hnil => htoken.1 (List.append_eq_nil_iff.mp hnil).1
  unfold parseToken
  rw [if_neg hne, dropWhile_span htoken.2 hrest]

theorem parseToken_sound {text rest : Bytes} (h : parseToken text = some rest) :
    ∃ token, IsToken token ∧ text = token ++ rest := by
  unfold parseToken at h
  split_ifs at h with hempty
  cases h
  refine ⟨text.takeWhile isTchar, ⟨fun hnil => hempty (List.isEmpty_iff.mpr hnil),
    fun _ hch => List.mem_takeWhile_imp hch⟩, List.takeWhile_append_dropWhile.symm⟩

/-- A token does not begin with a blank or a quote. -/
theorem isTchar_first {ch : Byte} (h : isTchar ch = true) :
    isOws ch = false ∧ (ch == dquote) = false := by
  have hbyte : ∀ b : Byte, isTchar b = true → isOws b = false ∧ (b == dquote) = false :=
    forall_byte (by decide)
  exact hbyte ch h

theorem isOws_not_tchar {ch : Byte} (h : isOws ch = true) : isTchar ch = false := by
  have hbyte : ∀ b : Byte, isOws b = true → isTchar b = false := forall_byte (by decide)
  exact hbyte ch h

theorem IsToken.head {token rest : Bytes} (h : IsToken token) (ch : Byte)
    (hch : (token ++ rest).head? = some ch) : isTchar ch = true := by
  rw [List.head?_append_of_ne_nil _ h.1] at hch
  exact h.2 ch (List.mem_of_mem_head? hch)

/-! ## Quoted strings -/

theorem isQuotedPairChar_iff (ch : Byte) : isQuotedPairChar ch = true ↔ IsTextByte ch := by
  unfold IsTextByte
  revert ch
  exact forall_byte (by decide)

theorem isQdtext_iff (ch : Byte) :
    isQdtext ch = true ↔ IsTextByte ch ∧ ch ≠ dquote ∧ ch ≠ backslash := by
  unfold IsTextByte
  revert ch
  exact forall_byte (by decide)

theorem parseQuotedRest_quote (text : Bytes) : parseQuotedRest (dquote :: text) = some text := by
  rw [parseQuotedRest.eq_def]
  exact if_pos rfl

theorem parseQuotedRest_escaped (ch : Byte) (text : Bytes) :
    parseQuotedRest (backslash :: ch :: text) =
      if isQuotedPairChar ch = true then parseQuotedRest text else none := by
  rw [parseQuotedRest.eq_def]
  exact (if_neg (by decide)).trans (if_pos rfl)

theorem parseQuotedRest_plain {ch : Byte} (text : Bytes) (hquote : ch ≠ dquote)
    (hslash : ch ≠ backslash) : parseQuotedRest (ch :: text) =
      if isQdtext ch = true then parseQuotedRest text else none := by
  rw [parseQuotedRest.eq_def]
  exact (if_neg (by simpa using hquote)).trans (if_neg (by simpa using hslash))

theorem parseQuotedRest_complete {body : Bytes} (h : QuotedBody body) (rest : Bytes) :
    parseQuotedRest (body ++ dquote :: rest) = some rest := by
  induction h with
  | nil => exact parseQuotedRest_quote rest
  | plain hch hquote hslash _ ih =>
    rw [List.cons_append, parseQuotedRest_plain _ hquote hslash,
      if_pos ((isQdtext_iff _).mpr ⟨hch, hquote, hslash⟩)]
    exact ih
  | escaped hch _ ih =>
    rw [List.cons_append, List.cons_append, parseQuotedRest_escaped,
      if_pos ((isQuotedPairChar_iff _).mpr hch)]
    exact ih

theorem parseQuotedRest_sound {text rest : Bytes} (h : parseQuotedRest text = some rest) :
    ∃ body, QuotedBody body ∧ text = body ++ dquote :: rest := by
  induction hn : text.length using Nat.strongRecOn generalizing text with
  | _ n ih =>
    cases text with
    | nil =>
      rw [parseQuotedRest.eq_def] at h
      cases h
    | cons ch text =>
      rw [List.length_cons] at hn
      by_cases hquote : ch = dquote
      · subst hquote
        rw [parseQuotedRest_quote] at h
        cases h
        exact ⟨[], .nil, rfl⟩
      by_cases hslash : ch = backslash
      · subst hslash
        cases text with
        | nil =>
          rw [parseQuotedRest.eq_def] at h
          cases h
        | cons escaped text =>
          rw [List.length_cons] at hn
          rw [parseQuotedRest_escaped] at h
          split_ifs at h with hescaped
          obtain ⟨body, hbody, rfl⟩ := ih text.length (by omega) h rfl
          exact ⟨backslash :: escaped :: body,
            .escaped ((isQuotedPairChar_iff _).mp hescaped) hbody, rfl⟩
      rw [parseQuotedRest_plain _ hquote hslash] at h
      split_ifs at h with hqdtext
      obtain ⟨body, hbody, rfl⟩ := ih text.length (by omega) h rfl
      exact ⟨ch :: body, .plain ((isQdtext_iff ch).mp hqdtext).1 hquote hslash hbody, rfl⟩

theorem parseQuotedString_complete {text : Bytes} (h : IsQuotedString text) (rest : Bytes) :
    (text ++ rest).head? = some dquote ∧ parseQuotedString (text ++ rest) = some rest := by
  obtain ⟨body, hbody, rfl⟩ := h
  rw [List.cons_append, List.append_assoc]
  refine ⟨rfl, ?_⟩
  unfold parseQuotedString
  exact (if_pos rfl).trans (parseQuotedRest_complete hbody rest)

theorem parseQuotedString_sound {text rest : Bytes} (h : parseQuotedString text = some rest) :
    ∃ s, IsQuotedString s ∧ text = s ++ rest := by
  cases text with
  | nil => cases h
  | cons ch text =>
    unfold parseQuotedString at h
    simp only at h
    split_ifs at h with hquote
    obtain ⟨body, hbody, rfl⟩ := parseQuotedRest_sound h
    refine ⟨dquote :: (body ++ [dquote]), ⟨body, hbody, rfl⟩, ?_⟩
    rw [eq_of_beq hquote, List.cons_append, List.append_assoc]
    rfl

/-! ## Extensions -/

/-- An extension is followed by a semicolon or by nothing. -/
def AtSemicolon (rest : Bytes) : Prop := ∀ ch, rest.head? = some ch → ch = ';'.toUInt8

theorem AtSemicolon.first {rest : Bytes} (h : AtSemicolon rest) {p : Byte → Bool} (hp : p ';'.toUInt8 = false)
    (ch : Byte) (hch : rest.head? = some ch) : p ch = false := by
  rw [h ch hch]
  exact hp

/-- Behind a blank a token cannot go on. -/
theorem AtSemicolon.blank {rest blank : Bytes} (h : AtSemicolon rest) (hblank : Blank blank) (ch : Byte)
    (hch : (blank ++ rest).head? = some ch) : isTchar ch = false :=
  head?_append_cases (fun _ hb => isOws_not_tchar (hblank _ hb))
    (fun _ hb => h.first (by decide) _ hb) ch hch

theorem parseExtensionValue_none {rest : Bytes} (h : AtSemicolon rest) :
    parseExtensionValue rest = some rest := by
  cases rest with
  | nil => rfl
  | cons ch rest =>
    rw [h ch rfl]
    rfl

theorem parseExtensionValue_complete {before value after rest : Bytes} (hbefore : Blank before)
    (hvalue : IsToken value ∨ IsQuotedString value) (hafter : Blank after)
    (hrest : AtSemicolon rest) :
    parseExtensionValue ('='.toUInt8 :: (before ++ (value ++ (after ++ rest)))) = some rest := by
  have hskip : skipOws (after ++ rest) = rest :=
    skipOws_complete hafter (hrest.first (by decide))
  rcases hvalue with htoken | hquoted
  · have hread := parseToken_complete htoken (hrest.blank hafter)
    have hfirst : ∀ ch, (value ++ (after ++ rest)).head? = some ch → isTchar ch = true :=
      htoken.head
    have hows : skipOws (before ++ (value ++ (after ++ rest))) = value ++ (after ++ rest) :=
      skipOws_complete hbefore fun ch hch => (isTchar_first (hfirst ch hch)).1
    unfold parseExtensionValue
    simp only [beq_self_eq_true, if_true, hows]
    cases htext : value ++ (after ++ rest) with
    | nil => exact absurd (List.append_eq_nil_iff.mp htext).1 htoken.1
    | cons first text =>
      rw [htext] at hread hfirst
      simp only [(isTchar_first (hfirst first rfl)).2, Bool.false_eq_true, if_false, hread,
        Option.map_some, hskip]
  · obtain ⟨hfirst, hread⟩ := parseQuotedString_complete hquoted (after ++ rest)
    have hows : skipOws (before ++ (value ++ (after ++ rest))) = value ++ (after ++ rest) := by
      refine skipOws_complete hbefore fun ch hch => ?_
      rw [hfirst] at hch
      cases hch
      decide
    unfold parseExtensionValue
    simp only [beq_self_eq_true, if_true, hows]
    cases htext : value ++ (after ++ rest) with
    | nil =>
      rw [htext] at hfirst
      cases hfirst
    | cons first text =>
      rw [htext] at hread hfirst
      cases hfirst
      simp only [beq_self_eq_true, if_true, hread, Option.map_some, hskip]

theorem parseExtensionValue_sound {text rest : Bytes} (h : parseExtensionValue text = some rest) :
    text = rest ∨ ∃ before value after, Blank before ∧ (IsToken value ∨ IsQuotedString value) ∧
      Blank after ∧ text = '='.toUInt8 :: (before ++ (value ++ (after ++ rest))) := by
  cases text with
  | nil =>
    cases h
    exact .inl rfl
  | cons ch text =>
    unfold parseExtensionValue at h
    simp only at h
    split_ifs at h with hequals
    · obtain ⟨before, hbefore, htext⟩ := exists_blank text
      cases hskip : skipOws text with
      | nil =>
        rw [hskip] at h
        cases h
      | cons first behind =>
        rw [hskip] at h htext
        obtain ⟨mid, hmid, rfl⟩ := Option.map_eq_some_iff.mp h
        have hvalue : ∃ value, (IsToken value ∨ IsQuotedString value) ∧
            first :: behind = value ++ mid := by
          split_ifs at hmid with hquote
          · obtain ⟨value, hvalue, heq⟩ := parseQuotedString_sound hmid
            exact ⟨value, .inr hvalue, heq⟩
          · obtain ⟨value, hvalue, heq⟩ := parseToken_sound hmid
            exact ⟨value, .inl hvalue, heq⟩
        obtain ⟨value, hvalue, heq⟩ := hvalue
        obtain ⟨after, hafter, hmid'⟩ := exists_blank mid
        refine .inr ⟨before, value, after, hbefore, hvalue, hafter, ?_⟩
        rw [eq_of_beq hequals, ← hmid', ← heq, ← htext]
    · cases h
      exact .inl rfl

/-- The scanner reads an extension and stops behind it. -/
theorem extension_complete {e rest : Bytes} (h : IsExtension e) (hrest : AtSemicolon rest) :
    ∃ text, parseToken (skipOws (e ++ rest)) = some text ∧
      parseExtensionValue (skipOws text) = some rest := by
  cases h with
  | @name before token after hbefore htoken hafter =>
    refine ⟨after ++ rest, ?_, ?_⟩
    · rw [List.append_assoc, List.append_assoc, skipOws_complete hbefore fun ch hch =>
        (isTchar_first (htoken.head ch hch)).1]
      exact parseToken_complete htoken (hrest.blank hafter)
    · rw [skipOws_complete hafter (hrest.first (by decide))]
      exact parseExtensionValue_none hrest
  | @value before token after before' value after' hbefore htoken hafter hbefore' hvalue hafter' =>
    have hequals : ∀ (text : Bytes) (p : Byte → Bool), p '='.toUInt8 = false →
        ∀ ch, ('='.toUInt8 :: text).head? = some ch → p ch = false := by
      intro text p hp ch hch
      cases hch
      exact hp
    refine ⟨after ++ '='.toUInt8 :: (before' ++ (value ++ (after' ++ rest))), ?_, ?_⟩
    · have htext : before ++ (token ++ (after ++ '='.toUInt8 :: (before' ++ (value ++ after')))) ++
          rest = before ++ (token ++ (after ++ '='.toUInt8 ::
            (before' ++ (value ++ (after' ++ rest))))) := by simp
      rw [htext, skipOws_complete hbefore fun ch hch => (isTchar_first (htoken.head ch hch)).1]
      refine parseToken_complete htoken fun ch hch => ?_
      exact head?_append_cases (fun _ hb => isOws_not_tchar (hafter _ hb))
        (hequals _ isTchar (by decide)) ch hch
    · rw [skipOws_complete hafter (hequals _ isOws (by decide))]
      exact parseExtensionValue_complete hbefore' hvalue hafter' hrest

theorem extension_sound {text behind rest : Bytes} (htoken : parseToken (skipOws text) = some behind)
    (hvalue : parseExtensionValue (skipOws behind) = some rest) :
    ∃ e, IsExtension e ∧ text = e ++ rest := by
  obtain ⟨before, hbefore, htext⟩ := exists_blank text
  obtain ⟨token, hread, heq⟩ := parseToken_sound htoken
  obtain ⟨after, hafter, hbehind⟩ := exists_blank behind
  rcases parseExtensionValue_sound hvalue with hnone | ⟨before', value, after', hbefore', hkind,
    hafter', hsome⟩
  · refine ⟨before ++ (token ++ after), .name hbefore hread hafter, ?_⟩
    rw [htext, heq, hbehind, hnone]
    simp
  · refine ⟨_, .value hbefore hread hafter hbefore' hkind hafter', ?_⟩
    rw [htext, heq, hbehind, hsome]
    simp

theorem chunkExtensionStep_last {e : Bytes} (h : IsExtension e) :
    chunkExtensionStep e = .inr true := by
  have hends : AtSemicolon [] := nofun
  obtain ⟨text, htoken, hvalue⟩ := extension_complete h hends
  rw [List.append_nil] at htoken
  unfold chunkExtensionStep
  simp only [htoken, hvalue]

theorem chunkExtensionStep_more {e rest : Bytes} (h : IsExtension e) (hne : rest ≠ []) :
    chunkExtensionStep (e ++ ';'.toUInt8 :: rest) = .inl rest := by
  have hends : AtSemicolon (';'.toUInt8 :: rest) := by
    intro ch hch
    cases hch
    rfl
  obtain ⟨text, htoken, hvalue⟩ := extension_complete h hends
  have hempty : ¬ rest.isEmpty = true := by simpa using hne
  unfold chunkExtensionStep
  simp only [htoken, hvalue, bne_self_eq_false, Bool.false_eq_true, if_false, hempty]

/-- What one round of the scanner has read. -/
theorem chunkExtensionStep_sound (text : Bytes) :
    chunkExtensionStep text = .inr false ∨
    (chunkExtensionStep text = .inr true ∧ IsExtension text) ∨
    ∃ e rest, chunkExtensionStep text = .inl rest ∧ IsExtension e ∧
      text = e ++ ';'.toUInt8 :: rest := by
  unfold chunkExtensionStep
  cases htoken : parseToken (skipOws text) with
  | none => exact .inl rfl
  | some behind =>
    dsimp only
    cases hvalue : parseExtensionValue (skipOws behind) with
    | none => exact .inl rfl
    | some rest =>
      obtain ⟨e, he, htext⟩ := extension_sound htoken hvalue
      cases rest with
      | nil =>
        rw [List.append_nil] at htext
        subst htext
        exact .inr (.inl ⟨rfl, he⟩)
      | cons ch rest =>
        dsimp only
        split_ifs with hch hempty
        · exact .inl rfl
        · exact .inl rfl
        · rw [bne_iff_ne, ne_eq, not_not] at hch
          subst hch
          exact .inr (.inr ⟨e, rest, rfl, he, htext⟩)

theorem IsExtensions.ne_nil {text : Bytes} (h : IsExtensions text) : text ≠ [] := by
  have hextension : ∀ {e : Bytes}, IsExtension e → e ≠ [] := by
    rintro e (⟨-, htoken, -⟩ | ⟨-, htoken, -, -, -, -⟩) hnil
    · exact htoken.1 (List.append_eq_nil_iff.mp (List.append_eq_nil_iff.mp hnil).2).1
    · exact htoken.1 (List.append_eq_nil_iff.mp (List.append_eq_nil_iff.mp hnil).2).1
  cases h with
  | last h => exact hextension h
  | more h _ => exact fun hnil => hextension h (List.append_eq_nil_iff.mp hnil).1

theorem validChunkExtensions_iff {text : Bytes} :
    validChunkExtensions text = true ↔ IsExtensions text := by
  constructor
  · intro h
    unfold validChunkExtensions at h
    split_ifs at h
    refine chunkExtensionLoop.run_induction (P := fun text r => r = true → IsExtensions text)
      ?_ ?_ text h
    · rintro text r hstep rfl
      rcases chunkExtensionStep_sound text with hfalse | ⟨-, he⟩ | ⟨e, rest, hnext, -, -⟩
      · exact absurd (hfalse.symm.trans hstep) (by simp)
      · exact .last he
      · exact absurd (hnext.symm.trans hstep) Sum.inl_ne_inr
    · intro text text' r hstep ih hr
      rcases chunkExtensionStep_sound text with hfalse | ⟨htrue, -⟩ | ⟨e, rest, hnext, he, htext⟩
      · exact absurd (hfalse.symm.trans hstep) Sum.inr_ne_inl
      · exact absurd (htrue.symm.trans hstep) Sum.inr_ne_inl
      · cases Sum.inl.inj (hnext.symm.trans hstep)
        rw [htext]
        exact .more he (ih hr)
  · intro h
    have hempty : ¬ text.isEmpty = true := by simpa using h.ne_nil
    unfold validChunkExtensions
    rw [if_neg hempty]
    induction h with
    | last he => exact chunkExtensionLoop.run_of_exit (chunkExtensionStep_last he)
    | more he hrest ih =>
      rw [chunkExtensionLoop.run_of_next (chunkExtensionStep_more he hrest.ne_nil)]
      exact ih (by simpa using hrest.ne_nil)

/-! ## Size lines -/

theorem isSome_digitValue_hex (d : Byte) : (digitValue 16 d).isSome = isHexDigit d := by
  revert d
  exact forall_byte (by decide)

/-- A line that `parse_chunk_size` accepts, with its parts. -/
theorem parseChunkSize_sound {line : Bytes} {value : ℕ} (h : parseChunkSize line = .ok value) :
    IsSizeLine line value := by
  unfold parseChunkSize at h
  dsimp only at h
  split_ifs at h with hempty hextensions
  split at h
  · next value' hchars =>
    cases h
    obtain ⟨digits, hne, hdigits, htext, hvalue, hbound⟩ := fromChars_some hchars
    rw [List.append_nil] at htext
    -- the text in front of the semicolon is the digits and the blanks that were trimmed
    have htrim : ∀ text : Bytes, text.rdropWhile isOws = digits →
        ∃ blank, Blank blank ∧ text = digits ++ blank := by
      intro text hdrop
      refine ⟨text.rtakeWhile isOws, fun ch hch => List.mem_rtakeWhile_imp hch, ?_⟩
      rw [← hdrop]
      exact List.rdropWhile_append_rtakeWhile.symm
    refine ⟨⟨digits, ?_⟩, hbound⟩
    cases hfind : find line [';'.toUInt8] 0 with
    | none =>
      rw [hfind] at htext
      obtain ⟨blank, hblank, hline⟩ := htrim line htext
      refine ⟨blank, [], hne, fun d hd => ?_, hvalue.symm, hblank, ?_, .inl rfl⟩
      · rw [← isSome_digitValue_hex]
        exact hdigits d hd
      · rw [List.append_nil]
        exact hline
    | some i =>
      rw [hfind] at htext hextensions
      obtain ⟨blank, hblank, hfront⟩ := htrim (line.take i) htext
      have hcut := cut_eq_find [';'.toUInt8] line
      rw [hfind, Option.map_some] at hcut
      have hline := (cut_eq_some_iff.mp hcut).1
      refine ⟨blank, ';'.toUInt8 :: line.drop (i + 1), hne, fun d hd => ?_, hvalue.symm, hblank, ?_,
        .inr ⟨_, rfl, ?_⟩⟩
      · rw [← isSome_digitValue_hex]
        exact hdigits d hd
      · rw [hfront, List.append_assoc] at hline
        exact hline
      · apply validChunkExtensions_iff.mp
        simpa using hextensions
  · cases h

theorem parseChunkSize_complete {line : Bytes} {value : ℕ} (h : IsSizeLine line value) :
    parseChunkSize line = .ok value := by
  obtain ⟨⟨digits, blank, extension, hne, hdigits, hvalue, hblank, hline, hextension⟩, hbound⟩ := h
  have hhex : ∀ d ∈ digits, (digitValue 16 d).isSome = true := fun d hd =>
    (isSome_digitValue_hex d).trans (hdigits d hd)
  rcases hextension with rfl | ⟨e, rfl, he⟩
  · have hread := SizeText.parse ⟨digits, hne, hhex, hvalue, blank, List.all_eq_true.mpr hblank,
      none, nofun⟩ hbound
    rw [hline]
    exact hread
  · have hvalid : ∀ e' ∈ some e, validChunkExtensions e' = true := by
      rintro e' ⟨⟩
      exact validChunkExtensions_iff.mpr he
    have hread := SizeText.parse ⟨digits, hne, hhex, hvalue, blank, List.all_eq_true.mpr hblank,
      some e, hvalid⟩ hbound
    rw [hline]
    exact hread

theorem parseChunkSize_error {line : Bytes} {e : Error} (h : parseChunkSize line = .error e) :
    e.code = .invalidChunkSize ∨ e.code = .invalidChunkFraming := by
  unfold parseChunkSize at h
  dsimp only at h
  split_ifs at h
  · cases h
    exact .inl rfl
  · cases h
    exact .inr rfl
  split at h
  · cases h
  · cases h
    exact .inl rfl

/-- `parse_chunk_size` accepts the size lines with their values, refuses every other line with one
of two errors, and its scanner goes on to a shorter text in every round. -/
theorem parse_chunk_size_iff (line : Bytes) :
    (∀ value, parseChunkSize line = .ok value ↔ IsSizeLine line value) ∧
    ((¬ ∃ value, IsSizeLine line value) → ∃ e, parseChunkSize line = .error e ∧
      (e.code = .invalidChunkSize ∨ e.code = .invalidChunkFraming)) ∧
    ∀ text rest, chunkExtensionStep text = .inl rest → rest.length < text.length := by
  refine ⟨fun value => ⟨parseChunkSize_sound, parseChunkSize_complete⟩, fun hnone => ?_,
    fun text rest => chunkExtensionStep_length⟩
  cases hparse : parseChunkSize line with
  | ok value => exact absurd ⟨value, parseChunkSize_sound hparse⟩ hnone
  | error e => exact ⟨e, rfl, parseChunkSize_error hparse⟩

end CppRequest
