import CppRequest.HeadFormat

/-!
# The grammar of a response head

`parse_head` accepts a block whose lines are a status line and field lines, and keeps
what they say. Between two lines stands a CRLF, and nothing else separates them.
-/

namespace CppRequest

open Search

/-- The version, a code of three digits, and nothing or a space and a reason. -/
def IsStatusLine (line : Bytes) (code : ℕ) (reason : Bytes) : Prop :=
  ∃ digits behind, line = bytes "HTTP/1.1 " ++ (digits ++ behind) ∧ digits.length = 3 ∧
    (∀ d ∈ digits, isDigit d = true) ∧ code = ofDigits 10 digits ∧ 100 ≤ code ∧ code ≤ 999 ∧
    (behind = [] ∧ reason = [] ∨ behind = sp :: reason ∧ ∀ ch ∈ reason, IsTextByte ch)

/-- A name, a colon and a value, which is kept without the blanks around it. -/
def IsFieldLine (line : Bytes) (field : Field) : Prop :=
  ∃ value, line = field.name ++ ':'.toUInt8 :: value ∧ field.name ≠ [] ∧
    (∀ ch ∈ field.name, isTchar ch = true) ∧ (∀ ch ∈ value, IsTextByte ch) ∧
    field.value = trimOws value

theorem validFieldValue_trimOws {value : Bytes} :
    validFieldValue (trimOws value) = true ↔ ∀ ch ∈ value, IsTextByte ch := by
  have hows : ∀ ch : Byte, isOws ch = true → ch = htab ∨ 0x20 ≤ ch ∧ ch ≠ 0x7f :=
    forall_byte (by decide)
  rw [validFieldValue_iff_text]
  constructor
  · intro h ch hch
    rcases mem_trimOws hch with hch | hch
    · exact h ch hch
    · exact hows ch hch
  · intro h ch hch
    exact h ch (trimOws_subset value hch)

/-! ## One line -/

theorem parseStatusLine_iff {line : Bytes} {code : ℕ} {reason : Bytes} :
    parseStatusLine line = .ok (code, reason) ↔ IsStatusLine line code reason := by
  constructor
  · intro h
    unfold parseStatusLine at h
    simp only at h
    split_ifs at h with hshort hdigits
    rw [Bool.or_eq_true, not_or, decide_eq_true_eq, not_lt, bne_iff_ne, ne_eq, not_not] at hshort
    rw [Bool.not_eq_true', Bool.not_eq_false] at hdigits
    have hline : line = bytes "HTTP/1.1 " ++ (substr line 9 3 ++ line.drop 12) := by
      have hprefix : line.take 9 = bytes "HTTP/1.1 " := hshort.2
      have hdrop : line.drop 12 = (line.drop 9).drop 3 := by rw [List.drop_drop]
      rw [← hprefix, substr, hdrop, List.take_append_drop, List.take_append_drop]
    have hthree : (substr line 9 3).length = 3 := by
      have hlong : 12 ≤ line.length := hshort.1
      rw [substr, List.length_take, List.length_drop]
      omega
    refine ⟨substr line 9 3, line.drop 12, hline, hthree, List.all_eq_true.mp hdigits, ?_⟩
    split at h
    · next value hchars =>
      rcases fromChars_some hchars with ⟨digits, -, -, htext, rfl, -⟩
      rw [List.append_nil] at htext
      rw [← htext] at h
      split_ifs at h with hrange
      rw [Bool.or_eq_true, decide_eq_true_eq, decide_eq_true_eq] at hrange
      cases hbehind : line.drop 12 with
      | nil =>
        rw [show line.drop (versionPrefix.length + 3) = [] from hbehind] at h
        cases h
        exact ⟨rfl, by omega, by omega, .inl ⟨rfl, rfl⟩⟩
      | cons ch text =>
        rw [show line.drop (versionPrefix.length + 3) = ch :: text from hbehind] at h
        simp only at h
        split_ifs at h with hspace hreason
        rw [bne_iff_ne, ne_eq, not_not] at hspace
        rw [Bool.not_eq_true', Bool.not_eq_false] at hreason
        cases h
        exact ⟨rfl, by omega, by omega,
          .inr ⟨by rw [hspace], validFieldValue_iff_text.mp hreason⟩⟩
    · cases h
  · rintro ⟨digits, behind, rfl, hthree, hdigits, rfl, hlow, -, ⟨rfl, rfl⟩ | ⟨rfl, hreason⟩⟩
    · exact (StatusLine.mk digits hthree (List.all_eq_true.mpr hdigits) hlow none (by simp)).parse
    · exact (StatusLine.mk digits hthree (List.all_eq_true.mpr hdigits) hlow (some reason)
        (by simpa using validFieldValue_iff_text.mpr hreason)).parse

theorem parseFieldLine_iff {line : Bytes} {field : Field} :
    parseFieldLine line = .ok field ↔ IsFieldLine line field := by
  constructor
  · intro h
    unfold parseFieldLine at h
    split at h
    · cases h
    · next front tail =>
      split_ifs at h
      cases hfind : find (front :: tail) [':'.toUInt8] 0 with
      | none => rw [hfind] at h; cases h
      | some colon =>
        simp only [hfind] at h
        split_ifs at h with hzero hvalid
        cases h
        rw [Bool.or_eq_true, not_or, Bool.not_eq_true', Bool.not_eq_true', Bool.not_eq_false,
          Bool.not_eq_false] at hvalid
        have hcut := cut_eq_find [':'.toUInt8] (front :: tail)
        rw [hfind, Option.map_some] at hcut
        rcases validHeaderName_iff.mp hvalid.1 with ⟨hne, hname⟩
        exact ⟨_, (cut_eq_some_iff.mp hcut).1, hne, hname, validFieldValue_trimOws.mp hvalid.2, rfl⟩
  · rintro ⟨value, rfl, hne, hname, hvalue, hfield⟩
    have hno : ':'.toUInt8 ∉ field.name := fun h => (isTchar_ne (hname _ h)).2.2.1 rfl
    have hfind : find (field.name ++ ':'.toUInt8 :: value) [':'.toUInt8] 0 =
        some field.name.length := find_leads value (leads_singleton.mpr hno)
    have htake : (field.name ++ ':'.toUInt8 :: value).take field.name.length = field.name :=
      List.take_left
    have hdrop : (field.name ++ ':'.toUInt8 :: value).drop (field.name.length + 1) = value := by
      rw [← List.drop_drop, List.drop_left]
      rfl
    have hvalid := validHeaderName_iff.mpr ⟨hne, hname⟩
    have hpos : (field.name.length == 0) = false := by simpa using hne
    rcases List.exists_cons_of_ne_nil hne with ⟨front, tail, hcons⟩
    have hfront := isTchar_ne (hname front (by simp [hcons]))
    have htext : field.name ++ ':'.toUInt8 :: value = front :: (tail ++ ':'.toUInt8 :: value) := by
      rw [hcons]
      rfl
    unfold parseFieldLine
    rw [htext] at hfind htake hdrop ⊢
    simp only [hfind, htake, hdrop, hvalid, validFieldValue_trimOws.mpr hvalue, hpos]
    simp [hfront.1, hfront.2.1, ← hfield]

/-! ## All lines -/

/-- The loop over the field lines, by the lines that are left. -/
theorem headLoop_iff {rest : Bytes} (hne : rest ≠ []) (hend : ¬ crlf <:+ rest) (done : Bytes)
    (headers headers' : Headers) :
    headLoop.run ⟨done ++ rest, done.length, headers⟩ = .ok headers' ↔
      ∃ fields, headers'.fields = headers.fields ++ fields ∧
        List.Forall₂ IsFieldLine (splitLines rest) fields := by
  induction hn : rest.length using Nat.strongRecOn generalizing rest done headers with
  | _ n ih =>
    have hlt : done.length < (done ++ rest).length := by
      have hpos := List.length_pos_iff.mpr hne
      rw [List.length_append]
      omega
    have hstep := HeadText.headStep_cut headers hlt
    rw [List.drop_left] at hstep
    cases hcut : cut crlf rest with
    | none =>
      rw [hcut] at hstep
      rw [splitLines_single (cut_eq_none_iff.mp hcut)]
      cases hline : parseFieldLine rest with
      | error e =>
        rw [hline] at hstep
        rw [headLoop.run_of_exit hstep]
        refine iff_of_false nofun ?_
        rintro ⟨fields, -, hfields⟩
        rcases List.forall₂_cons_left_iff.mp hfields with ⟨field, _, hfield, -, rfl⟩
        rw [parseFieldLine_iff.mpr hfield] at hline
        cases hline
      | ok field =>
        rw [hline] at hstep
        rw [headLoop.run_of_exit hstep, Except.ok.injEq]
        constructor
        · rintro rfl
          exact ⟨[field], rfl, .cons (parseFieldLine_iff.mp hline) .nil⟩
        · rintro ⟨fields, hheaders, hfields⟩
          rcases List.forall₂_cons_left_iff.mp hfields with ⟨field', _, hfield, hnil, rfl⟩
          cases hnil
          rw [← parseFieldLine_iff, hline] at hfield
          cases hfield
          cases headers'
          cases hheaders
          rfl
    | some parts =>
      rcases parts with ⟨line, tail⟩
      rcases cut_eq_some_iff.mp hcut with ⟨rfl, hleads⟩
      rw [hcut] at hstep
      rw [splitLines_leads tail hleads]
      have htail : tail ≠ [] := by
        rintro rfl
        exact hend ⟨line, by rw [List.append_nil]⟩
      have hend' : ¬ crlf <:+ tail := fun h =>
        hend (h.trans ⟨line ++ crlf, List.append_assoc _ _ _⟩)
      have hlength : tail.length < n := by
        rw [← hn, List.length_append, List.length_append]
        exact Nat.lt_add_left _ (Nat.lt_add_of_pos_left (Nat.succ_pos 1))
      cases hline : parseFieldLine line with
      | error e =>
        simp only [hline] at hstep
        rw [headLoop.run_of_exit hstep]
        refine iff_of_false nofun ?_
        rintro ⟨fields, -, hfields⟩
        rcases List.forall₂_cons_left_iff.mp hfields with ⟨field, _, hfield, -, rfl⟩
        rw [parseFieldLine_iff.mpr hfield] at hline
        cases hline
      | ok field =>
        simp only [hline] at hstep
        have hdone : (done ++ (line ++ crlf)).length = done.length + line.length + 2 := by
          rw [List.length_append, List.length_append, ← Nat.add_assoc]
          rfl
        have hnext := ih tail.length hlength htail hend' (done ++ (line ++ crlf))
          (headers.add field.name field.value) rfl
        rw [hdone, List.append_assoc, List.append_assoc] at hnext
        rw [headLoop.run_of_next hstep, hnext]
        constructor
        · rintro ⟨fields, hheaders, hfields⟩
          refine ⟨field :: fields, ?_, .cons (parseFieldLine_iff.mp hline) hfields⟩
          rw [hheaders]
          exact List.append_assoc _ _ _
        · rintro ⟨fields, hheaders, hfields⟩
          rcases List.forall₂_cons_left_iff.mp hfields with ⟨field', rest, hfield, hrest, rfl⟩
          rw [← parseFieldLine_iff, hline] at hfield
          cases hfield
          refine ⟨rest, ?_, hrest⟩
          rw [hheaders]
          exact (List.append_assoc headers.fields [field] rest).symm

/-- A block in front of the first CRLFCRLF does not end in a CRLF. -/
theorem not_suffix_crlf {block : Bytes} (h : Leads crlfcrlf block) : ¬ crlf <:+ block := by
  rintro ⟨front, rfl⟩
  refine h front.length (by simp [crlf]) ?_
  rw [List.append_assoc, List.drop_left]
  exact ⟨crlf, rfl⟩

/-- Nothing in an accepted line could be taken for the end of a line or of the text. -/
def IsPlainLine (line : Bytes) : Prop :=
  line ≠ [] ∧ line.head? ≠ some sp ∧ line.head? ≠ some htab ∧ ∀ ch ∈ line, IsTextByte ch

theorem textByte_ne {ch : Byte} (h : IsTextByte ch) : ch ≠ cr ∧ ch ≠ lf ∧ ch ≠ 0 := by
  have hbyte : ∀ ch : Byte, (ch = htab ∨ 0x20 ≤ ch ∧ ch ≠ 0x7f) → ch ≠ cr ∧ ch ≠ lf ∧ ch ≠ 0 :=
    forall_byte (by decide)
  exact hbyte ch h

theorem IsStatusLine.plain {line : Bytes} {code : ℕ} {reason : Bytes}
    (h : IsStatusLine line code reason) : IsPlainLine line := by
  have hdigit : ∀ ch : Byte, isDigit ch = true → ch = htab ∨ 0x20 ≤ ch ∧ ch ≠ 0x7f :=
    forall_byte (by decide)
  have hversion : ∀ ch : Byte, ch ∈ bytes "HTTP/1.1 " → ch = htab ∨ 0x20 ≤ ch ∧ ch ≠ 0x7f :=
    forall_byte (by decide)
  rcases h with ⟨digits, behind, rfl, -, hdigits, -, -, -, hbehind⟩
  refine ⟨by simp [bytes], fun heq => ?_, fun heq => ?_, fun ch hch => ?_⟩
  · exact absurd (Option.some.inj heq) (by decide)
  · exact absurd (Option.some.inj heq) (by decide)
  rcases List.mem_append.mp hch with hch | hch
  · exact hversion ch hch
  rcases List.mem_append.mp hch with hch | hch
  · exact hdigit ch (hdigits ch hch)
  rcases hbehind with ⟨rfl, -⟩ | ⟨rfl, hreason⟩
  · cases hch
  · rcases List.mem_cons.mp hch with rfl | hch
    · exact .inr (by decide)
    · exact hreason ch hch

theorem IsFieldLine.plain {line : Bytes} {field : Field} (h : IsFieldLine line field) :
    IsPlainLine line := by
  have htchar : ∀ ch : Byte, isTchar ch = true → ch = htab ∨ 0x20 ≤ ch ∧ ch ≠ 0x7f :=
    forall_byte (by decide)
  rcases h with ⟨value, rfl, hne, hname, hvalue, -⟩
  rcases List.exists_cons_of_ne_nil hne with ⟨front, tail, hcons⟩
  have hfront := isTchar_ne (hname front (by simp [hcons]))
  refine ⟨by simp, ?_, ?_, fun ch hch => ?_⟩
  · simpa [hcons] using hfront.1
  · simpa [hcons] using hfront.2.1
  · rcases List.mem_append.mp hch with hch | hch
    · exact htchar ch (hname ch hch)
    rcases List.mem_cons.mp hch with rfl | hch
    · exact .inr (by decide)
    · exact hvalue ch hch

/-- What the loop over the field lines makes of the lines behind the status line. -/
theorem parseHead_of_lines {status rest : Bytes} (hleads : Leads crlf status) (hne : rest ≠ [])
    (hend : ¬ crlf <:+ rest) (head : ParsedHead) :
    parseHead (status ++ (crlf ++ rest)) = .ok head ↔
      IsStatusLine status head.statusCode head.reason ∧
        List.Forall₂ IsFieldLine (splitLines rest) head.headers.fields := by
  have hfind := find_leads rest hleads
  have hfirst : substr (status ++ (crlf ++ rest)) 0 status.length = status := List.take_left
  have hdone : (status ++ crlf).length = status.length + 2 := List.length_append
  have hloop := headLoop_iff hne hend (status ++ crlf) {}
  rw [hdone, List.append_assoc] at hloop
  unfold parseHead
  simp only [hfind, Option.elim_some, hfirst]
  rw [← parseStatusLine_iff]
  cases parseStatusLine status with
  | error e => exact iff_of_false nofun fun h => by cases h.1
  | ok line =>
    rcases line with ⟨code, reason⟩
    rcases head with ⟨statusCode, reason', headers⟩
    simp only [Except.ok.injEq, Prod.mk.injEq]
    cases hrun : headLoop.run ⟨status ++ (crlf ++ rest), status.length + 2, {}⟩ with
    | error e =>
      refine iff_of_false nofun ?_
      rintro ⟨-, hfields⟩
      have hok := (hloop headers).mpr ⟨headers.fields, rfl, hfields⟩
      rw [hrun] at hok
      cases hok
    | ok headers' =>
      simp only [Except.ok.injEq, ParsedHead.mk.injEq]
      rw [and_assoc]
      refine and_congr_right fun _ => and_congr_right fun _ => ?_
      have hthis := hloop headers
      rw [hrun, Except.ok.injEq] at hthis
      rw [hthis]
      constructor
      · rintro ⟨fields, heq, hfields⟩
        rw [heq]
        exact hfields
      · intro hfields
        exact ⟨headers.fields, rfl, hfields⟩

theorem parseHead_of_line {status : Bytes} (hno : ¬ crlf <:+: status) (head : ParsedHead) :
    parseHead status = .ok head ↔
      IsStatusLine status head.statusCode head.reason ∧ head.headers.fields = [] := by
  have hfind : find status crlf 0 = none := by
    have hcut := cut_eq_find crlf status
    rw [cut_eq_none_iff.mpr hno] at hcut
    exact Option.map_eq_none_iff.mp hcut.symm
  unfold parseHead
  simp only [hfind, Option.elim_none]
  rw [← parseStatusLine_iff]
  cases parseStatusLine status with
  | error e => exact iff_of_false nofun fun h => by cases h.1
  | ok line =>
    rcases head with ⟨statusCode, reason, ⟨fields⟩⟩
    constructor
    · intro h
      cases h
      exact ⟨rfl, rfl⟩
    · rintro ⟨hline, hfields⟩
      cases hline
      rw [show fields = [] from hfields]

theorem parseHead_iff {block : Bytes} (hend : ¬ crlf <:+ block) (head : ParsedHead) :
    parseHead block = .ok head ↔
      ∃ status fields, splitLines block = status :: fields ∧
        IsStatusLine status head.statusCode head.reason ∧
        List.Forall₂ IsFieldLine fields head.headers.fields := by
  cases hcut : cut crlf block with
  | none =>
    have hno := cut_eq_none_iff.mp hcut
    rw [parseHead_of_line hno, splitLines_single hno]
    constructor
    · rintro ⟨hstatus, hnil⟩
      exact ⟨block, [], rfl, hstatus, hnil ▸ .nil⟩
    · rintro ⟨status, fields, hlines, hstatus, hfields⟩
      cases hlines
      exact ⟨hstatus, List.forall₂_nil_left_iff.mp hfields⟩
  | some parts =>
    rcases parts with ⟨status, rest⟩
    rcases cut_eq_some_iff.mp hcut with ⟨rfl, hleads⟩
    have hne : rest ≠ [] := by
      rintro rfl
      exact hend ⟨status, by rw [List.append_nil]⟩
    have hrest : ¬ crlf <:+ rest := fun h =>
      hend (h.trans ⟨status ++ crlf, List.append_assoc _ _ _⟩)
    rw [parseHead_of_lines hleads hne hrest, splitLines_leads rest hleads]
    constructor
    · rintro ⟨hstatus, hfields⟩
      exact ⟨status, splitLines rest, rfl, hstatus, hfields⟩
    · rintro ⟨status', fields, hlines, hstatus, hfields⟩
      cases hlines
      exact ⟨hstatus, hfields⟩

theorem forall₂_plain {lines : List Bytes} {fields : List Field}
    (h : List.Forall₂ IsFieldLine lines fields) : ∀ line ∈ lines, IsPlainLine line := by
  induction h with
  | nil => exact fun line hline => absurd hline List.not_mem_nil
  | cons hline _ ih => exact List.forall_mem_cons.mpr ⟨hline.plain, ih⟩

/-- The heads that are accepted, and what is kept of them. -/
theorem parse_head_iff {buffer : Bytes} {headEnd : ℕ}
    (hend : find buffer crlfcrlf 0 = some headEnd) (head : ParsedHead) :
    (parseHead (substr buffer 0 headEnd) = .ok head ↔
      ∃ status fields, splitLines (substr buffer 0 headEnd) = status :: fields ∧
        IsStatusLine status head.statusCode head.reason ∧
        List.Forall₂ IsFieldLine fields head.headers.fields) ∧
    (parseHead (substr buffer 0 headEnd) = .ok head →
      ∀ line ∈ splitLines (substr buffer 0 headEnd), line ≠ [] ∧ line.head? ≠ some sp ∧
        line.head? ≠ some htab ∧ cr ∉ line ∧ lf ∉ line ∧ 0 ∉ line) := by
  have hcut := cut_eq_find crlfcrlf buffer
  rw [hend, Option.map_some] at hcut
  have hblock : ¬ crlf <:+ substr buffer 0 headEnd := not_suffix_crlf (cut_eq_some_iff.mp hcut).2
  have hiff := parseHead_iff hblock head
  refine ⟨hiff, fun hparse line hline => ?_⟩
  rcases hiff.mp hparse with ⟨status, fields, hlines, hstatus, hfields⟩
  have hplain : IsPlainLine line := by
    rw [hlines] at hline
    rcases List.mem_cons.mp hline with rfl | hline
    · exact hstatus.plain
    · exact forall₂_plain hfields line hline
  rcases hplain with ⟨hne, hsp, htab, htext⟩
  refine ⟨hne, hsp, htab, ?_, ?_, ?_⟩
  · exact fun hmem => (textByte_ne (htext _ hmem)).1 rfl
  · exact fun hmem => (textByte_ne (htext _ hmem)).2.1 rfl
  · exact fun hmem => (textByte_ne (htext _ hmem)).2.2 rfl

/-- A head with one field and a body behind it. -/
def headBuffer : Bytes := bytes "HTTP/1.1 200 OK\r\nA: b \r\n\r\nbody"

theorem parse_head_one_field :
    ∃ status fields, splitLines (substr headBuffer 0 22) = status :: fields ∧
      IsStatusLine status 200 (bytes "OK") ∧
      List.Forall₂ IsFieldLine fields [⟨bytes "A", bytes "b"⟩] := by
  have hend : find headBuffer crlfcrlf 0 = some 22 := by decide +kernel
  have hparse : parseHead (substr headBuffer 0 22) =
      .ok ⟨200, bytes "OK", ⟨[⟨bytes "A", bytes "b"⟩]⟩⟩ := by decide +kernel
  exact (parse_head_iff hend _).1.mp hparse

end CppRequest
