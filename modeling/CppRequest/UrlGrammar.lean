import CppRequest.Url

/-!
# The texts that `Url::parse` accepts

A text is a scheme, an authority, a tail and a fragment. `parse` is evaluated on texts
of this shape, and a text that it accepts has it.
-/

namespace CppRequest.Url

open Search

/-- The bytes that end an authority. -/
def endsAuthority (ch : Byte) : Bool := (bytes "/?").contains ch

/-- The path and the query, with the slash that every path begins with. -/
def withSlash (tail : Bytes) : Bytes :=
  if tail = [] ∨ tail.head? = some '?'.toUInt8 then '/'.toUInt8 :: tail else tail

/-- A text cut into its parts. -/
structure Shape (scheme authority tail fragment : Bytes) : Prop where
  scheme : asciiIequals scheme (bytes "http") = true
  inside : ∀ ch ∈ authority, endsAuthority ch = false
  outside : ∀ ch, tail.head? = some ch → endsAuthority ch = true
  noHash : '#'.toUInt8 ∉ authority ++ tail
  hash : ∀ ch, fragment.head? = some ch → ch = '#'.toUInt8
  good : ∀ ch ∈ authority ++ (tail ++ fragment), forbiddenUrlByte ch = false

/-- Where the query of a target begins. -/
def questionMark (target : Bytes) : Option ℕ := find target ['?'.toUInt8] 0

/-- The URL of an authority that has been analysed and a tail. -/
def assemble (base : Url) (authority tail : Bytes) : Url :=
  { base with
    storage := bytes "http://" ++ (authority ++ withSlash tail)
    pathBegin := 7 + authority.length
    pathSize := (questionMark (withSlash tail)).getD (withSlash tail).length
    queryBegin := 7 + authority.length +
      (questionMark (withSlash tail)).elim (withSlash tail).length (· + 1)
    querySize := (questionMark (withSlash tail)).elim 0 fun marker =>
      (withSlash tail).length - (marker + 1) }

/-! ## The authority -/

/-- The analysis of an authority does not look at the text around it. -/
theorem parseAuthority_storage (inetPton6 : Bytes → Bool) (u : Url) (storage : Bytes)
    (authorityBegin : ℕ) (authority : Bytes) :
    parseAuthority inetPton6 { u with storage } authorityBegin authority =
      (parseAuthority inetPton6 u authorityBegin authority).map
        fun u' => { u' with storage } := by
  unfold parseAuthority
  split_ifs
  · rfl
  · unfold parseIpv6Authority
    cases find authority [']'.toUInt8] 0 with
    | none => rfl
    | some closing =>
      simp only
      split_ifs
      · rfl
      · rfl
      · cases authority.drop (closing + 1) with
        | nil => rfl
        | cons front remainder =>
          simp only
          split_ifs
          · rfl
          · cases parsePort remainder <;> rfl
  · unfold parseNamedAuthority
    cases rfind authority ':'.toUInt8 with
    | none => rfl
    | some colon =>
      simp only
      split_ifs
      · rfl
      · rfl
      · cases parsePort (authority.drop (colon + 1)) <;> rfl

/-- The host lies inside the authority. -/
theorem host_inside {inetPton6 : Bytes → Bool} {u u' : Url} {authorityBegin : ℕ}
    {authority : Bytes} (h : parseAuthority inetPton6 u authorityBegin authority = .ok u') :
    authorityBegin ≤ u'.hostBegin ∧
      u'.hostBegin + u'.hostSize ≤ authorityBegin + authority.length := by
  unfold parseAuthority at h
  split_ifs at h
  · unfold parseIpv6Authority at h
    cases hfind : find authority [']'.toUInt8] 0 with
    | none => rw [hfind] at h; cases h
    | some closing =>
      have hle := (find_eq_some hfind).2
      rw [List.length_singleton] at hle
      simp only [hfind] at h
      split_ifs at h
      cases hdrop : authority.drop (closing + 1) with
      | nil =>
        rw [hdrop] at h
        cases h
        constructor
        · exact Nat.le_succ _
        · show authorityBegin + 1 + (closing - 1) ≤ _
          omega
      | cons front remainder =>
        simp only [hdrop] at h
        split_ifs at h
        cases hport : parsePort remainder with
        | error e => rw [hport] at h; cases h
        | ok port =>
          rw [hport] at h
          cases h
          constructor
          · exact Nat.le_succ _
          · show authorityBegin + 1 + (closing - 1) ≤ _
            omega
  · unfold parseNamedAuthority at h
    cases hfind : rfind authority ':'.toUInt8 with
    | none =>
      rw [hfind] at h
      cases h
      exact ⟨Nat.le_refl _, Nat.le_refl _⟩
    | some colon =>
      simp only [hfind] at h
      split_ifs at h
      cases hport : parsePort (authority.drop (colon + 1)) with
      | error e => rw [hport] at h; cases h
      | ok port =>
        rw [hport] at h
        cases h
        constructor
        · exact Nat.le_refl _
        · show authorityBegin + (authority.take colon).length ≤ _
          have hle := List.length_take_le colon authority
          have hmin := List.length_take_le' colon authority
          omega

/-! ## Evaluating the parser -/

/-- What stands in front of the first number sign. -/
theorem withoutFragment_eq {before fragment : Bytes} (hno : '#'.toUInt8 ∉ before)
    (hhash : ∀ ch, fragment.head? = some ch → ch = '#'.toUInt8) :
    ((find (before ++ fragment) ['#'.toUInt8] 0).elim (before ++ fragment) fun i =>
      (before ++ fragment).take i) = before := by
  cases fragment with
  | nil =>
    have hnone : find before ['#'.toUInt8] 0 = none := by
      have hcut := cut_eq_find ['#'.toUInt8] before
      rw [cut_eq_none_iff.mpr fun h => hno (h.subset List.mem_cons_self)] at hcut
      exact Option.map_eq_none_iff.mp hcut.symm
    rw [List.append_nil, hnone]
    rfl
  | cons ch fragment =>
    rw [hhash ch rfl]
    have hfind := find_leads fragment (leads_singleton.mpr hno)
    rw [List.singleton_append] at hfind
    rw [hfind, Option.elim_some, List.take_left]

theorem findFirstOf_drop {s : Bytes} {pos : ℕ} (chars before after : Bytes)
    (hs : s.drop pos = before ++ after) (hno : ∀ ch ∈ before, chars.contains ch = false)
    (hat : ∀ ch, after.head? = some ch → chars.contains ch = true) :
    findFirstOf s chars pos = if after = [] then none else some (pos + before.length) := by
  unfold findFirstOf
  rw [hs, List.findIdx?_append]
  have hnone : before.findIdx? chars.contains = none := List.findIdx?_eq_none_iff.mpr hno
  rw [hnone]
  cases after with
  | nil => rfl
  | cons ch after =>
    rw [List.findIdx?_cons, hat ch rfl]
    simp

namespace Shape

variable {scheme authority tail fragment : Bytes}

theorem length_scheme (h : Shape scheme authority tail fragment) : scheme.length = 4 := by
  have hlower := congrArg List.length (asciiIequals_iff.mp h.scheme)
  rwa [List.length_map] at hlower

/-- The letters of a scheme are neither separators nor forbidden. -/
theorem mem_scheme (h : Shape scheme authority tail fragment) {ch : Byte} (hch : ch ∈ scheme) :
    ch ≠ ':'.toUInt8 ∧ ch ≠ '#'.toUInt8 ∧ ch ≠ '?'.toUInt8 ∧ forbiddenUrlByte ch = false := by
  have hlower : asciiLower ch ∈ bytes "http" := by
    have hmap := asciiIequals_iff.mp h.scheme
    have hmem := List.mem_map_of_mem (f := asciiLower) hch
    rw [hmap] at hmem
    exact hmem
  have hbyte : ∀ b : Byte, asciiLower b ∈ bytes "http" →
      b ≠ ':'.toUInt8 ∧ b ≠ '#'.toUInt8 ∧ b ≠ '?'.toUInt8 ∧ forbiddenUrlByte b = false :=
    forall_byte (by decide)
  exact hbyte ch hlower

theorem find_separator (h : Shape scheme authority tail fragment) (text : Bytes) :
    find (scheme ++ (bytes "://" ++ text)) (bytes "://") 0 = some 4 := by
  have hno : ':'.toUInt8 ∉ scheme := fun hmem => (h.mem_scheme hmem).1 rfl
  have hleads : Leads (bytes "://") scheme := leads_of_not_mem hno
  rw [find_leads text hleads, h.length_scheme]

theorem hash_not_mem (h : Shape scheme authority tail fragment) :
    '#'.toUInt8 ∉ scheme ++ (bytes "://" ++ (authority ++ tail)) := by
  rw [List.mem_append, List.mem_append]
  rintro (hmem | hmem | hmem)
  · exact (h.mem_scheme hmem).2.1 rfl
  · exact absurd hmem (by decide)
  · exact h.noHash hmem

theorem normalize_eq (h : Shape scheme authority tail fragment) :
    normalize (scheme ++ (bytes "://" ++ (authority ++ (tail ++ fragment)))) 4 =
      bytes "http://" ++ (authority ++ tail) := by
  have hbefore := withoutFragment_eq h.hash_not_mem h.hash
  simp only [List.append_assoc] at hbefore
  have htake : (scheme ++ (bytes "://" ++ (authority ++ tail))).take 4 = scheme :=
    List.take_left' h.length_scheme
  have hdrop : (scheme ++ (bytes "://" ++ (authority ++ tail))).drop 4 =
      bytes "://" ++ (authority ++ tail) := List.drop_left' h.length_scheme
  unfold normalize
  simp only [hbefore, htake, hdrop, asciiIequals_iff.mp h.scheme]
  rw [← List.append_assoc]
  rfl

theorem drop_authority (authority tail : Bytes) :
    (bytes "http://" ++ (authority ++ tail)).drop (4 + 3) = authority ++ tail :=
  List.drop_left' rfl

theorem authorityEnd_eq (h : Shape scheme authority tail fragment) :
    authorityEnd (bytes "http://" ++ (authority ++ tail)) (4 + 3) = 7 + authority.length := by
  have hfind := findFirstOf_drop (bytes "/?") authority tail (drop_authority authority tail)
    h.inside h.outside
  unfold authorityEnd
  rw [hfind]
  cases tail with
  | nil =>
    simp only [if_true, Option.getD_none, List.append_nil, List.length_append]
    rfl
  | cons ch tail => rfl

theorem insertSlash_eq (h : Shape scheme authority tail fragment) :
    insertSlash (bytes "http://" ++ (authority ++ tail)) (7 + authority.length) =
      bytes "http://" ++ (authority ++ withSlash tail) := by
  have hlen : (bytes "http://" ++ authority).length = 7 + authority.length := List.length_append
  rw [← List.append_assoc, ← List.append_assoc, ← hlen]
  unfold insertSlash withSlash
  cases tail with
  | nil => simp
  | cons ch tail =>
    have hne : (bytes "http://" ++ authority).length ≠
        (bytes "http://" ++ authority ++ ch :: tail).length := by
      simp only [List.length_append, List.length_cons]
      omega
    rw [if_neg hne, List.getElem?_append_right (Nat.le_refl _), Nat.sub_self, List.take_left,
      List.drop_left]
    simp only [List.getElem?_cons_zero, reduceCtorEq, List.head?_cons, false_or]
    split_ifs <;> rfl

theorem splitTarget_eq (h : Shape scheme authority tail fragment) (base : Url) :
    splitTarget { base with storage := bytes "http://" ++ (authority ++ tail) }
        (7 + authority.length) =
      if validPercentEscapes (withSlash tail) = true then .ok (assemble base authority tail)
      else .error { code := .invalidUrl } := by
  have hdrop : (bytes "http://" ++ (authority ++ withSlash tail)).drop (7 + authority.length) =
      withSlash tail := by
    rw [← List.append_assoc]
    exact List.drop_left' List.length_append
  have hfind : find (bytes "http://" ++ (authority ++ withSlash tail)) ['?'.toUInt8]
      (7 + authority.length) =
        (questionMark (withSlash tail)).map (7 + authority.length + ·) := by
    have hle : 7 + authority.length ≤
        (bytes "http://" ++ (authority ++ withSlash tail)).length := by
      simp only [List.length_append]
      exact Nat.add_le_add_left (Nat.le_add_right _ _) 7
    unfold questionMark find
    rw [if_pos hle, hdrop, if_pos (Nat.zero_le _), Option.map_map]
    congr 1
    funext i
    show _ = 7 + authority.length + (0 + i)
    rw [Nat.zero_add]
  have hlength : (bytes "http://" ++ (authority ++ withSlash tail)).length =
      7 + authority.length + (withSlash tail).length := by
    rw [← List.append_assoc, List.length_append, List.length_append]
    rfl
  unfold splitTarget
  simp only [h.insertSlash_eq, hdrop, hfind]
  unfold assemble
  cases validPercentEscapes (withSlash tail) with
  | false => rfl
  | true =>
    cases questionMark (withSlash tail) with
    | none =>
      simp only [Option.map_none, Bool.not_true, Bool.false_eq_true, if_false, if_true,
        hlength, Nat.add_sub_cancel_left, Option.getD_none, Option.elim_none]
    | some marker =>
      have hsub : 7 + authority.length + (withSlash tail).length -
          (7 + authority.length + (marker + 1)) = (withSlash tail).length - (marker + 1) := by omega
      simp only [Option.map_some, Bool.not_true, Bool.false_eq_true, if_false, if_true,
        hlength, Nat.add_sub_cancel_left, Nat.add_assoc _ marker 1, hsub, Option.getD_some,
        Option.elim_some]

/-- The parser on a text of this shape. -/
theorem parse_eq (h : Shape scheme authority tail fragment) (inetPton6 : Bytes → Bool) :
    parse inetPton6 (scheme ++ (bytes "://" ++ (authority ++ (tail ++ fragment)))) =
      if authority = [] then .error { code := .invalidUrl }
      else match parseAuthority inetPton6 { storage := [], schemeSize := 4 } 7 authority with
        | .error e => .error e
        | .ok base =>
          if base.hostSize = 0 then .error { code := .invalidUrl }
          else if validPercentEscapes (withSlash tail) = true then .ok (assemble base authority tail)
          else .error { code := .invalidUrl } := by
  have hgood : containsForbiddenUrlByte
      (scheme ++ (bytes "://" ++ (authority ++ (tail ++ fragment)))) = false := by
    rw [containsForbiddenUrlByte, List.any_eq_false]
    intro ch hch
    rw [Bool.not_eq_true]
    rcases List.mem_append.mp hch with hch | hch
    · exact (h.mem_scheme hch).2.2.2
    rcases List.mem_append.mp hch with hch | hch
    · have hbyte : ∀ b : Byte, b ∈ bytes "://" → forbiddenUrlByte b = false :=
        forall_byte (by decide)
      exact hbyte ch hch
    · exact h.good ch hch
  have hempty : (scheme ++ (bytes "://" ++ (authority ++ (tail ++ fragment)))).isEmpty = false := by
    have hne := h.length_scheme
    cases scheme with
    | nil => cases hne
    | cons ch scheme => rfl
  have htake : (scheme ++ (bytes "://" ++ (authority ++ (tail ++ fragment)))).take 4 = scheme :=
    List.take_left' h.length_scheme
  have hlength : (bytes "http://" ++ (authority ++ tail)).length =
      7 + (authority.length + tail.length) := by
    rw [List.length_append, List.length_append]
    rfl
  have hsubstr : 7 + authority.length - (4 + 3) = authority.length := by omega
  have hauthority : substr (bytes "http://" ++ (authority ++ tail)) (4 + 3) authority.length =
      authority := by
    rw [substr, drop_authority, List.take_left]
  have hstorage := parseAuthority_storage inetPton6 { storage := [], schemeSize := 4 }
    (bytes "http://" ++ (authority ++ tail)) 7 authority
  unfold parse
  simp only [hempty, hgood, Bool.or_self, Bool.false_eq_true, if_false, h.find_separator, htake,
    h.scheme, h.normalize_eq, h.authorityEnd_eq, hlength, hsubstr, hauthority,
    OfNat.ofNat_ne_zero, Bool.not_true]
  rcases eq_or_ne authority [] with rfl | hne
  · split_ifs <;> rfl
  · have hpos : 0 < authority.length := List.length_pos_iff.mpr hne
    rw [if_neg (by omega), if_neg (by omega), if_neg hne]
    have hbase : parseAuthority inetPton6
        { storage := bytes "http://" ++ (authority ++ tail), schemeSize := 4 } (4 + 3) authority =
        _ := hstorage
    rw [hbase]
    cases parseAuthority inetPton6 { storage := [], schemeSize := 4 } 7 authority with
    | error e => rfl
    | ok base =>
      have htarget := h.splitTarget_eq base
      show (if base.hostSize = 0 then _ else splitTarget _ _) = if base.hostSize = 0 then _ else _
      rw [htarget]

/-- A text whose scheme is http has the shape. -/
theorem exists_shape {input : Bytes} {separator : ℕ}
    (hgood : containsForbiddenUrlByte input = false)
    (hfind : find input (bytes "://") 0 = some separator)
    (hscheme : asciiIequals (input.take separator) (bytes "http") = true) :
    ∃ scheme authority tail fragment,
      input = scheme ++ (bytes "://" ++ (authority ++ (tail ++ fragment))) ∧
        Shape scheme authority tail fragment := by
  have hcut := cut_eq_find (bytes "://") input
  rw [hfind, Option.map_some] at hcut
  rcases cut_eq_some_iff.mp hcut with ⟨hinput, -⟩
  rcases exists_span (· != '#'.toUInt8) (input.drop (separator + (bytes "://").length)) with
    ⟨text, fragment, hrest, hno, hhash⟩
  rcases exists_span (fun ch => !endsAuthority ch) text with
    ⟨authority, tail, rfl, hinside, houtside⟩
  rw [hrest] at hinput
  rw [List.append_assoc] at hinput
  refine ⟨input.take separator, authority, tail, fragment, hinput, hscheme, ?_, ?_, ?_, ?_, ?_⟩
  · intro ch hch
    simpa using hinside ch hch
  · intro ch hch
    simpa using houtside ch hch
  · intro hmem
    simpa using hno _ hmem
  · intro ch hch
    simpa using hhash ch hch
  · intro ch hch
    rw [← List.append_assoc, ← hrest] at hch
    rw [containsForbiddenUrlByte, List.any_eq_false] at hgood
    exact Bool.eq_false_iff.mpr (hgood ch (List.mem_of_mem_drop hch))

end Shape

/-- What `parse` accepts, and what it makes of it. -/
theorem parse_iff {inetPton6 : Bytes → Bool} {input : Bytes} {u : Url} :
    parse inetPton6 input = .ok u ↔ ∃ scheme authority tail fragment base,
      input = scheme ++ (bytes "://" ++ (authority ++ (tail ++ fragment))) ∧
      Shape scheme authority tail fragment ∧ authority ≠ [] ∧
      parseAuthority inetPton6 { storage := [], schemeSize := 4 } 7 authority = .ok base ∧
      base.hostSize ≠ 0 ∧ validPercentEscapes (withSlash tail) = true ∧
      u = assemble base authority tail := by
  constructor
  · intro h
    have hshape : ∃ scheme authority tail fragment,
        input = scheme ++ (bytes "://" ++ (authority ++ (tail ++ fragment))) ∧
          Shape scheme authority tail fragment := by
      unfold parse at h
      split_ifs at h with hinput
      rw [Bool.not_eq_true, Bool.or_eq_false_iff] at hinput
      cases hfind : find input (bytes "://") 0 with
      | none => rw [hfind] at h; cases h
      | some separator =>
        simp only [hfind] at h
        split_ifs at h with hzero hscheme
        rw [Bool.not_eq_true', Bool.not_eq_false] at hscheme
        exact Shape.exists_shape hinput.2 hfind hscheme
    rcases hshape with ⟨scheme, authority, tail, fragment, rfl, hshape⟩
    rw [hshape.parse_eq] at h
    by_cases hne : authority = []
    · rw [if_pos hne] at h
      cases h
    rw [if_neg hne] at h
    cases hbase : parseAuthority inetPton6 { storage := [], schemeSize := 4 } 7 authority with
    | error e => rw [hbase] at h; cases h
    | ok base =>
      simp only [hbase] at h
      by_cases hhost : base.hostSize = 0
      · rw [if_pos hhost] at h
        cases h
      rw [if_neg hhost] at h
      by_cases hescapes : validPercentEscapes (withSlash tail) = true
      · rw [if_pos hescapes] at h
        cases h
        exact ⟨scheme, authority, tail, fragment, base, rfl, hshape, hne, hbase, hhost, hescapes,
          rfl⟩
      · rw [if_neg hescapes] at h
        cases h
  · rintro ⟨scheme, authority, tail, fragment, base, rfl, hshape, hne, hbase, hhost, hescapes, rfl⟩
    rw [hshape.parse_eq, if_neg hne]
    simp only [hbase]
    rw [if_neg hhost, if_pos hescapes]

/-! ## The components of an accepted text -/

section Assemble

variable (base : Url) (authority tail : Bytes)

theorem assemble_target : (assemble base authority tail).target = withSlash tail := by
  show (bytes "http://" ++ (authority ++ withSlash tail)).drop (7 + authority.length) = _
  rw [← List.append_assoc]
  exact List.drop_left' List.length_append

theorem assemble_host (h : base.hostBegin + base.hostSize ≤ 7 + authority.length) :
    (assemble base authority tail).host =
      substr (bytes "http://" ++ authority) base.hostBegin base.hostSize := by
  have hlength : (bytes "http://" ++ authority).length = 7 + authority.length := List.length_append
  have hle : base.hostBegin ≤ (bytes "http://" ++ authority).length := by omega
  have hdrop : base.hostSize ≤ ((bytes "http://" ++ authority).drop base.hostBegin).length := by
    rw [List.length_drop]
    omega
  show substr (bytes "http://" ++ (authority ++ withSlash tail)) base.hostBegin base.hostSize = _
  rw [← List.append_assoc, substr, substr, List.drop_append_of_le_length hle,
    List.take_append_of_le_length hdrop]

theorem assemble_path : (assemble base authority tail).path =
    (withSlash tail).take ((questionMark (withSlash tail)).getD (withSlash tail).length) := by
  have hdrop : (bytes "http://" ++ (authority ++ withSlash tail)).drop (7 + authority.length) =
      withSlash tail := by
    rw [← List.append_assoc]
    exact List.drop_left' List.length_append
  exact congrArg (List.take _) hdrop

theorem withSlash_head? (h : ∀ ch, tail.head? = some ch → endsAuthority ch = true) :
    (withSlash tail).head? = some '/'.toUInt8 := by
  unfold withSlash
  split_ifs with hquery
  · rfl
  · rw [not_or] at hquery
    cases tail with
    | nil => exact absurd rfl hquery.1
    | cons ch tail =>
      have hor : ch = '/'.toUInt8 ∨ ch = '?'.toUInt8 := by
        simpa [endsAuthority, bytes] using h ch rfl
      rcases hor with rfl | rfl
      · rfl
      · exact absurd rfl hquery.2

end Assemble

/-- The path of a URL begins with a slash. -/
theorem path_head? {inetPton6 : Bytes → Bool} {input : Bytes} {u : Url}
    (h : parse inetPton6 input = .ok u) : u.path.head? = some '/'.toUInt8 := by
  rcases parse_iff.mp h with ⟨_, authority, tail, _, base, _, hshape, _, _, _, _, rfl⟩
  have hhead := withSlash_head? tail hshape.outside
  rw [assemble_path]
  cases htail : withSlash tail with
  | nil => rw [htail] at hhead; cases hhead
  | cons ch target =>
    rw [htail] at hhead
    cases hhead
    have hmarker : questionMark ('/'.toUInt8 :: target) ≠ some 0 := by
      intro hzero
      have hcut := cut_eq_find ['?'.toUInt8] ('/'.toUInt8 :: target)
      rw [show find _ _ 0 = some 0 from hzero] at hcut
      have heq := (cut_eq_some_iff.mp hcut).1
      exact absurd (List.cons_eq_cons.mp heq).1 (by decide)
    cases hcase : questionMark ('/'.toUInt8 :: target) with
    | none => rw [Option.getD_none, List.take_length]; rfl
    | some marker =>
      cases marker with
      | zero => exact absurd hcase hmarker
      | succ marker => rfl

theorem hash_not_mem_storage {inetPton6 : Bytes → Bool} {input : Bytes} {u : Url}
    (h : parse inetPton6 input = .ok u) : '#'.toUInt8 ∉ u.storage := by
  rcases parse_iff.mp h with ⟨_, authority, tail, _, base, _, hshape, _, _, _, _, rfl⟩
  have hno := hshape.noHash
  rw [List.mem_append, not_or] at hno
  show '#'.toUInt8 ∉ bytes "http://" ++ (authority ++ withSlash tail)
  rw [List.mem_append, List.mem_append]
  rintro (hmem | hmem | hmem)
  · exact absurd hmem (by decide)
  · exact hno.1 hmem
  · unfold withSlash at hmem
    split_ifs at hmem
    · rcases List.mem_cons.mp hmem with hmem | hmem
      · exact absurd hmem (by decide)
      · exact hno.2 hmem
    · exact hno.2 hmem

end CppRequest.Url
