import CppRequest.Redirect
import CppRequest.UrlGrammar

/-!
# Writing an authority again

The authority that a redirect is resolved against, and the one of a generated Host field,
are written from the host and the port of a parsed URL. They are read as what they are
written from.
-/

namespace CppRequest.Url

open Search

/-! ## Hosts and ports -/

/-- A host that an authority may name, in brackets or not. -/
structure Host (inetPton6 : Bytes → Bool) (literal : Bool) (host : Bytes) : Prop where
  nonempty : host ≠ []
  plain : '@'.toUInt8 ∉ host ∧ '%'.toUInt8 ∉ host
  valid : literal = true → validIpv6Literal inetPton6 host = true ∧ ']'.toUInt8 ∉ host
  named : literal = false → ':'.toUInt8 ∉ host ∧ host.head? ≠ some '['.toUInt8

/-- The port is 80 where none is written. -/
def Port (explicit : Bool) (port : ℕ) : Prop :=
  if explicit then 0 < port ∧ port ≤ 65535 else port = 80

def hostText (literal : Bool) (host : Bytes) : Bytes :=
  if literal then '['.toUInt8 :: (host ++ [']'.toUInt8]) else host

def portText (explicit : Bool) (port : ℕ) : Bytes :=
  if explicit then ':'.toUInt8 :: decimal port else []

/-- The digits of a port, any number of zeros in front. -/
def PortDigits (digits : Bytes) : Prop :=
  (∀ d ∈ digits, isDigit d = true) ∧ 1 ≤ ofDigits 10 digits ∧ ofDigits 10 digits ≤ 65535

/-- The end of an authority, with or without a port. -/
def portSuffix (port : Option Bytes) : Bytes := port.elim [] fun digits => ':'.toUInt8 :: digits

def portValue (port : Option Bytes) : ℕ := port.elim 80 (ofDigits 10)

/-- What the analysis of an authority records. -/
def authorityUrl (literal : Bool) (host : Bytes) (explicit : Bool) (port : ℕ) : Url where
  storage := []
  schemeSize := 4
  hostBegin := if literal then 8 else 7
  hostSize := host.length
  port := port
  hasExplicitPort := explicit
  hostIsIpv6Literal := literal

theorem buildOrigin_eq (base : Url) : buildOrigin base = bytes "http://" ++ generatedHost base := by
  unfold buildOrigin generatedHost
  cases base.hostIsIpv6Literal <;> cases base.hasExplicitPort <;> simp

theorem generatedHost_eq (u : Url) :
    generatedHost u =
      hostText u.hostIsIpv6Literal u.host ++ portText u.hasExplicitPort u.port := rfl

theorem mem_hostText {literal : Bool} {host : Bytes} {ch : Byte} (h : ch ∈ hostText literal host) :
    ch ∈ host ∨ ch ∈ bytes "[]" := by
  unfold hostText at h
  split_ifs at h
  · rcases List.mem_cons.mp h with rfl | h
    · exact .inr (by decide)
    rcases List.mem_append.mp h with h | h
    · exact .inl h
    · rw [List.mem_singleton.mp h]
      exact .inr (by decide)
  · exact .inl h

theorem mem_portText {explicit : Bool} {port : ℕ} {ch : Byte} (h : ch ∈ portText explicit port) :
    ch = ':'.toUInt8 ∨ isDigit ch = true := by
  unfold portText at h
  split_ifs at h
  · rcases List.mem_cons.mp h with h | h
    · exact .inl h
    · exact .inr ((decimal_spec port).2.1 ch h)
  · cases h

/-- What holds of the bytes of a host and of the bytes around it. -/
theorem forall_generatedHost {P : Byte → Prop} {u : Url} (hhost : ∀ b ∈ u.host, P b)
    (hmark : ∀ b, b ∈ bytes "[]:" ∨ isDigit b = true → P b) : ∀ b ∈ generatedHost u, P b := by
  have hbrackets : bytes "[]" ⊆ bytes "[]:" := by decide
  intro b hb
  rw [generatedHost_eq] at hb
  rcases List.mem_append.mp hb with hb | hb
  · rcases mem_hostText hb with hb | hb
    · exact hhost b hb
    · exact hmark b (.inl (hbrackets hb))
  · rcases mem_portText hb with hb | hb
    · rw [hb]
      exact hmark _ (.inl (by decide))
    · exact hmark b (.inr hb)

/-! ## Reading what was written -/

theorem parsePort_iff {text : Bytes} {port : ℕ} :
    parsePort text = .ok port ↔ PortDigits text ∧ port = ofDigits 10 text := by
  constructor
  · intro h
    unfold parsePort at h
    split_ifs at h
    split at h
    · next value hchars =>
      split_ifs at h with hrange
      cases h
      rcases fromChars_some hchars with ⟨digits, -, hdigits, htext, hvalue, -⟩
      rw [List.append_nil] at htext
      subst htext
      refine ⟨⟨fun d hd => ?_, ?_⟩, hvalue⟩
      · rw [← isSome_digitValue]
        exact hdigits d hd
      · rw [← hvalue]
        omega
    · cases h
  · rintro ⟨⟨hdigits, hpos, hle⟩, rfl⟩
    have hne : text ≠ [] := by
      rintro rfl
      exact absurd hpos (by decide)
    have hchars := fromChars_digits (2 ^ 32) [] hne
      (fun d hd => (isSome_digitValue d).trans (hdigits d hd)) (by simp) (by omega)
    rw [List.append_nil] at hchars
    have hempty : ¬ text.isEmpty = true := by simpa using hne
    have hrange : ¬ (ofDigits 10 text = 0 ∨ ofDigits 10 text > 65535) := by omega
    unfold parsePort
    rw [if_neg hempty, hchars]
    exact if_neg hrange

theorem portDigits_decimal {port : ℕ} (hpos : 0 < port) (hle : port ≤ 65535) :
    PortDigits (decimal port) := by
  rcases decimal_spec port with ⟨-, hdigits, hvalue⟩
  unfold PortDigits
  rw [hvalue]
  exact ⟨hdigits, hpos, hle⟩

/-- The suffix that is written for a port. -/
theorem exists_portSuffix {explicit : Bool} {port : ℕ} (h : Port explicit port) :
    ∃ suffix, portText explicit port = portSuffix suffix ∧ (∀ digits ∈ suffix, PortDigits digits) ∧
      suffix.isSome = explicit ∧ portValue suffix = port := by
  unfold Port at h
  cases explicit with
  | false => exact ⟨none, rfl, nofun, rfl, h.symm⟩
  | true =>
    refine ⟨some (decimal port), rfl, ?_, rfl, (decimal_spec port).2.2⟩
    rintro digits ⟨⟩
    exact portDigits_decimal h.1 h.2

theorem rfind_eq_none_iff {s : Bytes} {ch : Byte} : rfind s ch = none ↔ ch ∉ s := by
  unfold rfind
  rw [Option.map_eq_none_iff, List.findIdx?_eq_none_iff]
  constructor
  · intro h hmem
    simpa using h ch (List.mem_reverse.mpr hmem)
  · intro h x hx
    exact beq_eq_false_iff_ne.mpr fun heq => h (heq ▸ List.mem_reverse.mp hx)

theorem rfind_concat (a : Bytes) {b : Bytes} {ch : Byte} (hb : ch ∉ b) :
    rfind (a ++ ch :: b) ch = some a.length := by
  have hno : b.reverse.findIdx? (· == ch) = none := by
    rw [List.findIdx?_eq_none_iff]
    intro x hx
    exact beq_eq_false_iff_ne.mpr fun heq => hb (heq ▸ List.mem_reverse.mp hx)
  unfold rfind
  rw [List.reverse_append, List.reverse_cons, List.append_assoc, List.findIdx?_append, hno,
    List.singleton_append, List.findIdx?_cons]
  simp

theorem parseAuthority_named {inetPton6 : Bytes → Bool} {host : Bytes} {port : Option Bytes}
    (h : Host inetPton6 false host) (hport : ∀ digits ∈ port, PortDigits digits) :
    parseNamedAuthority { storage := [], schemeSize := 4 } 7 (host ++ portSuffix port) =
      .ok (authorityUrl false host port.isSome (portValue port)) := by
  have hcolon := (h.named rfl).1
  unfold parseNamedAuthority
  cases port with
  | none =>
    have hnone : rfind (host ++ portSuffix none) ':'.toUInt8 = none := by
      rw [rfind_eq_none_iff, portSuffix, Option.elim_none, List.append_nil]
      exact hcolon
    rw [hnone, portSuffix, Option.elim_none, List.append_nil]
    rfl
  | some digits =>
    have hread := parsePort_iff.mpr ⟨hport digits rfl, rfl⟩
    have hdigits : ':'.toUInt8 ∉ digits := fun hmem =>
      absurd ((hport digits rfl).1 _ hmem) (by decide)
    have hlast : rfind (host ++ ':'.toUInt8 :: digits) ':'.toUInt8 = some host.length :=
      rfind_concat host hdigits
    have hfirst : find (host ++ ':'.toUInt8 :: digits) [':'.toUInt8] 0 =
        some host.length := find_leads digits (leads_singleton.mpr hcolon)
    have hdrop : (host ++ ':'.toUInt8 :: digits).drop (host.length + 1) = digits := by
      rw [← List.singleton_append, ← List.append_assoc]
      exact List.drop_left' (by simp)
    have hempty : ¬ host.isEmpty = true := by simpa using h.nonempty
    rw [portSuffix, Option.elim_some, hlast]
    simp only [hfirst, List.take_left, hdrop, ne_eq, not_true_eq_false, if_false, hempty, hread]
    rfl

theorem parseAuthority_literal {inetPton6 : Bytes → Bool} {host : Bytes} {port : Option Bytes}
    (h : Host inetPton6 true host) (hport : ∀ digits ∈ port, PortDigits digits) :
    parseIpv6Authority inetPton6 { storage := [], schemeSize := 4 } 7
        ('['.toUInt8 :: (host ++ [']'.toUInt8]) ++ portSuffix port) =
      .ok (authorityUrl true host port.isSome (portValue port)) := by
  rcases h.valid rfl with ⟨hvalid, hclosing⟩
  have htext : '['.toUInt8 :: (host ++ [']'.toUInt8]) ++ portSuffix port =
      ('['.toUInt8 :: host) ++ ([']'.toUInt8] ++ portSuffix port) := by simp
  have hno : ']'.toUInt8 ∉ '['.toUInt8 :: host := by
    rw [List.mem_cons, not_or]
    exact ⟨by decide, hclosing⟩
  have hfind : find (('['.toUInt8 :: host) ++ ([']'.toUInt8] ++ portSuffix port))
      [']'.toUInt8] 0 = some (host.length + 1) := find_leads _ (leads_singleton.mpr hno)
  have hsubstr : substr (('['.toUInt8 :: host) ++ ([']'.toUInt8] ++ portSuffix port)) 1
      (host.length + 1 - 1) = host := by
    rw [substr, Nat.add_sub_cancel]
    exact List.take_left
  have hdrop : (('['.toUInt8 :: host) ++ ([']'.toUInt8] ++ portSuffix port)).drop
      (host.length + 1 + 1) = portSuffix port := by
    rw [← List.append_assoc]
    exact List.drop_left' (by simp)
  have hlength : ¬ host.length + 1 = 1 := by
    have hpos := List.length_pos_iff.mpr h.nonempty
    omega
  rw [htext]
  unfold parseIpv6Authority
  rw [hfind]
  simp only [hsubstr, hdrop, hvalid, hlength, if_false, Bool.not_true, Bool.false_eq_true]
  cases port with
  | none => rfl
  | some digits =>
    have hread := parsePort_iff.mpr ⟨hport digits rfl, rfl⟩
    rw [portSuffix, Option.elim_some]
    simp only [hread]
    rfl

/-- An authority that is written from a host and the digits of a port is read as they are. -/
theorem parseAuthority_suffix {inetPton6 : Bytes → Bool} {literal : Bool} {host : Bytes}
    {port : Option Bytes} (h : Host inetPton6 literal host)
    (hport : ∀ digits ∈ port, PortDigits digits) :
    parseAuthority inetPton6 { storage := [], schemeSize := 4 } 7
        (hostText literal host ++ portSuffix port) =
      .ok (authorityUrl literal host port.isSome (portValue port)) := by
  have hplain : ∀ ch, ch ∉ host → ch ∉ bytes "[]:" → isDigit ch = false →
      (hostText literal host ++ portSuffix port).contains ch = false := by
    intro ch hhost hmark hdigit
    have hbrackets : bytes "[]" ⊆ bytes "[]:" := by decide
    rw [← Bool.not_eq_true, List.contains_iff_mem]
    intro hmem
    rcases List.mem_append.mp hmem with hmem | hmem
    · rcases mem_hostText hmem with hmem | hmem
      · exact hhost hmem
      · exact hmark (hbrackets hmem)
    · cases port with
      | none => cases hmem
      | some digits =>
        rcases List.mem_cons.mp hmem with hmem | hmem
        · exact hmark (hmem ▸ by decide)
        · rw [(hport digits rfl).1 ch hmem] at hdigit
          cases hdigit
  have hat := hplain '@'.toUInt8 h.plain.1 (by decide) (by decide)
  have hpercent := hplain '%'.toUInt8 h.plain.2 (by decide) (by decide)
  unfold parseAuthority
  rw [hat, hpercent, Bool.or_self, if_neg Bool.false_ne_true]
  cases literal with
  | true => exact (if_pos rfl).trans (parseAuthority_literal h hport)
  | false =>
    have hhead : (host ++ portSuffix port).head? ≠ some '['.toUInt8 := by
      rw [List.head?_append_of_ne_nil _ h.nonempty]
      exact (h.named rfl).2
    exact (if_neg hhead).trans (parseAuthority_named h hport)

/-- The authority that is written from a host and a port is read as they are. -/
theorem parseAuthority_text {inetPton6 : Bytes → Bool} {literal : Bool} {host : Bytes}
    {explicit : Bool} {port : ℕ} (h : Host inetPton6 literal host) (hport : Port explicit port) :
    parseAuthority inetPton6 { storage := [], schemeSize := 4 } 7
        (hostText literal host ++ portText explicit port) =
      .ok (authorityUrl literal host explicit port) := by
  rcases exists_portSuffix hport with ⟨suffix, htext, hdigits, hexplicit, hvalue⟩
  rw [htext, parseAuthority_suffix h hdigits, hexplicit, hvalue]

/-! ## Analysing an authority -/

/-- What an analysis finds in an authority. -/
def Analysed (inetPton6 : Bytes → Bool) (authority : Bytes) (base : Url) : Prop :=
  ∃ literal host explicit port, Host inetPton6 literal host ∧ Port explicit port ∧
    base = authorityUrl literal host explicit port ∧
    substr (bytes "http://" ++ authority) base.hostBegin base.hostSize = host

theorem substr_authority (authority : Bytes) (offset count : ℕ) :
    substr (bytes "http://" ++ authority) (7 + offset) count = substr authority offset count := by
  have hdrop : (bytes "http://" ++ authority).drop (7 + offset) = authority.drop offset := by
    rw [← List.drop_drop]
    rfl
  rw [substr, hdrop, substr]

theorem exists_named {inetPton6 : Bytes → Bool} {authority : Bytes} {base : Url}
    (h : parseNamedAuthority { storage := [], schemeSize := 4 } 7 authority = .ok base)
    (hsize : base.hostSize ≠ 0) (hplain : '@'.toUInt8 ∉ authority ∧ '%'.toUInt8 ∉ authority)
    (hhead : authority.head? ≠ some '['.toUInt8) :
    ∃ host port, authority = host ++ portSuffix port ∧ Host inetPton6 false host ∧
      ∀ digits ∈ port, PortDigits digits := by
  unfold parseNamedAuthority at h
  cases hlast : rfind authority ':'.toUInt8 with
  | none =>
    rw [hlast] at h
    cases h
    have hne : authority ≠ [] := fun hnil => hsize (congrArg List.length hnil)
    refine ⟨authority, none, (List.append_nil _).symm,
      ⟨hne, hplain, fun htrue => absurd htrue (by decide), fun _ => ?_⟩, nofun⟩
    exact ⟨rfind_eq_none_iff.mp hlast, hhead⟩
  | some colon =>
    simp only [hlast] at h
    split_ifs at h with hfirst hempty
    rw [ne_eq, not_not] at hfirst
    have hcut := cut_eq_find [':'.toUInt8] authority
    rw [hfirst, Option.map_some] at hcut
    rcases cut_eq_some_iff.mp hcut with ⟨htext, hleads⟩
    have hne : authority.take colon ≠ [] := by simpa using hempty
    cases hport : parsePort (authority.drop (colon + 1)) with
    | error e => rw [hport] at h; cases h
    | ok port =>
      refine ⟨authority.take colon, some (authority.drop (colon + 1)), htext,
        ⟨hne, ?_, fun htrue => absurd htrue (by decide), fun _ => ⟨?_, ?_⟩⟩, ?_⟩
      · exact ⟨fun hmem => hplain.1 (List.mem_of_mem_take hmem),
          fun hmem => hplain.2 (List.mem_of_mem_take hmem)⟩
      · exact leads_singleton.mp hleads
      · rw [htext, List.head?_append_of_ne_nil _ hne] at hhead
        exact hhead
      · rintro digits ⟨⟩
        exact (parsePort_iff.mp hport).1

theorem exists_literal {inetPton6 : Bytes → Bool} {authority : Bytes} {base : Url}
    (h : parseIpv6Authority inetPton6 { storage := [], schemeSize := 4 } 7 authority = .ok base)
    (hplain : '@'.toUInt8 ∉ authority ∧ '%'.toUInt8 ∉ authority)
    (hhead : authority.head? = some '['.toUInt8) :
    ∃ host port, authority = '['.toUInt8 :: (host ++ [']'.toUInt8]) ++ portSuffix port ∧
      Host inetPton6 true host ∧ ∀ digits ∈ port, PortDigits digits := by
  unfold parseIpv6Authority at h
  cases hfind : find authority [']'.toUInt8] 0 with
  | none => rw [hfind] at h; cases h
  | some closing =>
    simp only [hfind] at h
    split_ifs at h with hone hvalid
    rw [Bool.not_eq_true', Bool.not_eq_false] at hvalid
    have hcut := cut_eq_find [']'.toUInt8] authority
    rw [hfind, Option.map_some] at hcut
    rcases cut_eq_some_iff.mp hcut with ⟨hwhole, hleads⟩
    have hpart : substr authority 1 (closing - 1) = (authority.take closing).drop 1 :=
      List.drop_take.symm
    have hmem : ∀ ch ∈ substr authority 1 (closing - 1), ch ∈ authority ∧ ch ≠ ']'.toUInt8 := by
      intro ch hch
      rw [hpart] at hch
      have htake := List.mem_of_mem_drop hch
      exact ⟨List.mem_of_mem_take htake, fun heq => leads_singleton.mp hleads (heq ▸ htake)⟩
    have hopen : authority.take closing = '['.toUInt8 :: substr authority 1 (closing - 1) := by
      rw [hpart]
      cases htake : authority.take closing with
      | nil =>
        rw [htake] at hwhole
        rw [hwhole] at hhead
        exact absurd (Option.some.inj hhead) (by decide)
      | cons ch front =>
        rw [hwhole, htake] at hhead
        cases hhead
        rfl
    have htext : ∀ rest, authority.drop (closing + 1) = rest →
        authority = '['.toUInt8 :: (substr authority 1 (closing - 1) ++ [']'.toUInt8]) ++ rest := by
      intro rest hrest
      have hjoin : authority = authority.take closing ++ ([']'.toUInt8] ++ rest) := by
        rw [← hrest]
        exact hwhole
      rw [hopen] at hjoin
      simpa using hjoin
    have hhost : Host inetPton6 true (substr authority 1 (closing - 1)) := by
      refine ⟨fun hnil => ?_, ?_, fun _ => ⟨hvalid, fun hin => (hmem _ hin).2 rfl⟩,
        fun hfalse => absurd hfalse (by decide)⟩
      · rw [hnil] at hvalid
        cases hvalid
      · exact ⟨fun hin => hplain.1 (hmem _ hin).1, fun hin => hplain.2 (hmem _ hin).1⟩
    cases hdrop : authority.drop (closing + 1) with
    | nil => exact ⟨_, none, htext [] hdrop, hhost, nofun⟩
    | cons front remainder =>
      simp only [hdrop] at h
      split_ifs at h with hcolon
      rw [bne_iff_ne, ne_eq, not_not] at hcolon
      subst hcolon
      cases hport : parsePort remainder with
      | error e => rw [hport] at h; cases h
      | ok port =>
        refine ⟨_, some remainder, htext _ hdrop, hhost, ?_⟩
        rintro digits ⟨⟩
        exact (parsePort_iff.mp hport).1

/-- What the analysis of an authority accepts. -/
theorem parseAuthority_iff {inetPton6 : Bytes → Bool} {authority : Bytes} {base : Url} :
    (parseAuthority inetPton6 { storage := [], schemeSize := 4 } 7 authority = .ok base ∧
      base.hostSize ≠ 0) ↔ ∃ literal host port, authority = hostText literal host ++ portSuffix port ∧
      Host inetPton6 literal host ∧ (∀ digits ∈ port, PortDigits digits) ∧
      base = authorityUrl literal host port.isSome (portValue port) := by
  constructor
  · rintro ⟨h, hsize⟩
    have hparts : ∃ literal host port, authority = hostText literal host ++ portSuffix port ∧
        Host inetPton6 literal host ∧ ∀ digits ∈ port, PortDigits digits := by
      unfold parseAuthority at h
      split_ifs at h with hplain hhead
      all_goals
        rw [Bool.or_eq_true, not_or, List.contains_iff_mem, List.contains_iff_mem] at hplain
      · exact ⟨true, exists_literal h hplain hhead⟩
      · exact ⟨false, exists_named h hsize hplain hhead⟩
    rcases hparts with ⟨literal, host, port, rfl, hhost, hport⟩
    refine ⟨literal, host, port, rfl, hhost, hport, ?_⟩
    rw [parseAuthority_suffix hhost hport] at h
    exact (Except.ok.inj h).symm
  · rintro ⟨literal, host, port, rfl, hhost, hport, rfl⟩
    refine ⟨parseAuthority_suffix hhost hport, ?_⟩
    exact fun hzero => hhost.nonempty (List.length_eq_zero_iff.mp hzero)

theorem substr_hostText (literal : Bool) (host rest : Bytes) (explicit : Bool) (port : ℕ) :
    substr (bytes "http://" ++ (hostText literal host ++ rest))
      (authorityUrl literal host explicit port).hostBegin host.length = host := by
  cases literal with
  | false =>
    have hsubstr := substr_authority (host ++ rest) 0 host.length
    exact hsubstr.trans List.take_left
  | true =>
    have hsubstr := substr_authority ('['.toUInt8 :: (host ++ [']'.toUInt8]) ++ rest) 1 host.length
    refine hsubstr.trans ?_
    rw [substr, List.cons_append, List.drop_succ_cons, List.drop_zero, List.append_assoc]
    exact List.take_left

theorem port_of_digits {port : Option Bytes} (h : ∀ digits ∈ port, PortDigits digits) :
    Port port.isSome (portValue port) := by
  cases port with
  | none => rfl
  | some digits => exact (h digits rfl).2

/-- The analysis finds a host and a port. -/
theorem exists_host {inetPton6 : Bytes → Bool} {authority : Bytes} {base : Url}
    (h : parseAuthority inetPton6 { storage := [], schemeSize := 4 } 7 authority = .ok base)
    (hsize : base.hostSize ≠ 0) : Analysed inetPton6 authority base := by
  rcases parseAuthority_iff.mp ⟨h, hsize⟩ with ⟨literal, host, port, rfl, hhost, hport, rfl⟩
  exact ⟨literal, host, port.isSome, portValue port, hhost, port_of_digits hport, rfl,
    substr_hostText _ _ _ _ _⟩

/-- The authority that is written from a URL is read as the one it comes from. -/
theorem parseAuthority_generatedHost {inetPton6 : Bytes → Bool} {authority : Bytes} (tail : Bytes)
    {base : Url}
    (h : parseAuthority inetPton6 { storage := [], schemeSize := 4 } 7 authority = .ok base)
    (hsize : base.hostSize ≠ 0) :
    parseAuthority inetPton6 { storage := [], schemeSize := 4 } 7
        (generatedHost (assemble base authority tail)) = .ok base ∧
      ∀ tail', (assemble base (generatedHost (assemble base authority tail)) tail').host =
        (assemble base authority tail).host := by
  have hinside := (host_inside h).2
  rcases exists_host h hsize with ⟨literal, host, explicit, port, hhost, hport, hbase, htext⟩
  have hname : (assemble base authority tail).host = host :=
    (assemble_host base authority tail hinside).trans htext
  have hgenerated : generatedHost (assemble base authority tail) =
      hostText literal host ++ portText explicit port := by
    rw [generatedHost_eq, hname]
    rw [hbase]
    rfl
  have hread : parseAuthority inetPton6 { storage := [], schemeSize := 4 } 7
      (generatedHost (assemble base authority tail)) = .ok base := by
    rw [hgenerated, parseAuthority_text hhost hport, hbase]
  refine ⟨hread, fun tail' => ?_⟩
  have hsubstr := substr_hostText literal host (portText explicit port) explicit port
  have hagain := assemble_host base _ tail' (host_inside hread).2
  rw [hagain, hname, hgenerated]
  rw [hbase]
  exact hsubstr

/-! ## URLs with the origin of another one -/

variable {inetPton6 : Bytes → Bool} {input : Bytes} {u : Url}

theorem mem_host (h : parse inetPton6 input = .ok u) {ch : Byte} (hch : ch ∈ u.host) :
    endsAuthority ch = false ∧ ch ≠ '#'.toUInt8 ∧ forbiddenUrlByte ch = false := by
  rcases parse_iff.mp h with ⟨_, authority, tail, fragment, base, _, hshape, _, hbase, _, _, rfl⟩
  rcases host_inside hbase with ⟨hbegin, hend⟩
  rcases Nat.exists_eq_add_of_le hbegin with ⟨offset, hoffset⟩
  rw [assemble_host _ _ _ hend, hoffset, substr_authority] at hch
  have hmem : ch ∈ authority := List.mem_of_mem_drop (List.mem_of_mem_take hch)
  refine ⟨hshape.inside ch hmem, ?_, hshape.good ch (List.mem_append_left _ hmem)⟩
  rintro rfl
  exact hshape.noHash (List.mem_append_left _ hmem)

/-- The bytes of an authority that is written from a URL. -/
theorem mem_generatedHost (h : parse inetPton6 input = .ok u) :
    ∀ ch ∈ generatedHost u,
      endsAuthority ch = false ∧ ch ≠ '#'.toUInt8 ∧ forbiddenUrlByte ch = false := by
  apply forall_generatedHost
  · exact fun b hb => mem_host h hb
  · exact forall_byte (by decide)

/-- What may stand behind an authority. -/
def usable (text : Bytes) : Bool := !containsForbiddenUrlByte text && validPercentEscapes text

theorem containsForbidden_append (a b : Bytes) : containsForbiddenUrlByte (a ++ b) =
    (containsForbiddenUrlByte a || containsForbiddenUrlByte b) := List.any_append

theorem mem_buildOrigin (h : parse inetPton6 input = .ok u) {ch : Byte} (hch : ch ∈ buildOrigin u) :
    ch ≠ '#'.toUInt8 ∧ forbiddenUrlByte ch = false := by
  have hscheme : ∀ b : Byte, b ∈ bytes "http://" → b ≠ '#'.toUInt8 ∧ forbiddenUrlByte b = false :=
    forall_byte (by decide)
  rw [buildOrigin_eq, List.mem_append] at hch
  rcases hch with hch | hch
  · exact hscheme ch hch
  · exact (mem_generatedHost h ch hch).2

theorem withSlash_of_head {tail : Bytes} (h : tail.head? = some '/'.toUInt8) :
    withSlash tail = tail := by
  refine if_neg ?_
  rw [h]
  rintro (rfl | hquery)
  · cases h
  · exact absurd (Option.some.inj hquery) (by decide)

theorem shape_origin (h : parse inetPton6 input = .ok u) {tail : Bytes}
    (hhead : tail.head? = some '/'.toUInt8) (hhash : '#'.toUInt8 ∉ tail)
    (hgood : containsForbiddenUrlByte tail = false) :
    Shape (bytes "http") (generatedHost u) tail [] := by
  have hgenerated := mem_generatedHost h
  refine ⟨by decide, fun ch hch => (hgenerated ch hch).1, ?_, ?_, nofun, ?_⟩
  · intro ch hch
    rw [hhead] at hch
    cases hch
    decide
  · rw [List.mem_append, not_or]
    exact ⟨fun hmem => (hgenerated _ hmem).2.1 rfl, hhash⟩
  · intro ch hch
    rw [List.append_nil] at hch
    rcases List.mem_append.mp hch with hch | hch
    · exact (hgenerated ch hch).2.2
    · exact Bool.eq_false_iff.mpr (List.any_eq_false.mp hgood ch hch)

/-- A path and a query behind the origin of a URL name a resource of the same server. -/
theorem parse_origin (h : parse inetPton6 input = .ok u) {tail : Bytes}
    (hhead : tail.head? = some '/'.toUInt8) (hhash : '#'.toUInt8 ∉ tail) :
    ∃ v, v.host = u.host ∧ v.port = u.port ∧ v.hasExplicitPort = u.hasExplicitPort ∧
      v.hostIsIpv6Literal = u.hostIsIpv6Literal ∧ v.target = tail ∧
      parse inetPton6 (buildOrigin u ++ tail) =
        if usable tail = true then .ok v else .error { code := .invalidUrl } := by
  have htarget := withSlash_of_head hhead
  have hshape := shape_origin h hhead hhash
  have htext : buildOrigin u ++ tail =
      bytes "http" ++ (bytes "://" ++ (generatedHost u ++ (tail ++ []))) := by
    rw [buildOrigin_eq, List.append_nil, List.append_assoc]
    rfl
  rw [htext]
  rcases parse_iff.mp h with ⟨_, authority, tail', _, base, _, _, _, hbase, hsize, _, rfl⟩
  rcases parseAuthority_generatedHost tail' hbase hsize with ⟨hagain, hhost⟩
  have hne : generatedHost (assemble base authority tail') ≠ [] := by
    intro hnil
    rw [hnil] at hagain
    cases hagain
    exact hsize rfl
  refine ⟨assemble base (generatedHost (assemble base authority tail')) tail, hhost tail, rfl,
    rfl, rfl, (assemble_target _ _ _).trans htarget, ?_⟩
  unfold usable
  cases hforbidden : containsForbiddenUrlByte tail with
  | true =>
    have hrefused : containsForbiddenUrlByte (bytes "http" ++ (bytes "://" ++
        (generatedHost (assemble base authority tail') ++ (tail ++ [])))) = true := by
      simp only [containsForbidden_append, hforbidden, Bool.true_or, Bool.or_true]
    unfold parse
    rw [hrefused, Bool.or_true]
    rfl
  | false =>
    rw [(hshape hforbidden).parse_eq, if_neg hne]
    simp only [hagain, if_neg hsize, htarget, Bool.not_false, Bool.true_and]

end CppRequest.Url
