import CppRequest.UrlAuthority

/-!
# The grammar of URLs

What a URL is, said of a text and its parts, and not of positions in it. `Url::parse` accepts the
texts that can be cut into such parts, and the views of the URL are these parts.
-/

namespace CppRequest.Url

open Search

/-! ## Parts -/

structure Authority where
  literal : Bool
  host : Bytes
  port : Option Bytes

namespace Authority

/-- A literal stands in brackets, and a port behind a colon. -/
def text (a : Authority) : Bytes := hostText a.literal a.host ++ portSuffix a.port

structure Valid (inetPton6 : Bytes → Bool) (a : Authority) : Prop where
  plain : '@'.toUInt8 ∉ a.text ∧ '%'.toUInt8 ∉ a.text
  literal : a.literal = true → validIpv6Literal inetPton6 a.host = true
  named : a.literal = false → a.host ≠ [] ∧ a.host.head? ≠ some '['.toUInt8 ∧ ':'.toUInt8 ∉ a.host
  port : ∀ digits, a.port = some digits →
    (∀ d ∈ digits, isDigit d = true) ∧ 1 ≤ ofDigits 10 digits ∧ ofDigits 10 digits ≤ 65535

end Authority

structure Parts where
  scheme : Bytes
  authority : Authority
  tail : Bytes
  fragment : Bytes

/-- Two hexadecimal digits follow every percent sign. -/
def Escaped (text : Bytes) : Prop :=
  ∀ before after, text = before ++ '%'.toUInt8 :: after →
    ∃ hi lo rest, after = hi :: lo :: rest ∧ isHexDigit hi = true ∧ isHexDigit lo = true

/-- The text is a URL with these parts. -/
structure Parts.Cut (inetPton6 : Bytes → Bool) (input : Bytes) (p : Parts) : Prop where
  text : input = p.scheme ++ (bytes "://" ++ (p.authority.text ++ (p.tail ++ p.fragment)))
  printable : ∀ b ∈ input, 0x20 < b ∧ b ≠ 0x7f
  scheme : asciiIequals p.scheme (bytes "http") = true
  noHash : '#'.toUInt8 ∉ p.scheme ++ (bytes "://" ++ (p.authority.text ++ p.tail))
  fragment : p.fragment = [] ∨ p.fragment.head? = some '#'.toUInt8
  longest : '/'.toUInt8 ∉ p.authority.text ∧ '?'.toUInt8 ∉ p.authority.text
  tail : p.tail = [] ∨ p.tail.head? = some '/'.toUInt8 ∨ p.tail.head? = some '?'.toUInt8
  authority : p.authority.Valid inetPton6
  escaped : Escaped p.tail

/-- The views of a URL are its parts. -/
structure Views (u : Url) (p : Parts) : Prop where
  bounds : u.schemeSize ≤ u.storage.length ∧ u.hostBegin + u.hostSize ≤ u.storage.length ∧
    u.pathBegin + u.pathSize ≤ u.storage.length ∧ u.queryBegin + u.querySize ≤ u.storage.length
  scheme : u.scheme = bytes "http"
  host : u.host = p.authority.host
  literal : u.hostIsIpv6Literal = p.authority.literal
  explicitPort : u.hasExplicitPort = p.authority.port.isSome
  port : u.port = p.authority.port.elim 80 (ofDigits 10)
  target : u.target =
    if p.tail = [] ∨ p.tail.head? = some '?'.toUInt8 then '/'.toUInt8 :: p.tail else p.tail
  path : u.path.head? = some '/'.toUInt8 ∧ '?'.toUInt8 ∉ u.path
  query : u.target = u.path ∧ u.query = [] ∨ u.target = u.path ++ '?'.toUInt8 :: u.query
  storage : u.storage = bytes "http://" ++ (p.authority.text ++ u.target)

/-! ## Escapes -/

theorem validPercentEscapes_iff {text : Bytes} : validPercentEscapes text = true ↔ Escaped text := by
  have hhex : isHexDigit '%'.toUInt8 = false := by decide
  induction text using validPercentEscapes.induct with
  | case1 => exact iff_of_true rfl fun before after h => absurd h (by simp)
  | case2 ch text hch ih =>
    have hne : ch ≠ '%'.toUInt8 := by simpa using hch
    rw [validPercentEscapes_cons _ hne]
    refine Iff.trans ih ?_
    constructor
    · intro h before after heq
      cases before with
      | nil =>
        cases heq
        exact absurd rfl hne
      | cons a before =>
        cases heq
        exact h before after rfl
    · intro h before after heq
      exact h (ch :: before) after (by rw [heq]; rfl)
  | case3 ch hch hi lo text ih =>
    have heq : ch = '%'.toUInt8 := by simpa using hch
    rw [heq, validPercentEscapes_escape, Bool.and_eq_true, Bool.and_eq_true]
    refine Iff.trans (and_congr_right fun _ => ih) ?_
    constructor
    · rintro ⟨⟨hhi, hlo⟩, hrest⟩ before after heq
      -- neither of the two digits is a percent sign
      rcases before with _ | ⟨a, _ | ⟨b, _ | ⟨c, before⟩⟩⟩
      · cases heq
        exact ⟨hi, lo, text, rfl, hhi, hlo⟩
      · cases heq
        rw [hhex] at hhi
        cases hhi
      · cases heq
        rw [hhex] at hlo
        cases hlo
      · cases heq
        exact hrest before after rfl
    · intro h
      obtain ⟨hi', lo', rest, hafter, hhi, hlo⟩ := h [] _ rfl
      cases hafter
      exact ⟨⟨hhi, hlo⟩, fun before after heq =>
        h ('%'.toUInt8 :: hi :: lo :: before) after (by rw [heq]; rfl)⟩
  | case4 ch text hch hshort =>
    have heq : ch = '%'.toUInt8 := by simpa using hch
    rw [heq]
    refine iff_of_false ?_ fun h => ?_
    · unfold validPercentEscapes
      rw [if_neg (by decide)]
      split
      · exact (hshort _ _ _ rfl).elim
      · exact Bool.false_ne_true
    · obtain ⟨hi, lo, rest, hafter, -⟩ := h [] _ rfl
      exact hshort hi lo rest hafter

theorem validPercentEscapes_withSlash (tail : Bytes) :
    validPercentEscapes (withSlash tail) = validPercentEscapes tail := by
  unfold withSlash
  split_ifs
  · exact validPercentEscapes_cons tail (by decide)
  · rfl

/-! ## Cutting a text -/

theorem forbiddenUrlByte_iff (b : Byte) : forbiddenUrlByte b = false ↔ 0x20 < b ∧ b ≠ 0x7f := by
  revert b
  exact forall_byte (by decide)

theorem endsAuthority_iff (ch : Byte) :
    endsAuthority ch = true ↔ ch = '/'.toUInt8 ∨ ch = '?'.toUInt8 := by
  revert ch
  exact forall_byte (by decide)

theorem outside_iff {tail : Bytes} : (∀ ch, tail.head? = some ch → endsAuthority ch = true) ↔
    tail = [] ∨ tail.head? = some '/'.toUInt8 ∨ tail.head? = some '?'.toUInt8 := by
  cases tail with
  | nil => exact iff_of_true nofun (.inl rfl)
  | cons ch tail =>
    simp only [List.head?_cons, Option.some.injEq, reduceCtorEq, false_or]
    rw [← endsAuthority_iff]
    exact ⟨fun h => h ch rfl, fun h _ heq => heq ▸ h⟩

theorem hash_iff {fragment : Bytes} : (∀ ch, fragment.head? = some ch → ch = '#'.toUInt8) ↔
    fragment = [] ∨ fragment.head? = some '#'.toUInt8 := by
  cases fragment with
  | nil => exact iff_of_true nofun (.inl rfl)
  | cons ch fragment => simp

namespace Parts

variable {inetPton6 : Bytes → Bool} {input : Bytes} {p : Parts}

theorem Cut.shape (h : p.Cut inetPton6 input) :
    Shape p.scheme p.authority.text p.tail p.fragment := by
  refine ⟨h.scheme, fun ch hch => ?_, outside_iff.mpr h.tail, fun hmem => ?_, hash_iff.mpr h.fragment,
    fun ch hch => ?_⟩
  · rw [← Bool.not_eq_true, endsAuthority_iff]
    rintro (rfl | rfl)
    · exact h.longest.1 hch
    · exact h.longest.2 hch
  · exact h.noHash (List.mem_append_right _ (List.mem_append_right _ hmem))
  · apply (forbiddenUrlByte_iff ch).mpr
    apply h.printable ch
    rw [h.text]
    exact List.mem_append_right _ (List.mem_append_right _ hch)

theorem Cut.host (h : p.Cut inetPton6 input)
    (hpton : ∀ text, inetPton6 text = true → ']'.toUInt8 ∉ text) :
    Host inetPton6 p.authority.literal p.authority.host := by
  have hhost : p.authority.host ⊆ p.authority.text := by
    refine List.Subset.trans ?_ (List.subset_append_left _ _)
    unfold hostText
    split_ifs
    · exact fun ch hch => List.mem_cons_of_mem _ (List.mem_append_left _ hch)
    · exact fun ch hch => hch
  refine ⟨?_, ⟨fun hmem => h.authority.plain.1 (hhost hmem), fun hmem =>
    h.authority.plain.2 (hhost hmem)⟩, fun hliteral => ⟨h.authority.literal hliteral, ?_⟩,
    fun hliteral => (h.authority.named hliteral).2.symm⟩
  · cases hliteral : p.authority.literal with
    | false => exact (h.authority.named hliteral).1
    | true =>
      intro hnil
      have hvalid := h.authority.literal hliteral
      rw [hnil] at hvalid
      cases hvalid
  · have hvalid := h.authority.literal hliteral
    unfold validIpv6Literal at hvalid
    rw [Bool.and_eq_true] at hvalid
    exact hpton _ hvalid.2

/-- A text that is cut into parts is parsed as them. -/
theorem Cut.parse (h : p.Cut inetPton6 input)
    (hpton : ∀ text, inetPton6 text = true → ']'.toUInt8 ∉ text) :
    parse inetPton6 input = .ok (assemble (authorityUrl p.authority.literal p.authority.host
      p.authority.port.isSome (portValue p.authority.port)) p.authority.text p.tail) := by
  have hhost := h.host hpton
  have hread := parseAuthority_iff.mpr ⟨p.authority.literal, p.authority.host, p.authority.port,
    rfl, hhost, h.authority.port, rfl⟩
  have hescapes : validPercentEscapes (withSlash p.tail) = true := by
    rw [validPercentEscapes_withSlash]
    exact validPercentEscapes_iff.mpr h.escaped
  refine parse_iff.mpr ⟨p.scheme, p.authority.text, p.tail, p.fragment, _, h.text, h.shape,
    fun hnil => ?_, hread.1, hread.2, hescapes, rfl⟩
  have hempty := List.append_eq_nil_iff.mp hnil
  have hne := hhost.nonempty
  unfold hostText at hempty
  split_ifs at hempty
  · cases hempty.1
  · exact hne hempty.1

theorem exists_cut {u : Url} (h : Url.parse inetPton6 input = .ok u) :
    ∃ p : Parts, p.Cut inetPton6 input := by
  obtain ⟨scheme, authority, tail, fragment, base, htext, hshape, -, hbase, hsize, hescapes, -⟩ :=
    parse_iff.mp h
  obtain ⟨literal, host, port, hauthority, hhost, hport, -⟩ := parseAuthority_iff.mp ⟨hbase, hsize⟩
  have hplain : '@'.toUInt8 ∉ authority ∧ '%'.toUInt8 ∉ authority := by
    unfold parseAuthority at hbase
    split_ifs at hbase with hplain
    all_goals
      rw [Bool.or_eq_true, not_or, List.contains_iff_mem, List.contains_iff_mem] at hplain
      exact hplain
  subst hauthority
  refine ⟨⟨scheme, ⟨literal, host, port⟩, tail, fragment⟩, htext, fun b hb => ?_, hshape.scheme,
    hshape.hash_not_mem, hash_iff.mp hshape.hash, ⟨fun hmem => ?_, fun hmem => ?_⟩,
    outside_iff.mp hshape.outside, ⟨hplain, fun hliteral => (hhost.valid hliteral).1,
      fun hliteral => ⟨hhost.nonempty, (hhost.named hliteral).symm⟩, fun digits hdigits =>
        hport digits hdigits⟩, ?_⟩
  · have hgood : ∀ b ∈ input, forbiddenUrlByte b = false := by
      intro b hb
      rw [htext] at hb
      rcases List.mem_append.mp hb with hb | hb
      · exact (hshape.mem_scheme hb).2.2.2
      rcases List.mem_append.mp hb with hb | hb
      · have hseparator : ∀ b : Byte, b ∈ bytes "://" → forbiddenUrlByte b = false :=
          forall_byte (by decide)
        exact hseparator b hb
      · exact hshape.good b hb
    exact (forbiddenUrlByte_iff b).mp (hgood b hb)
  · exact absurd (hshape.inside _ hmem) (by decide)
  · exact absurd (hshape.inside _ hmem) (by decide)
  · rw [validPercentEscapes_withSlash] at hescapes
    exact validPercentEscapes_iff.mp hescapes

end Parts

/-! ## Views -/

section Assemble

variable (base : Url) (authority : Bytes) {tail : Bytes}

/-- The question mark that ends the path. -/
theorem questionMark_cases (target : Bytes) :
    (questionMark target = none ∧ '?'.toUInt8 ∉ target) ∨
    ∃ front back, questionMark target = some front.length ∧ '?'.toUInt8 ∉ front ∧
      target = front ++ '?'.toUInt8 :: back := by
  have hcut := cut_eq_find ['?'.toUInt8] target
  unfold questionMark
  cases hfind : find target ['?'.toUInt8] 0 with
  | none =>
    rw [hfind] at hcut
    have hno := cut_eq_none_iff.mp hcut
    exact .inl ⟨rfl, fun hmem => hno (List.singleton_infix_iff _ _ |>.mpr hmem)⟩
  | some marker =>
    rw [hfind, Option.map_some] at hcut
    obtain ⟨htext, hleads⟩ := cut_eq_some_iff.mp hcut
    have hle := (find_eq_some hfind).2
    have hlength : (target.take marker).length = marker := by
      rw [List.length_take]
      exact Nat.min_eq_left (Nat.le_of_add_right_le hle)
    exact .inr ⟨target.take marker, target.drop (marker + 1), by rw [hlength],
      leads_singleton.mp hleads, htext⟩

theorem length_storage : (assemble base authority tail).storage.length =
    7 + authority.length + (withSlash tail).length := by
  show (bytes "http://" ++ (authority ++ withSlash tail)).length = _
  rw [← List.append_assoc, List.length_append, List.length_append]
  rfl

theorem assemble_drop (n : ℕ) : (assemble base authority tail).storage.drop
    (7 + authority.length + n) = (withSlash tail).drop n := by
  rw [← List.drop_drop]
  exact congrArg (List.drop n) (assemble_target base authority tail)

/-- The target is the path, or the path and the query. -/
theorem assemble_split (hhead : (withSlash tail).head? = some '/'.toUInt8) :
    ((assemble base authority tail).path.head? = some '/'.toUInt8 ∧
      '?'.toUInt8 ∉ (assemble base authority tail).path) ∧
    (withSlash tail = (assemble base authority tail).path ∧ (assemble base authority tail).query = [] ∨
      withSlash tail =
        (assemble base authority tail).path ++ '?'.toUInt8 :: (assemble base authority tail).query) ∧
    (assemble base authority tail).pathBegin + (assemble base authority tail).pathSize ≤
      (assemble base authority tail).storage.length ∧
    (assemble base authority tail).queryBegin + (assemble base authority tail).querySize ≤
      (assemble base authority tail).storage.length := by
  have hpathBegin : (assemble base authority tail).pathBegin = 7 + authority.length := rfl
  have hpathSize : (assemble base authority tail).pathSize =
    (questionMark (withSlash tail)).getD (withSlash tail).length := rfl
  have hqueryBegin : (assemble base authority tail).queryBegin = 7 + authority.length +
    (questionMark (withSlash tail)).elim (withSlash tail).length (· + 1) := rfl
  have hquerySize : (assemble base authority tail).querySize =
    (questionMark (withSlash tail)).elim 0 fun marker =>
      (withSlash tail).length - (marker + 1) := rfl
  have hquery : (assemble base authority tail).query = ((withSlash tail).drop
      ((questionMark (withSlash tail)).elim (withSlash tail).length (· + 1))).take
        (assemble base authority tail).querySize := by
    rw [← assemble_drop base authority, ← hqueryBegin]
    rfl
  rw [hquery, assemble_path, length_storage, hpathBegin, hpathSize, hqueryBegin, hquerySize]
  rcases questionMark_cases (withSlash tail) with ⟨hmark, hno⟩ | ⟨front, back, hmark, hno, htext⟩
  · rw [hmark, Option.getD_none, Option.elim_none, Option.elim_none, List.take_length,
      List.drop_length]
    exact ⟨⟨hhead, hno⟩, .inl ⟨rfl, rfl⟩, Nat.le_refl _, Nat.le_refl _⟩
  · have hfront : front.head? = some '/'.toUInt8 := by
      cases front with
      | nil =>
        rw [htext] at hhead
        exact absurd (Option.some.inj hhead) (by decide)
      | cons ch front =>
        rw [htext] at hhead
        exact hhead
    have hdrop : (front ++ '?'.toUInt8 :: back).drop (front.length + 1) = back := by
      rw [← List.singleton_append, ← List.append_assoc]
      exact List.drop_left' (by simp)
    have hlength : (front ++ '?'.toUInt8 :: back).length = front.length + 1 + back.length := by
      rw [List.length_append, List.length_cons]
      omega
    rw [hmark, Option.getD_some, Option.elim_some, Option.elim_some, htext, List.take_left, hdrop,
      hlength, Nat.add_sub_cancel_left, List.take_length]
    refine ⟨⟨hfront, hno⟩, .inr rfl, ?_, ?_⟩
    · omega
    · omega

end Assemble

namespace Parts

variable {inetPton6 : Bytes → Bool} {input : Bytes} {p : Parts}

theorem Cut.views {u : Url} (h : p.Cut inetPton6 input)
    (hu : u = assemble (authorityUrl p.authority.literal p.authority.host p.authority.port.isSome
      (portValue p.authority.port)) p.authority.text p.tail) : Views u p := by
  have hsplit := assemble_split (authorityUrl p.authority.literal p.authority.host
    p.authority.port.isSome (portValue p.authority.port)) p.authority.text
    (withSlash_head? p.tail (outside_iff.mpr h.tail))
  have hinside : (authorityUrl p.authority.literal p.authority.host p.authority.port.isSome
      (portValue p.authority.port)).hostBegin + p.authority.host.length ≤
        7 + p.authority.text.length := by
    unfold Authority.text hostText authorityUrl
    rw [List.length_append]
    split_ifs
    · rw [List.length_cons, List.length_append]
      simp only
      omega
    · simp only
      omega
  have hhost := assemble_host _ _ p.tail hinside
  have htext := substr_hostText p.authority.literal p.authority.host (portSuffix p.authority.port)
    p.authority.port.isSome (portValue p.authority.port)
  have htarget := assemble_target (authorityUrl p.authority.literal p.authority.host
    p.authority.port.isSome (portValue p.authority.port)) p.authority.text p.tail
  subst hu
  refine ⟨⟨?_, ?_, hsplit.2.2⟩, rfl, hhost.trans htext, rfl, rfl, rfl, htarget, hsplit.1, ?_, ?_⟩
  · rw [length_storage]
    have hscheme : 4 ≤ 7 + p.authority.text.length + (withSlash p.tail).length := by omega
    exact hscheme
  · rw [length_storage]
    exact Nat.le_add_right_of_le hinside
  · rw [htarget]
    exact hsplit.2.1
  · rw [htarget]
    rfl

end Parts

/-- What `parse` accepts, and what the views of an accepted text are. -/
theorem parse_grammar (inetPton6 : Bytes → Bool)
    (hpton : ∀ text, inetPton6 text = true → ']'.toUInt8 ∉ text) (input : Bytes) :
    ((∃ u, parse inetPton6 input = .ok u) ↔ ∃ p : Parts, p.Cut inetPton6 input) ∧
      ∀ u p, parse inetPton6 input = .ok u → p.Cut inetPton6 input → Views u p := by
  refine ⟨⟨fun h => ?_, fun h => ?_⟩, fun u p hu hcut => ?_⟩
  · obtain ⟨u, hu⟩ := h
    exact Parts.exists_cut hu
  · obtain ⟨p, hcut⟩ := h
    exact ⟨_, hcut.parse hpton⟩
  · apply hcut.views
    exact Except.ok.inj (hu.symm.trans (hcut.parse hpton))

/-- A literal, a port with a zero in front, no path, and a fragment. -/
def loopbackParts : Parts where
  scheme := bytes "HTTP"
  authority := ⟨true, bytes "::1", some (bytes "080")⟩
  tail := bytes "?a%20"
  fragment := bytes "#f"

theorem parse_grammar_loopback : ∃ u,
    parse (fun text => text == bytes "::1") (bytes "HTTP://[::1]:080?a%20#f") = .ok u ∧
      u.host = bytes "::1" ∧ u.port = 80 ∧ u.target = bytes "/?a%20" := by
  have hpton : ∀ text, (text == bytes "::1") = true → ']'.toUInt8 ∉ text := by
    intro text htext
    rw [eq_of_beq htext]
    decide
  have hcut : loopbackParts.Cut (fun text => text == bytes "::1")
      (bytes "HTTP://[::1]:080?a%20#f") := by
    have hliteral : validIpv6Literal (fun text => text == bytes "::1") (bytes "::1") = true := by
      decide +kernel
    have hescapes : validPercentEscapes (bytes "?a%20") = true := by decide +kernel
    refine ⟨by decide +kernel, by decide +kernel, by decide +kernel, by decide +kernel,
      .inr rfl, by decide +kernel, .inr (.inr rfl), ⟨by decide +kernel, fun _ => hliteral,
        fun h => absurd h (by decide), ?_⟩, validPercentEscapes_iff.mp hescapes⟩
    rintro digits ⟨⟩
    decide +kernel
  have hgrammar := parse_grammar _ hpton (bytes "HTTP://[::1]:080?a%20#f")
  obtain ⟨u, hu⟩ := hgrammar.1.mpr ⟨loopbackParts, hcut⟩
  have hviews := hgrammar.2 u loopbackParts hu hcut
  exact ⟨u, hu, hviews.host, hviews.port, hviews.target⟩

end CppRequest.Url
