import CppRequest.Message

/-!
# URLs

`Url::parse` as the code runs it: a normalized copy of the text and positions in it.
Whether a text is an IPv6 literal is decided by `inet_pton`, which is a parameter.
-/

namespace CppRequest

/-- `s.find_first_of(chars, pos)`. -/
def findFirstOf (s chars : Bytes) (pos : ℕ) : Option ℕ :=
  ((s.drop pos).findIdx? chars.contains).map (pos + ·)

/-- `s.rfind(ch)`. -/
def rfind (s : Bytes) (ch : Byte) : Option ℕ :=
  (s.reverse.findIdx? (· == ch)).map (s.length - 1 - ·)

def forbiddenUrlByte (byte : Byte) : Bool := byte ≤ 0x20 || byte == 0x7f

def containsForbiddenUrlByte (input : Bytes) : Bool := input.any forbiddenUrlByte

def isHexDigit (ch : Byte) : Bool :=
  isDigit ch || ('A'.toUInt8 ≤ ch && ch ≤ 'F'.toUInt8) || ('a'.toUInt8 ≤ ch && ch ≤ 'f'.toUInt8)

def validPercentEscapes : Bytes → Bool
  | [] => true
  | ch :: text =>
    if ch != '%'.toUInt8 then validPercentEscapes text
    else match text with
      | hi :: lo :: text => isHexDigit hi && isHexDigit lo && validPercentEscapes text
      | _ => false

theorem validPercentEscapes_cons {ch : Byte} (text : Bytes) (h : ch ≠ '%'.toUInt8) :
    validPercentEscapes (ch :: text) = validPercentEscapes text := by
  conv_lhs => unfold validPercentEscapes
  rw [if_pos (by simpa using h)]

theorem validPercentEscapes_escape {hi lo : Byte} (text : Bytes) :
    validPercentEscapes ('%'.toUInt8 :: hi :: lo :: text) =
      (isHexDigit hi && isHexDigit lo && validPercentEscapes text) := by
  conv_lhs => unfold validPercentEscapes
  simp

def validIpv6Literal (inetPton6 : Bytes → Bool) (text : Bytes) : Bool :=
  !(text.isEmpty || text.length ≥ 64 || text.contains '%'.toUInt8) && inetPton6 text

/-- The port is a `std::uint16_t`, read as an `unsigned int`. -/
def parsePort (text : Bytes) : Result ℕ :=
  if text.isEmpty then .error { code := .invalidPort }
  else match fromChars 10 (2 ^ 32) text with
    | some (value, []) =>
      if value = 0 ∨ value > 65535 then .error { code := .invalidPort } else .ok value
    | _ => .error { code := .invalidPort }

structure Url where
  storage : Bytes
  schemeSize : ℕ
  hostBegin : ℕ := 0
  hostSize : ℕ := 0
  pathBegin : ℕ := 0
  pathSize : ℕ := 0
  queryBegin : ℕ := 0
  querySize : ℕ := 0
  port : ℕ := 80
  hasExplicitPort : Bool := false
  hostIsIpv6Literal : Bool := false
deriving Repr, DecidableEq

namespace Url

def scheme (u : Url) : Bytes := substr u.storage 0 u.schemeSize

def host (u : Url) : Bytes := substr u.storage u.hostBegin u.hostSize

def path (u : Url) : Bytes := substr u.storage u.pathBegin u.pathSize

def query (u : Url) : Bytes := substr u.storage u.queryBegin u.querySize

/-- The target begins with the path and lasts to the end of the text. -/
def target (u : Url) : Bytes := u.storage.drop u.pathBegin

/-- The host in brackets and what stands behind it. -/
def parseIpv6Authority (inetPton6 : Bytes → Bool) (u : Url) (authorityBegin : ℕ)
    (authority : Bytes) : Result Url :=
  match find authority [']'.toUInt8] 0 with
  | none => .error { code := .invalidUrl }
  | some closing =>
    if closing = 1 then .error { code := .invalidUrl }
    else if !validIpv6Literal inetPton6 (substr authority 1 (closing - 1)) then
      .error { code := .invalidUrl }
    else
      let u := { u with
        hostIsIpv6Literal := true, hostBegin := authorityBegin + 1, hostSize := closing - 1 }
      match authority.drop (closing + 1) with
      | [] => .ok u
      | front :: remainder =>
        if front != ':'.toUInt8 then .error { code := .invalidUrl }
        else match parsePort remainder with
          | .error e => .error e
          | .ok port => .ok { u with port, hasExplicitPort := true }

def parseNamedAuthority (u : Url) (authorityBegin : ℕ) (authority : Bytes) : Result Url :=
  match rfind authority ':'.toUInt8 with
  | none => .ok { u with hostBegin := authorityBegin, hostSize := authority.length }
  | some colon =>
    if find authority [':'.toUInt8] 0 ≠ some colon then .error { code := .invalidUrl }
    else if (authority.take colon).isEmpty then .error { code := .invalidUrl }
    else match parsePort (authority.drop (colon + 1)) with
      | .error e => .error e
      | .ok port => .ok { u with
          hostBegin := authorityBegin, hostSize := (authority.take colon).length
          port, hasExplicitPort := true }

/-- The slash in front of the path, where the text has none. -/
def insertSlash (storage : Bytes) (authorityEnd : ℕ) : Bytes :=
  if authorityEnd = storage.length then storage ++ ['/'.toUInt8]
  else if storage[authorityEnd]? = some '?'.toUInt8 then
    storage.take authorityEnd ++ '/'.toUInt8 :: storage.drop authorityEnd
  else storage

def splitTarget (u : Url) (authorityEnd : ℕ) : Result Url :=
  let storage := insertSlash u.storage authorityEnd
  let u := { u with storage, pathBegin := authorityEnd }
  let u := match find storage ['?'.toUInt8] authorityEnd with
    | none => { u with
        pathSize := storage.length - authorityEnd, queryBegin := storage.length, querySize := 0 }
    | some marker => { u with
        pathSize := marker - authorityEnd, queryBegin := marker + 1
        querySize := storage.length - (marker + 1) }
  if !validPercentEscapes (storage.drop authorityEnd) then .error { code := .invalidUrl }
  else .ok u

def parseAuthority (inetPton6 : Bytes → Bool) (u : Url) (authorityBegin : ℕ) (authority : Bytes) :
    Result Url :=
  if authority.contains '@'.toUInt8 || authority.contains '%'.toUInt8 then
    .error { code := .invalidUrl }
  else if authority.head? = some '['.toUInt8 then
    parseIpv6Authority inetPton6 u authorityBegin authority
  else parseNamedAuthority u authorityBegin authority

/-- The text without its fragment and with its scheme in lower case. -/
def normalize (input : Bytes) (separator : ℕ) : Bytes :=
  let withoutFragment := (find input ['#'.toUInt8] 0).elim input fun i => input.take i
  (withoutFragment.take separator).map asciiLower ++ withoutFragment.drop separator

/-- The authority lasts up to the first slash or question mark. -/
def authorityEnd (storage : Bytes) (authorityBegin : ℕ) : ℕ :=
  (findFirstOf storage (bytes "/?") authorityBegin).getD storage.length

def parse (inetPton6 : Bytes → Bool) (input : Bytes) : Result Url :=
  if input.isEmpty || containsForbiddenUrlByte input then .error { code := .invalidUrl }
  else match find input (bytes "://") 0 with
    | none => .error { code := .invalidUrl }
    | some separator =>
      if separator = 0 then .error { code := .invalidUrl }
      else if !asciiIequals (input.take separator) (bytes "http") then
        .error { code := .unsupportedScheme }
      else
        let storage := normalize input separator
        let authorityBegin := separator + 3
        if authorityBegin ≥ storage.length then .error { code := .invalidUrl }
        else
          let authorityEnd := authorityEnd storage authorityBegin
          if authorityEnd = authorityBegin then .error { code := .invalidUrl }
          else
            let authority := substr storage authorityBegin (authorityEnd - authorityBegin)
            match parseAuthority inetPton6 { storage, schemeSize := separator } authorityBegin
                authority with
            | .error e => .error e
            | .ok u =>
              if u.hostSize = 0 then .error { code := .invalidUrl }
              else u.splitTarget authorityEnd

/-! ## What a parsed URL guarantees -/

theorem findFirstOf_eq_some {s chars : Bytes} {pos i : ℕ} (h : findFirstOf s chars pos = some i) :
    pos ≤ i ∧ ∃ ch ∈ chars, s[i]? = some ch := by
  unfold findFirstOf at h
  rcases Option.map_eq_some_iff.mp h with ⟨j, hj, rfl⟩
  rcases List.findIdx?_eq_some_iff_getElem.mp hj with ⟨hlt, hmem, -⟩
  refine ⟨Nat.le_add_right _ _, (s.drop pos)[j], by simpa using hmem, ?_⟩
  rw [← List.getElem?_drop, List.getElem?_eq_getElem hlt]

theorem storage_of_ipv6 {inetPton6 : Bytes → Bool} {u u' : Url} {authorityBegin : ℕ}
    {authority : Bytes} (h : parseIpv6Authority inetPton6 u authorityBegin authority = .ok u') :
    u'.storage = u.storage := by
  unfold parseIpv6Authority at h
  split at h
  · cases h
  · split_ifs at h
    simp only at h
    split at h
    · cases h
      rfl
    · split_ifs at h
      split at h
      · cases h
      · cases h
        rfl

theorem storage_of_named {u u' : Url} {authorityBegin : ℕ} {authority : Bytes}
    (h : parseNamedAuthority u authorityBegin authority = .ok u') : u'.storage = u.storage := by
  unfold parseNamedAuthority at h
  split at h
  · cases h
    rfl
  · split_ifs at h
    split at h
    · cases h
    · cases h
      rfl

theorem storage_of_authority {inetPton6 : Bytes → Bool} {u u' : Url} {authorityBegin : ℕ}
    {authority : Bytes} (h : parseAuthority inetPton6 u authorityBegin authority = .ok u') :
    u'.storage = u.storage := by
  unfold parseAuthority at h
  split_ifs at h
  · exact storage_of_ipv6 h
  · exact storage_of_named h

theorem splitTarget_ok {u u' : Url} {authorityEnd : ℕ} (h : u.splitTarget authorityEnd = .ok u') :
    u'.storage = insertSlash u.storage authorityEnd ∧ u'.pathBegin = authorityEnd := by
  unfold splitTarget at h
  simp only at h
  split_ifs at h
  cases h
  split <;> exact ⟨rfl, rfl⟩

/-- Behind the authority stands a slash. -/
theorem insertSlash_drop {storage : Bytes} {authorityEnd : ℕ}
    (h : authorityEnd = storage.length ∨
      ∃ ch ∈ bytes "/?", storage[authorityEnd]? = some ch) :
    ((insertSlash storage authorityEnd).drop authorityEnd).head? = some '/'.toUInt8 := by
  unfold insertSlash
  split_ifs with hend hquery
  · rw [hend, List.drop_left]
    rfl
  · have hlt : authorityEnd < storage.length := (List.getElem?_eq_some_iff.mp hquery).1
    rw [List.drop_left' (List.length_take_of_le hlt.le)]
    rfl
  · rcases h.resolve_left hend with ⟨ch, hch, hget⟩
    rw [List.head?_drop, hget]
    have hor : ch = '/'.toUInt8 ∨ ch = '?'.toUInt8 := by simpa [bytes] using hch
    rcases hor with rfl | rfl
    · rfl
    · exact absurd hget hquery

theorem mem_insertSlash {storage : Bytes} {authorityEnd : ℕ} {b : Byte}
    (h : b ∈ insertSlash storage authorityEnd) : b ∈ storage ∨ b = '/'.toUInt8 := by
  unfold insertSlash at h
  split_ifs at h
  · simpa using h
  · rw [List.mem_append, List.mem_cons] at h
    rcases h with h | h | h
    · exact .inl (List.mem_of_mem_take h)
    · exact .inr h
    · exact .inl (List.mem_of_mem_drop h)
  · exact .inl h

theorem forbiddenUrlByte_lower {b : Byte} (h : forbiddenUrlByte b = false) :
    forbiddenUrlByte (asciiLower b) = false :=
  forall_byte (P := fun b => forbiddenUrlByte b = false → forbiddenUrlByte (asciiLower b) = false)
    (by decide) b h

theorem mem_normalize {input : Bytes} {separator : ℕ} {b : Byte}
    (hinput : ∀ b ∈ input, forbiddenUrlByte b = false) (h : b ∈ normalize input separator) :
    forbiddenUrlByte b = false := by
  have hpart : ∀ b ∈ (find input ['#'.toUInt8] 0).elim input fun i => input.take i,
      forbiddenUrlByte b = false := by
    cases find input ['#'.toUInt8] 0 with
    | none => exact hinput
    | some i => exact fun b hb => hinput b (List.mem_of_mem_take hb)
  unfold normalize at h
  rcases List.mem_append.mp h with h | h
  · rcases List.mem_map.mp h with ⟨b', hb', rfl⟩
    exact forbiddenUrlByte_lower (hpart b' (List.mem_of_mem_take hb'))
  · exact hpart b (List.mem_of_mem_drop h)

theorem authorityEnd_cases (storage : Bytes) (authorityBegin : ℕ) :
    authorityEnd storage authorityBegin = storage.length ∨
      ∃ ch ∈ bytes "/?", storage[authorityEnd storage authorityBegin]? = some ch := by
  unfold authorityEnd
  cases h : findFirstOf storage (bytes "/?") authorityBegin with
  | none => exact .inl rfl
  | some i => exact .inr (findFirstOf_eq_some h).2

/-- A parsed URL holds no control byte and no space, and its target begins with a slash. -/
theorem parse_ok {inetPton6 : Bytes → Bool} {input : Bytes} {u : Url}
    (h : parse inetPton6 input = .ok u) :
    (∀ b ∈ u.storage, forbiddenUrlByte b = false) ∧ u.target.head? = some '/'.toUInt8 := by
  unfold parse at h
  split_ifs at h with hinput
  split at h
  · cases h
  · next separator hseparator =>
    split_ifs at h with hzero hscheme
    simp only at h
    split_ifs at h with hbegin hend
    rw [Bool.not_eq_true, Bool.or_eq_false_iff] at hinput
    split at h
    · cases h
    · next u' hu' =>
      split_ifs at h with hhost
      rcases splitTarget_ok h with ⟨hstorage, hpath⟩
      rw [storage_of_authority hu'] at hstorage
      have hgood : ∀ b ∈ input, forbiddenUrlByte b = false := by
        have hnone := hinput.2
        rw [containsForbiddenUrlByte, List.any_eq_false] at hnone
        exact fun b hb => by simpa using hnone b hb
      refine ⟨fun b hb => ?_, ?_⟩
      · rw [hstorage] at hb
        rcases mem_insertSlash hb with hb | rfl
        · exact mem_normalize hgood hb
        · decide
      · rw [target, hpath, hstorage]
        exact insertSlash_drop (authorityEnd_cases _ _)

/-! ## Errors -/

theorem parsePort_error {text : Bytes} {e : Error} (h : parsePort text = .error e) :
    e.code = .invalidPort := by
  unfold parsePort at h
  split_ifs at h
  · cases h
    rfl
  · split at h
    · split_ifs at h
      cases h
      rfl
    · cases h
      rfl

/-- What is wrong with a text that is no URL. -/
def IsUrlError (code : ErrorCode) : Prop :=
  code = .invalidUrl ∨ code = .unsupportedScheme ∨ code = .invalidPort

theorem parseIpv6Authority_error {inetPton6 : Bytes → Bool} {u : Url} {authorityBegin : ℕ}
    {authority : Bytes} {e : Error}
    (h : parseIpv6Authority inetPton6 u authorityBegin authority = .error e) :
    IsUrlError e.code := by
  unfold parseIpv6Authority at h
  split at h
  · cases h
    exact .inl rfl
  dsimp only at h
  split_ifs at h
  · cases h
    exact .inl rfl
  · cases h
    exact .inl rfl
  split at h
  · cases h
  split_ifs at h
  · cases h
    exact .inl rfl
  split at h
  · next hport =>
    cases h
    exact .inr (.inr (parsePort_error hport))
  · cases h

theorem parseNamedAuthority_error {u : Url} {authorityBegin : ℕ} {authority : Bytes} {e : Error}
    (h : parseNamedAuthority u authorityBegin authority = .error e) : IsUrlError e.code := by
  unfold parseNamedAuthority at h
  split at h
  · cases h
  split_ifs at h
  · cases h
    exact .inl rfl
  · cases h
    exact .inl rfl
  split at h
  · next hport =>
    cases h
    exact .inr (.inr (parsePort_error hport))
  · cases h

theorem parse_error {inetPton6 : Bytes → Bool} {input : Bytes} {e : Error} (h : parse inetPton6 input = .error e) :
    IsUrlError e.code := by
  unfold parse splitTarget at h
  dsimp only at h
  split_ifs at h
  · cases h
    exact .inl rfl
  split at h
  · cases h
    exact .inl rfl
  split_ifs at h
  · cases h
    exact .inl rfl
  · cases h
    exact .inr (.inl rfl)
  · cases h
    exact .inl rfl
  · cases h
    exact .inl rfl
  split at h
  · next hauthority =>
    cases h
    unfold parseAuthority at hauthority
    split_ifs at hauthority
    · cases hauthority
      exact .inl rfl
    · exact parseIpv6Authority_error hauthority
    · exact parseNamedAuthority_error hauthority
  split_ifs at h
  · cases h
    exact .inl rfl
  · cases h
    exact .inl rfl

end Url

end CppRequest
