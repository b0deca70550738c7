import CppRequest.RequestSerializer

/-!
# Redirects

What a redirect status means for the next request, and how its Location is resolved
against the URL that was requested.
-/

namespace CppRequest

def isAlpha (ch : Byte) : Bool :=
  ('A'.toUInt8 ≤ ch && ch ≤ 'Z'.toUInt8) || ('a'.toUInt8 ≤ ch && ch ≤ 'z'.toUInt8)

/-- `std::isalnum` is the one of the "C" locale. -/
def isSchemeChar (ch : Byte) : Bool :=
  isAlpha ch || isDigit ch || ch == '+'.toUInt8 || ch == '-'.toUInt8 || ch == '.'.toUInt8

/-- The loop of `scheme_end` over what is left of the text. -/
def schemeEndFrom (index : ℕ) : Bytes → Option ℕ
  | [] => none
  | ch :: text =>
    if ch = ':'.toUInt8 then some index
    else if ch = '/'.toUInt8 ∨ ch = '?'.toUInt8 ∨ ch = '#'.toUInt8 then none
    else if !isSchemeChar ch then none
    else schemeEndFrom (index + 1) text

def schemeEnd : Bytes → Option ℕ
  | [] => none
  | ch :: text => if !isAlpha ch then none else schemeEndFrom 1 text

def buildOrigin (base : Url) : Bytes :=
  let origin := bytes "http://"
  let origin :=
    if base.hostIsIpv6Literal then origin ++ ['['.toUInt8] ++ base.host ++ [']'.toUInt8]
    else origin ++ base.host
  if base.hasExplicitPort then origin ++ [':'.toUInt8] ++ decimal base.port else origin

def slash : Byte := '/'.toUInt8
def dot : Bytes := bytes "."
def dotDot : Bytes := bytes ".."

/-- The segments of a path, without the slash in front. -/
def pathSegments (path : Bytes) : List Bytes :=
  (if path.head? = some slash then path.drop 1 else path).splitOn slash

/-- One segment of the loop of `remove_dot_segments`. -/
def keepSegment (segments : List Bytes) (segment : Bytes) : List Bytes :=
  if segment = dotDot then segments.dropLast
  else if segment ≠ dot then segments ++ [segment]
  else segments

def removeDotSegments (path : Bytes) : Bytes :=
  let segments := (pathSegments path).foldl keepSegment []
  let normalized := slash :: [slash].intercalate segments
  let keepTrailingSlash := !path.isEmpty && (path.getLast? == some slash
    || (bytes "/.").isSuffixOf path || (bytes "/..").isSuffixOf path)
  if keepTrailingSlash && normalized.getLast? != some slash then normalized ++ [slash]
  else normalized

def stripFragment (value : Bytes) : Bytes :=
  (find value ['#'.toUInt8] 0).elim value fun fragment => value.take fragment

def validateRedirectUrl (inetPton6 : Bytes → Bool) (candidate : Bytes) : Result Bytes :=
  match Url.parse inetPton6 (stripFragment candidate) with
  | .error e =>
    if e.code = .unsupportedScheme then .error { code := .unsupportedRedirectScheme } else .error e
  | .ok _ => .ok (stripFragment candidate)

def isRedirectStatus (statusCode : ℕ) : Bool :=
  statusCode == 301 || statusCode == 302 || statusCode == 303 || statusCode == 307
    || statusCode == 308

theorem isRedirectStatus_iff {statusCode : ℕ} :
    isRedirectStatus statusCode = true ↔ statusCode ∈ [301, 302, 303, 307, 308] := by
  simp only [isRedirectStatus, Bool.or_eq_true, beq_iff_eq, List.mem_cons, List.not_mem_nil,
    or_false, or_assoc]

structure RedirectBehavior where
  method : Method
  preserveBody : Bool
deriving Repr, DecidableEq

def redirectBehavior (statusCode : ℕ) (currentMethod : Method) : RedirectBehavior :=
  if statusCode = 303 then ⟨if currentMethod = .head then .head else .get, false⟩
  else if (statusCode = 301 ∨ statusCode = 302) ∧ currentMethod = .post then ⟨.get, false⟩
  else ⟨currentMethod, true⟩

/-- The path of a reference, up to its query or its fragment. -/
def referencePath (location : Bytes) : Bytes :=
  location.take ((findFirstOf location (bytes "?#") 0).getD location.length)

def referenceSuffix (location : Bytes) : Bytes :=
  location.drop ((findFirstOf location (bytes "?#") 0).getD location.length)

def mergePath (base : Url) (relativePath : Bytes) : Bytes :=
  if relativePath.head? = some slash then relativePath
  else match rfind base.path slash with
    | none => [slash] ++ relativePath
    | some i => base.path.take (i + 1) ++ relativePath

def resolveRedirectLocation (inetPton6 : Bytes → Bool) (base : Url) (location : Bytes) :
    Result Bytes :=
  if location.isEmpty then .error { code := .missingRedirectLocation }
  else match schemeEnd location with
    | some explicitScheme =>
      if !asciiIequals (location.take explicitScheme) (bytes "http") then
        .error { code := .unsupportedRedirectScheme }
      else validateRedirectUrl inetPton6 location
    | none =>
      if (bytes "//").isPrefixOf location then
        validateRedirectUrl inetPton6 (bytes "http:" ++ location)
      else
        let origin := buildOrigin base
        if location.head? = some '#'.toUInt8 then
          validateRedirectUrl inetPton6 (origin ++ base.target ++ location)
        else if location.head? = some '?'.toUInt8 then
          validateRedirectUrl inetPton6 (origin ++ base.path ++ location)
        else
          validateRedirectUrl inetPton6 (origin ++
            removeDotSegments (mergePath base (referencePath location)) ++ referenceSuffix location)

end CppRequest
