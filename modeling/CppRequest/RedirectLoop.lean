import CppRequest.Dialogue
import CppRequest.Redirect

/-!
# The redirect loop

`Client::request` up to the exchanges it makes: `execute_once` is a question with a request,
and its result is the answer.
-/

namespace CppRequest

/-- The members of a client that the setters set. Timeouts are in milliseconds. -/
structure ClientSettings where
  followRedirects : Bool := true
  maxRedirects : ℕ := 10
  responseLimits : ResponseLimits := {}
  connectTimeout : ℤ := 5000
  readTimeout : ℤ := 30000
  writeTimeout : ℤ := 30000
deriving Repr, DecidableEq

def locationName : Bytes := bytes "Location"

def sameOrigin (lhs rhs : Url) : Bool := lhs.port == rhs.port && asciiIequals lhs.host rhs.host

def isCrossOriginSensitiveHeader (name : Bytes) : Bool :=
  asciiIequals name hostName || asciiIequals name (bytes "Authorization")
    || asciiIequals name (bytes "Proxy-Authorization") || asciiIequals name (bytes "Cookie")

theorem isCrossOriginSensitiveHeader_iff {name : Bytes} :
    isCrossOriginSensitiveHeader name = true ↔
      ∃ listed ∈ [bytes "Host", bytes "Authorization", bytes "Proxy-Authorization",
        bytes "Cookie"], asciiIequals name listed = true := by
  simp only [isCrossOriginSensitiveHeader, hostName, Bool.or_eq_true, List.mem_cons,
    List.not_mem_nil, or_false, exists_eq_or_imp, exists_eq_left, or_assoc]

def isEntityHeaderRemovedWithBody (name : Bytes) : Bool :=
  asciiIequals name contentLengthName || asciiIequals name transferEncodingName
    || asciiIequals name (bytes "Content-Type")

theorem isEntityHeaderRemovedWithBody_iff {name : Bytes} :
    isEntityHeaderRemovedWithBody name = true ↔
      ∃ listed ∈ [bytes "Content-Length", bytes "Transfer-Encoding", bytes "Content-Type"],
        asciiIequals name listed = true := by
  simp only [isEntityHeaderRemovedWithBody, contentLengthName, transferEncodingName,
    Bool.or_eq_true, List.mem_cons, List.not_mem_nil, or_false, exists_eq_or_imp, exists_eq_left,
    or_assoc]

def redirectedHeaders (source : Headers) (crossOrigin dropBody : Bool) : Headers :=
  source.fields.foldl (fun result field =>
    if crossOrigin && isCrossOriginSensitiveHeader field.name then result
    else if dropBody && isEntityHeaderRemovedWithBody field.name then result
    else result.add field.name field.value) {}

/-- What a redirect response asks the loop to request: the URL that was requested, its target, and
the text of the target. -/
structure RedirectTarget where
  base : Url
  nextUrl : Bytes
  nextParsed : Url
deriving Repr, DecidableEq

/-- The checks of the Location field. -/
def redirectLocation (response : Response) : Result Bytes :=
  if !response.headers.contains locationName then .error { code := .missingRedirectLocation }
  else if (response.headers.get locationName).isEmpty then
    .error { code := .missingRedirectLocation }
  else .ok (response.headers.get locationName)

def redirectTarget (inetPton6 : Bytes → Bool) (currentUrl : Bytes) (response : Response) :
    Result RedirectTarget :=
  match redirectLocation response with
  | .error e => .error e
  | .ok location =>
    match Url.parse inetPton6 currentUrl with
    | .error e => .error e
    | .ok base =>
      match resolveRedirectLocation inetPton6 base location with
      | .error e => .error e
      | .ok nextUrl =>
        match Url.parse inetPton6 nextUrl with
        | .error e =>
          if e.code = .unsupportedScheme then .error { code := .unsupportedRedirectScheme }
          else .error e
        | .ok nextParsed => .ok { base, nextUrl, nextParsed }

/-- The variables of the loop that make up a request. -/
structure CurrentRequest where
  url : Bytes
  method : Method
  headers : Headers
  body : Bytes
deriving Repr, DecidableEq

namespace CurrentRequest

/-- Before the first round. -/
def ofRequest (request : Request) : CurrentRequest where
  url := effectiveRequestUrl request
  method := request.method
  headers := request.headers
  body := request.body

/-- One round. -/
def next (current : CurrentRequest) (statusCode : ℕ) (target : RedirectTarget) : CurrentRequest :=
  let behavior := redirectBehavior statusCode current.method
  { url := target.nextUrl
    method := behavior.method
    headers := redirectedHeaders current.headers (!sameOrigin target.base target.nextParsed)
      (!behavior.preserveBody)
    body := if behavior.preserveBody then current.body else [] }

def redirected (current : CurrentRequest) : Request where
  method := current.method
  url := current.url
  headers := current.headers
  body := current.body

end CurrentRequest

/-- A request and what became of it. -/
abbrev Exchange := Request × Result Response

/-- A program that makes exchanges. -/
abbrev Session := Dialogue Request (Result Response)

/-- The loop, with the response that has come last. -/
def redirectLoop (inetPton6 : Bytes → Bool) (maxRedirects redirectsFollowed : ℕ)
    (current : CurrentRequest) (response : Response) : Session (Result Response) :=
  if isRedirectStatus response.statusCode then
    if redirectsFollowed ≥ maxRedirects then .done (.error { code := .redirectLimitExceeded })
    else match redirectTarget inetPton6 current.url response with
      | .error e => .done (.error e)
      | .ok target =>
        .ask (current.next response.statusCode target).redirected fun
          | .error e => .done (.error e)
          | .ok response' => redirectLoop inetPton6 maxRedirects (redirectsFollowed + 1)
              (current.next response.statusCode target) response'
  else .done (.ok response)
termination_by maxRedirects - redirectsFollowed

/-- `Client::request`. -/
def ClientSettings.request (settings : ClientSettings) (inetPton6 : Bytes → Bool)
    (request : Request) : Session (Result Response) :=
  .ask request fun
    | .error e => .done (.error e)
    | .ok response =>
      if !settings.followRedirects || !isRedirectStatus response.statusCode then
        .done (.ok response)
      else redirectLoop inetPton6 settings.maxRedirects 0 (.ofRequest request) response

end CppRequest
