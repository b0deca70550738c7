import CppRequest.ChunkedDecoder

/-!
# The response parser

`parse_head`, `analyze_framing` and the state machine `ResponseParser`, whose
`process_buffer` is one loop over a switch on the stage. The loop erases what it
has read from the front of `buffer_`; a call that returns an error leaves the
parser as it is at that point.
-/

namespace CppRequest

structure ParsedHead where
  statusCode : ℕ := 0
  reason : Bytes := []
  headers : Headers := {}
deriving Repr, DecidableEq

structure FramingInfo where
  contentLengthCount : ℕ := 0
  contentLength : ℕ := 0
  transferEncodingFields : ℕ := 0
  transferEncodingTokens : ℕ := 0
  transferEncodingIsChunked : Bool := true
  connectionCloseRequested : Bool := false
deriving Repr, DecidableEq

/-! ## The head -/

def versionPrefix : Bytes := bytes "HTTP/1.1 "

/-- The status line: the code and the reason phrase. -/
def parseStatusLine (statusLine : Bytes) : Result (ℕ × Bytes) :=
  let invalid : Result (ℕ × Bytes) := .error { code := .invalidStatusLine }
  let codeBegin := versionPrefix.length
  if statusLine.length < codeBegin + 3
      || substr statusLine 0 codeBegin != versionPrefix then invalid
  else if !(substr statusLine codeBegin 3).all isDigit then invalid
  else match fromChars 10 (2 ^ 31) (substr statusLine codeBegin 3) with
    | some (statusCode, []) =>
      if statusCode < 100 || statusCode > 999 then invalid
      else match statusLine.drop (codeBegin + 3) with
        | [] => .ok (statusCode, [])
        | ch :: reason =>
          if ch != sp then invalid
          else if !validFieldValue reason then invalid
          else .ok (statusCode, reason)
    | _ => invalid

/-- One header line, with the position of its colon. -/
def parseFieldLine (line : Bytes) : Result Field :=
  let invalid : Result Field := .error { code := .invalidHeader }
  match line with
  | [] => invalid
  | front :: _ =>
    if front == sp || front == htab then invalid
    else match find line [':'.toUInt8] 0 with
      | none => invalid
      | some colon =>
        let name := line.take colon
        let value := trimOws (line.drop (colon + 1))
        if colon == 0 then invalid
        else if !validHeaderName name || !validFieldValue value then invalid
        else .ok ⟨name, value⟩

/-- What the loop over the header lines of `parse_head` reads and writes. -/
structure HeadState where
  block : Bytes
  lineBegin : ℕ
  headers : Headers

/-- One round of the loop over the header lines. -/
def headStep (s : HeadState) : HeadState ⊕ Result Headers :=
  if s.lineBegin < s.block.length then
    let lineEnd := find s.block crlf s.lineBegin
    let currentEnd := lineEnd.getD s.block.length
    match parseFieldLine (substr s.block s.lineBegin (currentEnd - s.lineBegin)) with
    | .error e => .inr (.error e)
    | .ok field =>
      let headers := s.headers.add field.name field.value
      match lineEnd with
      | none => .inr (.ok headers)
      | some lineEnd => .inl { s with lineBegin := lineEnd + 2, headers }
  else .inr (.ok s.headers)

theorem headStep_decreases {s s' : HeadState} (h : headStep s = .inl s') :
    s'.block.length - s'.lineBegin < s.block.length - s.lineBegin := by
  simp only [headStep] at h
  split at h
  · next hlt =>
    split at h
    · cases h
    · split at h
      · cases h
      · next lineEnd hf =>
        cases h
        have := find_eq_some hf
        simp only
        omega
  · cases h

def headLoop : ExitLoop HeadState (Result Headers) where
  step := headStep
  measure s := s.block.length - s.lineBegin
  decreases := headStep_decreases

def parseHead (block : Bytes) : Result ParsedHead :=
  let firstLineEnd := find block crlf 0
  match parseStatusLine (firstLineEnd.elim block fun i => substr block 0 i) with
  | .error e => .error e
  | .ok (statusCode, reason) =>
    match firstLineEnd with
    | none => .ok { statusCode, reason }
    | some i =>
      match headLoop.run ⟨block, i + 2, {}⟩ with
      | .error e => .error e
      | .ok headers => .ok { statusCode, reason, headers }

/-! ## Framing -/

/-- The loop over the tokens of one Transfer-Encoding value. -/
def analyzeCodings (framing : FramingInfo) : List Bytes → Result FramingInfo
  | [] => .ok framing
  | token :: tokens =>
    if (trimOws token).isEmpty then .error { code := .malformedResponse }
    else analyzeCodings { framing with
      transferEncodingTokens := framing.transferEncodingTokens + 1
      transferEncodingIsChunked := framing.transferEncodingIsChunked
        && asciiIequals (trimOws token) (bytes "chunked") } tokens

/-- One round of the loop over the header fields of `analyze_framing`. -/
def analyzeField (framing : FramingInfo) (field : Field) : Result FramingInfo :=
  let framing := { framing with
    connectionCloseRequested := framing.connectionCloseRequested
      || (asciiIequals field.name connectionName && containsToken field.value (bytes "close")) }
  if asciiIequals field.name contentLengthName then
    match parseContentLength field.value with
    | none => .error { code := .invalidContentLength }
    | some n => .ok { framing with
        contentLengthCount := framing.contentLengthCount + 1, contentLength := n }
  else if !asciiIequals field.name transferEncodingName then .ok framing
  else analyzeCodings
    { framing with transferEncodingFields := framing.transferEncodingFields + 1 }
    (field.value.splitOn ','.toUInt8)

def analyzeFraming (headers : Headers) : Result FramingInfo :=
  match headers.fields.foldlM analyzeField {} with
  | .error e => .error e
  | .ok framing =>
    if framing.contentLengthCount > 1 then .error { code := .invalidContentLength }
    else .ok framing

def isHeaderTerminatedResponse (requestMethod : Method) (statusCode : ℕ) : Bool :=
  requestMethod == .head || statusCode == 101 || statusCode == 204 || statusCode == 304

def isInterimStatus (statusCode : ℕ) : Bool :=
  statusCode ≥ 100 && statusCode < 200 && statusCode != 101

def framingHeaderForbiddenOnStatus (statusCode : ℕ) : Bool :=
  statusCode == 101 || statusCode == 204

/-! ## The state machine -/

inductive ResponseParseProgress
  | needMore | complete
deriving Repr, DecidableEq

inductive ParserStage
  | head | contentLengthBody | closeDelimitedBody | chunkedBody | complete
deriving Repr, DecidableEq

structure ResponseParser where
  requestMethod : Method
  limits : ResponseLimits
  stage : ParserStage := .head
  response : Response := {}
  buffer : Bytes := []
  chunkedDecoder : ChunkedDecoder := { limits }
  contentLengthRemaining : ℕ := 0
  connectionCloseRequested : Bool := false
  closeDelimited : Bool := false
  bodyForbidden : Bool := false
deriving Repr, DecidableEq

namespace ResponseParser

abbrev ParseExit := Result ResponseParseProgress × ResponseParser

def fail (p : ResponseParser) (code : ErrorCode) : ResponseParser ⊕ ParseExit :=
  .inr (.error { code }, p)

def finish (p : ResponseParser) (progress : ResponseParseProgress) : ResponseParser ⊕ ParseExit :=
  .inr (.ok progress, p)

/-- The final head has been read and its framing analysed: choose the body stage. -/
def chooseBody (p : ResponseParser) (framing : FramingInfo) : ResponseParser ⊕ ParseExit :=
  if framing.transferEncodingFields != 0 && framing.contentLengthCount != 0 then
    p.fail .conflictingMessageFraming
  else if framingHeaderForbiddenOnStatus p.response.statusCode
      && (framing.contentLengthCount != 0 || framing.transferEncodingFields != 0) then
    p.fail .malformedResponse
  else if isHeaderTerminatedResponse p.requestMethod p.response.statusCode then
    { p with stage := .complete }.finish .complete
  else if p.response.statusCode == 205 then
    let p := { p with bodyForbidden := true }
    if framing.transferEncodingFields != 0 then
      if framing.transferEncodingTokens != 1 || !framing.transferEncodingIsChunked then
        p.fail .malformedResponse
      else .inl { p with stage := .chunkedBody }
    else if framing.contentLengthCount == 1 then
      if framing.contentLength != 0 then p.fail .invalidContentLength
      else { p with stage := .complete }.finish .complete
    else .inl { p with closeDelimited := true, stage := .closeDelimitedBody }
  else if framing.transferEncodingFields != 0 then
    if framing.transferEncodingTokens != 1 || !framing.transferEncodingIsChunked then
      p.fail .malformedResponse
    else .inl { p with stage := .chunkedBody }
  else if framing.contentLengthCount == 1 then
    if framing.contentLength > p.limits.maxBodyBytes.toNat then p.fail .responseLimitExceeded
    else
      -- `response_.body_.reserve(framing.content_length)` changes no value
      let p := { p with contentLengthRemaining := framing.contentLength }
      if framing.contentLength == 0 then { p with stage := .complete }.finish .complete
      else .inl { p with stage := .contentLengthBody }
  else .inl { p with closeDelimited := true, stage := .closeDelimitedBody }

/-- A parsed head, already erased from the buffer. -/
def acceptHead (p : ResponseParser) (head : ParsedHead) : ResponseParser ⊕ ParseExit :=
  match analyzeFraming head.headers with
  | .error e => .inr (.error e, p)
  | .ok framing =>
    if isInterimStatus head.statusCode then
      if framing.contentLengthCount != 0 || framing.transferEncodingFields != 0 then
        p.fail .malformedResponse
      else .inl p
    else
      chooseBody { p with
        response := { p.response with
          statusCode := head.statusCode, reason := head.reason, headers := head.headers }
        connectionCloseRequested :=
          framing.connectionCloseRequested || head.statusCode == 101 } framing

/-- Append the buffer to a close-delimited body, or say why not. -/
def takeCloseDelimited (p : ResponseParser) : Except ErrorCode ResponseParser :=
  if p.bodyForbidden && !p.buffer.isEmpty then .error .malformedResponse
  else if p.buffer.isEmpty then .ok p
  else if wouldExceed p.response.body.length p.buffer.length p.limits.maxBodyBytes.toNat then
    .error .responseLimitExceeded
  else .ok { p with
    response := { p.response with body := p.response.body ++ p.buffer }, buffer := [] }

/-- One round of the loop of `process_buffer`. -/
def bufferStep (p : ResponseParser) : ResponseParser ⊕ ParseExit :=
  match p.stage with
  | .head =>
    match find p.buffer crlfcrlf 0 with
    | none =>
      if p.buffer.length > p.limits.maxHeadBytes.toNat then p.fail .responseLimitExceeded
      else p.finish .needMore
    | some headEnd =>
      if wouldExceed headEnd 4 p.limits.maxHeadBytes.toNat then p.fail .responseLimitExceeded
      else match parseHead (substr p.buffer 0 headEnd) with
        | .error e => .inr (.error e, p)
        | .ok head => acceptHead { p with buffer := p.buffer.drop (headEnd + 4) } head
  | .contentLengthBody =>
    let amount := min p.contentLengthRemaining p.buffer.length
    let p := { p with
      response := { p.response with body := p.response.body ++ p.buffer.take amount }
      buffer := p.buffer.drop amount
      contentLengthRemaining := p.contentLengthRemaining - amount }
    if p.contentLengthRemaining == 0 then { p with stage := .complete }.finish .complete
    else p.finish .needMore
  | .closeDelimitedBody =>
    match p.takeCloseDelimited with
    | .error code => p.fail code
    | .ok p => p.finish .needMore
  | .chunkedBody =>
    let (decoded, c) := p.chunkedDecoder.process p.buffer p.response.body
    let p := { p with
      response := { p.response with body := c.output }
      buffer := c.input
      chunkedDecoder := c.decoder }
    match decoded with
    | .error e => .inr (.error e, p)
    | .ok progress =>
      if p.bodyForbidden && !p.response.body.isEmpty then p.fail .malformedResponse
      else match progress with
        | .needMore => p.finish .needMore
        | .complete => { p with stage := .complete }.finish .complete
  | .complete => p.finish .complete

theorem chooseBody_buffer {p p' : ResponseParser} {framing : FramingInfo}
    (h : p.chooseBody framing = .inl p') : p'.buffer = p.buffer := by
  simp only [chooseBody, fail, finish] at h
  split_ifs at h <;> cases h <;> rfl

theorem acceptHead_buffer {p p' : ResponseParser} {head : ParsedHead}
    (h : p.acceptHead head = .inl p') : p'.buffer = p.buffer := by
  simp only [acceptHead, fail] at h
  split at h
  · cases h
  · split_ifs at h
    · cases h; rfl
    · exact (chooseBody_buffer h).trans rfl

/-- Only the head stage goes round, and it erases the head it has read. -/
theorem bufferStep_decreases {p p' : ResponseParser} (h : bufferStep p = .inl p') :
    p'.buffer.length < p.buffer.length := by
  simp only [bufferStep, fail, finish] at h
  split at h
  · split at h
    · split_ifs at h
    · next headEnd hf =>
      have hle := find_eq_some hf
      simp only [crlfcrlf, List.length_cons, List.length_nil] at hle
      split_ifs at h
      split at h
      · cases h
      · rw [acceptHead_buffer h, List.length_drop]
        omega
  · split_ifs at h
  · split at h <;> cases h
  · split at h
    · cases h
    · split_ifs at h
      split at h <;> cases h
  · cases h

def bufferLoop : ExitLoop ResponseParser ParseExit where
  step := bufferStep
  measure p := p.buffer.length
  decreases := bufferStep_decreases

def processBuffer (p : ResponseParser) : ParseExit := bufferLoop.run p

def feed (p : ResponseParser) (bytes : Bytes) : ParseExit :=
  { p with buffer := p.buffer ++ bytes }.processBuffer

def finishEof (p : ResponseParser) : ParseExit :=
  match p.stage with
  | .closeDelimitedBody =>
    match p.takeCloseDelimited with
    | .error code => (.error { code }, p)
    | .ok p => (.ok .complete, { p with stage := .complete })
  | .complete => (.ok .complete, p)
  | .contentLengthBody | .head | .chunkedBody => (.error { code := .unexpectedEof }, p)

def isComplete (p : ResponseParser) : Bool := p.stage == .complete

def connectionReusable (p : ResponseParser) : Bool :=
  p.isComplete && !p.connectionCloseRequested && !p.closeDelimited

def pendingBytes (p : ResponseParser) : Bytes := p.buffer

/-- A new parser. -/
def fresh (requestMethod : Method) (limits : ResponseLimits) : ResponseParser :=
  { requestMethod, limits }

end ResponseParser

end CppRequest
