import CppRequest.ExitLoop
import CppRequest.Message

/-!
# The chunked decoder

`ChunkedDecoder::process` as the code runs it: one loop over a switch on the stage,
with a cursor into the input that is erased only when the call returns without an
error. A failing call leaves the input as it was, with the stage and the output
wherever the loop had got to.

The extension scanner of the source moves a cursor over a fixed text; here the
cursor is the text that is left.
-/

namespace CppRequest

def dquote : Byte := 0x22
def backslash : Byte := 0x5c

def skipOws (text : Bytes) : Bytes := text.dropWhile isOws

/-- The text behind a token, if there is one. -/
def parseToken (text : Bytes) : Option Bytes :=
  if (text.takeWhile isTchar).isEmpty then none else some (text.dropWhile isTchar)

def isQdtext (ch : Byte) : Bool :=
  ch == htab || ch == sp || ch == 0x21 || (0x23 ≤ ch && ch ≤ 0x5b) || (0x5d ≤ ch && ch ≤ 0x7e)
    || 0x80 ≤ ch

def isQuotedPairChar (ch : Byte) : Bool :=
  ch == htab || ch == sp || (0x21 ≤ ch && ch ≤ 0x7e) || 0x80 ≤ ch

/-- The loop of `parse_quoted_string`, behind the opening quote. -/
def parseQuotedRest : Bytes → Option Bytes
  | [] => none
  | ch :: text =>
    if ch == dquote then some text
    else if ch == backslash then
      match text with
      | [] => none
      | escaped :: text => if isQuotedPairChar escaped then parseQuotedRest text else none
    else if isQdtext ch then parseQuotedRest text
    else none

def parseQuotedString : Bytes → Option Bytes
  | [] => none
  | ch :: text => if ch == dquote then parseQuotedRest text else none

/-- The optional `= value` of an extension and the whitespace behind it. -/
def parseExtensionValue : Bytes → Option Bytes
  | [] => some []
  | ch :: text =>
    if ch == '='.toUInt8 then
      match skipOws text with
      | [] => none
      | first :: text =>
        (if first == dquote then parseQuotedString (first :: text)
          else parseToken (first :: text)).map skipOws
    else some (ch :: text)

/-- One round of the loop of `valid_chunk_extensions`. -/
def chunkExtensionStep (text : Bytes) : Bytes ⊕ Bool :=
  match parseToken (skipOws text) with
  | none => .inr false
  | some text =>
    match parseExtensionValue (skipOws text) with
    | none => .inr false
    | some [] => .inr true
    | some (ch :: text) =>
      if ch != ';'.toUInt8 then .inr false
      else if text.isEmpty then .inr false
      else .inl text

theorem length_dropWhile_le (p : Byte → Bool) (text : Bytes) :
    (text.dropWhile p).length ≤ text.length := (List.dropWhile_suffix p).length_le

theorem parseToken_length {text rest : Bytes} (h : parseToken text = some rest) :
    rest.length < text.length := by
  simp only [parseToken] at h
  split at h
  · cases h
  · next hne =>
    cases h
    have hsplit := congrArg List.length (List.takeWhile_append_dropWhile (p := isTchar) (l := text))
    have hpos := List.length_pos_iff.mpr fun hnil => hne (List.isEmpty_iff.mpr hnil)
    simp only [List.length_append] at hsplit
    omega

theorem parseQuotedRest_length {text rest : Bytes} (h : parseQuotedRest text = some rest) :
    rest.length ≤ text.length := by
  fun_induction parseQuotedRest text <;> simp_all <;> omega

theorem parseExtensionValue_length {text rest : Bytes}
    (h : parseExtensionValue text = some rest) : rest.length ≤ text.length := by
  cases text with
  | nil => simp_all [parseExtensionValue]
  | cons ch text =>
    simp only [parseExtensionValue] at h
    split at h
    · have hskip := length_dropWhile_le isOws text
      split at h
      · cases h
      · next first tail hs =>
        obtain ⟨mid, hmid, rfl⟩ := Option.map_eq_some_iff.mp h
        have hrest := length_dropWhile_le isOws mid
        have htail : tail.length + 1 ≤ text.length := by
          rw [show text.dropWhile isOws = first :: tail from hs] at hskip
          exact hskip
        have hm : mid.length ≤ tail.length + 1 := by
          split at hmid
          · next hq =>
            simp only [parseQuotedString, hq, if_true] at hmid
            exact (parseQuotedRest_length hmid).trans (Nat.le_succ _)
          · simpa using (parseToken_length hmid).le
        simp only [skipOws, List.length_cons]
        omega
    · cases h; simp

theorem chunkExtensionStep_length {text rest : Bytes}
    (h : chunkExtensionStep text = .inl rest) : rest.length < text.length := by
  simp only [chunkExtensionStep] at h
  split at h
  · cases h
  · next t₁ h₁ =>
    have htoken := parseToken_length h₁
    have hskip := length_dropWhile_le isOws t₁
    have hows := length_dropWhile_le isOws text
    split at h
    · cases h
    · cases h
    · next ch t₂ h₂ =>
      have hvalue := parseExtensionValue_length h₂
      split_ifs at h
      cases h
      simp only [skipOws, List.length_cons] at *
      omega

def chunkExtensionLoop : ExitLoop Bytes Bool where
  step := chunkExtensionStep
  measure := List.length
  decreases := chunkExtensionStep_length

def validChunkExtensions (extension : Bytes) : Bool :=
  if extension.isEmpty then false else chunkExtensionLoop.run extension

def parseChunkSize (line : Bytes) : Result ℕ :=
  let semicolon := find line [';'.toUInt8] 0
  let sizeText := (semicolon.elim line fun i => line.take i).rdropWhile isOws
  if sizeText.isEmpty then .error { code := .invalidChunkSize }
  else if semicolon.any fun i => !validChunkExtensions (line.drop (i + 1)) then
    .error { code := .invalidChunkFraming }
  else match fromChars 16 sizeBound sizeText with
    | some (value, []) => .ok value
    | _ => .error { code := .invalidChunkSize }

def validTrailerLine (line : Bytes) : Bool :=
  match line with
  | [] => false
  | front :: _ =>
    if front == sp || front == htab then false
    else match find line [':'.toUInt8] 0 with
      | none => false
      | some colon =>
        colon != 0
          && validHeaderName (line.take colon) && validFieldValue (line.drop (colon + 1))
          && !asciiIequals (line.take colon) (bytes "Content-Length")
          && !asciiIequals (line.take colon) (bytes "Transfer-Encoding")

inductive ChunkDecodeProgress
  | needMore | complete
deriving Repr, DecidableEq

inductive ChunkStage
  | sizeLine | data | dataCrlf | trailers | complete
deriving Repr, DecidableEq

structure ChunkedDecoder where
  limits : ResponseLimits
  stage : ChunkStage := .sizeLine
  chunkRemaining : ℕ := 0
  trailerBytesSeen : ℕ := 0
deriving Repr, DecidableEq

namespace ChunkedDecoder

/-- What the loop of `process` reads and writes. -/
structure ProcessState where
  decoder : ChunkedDecoder
  input : Bytes
  output : Bytes
  cursor : ℕ
deriving Repr, DecidableEq

/-- What a call leaves behind: the decoder, the unread input and the output. -/
structure Config where
  decoder : ChunkedDecoder
  input : Bytes
  output : Bytes
deriving Repr, DecidableEq

abbrev ProcessExit := Result ChunkDecodeProgress × Config

namespace ProcessState

/-- `return Error{code}`: nothing is erased from the input. -/
def fail (s : ProcessState) (error : Error) : ProcessState ⊕ ProcessExit :=
  .inr (.error error, ⟨s.decoder, s.input, s.output⟩)

/-- `consume_prefix(input, cursor); return progress`. -/
def finish (s : ProcessState) (progress : ChunkDecodeProgress) : ProcessState ⊕ ProcessExit :=
  .inr (.ok progress, ⟨s.decoder, s.input.drop s.cursor, s.output⟩)

end ProcessState

/-- One round of the loop of `process`. -/
def processStep (s : ProcessState) : ProcessState ⊕ ProcessExit :=
  let d := s.decoder
  match d.stage with
  | .sizeLine =>
    match find s.input crlf s.cursor with
    | none =>
      if s.input.length - s.cursor > d.limits.maxChunkLineBytes.toNat then
        s.fail { code := .responseLimitExceeded }
      else s.finish .needMore
    | some lineEnd =>
      if lineEnd - s.cursor > d.limits.maxChunkLineBytes.toNat then
        s.fail { code := .responseLimitExceeded }
      else match parseChunkSize (substr s.input s.cursor (lineEnd - s.cursor)) with
        | .error e => s.fail e
        | .ok size =>
          if size != 0 && wouldExceed s.output.length size d.limits.maxBodyBytes.toNat then
            s.fail { code := .responseLimitExceeded }
          else .inl { s with
            cursor := lineEnd + 2
            decoder := { d with
              chunkRemaining := size
              stage := if size = 0 then .trailers else .data } }
  | .data =>
    let available := s.input.length - s.cursor
    let amount := min d.chunkRemaining available
    let s := { s with
      output := s.output ++ substr s.input s.cursor amount
      cursor := s.cursor + amount
      decoder := { d with chunkRemaining := d.chunkRemaining - amount } }
    if d.chunkRemaining - amount != 0 then s.finish .needMore
    else .inl { s with decoder := { s.decoder with stage := .dataCrlf } }
  | .dataCrlf =>
    if s.input.length - s.cursor < 2 then s.finish .needMore
    else if substr s.input s.cursor 2 != crlf then s.fail { code := .invalidChunkFraming }
    else .inl { s with cursor := s.cursor + 2, decoder := { d with stage := .sizeLine } }
  | .trailers =>
    match find s.input crlf s.cursor with
    | none =>
      let pending := s.input.length - s.cursor
      if wouldExceed d.trailerBytesSeen pending d.limits.maxTrailerBytes.toNat then
        s.fail { code := .responseLimitExceeded }
      else s.finish .needMore
    | some lineEnd =>
      let lineBytes := lineEnd - s.cursor + 2
      if wouldExceed d.trailerBytesSeen lineBytes d.limits.maxTrailerBytes.toNat then
        s.fail { code := .responseLimitExceeded }
      else
        let line := substr s.input s.cursor (lineEnd - s.cursor)
        let s := { s with
          cursor := lineEnd + 2
          decoder := { d with trailerBytesSeen := d.trailerBytesSeen + lineBytes } }
        if line.isEmpty then
          { s with decoder := { s.decoder with stage := .complete } }.finish .complete
        else if !validTrailerLine line then s.fail { code := .invalidHeader }
        else .inl s
  | .complete => s.finish .complete

/-- The data stage may be left without reading. -/
def rank : ChunkStage → ℕ
  | .data => 1
  | _ => 0

/-- Unread input, counted twice so that leaving the data stage without reading also counts. -/
def ProcessState.measure (s : ProcessState) : ℕ :=
  2 * (s.input.length - s.cursor) + rank s.decoder.stage

theorem processStep_decreases {s s' : ProcessState} (h : processStep s = .inl s') :
    s'.measure < s.measure := by
  simp only [processStep, ProcessState.fail, ProcessState.finish] at h
  cases hs : s.decoder.stage with
  | sizeLine =>
    rw [hs] at h
    simp only at h
    cases hf : find s.input crlf s.cursor with
    | none => simp only [hf] at h; split at h <;> cases h
    | some lineEnd =>
      have hle := find_eq_some hf
      simp only [hf] at h
      split_ifs at h
      split at h
      · cases h
      · split_ifs at h
        all_goals
          cases h
          simp only [ProcessState.measure, hs, rank, crlf, List.length_cons,
            List.length_nil] at hle ⊢
          omega
  | data =>
    rw [hs] at h
    simp only at h
    split_ifs at h
    cases h
    simp only [ProcessState.measure, hs, rank]
    omega
  | dataCrlf =>
    rw [hs] at h
    simp only at h
    split_ifs at h
    cases h
    simp only [ProcessState.measure, hs, rank]
    omega
  | trailers =>
    rw [hs] at h
    simp only at h
    cases hf : find s.input crlf s.cursor with
    | none => simp only [hf] at h; split at h <;> cases h
    | some lineEnd =>
      have hle := find_eq_some hf
      simp only [hf] at h
      split_ifs at h
      cases h
      simp only [ProcessState.measure, hs, rank, crlf, List.length_cons, List.length_nil] at hle ⊢
      omega
  | complete => rw [hs] at h; cases h

def processLoop : ExitLoop ProcessState ProcessExit where
  step := processStep
  measure := ProcessState.measure
  decreases := processStep_decreases

/-- `process(input, output)`. -/
def process (d : ChunkedDecoder) (input output : Bytes) : ProcessExit :=
  processLoop.run ⟨d, input, output, 0⟩

end ChunkedDecoder

end CppRequest
