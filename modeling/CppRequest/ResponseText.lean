import CppRequest.FramingFields
import CppRequest.PartialResponse
import CppRequest.Segmentation
import CppRequest.SizeText

/-!
# Decoding undoes encoding

A response as a server writes it: interim heads, a status line, fields around the
framing field, and a body in one of the three codings. Whatever the pieces in which
its bytes arrive, a fresh parser with large enough limits gives back the status, the
reason, the fields and the body, and leaves the bytes behind the response pending.
-/

namespace CppRequest

open Search
open ResponseParser (BodyFraming Framed)

/-! ## Fields -/

/-- A field that says nothing about the framing. -/
structure FieldLine.Plain (l : FieldLine) : Prop where
  length : asciiIequals l.field.name contentLengthName = false
  coding : asciiIequals l.field.name transferEncodingName = false

/-- A Content-Length field. -/
structure LengthField (n : ℕ) where
  line : FieldLine
  name : asciiIequals line.field.name contentLengthName = true
  nonempty : line.field.value ≠ []
  digits : ∀ d ∈ line.field.value, (digitValue 10 d).isSome = true
  value : ofDigits 10 line.field.value = n

/-- The field `Transfer-Encoding: chunked`. -/
structure ChunkedField where
  line : FieldLine
  name : asciiIequals line.field.name transferEncodingName = true
  value : isChunkedCoding line.field.value = true

theorem foldlM_plain (fields : List FieldLine) (h : ∀ l ∈ fields, l.Plain) (framing : FramingInfo) :
    ∃ close, (fields.map FieldLine.field).foldlM analyzeField framing =
      .ok { framing with connectionCloseRequested := close } := by
  induction fields generalizing framing with
  | nil => exact ⟨framing.connectionCloseRequested, rfl⟩
  | cons l fields ih =>
    have hplain := h l List.mem_cons_self
    have hone : ∃ close, analyzeField framing l.field =
        .ok { framing with connectionCloseRequested := close } := by
      unfold analyzeField
      simp only [hplain.length, hplain.coding]
      exact ⟨_, rfl⟩
    rcases hone with ⟨close, hone⟩
    rcases ih (fun l' hm => h l' (List.mem_cons_of_mem _ hm))
      { framing with connectionCloseRequested := close } with ⟨close', hrest⟩
    rw [List.map_cons, List.foldlM_cons, hone]
    exact ⟨close', hrest⟩

theorem LengthField.analyze {n : ℕ} (f : LengthField n) (hn : n < sizeBound)
    (framing : FramingInfo) : ∃ close, analyzeField framing f.line.field =
      .ok { framing with
        connectionCloseRequested := close
        contentLengthCount := framing.contentLengthCount + 1, contentLength := n } := by
  have hparse : parseContentLength f.line.field.value = some n := by
    have hchars := fromChars_digits sizeBound [] f.nonempty f.digits nofun
      (f.value.trans_lt hn)
    rw [List.append_nil, f.value] at hchars
    unfold parseContentLength
    rw [hchars, if_neg (by simpa using f.nonempty)]
  unfold analyzeField
  simp only [f.name, hparse]
  exact ⟨_, rfl⟩

theorem ChunkedField.analyze (f : ChunkedField) (framing : FramingInfo) :
    ∃ close, analyzeField framing f.line.field =
      .ok { framing with
        connectionCloseRequested := close
        transferEncodingFields := framing.transferEncodingFields + 1
        transferEncodingTokens := framing.transferEncodingTokens + 1
        transferEncodingIsChunked := framing.transferEncodingIsChunked } := by
  have hlower := asciiIequals_iff.mp f.value
  have hcomma : ','.toUInt8 ∉ f.line.field.value := by
    intro h
    have hmem := List.mem_map_of_mem (f := asciiLower) h
    rw [hlower] at hmem
    exact absurd hmem (by decide)
  have hne : f.line.field.value ≠ [] := by
    intro hnil
    rw [hnil] at hlower
    exact absurd hlower (by decide)
  have hlength : asciiIequals f.line.field.name contentLengthName = false := by
    rw [Bool.eq_false_iff]
    intro h
    exact Bool.false_ne_true ((not_transferEncoding h).symm.trans f.name)
  have hvalue : asciiIequals f.line.field.value (bytes "chunked") = true := f.value
  unfold analyzeField
  simp only [hlength, f.name, List.splitOn_eq_singleton hcomma, analyzeCodings, f.line.trimmed,
    hvalue, List.isEmpty_iff, hne, Bool.and_true]
  exact ⟨_, rfl⟩

/-- The analysis of the fields around the framing field. -/
theorem analyzeFraming_around {before after : List FieldLine} {middle : List FieldLine}
    {change : FramingInfo} (hbefore : ∀ l ∈ before, l.Plain) (hafter : ∀ l ∈ after, l.Plain)
    (hmiddle : ∀ close, ∃ close', (middle.map FieldLine.field).foldlM analyzeField
      { connectionCloseRequested := close } =
        .ok { change with connectionCloseRequested := close' })
    (hcount : change.contentLengthCount ≤ 1) :
    ∃ close, analyzeFraming ⟨(before ++ (middle ++ after)).map FieldLine.field⟩ =
      .ok { change with connectionCloseRequested := close } := by
  rcases foldlM_plain before hbefore {} with ⟨close₁, h₁⟩
  rcases hmiddle close₁ with ⟨close₂, h₂⟩
  rcases foldlM_plain after hafter { change with connectionCloseRequested := close₂ } with
    ⟨close₃, h₃⟩
  refine ⟨close₃, ?_⟩
  have hrest : (middle.map FieldLine.field ++ after.map FieldLine.field).foldlM analyzeField
      { connectionCloseRequested := close₁ } =
        .ok { change with connectionCloseRequested := close₃ } := by
    rw [List.foldlM_append, h₂]
    exact h₃
  have hfold : ((before ++ (middle ++ after)).map FieldLine.field).foldlM analyzeField {} =
      .ok { change with connectionCloseRequested := close₃ } := by
    rw [List.map_append, List.map_append, List.foldlM_append, h₁]
    exact hrest
  unfold analyzeFraming
  simp only [hfold]
  exact if_neg (not_lt.mpr hcount)

/-! ## Responses -/

structure InterimText where
  head : HeadText
  status : 100 ≤ head.status.code ∧ head.status.code < 200 ∧ head.status.code ≠ 101
  plain : ∀ l ∈ head.fields, l.Plain

structure ChunkText where
  data : Bytes
  nonempty : data ≠ []
  size : SizeText data.length

/-- A body and how it is written. -/
inductive BodyText
  | length (body : Bytes) (field : LengthField body.length)
  | chunked (field : ChunkedField) (chunks : List ChunkText) (last : SizeText 0)
      (trailers : List TrailerLine)
  | untilClose (body : Bytes)

structure ResponseText where
  interims : List InterimText
  status : StatusLine
  final : 200 ≤ status.code
  allowed : status.code ≠ 204 ∧ status.code ≠ 205 ∧ status.code ≠ 304
  before : List FieldLine
  after : List FieldLine
  plainBefore : ∀ l ∈ before, l.Plain
  plainAfter : ∀ l ∈ after, l.Plain
  body : BodyText

namespace ChunkText

def encode (c : ChunkText) : Bytes := c.size.line ++ (crlf ++ (c.data ++ crlf))

def toChunk (c : ChunkText) (hsize : c.data.length < sizeBound) : Chunk :=
  ⟨c.data, c.nonempty, c.size.toSizeLine hsize⟩

end ChunkText

namespace BodyText

def fields : BodyText → List FieldLine
  | length _ field => [field.line]
  | chunked field _ _ _ => [field.line]
  | untilClose _ => []

def content : BodyText → Bytes
  | length body _ | untilClose body => body
  | chunked _ chunks _ _ => chunks.flatMap ChunkText.data

def encode : BodyText → Bytes
  | length body _ | untilClose body => body
  | chunked _ chunks last trailers =>
    chunks.flatMap ChunkText.encode ++
      (last.line ++ (crlf ++ ChunkedMessage.trailerSection trailers))

def selfDelimited : BodyText → Bool
  | untilClose _ => false
  | _ => true

/-- The limits are large enough, with room for the CR behind a size line. -/
def Fits (limits : ResponseLimits) : BodyText → Prop
  | chunked _ chunks last trailers =>
    (∀ c ∈ chunks, c.size.line.length < limits.maxChunkLineBytes.toNat) ∧
      last.line.length < limits.maxChunkLineBytes.toNat ∧
      (ChunkedMessage.trailerSection trailers).length ≤ limits.maxTrailerBytes.toNat
  | _ => True

end BodyText

namespace ResponseText

def head (t : ResponseText) : HeadText := ⟨t.status, t.before ++ (t.body.fields ++ t.after)⟩

def encode (t : ResponseText) : Bytes :=
  t.interims.flatMap (fun i => i.head.block ++ crlfcrlf) ++
    ((t.head.block ++ crlfcrlf) ++ t.body.encode)

def response (t : ResponseText) : Response where
  statusCode := t.status.code
  reason := t.status.reason.getD []
  headers := ⟨t.head.fields.map FieldLine.field⟩
  body := t.body.content

structure Fits (t : ResponseText) (limits : ResponseLimits) : Prop where
  interims : ∀ i ∈ t.interims, i.head.block.length + 4 ≤ limits.maxHeadBytes.toNat
  final : t.head.block.length + 4 ≤ limits.maxHeadBytes.toNat
  content : t.body.content.length ≤ limits.maxBodyBytes.toNat
  coding : t.body.Fits limits

end ResponseText

/-! ## The response that is read -/

theorem InterimText.exists_block (i : InterimText) :
    ∃ h : HeadBlock, h.block = i.head.block ∧ h.Interim := by
  rcases @analyzeFraming_around i.head.fields [] [] {}
    i.plain nofun (fun close => ⟨close, rfl⟩) (Nat.zero_le _) with ⟨close, hanalyzed⟩
  rw [List.append_nil, List.append_nil] at hanalyzed
  refine ⟨⟨i.head.block, i.head.parsed, _, i.head.leads, i.head.parse, hanalyzed⟩, rfl, ?_, rfl, rfl⟩
  rcases i.status with ⟨hlow, hhigh, hne⟩
  simp [isInterimStatus, HeadText.parsed, hlow, hhigh, hne]

theorem exists_blocks (interims : List InterimText) :
    ∃ blocks : List HeadBlock, (∀ h ∈ blocks, h.Interim) ∧
      blocks.map HeadBlock.encode = interims.map fun i => i.head.block ++ crlfcrlf := by
  induction interims with
  | nil => exact ⟨[], nofun, rfl⟩
  | cons i interims ih =>
    rcases i.exists_block with ⟨h, hblock, hinterim⟩
    rcases ih with ⟨blocks, hinterims, hmap⟩
    refine ⟨h :: blocks, List.forall_mem_cons.mpr ⟨hinterim, hinterims⟩, ?_⟩
    rw [List.map_cons, List.map_cons, hmap, HeadBlock.encode, hblock]

theorem exists_chunks (chunks : List ChunkText)
    (hsize : ∀ c ∈ chunks, c.data.length < sizeBound) :
    ∃ cs : List Chunk, cs.flatMap Chunk.encode = chunks.flatMap ChunkText.encode ∧
      cs.flatMap Chunk.data = chunks.flatMap ChunkText.data ∧
      cs.map (fun c => c.size.line) = chunks.map fun c => c.size.line := by
  induction chunks with
  | nil => exact ⟨[], rfl, rfl, rfl⟩
  | cons c chunks ih =>
    rcases ih fun c' hm => hsize c' (List.mem_cons_of_mem _ hm) with ⟨cs, hencode, hdata, hlines⟩
    refine ⟨c.toChunk (hsize c List.mem_cons_self) :: cs, ?_, ?_, ?_⟩
    · rw [List.flatMap_cons, List.flatMap_cons, hencode]
      rfl
    · rw [List.flatMap_cons, List.flatMap_cons, hdata]
      rfl
    · rw [List.map_cons, List.map_cons, hlines]
      rfl

/-- A message whose size lines leave room for the CR is nowhere cut in a full line. -/
theorem ChunkedMessage.not_cutInLine_of_lt {m : ChunkedMessage} {limits : ResponseLimits} {P : Bytes}
    (h : ∀ k, (m.sizeLine k).length < limits.maxChunkLineBytes.toNat) : ¬ m.CutInLine limits P := by
  rintro ⟨k, -, hfull, -⟩
  exact absurd hfull (h k).ne

theorem ChunkedMessage.forall_sizeLine {m : ChunkedMessage} {p : Bytes → Prop}
    (hchunks : ∀ line ∈ m.chunks.map fun c => c.size.line, p line) (hlast : p m.last.line) (k : ℕ) :
    p (m.sizeLine k) := by
  unfold ChunkedMessage.sizeLine
  cases hk : m.chunks[k]? with
  | none => exact hlast
  | some c => exact hchunks _ (List.mem_map_of_mem (List.mem_of_getElem? hk))

/-- The framing and the body of a response, as the parser will find them. -/
theorem BodyText.exists_body (b : BodyText) (hsize : b.content.length < sizeBound) :
    ∃ body : MessageBody, ∃ change : FramingInfo, body.encode = b.encode ∧ body.data = b.content ∧
      (body.framing = .untilClose ↔ b.selfDelimited = false) ∧ change.contentLengthCount ≤ 1 ∧
      (∀ close, ∃ close', (b.fields.map FieldLine.field).foldlM analyzeField
        { connectionCloseRequested := close } =
          .ok { change with connectionCloseRequested := close' }) ∧
      (∀ {requestMethod statusCode close},
        isHeaderTerminatedResponse requestMethod statusCode = false → statusCode ≠ 205 →
          Framed requestMethod statusCode { change with connectionCloseRequested := close }
            body.framing) ∧
      ∀ limits : ResponseLimits, b.content.length ≤ limits.maxBodyBytes.toNat → b.Fits limits →
        body.Within limits ∧ ∀ P, ¬ body.CutInLine limits P := by
  cases b with
  | length data field =>
    have hlen : data.length < sizeBound := hsize
    refine ⟨.length data, { contentLengthCount := 1, contentLength := data.length }, rfl, rfl, ?_,
      le_rfl, fun close => ?_, fun hterm hreset => ?_, fun limits hbody _ => ⟨hbody, fun _ => id⟩⟩
    · exact ⟨nofun, nofun⟩
    · rcases field.analyze hlen { connectionCloseRequested := close } with ⟨close', hone⟩
      refine ⟨close', ?_⟩
      rw [fields, List.map_singleton, List.foldlM_cons, hone]
      rfl
    · exact .length hterm rfl rfl fun hs => absurd hs hreset
  | untilClose data =>
    exact ⟨.untilClose data, {}, rfl, rfl, ⟨fun _ => rfl, fun _ => rfl⟩, Nat.zero_le _,
      fun close => ⟨close, rfl⟩, fun hterm _ => .untilClose hterm rfl Nat.zero_ne_one,
      fun limits hbody _ => ⟨hbody, fun _ => id⟩⟩
  | chunked field chunks last trailers =>
    have hdata : ∀ c ∈ chunks, c.data.length < sizeBound := fun c hm =>
      (List.Sublist.length_le (List.sublist_flatten_of_mem (List.mem_map_of_mem hm))).trans_lt hsize
    rcases exists_chunks chunks hdata with ⟨cs, hencode, hcontent, hlines⟩
    let m : ChunkedMessage := ⟨cs, last.toSizeLine (by decide), trailers⟩
    refine ⟨.chunked m, { transferEncodingFields := 1, transferEncodingTokens := 1 }, ?_, hcontent,
      ⟨nofun, nofun⟩, Nat.zero_le _, fun close => ?_, fun hterm _ => ?_, fun limits hbody hfits => ?_⟩
    · exact congrArg (· ++ _) hencode
    · rcases field.analyze { connectionCloseRequested := close } with ⟨close', hone⟩
      refine ⟨close', ?_⟩
      rw [fields, List.map_singleton, List.foldlM_cons, hone]
      rfl
    · exact .chunked hterm Nat.one_ne_zero rfl rfl rfl
    · rcases hfits with ⟨hshort, hlast, htrailers⟩
      have hroom : ∀ k, (m.sizeLine k).length < limits.maxChunkLineBytes.toNat := by
        refine ChunkedMessage.forall_sizeLine
          (p := fun line => line.length < limits.maxChunkLineBytes.toNat) ?_ hlast
        rw [show m.chunks.map _ = _ from hlines]
        exact List.forall_mem_map.mpr hshort
      refine ⟨⟨fun k => (hroom k).le, ?_, htrailers⟩, fun P =>
        ChunkedMessage.not_cutInLine_of_lt hroom⟩
      exact (congrArg List.length hcontent).trans_le hbody

theorem ResponseText.exists_wire (t : ResponseText) {requestMethod : Method}
    (hmethod : requestMethod ≠ .head) {limits : ResponseLimits} (hfits : t.Fits limits) :
    ∃ w : WireResponse requestMethod, w.encode = t.encode ∧ w.response = t.response ∧
      (w.body.framing = .untilClose ↔ t.body.selfDelimited = false) ∧ w.Within limits ∧
      ∀ P, ¬ w.CutInLine limits P := by
  have hsize : t.body.content.length < sizeBound :=
    hfits.content.trans_lt limits.maxBodyBytes.toNat_lt
  rcases exists_blocks t.interims with ⟨blocks, hinterims, hmap⟩
  rcases t.body.exists_body hsize with
    ⟨body, change, hencode, hdata, hclose, hcount, hmiddle, hframed, hwithin⟩
  rcases analyzeFraming_around t.plainBefore t.plainAfter hmiddle hcount with ⟨close, hanalyzed⟩
  rcases hwithin limits hfits.content hfits.coding with ⟨hbody, hcut⟩
  rcases t.allowed with ⟨h204, h205, h304⟩
  have hlow := t.final
  have hterm : isHeaderTerminatedResponse requestMethod t.status.code = false := by
    have h101 : t.status.code ≠ 101 := by omega
    simp [isHeaderTerminatedResponse, hmethod, h101, h204, h304]
  have hfinal : isInterimStatus t.status.code = false := by
    simp only [isInterimStatus, Bool.and_eq_false_iff, decide_eq_false_iff_not]
    exact .inl (.inr (by omega))
  let final : HeadBlock := ⟨t.head.block, t.head.parsed, _, t.head.leads, t.head.parse, hanalyzed⟩
  let w : WireResponse requestMethod :=
    { interims := blocks, interim := hinterims, final, isFinal := hfinal, body
      framed := hframed hterm h205, reset := fun hs => absurd hs h205 }
  have hlength : ∀ h ∈ blocks, ∃ i ∈ t.interims, h.encode.length = i.head.block.length + 4 := by
    intro h hm
    have hmem := List.mem_map_of_mem (f := HeadBlock.encode) hm
    rw [hmap] at hmem
    rcases List.mem_map.mp hmem with ⟨i, hi, heq⟩
    exact ⟨i, hi, heq ▸ List.length_append⟩
  refine ⟨w, ?_, ?_, hclose, ⟨fun h hm => ?_, ?_, hbody⟩, ?_⟩
  · have hheads : blocks.flatMap HeadBlock.encode =
        t.interims.flatMap fun i => i.head.block ++ crlfcrlf := congrArg List.flatten hmap
    exact congrArg₂ (· ++ ·) hheads (congrArg (_ ++ ·) hencode)
  · exact congrArg (Response.mk _ _ _) hdata
  · rcases hlength h hm with ⟨i, hi, hlen⟩
    exact hlen.trans_le (hfits.interims i hi)
  · exact final.length_encode.trans_le hfits.final
  · rintro P ⟨Q, -, hbad⟩
    exact hcut Q hbad

namespace ResponseParser

/-- Reading what has been written: a self-delimited response completes and leaves what stands
behind it, and a response that lasts until the end of input is completed by it. -/
theorem decodes_encoding (t : ResponseText) (requestMethod : Method)
    (hmethod : requestMethod ≠ .head) (limits : ResponseLimits) (hfits : t.Fits limits)
    (rest : Bytes) (hrest : t.body.selfDelimited = false → rest = []) (pieces : List Bytes)
    (hpieces : pieces.flatten = t.encode ++ rest) :
    let run := (fresh requestMethod limits).feedAll pieces
    failure run.1 = none ∧
      ∃ p, (if t.body.selfDelimited then run.2 = p else run.2.finishEof = (.ok .complete, p)) ∧
        p.isComplete = true ∧ p.response = t.response ∧ p.pendingBytes = rest := by
  rcases t.exists_wire hmethod hfits with ⟨w, hencode, hresponse, hclose, hin, hcut⟩
  have hnone : failure ((fresh requestMethod limits).feedAll pieces).1 = none := by
    refine failure_eq_none fun c hc => ?_
    have hP : c.flatten <+: w.encode ++ rest := by
      rw [hencode, ← hpieces]
      rcases hc with ⟨d, rfl⟩
      rw [List.flatten_append]
      exact List.prefix_append _ _
    exact feed_accepted w hin (fun h => hrest (hclose.mp h)) hP (hcut _)
  refine ⟨hnone, ?_⟩
  rcases feed_of_no_failure hnone with ⟨q, hfeed⟩
  rw [hpieces, ← hencode] at hfeed
  cases hself : t.body.selfDelimited with
  | true =>
    have hne : w.body.framing ≠ .untilClose := fun h => by
      rw [hclose, hself] at h
      cases h
    have hdone := feed_complete_iff.mpr ⟨w, rest, rfl, hin, hne, rfl⟩
    rw [hfeed] at hdone
    refine ⟨_, (Prod.mk.inj hdone).2, rfl, ?_, rfl⟩
    exact hresponse
  | false =>
    rw [hrest hself, List.append_nil] at hfeed
    rw [hrest hself]
    rcases finishEof_complete_iff.mpr ⟨w, rfl, hin, hclose.mpr hself, rfl⟩ with
      ⟨p, q', hfeed', heof⟩
    rw [hfeed] at hfeed'
    cases (finishEof_ok heof).1
    refine ⟨behind w limits [], ?_, rfl, hresponse, rfl⟩
    rw [(Prod.mk.inj hfeed').2]
    exact heof

/-! A chunked response with the body `abc`. -/

def okStatus : StatusLine :=
  ⟨bytes "200", rfl, by decide, by decide, some (bytes "OK"), by decide⟩

def chunkedField : ChunkedField where
  line :=
    ⟨⟨bytes "Transfer-Encoding", bytes "chunked"⟩, [sp], [], by decide, by decide, by decide,
      by decide, by decide⟩
  name := by decide
  value := by decide

def sizeText (digits : Bytes) (size : ℕ) (hne : digits ≠ [])
    (hhex : digits.all (fun d => (digitValue 16 d).isSome) = true)
    (hvalue : ofDigits 16 digits = size) : SizeText size :=
  ⟨digits, hne, List.all_eq_true.mp hhex, hvalue, [], rfl, none, nofun⟩

def abcResponse : ResponseText where
  interims := []
  status := okStatus
  final := by decide
  allowed := by decide
  before := []
  after := []
  plainBefore := nofun
  plainAfter := nofun
  body := .chunked chunkedField
    [⟨bytes "abc", by decide, sizeText (bytes "03") 3 (by decide) rfl rfl⟩]
    (sizeText (bytes "0") 0 (by decide) rfl rfl) []

theorem decodes_encoding_abc :
    let run := (fresh .get {}).feedAll [abcResponse.encode, bytes "HTTP"]
    failure run.1 = none ∧
      ∃ p, (if abcResponse.body.selfDelimited then run.2 = p
        else run.2.finishEof = (.ok .complete, p)) ∧
        p.isComplete = true ∧ p.response = abcResponse.response ∧ p.pendingBytes = bytes "HTTP" :=
  decodes_encoding abcResponse .get (by decide) {}
    ⟨nofun, by decide, by decide, by decide, by decide, by decide⟩ (bytes "HTTP") nofun _
    (by simp)

end ResponseParser

end CppRequest
