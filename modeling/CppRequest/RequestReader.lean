import CppRequest.Lines
import CppRequest.RequestSerializer

/-!
# Reading a request back

A reader of HTTP/1.1 requests as a server has it: the request line, the field lines
up to the first CRLFCRLF, and a body of as many bytes as Content-Length says. What
`serialize_request` writes is read back, and what follows on the connection is left.
-/

namespace CppRequest

open Search Headers

/-! ## The reader -/

structure ReadRequest where
  method : Bytes
  target : Bytes
  fields : List Field
  body : Bytes
deriving Repr, DecidableEq

def readRequestLine (line : Bytes) : Option (Bytes × Bytes) :=
  match line.splitOn sp with
  | [method, target, version] =>
    if validHeaderName method && !target.isEmpty && version == bytes "HTTP/1.1" then
      some (method, target)
    else none
  | _ => none

def readField (line : Bytes) : Option Field :=
  match cut [':'.toUInt8] line with
  | some (name, value) =>
    if validHeaderName name && validFieldValue value then some ⟨name, trimOws value⟩ else none
  | none => none

def readDecimal (text : Bytes) : Option ℕ :=
  if !text.isEmpty && text.all isDigit then some (ofDigits 10 text) else none

def bodySize (headers : Headers) : Option ℕ :=
  match headers.values contentLengthName with
  | [] => some 0
  | [value] => readDecimal value
  | _ => none

/-- The request in front and the bytes behind it. -/
def readRequest (s : Bytes) : Option (ReadRequest × Bytes) := do
  let (head, rest) ← cut crlfcrlf s
  let lines := splitLines head
  let (method, target) ← readRequestLine (lines.headD [])
  let fields ← lines.tail.mapM readField
  let size ← bodySize ⟨fields⟩
  if size ≤ rest.length then some (⟨method, target, fields, rest.take size⟩, rest.drop size)
  else none

/-! ## Heads that are read back -/

def Field.trimmed (f : Field) : Field := ⟨f.name, trimOws f.value⟩

/-- A request head whose parts keep to their byte classes. -/
structure RequestHead where
  method : Bytes
  target : Bytes
  fields : List Field
  token : validHeaderName method = true
  slash : target.head? = some '/'.toUInt8
  clean : ∀ b ∈ target, forbiddenUrlByte b = false
  names : ∀ f ∈ fields, validHeaderName f.name = true
  values : ∀ f ∈ fields, validFieldValue f.value = true

namespace RequestHead

def requestLine (h : RequestHead) : Bytes :=
  h.method ++ (sp :: (h.target ++ bytes " HTTP/1.1"))

def fieldLine (f : Field) : Bytes := f.name ++ (bytes ": " ++ f.value)

def lines (h : RequestHead) : List Bytes := h.requestLine :: h.fields.map fieldLine

def text (h : RequestHead) : Bytes := crlf.intercalate h.lines ++ crlfcrlf

theorem tchar_valid {ch : Byte} (h : isTchar ch = true) : validFieldValue [ch] = true :=
  forall_byte (P := fun ch => isTchar ch = true → validFieldValue [ch] = true) (by decide) ch h

theorem url_valid {ch : Byte} (h : forbiddenUrlByte ch = false) :
    validFieldValue [ch] = true ∧ ch ≠ sp :=
  forall_byte (P := fun ch => forbiddenUrlByte ch = false → validFieldValue [ch] = true ∧ ch ≠ sp)
    (by decide) ch h

theorem validFieldValue_append (a b : Bytes) :
    validFieldValue (a ++ b) = (validFieldValue a && validFieldValue b) := List.all_append

theorem validFieldValue_iff {a : Bytes} :
    validFieldValue a = true ↔ ∀ b ∈ a, validFieldValue [b] = true := by
  simp [validFieldValue]

theorem mem_name {name : Bytes} (h : validHeaderName name = true) :
    name ≠ [] ∧ ∀ ch ∈ name, isTchar ch = true := by
  rw [validHeaderName, Bool.and_eq_true] at h
  exact ⟨by simpa using h.1, List.all_eq_true.mp h.2⟩

theorem validFieldValue_name {name : Bytes} (h : validHeaderName name = true) :
    validFieldValue name = true :=
  validFieldValue_iff.mpr fun ch hch => tchar_valid ((mem_name h).2 ch hch)

theorem requestLine_valid (h : RequestHead) : validFieldValue h.requestLine = true := by
  have htarget : validFieldValue h.target = true :=
    validFieldValue_iff.mpr fun ch hch => (url_valid (h.clean ch hch)).1
  have hversion : validFieldValue (bytes " HTTP/1.1") = true := by decide
  have hsp : validFieldValue [sp] = true := by decide
  rw [requestLine, ← List.singleton_append, validFieldValue_append, validFieldValue_append,
    validFieldValue_append, validFieldValue_name h.token, hsp, htarget, hversion]
  rfl

theorem fieldLine_valid {f : Field} (hname : validHeaderName f.name = true)
    (hvalue : validFieldValue f.value = true) : validFieldValue (fieldLine f) = true := by
  have hcolon : validFieldValue (bytes ": ") = true := by decide
  rw [fieldLine, validFieldValue_append, validFieldValue_append, validFieldValue_name hname,
    hcolon, hvalue]
  rfl

/-- No line of a head is empty, and none holds a control byte other than HTAB. -/
theorem lines_valid (h : RequestHead) :
    ∀ line ∈ h.lines, line ≠ [] ∧ validFieldValue line = true := by
  intro line hline
  rcases List.mem_cons.mp hline with rfl | hline
  · refine ⟨fun hnil => ?_, h.requestLine_valid⟩
    rw [requestLine, List.append_eq_nil_iff] at hnil
    exact (mem_name h.token).1 hnil.1
  · rcases List.mem_map.mp hline with ⟨f, hf, rfl⟩
    refine ⟨fun hnil => ?_, fieldLine_valid (h.names f hf) (h.values f hf)⟩
    rw [fieldLine, List.append_eq_nil_iff] at hnil
    exact (mem_name (h.names f hf)).1 hnil.1

theorem leads (h : RequestHead) : Leads crlfcrlf (crlf.intercalate h.lines) := by
  apply leads_intercalate (List.cons_ne_nil _ _)
  intro line hline
  have hvalid := h.lines_valid line hline
  exact ⟨hvalid.1, validFieldValue_ne hvalid.2⟩

theorem splitLines_lines (h : RequestHead) : splitLines (crlf.intercalate h.lines) = h.lines := by
  apply splitLines_intercalate (List.cons_ne_nil _ _)
  intro line hline
  exact validFieldValue_ne (h.lines_valid line hline).2

theorem target_ne_nil (h : RequestHead) : h.target ≠ [] := by
  intro hnil
  have hslash := h.slash
  rw [hnil] at hslash
  cases hslash

theorem readRequestLine_requestLine (h : RequestHead) :
    readRequestLine h.requestLine = some (h.method, h.target) := by
  have hmethod : sp ∉ h.method := fun hsp => (isTchar_ne ((mem_name h.token).2 sp hsp)).1 rfl
  have htarget : sp ∉ h.target := fun hsp => (url_valid (h.clean sp hsp)).2 rfl
  have hparts : ∀ part ∈ [h.method, h.target, bytes "HTTP/1.1"], sp ∉ part := by
    intro part hpart
    simp only [List.mem_cons, List.not_mem_nil, or_false] at hpart
    rcases hpart with rfl | rfl | rfl
    · exact hmethod
    · exact htarget
    · decide
  have hline : h.requestLine = [sp].intercalate [h.method, h.target, bytes "HTTP/1.1"] := by
    simp only [List.intercalate_cons_cons, List.intercalate_singleton, List.append_assoc]
    rfl
  have hsplit : h.requestLine.splitOn sp = [h.method, h.target, bytes "HTTP/1.1"] := by
    rw [hline, List.splitOn_intercalate sp hparts (by simp)]
  unfold readRequestLine
  rw [hsplit]
  simp [h.token, h.target_ne_nil]

theorem readField_fieldLine {f : Field} (hname : validHeaderName f.name = true)
    (hvalue : validFieldValue f.value = true) : readField (fieldLine f) = some f.trimmed := by
  have hno : ':'.toUInt8 ∉ f.name := fun h => (isTchar_ne ((mem_name hname).2 _ h)).2.2.1 rfl
  have hcut : cut [':'.toUInt8] (fieldLine f) = some (f.name, sp :: f.value) :=
    cut_leads (sp :: f.value) (leads_of_not_mem hno)
  have hblank : validFieldValue (sp :: f.value) = true := by
    rw [← List.singleton_append, validFieldValue_append, hvalue]
    decide
  have htrim : trimOws (sp :: f.value) = trimOws f.value := by
    have hpad := trimOws_pad [sp] f.value [] (by decide) rfl
    rwa [List.append_nil] at hpad
  unfold readField
  rw [hcut]
  simp [hname, hblank, htrim, Field.trimmed]

theorem mapM_readField {fields : List Field} (hnames : ∀ f ∈ fields, validHeaderName f.name = true)
    (hvalues : ∀ f ∈ fields, validFieldValue f.value = true) :
    (fields.map fieldLine).mapM readField = some (fields.map Field.trimmed) := by
  induction fields with
  | nil => rfl
  | cons f fields ih =>
    have hfield := readField_fieldLine (hnames f List.mem_cons_self) (hvalues f List.mem_cons_self)
    have hrest := ih (fun f hf => hnames f (List.mem_cons_of_mem _ hf))
      (fun f hf => hvalues f (List.mem_cons_of_mem _ hf))
    rw [List.map_cons, List.mapM_cons, hfield, hrest]
    rfl

/-- A head and as many bytes as it announces are read back, whatever follows. -/
theorem read (h : RequestHead) {body : Bytes}
    (hsize : bodySize ⟨h.fields.map Field.trimmed⟩ = some body.length) (rest : Bytes) :
    readRequest (h.text ++ body ++ rest) =
      some (⟨h.method, h.target, h.fields.map Field.trimmed, body⟩, rest) := by
  have hcut : cut crlfcrlf (h.text ++ body ++ rest) =
      some (crlf.intercalate h.lines, body ++ rest) := by
    rw [text, List.append_assoc, List.append_assoc]
    exact cut_leads (body ++ rest) h.leads
  have hfields := mapM_readField h.names h.values
  unfold readRequest
  simp only [hcut, Option.bind_eq_bind, Option.bind_some, h.splitLines_lines]
  simp [lines, h.readRequestLine_requestLine, hfields, hsize]

end RequestHead

/-! ## What is serialized is read back -/

theorem parseContentLength_some {text : Bytes} {n : ℕ} (h : parseContentLength text = some n) :
    readDecimal text = some n := by
  unfold parseContentLength at h
  split_ifs at h with hnil
  cases hchars : fromChars 10 sizeBound text with
  | none => rw [hchars] at h; cases h
  | some r =>
    rcases r with ⟨value, _ | ⟨ch, rest⟩⟩
    · rw [hchars] at h
      cases h
      rcases fromChars_some hchars with ⟨digits, hne, hdigits, rfl, rfl, -⟩
      rw [List.append_nil]
      have hall : digits.all isDigit = true := by
        rw [List.all_eq_true]
        intro ch hch
        rw [← isSome_digitValue]
        exact hdigits ch hch
      unfold readDecimal
      rw [hall]
      simp [hne]
    · rw [hchars] at h
      cases h

theorem trimOws_digits {text : Bytes} {n : ℕ} (h : readDecimal text = some n) :
    trimOws text = text := by
  have hdigit : ∀ ch ∈ text, isOws ch = false := by
    unfold readDecimal at h
    split_ifs at h with hall
    rw [Bool.and_eq_true] at hall
    intro ch hch
    have hch := List.all_eq_true.mp hall.2 ch hch
    exact forall_byte (P := fun ch => isDigit ch = true → isOws ch = false) (by decide) ch hch
  have hkeep : ∀ l : Bytes, (∀ ch ∈ l, isOws ch = false) → l.dropWhile isOws = l := by
    intro l hl
    cases l with
    | nil => rfl
    | cons ch l => rw [List.dropWhile_cons_of_neg (by simp [hl ch])]
  unfold trimOws List.rdropWhile
  rw [hkeep text hdigit, hkeep text.reverse (fun ch hch => hdigit ch (by simpa using hch)),
    List.reverse_reverse]

theorem readDecimal_decimal (n : ℕ) : readDecimal (decimal n) = some n := by
  rcases decimal_spec n with ⟨hne, hdigits, hvalue⟩
  unfold readDecimal
  rw [hvalue, List.all_eq_true.mpr hdigits]
  simp [hne]

theorem values_trimmed (fields : List Field) (name : Bytes) :
    (⟨fields.map Field.trimmed⟩ : Headers).values name =
      ((⟨fields⟩ : Headers).values name).map trimOws := by
  induction fields with
  | nil => rfl
  | cons f fields ih =>
    have hf := values_append [f] fields name
    have ht := values_append [f.trimmed] (fields.map Field.trimmed) name
    rw [List.singleton_append, values_singleton] at hf ht
    rw [List.map_cons, ht, hf, ih, List.map_append]
    by_cases hname : asciiIequals f.name name <;> simp [hname, Field.trimmed]

/-- A header list with at most one Content-Length, of the value `n`, or none, and `n` zero. -/
theorem bodySize_eq {fields : List Field} {n : ℕ}
    (hcount : ((⟨fields⟩ : Headers).values contentLengthName).length ≤ 1)
    (hvalue : ∀ v ∈ (⟨fields⟩ : Headers).values contentLengthName, readDecimal v = some n)
    (hnone : (⟨fields⟩ : Headers).values contentLengthName = [] → n = 0) :
    bodySize ⟨fields.map Field.trimmed⟩ = some n := by
  unfold bodySize
  rw [values_trimmed]
  cases hv : (⟨fields⟩ : Headers).values contentLengthName with
  | nil => rw [hnone hv]; rfl
  | cons v vs =>
    rw [hv] at hcount hvalue
    have hvs : vs = [] := by
      rw [List.length_cons] at hcount
      exact List.length_eq_zero_iff.mp (by omega)
    have hread := hvalue v List.mem_cons_self
    rw [hvs, List.map_cons, List.map_nil, trimOws_digits hread]
    exact hread

theorem decimal_valid (n : ℕ) : validFieldValue (decimal n) = true := by
  apply RequestHead.validFieldValue_iff.mpr
  intro b hb
  have hdigit := (decimal_spec n).2.1 b hb
  exact forall_byte (P := fun b => isDigit b = true → validFieldValue [b] = true) (by decide) b hdigit

theorem generatedHost_valid {url : Url} (h : ∀ b ∈ url.storage, forbiddenUrlByte b = false) :
    validFieldValue (generatedHost url) = true := by
  have hhost : validFieldValue url.host = true := by
    apply RequestHead.validFieldValue_iff.mpr
    intro b hb
    exact (RequestHead.url_valid (h b (List.mem_of_mem_drop (List.mem_of_mem_take hb)))).1
  have hport : validFieldValue (decimal url.port) = true := decimal_valid url.port
  have hopen : validFieldValue ['['.toUInt8] = true := by decide
  have hclose : validFieldValue [']'.toUInt8] = true := by decide
  have hcolon : validFieldValue [':'.toUInt8] = true := by decide
  unfold generatedHost
  rw [RequestHead.validFieldValue_append, Bool.and_eq_true]
  constructor
  · split_ifs
    · rw [← List.singleton_append, RequestHead.validFieldValue_append,
        RequestHead.validFieldValue_append, hopen, hhost, hclose]
      rfl
    · exact hhost
  · split_ifs
    · rw [← List.singleton_append, RequestHead.validFieldValue_append, hcolon, hport]
      rfl
    · rfl

theorem methodToken_valid (method : Method) : validHeaderName (methodToken method) = true := by
  cases method <;> decide

theorem forall_requestFields {request : Request} {url : Url} {counts : FieldCounts}
    {P : Field → Prop} (hhost : P ⟨hostName, generatedHost url⟩)
    (hcaller : ∀ f ∈ request.headers.fields, P f)
    (hlength : P ⟨contentLengthName, decimal request.body.length⟩) :
    ∀ f ∈ requestFields request url counts, P f := by
  intro f hf
  unfold requestFields at hf
  rcases List.mem_append.mp hf with hf | hf
  · split_ifs at hf with hzero
    · rwa [List.mem_singleton.mp hf]
    · cases hf
  rcases List.mem_append.mp hf with hf | hf
  · exact hcaller f hf
  · split_ifs at hf with hgenerated
    · rwa [List.mem_singleton.mp hf]
    · cases hf

/-- The head of a serialized request keeps to the byte classes. -/
def serializedHead {inetPton6 : Bytes → Bool} {request : Request} {url : Url}
    {counts : FieldCounts} (hurl : Url.parse inetPton6 request.url = .ok url)
    (hc : Checked request.headers.fields counts) : RequestHead where
  method := methodToken request.method
  target := requestTarget request url
  fields := requestFields request url counts
  token := methodToken_valid request.method
  slash := appendQueryParams_head? _ (Url.parse_ok hurl).2
  clean := appendQueryParams_good _ fun b hb =>
    (Url.parse_ok hurl).1 b (List.mem_of_mem_drop hb)
  names := by
    have hhost : validHeaderName hostName = true := by decide
    have hlength : validHeaderName contentLengthName = true := by decide
    exact forall_requestFields (P := fun f => validHeaderName f.name = true) hhost hc.names hlength
  values := forall_requestFields (P := fun f => validFieldValue f.value = true)
    (generatedHost_valid (Url.parse_ok hurl).1) hc.values (decimal_valid _)

/-- The text of the head is the one that `serialize_request` writes. -/
theorem requestHead_text {inetPton6 : Bytes → Bool} {request : Request} {url : Url}
    {counts : FieldCounts} (hurl : Url.parse inetPton6 request.url = .ok url)
    (hc : Checked request.headers.fields counts) :
    requestHead request url counts = (serializedHead hurl hc).text := by
  have hlines := flatMap_crlf (List.cons_ne_nil (serializedHead hurl hc).requestLine
    ((serializedHead hurl hc).fields.map RequestHead.fieldLine))
  have hfields : ((requestFields request url counts).map RequestHead.fieldLine).flatMap
      (fun line => line ++ crlf) = (requestFields request url counts).flatMap fieldText := by
    rw [List.flatMap_map]
    congr 1
    funext f
    simp [RequestHead.fieldLine, fieldText]
  rw [RequestHead.text, RequestHead.lines, ← hlines, List.flatMap_cons]
  show _ = _ ++ ((requestFields request url counts).map RequestHead.fieldLine).flatMap _ ++ crlf
  rw [hfields]
  simp [requestHead, RequestHead.requestLine, serializedHead]

theorem values_requestFields (request : Request) (url : Url) (counts : FieldCounts) (name : Bytes) :
    (⟨requestFields request url counts⟩ : Headers).values name =
      (if counts.hostCount = 0 ∧ asciiIequals hostName name = true then [generatedHost url]
        else []) ++ (request.headers.values name ++
      if (counts.contentLengthCount = 0
          ∧ (!request.body.isEmpty || methodHasContentSemantics request.method) = true)
          ∧ asciiIequals contentLengthName name = true then [decimal request.body.length]
        else []) := by
  unfold requestFields
  rw [values_append, values_append]
  congr 1
  · by_cases hzero : counts.hostCount = 0
    · simp [hzero, values_singleton]
    · simp [hzero, Headers.values]
  · congr 1
    by_cases hgenerated : counts.contentLengthCount = 0
        ∧ (!request.body.isEmpty || methodHasContentSemantics request.method) = true
    · rw [if_pos hgenerated, values_singleton]
      simp only [hgenerated, true_and]
    · rw [if_neg hgenerated, if_neg (fun h => hgenerated h.1)]
      rfl

theorem values_host {request : Request} {url : Url} {counts : FieldCounts}
    (hc : Checked request.headers.fields counts) (hone : counts.hostCount ≤ 1) :
    ((⟨requestFields request url counts⟩ : Headers).values hostName).length = 1 := by
  have hself : asciiIequals hostName hostName = true := by decide
  have hother : asciiIequals contentLengthName hostName = false := by decide
  have hcount : counts.hostCount = (request.headers.values hostName).length := hc.hostCount
  rw [values_requestFields]
  simp only [hself, hother, and_true, and_false, Bool.false_eq_true, if_false, List.append_nil,
    List.length_append]
  by_cases hzero : counts.hostCount = 0
  · rw [if_pos hzero, List.length_singleton]
    omega
  · rw [if_neg hzero, List.length_nil]
    omega

theorem values_transferEncoding {request : Request} {url : Url} {counts : FieldCounts}
    (hc : Checked request.headers.fields counts) :
    (⟨requestFields request url counts⟩ : Headers).values transferEncodingName = [] := by
  have hhost : asciiIequals hostName transferEncodingName = false := by decide
  have hlength : asciiIequals contentLengthName transferEncodingName = false := by decide
  rw [values_requestFields]
  simp [hhost, hlength, show request.headers.values transferEncodingName = [] from hc.unchunked]

/-- The Content-Length of a serialized request. -/
theorem values_contentLength {request : Request} {url : Url} {counts : FieldCounts}
    (hc : Checked request.headers.fields counts) (hone : counts.contentLengthCount ≤ 1)
    (hdeclared : counts.contentLengthCount = 1 →
      counts.declaredContentLength = request.body.length) :
    ((⟨requestFields request url counts⟩ : Headers).values contentLengthName).length ≤ 1 ∧
      (∀ v ∈ (⟨requestFields request url counts⟩ : Headers).values contentLengthName,
        readDecimal v = some request.body.length) ∧
      ((⟨requestFields request url counts⟩ : Headers).values contentLengthName = [] →
        request.body = []) := by
  have hhost : asciiIequals hostName contentLengthName = false := by decide
  have hself : asciiIequals contentLengthName contentLengthName = true := by decide
  have hcount := hc.lengthCount
  rw [values_requestFields]
  simp only [hhost, hself, and_true, and_false, Bool.false_eq_true, if_false, List.nil_append]
  show List.length (Headers.values ⟨request.headers.fields⟩ contentLengthName ++ _) ≤ 1 ∧
    (∀ v ∈ Headers.values ⟨request.headers.fields⟩ contentLengthName ++ _, _) ∧
    (Headers.values ⟨request.headers.fields⟩ contentLengthName ++ _ = [] → _)
  cases hv : (⟨request.headers.fields⟩ : Headers).values contentLengthName with
  | nil =>
    rw [hv] at hcount
    rw [List.nil_append]
    by_cases hgenerated : (!request.body.isEmpty || methodHasContentSemantics request.method) = true
    · rw [if_pos ⟨hcount, hgenerated⟩]
      refine ⟨Nat.le_refl 1, ?_, nofun⟩
      intro v hv
      rw [List.mem_singleton.mp hv]
      exact readDecimal_decimal _
    · rw [if_neg fun h => hgenerated h.2]
      refine ⟨Nat.zero_le 1, nofun, fun _ => ?_⟩
      rw [Bool.not_eq_true, Bool.or_eq_false_iff] at hgenerated
      simpa using hgenerated.1
  | cons v vs =>
    rw [hv, List.length_cons] at hcount
    have hvs : vs = [] := List.length_eq_zero_iff.mp (by omega)
    have hone : counts.contentLengthCount = 1 := by omega
    subst hvs
    have hread := parseContentLength_some (hc.length v (by rw [hv]; rfl))
    rw [hdeclared hone] at hread
    rw [if_neg (by omega), List.append_nil]
    refine ⟨Nat.le_refl 1, ?_, nofun⟩
    intro v' hv'
    rwa [List.mem_singleton.mp hv']

/-- A serialized request is one request on the wire, whatever follows it. -/
theorem request_framing {inetPton6 : Bytes → Bool} {request : Request} {s : SerializedRequest}
    (hs : serializeRequest inetPton6 request = .ok s) :
    ∃ h : RequestHead, s.head = h.text ∧ s.body = request.body ∧
      cut crlfcrlf s.head = some (crlf.intercalate h.lines, []) ∧
      (∀ line ∈ h.lines, validFieldValue line = true) ∧
      h.method = methodToken request.method ∧
      h.fields = (if request.headers.values hostName = [] then
          [⟨hostName, generatedHost s.url⟩] else []) ++ (request.headers.fields ++
        if request.headers.values contentLengthName = []
            ∧ (request.body ≠ [] ∨ methodHasContentSemantics request.method = true) then
          [⟨contentLengthName, decimal request.body.length⟩] else []) ∧
      (∀ rest, readRequest (s.head ++ s.body ++ rest) =
        some (⟨h.method, h.target, h.fields.map Field.trimmed, request.body⟩, rest)) ∧
      ((⟨h.fields⟩ : Headers).values hostName).length = 1 ∧
      (⟨h.fields⟩ : Headers).values transferEncodingName = [] ∧
      ((⟨h.fields⟩ : Headers).values contentLengthName).length ≤ 1 ∧
      (∀ v ∈ (⟨h.fields⟩ : Headers).values contentLengthName,
        readDecimal v = some request.body.length) ∧
      (request.body ≠ [] → (⟨h.fields⟩ : Headers).values contentLengthName ≠ []) := by
  rcases serializeRequest_ok hs with ⟨url, counts, hurl, hc, hhost, hlength, hdeclared, rfl⟩
  have hvalues := @values_contentLength request url counts hc hlength hdeclared
  have htext := requestHead_text hurl hc
  have hbody : bodySize ⟨(requestFields request url counts).map Field.trimmed⟩ =
      some request.body.length := by
    apply bodySize_eq hvalues.1 hvalues.2.1
    intro hnil
    rw [hvalues.2.2 hnil, List.length_nil]
  refine ⟨serializedHead hurl hc, htext, rfl, ?_, ?_, rfl, ?_, ?_, values_host hc hhost,
    values_transferEncoding hc, hvalues.1, hvalues.2.1, fun hne hnil => hne (hvalues.2.2 hnil)⟩
  · have hcut := cut_leads [] (serializedHead hurl hc).leads
    rw [List.append_nil] at hcut
    rw [htext]
    exact hcut
  · intro line hline
    exact ((serializedHead hurl hc).lines_valid line hline).2
  · show requestFields request url counts = _
    have hh : counts.hostCount = 0 ↔ request.headers.values hostName = [] := by
      rw [hc.hostCount, List.length_eq_zero_iff]
    have hl : counts.contentLengthCount = 0 ↔ request.headers.values contentLengthName = [] := by
      rw [hc.lengthCount, List.length_eq_zero_iff]
    unfold requestFields
    simp [hh, hl]
  · intro rest
    have hread := (serializedHead hurl hc).read hbody rest
    rw [← htext] at hread
    exact hread

/-- A request with a query, a field of its own and a body, and what it is serialized to. -/
def postRequest : Request where
  method := .post
  url := bytes "http://h/a#top"
  headers := ⟨[⟨bytes "X", bytes "1 "⟩]⟩
  body := bytes "abc"
  queryParams := [⟨bytes "q", bytes " "⟩]

def postSerialized : SerializedRequest where
  url := { storage := bytes "http://h/a", schemeSize := 4, hostBegin := 7, hostSize := 1
           pathBegin := 8, pathSize := 2, queryBegin := 10 }
  head := bytes "POST /a?q=%20 HTTP/1.1\r\nHost: h\r\nX: 1 \r\nContent-Length: 3\r\n\r\n"
  body := bytes "abc"

theorem request_framing_post :
    ∃ h : RequestHead, postSerialized.head = h.text ∧ ∀ rest,
      readRequest (postSerialized.head ++ postSerialized.body ++ rest) =
        some (⟨h.method, h.target, h.fields.map Field.trimmed, bytes "abc"⟩, rest) := by
  have hs : serializeRequest (fun _ => false) postRequest = .ok postSerialized := by decide +kernel
  rcases request_framing hs with ⟨h, htext, _, _, _, _, _, hread, _⟩
  exact ⟨h, htext, hread⟩

end CppRequest
