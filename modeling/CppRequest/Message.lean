import CppRequest.Text

/-!
# Requests, responses, headers and errors

The value types of the public interface. `Result<T>` is `Except Error T`.
-/

namespace CppRequest

inductive ErrorCode
  | invalidUrl | unsupportedScheme | invalidPort
  | resolveFailed | socketCreateFailed | connectFailed | connectTimeout
  | writeFailed | writeTimeout | readFailed | readTimeout | connectionClosed
  | malformedResponse | invalidStatusLine | invalidHeader | invalidContentLength
  | invalidChunkSize | invalidChunkFraming | conflictingMessageFraming | unexpectedEof
  | responseLimitExceeded
  | redirectLimitExceeded | missingRedirectLocation | unsupportedRedirectScheme
  | unknown
deriving Repr, DecidableEq

structure Error where
  code : ErrorCode
  nativeCode : ℤ := 0
deriving Repr, DecidableEq

abbrev Result := Except Error

inductive Method
  | get | head | post | put | patch | delete
deriving Repr, DecidableEq

structure Field where
  name : Bytes
  value : Bytes
deriving Repr, DecidableEq

structure Headers where
  fields : List Field := []
deriving Repr, DecidableEq

namespace Headers

def add (h : Headers) (name value : Bytes) : Headers := ⟨h.fields ++ [⟨name, value⟩]⟩

/-- The first match is replaced in place, and the other ones are erased behind it. -/
def set (h : Headers) (name value : Bytes) : Headers :=
  match h.fields.findIdx? fun field => asciiIequals field.name name with
  | none => ⟨h.fields ++ [⟨name, value⟩]⟩
  | some first => ⟨h.fields.take first ++ ⟨name, value⟩ ::
      (h.fields.drop (first + 1)).filter fun field => !asciiIequals field.name name⟩

def contains (h : Headers) (name : Bytes) : Bool :=
  h.fields.any fun field => asciiIequals field.name name

def get (h : Headers) (name : Bytes) : Bytes :=
  match h.fields.find? fun field => asciiIequals field.name name with
  | some field => field.value
  | none => []

/-- The values of the fields of one name, in order. -/
def values (h : Headers) (name : Bytes) : List Bytes :=
  (h.fields.filter fun field => asciiIequals field.name name).map Field.value

@[simp] theorem add_fields (h : Headers) (name value : Bytes) :
    (h.add name value).fields = h.fields ++ [⟨name, value⟩] := rfl

theorem values_append (fields fields' : List Field) (name : Bytes) :
    (⟨fields ++ fields'⟩ : Headers).values name =
      (⟨fields⟩ : Headers).values name ++ (⟨fields'⟩ : Headers).values name := by
  simp [values]

theorem values_singleton (field : Field) (name : Bytes) :
    (⟨[field]⟩ : Headers).values name =
      if asciiIequals field.name name then [field.value] else [] := by
  unfold values
  by_cases h : asciiIequals field.name name <;> simp [h]

end Headers

def hostName : Bytes := bytes "Host"
def connectionName : Bytes := bytes "Connection"
def contentLengthName : Bytes := bytes "Content-Length"
def transferEncodingName : Bytes := bytes "Transfer-Encoding"

/-- No field has both names. -/
theorem not_transferEncoding {name : Bytes} (h : asciiIequals name contentLengthName = true) :
    asciiIequals name transferEncodingName = false := by
  rw [Bool.eq_false_iff]
  intro h'
  rw [asciiIequals_comm] at h
  exact absurd (asciiIequals_trans h h') (by decide)

structure QueryParam where
  name : Bytes
  value : Bytes
deriving Repr, DecidableEq

structure Request where
  method : Method
  url : Bytes
  headers : Headers := {}
  body : Bytes := []
  queryParams : List QueryParam := []
deriving Repr, DecidableEq

structure Response where
  statusCode : ℕ := 0
  reason : Bytes := []
  headers : Headers := {}
  body : Bytes := []
deriving Repr, DecidableEq

/-- The limits are `std::size_t` values. -/
structure ResponseLimits where
  maxHeadBytes : UInt64 := 64 * 1024
  maxBodyBytes : UInt64 := 64 * 1024 * 1024
  maxChunkLineBytes : UInt64 := 8 * 1024
  maxTrailerBytes : UInt64 := 64 * 1024
deriving Repr, DecidableEq

end CppRequest
