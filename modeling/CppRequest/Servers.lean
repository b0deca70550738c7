import CppRequest.Destinations
import CppRequest.RequestReader
import CppRequest.TurnTaking
import CppRequest.UniqueReading

/-!
# Servers

A server reads requests from what a socket has accepted and answers them in order. Against such
servers a call that succeeds returns the answer to its own request, whatever has gone over the
connection before and however the bytes arrive.
-/

namespace CppRequest

open Procedure Monitor ResponseParser Search

/-! ## Reading one request after the other -/

theorem readRequest_rest {s rest : Bytes} {r : ReadRequest} (h : readRequest s = some (r, rest)) :
    rest.length < s.length := by
  unfold readRequest at h
  simp only [Option.bind_eq_bind, Option.bind_eq_some_iff] at h
  obtain ⟨⟨head, tail⟩, hcut, line, -, fields, -, size, -, h⟩ := h
  obtain ⟨hs, -⟩ := cut_eq_some_iff.mp hcut
  have hlength := congrArg List.length hs
  simp only [List.length_append, crlfcrlf, List.length_cons] at hlength
  split_ifs at h
  cases h
  have hdrop : (tail.drop size).length ≤ tail.length := by
    rw [List.length_drop]
    exact Nat.sub_le _ _
  show (tail.drop size).length < s.length
  omega

/-- As long as a whole request is there. -/
def requestReader : ExitLoop (List ReadRequest × Bytes) (List ReadRequest × Bytes) where
  step t := match readRequest t.2 with
    | some (r, rest) => .inl (t.1 ++ [r], rest)
    | none => .inr t
  measure t := t.2.length
  decreases := by
    intro t t' h
    cases hread : readRequest t.2 with
    | none =>
      rw [hread] at h
      cases h
    | some r =>
      rw [hread] at h
      cases h
      exact readRequest_rest hread

def readRequests (s : Bytes) : List ReadRequest × Bytes := requestReader.run ([], s)

/-- What `serialize_request` writes is read as one request, whatever follows it. -/
theorem reads_serialized {inetPton6 : Bytes → Bool} {request : Request} {s : SerializedRequest}
    (h : serializeRequest inetPton6 request = .ok s) :
    ∃ r : ReadRequest, r.method = methodToken request.method ∧ r.body = request.body ∧
      (∃ counts, r.fields = (requestFields request s.url counts).map Field.trimmed) ∧
      ∀ rest, readRequest (s.text ++ rest) = some (r, rest) := by
  obtain ⟨url, counts, hurl, hc, hhost, hlength, hdeclared, rfl⟩ := serializeRequest_ok h
  have hvalues := @values_contentLength request url counts hc hlength hdeclared
  have hbody : bodySize ⟨(requestFields request url counts).map Field.trimmed⟩ =
      some request.body.length := by
    apply bodySize_eq hvalues.1 hvalues.2.1
    intro hnil
    rw [hvalues.2.2 hnil, List.length_nil]
  have hread := (serializedHead hurl hc).read hbody
  rw [← requestHead_text hurl hc] at hread
  exact ⟨⟨methodToken request.method, _, _, request.body⟩, rfl, rfl, ⟨counts, rfl⟩, hread⟩

/-! ## Servers -/

def methodOf (token : Bytes) : Option Method :=
  [.get, .head, .post, .put, .patch, .delete].find? fun requestMethod =>
    methodToken requestMethod == token

/-- A server answers the last of the requests that it has read on a connection. -/
abbrev Server := List ReadRequest → (requestMethod : Method) → WireResponse requestMethod

namespace Server

variable (server : Server)

/-- The bytes of an answer. -/
def reply (past : List ReadRequest) (r : ReadRequest) : Bytes :=
  match methodOf r.method with
  | some requestMethod => (server (past ++ [r]) requestMethod).encode
  | none => []

/-- The bytes of the answers to requests that are read behind others. -/
def replies (past : List ReadRequest) : List ReadRequest → Bytes
  | [] => []
  | r :: rs => server.reply past r ++ replies (past ++ [r]) rs

end Server

/-- At every moment each connection has brought a beginning of the answers to what its server has
read. -/
def Honest (servers : Handle → Server) (log : List Event) : Prop :=
  ∀ past handle, past <+: log → (talk handle past).received <+:
    (servers handle).replies [] (readRequests (talk handle past).accepted).1

/-! ## Answers -/

section

variable {platform : Platform} {server : Server}

end

/-! ## Calls on clients -/

/-- All that has been said was in order, and the client is at rest. -/
def Client.Conversant (client : Client) (platform : Platform) (w : World Answer Event) : Prop :=
  ∃ s, (conversation platform).reads {} w.log = some s ∧ client.AtRest platform s

section

variable {platform : Platform} {w w' : World Answer Event} {this : ClientId}
variable {client client' : Client} {request : Request} {result : Result Response}

theorem Destined.past {log log' : List Event} (h : Destined log) (hpast : log' <+: log) :
    Destined log' :=
  fun past handle host port parser hpast' => h past handle host port parser (hpast'.trans hpast)

theorem Honest.past {servers : Handle → Server} {log log' : List Event} (h : Honest servers log)
    (hpast : log' <+: log) : Honest servers log' :=
  fun past handle hpast' => h past handle (hpast'.trans hpast)

end

end CppRequest
