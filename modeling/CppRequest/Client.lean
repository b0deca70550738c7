import CppRequest.RedirectLoop
import CppRequest.TcpConnection

/-!
# The client

`Client::execute_once` over a connection, the connection that is kept between requests, and what
else can be done with clients: they are constructed, moved and destroyed.
-/

namespace CppRequest

open Procedure

structure Client where
  reusableSocketToken : ℕ := 0
  hasReusableConnection : Bool := false
  reusableHost : Bytes := []
  reusablePort : ℕ := 0
  settings : ClientSettings := {}
deriving Repr, DecidableEq

def encodeSocketHandle (handle : Handle) : ℕ := handle

def decodeSocketHandle (token : ℕ) : Handle := token

def requestWantsConnectionClose (request : Request) : Bool :=
  request.headers.fields.any fun field =>
    asciiIequals field.name connectionName && containsToken field.value (bytes "close")

/-- The loop's buffer. -/
def kReadBufferSize : ℕ := 16 * 1024

namespace Client

/-! ## The connection that is kept -/

/-- The members of a client that keeps no connection. -/
def cleared (client : Client) : Client :=
  { client with
    reusableSocketToken := 0
    hasReusableConnection := false
    reusableHost := []
    reusablePort := 0 }

def closeReusableConnection (client : Client) (this : ClientId) : Proc Client := do
  if client.hasReusableConnection then
    let handle := decodeSocketHandle client.reusableSocketToken
    emit (.adopted this handle)
    let _ ← NativeSocket.close { handle := some handle }
  pure client.cleared

def keepsConnectionTo (client : Client) (url : Url) : Bool :=
  client.hasReusableConnection &&
    (client.reusablePort == url.port && asciiIequals client.reusableHost url.host)

/-! ## One exchange -/

/-- The connection is the one that is kept or a new one. -/
def obtainConnection (client : Client) (platform : Platform) (this : ClientId) (url : Url) :
    Proc (Result TcpConnection × Client) :=
  if client.keepsConnectionTo url then do
    let handle := decodeSocketHandle client.reusableSocketToken
    emit (.adopted this handle)
    pure (.ok (.adoptNativeHandle handle), client.cleared)
  else do
    let client ← client.closeReusableConnection this
    match ← resolve url.host url.port with
    | .error e => pure (.error e, client)
    | .ok endpoints =>
      let result ← TcpConnection.connect platform endpoints client.settings.connectTimeout
      pure (result, client)

/-- Head and body share one deadline. -/
def writeRequest (connection : TcpConnection) (serialized : SerializedRequest) (timeout : ℤ) :
    Proc (Result Unit × TcpConnection) := do
  let now ← steadyClockNow
  let writeDeadline := deadlineAfter now timeout
  let remaining ← remainingTimeout writeDeadline
  match ← connection.writeAll serialized.head remaining with
  | (.error e, connection) => pure (.error e, connection)
  | (.ok _, connection) =>
    if serialized.body.isEmpty then pure (.ok (), connection)
    else
      let remaining ← remainingTimeout writeDeadline
      match ← connection.writeAll serialized.body remaining with
      | (.error e, connection) => pure (.error e, connection)
      | (.ok _, connection) => pure (.ok (), connection)

/-- What follows when reading has failed. -/
def endOfInput (parser : ResponseParser) (e : Error) : Result ResponseParser :=
  if e.code = .connectionClosed then
    match parser.finishEof with
    | (.error e', _) => .error e'
    | (.ok _, parser) => if parser.isComplete then .ok parser else .error e
  else .error e

/-- One round of the loop that reads the response. -/
def responseRound (readTimeout : ℤ) (state : TcpConnection × ResponseParser) :
    Proc ((TcpConnection × ResponseParser) ⊕ (Result ResponseParser × TcpConnection)) :=
  let (connection, parser) := state
  if parser.isComplete then pure (.inr (.ok parser, connection))
  else do
    match ← connection.readSome kReadBufferSize readTimeout with
    | (.error e, connection) => pure (.inr (endOfInput parser e, connection))
    | (.ok data, connection) =>
      match parser.feed data with
      | (.error e, _) => pure (.inr (.error e, connection))
      | (.ok _, parser) => pure (.inl (connection, parser))

theorem responseRound_reads (readTimeout : ℤ) (state : TcpConnection × ResponseParser) :
    (responseRound readTimeout state).Reads fun r => r.isLeft = true := by
  rcases state with ⟨connection, parser⟩
  unfold responseRound
  dsimp only
  split_ifs
  · exact reads_done (by simp)
  · refine (TcpConnection.readSome_reads _ _ (by decide)).bind ?_
    rintro ⟨e | data, connection⟩ h
    · exact reads_done (by simp)
    · exact absurd ⟨data, rfl⟩ h

def readResponse (connection : TcpConnection) (parser : ResponseParser) (readTimeout : ℤ) :
    Proc (Result ResponseParser × TcpConnection) :=
  loop (responseRound readTimeout) (responseRound_reads readTimeout) (connection, parser)

def exchange (client : Client) (connection : TcpConnection) (serialized : SerializedRequest)
    (parser : ResponseParser) : Proc (Result ResponseParser × TcpConnection) := do
  match ← writeRequest connection serialized client.settings.writeTimeout with
  | (.error e, connection) => pure (.error e, connection)
  | (.ok (), connection) => readResponse connection parser client.settings.readTimeout

/-- Whether the connection is kept behind a response. -/
def reusable (connection : TcpConnection) (parser : ResponseParser) (request : Request) : Bool :=
  connection.connected && parser.connectionReusable && parser.pendingBytes.isEmpty
    && !requestWantsConnectionClose request

/-- The end of `execute_once`. A connection that is not kept is destroyed. -/
def conclude (client : Client) (this : ClientId) (connection : TcpConnection) (url : Url)
    (request : Request) (parser : ResponseParser) : Proc (Result Response × Client) := do
  match connection.socket.handle, reusable connection parser request with
  | some handle, true =>
    emit (.retained this handle url.host url.port)
    pure (.ok parser.response, { client with
      reusableSocketToken := encodeSocketHandle handle
      hasReusableConnection := true
      reusableHost := url.host
      reusablePort := url.port })
  | _, _ =>
    let _ ← connection.close
    pure (.ok parser.response, client)

/-- For the log: the request goes over this connection. -/
def beginExchange (connection : TcpConnection) (url : Url) (parser : ResponseParser) : Proc Unit :=
  match connection.socket.handle with
  | some handle => emit (.began handle url.host url.port parser)
  | none => pure ()

def executeOnce (client : Client) (platform : Platform) (this : ClientId) (request : Request) :
    Proc (Result Response × Client) :=
  match serializeRequest platform.inetPton6 request with
  | .error e => pure (.error e, client)
  | .ok serialized => do
    match ← client.obtainConnection platform this serialized.url with
    | (.error e, client) => pure (.error e, client)
    | (.ok connection, client) =>
      let parser := ResponseParser.fresh request.method client.settings.responseLimits
      beginExchange connection serialized.url parser
      match ← client.exchange connection serialized parser with
      | (.error e, connection) =>
        let _ ← connection.close
        pure (.error e, client)
      | (.ok parser, connection) => client.conclude this connection serialized.url request parser

def request (client : Client) (platform : Platform) (this : ClientId) (request : Request) :
    Proc (Result Response × Client) :=
  (client.settings.request platform.inetPton6 request).play
    (fun request client => client.executeOnce platform this request) client

/-! ## Moving -/

/-- The connection that is kept goes over to another client. -/
def handOver (other this : ClientId) (source : Client) : Proc Unit :=
  if source.hasReusableConnection then
    emit (.moved other this (decodeSocketHandle source.reusableSocketToken))
  else pure ()

end Client

/-! ## Clients -/

/-- The clients that exist. -/
abbrev Clients := ClientId → Option Client

inductive ClientOperation
  | construct (this : ClientId)
  | moveConstruct (this other : ClientId)
  | moveAssign (this other : ClientId)
  | destroy (this : ClientId)
  | configure (this : ClientId) (settings : ClientSettings)
  | request (this : ClientId) (request : Request)

/-- An operation on a client that does not exist, or a construction where one does, is none. -/
def perform (platform : Platform) (clients : Clients) : ClientOperation → Proc Clients
  | .construct this =>
    match clients this with
    | some _ => pure clients
    | none => pure (Function.update clients this (some {}))
  | .moveConstruct this other =>
    match clients this, clients other with
    | none, some source => do
      source.handOver other this
      pure (Function.update (Function.update clients other (some source.cleared)) this (some source))
    | _, _ => pure clients
  | .moveAssign this other =>
    match clients this, clients other with
    | some client, some source =>
      if this = other then pure clients
      else do
        let _ ← client.closeReusableConnection this
        source.handOver other this
        pure (Function.update (Function.update clients other (some source.cleared)) this
          (some source))
    | _, _ => pure clients
  | .destroy this =>
    match clients this with
    | some client => do
      let _ ← client.closeReusableConnection this
      pure (Function.update clients this none)
    | none => pure clients
  | .configure this settings =>
    match clients this with
    | some client => pure (Function.update clients this (some { client with settings }))
    | none => pure clients
  | .request this request =>
    match clients this with
    | some client => do
      let (_, client) ← client.request platform this request
      pure (Function.update clients this (some client))
    | none => pure clients

def performAll (platform : Platform) : Clients → List ClientOperation → Proc Clients
  | clients, [] => pure clients
  | clients, operation :: operations => do
    let clients ← perform platform clients operation
    performAll platform clients operations

end CppRequest
