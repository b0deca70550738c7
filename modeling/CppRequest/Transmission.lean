import CppRequest.SocketEvents

/-!
# What a socket has accepted

Whatever the system answers, the bytes that a socket accepts while a text is being written are a
beginning of the text at every moment, and the whole text once the writing has succeeded.
-/

namespace CppRequest

open Procedure Monitor

/-! ## Accepted bytes -/

def Event.acceptedBy (handle : Handle) : Event → Bytes
  | .sent other (.ok data) => if other = handle then data else []
  | _ => []

/-- What the socket has accepted in these events, in order. -/
def acceptedBy (handle : Handle) (events : List Event) : Bytes :=
  events.flatMap (Event.acceptedBy handle)

/-- Who follows what each socket has accepted and objects when it is no beginning of the text, or
when anything is received by a socket that has not accepted all of it. -/
def transmission (text : Bytes) : Monitor Event (Handle → Bytes) where
  step accepted e := match e with
    | .sent handle (.ok data) =>
      if accepted handle ++ data <+: text then
        some (Function.update accepted handle (accepted handle ++ data))
      else none
    | .received handle _ => if accepted handle = text then some accepted else none
    | _ => some accepted
  fits _ _ := True
  fits_step _ _ := trivial

section

variable {text : Bytes} {accepted accepted' : Handle → Bytes} {events : List Event} {e : Event}

theorem transmission_step (h : (transmission text).step accepted e = some accepted')
    (handle : Handle) : accepted' handle = accepted handle ++ e.acceptedBy handle := by
  have hsame : ∀ e : Event, e.acceptedBy handle = [] → accepted' = accepted →
      accepted' handle = accepted handle ++ e.acceptedBy handle := by
    intro e he hsame
    rw [he, hsame, List.append_nil]
  cases e with
  | sent other outcome =>
    cases outcome with
    | error nativeCode =>
      cases h
      exact hsame _ rfl rfl
    | ok data =>
      simp only [transmission] at h
      split_ifs at h
      cases h
      rw [Event.acceptedBy]
      split_ifs with hother
      · rw [hother, Function.update_self]
      · rw [Function.update_of_ne (Ne.symm hother), List.append_nil]
  | received other outcome =>
    simp only [transmission] at h
    split_ifs at h
    cases h
    exact hsame _ rfl rfl
  | clock | resolved | opened | closed | used | waited | began | retained | adopted | moved =>
    cases h
    exact hsame _ rfl rfl

theorem transmission_reads (h : (transmission text).reads accepted events = some accepted')
    (handle : Handle) : accepted' handle = accepted handle ++ acceptedBy handle events := by
  unfold acceptedBy
  induction events generalizing accepted with
  | nil =>
    cases h
    exact (List.append_nil _).symm
  | cons e events ih =>
    unfold reads at h
    rw [List.foldlM_cons] at h
    obtain ⟨t, hstep, hrest⟩ := Option.bind_eq_some_iff.mp h
    rw [ih hrest, transmission_step hstep, List.flatMap_cons, List.append_assoc]

/-- No step makes anything but a beginning of the text. -/
theorem transmission_begins (h : (transmission text).step accepted e = some accepted')
    (haccepted : ∀ handle, accepted handle <+: text) (handle : Handle) :
    accepted' handle <+: text := by
  cases e with
  | sent other outcome =>
    cases outcome with
    | error nativeCode =>
      cases h
      exact haccepted handle
    | ok data =>
      simp only [transmission] at h
      split_ifs at h with hprefix
      cases h
      rcases eq_or_ne handle other with rfl | hother
      · rwa [Function.update_self]
      · rw [Function.update_of_ne hother]
        exact haccepted handle
  | received other outcome =>
    simp only [transmission] at h
    split_ifs at h
    cases h
    exact haccepted handle
  | clock | resolved | opened | closed | used | waited | began | retained | adopted | moved =>
    cases h
    exact haccepted handle

theorem begins_of_reads (h : (transmission text).reads accepted events = some accepted')
    (haccepted : ∀ handle, accepted handle <+: text) (handle : Handle) :
    accepted' handle <+: text := by
  induction events generalizing accepted with
  | nil =>
    cases h
    exact haccepted handle
  | cons e events ih =>
    unfold reads at h
    rw [List.foldlM_cons] at h
    obtain ⟨t, hstep, hrest⟩ := Option.bind_eq_some_iff.mp h
    exact ih hrest fun handle => transmission_begins hstep haccepted handle

/-- At every moment. -/
theorem accepted_begins (h : (transmission text).reads (fun _ => []) events = some accepted)
    {past : List Event} (hpast : past <+: events) (handle : Handle) :
    acceptedBy handle past <+: text := by
  obtain ⟨accepted', hreads⟩ := reads_past _ h hpast
  have hbegins := begins_of_reads hreads (fun _ => List.nil_prefix) handle
  rwa [transmission_reads hreads handle, List.nil_append] at hbegins

/-- What is received is received behind the whole text. -/
theorem accepted_of_received (h : (transmission text).reads (fun _ => []) events = some accepted)
    {past rest : List Event} {handle : Handle} {outcome : Except ℤ Bytes}
    (hevents : events = past ++ .received handle outcome :: rest) :
    acceptedBy handle past = text := by
  obtain ⟨accepted', accepted'', hreads, hstep⟩ := reads_upto _ h hevents
  simp only [transmission] at hstep
  split_ifs at hstep with hall
  rwa [transmission_reads hreads handle, List.nil_append] at hall

theorem ordinary_transmission (text : Bytes) : Ordinary (transmission text).Ignores where
  clock _ _ := rfl
  opened _ _ := rfl
  closed _ _ := rfl
  used _ _ _ := rfl
  writable _ _ _ _ := rfl
  retained _ _ _ _ _ := rfl
  resolved _ _ _ _ := rfl
  adopted _ _ _ := rfl

end

/-! ## Writing -/

section

variable {text before data : Bytes} {handle : Handle} {connection : TcpConnection}

/-- A part of the data that follows what has been accepted. -/
theorem triple_send (h : before ++ data <+: text) :
    (transmission text).Triple (fun accepted => accepted handle = before) (sendSome handle data)
      fun attempt accepted => attempt.transferred.toNat ≤ data.length ∧
        accepted handle = before ++ data.take attempt.transferred.toNat := by
  refine triple_read.bind fun answer => ?_
  split
  · refine Triple.bind (Q := fun _ accepted => accepted handle = before) ?_ fun _ => ?_
    · exact triple_emit fun accepted h => ⟨accepted, rfl, h⟩
    · exact triple_pure fun accepted h => ⟨Nat.zero_le _, by simpa using h⟩
  · dsimp only
    generalize min answer.result.toNat (boundedIoSize data.length) = n
    refine Triple.bind (Q := fun _ accepted => accepted handle = before ++ data.take n) ?_
      fun _ => triple_pure fun accepted h => ?_
    · refine triple_emit fun accepted haccepted => ?_
      have hprefix : accepted handle ++ data.take n <+: text := by
        rw [haccepted]
        exact (List.prefix_append_right_inj before).mpr (List.take_prefix n data) |>.trans h
      refine ⟨_, if_pos hprefix, ?_⟩
      rw [Function.update_self, haccepted]
    · refine ⟨?_, ?_⟩
      · simp only [List.length_take, Int.toNat_natCast]
        exact Nat.min_le_right _ _
      · rw [h, Int.toNat_natCast, List.length_take, ← List.take_take, List.take_length]

/-- The data have been written behind what was accepted before. -/
def Wrote (handle : Handle) (before data : Bytes) (n : ℕ) (accepted : Handle → Bytes) : Prop :=
  n = data.length ∧ accepted handle = before ++ data

theorem triple_writeRound_accepted (h : before ++ data <+: text) (deadline : ℤ)
    (totalWritten : ℕ) :
    (transmission text).Triple
      (fun accepted => totalWritten ≤ data.length ∧
        accepted handle = before ++ data.take totalWritten)
      (TcpConnection.writeRound connection handle data deadline totalWritten)
      fun r accepted => r.elim
        (fun n => n ≤ data.length ∧ accepted handle = before ++ data.take n)
        fun r => Leaves connection (Wrote handle before data) r accepted := by
  have hK := ordinary_transmission text
  have hfail : ∀ {P : (Handle → Bytes) → Prop} code nativeCode, (transmission text).Triple P
      (.inr <$> connection.fail code nativeCode : Proc (ℕ ⊕ (Result ℕ × TcpConnection)))
      fun r accepted => r.elim
        (fun n => n ≤ data.length ∧ accepted handle = before ++ data.take n)
        fun r => Leaves connection (Wrote handle before data) r accepted := by
    intro P code nativeCode
    refine (writes_fail hK connection code nativeCode).ignored.bind fun r => ?_
    exact triple_pure fun s h => Failed.leaves ⟨_, h.1⟩ s
  refine triple_and fun hle => ?_
  unfold TcpConnection.writeRound
  split
  · refine (writes_clock hK).ignored.bind fun now => ?_
    split
    · exact hfail _ _
    have hprefix : (before ++ data.take totalWritten) ++ data.drop totalWritten <+: text := by
      rwa [List.append_assoc, List.take_append_drop]
    refine Triple.bind ((triple_send hprefix).weaken (fun _ h => h.2) fun _ _ h => h)
      fun attempt => ?_
    split
    · refine triple_pure fun accepted hsent => ?_
      rw [List.length_drop] at hsent
      refine ⟨by omega, ?_⟩
      rw [hsent.2, List.append_assoc, ← List.take_add]
    · next hnone =>
      have hzero : attempt.transferred.toNat = 0 := by omega
      refine Triple.bind ((writes_retry hK connection (hK.writable handle) deadline _ _
        attempt).ignored) fun r => ?_
      cases r with
      | none =>
        refine triple_pure fun accepted hsent => ⟨hle, ?_⟩
        rw [hsent.2.2, hzero, List.take_zero, List.append_nil]
      | some result => exact triple_pure fun accepted hsent => Failed.leaves hsent.1 accepted
  · next hdone =>
    have hall : totalWritten = data.length := le_antisymm hle (not_lt.mp hdone)
    refine (writes_setSocketNonblocking hK.used handle false).ignored.bind fun mode => ?_
    cases mode with
    | error nativeCode => exact hfail _ _
    | ok =>
      refine triple_pure fun accepted haccepted => ⟨rfl, hall, ?_⟩
      rw [haccepted.2, hall, List.take_length]

theorem triple_writeAll_accepted (h : before ++ data <+: text)
    (hhandle : connection.socket.handle = some handle) (timeout : ℤ) :
    (transmission text).Triple (fun accepted => accepted handle = before)
      (connection.writeAll data timeout) (Leaves connection (Wrote handle before data)) := by
  have hK := ordinary_transmission text
  have hfail : ∀ {P : (Handle → Bytes) → Prop} code nativeCode, (transmission text).Triple P
      (connection.fail code nativeCode) (Leaves connection (Wrote handle before data)) :=
    fun code nativeCode => (writes_fail hK connection code nativeCode).ignored.weaken
      (fun _ h => h) fun _ s h => Failed.leaves ⟨_, h.1⟩ s
  unfold TcpConnection.writeAll
  rw [hhandle]
  dsimp only
  split
  · next hempty =>
    cases List.isEmpty_iff.mp hempty
    exact triple_pure fun _ h => ⟨rfl, rfl, h.trans (List.append_nil _).symm⟩
  split
  · exact hfail _ _
  refine (writes_setSocketNonblocking hK.used handle true).ignored.bind fun mode => ?_
  cases mode with
  | error nativeCode => exact hfail _ _
  | ok =>
    refine (writes_clock hK).ignored.bind fun now => ?_
    refine (triple_loop (fun n accepted => n ≤ data.length ∧
      accepted handle = before ++ data.take n)
      (triple_writeRound_accepted h _) 0).weaken (fun accepted haccepted => ?_) fun _ _ h => h
    exact ⟨Nat.zero_le _, by simpa using haccepted.2.2⟩

end

/-! ## The request and the response -/

section

variable {handle : Handle} {connection : TcpConnection} {serialized : SerializedRequest}

/-- The bytes of a request. -/
def SerializedRequest.text (serialized : SerializedRequest) : Bytes :=
  serialized.head ++ serialized.body

theorem triple_writeRequest_accepted (hhandle : connection.socket.handle = some handle)
    (timeout : ℤ) :
    (transmission serialized.text).Triple (fun accepted => accepted handle = [])
      (Client.writeRequest connection serialized timeout)
      (Leaves connection fun _ accepted => accepted handle = serialized.text) := by
  have hK := ordinary_transmission serialized.text
  have hhead : [] ++ serialized.head <+: serialized.text := List.prefix_append _ _
  have hbody : serialized.head ++ serialized.body <+: serialized.text := List.prefix_rfl
  refine (writes_clock hK).ignored.bind fun now => ?_
  refine (writes_remainingTimeout hK _).ignored.bind fun remaining => ?_
  refine Triple.bind ((triple_writeAll_accepted hhead hhandle remaining).weaken
    (fun _ h => h.2.2) fun _ _ h => h) fun r => ?_
  obtain ⟨e | n, connection'⟩ := r
  · exact triple_pure fun _ h => h
  · refine triple_and fun hsame => triple_and fun _ => ?_
    subst hsame
    dsimp only
    split
    · next hempty =>
      refine triple_pure fun accepted haccepted => ⟨rfl, ?_⟩
      show accepted handle = serialized.head ++ serialized.body
      rw [haccepted, List.isEmpty_iff.mp hempty, List.append_nil, List.nil_append]
    refine (writes_remainingTimeout hK _).ignored.bind fun remaining => ?_
    refine Triple.bind ((triple_writeAll_accepted hbody hhandle remaining).weaken
      (fun _ h => h.2) fun _ _ h => h) fun r => ?_
    obtain ⟨e | n, connection'⟩ := r
    · exact triple_pure fun _ h => h
    · exact triple_pure fun _ h => ⟨h.1, h.2.2⟩

theorem triple_readSome_accepted {text : Bytes} (hhandle : connection.socket.handle = some handle)
    (capacity : ℕ) (timeout : ℤ) :
    (transmission text).Triple (fun accepted => accepted handle = text)
      (connection.readSome capacity timeout)
      (Leaves connection fun _ accepted => accepted handle = text) := by
  refine triple_readSome_of (P := fun _ (accepted : Handle → Bytes) => accepted handle = text)
    (ordinary_transmission text) (fun _ _ _ => rfl) ?_ ?_ hhandle capacity timeout
  · intro data e accepted he h
    exact ⟨accepted, he accepted, h⟩
  · intro outcome accepted h
    exact ⟨accepted, if_pos h, h⟩

theorem triple_readResponse_accepted {text : Bytes}
    (hhandle : connection.socket.handle = some handle) (parser : ResponseParser)
    (readTimeout : ℤ) :
    (transmission text).Triple (fun accepted => accepted handle = text)
      (Client.readResponse connection parser readTimeout) fun _ _ => True := by
  refine (triple_loop (fun state accepted => state.1 = connection ∧
    accepted handle = text) (fun state => triple_and fun hstate => ?_) (connection, parser)).weaken
    (fun _ h => ⟨rfl, h⟩) fun _ _ h => h
  obtain ⟨connection', parser⟩ := state
  obtain rfl : connection' = connection := hstate
  unfold Client.responseRound
  dsimp only
  split
  · exact triple_pure fun _ _ => trivial
  · refine (triple_readSome_accepted hhandle _ readTimeout).bind fun r => ?_
    obtain ⟨e | data, connection''⟩ := r
    · exact triple_pure fun _ _ => trivial
    · dsimp only
      split
      · exact triple_pure fun _ _ => trivial
      · exact triple_pure fun _ h => h

theorem triple_executeOnce_accepted (client : Client) (platform : Platform) (this : ClientId)
    {request : Request} (hserialized : serializeRequest platform.inetPton6 request = .ok serialized) :
    (transmission serialized.text).Triple (fun accepted => ∀ handle, accepted handle = [])
      (client.executeOnce platform this request) fun _ _ => True := by
  have hK := ordinary_transmission serialized.text
  have hclose : ∀ {P : (Handle → Bytes) → Prop} (connection : TcpConnection),
      (transmission serialized.text).Triple P connection.close fun _ _ => True :=
    fun connection => (writes_close hK connection.socket).ignored.bind fun _ =>
      triple_pure fun _ _ => trivial
  unfold Client.executeOnce
  rw [hserialized]
  refine (writes_obtainConnection hK client platform this serialized.url).ignored.bind fun r => ?_
  obtain ⟨e | connection, client'⟩ := r
  · exact triple_pure fun _ _ => trivial
  refine triple_and fun hconnects => ?_
  obtain ⟨handle, rfl⟩ := hconnects.1 connection rfl
  refine Triple.bind (Q := fun _ accepted => ∀ handle, accepted handle = []) ?_ fun _ => ?_
  · exact triple_emit fun accepted h => ⟨accepted, rfl, h⟩
  refine Triple.bind (Q := fun _ _ => True) ?_ fun r => ?_
  · refine Triple.bind ((@triple_writeRequest_accepted handle _ serialized rfl _).weaken
      (fun _ h => h handle) fun _ _ h => h) fun r => ?_
    obtain ⟨e | u, connection'⟩ := r
    · exact triple_pure fun _ _ => trivial
    · refine triple_and fun hsame => ?_
      subst hsame
      exact triple_readResponse_accepted rfl _ _
  · obtain ⟨e | parser, connection'⟩ := r
    · exact (hclose connection').bind fun _ => triple_pure fun _ _ => trivial
    · exact (writes_conclude hK client' this connection' _ request parser).ignored.weaken
        (fun _ h => h) fun _ _ _ => trivial

/-- Whatever the system answers: at every moment of `write_all` the socket has accepted a beginning
of the data, a success is that of the whole data on a connection that is still there, and an error
leaves the connection closed. When a request has been written the socket has accepted head and
body, and nothing of a response is received before that. -/
theorem accepted_exactly :
    (∀ (connection : TcpConnection) (handle : Handle) (data : Bytes) (timeout : ℤ)
      (w : World Answer Event), connection.socket.handle = some handle →
      let r := (connection.writeAll data timeout).run w
      ∃ events, r.2.log = w.log ++ events ∧
        (∀ past, past <+: events → acceptedBy handle past <+: data) ∧
        (∀ n connection', r.1 = some (.ok n, connection') →
          n = data.length ∧ acceptedBy handle events = data ∧ connection' = connection) ∧
        ∀ e connection', r.1 = some (.error e, connection') → connection'.connected = false) ∧
    (∀ (connection : TcpConnection) (handle : Handle) (serialized : SerializedRequest)
      (timeout : ℤ) (w : World Answer Event), connection.socket.handle = some handle →
      let r := (Client.writeRequest connection serialized timeout).run w
      ∃ events, r.2.log = w.log ++ events ∧ ∀ connection', r.1 = some (.ok (), connection') →
        connection' = connection ∧ acceptedBy handle events = serialized.head ++ serialized.body) ∧
    ∀ (client : Client) (platform : Platform) (this : ClientId) (request : Request)
      (serialized : SerializedRequest) (w : World Answer Event),
      serializeRequest platform.inetPton6 request = .ok serialized →
      ∃ events, ((client.executeOnce platform this request).run w).2.log = w.log ++ events ∧
        ∀ handle, (∀ past, past <+: events →
            acceptedBy handle past <+: serialized.head ++ serialized.body) ∧
          ∀ past rest outcome, events = past ++ .received handle outcome :: rest →
            acceptedBy handle past = serialized.head ++ serialized.body := by
  refine ⟨?_, ?_, ?_⟩
  · intro connection handle data timeout w hhandle r
    have hprefix : [] ++ data <+: data := List.prefix_rfl
    obtain ⟨events, accepted, hlog, hreads, hresult⟩ :=
      triple_writeAll_accepted hprefix hhandle timeout w (fun _ => []) trivial rfl
    refine ⟨events, hlog, fun past hpast => accepted_begins hreads hpast handle, ?_, ?_⟩
    · intro n connection' hr
      obtain ⟨hsame, hn, haccepted⟩ := hresult _ hr
      rw [transmission_reads hreads handle] at haccepted
      exact ⟨hn, haccepted, hsame⟩
    · intro e connection' hr
      have hclosed : connection' = {} := hresult _ hr
      rw [hclosed]
      rfl
  · intro connection handle serialized timeout w hhandle r
    obtain ⟨events, accepted, hlog, hreads, hresult⟩ :=
      @triple_writeRequest_accepted handle connection serialized hhandle timeout w (fun _ => [])
        trivial rfl
    refine ⟨events, hlog, fun connection' hr => ?_⟩
    obtain ⟨hsame, haccepted⟩ := hresult _ hr
    rw [transmission_reads hreads handle] at haccepted
    exact ⟨hsame, haccepted⟩
  · intro client platform this request serialized w hserialized
    obtain ⟨events, accepted, hlog, hreads, -⟩ :=
      triple_executeOnce_accepted client platform this hserialized w (fun _ => []) trivial
        fun _ => rfl
    refine ⟨events, hlog, fun handle => ⟨fun past hpast => accepted_begins hreads hpast handle, ?_⟩⟩
    intro past rest outcome hevents
    exact accepted_of_received hreads hevents

end

/-- What the system answers while a text is written in two pieces, with a wait between them. -/
def inPieces : List Answer :=
  let zero : Answer := {}
  List.replicate 4 zero ++ [{ result := 1 }, zero, { result := -1, errno := EAGAIN }, zero,
    { result := 1 }, zero, { result := 1000 }, zero, zero]

def uploadRequest : Request := { method := .post, url := bytes "http://h/", body := bytes "ab" }

def uploadText : SerializedRequest where
  url := { storage := bytes "http://h/", schemeSize := 4, hostBegin := 7, hostSize := 1
           pathBegin := 8, pathSize := 1, queryBegin := 9 }
  head := bytes "POST / HTTP/1.1\r\nHost: h\r\nContent-Length: 2\r\n\r\n"
  body := bytes "ab"

/-- Head and body are both written in pieces. -/
def uploadAnswers : List Answer :=
  let zero : Answer := {}
  [zero, zero] ++ inPieces ++ [zero] ++ inPieces

/-- Over a new connection, with a response. -/
def exchangeAnswers : List Answer :=
  let zero : Answer := {}
  let address : AddrInfo := ⟨some (List.replicate 16 0), AF_INET, SOCK_STREAM, IPPROTO_TCP⟩
  { addresses := [address] } :: List.replicate 9 zero ++ uploadAnswers ++
    List.replicate 4 zero ++ { data := bytes "HTTP/1.1 204 No Content\r\n\r\n" } :: [zero, zero]

theorem accepted_exactly_pieces :
    (∃ w, (TcpConnection.writeAll (.adoptNativeHandle 0) (bytes "ab") 1000).run ⟨inPieces, []⟩ =
        (some (.ok 2, .adoptNativeHandle 0), w) ∧ acceptedBy 0 w.log = bytes "ab") ∧
    (∃ w, (Client.writeRequest (.adoptNativeHandle 0) uploadText 1000).run ⟨uploadAnswers, []⟩ =
        (some (.ok (), .adoptNativeHandle 0), w) ∧
      acceptedBy 0 w.log = uploadText.head ++ uploadText.body) ∧
    ∃ r w, (Client.executeOnce {} { inetPton6 := fun _ => false } 0 uploadRequest).run
        ⟨exchangeAnswers, []⟩ = (some r, w) ∧ r.1.isOk = true ∧
      ∀ past rest outcome, w.log = past ++ .received 0 outcome :: rest →
        acceptedBy 0 past = uploadText.head ++ uploadText.body := by
  obtain ⟨hwrite, hupload, hexchange⟩ := accepted_exactly
  refine ⟨?_, ?_, ?_⟩
  · have hdone : ((TcpConnection.writeAll (.adoptNativeHandle 0) (bytes "ab") 1000).run
        ⟨inPieces, []⟩).1 = some (.ok 2, .adoptNativeHandle 0) := by decide +kernel
    have hcall := hwrite (.adoptNativeHandle 0) 0 (bytes "ab") 1000 ⟨inPieces, []⟩ rfl
    generalize (TcpConnection.writeAll (.adoptNativeHandle 0) (bytes "ab") 1000).run
      ⟨inPieces, []⟩ = r at hdone hcall
    obtain ⟨events, hlog, -, hall, -⟩ := hcall
    rw [List.nil_append] at hlog
    exact ⟨r.2, Prod.ext hdone rfl, hlog ▸ (hall _ _ hdone).2.1⟩
  · have hdone : ((Client.writeRequest (.adoptNativeHandle 0) uploadText 1000).run
        ⟨uploadAnswers, []⟩).1 = some (.ok (), .adoptNativeHandle 0) := by decide +kernel
    have hcall := hupload (.adoptNativeHandle 0) 0 uploadText 1000 ⟨uploadAnswers, []⟩ rfl
    generalize (Client.writeRequest (.adoptNativeHandle 0) uploadText 1000).run
      ⟨uploadAnswers, []⟩ = r at hdone hcall
    obtain ⟨events, hlog, hall⟩ := hcall
    rw [List.nil_append] at hlog
    exact ⟨r.2, Prod.ext hdone rfl, hlog ▸ (hall _ hdone).2⟩
  · have hserialized : serializeRequest (fun _ => false) uploadRequest = .ok uploadText := by
      decide +kernel
    have hok : ((Client.executeOnce {} { inetPton6 := fun _ => false } 0 uploadRequest).run
        ⟨exchangeAnswers, []⟩).1.map (fun r => r.1.isOk) = some true := by decide +kernel
    have hcall := hexchange {} { inetPton6 := fun _ => false } 0 uploadRequest uploadText
      ⟨exchangeAnswers, []⟩ hserialized
    generalize (Client.executeOnce {} { inetPton6 := fun _ => false } 0 uploadRequest).run
      ⟨exchangeAnswers, []⟩ = r at hok hcall
    obtain ⟨result, hresult, hresponse⟩ := Option.map_eq_some_iff.mp hok
    obtain ⟨events, hlog, hall⟩ := hcall
    rw [List.nil_append] at hlog
    exact ⟨result, r.2, Prod.ext hresult rfl, hresponse, hlog ▸ (hall 0).2⟩

end CppRequest
