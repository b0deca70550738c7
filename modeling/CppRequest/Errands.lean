import CppRequest.RedirectedRequests
import CppRequest.Servers

/-!
# What goes out for a request

A call of `request` is a series of exchanges. In each of them one request goes out, once and over
one connection, and what it carries depends on where the redirects have led so far. This holds of
calls that have not come back as well.
-/

namespace CppRequest

open Procedure Monitor ResponseParser

/-! ## Bytes that go out -/

def Event.sentBytes : Event → Bytes
  | .sent _ outcome => receivedBytes outcome
  | _ => []

/-- What is accepted in these events, by whichever socket. -/
def sentBytes (events : List Event) : Bytes := events.flatMap Event.sentBytes

/-- The text goes out in these events, or a beginning of it: over one connection, behind the
beginning of an exchange with this host and port. Nothing is received before all of it has been
accepted. -/
structure SentOut (text : Bytes) (origin : Bytes × ℕ) (events : List Event) : Prop where
  begins : ∀ past, past <+: events → sentBytes past <+: text
  oneHandle : ∃ handle, ∀ e ∈ events, e.carries = true → e.handle = some handle
  began : ∀ past e rest, events = past ++ e :: rest → e.carries = true →
    (∃ handle parser, e = .began handle origin.1 origin.2 parser) ∨
      ∃ handle parser, .began handle origin.1 origin.2 parser ∈ past
  whole : ∀ past handle outcome rest, events = past ++ .received handle outcome :: rest →
    sentBytes past = text

/-- The handle of the exchange that has begun, and what has been accepted. -/
structure Errand where
  handle : Option Handle := none
  sent : Bytes := []

/-- Who objects when a text goes out otherwise. -/
def errand (text : Bytes) (origin : Bytes × ℕ) : Monitor Event Errand where
  step s e := match e with
    | .began handle host port _ =>
      if s.handle = none ∧ (host, port) = origin then some { s with handle := some handle } else none
    | .sent handle outcome =>
      if s.handle = some handle ∧ s.sent ++ receivedBytes outcome <+: text then
        some { s with sent := s.sent ++ receivedBytes outcome }
      else none
    | .received handle _ => if s.handle = some handle ∧ s.sent = text then some s else none
    | _ => some s
  fits _ _ := True
  fits_step _ _ := trivial

section

variable {text : Bytes} {origin : Bytes × ℕ} {s s' : Errand} {e : Event} {events : List Event}

theorem errand_unused (he : e.carries = false) (s : Errand) :
    (errand text origin).step s e = some s := by
  cases e with
  | began | sent | received => cases he
  | clock | resolved | opened | closed | used | waited | retained | adopted | moved => rfl

/-- The ways in which an errand goes on. -/
theorem errand_cases (h : (errand text origin).step s e = some s') :
    (e.carries = false ∧ e.sentBytes = [] ∧ s' = s) ∨
      (∃ handle parser, e = .began handle origin.1 origin.2 parser ∧ s.handle = none ∧
        s' = { s with handle := some handle }) ∨
      (∃ handle outcome, e = .sent handle outcome ∧ s.handle = some handle ∧
        s.sent ++ receivedBytes outcome <+: text ∧
        s' = { s with sent := s.sent ++ receivedBytes outcome }) ∨
      ∃ handle outcome, e = .received handle outcome ∧ s.handle = some handle ∧ s.sent = text ∧
        s' = s := by
  cases e with
  | began handle host port parser =>
    simp only [errand] at h
    split_ifs at h with hnew
    cases h
    obtain ⟨hnone, rfl⟩ := hnew
    exact .inr (.inl ⟨handle, parser, rfl, hnone, rfl⟩)
  | sent handle outcome =>
    simp only [errand] at h
    split_ifs at h with hhandle
    cases h
    exact .inr (.inr (.inl ⟨handle, outcome, rfl, hhandle.1, hhandle.2, rfl⟩))
  | received handle outcome =>
    simp only [errand] at h
    split_ifs at h with hhandle
    cases h
    exact .inr (.inr (.inr ⟨handle, outcome, rfl, hhandle.1, hhandle.2, rfl⟩))
  | clock | resolved | opened | closed | used | waited | retained | adopted | moved =>
    cases h
    exact .inl ⟨rfl, rfl, rfl⟩

/-- What is known behind these events. -/
structure Errand.Fits (origin : Bytes × ℕ) (events : List Event) (s : Errand) : Prop where
  sent : s.sent = sentBytes events
  handles : ∀ e ∈ events, e.carries = true → ∃ handle, s.handle = some handle ∧ e.handle = some handle
  began : ∀ handle, s.handle = some handle → ∃ parser, .began handle origin.1 origin.2 parser ∈ events

theorem sentBytes_concat (events : List Event) (e : Event) :
    sentBytes (events ++ [e]) = sentBytes events ++ e.sentBytes := by
  simp [sentBytes]

theorem Errand.Fits.keeps (hs : s.Fits origin events) (hsent : s'.sent = s.sent ++ e.sentBytes)
    (hsame : s'.handle = s.handle)
    (he : e.carries = true → ∃ handle, s.handle = some handle ∧ e.handle = some handle) :
    s'.Fits origin (events ++ [e]) := by
  refine ⟨?_, fun e' he' hcarries => ?_, fun handle hhandle => ?_⟩
  · rw [hsent, hs.sent, sentBytes_concat]
  · rw [hsame]
    obtain he' | he' := List.mem_append.mp he'
    · exact hs.handles e' he' hcarries
    · rw [List.mem_singleton.mp he'] at hcarries ⊢
      exact he hcarries
  · rw [hsame] at hhandle
    exact (hs.began handle hhandle).imp fun parser h => List.mem_append_left _ h

theorem Errand.Fits.step (hs : s.Fits origin events) (h : (errand text origin).step s e = some s') :
    s'.Fits origin (events ++ [e]) := by
  obtain ⟨hno, hnone, rfl⟩ | ⟨handle, parser, rfl, hnew, rfl⟩ | ⟨handle, outcome, rfl, hhandle, -, rfl⟩ |
    ⟨handle, outcome, rfl, hhandle, -, rfl⟩ := errand_cases h
  · apply hs.keeps _ rfl
    · intro hcarries
      cases hno.symm.trans hcarries
    · rw [hnone, List.append_nil]
  · refine ⟨?_, fun e he hcarries => ?_, fun other hother => ?_⟩
    · rw [sentBytes_concat]
      exact hs.sent.trans (List.append_nil _).symm
    · obtain he | he := List.mem_append.mp he
      · obtain ⟨other, hother, -⟩ := hs.handles e he hcarries
        cases hnew.symm.trans hother
      · exact ⟨handle, rfl, congrArg Event.handle (List.mem_singleton.mp he)⟩
    · cases hother
      exact ⟨parser, List.mem_append_right _ (List.mem_singleton_self _)⟩
  · exact hs.keeps rfl rfl fun _ => ⟨handle, hhandle, rfl⟩
  · exact hs.keeps (List.append_nil _).symm rfl fun _ => ⟨handle, hhandle, rfl⟩

theorem fits_of_errand (h : (errand text origin).reads {} events = some s) :
    s.Fits origin events := by
  induction events using List.reverseRecOn generalizing s with
  | nil =>
    cases h
    refine ⟨rfl, fun e he => absurd he List.not_mem_nil, fun handle hhandle => ?_⟩
    cases hhandle
  | append_singleton events e ih =>
    obtain ⟨s₁, s₂, hpast, hstep⟩ := reads_upto _ h rfl
    have hlast : (errand text origin).reads {} (events ++ [e]) = some s₂ := by
      rw [reads_append, hpast]
      show ((errand text origin).step s₁ e >>= pure) = some s₂
      rw [hstep]
      rfl
    cases h.symm.trans hlast
    exact (ih hpast).step hstep

/-- What the monitor accepts goes out as it should. -/
theorem sentOut_of_errand (h : (errand text origin).reads {} events = some s) :
    SentOut text origin events := by
  have hpast : ∀ {past e rest}, events = past ++ e :: rest → ∃ s₁ s₂ : Errand,
      s₁.Fits origin past ∧ (errand text origin).step s₁ e = some s₂ := by
    intro past e rest hsplit
    obtain ⟨s₁, s₂, hreads, hstep⟩ := reads_upto _ h hsplit
    exact ⟨s₁, s₂, fits_of_errand hreads, hstep⟩
  refine ⟨fun past hprefix => ?_, ?_, fun past e rest hsplit hcarries => ?_,
    fun past handle outcome rest hsplit => ?_⟩
  · obtain ⟨s₁, hreads⟩ := reads_past _ h hprefix
    clear hprefix
    induction past using List.reverseRecOn generalizing s₁ with
    | nil => exact List.nil_prefix
    | append_singleton past e ih =>
      obtain ⟨s₂, s₃, hreads', hstep⟩ := reads_upto _ hreads rfl
      have hfits := fits_of_errand hreads'
      rw [sentBytes_concat]
      obtain ⟨-, hnone, -⟩ | ⟨handle, parser, rfl, -⟩ | ⟨handle, outcome, rfl, -, hbegins, -⟩ |
        ⟨handle, outcome, rfl, -⟩ := errand_cases hstep
      · rw [hnone, List.append_nil]
        exact ih s₂ hreads'
      · exact (List.append_nil (sentBytes past)).symm ▸ ih s₂ hreads'
      · rwa [hfits.sent] at hbegins
      · exact (List.append_nil (sentBytes past)).symm ▸ ih s₂ hreads'
  · have hfits := fits_of_errand h
    cases hhandle : s.handle with
    | none =>
      refine ⟨0, fun e he hcarries => ?_⟩
      obtain ⟨handle, hsome, -⟩ := hfits.handles e he hcarries
      cases hhandle.symm.trans hsome
    | some handle =>
      refine ⟨handle, fun e he hcarries => ?_⟩
      obtain ⟨other, hsome, hother⟩ := hfits.handles e he hcarries
      cases hhandle.symm.trans hsome
      exact hother
  · obtain ⟨s₁, s₂, hfits, hstep⟩ := hpast hsplit
    obtain ⟨hno, -⟩ | ⟨handle, parser, rfl, -⟩ | ⟨handle, outcome, -, hhandle, -⟩ |
      ⟨handle, outcome, -, hhandle, -⟩ := errand_cases hstep
    · cases hno.symm.trans hcarries
    · exact .inl ⟨handle, parser, rfl⟩
    · exact .inr ⟨handle, hfits.began handle hhandle⟩
    · exact .inr ⟨handle, hfits.began handle hhandle⟩
  · obtain ⟨s₁, s₂, hfits, hstep⟩ := hpast hsplit
    simp only [errand] at hstep
    split_ifs at hstep with hhandle
    rw [← hfits.sent, hhandle.2]

end

/-! ## One exchange -/

section

variable {platform : Platform} {this : ClientId} {text : Bytes} {origin : Bytes × ℕ}
variable {handle : Handle} {e : Event} {s : Errand}

/-- The exchange has begun over the handle, and this has been accepted. -/
def SentOver (text : Bytes) (handle : Handle) (sent : Bytes) (s : Errand) : Prop :=
  sent <+: text ∧ s = ⟨some handle, sent⟩

theorem followsExchange_errand : FollowsExchange (errand text origin) (fun e => e.carries = false)
    handle text fun sent _ => SentOver text handle sent := by
  have hunused : ∀ sent e s, Event.carries e = false → SentOver text handle sent s →
      ∃ s', (errand text origin).step s e = some s' ∧ SentOver text handle sent s' :=
    fun sent e s he h => ⟨s, errand_unused he s, h⟩
  have haccepted : ∀ sent outcome s, sent ++ receivedBytes outcome <+: text →
      SentOver text handle sent s → ∃ s', (errand text origin).step s (.sent handle outcome) =
        some s' ∧ SentOver text handle (sent ++ receivedBytes outcome) s' := by
    rintro sent outcome s hbegins ⟨-, rfl⟩
    exact ⟨_, if_pos ⟨rfl, hbegins⟩, hbegins, rfl⟩
  refine ⟨⟨hunused, fun nativeCode sent s h => ?_, fun sent piece s hbegins h =>
    haccepted sent (.ok piece) s hbegins h⟩, fun _ _ => rfl, fun _ => hunused text,
    fun stream outcome s h => ?_⟩
  · have hrefused := haccepted sent (.error nativeCode) s
    simp only [receivedBytes, List.append_nil] at hrefused
    exact hrefused h.1 h
  · obtain ⟨-, rfl⟩ := h
    exact ⟨_, if_pos ⟨rfl, rfl⟩, List.prefix_rfl, rfl⟩

theorem triple_executeOnce_errand (this : ClientId) (client : Client) {request : Request}
    {serialized : SerializedRequest}
    (hserialized : serializeRequest platform.inetPton6 request = .ok serialized) :
    (errand serialized.text (serialized.url.host, serialized.url.port)).Triple (fun s => s = {})
      (client.executeOnce platform this request) fun r s =>
        ∀ response, r.1 = .ok response → s.sent = serialized.text := by
  have hquiet : ∀ {α : Type} {q : Proc α} {Q : α → Prop} {P : Errand → Prop},
      q.Writes (fun e => e.carries = false) Q →
        (errand serialized.text (serialized.url.host, serialized.url.port)).Triple P q
          fun a s => Q a ∧ P s :=
    fun h => h.triple fun e s he hs => ⟨s, errand_unused he s, hs⟩
  unfold Client.executeOnce
  rw [hserialized]
  dsimp only
  refine (hquiet (writes_obtainConnection ordinary_unused client platform this
    serialized.url)).bind fun r => triple_and fun hr => ?_
  obtain ⟨e | connection, client'⟩ := r
  · exact triple_pure fun _ _ => nofun
  obtain ⟨handle, rfl⟩ := hr.1 connection rfl
  refine Triple.bind (Q := fun _ => SentOver serialized.text handle []) ?_ fun _ => ?_
  · refine triple_emit fun s hs => ⟨_, if_pos ⟨?_, rfl⟩, List.nil_prefix, ?_⟩
    · rw [hs]
    · rw [hs]
  refine (triple_exchange_of ordinary_unused.toBasic followsExchange_errand rfl client').bind
    fun r => ?_
  obtain ⟨e | parser, connection⟩ := r
  · refine Triple.bind (Q := fun _ _ => True) ?_ fun _ => triple_pure fun _ _ => nofun
    refine Triple.bind (Q := fun _ _ => True) ?_ fun _ => triple_pure fun _ _ => trivial
    exact (hquiet (writes_close ordinary_unused connection.socket)).weaken (fun _ h => h)
      fun _ _ _ => trivial
  · refine Triple.weaken (P := SentOver serialized.text handle serialized.text)
      (hquiet (writes_conclude ordinary_unused client' this connection _ request parser)) ?_ ?_
    · rintro s ⟨wire, pending, -, hsent, -⟩
      exact hsent
    · rintro r s ⟨-, -, rfl⟩ response -
      rfl

/-- What becomes of a request and its answer in these events. -/
def WentOut (inetPton6 : Bytes → Bool) (request : Request) (answer : Option (Result Response))
    (events : List Event) : Prop :=
  (∃ e, serializeRequest inetPton6 request = .error e ∧ events = []) ∨
    ∃ serialized, serializeRequest inetPton6 request = .ok serialized ∧
      SentOut serialized.text (serialized.url.host, serialized.url.port) events ∧
      ∀ response, answer = some (.ok response) → sentBytes events = serialized.text

theorem executeOnce_wentOut (request : Request) (client : Client) (w : World Answer Event) :
    ∃ events, ((client.executeOnce platform this request).run w).2.log = w.log ++ events ∧
      WentOut platform.inetPton6 request
        (((client.executeOnce platform this request).run w).1.map Prod.fst) events := by
  cases hserialized : serializeRequest platform.inetPton6 request with
  | error e =>
    refine ⟨[], ?_, .inl ⟨e, hserialized, rfl⟩⟩
    unfold Client.executeOnce
    rw [hserialized, List.append_nil]
    rfl
  | ok serialized =>
    obtain ⟨events, s, hlog, hreads, hresult⟩ :=
      triple_executeOnce_errand this client hserialized w {} trivial rfl
    refine ⟨events, hlog, .inr ⟨serialized, hserialized, sentOut_of_errand hreads, ?_⟩⟩
    intro response hanswer
    obtain ⟨r, hr, hok⟩ := Option.map_eq_some_iff.mp hanswer
    rw [← (fits_of_errand hreads).sent]
    exact hresult r hr response hok

end

/-! ## Where redirects lead -/

def Url.origin (url : Url) : Bytes × ℕ := (url.host, url.port)

section

variable {inetPton6 : Bytes → Bool}

/-- Where no hop leads to another origin, the origin is that of the first URL. -/
theorem Chain.origin {maxRedirects followed : ℕ} {x : Exchange} {log : List Exchange}
    {r : Result Response} (h : Chain inetPton6 maxRedirects followed x log r)
    {before after : List Exchange} {y : Exchange} (hlog : x :: log = before ++ y :: after)
    (hpath : ¬ SomeHop (CrossesOrigin inetPton6) (before ++ [y])) {first url : Url}
    (hfirst : Url.parse inetPton6 (effectiveRequestUrl x.1) = .ok first)
    (hurl : Url.parse inetPton6 (effectiveRequestUrl y.1) = .ok url) :
    SameOrigin first.origin url.origin := by
  induction before using List.reverseRecOn generalizing y after url with
  | nil =>
    cases hlog
    cases hfirst.symm.trans hurl
    exact SameOrigin.refl _
  | append_singleton before z ih =>
    have hlog' : x :: log = before ++ z :: y :: after := by
      rw [hlog, List.append_assoc]
      rfl
    rw [someHop_concat, not_or] at hpath
    obtain @⟨response, target, -, -, htarget, hnext⟩ := h.redirected hlog'
    obtain ⟨location, -, hbase, hresolve, hparsed⟩ := redirectTarget_ok htarget
    have hcurrent : effectiveRequestUrl y.1 = target.nextUrl := by
      have hwhole : '#'.toUInt8 ∉
          ((CurrentRequest.ofRequest z.1).next response.statusCode target).url :=
        (resolve_ok hresolve).1
      rw [hnext]
      exact congrArg CurrentRequest.url (ofRequest_redirected hwhole)
    rw [hcurrent] at hurl
    have hhop : SameOrigin target.base.origin url.origin := by
      by_contra hcross
      refine hpath.2 ⟨target.base, url, hbase, ?_, hcross⟩
      rwa [hnext]
    exact (ih hlog' hpath.1 hbase).trans hhop

/-- A request that `request` asks for comes behind so few redirects, and it has lost the fields with
credentials where its origin is another one. -/
theorem asked_confined {settings : ClientSettings} {request q : Request} {log : List Exchange}
    (h : (settings.request inetPton6 request).Asks log q) :
    log.length ≤ settings.maxRedirects ∧ ∀ first url,
      Url.parse inetPton6 request.url = .ok first → Url.parse inetPton6 q.url = .ok url →
      ¬ SameOrigin first.origin url.origin →
      ∀ field ∈ q.headers.fields, isCrossOriginSensitiveHeader field.name = false := by
  obtain ⟨later, r, htranscript⟩ := h.transcript (.error { code := .unknown })
  obtain ⟨answer, rest, hlog, hone, hchain⟩ := chain_of_request htranscript
  cases hfollow : settings.followRedirects with
  | false =>
    rw [(hone hfollow).1] at hlog
    obtain ⟨rfl, hq⟩ : log = [] ∧ q = request := by
      cases log with
      | nil => exact ⟨rfl, (Prod.mk.inj (List.cons.inj hlog).1).1⟩
      | cons x log => exact absurd (congrArg List.length hlog) (by simp)
    refine ⟨Nat.zero_le _, fun first url hfirst hurl hother => absurd ?_ hother⟩
    rw [hq, hfirst] at hurl
    cases hurl
    exact SameOrigin.refl _
  | true =>
    have hlength := (hchain hfollow).length_le (Nat.zero_le _)
    have hcount := congrArg List.length hlog
    simp only [List.length_append, List.length_cons] at hcount
    refine ⟨by omega, fun first url hfirst hurl hother field hfield => ?_⟩
    obtain ⟨crossed, dropped, hcrossed, -, hcarries⟩ := (hchain hfollow).carries hlog.symm
    have hyes : crossed = true := by
      by_contra hno
      obtain ⟨first', hfirst', hhost, hport, -⟩ := exists_effectiveUrl hfirst
      obtain ⟨url', hurl', hhost', hport', -⟩ := exists_effectiveUrl hurl
      have hsame := (hchain hfollow).origin hlog.symm (fun hpath => hno (hcrossed.mpr hpath))
        hfirst' hurl'
      unfold Url.origin at hsame hother
      rw [hhost, hport, hhost', hport'] at hsame
      exact hother hsame
    rw [hcarries.fields, List.mem_filter, hyes] at hfield
    simpa using (Bool.and_eq_true_iff.mp hfield.2).1

end

/-- Of the fields that a server reads, only the `Host` that is generated for the URL can be one of
those that are not sent to another origin. -/
theorem sensitive_of_read {inetPton6 : Bytes → Bool} {request : Request} {s : SerializedRequest}
    (h : serializeRequest inetPton6 request = .ok s)
    (hnone : ∀ field ∈ request.headers.fields, isCrossOriginSensitiveHeader field.name = false)
    {r : ReadRequest} (hread : readRequest s.text = some (r, [])) :
    ∀ field ∈ r.fields, isCrossOriginSensitiveHeader field.name = true →
      field = ⟨hostName, trimOws (generatedHost s.url)⟩ := by
  obtain ⟨r', -, -, ⟨counts, hfields⟩, hread'⟩ := reads_serialized h
  have hboth := hread' []
  rw [List.append_nil, hread] at hboth
  cases hboth
  rw [hfields]
  intro field hfield hsensitive
  obtain ⟨written, hwritten, rfl⟩ := List.mem_map.mp hfield
  have hother : isCrossOriginSensitiveHeader contentLengthName = false := by decide
  unfold requestFields at hwritten
  rw [List.mem_append, List.mem_append] at hwritten
  obtain hhost | hcaller | hlength := hwritten
  · split_ifs at hhost
    · rw [List.mem_singleton.mp hhost]
      rfl
    · cases hhost
  · cases (hnone written hcaller).symm.trans hsensitive
  · split_ifs at hlength
    · rw [List.mem_singleton.mp hlength] at hsensitive
      cases hother.symm.trans hsensitive
    · cases hlength

/-- What goes out goes over connections that lead to its host and port. -/
theorem SentOut.leadsTo {text : Bytes} {origin : Bytes × ℕ} {events log : List Event}
    (h : SentOut text origin events) (hlog : events ⊆ log) (hdestined : Destined log) :
    ∀ e ∈ events, e.carries = true → ∃ handle, e.handle = some handle ∧
      LeadsTo handle origin log := by
  obtain ⟨handle, hhandle⟩ := h.oneHandle
  intro e he hcarries
  refine ⟨handle, hhandle e he hcarries, ?_⟩
  have hbegan : ∃ parser, .began handle origin.1 origin.2 parser ∈ events := by
    obtain ⟨past, rest, rfl⟩ := List.append_of_mem he
    obtain ⟨other, parser, rfl⟩ | ⟨other, parser, hmem⟩ := h.began past e rest rfl hcarries
    · cases hhandle _ he rfl
      exact ⟨parser, he⟩
    · have hmem' := List.mem_append_left (e :: rest) hmem
      cases hhandle _ hmem' rfl
      exact ⟨parser, hmem'⟩
  obtain ⟨parser, hmem⟩ := hbegan
  exact hdestined log handle _ _ parser List.prefix_rfl (hlog hmem)

/-- In every run of operations on clients and every call of `request` behind it, whatever the system
answers and however far the call has come: its log is that of exchanges, at most one more than
redirects are allowed. In each of them one request goes out, at most once and over one connection,
all of it where it has been answered. The connection leads to the host and the port of the
exchange's URL. Where this is another origin than that of the caller's URL, what the server reads
has none of the fields with credentials and no `Host` but its own. -/
theorem credentials_confined {platform : Platform} {operations : List ClientOperation}
    {answers : List Answer} {clients : Clients} {w : World Answer Event} {this : ClientId}
    {client : Client} (request : Request)
    (hrun : (performAll platform (fun _ => none) operations).run ⟨answers, []⟩ = (some clients, w))
    (hclient : clients this = some client) :
    let r := (client.request platform this request).run w
    ∃ episodes : List (Dialogue.Episode Request (Result Response) Event),
      r.2.log = w.log ++ episodes.flatMap Dialogue.Episode.events ∧
        episodes.length ≤ client.settings.maxRedirects + 1 ∧
        (client.settings.request platform.inetPton6 request).Episodes episodes ∧
        ∀ x ∈ episodes, WentOut platform.inetPton6 x.question x.answer x.events ∧
          ∀ serialized, serializeRequest platform.inetPton6 x.question = .ok serialized →
            (∀ e ∈ x.events, e.carries = true → ∃ handle, e.handle = some handle ∧
              LeadsTo handle serialized.url.origin r.2.log) ∧
            ∀ first, Url.parse platform.inetPton6 request.url = .ok first →
              ¬ SameOrigin first.origin serialized.url.origin →
              ∀ r, readRequest serialized.text = some (r, []) → ∀ field ∈ r.fields,
                isCrossOriginSensitiveHeader field.name = true →
                  field = ⟨hostName, trimOws (generatedHost serialized.url)⟩ := by
  intro r
  have hone : ∀ (request : Request) (client : Client) (w : World Answer Event), ∃ events,
      ((client.executeOnce platform this request).run w).2.log = w.log ++ events ∧
        WentOut platform.inetPton6 request
          (((client.executeOnce platform this request).run w).1.map Prod.fst) events :=
    executeOnce_wentOut
  have hdestined : Destined r.2.log := destined_request request hrun hclient
  obtain ⟨episodes, hlog, hfollow, hout⟩ := Dialogue.episodes_of_play hone
    (client.settings.request platform.inetPton6 request) client w
  have hlog : r.2.log = w.log ++ episodes.flatMap Dialogue.Episode.events := hlog
  refine ⟨episodes, hlog, ?_, hfollow, fun x hx => ⟨hout x hx, fun serialized hserialized => ?_⟩⟩
  · obtain rfl | ⟨before, x, rfl⟩ := List.eq_nil_or_concat episodes
    · exact Nat.zero_le _
    · obtain ⟨log, hasks, hsame⟩ := hfollow before x [] (List.concat_eq_append ..)
      have hlength := congrArg List.length hsame
      rw [List.length_map, List.length_map] at hlength
      have hbound := (asked_confined hasks).1
      rw [List.length_concat]
      omega
  constructor
  · obtain ⟨e, herror, -⟩ | ⟨serialized', hserialized', hsent, -⟩ := hout x hx
    · cases herror.symm.trans hserialized
    · cases hserialized.symm.trans hserialized'
      refine hsent.leadsTo (fun e he => ?_) hdestined
      rw [hlog]
      exact List.mem_append_right _ (List.mem_flatMap.mpr ⟨x, hx, he⟩)
  · intro first hfirst hother r hread
    obtain ⟨before, after, hsplit⟩ := List.append_of_mem hx
    obtain ⟨log, hasks, -⟩ := hfollow before x after hsplit
    obtain ⟨url, counts, hurl, -, -, -, -, rfl⟩ := serializeRequest_ok hserialized
    exact sensitive_of_read hserialized ((asked_confined hasks).2 first url hfirst hurl hother) hread

def cookieRequest : Request :=
  { method := .get, url := bytes "http://h/", headers := ⟨[⟨bytes "Cookie", bytes "c"⟩]⟩ }

/-- The first server sends the client to another host, and that one answers. -/
def redirectedAnswers : List Answer :=
  promptAnswers (bytes "HTTP/1.1 302 Found\r\nLocation: http://b/\r\nContent-Length: 0\r\n\r\n") ++
    promptAnswers (bytes "HTTP/1.1 204 No Content\r\n\r\n")

theorem credentials_confined_redirected : ∃ r,
    (({} : Client).request { inetPton6 := fun _ => false } 0 cookieRequest).run
        ⟨redirectedAnswers, []⟩ = r ∧
      r.1.bind (fun a => a.1.toOption.map fun response => response.statusCode) = some 204 ∧
      ∃ episodes : List (Dialogue.Episode Request (Result Response) Event),
        r.2.log = [] ++ episodes.flatMap Dialogue.Episode.events ∧
          episodes.length ≤ ({} : ClientSettings).maxRedirects + 1 ∧
          (({} : ClientSettings).request (fun _ => false) cookieRequest).Episodes episodes ∧
          ∀ x ∈ episodes, WentOut (fun _ => false) x.question x.answer x.events ∧
            ∀ serialized, serializeRequest (fun _ => false) x.question = .ok serialized →
              (∀ e ∈ x.events, e.carries = true → ∃ handle, e.handle = some handle ∧
                LeadsTo handle serialized.url.origin r.2.log) ∧
              ∀ first, Url.parse (fun _ => false) cookieRequest.url = .ok first →
                ¬ SameOrigin first.origin serialized.url.origin →
                ∀ r, readRequest serialized.text = some (r, []) → ∀ field ∈ r.fields,
                  isCrossOriginSensitiveHeader field.name = true →
                    field = ⟨hostName, trimOws (generatedHost serialized.url)⟩ := by
  have hanswered : ((({} : Client).request { inetPton6 := fun _ => false } 0 cookieRequest).run
      ⟨redirectedAnswers, []⟩).1.bind
        (fun a => a.1.toOption.map fun response => response.statusCode) = some 204 := by
    decide +kernel
  have hnew : (performAll { inetPton6 := fun _ => false } (fun _ => none) [.construct 0]).run
      ⟨redirectedAnswers, []⟩ =
        (some (Function.update (fun _ => none) 0 (some {})), ⟨redirectedAnswers, []⟩) := rfl
  exact ⟨_, rfl, hanswered, credentials_confined cookieRequest hnew (Function.update_self 0 _ _)⟩

end CppRequest
