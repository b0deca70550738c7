import CppRequest.RedirectedRequests

/-!
# Redirected requests can be sent

What `serialize_request` accepts it accepts behind every redirect: no field, length or URL that
the loop makes is refused.
-/

namespace CppRequest

open Headers

variable {inetPton6 : Bytes → Bool}

/-! ## The checks of the fields -/

/-- Whether a field is refused does not depend on those in front of it. -/
theorem checkField_counts {counts counts' : FieldCounts} {field : Field}
    (h : checkField counts field = .ok counts') (other : FieldCounts) :
    ∃ other', checkField other field = .ok other' := by
  unfold checkField at h ⊢
  split_ifs at h ⊢
  · exact ⟨_, rfl⟩
  · split at h
    · cases h
    · exact ⟨_, rfl⟩
  · exact ⟨_, rfl⟩

theorem checkFields_ok {fields : List Field} {counts counts' : FieldCounts}
    (h : fields.foldlM checkField counts = .ok counts') :
    ∀ field ∈ fields, ∀ other, ∃ other', checkField other field = .ok other' := by
  induction fields generalizing counts with
  | nil => exact nofun
  | cons field fields ih =>
    rw [List.foldlM_cons] at h
    cases hfield : checkField counts field with
    | error e =>
      rw [hfield] at h
      cases h
    | ok next =>
      rw [hfield] at h
      intro field' hmem
      rcases List.mem_cons.mp hmem with rfl | hmem
      · exact checkField_counts hfield
      · exact ih h field' hmem

theorem exists_counts {fields : List Field}
    (h : ∀ field ∈ fields, ∀ other, ∃ other', checkField other field = .ok other')
    (counts : FieldCounts) : ∃ counts', fields.foldlM checkField counts = .ok counts' := by
  induction fields generalizing counts with
  | nil => exact ⟨counts, rfl⟩
  | cons field fields ih =>
    rcases h field List.mem_cons_self counts with ⟨next, hnext⟩
    rcases ih (fun field' hmem => h field' (List.mem_cons_of_mem _ hmem)) next with ⟨last, hlast⟩
    refine ⟨last, ?_⟩
    rw [List.foldlM_cons, hnext]
    exact hlast

theorem checked_of_fold {fields : List Field} {counts : FieldCounts}
    (h : fields.foldlM checkField {} = .ok counts) : Checked fields counts :=
  have hnil : Checked [] {} := ⟨nofun, nofun, rfl, rfl, nofun, rfl⟩
  foldlM_post (I := Checked) (fun _ _ _ _ => checkField_ok) hnil h

/-- What `serialize_request` accepts. -/
theorem serializeRequest_iff {request : Request} :
    (∃ s, serializeRequest inetPton6 request = .ok s) ↔
      (∃ url, Url.parse inetPton6 request.url = .ok url) ∧
      ∃ counts, request.headers.fields.foldlM checkField {} = .ok counts ∧
        counts.hostCount ≤ 1 ∧ counts.contentLengthCount ≤ 1 ∧
        (counts.contentLengthCount = 1 → counts.declaredContentLength = request.body.length) := by
  have htoken : ¬ (methodToken request.method).isEmpty = true := by
    cases request.method <;> decide
  unfold serializeRequest
  cases hurl : Url.parse inetPton6 request.url with
  | error e => simp
  | ok url =>
    cases hfold : request.headers.fields.foldlM checkField {} with
    | error e => simp [htoken]
    | ok counts =>
      simp only [if_neg htoken, Except.ok.injEq, exists_eq', true_and, exists_eq_left']
      split_ifs with hhost hcount hdeclared
      · simp [hhost]
      · simp [hcount]
      · simp [hdeclared]
      · rw [not_and_or, not_not] at hdeclared
        simp only [Except.ok.injEq, exists_eq', true_iff]
        exact ⟨not_lt.mp hhost, not_lt.mp hcount, fun hone => hdeclared.resolve_left (not_not.mpr hone)⟩

/-! ## Filtered fields -/

theorem values_filter_sublist (fields : List Field) (p : Field → Bool) (name : Bytes) :
    ((⟨fields.filter p⟩ : Headers).values name).Sublist ((⟨fields⟩ : Headers).values name) :=
  (List.filter_sublist.filter _).map _

theorem values_filter_kept {fields : List Field} {p : Field → Bool} {name : Bytes}
    (h : ∀ field ∈ fields, asciiIequals field.name name = true → p field = true) :
    (⟨fields.filter p⟩ : Headers).values name = (⟨fields⟩ : Headers).values name := by
  unfold Headers.values
  rw [List.filter_filter]
  congr 1
  refine List.filter_congr fun field hmem => ?_
  cases hname : asciiIequals field.name name with
  | false => rfl
  | true => rw [h field hmem hname, Bool.and_self]

theorem values_filter_gone {fields : List Field} {p : Field → Bool} {name : Bytes}
    (h : ∀ field ∈ fields, asciiIequals field.name name = true → p field = false) :
    (⟨fields.filter p⟩ : Headers).values name = [] := by
  unfold Headers.values
  rw [List.filter_filter, List.filter_eq_nil_iff.mpr, List.map_nil]
  intro field hmem hboth
  rw [Bool.and_eq_true] at hboth
  rw [h field hmem hboth.1] at hboth
  exact absurd hboth.2 (by simp)

/-- A Content-Length is no field with credentials. -/
theorem not_sensitive {name : Bytes} (h : asciiIequals name contentLengthName = true) :
    isCrossOriginSensitiveHeader name = false := by
  have hother : ∀ listed ∈ [bytes "Host", bytes "Authorization", bytes "Proxy-Authorization",
      bytes "Cookie"], asciiIequals contentLengthName listed = false := by
    decide
  rw [asciiIequals_comm] at h
  rw [Bool.eq_false_iff]
  intro hsensitive
  obtain ⟨listed, hmem, hlisted⟩ := isCrossOriginSensitiveHeader_iff.mp hsensitive
  exact absurd (asciiIequals_trans h hlisted) (Bool.eq_false_iff.mp (hother listed hmem))

/-! ## One hop -/

/-- The request can be sent. -/
def Sendable (inetPton6 : Bytes → Bool) (request : Request) : Prop :=
  ∃ s, serializeRequest inetPton6 request = .ok s

/-- The loop keeps what the serializer checks. -/
theorem Hop.sendable {x : Exchange} {q : Request} (h : Hop inetPton6 x q)
    (hx : Sendable inetPton6 x.1) : Sendable inetPton6 q := by
  rcases serializeRequest_iff.mp hx with ⟨-, counts, hfold, hhost, hcount, hdeclared⟩
  cases h with
  | @mk response target hok hredirect htarget hnext =>
  rcases redirectTarget_ok htarget with ⟨location, -, -, -, hparsed⟩
  have hfields : q.headers.fields = x.1.headers.fields.filter fun field =>
      !(!sameOrigin target.base target.nextParsed && isCrossOriginSensitiveHeader field.name) &&
        !(!(redirectBehavior response.statusCode x.1.method).preserveBody &&
          isEntityHeaderRemovedWithBody field.name) := by
    rw [hnext]
    exact redirectedHeaders_fields _ _ _
  have hbody : q.body = if (redirectBehavior response.statusCode x.1.method).preserveBody
      then x.1.body else [] := by
    rw [hnext]
    rfl
  have hall : ∀ field ∈ q.headers.fields, ∀ other, ∃ other',
      checkField other field = .ok other' := by
    intro field hmem
    rw [hfields] at hmem
    exact checkFields_ok hfold field (List.mem_of_mem_filter hmem)
  rcases exists_counts hall {} with ⟨counts', hfold'⟩
  have hchecked := checked_of_fold hfold
  have hchecked' := checked_of_fold hfold'
  refine serializeRequest_iff.mpr ⟨⟨target.nextParsed, ?_⟩, counts', hfold', ?_, ?_⟩
  · rw [hnext]
    exact hparsed
  · rw [hchecked'.hostCount, hfields]
    rw [hchecked.hostCount] at hhost
    exact (values_filter_sublist _ _ _).length_le.trans hhost
  · cases hpreserve : (redirectBehavior response.statusCode x.1.method).preserveBody with
    | false =>
      have hgone : (⟨q.headers.fields⟩ : Headers).values contentLengthName = [] := by
        rw [hfields]
        refine values_filter_gone fun field _ hname => ?_
        have hremoved : isEntityHeaderRemovedWithBody field.name = true :=
          isEntityHeaderRemovedWithBody_iff.mpr ⟨_, List.mem_cons_self, hname⟩
        simp [hpreserve, hremoved]
      have hzero : counts'.contentLengthCount = 0 := by
        rw [hchecked'.lengthCount, hgone]
        rfl
      rw [hzero]
      exact ⟨Nat.zero_le _, fun hone => absurd hone Nat.zero_ne_one⟩
    | true =>
      have hkept : (⟨q.headers.fields⟩ : Headers).values contentLengthName =
          (⟨x.1.headers.fields⟩ : Headers).values contentLengthName := by
        rw [hfields]
        refine values_filter_kept fun field _ hname => ?_
        simp [hpreserve, not_sensitive hname]
      have hsame : counts'.contentLengthCount = counts.contentLengthCount := by
        rw [hchecked'.lengthCount, hchecked.lengthCount, hkept]
      rw [hsame, hbody, if_pos hpreserve]
      refine ⟨hcount, fun hone => ?_⟩
      have hlast : ∃ value, ((⟨x.1.headers.fields⟩ : Headers).values
          contentLengthName).getLast? = some value := by
        rw [hchecked.lengthCount] at hone
        exact ⟨_, List.getLast?_eq_some_getLast (List.ne_nil_of_length_eq_add_one hone)⟩
      rcases hlast with ⟨value, hvalue⟩
      have hparse := hchecked.length value hvalue
      have hparse' := hchecked'.length value (hkept ▸ hvalue)
      rw [Option.some.inj (hparse'.symm.trans hparse)]
      exact hdeclared hone

theorem Sendable.parses {request : Request} (h : Sendable inetPton6 request) :
    ∃ base, Url.parse inetPton6 (effectiveRequestUrl request) = .ok base := by
  rcases (serializeRequest_iff.mp h).1 with ⟨url, hurl⟩
  rcases exists_effectiveUrl hurl with ⟨base, hbase, -⟩
  exact ⟨base, hbase⟩

/-! ## Chains -/

theorem Chain.sendable {maxRedirects followed : ℕ} {x : Exchange} {log : List Exchange}
    {r : Result Response} (h : Chain inetPton6 maxRedirects followed x log r)
    (hx : Sendable inetPton6 x.1) : ∀ y ∈ x :: log, Sendable inetPton6 y.1 := by
  induction h with
  | last hends => simpa using hx
  | hop hlimit hhop h ih =>
    intro y hy
    rcases List.mem_cons.mp hy with rfl | hy
    · exact hx
    · exact ih (hhop.sendable hx) y hy

/-- The errors that a request can end with, behind its last exchange. -/
inductive LastError (inetPton6 : Bytes → Bool) (x : Exchange) : Error → Prop
  | exchange {e : Error} (h : x.2 = .error e) : LastError inetPton6 x e
  | limit : LastError inetPton6 x { code := .redirectLimitExceeded }
  | missing : LastError inetPton6 x { code := .missingRedirectLocation }
  | location {response : Response} {location : Bytes} {base : Url} {e : Error}
      (hok : x.2 = .ok response) (hlocation : redirectLocation response = .ok location)
      (hbase : Url.parse inetPton6 (effectiveRequestUrl x.1) = .ok base)
      (hresolve : resolveRedirectLocation inetPton6 base location = .error e) :
      LastError inetPton6 x e

theorem redirectLocation_error {response : Response} {e : Error}
    (h : redirectLocation response = .error e) : e = { code := .missingRedirectLocation } := by
  unfold redirectLocation at h
  split_ifs at h
  · exact (Except.error.inj h).symm
  · exact (Except.error.inj h).symm

theorem Ends.lastError {maxRedirects followed : ℕ} {x : Exchange} {e : Error}
    (h : Ends inetPton6 maxRedirects followed x (.error e)) (hx : Sendable inetPton6 x.1) :
    LastError inetPton6 x e := by
  cases h with
  | failed herror => exact .exchange herror
  | limit => exact .limit
  | target hok hredirect hlimit htarget =>
    rcases hx.parses with ⟨base, hbase⟩
    rcases redirectTarget_error hbase htarget with hlocation | ⟨location, hlocation, hresolve⟩
    · rw [redirectLocation_error hlocation]
      exact .missing
    · exact .location hok hlocation hbase hresolve

/-- No request of the run fails before it is sent, and no URL that is resolved is no URL. -/
structure SentAsIs (inetPton6 : Bytes → Bool) (log : List Exchange) (r : Result Response) :
    Prop where
  current : ∀ x ∈ log, ∃ base, Url.parse inetPton6 (effectiveRequestUrl x.1) = .ok base
  resolved : ∀ (base : Url) (location nextUrl : Bytes),
    resolveRedirectLocation inetPton6 base location = .ok nextUrl →
      ∃ next, Url.parse inetPton6 nextUrl = .ok next
  serialized : ∀ x ∈ log, ∃ s, serializeRequest inetPton6 x.1 = .ok s
  errors : ∀ e, r = .error e → ∃ before x, log = before ++ [x] ∧ LastError inetPton6 x e

theorem sent_of_transcript {settings : ClientSettings} {request : Request}
    {log : List Exchange} {r : Result Response} (hsend : Sendable inetPton6 request)
    (h : (settings.request inetPton6 request).Transcript log r) : SentAsIs inetPton6 log r := by
  rcases chain_of_request h with ⟨answer, rest, rfl, hone, hchain⟩
  have hall : ∀ x ∈ (request, answer) :: rest, Sendable inetPton6 x.1 := by
    cases hfollow : settings.followRedirects with
    | true => exact (hchain hfollow).sendable hsend
    | false =>
      rw [(hone hfollow).1]
      simpa using hsend
  constructor
  · exact fun x hx => (hall x hx).parses
  · exact fun base location nextUrl hresolve => (resolve_ok hresolve).2
  · exact hall
  · rintro e rfl
    cases hfollow : settings.followRedirects with
    | true =>
      rcases (hchain hfollow).ends with ⟨before, y, hlog, hends⟩
      refine ⟨before, y, hlog, hends.lastError (hall y ?_)⟩
      rw [hlog]
      exact List.mem_append_right _ List.mem_cons_self
    | false =>
      rcases hone hfollow with ⟨rfl, hanswer⟩
      exact ⟨[], _, rfl, .exchange hanswer.symm⟩

/-- A request that can be sent never fails for what the loop has made of it, against every server. -/
theorem redirects_sendable (inetPton6 : Bytes → Bool) (settings : ClientSettings)
    (request : Request) (server : List Exchange → Request → Result Response)
    (hsend : ∃ s, serializeRequest inetPton6 request = .ok s) :
    SentAsIs inetPton6 ((settings.request inetPton6 request).run server []).1
      ((settings.request inetPton6 request).run server []).2 :=
  sent_of_transcript hsend (Dialogue.transcript_run server [] _)

/-- A request with a body, sent on to another host without it. -/
def sentOnRequest : Request where
  method := .post
  url := bytes "http://h/a"
  headers := ⟨[⟨bytes "Host", bytes "h"⟩, ⟨bytes "Content-Length", bytes "1"⟩]⟩
  body := bytes "x"

/-- The first answer sends the client on, the second one is final. -/
def sentOnServer (past : List Exchange) (_ : Request) : Result Response :=
  if past.isEmpty then
    .ok { statusCode := 303, headers := ⟨[⟨bytes "Location", bytes "//k/b"⟩]⟩ }
  else .ok { statusCode := 200 }

theorem redirects_sendable_post :
    (({} : ClientSettings).request (fun _ => false) sentOnRequest |>.run sentOnServer []).1.map Prod.fst =
      [sentOnRequest, { method := .get, url := bytes "http://k/b" }] ∧
    SentAsIs (fun _ => false)
      (({} : ClientSettings).request (fun _ => false) sentOnRequest |>.run sentOnServer []).1
      (({} : ClientSettings).request (fun _ => false) sentOnRequest |>.run sentOnServer []).2 := by
  refine ⟨by decide +kernel, redirects_sendable _ {} sentOnRequest sentOnServer ?_⟩
  have hok : (serializeRequest (fun _ => false) sentOnRequest).isOk = true := by decide +kernel
  cases h : serializeRequest (fun _ => false) sentOnRequest with
  | error e =>
    rw [h] at hok
    cases hok
  | ok s => exact ⟨s, rfl⟩

end CppRequest
