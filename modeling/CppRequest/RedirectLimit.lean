import CppRequest.RedirectChains

/-!
# The limit of redirects

How many exchanges a request makes, and what it returns, against any server.
-/

namespace CppRequest

variable {inetPton6 : Bytes → Bool}

/-- The exchange brought a redirect response. -/
def Redirects (x : Exchange) : Prop :=
  ∃ response, x.2 = .ok response ∧ isRedirectStatus response.statusCode = true

/-- The exchanges of a request and its result. The error of the limit is told from an error of an
exchange by its not being one. -/
structure Outcome (inetPton6 : Bytes → Bool) (settings : ClientSettings) (request : Request)
    (log : List Exchange) (r : Result Response) : Prop where
  bounded : log.length ≤ settings.maxRedirects + 1
  disabled : settings.followRedirects = false → log = [(request, r)]
  settled : settings.followRedirects = true →
    ∀ response, r = .ok response → response.statusCode ∉ [301, 302, 303, 307, 308]
  limit : settings.followRedirects = true →
    ((∃ e, r = .error e ∧ e.code = .redirectLimitExceeded ∧ ∀ x ∈ log, x.2 ≠ .error e) ↔
      log.length = settings.maxRedirects + 1 ∧ ∀ x ∈ log, Redirects x)
  failure : ∀ before x after e, log = before ++ x :: after → x.2 = .error e →
    after = [] ∧ r = .error e
  unusable : settings.followRedirects = true →
    ∀ before x after response e, log = before ++ x :: after → x.2 = .ok response →
      isRedirectStatus response.statusCode = true → before.length < settings.maxRedirects →
      redirectTarget inetPton6 (effectiveRequestUrl x.1) response = .error e →
      after = [] ∧ r = .error e
  followed : settings.followRedirects = true →
    ∀ before x after response target, log = before ++ x :: after → x.2 = .ok response →
      isRedirectStatus response.statusCode = true → before.length < settings.maxRedirects →
      redirectTarget inetPton6 (effectiveRequestUrl x.1) response = .ok target →
      ∃ answer rest, after =
        (((CurrentRequest.ofRequest x.1).next response.statusCode target).redirected,
          answer) :: rest

theorem redirectTarget_not_limit {currentUrl : Bytes} {response : Response} {e : Error}
    (h : redirectTarget inetPton6 currentUrl response = .error e) :
    e.code ≠ .redirectLimitExceeded := by
  unfold redirectTarget at h
  split at h
  · next hlocation =>
    cases h
    unfold redirectLocation at hlocation
    split_ifs at hlocation
    all_goals
      cases hlocation
      simp
  split at h
  · next hparse =>
    cases h
    rcases Url.parse_error hparse with hcode | hcode | hcode <;> simp [hcode]
  split at h
  · next hresolve =>
    cases h
    exact resolve_error hresolve
  split at h
  · next hparse =>
    split_ifs at h
    · cases h
      simp
    · cases h
      rcases Url.parse_error hparse with hcode | hcode | hcode <;> simp [hcode]
  · cases h

/-- The exchanges in front of the last one have brought redirect responses. -/
theorem Chain.redirects_before {maxRedirects followed : ℕ} {x y : Exchange}
    {log before after : List Exchange} {r : Result Response}
    (h : Chain inetPton6 maxRedirects followed x log r) (hlog : x :: log = before ++ y :: after)
    (hne : after ≠ []) : Redirects y := by
  rcases List.exists_cons_of_ne_nil hne with ⟨z, after, rfl⟩
  rcases h.redirected hlog with ⟨hok, hredirect, -, -⟩
  exact ⟨_, hok, hredirect⟩

theorem Chain.mem_redirects {maxRedirects followed : ℕ} {x y : Exchange}
    {log before : List Exchange} {r : Result Response}
    (h : Chain inetPton6 maxRedirects followed x log r) (hlog : x :: log = before ++ [y])
    {z : Exchange} (hz : z ∈ before) : Redirects z := by
  rcases List.append_of_mem hz with ⟨front, back, rfl⟩
  have hlog' : x :: log = front ++ z :: (back ++ [y]) := by
    rw [hlog, List.append_assoc]
    rfl
  exact h.redirects_before hlog' (by simp)

theorem Chain.failure {maxRedirects followed : ℕ} {x y : Exchange}
    {log before after : List Exchange} {r : Result Response} {e : Error}
    (h : Chain inetPton6 maxRedirects followed x log r) (hlog : x :: log = before ++ y :: after)
    (herror : y.2 = .error e) : after = [] ∧ r = .error e := by
  cases h.drop hlog with
  | last hends =>
    cases hends with
    | failed herror' =>
      cases herror'.symm.trans herror
      exact ⟨rfl, rfl⟩
    | final hok | limit hok | target hok => cases hok.symm.trans herror
  | hop hlimit hhop h =>
    rcases hhop with ⟨hok, -, -, -⟩
    cases hok.symm.trans herror

theorem Chain.unusable {maxRedirects followed : ℕ} {x y : Exchange}
    {log before after : List Exchange} {r : Result Response} {response : Response} {e : Error}
    (h : Chain inetPton6 maxRedirects followed x log r) (hlog : x :: log = before ++ y :: after)
    (hok : y.2 = .ok response) (hredirect : isRedirectStatus response.statusCode = true)
    (hlimit : followed + before.length < maxRedirects)
    (htarget : redirectTarget inetPton6 (effectiveRequestUrl y.1) response = .error e) :
    after = [] ∧ r = .error e := by
  cases h.drop hlog with
  | last hends =>
    cases hends with
    | failed herror => cases hok.symm.trans herror
    | final hok' hfinal =>
      cases hok.symm.trans hok'
      rw [hredirect] at hfinal
      cases hfinal
    | limit hok' hredirect' hlimit' => exact absurd hlimit (not_lt.mpr hlimit')
    | target hok' hredirect' hlimit' htarget' =>
      cases hok.symm.trans hok'
      cases htarget.symm.trans htarget'
      exact ⟨rfl, rfl⟩
  | hop hlimit' hhop h =>
    rcases hhop with ⟨hok', -, htarget', -⟩
    cases hok.symm.trans hok'
    cases htarget.symm.trans htarget'

/-- Behind a redirect response comes the request that its Location asks for. -/
theorem Chain.followed {maxRedirects followed : ℕ} {x y : Exchange}
    {log before after : List Exchange} {r : Result Response} {response : Response}
    {target : RedirectTarget} (h : Chain inetPton6 maxRedirects followed x log r)
    (hlog : x :: log = before ++ y :: after) (hok : y.2 = .ok response)
    (hredirect : isRedirectStatus response.statusCode = true)
    (hlimit : followed + before.length < maxRedirects)
    (htarget : redirectTarget inetPton6 (effectiveRequestUrl y.1) response = .ok target) :
    ∃ answer rest, after =
      (((CurrentRequest.ofRequest y.1).next response.statusCode target).redirected,
        answer) :: rest := by
  cases h.drop hlog with
  | last hends =>
    cases hends with
    | failed herror => cases hok.symm.trans herror
    | final hok' hfinal =>
      cases hok.symm.trans hok'
      rw [hredirect] at hfinal
      cases hfinal
    | limit hok' hredirect' hlimit' => exact absurd hlimit (not_lt.mpr hlimit')
    | target hok' hredirect' hlimit' htarget' =>
      cases hok.symm.trans hok'
      cases htarget.symm.trans htarget'
  | @hop _ _ z rest _ hlimit' hhop h =>
    rcases hhop with ⟨hok', -, htarget', hnext⟩
    cases hok.symm.trans hok'
    cases htarget.symm.trans htarget'
    exact ⟨z.2, rest, by rw [← hnext]⟩

/-- The limit is what is left when no exchange and no Location has failed. -/
theorem Chain.limit_iff {maxRedirects : ℕ} {x : Exchange} {log : List Exchange}
    {r : Result Response} (h : Chain inetPton6 maxRedirects 0 x log r) :
    (∃ e, r = .error e ∧ e.code = .redirectLimitExceeded ∧ ∀ y ∈ x :: log, y.2 ≠ .error e) ↔
      (x :: log).length = maxRedirects + 1 ∧ ∀ y ∈ x :: log, Redirects y := by
  have hlength := h.length_le (Nat.zero_le _)
  rcases h.ends with ⟨before, y, hlog, hends⟩
  have hbefore : before.length = log.length := by
    have hboth := congrArg List.length hlog
    simpa using hboth.symm
  have hmem : y ∈ x :: log := by
    rw [hlog]
    exact List.mem_append_right _ List.mem_cons_self
  rw [Nat.zero_add] at hends hlength
  rw [List.length_cons, Nat.add_right_cancel_iff]
  constructor
  · rintro ⟨e, rfl, hcode, hno⟩
    cases hends with
    | failed herror => exact absurd herror (hno y hmem)
    | limit hok hredirect hlimit =>
      refine ⟨by omega, fun z hz => ?_⟩
      rw [hlog] at hz
      rcases List.mem_append.mp hz with hz | hz
      · exact h.mem_redirects hlog hz
      · rw [List.mem_singleton.mp hz]
        exact ⟨_, hok, hredirect⟩
    | target hok hredirect hlimit htarget => exact absurd hcode (redirectTarget_not_limit htarget)
  · rintro ⟨hfull, hall⟩
    rcases hall y hmem with ⟨response, hok, hredirect⟩
    cases hends with
    | failed herror => cases hok.symm.trans herror
    | final hok' hfinal =>
      cases hok.symm.trans hok'
      rw [hredirect] at hfinal
      cases hfinal
    | limit hok' hredirect' hlimit =>
      refine ⟨_, rfl, rfl, fun z hz herror => ?_⟩
      rcases hall z hz with ⟨response', hok'', -⟩
      cases hok''.symm.trans herror
    | target hok' hredirect' hlimit => omega

theorem outcome_of_transcript {settings : ClientSettings} {request : Request}
    {log : List Exchange} {r : Result Response}
    (h : (settings.request inetPton6 request).Transcript log r) :
    Outcome inetPton6 settings request log r := by
  rcases chain_of_request h with ⟨answer, rest, rfl, hone, hchain⟩
  constructor
  · cases hfollow : settings.followRedirects with
    | false =>
      rw [(hone hfollow).1]
      exact Nat.succ_le_succ (Nat.zero_le _)
    | true =>
      have hlength := (hchain hfollow).length_le (Nat.zero_le _)
      rw [List.length_cons]
      omega
  · intro hfollow
    rcases hone hfollow with ⟨rfl, rfl⟩
    rfl
  · rintro hfollow response rfl
    rcases (hchain hfollow).ends with ⟨before, y, -, hends⟩
    cases hends with
    | final hok hfinal =>
      intro hmem
      rw [isRedirectStatus_iff.mpr hmem] at hfinal
      cases hfinal
  · exact fun hfollow => (hchain hfollow).limit_iff
  · intro before x after e hlog herror
    cases hfollow : settings.followRedirects with
    | true => exact (hchain hfollow).failure hlog herror
    | false =>
      rcases hone hfollow with ⟨rfl, rfl⟩
      cases before with
      | nil =>
        cases hlog
        exact ⟨rfl, herror⟩
      | cons y before => exact absurd (congrArg List.length hlog) (by simp)
  · intro hfollow before x after response e hlog hok hredirect hlimit htarget
    refine (hchain hfollow).unusable hlog hok hredirect ?_ htarget
    rwa [Nat.zero_add]
  · intro hfollow before x after response target hlog hok hredirect hlimit htarget
    refine (hchain hfollow).followed hlog hok hredirect ?_ htarget
    rwa [Nat.zero_add]

/-- A request ends against every server, with this outcome. -/
theorem request_outcome (inetPton6 : Bytes → Bool) (settings : ClientSettings) (request : Request)
    (server : List Exchange → Request → Result Response) :
    Outcome inetPton6 settings request
      ((settings.request inetPton6 request).run server []).1
      ((settings.request inetPton6 request).run server []).2 :=
  outcome_of_transcript (Dialogue.transcript_run server [] _)

end CppRequest
