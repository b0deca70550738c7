import CppRequest.EffectiveUrl
import CppRequest.PathRedirects
import CppRequest.RedirectLoop

/-!
# Chains of redirects

The exchanges of one request: each redirect response leads to the next exchange, and the last
exchange decides what is returned.
-/

namespace CppRequest

variable {inetPton6 : Bytes → Bool}

/-! ## The URL of the request that was made -/

theorem exists_beforeHash (text : Bytes) : ∃ before fragment, text = before ++ fragment ∧
    '#'.toUInt8 ∉ before ∧ ∀ ch, fragment.head? = some ch → ch = '#'.toUInt8 := by
  rcases Search.exists_span (fun ch => ch != '#'.toUInt8) text with
    ⟨before, fragment, htext, hbefore, hfragment⟩
  refine ⟨before, fragment, htext, fun hmem => absurd (hbefore _ hmem) (by decide), fun ch hch => ?_⟩
  simpa using hfragment ch hch

theorem hash_not_mem_stripFragment (text : Bytes) : '#'.toUInt8 ∉ stripFragment text := by
  rcases exists_beforeHash text with ⟨before, fragment, rfl, hno, hhash⟩
  unfold stripFragment
  rwa [Url.withoutFragment_eq hno hhash]

theorem ofRequest_redirected {current : CurrentRequest} (h : '#'.toUInt8 ∉ current.url) :
    CurrentRequest.ofRequest current.redirected = current := by
  have hurl : effectiveRequestUrl current.redirected = current.url := by
    have hwhole := @Url.withoutFragment_eq current.url [] h nofun
    rwa [List.append_nil] at hwhole
  unfold CurrentRequest.ofRequest
  rw [hurl]
  rfl

/-- A resolved Location is a URL without a fragment. -/
theorem resolve_ok {base : Url} {location nextUrl : Bytes}
    (h : resolveRedirectLocation inetPton6 base location = .ok nextUrl) :
    '#'.toUInt8 ∉ nextUrl ∧ ∃ u, Url.parse inetPton6 nextUrl = .ok u := by
  have hvalidated : ∃ candidate, validateRedirectUrl inetPton6 candidate = .ok nextUrl := by
    unfold resolveRedirectLocation at h
    cases hscheme : schemeEnd location with
    | some explicitScheme =>
      simp only [hscheme] at h
      split_ifs at h
      exact ⟨_, h⟩
    | none =>
      simp only [hscheme] at h
      split_ifs at h
      all_goals exact ⟨_, h⟩
  rcases hvalidated with ⟨candidate, hcandidate⟩
  rcases validateRedirectUrl_ok hcandidate with ⟨rfl, hparse⟩
  exact ⟨hash_not_mem_stripFragment candidate, hparse⟩

/-- What the loop knows when it goes on. -/
theorem redirectTarget_ok {currentUrl : Bytes} {response : Response} {target : RedirectTarget}
    (h : redirectTarget inetPton6 currentUrl response = .ok target) :
    ∃ location, redirectLocation response = .ok location ∧
      Url.parse inetPton6 currentUrl = .ok target.base ∧
      resolveRedirectLocation inetPton6 target.base location = .ok target.nextUrl ∧
      Url.parse inetPton6 target.nextUrl = .ok target.nextParsed := by
  unfold redirectTarget at h
  split at h
  · cases h
  next location hlocation =>
  split at h
  · cases h
  next base hbase =>
  split at h
  · cases h
  next nextUrl hnext =>
  split at h
  · split_ifs at h
  next nextParsed hparsed =>
  cases h
  exact ⟨location, hlocation, hbase, hnext, hparsed⟩

/-- Where the current URL is one, only the Location field is complained about. -/
theorem redirectTarget_error {currentUrl : Bytes} {response : Response} {base : Url} {e : Error}
    (hbase : Url.parse inetPton6 currentUrl = .ok base)
    (h : redirectTarget inetPton6 currentUrl response = .error e) :
    redirectLocation response = .error e ∨ ∃ location,
      redirectLocation response = .ok location ∧
        resolveRedirectLocation inetPton6 base location = .error e := by
  unfold redirectTarget at h
  cases hlocation : redirectLocation response with
  | error e' =>
    rw [hlocation] at h
    cases h
    exact .inl rfl
  | ok location =>
    simp only [hlocation, hbase] at h
    cases hnext : resolveRedirectLocation inetPton6 base location with
    | error e' =>
      simp only [hnext] at h
      cases h
      exact .inr ⟨location, rfl, hnext⟩
    | ok nextUrl =>
      rcases (resolve_ok hnext).2 with ⟨u, hu⟩
      simp only [hnext, hu] at h
      cases h

/-! ## Hops -/

/-- The exchange brought a redirect response, and the request is the one it leads to. -/
inductive Hop (inetPton6 : Bytes → Bool) (x : Exchange) (next : Request) : Prop
  | mk {response : Response} {target : RedirectTarget} (hok : x.2 = .ok response)
      (hredirect : isRedirectStatus response.statusCode = true)
      (htarget : redirectTarget inetPton6 (effectiveRequestUrl x.1) response = .ok target)
      (hnext : next = ((CurrentRequest.ofRequest x.1).next response.statusCode target).redirected)

/-- What is returned when no exchange follows this one, so many redirects have been followed and
so many may be. -/
inductive Ends (inetPton6 : Bytes → Bool) (maxRedirects followed : ℕ) (x : Exchange) :
    Result Response → Prop
  | failed {e : Error} (h : x.2 = .error e) : Ends inetPton6 maxRedirects followed x (.error e)
  | final {response : Response} (hok : x.2 = .ok response)
      (hfinal : isRedirectStatus response.statusCode = false) :
      Ends inetPton6 maxRedirects followed x (.ok response)
  | limit {response : Response} (hok : x.2 = .ok response)
      (hredirect : isRedirectStatus response.statusCode = true) (hlimit : maxRedirects ≤ followed) :
      Ends inetPton6 maxRedirects followed x (.error { code := .redirectLimitExceeded })
  | target {response : Response} {e : Error} (hok : x.2 = .ok response)
      (hredirect : isRedirectStatus response.statusCode = true) (hlimit : followed < maxRedirects)
      (htarget : redirectTarget inetPton6 (effectiveRequestUrl x.1) response = .error e) :
      Ends inetPton6 maxRedirects followed x (.error e)

/-- An exchange, those that follow it, and what is returned. -/
inductive Chain (inetPton6 : Bytes → Bool) (maxRedirects : ℕ) :
    ℕ → Exchange → List Exchange → Result Response → Prop
  | last {followed : ℕ} {x : Exchange} {r : Result Response}
      (h : Ends inetPton6 maxRedirects followed x r) : Chain inetPton6 maxRedirects followed x [] r
  | hop {followed : ℕ} {x y : Exchange} {log : List Exchange} {r : Result Response}
      (hlimit : followed < maxRedirects) (hhop : Hop inetPton6 x y.1)
      (h : Chain inetPton6 maxRedirects (followed + 1) y log r) :
      Chain inetPton6 maxRedirects followed x (y :: log) r

/-- Every run of the loop is a chain. -/
theorem chain_of_redirectLoop {maxRedirects followed : ℕ} {x : Exchange} {response : Response}
    {log : List Exchange} {r : Result Response} (hok : x.2 = .ok response)
    (h : (redirectLoop inetPton6 maxRedirects followed (.ofRequest x.1) response).Transcript log r) :
    Chain inetPton6 maxRedirects followed x log r := by
  induction log generalizing followed x response with
  | nil =>
    rw [redirectLoop] at h
    split_ifs at h with hredirect hlimit
    · cases h
      exact .last (.limit hok hredirect hlimit)
    · split at h
      · next e htarget =>
        cases h
        exact .last (.target hok hredirect (not_le.mp hlimit) htarget)
      · cases h
    · cases h
      exact .last (.final hok (Bool.not_eq_true _ ▸ hredirect))
  | cons y log ih =>
    rw [redirectLoop] at h
    split_ifs at h with hredirect hlimit
    · cases h
    · split at h
      · cases h
      · next target htarget =>
        cases h with
        | ask h =>
          rename_i answer
          have hnext := redirectTarget_ok htarget
          rcases hnext with ⟨location, -, -, hresolve, -⟩
          have hcurrent : CurrentRequest.ofRequest ((CurrentRequest.ofRequest x.1).next
              response.statusCode target).redirected =
              (CurrentRequest.ofRequest x.1).next response.statusCode target :=
            ofRequest_redirected (resolve_ok hresolve).1
          refine .hop (not_le.mp hlimit) (.mk hok hredirect htarget rfl) ?_
          cases answer with
          | error e =>
            cases h
            exact .last (.failed rfl)
          | ok response' =>
            refine ih rfl ?_
            rw [hcurrent]
            exact h
    · cases h

/-- Every run of a request is one exchange, or a chain if redirects are followed. -/
theorem chain_of_request {settings : ClientSettings} {request : Request} {log : List Exchange}
    {r : Result Response} (h : (settings.request inetPton6 request).Transcript log r) :
    ∃ answer rest, log = (request, answer) :: rest ∧
      (settings.followRedirects = false → rest = [] ∧ r = answer) ∧
      (settings.followRedirects = true →
        Chain inetPton6 settings.maxRedirects 0 (request, answer) rest r) := by
  unfold ClientSettings.request at h
  cases h with
  | @ask _ _ answer rest _ h =>
    refine ⟨answer, rest, rfl, ?_⟩
    cases answer with
    | error e =>
      cases h
      exact ⟨fun _ => ⟨rfl, rfl⟩, fun _ => .last (.failed rfl)⟩
    | ok response =>
      dsimp only at h
      split_ifs at h with hreturn
      · cases h
        refine ⟨fun _ => ⟨rfl, rfl⟩, fun hfollow => .last (.final rfl ?_)⟩
        simpa [hfollow] using hreturn
      · refine ⟨fun hfollow => absurd (by rw [hfollow]; rfl) hreturn, fun _ => ?_⟩
        exact chain_of_redirectLoop rfl h

/-! ## The places of a chain -/

/-- A chain from any of its exchanges on. -/
theorem Chain.drop {maxRedirects followed : ℕ} {x y : Exchange} {log before after : List Exchange}
    {r : Result Response} (h : Chain inetPton6 maxRedirects followed x log r)
    (hlog : x :: log = before ++ y :: after) :
    Chain inetPton6 maxRedirects (followed + before.length) y after r := by
  induction before generalizing followed x log with
  | nil =>
    cases hlog
    exact h
  | cons z before ih =>
    cases h with
    | last => exact absurd (congrArg List.length hlog) (by simp)
    | hop hlimit hhop h =>
      have htail := ih h (List.cons.inj hlog).2
      rwa [List.length_cons, Nat.add_comm before.length, ← Nat.add_assoc]

theorem Chain.length_le {maxRedirects followed : ℕ} {x : Exchange} {log : List Exchange}
    {r : Result Response} (h : Chain inetPton6 maxRedirects followed x log r)
    (hfollowed : followed ≤ maxRedirects) : followed + log.length ≤ maxRedirects := by
  induction h with
  | last => exact hfollowed
  | hop hlimit hhop h ih =>
    have hle := ih hlimit
    rw [List.length_cons]
    omega

/-- The last exchange decides. -/
theorem Chain.ends {maxRedirects followed : ℕ} {x : Exchange} {log : List Exchange}
    {r : Result Response} (h : Chain inetPton6 maxRedirects followed x log r) :
    ∃ before y, x :: log = before ++ [y] ∧
      Ends inetPton6 maxRedirects (followed + before.length) y r := by
  induction h with
  | @last followed x r h => exact ⟨[], x, rfl, h⟩
  | @hop followed x y log r hlimit hhop h ih =>
    rcases ih with ⟨before, z, hlog, hends⟩
    refine ⟨x :: before, z, by rw [hlog]; rfl, ?_⟩
    rwa [List.length_cons, Nat.add_comm before.length, ← Nat.add_assoc]

/-- An exchange that another one follows has brought a redirect response. -/
theorem Chain.redirected {maxRedirects followed : ℕ} {x y z : Exchange}
    {log before after : List Exchange} {r : Result Response}
    (h : Chain inetPton6 maxRedirects followed x log r)
    (hlog : x :: log = before ++ y :: z :: after) : Hop inetPton6 y z.1 := by
  cases h.drop hlog with
  | hop hlimit hhop h => exact hhop

/-! ## The outcome -/

theorem resolve_error {base : Url} {location : Bytes} {e : Error}
    (h : resolveRedirectLocation inetPton6 base location = .error e) :
    e.code ≠ .redirectLimitExceeded := by
  have hurl : ∀ {e : Error}, Url.IsUrlError e.code → e.code ≠ .redirectLimitExceeded := by
    rintro e (hcode | hcode | hcode) <;> simp [hcode]
  have hvalidate : ∀ {candidate}, validateRedirectUrl inetPton6 candidate = .error e →
      e.code ≠ .redirectLimitExceeded := by
    intro candidate hcandidate
    unfold validateRedirectUrl at hcandidate
    split at hcandidate
    · next e' hparse =>
      split_ifs at hcandidate
      · cases hcandidate
        simp
      · cases hcandidate
        exact hurl (Url.parse_error hparse)
    · cases hcandidate
  unfold resolveRedirectLocation at h
  cases hscheme : schemeEnd location with
  | some explicitScheme =>
    simp only [hscheme] at h
    split_ifs at h
    · cases h
      simp
    · cases h
      simp
    · exact hvalidate h
  | none =>
    simp only [hscheme] at h
    split_ifs at h
    · cases h
      simp
    all_goals exact hvalidate h

end CppRequest
