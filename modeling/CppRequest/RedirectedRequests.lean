import CppRequest.RedirectChains

/-!
# The requests of a chain

What of the caller's request is sent again behind a redirect, and that it can be sent.
-/

namespace CppRequest

variable {inetPton6 : Bytes → Bool}

/-! ## One hop -/

theorem redirectedHeaders_fields (source : Headers) (crossOrigin dropBody : Bool) :
    (redirectedHeaders source crossOrigin dropBody).fields = source.fields.filter fun field =>
      !(crossOrigin && isCrossOriginSensitiveHeader field.name) &&
        !(dropBody && isEntityHeaderRemovedWithBody field.name) := by
  have hgeneral : ∀ (fields : List Field) (result : Headers),
      (fields.foldl (fun result field =>
        if crossOrigin && isCrossOriginSensitiveHeader field.name then result
        else if dropBody && isEntityHeaderRemovedWithBody field.name then result
        else result.add field.name field.value) result).fields =
      result.fields ++ fields.filter fun field =>
        !(crossOrigin && isCrossOriginSensitiveHeader field.name) &&
          !(dropBody && isEntityHeaderRemovedWithBody field.name) := by
    intro fields
    induction fields with
    | nil => exact fun result => (List.append_nil _).symm
    | cons field fields ih =>
      intro result
      rw [List.foldl_cons, ih, List.filter_cons]
      by_cases hcross : (crossOrigin && isCrossOriginSensitiveHeader field.name) = true
      · simp [hcross]
      · by_cases hdrop : (dropBody && isEntityHeaderRemovedWithBody field.name) = true
        · simp [hcross, hdrop]
        · simp [hcross, hdrop, List.append_assoc]
  exact (hgeneral source.fields {}).trans (List.nil_append _)

/-- The target of the hop has another port than the URL it was redirected from, or another host. -/
def CrossesOrigin (inetPton6 : Bytes → Bool) (x y : Exchange) : Prop :=
  ∃ base next, Url.parse inetPton6 (effectiveRequestUrl x.1) = .ok base ∧
    Url.parse inetPton6 y.1.url = .ok next ∧
    ¬ (base.port = next.port ∧ asciiIequals base.host next.host = true)

/-- The hop does not preserve the body. -/
def DropsBody (x : Exchange) : Prop :=
  ∃ response, x.2 = .ok response ∧
    (redirectBehavior response.statusCode x.1.method).preserveBody = false

/-- What of the caller's request is still there. -/
structure Carries (request : Request) (crossed dropped : Bool) (q : Request) : Prop where
  fields : q.headers.fields = request.headers.fields.filter fun field =>
    !(crossed && isCrossOriginSensitiveHeader field.name) &&
      !(dropped && isEntityHeaderRemovedWithBody field.name)
  body : q.body = if dropped then [] else request.body
  replaced : dropped = true → q.method = .get ∨ q.method = .head
  kept : dropped = false → q.method = request.method

theorem Carries.refl (request : Request) : Carries request false false request :=
  ⟨by simp, rfl, nofun, fun _ => rfl⟩

theorem redirectBehavior_dropped {statusCode : ℕ} {method : Method}
    (h : (redirectBehavior statusCode method).preserveBody = false) :
    (redirectBehavior statusCode method).method = .get ∨
      (redirectBehavior statusCode method).method = .head := by
  unfold redirectBehavior at h ⊢
  split_ifs at h ⊢
  · exact .inr rfl
  · exact .inl rfl
  · exact .inl rfl

theorem redirectBehavior_preserved {statusCode : ℕ} {method : Method}
    (h : (redirectBehavior statusCode method).preserveBody = true) :
    (redirectBehavior statusCode method).method = method := by
  unfold redirectBehavior at h ⊢
  split_ifs at h ⊢
  rfl

/-- A method without a body stays one. -/
theorem redirectBehavior_bodiless {statusCode : ℕ} {method : Method}
    (h : method = .get ∨ method = .head) :
    (redirectBehavior statusCode method).method = .get ∨
      (redirectBehavior statusCode method).method = .head := by
  cases hpreserve : (redirectBehavior statusCode method).preserveBody with
  | false => exact redirectBehavior_dropped hpreserve
  | true =>
    rw [redirectBehavior_preserved hpreserve]
    exact h

/-- What one hop takes away. -/
theorem Hop.carries {request : Request} {crossed dropped : Bool} {x y : Exchange}
    (h : Hop inetPton6 x y.1) (hx : Carries request crossed dropped x.1) :
    ∃ crosses drops : Bool, (crosses = true ↔ CrossesOrigin inetPton6 x y) ∧
      (drops = true ↔ DropsBody x) ∧ Carries request (crossed || crosses) (dropped || drops) y.1 := by
  cases h with
  | @mk response target hok hredirect htarget hnext =>
  rcases redirectTarget_ok htarget with ⟨location, -, hbase, hresolve, hparsed⟩
  refine ⟨!sameOrigin target.base target.nextParsed,
    !(redirectBehavior response.statusCode x.1.method).preserveBody, ?_, ?_, ?_⟩
  · have hurl : y.1.url = target.nextUrl := congrArg Request.url hnext
    rw [Bool.not_eq_true', Bool.eq_false_iff, sameOrigin]
    constructor
    · intro hcross
      refine ⟨target.base, target.nextParsed, hbase, hurl ▸ hparsed, fun hsame => hcross ?_⟩
      simp [hsame]
    · rintro ⟨base, next, hbase', hnext', hne⟩ hsame
      rw [hurl] at hnext'
      cases hbase.symm.trans hbase'
      cases hparsed.symm.trans hnext'
      exact hne (by simpa using hsame)
  · rw [Bool.not_eq_true']
    constructor
    · exact fun hdrop => ⟨response, hok, hdrop⟩
    · rintro ⟨response', hok', hdrop⟩
      cases hok.symm.trans hok'
      exact hdrop
  · rw [hnext]
    constructor
    · show (redirectedHeaders _ _ _).fields = _
      rw [redirectedHeaders_fields]
      show List.filter _ x.1.headers.fields = _
      rw [hx.fields, List.filter_filter]
      refine List.filter_congr fun field _ => ?_
      cases crossed <;> cases dropped <;> cases isCrossOriginSensitiveHeader field.name <;>
        cases isEntityHeaderRemovedWithBody field.name <;> simp [CurrentRequest.ofRequest]
    · show (if (redirectBehavior response.statusCode x.1.method).preserveBody then x.1.body
        else []) = _
      rw [hx.body]
      cases dropped <;> cases (redirectBehavior response.statusCode x.1.method).preserveBody <;> rfl
    · intro hdropped
      show (redirectBehavior response.statusCode x.1.method).method = .get ∨
        (redirectBehavior response.statusCode x.1.method).method = .head
      rw [Bool.or_eq_true, Bool.not_eq_true'] at hdropped
      rcases hdropped with hdropped | hdrop
      · exact redirectBehavior_bodiless (hx.replaced hdropped)
      · exact redirectBehavior_dropped hdrop
    · intro hkept
      show (redirectBehavior response.statusCode x.1.method).method = request.method
      rw [Bool.or_eq_false_iff, Bool.not_eq_false'] at hkept
      rw [redirectBehavior_preserved hkept.2]
      exact hx.kept hkept.1

/-! ## Chains -/

/-- Two exchanges of the path, one right behind the other, are related so. -/
def SomeHop (P : Exchange → Exchange → Prop) (path : List Exchange) : Prop :=
  ∃ before x y after, path = before ++ x :: y :: after ∧ P x y

theorem not_someHop_single {P : Exchange → Exchange → Prop} (x : Exchange) : ¬ SomeHop P [x] := by
  rintro ⟨before, y, z, after, hpath, -⟩
  have hlength := congrArg List.length hpath
  simp only [List.length_append, List.length_cons, List.length_nil] at hlength
  omega

theorem someHop_concat {P : Exchange → Exchange → Prop} {path : List Exchange} {x y : Exchange} :
    SomeHop P (path ++ [x] ++ [y]) ↔ SomeHop P (path ++ [x]) ∨ P x y := by
  constructor
  · rintro ⟨before, x', y', after, hpath, hP⟩
    rcases List.eq_nil_or_concat after with rfl | ⟨front, z, rfl⟩
    · have hboth : path ++ [x] ++ [y] = before ++ [x'] ++ [y'] := by
        rw [hpath, List.append_assoc]
        rfl
      rcases List.append_inj' hboth rfl with ⟨hpath', hy⟩
      rcases List.append_inj' hpath' rfl with ⟨-, hx⟩
      cases hx
      cases hy
      exact .inr hP
    · have hboth : path ++ [x] ++ [y] = before ++ x' :: y' :: front ++ [z] := by
        rw [hpath, List.append_assoc]
        simp
      exact .inl ⟨before, x', y', front, (List.append_inj' hboth rfl).1, hP⟩
  · rintro (⟨before, x', y', after, hpath, hP⟩ | hP)
    · exact ⟨before, x', y', after ++ [y], by rw [hpath, List.append_assoc]; rfl, hP⟩
    · exact ⟨path, x, y, [], by rw [List.append_assoc]; rfl, hP⟩

/-- What of the caller's request is sent again, at every place of a chain. -/
theorem Chain.carries {maxRedirects followed : ℕ} {x : Exchange} {log : List Exchange}
    {r : Result Response} (h : Chain inetPton6 maxRedirects followed x log r)
    {before after : List Exchange} {y : Exchange} (hlog : x :: log = before ++ y :: after) :
    ∃ crossed dropped : Bool,
      (crossed = true ↔ SomeHop (CrossesOrigin inetPton6) (before ++ [y])) ∧
      (dropped = true ↔ SomeHop (fun x _ => DropsBody x) (before ++ [y])) ∧
      Carries x.1 crossed dropped y.1 := by
  induction before using List.reverseRecOn generalizing y after with
  | nil =>
    cases hlog
    refine ⟨false, false, ?_, ?_, .refl _⟩
    · simpa using not_someHop_single x
    · simpa using not_someHop_single x
  | append_singleton before z ih =>
    have hlog' : x :: log = before ++ z :: y :: after := by
      rw [hlog, List.append_assoc]
      rfl
    rcases ih hlog' with ⟨crossed, dropped, hcrossed, hdropped, hz⟩
    rcases (h.redirected hlog').carries hz with ⟨crosses, drops, hcrosses, hdrops, hy⟩
    refine ⟨crossed || crosses, dropped || drops, ?_, ?_, hy⟩
    · rw [Bool.or_eq_true, hcrossed, hcrosses, someHop_concat]
    · rw [Bool.or_eq_true, hdropped, hdrops, someHop_concat]

/-- A field that is gone stays away. -/
theorem Hop.sublist {x : Exchange} {q : Request} (h : Hop inetPton6 x q) :
    q.headers.fields.Sublist x.1.headers.fields := by
  cases h with
  | mk hok hredirect htarget hnext =>
  rw [hnext]
  show (redirectedHeaders _ _ _).fields.Sublist _
  rw [redirectedHeaders_fields]
  exact List.filter_sublist

theorem Chain.sublist {maxRedirects followed : ℕ} {x y z : Exchange}
    {log before between after : List Exchange} {r : Result Response}
    (h : Chain inetPton6 maxRedirects followed x log r)
    (hlog : x :: log = before ++ y :: (between ++ z :: after)) :
    z.1.headers.fields.Sublist y.1.headers.fields := by
  induction between generalizing before y with
  | nil => exact (h.redirected hlog).sublist
  | cons w between ih =>
    have hfirst := (h.redirected hlog).sublist
    have hlog' : x :: log = before ++ [y] ++ w :: (between ++ z :: after) := by
      rw [hlog, List.append_assoc]
      rfl
    exact (ih hlog').trans hfirst

/-- What the requests of a run carry: the caller's fields without those that a hop has removed, the
caller's body and method until a hop drops the body. -/
structure Stripped (inetPton6 : Bytes → Bool) (request : Request) (log : List Exchange) : Prop where
  carries : ∀ before y after, log = before ++ y :: after → before ≠ [] →
    ∃ crossed dropped : Bool,
      (crossed = true ↔ SomeHop (CrossesOrigin inetPton6) (before ++ [y])) ∧
      (dropped = true ↔ SomeHop (fun x _ => DropsBody x) (before ++ [y])) ∧
      Carries request crossed dropped y.1
  sublist : ∀ before y between z after, log = before ++ y :: (between ++ z :: after) →
    z.1.headers.fields.Sublist y.1.headers.fields

theorem stripped_of_transcript {settings : ClientSettings} {request : Request}
    {log : List Exchange} {r : Result Response}
    (h : (settings.request inetPton6 request).Transcript log r) :
    Stripped inetPton6 request log := by
  rcases chain_of_request h with ⟨answer, rest, rfl, hone, hchain⟩
  cases hfollow : settings.followRedirects with
  | true =>
    constructor
    · exact fun before y after hlog _ => (hchain hfollow).carries hlog
    · exact fun before y between z after hlog => (hchain hfollow).sublist hlog
  | false =>
    rw [(hone hfollow).1]
    constructor
    · intro before y after hlog hne
      rcases List.exists_cons_of_ne_nil hne with ⟨x, front, rfl⟩
      exact absurd (congrArg List.length hlog) (by simp)
    · intro before y between z after hlog
      have hlength := congrArg List.length hlog
      simp only [List.length_append, List.length_cons, List.length_nil] at hlength
      omega

/-- Fields with credentials and bodies are stripped, against every server. -/
theorem credentials_stripped (inetPton6 : Bytes → Bool) (settings : ClientSettings)
    (request : Request) (server : List Exchange → Request → Result Response) :
    Stripped inetPton6 request ((settings.request inetPton6 request).run server []).1 :=
  stripped_of_transcript (Dialogue.transcript_run server [] _)

end CppRequest
