import CppRequest.Message

/-!
# Headers over whole histories

A history of `add` and `set` determines the fields of every name: the last `set` on the name in any
letter case, and the `add`s behind it.
-/

namespace CppRequest

inductive HeaderOperation
  | add (name value : Bytes)
  | set (name value : Bytes)

namespace HeaderOperation

def field : HeaderOperation → Field
  | .add name value | .set name value => ⟨name, value⟩

/-- The operation is on this name, in some letter case. -/
def concerns (operation : HeaderOperation) (name : Bytes) : Bool :=
  asciiIequals operation.field.name name

def isSet : HeaderOperation → Bool
  | .add .. => false
  | .set .. => true

/-- The fields that are added on a name, in order. -/
def adds (name : Bytes) (operations : List HeaderOperation) : List Field :=
  (operations.filter fun operation => operation.concerns name && !operation.isSet).map field

end HeaderOperation

open HeaderOperation

namespace Headers

def operate (h : Headers) : HeaderOperation → Headers
  | .add name value => h.add name value
  | .set name value => h.set name value

def ofHistory (operations : List HeaderOperation) : Headers := operations.foldl operate {}

/-- The fields of a name, in iteration order. -/
def matching (h : Headers) (name : Bytes) : List Field :=
  h.fields.filter fun field => asciiIequals field.name name

/-! ## One operation -/

variable {h : Headers} {name value : Bytes}

/-- Where the field of a `set` goes. -/
theorem set_cases (h : Headers) (name value : Bytes) :
    (h.matching name = [] ∧ (h.set name value).fields = h.fields ++ [⟨name, value⟩]) ∨
    ∃ front first back, h.fields = front ++ first :: back ∧
      (∀ field ∈ front, asciiIequals field.name name = false) ∧
      asciiIequals first.name name = true ∧
      (h.set name value).fields = front ++ ⟨name, value⟩ ::
        back.filter fun field => !asciiIequals field.name name := by
  unfold set
  cases hfirst : h.fields.findIdx? fun field => asciiIequals field.name name with
  | none =>
    have hnone := List.findIdx?_eq_none_iff.mp hfirst
    refine .inl ⟨List.filter_eq_nil_iff.mpr fun field hfield => ?_, rfl⟩
    rw [hnone field hfield]
    exact Bool.false_ne_true
  | some first =>
    obtain ⟨hlt, hmatch, hbefore⟩ := List.findIdx?_eq_some_iff_getElem.mp hfirst
    refine .inr ⟨h.fields.take first, h.fields[first], h.fields.drop (first + 1), ?_,
      fun field hfield => ?_, hmatch, rfl⟩
    · rw [← List.drop_eq_getElem_cons hlt, List.take_append_drop]
    · obtain ⟨i, hi, rfl⟩ := List.getElem_of_mem hfield
      rw [List.length_take] at hi
      rw [List.getElem_take, ← Bool.not_eq_true]
      exact hbefore i (Nat.lt_of_lt_of_le hi (Nat.min_le_left _ _))

/-- Fields of other names stay as they are. -/
theorem set_others (h : Headers) (name value : Bytes) {p : Field → Bool}
    (hp : ∀ field, asciiIequals field.name name = true → p field = false) :
    (h.set name value).fields.filter p = h.fields.filter p := by
  have hnew : p ⟨name, value⟩ = false := hp _ (asciiIequals_refl name)
  rcases set_cases h name value with ⟨-, hset⟩ | ⟨front, first, back, hfields, -, hfirst, hset⟩
  · rw [hset, List.filter_append, List.filter_cons_of_neg (by rw [hnew]; exact Bool.false_ne_true),
      List.filter_nil, List.append_nil]
  · have hback : (back.filter fun field => !asciiIequals field.name name).filter p =
        back.filter p := by
      rw [List.filter_filter]
      refine List.filter_congr fun field _ => ?_
      cases hmatch : asciiIequals field.name name with
      | false => exact Bool.and_true _
      | true => rw [hp field hmatch, Bool.false_and]
    rw [hset, hfields, List.filter_append, List.filter_append,
      List.filter_cons_of_neg (by rw [hnew]; exact Bool.false_ne_true),
      List.filter_cons_of_neg (by rw [hp first hfirst]; exact Bool.false_ne_true), hback]

/-- A `set` leaves one field of its name. -/
theorem matching_set {name' : Bytes} (hname : asciiIequals name name' = true) :
    (h.set name value).matching name' = [⟨name, value⟩] := by
  have hsame : ∀ field : Field, asciiIequals field.name name' = asciiIequals field.name name := by
    intro field
    rw [Bool.eq_iff_iff]
    constructor
    · intro hfield
      rw [asciiIequals_comm] at hname
      exact asciiIequals_trans hfield hname
    · exact fun hfield => asciiIequals_trans hfield hname
  have hmatching : ∀ h' : Headers, h'.matching name' = h'.matching name := fun h' =>
    List.filter_congr fun field _ => hsame field
  rw [hmatching]
  rcases set_cases h name value with ⟨hnone, hset⟩ | ⟨front, first, back, -, hfront, -, hset⟩
  · unfold matching at hnone ⊢
    rw [hset, List.filter_append, hnone, List.nil_append]
    exact List.filter_cons_of_pos (asciiIequals_refl name)
  · have hback : (back.filter fun field => !asciiIequals field.name name).filter
        (fun field => asciiIequals field.name name) = [] := by
      rw [List.filter_filter, List.filter_eq_nil_iff]
      intro field _
      cases asciiIequals field.name name <;> simp
    unfold matching
    rw [hset, List.filter_append, List.filter_eq_nil_iff.mpr fun field hfield => by
      rw [hfront field hfield]; exact Bool.false_ne_true]
    rw [List.nil_append, List.filter_cons_of_pos (by exact asciiIequals_refl name), hback]

/-- What an operation makes of the fields of a name. -/
theorem matching_operate (operation : HeaderOperation) (name : Bytes) :
    (h.operate operation).matching name =
      if operation.concerns name then
        if operation.isSet then [operation.field] else h.matching name ++ [operation.field]
      else h.matching name := by
  unfold concerns
  cases operation with
  | add name' value =>
    have hmatching : (h.add name' value).matching name = h.matching name ++
        [(⟨name', value⟩ : Field)].filter fun field => asciiIequals field.name name :=
      List.filter_append _ _
    show (h.add name' value).matching name = if asciiIequals name' name = true then _ else _
    rw [hmatching, List.filter_singleton]
    cases asciiIequals name' name with
    | true => rfl
    | false => exact List.append_nil _
  | set name' value =>
    show (h.set name' value).matching name = if asciiIequals name' name = true then _ else _
    by_cases hname : asciiIequals name' name = true
    · rw [if_pos hname]
      exact matching_set hname
    · rw [if_neg hname]
      refine set_others h name' value fun field hfield => ?_
      rw [← Bool.not_eq_true]
      intro hboth
      rw [asciiIequals_comm] at hfield
      exact hname (asciiIequals_trans hfield hboth)

/-! ## Whole histories -/

/-- Without a `set` on a name its fields are added behind the ones there are. -/
theorem matching_foldl {operations : List HeaderOperation}
    (hnone : ∀ operation ∈ operations, operation.concerns name = true → operation.isSet = false)
    (h : Headers) :
    (operations.foldl operate h).matching name = h.matching name ++ adds name operations := by
  induction operations generalizing h with
  | nil => exact (List.append_nil _).symm
  | cons operation operations ih =>
    have hhead := hnone operation List.mem_cons_self
    rw [List.foldl_cons, ih fun operation hmem => hnone operation (List.mem_cons_of_mem _ hmem),
      matching_operate]
    unfold adds
    cases hconcerns : operation.concerns name with
    | false =>
      rw [if_neg Bool.false_ne_true, List.filter_cons_of_neg (by simp [hconcerns])]
    | true =>
      rw [if_pos rfl, hhead hconcerns, if_neg Bool.false_ne_true,
        List.filter_cons_of_pos (by simp [hconcerns, hhead hconcerns]), List.map_cons,
        List.append_assoc, List.singleton_append]

/-- The fields of every name after a history, and what the queries say of them. -/
structure IsMultimap (operations : List HeaderOperation) (h : Headers) : Prop where
  lastSet : ∀ name before name' value after, operations = before ++ .set name' value :: after →
    asciiIequals name' name = true →
    (∀ operation ∈ after, operation.concerns name = true → operation.isSet = false) →
    h.matching name = ⟨name', value⟩ :: adds name after
  noSet : ∀ name,
    (∀ operation ∈ operations, operation.concerns name = true → operation.isSet = false) →
    h.matching name = adds name operations
  contains : ∀ name, h.contains name = true ↔ h.matching name ≠ []
  get : ∀ name, h.get name = (h.matching name).head?.elim [] Field.value

/-- What one operation does to the fields that are there. -/
structure KeepsOthers (h : Headers) : Prop where
  others : ∀ operation name, operation.concerns name = false →
    (h.operate operation).matching name = h.matching name
  append : ∀ name value, h.matching name = [] →
    (h.set name value).fields = h.fields ++ [⟨name, value⟩]
  position : ∀ name value front first back, h.fields = front ++ first :: back →
    (∀ field ∈ front, asciiIequals field.name name = false) →
    asciiIequals first.name name = true →
    (h.set name value).fields = front ++ ⟨name, value⟩ ::
      back.filter fun field => !asciiIequals field.name name
  order : ∀ name value,
    (h.set name value).fields.filter (fun field => !asciiIequals field.name name) =
      h.fields.filter fun field => !asciiIequals field.name name

theorem contains_iff (h : Headers) (name : Bytes) : h.contains name = true ↔ h.matching name ≠ [] := by
  unfold contains matching
  rw [List.any_eq_true, ne_eq, List.filter_eq_nil_iff, not_forall]
  simp

theorem get_eq (h : Headers) (name : Bytes) :
    h.get name = (h.matching name).head?.elim [] Field.value := by
  unfold get matching
  rw [List.head?_filter]
  cases h.fields.find? fun field => asciiIequals field.name name <;> rfl

theorem keepsOthers (h : Headers) : KeepsOthers h where
  others operation name hother := by
    rw [matching_operate, hother, if_neg Bool.false_ne_true]
  append name value hnone := by
    rcases set_cases h name value with ⟨-, hset⟩ | ⟨front, first, back, hfields, -, hfirst, -⟩
    · exact hset
    · have hmem : first ∈ h.matching name := by
        apply List.mem_filter.mpr
        rw [hfields]
        exact ⟨List.mem_append_right _ List.mem_cons_self, hfirst⟩
      rw [hnone] at hmem
      cases hmem
  position name value front first back hfields hfront hfirst := by
    have hindex : h.fields.findIdx? (fun field => asciiIequals field.name name) =
        some front.length := by
      rw [hfields, List.findIdx?_append, List.findIdx?_eq_none_iff.mpr hfront, List.findIdx?_cons,
        hfirst]
      simp
    have htake : h.fields.take front.length = front := by
      rw [hfields, List.take_left]
    have hdrop : h.fields.drop (front.length + 1) = back := by
      rw [hfields, ← List.singleton_append, ← List.append_assoc]
      exact List.drop_left' (by simp)
    unfold set
    rw [hindex]
    simp only [htake, hdrop]
  order name value := by
    refine set_others h name value fun field hfield => ?_
    rw [hfield]
    rfl

/-- `Headers` is an ordered multimap whose names do not distinguish letter case. -/
theorem headers_multimap (operations : List HeaderOperation) :
    IsMultimap operations (ofHistory operations) ∧ ∀ h : Headers, KeepsOthers h := by
  refine ⟨⟨?_, fun name hnone => ?_, contains_iff _, get_eq _⟩, keepsOthers⟩
  · rintro name before name' value after rfl hname hnone
    have hset : ((ofHistory before).operate (.set name' value)).matching name =
        [⟨name', value⟩] := matching_set hname
    unfold ofHistory at hset ⊢
    rw [List.foldl_append, List.foldl_cons, matching_foldl hnone, hset]
    rfl
  · exact matching_foldl hnone {}

end Headers

end CppRequest
