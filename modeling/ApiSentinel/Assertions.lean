import ApiSentinel.Dereference
import ApiSentinel.Responses

/-!
# Types in JSON assertions

The suite reference promises that types are compared strictly.  The code compares the
types of the two roots and then uses `==`, for which a boolean is a number and an integer
can equal a float.
-/

namespace ApiSentinel

namespace Json

mutual

/-- Equality with the same constructor at every node. -/
def strictlyEquals : Json → Json → Bool
  | .null, .null => true
  | .bool value, .bool other => value == other
  | .int value, .int other => value == other
  | .float value, .float other => value == other
  | .infinity sign, .infinity other => sign == other
  | .str value, .str other => value == other
  | .arr items, .arr others => strictlyEqualsItems items others
  | .obj members, .obj others =>
      members.length == others.length && strictlyEqualsMembers members others
  | _, _ => false

def strictlyEqualsItems : List Json → List Json → Bool
  | [], [] => true
  | value :: items, other :: others =>
      strictlyEquals value other && strictlyEqualsItems items others
  | _, _ => false

def strictlyEqualsMembers : List (String × Json) → List (String × Json) → Bool
  | [], _ => true
  | (key, value) :: members, others =>
      (match others.lookup key with
        | some other => strictlyEquals value other
        | none => false) && strictlyEqualsMembers members others

end

/-- Two values have numbers of different types at the same place. -/
inductive Conflates : Json → Json → Prop
  | here {value other} (number : value.number?.isSome) (same : other.number?.isSome)
      (types : value.typeName ≠ other.typeName) : Conflates value other
  | item {values others : List Json} {position : Nat} {value other}
      (left : values[position]? = some value) (right : others[position]? = some other)
      (inside : Conflates value other) : Conflates (.arr values) (.arr others)
  | member {members others : List (String × Json)} {key value other}
      (left : (key, value) ∈ members) (right : others.lookup key = some other)
      (inside : Conflates value other) : Conflates (.obj members) (.obj others)

theorem conflates_scalar_iff {value other : Json} (scalar : value.hashable = true) :
    Conflates value other ↔
      value.number?.isSome ∧ other.number?.isSome ∧ value.typeName ≠ other.typeName := by
  constructor
  · intro conflates
    cases conflates with
    | here number same types => exact ⟨number, same, types⟩
    | item => cases scalar
    | member => cases scalar
  · rintro ⟨number, same, types⟩
    exact .here number same types

theorem conflates_cons_iff {value other : Json} {values others : List Json} :
    Conflates (.arr (value :: values)) (.arr (other :: others)) ↔
      Conflates value other ∨ Conflates (.arr values) (.arr others) := by
  constructor
  · intro conflates
    cases conflates with
    | here number => cases number
    | @item _ _ position _ _ left right inside =>
        cases position with
        | zero =>
            cases left
            cases right
            exact .inl inside
        | succ position => exact .inr (.item left right inside)
  · rintro (first | later)
    · exact @Conflates.item _ _ 0 _ _ rfl rfl first
    · cases later with
      | here number => cases number
      | @item _ _ position _ _ left right inside =>
          exact @Conflates.item _ _ (position + 1) _ _ left right inside

theorem conflates_members_iff {key : String} {value : Json}
    {members others : List (String × Json)} :
    Conflates (.obj ((key, value) :: members)) (.obj others) ↔
      (∃ other, others.lookup key = some other ∧ Conflates value other) ∨
        Conflates (.obj members) (.obj others) := by
  constructor
  · intro conflates
    cases conflates with
    | here number => cases number
    | member left right inside =>
        rcases List.mem_cons.mp left with same | later
        · cases same
          exact .inl ⟨_, right, inside⟩
        · exact .inr (.member later right inside)
  · rintro (⟨other, right, inside⟩ | later)
    · exact .member List.mem_cons_self right inside
    · cases later with
      | here number => cases number
      | member left right inside => exact .member (List.mem_cons_of_mem _ left) right inside

theorem bool_eq_of_number {first second : Bool}
    (same : (if first = true then (1 : Rat) else 0) = if second = true then 1 else 0) :
    first = second := by
  cases first <;> cases second <;> simp_all

theorem strictlyEquals_scalar_iff {value other : Json} (scalar : value.hashable = true)
    (same : value.equals other = true) :
    value.strictlyEquals other = true ↔ ¬ Conflates value other := by
  rw [conflates_scalar_iff scalar]
  cases value <;> cases other <;>
    simp_all [equals, strictlyEquals, number?, typeName, hashable]
  exact bool_eq_of_number same

mutual

/-- Equal values are strictly equal unless numbers of different types are equal inside. -/
theorem strictlyEquals_iff : ∀ value other : Json, value.equals other = true →
    (value.strictlyEquals other = true ↔ ¬ Conflates value other)
  | .arr values, .arr others, same => strictlyEqualsItems_iff values others same
  | .obj members, .obj others, same => by
      rw [equals, Bool.and_eq_true] at same
      rw [strictlyEquals, same.1, Bool.true_and]
      exact strictlyEqualsMembers_iff members others same.2
  | .arr _, .null, same | .arr _, .bool _, same | .arr _, .int _, same | .arr _, .float _, same
  | .arr _, .nan, same | .arr _, .infinity _, same | .arr _, .str _, same
  | .arr _, .obj _, same | .obj _, .null, same | .obj _, .bool _, same | .obj _, .int _, same
  | .obj _, .float _, same | .obj _, .nan, same | .obj _, .infinity _, same
  | .obj _, .str _, same | .obj _, .arr _, same => by cases same
  | .null, _, same | .bool _, _, same | .int _, _, same | .float _, _, same | .nan, _, same
  | .infinity _, _, same | .str _, _, same => strictlyEquals_scalar_iff rfl same

theorem strictlyEqualsItems_iff : ∀ values others : List Json,
    equalsItems values others = true →
      (strictlyEqualsItems values others = true ↔ ¬ Conflates (.arr values) (.arr others))
  | [], [], _ => by
      refine ⟨fun _ conflates => ?_, fun _ => rfl⟩
      cases conflates with
      | here number => cases number
      | item left => cases left
  | value :: values, other :: others, same => by
      rw [equalsItems, Bool.and_eq_true] at same
      rw [strictlyEqualsItems, Bool.and_eq_true, conflates_cons_iff, not_or,
        strictlyEquals_iff value other same.1, strictlyEqualsItems_iff values others same.2]
  | [], _ :: _, same => by cases same
  | _ :: _, [], same => by cases same

theorem strictlyEqualsMembers_iff : ∀ members others : List (String × Json),
    equalsMembers members others = true →
      (strictlyEqualsMembers members others = true ↔
        ¬ Conflates (.obj members) (.obj others))
  | [], _, _ => by
      refine ⟨fun _ conflates => ?_, fun _ => rfl⟩
      cases conflates with
      | here number => cases number
      | member left => cases left
  | (key, value) :: members, others, same => by
      rw [equalsMembers, Bool.and_eq_true] at same
      rw [strictlyEqualsMembers, Bool.and_eq_true, conflates_members_iff, not_or,
        strictlyEqualsMembers_iff members others same.2]
      cases located : others.lookup key with
      | none => simp [located] at same
      | some other =>
          simp only [located] at same
          simp [strictlyEquals_iff value other same.1]

end

mutual

theorem equals_of_strictlyEquals : ∀ value other : Json, value.strictlyEquals other = true →
    value.equals other = true
  | .arr values, .arr others, strict => equalsItems_of_strictlyEquals values others strict
  | .obj members, .obj others, strict => by
      rw [strictlyEquals, Bool.and_eq_true] at strict
      rw [equals, strict.1, Bool.true_and]
      exact equalsMembers_of_strictlyEquals members others strict.2
  | .null, .null, _ => rfl
  | .bool _, .bool _, strict => by simp_all [strictlyEquals, equals, number?]
  | .int _, .int _, strict => by simp_all [strictlyEquals, equals, number?]
  | .float _, .float _, strict => by simp_all [strictlyEquals, equals, number?]
  | .infinity _, .infinity _, strict => strict
  | .str _, .str _, strict => strict

theorem equalsItems_of_strictlyEquals : ∀ values others : List Json,
    strictlyEqualsItems values others = true → equalsItems values others = true
  | [], [], _ => rfl
  | value :: values, other :: others, strict => by
      rw [strictlyEqualsItems, Bool.and_eq_true] at strict
      rw [equalsItems, Bool.and_eq_true]
      exact ⟨equals_of_strictlyEquals value other strict.1,
        equalsItems_of_strictlyEquals values others strict.2⟩

theorem equalsMembers_of_strictlyEquals : ∀ members others : List (String × Json),
    strictlyEqualsMembers members others = true → equalsMembers members others = true
  | [], _, _ => rfl
  | (key, value) :: members, others, strict => by
      rw [strictlyEqualsMembers, Bool.and_eq_true] at strict
      rw [equalsMembers, Bool.and_eq_true]
      refine ⟨?_, equalsMembers_of_strictlyEquals members others strict.2⟩
      cases located : others.lookup key with
      | none => simp [located] at strict
      | some other =>
          simp only [located] at strict
          exact equals_of_strictlyEquals value other strict.1

end

theorem typeName_of_strictlyEquals {value other : Json}
    (strict : value.strictlyEquals other = true) : value.typeName = other.typeName := by
  cases value <;> cases other <;> first | rfl | cases strict

end Json

namespace Contract

variable {contract : Contract} {operation : Operation} {step : Step} {status : Int}
  {headers : Headers} {body : Json} {hasBody isJson : Bool}

/-- The texts that report a failed JSON assertion. -/
def IsAssertionError (message : String) : Prop :=
  message = "JSON assertion: value mismatch" ∨ message = "JSON assertion: pointer not found"

/-- A pointer resolves to a value that strictly equals the expected one. -/
def HoldsStrictly (body : Json) (path : String) (expected : Json) : Prop :=
  ∃ actual, pointer body path = .ok actual ∧ actual.strictlyEquals expected = true

/-- The checks of a response get to its JSON assertions: the status is declared, without
content or with JSON content that was received and parsed. -/
def ReadsBody (contract : Contract) (operation : Operation) (status : Int)
    (hasBody isJson : Bool) : Prop :=
  ∃ definition content, contract.responseDefinition operation.operation status = .ok definition ∧
    definition.get "content" (.obj []) = .ok content ∧
    (content.truthy = true →
      content.contains "application/json" = .ok true ∧ hasBody = true ∧ isJson = true)

/-- Every assertion passes the comparison of the root types and `==`, and one of them
compares numbers of different types below its root. -/
def Conflated (step : Step) (body : Json) : Prop :=
  (∀ path expected, (path, expected) ∈ step.expect.jsonEquals →
    AssertionHolds body path expected) ∧
  ∃ path expected actual, (path, expected) ∈ step.expect.jsonEquals ∧
    pointer body path = .ok actual ∧ actual.Conflates expected

theorem assertionHolds_of_strictly {path : String} {expected : Json}
    (strict : HoldsStrictly body path expected) : AssertionHolds body path expected := by
  obtain ⟨actual, resolved, same⟩ := strict
  exact ⟨actual, resolved, Json.typeName_of_strictlyEquals same,
    Json.equals_of_strictlyEquals actual expected same⟩

/-- Assertions that hold are strict just if they conflate nothing. -/
theorem holdsStrictly_iff {path : String} {expected : Json}
    (holds : AssertionHolds body path expected) :
    HoldsStrictly body path expected ↔
      ¬ ∃ actual, pointer body path = .ok actual ∧ actual.Conflates expected := by
  obtain ⟨actual, resolved, _, same⟩ := holds
  unfold HoldsStrictly
  rw [resolved]
  simp only [Except.ok.injEq, exists_eq_left']
  exact Json.strictlyEquals_iff actual expected same

/-! ### The other messages -/

theorem not_isAssertionError {message : String} (other : message.toList.head? ≠ some 'J') :
    ¬ IsAssertionError message := by
  rintro (rfl | rfl)
  · exact other rfl
  · exact other rfl

theorem head?_append_text {first : Char} {text other : String}
    (starts : text.toList.head? = some first) : (text ++ other).toList.head? = some first := by
  rw [String.toList_append, List.head?_append, starts]
  rfl

theorem not_isAssertionError_of_starts {message : String} {first : Char}
    (starts : message.toList.head? = some first) (other : first ≠ 'J') :
    ¬ IsAssertionError message := by
  apply not_isAssertionError
  rw [starts]
  exact fun same => other (Option.some.inj same)

theorem not_isAssertionError_of_errors {schema value : Json} {label message : String}
    {errors : List String} (starts : label.toList.head? = some 'r')
    (reported : contract.errors schema value label = .ok errors) (member : message ∈ errors) :
    ¬ IsAssertionError message := by
  obtain ⟨keywords, _, told⟩ := except_bind_eq_ok.mp reported
  cases told
  obtain ⟨keyword, _, rfl⟩ := List.mem_map.mp member
  exact not_isAssertionError_of_starts
    (head?_append_text (head?_append_text (head?_append_text starts))) (by decide)

theorem not_isAssertionError_of_status {message : String}
    (member : message ∈ statusErrors step status) : ¬ IsAssertionError message := by
  unfold statusErrors at member
  split at member
  · rw [List.mem_singleton] at member
    subst message
    exact not_isAssertionError_of_starts
      (head?_append_text (head?_append_text (head?_append_text rfl))) (by decide)
  · cases member

theorem not_isAssertionError_of_content {definition : Json} {errors : List String}
    {goesOn : Bool} {message : String}
    (checks : contract.ContentChecks definition body hasBody isJson errors goesOn)
    (member : message ∈ errors) : ¬ IsAssertionError message := by
  cases checks with
  | unsupported | notJson =>
      rw [List.mem_singleton] at member
      subst message
      exact not_isAssertionError (by decide)
  | validated _ _ _ _ _ _ validated => exact not_isAssertionError_of_errors rfl validated member
  | none =>
      split at member
      · rw [List.mem_singleton] at member
        subst message
        exact not_isAssertionError (by decide)
      · cases member

theorem not_isAssertionError_of_headers {declared : List (String × Json)} {errors : List String}
    {message : String} (gathered : gather (contract.headerErrors headers) declared = .ok errors)
    (member : message ∈ errors) : ¬ IsAssertionError message := by
  obtain ⟨⟨name, raw⟩, _, found, checked, inside⟩ := exists_of_mem_gather gathered member
  cases headerErrors_eq_ok_iff.mp checked with
  | absent =>
      split at inside
      · rw [List.mem_singleton] at inside
        subst message
        exact not_isAssertionError (by decide)
      · cases inside
  | free => cases inside
  | validated _ _ _ _ _ validated => exact not_isAssertionError_of_errors rfl validated inside

theorem not_isAssertionError_of_caught {raised : Raised}
    (refused : contract.responseDefinition operation.operation status = .error raised)
    (caught : raised.type = "ContractError") : ¬ IsAssertionError raised.message := by
  have texts := caught_of_responseDefinition refused caught
  simp only [List.mem_cons, List.not_mem_nil, or_false] at texts
  rcases texts with rfl | rfl | rfl | rfl
  · exact not_isAssertionError_of_starts (head?_append_text (head?_append_text rfl)) (by decide)
  · exact not_isAssertionError (by decide)
  · rintro (same | same) <;> simp [pointerStart, contractError] at same
  · exact not_isAssertionError (by decide)

theorem isAssertionError_of_assertionErrors {assertion : String × Json} {message : String}
    (member : message ∈ assertionErrors body assertion) : IsAssertionError message := by
  unfold assertionErrors at member
  split at member
  · split at member
    · exact .inl (List.mem_singleton.mp member)
    · cases member
  · exact .inr (List.mem_singleton.mp member)

/-! ### The assertions of a report -/

theorem readsBody_of_checks {definition : Json} {errors : List String} {goesOn : Bool}
    (defined : contract.responseDefinition operation.operation status = .ok definition)
    (checks : contract.ContentChecks definition body hasBody isJson errors goesOn) :
    contract.ReadsBody operation status hasBody isJson ↔ goesOn = true := by
  unfold ReadsBody
  constructor
  · rintro ⟨other, content, same, given, reads⟩
    cases defined.symm.trans same
    cases checks with
    | unsupported again some lacks =>
        cases given.symm.trans again
        cases lacks.symm.trans (reads some).1
    | notJson again some has missing =>
        cases given.symm.trans again
        exact absurd (reads some).2 missing
    | validated => rfl
    | none => rfl
  · rintro rfl
    cases checks with
    | validated given some has received =>
        exact ⟨definition, _, defined, given, fun _ => ⟨has, received⟩⟩
    | none given empty =>
        exact ⟨definition, _, defined, given, fun some => absurd (some.symm.trans empty) (by simp)⟩

/-- A report has no failed assertion just if the checks do not get to the assertions, or
all of them hold. -/
theorem no_assertionError_iff {errors : List String}
    (reports : contract.Reports operation step status headers body hasBody isJson errors) :
    (∀ message ∈ errors, ¬ IsAssertionError message) ↔
      (contract.ReadsBody operation status hasBody isJson →
        ∀ path expected, (path, expected) ∈ step.expect.jsonEquals →
          AssertionHolds body path expected) := by
  cases reports with
  | @undeclared raised refused caught =>
      constructor
      · rintro _ ⟨definition, content, defined, _⟩
        cases defined.symm.trans refused
      · intro _ message member
        rcases List.mem_append.mp member with early | last
        · exact not_isAssertionError_of_status early
        · rw [List.mem_singleton] at last
          exact last ▸ not_isAssertionError_of_caught refused caught
  | unread defined checks =>
      constructor
      · intro _ reads
        cases (readsBody_of_checks defined checks).mp reads
      · intro _ message member
        rcases List.mem_append.mp member with early | later
        · exact not_isAssertionError_of_status early
        · exact not_isAssertionError_of_content checks later
  | checked defined checks named gathered =>
      have reads := (readsBody_of_checks defined checks).mpr rfl
      constructor
      · intro silent _ path expected member
        rw [← @assertionErrors_eq_nil_iff body (path, expected), List.eq_nil_iff_forall_not_mem]
        intro message reported
        refine silent message (List.mem_append_right _ ?_)
          (isAssertionError_of_assertionErrors reported)
        exact List.mem_flatMap.mpr ⟨_, member, reported⟩
      · intro holds message member
        rcases List.mem_append.mp member with early | reported
        · rcases List.mem_append.mp early with early | header
          · rcases List.mem_append.mp early with first | content
            · exact not_isAssertionError_of_status first
            · exact not_isAssertionError_of_content checks content
          · exact not_isAssertionError_of_headers gathered header
        · obtain ⟨⟨path, expected⟩, among, reported⟩ := List.mem_flatMap.mp reported
          rw [assertionErrors_eq_nil_iff.mpr (holds reads path expected among)] at reported
          cases reported

/-- When the checks get to the assertions, the report agrees with the strict comparison
exactly if the assertions conflate no numbers.  When they do not, nothing is reported of
the assertions, whatever they compare to. -/
theorem strict_assertions_iff (found : contract.operation? step.operation = some operation)
    {errors : List String}
    (reported : contract.responseErrors step status headers body hasBody isJson = .ok errors) :
    ((∀ message ∈ errors, ¬ IsAssertionError message) ↔
        ∀ path expected, (path, expected) ∈ step.expect.jsonEquals →
          HoldsStrictly body path expected) ↔
      (contract.ReadsBody operation status hasBody isJson → ¬ Conflated step body) ∧
        (¬ contract.ReadsBody operation status hasBody isJson →
          ∀ path expected, (path, expected) ∈ step.expect.jsonEquals →
            HoldsStrictly body path expected) := by
  rw [no_assertionError_iff ((responseErrors_eq_ok_iff found).mp reported)]
  by_cases reads : contract.ReadsBody operation status hasBody isJson
  · simp only [reads, true_implies, not_true_eq_false, false_implies, and_true]
    constructor
    · rintro agree ⟨holds, path, expected, actual, member, resolved, conflates⟩
      exact (holdsStrictly_iff (holds path expected member)).mp
        (agree.mp holds path expected member) ⟨actual, resolved, conflates⟩
    · intro free
      constructor
      · intro holds path expected member
        refine (holdsStrictly_iff (holds path expected member)).mpr ?_
        rintro ⟨actual, resolved, conflates⟩
        exact free ⟨holds, path, expected, actual, member, resolved, conflates⟩
      · intro strict path expected member
        exact assertionHolds_of_strictly (strict path expected member)
  · simp only [reads, false_implies, true_iff, not_false_eq_true, true_implies, true_and]

end Contract

namespace Sample

theorem reads : contract.ReadsBody readItem 200 true true :=
  ⟨_, _, rfl, rfl, fun _ => ⟨rfl, rfl, rfl⟩⟩

/-- The assertion of the sample step compares two integers. -/
theorem not_conflated : ¬ Contract.Conflated read (.obj [("id", .int 7)]) := by
  rintro ⟨_, path, expected, actual, member, resolved, conflates⟩
  cases List.mem_singleton.mp member
  cases resolved
  cases conflates with
  | here _ _ types => exact types rfl

/-- A step that expects `[1]` at `/flags`. -/
def flags : Step :=
  { read with expect := { status := 200, jsonEquals := [("/flags", .arr [.int 1])] } }

/-- `{"flags": [true]}` -/
def flagsBody : Json := .obj [("flags", .arr [.bool true])]

end Sample

/-- Nothing is reported of the sample response, and its one assertion holds strictly. -/
theorem Contract.strict_assertions_iff_sample :
    (∀ message ∈ ([] : List String), ¬ Contract.IsAssertionError message) ↔
      ∀ path expected, (path, expected) ∈ Sample.read.expect.jsonEquals →
        Contract.HoldsStrictly (.obj [("id", .int 7)]) path expected :=
  (@Contract.strict_assertions_iff Sample.contract Sample.readItem Sample.read 200
    [("x-count", "3")] (.obj [("id", .int 7)]) true true rfl [] rfl).mpr
    ⟨fun _ => Sample.not_conflated, fun unread => absurd Sample.reads unread⟩

/-- `[true]` passes where `[1]` is expected. -/
theorem Contract.strict_assertions_counterexample :
    Sample.contract.responseErrors Sample.flags 200 [("x-count", "3")] Sample.flagsBody true true =
        .ok [] ∧
      ¬ ((∀ message ∈ ([] : List String), ¬ Contract.IsAssertionError message) ↔
        ∀ path expected, (path, expected) ∈ Sample.flags.expect.jsonEquals →
          Contract.HoldsStrictly Sample.flagsBody path expected) := by
  refine ⟨rfl, ?_⟩
  intro agree
  have silent : ∀ message ∈ ([] : List String), ¬ Contract.IsAssertionError message := by
    intro message member
    cases member
  obtain ⟨actual, resolved, same⟩ := agree.mp silent "/flags" (.arr [.int 1]) List.mem_cons_self
  cases resolved
  cases same

end ApiSentinel
