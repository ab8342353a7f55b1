import ApiSentinel.Contract
import Mathlib.Data.List.Forall2

/-!
# The verdict on a response

What each check of `response_errors` reports, one constructor for each way it can go, and
when nothing is reported at all.
-/

namespace ApiSentinel

theorem gather_cons_eq_ok_iff {Item : Type} {body : Item → Except Raised (List String)}
    {item : Item} {items : List Item} {errors : List String} :
    gather body (item :: items) = .ok errors ↔
      ∃ first others, body item = .ok first ∧ gather body items = .ok others ∧
        errors = first ++ others := by
  rw [gather]
  simp only [except_bind_eq_ok]
  constructor
  · rintro ⟨first, ran, others, rest, same⟩
    exact ⟨first, others, ran, rest, (Except.ok.inj same).symm⟩
  · rintro ⟨first, others, ran, rest, rfl⟩
    exact ⟨first, ran, others, rest, rfl⟩

theorem exists_of_mem_gather {Item : Type} {body : Item → Except Raised (List String)}
    {items : List Item} {errors : List String} (gathered : gather body items = .ok errors)
    {error : String} (member : error ∈ errors) :
    ∃ item ∈ items, ∃ found, body item = .ok found ∧ error ∈ found := by
  induction items generalizing errors with
  | nil =>
      cases gathered
      cases member
  | cons item items ih =>
      obtain ⟨first, others, ran, rest, rfl⟩ := gather_cons_eq_ok_iff.mp gathered
      rcases List.mem_append.mp member with here | later
      · exact ⟨item, List.mem_cons_self, first, ran, here⟩
      · obtain ⟨other, among, found, checked, inside⟩ := ih rest later
        exact ⟨other, List.mem_cons_of_mem _ among, found, checked, inside⟩

theorem gather_eq_nil_iff {Item : Type} {body : Item → Except Raised (List String)}
    {items : List Item} : gather body items = .ok [] ↔ ∀ item ∈ items, body item = .ok [] := by
  induction items with
  | nil => simp [gather]
  | cons item items ih =>
      rw [gather_cons_eq_ok_iff, List.forall_mem_cons, ← ih]
      constructor
      · rintro ⟨first, others, ran, rest, nothing⟩
        obtain ⟨rfl, rfl⟩ := List.append_eq_nil_iff.mp nothing.symm
        exact ⟨ran, rest⟩
      · rintro ⟨ran, rest⟩
        exact ⟨[], [], ran, rest, rfl⟩

/-- Bodies that agree on related items find the same. -/
theorem gather_forall₂ {Item Other : Type} {related : Item → Other → Prop}
    {body : Item → Except Raised (List String)} {twinBody : Other → Except Raised (List String)}
    {items : List Item} {others : List Other} (both : List.Forall₂ related items others)
    (same : ∀ item other, related item other → body item = twinBody other) :
    gather body items = gather twinBody others := by
  induction both with
  | nil => rfl
  | cons alike _ ih => rw [gather, gather, same _ _ alike, ih]

namespace Contract

variable {contract : Contract}

/-- A value is found to have no violation of a schema. -/
def Satisfies (contract : Contract) (schema value : Json) : Prop :=
  contract.library.iterErrors (.obj contract.document) (contract.wrapped schema) value = .ok []

/-- Keeping ten violations keeps none only if there are none. -/
theorem errors_eq_nil_iff {schema value : Json} {label : String} :
    contract.errors schema value label = .ok [] ↔ contract.Satisfies schema value := by
  unfold errors Satisfies
  cases contract.library.iterErrors (.obj contract.document) (contract.wrapped schema) value with
  | error raised => simp [bind, Except.bind]
  | ok keywords => simp [bind, Except.bind, pure, Except.pure]

/-- A value is found to have a violation of a schema. -/
def Violates (contract : Contract) (schema value : Json) : Prop :=
  ∃ keyword keywords, contract.library.iterErrors (.obj contract.document)
    (contract.wrapped schema) value = .ok (keyword :: keywords)

/-- A violation that is found is an error. -/
theorem exists_errors_of_violates {schema value : Json} (violates : contract.Violates schema value)
    (label : String) :
    ∃ errors, contract.errors schema value label = .ok errors ∧ errors ≠ [] := by
  obtain ⟨keyword, keywords, found⟩ := violates
  unfold errors
  rw [found]
  exact ⟨_, rfl, List.cons_ne_nil _ _⟩

/-- The ways through the checks of the body. -/
inductive ContentChecks (contract : Contract) (definition body : Json) (hasBody isJson : Bool) :
    List String → Bool → Prop
  | unsupported {content} (given : definition.get "content" (.obj []) = .ok content)
      (some : content.truthy = true) (lacks : content.contains "application/json" = .ok false) :
      ContentChecks contract definition body hasBody isJson
        ["response media type is outside supported JSON contracts"] false
  | notJson {content} (given : definition.get "content" (.obj []) = .ok content)
      (some : content.truthy = true) (has : content.contains "application/json" = .ok true)
      (missing : ¬ (hasBody = true ∧ isJson = true)) :
      ContentChecks contract definition body hasBody isJson
        ["response: expected a JSON body and application/json content type"] false
  | validated {content media schema errors}
      (given : definition.get "content" (.obj []) = .ok content)
      (some : content.truthy = true) (has : content.contains "application/json" = .ok true)
      (received : hasBody = true ∧ isJson = true)
      (found : content.getItem "application/json" = .ok media)
      (declared : media.get "schema" (.obj []) = .ok schema)
      (validated : contract.errors schema body "response body" = .ok errors) :
      ContentChecks contract definition body hasBody isJson errors true
  | none {content} (given : definition.get "content" (.obj []) = .ok content)
      (empty : content.truthy = false) :
      ContentChecks contract definition body hasBody isJson
        (if hasBody then ["response: unexpected body"] else []) true

theorem contentErrors_eq_ok_iff {definition body : Json} {hasBody isJson : Bool}
    {errors : List String} {goesOn : Bool} :
    contract.contentErrors definition body hasBody isJson = .ok (errors, goesOn) ↔
      contract.ContentChecks definition body hasBody isJson errors goesOn := by
  unfold contentErrors
  constructor
  · intro checked
    obtain ⟨content, given, checked⟩ := except_bind_eq_ok.mp checked
    split at checked
    · rename_i some
      obtain ⟨has, contains, checked⟩ := except_bind_eq_ok.mp checked
      cases has with
      | false =>
          cases checked
          exact .unsupported given some contains
      | true =>
          simp only [Bool.not_true, Bool.false_eq_true, if_false] at checked
          split at checked
          · rename_i missing
            cases checked
            refine .notJson given some contains ?_
            rintro ⟨rfl, rfl⟩
            cases missing
          · rename_i received
            obtain ⟨media, found, checked⟩ := except_bind_eq_ok.mp checked
            obtain ⟨schema, declared, checked⟩ := except_bind_eq_ok.mp checked
            obtain ⟨errors, validated, checked⟩ := except_bind_eq_ok.mp checked
            cases checked
            exact .validated given some contains (by simpa using received) found declared validated
    · rename_i empty
      cases checked
      exact .none given (by simpa using empty)
  · intro checks
    cases checks with
    | unsupported given some lacks => simp [given, some, lacks, bind, Except.bind]; rfl
    | notJson given some has missing =>
        have absent : (!hasBody || !isJson) = true := by
          cases hasBody <;> cases isJson <;> simp_all
        simp [given, some, has, absent, bind, Except.bind]
        rfl
    | validated given some has received found declared validated =>
        simp [given, some, has, received, found, declared, validated, bind, Except.bind]; rfl
    | none given empty => simp [given, empty, bind, Except.bind]; rfl

/-- The ways through the check of a declared header. -/
inductive HeaderChecks (contract : Contract) (headers : Headers) (name : String) (raw : Json) :
    List String → Prop
  | absent {header required} (resolved : contract.deref raw = .ok header)
      (unsent : headers.lookup (contract.library.lower name) = none)
      (declared : header.get "required" .null = .ok required) :
      HeaderChecks contract headers name raw
        (if required.truthy then ["response: missing required header"] else [])
  | free {header text} (resolved : contract.deref raw = .ok header)
      (sent : headers.lookup (contract.library.lower name) = some text)
      (untyped : header.contains "schema" = .ok false) :
      HeaderChecks contract headers name raw []
  | validated {header text schema value errors} (resolved : contract.deref raw = .ok header)
      (sent : headers.lookup (contract.library.lower name) = some text)
      (typed : header.contains "schema" = .ok true)
      (declared : header.getItem "schema" = .ok schema)
      (coerced : contract.coerced text schema = .ok value)
      (validated : contract.errors schema value "response header" = .ok errors) :
      HeaderChecks contract headers name raw errors

theorem headerErrors_eq_ok_iff {headers : Headers} {name : String} {raw : Json}
    {errors : List String} :
    contract.headerErrors headers (name, raw) = .ok errors ↔
      contract.HeaderChecks headers name raw errors := by
  unfold headerErrors
  constructor
  · intro checked
    obtain ⟨header, resolved, checked⟩ := except_bind_eq_ok.mp checked
    split at checked
    · rename_i unsent
      obtain ⟨required, declared, checked⟩ := except_bind_eq_ok.mp checked
      cases checked
      exact .absent resolved unsent declared
    · rename_i text sent
      obtain ⟨typed, contains, checked⟩ := except_bind_eq_ok.mp checked
      cases typed with
      | false =>
          cases checked
          exact .free resolved sent contains
      | true =>
          obtain ⟨schema, declared, checked⟩ := except_bind_eq_ok.mp checked
          obtain ⟨value, coerced, validated⟩ := except_bind_eq_ok.mp checked
          exact .validated resolved sent contains declared coerced validated
  · intro checks
    cases checks with
    | absent resolved unsent declared => simp [resolved, unsent, declared, bind, Except.bind]; rfl
    | free resolved sent untyped => simp [resolved, sent, untyped, bind, Except.bind]; rfl
    | validated resolved sent typed declared coerced validated =>
        simp [resolved, sent, typed, declared, coerced, validated, bind, Except.bind]

/-- The ways through `response_errors`. -/
inductive Reports (contract : Contract) (operation : Operation) (step : Step) (status : Int)
    (headers : Headers) (body : Json) (hasBody isJson : Bool) : List String → Prop
  | undeclared {raised}
      (refused : contract.responseDefinition operation.operation status = .error raised)
      (caught : raised.type = "ContractError") :
      Reports contract operation step status headers body hasBody isJson
        (statusErrors step status ++ [raised.message])
  | unread {definition bodyErrors}
      (defined : contract.responseDefinition operation.operation status = .ok definition)
      (checks : contract.ContentChecks definition body hasBody isJson bodyErrors false) :
      Reports contract operation step status headers body hasBody isJson
        (statusErrors step status ++ bodyErrors)
  | checked {definition bodyErrors declared headerErrors}
      (defined : contract.responseDefinition operation.operation status = .ok definition)
      (checks : contract.ContentChecks definition body hasBody isJson bodyErrors true)
      (named : definition.get "headers" (.obj []) = .ok (.obj declared))
      (gathered : gather (contract.headerErrors headers) declared = .ok headerErrors) :
      Reports contract operation step status headers body hasBody isJson
        (statusErrors step status ++ bodyErrors ++ headerErrors ++
          step.expect.jsonEquals.flatMap (assertionErrors body))

variable {operation : Operation} {step : Step} {status : Int} {headers : Headers} {body : Json}
  {hasBody isJson : Bool}

theorem responseErrors_eq_ok_iff (found : contract.operation? step.operation = some operation)
    {errors : List String} :
    contract.responseErrors step status headers body hasBody isJson = .ok errors ↔
      contract.Reports operation step status headers body hasBody isJson errors := by
  unfold responseErrors
  rw [found]
  dsimp only
  constructor
  · intro reported
    cases defined : contract.responseDefinition operation.operation status with
    | error raised =>
        rw [defined] at reported
        dsimp only at reported
        split at reported
        · rename_i caught
          cases reported
          exact .undeclared defined caught
        · cases reported
    | ok definition =>
        rw [defined] at reported
        obtain ⟨⟨bodyErrors, goesOn⟩, content, reported⟩ := except_bind_eq_ok.mp reported
        have checks := contentErrors_eq_ok_iff.mp content
        cases goesOn with
        | false =>
            cases reported
            exact .unread defined checks
        | true =>
            obtain ⟨fields, named, reported⟩ := except_bind_eq_ok.mp reported
            obtain ⟨declared, listed, reported⟩ := except_bind_eq_ok.mp reported
            obtain ⟨headerErrors, gathered, reported⟩ := except_bind_eq_ok.mp reported
            cases reported
            rw [Json.items_eq_ok_iff.mp listed] at named
            exact .checked defined checks named gathered
  · intro reports
    cases reports with
    | undeclared refused caught =>
        rw [refused]
        exact if_pos caught
    | unread defined checks =>
        rw [defined]
        exact except_bind_eq_ok.mpr ⟨_, contentErrors_eq_ok_iff.mpr checks, rfl⟩
    | checked defined checks named gathered =>
        rw [defined]
        refine except_bind_eq_ok.mpr ⟨_, contentErrors_eq_ok_iff.mpr checks, ?_⟩
        refine except_bind_eq_ok.mpr ⟨_, named, except_bind_eq_ok.mpr ⟨_, rfl, ?_⟩⟩
        exact except_bind_eq_ok.mpr ⟨_, gathered, rfl⟩

/-! ### Nothing to report -/

/-- The entry of the responses that a status selects: its own, else that of its range,
else the default. -/
def Selects (responses : List (String × Json)) (status : Int) (raw : Json) : Prop :=
  responses.lookup (toString status) = some raw ∨
    responses.lookup (toString status) = none ∧
      (responses.lookup (toString (status / 100) ++ "XX") = some raw ∨
        responses.lookup (toString (status / 100) ++ "XX") = none ∧
          responses.lookup "default" = some raw)

/-- The content of a definition is empty and there is no body, or it has JSON content and
a JSON body satisfies its schema. -/
def BodyConforms (contract : Contract) (definition : List (String × Json)) (body : Json)
    (hasBody isJson : Bool) : Prop :=
  ∃ content, (definition.lookup "content").getD (.obj []) = .obj content ∧
    (content = [] ∧ hasBody = false ∨
      ∃ media, content.lookup "application/json" = some (.obj media) ∧
        hasBody = true ∧ isJson = true ∧
        contract.Satisfies ((media.lookup "schema").getD (.obj [])) body)

/-- A declared header is present if it is required, and a present one satisfies its
schema, if any, after coercion. -/
def HeaderConforms (contract : Contract) (headers : Headers) (name : String) (raw : Json) :
    Prop :=
  ∃ header, contract.deref raw = .ok (.obj header) ∧
    (headers.lookup (contract.library.lower name) = none →
      ((header.lookup "required").getD .null).truthy = false) ∧
    ∀ text schema, headers.lookup (contract.library.lower name) = some text →
      header.lookup "schema" = some schema →
      ∃ target, contract.deref schema = .ok (.obj target) ∧
        contract.Satisfies schema (contract.coerce text ((target.lookup "type").getD .null))

/-- A pointer resolves to a value of the same type at its root that is `==` to the
expected one. -/
def AssertionHolds (body : Json) (path : String) (expected : Json) : Prop :=
  ∃ actual, pointer body path = .ok actual ∧ actual.typeName = expected.typeName ∧
    actual.equals expected = true

/-- A response that meets the contract and the expectation of the step. -/
structure Conforms (contract : Contract) (operation : Operation) (step : Step) (status : Int)
    (headers : Headers) (body : Json) (hasBody isJson : Bool) : Prop where
  status_eq : status = step.expect.status
  declared : ∃ responses raw definition,
    operation.operation.get "responses" (.obj []) = .ok (.obj responses) ∧
    Selects responses status raw ∧ contract.deref raw = .ok (.obj definition) ∧
    contract.BodyConforms definition body hasBody isJson ∧
    ∃ declared, (definition.lookup "headers").getD (.obj []) = .obj declared ∧
      ∀ name header, (name, header) ∈ declared → contract.HeaderConforms headers name header
  assertions : ∀ path expected, (path, expected) ∈ step.expect.jsonEquals →
    AssertionHolds body path expected

/-- The responses of an operation, their contents and their headers are objects, after
following references where the contract allows them. -/
structure WellFormed (contract : Contract) (operation : Operation) : Prop where
  responses : ∃ responses, operation.operation.get "responses" (.obj []) = .ok (.obj responses) ∧
    ∀ key raw, (key, raw) ∈ responses →
      ∃ definition, contract.deref raw = .ok (.obj definition) ∧
        (∃ content, (definition.lookup "content").getD (.obj []) = .obj content ∧
          ∀ media, content.lookup "application/json" = some media → ∃ fields, media = .obj fields) ∧
        ∃ declared, (definition.lookup "headers").getD (.obj []) = .obj declared ∧
          ∀ name header, (name, header) ∈ declared →
            ∃ fields, contract.deref header = .ok (.obj fields) ∧
              ∀ schema, fields.lookup "schema" = some schema →
                ∃ target, contract.deref schema = .ok (.obj target)

/-- The entry of the responses that `response_definition` picks, `None` if there is none. -/
def selected (responses : List (String × Json)) (status : Int) : Json :=
  (responses.lookup (toString status)).getD
    ((responses.lookup (toString (status / 100) ++ "XX")).getD
      ((responses.lookup "default").getD .null))

theorem selected_eq_of_selects {responses : List (String × Json)} {raw : Json}
    (selects : Selects responses status raw) : selected responses status = raw := by
  unfold selected
  rcases selects with own | ⟨none, range | ⟨lacks, default⟩⟩
  · rw [own]
    rfl
  · rw [none, range]
    rfl
  · rw [none, lacks, default]
    rfl

theorem selects_of_selected_ne_null {responses : List (String × Json)}
    (given : selected responses status ≠ .null) :
    Selects responses status (selected responses status) := by
  unfold Selects
  unfold selected at given ⊢
  cases own : responses.lookup (toString status) with
  | some raw => exact .inl rfl
  | none =>
      rw [own] at given
      refine .inr ⟨rfl, ?_⟩
      cases range : responses.lookup (toString (status / 100) ++ "XX") with
      | some raw => exact .inl rfl
      | none =>
          rw [range] at given
          refine .inr ⟨rfl, ?_⟩
          cases default : responses.lookup "default" with
          | some raw => rfl
          | none =>
              rw [default] at given
              exact absurd rfl given

section Definition

variable {responses : List (String × Json)}

theorem responseDefinition_of_null
    (given : operation.operation.get "responses" (.obj []) = .ok (.obj responses))
    (nothing : selected responses status = .null) :
    contract.responseDefinition operation.operation status =
      .error (undeclaredStatus status) := by
  unfold selected at nothing
  unfold responseDefinition
  rw [given]
  simp only [Json.get, bind, Except.bind, nothing]

theorem responseDefinition_of_ne_null
    (given : operation.operation.get "responses" (.obj []) = .ok (.obj responses))
    (something : selected responses status ≠ .null) :
    contract.responseDefinition operation.operation status =
      contract.deref (selected responses status) := by
  unfold responseDefinition
  rw [given]
  simp only [Json.get, bind, Except.bind]
  rw [← selected]
  split
  · rename_i nothing
    exact absurd nothing something
  · rfl

theorem responseDefinition_eq_ok_iff {definition : Json}
    (given : operation.operation.get "responses" (.obj []) = .ok (.obj responses)) :
    contract.responseDefinition operation.operation status = .ok definition ↔
      ∃ raw, raw ≠ .null ∧ Selects responses status raw ∧ contract.deref raw = .ok definition := by
  constructor
  · intro defined
    have something : selected responses status ≠ .null := by
      intro nothing
      rw [responseDefinition_of_null given nothing] at defined
      cases defined
    rw [responseDefinition_of_ne_null given something] at defined
    exact ⟨_, something, selects_of_selected_ne_null something, defined⟩
  · rintro ⟨raw, something, selects, defined⟩
    have picked := selected_eq_of_selects selects
    rw [← picked] at something defined
    rw [responseDefinition_of_ne_null given something, defined]

end Definition

theorem assertionErrors_eq_nil_iff {assertion : String × Json} :
    assertionErrors body assertion = [] ↔ AssertionHolds body assertion.1 assertion.2 := by
  unfold assertionErrors AssertionHolds
  cases resolved : pointer body assertion.1 with
  | error raised => simp
  | ok actual => simp

theorem contentErrors_of_empty {definition : List (String × Json)}
    (given : (definition.lookup "content").getD (.obj []) = .obj []) :
    contract.contentErrors (.obj definition) body hasBody isJson =
      .ok (if hasBody then ["response: unexpected body"] else [], true) := by
  simp [contentErrors, Json.get, given, Json.truthy, bind, Except.bind, pure, Except.pure]

theorem contentErrors_of_lacking {definition content : List (String × Json)}
    (given : (definition.lookup "content").getD (.obj []) = .obj content) (some : content ≠ [])
    (lacks : content.lookup "application/json" = none) :
    contract.contentErrors (.obj definition) body hasBody isJson =
      .ok (["response media type is outside supported JSON contracts"], false) := by
  simp [contentErrors, Json.get, given, some, lacks, Json.truthy, Json.contains, bind,
    Except.bind, pure, Except.pure]

theorem contentErrors_of_media {definition content media : List (String × Json)}
    (given : (definition.lookup "content").getD (.obj []) = .obj content)
    (found : content.lookup "application/json" = some (.obj media)) :
    contract.contentErrors (.obj definition) body hasBody isJson =
      if hasBody && isJson then do
        pure (← contract.errors ((media.lookup "schema").getD (.obj [])) body "response body",
          true)
      else
        .ok (["response: expected a JSON body and application/json content type"], false) := by
  have some : content ≠ [] := by
    rintro rfl
    cases found
  cases hasBody <;> cases isJson <;>
    simp [contentErrors, Json.get, Json.getItem, given, some, found, Json.truthy, Json.contains,
      bind, Except.bind, pure, Except.pure]

/-- Reading the body goes on without an error just if it conforms. -/
theorem contentErrors_eq_nil_iff {definition content : List (String × Json)}
    (given : (definition.lookup "content").getD (.obj []) = .obj content)
    (objects : ∀ media, content.lookup "application/json" = some media →
      ∃ fields, media = .obj fields) :
    contract.contentErrors (.obj definition) body hasBody isJson = .ok ([], true) ↔
      contract.BodyConforms definition body hasBody isJson := by
  unfold BodyConforms
  simp only [given, Json.obj.injEq, exists_eq_left']
  by_cases empty : content = []
  · subst content
    rw [contentErrors_of_empty given]
    cases hasBody <;> simp
  · cases found : content.lookup "application/json" with
    | none =>
        rw [contentErrors_of_lacking given empty found]
        simp [empty]
    | some value =>
        obtain ⟨media, rfl⟩ := objects value found
        have ends := @errors_eq_nil_iff contract ((media.lookup "schema").getD (.obj [])) body
          "response body"
        rw [contentErrors_of_media given found]
        generalize contract.errors _ body "response body" = checked at ends ⊢
        cases hasBody <;> cases isJson <;> cases checked <;>
          simp [empty, ← ends, bind, Except.bind, pure, Except.pure]

/-- A declared header is reported on just if it does not conform. -/
theorem headerErrors_eq_nil_iff {name : String} {raw : Json} {header : List (String × Json)}
    (resolved : contract.deref raw = .ok (.obj header))
    (typed : ∀ schema, header.lookup "schema" = some schema →
      ∃ target, contract.deref schema = .ok (.obj target)) :
    contract.headerErrors headers (name, raw) = .ok [] ↔
      contract.HeaderConforms headers name raw := by
  unfold HeaderConforms
  simp only [resolved, Except.ok.injEq, Json.obj.injEq, exists_eq_left']
  cases sent : headers.lookup (contract.library.lower name) with
  | none =>
      simp [headerErrors, resolved, sent, Json.get, bind, Except.bind, pure, Except.pure]
  | some text =>
      cases declared : header.lookup "schema" with
      | none =>
          simp [headerErrors, resolved, sent, declared, Json.contains, bind, Except.bind, pure,
            Except.pure]
      | some schema =>
          obtain ⟨target, followed⟩ := typed schema declared
          simp [headerErrors, coerced, resolved, sent, declared, followed, Json.contains,
            Json.getItem, Json.get, bind, Except.bind, pure, Except.pure, errors_eq_nil_iff]

theorem Selects.mem {responses : List (String × Json)} {raw : Json}
    (selects : Selects responses status raw) : ∃ key, (key, raw) ∈ responses := by
  rcases selects with own | ⟨_, range | ⟨_, default⟩⟩
  · exact ⟨_, mem_of_lookup own⟩
  · exact ⟨_, mem_of_lookup range⟩
  · exact ⟨_, mem_of_lookup default⟩

/-- A definition in a well-formed operation conforms in its headers just if none of them
is reported on. -/
theorem gather_headerErrors_eq_nil_iff {declared : List (String × Json)}
    (objects : ∀ name header, (name, header) ∈ declared →
      ∃ fields, contract.deref header = .ok (.obj fields) ∧
        ∀ schema, fields.lookup "schema" = some schema →
          ∃ target, contract.deref schema = .ok (.obj target)) :
    gather (contract.headerErrors headers) declared = .ok [] ↔
      ∀ name header, (name, header) ∈ declared → contract.HeaderConforms headers name header := by
  rw [gather_eq_nil_iff]
  constructor
  · intro silent name header member
    obtain ⟨entry, resolved, typed⟩ := objects name header member
    exact (headerErrors_eq_nil_iff resolved typed).mp (silent (name, header) member)
  · rintro conforms ⟨name, header⟩ member
    obtain ⟨entry, resolved, typed⟩ := objects name header member
    exact (headerErrors_eq_nil_iff resolved typed).mpr (conforms name header member)

theorem flatMap_assertionErrors_eq_nil_iff {assertions : List (String × Json)} :
    assertions.flatMap (assertionErrors body) = [] ↔
      ∀ path expected, (path, expected) ∈ assertions → AssertionHolds body path expected := by
  rw [List.flatMap_eq_nil_iff]
  constructor
  · intro silent path expected member
    exact assertionErrors_eq_nil_iff.mp (silent (path, expected) member)
  · rintro holds ⟨path, expected⟩ member
    exact assertionErrors_eq_nil_iff.mpr (holds path expected member)

theorem statusErrors_eq_nil_iff : statusErrors step status = [] ↔ status = step.expect.status := by
  unfold statusErrors
  simp

/-- `response_errors` reports nothing about exactly the responses that have the expected
status, a definition, the body and headers that it asks for, and the asserted values. -/
theorem responseErrors_eq_nil_iff (found : contract.operation? step.operation = some operation)
    (wellFormed : contract.WellFormed operation) :
    contract.responseErrors step status headers body hasBody isJson = .ok [] ↔
      contract.Conforms operation step status headers body hasBody isJson := by
  obtain ⟨responses, given, definitions⟩ := wellFormed.responses
  rw [responseErrors_eq_ok_iff found]
  constructor
  · intro reports
    generalize nothing : ([] : List String) = errors at reports
    cases reports with
    | undeclared => simp at nothing
    | unread defined checks =>
        -- an unread body is itself reported on
        have silent := (List.append_eq_nil_iff.mp nothing.symm).2
        cases checks <;> simp at silent
    | @checked definition bodyErrors declared headerErrors defined checks named gathered =>
        simp only [List.nil_eq, List.append_eq_nil_iff] at nothing
        obtain ⟨⟨⟨noStatus, rfl⟩, rfl⟩, noAssertion⟩ := nothing
        obtain ⟨raw, _, selects, resolved⟩ := (responseDefinition_eq_ok_iff given).mp defined
        obtain ⟨key, listed⟩ := selects.mem
        obtain ⟨fields, same, ⟨content, contents, media⟩, headersOf, declaredIn, objects⟩ :=
          definitions key raw listed
        cases resolved.symm.trans same
        cases declaredIn.symm.trans (Except.ok.inj named)
        have conforms := (contentErrors_eq_nil_iff contents media).mp
          (contentErrors_eq_ok_iff.mpr checks)
        exact ⟨statusErrors_eq_nil_iff.mp noStatus, ⟨responses, raw, fields, given, selects, same,
          conforms, declared, declaredIn, (gather_headerErrors_eq_nil_iff objects).mp gathered⟩,
          flatMap_assertionErrors_eq_nil_iff.mp noAssertion⟩
  · rintro ⟨same, ⟨others, raw, fields, again, selects, resolved, conforms, declared, named,
      headersConform⟩, assertions⟩
    cases given.symm.trans again
    obtain ⟨key, listed⟩ := selects.mem
    obtain ⟨definition, followed, ⟨content, contents, media⟩, headersOf, declaredIn, objects⟩ :=
      definitions key raw listed
    cases resolved.symm.trans followed
    cases declaredIn.symm.trans named
    have something : raw ≠ .null := by
      rintro rfl
      cases resolved
    have defined := (responseDefinition_eq_ok_iff given).mpr ⟨raw, something, selects, resolved⟩
    have checks := contentErrors_eq_ok_iff.mp
      ((contentErrors_eq_nil_iff contents media).mpr conforms)
    have gathered := (gather_headerErrors_eq_nil_iff objects).mpr headersConform
    have silent := flatMap_assertionErrors_eq_nil_iff.mpr assertions
    have reports : contract.Reports operation step status headers body hasBody isJson _ :=
      .checked defined checks (congrArg Except.ok named) gathered
    rwa [silent, statusErrors_eq_nil_iff.mpr same] at reports

end Contract

theorem Sample.wellFormed : Sample.contract.WellFormed Sample.readItem := by
  refine ⟨⟨_, rfl, ?_⟩⟩
  intro key raw listed
  cases List.mem_singleton.mp listed
  refine ⟨_, rfl, ⟨_, rfl, ?_⟩, _, rfl, ?_⟩
  · intro media found
    cases found
    exact ⟨_, rfl⟩
  · intro name header declared
    cases List.mem_singleton.mp declared
    refine ⟨_, rfl, ?_⟩
    intro schema found
    cases found
    exact ⟨_, rfl⟩

/-- The sample response conforms, as nothing is reported about it. -/
theorem Contract.responseErrors_eq_nil_iff_sample :
    Sample.contract.Conforms Sample.readItem Sample.read 200 [("x-count", "3")]
      (.obj [("id", .int 7)]) true true :=
  (Contract.responseErrors_eq_nil_iff rfl Sample.wellFormed).mp rfl

end ApiSentinel
