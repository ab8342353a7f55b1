import ApiSentinel.Dereference
import ApiSentinel.Responses

/-!
# Findings

What the contract finds about each part of a request or of a response, without any of its
values: whether it is there, and the keywords of the violations.  The messages of
`request` and `response_errors` are functions of these findings.
-/

namespace ApiSentinel

/-- The text of the violations of a schema. -/
def violations (label : String) (keywords : List String) : List String :=
  keywords.map (fun keyword => label ++ ": schema violation (" ++ keyword ++ ")")

/-! ### The kinds of findings -/

/-- About a declared parameter, with what the contract says of it. -/
inductive ParamFinding
  | absent (location : String) (required : Bool)
  | present (location : String) (keywords : List String)
  deriving DecidableEq

/-- About the body of a request. -/
inductive BodyFinding
  | absent (required : Bool)
  | undeclared
  | present (keywords : List String)
  deriving DecidableEq

structure RequestFinding where
  params : List ParamFinding
  body : BodyFinding
  deriving DecidableEq

/-- About the body of a response. -/
inductive ContentFinding
  | unsupported
  | notJson
  | uncontracted (hasBody : Bool)
  | present (keywords : List String)
  deriving DecidableEq

/-- About a declared header of a response. -/
inductive HeaderFinding
  | absent (required : Bool)
  | free
  | present (keywords : List String)
  deriving DecidableEq

/-- About an assertion on the body of a response. -/
inductive AssertionFinding
  | holds
  | mismatch
  | notFound
  deriving DecidableEq

/-- Why a status has no definition. -/
inductive Refusal
  | undeclared
  | cyclic
  | pointerStart
  | arrayIndex
  deriving DecidableEq

inductive ResponseFinding
  | refused (refusal : Refusal)
  | unread (content : ContentFinding)
  | checked (content : ContentFinding) (headers : List HeaderFinding)
      (assertions : List AssertionFinding)
  deriving DecidableEq

/-! ### Their messages -/

def ParamFinding.messages : ParamFinding → List String
  | .absent location required =>
      if required then ["request: missing required " ++ location ++ " parameter"] else []
  | .present location keywords => violations ("request " ++ location ++ " parameter") keywords

def BodyFinding.messages : BodyFinding → List String
  | .absent required => if required then ["request: required JSON body is missing"] else []
  | .undeclared => ["request: JSON body is not declared"]
  | .present keywords => violations "request body" keywords

def RequestFinding.messages (finding : RequestFinding) : List String :=
  finding.params.flatMap ParamFinding.messages ++ finding.body.messages

def ContentFinding.messages : ContentFinding → List String
  | .unsupported => ["response media type is outside supported JSON contracts"]
  | .notJson => ["response: expected a JSON body and application/json content type"]
  | .uncontracted hasBody => if hasBody then ["response: unexpected body"] else []
  | .present keywords => violations "response body" keywords

/-- Whether the later checks are made. -/
def ContentFinding.goesOn : ContentFinding → Bool
  | .unsupported | .notJson => false
  | .uncontracted _ | .present _ => true

def HeaderFinding.messages : HeaderFinding → List String
  | .absent required => if required then ["response: missing required header"] else []
  | .free => []
  | .present keywords => violations "response header" keywords

def AssertionFinding.messages : AssertionFinding → List String
  | .holds => []
  | .mismatch => ["JSON assertion: value mismatch"]
  | .notFound => ["JSON assertion: pointer not found"]

def Refusal.raised (status : Int) : Refusal → Raised
  | .undeclared => Contract.undeclaredStatus status
  | .cyclic => cyclicReference
  | .pointerStart => ApiSentinel.pointerStart
  | .arrayIndex => ApiSentinel.arrayIndex

def ResponseFinding.messages (step : Step) (status : Int) : ResponseFinding → List String
  | .refused refusal => Contract.statusErrors step status ++ [(refusal.raised status).message]
  | .unread content => Contract.statusErrors step status ++ content.messages
  | .checked content headers assertions =>
      Contract.statusErrors step status ++ content.messages ++
        headers.flatMap HeaderFinding.messages ++ assertions.flatMap AssertionFinding.messages

/-- The message about an exception. -/
def raisedMessage (type : String) (configuration : Bool) : String :=
  (if configuration then "configuration" else "execution") ++ " error (" ++ type ++ ")"

/-! ### Finding them -/

namespace Contract

variable (contract : Contract)

/-- The keywords of the violations that are reported. -/
def keywords (schema value : Json) : Except Raised (List String) := do
  let found ←
    contract.library.iterErrors (.obj contract.document) (contract.wrapped schema) value
  pure (found.take 10)

def absentParam (param : Json) (location : String) : Except Raised ParamFinding := do
  let required ← param.get "required" .null
  pure (.absent location required.truthy)

def valueFinding (param : Json) (location : String) (values : List (String × Json)) :
    Except Raised ParamFinding := do
  let given :=
    match ← param.getItem "name" with
    | .str name => values.lookup name
    | _ => none
  match given with
  | none => absentParam param location
  | some value =>
      let schema ← param.getItem "schema"
      pure (.present location (← contract.keywords schema value))

def headerParamFinding (param : Json) (headers : Headers) : Except Raised ParamFinding := do
  match ← param.getItem "name" with
  | .str name =>
      match (contract.lowerHeaders headers).lookup (contract.library.lower name) with
      | none => absentParam param "header"
      | some text =>
          let schema ← param.getItem "schema"
          let value ← contract.coerced text schema
          pure (.present "header" (← contract.keywords schema value))
  | name => .error (attributeError name.typeName "lower")

def paramFinding (step : Step) (param : Json) : Except Raised ParamFinding := do
  match ← param.getItem "in" with
  | .str "path" => contract.valueFinding param "path" step.pathParams
  | .str "query" => contract.valueFinding param "query" step.query
  | .str "header" => contract.headerParamFinding param step.headers
  | location => .error (keyError (location.toStr contract.library.repr))

def bodyFinding (operation : Json) (jsonBody : Json) : Except Raised BodyFinding := do
  let body ← contract.deref (← operation.get "requestBody" (.obj []))
  match jsonBody with
  | .null =>
      let required ← body.get "required" .null
      pure (.absent required.truthy)
  | value =>
      let content ← body.get "content" (.obj [])
      let media ← content.get "application/json" (.obj [])
      match ← media.get "schema" .null with
      | .null => pure .undeclared
      | schema => do pure (.present (← contract.keywords schema value))

/-- The method and the path of a request, with what is found about it. -/
def requestFinding (step : Step) : Except Raised (String × String × RequestFinding) :=
  match contract.operation? step.operation with
  | none => .error (keyError step.operation)
  | some operation => do
      let params ← operation.params.mapM (contract.paramFinding step)
      let body ← contract.bodyFinding operation.operation step.jsonBody
      let path ← contract.buildPath step.pathParams operation.path.toList
      pure (operation.method, String.ofList path, ⟨params, body⟩)

def contentFinding (definition body : Json) (hasBody isJson : Bool) :
    Except Raised ContentFinding := do
  let content ← definition.get "content" (.obj [])
  if content.truthy then
    if !(← content.contains "application/json") then pure .unsupported
    else if !hasBody || !isJson then pure .notJson
    else
      let media ← content.getItem "application/json"
      let schema ← media.get "schema" (.obj [])
      pure (.present (← contract.keywords schema body))
  else pure (.uncontracted hasBody)

def headerFinding (headers : Headers) (entry : String × Json) : Except Raised HeaderFinding := do
  let header ← contract.deref entry.2
  match headers.lookup (contract.library.lower entry.1) with
  | none =>
      let required ← header.get "required" .null
      pure (.absent required.truthy)
  | some text =>
      if ← header.contains "schema" then
        let schema ← header.getItem "schema"
        let value ← contract.coerced text schema
        pure (.present (← contract.keywords schema value))
      else pure .free

def assertionFinding (body : Json) (assertion : String × Json) : AssertionFinding :=
  match pointer body assertion.1 with
  | .ok actual =>
      if actual.typeName ≠ assertion.2.typeName ∨ actual.equals assertion.2 = false then .mismatch
      else .holds
  | .error _ => .notFound

def refusalOf (raised : Raised) : Refusal :=
  if raised = cyclicReference then .cyclic
  else if raised = ApiSentinel.pointerStart then .pointerStart
  else if raised = ApiSentinel.arrayIndex then .arrayIndex
  else .undeclared

def responseFinding (step : Step) (status : Int) (headers : Headers) (body : Json)
    (hasBody isJson : Bool) : Except Raised ResponseFinding :=
  match contract.operation? step.operation with
  | none => .error (keyError step.operation)
  | some operation =>
      match contract.responseDefinition operation.operation status with
      | .error raised =>
          if raised.type = "ContractError" then pure (.refused (refusalOf raised))
          else .error raised
      | .ok definition => do
          let content ← contract.contentFinding definition body hasBody isJson
          if content.goesOn then
            let declared ← (← definition.get "headers" (.obj [])).items
            let found ← declared.mapM (contract.headerFinding headers)
            pure (.checked content found (step.expect.jsonEquals.map (assertionFinding body)))
          else pure (.unread content)

/-! ### Reports are functions of the findings -/

variable {contract} {step : Step}

theorem gather_map {Item Finding : Type} {find : Item → Except Raised Finding}
    {messages : Finding → List String} {items : List Item} :
    gather (fun item => messages <$> find item) items =
      (fun found => found.flatMap messages) <$> items.mapM find := by
  induction items with
  | nil => rfl
  | cons item items ih =>
      rw [gather, ih, List.mapM_cons]
      simp only [map_bind, bind_map_left, map_pure, List.flatMap_cons]

/-- The errors are told by their keywords. -/
theorem errors_eq (schema value : Json) (label : String) :
    contract.errors schema value label = violations label <$> contract.keywords schema value := by
  unfold errors keywords
  rw [map_bind]
  rfl

theorem missingErrors_eq (param : Json) (location : String) :
    missingErrors param location = ParamFinding.messages <$> absentParam param location := by
  simp only [missingErrors, absentParam, map_bind, map_pure, ParamFinding.messages]

theorem valueErrors_eq (param : Json) (location : String) (values : List (String × Json)) :
    contract.valueErrors param location values =
      ParamFinding.messages <$> contract.valueFinding param location values := by
  unfold valueErrors valueFinding
  rw [map_bind]
  apply bind_congr
  intro name
  cases name with
  | str text =>
      dsimp only
      cases values.lookup text with
      | none => exact missingErrors_eq param location
      | some value =>
          simp only [errors_eq, map_eq_pure_bind, bind_assoc, pure_bind]
          rfl
  | null | bool | int | float | nan | infinity | arr | obj => exact missingErrors_eq param location

theorem headerParamErrors_eq (param : Json) (headers : Headers) :
    contract.headerParamErrors param headers =
      ParamFinding.messages <$> contract.headerParamFinding param headers := by
  unfold headerParamErrors headerParamFinding
  rw [map_bind]
  apply bind_congr
  intro name
  cases name with
  | str text =>
      dsimp only
      cases (contract.lowerHeaders headers).lookup (contract.library.lower text) with
      | none => exact missingErrors_eq param "header"
      | some value =>
          simp only [errors_eq, map_eq_pure_bind, bind_assoc, pure_bind]
          rfl
  | null | bool | int | float | nan | infinity | arr | obj => rfl

theorem paramErrors_eq (param : Json) :
    contract.paramErrors step param =
      ParamFinding.messages <$> contract.paramFinding step param := by
  unfold paramErrors paramFinding
  rw [map_bind]
  apply bind_congr
  intro location
  cases location with
  | str text =>
      by_cases path : text = "path"
      · subst path
        exact valueErrors_eq param "path" step.pathParams
      by_cases query : text = "query"
      · subst query
        exact valueErrors_eq param "query" step.query
      by_cases header : text = "header"
      · subst header
        exact headerParamErrors_eq param step.headers
      · simp [path, query, header]
  | null | bool | int | float | nan | infinity | arr | obj => rfl

theorem bodyErrors_eq (operation jsonBody : Json) :
    contract.bodyErrors operation jsonBody =
      BodyFinding.messages <$> contract.bodyFinding operation jsonBody := by
  unfold bodyErrors bodyFinding
  simp only [map_bind]
  apply bind_congr
  intro declared
  apply bind_congr
  intro body
  split
  · rw [map_bind]
    rfl
  · simp only [map_bind]
    apply bind_congr
    intro content
    apply bind_congr
    intro media
    apply bind_congr
    intro schema
    cases schema with
    | null => rfl
    | bool | int | float | nan | infinity | str | arr | obj =>
        simp only [errors_eq, map_eq_pure_bind, bind_assoc, pure_bind]
        rfl

/-- What `request` returns is a function of its finding. -/
theorem request_eq : contract.request step =
    (fun found => (found.1, found.2.1,
      if step.allowInvalidRequest then [] else found.2.2.messages)) <$>
        contract.requestFinding step := by
  have checks : contract.paramErrors step =
      fun param => ParamFinding.messages <$> contract.paramFinding step param :=
    funext paramErrors_eq
  unfold request requestFinding
  cases contract.operation? step.operation with
  | none => rfl
  | some operation =>
      dsimp only
      simp only [checks, gather_map, bodyErrors_eq, map_bind, bind_map_left]
      rfl

theorem contentErrors_eq (definition body : Json) (hasBody isJson : Bool) :
    contract.contentErrors definition body hasBody isJson =
      (fun found => (found.messages, found.goesOn)) <$>
        contract.contentFinding definition body hasBody isJson := by
  unfold contentErrors contentFinding
  rw [map_bind]
  apply bind_congr
  intro content
  split
  · rw [map_bind]
    apply bind_congr
    intro has
    split
    · rfl
    · split
      · rfl
      · simp only [errors_eq, map_eq_pure_bind, bind_assoc, pure_bind]
        rfl
  · rfl

theorem headerErrors_eq (headers : Headers) (entry : String × Json) :
    contract.headerErrors headers entry =
      HeaderFinding.messages <$> contract.headerFinding headers entry := by
  unfold headerErrors headerFinding
  rw [map_bind]
  apply bind_congr
  intro header
  cases headers.lookup (contract.library.lower entry.1) with
  | none => rw [map_bind]; rfl
  | some text =>
      dsimp only
      rw [map_bind]
      apply bind_congr
      intro typed
      split
      · simp only [errors_eq, map_eq_pure_bind, bind_assoc, pure_bind]
        rfl
      · rfl

theorem assertionErrors_eq (body : Json) (assertion : String × Json) :
    assertionErrors body assertion = (assertionFinding body assertion).messages := by
  unfold assertionErrors assertionFinding
  cases pointer body assertion.1 with
  | error raised => rfl
  | ok actual =>
      dsimp only
      split <;> rfl

theorem undeclaredStatus_ne {status : Int} {raised : Raised}
    (other : raised.message.toList.head? ≠ some 'r') : undeclaredStatus status ≠ raised := by
  rintro rfl
  apply other
  rw [undeclaredStatus, contractError, String.toList_append, String.toList_append]
  rfl

/-- The text of a refusal is one of four. -/
theorem raised_refusalOf {operation : Json} {status : Int} {raised : Raised}
    (refused : contract.responseDefinition operation status = .error raised)
    (caught : raised.type = "ContractError") : (refusalOf raised).raised status = raised := by
  unfold refusalOf
  have known := caught_of_responseDefinition refused caught
  simp only [List.mem_cons, List.not_mem_nil, or_false] at known
  rcases known with rfl | rfl | rfl | rfl
  · rw [if_neg (undeclaredStatus_ne (by decide)), if_neg (undeclaredStatus_ne (by decide)),
      if_neg (undeclaredStatus_ne (by decide))]
    rfl
  · rfl
  · rfl
  · rfl

/-- What `response_errors` returns is a function of its finding. -/
theorem responseErrors_eq (status : Int) (headers : Headers) (body : Json)
    (hasBody isJson : Bool) :
    contract.responseErrors step status headers body hasBody isJson =
      ResponseFinding.messages step status <$>
        contract.responseFinding step status headers body hasBody isJson := by
  unfold responseErrors responseFinding
  cases contract.operation? step.operation with
  | none => rfl
  | some operation =>
      dsimp only
      cases refused : contract.responseDefinition operation.operation status with
      | error raised =>
          dsimp only
          split
          · rename_i caught
            have text := congrArg Raised.message (raised_refusalOf refused caught)
            exact congrArg (fun text => Except.ok (statusErrors step status ++ [text])) text.symm
          · rfl
      | ok definition =>
          dsimp only
          simp only [contentErrors_eq, map_bind, bind_map_left]
          apply bind_congr
          intro content
          split
          · have checks : contract.headerErrors headers =
                fun entry => HeaderFinding.messages <$> contract.headerFinding headers entry :=
              funext (headerErrors_eq headers)
            have asserts : step.expect.jsonEquals.flatMap (assertionErrors body) =
                (step.expect.jsonEquals.map (assertionFinding body)).flatMap
                  AssertionFinding.messages := by
              rw [List.flatMap_map, funext (assertionErrors_eq body)]
            simp only [checks, gather_map, asserts, map_bind, bind_map_left]
            rfl
          · rfl

end Contract

end ApiSentinel
