import ApiSentinel.Executor
import ApiSentinel.PercentEncoding
import ApiSentinel.Pointers
import ApiSentinel.Templates

/-!
# The contract

Loading an OpenAPI document, the preflight of a suite against it, and the checks of a
request and of a response.  The JSON Schema library and the conversions of Python's
built-in types are parameters.
-/

namespace ApiSentinel

open Scanning PercentEncoding

/-- What a contract calls outside its own code. -/
structure Library where
  /-- `Draft202012Validator.check_schema` -/
  checkSchema : Json → Except Raised Unit
  /-- The keywords of the errors that `Draft202012Validator(schema, registry=…)` finds in a
  value, the registry holding one document under the URI of the contract, unless it raises. -/
  iterErrors : (registered schema value : Json) → Except Raised (List String)
  /-- `int(text)`, unless it raises `ValueError` -/
  int : String → Option Int
  /-- `float(text)`, unless it raises `ValueError` -/
  float : String → Option Json
  /-- `text.lower()` -/
  lower : String → String
  /-- `str` of a float, a list or a dictionary -/
  repr : Json → String

/-- An entry of `Contract.operations`. -/
structure Contract.Operation where
  method : String
  path : String
  operation : Json
  params : List Json

structure Contract where
  library : Library
  document : List (String × Json)
  operations : List (Json × Contract.Operation) := []

/-- `ref[1:]` -/
def fragment (ref : String) : String := String.ofList (ref.toList.drop 1)

def cyclicReference : Raised := contractError "cyclic reference outside a JSON schema"

/-- A `for` loop that extends a list of errors. -/
def gather {Item : Type} (body : Item → Except Raised (List String)) :
    List Item → Except Raised (List String)
  | [] => .ok []
  | item :: items => do
      let errors ← body item
      let others ← gather body items
      pure (errors ++ others)

/-- A `for` loop whose body only raises. -/
def forEach {Item : Type} (body : Item → Except Raised Unit) : List Item → Except Raised Unit
  | [] => .ok ()
  | item :: items => do
      body item
      forEach body items

/-- Whether a value can be put into a set or be the key of a dictionary. -/
def Json.hashable : Json → Bool
  | .arr _ | .obj _ => false
  | _ => true

/-- `value in {…}`, a set of strings. -/
def Json.isOneOf (names : List String) (value : Json) : Except Raised Bool :=
  if value.hashable then .ok (names.any (fun name => value.equals (.str name)))
  else .error (typeError ("unhashable type: '" ++ value.typeName ++ "'"))

def Json.text? : Json → Option String
  | .str text => some text
  | _ => none

mutual

/-- The strings under `$ref` anywhere in a value. -/
def Json.refs : Json → List String
  | .obj members => refsOfMembers members
  | .arr items => refsOfItems items
  | _ => []

def refsOfMembers : List (String × Json) → List String
  | [] => []
  | (key, child) :: members =>
      (if key = "$ref" then child.text?.toList else []) ++ (child.refs ++ refsOfMembers members)

def refsOfItems : List Json → List String
  | [] => []
  | item :: items => item.refs ++ refsOfItems items

end

namespace Contract

variable (contract : Contract)

/-! ### References -/

/-- The loop of `deref`.  It runs out of fuel only after following more references than
there are in the document, and has then met one of them twice. -/
def derefFrom (document : Json) : Nat → List String → Json → Except Raised Json
  | 0, _, _ => .error cyclicReference
  | fuel + 1, visited, value => do
      if !(← value.contains "$ref") then pure value
      else
        match ← value.getItem "$ref" with
        | .str ref =>
            if ref ∈ visited then .error cyclicReference
            else derefFrom document fuel (ref :: visited) (← pointer document (fragment ref))
        -- `ref in visited`, or `ref[1:]`
        | ref =>
            .error (typeError
              (if ref.hashable then "'" ++ ref.typeName ++ "' object is not subscriptable"
              else "unhashable type: '" ++ ref.typeName ++ "'"))

def deref (value : Json) : Except Raised Json :=
  let document := Json.obj contract.document
  derefFrom document (document.refs.length + 2) [] value

section Inspection

variable (library : Library) (document : Json)

/-- What `_inspect` checks of one item of a dictionary. -/
def inspectItem (key : String) (child : Json) : Except Raised Unit :=
  if key ∈ ["$id", "$dynamicRef", "$dynamicAnchor"] then
    .error (contractError (key ++ " is outside the supported schema subset"))
  else if key = "$ref" then
    match child with
    | .str ref =>
        if "#/".toList.isPrefixOf ref.toList then
          match pointer document (fragment ref) with
          | .ok _ => .ok ()
          | .error _ => .error (contractError "unresolvable contract reference")
        else .error (contractError "only document-local JSON pointer references are allowed")
    | _ => .error (contractError "only document-local JSON pointer references are allowed")
  else if key = "schema" then library.checkSchema child
  else .ok ()

mutual

/-- `_inspect(value)` -/
def inspect : Json → Except Raised Unit
  | .obj members => inspectMembers members
  | .arr items => inspectItems items
  | _ => .ok ()

def inspectMembers : List (String × Json) → Except Raised Unit
  | [] => .ok ()
  | (key, child) :: members => do
      inspectItem library document key child
      inspect child
      inspectMembers members

def inspectItems : List Json → Except Raised Unit
  | [] => .ok ()
  | item :: items => do
      inspect item
      inspectItems items

end

end Inspection

/-! ### Loading -/

/-- `params[(location, name)] = param` -/
def setParam (location : String) (name param : Json) :
    List ((String × Json) × Json) → List ((String × Json) × Json)
  | [] => [((location, name), param)]
  | ((other, key), old) :: rest =>
      if other = location ∧ key.equals name then ((other, key), param) :: rest
      else ((other, key), old) :: setParam location name param rest

/-- One iteration of the loop over the parameters of an operation. -/
def loadParam (params : List ((String × Json) × Json)) (raw : Json) :
    Except Raised (List ((String × Json) × Json)) := do
  let param ← contract.deref raw
  let location ← param.getItem "in"
  if !(← location.isOneOf ["path", "query", "header"]) then
    .error (contractError "only path, query, and header parameters are supported")
  else
    let schema ← contract.deref (← param.get "schema" (.obj []))
    if !(← (← schema.get "type" .null).isOneOf ["string", "integer", "number", "boolean"]) then
      .error (contractError "parameters must declare a scalar type")
    else if (← param.contains "content") || (← param.contains "style") ||
        (← param.contains "explode") then
      .error (contractError "custom parameter serialization is unsupported")
    else
      let name ← param.getItem "name"
      if !name.hashable then .error (typeError ("unhashable type: '" ++ name.typeName ++ "'"))
      else pure (setParam (location.toStr contract.library.repr) name param params)

def methods : List String := ["get", "put", "post", "patch", "delete", "head", "options"]

/-- `method.upper()`, of one of the methods -/
def upper (method : String) : String := String.ofList (method.toList.map Char.toUpper)

/-- One iteration of the loop over the methods of a path item. -/
def loadOperation (path : String) (item : Json) (operations : List (Json × Operation))
    (entry : String × Json) : Except Raised (List (Json × Operation)) :=
  if entry.1 ∉ methods then pure operations
  else do
    let operation ← contract.deref entry.2
    let opId ← operation.get "operationId" .null
    if !opId.truthy then .error (contractError "each operation needs a unique operationId")
    else if !opId.hashable then
      .error (typeError ("unhashable type: '" ++ opId.typeName ++ "'"))
    else if operations.any (fun known => known.1.equals opId) then
      .error (contractError "each operation needs a unique operationId")
    else
      let raws ← (← item.get "parameters" (.arr [])).concat
        (← operation.get "parameters" (.arr []))
      let params ← raws.foldlM contract.loadParam []
      pure (operations ++ [(opId, ⟨upper entry.1, path, operation, params.map Prod.snd⟩)])

/-- One iteration of the loop over the paths of the document. -/
def loadPath (operations : List (Json × Operation)) (entry : String × Json) :
    Except Raised (List (Json × Operation)) := do
  let path := entry.1.toList
  let item ← contract.deref entry.2
  if !(['/'].isPrefixOf path) || ['/', '/'].isPrefixOf path || '?' ∈ path || '#' ∈ path then
    .error (contractError "contract paths must be absolute paths without a host or query")
  else
    (← item.items).foldlM (contract.loadOperation entry.1 item) operations

/-- `Contract(document)` -/
def init (library : Library) (document : List (String × Json)) : Except Raised Contract := do
  let contract : Contract := { library, document }
  let version ← ((document.lookup "openapi").getD (.str "")).spell library.repr
  if !"3.1.".toList.isPrefixOf version.toList then
    .error (contractError
      "only OpenAPI 3.1 is supported; convert older contracts explicitly")
  else
    inspect library (.obj document) (.obj document)
    let paths ← ((document.lookup "paths").getD (.obj [])).items
    let operations ← paths.foldlM contract.loadPath []
    if operations.isEmpty then .error (contractError "contract has no operations")
    else pure { contract with operations }

/-- `self.operations[name]` -/
def operation? (name : String) : Option Operation :=
  (contract.operations.find? (fun entry => entry.1.equals (.str name))).map Prod.snd

/-! ### Schemas -/

/-- The wrapper in which `errors` anchors a schema at the URI of the contract. -/
def wrapped (schema : Json) : Json :=
  .obj [("$id", .str "urn:api-sentinel:contract"),
    ("components", (contract.document.lookup "components").getD (.obj [])),
    ("paths", (contract.document.lookup "paths").getD (.obj [])),
    ("allOf", .arr [schema])]

def errors (schema value : Json) (label : String) : Except Raised (List String) := do
  let keywords ←
    contract.library.iterErrors (.obj contract.document) (contract.wrapped schema) value
  pure ((keywords.take 10).map
    (fun keyword => label ++ ": schema violation (" ++ keyword ++ ")"))

def coerce (value : String) (kind : Json) : Json :=
  match kind with
  | .str "integer" => ((contract.library.int value).map .int).getD (.str value)
  | .str "number" => (contract.library.float value).getD (.str value)
  | .str "boolean" =>
      if contract.library.lower value ∈ ["true", "false"] then
        .bool (contract.library.lower value == "true")
      else .str value
  | _ => .str value

/-- `self.coerce(value, self.deref(schema).get("type"))` -/
def coerced (value : String) (schema : Json) : Except Raised Json := do
  pure (contract.coerce value (← (← contract.deref schema).get "type" .null))

/-! ### The preflight -/

def undeclaredStatus (status : Int) : Raised :=
  contractError ("response status " ++ toString status ++ " is not declared in the contract")

/-- `responses.get(str(status), responses.get(f"{status // 100}XX", …))` -/
def responseDefinition (operation : Json) (status : Int) : Except Raised Json := do
  let responses ← operation.get "responses" (.obj [])
  let fallback ← responses.get "default" .null
  let range ← responses.get (toString (status / 100) ++ "XX") fallback
  match ← responses.get (toString status) range with
  | .null => .error (undeclaredStatus status)
  | definition => contract.deref definition

/-- What `validate_suite` checks of one step. -/
def validateStep (step : Step) : Except Raised Unit :=
  match contract.operation? step.operation with
  | none => .error (contractError ("unknown operation: " ++ step.operation))
  | some operation => do
      let names := findAll placeholder operation.path.toList
      let keys := step.pathParams.map (fun entry => entry.1.toList)
      if !(names.all (· ∈ keys) && keys.all (· ∈ names)) then
        .error (contractError ("path parameters do not match: " ++ step.operation))
      else
        let _ ← contract.responseDefinition operation.operation step.expect.status
        if step.expect.jsonEquals.any (fun assertion =>
            assertion.1 != "" && !(['/'].isPrefixOf assertion.1.toList)) then
          .error (contractError "assertion keys must be JSON pointers")
        else pure ()

def validateSuite (suite : Suite) : Except Raised Unit :=
  forEach (fun case : Case => forEach contract.validateStep
    (case.setup ++ case.steps ++ case.teardown)) suite.cases

/-! ### Requests -/

/-- `{k.lower(): v for k, v in step.headers.items()}` -/
def lowerHeaders (headers : Headers) : Headers :=
  headers.foldl (fun lowered entry => setItem (contract.library.lower entry.1) entry.2 lowered) []

/-- What is reported of a parameter that the step does not give. -/
def missingErrors (param : Json) (location : String) : Except Raised (List String) := do
  let required ← param.get "required" .null
  pure (if required.truthy then ["request: missing required " ++ location ++ " parameter"] else [])

/-- A path or query parameter, among the values that the step gives there. -/
def valueErrors (param : Json) (location : String) (values : List (String × Json)) :
    Except Raised (List String) := do
  let given :=
    match ← param.getItem "name" with
    | .str name => values.lookup name
    | _ => none
  match given with
  | none => missingErrors param location
  | some value =>
      let schema ← param.getItem "schema"
      contract.errors schema value ("request " ++ location ++ " parameter")

def headerParamErrors (param : Json) (headers : Headers) : Except Raised (List String) := do
  match ← param.getItem "name" with
  | .str name =>
      match (contract.lowerHeaders headers).lookup (contract.library.lower name) with
      | none => missingErrors param "header"
      | some text =>
          let schema ← param.getItem "schema"
          -- Header values are strings on the wire.
          let value ← contract.coerced text schema
          contract.errors schema value "request header parameter"
  | name => .error (attributeError name.typeName "lower")

/-- One iteration of the loop over the parameters of an operation. -/
def paramErrors (step : Step) (param : Json) : Except Raised (List String) := do
  match ← param.getItem "in" with
  | .str "path" => contract.valueErrors param "path" step.pathParams
  | .str "query" => contract.valueErrors param "query" step.query
  | .str "header" => contract.headerParamErrors param step.headers
  | location => .error (keyError (location.toStr contract.library.repr))

def bodyErrors (operation : Json) (jsonBody : Json) : Except Raised (List String) := do
  let body ← contract.deref (← operation.get "requestBody" (.obj []))
  match jsonBody with
  | .null =>
      let required ← body.get "required" .null
      pure (if required.truthy then ["request: required JSON body is missing"] else [])
  | value =>
      let content ← body.get "content" (.obj [])
      let media ← content.get "application/json" (.obj [])
      match ← media.get "schema" .null with
      | .null => pure ["request: JSON body is not declared"]
      | schema => contract.errors schema value "request body"

/-- `quote(str(value), safe="")`, of a value that can be printed -/
def encoded (value : Json) : List Char := quote (value.toStr contract.library.repr).toList

def dotSegment : Raised := contractError "dot segments are invalid path parameter values"

/-- The loop that puts the parameters into a path. -/
def buildPath : List (String × Json) → List Char → Except Raised (List Char)
  | [], path => .ok path
  | (key, value) :: params, path =>
      if !value.printable then .error tooManyDigits
      -- Dot segments must not be normalized into another endpoint.
      else if contract.encoded value = ['.'] ∨ contract.encoded value = ['.', '.'] then
        .error dotSegment
      else buildPath params (replace (braced key.toList) (contract.encoded value) path)

def request (step : Step) : Except Raised (String × String × List String) :=
  match contract.operation? step.operation with
  | none => .error (keyError step.operation)
  | some operation => do
      let paramErrors ← gather (contract.paramErrors step) operation.params
      let bodyErrors ← contract.bodyErrors operation.operation step.jsonBody
      let path ← contract.buildPath step.pathParams operation.path.toList
      pure (operation.method, String.ofList path,
        if step.allowInvalidRequest then [] else paramErrors ++ bodyErrors)

/-! ### Responses -/

/-- The checks of the body, and whether the later checks are made. -/
def contentErrors (definition body : Json) (hasBody isJson : Bool) :
    Except Raised (List String × Bool) := do
  let content ← definition.get "content" (.obj [])
  if content.truthy then
    if !(← content.contains "application/json") then
      pure (["response media type is outside supported JSON contracts"], false)
    else if !hasBody || !isJson then
      pure (["response: expected a JSON body and application/json content type"], false)
    else
      let media ← content.getItem "application/json"
      let schema ← media.get "schema" (.obj [])
      pure (← contract.errors schema body "response body", true)
  else pure (if hasBody then ["response: unexpected body"] else [], true)

/-- One iteration of the loop over the declared headers. -/
def headerErrors (headers : Headers) (entry : String × Json) : Except Raised (List String) := do
  let header ← contract.deref entry.2
  match headers.lookup (contract.library.lower entry.1) with
  | none =>
      let required ← header.get "required" .null
      pure (if required.truthy then ["response: missing required header"] else [])
  | some text =>
      if ← header.contains "schema" then
        let schema ← header.getItem "schema"
        let value ← contract.coerced text schema
        contract.errors schema value "response header"
      else pure []

/-- One iteration of the loop over `json_equals`.  Every exception of `pointer` is caught. -/
def assertionErrors (body : Json) (assertion : String × Json) : List String :=
  match pointer body assertion.1 with
  | .ok actual =>
      if actual.typeName ≠ assertion.2.typeName ∨ actual.equals assertion.2 = false then
        ["JSON assertion: value mismatch"]
      else []
  | .error _ => ["JSON assertion: pointer not found"]

def statusErrors (step : Step) (status : Int) : List String :=
  if status ≠ step.expect.status then
    ["expected HTTP " ++ toString step.expect.status ++ "; received " ++ toString status]
  else []

def responseErrors (step : Step) (status : Int) (headers : Headers) (body : Json)
    (hasBody isJson : Bool) : Except Raised (List String) :=
  match contract.operation? step.operation with
  | none => .error (keyError step.operation)
  | some operation =>
      match contract.responseDefinition operation.operation status with
      | .error raised =>
          if raised.type = "ContractError" then
            pure (statusErrors step status ++ [raised.message])
          else .error raised
      | .ok definition => do
          let (bodyErrors, goesOn) ← contract.contentErrors definition body hasBody isJson
          if goesOn then
            let declared ← (← definition.get "headers" (.obj [])).items
            let headerErrors ← gather (contract.headerErrors headers) declared
            pure (statusErrors step status ++ bodyErrors ++ headerErrors ++
              step.expect.jsonEquals.flatMap (assertionErrors body))
          else pure (statusErrors step status ++ bodyErrors)

end Contract

/-! ### A contract with one operation -/

namespace Sample

/-- The violation of a schema that asks for an integer. -/
def typeErrors (schema value : Json) : List String :=
  match schema.get "type" .null with
  | .ok kind => if kind.equals (.str "integer") && value.typeName == "str" then ["type"] else []
  | .error _ => []

/-- The library on values that satisfy their schemas. -/
def library : Library where
  checkSchema _ := .ok ()
  iterErrors _ _ _ := .ok []
  int text := text.toInt?
  float _ := none
  lower text := String.ofList (text.toList.map Char.toLower)
  repr _ := ""

/-- The library on schemas that have nothing but a type. -/
def checking : Library := { library with
  int := fun _ => none
  iterErrors := fun _ wrapped value =>
    match wrapped with
    | .obj [_, _, _, (_, .arr [schema])] => .ok (typeErrors schema value)
    | _ => .ok [] }

def responses : Json :=
  .obj [("200", .obj [
    ("content", .obj [("application/json", .obj [])]),
    ("headers", .obj [("X-Count", .obj [
      ("required", .bool true), ("schema", .obj [("type", .str "integer")])])])])]

def readItem : Contract.Operation where
  method := "GET"
  path := "/items/\x7bid\x7d"
  operation := .obj [("operationId", .str "readItem"), ("responses", responses)]
  params := []

def document : List (String × Json) :=
  [("openapi", .str "3.1.0"),
    ("paths", .obj [(readItem.path, .obj [("get", readItem.operation)])])]

def contract : Contract where
  library := library
  document := document
  operations := [(.str "readItem", readItem)]

theorem contract_init : Contract.init library document = .ok contract := by rfl

def read : Step where
  name := "read"
  operation := "readItem"
  pathParams := [("id", .str "7")]
  expect := { status := 200, jsonEquals := [("/id", .int 7)] }

end Sample

end ApiSentinel
