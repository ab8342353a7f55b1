import ApiSentinel.Formats
import ApiSentinel.Reporting
import ApiSentinel.StepRendering

/-!
# The schemas

`model_dump` and `model_validate` of the suites that are loaded, published for the
workers and loaded there again, and of the results that go the other way.  A schema
forbids members that it does not know, and a value that it has accepted reads back
from its dump.  The text of a case has null where the dump has NaN or an infinity.
-/

namespace ApiSentinel

/-- What pydantic makes of a value where a field has type `int`, `float` or `bool`.  It keeps
a value of the type itself. -/
structure Coercions where
  int : Json → Option Int
  float : Json → Option Double
  bool : Json → Option Bool
  int_int : ∀ value, int (.int value) = some value
  float_float : ∀ value : Double, float value.json = some value
  bool_bool : ∀ value, bool (.bool value) = some value

/-- A float that is a number. -/
def Double.rat? : Double → Option Rat
  | .finite value => some value
  | .nan | .infinity _ => none

namespace Coercions

variable (coercions : Coercions)

def integer : Format Json Int where
  write := .int
  read := coercions.int
  Valid _ := True
  reads_back _ := coercions.int_int _
  valid_of_read _ := trivial

def number : Format Json Double where
  write := Double.json
  read := coercions.float
  Valid _ := True
  reads_back _ := coercions.float_float _
  valid_of_read _ := trivial

/-- A number of milliseconds, which is finite in every result. -/
def elapsed : Format Json Rat where
  write := .float
  read document := (coercions.float document).bind Double.rat?
  Valid _ := True
  reads_back {value} _ := by
    have read : coercions.float (.float value) = some (.finite value) :=
      coercions.float_float (.finite value)
    rw [read]
    rfl
  valid_of_read _ := trivial

def boolean : Format Json Bool where
  write := .bool
  read := coercions.bool
  Valid _ := True
  reads_back _ := coercions.bool_bool _
  valid_of_read _ := trivial

end Coercions

namespace Json

/-- The members of an object that has no other keys than these (`extra="forbid"`). -/
def members? (names : List String) : Json → Option (List (String × Json))
  | .obj members => if members.all (fun entry => names.contains entry.1) then some members else none
  | _ => none

def isNull : Json → Bool
  | .null => true
  | _ => false

def dict? : Json → Option (List (String × Json))
  | .obj members => some members
  | _ => none

def list? : Json → Option (List Json)
  | .arr items => some items
  | _ => none

/-- A member of an object. -/
def member (key : String) (document : Json) : Json :=
  ((document.dict?.getD []).lookup key).getD .null

/-- `str` -/
def string : Format Json String where
  write := .str
  read := text?
  Valid _ := True
  reads_back _ := rfl
  valid_of_read _ := trivial

/-- `Any` -/
def anything : Format Json Json where
  write := id
  read := some
  Valid _ := True
  reads_back _ := rfl
  valid_of_read _ := trivial

/-- `dict[str, Any]` -/
def dictionary : Format Json (List (String × Json)) where
  write := .obj
  read := dict?
  Valid _ := True
  reads_back _ := rfl
  valid_of_read _ := trivial

/-- `list[…]` -/
def list {Value : Type} (format : Format Json Value) : Format Json (List Value) where
  write values := .arr (format.items.write values)
  read document := document.list?.bind format.items.read
  Valid := format.items.Valid
  reads_back valid := format.items.reads_back valid
  valid_of_read read := by
    obtain ⟨items, _, read⟩ := Option.bind_eq_some_iff.mp read
    exact format.items.valid_of_read read

end Json

theorem headers?_write (headers : Headers) :
    headers? (headers.map (fun entry => (entry.1, .str entry.2))) = some headers := by
  induction headers with
  | nil => rfl
  | cons entry headers ih => simp [headers?, Json.text?, ih]

/-- `dict[str, str]` -/
def Headers.format : Format Json Headers where
  write headers := .obj (headers.map (fun entry => (entry.1, Json.str entry.2)))
  read document := document.dict?.bind headers?
  Valid _ := True
  reads_back {headers} _ := by simp only [Json.dict?, Option.bind_some, headers?_write]
  valid_of_read _ := trivial

/-! ### Suites -/

section Suites

variable (coercions : Coercions)

namespace Expectation

/-- `Field(ge=100, le=599)` -/
def statusFormat : Format Json Int :=
  coercions.integer.checked (fun status => 100 ≤ status ∧ status ≤ 599)

/-- `float | None`, `Field(default=None, gt=0)` -/
def maxLatencyFormat : Format Json (Option Double) :=
  (coercions.number.orNone Json.isNull .null rfl (fun limit => by cases limit <;> rfl)).checked
    (fun limit => ∀ milliseconds ∈ limit, milliseconds.positive = true)

/-- The items of `model_dump()`. -/
def members (expect : Expectation) : List (String × Json) :=
  [("status", .int expect.status), ("json_equals", .obj expect.jsonEquals),
    ("max_latency_ms", (expect.maxLatencyMs.map Double.json).getD .null)]

def dump (expect : Expectation) : Json := .obj expect.members

def validate (document : Json) : Option Expectation := do
  let members ← document.members? ["status", "json_equals", "max_latency_ms"]
  let status ← (statusFormat coercions).required members "status"
  let jsonEquals ← Json.dictionary.optional members "json_equals" []
  let maxLatencyMs ← (maxLatencyFormat coercions).optional members "max_latency_ms" none
  pure { status, jsonEquals, maxLatencyMs }

structure Valid (expect : Expectation) : Prop where
  status : 100 ≤ expect.status ∧ expect.status ≤ 599
  maxLatencyMs : ∀ limit ∈ expect.maxLatencyMs, limit.positive = true

theorem validate_dump {expect : Expectation} (valid : expect.Valid) :
    validate coercions expect.dump = some expect := by
  have status : (statusFormat coercions).required expect.members "status" =
      some expect.status := Format.required_write rfl ⟨trivial, valid.status⟩
  have jsonEquals : Json.dictionary.optional expect.members "json_equals" [] =
      some expect.jsonEquals := Format.optional_write rfl trivial
  have maxLatencyMs : (maxLatencyFormat coercions).optional expect.members "max_latency_ms" none =
      some expect.maxLatencyMs :=
    Format.optional_write rfl ⟨fun _ _ => trivial, valid.maxLatencyMs⟩
  rw [validate, show Json.members? _ expect.dump = some expect.members from rfl]
  simp [status, jsonEquals, maxLatencyMs]

theorem valid_of_validate {document : Json} {expect : Expectation}
    (read : validate coercions document = some expect) : expect.Valid := by
  simp only [validate, Option.bind_eq_bind, Option.bind_eq_some_iff, Option.pure_def,
    Option.some.injEq] at read
  obtain ⟨members, _, status, statusRead, jsonEquals, _, limit, limitRead, rfl⟩ := read
  exact ⟨(Format.valid_of_required statusRead).2,
    (Format.valid_of_optional limitRead ⟨nofun, nofun⟩).2⟩

def format : Format Json Expectation where
  write := dump
  read := validate coercions
  Valid := Valid
  reads_back := validate_dump coercions
  valid_of_read := valid_of_validate coercions

end Expectation

/-- `Field(min_length=1, max_length=120)` -/
def nameFormat : Format Json String :=
  Json.string.checked (fun name => 1 ≤ name.length ∧ name.length ≤ 120)

namespace Step

def members (step : Step) : List (String × Json) :=
  [("name", .str step.name), ("operation", .str step.operation),
    ("path_params", .obj step.pathParams), ("query", .obj step.query),
    ("headers", Headers.format.write step.headers), ("json_body", step.jsonBody),
    ("expect", step.expect.dump), ("allow_invalid_request", .bool step.allowInvalidRequest)]

def dump (step : Step) : Json := .obj step.members

def validate (document : Json) : Option Step := do
  let members ← document.members? ["name", "operation", "path_params", "query", "headers",
    "json_body", "expect", "allow_invalid_request"]
  let name ← nameFormat.required members "name"
  let operation ← Json.string.required members "operation"
  let pathParams ← Json.dictionary.optional members "path_params" []
  let query ← Json.dictionary.optional members "query" []
  let headers ← Headers.format.optional members "headers" []
  let jsonBody ← Json.anything.optional members "json_body" .null
  let expect ← (Expectation.format coercions).required members "expect"
  let allowInvalidRequest ←
    coercions.boolean.optional members "allow_invalid_request" false
  pure { name, operation, pathParams, query, headers, jsonBody, expect, allowInvalidRequest }

structure Valid (step : Step) : Prop where
  name : 1 ≤ step.name.length ∧ step.name.length ≤ 120
  expect : step.expect.Valid

theorem validate_dump {step : Step} (valid : step.Valid) :
    validate coercions step.dump = some step := by
  have name : nameFormat.required step.members "name" = some step.name :=
    Format.required_write rfl ⟨trivial, valid.name⟩
  have operation : Json.string.required step.members "operation" = some step.operation :=
    Format.required_write rfl trivial
  have pathParams : Json.dictionary.optional step.members "path_params" [] =
      some step.pathParams := Format.optional_write rfl trivial
  have query : Json.dictionary.optional step.members "query" [] = some step.query :=
    Format.optional_write rfl trivial
  have headers : Headers.format.optional step.members "headers" [] = some step.headers :=
    Format.optional_write rfl trivial
  have jsonBody : Json.anything.optional step.members "json_body" .null =
      some step.jsonBody := Format.optional_write rfl trivial
  have expect : (Expectation.format coercions).required step.members "expect" =
      some step.expect := Format.required_write rfl valid.expect
  have allowed : coercions.boolean.optional step.members "allow_invalid_request" false =
      some step.allowInvalidRequest := Format.optional_write rfl trivial
  rw [validate, show Json.members? _ step.dump = some step.members from rfl]
  simp [name, operation, pathParams, query, headers, jsonBody, expect, allowed]

theorem valid_of_validate {document : Json} {step : Step}
    (read : validate coercions document = some step) : step.Valid := by
  simp only [validate, Option.bind_eq_bind, Option.bind_eq_some_iff, Option.pure_def,
    Option.some.injEq] at read
  obtain ⟨members, _, name, nameRead, _, _, _, _, _, _, _, _, _, _, expect, expectRead, _, _,
    rfl⟩ := read
  exact ⟨(Format.valid_of_required nameRead).2, Format.valid_of_required expectRead⟩

def format : Format Json Step where
  write := dump
  read := validate coercions
  Valid := Valid
  reads_back := validate_dump coercions
  valid_of_read := valid_of_validate coercions

/-- `list[Step]` -/
def listFormat (least most : Nat) : Format Json (List Step) :=
  (Json.list (format coercions)).checked (fun steps => least ≤ steps.length ∧ steps.length ≤ most)

end Step

namespace Case

def members (case : Case) : List (String × Json) :=
  [("id", .str case.id), ("replay_safe", .bool case.replaySafe),
    ("setup", .arr (case.setup.map Step.dump)), ("steps", .arr (case.steps.map Step.dump)),
    ("teardown", .arr (case.teardown.map Step.dump))]

def dump (case : Case) : Json := .obj case.members

def validate (document : Json) : Option Case := do
  let members ← document.members? ["id", "replay_safe", "setup", "steps", "teardown"]
  let id ← Json.string.required members "id"
  let replaySafe ← coercions.boolean.optional members "replay_safe" false
  let setup ← (Step.listFormat coercions 0 20).optional members "setup" []
  let steps ← (Step.listFormat coercions 1 100).required members "steps"
  let teardown ← (Step.listFormat coercions 0 20).optional members "teardown" []
  if id_pattern : matchesIdPattern id = true then
    pure { id, replaySafe, setup, steps, teardown, id_pattern }
  else none

structure Valid (case : Case) : Prop where
  setup : case.setup.length ≤ 20
  steps : 1 ≤ case.steps.length ∧ case.steps.length ≤ 100
  teardown : case.teardown.length ≤ 20
  each : ∀ step ∈ case.setup ++ case.steps ++ case.teardown, step.Valid

theorem validate_dump {case : Case} (valid : case.Valid) :
    validate coercions case.dump = some case := by
  have id : Json.string.required case.members "id" = some case.id :=
    Format.required_write rfl trivial
  have replaySafe : coercions.boolean.optional case.members "replay_safe" false =
      some case.replaySafe := Format.optional_write rfl trivial
  have setup : (Step.listFormat coercions 0 20).optional case.members "setup" [] =
      some case.setup :=
    Format.optional_write rfl ⟨fun step member => valid.each step (by simp [member]),
      Nat.zero_le _, valid.setup⟩
  have steps : (Step.listFormat coercions 1 100).required case.members "steps" =
      some case.steps :=
    Format.required_write rfl ⟨fun step member => valid.each step (by simp [member]), valid.steps⟩
  have teardown : (Step.listFormat coercions 0 20).optional case.members "teardown"
      [] = some case.teardown :=
    Format.optional_write rfl ⟨fun step member => valid.each step (by simp [member]),
      Nat.zero_le _, valid.teardown⟩
  rw [validate, show Json.members? _ case.dump = some case.members from rfl]
  simp [id, replaySafe, setup, steps, teardown, case.id_pattern]

theorem valid_of_validate {document : Json} {case : Case}
    (read : validate coercions document = some case) : case.Valid := by
  simp only [validate, Option.bind_eq_bind, Option.bind_eq_some_iff, Option.pure_def] at read
  obtain ⟨members, _, id, _, _, _, setup, setupRead, steps, stepsRead, teardown, teardownRead,
    built⟩ := read
  have nothing : (Step.listFormat coercions 0 20).Valid [] :=
    ⟨fun step listed => absurd listed List.not_mem_nil, by simp⟩
  have one := Format.valid_of_optional setupRead nothing
  have two := Format.valid_of_required stepsRead
  have three := Format.valid_of_optional teardownRead nothing
  split at built
  · cases built
    refine ⟨one.2.2, two.2, three.2.2, fun step member => ?_⟩
    rcases List.mem_append.mp member with early | late
    · exact (List.mem_append.mp early).elim (one.1 step) (two.1 step)
    · exact three.1 step late
  · cases built

def format : Format Json Case where
  write := dump
  read := validate coercions
  Valid := Valid
  reads_back := validate_dump coercions
  valid_of_read := valid_of_validate coercions

end Case

namespace Suite

/-- `Literal[1]`, which is looked up by value, so that `True` and `1.0` are found too. -/
def versionFormat : Format Json Unit where
  write _ := .int 1
  read document := if document.number? = some 1 then some () else none
  Valid _ := True
  reads_back _ := rfl
  valid_of_read _ := trivial

/-- `Field(min_length=1, max_length=10000)` -/
def casesFormat : Format Json (List Case) :=
  (Json.list (Case.format coercions)).checked
    (fun cases => 1 ≤ cases.length ∧ cases.length ≤ 10000)

def members (suite : Suite) : List (String × Json) :=
  [("version", .int 1), ("name", .str suite.name), ("seed", .int suite.seed),
    ("cases", .arr (suite.cases.map Case.dump))]

def dump (suite : Suite) : Json := .obj suite.members

def validate (document : Json) : Option Suite := do
  let members ← document.members? ["version", "name", "seed", "cases"]
  versionFormat.optional members "version" ()
  let name ← nameFormat.required members "name"
  let seed ← coercions.integer.optional members "seed" 42
  let cases ← (casesFormat coercions).required members "cases"
  if unique_ids : (cases.map Case.id).Nodup then pure { name, seed, cases, unique_ids } else none

structure Valid (suite : Suite) : Prop where
  name : 1 ≤ suite.name.length ∧ suite.name.length ≤ 120
  cases : 1 ≤ suite.cases.length ∧ suite.cases.length ≤ 10000
  each : ∀ case ∈ suite.cases, case.Valid

theorem validate_dump {suite : Suite} (valid : suite.Valid) :
    validate coercions suite.dump = some suite := by
  have version : versionFormat.optional suite.members "version" () = some () := rfl
  have name : nameFormat.required suite.members "name" = some suite.name :=
    Format.required_write rfl ⟨trivial, valid.name⟩
  have seed : coercions.integer.optional suite.members "seed" 42 =
      some suite.seed := Format.optional_write rfl trivial
  have cases : (casesFormat coercions).required suite.members "cases" =
      some suite.cases := Format.required_write rfl ⟨valid.each, valid.cases⟩
  rw [validate, show Json.members? _ suite.dump = some suite.members from rfl]
  simp [version, name, seed, cases, suite.unique_ids]

theorem valid_of_validate {document : Json} {suite : Suite}
    (read : validate coercions document = some suite) : suite.Valid := by
  simp only [validate, Option.bind_eq_bind, Option.bind_eq_some_iff, Option.pure_def] at read
  obtain ⟨members, _, _, _, name, nameRead, _, _, cases, casesRead, built⟩ := read
  have named := (Format.valid_of_required nameRead).2
  have each := Format.valid_of_required casesRead
  split at built
  · cases built
    exact ⟨named, each.2, each.1⟩
  · cases built

def format : Format Json Suite where
  write := dump
  read := validate coercions
  Valid := Valid
  reads_back := validate_dump coercions
  valid_of_read := valid_of_validate coercions

end Suite

end Suites

/-! ### Results -/

def Status.ofValue? (value : String) : Option Status :=
  [.passed, .failed, .error].find? (fun status => status.value == value)

def Phase.ofValue? (value : String) : Option Phase :=
  [.setup, .test, .teardown].find? (fun phase => phase.value == value)

/-- `Literal["passed", "failed", "error"]` -/
def Status.format : Format Json Status where
  write status := .str status.value
  read document := document.text?.bind ofValue?
  Valid _ := True
  reads_back {status} _ := by cases status <;> rfl
  valid_of_read _ := trivial

/-- `Literal["setup", "test", "teardown"]` -/
def Phase.format : Format Json Phase where
  write phase := .str phase.value
  read document := document.text?.bind ofValue?
  Valid _ := True
  reads_back {phase} _ := by cases phase <;> rfl
  valid_of_read _ := trivial

section Results

variable (coercions : Coercions)

/-- The number of attempts, which no result has below zero. -/
def attemptsFormat : Format Json Nat where
  write attempts := .int attempts
  read document := (coercions.int document).bind Int.toNat?
  Valid _ := True
  reads_back _ := by simp [coercions.int_int, Int.toNat?]
  valid_of_read _ := trivial

/-- `int | None` -/
def httpStatusFormat : Format Json (Option Int) :=
  coercions.integer.orNone Json.isNull .null rfl (fun _ => rfl)

/-- `str | None` -/
def messageFormat : Format Json (Option String) :=
  Json.string.orNone Json.isNull .null rfl (fun _ => rfl)

namespace StepResult

def validate (document : Json) : Option StepResult := do
  let members ← document.members? ["name", "phase", "status", "elapsed_ms", "http_status",
    "attempts", "messages"]
  let name ← Json.string.required members "name"
  let phase ← Phase.format.required members "phase"
  let status ← Status.format.required members "status"
  let elapsedMs ← coercions.elapsed.optional members "elapsed_ms" 0
  let httpStatus ← (httpStatusFormat coercions).optional members "http_status" none
  let attempts ← (attemptsFormat coercions).optional members "attempts" 1
  let messages ← (Json.list Json.string).optional members "messages" []
  pure { name, phase, status, elapsedMs, httpStatus, attempts, messages }

def members (step : StepResult) : List (String × Json) := step.dump.dict?.getD []

theorem validate_dump (step : StepResult) : validate coercions step.dump = some step := by
  have name : Json.string.required step.members "name" = some step.name :=
    Format.required_write rfl trivial
  have phase : Phase.format.required step.members "phase" = some step.phase :=
    Format.required_write rfl trivial
  have status : Status.format.required step.members "status" = some step.status :=
    Format.required_write rfl trivial
  have elapsedMs : coercions.elapsed.optional step.members "elapsed_ms" 0 =
      some step.elapsedMs := Format.optional_write rfl trivial
  have httpStatus : (httpStatusFormat coercions).optional step.members "http_status" none =
      some step.httpStatus := Format.optional_write rfl (fun _ _ => trivial)
  have attempts : (attemptsFormat coercions).optional step.members "attempts" 1 =
      some step.attempts := Format.optional_write rfl trivial
  have messages : (Json.list Json.string).optional step.members "messages" [] =
      some step.messages := Format.optional_write rfl (fun _ _ => trivial)
  rw [validate, show Json.members? _ step.dump = some step.members from rfl]
  simp [name, phase, status, elapsedMs, httpStatus, attempts, messages]

def format : Format Json StepResult where
  write := dump
  read := validate coercions
  Valid _ := True
  reads_back _ := validate_dump coercions _
  valid_of_read _ := trivial

end StepResult

namespace CaseResult

def members (result : CaseResult) : List (String × Json) := result.dump.dict?.getD []

def validate (document : Json) : Option CaseResult := do
  let members ← document.members? ["case_id", "status", "elapsed_ms", "worker_id", "delivery",
    "steps", "message"]
  let caseId ← Json.string.required members "case_id"
  let status ← Status.format.required members "status"
  let elapsedMs ← coercions.elapsed.optional members "elapsed_ms" 0
  let workerId ← Json.string.required members "worker_id"
  let delivery ← coercions.integer.optional members "delivery" 1
  let steps ← (Json.list (StepResult.format coercions)).optional members "steps" []
  let message ← messageFormat.optional members "message" none
  pure { caseId, status, elapsedMs, workerId, delivery, steps, message }

theorem validate_dump (result : CaseResult) : validate coercions result.dump = some result := by
  have caseId : Json.string.required result.members "case_id" = some result.caseId :=
    Format.required_write rfl trivial
  have status : Status.format.required result.members "status" = some result.status :=
    Format.required_write rfl trivial
  have elapsedMs : coercions.elapsed.optional result.members "elapsed_ms" 0 =
      some result.elapsedMs := Format.optional_write rfl trivial
  have workerId : Json.string.required result.members "worker_id" = some result.workerId :=
    Format.required_write rfl trivial
  have delivery : coercions.integer.optional result.members "delivery" 1 =
      some result.delivery := Format.optional_write rfl trivial
  have steps : (Json.list (StepResult.format coercions)).optional result.members "steps" [] =
      some result.steps := Format.optional_write rfl (fun _ _ => trivial)
  have message : messageFormat.optional result.members "message" none = some result.message :=
    Format.optional_write rfl (fun _ _ => trivial)
  rw [validate, show Json.members? _ result.dump = some result.members from rfl]
  simp [caseId, status, elapsedMs, workerId, delivery, steps, message]

/-- The table that `CLAIM` encodes for an exhausted case, as `cjson` writes it. -/
def exhausted (caseId : String) (delivery : Int) (message : String) : Json :=
  .obj [("case_id", .str caseId), ("status", .str "error"), ("worker_id", .str "queue"),
    ("delivery", .int delivery), ("message", .str message)]

/-- Everything that an exhausted case leaves out has its default. -/
theorem validate_exhausted (caseId : String) (delivery : Int) (message : String) :
    validate coercions (exhausted caseId delivery message) =
      some {
        caseId, status := .error, workerId := "queue", delivery, message := some message } := by
  let members : List (String × Json) := [("case_id", .str caseId), ("status", .str "error"),
    ("worker_id", .str "queue"), ("delivery", .int delivery), ("message", .str message)]
  have caseIdRead : Json.string.required members "case_id" = some caseId :=
    Format.required_write rfl trivial
  have delivered : coercions.integer.optional members "delivery" 1 = some delivery :=
    Format.optional_write rfl trivial
  rw [validate, show Json.members? _ (exhausted caseId delivery message) = some members from rfl]
  simp only [Option.bind_eq_bind, Option.bind_some, caseIdRead, delivered]
  rfl

end CaseResult

end Results

/-! ### Rendered steps -/

/-- The `ValidationError` about a rendered step. -/
def Host.rejection (host : Host) (document : Json) : Raised :=
  ⟨"ValidationError", true, host.invalid (document.member "name") (document.member "operation")
    ((document.member "headers").dict?.getD [])⟩

theorem read_nameFormat (name : Json) : nameFormat.read name = stepName? name := by
  change (name.text?.filter _) = name.text?.filter _
  congr 1
  funext text
  simp

namespace Step
/-- The dump of a step whose strings were rendered. -/
def renderedMembers (step : Step) (name operation jsonBody : Json)
    (pathParams query headers jsonEquals : List (String × Json)) : List (String × Json) :=
  [("name", name), ("operation", operation), ("path_params", .obj pathParams),
    ("query", .obj query), ("headers", .obj headers), ("json_body", jsonBody),
    ("expect", { step.expect with jsonEquals }.dump),
    ("allow_invalid_request", .bool step.allowInvalidRequest)]

variable (coercions : Coercions) {step : Step}

theorem validate_rendered (valid : step.Valid) (name operation jsonBody : Json)
    (pathParams query headers jsonEquals : List (String × Json)) :
    validate coercions
        (.obj (step.renderedMembers name operation jsonBody pathParams query headers jsonEquals)) =
      match stepName? name, operation.text?, headers? headers with
      | some name, some operation, some headers =>
          some { step with
            name, operation, pathParams, query, headers, jsonBody
            expect := { step.expect with jsonEquals } }
      | _, _, _ => none := by
  generalize listed :
    step.renderedMembers name operation jsonBody pathParams query headers jsonEquals = members
  have nameRead : nameFormat.required members "name" = stepName? name := by
    rw [← read_nameFormat, ← listed]
    rfl
  have operationRead : Json.string.required members "operation" = operation.text? := by
    rw [← listed]
    rfl
  have pathParamsRead : Json.dictionary.optional members "path_params" [] = some pathParams := by
    rw [← listed]
    rfl
  have queryRead : Json.dictionary.optional members "query" [] = some query := by
    rw [← listed]
    rfl
  have headersRead : Headers.format.optional members "headers" [] = headers? headers := by
    rw [← listed]
    rfl
  have jsonBodyRead : Json.anything.optional members "json_body" .null = some jsonBody := by
    rw [← listed]
    rfl
  have expectRead : (Expectation.format coercions).required members "expect" =
      some { step.expect with jsonEquals } := by
    rw [← listed]
    exact Format.required_write rfl ⟨valid.expect.status, valid.expect.maxLatencyMs⟩
  have allowed : coercions.boolean.optional members "allow_invalid_request" false =
      some step.allowInvalidRequest := by
    rw [← listed]
    exact Format.optional_write rfl trivial
  have known : Json.members? ["name", "operation", "path_params", "query", "headers",
      "json_body", "expect", "allow_invalid_request"] (.obj members) = some members := by
    rw [← listed]
    rfl
  simp only [validate, known, nameRead, operationRead, pathParamsRead, queryRead, headersRead,
    jsonBodyRead, expectRead, allowed, Option.bind_eq_bind, Option.bind_some, Option.pure_def]
  cases stepName? name <;> cases operation.text? <;> cases headers? headers <;> rfl

end Step

section Rendering

variable {host : Host} {repr : Json → String} {vars : Variables} {step : Step}

theorem render_dump :
    render host.environ vars.members repr step.dump = (do
      let name ← render host.environ vars.members repr (.str step.name)
      let operation ← render host.environ vars.members repr (.str step.operation)
      let pathParams ← renderMembers host.environ vars.members repr step.pathParams
      let query ← renderMembers host.environ vars.members repr step.query
      let headers ← renderMembers host.environ vars.members repr
        (step.headers.map (fun entry => (entry.1, .str entry.2)))
      let jsonBody ← render host.environ vars.members repr step.jsonBody
      let jsonEquals ← renderMembers host.environ vars.members repr step.expect.jsonEquals
      pure (.obj (step.renderedMembers name operation jsonBody pathParams query headers
        jsonEquals))) := by
  have limit : render host.environ vars.members repr
      ((step.expect.maxLatencyMs.map Double.json).getD .null) =
        .ok ((step.expect.maxLatencyMs.map Double.json).getD .null) := by
    cases step.expect.maxLatencyMs with
    | none => simp [render]
    | some limit => cases limit <;> simp [Double.json, render]
  simp only [Step.dump, Step.members, Expectation.dump, Expectation.members, Headers.format]
  simp only [render, renderMembers, limit, bind_assoc, pure_bind]
  rfl

/-- Rendering a step and validating it is to dump the step, to render the dump and to
validate what that gives. -/
theorem renderStep_eq (coercions : Coercions) (valid : step.Valid) :
    renderStep host repr vars step = (do
      let document ← render host.environ vars.members repr step.dump
      match Step.validate coercions document with
      | some sent => .ok sent
      | none => .error (host.rejection document)) := by
  rw [render_dump]
  simp only [bind_assoc, pure_bind, renderStep]
  refine bind_congr fun name => bind_congr fun operation => bind_congr fun pathParams =>
    bind_congr fun query => bind_congr fun headers => bind_congr fun jsonBody =>
      bind_congr fun jsonEquals => ?_
  rw [Step.validate_rendered coercions valid]
  cases stepName? name <;> cases operation.text? <;> cases headers? headers <;> rfl

end Rendering
/-- A step that a suite was loaded with is rendered by rendering its dump and validating what
that gives, so that a rendered step keeps to the schema again. -/
theorem rendered_step_validates (coercions : Coercions) {host : Host} {repr : Json → String}
    {vars : Variables} {step : Step} (valid : step.Valid) :
    (renderStep host repr vars step = do
      let document ← render host.environ vars.members repr step.dump
      match Step.validate coercions document with
      | some sent => .ok sent
      | none => .error (host.rejection document)) ∧
    ∀ sent, renderStep host repr vars step = .ok sent → sent.Valid := by
  have equal := @renderStep_eq host repr vars step coercions valid
  refine ⟨equal, fun sent rendered => ?_⟩
  rw [equal, except_bind_eq_ok] at rendered
  obtain ⟨document, _, read⟩ := rendered
  cases found : Step.validate coercions document with
  | none =>
      rw [found] at read
      cases read
  | some other =>
      rw [found] at read
      cases read
      exact Step.valid_of_validate coercions found

/-! ### The text of a case and of a result -/

section Texts

theorem written_headers (headers : Headers) :
    (Headers.format.write headers).written = Headers.format.write headers := by
  simp only [Headers.format, Json.written, Json.obj.injEq]
  induction headers with
  | nil => rfl
  | cons entry headers ih => simp [Json.writtenMembers, Json.written, ih]

theorem Expectation.written_dump (expect : Expectation) :
    expect.dump.written = expect.written.dump := by
  obtain ⟨status, jsonEquals, limit⟩ := expect
  have bound : Json.written ((limit.map Double.json).getD .null) =
      ((limit.bind Double.written).map Double.json).getD .null := by
    cases limit with
    | none => simp [Json.written]
    | some limit => cases limit <;> simp [Double.json, Double.written, Json.written]
  simp only [dump, members, written, Json.written, Json.writtenMembers, bound]

theorem Step.written_dump (step : Step) : step.dump.written = step.written.dump := by
  simp only [dump, members, written, Json.written, Json.writtenMembers, written_headers,
    Expectation.written_dump]

theorem Step.written_dumps (steps : List Step) :
    Json.writtenItems (steps.map Step.dump) = (steps.map Step.written).map Step.dump := by
  induction steps with
  | nil => rfl
  | cons step steps ih => simp [Json.writtenItems, Step.written_dump, ih]

theorem Case.written_dump (case : Case) : case.dump.written = case.written.dump := by
  simp only [dump, members, written, Json.written, Json.writtenMembers, Step.written_dumps]

theorem Expectation.Valid.written {expect : Expectation} (valid : expect.Valid) :
    expect.written.Valid where
  status := valid.status
  maxLatencyMs := by
    intro limit held
    obtain ⟨milliseconds, bounded, kept⟩ := Option.bind_eq_some_iff.mp held
    cases milliseconds with
    | finite value =>
        cases kept
        exact valid.maxLatencyMs _ bounded
    | nan => cases kept
    | infinity negative => cases kept

/-- A case keeps to its schema when it has null for NaN and for an infinity. -/
theorem Case.Valid.written {case : Case} (valid : case.Valid) : case.written.Valid where
  setup := by simpa [Case.written] using valid.setup
  steps := by simpa [Case.written] using valid.steps
  teardown := by simpa [Case.written] using valid.teardown
  each := by
    intro step member
    simp only [Case.written, ← List.map_append] at member
    obtain ⟨original, listed, rfl⟩ := List.mem_map.mp member
    exact ⟨(valid.each original listed).name, (valid.each original listed).expect.written⟩

theorem finite_texts (texts : List String) :
    Json.finiteItems (texts.map Json.str) = true := by
  induction texts with
  | nil => rfl
  | cons text texts ih => simp [Json.finiteItems, Json.isFinite, ih]

theorem StepResult.finite_dump (step : StepResult) : step.dump.isFinite = true := by
  cases http : step.httpStatus <;>
    simp [dump, Json.isFinite, Json.finiteMembers, finite_texts, http]

theorem StepResult.finite_dumps (steps : List StepResult) :
    Json.finiteItems (steps.map StepResult.dump) = true := by
  induction steps with
  | nil => rfl
  | cons step steps ih => simp [Json.finiteItems, StepResult.finite_dump, ih]

theorem CaseResult.finite_dump (result : CaseResult) : result.dump.isFinite = true := by
  cases told : result.message <;>
    simp [dump, Json.isFinite, Json.finiteMembers, StepResult.finite_dumps, optional, told]

end Texts

namespace Sample

/-- Values of the type itself, and whole floats where an integer is due. -/
def coercions : Coercions where
  int
    | .int value => some value
    | .float value => if value.den = 1 then some value.num else none
    | _ => none
  float
    | .float value => some (.finite value)
    | .int value => some (.finite value)
    | .nan => some .nan
    | .infinity negative => some (.infinity negative)
    | _ => none
  bool
    | .bool value => some value
    | _ => none
  int_int _ := rfl
  float_float value := by cases value <;> rfl
  bool_bool _ := rfl

end Sample

/-- The sample step, with a header that is rendered. -/
theorem rendered_step_validates_sample :
    renderStep Sample.host (fun _ => "") Sample.vars
        { Sample.step with headers := [("x-case", "${case_id}")] } =
      .ok { Sample.step with headers := [("x-case", "one")] } ∧
    Step.Valid { Sample.step with headers := [("x-case", "one")] } := by
  have rendered : renderStep Sample.host (fun _ => "") Sample.vars
      { Sample.step with headers := [("x-case", "${case_id}")] } =
        .ok { Sample.step with headers := [("x-case", "one")] } := by
    rfl
  exact ⟨rendered, (rendered_step_validates Sample.coercions
    ⟨by decide, ⟨by decide, fun _ held => by cases held⟩⟩).2 _ rendered⟩

end ApiSentinel
