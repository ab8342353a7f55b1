import Mathlib.Algebra.Order.Ring.Rat

/-!
# Suites, results and reports

The public schemas of the runner.  Times are exact rationals where Python has
floats, and dictionaries are association lists in insertion order.
-/

namespace ApiSentinel

/-- JSON values as Python holds them, integers apart from floats.  `json.loads` also
reads `NaN`, `Infinity` and `-Infinity`. -/
inductive Json
  | null
  | bool (value : Bool)
  | int (value : Int)
  | float (value : Rat)
  | nan
  | infinity (negative : Bool)
  | str (value : String)
  | arr (items : List Json)
  | obj (members : List (String × Json))

/-- A float of Python. -/
inductive Double
  | finite (value : Rat)
  | nan
  | infinity (negative : Bool)
  deriving DecidableEq, Repr

namespace Double

def json : Double → Json
  | .finite value => .float value
  | .nan => .nan
  | .infinity negative => .infinity negative

/-- `bool(value)` -/
def truthy : Double → Bool
  | .finite value => value != 0
  | .nan | .infinity _ => true

/-- `number > value` -/
def exceededBy (number : Rat) : Double → Bool
  | .finite value => decide (number > value)
  | .nan => false
  | .infinity negative => negative

/-- `value > 0` -/
def positive : Double → Bool
  | .finite value => decide (0 < value)
  | .nan => false
  | .infinity negative => !negative

/-- What `model_dump_json` leaves of a value: NaN and the infinities are written as null. -/
def written : Double → Option Double
  | .finite value => some (.finite value)
  | .nan | .infinity _ => none

end Double

/-- A raised Python exception, with what its handlers look at. -/
structure Raised where
  type : String
  /-- `isinstance(exc, (ValueError, ContractError))` -/
  configuration : Bool
  message : String
  deriving DecidableEq, Repr

def valueError (message : String) : Raised := ⟨"ValueError", true, message⟩

structure Expectation where
  status : Int
  jsonEquals : List (String × Json) := []
  maxLatencyMs : Option Double := none

structure Step where
  name : String
  operation : String
  pathParams : List (String × Json) := []
  query : List (String × Json) := []
  headers : List (String × String) := []
  jsonBody : Json := .null
  expect : Expectation
  allowInvalidRequest : Bool := false

/-- `[a-zA-Z0-9]` -/
def isIdStart (c : Char) : Bool :=
  ('a' ≤ c && c ≤ 'z') || ('A' ≤ c && c ≤ 'Z') || ('0' ≤ c && c ≤ '9')

/-- `[a-zA-Z0-9_.-]` -/
def isIdRest (c : Char) : Bool :=
  isIdStart c || c == '_' || c == '.' || c == '-'

/-- `^[a-zA-Z0-9][a-zA-Z0-9_.-]{0,99}$`, the pattern of case IDs and of run IDs. -/
def matchesIdPattern (id : String) : Bool :=
  match id.toList with
  | [] => false
  | first :: rest => isIdStart first && rest.all isIdRest && rest.length ≤ 99

theorem isIdRest_of_mem {id : String} (pattern : matchesIdPattern id = true) {c : Char}
    (member : c ∈ id.toList) : isIdRest c = true := by
  unfold matchesIdPattern at pattern
  cases spelled : id.toList with
  | nil =>
      rw [spelled] at member
      cases member
  | cons first rest =>
      rw [spelled] at member pattern
      simp only [Bool.and_eq_true, List.all_eq_true] at pattern
      rcases List.mem_cons.mp member with rfl | later
      · simp [isIdRest, pattern.1.1]
      · exact pattern.1.2 c later

structure Case where
  id : String
  replaySafe : Bool := false
  setup : List Step := []
  steps : List Step
  teardown : List Step := []
  id_pattern : matchesIdPattern id = true

/-- A suite whose cases have passed the `unique_ids` validator. -/
structure Suite where
  name : String
  seed : Int := 42
  cases : List Case
  unique_ids : (cases.map Case.id).Nodup

inductive Phase
  | setup
  | test
  | teardown
  deriving DecidableEq, Repr

inductive Status
  | passed
  | failed
  | error
  deriving DecidableEq, Repr

structure StepResult where
  name : String
  phase : Phase
  status : Status
  elapsedMs : Rat := 0
  httpStatus : Option Int := none
  attempts : Nat := 1
  messages : List String := []
  deriving DecidableEq, Repr

structure CaseResult where
  caseId : String
  status : Status
  elapsedMs : Rat := 0
  workerId : String
  delivery : Int := 1
  steps : List StepResult := []
  message : Option String := none
  deriving DecidableEq, Repr

inductive Mode
  | «local»
  | distributed
  deriving DecidableEq, Repr

structure RunReport where
  runId : String
  suite : String
  mode : Mode
  elapsedMs : Rat
  expected : Nat
  results : List CaseResult
  infrastructureError : Option String := none
  deriving DecidableEq, Repr

/-- Python's truth value of an optional string. -/
def truthy (text : Option String) : Bool := text.any (fun value => value ≠ "")

def RunReport.exitCode (report : RunReport) : Nat :=
  if truthy report.infrastructureError || report.results.length != report.expected then 2
  else if report.results.any (fun result => result.status == .error) then 2
  else (report.results.any (fun result => result.status == .failed)).toNat

/-- What the coordinator publishes for its workers. -/
structure Plan where
  suite : Suite
  contract : Json
  baseUrl : Option String
  execution : List (String × Json)

/-! ### A suite of one case -/

namespace Sample

def step : Step where
  name := "health"
  operation := "getHealth"
  expect := { status := 200 }

def case : Case where
  id := "health"
  replaySafe := true
  steps := [step]
  id_pattern := rfl

def suite : Suite where
  name := "smoke"
  cases := [case]
  unique_ids := by simp

end Sample

end ApiSentinel
