import ApiSentinel.Models
import Mathlib.Data.List.Nodup

/-!
# What encoding keeps

Python prints no integer of more than 4300 digits, and `model_dump_json` writes NaN and the
infinities as null, where `json.dumps` keeps them.  So a case may come back from Redis with
other values than it was submitted with.
-/

namespace ApiSentinel

/-- `str` of an integer with too many digits. -/
def tooManyDigits : Raised :=
  valueError ("Exceeds the limit (4300 digits) for integer string conversion; " ++
    "use sys.set_int_max_str_digits() to increase the limit")

namespace Json

mutual

/-- Every integer in the value has at most as many digits as the interpreter prints. -/
def printable : Json → Bool
  | .int value => decide ((Nat.toDigits 10 value.natAbs).length ≤ 4300)
  | .arr items => printableItems items
  | .obj members => printableMembers members
  | _ => true

def printableItems : List Json → Bool
  | [] => true
  | item :: items => printable item && printableItems items

def printableMembers : List (String × Json) → Bool
  | [] => true
  | (_, value) :: members => printable value && printableMembers members

end

mutual

/-- Neither NaN nor an infinity is in the value. -/
def isFinite : Json → Bool
  | .nan | .infinity _ => false
  | .arr items => finiteItems items
  | .obj members => finiteMembers members
  | _ => true

def finiteItems : List Json → Bool
  | [] => true
  | item :: items => isFinite item && finiteItems items

def finiteMembers : List (String × Json) → Bool
  | [] => true
  | (_, value) :: members => isFinite value && finiteMembers members

end

mutual

/-- The value that is read from what `model_dump_json` writes for a value. -/
def written : Json → Json
  | .nan | .infinity _ => .null
  | .arr items => .arr (writtenItems items)
  | .obj members => .obj (writtenMembers members)
  | value => value

def writtenItems : List Json → List Json
  | [] => []
  | item :: items => written item :: writtenItems items

def writtenMembers : List (String × Json) → List (String × Json)
  | [] => []
  | (key, value) :: members => (key, written value) :: writtenMembers members

end

mutual

/-- A value comes back as it was, just if it is finite. -/
theorem written_eq_self_iff : ∀ {value : Json}, value.written = value ↔ value.isFinite = true
  | .null | .bool _ | .int _ | .float _ | .str _ => by simp [written, isFinite]
  | .nan | .infinity _ => by simp [written, isFinite]
  | .arr items => by
      simp only [written, isFinite, arr.injEq]
      exact writtenItems_eq_self_iff
  | .obj members => by
      simp only [written, isFinite, obj.injEq]
      exact writtenMembers_eq_self_iff

theorem writtenItems_eq_self_iff :
    ∀ {items : List Json}, writtenItems items = items ↔ finiteItems items = true
  | [] => by simp [writtenItems, finiteItems]
  | item :: items => by
      simp only [writtenItems, finiteItems, List.cons.injEq, Bool.and_eq_true]
      exact and_congr written_eq_self_iff writtenItems_eq_self_iff

theorem writtenMembers_eq_self_iff : ∀ {members : List (String × Json)},
    writtenMembers members = members ↔ finiteMembers members = true
  | [] => by simp [writtenMembers, finiteMembers]
  | (key, value) :: members => by
      simp only [writtenMembers, finiteMembers, List.cons.injEq, Prod.mk.injEq, true_and,
        Bool.and_eq_true]
      exact and_congr written_eq_self_iff writtenMembers_eq_self_iff

end

end Json

/-! ### Cases -/

namespace Expectation

variable (expect : Expectation)

def printable : Bool :=
  (Json.int expect.status).printable && Json.printableMembers expect.jsonEquals

def isFinite : Bool :=
  Json.finiteMembers expect.jsonEquals &&
    expect.maxLatencyMs.all (fun limit => limit.json.isFinite)

def written : Expectation := { expect with
  jsonEquals := Json.writtenMembers expect.jsonEquals
  maxLatencyMs := expect.maxLatencyMs.bind Double.written }

end Expectation

namespace Step

variable (step : Step)

def printable : Bool :=
  Json.printableMembers step.pathParams && Json.printableMembers step.query &&
    step.jsonBody.printable && step.expect.printable

def isFinite : Bool :=
  Json.finiteMembers step.pathParams && Json.finiteMembers step.query &&
    step.jsonBody.isFinite && step.expect.isFinite

def written : Step := { step with
  pathParams := Json.writtenMembers step.pathParams
  query := Json.writtenMembers step.query
  jsonBody := step.jsonBody.written
  expect := step.expect.written }

end Step

namespace Case

variable (case : Case)

def printable : Bool := (case.setup ++ case.steps ++ case.teardown).all Step.printable

/-- Neither NaN nor an infinity is in a step. -/
def isFinite : Bool := (case.setup ++ case.steps ++ case.teardown).all Step.isFinite

/-- The case that is read from what `model_dump_json` writes for a case. -/
def written : Case := { case with
  setup := case.setup.map Step.written
  steps := case.steps.map Step.written
  teardown := case.teardown.map Step.written }

@[simp] theorem written_id : case.written.id = case.id := rfl

end Case

def Plan.printable (plan : Plan) : Bool :=
  (Json.int plan.suite.seed).printable && plan.suite.cases.all Case.printable &&
    plan.contract.printable && Json.printableMembers plan.execution

section Written

theorem Expectation.written_eq_self_iff {expect : Expectation} :
    expect.written = expect ↔ expect.isFinite = true := by
  obtain ⟨status, jsonEquals, maxLatencyMs⟩ := expect
  simp only [written, isFinite, mk.injEq, true_and, Bool.and_eq_true]
  refine and_congr Json.writtenMembers_eq_self_iff ?_
  cases maxLatencyMs with
  | none => simp
  | some limit => cases limit <;> simp [Double.written, Double.json, Json.isFinite]

theorem Step.written_eq_self_iff {step : Step} :
    step.written = step ↔ step.isFinite = true := by
  obtain ⟨name, operation, pathParams, query, headers, jsonBody, expect, allowed⟩ := step
  simp only [written, isFinite, mk.injEq, true_and, and_true, Bool.and_eq_true, and_assoc,
    Json.writtenMembers_eq_self_iff, Json.written_eq_self_iff, Expectation.written_eq_self_iff]

theorem map_eq_self_iff {Item : Type} {change : Item → Item} {items : List Item} :
    items.map change = items ↔ ∀ item ∈ items, change item = item := by
  constructor
  · intro same
    exact List.map_inj_left.mp (same.trans (List.map_id items).symm)
  · intro each
    exact (List.map_congr_left each).trans (List.map_id items)

/-- A case comes back as it was, just if all its values are finite. -/
theorem Case.written_eq_self_iff {case : Case} :
    case.written = case ↔ case.isFinite = true := by
  obtain ⟨id, replaySafe, setup, steps, teardown, id_pattern⟩ := case
  simp only [written, isFinite, mk.injEq, true_and, map_eq_self_iff, Step.written_eq_self_iff,
    List.all_eq_true, List.mem_append, or_imp, forall_and, and_assoc]

/-- What comes back under the ID of a case is that case, as it was written. -/
theorem Suite.eq_written {suite : Suite} {case job : Case} (member : case ∈ suite.cases)
    (stored : job ∈ suite.cases.map Case.written) (own : job.id = case.id) :
    job = case.written := by
  obtain ⟨other, listed, rfl⟩ := List.mem_map.mp stored
  rw [List.inj_on_of_nodup_map suite.unique_ids listed member own]

theorem Plan.printable_case {plan : Plan} (printable : plan.printable = true) :
    ∀ case ∈ plan.suite.cases, case.printable = true := by
  simp only [Plan.printable, Bool.and_eq_true, List.all_eq_true] at printable
  exact printable.1.1.2

end Written

/-! ### Codecs -/

/-- The serializers on both sides of Redis: `json`, the `model_dump_json` and
`model_validate_json` methods of the schemas, and Lua's `cjson`.  A case that can be printed
is read as `Case.written` says, a result, whose integers are counts and status codes, as it
was, and the table that `CLAIM` encodes for an exhausted case validates with the defaults of
`CaseResult`. -/
structure Codec (Text : Type) where
  dumpPlan : Plan → Text
  dumpCase : Case → Text
  validateCase : Text → Option Case
  dumpResult : CaseResult → Text
  validateResult : Text → Option CaseResult
  /-- `cjson.encode({case_id=…, status='error', worker_id='queue', delivery=…, message=…})` -/
  encodeError : (caseId : String) → (delivery : Int) → (message : String) → Text
  /-- The length of the encoded text in bytes. -/
  bytes : Text → Nat
  /-- The length in bytes of the encoded list of `{"id": …, "payload": …}`. -/
  tasksBytes : List (String × Text) → Nat
  validate_dumpCase : ∀ case, case.printable = true →
    validateCase (dumpCase case) = some case.written
  validate_dumpResult : ∀ result, validateResult (dumpResult result) = some result
  validate_encodeError : ∀ caseId delivery message,
    validateResult (encodeError caseId delivery message) =
      some { caseId, status := .error, workerId := "queue", delivery, message := some message }

/-- The texts of the codec that keeps every value that an encoding keeps. -/
inductive Document
  | plan (plan : Plan)
  | case (case : Case)
  | result (result : CaseResult)

namespace Document

def case? : Document → Option Case
  | .case value => some value
  | _ => none

def result? : Document → Option CaseResult
  | .result value => some value
  | _ => none

end Document

def Codec.plain : Codec Document where
  dumpPlan := .plan
  dumpCase case := .case case.written
  validateCase := Document.case?
  dumpResult := .result
  validateResult := Document.result?
  encodeError caseId delivery message :=
    .result { caseId, status := .error, workerId := "queue", delivery, message := some message }
  bytes _ := 0
  tasksBytes _ := 0
  validate_dumpCase _ _ := rfl
  validate_dumpResult _ := rfl
  validate_encodeError _ _ _ := rfl

/-! ### A case that does not come back as it was, and an integer that is not printed -/

namespace Sample

/-- An integer with one digit more than given. -/
@[irreducible] def longInteger (digits : Nat) : Int := 10 ^ digits

theorem length_longInteger {digits : Nat} (some : 0 < digits) :
    ¬ (Nat.toDigits 10 (longInteger digits).natAbs).length ≤ digits := by
  rw [Nat.length_toDigits_le_iff (by decide) some, longInteger, Int.natAbs_pow]
  exact Nat.lt_irrefl _

theorem not_printable_longInteger : (Json.int (longInteger 4300)).printable = false := by
  rw [Json.printable]
  exact decide_eq_false (length_longInteger (by decide))

/-- The sample case with a body that is not a number. -/
def nanCase : Case := { case with steps := [{ step with jsonBody := .nan }] }

def nanSuite : Suite where
  name := "smoke"
  cases := [nanCase]
  unique_ids := by simp

theorem written_nanCase : nanCase.written = case := rfl

theorem case_ne_nanCase : case ≠ nanCase := by
  intro same
  have finite := Case.written_eq_self_iff.mp (written_nanCase.trans same)
  cases finite

end Sample

end ApiSentinel
