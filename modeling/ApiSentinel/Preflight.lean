import ApiSentinel.Readability
import ApiSentinel.Sending
import ApiSentinel.StepRendering

/-!
# What the preflight leaves open

The execution of an accepted suite raises nothing of its own, dot segments apart, exactly
if the operations that it calls and the values of its paths can be read.
-/

namespace ApiSentinel

open Scanning

theorem forEach_eq_ok_iff {Item : Type} {body : Item → Except Raised Unit} {items : List Item} :
    forEach body items = .ok () ↔ ∀ item ∈ items, body item = .ok () := by
  induction items with
  | nil => simp [forEach]
  | cons item items ih =>
      rw [forEach, except_bind_eq_ok, List.forall_mem_cons, ← ih]
      constructor
      · rintro ⟨_, first, rest⟩
        exact ⟨first, rest⟩
      · rintro ⟨first, rest⟩
        exact ⟨(), first, rest⟩

namespace Contract

variable {contract : Contract} {step sent : Step} {status : Int}

theorem validateStep_of_validateSuite {suite : Suite} {case : Case}
    (passed : contract.validateSuite suite = .ok ()) (listed : case ∈ suite.cases)
    (member : step ∈ case.setup ++ case.steps ++ case.teardown) :
    contract.validateStep step = .ok () :=
  forEach_eq_ok_iff.mp (forEach_eq_ok_iff.mp passed case listed) step member

theorem responses_of_responseDefinition {raw definition : Json}
    (defined : contract.responseDefinition raw status = .ok definition) :
    ∃ responses, raw.get "responses" (.obj []) = .ok (.obj responses) := by
  unfold responseDefinition at defined
  obtain ⟨value, given, defined⟩ := except_bind_eq_ok.mp defined
  obtain ⟨_, default, _⟩ := except_bind_eq_ok.mp defined
  obtain ⟨responses, rfl, _⟩ := Json.get_eq_ok_iff.mp default
  exact ⟨responses, given⟩

/-- What can end a rendered step in an error without the contract being its cause. -/
inductive Fault (executor : CaseExecutor) (sent : Step) (vars : Variables) (deadline : Rat)
    (trace : Execution.Trace) : Prop
  | dotSegment (refused : executor.harness.request sent = .error dotSegment)
  | unsent {started finished method path course progress raised}
      (sending : Sending executor sent method path vars deadline {} course progress
        (.error raised))
      (whole : trace = ⟨.monotonic, started⟩ :: (course ++ [⟨.monotonic, finished⟩]))
  | undecoded {started received finished method path course progress headers content raised}
      (sending : Sending executor sent method path vars deadline {} course progress
        (.ok (headers, content)))
      (whole : trace =
        ⟨.monotonic, started⟩ :: (course ++ [⟨.monotonic, received⟩, ⟨.monotonic, finished⟩]))
      (json : mediaType headers = "application/json")
      (lost : executor.harness.loads content = .error raised)
      (uncaught : raised.configuration = false)

/-- If the contract raises nothing of its own, an error of a step has another cause. -/
theorem fault_of_runs {raw : Step} {host : Host} {vars : Variables} {executor : CaseExecutor}
    {phase : Phase} {deadline : Rat} {trace : Execution.Trace} {result : StepResult}
    (rendered : renderStep host contract.library.repr vars raw = .ok sent)
    (refuses : ∀ raised, contract.request sent = .error raised → raised = dotSegment)
    (checks : ∀ status headers body hasBody isJson, ∃ errors,
      contract.responseErrors sent status headers body hasBody isJson = .ok errors)
    (harnessed : executor.harness = contract.harness host)
    (run : Program.Runs (executor.step raw phase vars deadline) trace result)
    (error : result.status = .error) : Fault executor sent vars deadline trace := by
  have renders : executor.harness.render vars raw = .ok sent := by
    rw [harnessed]
    exact rendered
  have requests : executor.harness.request = contract.request := by
    rw [harnessed]
    rfl
  cases stepping_of_runs run with
  | rejected rejects =>
      rcases rejects with refused | ⟨step, same, refused⟩
      · cases renders.symm.trans refused
      · cases renders.symm.trans same
        rw [requests] at refused
        cases refuses _ refused
        exact .dotSegment (requests ▸ refused)
  | invalid => cases error
  | unsent prepares sending =>
      cases renders.symm.trans prepares.1
      exact .unsent sending rfl
  | unjudged prepares sending verdict =>
      cases renders.symm.trans prepares.1
      rcases except_bind_eq_error.mp verdict with lost | ⟨_, _, verdict⟩
      · unfold CaseExecutor.decode at lost
        split at lost
        · rename_i read
          have json := beq_iff_eq.mp (Bool.and_eq_true_iff.mp read).2
          split at lost
          · cases lost
          · rename_i raised failed
            split at lost
            · cases lost
            · rename_i uncaught
              exact .undecoded sending rfl json failed (by simpa using uncaught)
        · cases lost
      · rcases except_bind_eq_error.mp verdict with failed | ⟨_, _, verdict⟩
        · rw [harnessed] at failed
          obtain ⟨errors, checked⟩ := checks _ _ _ _ _
          cases checked.symm.trans failed
        · cases verdict
  | judged =>
      unfold judgedResult at error
      dsimp only at error
      split at error <;> cases error

end Contract

/-! ### A suite of one step -/

namespace Sample

def oneStep (step : Step) : Case := { case with steps := [step] }

def suiteOf (step : Step) : Suite where
  name := "one"
  cases := [oneStep step]
  unique_ids := by simp

theorem quiet_contract : Sample.contract.Quiet := fun _ _ _ => ⟨[], rfl⟩

theorem read_passed : Sample.contract.validateSuite (suiteOf read) = .ok () := by rfl

theorem read_rendered : renderStep host library.repr vars read = .ok read := by rfl

/-- The operation of the sample step is readable.  It has no parameters and no body, and no
references. -/
theorem readItem_readable : Sample.contract.Readable readItem read.jsonBody := by
  refine ⟨by simp [readItem], ⟨_, [], rfl, ⟨0, .here rfl⟩, by simp [read]⟩, ?_⟩
  intro responses status final given something leads
  cases given
  obtain ⟨key, member⟩ := (Contract.selects_of_selected_ne_null something).mem
  have same := (Prod.mk.inj (List.mem_singleton.mp member)).2
  rw [same] at leads
  cases leads.unique ⟨0, .here rfl⟩
  refine ⟨_, rfl, .json rfl rfl ⟨_, rfl, ?_⟩⟩
  intro name raw declared
  cases List.mem_singleton.mp declared
  refine ⟨_, ⟨0, .here rfl⟩, ?_⟩
  intro schema found
  cases found
  exact ⟨_, 0, .here rfl⟩

/-- An operation whose request body is a reference to itself. -/
def createItem : Contract.Operation where
  method := "POST"
  path := "/items"
  operation := .obj [("operationId", .str "createItem"),
    ("requestBody", .obj [("$ref", .str "#/components/requestBodies/Item")]),
    ("responses", .obj [("201", .obj [])])]
  params := []

def cyclicDocument : List (String × Json) :=
  [("openapi", .str "3.1.0"),
    ("components", .obj [("requestBodies", .obj [
      ("Item", .obj [("$ref", .str "#/components/requestBodies/Item")])])]),
    ("paths", .obj [("/items", .obj [("post", createItem.operation)])])]

def cyclicContract : Contract where
  library := library
  document := cyclicDocument
  operations := [(.str "createItem", createItem)]

def create : Step where
  name := "create"
  operation := "createItem"
  expect := { status := 201 }

end Sample

end ApiSentinel
