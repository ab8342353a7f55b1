import ApiSentinel.Contract
import ApiSentinel.Rendering

/-!
# The rendered step

A worker renders a step with the variables of its execution and validates the result.
With that, an executor runs the steps of a suite against a contract.
-/

namespace ApiSentinel

open Scanning

/-- What an execution calls on its host. -/
structure Host where
  /-- `os.environ` -/
  environ : String → Option String
  /-- `json.loads` -/
  loads : Content → Except Raised Json
  /-- The hexadecimal SHA-256 digest of an encoded text. -/
  sha256 : String → String
  /-- The text of the `ValidationError` about a rendered name, operation and headers. -/
  invalid : (name operation : Json) → (headers : List (String × Json)) → String

/-- The dictionary of variables that `run` builds. -/
def Variables.members (vars : Variables) : List (String × Json) :=
  [("namespace", .str vars.«namespace»), ("seed", .int vars.seed), ("case_id", .str vars.caseId),
    ("run_id", .str vars.runId)]

/-- A dictionary whose values are strings. -/
def headers? : List (String × Json) → Option Headers
  | [] => some []
  | (name, value) :: members => do
      let text ← value.text?
      let headers ← headers? members
      pure ((name, text) :: headers)

/-- A string of at least one and at most 120 characters. -/
def stepName? (name : Json) : Option String :=
  name.text?.filter (fun text => 1 ≤ text.length && text.length ≤ 120)

section Render

variable (host : Host) (repr : Json → String) (vars : Variables)

/-- `Step.model_validate(render(step.model_dump(), variables))`.  Rendering keeps the keys
and the values of other fields, which have been validated before. -/
def renderStep (step : Step) : Except Raised Step := do
  let fill := render host.environ vars.members repr
  let fillMembers := renderMembers host.environ vars.members repr
  let name ← fill (.str step.name)
  let operation ← fill (.str step.operation)
  let pathParams ← fillMembers step.pathParams
  let query ← fillMembers step.query
  let headers ← fillMembers (step.headers.map (fun entry => (entry.1, .str entry.2)))
  let jsonBody ← fill step.jsonBody
  let jsonEquals ← fillMembers step.expect.jsonEquals
  match stepName? name, operation.text?, headers? headers with
  | some name, some operation, some headers =>
      pure { step with
        name, operation, pathParams, query, headers, jsonBody
        expect := { step.expect with jsonEquals } }
  | _, _, _ => .error ⟨"ValidationError", true, host.invalid name operation headers⟩

end Render

/-- An executor of the steps of a suite against a contract. -/
def Contract.harness (contract : Contract) (host : Host) : Harness where
  render := renderStep host contract.library.repr
  request := contract.request
  responseErrors := contract.responseErrors
  loads := host.loads
  sha256 := host.sha256

/-! ### What rendering keeps -/

section Results

variable {host : Host} {repr : Json → String} {vars : Variables} {step sent : Step}

/-- The parts of a rendered step. -/
theorem of_renderStep (rendered : renderStep host repr vars step = .ok sent) :
    render host.environ vars.members repr (.str step.operation) = .ok (.str sent.operation) ∧
      render host.environ vars.members repr step.jsonBody = .ok sent.jsonBody ∧
      sent.expect.status = step.expect.status ∧
      sent.expect.maxLatencyMs = step.expect.maxLatencyMs ∧
      sent.allowInvalidRequest = step.allowInvalidRequest := by
  unfold renderStep at rendered
  obtain ⟨name, _, rendered⟩ := except_bind_eq_ok.mp rendered
  obtain ⟨operation, called, rendered⟩ := except_bind_eq_ok.mp rendered
  obtain ⟨pathParams, _, rendered⟩ := except_bind_eq_ok.mp rendered
  obtain ⟨query, _, rendered⟩ := except_bind_eq_ok.mp rendered
  obtain ⟨headers, _, rendered⟩ := except_bind_eq_ok.mp rendered
  obtain ⟨jsonBody, body, rendered⟩ := except_bind_eq_ok.mp rendered
  obtain ⟨jsonEquals, _, rendered⟩ := except_bind_eq_ok.mp rendered
  split at rendered
  · rename_i text _ _ spelled _
    cases rendered
    cases operation with
    | str other =>
        cases spelled
        exact ⟨called, body, rfl, rfl, rfl⟩
    | null | bool | int | float | nan | infinity | arr | obj => cases spelled
  · cases rendered

/-- A text without placeholders is its own rendered form. -/
theorem renderText_of_bare {environ : String → Option String} {members : List (String × Json)}
    {text : String} (bare : findAll variablePattern text.toList = []) :
    renderText environ members repr text = .ok (.str text) := by
  have nothing : ∀ name, .found name ∈ scan variablePattern text.toList →
      resolveText environ members repr name = .ok name := by
    intro name member
    rw [← mem_findAll, bare] at member
    cases member
  unfold renderText
  rw [fullMatch_of_findAll_eq_nil bare]
  dsimp only
  rw [fillM_of_ok nothing]
  have kept := substitute_of_findAll_eq_nil id bare
  unfold substitute at kept
  exact congrArg (fun filled => Except.ok (Json.str (String.ofList filled))) kept |>.trans
    (by rw [String.ofList_toList])

theorem operation_of_renderStep (rendered : renderStep host repr vars step = .ok sent)
    (bare : findAll variablePattern step.operation.toList = []) :
    sent.operation = step.operation := by
  have kept := (of_renderStep rendered).1
  rw [render, renderText_of_bare bare] at kept
  exact (Json.str.inj (Except.ok.inj kept)).symm

/-- No variable and no environment variable is `None`. -/
theorem ne_null_of_resolves {environ : String → Option String} {name : List Char} {value : Json}
    (resolves : Resolves environ vars.members name value) : value ≠ .null := by
  cases resolves with
  | environment => simp
  | known plain found =>
      have member := mem_of_lookup found
      rintro rfl
      simp [Variables.members] at member

/-- A rendered value is `None` only if it was before. -/
theorem eq_null_iff_of_rendered {environ : String → Option String} {value result : Json}
    (rendered : Rendered environ vars.members repr value result) :
    result = .null ↔ value = .null := by
  cases rendered with
  | scalar => rfl
  | list all => simp
  | dict all => simp
  | text rendered =>
      cases rendered with
      | whole placeholder resolves => simp [ne_null_of_resolves resolves]
      | filled => simp

theorem jsonBody_of_renderStep (rendered : renderStep host repr vars step = .ok sent) :
    sent.jsonBody = .null ↔ step.jsonBody = .null :=
  eq_null_iff_of_rendered ((render_eq_ok_iff _ _).mp (of_renderStep rendered).2.1)

end Results

/-! ### A host without variables -/

namespace Sample

def host : Host where
  environ _ := none
  loads _ := .error (valueError "")
  sha256 text := text
  invalid _ _ _ := ""

def vars : Variables := ⟨"", 42, "one", "run"⟩

end Sample

end ApiSentinel
