import ApiSentinel.Models
import ApiSentinel.Program

/-!
# The case executor

`CaseExecutor.step` and `CaseExecutor.run` as programs that ask the clock, the lease
oracle and the HTTP client.  The functions of the contract are parameters, so that
what is proved here holds for every contract.
-/

namespace ApiSentinel

open Program

structure Variables where
  «namespace» : String
  seed : Int
  caseId : String
  runId : String

abbrev Headers := List (String × String)

abbrev Content := List UInt8

structure Request where
  method : String
  url : String
  params : List (String × Json)
  headers : Headers
  timeout : Rat
  json : Option Json

/-- An exception of the HTTP client. -/
structure HttpError where
  raised : Raised
  /-- `isinstance(exc, (httpx.ConnectError, httpx.ConnectTimeout))` -/
  connect : Bool

/-- A response with lower-case header names.  Its body arrives in chunks and may
break off with an exception. -/
structure Response where
  statusCode : Int
  headers : Headers
  chunks : List Content
  failure : Option HttpError := none

/-- What an execution asks its environment. -/
inductive Ask
  | monotonic
  | leaseValid
  | stream (request : Request)
  | sleep (seconds : Rat)

@[reducible]
def Answer : Ask → Type
  | .monotonic => Rat
  | .leaseValid => Bool
  | .stream _ => Except HttpError Response
  | .sleep _ => Unit

abbrev Execution := Program Ask Answer

def monotonic : Execution Rat := query Ask.monotonic

def leaseValid : Execution Bool := query Ask.leaseValid

def stream (request : Request) : Execution (Except HttpError Response) :=
  query (Ask.stream request)

def sleep (seconds : Rat) : Execution Unit := query (Ask.sleep seconds)

/-- The functions that the executor calls on its contract and on the standard
library. -/
structure Harness where
  /-- `Step.model_validate(render(step.model_dump(), variables))` -/
  render : Variables → Step → Except Raised Step
  /-- `Contract.request`: method, path and failures -/
  request : Step → Except Raised (String × String × List String)
  /-- `Contract.response_errors` -/
  responseErrors : Step → Int → Headers → Json → Bool → Bool → Except Raised (List String)
  /-- `json.loads` -/
  loads : Content → Except Raised Json
  /-- The hexadecimal SHA-256 digest of an encoded text. -/
  sha256 : String → String

structure CaseExecutor where
  harness : Harness
  baseUrl : String
  seed : Int := 42
  timeout : Rat := 5
  caseTimeout : Rat := 60
  maxResponseBytes : Int := 2000000
  connectRetries : Int := 1

/-- Python's `round` to an integer: halves go to the even neighbour. -/
def roundHalfEven (value : Rat) : Int :=
  let rest := value - value.floor
  if rest < 1 / 2 then value.floor
  else if 1 / 2 < rest then value.floor + 1
  else if value.floor % 2 = 0 then value.floor
  else value.floor + 1

/-- `round(seconds * 1000, 3)` -/
def elapsedMs (seconds : Rat) : Rat :=
  (roundHalfEven (seconds * 1000 * 1000) : Rat) / 1000

def leaseLost : Raised := ⟨"RuntimeError", false, "lease lost"⟩

def deadlineExceeded : Raised := ⟨"TimeoutError", false, "case deadline exceeded"⟩

def sizeExceeded : Raised := ⟨"RuntimeError", false, "response size limit exceeded"⟩

/-- Setting a key of a dictionary. -/
def setItem {V : Type} (key : String) (value : V) : List (String × V) → List (String × V)
  | [] => [(key, value)]
  | (other, old) :: rest =>
      if other = key then (key, value) :: rest else (other, old) :: setItem key value rest

/-- `headers.get("content-type", "").split(";")[0].lower()` -/
def mediaType (headers : Headers) : String :=
  let contentType := (headers.lookup "content-type").getD ""
  ((contentType.splitOn ";").headD "").toLower

/-- What the `except` clause of a step knows of the requests. -/
structure Progress where
  attempts : Nat := 0
  statusCode : Option Int := none

namespace CaseExecutor

variable (executor : CaseExecutor)

/-- The loop over `resp.iter_bytes()`. -/
def readChunks (deadline : Rat) (failure : Option HttpError) (content : Content) :
    List Content → Execution (Except HttpError Content)
  | [] =>
      match failure with
      | some error => pure (.error error)
      | none => pure (.ok content)
  | chunk :: chunks =>
      if (content ++ chunk).length > executor.maxResponseBytes then
        pure (.error ⟨sizeExceeded, false⟩)
      else do
        let now ← monotonic
        if now ≥ deadline then pure (.error ⟨deadlineExceeded, false⟩)
        else do
          let valid ← leaseValid
          if !valid then pure (.error ⟨leaseLost, false⟩)
          else readChunks deadline failure (content ++ chunk) chunks

/-- One exchange with the server: the status that was seen, and the headers with
the whole body. -/
def exchange (request : Request) (deadline : Rat) :
    Execution (Option Int × Except HttpError (Headers × Content)) := do
  let answer ← stream request
  match answer with
  | .error error => pure (none, .error error)
  | .ok response => do
      let body ← executor.readChunks deadline response.failure [] response.chunks
      pure (some response.statusCode, body.map (fun content => (response.headers, content)))

def request (step : Step) (method path : String) (vars : Variables) (remaining : Rat) :
    Request where
  method := method
  url := executor.baseUrl ++ path
  params := step.query
  headers := setItem "X-Sentinel-Namespace" vars.«namespace»
    (setItem "X-Sentinel-Run" vars.runId step.headers)
  timeout := min remaining executor.timeout
  json :=
    match step.jsonBody with
    | .null => none
    | body => some body

/-- The retry loop of a step. -/
def send (step : Step) (method path : String) (vars : Variables) (deadline : Rat)
    (progress : Progress) : Execution (Progress × Except Raised (Headers × Content)) := do
  let valid ← leaseValid
  if !valid then pure (progress, .error leaseLost)
  else do
    let now ← monotonic
    let remaining := deadline - now
    if remaining ≤ 0 then pure (progress, .error deadlineExceeded)
    else do
      let (status, outcome) ←
        executor.exchange (executor.request step method path vars remaining) deadline
      let attempts := progress.attempts + 1
      let statusCode := status.or progress.statusCode
      match outcome with
      | .ok received => pure (⟨attempts, statusCode⟩, .ok received)
      | .error error =>
          if _stops : error.connect = false ∨ method ∉ ["GET", "HEAD", "OPTIONS"] ∨
              attempts > executor.connectRetries then
            pure (⟨attempts, statusCode⟩, .error error.raised)
          else do
            let now ← monotonic
            sleep (min (0.05 * attempts) (max 0 (deadline - now)))
            send step method path vars deadline ⟨attempts, statusCode⟩
termination_by (executor.connectRetries + 1 - progress.attempts).toNat
decreasing_by omega

/-- The body of a complete response, and whether it counts as JSON. -/
def decode (content : Content) (isJson : Bool) : Except Raised (Json × Bool) :=
  if !content.isEmpty && isJson then
    match executor.harness.loads content with
    | .ok body => .ok (body, true)
    -- `except (ValueError, UnicodeDecodeError)`; `json.loads` raises no `ContractError`.
    | .error raised => if raised.configuration then .ok (.null, false) else .error raised
  else .ok (.null, isJson)

/-- The failures that a complete response shows. -/
def verdict (step : Step) (statusCode : Int) (headers : Headers) (content : Content)
    (elapsed : Rat) : Except Raised (List String) := do
  let (body, isJson) ← executor.decode content (mediaType headers == "application/json")
  let failures ← executor.harness.responseErrors step statusCode headers body
    (!content.isEmpty) isJson
  pure (failures ++
    match step.expect.maxLatencyMs with
    | some limit =>
        if limit.truthy && limit.exceededBy elapsed then ["latency budget exceeded"] else []
    | none => [])

/-- The `except` clause of a step. -/
def raisedResult (rawStep : Step) (phase : Phase) (started : Rat) (progress : Progress)
    (raised : Raised) : Execution StepResult := do
  let now ← monotonic
  let category := if raised.configuration then "configuration" else "execution"
  pure {
    name := rawStep.name
    phase := phase
    status := .error
    elapsedMs := elapsedMs (now - started)
    httpStatus := progress.statusCode
    attempts := progress.attempts
    messages := [category ++ " error (" ++ raised.type ++ ")"] }

/-- `CaseExecutor.step` -/
def step (rawStep : Step) (phase : Phase) (vars : Variables) (deadline : Rat) :
    Execution StepResult := do
  let started ← monotonic
  match executor.harness.render vars rawStep with
  | .error raised => raisedResult rawStep phase started {} raised
  | .ok step =>
      match executor.harness.request step with
      | .error raised => raisedResult rawStep phase started {} raised
      | .ok (method, path, failures) =>
          if failures ≠ [] then
            pure { name := rawStep.name, phase, status := .failed, messages := failures }
          else do
            let (progress, outcome) ← executor.send step method path vars deadline {}
            match outcome with
            | .error raised => raisedResult rawStep phase started progress raised
            | .ok (headers, content) => do
                let now ← monotonic
                let elapsed := (now - started) * 1000
                match executor.verdict step (progress.statusCode.getD 0) headers content
                    elapsed with
                | .error raised => raisedResult rawStep phase started progress raised
                | .ok failures =>
                    pure {
                      name := rawStep.name
                      phase := phase
                      status := if failures = [] then .passed else .failed
                      elapsedMs := elapsedMs (now - started)
                      httpStatus := progress.statusCode
                      attempts := progress.attempts
                      messages := failures }

/-- The steps of one phase, up to the first that does not pass. -/
def runPhase (phase : Phase) (vars : Variables) (deadline : Rat)
    (results : List StepResult) : List Step → Execution (List StepResult)
  | [] => pure results
  | step :: steps => do
      let result ← executor.step step phase vars deadline
      if result.status ≠ .passed then pure (results ++ [result])
      else runPhase phase vars deadline (results ++ [result]) steps

/-- The `try` block of `CaseExecutor.run`. -/
def runPhases (case : Case) (vars : Variables) (deadline : Rat) :
    Execution (List StepResult) := do
  let results ← executor.runPhase .setup vars deadline [] case.setup
  if results.any (fun result => result.status != .passed) then pure results
  else executor.runPhase .test vars deadline results case.steps

/-- The teardown loop. -/
def cleanUp (vars : Variables) (deadline : Rat) (results : List StepResult) :
    List Step → Execution (List StepResult)
  | [] => pure results
  | step :: steps => do
      let result ← executor.step step .teardown vars deadline
      cleanUp vars deadline (results ++ [result]) steps

/-- The status of a case with the given step results. -/
def caseStatus (results : List StepResult) : Status :=
  if results.any (fun result => result.status == .error) then .error
  else if results.any (fun result => result.status == .failed) then .failed
  else .passed

def variablesOf (case : Case) (runId : String) (delivery : Int) : Variables where
  «namespace» := ((executor.harness.sha256
    (runId ++ ":" ++ case.id ++ ":" ++ toString delivery)).take 24).toString
  seed := executor.seed
  caseId := case.id
  runId := runId

/-- `CaseExecutor.run` -/
def run (case : Case) (runId workerId : String) (delivery : Int) : Execution CaseResult := do
  let started ← monotonic
  let vars := executor.variablesOf case runId delivery
  let results ← executor.runPhases case vars (started + executor.caseTimeout)
  let cleanup ← monotonic
  let results ← executor.cleanUp vars (cleanup + min executor.caseTimeout 15) results
    case.teardown
  let finished ← monotonic
  pure {
    caseId := case.id
    status := caseStatus results
    elapsedMs := elapsedMs (finished - started)
    workerId := workerId
    delivery := delivery
    steps := results }

end CaseExecutor

end ApiSentinel
