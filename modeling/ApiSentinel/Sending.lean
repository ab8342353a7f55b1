import ApiSentinel.Executor
import Mathlib.Algebra.Order.Group.Defs

/-!
# What a step does

The runs of a step, one constructor for each way it can go: what it asks, in which
order, and what it returns.  Everything else about executions is derived from these
relations.
-/

namespace ApiSentinel

open Program

abbrev Execution.Trace := Program.Trace Answer

/-- Reading the chunks of a body after the content read so far. -/
inductive Reading (executor : CaseExecutor) (deadline : Rat) (failure : Option HttpError) :
    Content → List Content → Execution.Trace → Except HttpError Content → Prop
  | whole {content} (complete : failure = none) :
      Reading executor deadline failure content [] [] (.ok content)
  | broken {content error} (failed : failure = some error) :
      Reading executor deadline failure content [] [] (.error error)
  | overrun {content chunk chunks}
      (beyond : (content ++ chunk).length > executor.maxResponseBytes) :
      Reading executor deadline failure content (chunk :: chunks) []
        (.error ⟨sizeExceeded, false⟩)
  | late {content chunk chunks now}
      (fits : (content ++ chunk).length ≤ executor.maxResponseBytes) (reached : deadline ≤ now) :
      Reading executor deadline failure content (chunk :: chunks) [⟨.monotonic, now⟩]
        (.error ⟨deadlineExceeded, false⟩)
  | lost {content chunk chunks now}
      (fits : (content ++ chunk).length ≤ executor.maxResponseBytes) (early : now < deadline) :
      Reading executor deadline failure content (chunk :: chunks)
        [⟨.monotonic, now⟩, ⟨.leaseValid, false⟩] (.error ⟨leaseLost, false⟩)
  | next {content chunk chunks now trace result}
      (fits : (content ++ chunk).length ≤ executor.maxResponseBytes) (early : now < deadline)
      (rest : Reading executor deadline failure (content ++ chunk) chunks trace result) :
      Reading executor deadline failure content (chunk :: chunks)
        (⟨.monotonic, now⟩ :: ⟨.leaseValid, true⟩ :: trace) result

theorem reading_of_runs {executor : CaseExecutor} {deadline : Rat} {failure : Option HttpError}
    {content : Content} {chunks : List Content} {trace : Execution.Trace}
    {result : Except HttpError Content}
    (run : Runs (executor.readChunks deadline failure content chunks) trace result) :
    Reading executor deadline failure content chunks trace result := by
  induction chunks generalizing content trace with
  | nil =>
      cases failed : failure with
      | none =>
          obtain ⟨rfl, rfl⟩ := runs_pure.mp (failed ▸ run)
          exact .whole rfl
      | some error =>
          obtain ⟨rfl, rfl⟩ := runs_pure.mp (failed ▸ run)
          exact .broken rfl
  | cons chunk chunks ih =>
      rw [CaseExecutor.readChunks] at run
      split at run
      · next beyond =>
          obtain ⟨rfl, rfl⟩ := runs_pure.mp run
          exact .overrun beyond
      · next within =>
          have fits := Int.not_lt.mp within
          obtain ⟨now, timed, rfl, checked⟩ := runs_query_bind.mp run
          split at checked
          · next reached =>
              obtain ⟨rfl, rfl⟩ := runs_pure.mp checked
              exact .late fits reached
          · next early =>
              obtain ⟨valid, rest, rfl, goes⟩ := runs_query_bind.mp checked
              cases valid with
              | false =>
                  obtain ⟨rfl, rfl⟩ := runs_pure.mp goes
                  exact .lost fits (lt_of_not_ge early)
              | true => exact .next fits (lt_of_not_ge early) (ih goes)

/-- One exchange with the server: no response, a body that could not be read to its
end, or a whole response. -/
inductive Exchanged (executor : CaseExecutor) (request : Request) (deadline : Rat) :
    Execution.Trace → Option Int → Except HttpError (Headers × Content) → Prop
  | refused {error} :
      Exchanged executor request deadline [⟨.stream request, Except.error error⟩] none
        (.error error)
  | broken {response trace error}
      (reading : Reading executor deadline response.failure [] response.chunks trace
        (.error error)) :
      Exchanged executor request deadline (⟨.stream request, Except.ok response⟩ :: trace)
        (some response.statusCode) (.error error)
  | received {response trace content}
      (reading : Reading executor deadline response.failure [] response.chunks trace
        (.ok content)) :
      Exchanged executor request deadline (⟨.stream request, Except.ok response⟩ :: trace)
        (some response.statusCode) (.ok (response.headers, content))

theorem exchanged_of_runs {executor : CaseExecutor} {request : Request} {deadline : Rat}
    {trace : Execution.Trace} {result : Option Int × Except HttpError (Headers × Content)}
    (run : Runs (executor.exchange request deadline) trace result) :
    Exchanged executor request deadline trace result.1 result.2 := by
  obtain ⟨answer, rest, rfl, answered⟩ := runs_query_bind.mp run
  cases answer with
  | error error =>
      obtain ⟨rfl, rfl⟩ := runs_pure.mp answered
      exact .refused
  | ok response =>
      obtain ⟨before, after, body, rfl, reading, returned⟩ := runs_bind.mp answered
      obtain ⟨rfl, rfl⟩ := runs_pure.mp returned
      rw [List.append_nil]
      cases body with
      | error error => exact .broken (reading_of_runs reading)
      | ok content => exact .received (reading_of_runs reading)

/-- The methods that are sent again when no connection could be established. -/
def safeMethods : List String := ["GET", "HEAD", "OPTIONS"]

section Sending

variable (executor : CaseExecutor) (step : Step) (method path : String) (vars : Variables)
  (deadline : Rat)

/-- The retry loop of a step, from what is known of the requests so far. -/
inductive Sending : Progress → Execution.Trace → Progress → Except Raised (Headers × Content) → Prop
  | lost {progress} : Sending progress [⟨.leaseValid, false⟩] progress (.error leaseLost)
  | late {progress now} (reached : deadline ≤ now) :
      Sending progress [⟨.leaseValid, true⟩, ⟨.monotonic, now⟩] progress (.error deadlineExceeded)
  | received {progress now trace status received} (early : now < deadline)
      (exchange : Exchanged executor
        (executor.request step method path vars (deadline - now)) deadline trace status
        (.ok received)) :
      Sending progress (⟨.leaseValid, true⟩ :: ⟨.monotonic, now⟩ :: trace)
        ⟨progress.attempts + 1, status.or progress.statusCode⟩ (.ok received)
  | failed {progress now trace status error} (early : now < deadline)
      (exchange : Exchanged executor
        (executor.request step method path vars (deadline - now)) deadline trace status
        (.error error))
      (stops : error.connect = false ∨ method ∉ safeMethods ∨
        progress.attempts + 1 > executor.connectRetries) :
      Sending progress (⟨.leaseValid, true⟩ :: ⟨.monotonic, now⟩ :: trace)
        ⟨progress.attempts + 1, status.or progress.statusCode⟩ (.error error.raised)
  | again {progress now trace status error later seconds rest final outcome}
      (early : now < deadline)
      (exchange : Exchanged executor
        (executor.request step method path vars (deadline - now)) deadline trace status
        (.error error))
      (connect : error.connect = true) (safe : method ∈ safeMethods)
      (left : progress.attempts + 1 ≤ executor.connectRetries)
      (retried : Sending ⟨progress.attempts + 1, status.or progress.statusCode⟩ rest final
        outcome) :
      Sending progress
        (⟨.leaseValid, true⟩ :: ⟨.monotonic, now⟩ ::
          (trace ++ ⟨.monotonic, later⟩ :: ⟨.sleep seconds, ()⟩ :: rest))
        final outcome

end Sending

theorem sending_of_runs {executor : CaseExecutor} {step : Step} {method path : String}
    {vars : Variables} {deadline : Rat} {progress : Progress} {trace : Execution.Trace}
    {result : Progress × Except Raised (Headers × Content)}
    (run : Runs (executor.send step method path vars deadline progress) trace result) :
    Sending executor step method path vars deadline progress trace result.1 result.2 := by
  fun_induction CaseExecutor.send executor step method path vars deadline progress
    generalizing trace with
  | case1 progress ih =>
      obtain ⟨valid, leased, rfl, checked⟩ := runs_query_bind.mp run
      cases valid with
      | false =>
          obtain ⟨rfl, rfl⟩ := runs_pure.mp checked
          exact .lost
      | true =>
          obtain ⟨now, timed, rfl, budgeted⟩ := runs_query_bind.mp checked
          dsimp only at budgeted
          split at budgeted
          · next reached =>
              obtain ⟨rfl, rfl⟩ := runs_pure.mp budgeted
              exact .late (sub_nonpos.mp reached)
          · next remaining =>
              have early := lt_of_not_ge (fun reached : deadline ≤ now =>
                remaining (sub_nonpos.mpr reached))
              obtain ⟨before, after, ⟨status, outcome⟩, rfl, exchange, goes⟩ :=
                runs_bind.mp budgeted
              have exchanged := exchanged_of_runs exchange
              cases outcome with
              | ok received =>
                  obtain ⟨rfl, rfl⟩ := runs_pure.mp goes
                  rw [List.append_nil]
                  exact .received early exchanged
              | error error =>
                  dsimp only at goes
                  split at goes
                  · next stops =>
                      obtain ⟨rfl, rfl⟩ := runs_pure.mp goes
                      rw [List.append_nil]
                      exact .failed early exchanged stops
                  · next retries =>
                      obtain ⟨later, rest, rfl, pausing⟩ := runs_query_bind.mp goes
                      obtain ⟨slept, rest, rfl, retried⟩ := runs_query_bind.mp pausing
                      have again := ih status error retries retried
                      simp only [not_or, Bool.not_eq_false, not_not, not_lt] at retries
                      exact .again early exchanged retries.1 retries.2.1 retries.2.2 again

/-! ### The whole step -/

/-- What the `except` clause of a step returns. -/
def errorResult (rawStep : Step) (phase : Phase) (started finished : Rat) (progress : Progress)
    (raised : Raised) : StepResult where
  name := rawStep.name
  phase := phase
  status := .error
  elapsedMs := elapsedMs (finished - started)
  httpStatus := progress.statusCode
  attempts := progress.attempts
  messages :=
    [(if raised.configuration then "configuration" else "execution") ++ " error (" ++
      raised.type ++ ")"]

theorem runs_raisedResult {rawStep : Step} {phase : Phase} {started : Rat} {progress : Progress}
    {raised : Raised} {trace : Execution.Trace} {result : StepResult}
    (run : Runs (CaseExecutor.raisedResult rawStep phase started progress raised) trace result) :
    ∃ finished, trace = [⟨.monotonic, finished⟩] ∧
      result = errorResult rawStep phase started finished progress raised := by
  obtain ⟨finished, rest, rfl, returned⟩ := runs_query_bind.mp run
  obtain ⟨rfl, rfl⟩ := runs_pure.mp returned
  exact ⟨finished, rfl, rfl⟩

/-- What a step returns for a complete response with these failures. -/
def judgedResult (rawStep : Step) (phase : Phase) (started finished : Rat) (progress : Progress)
    (failures : List String) : StepResult where
  name := rawStep.name
  phase := phase
  status := if failures = [] then .passed else .failed
  elapsedMs := elapsedMs (finished - started)
  httpStatus := progress.statusCode
  attempts := progress.attempts
  messages := failures

/-- The step cannot be rendered, or the contract has no request for it. -/
def CaseExecutor.Rejects (executor : CaseExecutor) (vars : Variables) (rawStep : Step)
    (raised : Raised) : Prop :=
  executor.harness.render vars rawStep = .error raised ∨
    ∃ step, executor.harness.render vars rawStep = .ok step ∧
      executor.harness.request step = .error raised

/-- The step is rendered to a request with these violations of the contract. -/
def CaseExecutor.Prepares (executor : CaseExecutor) (vars : Variables) (rawStep step : Step)
    (method path : String) (failures : List String) : Prop :=
  executor.harness.render vars rawStep = .ok step ∧
    executor.harness.request step = .ok (method, path, failures)

theorem CaseExecutor.Prepares.not_rejects {executor : CaseExecutor} {vars : Variables}
    {rawStep step : Step} {method path : String} {failures : List String} {raised : Raised}
    (prepares : executor.Prepares vars rawStep step method path failures) :
    ¬ executor.Rejects vars rawStep raised := by
  obtain ⟨rendered, requested⟩ := prepares
  rintro (refused | ⟨_, same, refused⟩)
  · cases rendered.symm.trans refused
  · cases rendered.symm.trans same
    cases requested.symm.trans refused

theorem CaseExecutor.Prepares.failures_eq {executor : CaseExecutor} {vars : Variables}
    {rawStep step other : Step} {method path verb place : String} {failures others : List String}
    (one : executor.Prepares vars rawStep step method path failures)
    (two : executor.Prepares vars rawStep other verb place others) : failures = others := by
  cases one.1.symm.trans two.1
  cases one.2.symm.trans two.2
  rfl

/-- The runs of a step. -/
inductive Stepping (executor : CaseExecutor) (rawStep : Step) (phase : Phase) (vars : Variables)
    (deadline : Rat) : Execution.Trace → StepResult → Prop
  | rejected {started finished raised} (rejects : executor.Rejects vars rawStep raised) :
      Stepping executor rawStep phase vars deadline
        [⟨.monotonic, started⟩, ⟨.monotonic, finished⟩]
        (errorResult rawStep phase started finished {} raised)
  | invalid {started step method path failures}
      (prepares : executor.Prepares vars rawStep step method path failures)
      (violated : failures ≠ []) :
      Stepping executor rawStep phase vars deadline [⟨.monotonic, started⟩]
        { name := rawStep.name, phase, status := .failed, messages := failures }
  | unsent {started finished step method path trace progress raised}
      (prepares : executor.Prepares vars rawStep step method path [])
      (sending : Sending executor step method path vars deadline {} trace progress
        (.error raised)) :
      Stepping executor rawStep phase vars deadline
        (⟨.monotonic, started⟩ :: (trace ++ [⟨.monotonic, finished⟩]))
        (errorResult rawStep phase started finished progress raised)
  | unjudged {started received finished step method path trace progress headers content raised}
      (prepares : executor.Prepares vars rawStep step method path [])
      (sending : Sending executor step method path vars deadline {} trace progress
        (.ok (headers, content)))
      (verdict : executor.verdict step (progress.statusCode.getD 0) headers content
        ((received - started) * 1000) = .error raised) :
      Stepping executor rawStep phase vars deadline
        (⟨.monotonic, started⟩ :: (trace ++ [⟨.monotonic, received⟩, ⟨.monotonic, finished⟩]))
        (errorResult rawStep phase started finished progress raised)
  | judged {started finished step method path trace progress headers content failures}
      (prepares : executor.Prepares vars rawStep step method path [])
      (sending : Sending executor step method path vars deadline {} trace progress
        (.ok (headers, content)))
      (verdict : executor.verdict step (progress.statusCode.getD 0) headers content
        ((finished - started) * 1000) = .ok failures) :
      Stepping executor rawStep phase vars deadline
        (⟨.monotonic, started⟩ :: (trace ++ [⟨.monotonic, finished⟩]))
        (judgedResult rawStep phase started finished progress failures)

theorem stepping_of_runs {executor : CaseExecutor} {rawStep : Step} {phase : Phase}
    {vars : Variables} {deadline : Rat} {trace : Execution.Trace} {result : StepResult}
    (run : Runs (executor.step rawStep phase vars deadline) trace result) :
    Stepping executor rawStep phase vars deadline trace result := by
  obtain ⟨started, rest, rfl, prepared⟩ := runs_query_bind.mp run
  split at prepared
  · next raised refused =>
      obtain ⟨finished, rfl, rfl⟩ := runs_raisedResult prepared
      exact .rejected (.inl refused)
  · next step rendered =>
      split at prepared
      · next raised refused =>
          obtain ⟨finished, rfl, rfl⟩ := runs_raisedResult prepared
          exact .rejected (.inr ⟨step, rendered, refused⟩)
      · next method path failures requested =>
          split at prepared
          · next violated =>
              obtain ⟨rfl, rfl⟩ := runs_pure.mp prepared
              exact .invalid ⟨rendered, requested⟩ violated
          · next valid =>
              rw [ne_eq, not_not] at valid
              subst valid
              obtain ⟨before, after, ⟨progress, outcome⟩, rfl, sent, judged⟩ :=
                runs_bind.mp prepared
              have sending := sending_of_runs sent
              cases outcome with
              | error raised =>
                  obtain ⟨finished, rfl, rfl⟩ := runs_raisedResult judged
                  exact .unsent ⟨rendered, requested⟩ sending
              | ok received =>
                  obtain ⟨finished, rest, rfl, decided⟩ := runs_query_bind.mp judged
                  dsimp only at decided
                  split at decided
                  · next raised verdict =>
                      obtain ⟨late, rfl, rfl⟩ := runs_raisedResult decided
                      exact .unjudged ⟨rendered, requested⟩ sending verdict
                  · next failures verdict =>
                      obtain ⟨rfl, rfl⟩ := runs_pure.mp decided
                      exact .judged ⟨rendered, requested⟩ sending verdict

end ApiSentinel
