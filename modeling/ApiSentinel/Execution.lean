import ApiSentinel.Sending
import Mathlib.Data.List.Forall2
import Mathlib.Tactic.NormNum

/-!
# Executions of a case

What every run of `CaseExecutor.run` returns, whatever the clock, the lease oracle
and the server answer.
-/

namespace ApiSentinel

open Program

section Execution

variable {executor : CaseExecutor}

/-! ### One step -/

theorem step_named {rawStep : Step} {phase : Phase} {vars : Variables} {deadline : Rat}
    {trace : Execution.Trace} {result : StepResult}
    (run : Runs (executor.step rawStep phase vars deadline) trace result) :
    result.name = rawStep.name ∧ result.phase = phase := by
  cases stepping_of_runs run with
  | rejected => exact ⟨rfl, rfl⟩
  | invalid => exact ⟨rfl, rfl⟩
  | unsent => exact ⟨rfl, rfl⟩
  | unjudged => exact ⟨rfl, rfl⟩
  | judged => exact ⟨rfl, rfl⟩

/-- Somewhere in the trace a step of a phase was executed with the result. -/
structure Executed (executor : CaseExecutor) (vars : Variables) (trace : Execution.Trace)
    (step : Phase × Step) (result : StepResult) : Prop where
  name : result.name = step.2.name
  phase : result.phase = step.1
  ran : ∃ deadline part, part <:+: trace ∧
    Runs (executor.step step.2 step.1 vars deadline) part result

theorem Executed.of_within {vars : Variables} {inner outer : Execution.Trace}
    {step : Phase × Step} {result : StepResult}
    (executed : Executed executor vars inner step result) (within : inner <:+: outer) :
    Executed executor vars outer step result := by
  obtain ⟨deadline, part, inside, run⟩ := executed.ran
  exact ⟨executed.name, executed.phase, deadline, part, inside.trans within, run⟩

theorem executed_of_runs {rawStep : Step} {phase : Phase} {vars : Variables} {deadline : Rat}
    {trace : Execution.Trace} {result : StepResult}
    (run : Runs (executor.step rawStep phase vars deadline) trace result) :
    Executed executor vars trace (phase, rawStep) result :=
  ⟨(step_named run).1, (step_named run).2, deadline, trace, List.infix_rfl, run⟩

/-! ### The loops over steps -/

section Loops

variable {vars : Variables} {deadline : Rat}

/-- The steps were executed one after the other, with these results, and nothing else
was asked. -/
inductive Performed (executor : CaseExecutor) (vars : Variables) (deadline : Rat) :
    List (Phase × Step) → List StepResult → Execution.Trace → Prop
  | nil : Performed executor vars deadline [] [] []
  | cons {phase step steps result results part trace}
      (ran : Runs (executor.step step phase vars deadline) part result)
      (rest : Performed executor vars deadline steps results trace) :
      Performed executor vars deadline ((phase, step) :: steps) (result :: results) (part ++ trace)

namespace Performed

variable {steps others : List (Phase × Step)} {results later : List StepResult}
  {trace after : Execution.Trace}

theorem append (first : Performed executor vars deadline steps results trace)
    (second : Performed executor vars deadline others later after) :
    Performed executor vars deadline (steps ++ others) (results ++ later) (trace ++ after) := by
  induction first with
  | nil => exact second
  | cons ran _ ih =>
      rw [List.append_assoc]
      exact .cons ran ih

/-- Each result names its step. -/
theorem named (performed : Performed executor vars deadline steps results trace) :
    results.map (fun result => (result.phase, result.name)) =
      steps.map (fun step => (step.1, step.2.name)) := by
  induction performed with
  | nil => rfl
  | cons ran _ ih =>
      obtain ⟨name, phase⟩ := step_named ran
      rw [List.map_cons, List.map_cons, ih, name, phase]

/-- Results of steps of one phase belong to that phase. -/
theorem phase_eq {phase : Phase} {rawSteps : List Step}
    (performed : Performed executor vars deadline steps results trace)
    (within : steps ⊆ rawSteps.map (Prod.mk phase)) :
    ∀ result ∈ results, result.phase = phase := by
  intro result member
  have listed : (result.phase, result.name) ∈ steps.map (fun step => (step.1, step.2.name)) := by
    rw [← performed.named]
    exact List.mem_map_of_mem member
  obtain ⟨step, planned, same⟩ := List.mem_map.mp listed
  obtain ⟨_, _, rfl⟩ := List.mem_map.mp (within planned)
  exact (Prod.mk.inj same).1.symm

/-- Steps that were performed one after the other were executed somewhere in the trace. -/
theorem executed (performed : Performed executor vars deadline steps results trace) :
    List.Forall₂ (Executed executor vars trace) steps results := by
  induction performed with
  | nil => exact .nil
  | @cons phase step steps result results part trace ran rest ih =>
      refine .cons ?_ (ih.imp fun _ _ later => ?_)
      · exact (executed_of_runs ran).of_within (List.prefix_append part trace).isInfix
      · exact later.of_within (List.suffix_append part trace).isInfix

end Performed

/-- The results of steps that are tried in order: all of them passed, or they end with
the first that did not. -/
def UpToFailure (planned : Nat) (results : List StepResult) : Prop :=
  (results.length = planned ∧ ∀ result ∈ results, result.status = .passed) ∨
    ∃ before last, results = before ++ [last] ∧ results.length ≤ planned ∧
      (∀ result ∈ before, result.status = .passed) ∧ last.status ≠ .passed

theorem UpToFailure.cons {planned : Nat} {result : StepResult} {results : List StepResult}
    (passed : result.status = .passed) (tried : UpToFailure planned results) :
    UpToFailure (planned + 1) (result :: results) := by
  rcases tried with ⟨all, allPassed⟩ | ⟨before, last, rfl, bound, beforePassed, failed⟩
  · exact .inl ⟨congrArg Nat.succ all, List.forall_mem_cons.mpr ⟨passed, allPassed⟩⟩
  · exact .inr ⟨result :: before, last, rfl, Nat.succ_le_succ bound,
      List.forall_mem_cons.mpr ⟨passed, beforePassed⟩, failed⟩

theorem UpToFailure.length_eq {planned : Nat} {results : List StepResult}
    (tried : UpToFailure planned results) (passed : ∀ result ∈ results, result.status = .passed) :
    results.length = planned := by
  rcases tried with ⟨all, _⟩ | ⟨before, last, rfl, _, _, failed⟩
  · exact all
  · exact (failed (passed last (by simp))).elim

/-- Going on after results that all passed. -/
theorem UpToFailure.append {planned more : Nat} {first second : List StepResult}
    (all : first.length = planned) (passed : ∀ result ∈ first, result.status = .passed)
    (tried : UpToFailure more second) : UpToFailure (planned + more) (first ++ second) := by
  induction first generalizing planned with
  | nil =>
      rw [← all, List.length_nil, Nat.zero_add]
      exact tried
  | cons result first ih =>
      obtain ⟨head, tail⟩ := List.forall_mem_cons.mp passed
      rw [← all, List.length_cons, Nat.add_right_comm]
      exact (ih rfl tail).cons head

/-- A phase tries its steps. -/
theorem runPhase_performed {phase : Phase} (steps : List Step) {results final : List StepResult}
    {trace : Execution.Trace}
    (run : Runs (executor.runPhase phase vars deadline results steps) trace final) :
    ∃ tail, final = results ++ tail ∧
      Performed executor vars deadline ((steps.map (Prod.mk phase)).take tail.length) tail trace ∧
      UpToFailure steps.length tail := by
  induction steps generalizing results trace with
  | nil =>
      obtain ⟨rfl, rfl⟩ := runs_pure.mp run
      exact ⟨[], (List.append_nil _).symm, .nil, .inl ⟨rfl, by simp⟩⟩
  | cons step steps ih =>
      obtain ⟨before, after, result, rfl, ran, rest⟩ := runs_bind.mp run
      split at rest
      · next failed =>
          obtain ⟨rfl, rfl⟩ := runs_pure.mp rest
          refine ⟨[result], rfl, .cons ran .nil, .inr ⟨[], result, rfl, ?_, by simp, failed⟩⟩
          exact Nat.succ_le_succ (Nat.zero_le _)
      · next passed =>
          obtain ⟨tail, rfl, performed, tried⟩ := ih rest
          refine ⟨result :: tail, by simp, .cons ran performed, tried.cons ?_⟩
          simpa using passed

/-- The teardown executes all its steps. -/
theorem cleanUp_performed (steps : List Step) {results final : List StepResult}
    {trace : Execution.Trace}
    (run : Runs (executor.cleanUp vars deadline results steps) trace final) :
    ∃ tail, final = results ++ tail ∧
      Performed executor vars deadline (steps.map (Prod.mk .teardown)) tail trace := by
  induction steps generalizing results trace with
  | nil =>
      obtain ⟨rfl, rfl⟩ := runs_pure.mp run
      exact ⟨[], (List.append_nil _).symm, .nil⟩
  | cons step steps ih =>
      obtain ⟨before, after, result, rfl, ran, rest⟩ := runs_bind.mp run
      obtain ⟨tail, rfl, performed⟩ := ih rest
      exact ⟨result :: tail, by simp, .cons ran performed⟩

/-- The steps of the `try` block, in its order. -/
def Case.attempted (case : Case) : List (Phase × Step) :=
  case.setup.map (Prod.mk Phase.setup) ++ case.steps.map (Prod.mk Phase.test)

/-- The `try` block goes on to the test steps only after all setup steps have passed. -/
theorem runPhases_performed {case : Case} {results : List StepResult} {trace : Execution.Trace}
    (run : Runs (executor.runPhases case vars deadline) trace results) :
    Performed executor vars deadline (case.attempted.take results.length) results trace ∧
      UpToFailure case.attempted.length results ∧
      ((∃ result ∈ results, result.phase = .setup ∧ result.status ≠ .passed) →
        ∀ result ∈ results, result.phase = .setup) := by
  have length : case.attempted.length = case.setup.length + case.steps.length := by
    simp [Case.attempted]
  obtain ⟨before, after, first, rfl, setupRun, rest⟩ := runs_bind.mp run
  obtain ⟨_, rfl, setupPerformed, setupTried⟩ := runPhase_performed case.setup setupRun
  rw [length]
  split at rest
  · next stopped =>
      obtain ⟨rfl, rfl⟩ := runs_pure.mp rest
      obtain ⟨result, member, failed⟩ := List.any_eq_true.mp stopped
      rcases setupTried with ⟨_, passed⟩ | ⟨front, last, rfl, bound, frontPassed, lastFailed⟩
      · exact absurd (passed result member) (by simpa using failed)
      · refine ⟨?_, .inr ⟨front, last, rfl, by omega, frontPassed, lastFailed⟩, fun _ => ?_⟩
        · rw [List.append_nil, Case.attempted, List.take_append_of_le_length (by simpa using bound)]
          exact setupPerformed
        · exact setupPerformed.phase_eq (List.take_subset _ _)
  · next passed =>
      have allPassed : ∀ result ∈ first, result.status = .passed := by simpa using passed
      have all : first.length = case.setup.length := setupTried.length_eq allPassed
      obtain ⟨tests, rfl, testsPerformed, testsTried⟩ := runPhase_performed case.steps rest
      refine ⟨?_, .append all allPassed testsTried, ?_⟩
      · have both := setupPerformed.append testsPerformed
        rw [all, ← List.length_map (Prod.mk Phase.setup), List.take_length] at both
        rwa [Case.attempted, List.length_append, all, ← List.length_map (Prod.mk Phase.setup),
          List.take_length_add_append]
      · rintro ⟨result, member, phase, failed⟩
        rcases List.mem_append.mp member with setup | test
        · exact (failed (allPassed result setup)).elim
        · rw [testsPerformed.phase_eq (List.take_subset _ _) result test] at phase
          cases phase

end Loops

/-! ### The whole case -/

/-- The steps of a case with their phases, in the order of execution. -/
def Case.phased (case : Case) : List (Phase × Step) :=
  case.setup.map (Prod.mk .setup) ++ case.steps.map (Prod.mk .test) ++
    case.teardown.map (Prod.mk .teardown)

theorem caseStatus_passed {results : List StepResult} :
    CaseExecutor.caseStatus results = .passed ↔ ∀ result ∈ results, result.status = .passed := by
  unfold CaseExecutor.caseStatus
  constructor
  · intro passed result member
    split at passed
    · cases passed
    · split at passed
      · cases passed
      · rename_i noError noFailure
        simp only [List.any_eq_true, beq_iff_eq, not_exists, not_and] at noError noFailure
        cases status : result.status with
        | passed => rfl
        | failed => exact (noFailure result member status).elim
        | error => exact (noError result member status).elim
  · intro passed
    have none : ∀ status : Status, status ≠ .passed →
        results.any (fun result => result.status == status) = false := by
      intro status other
      simp only [List.any_eq_false, beq_iff_eq]
      intro result member same
      exact other (same ▸ passed result member)
    rw [none .error (by decide), none .failed (by decide)]
    rfl

/-- The parts of a run of a case: the `try` block, the teardown, and the clock readings
around them. -/
theorem run_parts {case : Case} {runId workerId : String} {delivery : Int}
    {trace : Execution.Trace} {result : CaseResult}
    (run : Runs (executor.run case runId workerId delivery) trace result) :
    ∃ (started cleanup finished : Rat) (tries cleaning : Execution.Trace)
      (tried steps : List StepResult),
      trace = ⟨.monotonic, started⟩ ::
        (tries ++ ⟨.monotonic, cleanup⟩ :: (cleaning ++ [⟨.monotonic, finished⟩])) ∧
      Runs (executor.runPhases case (executor.variablesOf case runId delivery)
        (started + executor.caseTimeout)) tries tried ∧
      Runs (executor.cleanUp (executor.variablesOf case runId delivery)
        (cleanup + min executor.caseTimeout 15) tried case.teardown) cleaning steps ∧
      result = {
        caseId := case.id
        status := CaseExecutor.caseStatus steps
        elapsedMs := elapsedMs (finished - started)
        workerId
        delivery
        steps } := by
  obtain ⟨started, rest, rfl, phases⟩ := runs_query_bind.mp run
  obtain ⟨tries, rest, tried, rfl, phasesRun, cleanUp⟩ := runs_bind.mp phases
  obtain ⟨cleanup, rest, rfl, teardown⟩ := runs_query_bind.mp cleanUp
  obtain ⟨cleaning, rest, steps, rfl, teardownRun, finishing⟩ := runs_bind.mp teardown
  obtain ⟨finished, rest, rfl, returned⟩ := runs_query_bind.mp finishing
  obtain ⟨rfl, rfl⟩ := runs_pure.mp returned
  exact ⟨started, cleanup, finished, tries, cleaning, tried, steps, rfl, phasesRun, teardownRun,
    rfl⟩

/-- What an execution of a case returns: its identity is that of the job, it carries
no message, and it has passed only if every step of every phase was executed and passed. -/
theorem run_executed {case : Case} {runId workerId : String} {delivery : Int}
    {trace : Execution.Trace} {result : CaseResult}
    (run : Runs (executor.run case runId workerId delivery) trace result) :
    result.caseId = case.id ∧ result.workerId = workerId ∧ result.delivery = delivery ∧
      result.message = none ∧ (result.status = .passed →
        List.Forall₂ (fun step outcome =>
            Executed executor (executor.variablesOf case runId delivery) trace step outcome ∧
              outcome.status = .passed)
          case.phased result.steps) := by
  obtain ⟨started, cleanup, finished, first, last, results, final, rfl, phasesRun, teardownRun,
    rfl⟩ := run_parts run
  refine ⟨rfl, rfl, rfl, rfl, ?_⟩
  intro status
  have passed := caseStatus_passed.mp status
  obtain ⟨tail, rfl, cleanedAll⟩ := cleanUp_performed case.teardown teardownRun
  obtain ⟨performed, upToFailure, _⟩ := runPhases_performed phasesRun
  have complete : results.length = case.attempted.length :=
    upToFailure.length_eq fun result member => passed result (List.mem_append_left _ member)
  rw [complete, List.take_length] at performed
  have cleaned := cleanedAll.executed
  have tried := performed.executed
  have all : List.Forall₂ (Executed executor (executor.variablesOf case runId delivery)
      (⟨.monotonic, started⟩ :: (first ++ ⟨.monotonic, cleanup⟩ ::
        (last ++ ⟨.monotonic, finished⟩ :: [])))) case.phased (results ++ tail) := by
    refine List.rel_append ?_ ?_
    · exact tried.imp (fun _ _ executed => executed.of_within ⟨[_], _, rfl⟩)
    · refine cleaned.imp (fun _ _ executed => executed.of_within ?_)
      exact ⟨⟨.monotonic, started⟩ :: (first ++ [⟨.monotonic, cleanup⟩]), _, by simp; rfl⟩
  have both := (List.forall₂_and_left _ _).mpr ⟨passed, all.flip⟩
  exact both.flip.imp (fun _ _ outcome => ⟨outcome.2, outcome.1⟩)

end Execution

/-! ### A passing execution -/

namespace Sample

def harness : Harness where
  render _ step := .ok step
  request _ := .ok ("GET", "/health", [])
  responseErrors _ _ _ _ _ _ := .ok []
  loads _ := .error (valueError "no JSON")
  sha256 text := text

def executor : CaseExecutor where
  harness := harness
  baseUrl := "http://test"

def response : Response where
  statusCode := 200
  headers := []
  chunks := []

/-- Whoever sends the sample step gets the sample response at once. -/
theorem runs_send_step (sender : CaseExecutor) (vars : Variables) :
    Runs (sender.send step "GET" "/health" vars 60 {})
      [⟨.leaseValid, true⟩, ⟨.monotonic, (0 : Rat)⟩,
        ⟨.stream (sender.request step "GET" "/health" vars 60), Except.ok response⟩]
      (⟨1, some 200⟩, .ok ([], [])) := by
  rw [CaseExecutor.send]
  refine runs_query_bind.mpr ⟨true, _, rfl, ?_⟩
  refine runs_query_bind.mpr ⟨(0 : Rat), _, rfl, ?_⟩
  simp only [sub_zero]
  rw [if_neg (by norm_num)]
  refine runs_bind.mpr ⟨[_], [], (some 200, .ok ([], [])), rfl, ?_, .done⟩
  exact runs_query_bind.mpr ⟨Except.ok response, [], rfl, .done⟩

/-- What the loop of `send` asks about the sample step. -/
def sending (vars : Variables) : Execution.Trace :=
  [⟨.leaseValid, true⟩, ⟨.monotonic, (0 : Rat)⟩,
    ⟨.stream (executor.request step "GET" "/health" vars 60), Except.ok response⟩]

theorem runs_send (vars : Variables) :
    Runs (executor.send step "GET" "/health" vars 60 {}) (sending vars)
      (⟨1, some 200⟩, .ok ([], [])) :=
  runs_send_step executor vars

def passed : StepResult where
  name := "health"
  phase := .test
  status := .passed
  elapsedMs := elapsedMs (0 - 0)
  httpStatus := some 200

theorem runs_step (vars : Variables) :
    Runs (executor.step step .test vars 60)
      (⟨.monotonic, (0 : Rat)⟩ :: sending vars ++ [⟨.monotonic, (0 : Rat)⟩]) passed := by
  refine runs_query_bind.mpr ⟨(0 : Rat), _, rfl, ?_⟩
  refine runs_bind.mpr ⟨_, [_], _, rfl, runs_send vars, ?_⟩
  exact runs_query_bind.mpr ⟨(0 : Rat), [], rfl, .done⟩

def result : CaseResult where
  caseId := "health"
  status := .passed
  elapsedMs := elapsedMs (0 - 0)
  workerId := "worker"
  steps := [passed]

def trace : Execution.Trace :=
  ⟨.monotonic, (0 : Rat)⟩ :: (⟨.monotonic, (0 : Rat)⟩ ::
    sending (executor.variablesOf case "run" 1) ++ [⟨.monotonic, (0 : Rat)⟩]) ++
      [⟨.monotonic, (0 : Rat)⟩, ⟨.monotonic, (0 : Rat)⟩]

/-- The sample case passes when the server answers at once. -/
theorem runs_case : Runs (executor.run case "run" "worker" 1) trace result := by
  refine runs_query_bind.mpr ⟨(0 : Rat), _, rfl, ?_⟩
  have deadline : (0 : Rat) + executor.caseTimeout = 60 := by simp [executor]
  rw [deadline]
  refine runs_bind.mpr ⟨_, [_, _], [passed], rfl, ?_, ?_⟩
  · refine runs_bind.mpr ⟨[], _, [], rfl, .done, ?_⟩
    exact runs_bind.mpr ⟨_, [], passed, (List.append_nil _).symm, runs_step _, .done⟩
  · refine runs_query_bind.mpr ⟨(0 : Rat), _, rfl, ?_⟩
    refine runs_bind.mpr ⟨[], _, [passed], rfl, .done, ?_⟩
    exact runs_query_bind.mpr ⟨(0 : Rat), [], rfl, .done⟩

/-! An execution that loses its lease before the first request. -/

def refusal : StepResult where
  name := "health"
  phase := .test
  status := .error
  elapsedMs := elapsedMs (0 - 0)
  attempts := 0
  messages := ["execution error (RuntimeError)"]

def interrupted : CaseResult where
  caseId := "health"
  status := .error
  elapsedMs := elapsedMs (0 - 0)
  workerId := "worker"
  steps := [refusal]

def interruption : Execution.Trace :=
  [⟨.monotonic, (0 : Rat)⟩, ⟨.monotonic, (0 : Rat)⟩, ⟨.leaseValid, false⟩,
    ⟨.monotonic, (0 : Rat)⟩, ⟨.monotonic, (0 : Rat)⟩, ⟨.monotonic, (0 : Rat)⟩]

theorem runs_refused (vars : Variables) :
    Runs (executor.step step .test vars 60)
      [⟨.monotonic, (0 : Rat)⟩, ⟨.leaseValid, false⟩, ⟨.monotonic, (0 : Rat)⟩] refusal := by
  have send : Runs (executor.send step "GET" "/health" vars 60 {})
      [⟨.leaseValid, false⟩] ({}, .error leaseLost) := by
    rw [CaseExecutor.send]
    exact runs_query_bind.mpr ⟨false, [], rfl, .done⟩
  refine runs_query_bind.mpr ⟨(0 : Rat), _, rfl, ?_⟩
  refine runs_bind.mpr ⟨_, [_], _, rfl, send, ?_⟩
  exact runs_query_bind.mpr ⟨(0 : Rat), [], rfl, .done⟩

/-- The sample case when its only step is refused. -/
theorem runs_interrupted :
    Runs (executor.run case "run" "worker" 1) interruption interrupted := by
  refine runs_query_bind.mpr ⟨(0 : Rat), _, rfl, ?_⟩
  have deadline : (0 : Rat) + executor.caseTimeout = 60 := by simp [executor]
  rw [deadline]
  refine runs_bind.mpr ⟨[_, _, _], [_, _], [refusal], rfl, ?_, ?_⟩
  · refine runs_bind.mpr ⟨[], _, [], rfl, .done, ?_⟩
    exact runs_bind.mpr ⟨_, [], refusal, (List.append_nil _).symm, runs_refused _, .done⟩
  · refine runs_query_bind.mpr ⟨(0 : Rat), _, rfl, ?_⟩
    refine runs_bind.mpr ⟨[], _, [refusal], rfl, .done, ?_⟩
    exact runs_query_bind.mpr ⟨(0 : Rat), [], rfl, .done⟩

end Sample

end ApiSentinel
