import ApiSentinel.Execution

/-!
# Which steps a case executes

A case tries its setup and test steps in order up to the first that does not pass, and
then executes every teardown step.  Its status is that of its worst step.
-/

namespace ApiSentinel

open Program

section CaseLaw

variable {executor : CaseExecutor} {vars : Variables} {deadline : Rat}

theorem caseStatus_error {results : List StepResult} :
    CaseExecutor.caseStatus results = .error ↔ ∃ result ∈ results, result.status = .error := by
  unfold CaseExecutor.caseStatus
  split
  · next error => simpa using error
  · next noError =>
      have none : ¬ ∃ result ∈ results, result.status = .error := by simpa using noError
      split <;> simp [none]

theorem caseStatus_failed {results : List StepResult} :
    CaseExecutor.caseStatus results = .failed ↔ (∃ result ∈ results, result.status = .failed) ∧
      ∀ result ∈ results, result.status ≠ .error := by
  unfold CaseExecutor.caseStatus
  split
  · next error =>
      obtain ⟨result, member, status⟩ := List.any_eq_true.mp error
      constructor
      · intro impossible
        cases impossible
      · rintro ⟨_, noError⟩
        exact (noError result member (by simpa using status)).elim
  · next noError =>
      have none : ∀ result ∈ results, result.status ≠ .error := by simpa using noError
      split
      · next failure => exact ⟨fun _ => ⟨by simpa using failure, none⟩, fun _ => rfl⟩
      · next noFailure =>
          have noneFailed : ¬ ∃ result ∈ results, result.status = .failed := by
            simpa using noFailure
          simp [noneFailed]

/-- The law of case execution: the setup and test steps are tried in order up to the
first that does not pass, every teardown step is executed once after them, and the
status is that of the worst result. -/
theorem case_law {case : Case} {runId workerId : String} {delivery : Int}
    {trace : Execution.Trace} {result : CaseResult}
    (run : Runs (executor.run case runId workerId delivery) trace result) :
    ∃ (started cleanup finished : Rat) (tries cleaning : Execution.Trace)
      (tried cleaned : List StepResult),
      trace = ⟨.monotonic, started⟩ ::
        (tries ++ ⟨.monotonic, cleanup⟩ :: (cleaning ++ [⟨.monotonic, finished⟩])) ∧
      result.steps = tried ++ cleaned ∧
      Performed executor (executor.variablesOf case runId delivery)
        (started + executor.caseTimeout) (case.attempted.take tried.length) tried tries ∧
      UpToFailure case.attempted.length tried ∧
      Performed executor (executor.variablesOf case runId delivery)
        (cleanup + min executor.caseTimeout 15) (case.teardown.map (Prod.mk Phase.teardown))
        cleaned cleaning ∧
      (result.status = .error ↔ ∃ outcome ∈ result.steps, outcome.status = .error) ∧
      (result.status = .failed ↔ (∃ outcome ∈ result.steps, outcome.status = .failed) ∧
        ∀ outcome ∈ result.steps, outcome.status ≠ .error) ∧
      (result.status = .passed ↔ tried.length = case.attempted.length ∧
        ∀ outcome ∈ result.steps, outcome.status = .passed) ∧
      ((∃ outcome ∈ result.steps, outcome.phase = .setup ∧ outcome.status ≠ .passed) →
        ∀ outcome ∈ result.steps, outcome.phase ≠ .test) := by
  obtain ⟨started, cleanup, finished, tries, cleaning, tried, steps, rfl, phases, teardown, rfl⟩ :=
    run_parts run
  obtain ⟨performed, upToFailure, setupOnly⟩ := runPhases_performed phases
  obtain ⟨cleaned, rfl, cleanedAll⟩ := cleanUp_performed case.teardown teardown
  refine ⟨started, cleanup, finished, tries, cleaning, tried, cleaned, rfl, rfl, performed,
    upToFailure, cleanedAll, caseStatus_error, caseStatus_failed, ?_, ?_⟩
  · rw [caseStatus_passed, iff_and_self]
    intro passed
    exact upToFailure.length_eq fun outcome member => passed outcome (List.mem_append_left _ member)
  · have cleanedPhase := cleanedAll.phase_eq (List.Subset.refl _)
    rintro ⟨outcome, member, phase, failed⟩
    rcases List.mem_append.mp member with attempted | torn
    · intro other otherMember
      rcases List.mem_append.mp otherMember with otherAttempted | otherTorn
      · rw [setupOnly ⟨outcome, attempted, phase, failed⟩ other otherAttempted]
        decide
      · rw [cleanedPhase other otherTorn]
        decide
    · rw [cleanedPhase outcome torn] at phase
      cases phase

/-- The sample case that passes executes its only step. -/
theorem case_law_sample :
    ∃ tried cleaned, Sample.result.steps = tried ++ cleaned ∧ tried.length = 1 := by
  obtain ⟨_, _, _, _, _, tried, cleaned, _, steps, _, _, _, _, _, passed, _⟩ :=
    case_law Sample.runs_case
  exact ⟨tried, cleaned, steps, (passed.mp rfl).1⟩

end CaseLaw

end ApiSentinel
