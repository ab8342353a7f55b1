import ApiSentinel.Plans
import ApiSentinel.Pools
import ApiSentinel.ReportVerdicts

/-!
# Local runs

`run_local` executes all cases of a suite in the threads of one process, and its results are
in the order of the suite.
-/

namespace ApiSentinel

open Program
open Relation (ReflTransGen)

/-- The answers to a local execution: its lease is always valid. -/
def keepsLease : (question : Ask) → Answer question → Prop
  | .leaseValid, valid => valid = true
  | _, _ => True

theorem exists_keepsLease (question : Ask) : ∃ answer, keepsLease question answer := by
  cases question with
  | monotonic => exact ⟨0, trivial⟩
  | leaseValid => exact ⟨true, rfl⟩
  | stream request => exact ⟨.error ⟨leaseLost, false⟩, trivial⟩
  | sleep seconds => exact ⟨(), trivial⟩

/-- What `run_local` submits to its threads. -/
def CaseExecutor.tasks (executor : CaseExecutor) (suite : Suite) (runId : String) :
    List (Execution CaseResult) :=
  suite.cases.map fun case => executor.run case runId "local" 1

/-- The arguments of `run_local`, and what `urlsplit` does to a network location. -/
structure LocalRun where
  checkNetloc : List Char → Except Raised Unit
  suite : Suite
  harness : Harness
  baseUrl : String
  runId : String
  concurrency : Nat
  options : List (String × Json)

namespace LocalRun

variable (run : LocalRun)

def executor : Except Raised CaseExecutor :=
  CaseExecutor.init run.checkNetloc run.harness run.baseUrl run.suite.seed run.options

/-- A schedule of the threads. -/
abbrev Step (executor : CaseExecutor) :=
  @Pool.Step Ask CaseResult Answer (executor.tasks run.suite run.runId) run.concurrency keepsLease

abbrev Reached (executor : CaseExecutor) (pool : Pool Ask Answer CaseResult) : Prop :=
  ReflTransGen (run.Step executor) {} pool

/-- What `run_local` raises or returns. -/
inductive Ends : Except Raised (List CaseResult) → Prop
  | raised {raised} (failed : run.executor = .error raised) : Ends (.error raised)
  | returned {executor pool} (made : run.executor = .ok executor)
      (reached : run.Reached executor pool)
      (all : pool.results.length = run.suite.cases.length) : Ends (.ok pool.results)

/-- The report that `main` makes of the results. -/
def report (results : List CaseResult) (seconds : Rat) : RunReport where
  runId := run.runId
  suite := run.suite.name
  mode := .local
  expected := run.suite.cases.length
  elapsedMs := elapsedMs seconds
  results

/-- The result of an execution of a case that has kept its lease. -/
def Executes (executor : CaseExecutor) (case : Case) (result : CaseResult) : Prop :=
  ∃ trace, ⟨.leaseValid, false⟩ ∉ trace ∧ Runs (executor.run case run.runId "local" 1) trace result

end LocalRun

section Run

variable {run : LocalRun} {executor : CaseExecutor} {pool : Pool Ask Answer CaseResult}
  {results : List CaseResult}

theorem keepsLease_of_allowed {trace : Execution.Trace} (allowed : Pool.Allowed keepsLease trace) :
    ⟨.leaseValid, false⟩ ∉ trace := by
  intro member
  cases allowed _ member

/-- The results are those of the cases, in order. -/
theorem LocalRun.results_of_reached (reached : run.Reached executor pool)
    (all : pool.results.length = run.suite.cases.length) :
    List.Forall₂ (run.Executes executor) run.suite.cases pool.results := by
  have ran := (Pool.Sound.reached reached).results
  rw [all, List.take_of_length_le (by simp [CaseExecutor.tasks]), CaseExecutor.tasks,
    List.forall₂_map_left_iff] at ran
  exact ran.imp fun case result ⟨trace, allowed, runs⟩ =>
    ⟨trace, keepsLease_of_allowed allowed, runs⟩

/-- Whatever the schedule of the threads and the answers of the servers, a local run ends, is
never stuck before all results are there, and never executes more cases at once than it has
threads; and its results are those of executions of the cases, in the order of the suite, which
have all kept their lease. -/
theorem run_local_law (run : LocalRun) (manned : 0 < run.concurrency) (executor : CaseExecutor) :
    (∀ pool, run.Reached executor pool → pool.busy ≤ run.concurrency ∧
      (pool.results.length < run.suite.cases.length → ∃ next, run.Step executor pool next)) ∧
    (∀ course : Nat → Pool Ask Answer CaseResult, course 0 = {} →
      ∃ time, ¬ run.Step executor (course time) (course (time + 1))) ∧
    ∀ pool, run.Reached executor pool → pool.results.length = run.suite.cases.length →
      List.Forall₂ (run.Executes executor) run.suite.cases pool.results := by
  refine ⟨fun pool reached => ?_, fun course => Pool.ends course,
    fun pool => LocalRun.results_of_reached⟩
  have sound := Pool.Sound.reached reached
  refine ⟨sound.busy_le, fun more => sound.progress manned exists_keepsLease ?_⟩
  simpa [CaseExecutor.tasks] using more

end Run

/-! ### The reports of runs -/

/-- A report that `distributed_run` or the caller of `run_local` makes of a suite. -/
inductive ReportOf : Suite → RunReport → Prop
  | ranHere {run : LocalRun} {results : List CaseResult} {seconds : Rat}
      (ends : run.Ends (.ok results)) : ReportOf run.suite (run.report results seconds)
  | distributed {Text : Type} {codec : Codec Text} {call : Coordination}
      {produced : Job → CaseResult → Prop} {micros : Int} {start : Db Text} {seconds : Rat}
      {steps : Nat} {system : System Text} {report : RunReport}
      (started : Started codec micros call.submission start)
      (reached : Reaches codec call produced start seconds steps system)
      (returned : system.coordinator.point = .returned report) :
      ReportOf call.suite report

section ReportOf

variable {suite : Suite} {report : RunReport}

/-- It has one entry for each case, and expects as many. -/
theorem ReportOf.complete (made : ReportOf suite report) :
    (report.results.map CaseResult.caseId).Perm (suite.cases.map Case.id) ∧
      report.results.length = report.expected := by
  cases made with
  | @ranHere run results seconds ends =>
      cases ends with
      | @returned executor pool made reached all =>
          have ran := LocalRun.results_of_reached reached all
          have ids : List.Forall₂ (· = ·) (run.suite.cases.map Case.id)
              (pool.results.map CaseResult.caseId) := by
            rw [List.forall₂_map_left_iff, List.forall₂_map_right_iff]
            exact ran.imp fun case result ⟨_, _, runs⟩ => (run_executed runs).1.symm
          rw [List.forall₂_eq_eq_eq] at ids
          exact ⟨.of_eq ids.symm, all⟩
  | @distributed Text codec call produced micros start seconds steps system _ started reached
      returned =>
      obtain ⟨timed, created⟩ := started.created
      obtain ⟨told, collected, planned, now, rfl⟩ := reached.concluded created returned
      have ids := padded_perm system.coordinator.error collected planned
      have length := ids.length_eq
      rw [List.length_map, List.length_map] at length
      exact ⟨ids, length⟩

theorem ReportOf.patterns (made : ReportOf suite report) :
    ∀ result ∈ report.results, matchesIdPattern result.caseId = true := by
  intro result listed
  have id := made.complete.1.subset (List.mem_map_of_mem listed)
  obtain ⟨case, _, same⟩ := List.mem_map.mp id
  exact same ▸ case.id_pattern

end ReportOf

namespace Sample

def ready : Case := { case with id := "ready", id_pattern := rfl }

def readiness : Suite where
  name := "smoke"
  cases := [case, ready]
  unique_ids := by decide

/-- Two cases for two threads. -/
def localRun : LocalRun where
  checkNetloc := fun _ => .ok ()
  suite := readiness
  harness
  baseUrl := "http://test"
  runId := "run"
  concurrency := 2
  options := []

end Sample

/-- Both threads execute their cases at the same time, one of them goes on, and whichever does,
the run comes to its end. -/
theorem run_local_law_sample :
    (∃ pool, Sample.localRun.Reached Sample.executor pool ∧ pool.started = 2 ∧ pool.busy ≤ 2 ∧
      ∃ next, Sample.localRun.Step Sample.executor pool next) ∧
    ∀ course : Nat → Pool Ask Answer CaseResult, course 0 = {} →
      ∃ time, ¬ Sample.localRun.Step Sample.executor (course time) (course (time + 1)) := by
  have submitted := ReflTransGen.single (@Pool.Step.submitted _ _ _
    (Sample.executor.tasks Sample.readiness "run") 2 keepsLease {} (by decide))
  have both := submitted.tail (.submitted (by decide))
  have started := both.tail (.started (by decide) (by decide) rfl)
  have busy := started.tail (.started (by decide) (by decide) rfl)
  obtain ⟨goesOn, ends, _⟩ := run_local_law Sample.localRun (by decide) Sample.executor
  exact ⟨⟨_, busy, rfl, (goesOn _ busy).1, (goesOn _ busy).2 (by decide)⟩, ends⟩

end ApiSentinel
