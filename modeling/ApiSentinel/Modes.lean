import ApiSentinel.CaseLaw
import ApiSentinel.Commands
import ApiSentinel.StepVerdicts

/-!
# The two modes

What a conclusive distributed run of finite cases reports, when every case was delivered once,
is what a local run of the same suite can report, but for the names of the workers.
-/

namespace ApiSentinel

open Program Redis

/-! ### Executions here and there -/

section Executions

variable {executor : CaseExecutor} {case : Case} {runId workerId : String} {delivery : Int}
  {trace : Execution.Trace} {result : CaseResult}

/-- A step that finds its lease lost is an error. -/
theorem Performed.error_of_lost {vars : Variables} {deadline : Rat}
    {steps : List (Phase × Step)} {results : List StepResult}
    (performed : Performed executor vars deadline steps results trace)
    (lost : ⟨.leaseValid, false⟩ ∈ trace) : ∃ result ∈ results, result.status = .error := by
  induction performed with
  | nil => cases lost
  | @cons phase step steps result results part trace ran rest ih =>
      rcases List.mem_append.mp lost with here | later
      · exact ⟨result, List.mem_cons_self, (stepping_of_runs ran).error_of_problem (.lost here)⟩
      · obtain ⟨result, member, isError⟩ := ih later
        exact ⟨result, List.mem_cons_of_mem _ member, isError⟩

/-- A case that has passed or failed has kept its lease to the end. -/
theorem not_lost_of_run (run : Runs (executor.run case runId workerId delivery) trace result)
    (settled : result.status ≠ .error) : ⟨.leaseValid, false⟩ ∉ trace := by
  obtain ⟨started, cleanup, finished, tries, cleaning, tried, steps, rfl, phases, teardown, rfl⟩ :=
    run_parts run
  obtain ⟨cleaned, rfl, cleaningPerformed⟩ := cleanUp_performed _ teardown
  have triedPerformed := (runPhases_performed phases).1
  intro lost
  refine settled (caseStatus_error.mpr ?_)
  simp at lost
  rcases lost with early | late
  · obtain ⟨result, member, isError⟩ := triedPerformed.error_of_lost early
    exact ⟨result, List.mem_append_left _ member, isError⟩
  · obtain ⟨result, member, isError⟩ := cleaningPerformed.error_of_lost late
    exact ⟨result, List.mem_append_right _ member, isError⟩

/-- The same result of another worker. -/
def CaseResult.signed (result : CaseResult) (workerId : String) : CaseResult :=
  { result with workerId }

/-- An execution does not depend on who executes. -/
theorem runs_signed (run : Runs (executor.run case runId workerId delivery) trace result)
    (other : String) :
    Runs (executor.run case runId other delivery) trace (result.signed other) := by
  obtain ⟨started, cleanup, finished, tries, cleaning, tried, steps, rfl, phases, teardown, rfl⟩ :=
    run_parts run
  refine runs_query_bind.mpr ⟨started, _, rfl, ?_⟩
  refine runs_bind.mpr ⟨tries, _, tried, rfl, phases, ?_⟩
  refine runs_query_bind.mpr ⟨cleanup, _, rfl, ?_⟩
  refine runs_bind.mpr ⟨cleaning, _, steps, rfl, teardown, ?_⟩
  exact runs_query_bind.mpr ⟨finished, [], rfl, .done⟩

theorem allowed_of_not_lost (kept : ⟨.leaseValid, false⟩ ∉ trace) :
    Pool.Allowed keepsLease trace := by
  rintro ⟨question, answer⟩ member
  cases question with
  | leaseValid =>
      cases answer with
      | true => rfl
      | false => exact (kept member).elim
  | _ => trivial

end Executions

/-! ### Executors here and there -/

/-- Options with the same values make the same executor. -/
theorem init_of_lookups {checkNetloc : List Char → Except Raised Unit} {harness : Harness}
    {baseUrl other : String} {seed : Int} {merged options : List (String × Json)}
    {executor : CaseExecutor} (target : validateBaseUrl checkNetloc other = .ok executor.baseUrl)
    (lookups : ∀ key, merged.lookup key = options.lookup key)
    (made : CaseExecutor.init checkNetloc harness baseUrl seed merged = .ok executor) :
    CaseExecutor.init checkNetloc harness other seed options = .ok executor := by
  have numbers : ∀ name default,
      numberOption merged name default = numberOption options name default := by
    intro name default
    rw [numberOption, lookups, numberOption]
  have own := (of_init made).2.2
  unfold CaseExecutor.init at made ⊢
  split at made
  · cases made
  · next expected =>
      have known : options.find? (fun entry => entry.1 ∉
          ["timeout", "case_timeout", "max_response_bytes", "connect_retries"]) = none := by
        rw [List.find?_eq_none] at expected ⊢
        intro entry member
        have present : merged.lookup entry.1 ≠ none := by
          rw [lookups, ne_eq, List.lookup_eq_none_iff]
          intro absent
          exact absurd (absent entry member) (by simp)
        rw [ne_eq, List.lookup_eq_none_iff] at present
        push Not at present
        obtain ⟨given, listed, same⟩ := present
        have equal : entry.1 = given.1 := by simpa using same
        rw [equal]
        exact expected given listed
      rw [known]
      simp only [own, numbers] at made
      simp only [target]
      exact made

/-- A local run of what a coordinator has submitted, on the same software as its workers, who
have no options of their own but those that the plan sets. -/
structure LocalRun.Matches {Text : Type} (run : LocalRun) (call : Coordination)
    (platforms : Nat → Platform Text) (settings : Nat → WorkerOptions) : Prop where
  suite : run.suite = call.suite
  runId : run.runId = call.queue.runId
  url : call.baseUrl = some run.baseUrl
  named : run.baseUrl ≠ ""
  options : run.options = call.executorOptions
  distinct : (run.options.map Prod.fst).Nodup
  set : ∀ name, ∀ entry ∈ (settings name).executorOptions, entry.1 ∈ run.options.map Prod.fst
  checkNetloc : ∀ name, (platforms name).checkNetloc = run.checkNetloc
  harness : ∀ name members contract, call.contract = .obj members →
    Contract.init (platforms name).library members = .ok contract →
      run.harness = contract.harness (platforms name).host

section Matches

variable {Text : Type} {codec : Codec Text} {call : Coordination}
  {platforms : Nat → Platform Text} {settings : Nat → WorkerOptions} {run : LocalRun}

theorem lookup_merge_of_set {own planned : List (String × Json)}
    (distinct : (planned.map Prod.fst).Nodup)
    (set : ∀ entry ∈ own, entry.1 ∈ planned.map Prod.fst) (key : String) :
    (merge own planned).lookup key = planned.lookup key := by
  rw [lookup_merge distinct]
  cases found : planned.lookup key with
  | some value => rfl
  | none =>
      rw [Option.none_or, List.lookup_eq_none_iff]
      rw [List.lookup_eq_none_iff] at found
      intro entry member
      obtain ⟨given, listed, same⟩ := List.mem_map.mp (set entry member)
      exact same ▸ found given listed

/-- The executor of the local run is that of every worker. -/
theorem LocalRun.Matches.executor (agrees : run.Matches call platforms settings) {name : Nat}
    {crew : Crew} (works : WorksBy (platforms name) (settings name) call.submission.plan crew) :
    run.executor = .ok crew.worker.executor := by
  obtain ⟨members, contract, object, loaded, _, harness⟩ := works.contract
  have made := works.options
  rw [harness, ← agrees.harness name members contract object loaded, agrees.checkNetloc] at made
  have target := works.planned run.baseUrl agrees.url agrees.named
  rw [agrees.checkNetloc] at target
  have execution : call.submission.plan.execution = run.options := agrees.options.symm
  have seed : call.submission.plan.suite.seed = run.suite.seed :=
    congrArg Suite.seed agrees.suite.symm
  rw [execution, seed] at made
  exact init_of_lookups target (lookup_merge_of_set agrees.distinct (agrees.set name)) made

/-- `run` with and without `--distributed`, and workers from the command line on the same
software. -/
theorem LocalRun.matches_of_arguments {installation : Installation} {args : RunArguments}
    {checked : Installation.Checked} {baseUrl : String}
    (sent : call.submission = Installation.submission args checked baseUrl)
    (accepted : validateBaseUrl installation.checkNetloc args.connection.baseUrl = .ok baseUrl)
    (loaded : Contract.init installation.library checked.document = .ok checked.contract)
    (software : ∀ name, (platforms name).library = installation.library ∧
      (platforms name).host = installation.host ∧
      (platforms name).checkNetloc = installation.checkNetloc)
    (workers : ∀ name, ∃ connection : Connection,
      (settings name).executorOptions = connection.options) :
    (installation.localRun args checked baseUrl call.queue.runId).Matches call platforms
      settings where
  suite := (congrArg Submission.suite sent).symm
  runId := rfl
  url := congrArg Submission.baseUrl sent
  named := Deployment.ne_empty_of_validated accepted
  options := (congrArg Submission.executorOptions sent).symm
  distinct := (by decide : ["timeout", "case_timeout"].Nodup)
  set name entry member := by
    obtain ⟨connection, given⟩ := workers name
    rw [given] at member
    have key : entry.1 ∈ ["timeout", "case_timeout"] := List.mem_map_of_mem member
    exact key
  checkNetloc name := (software name).2.2
  harness name members contract object made := by
    have document : call.contract = .obj checked.document := congrArg Submission.contract sent
    obtain rfl := Json.obj.inj (object.symm.trans document)
    rw [(software name).1, loaded] at made
    obtain rfl := Except.ok.inj made
    rw [(software name).2.1]
    rfl

end Matches

/-! ### Results here and there -/

theorem exists_forall₂ {One Two : Type} {relates : One → Two → Prop} {ones : List One}
    (each : ∀ one ∈ ones, ∃ two, relates one two) : ∃ twos, List.Forall₂ relates ones twos := by
  induction ones with
  | nil => exact ⟨[], .nil⟩
  | cons one ones ih =>
      obtain ⟨two, first⟩ := each one List.mem_cons_self
      obtain ⟨twos, rest⟩ := ih fun other member => each other (List.mem_cons_of_mem _ member)
      exact ⟨two :: twos, .cons first rest⟩

/-- A report that is not about its workers says the same of other ones. -/
theorem exitCode_signed {report other : RunReport} {workerId : String}
    (same : other.results.Perm (report.results.map (CaseResult.signed · workerId)))
    (expected : other.expected = report.expected)
    (error : other.infrastructureError = report.infrastructureError) :
    other.exitCode = report.exitCode := by
  have any : ∀ status : Status, other.results.any (fun result => result.status == status) =
      report.results.any (fun result => result.status == status) := by
    intro status
    rw [same.any_eq, List.any_map]
    rfl
  have length : other.results.length = report.results.length := by
    rw [same.length_eq, List.length_map]
  simp only [RunReport.exitCode, any, length, expected, error]

/-- A local run has a schedule for any executions of its cases. -/
theorem LocalRun.exists_ends {run : LocalRun} {listed : List CaseResult}
    (manned : 0 < run.concurrency) (first : run.suite.cases ≠ [])
    (each : ∀ case ∈ run.suite.cases, ∃ executor, run.executor = .ok executor ∧
      ∃ result ∈ listed, run.Executes executor case result) :
    ∃ results, run.Ends (.ok results) ∧
      results.map CaseResult.caseId = run.suite.cases.map Case.id ∧ results ⊆ listed := by
  obtain ⟨case, member⟩ := List.exists_mem_of_ne_nil _ first
  obtain ⟨executor, made, _⟩ := each case member
  have executed : ∀ case ∈ run.suite.cases, ∃ result,
      result ∈ listed ∧ run.Executes executor case result := by
    intro case member
    obtain ⟨other, again, result, here, executes⟩ := each case member
    obtain rfl := Except.ok.inj (made.symm.trans again)
    exact ⟨result, here, executes⟩
  obtain ⟨results, ran⟩ := exists_forall₂ executed
  have tasks : List.Forall₂
      (fun task result => ∃ trace, Pool.Allowed keepsLease trace ∧ Runs task trace result)
      (executor.tasks run.suite run.runId) results := by
    rw [CaseExecutor.tasks, List.forall₂_map_left_iff]
    refine ran.imp fun case result both => ?_
    obtain ⟨_, trace, kept, runs⟩ := both
    exact ⟨trace, allowed_of_not_lost kept, runs⟩
  obtain ⟨pool, reached, rfl⟩ := Pool.exists_reached manned tasks
  refine ⟨pool.results, .returned made reached ran.length_eq.symm, ?_, ?_⟩
  · have same : List.Forall₂ (· = ·) (run.suite.cases.map Case.id)
        (pool.results.map CaseResult.caseId) := by
      rw [List.forall₂_map_left_iff, List.forall₂_map_right_iff]
      refine ran.imp fun case result both => ?_
      obtain ⟨_, _, _, runs⟩ := both
      exact (run_executed runs).1.symm
    rw [List.forall₂_eq_eq_eq] at same
    exact same.symm
  · intro result member
    obtain ⟨index, below, rfl⟩ := List.getElem_of_mem member
    have here : index < run.suite.cases.length := ran.length_eq ▸ below
    exact (ran.get here below).1

/-- Results of which each is listed, and no two are of one case, are all that are listed. -/
theorem perm_of_ids {results listed : List CaseResult} {ids : List String} (distinct : ids.Nodup)
    (each : results.map CaseResult.caseId = ids)
    (all : (listed.map CaseResult.caseId).Perm ids) (subset : results ⊆ listed) :
    results.Perm listed := by
  have nodup : results.Nodup := .of_map CaseResult.caseId (each ▸ distinct)
  have length : listed.length ≤ results.length := by
    have lengths := all.length_eq
    rw [← each, List.length_map, List.length_map] at lengths
    exact lengths.le
  exact (nodup.subperm subset).perm_of_length_le length

namespace Sample

/-- The local run of what the sample coordinator submits. -/
def beside : LocalRun := { here with options := [] }

theorem matches_beside :
    beside.Matches monitoring (fun _ => platform) (fun _ => oneThread) where
  suite := rfl
  runId := rfl
  url := rfl
  named := by decide
  options := rfl
  distinct := List.nodup_nil
  set _ _ none := by cases none
  checkNetloc _ := rfl
  harness _ members contract object made := by
    obtain rfl : healthDocument = members := Json.obj.inj object
    have loaded : Contract.init library healthDocument = .ok healthContract := by rfl
    obtain rfl := Except.ok.inj (loaded.symm.trans made)
    rfl

end Sample

end ApiSentinel
