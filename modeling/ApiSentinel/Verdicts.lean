import ApiSentinel.Completeness
import ApiSentinel.Worker

/-!
# What a report says about the executions

Here workers complete their jobs only with what `CaseExecutor.run` returned.  A
zero exit code then stands for a passing execution of every step of every case.
An accepted result reaches the report exactly if it was accepted before the
coordinator's last look at the results.
-/

namespace ApiSentinel

open Redis Program

/-- The results that some workers can complete a job with. -/
def Coordination.executedBy (call : Coordination) (workers : Set Worker) (job : Job)
    (result : CaseResult) : Prop :=
  ∃ worker ∈ workers, ∃ trace, worker.Executes call.queue.runId job trace result

/-- An execution that ran every step of the case, each with step status passed. -/
def Worker.Passes (worker : Worker) (runId : String) (job : Job) (trace : Execution.Trace)
    (result : CaseResult) : Prop :=
  worker.Executes runId job trace result ∧
    List.Forall₂ (fun step outcome =>
      Executed worker.executor (worker.executor.variablesOf job.case runId job.delivery) trace
          step outcome ∧ outcome.status = .passed)
      job.case.phased result.steps

section Reached

variable {Text : Type} {codec : Codec Text} {call : Coordination} {workers : Set Worker}
  {micros : Int} {start : Db Text} {seconds : Rat} {steps : Nat} {system : System Text}
  {report : RunReport}

end Reached

namespace Sample

theorem executed : coordination.executedBy {worker} job result :=
  ⟨worker, rfl, trace, runs_case⟩

/-- The worker has completed the sample case, and the coordinator has read its result. -/
def observed : System Document where
  db := completed
  seconds := 0
  coordinator := { results := [result], point := .closing }
  jobs := [job]
  accepted := [⟨3000, job, result, live 3000 leased⟩]
  lastRead := live 4000 completed

theorem reaches_observed : Reaches Codec.plain coordination (coordination.executedBy {worker})
    start 0 1 observed := by
  have claimed : Reaches Codec.plain coordination (coordination.executedBy {worker}) start 0 0
      { db := leased, seconds := 0, jobs := [job] } :=
    .worker .created (@WorkerStep.claim _ _ _ _ 2000000 "token" 30 (.ok (some job)) leased
      (Prod.ext rfl rfl))
  have accepted := claimed.worker (@WorkerStep.accepted _ _ _ _ 3000000 job result completed
    List.mem_cons_self executed (Prod.ext rfl rfl))
  exact accepted.coordinator (@CoordinatorStep.results _ _ _ _ 4000000 _ [result] rfl (.refl _)
    rfl)

/-- The worker completes the sample case before the coordinator's first look. -/
theorem reaches_passed : ∃ system,
    Reaches Codec.plain coordination (coordination.executedBy {worker}) start 0 3 system ∧
      system.coordinator.point = .returned (coordination.report [result] none 5) ∧
      system.unread = [] ∧ Redis.exists? Key.metadata system.lastRead = true ∧
      (⟨3000, job, result, live 3000 leased⟩ : Acceptance Document) ∈ system.accepted := by
  have closed := reaches_observed.coordinator (@CoordinatorStep.closed _ _ _ _ 5000000 rfl)
  have returned := closed.coordinator (@CoordinatorStep.returned _ _ _ _ 5 rfl (by decide))
  exact ⟨_, returned, rfl, rfl, rfl, List.mem_cons_self⟩

end Sample

section Reached

variable {Text : Type} {codec : Codec Text} {call : Coordination} {workers : Set Worker}
  {micros : Int} {start : Db Text} {seconds : Rat} {steps : Nat} {system : System Text}
  {report : RunReport}

/-- Every accepted result is in the report exactly when the coordinator's last look
at the results came after the last acceptance and before the keys expired. -/
theorem accepted_reported (started : Started codec micros call.submission start)
    (reached : Reaches codec call (call.executedBy workers) start seconds steps system)
    (returned : system.coordinator.point = .returned report) :
    (∀ acceptance ∈ system.accepted, acceptance.result ∈ report.results) ↔
      system.unread = [] ∧
        (system.accepted ≠ [] → Redis.exists? Key.metadata system.lastRead = true) := by
  obtain ⟨timed, created⟩ := started.created
  obtain ⟨queued, read⟩ := reached.queued created
  obtain ⟨_, collected, _, now, rfl⟩ := reached.concluded created returned
  -- An entry of the coordinator carries a message, a result of an executor does not.
  have stored : ∀ acceptance ∈ system.accepted,
      acceptance.result ∈
        (call.report system.coordinator.results system.coordinator.error now).results →
      hget .results acceptance.job.case.id system.lastRead ≠ none := by
    intro acceptance accepted listed
    obtain ⟨_, ⟨worker, _, trace, execution⟩, own⟩ := queued.made acceptance accepted
    rcases mem_padded.mp listed with entry | ⟨case, _, _, made⟩
    · obtain ⟨text, held, _⟩ := collected.stored _ entry
      rw [own] at held
      simp [held]
    · have silent := (run_executed execution).2.2.2.1
      rw [made] at silent
      cases silent
  constructor
  · intro all
    constructor
    · rw [List.eq_nil_iff_forall_not_mem]
      intro acceptance unread
      obtain ⟨accepted, missing⟩ := read.fresh acceptance unread
      exact stored acceptance accepted (all acceptance accepted) missing
    · intro some
      obtain ⟨acceptance, accepted⟩ := List.exists_mem_of_ne_nil _ some
      rcases read.keys with inv | gone
      · exact exists_metadata inv.planned
      · have held := stored acceptance accepted (all acceptance accepted)
        rw [gone] at held
        exact (held rfl).elim
  · rintro ⟨allRead, present⟩
    intro acceptance accepted
    rcases read.kept acceptance accepted with unread | held | gone
    · rw [allRead] at unread
      cases unread
    · exact mem_padded.mpr (.inl (collected.mem held (codec.validate_dumpResult _)))
    · have impossible := present (List.ne_nil_of_mem accepted)
      rw [gone] at impossible
      cases impossible

end Reached

theorem accepted_reported_sample :
    Sample.result ∈ (Sample.coordination.report [Sample.result] none 5).results := by
  obtain ⟨system, reached, returned, unread, present, accepted⟩ := Sample.reaches_passed
  exact (accepted_reported Sample.started reached returned).mpr ⟨unread, fun _ => present⟩ _
    accepted

namespace Sample

/-- The keys after the sample case is claimed shortly before the deadline. -/
def leasedLate : Db Document := (RunQueue.claim Key.own Codec.plain 299000000 "token" 30 start).2

/-- The keys after its result is accepted at the last moment. -/
def completedLate : Db Document :=
  (RunQueue.complete Key.own Codec.plain 300500000 job result leasedLate).2

/-- The coordinator has decided to close the run, and the worker is still at it. -/
theorem reaches_exceeded : Reaches Codec.plain coordination (coordination.executedBy {worker})
    start 0 2
      { db := leasedLate
        seconds := 300
        coordinator := { error := some deadlineMessage, point := .closing }
        jobs := [job]
        lastRead := live 300000 leasedLate } := by
  have claimed : Reaches Codec.plain coordination (coordination.executedBy {worker}) start 0 0
      { db := leasedLate, seconds := 0, jobs := [job] } :=
    .worker .created (@WorkerStep.claim _ _ _ _ 299000000 "token" 30 (.ok (some job)) leasedLate
      (Prod.ext rfl rfl))
  have read := claimed.coordinator (@CoordinatorStep.results _ _ _ _ 300000000 _ [] rfl (.refl _)
    rfl)
  have reached : coordination.timeout ≤ 300 - coordination.started := by
    norm_num [coordination]
  exact read.coordinator (@CoordinatorStep.exceeded _ _ _ _ 300 rfl (by decide) reached)

end Sample

/-- The coordinator last looks at the results of the sample run just before its own
deadline of 300 seconds.  The deadline in Redis is a second later, and the worker's
result is accepted in between: the report has an error in its place. -/
theorem accepted_lost : ∃ system,
    Reaches Codec.plain Sample.coordination (Sample.coordination.executedBy {Sample.worker})
      Sample.start 0 4 system ∧
    system.failed = false ∧
    (∃ acceptance ∈ system.accepted, acceptance.result = Sample.result) ∧
    system.coordinator.point =
      .returned (Sample.coordination.report [] (some deadlineMessage) 301) ∧
    Sample.result ∉ (Sample.coordination.report [] (some deadlineMessage) 301).results := by
  have accepted := Sample.reaches_exceeded.worker (@WorkerStep.accepted _ _ _ _ 300500000
    Sample.job Sample.result Sample.completedLate List.mem_cons_self Sample.executed
    (Prod.ext rfl rfl))
  have closed := accepted.coordinator (@CoordinatorStep.closed _ _ _ _ 300600000 rfl)
  have returned := closed.coordinator (@CoordinatorStep.returned _ _ _ _ 301 rfl (by decide))
  refine ⟨_, returned, rfl, ⟨_, List.mem_cons_self, rfl⟩, rfl, ?_⟩
  intro listed
  have padding : Sample.result ∈ [missingResult (some deadlineMessage) Sample.case] := listed
  have silent := congrArg CaseResult.message (List.mem_singleton.mp padding)
  cases silent

end ApiSentinel
