import ApiSentinel.Processes
import ApiSentinel.Verdicts

/-!
# A fleet of worker processes

Every interleaving of the processes with their coordinator is one of the abstract workers
that the queue was verified with, and what the processes execute is determined by the
plan that the coordinator has published.
-/

namespace ApiSentinel

open Redis Program

variable {Text : Type} {codec : Codec Text} {run : Run} {db : Db Text}

/-! ### The published plan -/

/-- The plan of a run is stored until all its keys are gone. -/
def Published (text : Text) (db : Db Text) : Prop :=
  db = empty ∨ hget .metadata "payload" db = some (.doc text)

/-- No call but the `CREATE` of another run changes what is in `meta`, apart from the state. -/
theorem Inv.metadata_kept {now : Int} {call : Call Text} (inv : Inv codec run (live now db))
    (old : (record codec now call db).creates = false) {field : String} (other : field ≠ "state") :
    hget .metadata field (record codec now call db).after =
      hget .metadata field (live now db) := by
  rcases exec_cases codec now call (live now db) with
    kept | ⟨isActive, written, same, touched⟩ | ⟨_, closed⟩ | ⟨args, rfl, missing⟩
  · exact congrArg (hget .metadata field) kept
  · obtain ⟨expires, stored, future⟩ := inv.expiring.expires_of_active isActive
    have number : hgetNumber Key.own .metadata "expires" written = some expires := by
      simp [hgetNumber, same, stored, Bulk.toNumber?]
    calc hget .metadata field (record codec now call db).after
        = hget .metadata field (touch Key.own now written) := congrArg _ touched
      _ = hget .metadata field written := (samePlan_touch number future).metadata field
      _ = hget .metadata field (live now db) := same field
  · calc hget .metadata field (record codec now call db).after
        = hget .metadata field (hset .metadata "state" (.text "closed") (live now db)) :=
          congrArg _ closed
      _ = hget .metadata field (live now db) := by simp [hget_hset, other]
  · exact (inv.ne_empty (inv.expiring.dated.eq_empty missing)).elim

/-- What a call does to the keys, carried out or not, if it does not create a run. -/
inductive Called (codec : Codec Text) (db : Db Text) : Db Text → Prop
  | kept : Called codec db db
  | expired {now} : Called codec db (live now db)
  | record {now call} (old : (record codec now call db).creates = false) :
      Called codec db (record codec now call db).after

theorem Unanswered.called {after : Db Text} (unanswered : Unanswered db after) :
    Called codec db after := by
  obtain rfl | ⟨micros, rfl⟩ := unanswered
  · exact .kept
  · exact @Called.record _ codec db (millis micros) .close rfl

theorem Published.called {text : Text} {after : Db Text} (published : Published text db)
    (keys : Keys codec run db) (called : Called codec db after) : Published text after := by
  cases called with
  | kept => exact published
  | @expired now =>
      rcases keys.live_cases now with gone | same
      · exact .inl gone
      · rwa [same]
  | @record now call old =>
      rcases published with gone | stored
      · exact .inl (keys.after_empty old gone)
      rcases keys.call_cases old with ⟨inv, _⟩ | ⟨_, gone⟩
      · rcases keys.live_cases now with gone | same
        · exact (inv.ne_empty gone).elim
        · right
          rw [inv.metadata_kept old (by decide), same, stored]
      · exact .inl gone

/-- What `plan` reads of a run is its plan. -/
theorem Published.eq_of_plan {text : Text} {micros : Int} {bulk : Bulk Text}
    (published : Published text db) (answer : RunQueue.plan Key.own micros db = some bulk) :
    bulk = .doc text := by
  have found := hget_of_live answer
  rcases published with rfl | stored
  · simp at found
  · rw [Key.own_eq, stored] at found
    exact (Option.some.inj found).symm

theorem Started.published {micros : Int} {submission : Submission}
    (started : Started codec micros submission db) :
    Published (codec.dumpPlan submission.plan) db := by
  obtain ⟨timed, rfl⟩ := started.create_empty
  have planned := planned_creating codec timed (millis micros)
  have future := lt_of_le_of_lt (submission.deadline_ge timed (millis micros))
    (submission.run timed (millis micros)).deadline_lt
  right
  rw [ApiSentinel.create_empty, (samePlan_touch planned.expires_number future).metadata]
  simp [creating, metadata_enqueue, Submission.payload]

/-! ### Calls of the processes -/

section Calls

variable {produced : Job → CaseResult → Prop} {system : System Text} {micros : Int}

theorem worker_claimed (codec : Codec Text) (system : System Text) (micros : Int)
    (token : String) (lease : Rat) :
    WorkerStep codec produced system (system.claimed codec micros token lease) := by
  cases called : RunQueue.claim Key.own codec micros token lease system.db with
  | mk answer db =>
      rw [System.claimed, called]
      exact .claim called

theorem worker_renewed (codec : Codec Text) (system : System Text) (micros : Int) (job : Job)
    (lease : Rat) : WorkerStep codec produced system (system.renewed micros job lease) :=
  .renew rfl

theorem worker_finished {job : Job} {result : CaseResult} (member : job ∈ system.jobs)
    (made : produced job result) :
    WorkerStep codec produced system (system.finished codec micros job result) := by
  cases called : RunQueue.complete Key.own codec micros job result system.db with
  | mk answer db =>
      rw [System.finished, called]
      split
      · next same =>
          cases same
          exact .accepted member made called
      · next refused same =>
          cases same
          exact .refused member made refused called

theorem mem_jobs_of_claimed {token : String} {lease : Rat} {job : Job}
    (answer : (RunQueue.claim Key.own codec micros token lease system.db).1 = .ok (some job)) :
    job ∈ (system.claimed codec micros token lease).jobs := by
  cases called : RunQueue.claim Key.own codec micros token lease system.db with
  | mk reply db =>
      rw [called] at answer
      obtain rfl : reply = .ok (some job) := answer
      rw [System.claimed, called]
      exact List.mem_cons_self

/-- Workers create no runs. -/
theorem WorkerStep.called {next : System Text}
    (moves : WorkerStep codec produced system next) (keys : Keys codec run system.db) :
    Called codec system.db next.db := by
  cases moves with
  | claim called =>
      rw [(claim_record called).1]
      exact .record rfl
  | @renew micros job lease answer db called =>
      rw [show db = _ from (congrArg Prod.snd called).symm]
      exact @Called.record _ codec _ (millis micros) (.renew job.case.id job.token _) rfl
  | accepted member made called =>
      rw [(keys.accepting called).2]
      exact .record rfl
  | refused member made refused called =>
      rcases refused_cases called refused with same | same
      · exact same ▸ .kept
      · exact same ▸ .expired

end Calls

/-! ### What a process works on -/

/-- A job in the hands of a thread was handed out by the queue, and its execution is one of a
crew that may be made. -/
def Thread.Duly (made : Crew → Prop) (runId : String) (jobs : List Job) : Thread Text → Prop
  | .registering job => job ∈ jobs
  | .executing job _ program trace => job ∈ jobs ∧ ∃ crew, made crew ∧
      ∀ rest result, Runs program rest result →
        crew.worker.Executes runId job (trace ++ rest) result
  | .completing job _ result trace => job ∈ jobs ∧ ∃ crew, made crew ∧
      crew.worker.Executes runId job trace result
  | _ => True

theorem Thread.Duly.mono {made : Crew → Prop} {runId : String} {jobs more : List Job}
    {point : Thread Text} (duly : point.Duly made runId jobs) (subset : jobs ⊆ more) :
    point.Duly made runId more := by
  cases point with
  | registering job => exact subset duly
  | executing job lost program trace => exact duly.imp_left (@subset job)
  | completing job lost result trace => exact duly.imp_left (@subset job)
  | _ => trivial

/-- A process works on the plan that is published, and on jobs that it was handed. -/
structure Process.Duly (made : Crew → Prop) (runId : String) (plan : Json) (jobs : List Job)
    (process : Process Text) : Prop where
  crew : ∀ crew, process.crew = some crew → made crew
  main : ∀ document, process.main = .preparing document → document = plan
  threads : ∀ thread, (process.threads thread).Duly made runId jobs

section Duly

variable {made : Crew → Prop} {runId : String} {plan : Json} {jobs more : List Job}
  {process after : Process Text} {cluster next : Cluster Text} {crew : Crew} {thread : Nat}

theorem Process.Duly.mono (duly : process.Duly made runId plan jobs) (subset : jobs ⊆ more) :
    process.Duly made runId plan more :=
  ⟨duly.crew, duly.main, fun thread => (duly.threads thread).mono subset⟩

/-- One thread goes on. -/
theorem Process.Duly.goto {point : Thread Text} (duly : process.Duly made runId plan jobs)
    (subset : jobs ⊆ more) (goes : after.threads = Function.update process.threads thread point)
    (same : after.crew = process.crew) (stays : after.main = process.main)
    (arrived : point.Duly made runId more) : after.Duly made runId plan more where
  crew := by simpa only [same] using duly.crew
  main := by simpa only [stays] using duly.main
  threads other := by
    rw [goes]
    by_cases here : other = thread
    · subst here
      simpa using arrived
    · simpa [here] using (duly.threads other).mono subset

/-- The results that a crew can complete a job with. -/
def Produces (made : Crew → Prop) (runId : String) (job : Job) (result : CaseResult) : Prop :=
  ∃ crew, made crew ∧ ∃ trace, crew.worker.Executes runId job trace result

theorem jobs_finished (codec : Codec Text) (system : System Text) (micros : Int) (job : Job)
    (result : CaseResult) : (system.finished codec micros job result).jobs = system.jobs := by
  unfold System.finished
  split <;> rfl

theorem jobs_subset_claimed (codec : Codec Text) (system : System Text) (micros : Int)
    (token : String) (lease : Rat) :
    system.jobs ⊆ (system.claimed codec micros token lease).jobs := by
  intro job member
  exact List.mem_append_right _ member

/-- A step of a thread is a step of a worker, or none. -/
theorem ThreadStep.duly
    (moves : ThreadStep codec runId crew thread cluster process next after)
    (duly : process.Duly made runId plan cluster.system.jobs) (hired : made crew) :
    (next.system = cluster.system ∨
      WorkerStep codec (Produces made runId) cluster.system next.system) ∧
    after.Duly made runId plan next.system.jobs := by
  have silent : ∀ {other : Process Text} {point : Thread Text},
      other.threads = Function.update process.threads thread point →
      other.crew = process.crew → other.main = process.main →
      point.Duly made runId cluster.system.jobs →
      (cluster.system = cluster.system ∨
        WorkerStep codec (Produces made runId) cluster.system cluster.system) ∧
      other.Duly made runId plan cluster.system.jobs :=
    fun goes same stays arrived =>
      ⟨.inl rfl, duly.goto (List.Subset.refl _) goes same stays arrived⟩
  have held := duly.threads thread
  cases moves with
  | leaves here stop => exact silent rfl rfl rfl trivial
  | goesOn here going => exact silent rfl rfl rfl trivial
  | claimed here later answer =>
      exact ⟨.inr (worker_claimed ..), duly.goto (jobs_subset_claimed ..) rfl rfl rfl
        (mem_jobs_of_claimed answer)⟩
  | nothing here later answer =>
      exact ⟨.inr (worker_claimed ..), duly.goto (jobs_subset_claimed ..) rfl rfl rfl trivial⟩
  | claimRaised here later answer =>
      exact ⟨.inr (worker_claimed ..), duly.goto (jobs_subset_claimed ..) rfl rfl rfl trivial⟩
  | claimLost here later =>
      exact ⟨.inr (worker_claimed ..), duly.goto (jobs_subset_claimed ..) rfl rfl rfl trivial⟩
  | unreached here => exact silent rfl rfl rfl trivial
  | full here later full => exact silent rfl rfl rfl trivial
  | counted here later missing => exact silent rfl rfl rfl trivial
  | asked here later => exact silent rfl rfl rfl trivial
  | ended here later ended => exact silent rfl rfl rfl trivial
  | isOpen here later isOpen => exact silent rfl rfl rfl trivial
  | rested here => exact silent rfl rfl rfl trivial
  | registered here =>
      rw [here] at held
      exact silent rfl rfl rfl ⟨held, crew, hired, fun rest result runs => runs⟩
  | leaseValid here =>
      rw [here] at held
      obtain ⟨member, worker, allowed, runs⟩ := held
      refine silent rfl rfl rfl ⟨member, worker, allowed, fun rest result more => ?_⟩
      rw [List.append_assoc]
      exact runs _ result (.ask more)
  | answered here other =>
      rw [here] at held
      obtain ⟨member, worker, allowed, runs⟩ := held
      refine silent rfl rfl rfl ⟨member, worker, allowed, fun rest result more => ?_⟩
      rw [List.append_assoc]
      exact runs _ result (.ask more)
  | executed here =>
      rw [here] at held
      obtain ⟨member, worker, allowed, runs⟩ := held
      have ran := runs [] _ .done
      rw [List.append_nil] at ran
      exact silent rfl rfl rfl ⟨member, worker, allowed, ran⟩
  | completed here later answer =>
      rw [here] at held
      obtain ⟨member, worker, allowed, ran⟩ := held
      exact ⟨.inr (worker_finished member ⟨worker, allowed, _, ran⟩),
        duly.goto (jobs_finished .. ▸ List.Subset.refl _) rfl rfl rfl trivial⟩
  | completeRaised here answer => exact silent rfl rfl rfl trivial
  | completeLost here later =>
      rw [here] at held
      obtain ⟨member, worker, allowed, ran⟩ := held
      exact ⟨.inr (worker_finished member ⟨worker, allowed, _, ran⟩),
        duly.goto (jobs_finished .. ▸ List.Subset.refl _) rfl rfl rfl trivial⟩
  | completeUnreached here => exact silent rfl rfl rfl trivial
  | @popped job message here =>
      refine silent rfl rfl rfl ?_
      cases message <;> trivial
  | blamed here => exact silent rfl rfl rfl trivial
  | stopped here => exact silent rfl rfl rfl trivial

/-- A step of the heartbeat is a step of a worker, or none, and leaves the threads alone. -/
theorem BeatStep.duly (moves : BeatStep crew cluster process next after)
    (duly : process.Duly made runId plan cluster.system.jobs) :
    (next.system = cluster.system ∨
      WorkerStep codec (Produces made runId) cluster.system next.system) ∧
    after.Duly made runId plan next.system.jobs := by
  cases moves with
  | renewed here later answer =>
      exact ⟨.inr (worker_renewed ..), duly.crew, duly.main, duly.threads⟩
  | refused here later answer =>
      exact ⟨.inr (worker_renewed ..), duly.crew, duly.main, duly.threads⟩
  | unanswered here later =>
      exact ⟨.inr (worker_renewed ..), duly.crew, duly.main, duly.threads⟩
  | ended here stop => exact ⟨.inl rfl, duly.crew, duly.main, duly.threads⟩
  | copied here going => exact ⟨.inl rfl, duly.crew, duly.main, duly.threads⟩
  | round here => exact ⟨.inl rfl, duly.crew, duly.main, duly.threads⟩
  | unreached here => exact ⟨.inl rfl, duly.crew, duly.main, duly.threads⟩
  | lost here => exact ⟨.inl rfl, duly.crew, duly.main, duly.threads⟩
  | blamed here => exact ⟨.inl rfl, duly.crew, duly.main, duly.threads⟩
  | stopped here => exact ⟨.inl rfl, duly.crew, duly.main, duly.threads⟩

/-- `Worker.run` makes its crew of the published plan. -/
theorem MainStep.duly {platform : Platform Text} {options : WorkerOptions} {text : Text}
    (moves : MainStep platform options cluster process next after)
    (duly : process.Duly (fun crew => prepare platform options plan = .ok crew) runId plan
      cluster.system.jobs)
    (published : Published text cluster.system.db) (loads : platform.loads text = .ok plan) :
    next.system = cluster.system ∧
      after.Duly (fun crew => prepare platform options plan = .ok crew) runId plan
        next.system.jobs := by
  cases moves with
  | found here later answer loaded =>
      obtain rfl := Bulk.doc.inj (published.eq_of_plan answer)
      obtain rfl := Except.ok.inj (loads.symm.trans loaded)
      refine ⟨rfl, duly.crew, fun document preparing => ?_, duly.threads⟩
      change (if plan.isNull then Main.pausing else .preparing plan) = .preparing document
        at preparing
      split at preparing
      · cases preparing
      · exact (Main.preparing.inj preparing).symm
  | @prepared document crew here made =>
      obtain rfl := duly.main document here
      exact ⟨rfl, fun other hired => Option.some.inj hired ▸ made, nofun, duly.threads⟩
  | signalled => exact ⟨rfl, duly.crew, duly.main, duly.threads⟩
  | started here later => exact ⟨rfl, duly.crew, nofun, duly.threads⟩
  | absent here later answer => exact ⟨rfl, duly.crew, nofun, duly.threads⟩
  | unreadable here later answer loaded => exact ⟨rfl, duly.crew, nofun, duly.threads⟩
  | unavailable here => exact ⟨rfl, duly.crew, nofun, duly.threads⟩
  | gaveUp here stop => exact ⟨rfl, duly.crew, nofun, duly.threads⟩
  | paused here going later => exact ⟨rfl, duly.crew, nofun, duly.threads⟩
  | expired here later reached => exact ⟨rfl, duly.crew, nofun, duly.threads⟩
  | again here later left => exact ⟨rfl, duly.crew, nofun, duly.threads⟩
  | rejected here failed => exact ⟨rfl, duly.crew, nofun, duly.threads⟩
  | joined here all => exact ⟨rfl, duly.crew, nofun, duly.threads⟩
  | closed here => exact ⟨rfl, duly.crew, nofun, duly.threads⟩

end Duly

/-! ### Every interleaving -/

section Fleet

variable {call : Coordination} {platforms : Nat → Platform Text} {options : Nat → WorkerOptions}
  {micros : Int} {seconds : Rat} {start : Db Text} {fleet next : Fleet Text}

/-- A process makes a crew of the plan that the coordinator has published. -/
def Coordination.Makes (call : Coordination) (platforms : Nat → Platform Text)
    (options : Nat → WorkerOptions) (name : Nat) (crew : Crew) : Prop :=
  prepare (platforms name) (options name) call.submission.plan.dump = .ok crew

/-- The results that the processes of a fleet can complete a job with. -/
def Coordination.FleetProduces (call : Coordination) (platforms : Nat → Platform Text)
    (options : Nat → WorkerOptions) (job : Job) (result : CaseResult) : Prop :=
  ∃ name, Produces (call.Makes platforms options name) call.queue.runId job result

theorem WorkerStep.mono {produced possible : Job → CaseResult → Prop} {system after : System Text}
    (moves : WorkerStep codec produced system after)
    (implies : ∀ job result, produced job result → possible job result) :
    WorkerStep codec possible system after := by
  cases moves with
  | claim called => exact .claim called
  | renew called => exact .renew called
  | accepted member made called => exact .accepted member (implies _ _ made) called
  | refused member made refused called => exact .refused member (implies _ _ made) refused called

theorem WorkerStep.jobs_subset {produced : Job → CaseResult → Prop} {system after : System Text}
    (moves : WorkerStep codec produced system after) : system.jobs ⊆ after.jobs := by
  cases moves with
  | claim called => exact fun job member => List.mem_append_right _ member
  | renew called => exact List.Subset.refl _
  | accepted member made called => exact List.Subset.refl _
  | refused member made refused called => exact List.Subset.refl _

/-- What holds of a fleet at any time: its coordinator and the calls of its processes are
those of abstract workers, its plan is stored as long as its keys, and its processes work
on it. -/
structure Fleet.Duly (codec : Codec Text) (call : Coordination)
    (platforms : Nat → Platform Text) (options : Nat → WorkerOptions) (start : Db Text)
    (seconds : Rat) (fleet : Fleet Text) : Prop where
  reaches : ∃ steps, Reaches codec call (call.FleetProduces platforms options) start seconds
    steps fleet.cluster.system
  published : Published (codec.dumpPlan call.submission.plan) fleet.cluster.system.db
  processes : ∀ name, (fleet.processes name).Duly (call.Makes platforms options name)
    call.queue.runId call.submission.plan.dump fleet.cluster.system.jobs

theorem ProcessStep.duly {platform : Platform Text} {settings : WorkerOptions} {runId : String}
    {plan : Json} {text : Text} {cluster after : Cluster Text} {process other : Process Text}
    (moves : ProcessStep codec runId platform settings cluster process after other)
    (duly : process.Duly (fun crew => prepare platform settings plan = .ok crew) runId plan
      cluster.system.jobs)
    (published : Published text cluster.system.db) (loads : platform.loads text = .ok plan) :
    (after.system = cluster.system ∨
      WorkerStep codec (Produces (fun crew => prepare platform settings plan = .ok crew) runId)
        cluster.system after.system) ∧
      other.Duly (fun crew => prepare platform settings plan = .ok crew) runId plan
        after.system.jobs := by
  cases moves with
  | main moves => exact (moves.duly duly published loads).imp_left .inl
  | thread hired member moves => exact moves.duly duly (duly.crew _ hired)
  | beat hired moves => exact moves.duly duly

section Operating

variable (started : Started codec micros call.submission start)
  (loads : ∀ name, (platforms name).loads (codec.dumpPlan call.submission.plan) =
    .ok call.submission.plan.dump)
include started loads

theorem Fleet.Duly.step (duly : fleet.Duly codec call platforms options start seconds)
    (moves : FleetStep codec call platforms options fleet next) :
    next.Duly codec call platforms options start seconds := by
  obtain ⟨timed, created⟩ := started.created
  obtain ⟨⟨steps, reached⟩, published, processes⟩ := duly
  have keys := (reached.queued created).1.keys
  cases moves with
  | @coordinator system moves =>
      obtain ⟨jobs, _, change⟩ := moves.queue
      refine ⟨⟨steps + 1, reached.coordinator moves⟩, ?_, ?_⟩
      · rcases change with ⟨_, _, unanswered⟩ | ⟨same, _⟩
        · exact published.called keys unanswered.called
        · exact same ▸ published
      · exact fun name => (processes name).mono (jobs ▸ List.Subset.refl _)
  | @process name cluster process moves =>
      obtain ⟨effect, worked⟩ := moves.duly (processes name) published (loads name)
      have others : ∀ {jobs : List Job}, fleet.cluster.system.jobs ⊆ jobs →
          process.Duly (call.Makes platforms options name) call.queue.runId
            call.submission.plan.dump jobs →
          ∀ other, (Function.update fleet.processes name process other).Duly
            (call.Makes platforms options other) call.queue.runId call.submission.plan.dump
            jobs := by
        intro jobs subset own other
        by_cases here : other = name
        · subst here
          simpa using own
        · simpa [here] using (processes other).mono subset
      rcases effect with same | works
      · refine ⟨⟨steps, same ▸ reached⟩, same ▸ published, others ?_ worked⟩
        rw [same]
        exact List.Subset.refl _
      · exact ⟨⟨steps, reached.worker (works.mono fun job result made => ⟨name, made⟩)⟩,
          published.called keys (works.called keys), others works.jobs_subset worked⟩

theorem Operating.duly (operating : Operating codec call platforms options start micros seconds
    fleet) : fleet.Duly codec call platforms options start seconds := by
  induction operating with
  | created =>
      exact ⟨⟨0, .created⟩, started.published,
        fun name => ⟨nofun, nofun, fun thread => trivial⟩⟩
  | step past moves ih => exact ih.step started loads moves

end Operating

section Settled

variable {produced : Job → CaseResult → Prop} {steps : Nat} {system : System Text}
  {report : RunReport} (started : Started codec micros call.submission start)
  (reached : Reaches codec call produced start seconds steps system)
  (returned : system.coordinator.point = .returned report) (conclusive : report.exitCode ≠ 2)
include started reached returned conclusive

/-- Without exit code 2 a report has no errors, and one entry for each case that was read. -/
theorem Reaches.settled :
    report.infrastructureError = none ∧
      (∀ case ∈ call.suite.cases, hget .results case.id system.lastRead ≠ none) ∧
      Collected codec system.lastRead system.coordinator.results ∧
      ∀ entry ∈ report.results, entry.status ≠ .error := by
  obtain ⟨timed, created⟩ := started.created
  obtain ⟨told, collected, planned, now, rfl⟩ := reached.concluded created returned
  have counting : ¬ Failing system.failed system.lastRead call.suite
      (call.report system.coordinator.results system.coordinator.error now).results :=
    fun failing => conclusive (exitCode_failing collected planned told failing)
  obtain ⟨none, _⟩ := exitCode_counting collected planned told counting
  obtain ⟨_, complete⟩ := not_or.mp counting
  obtain ⟨nothingMissing, noError⟩ := not_or.mp complete
  exact ⟨none, fun case member missing => nothingMissing ⟨case, member, missing⟩, collected,
    fun entry member isError => noError ⟨entry, member, isError⟩⟩

/-- Each case then has a result in the report that was accepted while the run was open and
before its deadline. -/
theorem Reaches.accepted_of_settled {case : Case} (member : case ∈ call.suite.cases) :
    ∃ acceptance ∈ system.accepted, acceptance.job.case = case.written ∧
      acceptance.Honoured (call.submission.deadline (millis micros)) ∧
      acceptance.result ∈ report.results ∧ produced acceptance.job acceptance.result := by
  obtain ⟨timed, created⟩ := started.created
  obtain ⟨queued, read⟩ := reached.queued created
  obtain ⟨_, present, collected, noError⟩ := reached.settled started returned conclusive
  obtain ⟨_, _, _, now, rfl⟩ := reached.concluded created returned
  obtain ⟨value, stored⟩ := Option.ne_none_iff_exists'.mp (present case member)
  cases read.stored case.id value stored with
  | exhausted deliveries =>
      have entry := collected.mem stored (codec.validate_encodeError _ _ _)
      exact (noError _ (mem_padded.mpr (.inl entry)) rfl).elim
  | @accepted acceptance accepted own =>
      obtain ⟨handed, made, _⟩ := queued.made acceptance accepted
      have same : acceptance.job.case = case.written :=
        Suite.eq_written member (queued.jobs _ handed) own
      have found := collected.mem stored (codec.validate_dumpResult _)
      exact ⟨acceptance, accepted, same, queued.honoured acceptance accepted,
        mem_padded.mpr (.inl found), made⟩

end Settled

theorem passed_of_green {report : RunReport} (green : report.exitCode = 0) :
    ∀ entry ∈ report.results, entry.status = .passed := by
  intro entry member
  unfold RunReport.exitCode at green
  split at green
  · cases green
  · split at green
    · cases green
    · next noError =>
        have noFailure := Bool.toNat_eq_zero.mp green
        rw [List.any_eq_false] at noFailure
        rw [Bool.not_eq_true, List.any_eq_false] at noError
        cases status : entry.status with
        | passed => rfl
        | failed => exact (noFailure entry member (by rw [status]; rfl)).elim
        | error => exact (noError entry member (by rw [status]; rfl)).elim

section Green

variable (started : Started codec micros call.submission start)
  (loads : ∀ name, (platforms name).loads (codec.dumpPlan call.submission.plan) =
    .ok call.submission.plan.dump) (valid : call.suite.Valid)
  (operating : Operating codec call platforms options start micros seconds fleet)
  {report : RunReport} (returned : fleet.cluster.system.coordinator.point = .returned report)
  (green : report.exitCode = 0)
include started loads valid operating returned green

theorem passes_of_green {case : Case} (member : case ∈ call.suite.cases) :
    ∃ acceptance ∈ fleet.cluster.system.accepted, acceptance.job.case = case.written ∧
      acceptance.Honoured (call.submission.deadline (millis micros)) ∧
      acceptance.result ∈ report.results ∧ ∃ name crew trace,
        WorksBy (platforms name) (options name) call.submission.plan crew ∧
        crew.worker.Passes call.queue.runId acceptance.job trace acceptance.result := by
  obtain ⟨steps, reached⟩ := (operating.duly started loads).reaches
  have conclusive : report.exitCode ≠ 2 := by
    rw [green]
    decide
  obtain ⟨acceptance, accepted, same, honoured, listed, name, crew, made, trace, execution⟩ :=
    reached.accepted_of_settled started returned conclusive member
  have passed := passed_of_green green _ listed
  exact ⟨acceptance, accepted, same, honoured, listed, name, crew, trace,
    worksBy_of_prepare valid made, execution, (run_executed execution).2.2.2.2 passed⟩

end Green

end Fleet

namespace Sample

def getHealth : Contract.Operation where
  method := "GET"
  path := "/health"
  operation := .obj [("operationId", .str "getHealth"), ("responses", .obj [("200", .obj [])])]
  params := []

def healthDocument : List (String × Json) :=
  [("openapi", .str "3.1.0"), ("paths", .obj [("/health", .obj [("get", getHealth.operation)])])]

def healthContract : Contract where
  library := library
  document := healthDocument
  operations := [(.str "getHealth", getHealth)]

def monitoring : Coordination where
  queue := coordination.queue
  suite := suite
  contract := .obj healthDocument
  timeout := 300
  baseUrl := some "http://test"
  started := 0

/-- The keys after the sample suite is submitted with its contract. -/
def monitored : Db Document :=
  (RunQueue.create Key.own Codec.plain 1000000 monitoring.submission empty).2

theorem started_monitored : Started Codec.plain 1000000 monitoring.submission monitored :=
  ⟨[], by simp, rfl⟩

def platform : Platform Document where
  library := library
  host := host
  coercions := coercions
  checkNetloc := anyNetloc
  loads
    | .plan plan => .ok plan.dump
    | _ => .error (valueError "no plan")

def oneThread : WorkerOptions where
  baseUrl := "http://test"
  workerId := "worker"
  concurrency := 1
  bounded := by decide
  long := by norm_num

def prober : CaseExecutor where
  harness := healthContract.harness host
  baseUrl := "http://test"

def crew : Crew := ⟨⟨prober, "worker", 30⟩, 1⟩

theorem prepare_crew :
    prepare platform oneThread monitoring.submission.plan.dump = .ok crew := by
  rfl

theorem suite_valid : suite.Valid :=
  Suite.valid_of_validate coercions (rfl : Suite.validate coercions suite.dump = some suite)

/-! The prober executes the case. -/

def probing (vars : Variables) : Execution.Trace :=
  [⟨.leaseValid, true⟩, ⟨.monotonic, (0 : Rat)⟩,
    ⟨.stream (prober.request step "GET" "/health" vars 60), Except.ok response⟩]

theorem runs_probing (vars : Variables) :
    Runs (prober.send step "GET" "/health" vars 60 {}) (probing vars)
      (⟨1, some 200⟩, .ok ([], [])) :=
  runs_send_step prober vars

theorem rendered_health : renderStep host library.repr (prober.variablesOf case "run" 1) step =
    .ok step := by
  rfl

theorem requested_health : healthContract.request step = .ok ("GET", "/health", []) := by
  rfl

theorem judged_health : prober.verdict step 200 [] [] 0 = .ok [] := by
  rfl

theorem runs_probe : Runs (prober.step step .test (prober.variablesOf case "run" 1) 60)
    (⟨.monotonic, (0 : Rat)⟩ :: probing (prober.variablesOf case "run" 1) ++
      [⟨.monotonic, (0 : Rat)⟩]) passed := by
  refine runs_query_bind.mpr ⟨(0 : Rat), _, rfl, ?_⟩
  have renders : prober.harness.render (prober.variablesOf case "run" 1) step = .ok step :=
    rendered_health
  rw [renders]
  have requests : prober.harness.request step = .ok ("GET", "/health", []) := requested_health
  dsimp only
  rw [requests]
  refine runs_bind.mpr ⟨_, [_], _, rfl, runs_probing _, ?_⟩
  refine runs_query_bind.mpr ⟨(0 : Rat), [], rfl, ?_⟩
  have judged : prober.verdict step 200 [] [] ((0 - 0) * 1000) = .ok [] := by
    rw [sub_zero, zero_mul]
    exact judged_health
  dsimp only [Option.getD]
  rw [judged]
  exact .done

def probe : Execution.Trace :=
  ⟨.monotonic, (0 : Rat)⟩ :: (⟨.monotonic, (0 : Rat)⟩ ::
    probing (prober.variablesOf case "run" 1) ++ [⟨.monotonic, (0 : Rat)⟩]) ++
      [⟨.monotonic, (0 : Rat)⟩, ⟨.monotonic, (0 : Rat)⟩]

theorem runs_prober (workerId : String) :
    Runs (prober.run case "run" workerId 1) probe { result with workerId } := by
  refine runs_query_bind.mpr ⟨(0 : Rat), _, rfl, ?_⟩
  have deadline : (0 : Rat) + prober.caseTimeout = 60 := by simp [prober]
  rw [deadline]
  refine runs_bind.mpr ⟨_, [_, _], [passed], rfl, ?_, ?_⟩
  · refine runs_bind.mpr ⟨[], _, [], rfl, .done, ?_⟩
    exact runs_bind.mpr ⟨_, [], passed, (List.append_nil _).symm, runs_probe, .done⟩
  · refine runs_query_bind.mpr ⟨(0 : Rat), _, rfl, ?_⟩
    refine runs_bind.mpr ⟨[], _, [passed], rfl, .done, ?_⟩
    exact runs_query_bind.mpr ⟨(0 : Rat), [], rfl, .done⟩

/-! A fleet of one process with one thread. -/

/-- Steps of the sample fleet. -/
abbrev Leads (first fleet : Fleet Document) : Prop :=
  Relation.ReflTransGen
    (FleetStep Codec.plain monitoring (fun _ => platform) (fun _ => oneThread)) first fleet

abbrev Watching (fleet : Fleet Document) : Prop :=
  Operating Codec.plain monitoring (fun _ => platform) (fun _ => oneThread) monitored 1000000 0
    fleet

variable {first : Fleet Document}

def solo (system : System Document) (micros : Int) (process : Process Document) :
    Fleet Document where
  cluster := ⟨system, micros⟩
  processes := Function.update (fun _ => {}) 0 process

theorem Leads.moves {system after : System Document} {micros later : Int}
    {process other : Process Document} (leads : Leads first (solo system micros process))
    (moves : ProcessStep Codec.plain "run" platform oneThread ⟨system, micros⟩ process
      ⟨after, later⟩ other) :
    Leads first (solo after later other) := by
  have next := leads.tail (@FleetStep.process _ _ _ _ _ _ 0 _ _ moves)
  rwa [solo, Function.update_idem] at next

/-- The process while its thread is at a point. -/
def manned (point : Thread Document) (active : List (String × Job × Nat)) (events : Nat) :
    Process Document where
  main := .joining
  deadline := 0 + oneThread.waitSeconds
  crew := some crew
  threads := Function.update (fun _ => .checking) 0 point
  active
  events

theorem goto_manned (point next : Thread Document) (active : List (String × Job × Nat))
    (events : Nat) : (manned point active events).goto 0 next = manned next active events := by
  simp [Process.goto, manned, Function.update_idem]

theorem Leads.thread {system after : System Document} {micros later : Int}
    {point : Thread Document} {active : List (String × Job × Nat)} {events : Nat}
    {other : Process Document}
    (leads : Leads first (solo system micros (manned point active events)))
    (moves : ThreadStep Codec.plain "run" crew 0 ⟨system, micros⟩ (manned point active events)
      ⟨after, later⟩ other) :
    Leads first (solo after later other) :=
  leads.moves (.thread rfl (by decide) moves)

/-- The thread follows a run of its program. -/
theorem Leads.follow {system : System Document} {micros : Int} {job : Job}
    {active : List (String × Job × Nat)} {events : Nat} {program : Execution CaseResult}
    {past trace : Execution.Trace} {result : CaseResult}
    (leads : Leads first (solo system micros
      (manned (.executing job 0 program past) active events)))
    (runs : Runs program trace result) (held : ⟨.leaseValid, false⟩ ∉ trace) :
    Leads first (solo system micros
      (manned (.executing job 0 (.done result) (past ++ trace)) active events)) := by
  induction runs generalizing past with
  | done => rwa [List.append_nil]
  | @ask question next answer trace result rest ih =>
      have asked : Leads first (solo system micros
          (manned (.executing job 0 (next answer) (past ++ [⟨question, answer⟩])) active
            events)) := by
        rw [← goto_manned (.executing job 0 (.ask question next) past)]
        by_cases oracle : question = .leaseValid
        · subst oracle
          cases answer with
          | false => exact (held List.mem_cons_self).elim
          | true => exact leads.thread (.leaseValid rfl)
        · exact leads.thread (.answered rfl oracle)
      have followed := ih asked fun member => held (List.mem_cons_of_mem _ member)
      rwa [List.append_assoc] at followed

def submitted : System Document where
  db := monitored
  seconds := 0

/-- Before the process has done anything. -/
def unhired : Fleet Document where
  cluster := ⟨submitted, 1000000⟩

def hired : Fleet Document := solo submitted 1000000 (manned .checking [] 0)

theorem leads_hired : Leads unhired hired := by
  have idle : Leads unhired (solo submitted 1000000 {}) := by
    rw [solo, Function.update_eq_self]
    exact .refl
  have started := idle.moves (.main (@MainStep.started _ platform oneThread _ _ 0 rfl (by rfl)))
  have found := started.moves (.main (@MainStep.found _ platform oneThread _ _ 1000000
    (.plan monitoring.submission.plan) monitoring.submission.plan.dump rfl (by rfl) (by rfl) rfl))
  have prepared := found.moves (.main (.prepared rfl prepare_crew))
  have same : manned .checking [] 0 =
      { main := .joining, deadline := 0 + oneThread.waitSeconds, crew := some crew } := by
    rw [manned, Function.update_eq_self]
  rwa [hired, same]

/-- The thread has claimed the case. -/
def handed : Fleet Document :=
  solo (submitted.claimed Codec.plain 2000000 "token" 30) 2000000 (manned (.registering job) [] 0)

theorem leads_handed : Leads hired handed := by
  have idle : Leads hired (solo submitted 1000000 (manned .checking [] 0)) := .refl
  have going := idle.thread (.goesOn rfl rfl)
  rw [goto_manned] at going
  have claimed := going.thread (@ThreadStep.claimed _ Codec.plain "run"
    crew 0 _ _ 2000000 "token" job rfl (by decide) rfl)
  rwa [goto_manned] at claimed

def probed : System Document :=
  (submitted.claimed Codec.plain 2000000 "token" 30).finished Codec.plain 3000000 job result

theorem leads_probed : Leads handed (solo probed 3000000 (manned .checking [] 1)) := by
  have claimed : Leads handed (solo (submitted.claimed Codec.plain 2000000 "token" 30) 2000000
      (manned (.registering job) [] 0)) := .refl
  have registered := claimed.thread (.registered rfl)
  rw [goto_manned] at registered
  have held : ⟨.leaseValid, false⟩ ∉ probe := by
    simp [probe, probing, Sigma.ext_iff]
  have executing : Leads handed (solo _ 2000000
      (manned (.executing job 0 _ []) [("token", job, 0)] 1)) := registered
  have followed := executing.follow (runs_prober "worker") held
  have executed := followed.thread (.executed rfl)
  rw [goto_manned] at executed
  have completed := executed.thread (@ThreadStep.completed _ Codec.plain "run" crew 0 _ _ job 0
    result _ 3000000 true rfl (by decide) rfl)
  rw [goto_manned] at completed
  have popped := completed.thread (.popped rfl)
  rw [goto_manned] at popped
  exact popped

theorem watching_hired : Watching hired := operating_iff.mpr leads_hired

/-- The coordinator reads the result and closes the run. -/
theorem watching_returned : ∃ fleet, Watching fleet ∧
    fleet.cluster.system.coordinator.point =
      .returned (monitoring.report [result] none 5) ∧
    fleet.processes 0 = manned .checking [] 1 := by
  have read := leads_probed.tail (.coordinator (@CoordinatorStep.results _ _ _ _
    4000000 _ [result] rfl (.refl _) rfl))
  have closed := read.tail (.coordinator (@CoordinatorStep.closed _ _ _ _ 5000000 rfl))
  have returned := closed.tail
    (.coordinator (@CoordinatorStep.returned _ _ _ _ 5 rfl (by decide)))
  exact ⟨_, operating_iff.mpr ((leads_hired.trans leads_handed).trans returned), rfl, rfl⟩

end Sample

end ApiSentinel
