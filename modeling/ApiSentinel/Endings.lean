import ApiSentinel.Leaving

/-!
# Every schedule comes to its end

Under a schedule that serves everybody the coordinator returns its report, and every worker
process ends once its run is over.
-/

namespace ApiSentinel

open Redis

variable {Text : Type} {codec : Codec Text} {runId : String} {crew : Crew} {thread : Nat}
  {platform : Platform Text} {options : WorkerOptions} {cluster next : Cluster Text}
  {process after : Process Text}

/-! ### What is left of `Worker.run` -/

/-- The process is over. -/
def Main.ended : Main → Bool
  | .exited _ | .raised _ => true
  | _ => false

/-- Where `Worker.run` is, with its clock and the end of its wait. -/
def Process.course (process : Process Text) : Main × Rat × Rat :=
  (process.main, process.seconds, process.deadline)

/-- How often `Worker.run` still lets itself pause. -/
def pauses (seconds deadline : Rat) : Nat := ⌈10 * (deadline - seconds)⌉₊

/-- A bound on the steps that `Worker.run` has left. -/
def Main.remaining (waitSeconds : Rat) : Main × Rat × Rat → Nat
  | (.starting, _, _) => 3 * ⌈10 * waitSeconds⌉₊ + 11
  | (.planning, seconds, deadline) => 3 * pauses seconds deadline + 10
  | (.pausing, seconds, deadline) => 3 * pauses seconds deadline + 9
  | (.timing, seconds, deadline) =>
      if seconds < deadline then 3 * pauses seconds deadline + 11 else 8
  | (.preparing _, _, _) => 7
  | (.joining, _, _) => 2
  | (.closing, _, _) => 1
  | (.exited _, _, _) => 0
  | (.raised _, _, _) => 0

theorem pauses_mono {seconds now deadline : Rat} (later : seconds ≤ now) :
    pauses now deadline ≤ pauses seconds deadline := by
  apply Nat.ceil_mono
  linarith

theorem pauses_paused {seconds now deadline : Rat} (later : seconds + 1 / 10 ≤ now)
    (left : now < deadline) : pauses now deadline + 1 ≤ pauses seconds deadline := by
  have lower : 10 * (deadline - now) + 1 ≤ 10 * (deadline - seconds) := by linarith
  have positive : 0 ≤ 10 * (deadline - now) := by linarith
  calc pauses now deadline + 1 = ⌈10 * (deadline - now) + 1⌉₊ := (Nat.ceil_add_one positive).symm
    _ ≤ pauses seconds deadline := Nat.ceil_mono lower

theorem MainStep.remaining (moves : MainStep platform options cluster process next after) :
    after.course = process.course ∨
      Main.remaining options.waitSeconds after.course <
        Main.remaining options.waitSeconds process.course := by
  cases moves with
  | signalled => exact .inl rfl
  | @started now here later =>
      right
      have whole : pauses now (now + options.waitSeconds) = ⌈10 * options.waitSeconds⌉₊ := by
        rw [pauses, add_sub_cancel_left]
      simp only [Process.course, here, Main.remaining, whole]
      omega
  | absent here => right; simp [Process.course, here, Main.remaining]
  | @found micros text plan here later answer loaded =>
      right
      simp only [Process.course, here]
      split
      · simp [Main.remaining]
      · simp only [Main.remaining]
        omega
  | unreadable here | unavailable here | gaveUp here | rejected here | closed here | joined here =>
      right
      simp [Process.course, here, Main.remaining]
  | @paused now here going later =>
      right
      simp only [Process.course, here, Main.remaining]
      split
      · next left =>
          have fewer := pauses_paused later left
          omega
      · omega
  | expired here =>
      right
      simp only [Process.course, here, Main.remaining]
      split <;> omega
  | @again now here later left =>
      right
      have fewer : pauses now process.deadline ≤ pauses process.seconds process.deadline :=
        pauses_mono later
      simp only [Process.course, here, Main.remaining, if_pos (later.trans_lt left)]
      omega
  | prepared here => right; simp [Process.course, here, Main.remaining]

/-! ### What a step of a process moves -/

theorem ThreadStep.course (moves : ThreadStep codec runId crew thread cluster process next after) :
    after.course = process.course := by
  cases moves <;> rfl

theorem BeatStep.course (moves : BeatStep crew cluster process next after) :
    after.course = process.course := by
  cases moves <;> rfl

theorem ProcessStep.remaining
    (moves : ProcessStep codec runId platform options cluster process next after) :
    after.course = process.course ∨
      Main.remaining options.waitSeconds after.course <
        Main.remaining options.waitSeconds process.course := by
  cases moves with
  | main moves => exact moves.remaining
  | thread hired member moves => exact .inl moves.course
  | beat hired moves => exact .inl moves.course

theorem MainStep.threads (moves : MainStep platform options cluster process next after) :
    after.threads = process.threads := by
  cases moves <;> rfl

theorem BeatStep.threads (moves : BeatStep crew cluster process next after) :
    after.threads = process.threads := by
  cases moves <;> rfl

/-- A step of a process leaves a thread where it is or brings it nearer to its return. -/
theorem ProcessStep.less {run : Run} {since : Int} {stop : Bool} (thread : Nat)
    (keys : Keys codec run cluster.system.db) (stopped : stop = true → process.stop = true)
    (ceased : stop = false → cluster.Ceased run since)
    (moves : ProcessStep codec runId platform options cluster process next after) :
    after.threads thread = process.threads thread ∨
      Thread.Less stop since (after.threads thread) (process.threads thread) := by
  cases moves with
  | main moves => exact .inl (congrFun moves.threads thread)
  | beat hired moves => exact .inl (congrFun moves.threads thread)
  | @thread crew other _ _ hired member moves =>
      by_cases same : thread = other
      · subst same
        exact .inr (moves.less keys stopped ceased)
      · obtain ⟨_, point, threads, _⟩ := moves.effect
        exact .inl (by rw [threads, Function.update_of_ne same])

theorem ThreadStep.later (moves : ThreadStep codec runId crew thread cluster process next after) :
    cluster.micros ≤ next.micros := by
  cases moves <;> first | exact le_refl _ | assumption

theorem BeatStep.later (moves : BeatStep crew cluster process next after) :
    cluster.micros ≤ next.micros := by
  cases moves <;> first | exact le_refl _ | assumption

theorem MainStep.later (moves : MainStep platform options cluster process next after) :
    cluster.micros ≤ next.micros := by
  cases moves <;> first | exact le_refl _ | assumption

/-- The clock does not run backwards, and what is stopped stays stopped. -/
theorem ProcessStep.later
    (moves : ProcessStep codec runId platform options cluster process next after) :
    cluster.micros ≤ next.micros ∧ (process.stop = true → after.stop = true) := by
  cases moves with
  | main moves => exact ⟨moves.later, by cases moves <;> first | exact id | exact fun _ => rfl⟩
  | beat hired moves =>
      exact ⟨moves.later, by cases moves <;> first | exact id | exact fun _ => rfl⟩
  | thread hired member moves =>
      exact ⟨moves.later, by cases moves <;> first | exact id | exact fun _ => rfl⟩

/-- `Worker.run` waits for its threads only when it has made a crew for them. -/
theorem ProcessStep.joining (crewed : process.main = .joining → process.crew.isSome)
    (moves : ProcessStep codec runId platform options cluster process next after) :
    after.main = .joining → after.crew.isSome := by
  cases moves with
  | thread hired member moves =>
      obtain ⟨⟨main, crew, _⟩, _⟩ := moves.effect
      rwa [main, crew]
  | beat hired moves => cases moves <;> exact crewed
  | main moves =>
      cases moves with
      | prepared => exact fun _ => rfl
      | found here =>
          intro joining
          change (if _ then Main.pausing else .preparing _) = .joining at joining
          split at joining <;> cases joining
      | signalled => exact crewed
      | _ => nofun

/-- A thread has moved only if there is a crew. -/
theorem ProcessStep.crewed
    (crewed : ∀ thread, process.threads thread ≠ .checking → process.crew.isSome)
    (moves : ProcessStep codec runId platform options cluster process next after) (thread : Nat) :
    after.threads thread ≠ .checking → after.crew.isSome := by
  cases moves with
  | thread hired member moves =>
      obtain ⟨⟨_, crew, _⟩, _⟩ := moves.effect
      intro _
      rw [crew, hired]
      rfl
  | beat hired moves => cases moves <;> exact crewed thread
  | main moves =>
      cases moves with
      | prepared => exact fun _ => rfl
      | _ => exact crewed thread

/-! ### Schedules -/

section Schedules

variable {micros : Int} {seconds : Rat} {start : Db Text} {call : Coordination} {run : Run}
  {platforms : Nat → Platform Text} {settings : Nat → WorkerOptions} {fleet later : Fleet Text}
  {fleets : Nat → Fleet Text} {name : Nat} {since : Int}

/-- A course of a fleet from the moment that `queue.create` has succeeded. -/
structure Scheduled (codec : Codec Text) (call : Coordination)
    (platforms : Nat → Platform Text) (settings : Nat → WorkerOptions) (start : Db Text)
    (micros : Int) (seconds : Rat) (fleets : Nat → Fleet Text) : Prop where
  created : fleets 0 = { cluster := ⟨{ db := start, seconds }, micros⟩ }
  step : ∀ time, FleetStep codec call platforms settings (fleets time) (fleets (time + 1))

/-- The coordinator goes on until it has returned. -/
def Fleet.ServesCoordinator (fleets : Nat → Fleet Text) : Prop :=
  ∀ time, (∀ report, (fleets time).cluster.system.coordinator.point ≠ .returned report) →
    ∃ later, time ≤ later ∧ (fleets later).cluster.system.coordinator.point ≠
      (fleets time).cluster.system.coordinator.point

/-- The threads of a process go on until they have returned, and `Worker.run` goes on unless
it waits for them. -/
structure Process.Serves (concurrency : Nat) (processes : Nat → Process Text) : Prop where
  main : ∀ time, (processes time).main.ended = false →
    ((processes time).main = .joining →
      ∀ thread < concurrency, (processes time).threads thread = .returned) →
    ∃ later, time ≤ later ∧ (processes later).main ≠ (processes time).main
  threads : ∀ time, (processes time).crew.isSome → ∀ thread < concurrency,
    (processes time).threads thread ≠ .returned →
    ∃ later, time ≤ later ∧
      (processes later).threads thread ≠ (processes time).threads thread

theorem Scheduled.operating
    (scheduled : Scheduled codec call platforms settings start micros seconds fleets)
    (time : Nat) : Operating codec call platforms settings start micros seconds (fleets time) := by
  induction time with
  | zero => exact scheduled.created ▸ .created
  | succ time ih => exact ih.step (scheduled.step time)

/-- A signal to a process. -/
def Fleet.signal (fleet : Fleet Text) (name : Nat) : Fleet Text where
  cluster := fleet.cluster
  processes := Function.update fleet.processes name
    { fleet.processes name with stop := true, signalled := true }

theorem FleetStep.signal (fleet : Fleet Text) (name : Nat) :
    FleetStep codec call platforms settings fleet (fleet.signal name) :=
  .process (.main .signalled)

theorem Fleet.signal_signal (fleet : Fleet Text) (name : Nat) :
    (fleet.signal name).signal name = fleet.signal name := by
  simp [signal, Function.update_idem]

/-- Two runs are the beginning of a schedule, in which from then on a process is signalled. -/
theorem Scheduled.exists_of_runs (name : Nat) {fleet last : Fleet Text}
    (one : Relation.ReflTransGen (FleetStep codec call platforms settings)
      { cluster := ⟨{ db := start, seconds }, micros⟩ } fleet)
    (two : Relation.ReflTransGen (FleetStep codec call platforms settings) fleet last) :
    ∃ fleets, Scheduled codec call platforms settings start micros seconds fleets ∧
      ∃ early late, early ≤ late ∧ fleets early = fleet ∧ fleets late = last ∧
        ∀ later, late < later → fleets later = last.signal name := by
  have loops : FleetStep codec call platforms settings (last.signal name)
      (last.signal name) := by
    have step := @FleetStep.signal _ codec call platforms settings (last.signal name) name
    rwa [Fleet.signal_signal] at step
  obtain ⟨fleets, created, steps, passes⟩ :=
    Course.exists_of_runs one two (.signal last name) loops
  exact ⟨fleets, ⟨created, steps⟩, passes⟩

/-- Every process stays or makes the step. -/
theorem FleetStep.process_cases (moves : FleetStep codec call platforms settings fleet later)
    (name : Nat) :
    later.processes name = fleet.processes name ∨
      ProcessStep codec call.queue.runId (platforms name) (settings name) fleet.cluster
        (fleet.processes name) later.cluster (later.processes name) := by
  cases moves with
  | coordinator moves => exact .inl rfl
  | @process other cluster process moves =>
      by_cases same : name = other
      · subst same
        right
        simpa only [Function.update_self] using moves
      · exact .inl (Function.update_of_ne same _ _)

/-- A thread that works stays where it is, works on or comes to its `complete`. -/
theorem FleetStep.process_works {job : Job}
    (moves : FleetStep codec call platforms settings fleet later)
    (works : ((fleet.processes name).threads thread).Works job) :
    (later.processes name).threads thread = (fleet.processes name).threads thread ∨
      Thread.Less true 0 ((later.processes name).threads thread)
          ((fleet.processes name).threads thread) ∧
        (((later.processes name).threads thread).Works job ∨ ∃ lost result trace,
          (later.processes name).threads thread = .completing job lost result trace) := by
  rcases moves.process_cases name with same | moves
  · exact .inl (congrArg (fun process => process.threads thread) same)
  cases moves with
  | main moves => exact .inl (congrFun moves.threads thread)
  | beat hired moves => exact .inl (congrFun moves.threads thread)
  | @thread crew other _ _ hired member moves =>
      by_cases same : thread = other
      · subst same
        exact .inr (moves.works works)
      · obtain ⟨_, point, threads, _⟩ := moves.effect
        exact .inl (by rw [threads, Function.update_of_ne same])

/-- The clock does not run backwards, and nobody creates a run. -/
theorem FleetStep.called
    (duly : fleet.Duly codec call platforms settings start seconds)
    (loads : ∀ name, (platforms name).loads (codec.dumpPlan call.submission.plan) =
      .ok call.submission.plan.dump)
    (keys : Keys codec run fleet.cluster.system.db)
    (moves : FleetStep codec call platforms settings fleet later) :
    fleet.cluster.micros ≤ later.cluster.micros ∧
      Called codec fleet.cluster.system.db later.cluster.system.db := by
  cases moves with
  | coordinator moves =>
      obtain ⟨_, _, ⟨_, _, unanswered⟩ | ⟨same, _⟩⟩ := moves.queue
      · exact ⟨le_refl _, unanswered.called⟩
      · exact ⟨le_refl _, same ▸ .kept⟩
  | process moves =>
      refine ⟨moves.later.1, ?_⟩
      rcases (moves.duly (duly.processes _) duly.published (loads _)).1 with same | works
      · exact same ▸ .kept
      · exact works.called keys

/-- How the coordinator comes past its `close`. -/
theorem CoordinatorStep.shuts {system last : System Text}
    (moves : CoordinatorStep codec call system last)
    (past : last.coordinator.point.over = true) (unfailing : last.failed = false) :
    (system.coordinator.point.over = true ∧ system.failed = false ∧ last.db = system.db) ∨
      ∃ micros, last.db = RunQueue.close Key.own micros system.db := by
  cases moves with
  | results here =>
      simp only at past
      split at past <;> cases past
  | closed here => exact .inr ⟨_, rfl⟩
  | aborted here => exact .inr ⟨_, rfl⟩
  | closeFailed here => cases unfailing
  | abortFailed here => cases unfailing
  | returned here later => exact .inl ⟨by rw [here]; rfl, unfailing, rfl⟩
  | _ => cases past

theorem state_close (micros : Int) (db : Db Text) :
    hget .metadata "state" (RunQueue.close Key.own micros db) ≠ some (.text "open") := by
  rw [RunQueue.close, ApiSentinel.close]
  split
  · simp
  · next missing =>
      rw [hget_of_missing (by simpa [exists?] using missing)]
      simp

section Scheduled

variable (started : Started codec micros call.submission start)
  (loads : ∀ name, (platforms name).loads (codec.dumpPlan call.submission.plan) =
    .ok call.submission.plan.dump)
  (scheduled : Scheduled codec call platforms settings start micros seconds fleets)
  {timed : call.submission.Timed}
  (created : Created codec (call.submission.run timed (millis micros)) start)
include started loads scheduled created

theorem Scheduled.keys (time : Nat) :
    Keys codec (call.submission.run timed (millis micros)) (fleets time).cluster.system.db := by
  obtain ⟨steps, reached⟩ := ((scheduled.operating time).duly started loads).reaches
  exact (reached.queued created).1.keys

theorem Scheduled.called (time : Nat) :
    (fleets time).cluster.micros ≤ (fleets (time + 1)).cluster.micros ∧
      Called codec (fleets time).cluster.system.db (fleets (time + 1)).cluster.system.db :=
  (scheduled.step time).called ((scheduled.operating time).duly started loads) loads
    (scheduled.keys started loads created time)

/-- A run that is over stays so. -/
theorem Scheduled.ceased {time : Nat} {since : Int}
    (ceased : (fleets time).cluster.Ceased (call.submission.run timed (millis micros)) since)
    {later : Nat} (after : time ≤ later) :
    (fleets later).cluster.Ceased (call.submission.run timed (millis micros)) since :=
  @Course.stays _ fleets time (fun fleet => fleet.cluster.Ceased _ since) ceased
    (fun next _ here =>
      have called := scheduled.called started loads created next
      here.step (scheduled.keys started loads created next) called.1 called.2) later after

end Scheduled

theorem Scheduled.joining
    (scheduled : Scheduled codec call platforms settings start micros seconds fleets)
    (name time : Nat) : ((fleets time).processes name).main = .joining →
      ((fleets time).processes name).crew.isSome := by
  induction time with
  | zero =>
      rw [scheduled.created]
      nofun
  | succ time ih =>
      rcases (scheduled.step time).process_cases name with same | moves
      · rwa [same]
      · exact moves.joining ih

theorem Scheduled.crewed
    (scheduled : Scheduled codec call platforms settings start micros seconds fleets)
    (name time thread : Nat) : ((fleets time).processes name).threads thread ≠ .checking →
      ((fleets time).processes name).crew.isSome := by
  induction time generalizing thread with
  | zero =>
      rw [scheduled.created]
      exact fun moved => (moved rfl).elim
  | succ time ih =>
      rcases (scheduled.step time).process_cases name with same | moves
      · rw [same]
        exact ih thread
      · exact moves.crewed ih thread

/-- A thread that works and is served comes to its `complete`. -/
theorem Scheduled.completes
    (scheduled : Scheduled codec call platforms settings start micros seconds fleets)
    {name thread time : Nat} {job : Job}
    (serves : Process.Serves (settings name).concurrency
      fun time => (fleets time).processes name)
    (member : thread < (settings name).concurrency)
    (works : (((fleets time).processes name).threads thread).Works job) :
    ∃ later, time ≤ later ∧ ∃ lost result trace,
      ((fleets later).processes name).threads thread = .completing job lost result trace := by
  by_contra never
  have stays : ∀ later, time ≤ later →
      (((fleets later).processes name).threads thread).Works job := by
    intro later after
    induction later, after using Nat.le_induction with
    | base => exact works
    | succ later after ih =>
        rcases (scheduled.step later).process_works ih with same | ⟨_, still | completing⟩
        · exact same ▸ ih
        · exact still
        · exact (never ⟨later + 1, by omega, completing⟩).elim
  have sinks : Course.Sinks (Thread.Less true 0)
      (fun time => ((fleets time).processes name).threads thread) time := fun later after =>
    ((scheduled.step later).process_works (stays later after)).imp_right And.left
  obtain ⟨rest, after, rests⟩ := sinks.rests (Thread.wellFounded_less true 0)
  have working := stays rest after
  have moved : ((fleets rest).processes name).threads thread ≠ .checking := by
    intro checking
    rw [checking] at working
    cases working
  obtain ⟨last, upto, moves⟩ := serves.threads rest (scheduled.crewed name rest thread moved)
    thread member fun returned => by
      rw [returned] at working
      cases working
  exact moves (rests last upto)

theorem Scheduled.stop_stays
    (scheduled : Scheduled codec call platforms settings start micros seconds fleets)
    {name time : Nat} (stop : ((fleets time).processes name).stop = true) {later : Nat}
    (after : time ≤ later) : ((fleets later).processes name).stop = true :=
  @Course.stays _ (fun time => (fleets time).processes name) time
    (fun process => process.stop = true) stop
    (fun next _ here => by
      rcases (scheduled.step next).process_cases name with same | moves
      · exact same ▸ here
      · exact moves.later.2 here) later after

/-- A thread that has returned stays where it is. -/
theorem Scheduled.returned_stays
    (scheduled : Scheduled codec call platforms settings start micros seconds fleets)
    {name thread time : Nat}
    (returned : ((fleets time).processes name).threads thread = .returned) :
    ((fleets (time + 1)).processes name).threads thread = .returned := by
  rcases (scheduled.step time).process_cases name with same | moves
  · rwa [same]
  cases moves with
  | main moves => rwa [moves.threads]
  | beat hired moves => rwa [moves.threads]
  | @thread crew other _ _ hired member moves =>
      by_cases same : thread = other
      · subst same
        exact (moves.not_returned returned).elim
      · obtain ⟨_, point, threads, _⟩ := moves.effect
        rwa [threads, Function.update_of_ne same]

/-- What `Worker.run` does comes to rest. -/
theorem Scheduled.course_rests
    (scheduled : Scheduled codec call platforms settings start micros seconds fleets)
    (name time : Nat) : ∃ rest, time ≤ rest ∧ ∀ later, rest ≤ later →
      ((fleets later).processes name).course = ((fleets rest).processes name).course := by
  have sinks : Course.Sinks
      (InvImage (· < ·) (Main.remaining (settings name).waitSeconds))
      (fun time => ((fleets time).processes name).course) time := by
    intro next _
    rcases (scheduled.step next).process_cases name with same | moves
    · exact .inl (congrArg Process.course same)
    · exact moves.remaining
  exact sinks.rests (InvImage.wf _ Nat.lt_wfRel.wf)

section Scheduled

variable (started : Started codec micros call.submission start)
  (loads : ∀ name, (platforms name).loads (codec.dumpPlan call.submission.plan) =
    .ok call.submission.plan.dump)
  (scheduled : Scheduled codec call platforms settings start micros seconds fleets)
  {timed : call.submission.Timed}
  (created : Created codec (call.submission.run timed (millis micros)) start)
include started loads scheduled created

/-- The threads of a process that is stopped, or whose run is over, return. -/
theorem Scheduled.threads_return {name time : Nat}
    (leaving : ((fleets time).processes name).stop = true ∨
      (fleets time).cluster.Ceased (call.submission.run timed (millis micros)) since)
    (hired : ∀ later, time ≤ later → ((fleets later).processes name).crew.isSome)
    (serves : Process.Serves (settings name).concurrency
      fun time => (fleets time).processes name) :
    ∃ later, time ≤ later ∧ ∀ thread < (settings name).concurrency,
      ((fleets later).processes name).threads thread = .returned := by
  refine Course.together (fun thread _ later _ => scheduled.returned_stays) ?_
  intro thread member
  obtain ⟨stop, stopped, ceased⟩ : ∃ stop : Bool,
      (stop = true → ((fleets time).processes name).stop = true) ∧
      (stop = false → (fleets time).cluster.Ceased
        (call.submission.run timed (millis micros)) since) := by
    rcases leaving with stop | ceased
    · exact ⟨true, fun _ => stop, nofun⟩
    · exact ⟨false, nofun, fun _ => ceased⟩
  have sinks : Course.Sinks (Thread.Less stop since)
      (fun time => ((fleets time).processes name).threads thread) time := by
    intro next after
    rcases (scheduled.step next).process_cases name with same | moves
    · exact .inl (congrArg (fun process => process.threads thread) same)
    · exact moves.less thread (scheduled.keys started loads created next)
        (fun asked => scheduled.stop_stays (stopped asked) after)
        (fun going => scheduled.ceased started loads created (ceased going) after)
  have moves : ∀ later, time ≤ later →
      ¬ ((fleets later).processes name).threads thread = .returned →
      ∃ next, later ≤ next ∧ ((fleets next).processes name).threads thread ≠
        ((fleets later).processes name).threads thread :=
    fun later after => serves.threads later (hired later after) thread member
  exact @Course.Sinks.arrives _ _ _ _ sinks (Thread.wellFounded_less stop since)
    (fun point => point = .returned) moves

/-- A process that is stopped, or whose run is over, ends. -/
theorem Scheduled.process_ends {name time : Nat}
    (leaving : ((fleets time).processes name).stop = true ∨
      (fleets time).cluster.Ceased (call.submission.run timed (millis micros)) since)
    (serves : Process.Serves (settings name).concurrency
      fun time => (fleets time).processes name) :
    ∃ later, ((fleets later).processes name).main.ended = true := by
  obtain ⟨rest, after, rests⟩ := scheduled.course_rests name time
  by_contra goesOn
  have going : ∀ later, ((fleets later).processes name).main.ended = false :=
    fun later => Bool.eq_false_iff.mpr fun ended => goesOn ⟨later, ended⟩
  have still : ∀ later, rest ≤ later →
      ((fleets later).processes name).main = ((fleets rest).processes name).main :=
    fun later upto => congrArg Prod.fst (rests later upto)
  have waits : ∀ later, rest ≤ later → ((fleets later).processes name).main = .joining ∧
      ¬ ∀ thread < (settings name).concurrency,
        ((fleets later).processes name).threads thread = .returned := by
    intro later upto
    by_contra free
    obtain ⟨last, beyond, moved⟩ := serves.main later (going later) fun joining =>
      by_contra fun waiting => free ⟨joining, waiting⟩
    exact moved ((still last (upto.trans beyond)).trans (still later upto).symm)
  have left : ((fleets rest).processes name).stop = true ∨
      (fleets rest).cluster.Ceased (call.submission.run timed (millis micros)) since :=
    leaving.imp (fun stop => scheduled.stop_stays stop after)
      (fun ceased => scheduled.ceased started loads created ceased after)
  obtain ⟨last, upto, all⟩ := scheduled.threads_return started loads created left
    (fun later upto => scheduled.joining name later (waits later upto).1) serves
  exact (waits last upto).2 all

omit created in
theorem Scheduled.coordinator_cases (time : Nat) :
    CoordinatorStep codec call (fleets time).cluster.system (fleets (time + 1)).cluster.system ∨
      (fleets (time + 1)).cluster.system.coordinator = (fleets time).cluster.system.coordinator ∧
        (fleets (time + 1)).cluster.system.seconds = (fleets time).cluster.system.seconds ∧
        (fleets (time + 1)).cluster.system.failed = (fleets time).cluster.system.failed := by
  have duly := (scheduled.operating time).duly started loads
  have moves := scheduled.step time
  generalize (fleets (time + 1)) = later at moves
  cases moves with
  | coordinator moves => exact .inl moves
  | process moves =>
      right
      rcases (moves.duly (duly.processes _) duly.published (loads _)).1 with same | works
      · exact same ▸ ⟨rfl, rfl, rfl⟩
      · obtain ⟨coordinator, seconds, failed, _⟩ := works.coordinator
        exact ⟨coordinator, seconds, failed⟩

/-- The steps of the coordinator are bounded, so it comes to its return. -/
theorem Scheduled.coordinator_returns (serves : Fleet.ServesCoordinator fleets) :
    ∃ time report, (fleets time).cluster.system.coordinator.point = .returned report := by
  have sinks : Course.Sinks (InvImage (· < ·) Prod.snd)
      (fun time => ((fleets time).cluster.system.coordinator.point,
        call.remaining (fleets time).cluster.system)) 0 := by
    intro time _
    rcases scheduled.coordinator_cases started loads time with
      moves | ⟨coordinator, seconds, _⟩
    · obtain ⟨steps, reached⟩ := ((scheduled.operating time).duly started loads).reaches
      exact .inr (moves.remaining (reached.coordinated created).sound)
    · left
      simp only [Coordination.remaining, coordinator, seconds]
  obtain ⟨time, _, returned⟩ := @Course.Sinks.arrives _ _ _ _ sinks
    (InvImage.wf _ Nat.lt_wfRel.wf) (fun value => ∃ report, value.1 = .returned report)
    fun time _ away => by
      obtain ⟨later, after, moved⟩ := serves time fun report returned => away ⟨report, returned⟩
      exact ⟨later, after, fun same => moved (congrArg Prod.fst same)⟩
  exact ⟨time, returned⟩

/-- A coordinator that is past its `close` without a failed call has closed the run. -/
theorem Scheduled.shuts (time : Nat)
    (past : (fleets time).cluster.system.coordinator.point.over = true)
    (unfailing : (fleets time).cluster.system.failed = false) :
    hget .metadata "state" (fleets time).cluster.system.db ≠ some (.text "open") := by
  induction time with
  | zero =>
      rw [scheduled.created] at past
      cases past
  | succ time ih =>
      have called := (scheduled.called started loads created time).2
      have keys := scheduled.keys started loads created time
      rcases scheduled.coordinator_cases started loads time with
        moves | ⟨coordinator, _, failed⟩
      · rcases moves.shuts past unfailing with ⟨before, unfailed, same⟩ | ⟨micros, closed⟩
        · exact same ▸ ih before unfailed
        · exact closed ▸ state_close _ _
      · exact fun isOpen => ih (coordinator ▸ past) (failed ▸ unfailing)
          (called.state_open keys isOpen)

end Scheduled

end Schedules

/-- However a fleet is scheduled, if its coordinator is served it returns its report, and a
process that is served ends: when it is stopped, when the deadline of the run has passed, or
without either if no call of the coordinator fails. -/
theorem fleet_ends {micros : Int} {seconds : Rat} {start : Db Text} {call : Coordination}
    {platforms : Nat → Platform Text} {settings : Nat → WorkerOptions}
    {fleets : Nat → Fleet Text} (started : Started codec micros call.submission start)
    (loads : ∀ name, (platforms name).loads (codec.dumpPlan call.submission.plan) =
      .ok call.submission.plan.dump)
    (scheduled : Scheduled codec call platforms settings start micros seconds fleets)
    (serves : Fleet.ServesCoordinator fleets) :
    (∃ time report, (fleets time).cluster.system.coordinator.point = .returned report) ∧
      ∀ name, Process.Serves (settings name).concurrency
          (fun time => (fleets time).processes name) →
        (∃ time, ((fleets time).processes name).stop = true) ∨
          (∃ time, call.submission.deadline (millis micros) ≤
            millis (fleets time).cluster.micros) ∨
          (∀ time, (fleets time).cluster.system.failed = false) →
        ∃ time, ((fleets time).processes name).main.ended = true := by
  obtain ⟨timed, created⟩ := started.created
  obtain ⟨time, report, returned⟩ :=
    scheduled.coordinator_returns started loads created serves
  refine ⟨⟨time, report, returned⟩, fun name served ends => ?_⟩
  obtain ⟨begun, leaving⟩ : ∃ begun, ((fleets begun).processes name).stop = true ∨
      (fleets begun).cluster.Ceased (call.submission.run timed (millis micros))
        (fleets begun).cluster.micros := by
    rcases ends with ⟨later, stop⟩ | ⟨later, passed⟩ | unfailing
    · exact ⟨later, .inl stop⟩
    · exact ⟨later, .inr ⟨le_refl _, .inl passed⟩⟩
    · have past : (fleets time).cluster.system.coordinator.point.over = true := by
        rw [returned]
        rfl
      exact ⟨time, .inr ⟨le_refl _, .inr
        (scheduled.shuts started loads created time past (unfailing time))⟩⟩
  exact scheduled.process_ends started loads created leaving served

/-- A job that a thread has claimed is executed to its end, and its result is on its way to
`complete`, whether the process has been stopped meanwhile, the run has been closed or its
deadline has passed. -/
theorem claimed_jobs_offered {micros : Int} {seconds : Rat} {start : Db Text}
    {call : Coordination} {platforms : Nat → Platform Text} {settings : Nat → WorkerOptions}
    {fleets : Nat → Fleet Text} {name thread time : Nat} {job : Job}
    (started : Started codec micros call.submission start)
    (loads : ∀ name, (platforms name).loads (codec.dumpPlan call.submission.plan) =
      .ok call.submission.plan.dump) (valid : call.suite.Valid)
    (scheduled : Scheduled codec call platforms settings start micros seconds fleets)
    (serves : Process.Serves (settings name).concurrency
      fun time => (fleets time).processes name)
    (member : thread < (settings name).concurrency)
    (claimed : ((fleets time).processes name).threads thread = .registering job) :
    ∃ later, time ≤ later ∧ ∃ crew lost result trace,
      ((fleets later).processes name).threads thread = .completing job lost result trace ∧
      WorksBy (platforms name) (settings name) call.submission.plan crew ∧
      crew.worker.Executes call.queue.runId job trace result := by
  have works : (((fleets time).processes name).threads thread).Works job := by
    rw [claimed]
    rfl
  obtain ⟨later, after, lost, result, trace, completing⟩ :=
    scheduled.completes serves member works
  have duly := ((scheduled.operating later).duly started loads).processes name
  have held := duly.threads thread
  rw [completing] at held
  obtain ⟨_, crew, made, ran⟩ := held
  exact ⟨later, after, crew, lost, result, trace, completing, worksBy_of_prepare valid made, ran⟩

namespace Sample

variable {fleets : Nat → Fleet Document} {last : Nat}

/-- From a time on everybody is done. -/
def Done (fleets : Nat → Fleet Document) (last : Nat) : Prop :=
  ∀ time, last ≤ time →
    (fleets time).cluster.system.coordinator.point =
        .returned (monitoring.report [result] none 5) ∧
      ((fleets time).processes 0).main = .exited 0 ∧
      ((fleets time).processes 0).threads 0 = .returned

theorem Done.servesCoordinator (done : Done fleets last) : Fleet.ServesCoordinator fleets := by
  intro time away
  by_cases after : last ≤ time
  · exact (away _ (done time after).1).elim
  · exact ⟨last, (not_le.mp after).le, fun same =>
      away _ (same.symm.trans (done last (le_refl _)).1)⟩

theorem Done.serves (done : Done fleets last) :
    Process.Serves 1 fun time => (fleets time).processes 0 := by
  constructor
  · intro time going _
    by_cases after : last ≤ time
    · rw [(done time after).2.1] at going
      cases going
    · refine ⟨last, (not_le.mp after).le, fun same => ?_⟩
      rw [← same, (done last (le_refl _)).2.1] at going
      cases going
  · intro time _ thread first away
    obtain rfl := Nat.lt_one_iff.mp first
    by_cases after : last ≤ time
    · exact (away (done time after).2.2).elim
    · exact ⟨last, (not_le.mp after).le, fun same =>
        away (same.symm.trans (done last (le_refl _)).2.2)⟩

/-- The fleet works the case off, is done and is then signalled for ever. -/
theorem scheduled_done : ∃ fleets : Nat → Fleet Document,
    Scheduled Codec.plain monitoring (fun _ => Sample.platform) (fun _ => oneThread) monitored
        1000000 0 fleets ∧
      ∃ early late, fleets early = handed ∧ Done fleets late ∧
        ((fleets (late + 1)).processes 0).stop = true := by
  obtain ⟨fleet, leads, exited, left, returned⟩ := leads_exited
  obtain ⟨fleets, scheduled, early, late, _, here, there, rests⟩ :=
    Scheduled.exists_of_runs 0 (leads_hired.trans leads_handed) leads
  refine ⟨fleets, scheduled, early, late, here, fun time after => ?_, ?_⟩
  · rcases after.eq_or_lt with rfl | after
    · exact there ▸ ⟨returned, exited, left⟩
    · rw [rests time after]
      exact ⟨returned, exited, left⟩
  · rw [rests (late + 1) (Nat.lt_succ_self late)]
    simp [Fleet.signal]

end Sample

theorem fleet_ends_sample :
    ∃ fleets : Nat → Fleet Document,
      Scheduled Codec.plain Sample.monitoring (fun _ => Sample.platform)
        (fun _ => Sample.oneThread) Sample.monitored 1000000 0 fleets ∧
      (∃ time report, (fleets time).cluster.system.coordinator.point = .returned report) ∧
      ∃ time, ((fleets time).processes 0).main.ended = true := by
  obtain ⟨fleets, scheduled, _, late, _, done, stopped⟩ := Sample.scheduled_done
  obtain ⟨reported, ends⟩ :=
    fleet_ends Sample.started_monitored (fun _ => rfl) scheduled done.servesCoordinator
  exact ⟨fleets, scheduled, reported, ends 0 done.serves (.inl ⟨late + 1, stopped⟩)⟩

theorem claimed_jobs_offered_sample :
    ∃ fleets : Nat → Fleet Document,
      Scheduled Codec.plain Sample.monitoring (fun _ => Sample.platform)
        (fun _ => Sample.oneThread) Sample.monitored 1000000 0 fleets ∧
      ∃ time lost result trace,
        ((fleets time).processes 0).threads 0 = .completing Sample.job lost result trace := by
  obtain ⟨fleets, scheduled, early, _, here, done, _⟩ := Sample.scheduled_done
  have claimed : ((fleets early).processes 0).threads 0 = .registering Sample.job := here ▸ rfl
  obtain ⟨time, _, _, lost, result, trace, completing, _⟩ :=
    claimed_jobs_offered Sample.started_monitored (fun _ => rfl) Sample.suite_valid scheduled
      done.serves (by decide) claimed
  exact ⟨fleets, scheduled, time, lost, result, trace, completing⟩

end ApiSentinel
