import ApiSentinel.Interleaving
import ApiSentinel.Plans

/-!
# Worker processes

`Worker.run` with its thread pool and its heartbeat, statement by statement where
threads share something, and any number of such processes around one coordinator.
A Redis call of a process that raises `RedisError` may have been carried out or not.
-/

namespace ApiSentinel

open Redis Program

def unavailableMessage : String := "Redis unavailable"

def heartbeatMessage : String := "Redis heartbeat unavailable"

def executionMessage (raised : Raised) : String :=
  "worker execution error (" ++ raised.type ++ ")"

/-- Where a thread of the pool is in `consume`.  Each claim makes an event of its own for
`lost`, here a number. -/
inductive Thread (Text : Type)
  /-- `self.stop.is_set()` -/
  | checking
  /-- `self.queue.claim(self.lease_seconds)` -/
  | claiming
  /-- `self.queue.count()` -/
  | counting
  /-- The `HMGET` of `self.queue.is_open()`. -/
  | asking
  /-- The `TIME` of `self.queue.is_open()`. -/
  | dating (fields : Option (Bulk Text) × Option (Bulk Text))
  /-- `self.stop.wait(0.05)` -/
  | resting
  /-- `self.active[job.token] = (job, lost)` -/
  | registering (job : Job)
  | executing (job : Job) (lost : Nat) (program : Execution CaseResult)
      (trace : Execution.Trace)
  | completing (job : Job) (lost : Nat) (result : CaseResult) (trace : Execution.Trace)
  /-- `self.active.pop(job.token, None)`, on the way to a handler if there is a message. -/
  | popping (job : Job) (message : Option String)
  /-- `self.error = message` -/
  | blaming (message : String)
  /-- `self.stop.set()` -/
  | stopping
  | returned

/-- Where the heartbeat is, with the rest of its copy of the table. -/
inductive Beat
  /-- `self.heartbeat_stop.wait(self.lease_seconds / 3)` -/
  | waiting
  /-- `self.queue.renew(job, self.lease_seconds)` for the first job. -/
  | renewing (pending : List (Job × Nat))
  /-- `lost.set()`, in the handler if the renewal has raised. -/
  | losing (lost : Nat) (raised : Bool) (pending : List (Job × Nat))
  /-- `self.error = "Redis heartbeat unavailable"` -/
  | blaming (pending : List (Job × Nat))
  /-- `self.stop.set()` -/
  | stopping (pending : List (Job × Nat))
  | ended

/-- Where `Worker.run` is. -/
inductive Main
  /-- `time.monotonic()` -/
  | starting
  /-- `plan = self.queue.plan()` -/
  | planning
  /-- `self.stop.wait(0.1)` -/
  | pausing
  /-- `time.monotonic() >= deadline` -/
  | timing
  | preparing (plan : Json)
  /-- `future.result()` for all threads of the pool. -/
  | joining
  /-- `heartbeat.join(timeout=5)` and `return 2 if self.error else 0` -/
  | closing
  | exited (code : Nat)
  | raised (raised : Raised)

/-- The state of a process: its monotonic clock, its threads, the table of active jobs by
their tokens, the number of events made, those that are set, and its other fields; and what
has happened: whether it got a signal, how many calls of its threads have raised, and how
many renewals. -/
structure Process (Text : Type) where
  main : Main := .starting
  seconds : Rat := 0
  deadline : Rat := 0
  crew : Option Crew := none
  threads : Nat → Thread Text := fun _ => .checking
  beat : Beat := .waiting
  active : List (String × Job × Nat) := []
  events : Nat := 0
  lost : List Nat := []
  stop : Bool := false
  heartbeatStop : Bool := false
  error : Option String := none
  signalled : Bool := false
  failures : Nat := 0
  missed : Nat := 0

/-- The coordinator with the keys of its run, and the latest Redis time in microseconds
that a worker was told. -/
structure Cluster (Text : Type) where
  system : System Text
  micros : Int

namespace Process

variable {Text : Type}

def goto (process : Process Text) (thread : Nat) (point : Thread Text) : Process Text :=
  { process with threads := Function.update process.threads thread point }

/-- A call of a thread has raised. -/
def fail (process : Process Text) (thread : Nat) (point : Thread Text) : Process Text :=
  { process.goto thread point with failures := process.failures + 1 }

end Process

namespace System

variable {Text : Type} (codec : Codec Text)

/-- The system after a call of `claim`. -/
def claimed (system : System Text) (micros : Int) (token : String) (leaseSeconds : Rat) :
    System Text :=
  let (answer, db) := RunQueue.claim Key.own codec micros token leaseSeconds system.db
  { system with db, jobs := ApiSentinel.claimed answer ++ system.jobs }

/-- The system after a call of `renew`. -/
def renewed (system : System Text) (micros : Int) (job : Job) (leaseSeconds : Rat) :
    System Text :=
  { system with db := (RunQueue.renew Key.own micros job leaseSeconds system.db).2 }

/-- The system after a call of `complete`. -/
def finished (system : System Text) (micros : Int) (job : Job) (result : CaseResult) :
    System Text :=
  match RunQueue.complete Key.own codec micros job result system.db with
  | (.ok true, db) => system.completed micros job result db
  | (_, db) => { system with db }

end System

section Steps

variable {Text : Type} (codec : Codec Text) (runId : String) (platform : Platform Text)
  (options : WorkerOptions)

/-- A step of a thread of the pool. -/
inductive ThreadStep (crew : Crew) (thread : Nat) :
    Cluster Text → Process Text → Cluster Text → Process Text → Prop
  | leaves {cluster process} (here : process.threads thread = .checking)
      (stop : process.stop = true) :
      ThreadStep crew thread cluster process cluster (process.goto thread .returned)
  | goesOn {cluster process} (here : process.threads thread = .checking)
      (going : process.stop = false) :
      ThreadStep crew thread cluster process cluster (process.goto thread .claiming)
  | claimed {cluster process micros token job}
      (here : process.threads thread = .claiming) (later : cluster.micros ≤ micros)
      (answer : (RunQueue.claim Key.own codec micros token crew.worker.leaseSeconds
        cluster.system.db).1 = .ok (some job)) :
      ThreadStep crew thread cluster process
        ⟨cluster.system.claimed codec micros token crew.worker.leaseSeconds, micros⟩
        (process.goto thread (.registering job))
  | nothing {cluster process micros token}
      (here : process.threads thread = .claiming) (later : cluster.micros ≤ micros)
      (answer : (RunQueue.claim Key.own codec micros token crew.worker.leaseSeconds
        cluster.system.db).1 = .ok none) :
      ThreadStep crew thread cluster process
        ⟨cluster.system.claimed codec micros token crew.worker.leaseSeconds, micros⟩
        (process.goto thread .counting)
  | claimRaised {cluster process micros token raised}
      (here : process.threads thread = .claiming) (later : cluster.micros ≤ micros)
      (answer : (RunQueue.claim Key.own codec micros token crew.worker.leaseSeconds
        cluster.system.db).1 = .error raised) :
      ThreadStep crew thread cluster process
        ⟨cluster.system.claimed codec micros token crew.worker.leaseSeconds, micros⟩
        (process.fail thread (.blaming (executionMessage raised)))
  | claimLost {cluster process micros token}
      (here : process.threads thread = .claiming) (later : cluster.micros ≤ micros) :
      ThreadStep crew thread cluster process
        ⟨cluster.system.claimed codec micros token crew.worker.leaseSeconds, micros⟩
        (process.fail thread (.blaming unavailableMessage))
  -- The call has not reached Redis.
  | unreached {cluster process}
      (here : process.threads thread = .claiming ∨ process.threads thread = .counting ∨
        process.threads thread = .asking ∨
        ∃ fields, process.threads thread = .dating fields) :
      ThreadStep crew thread cluster process cluster
        (process.fail thread (.blaming unavailableMessage))
  | full {cluster process micros} (here : process.threads thread = .counting)
      (later : cluster.micros ≤ micros)
      (full : crew.total ≤ RunQueue.count Key.own micros cluster.system.db) :
      ThreadStep crew thread cluster process ⟨cluster.system, micros⟩
        (process.goto thread .returned)
  | counted {cluster process micros} (here : process.threads thread = .counting)
      (later : cluster.micros ≤ micros)
      (missing : RunQueue.count Key.own micros cluster.system.db < crew.total) :
      ThreadStep crew thread cluster process ⟨cluster.system, micros⟩ (process.goto thread .asking)
  | asked {cluster process micros} (here : process.threads thread = .asking)
      (later : cluster.micros ≤ micros) :
      ThreadStep crew thread cluster process ⟨cluster.system, micros⟩
        (process.goto thread (.dating (RunQueue.stateDeadline Key.own micros cluster.system.db)))
  | ended {cluster process fields micros}
      (here : process.threads thread = .dating fields) (later : cluster.micros ≤ micros)
      (ended : RunQueue.isOpen fields micros = false) :
      ThreadStep crew thread cluster process ⟨cluster.system, micros⟩
        (process.goto thread .returned)
  | isOpen {cluster process fields micros}
      (here : process.threads thread = .dating fields) (later : cluster.micros ≤ micros)
      (isOpen : RunQueue.isOpen fields micros = true) :
      ThreadStep crew thread cluster process ⟨cluster.system, micros⟩ (process.goto thread .resting)
  | rested {cluster process} (here : process.threads thread = .resting) :
      ThreadStep crew thread cluster process cluster (process.goto thread .checking)
  | registered {cluster process job} (here : process.threads thread = .registering job) :
      ThreadStep crew thread cluster process cluster
        { process.goto thread (.executing job process.events
            (crew.worker.executor.run job.case runId crew.worker.workerId job.delivery) []) with
          active := setItem job.token (job, process.events) process.active
          events := process.events + 1 }
  | leaseValid {cluster process job lost next trace}
      (here : process.threads thread = .executing job lost (.ask .leaseValid next) trace) :
      ThreadStep crew thread cluster process cluster
        (process.goto thread (.executing job lost (next (decide (lost ∉ process.lost)))
          (trace ++ [⟨.leaseValid, decide (lost ∉ process.lost)⟩])))
  | answered {cluster process job lost question next trace answer}
      (here : process.threads thread = .executing job lost (.ask question next) trace)
      (other : question ≠ .leaseValid) :
      ThreadStep crew thread cluster process cluster
        (process.goto thread (.executing job lost (next answer) (trace ++ [⟨question, answer⟩])))
  | executed {cluster process job lost result trace}
      (here : process.threads thread = .executing job lost (.done result) trace) :
      ThreadStep crew thread cluster process cluster
        (process.goto thread (.completing job lost result trace))
  | completed {cluster process job lost result trace micros accepted}
      (here : process.threads thread = .completing job lost result trace)
      (later : cluster.micros ≤ micros)
      (answer : (RunQueue.complete Key.own codec micros job result cluster.system.db).1 =
        .ok accepted) :
      ThreadStep crew thread cluster process
        ⟨cluster.system.finished codec micros job result, micros⟩
        (process.goto thread (.popping job none))
  | completeRaised {cluster process job lost result trace micros raised}
      (here : process.threads thread = .completing job lost result trace)
      (answer : (RunQueue.complete Key.own codec micros job result cluster.system.db).1 =
        .error raised) :
      ThreadStep crew thread cluster process cluster
        (process.fail thread (.popping job (some (executionMessage raised))))
  | completeLost {cluster process job lost result trace micros}
      (here : process.threads thread = .completing job lost result trace)
      (later : cluster.micros ≤ micros) :
      ThreadStep crew thread cluster process
        ⟨cluster.system.finished codec micros job result, micros⟩
        (process.fail thread (.popping job (some unavailableMessage)))
  | completeUnreached {cluster process job lost result trace}
      (here : process.threads thread = .completing job lost result trace) :
      ThreadStep crew thread cluster process cluster
        (process.fail thread (.popping job (some unavailableMessage)))
  | popped {cluster process job message}
      (here : process.threads thread = .popping job message) :
      ThreadStep crew thread cluster process cluster
        { process.goto thread ((message.map Thread.blaming).getD .checking) with
          active := process.active.filter (fun entry => entry.1 ≠ job.token) }
  | blamed {cluster process message} (here : process.threads thread = .blaming message) :
      ThreadStep crew thread cluster process cluster
        { process.goto thread .stopping with error := some message }
  | stopped {cluster process} (here : process.threads thread = .stopping) :
      ThreadStep crew thread cluster process cluster
        { process.goto thread .returned with stop := true }

/-- A step of the heartbeat. -/
inductive BeatStep (crew : Crew) :
    Cluster Text → Process Text → Cluster Text → Process Text → Prop
  | ended {cluster process} (here : process.beat = .waiting)
      (stop : process.heartbeatStop = true) :
      BeatStep crew cluster process cluster { process with beat := .ended }
  | copied {cluster process} (here : process.beat = .waiting)
      (going : process.heartbeatStop = false) :
      BeatStep crew cluster process cluster
        { process with beat := .renewing (process.active.map Prod.snd) }
  | round {cluster process} (here : process.beat = .renewing []) :
      BeatStep crew cluster process cluster { process with beat := .waiting }
  | renewed {cluster process job lost pending micros}
      (here : process.beat = .renewing ((job, lost) :: pending))
      (later : cluster.micros ≤ micros)
      (answer : (RunQueue.renew Key.own micros job crew.worker.leaseSeconds
        cluster.system.db).1 = true) :
      BeatStep crew cluster process
        ⟨cluster.system.renewed micros job crew.worker.leaseSeconds, micros⟩
        { process with beat := .renewing pending }
  | refused {cluster process job lost pending micros}
      (here : process.beat = .renewing ((job, lost) :: pending))
      (later : cluster.micros ≤ micros)
      (answer : (RunQueue.renew Key.own micros job crew.worker.leaseSeconds
        cluster.system.db).1 = false) :
      BeatStep crew cluster process
        ⟨cluster.system.renewed micros job crew.worker.leaseSeconds, micros⟩
        { process with beat := .losing lost false pending }
  | unanswered {cluster process job lost pending micros}
      (here : process.beat = .renewing ((job, lost) :: pending))
      (later : cluster.micros ≤ micros) :
      BeatStep crew cluster process
        ⟨cluster.system.renewed micros job crew.worker.leaseSeconds, micros⟩
        { process with beat := .losing lost true pending, missed := process.missed + 1 }
  | unreached {cluster process job lost pending}
      (here : process.beat = .renewing ((job, lost) :: pending)) :
      BeatStep crew cluster process cluster
        { process with beat := .losing lost true pending, missed := process.missed + 1 }
  | lost {cluster process lost raised pending}
      (here : process.beat = .losing lost raised pending) :
      BeatStep crew cluster process cluster
        { process with
          lost := lost :: process.lost
          beat := if raised then .blaming pending else .renewing pending }
  | blamed {cluster process pending} (here : process.beat = .blaming pending) :
      BeatStep crew cluster process cluster
        { process with error := some heartbeatMessage, beat := .stopping pending }
  | stopped {cluster process pending} (here : process.beat = .stopping pending) :
      BeatStep crew cluster process cluster
        { process with stop := true, beat := .renewing pending }

/-- A step of `Worker.run` itself, or a signal to the process. -/
inductive MainStep : Cluster Text → Process Text → Cluster Text → Process Text → Prop
  | started {cluster process now} (here : process.main = .starting)
      (later : process.seconds ≤ now) :
      MainStep cluster process cluster
        { process with
          main := .planning, seconds := now, deadline := now + options.waitSeconds }
  | absent {cluster process micros} (here : process.main = .planning)
      (later : cluster.micros ≤ micros)
      (answer : RunQueue.plan Key.own micros cluster.system.db = none) :
      MainStep cluster process ⟨cluster.system, micros⟩ { process with main := .pausing }
  | found {cluster process micros text plan} (here : process.main = .planning)
      (later : cluster.micros ≤ micros)
      (answer : RunQueue.plan Key.own micros cluster.system.db = some (.doc text))
      (loaded : platform.loads text = .ok plan) :
      MainStep cluster process ⟨cluster.system, micros⟩
        { process with main := if plan.isNull then .pausing else .preparing plan }
  | unreadable {cluster process micros text raised} (here : process.main = .planning)
      (later : cluster.micros ≤ micros)
      (answer : RunQueue.plan Key.own micros cluster.system.db = some (.doc text))
      (loaded : platform.loads text = .error raised) :
      MainStep cluster process ⟨cluster.system, micros⟩ { process with main := .raised raised }
  | unavailable {cluster process raised} (here : process.main = .planning) :
      MainStep cluster process cluster { process with main := .raised raised }
  | gaveUp {cluster process} (here : process.main = .pausing) (stop : process.stop = true) :
      MainStep cluster process cluster { process with main := .exited 2 }
  | paused {cluster process now} (here : process.main = .pausing)
      (going : process.stop = false) (later : process.seconds + 1 / 10 ≤ now) :
      MainStep cluster process cluster { process with main := .timing, seconds := now }
  | expired {cluster process now} (here : process.main = .timing)
      (later : process.seconds ≤ now) (reached : process.deadline ≤ now) :
      MainStep cluster process cluster
        { process with
          main := .raised ⟨"TimeoutError", false,
            "run was not submitted before worker wait deadline"⟩
          seconds := now }
  | again {cluster process now} (here : process.main = .timing)
      (later : process.seconds ≤ now) (left : now < process.deadline) :
      MainStep cluster process cluster { process with main := .planning, seconds := now }
  | prepared {cluster process plan crew} (here : process.main = .preparing plan)
      (made : prepare platform options plan = .ok crew) :
      MainStep cluster process cluster { process with main := .joining, crew := some crew }
  | rejected {cluster process plan raised} (here : process.main = .preparing plan)
      (failed : prepare platform options plan = .error raised) :
      MainStep cluster process cluster { process with main := .raised raised }
  | joined {cluster process} (here : process.main = .joining)
      (all : ∀ thread < options.concurrency, process.threads thread = .returned) :
      MainStep cluster process cluster { process with main := .closing, heartbeatStop := true }
  -- The join of the heartbeat gives up after five seconds.
  | closed {cluster process} (here : process.main = .closing) :
      MainStep cluster process cluster
        { process with main := .exited (if truthy process.error then 2 else 0) }
  | signalled {cluster process} :
      MainStep cluster process cluster { process with stop := true, signalled := true }

inductive ProcessStep : Cluster Text → Process Text → Cluster Text → Process Text → Prop
  | main {cluster process next after}
      (moves : MainStep platform options cluster process next after) :
      ProcessStep cluster process next after
  | thread {cluster process crew thread next after} (hired : process.crew = some crew)
      (member : thread < options.concurrency)
      (moves : ThreadStep codec runId crew thread cluster process next after) :
      ProcessStep cluster process next after
  | beat {cluster process crew next after} (hired : process.crew = some crew)
      (moves : BeatStep crew cluster process next after) :
      ProcessStep cluster process next after

end Steps

/-! ### The fleet -/

/-- A coordinator and its worker processes. -/
structure Fleet (Text : Type) where
  cluster : Cluster Text
  processes : Nat → Process Text := fun _ => {}

section Fleet

variable {Text : Type} (codec : Codec Text) (call : Coordination)
  (platforms : Nat → Platform Text) (options : Nat → WorkerOptions)

inductive FleetStep : Fleet Text → Fleet Text → Prop
  | coordinator {fleet system}
      (moves : CoordinatorStep codec call fleet.cluster.system system) :
      FleetStep fleet { fleet with cluster := ⟨system, fleet.cluster.micros⟩ }
  | process {fleet name cluster process}
      (moves : ProcessStep codec call.queue.runId (platforms name) (options name)
        fleet.cluster (fleet.processes name) cluster process) :
      FleetStep fleet
        { cluster, processes := Function.update fleet.processes name process }

/-- Every interleaving from the moment that `queue.create` has succeeded. -/
inductive Operating (start : Db Text) (micros : Int) (seconds : Rat) : Fleet Text → Prop
  | created : Operating start micros seconds { cluster := ⟨{ db := start, seconds }, micros⟩ }
  | step {fleet next} (past : Operating start micros seconds fleet)
      (moves : FleetStep codec call platforms options fleet next) :
      Operating start micros seconds next

variable {codec call platforms options} {start : Db Text} {micros : Int} {seconds : Rat}
  {fleet : Fleet Text}

theorem operating_iff :
    Operating codec call platforms options start micros seconds fleet ↔
      Relation.ReflTransGen (FleetStep codec call platforms options)
        { cluster := ⟨{ db := start, seconds }, micros⟩ } fleet := by
  constructor
  · intro operating
    induction operating with
    | created => exact .refl
    | step past moves ih => exact ih.tail moves
  · intro steps
    induction steps with
    | refl => exact .created
    | tail past moves ih => exact ih.step moves

end Fleet

end ApiSentinel
