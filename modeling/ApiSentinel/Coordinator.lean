import ApiSentinel.Executor
import ApiSentinel.Expiry

/-!
# The coordinator among its workers

`distributed_run` from the moment that `queue.create` has succeeded.  It stops
wherever it calls Redis, sleeps or reads its clock, and between any two of its
steps any number of workers may call the queue.  Nothing is assumed of the Redis
clock, of the order in which `HVALS` answers, or of which calls fail.
-/

namespace ApiSentinel

open Redis

/-- The arguments of `distributed_run`, and the clock reading that it starts with. -/
structure Coordination where
  queue : RunQueue
  suite : Suite
  contract : Json
  timeout : Rat
  maxDeliveries : Int := 3
  baseUrl : Option String := none
  executorOptions : List (String × Json) := []
  started : Rat

/-- What `distributed_run` passes to `queue.create`. -/
def Coordination.submission (call : Coordination) : Submission where
  suite := call.suite
  contract := call.contract
  timeout := call.timeout
  maxDeliveries := call.maxDeliveries
  baseUrl := call.baseUrl
  executorOptions := call.executorOptions

/-! ### The report -/

def deadlineMessage : String := "run deadline exceeded; expected results are missing"

def collectingMessage : String := "Redis unavailable while collecting results"

def closingMessage : String := "Redis unavailable while closing the run"

/-- The entry that the coordinator makes for a case without a result. -/
def missingResult (error : Option String) (case : Case) : CaseResult where
  caseId := case.id
  status := .error
  workerId := "coordinator"
  message := some (if truthy error then error.getD "" else "missing result")

/-- The results after the loop over `suite.cases`. -/
def padded (suite : Suite) (error : Option String) (results : List CaseResult) :
    List CaseResult :=
  let complete := results.map CaseResult.caseId
  results ++ (suite.cases.filter (fun case => case.id ∉ complete)).map (missingResult error)

/-- The report that `distributed_run` returns at a clock reading. -/
def Coordination.report (call : Coordination) (results : List CaseResult)
    (error : Option String) (now : Rat) : RunReport where
  runId := call.queue.runId
  suite := call.suite.name
  mode := .distributed
  elapsedMs := elapsedMs (now - call.started)
  expected := call.suite.cases.length
  results := padded call.suite error results
  infrastructureError := error

/-! ### Where the coordinator is -/

/-- The next thing that `distributed_run` does. -/
inductive Point (Text : Type)
  /-- `results = queue.results()` -/
  | reading
  /-- `time.monotonic() - started >= timeout` -/
  | comparing
  /-- The `HMGET` of `queue.is_open()`. -/
  | asking
  /-- The `TIME` of `queue.is_open()`. -/
  | dating (fields : Option (Bulk Text) × Option (Bulk Text))
  /-- `time.sleep(0.05)` -/
  | sleeping
  /-- `queue.close()` -/
  | closing
  /-- The clock reading for the report. -/
  | finishing
  | returned (report : RunReport)
  /-- `queue.close()` on the way out with an exception. -/
  | aborting (raised : Raised)
  | raised (raised : Raised)

/-- The calls of Redis inside the `try` block. -/
def Point.collects {Text : Type} : Point Text → Bool
  | .reading | .asking | .dating _ => true
  | _ => false

/-- The local variables of `distributed_run`. -/
structure Coordinator (Text : Type) where
  results : List CaseResult := []
  error : Option String := none
  point : Point Text := .reading

/-! ### The system -/

/-- A call of `COMPLETE` that answered 1, and the live keys that it found. -/
structure Acceptance (Text : Type) where
  now : Int
  job : Job
  result : CaseResult
  before : Db Text

/-- The keys, the coordinator with its monotonic clock, and what has happened:
the jobs that were handed out, the completions that were accepted, the live keys
at the last successful call of `results`, the completions accepted since then, and
whether a Redis call of the coordinator has failed. -/
structure System (Text : Type) where
  db : Db Text
  seconds : Rat
  coordinator : Coordinator Text := {}
  jobs : List Job := []
  accepted : List (Acceptance Text) := []
  lastRead : Db Text := empty
  unread : List (Acceptance Text) := []
  failed : Bool := false

namespace System

variable {Text : Type}

def goto (system : System Text) (point : Point Text) : System Text :=
  { system with coordinator := { system.coordinator with point } }

/-- Leave the loop with an error. -/
def stop (system : System Text) (error : String) : System Text :=
  { system with
    coordinator := { system.coordinator with error := some error, point := .closing } }

end System

section Steps

variable {Text : Type} (codec : Codec Text)

/-- A call of `close` that raises `RedisError` may have reached Redis or not. -/
def Unanswered (before after : Db Text) : Prop :=
  after = before ∨ ∃ micros, after = RunQueue.close Key.own micros before

inductive CoordinatorStep (call : Coordination) : System Text → System Text → Prop
  | results {system micros values read} (here : system.coordinator.point = .reading)
      (answer : values.Perm (hvals (Key.own .results) (live (millis micros) system.db)))
      (valid : RunQueue.validate codec values = some read) :
      CoordinatorStep call system
        { system with
          coordinator := { system.coordinator with
            results := read
            point := if read.length = call.suite.cases.length then .closing else .comparing }
          lastRead := live (millis micros) system.db
          unread := [] }
  | invalid {system micros values} (here : system.coordinator.point = .reading)
      (answer : values.Perm (hvals (Key.own .results) (live (millis micros) system.db)))
      (invalid : RunQueue.validate codec values = none) :
      CoordinatorStep call system
        (system.goto (.aborting ⟨"ValidationError", true, "invalid result"⟩))
  | unavailable {system} (here : system.coordinator.point.collects = true) :
      CoordinatorStep call system { system.stop collectingMessage with failed := true }
  | inTime {system now} (here : system.coordinator.point = .comparing)
      (later : system.seconds ≤ now) (left : now - call.started < call.timeout) :
      CoordinatorStep call system { system.goto .asking with seconds := now }
  | exceeded {system now} (here : system.coordinator.point = .comparing)
      (later : system.seconds ≤ now) (reached : call.timeout ≤ now - call.started) :
      CoordinatorStep call system { system.stop deadlineMessage with seconds := now }
  | fields {system micros} (here : system.coordinator.point = .asking) :
      CoordinatorStep call system
        (system.goto (.dating (RunQueue.stateDeadline Key.own micros system.db)))
  | isOpen {system fields micros} (here : system.coordinator.point = .dating fields)
      (isOpen : RunQueue.isOpen fields micros = true) :
      CoordinatorStep call system (system.goto .sleeping)
  | ended {system fields micros} (here : system.coordinator.point = .dating fields)
      (ended : RunQueue.isOpen fields micros = false) :
      CoordinatorStep call system (system.stop deadlineMessage)
  | slept {system now} (here : system.coordinator.point = .sleeping)
      (later : system.seconds + 1 / 20 ≤ now) :
      CoordinatorStep call system { system.goto .reading with seconds := now }
  | closed {system micros} (here : system.coordinator.point = .closing) :
      CoordinatorStep call system
        { system.goto .finishing with db := RunQueue.close Key.own micros system.db }
  | closeFailed {system db} (here : system.coordinator.point = .closing)
      (unanswered : Unanswered system.db db) :
      CoordinatorStep call system
        { system with
          db := db
          coordinator := { system.coordinator with
            error := some closingMessage
            point := .finishing }
          failed := true }
  | returned {system now} (here : system.coordinator.point = .finishing)
      (later : system.seconds ≤ now) :
      CoordinatorStep call system
        { system.goto (.returned
            (call.report system.coordinator.results system.coordinator.error now)) with
          seconds := now }
  | aborted {system raised micros} (here : system.coordinator.point = .aborting raised) :
      CoordinatorStep call system
        { system.goto (.raised raised) with db := RunQueue.close Key.own micros system.db }
  | abortFailed {system raised db} (here : system.coordinator.point = .aborting raised)
      (unanswered : Unanswered system.db db) :
      CoordinatorStep call system
        { system.goto (.raised raised) with db := db, failed := true }

/-- The job that a call of `claim` returned. -/
def claimed : Except Raised (Option Job) → List Job
  | .ok (some job) => [job]
  | _ => []

/-- A call of a worker, alive or not to read the answer.  It completes a job that
some worker has claimed with a result that was produced for that job. -/
inductive WorkerStep (produced : Job → CaseResult → Prop) : System Text → System Text → Prop
  | claim {system micros token lease answer db}
      (called : RunQueue.claim Key.own codec micros token lease system.db = (answer, db)) :
      WorkerStep produced system { system with db := db, jobs := claimed answer ++ system.jobs }
  | renew {system micros job lease answer db}
      (called : RunQueue.renew Key.own micros job lease system.db = (answer, db)) :
      WorkerStep produced system { system with db := db }
  | accepted {system micros job result db} (member : job ∈ system.jobs)
      (made : produced job result)
      (called : RunQueue.complete Key.own codec micros job result system.db = (.ok true, db)) :
      WorkerStep produced system
        { system with
          db := db
          accepted := ⟨millis micros, job, result, live (millis micros) system.db⟩ ::
            system.accepted
          unread := ⟨millis micros, job, result, live (millis micros) system.db⟩ ::
            system.unread }
  | refused {system micros job result answer db} (member : job ∈ system.jobs)
      (made : produced job result) (refused : answer ≠ .ok true)
      (called : RunQueue.complete Key.own codec micros job result system.db = (answer, db)) :
      WorkerStep produced system { system with db := db }

/-- Every interleaving of the coordinator with workers, with the number of steps
that the coordinator has taken. -/
inductive Reaches (call : Coordination) (produced : Job → CaseResult → Prop)
    (start : Db Text) (seconds : Rat) : Nat → System Text → Prop
  | created : Reaches call produced start seconds 0 { db := start, seconds }
  | coordinator {steps system next} (past : Reaches call produced start seconds steps system)
      (moves : CoordinatorStep codec call system next) :
      Reaches call produced start seconds (steps + 1) next
  | worker {steps system next} (past : Reaches call produced start seconds steps system)
      (moves : WorkerStep codec produced system next) :
      Reaches call produced start seconds steps next

end Steps

end ApiSentinel
