import ApiSentinel.Scripts
import Mathlib.Algebra.Order.Field.Rat
import Mathlib.Tactic.NormNum

/-!
# The queue client

The methods of `RunQueue` over the scripts.  A method reads the Redis clock in
microseconds and sees the keys that are still live at that instant.  Times that
callers give in seconds are exact rationals: where Python rounds a product of floats before
it cuts the fraction off, it may come to a neighbouring millisecond.
-/

namespace ApiSentinel

open Redis

/-- `int(seconds * 1000)`, of the exact product and not of its nearest float -/
def milliseconds (seconds : Rat) : Int :=
  (seconds.num * 1000).tdiv seconds.den

/-- The scripts' `now` for a Redis `TIME` in microseconds. -/
def millis (micros : Int) : Int := micros / 1000

theorem milliseconds_nonneg {seconds : Rat} (nonneg : 0 ≤ seconds) :
    0 ≤ milliseconds seconds :=
  Int.tdiv_nonneg (Int.mul_nonneg (Rat.num_nonneg.mpr nonneg) (by decide))
    (Int.natCast_nonneg _)

/-- The arguments of `RunQueue.create`. -/
structure Submission where
  suite : Suite
  contract : Json
  timeout : Rat := 300
  retention : Int := 86400
  maxDeliveries : Int := 3
  baseUrl : Option String := none
  executorOptions : List (String × Json) := []

namespace Submission

/-- The plan that workers load. -/
def plan (submission : Submission) : Plan where
  suite := submission.suite
  contract := submission.contract
  baseUrl := submission.baseUrl
  execution := submission.executorOptions

variable {Text : Type} (codec : Codec Text)

def payload (submission : Submission) : Text := codec.dumpPlan submission.plan

def cases (submission : Submission) : List (String × Text) :=
  submission.suite.cases.map (fun case => (case.id, codec.dumpCase case))

/-- What `RunQueue.create` refuses before it calls Redis. -/
def check (submission : Submission) : Except Raised Unit :=
  if submission.timeout ≤ 0 || submission.retention < 1 || submission.maxDeliveries < 1 then
    .error (valueError "invalid run timing or delivery settings")
  else if submission.suite.cases.any (fun case => !case.replaySafe) then
    .error (valueError "distributed cases must explicitly set replay_safe: true")
  else if !submission.plan.printable then .error tooManyDigits
  else if codec.bytes (submission.payload codec) + codec.tasksBytes (submission.cases codec) >
      10000000 then
    .error (valueError "distributed run payload exceeds 10 MB")
  else .ok ()

def args (submission : Submission) : CreateArgs Text where
  payload := submission.payload codec
  cases := submission.cases codec
  timeout := milliseconds submission.timeout
  retention := submission.retention * 1000
  deliveries := submission.maxDeliveries

end Submission

/-- `Job` -/
structure Job where
  case : Case
  token : String
  delivery : Int

structure RunQueue where
  runId : String
  valid_id : matchesIdPattern runId = true

namespace RunQueue

/-- `RunQueue.__init__` -/
def init (runId : String) : Except Raised RunQueue :=
  if valid_id : matchesIdPattern runId = true then .ok ⟨runId, valid_id⟩
  else .error (valueError "invalid run ID")

def suffix : Key → String
  | .metadata => "meta"
  | .tasks => "tasks"
  | .ready => "ready"
  | .leases => "leases"
  | .owners => "owners"
  | .attempts => "attempts"
  | .results => "results"

/-- `self.keys` -/
def keys (queue : RunQueue) (key : Key) : String :=
  "sentinel:\x7b" ++ queue.runId ++ "\x7d:" ++ suffix key

variable {K Text : Type} [DecidableEq K] (KEYS : Key → K) (codec : Codec Text)

/-- `RunQueue.create` -/
def create (micros : Int) (submission : Submission) (db : Keyspace K Text) :
    Except Raised Unit × Keyspace K Text :=
  match submission.check codec with
  | .error raised => (.error raised, db)
  | .ok () =>
      let (reply, db) := ApiSentinel.create KEYS (millis micros) (submission.args codec)
        (live (millis micros) db)
      if reply.isOne then (.ok (), db)
      else (.error (valueError "run ID already exists; use a new run ID"), db)

/-- The payload that `RunQueue.plan` decodes. -/
def plan (micros : Int) (db : Keyspace K Text) : Option (Bulk Text) :=
  hget (KEYS .metadata) "payload" (live (millis micros) db)

/-- The `HMGET` of `RunQueue.is_open`. -/
def stateDeadline (micros : Int) (db : Keyspace K Text) :
    Option (Bulk Text) × Option (Bulk Text) :=
  let db := live (millis micros) db
  (hget (KEYS .metadata) "state" db, hget (KEYS .metadata) "deadline" db)

/-- What `RunQueue.is_open` makes of its `HMGET` and its `TIME`. -/
def isOpen (fields : Option (Bulk Text) × Option (Bulk Text)) (micros : Int) : Bool :=
  fields.1.bind Bulk.text? == some "open" &&
    decide (((fields.2.bind Bulk.toNumber?).getD 0 : Rat) > (micros : Rat) / 1000)

/-- `RunQueue.is_open` agrees with the scripts' deadline check. -/
theorem isOpen_iff {state : String} {deadline : Int} (micros : Int) :
    @isOpen Text (some (.text state), some (.num deadline)) micros = true ↔
      state = "open" ∧ micros < deadline * 1000 := by
  have scaled : ((micros : Rat) / 1000 < (deadline : Rat)) ↔ micros < deadline * 1000 := by
    rw [div_lt_iff₀ (by norm_num)]
    exact_mod_cast Iff.rfl
  simp [isOpen, Bulk.text?, Bulk.toNumber?, scaled]

theorem isOpen_missing (deadline : Option (Bulk Text)) (micros : Int) :
    isOpen (none, deadline) micros = false := by
  simp [isOpen]

/-- The job that `RunQueue.claim` makes of the reply of `CLAIM`; `none` inside is
a payload that does not validate. -/
def job (token : String) : Reply Text → Option (Option Job)
  | .job payload attempt =>
      some (((payload.bind Bulk.doc?).bind codec.validateCase).map
        (fun case => ⟨case, token, attempt⟩))
  | _ => none

/-- `RunQueue.claim`, with the token that it draws. -/
def claim (micros : Int) (token : String) (leaseSeconds : Rat) (db : Keyspace K Text) :
    Except Raised (Option Job) × Keyspace K Text :=
  let (reply, db) := ApiSentinel.claim KEYS codec (millis micros) token
    (milliseconds leaseSeconds) (live (millis micros) db)
  match job codec token reply with
  | none => (.ok none, db)
  | some (some job) => (.ok (some job), db)
  | some none => (.error ⟨"ValidationError", true, "invalid case"⟩, db)

/-- `RunQueue.renew` -/
def renew (micros : Int) (job : Job) (leaseSeconds : Rat) (db : Keyspace K Text) :
    Bool × Keyspace K Text :=
  let (reply, db) := ApiSentinel.renew KEYS (millis micros) job.case.id job.token
    (milliseconds leaseSeconds) (live (millis micros) db)
  (reply.isOne, db)

/-- `RunQueue.complete` -/
def complete (micros : Int) (job : Job) (result : CaseResult) (db : Keyspace K Text) :
    Except Raised Bool × Keyspace K Text :=
  if result.caseId ≠ job.case.id then
    (.error (valueError "result identity does not match the claimed case"), db)
  else
    let (reply, db) := ApiSentinel.complete KEYS (millis micros) job.case.id job.token
      (codec.dumpResult result) (live (millis micros) db)
    (.ok reply.isOne, db)

/-- `CaseResult.model_validate_json` -/
def parse (value : Bulk Text) : Option CaseResult := value.doc?.bind codec.validateResult

/-- What `RunQueue.results` makes of the values of `HVALS`, whose order is up to
Redis; `none` when a value does not validate. -/
def validate (values : List (Bulk Text)) : Option (List CaseResult) :=
  values.mapM (parse codec)

/-- `RunQueue.results` -/
def results (micros : Int) (db : Keyspace K Text) : Option (List CaseResult) :=
  validate codec (hvals (KEYS .results) (live (millis micros) db))

/-- `RunQueue.count` -/
def count (micros : Int) (db : Keyspace K Text) : Nat :=
  hlen (KEYS .results) (live (millis micros) db)

/-- `RunQueue.close` -/
def close (micros : Int) (db : Keyspace K Text) : Keyspace K Text :=
  (ApiSentinel.close KEYS (live (millis micros) db)).2

/-- `RunQueue.delete` -/
def delete (micros : Int) (db : Keyspace K Text) : Keyspace K Text :=
  Key.all.foldl (fun db key => del (KEYS key) db) (live (millis micros) db)

end RunQueue

end ApiSentinel
