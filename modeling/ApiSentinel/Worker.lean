import ApiSentinel.Execution
import ApiSentinel.Fencing
import Mathlib.Logic.Function.Basic

/-!
# A worker and its heartbeat

The consumer threads of one worker, its heartbeat thread, and everybody else who
calls the queue of the run.  The threads share the table of active jobs with their
`lost` flags and the `stop` event.  A call of Redis that raises `RedisError` may
have been carried out or not.
-/

namespace ApiSentinel

open Redis Program

/-- What a worker executes its jobs with, the name that it reports under, and the
length of its leases. -/
structure Worker where
  executor : CaseExecutor
  workerId : String
  leaseSeconds : Rat := 30

/-- The worker's execution of a job, with what it asked and was told, ended with the
result. -/
def Worker.Executes (worker : Worker) (runId : String) (job : Job) (trace : Execution.Trace)
    (result : CaseResult) : Prop :=
  Runs (worker.executor.run job.case runId worker.workerId job.delivery) trace result

/-- The case ID and the token of a job, which stand for its lease and its flag. -/
def Job.lease (job : Job) : String × String := (job.case.id, job.token)

/-- Where a consumer thread is. -/
inductive Consumer
  | idle
  /-- `claim` has returned no job. -/
  | waiting
  /-- `claim` has returned a job that is not in the table yet. -/
  | claimed (job : Job)
  /-- `executor.run` has asked the questions of the trace and goes on with the program. -/
  | executing (job : Job) (program : Execution CaseResult) (trace : Execution.Trace)
  | completing (job : Job) (result : CaseResult) (trace : Execution.Trace)
  | returned

/-- A call of `COMPLETE` at the end of an execution, accepted or not, with the live
keys that it found and those that it left. -/
structure Outcome (Text : Type) where
  job : Job
  trace : Execution.Trace
  result : CaseResult
  accepted : Bool
  before : Db Text
  after : Db Text

/-- The keys and the Redis clock in milliseconds, the threads of the worker, its
table of active jobs, the rest of the heartbeat's copy of it, the jobs whose `lost`
flag is set, and the `stop` event; and what has happened: the tokens that claims
have drawn, the renewals that raised `RedisError` although Redis still honoured the
lease, and how executions ended. -/
structure Site (Text : Type) where
  db : Db Text
  clock : Int
  consumers : Nat → Consumer := fun _ => .idle
  active : List Job := []
  pending : List Job := []
  lost : List (String × String) := []
  stop : Bool := false
  tokens : List String := []
  spurious : List (String × String) := []
  outcomes : List (Outcome Text) := []

/-- Some step was refused because the lease oracle said no. -/
def Interrupted (trace : Execution.Trace) : Prop := ⟨.leaseValid, false⟩ ∈ trace

/-- The token that a call of `CLAIM` brings. -/
def Call.tokens {Text : Type} : Call Text → List String
  | .claim token _ => [token]
  | _ => []

namespace Site

variable {Text : Type}

def goto (site : Site Text) (thread : Nat) (consumer : Consumer) : Site Text :=
  { site with consumers := Function.update site.consumers thread consumer }

/-- `self.active.pop(job.token)` -/
def pop (site : Site Text) (job : Job) : Site Text :=
  { site with active := site.active.filter (fun other => other.token ≠ job.token) }

/-- The `except` clauses of `consume`. -/
def abandon (site : Site Text) (thread : Nat) : Site Text :=
  { site.goto thread .returned with stop := true }

/-- `lost.set()` -/
def lose (site : Site Text) (job : Job) : Site Text :=
  { site with lost := job.lease :: site.lost }

/-- The renewal of a job has failed at a clock reading; was its lease still honoured? -/
def suspect (site : Site Text) (now : Int) (job : Job) : List (String × String) :=
  if holds Key.own now job.case.id job.token (live now site.db) then job.lease :: site.spurious
  else site.spurious

end Site

section Steps

variable {Text : Type} (codec : Codec Text) (worker : Worker) (runId : String)

/-- A step of one of the threads, or a call by somebody else. -/
inductive SiteStep : Site Text → Site Text → Prop
  | claimed {site thread micros token job db} (here : site.consumers thread = .idle)
      (going : site.stop = false) (later : site.clock ≤ millis micros)
      (fresh : token ∉ site.tokens)
      (called : RunQueue.claim Key.own codec micros token worker.leaseSeconds site.db =
        (.ok (some job), db)) :
      SiteStep site { site.goto thread (.claimed job) with
        db := db, clock := millis micros, tokens := token :: site.tokens }
  | nothing {site thread micros token db} (here : site.consumers thread = .idle)
      (going : site.stop = false) (later : site.clock ≤ millis micros)
      (fresh : token ∉ site.tokens)
      (called : RunQueue.claim Key.own codec micros token worker.leaseSeconds site.db =
        (.ok none, db)) :
      SiteStep site { site.goto thread .waiting with
        db := db, clock := millis micros, tokens := token :: site.tokens }
  -- An answer that was lost, or a payload that does not validate.
  | claimFailed {site thread micros token answer db} (here : site.consumers thread = .idle)
      (going : site.stop = false) (later : site.clock ≤ millis micros)
      (fresh : token ∉ site.tokens)
      (called : RunQueue.claim Key.own codec micros token worker.leaseSeconds site.db =
        (answer, db)) :
      SiteStep site { site.abandon thread with
        db := db, clock := millis micros, tokens := token :: site.tokens }
  | stopped {site thread} (here : site.consumers thread = .idle) (stop : site.stop = true) :
      SiteStep site (site.goto thread .returned)
  | unanswered {site thread} (here : site.consumers thread = .idle ∨
        site.consumers thread = .waiting) :
      SiteStep site (site.abandon thread)
  | drained {site thread read total micros now} (here : site.consumers thread = .waiting)
      (finished : total ≤ RunQueue.count Key.own micros site.db ∨
        RunQueue.isOpen (RunQueue.stateDeadline Key.own read site.db) now = false) :
      SiteStep site (site.goto thread .returned)
  | again {site thread} (here : site.consumers thread = .waiting) :
      SiteStep site (site.goto thread .idle)
  | registered {site thread job} (here : site.consumers thread = .claimed job) :
      SiteStep site { site.goto thread (.executing job
          (worker.executor.run job.case runId worker.workerId job.delivery) []) with
        active := site.active ++ [job] }
  | leaseValid {site thread job next trace}
      (here : site.consumers thread = .executing job (.ask .leaseValid next) trace) :
      SiteStep site (site.goto thread (.executing job (next (decide (job.lease ∉ site.lost)))
        (trace ++ [⟨.leaseValid, decide (job.lease ∉ site.lost)⟩])))
  | asked {site thread job question next trace answer}
      (here : site.consumers thread = .executing job (.ask question next) trace)
      (other : question ≠ .leaseValid) :
      SiteStep site (site.goto thread (.executing job (next answer)
        (trace ++ [⟨question, answer⟩])))
  | ended {site thread job result trace}
      (here : site.consumers thread = .executing job (.done result) trace) :
      SiteStep site (site.goto thread (.completing job result trace))
  | completed {site thread job result trace micros accepted db}
      (here : site.consumers thread = .completing job result trace)
      (later : site.clock ≤ millis micros)
      (called : RunQueue.complete Key.own codec micros job result site.db = (.ok accepted, db)) :
      SiteStep site { (site.goto thread .idle).pop job with
        db := db
        clock := millis micros
        outcomes := ⟨job, trace, result, accepted, live (millis micros) site.db, db⟩ ::
          site.outcomes }
  | completedUnanswered {site thread job result trace micros accepted db}
      (here : site.consumers thread = .completing job result trace)
      (later : site.clock ≤ millis micros)
      (called : RunQueue.complete Key.own codec micros job result site.db = (.ok accepted, db)) :
      SiteStep site { (site.abandon thread).pop job with
        db := db
        clock := millis micros
        outcomes := ⟨job, trace, result, accepted, live (millis micros) site.db, db⟩ ::
          site.outcomes }
  -- The call did not reach Redis, or the result has another case ID.
  | completeFailed {site thread job result trace}
      (here : site.consumers thread = .completing job result trace) :
      SiteStep site ((site.abandon thread).pop job)
  | snapshot {site} (done : site.pending = []) :
      SiteStep site { site with pending := site.active }
  | renewed {site job pending micros db} (here : site.pending = job :: pending)
      (later : site.clock ≤ millis micros)
      (called : RunQueue.renew Key.own micros job worker.leaseSeconds site.db = (true, db)) :
      SiteStep site { site with db := db, clock := millis micros, pending := pending }
  | refused {site job pending micros db} (here : site.pending = job :: pending)
      (later : site.clock ≤ millis micros)
      (called : RunQueue.renew Key.own micros job worker.leaseSeconds site.db = (false, db)) :
      SiteStep site { site.lose job with
        db := db, clock := millis micros, pending := pending }
  | unavailable {site job pending micros db} (here : site.pending = job :: pending)
      (later : site.clock ≤ millis micros)
      (called : db = site.db ∨
        db = (RunQueue.renew Key.own micros job worker.leaseSeconds site.db).2) :
      SiteStep site { site.lose job with
        db := db
        clock := millis micros
        pending := pending
        stop := true
        spurious := site.suspect (millis micros) job }
  | other {site now call} (later : site.clock ≤ now) (checked : call.Checked codec)
      (fresh : ∀ token ∈ call.tokens, token ∉ site.tokens) :
      SiteStep site { site with
        db := (record codec now call site.db).after
        clock := now
        tokens := call.tokens ++ site.tokens }

/-- Every interleaving, from a site without any claims yet. -/
inductive Operates (start : Db Text) (clock : Int) : Site Text → Prop
  | started : Operates start clock { db := start, clock }
  | step {site next} (past : Operates start clock site)
      (moves : SiteStep codec worker runId site next) : Operates start clock next

end Steps

namespace Sample

def worker : Worker where
  executor := executor
  workerId := "worker"

def job : Job := ⟨case, "token", 1⟩

/-- The keys after the sample case is claimed. -/
def leased : Db Document := (RunQueue.claim Key.own Codec.plain 2000000 "token" 30 start).2

/-- The keys after its result is accepted. -/
def completed : Db Document :=
  (RunQueue.complete Key.own Codec.plain 3000000 job result leased).2

/-- The keys after the case with a body that is not a number is claimed. -/
def nanLeased : Db Document :=
  (RunQueue.claim Key.own Codec.plain 2000000 "token" 30 nanStart).2

def nanCompleted : Db Document :=
  (RunQueue.complete Key.own Codec.plain 3000000 job result nanLeased).2

end Sample

end ApiSentinel
