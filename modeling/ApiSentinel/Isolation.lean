import ApiSentinel.Families
import ApiSentinel.RunQueue
import ApiSentinel.Slots

/-!
# Runs that share a database

The keys of a run carry its ID, so two runs have no key in common.  Every operation
of the queue works on the keys of its own run alone.  An interleaving of operations
on many runs is therefore, for each of them, an execution of its own operations.
-/

namespace ApiSentinel

open Redis

variable {Text : Type}

/-! ### The scripts on a family of keys -/

section Scripts

variable {K : Type} {KEYS : Key → K} (injective : Function.Injective KEYS)
  (codec : Codec Text) (now : Int) (db : Keyspace K Text) (part : Keyspace Key Text)
include injective

theorem hgetNumber_patch (key : Key) (field : String) :
    hgetNumber KEYS key field (patch KEYS db part) = hgetNumber Key.own key field part := by
  rw [hgetNumber, hget_patch injective, hgetNumber, Key.own_eq]

theorem active_patch : active KEYS now (patch KEYS db part) = active Key.own now part := by
  rw [active, hget_patch injective, hgetNumber_patch injective, active, Key.own_eq]

theorem holds_patch (id token : String) :
    holds KEYS now id token (patch KEYS db part) = holds Key.own now id token part := by
  simp only [holds, active_patch injective, hget_patch injective, zscore_patch injective,
    Key.own_eq]
  rfl

variable [DecidableEq K]

theorem touch_patch :
    touch KEYS now (patch KEYS db part) = patch KEYS db (touch Key.own now part) := by
  rw [touch, touch, hgetNumber_patch injective]
  cases hgetNumber Key.own .metadata "expires" part with
  | none => rfl
  | some expires =>
      simp only
      generalize Key.all = keys
      induction keys generalizing part with
      | nil => rfl
      | cons key keys ih =>
          rw [List.foldl_cons, List.foldl_cons, pexpireat_patch injective, ih, Key.own_eq]

theorem enqueue_patch (index : Int) (cases : List (String × Text)) :
    enqueue KEYS index cases (patch KEYS db part) =
      patch KEYS db (enqueue Key.own index cases part) := by
  induction cases generalizing index part with
  | nil => rfl
  | cons entry rest ih =>
      simp only [enqueue, hset_patch injective, zadd_patch injective, ih, Key.own_eq]

theorem create_patch (args : CreateArgs Text) :
    create KEYS now args (patch KEYS db part) =
      ((create Key.own now args part).1, patch KEYS db (create Key.own now args part).2) := by
  simp only [create, exists_patch injective, hset_patch injective, enqueue_patch injective,
    touch_patch injective, Key.own_eq]
  by_cases present : exists? Key.metadata part = true <;>
    simp only [present, Bool.false_eq_true, if_true, if_false]

theorem reclaim_patch (id : String) :
    reclaim KEYS (patch KEYS db part) id = patch KEYS db (reclaim Key.own part id) := by
  simp only [reclaim, zrem_patch injective, hdel_patch injective, hexists_patch injective,
    zadd_patch injective, Key.own_eq]
  by_cases done : hexists Key.results id (hdel Key.owners id (zrem Key.leases id part)) = true <;>
    simp only [done, Bool.false_eq_true, if_true, if_false]

theorem foldl_reclaim_patch (ids : List String) :
    ids.foldl (reclaim KEYS) (patch KEYS db part) =
      patch KEYS db (ids.foldl (reclaim Key.own) part) := by
  induction ids generalizing part with
  | nil => rfl
  | cons id ids ih => rw [List.foldl_cons, List.foldl_cons, reclaim_patch injective, ih]

theorem popLoop_patch (token : String) (lease : Int) (rounds : Nat) :
    popLoop KEYS codec now token lease rounds (patch KEYS db part) =
      ((popLoop Key.own codec now token lease rounds part).1,
        patch KEYS db (popLoop Key.own codec now token lease rounds part).2) := by
  -- As a hypothesis, the equation also rewrites under the test of the loop.
  have own : ∀ key, Key.own key = key := Key.own_eq
  induction rounds generalizing part with
  | zero => simp only [popLoop, touch_patch injective]
  | succ rounds ih =>
      simp only [popLoop, zpopmin_patch injective, own]
      rcases zpopmin_cases Key.ready part with ⟨none, _⟩ | ⟨id, score, pops, _⟩
      · simp only [none, touch_patch injective]
      · simp only [pops, hincrby_patch injective, hgetNumber_patch injective,
          hset_patch injective, zadd_patch injective, touch_patch injective, hget_patch injective,
          ih]
        split <;> rfl

theorem claim_patch (token : String) (lease : Int) :
    claim KEYS codec now token lease (patch KEYS db part) =
      ((claim Key.own codec now token lease part).1,
        patch KEYS db (claim Key.own codec now token lease part).2) := by
  simp only [claim, active_patch injective, expired, zrangebyscore_patch injective,
    foldl_reclaim_patch injective, popLoop_patch injective, Key.own_eq]
  by_cases isActive : active Key.own now part = true <;>
    simp only [isActive, Bool.false_eq_true, if_true, if_false]

theorem renew_patch (id token : String) (lease : Int) :
    renew KEYS now id token lease (patch KEYS db part) =
      ((renew Key.own now id token lease part).1,
        patch KEYS db (renew Key.own now id token lease part).2) := by
  simp only [renew, holds_patch injective, zadd_patch injective, touch_patch injective,
    Key.own_eq]
  by_cases held : holds Key.own now id token part = true <;>
    simp only [held, Bool.false_eq_true, if_true, if_false]

theorem complete_patch (id token : String) (result : Text) :
    complete KEYS now id token result (patch KEYS db part) =
      ((complete Key.own now id token result part).1,
        patch KEYS db (complete Key.own now id token result part).2) := by
  simp only [complete, holds_patch injective, hexists_patch injective, hset_patch injective,
    hdel_patch injective, zrem_patch injective, touch_patch injective, Key.own_eq]
  by_cases held : (holds Key.own now id token part && !hexists Key.results id part) = true <;>
    simp only [held, Bool.false_eq_true, if_true, if_false]

theorem close_patch :
    close KEYS (patch KEYS db part) =
      ((close Key.own part).1, patch KEYS db (close Key.own part).2) := by
  simp only [close, exists_patch injective, hset_patch injective, Key.own_eq]
  by_cases present : exists? Key.metadata part = true <;>
    simp only [present, Bool.false_eq_true, if_true, if_false]

theorem foldl_del_patch (keys : List Key) :
    keys.foldl (fun db key => del (KEYS key) db) (patch KEYS db part) =
      patch KEYS db (keys.foldl (fun db key => del (Key.own key) db) part) := by
  induction keys generalizing part with
  | nil => rfl
  | cons key keys ih => rw [List.foldl_cons, List.foldl_cons, del_patch injective, ih, Key.own_eq]

end Scripts

/-! ### Operations -/

/-- The round trips of `RunQueue` to Redis.  `is_open` is an `HMGET` and a `TIME`. -/
inductive Operation (Text : Type)
  | create (submission : Submission)
  | plan
  | stateDeadline
  | time
  | claim (token : String) (leaseSeconds : Rat)
  | renew (job : Job) (leaseSeconds : Rat)
  | complete (job : Job) (result : CaseResult)
  | results
  | count
  | close
  | delete

namespace Operation

/-- What an operation returns. -/
inductive Answer (Text : Type)
  | created (outcome : Except Raised Unit)
  | payload (stored : Option (Bulk Text))
  | fields (stored : Option (Bulk Text) × Option (Bulk Text))
  | time (micros : Int)
  | claimed (outcome : Except Raised (Option Job))
  | renewed (accepted : Bool)
  | completed (outcome : Except Raised Bool)
  | results (outcome : Option (List CaseResult))
  | count (amount : Nat)
  | done

/-- One operation at a clock reading in microseconds.  Whatever it does, keys that have
expired by then are gone. -/
def exec {K : Type} [DecidableEq K] (KEYS : Key → K) (codec : Codec Text) (micros : Int)
    (operation : Operation Text) (db : Keyspace K Text) : Answer Text × Keyspace K Text :=
  let db := live (millis micros) db
  match operation with
  | .create submission =>
      let (outcome, db) := RunQueue.create KEYS codec micros submission db
      (.created outcome, db)
  | .plan => (.payload (RunQueue.plan KEYS micros db), db)
  | .stateDeadline => (.fields (RunQueue.stateDeadline KEYS micros db), db)
  | .time => (.time micros, db)
  | .claim token leaseSeconds =>
      let (outcome, db) := RunQueue.claim KEYS codec micros token leaseSeconds db
      (.claimed outcome, db)
  | .renew job leaseSeconds =>
      let (accepted, db) := RunQueue.renew KEYS micros job leaseSeconds db
      (.renewed accepted, db)
  | .complete job result =>
      let (outcome, db) := RunQueue.complete KEYS codec micros job result db
      (.completed outcome, db)
  | .results => (.results (RunQueue.results KEYS codec micros db), db)
  | .count => (.count (RunQueue.count KEYS micros db), db)
  | .close => (.done, RunQueue.close KEYS micros db)
  | .delete => (.done, RunQueue.delete KEYS micros db)

theorem exec_live {K : Type} [DecidableEq K] (KEYS : Key → K) (codec : Codec Text)
    (micros : Int) (operation : Operation Text) {first second : Keyspace K Text}
    (same : live (millis micros) first = live (millis micros) second) :
    operation.exec KEYS codec micros first = operation.exec KEYS codec micros second := by
  cases operation <;> simp only [exec, same]

/-- An operation works on the keys of its own run alone. -/
theorem exec_patch {K : Type} [DecidableEq K] {KEYS : Key → K}
    (injective : Function.Injective KEYS) (codec : Codec Text) (micros : Int)
    (operation : Operation Text) (db : Keyspace K Text) (part : Keyspace Key Text) :
    operation.exec KEYS codec micros (patch KEYS db part) =
      ((operation.exec Key.own codec micros part).1,
        patch KEYS (live (millis micros) db) (operation.exec Key.own codec micros part).2) := by
  have again : ∀ db : Keyspace K Text,
      live (millis micros) (live (millis micros) db) = live (millis micros) db :=
    live_live (le_refl _)
  cases operation with
  | create submission =>
      simp only [exec, live_patch injective, RunQueue.create, create_patch injective, again]
      cases submission.check codec with
      | error raised => rfl
      | ok =>
          simp only
          split <;> rfl
  | plan => simp only [exec, live_patch injective, RunQueue.plan, hget_patch injective, Key.own_eq]
  | stateDeadline =>
      simp only [exec, live_patch injective, RunQueue.stateDeadline, hget_patch injective,
        Key.own_eq]
  | time => simp only [exec, live_patch injective]
  | claim token leaseSeconds =>
      simp only [exec, live_patch injective, RunQueue.claim, claim_patch injective, again]
      split <;> rfl
  | renew job leaseSeconds =>
      simp only [exec, live_patch injective, RunQueue.renew, renew_patch injective, again]
  | complete job result =>
      simp only [exec, live_patch injective, RunQueue.complete, complete_patch injective, again]
      split <;> rfl
  | results =>
      simp only [exec, live_patch injective, RunQueue.results, hvals_patch injective, Key.own_eq]
  | count =>
      simp only [exec, live_patch injective, RunQueue.count, hlen_patch injective, Key.own_eq]
  | close => simp only [exec, live_patch injective, RunQueue.close, close_patch injective, again]
  | delete =>
      simp only [exec, live_patch injective, RunQueue.delete, foldl_del_patch injective, again]

end Operation

/-! ### The keys of a run -/

/-- The hash tag of a Redis key: the text between the first opening brace and the next
closing one. -/
def hashTag? (key : String) : Option String :=
  match key.toList.dropWhile (· != '\x7b') with
  | [] => none
  | _ :: rest =>
      if '\x7d' ∈ rest then some (String.ofList (rest.takeWhile (· != '\x7d'))) else none

namespace RunQueue

theorem brace_not_mem_runId (queue : RunQueue) : '\x7d' ∉ queue.runId.toList := by
  intro member
  exact absurd (isIdRest_of_mem queue.valid_id member) (by decide)

theorem toList_keys (queue : RunQueue) (key : Key) :
    (queue.keys key).toList = "sentinel:".toList ++ '\x7b' ::
      (queue.runId.toList ++ '\x7d' :: ':' :: (suffix key).toList) := by
  simp [keys]

theorem hashTag_keys (queue : RunQueue) (key : Key) :
    hashTag? (queue.keys key) = some queue.runId := by
  have opened : (queue.keys key).toList.dropWhile (· != '\x7b') =
      '\x7b' :: (queue.runId.toList ++ '\x7d' :: ':' :: (suffix key).toList) := by
    rw [toList_keys, List.dropWhile_append_of_pos (by simp)]
    rfl
  have tag : (queue.runId.toList ++ '\x7d' :: ':' :: (suffix key).toList).takeWhile
      (· != '\x7d') = queue.runId.toList := by
    rw [List.takeWhile_append_of_pos]
    · simp
    · intro c member
      simp only [bne_iff_ne]
      rintro rfl
      exact queue.brace_not_mem_runId member
  simp [hashTag?, opened, tag]

theorem suffix_injective : Function.Injective suffix := by
  intro first second same
  cases first <;> cases second <;> first | rfl | (revert same; decide)

theorem keys_injective (queue : RunQueue) : Function.Injective queue.keys := by
  intro first second same
  apply suffix_injective
  have spelled := congrArg String.toList same
  simpa [toList_keys, String.toList_inj] using spelled

theorem keys_disjoint {first second : RunQueue} (different : first.runId ≠ second.runId)
    (key other : Key) : first.keys key ≠ second.keys other := by
  intro same
  have tags := congrArg hashTag? same
  rw [hashTag_keys, hashTag_keys] at tags
  exact different (Option.some.inj tags)

theorem keys_of_runId {first second : RunQueue} (same : first.runId = second.runId) :
    first.keys = second.keys := by
  funext key
  rw [keys, keys, same]

end RunQueue

/-! ### Interleavings -/

/-- An operation on one of the runs in the database. -/
structure Command (Text : Type) where
  queue : RunQueue
  micros : Int
  operation : Operation Text

/-- Operations on any number of runs, newest first. -/
abbrev Commands (Text : Type) := List (Command Text)

namespace Command

def exec (codec : Codec Text) (command : Command Text) (db : Keyspace String Text) :
    Operation.Answer Text × Keyspace String Text :=
  command.operation.exec command.queue.keys codec command.micros db

/-- The command is one of the run. -/
def On (runId : String) (command : Command Text) : Prop := command.queue.runId = runId

instance (runId : String) (command : Command Text) : Decidable (command.On runId) :=
  inferInstanceAs (Decidable (command.queue.runId = runId))

/-- The command, or only the time it takes if it is one of another run. -/
def hush (runId : String) (command : Command Text) : Command Text :=
  if command.On runId then command else { command with operation := .time }

end Command

namespace Commands

/-- The database after the operations. -/
def state (codec : Codec Text) (start : Keyspace String Text) :
    Commands Text → Keyspace String Text
  | [] => start
  | command :: older => (command.exec codec (state codec start older)).2

/-- What the operations of a run returned, newest first. -/
def answers (codec : Codec Text) (start : Keyspace String Text) (runId : String) :
    Commands Text → List (Operation.Answer Text)
  | [] => []
  | command :: older =>
      if command.On runId then
        (command.exec codec (state codec start older)).1 :: answers codec start runId older
      else answers codec start runId older

/-- The clock never ran backwards. -/
def Ordered (commands : Commands Text) : Prop :=
  commands.Pairwise (fun later earlier => millis earlier.micros ≤ millis later.micros)

/-- A run by itself: what its operations return and leave in its keys, while those of
the other runs only take time. -/
def aside (codec : Codec Text) (runId : String) (start : Db Text) :
    Commands Text → List (Operation.Answer Text) × Db Text
  | [] => ([], start)
  | command :: older =>
      let (answers, db) := aside codec runId start older
      if command.On runId then
        let (answer, db) := command.operation.exec Key.own codec command.micros db
        (answer :: answers, db)
      else (answers, live (millis command.micros) db)

end Commands

section Aside

variable {codec : Codec Text} {queue : RunQueue}

/-- An operation does to the keys of its run what it would do to them alone. -/
theorem exec_own {command : Command Text} (own : command.On queue.runId)
    (db : Keyspace String Text) :
    (command.exec codec db).1 =
        (command.operation.exec Key.own codec command.micros (restrict queue.keys db)).1 ∧
      restrict queue.keys (command.exec codec db).2 =
        (command.operation.exec Key.own codec command.micros (restrict queue.keys db)).2 := by
  have injective := queue.keys_injective
  have step := command.operation.exec_patch injective codec command.micros db
    (restrict queue.keys db)
  rw [patch_restrict injective] at step
  rw [Command.exec, RunQueue.keys_of_runId own, step]
  exact ⟨rfl, restrict_patch injective _ _⟩

/-- An operation of another run only takes time. -/
theorem exec_other {command : Command Text} (other : ¬ command.On queue.runId)
    (db : Keyspace String Text) :
    restrict queue.keys (command.exec codec db).2 =
      live (millis command.micros) (restrict queue.keys db) := by
  have injective := command.queue.keys_injective
  have step := command.operation.exec_patch injective codec command.micros db
    (restrict command.queue.keys db)
  rw [patch_restrict injective] at step
  rw [Command.exec, step]
  funext key
  exact patch_other fun name => RunQueue.keys_disjoint other name key

variable (codec queue)

/-- An interleaving is, for each run, a run by itself. -/
theorem aside_eq (start : Keyspace String Text) (commands : Commands Text) :
    commands.aside codec queue.runId (restrict queue.keys start) =
      (commands.answers codec start queue.runId,
        restrict queue.keys (commands.state codec start)) := by
  induction commands with
  | nil => rfl
  | cons command older ih =>
      by_cases own : command.On queue.runId
      · obtain ⟨answer, left⟩ := @exec_own _ codec queue _ own (Commands.state codec start older)
        simp only [Commands.aside, Commands.answers, Commands.state, ih, if_pos own, answer, left]
      · have left := @exec_other _ codec queue _ own (Commands.state codec start older)
        simp only [Commands.aside, Commands.answers, Commands.state, ih, if_neg own, left]

/-- Only the time of the other operations matters. -/
theorem aside_hush (runId : String) (start : Db Text) (commands : Commands Text) :
    Commands.aside codec runId start (commands.map (Command.hush runId)) =
      commands.aside codec runId start := by
  induction commands with
  | nil => rfl
  | cons command older ih =>
      by_cases own : command.On runId
      · simp only [List.map_cons, Commands.aside, ih, Command.hush, if_pos own]
      · have same : (Command.hush runId command).micros = command.micros ∧
            ¬ (Command.hush runId command).On runId := by
          rw [Command.hush, if_neg own]
          exact ⟨rfl, own⟩
        simp only [List.map_cons, Commands.aside, ih, same.1, if_neg same.2, if_neg own]

/-- On a clock that never runs backwards not even that matters. -/
theorem aside_filter (runId : String) (start : Db Text) {commands : Commands Text}
    (ordered : commands.Ordered) :
    (Commands.aside codec runId start (commands.filter (·.On runId))).1 =
        (commands.aside codec runId start).1 ∧
      ∀ now, (∀ command ∈ commands, millis command.micros ≤ now) →
        live now (Commands.aside codec runId start (commands.filter (·.On runId))).2 =
          live now (commands.aside codec runId start).2 := by
  induction commands with
  | nil => exact ⟨rfl, fun _ _ => rfl⟩
  | cons command older ih =>
      obtain ⟨later, ordered⟩ := List.pairwise_cons.mp ordered
      obtain ⟨answers, states⟩ := ih ordered
      by_cases own : command.On runId
      · have step := command.operation.exec_live Key.own codec command.micros
          (states (millis command.micros) later)
        rw [List.filter_cons_of_pos (by simpa using own)]
        simp only [Commands.aside, if_pos own, answers, step, true_and]
        exact fun _ _ => trivial
      · rw [List.filter_cons_of_neg (by simpa using own)]
        simp only [Commands.aside, if_neg own]
        refine ⟨answers, fun now reached => ?_⟩
        rw [live_live (reached command List.mem_cons_self)]
        exact states now fun command member => reached command (List.mem_cons_of_mem _ member)

end Aside

/-- Two runs have no key in common, and each has its ID as the hash tag of all its keys.
In every interleaving of operations, what those of a run return and leave in its keys
depends on the other operations only through the time they take, and on a clock that
never runs backwards it is what the run's own operations return and leave alone. -/
theorem isolation (codec : Codec Text) (start : Keyspace String Text)
    (commands : Commands Text) (queue : RunQueue) :
    (∀ other : RunQueue, other.runId ≠ queue.runId →
      ∀ key otherKey, other.keys otherKey ≠ queue.keys key) ∧
    (∀ key, hashTag? (queue.keys key) = some queue.runId) ∧
    (commands.answers codec start queue.runId =
        Commands.answers codec start queue.runId (commands.map (Command.hush queue.runId)) ∧
      ∀ key, commands.state codec start (queue.keys key) =
        Commands.state codec start (commands.map (Command.hush queue.runId)) (queue.keys key)) ∧
    (commands.Ordered →
      commands.answers codec start queue.runId =
          Commands.answers codec start queue.runId (commands.filter (·.On queue.runId)) ∧
        ∀ now, (∀ command ∈ commands, millis command.micros ≤ now) → ∀ key,
          live now (commands.state codec start) (queue.keys key) =
            live now (Commands.state codec start (commands.filter (·.On queue.runId)))
              (queue.keys key)) := by
  refine ⟨fun other different key otherKey => RunQueue.keys_disjoint different otherKey key,
    queue.hashTag_keys, ?_, ?_⟩
  · have same := aside_hush codec queue.runId (restrict queue.keys start) commands
    rw [aside_eq, aside_eq] at same
    obtain ⟨answers, states⟩ := Prod.mk.inj same
    exact ⟨answers.symm, fun key => (congrFun states key).symm⟩
  · intro ordered
    have same := aside_filter codec queue.runId (restrict queue.keys start) ordered
    rw [aside_eq, aside_eq] at same
    refine ⟨same.1.symm, fun now reached key => ?_⟩
    exact (congrFun (same.2 now reached) key).symm

namespace Sample

def one : RunQueue := ⟨"one", rfl⟩

def two : RunQueue := ⟨"two", rfl⟩

/-- Two runs of the sample suite are submitted, and a worker of each claims. -/
def shared : Commands Document :=
  [⟨two, 4000000, .claim "second" 30⟩, ⟨one, 3000000, .claim "first" 30⟩,
    ⟨two, 2000000, .create { suite, contract := .null }⟩,
    ⟨one, 1000000, .create { suite, contract := .null }⟩]

end Sample

theorem isolation_sample :
    Sample.shared.answers Codec.plain empty "one" =
      Commands.answers Codec.plain empty "one" [Sample.shared[1], Sample.shared[3]] :=
  ((isolation Codec.plain empty Sample.shared Sample.one).2.2.2
    (by simp [Commands.Ordered, Sample.shared, millis])).1

end ApiSentinel
