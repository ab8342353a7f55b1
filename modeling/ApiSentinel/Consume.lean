import ApiSentinel.Interference
import ApiSentinel.Provenance
import ApiSentinel.Worker

/-!
# The loop of a consumer

`Worker.consume` as a loop of a program, between whose questions everybody else may
call the queue.  A consumer leaves only when there is nothing left to do.
-/

namespace ApiSentinel

open Redis Program
open Relation (ReflTransGen)

/-- What a consumer asks of its worker and of the queue. -/
inductive Errand
  /-- `self.stop.is_set()` -/
  | isSet
  /-- `self.queue.claim(self.lease_seconds)` -/
  | claim
  /-- `self.queue.count()` -/
  | count
  /-- The `HMGET` of `self.queue.is_open()`. -/
  | stateDeadline
  /-- The `TIME` of `self.queue.is_open()`. -/
  | time
  /-- `self.stop.wait(seconds)` -/
  | wait (seconds : Rat)
  /-- `executor.run` -/
  | execute (job : Job)
  /-- `self.queue.complete(job, result)` -/
  | complete (job : Job) (result : CaseResult)

variable {Text : Type}

@[reducible]
def Errand.Reply (Text : Type) : Errand → Type
  | .isSet => Bool
  | .claim => Option Job
  | .count => Nat
  | .stateDeadline => Option (Bulk Text) × Option (Bulk Text)
  | .time => Int
  | .wait _ => Bool
  | .execute _ => CaseResult
  | .complete _ _ => Bool

abbrev Consumption (Text : Type) := Program Errand (Errand.Reply Text)

namespace Consumption

/-- `self.queue.is_open()` -/
def isOpen : Consumption Text Bool := do
  let fields ← query Errand.stateDeadline
  let micros ← query Errand.time
  pure (RunQueue.isOpen fields micros)

/-- One turn of the loop of `consume`; `false` for its `return`. -/
def turn (total : Nat) : Consumption Text Bool := do
  let stopped ← query Errand.isSet
  if stopped then pure false
  else do
    let claimed ← query Errand.claim
    match claimed with
    | none => do
        let stored ← query Errand.count
        if stored ≥ total then pure false
        else do
          let goesOn ← isOpen
          if !goesOn then pure false
          else do
            let _ ← query (Errand.wait 0.05)
            pure true
    | some job => do
        let result ← query (Errand.execute job)
        let _ ← query (Errand.complete job result)
        pure true

end Consumption

/-- The keys of the run, the Redis clock in microseconds, the `stop` event of the worker,
and whether somebody has closed or deleted the run. -/
structure Shared (Text : Type) where
  db : Db Text
  micros : Int
  stop : Bool := false
  ended : Bool := false

def Call.closes : (call : Call Text) → Bool
  | .close => true
  | _ => false

namespace Shared

variable (codec : Codec Text) (worker : Worker) (runId : String)

/-- The clock of the scripts. -/
def now (shared : Shared Text) : Int := millis shared.micros

/-- The answers to a consumer when Redis does not fail and nothing raises. -/
inductive Answers : Shared Text → (errand : Errand) → errand.Reply Text → Shared Text → Prop
  | isSet {shared} : Answers shared .isSet shared.stop shared
  | claim {shared micros token job db} (later : shared.micros ≤ micros)
      (called : RunQueue.claim Key.own codec micros token worker.leaseSeconds shared.db =
        (.ok job, db)) :
      Answers shared .claim job { shared with db, micros }
  | count {shared micros} (later : shared.micros ≤ micros) :
      Answers shared .count (RunQueue.count Key.own micros shared.db) { shared with micros }
  | stateDeadline {shared micros} (later : shared.micros ≤ micros) :
      Answers shared .stateDeadline (RunQueue.stateDeadline Key.own micros shared.db)
        { shared with micros }
  | time {shared micros} (later : shared.micros ≤ micros) :
      Answers shared .time micros { shared with micros }
  | wait {shared seconds} : Answers shared (.wait seconds) shared.stop shared
  | execute {shared job trace result} (ran : worker.Executes runId job trace result) :
      Answers shared (.execute job) result shared
  | complete {shared micros job result accepted db} (later : shared.micros ≤ micros)
      (called : RunQueue.complete Key.own codec micros job result shared.db =
        (.ok accepted, db)) :
      Answers shared (.complete job result) accepted { shared with db, micros }

/-- What everybody else does meanwhile: time passes, the worker is stopped, a script is
called, or the run is deleted. -/
inductive Moves : Shared Text → Shared Text → Prop
  | passed {shared micros} (later : shared.micros ≤ micros) :
      Moves shared { shared with micros }
  | stopped {shared} : Moves shared { shared with stop := true }
  | called {shared micros call} (later : shared.micros ≤ micros) :
      Moves shared { shared with
        db := (record codec (millis micros) call shared.db).after
        micros
        ended := shared.ended || call.closes }
  | deleted {shared micros} (later : shared.micros ≤ micros) :
      Moves shared { shared with
        db := RunQueue.delete Key.own micros shared.db, micros, ended := true }

/-- A consumer of a worker among everybody else. -/
def setting : Setting Errand (Errand.Reply Text) (Shared Text) where
  answers := Answers codec worker runId
  moves := Moves codec

variable {run : Run}

/-- While nobody has ended the run and its deadline lies ahead, its keys are there and it
is open. -/
def Sound (run : Run) (shared : Shared Text) : Prop :=
  shared.ended = false → shared.now < run.deadline →
    Inv codec run shared.db ∧ hget .metadata "state" shared.db = some (.text "open")

/-- Every case of the plan has a stored result. -/
def Stored (run : Run) (shared : Shared Text) : Prop :=
  ∀ id ∈ run.ids, ∃ text, hget .results id (live shared.now shared.db) = some (.doc text)

/-- The run is closed or past its deadline. -/
def Over (run : Run) (shared : Shared Text) : Prop :=
  shared.ended = true ∨ run.deadline ≤ shared.now

/-- There is nothing left for a consumer to do. -/
def Done (run : Run) (shared : Shared Text) : Prop :=
  shared.stop = true ∨ shared.Stored run ∨ shared.Over run

/-- What a consumer and everybody else have in common: the clock does not run backwards,
flags stay set, and the keys change by calls that do not end the run. -/
structure Advances (shared next : Shared Text) : Prop where
  later : shared.micros ≤ next.micros
  stop : shared.stop = true → next.stop = true
  ended : shared.ended = true → next.ended = true
  db : next.ended = true ∨ next.db = shared.db ∨
    ∃ call, call.closes = false ∧ next.db = (record codec next.now call shared.db).after

variable {worker runId} {shared next : Shared Text}

theorem advances_time {micros : Int} (later : shared.micros ≤ micros) :
    Advances codec shared { shared with micros } where
  later := later
  stop := id
  ended := id
  db := .inr (.inl rfl)

variable {codec}

theorem Answers.advances {errand : Errand} {reply : errand.Reply Text}
    (answers : Answers codec worker runId shared errand reply next) :
    Advances codec shared next := by
  cases answers with
  | isSet => exact advances_time codec (le_refl _)
  | claim later called =>
      exact ⟨later, id, id, .inr (.inr ⟨_, rfl, (claim_record called).1⟩)⟩
  | count later => exact advances_time codec later
  | stateDeadline later => exact advances_time codec later
  | time later => exact advances_time codec later
  | wait => exact advances_time codec (le_refl _)
  | execute => exact advances_time codec (le_refl _)
  | @complete micros job result accepted db later called =>
      by_cases identity : result.caseId = job.case.id
      · rw [RunQueue.complete_record identity] at called
        exact ⟨later, id, id, .inr (.inr ⟨_, rfl, (Prod.mk.inj called).2.symm⟩)⟩
      · rw [RunQueue.complete, if_pos identity] at called
        cases called

theorem Moves.advances (moves : Moves codec shared next) : Advances codec shared next := by
  cases moves with
  | passed later => exact advances_time codec later
  | stopped => exact ⟨le_refl _, fun _ => rfl, id, .inr (.inl rfl)⟩
  | deleted later => exact ⟨later, id, fun _ => rfl, .inl rfl⟩
  | @called micros call later =>
      refine ⟨later, id, fun ended => by simp [ended], ?_⟩
      cases closes : call.closes with
      | true => exact .inl (Bool.or_true _)
      | false => exact .inr (.inr ⟨call, closes, rfl⟩)

namespace Advances

theorem now_le (advances : Advances codec shared next) : shared.now ≤ next.now :=
  Int.ediv_le_ediv (by decide) advances.later

theorem past (advances : Advances codec shared next) (past : shared.Over run) : next.Over run :=
  past.imp advances.ended fun reached => reached.trans advances.now_le

/-- A run that is not over later has its keys now, and they do not expire before. -/
theorem found (advances : Advances codec shared next) (sound : shared.Sound codec run)
    (goesOn : ¬ next.Over run) :
    Inv codec run shared.db ∧ hget .metadata "state" shared.db = some (.text "open") ∧
      live next.now shared.db = shared.db := by
  have before : ¬ shared.Over run := fun past => goesOn (advances.past past)
  simp only [Over, not_or, Bool.not_eq_true, not_le] at before goesOn
  obtain ⟨inv, isOpen⟩ := sound before.1 before.2
  exact ⟨inv, isOpen, live_eq_self inv.expiry (le_of_lt (goesOn.2.trans run.deadline_lt))⟩

/-- Until the run is over its keys change by calls that do not close it. -/
theorem called (advances : Advances codec shared next) (sound : shared.Sound codec run)
    (goesOn : ¬ next.Over run) :
    next.db = shared.db ∨ ∃ script : Record Text, Recorded codec run script ∧
      script.before = shared.db ∧ script.after = next.db ∧ script.call ≠ .close := by
  obtain ⟨inv, _, same⟩ := advances.found sound goesOn
  rcases advances.db with ended | kept | ⟨call, other, called⟩
  · exact (goesOn (.inl ended)).elim
  · exact .inl kept
  · refine .inr ⟨record codec next.now call shared.db, recorded (by rwa [same]) call, same,
      called.symm, ?_⟩
    intro closing
    rw [show call = .close from closing] at other
    cases other

theorem sound (advances : Advances codec shared next) (sound : shared.Sound codec run) :
    next.Sound codec run := by
  intro going early
  have goesOn : ¬ next.Over run := by simp [Over, going, early]
  obtain ⟨inv, isOpen, _⟩ := advances.found sound goesOn
  rcases advances.called sound goesOn with kept | ⟨script, step, before, after, other⟩
  · rw [kept]
    exact ⟨inv, isOpen⟩
  · rw [← after]
    refine ⟨step.inv, step.inv.planned.state.resolve_right ?_⟩
    rw [step.closed, before, isOpen]
    simp [other]

/-- Stored results stay stored until the run is over. -/
theorem stored (advances : Advances codec shared next) (sound : shared.Sound codec run)
    (goesOn : ¬ next.Over run) (stored : shared.Stored run) : next.Stored run := by
  obtain ⟨inv, _, _⟩ := advances.found sound goesOn
  obtain ⟨_, _, same⟩ :=
    (advances_time codec (le_refl next.micros)).found (advances.sound sound) goesOn
  intro id member
  obtain ⟨text, found⟩ := stored id member
  have held := hget_of_live found
  refine ⟨text, ?_⟩
  rw [same]
  rcases advances.called sound goesOn with kept | ⟨script, step, before, after, _⟩
  · rwa [kept]
  · rw [← before] at inv held
    rw [← after]
    exact step.results_kept inv.placed held

theorem done (advances : Advances codec shared next) (sound : shared.Sound codec run)
    (done : shared.Done run) : next.Done run := by
  by_cases past : next.Over run
  · exact .inr (.inr past)
  · rcases done with stop | stored | before
    · exact .inl (advances.stop stop)
    · exact .inr (.inl (advances.stored sound past stored))
    · exact (past (advances.past before)).elim

end Advances

/-! ### What a turn ensures -/

/-- What the `HMGET` of `is_open` has shown of a run. -/
def Dates (run : Run) (fields : Option (Bulk Text) × Option (Bulk Text)) (shared : Shared Text) :
    Prop :=
  shared.Over run ∨ fields = (some (.text "open"), some (.num run.deadline))

theorem stable_sound : (setting codec worker runId).Stable (Sound codec run) :=
  fun _ _ moves => (Moves.advances moves).sound

/-- A consumer with nothing left to do never has anything to do again. -/
theorem stable_done :
    (setting codec worker runId).Stable fun shared => shared.Sound codec run ∧ shared.Done run :=
  fun _ _ moves both =>
    ⟨(Moves.advances moves).sound both.1, (Moves.advances moves).done both.1 both.2⟩

theorem stable_dates (fields : Option (Bulk Text) × Option (Bulk Text)) :
    (setting codec worker runId).Stable fun shared =>
      shared.Sound codec run ∧ Dates run fields shared :=
  fun _ _ moves both =>
    ⟨(Moves.advances moves).sound both.1, both.2.imp_left (Moves.advances moves).past⟩

/-- As many results as cases are the results of all cases. -/
theorem stored_of_count {micros : Int} (later : shared.micros ≤ micros)
    (sound : shared.Sound codec run)
    (full : run.suite.cases.length ≤ RunQueue.count Key.own micros shared.db) :
    Done run { shared with micros } := by
  by_cases past : Over run { shared with micros }
  · exact .inr (.inr past)
  · obtain ⟨inv, _, same⟩ := (advances_time codec later).found sound past
    refine .inr (.inl fun id member => ?_)
    have listed : id ∈ hkeys Key.results shared.db := by
      have subset := List.subperm_of_subset (nodup_hkeys .results shared.db)
        inv.placed.results_subset
      refine (subset.perm_of_length_le ?_).mem_iff.mpr member
      rw [length_hkeys, Run.ids, List.length_map]
      change _ ≤ hlen (Key.own .results) (live (now { shared with micros }) shared.db) at full
      rwa [same] at full
    obtain ⟨value, stored⟩ := Option.isSome_iff_exists.mp 
      ((mem_hkeys_iff Key.results id shared.db).mp listed)
    obtain ⟨_, text, rfl, _⟩ := inv.placed.finished stored
    refine ⟨text, ?_⟩
    change hget .results id (live (now { shared with micros }) shared.db) = _
    rwa [same]

theorem dates_of_fields {micros : Int} (later : shared.micros ≤ micros)
    (sound : shared.Sound codec run) :
    Dates run (RunQueue.stateDeadline Key.own micros shared.db) { shared with micros } := by
  by_cases past : Over run { shared with micros }
  · exact .inl past
  · obtain ⟨inv, isOpen, same⟩ := (advances_time codec later).found sound past
    right
    change (hget .metadata "state" (live (now { shared with micros }) shared.db),
      hget .metadata "deadline" (live (now { shared with micros }) shared.db)) = _
    rw [same, isOpen, inv.planned.deadline]

/-- When `is_open` says no, the run is over. -/
theorem over_of_not_open {micros : Int} {fields : Option (Bulk Text) × Option (Bulk Text)}
    (later : shared.micros ≤ micros) (dates : Dates run fields shared)
    (closed : RunQueue.isOpen fields micros = false) : Over run { shared with micros } := by
  rcases dates with past | rfl
  · exact past.imp_right fun reached => reached.trans (Int.ediv_le_ediv (by decide) later)
  · right
    have reached : ¬ micros < run.deadline * 1000 := by
      intro early
      have isOpen := (@RunQueue.isOpen_iff Text _ _ micros).mpr ⟨rfl, early⟩
      rw [isOpen] at closed
      cases closed
    change run.deadline ≤ millis micros
    unfold millis
    omega

/-- Where a consumer stands after `is_open`. -/
def Asked (codec : Codec Text) (run : Run) (goesOn : Bool) (shared : Shared Text) : Prop :=
  shared.Sound codec run ∧ (goesOn = false → shared.Done run)

theorem stable_asked (goesOn : Bool) :
    (setting codec worker runId).Stable (Asked codec run goesOn) :=
  fun _ _ moves asked => ⟨(Moves.advances moves).sound asked.1,
    fun no => (Moves.advances moves).done asked.1 (asked.2 no)⟩

theorem isOpen_ensures (sound : shared.Sound codec run) :
    (setting codec worker runId).Ensures (Asked codec run) Consumption.isOpen shared := by
  refine Setting.ensures_query_bind stable_sound sound ?_
  intro earlier fields asked sound answers
  cases answers with
  | stateDeadline later =>
      refine Setting.ensures_query_bind (stable_dates _)
        ⟨(advances_time codec later).sound sound, dates_of_fields later sound⟩ ?_
      intro middle micros dated both answers
      cases answers with
      | time later =>
          exact Setting.ensures_pure (stable_asked _) ⟨(advances_time codec later).sound both.1,
            fun no => .inr (.inr (over_of_not_open later both.2 no))⟩

/-- What holds between two turns, and once the loop has returned. -/
theorem turn_ensures (sound : shared.Sound codec run) :
    (setting codec worker runId).Ensures
      (Setting.Turned (Sound codec run) fun shared => shared.Sound codec run ∧ shared.Done run)
      (Consumption.turn run.suite.cases.length) shared := by
  refine Setting.ensures_query_bind stable_sound sound ?_
  intro first stopped _ sound answers
  cases answers
  split
  · next stop => exact Setting.ensures_pure stable_done ⟨sound, .inl stop⟩
  · refine Setting.ensures_query_bind stable_sound sound ?_
    intro second claimed after sound answers
    have sound := (Answers.advances answers).sound sound
    cases claimed with
    | none =>
        refine Setting.ensures_query_bind stable_sound sound ?_
        intro third stored _ sound answers
        cases answers with
        | count later =>
            have counted := (advances_time codec later).sound sound
            split
            · next full =>
                exact Setting.ensures_pure stable_done
                  ⟨counted, stored_of_count later sound full⟩
            · refine (isOpen_ensures counted).bind ?_
              intro goesOn asked ⟨sound, closed⟩
              split
              · next no =>
                  exact Setting.ensures_pure stable_done ⟨sound, closed (by simpa using no)⟩
              · refine Setting.ensures_query_bind stable_sound sound ?_
                intro fourth waited rested sound answers
                exact Setting.ensures_pure stable_sound ((Answers.advances answers).sound sound)
    | some job =>
        refine Setting.ensures_query_bind stable_sound sound ?_
        intro third result executed sound answers
        refine Setting.ensures_query_bind stable_sound ((Answers.advances answers).sound sound) ?_
        intro fourth accepted completed sound answers
        exact Setting.ensures_pure stable_sound ((Answers.advances answers).sound sound)

/-- A run with all its results has nothing to hand out. -/
theorem idle_of_stored {db : Db Text} (placed : Placed run db)
    (stored : ∀ id ∈ run.ids, ∃ text, hget .results id db = some (.doc text)) (id : String) :
    zscore .ready id db = none ∧ zscore .leases id db = none := by
  have idle : (slot db id).ready = none ∧ (slot db id).lease = none := by
    by_cases member : id ∈ run.ids
    · obtain ⟨text, found⟩ := stored id member
      obtain ⟨_, _, _, finished⟩ := placed.finished found
      generalize slot db id = case at finished
      cases finished
      exact ⟨rfl, rfl⟩
    · rw [placed.others id member]
      exact ⟨rfl, rfl⟩
  exact idle

end Shared

/-- Whatever everybody else does between the questions of a consumer, once it has
returned its worker is stopped, or every case has a stored result, or the run is closed or
past its deadline; and that stays so.  In particular no run that is open and before its
deadline is left with a case to hand out or to reclaim, unless the worker is stopped. -/
theorem no_early_leave {codec : Codec Text} {micros : Int} {submission : Submission}
    {start : Db Text} (started : Started codec micros submission start) (worker : Worker)
    (runId : String) {shared : Shared Text}
    (left : ReflTransGen
      ((Shared.setting codec worker runId).Loop
        (Consumption.turn submission.suite.cases.length))
      (Consumption.turn submission.suite.cases.length, { db := start, micros })
      (.done false, shared)) :
    (shared.stop = true ∨
      (∀ case ∈ submission.suite.cases, ∃ text,
        hget .results case.id (live shared.now shared.db) = some (.doc text)) ∨
      shared.ended = true ∨ submission.deadline (millis micros) ≤ shared.now) ∧
    (shared.stop = false → shared.ended = false →
      shared.now < submission.deadline (millis micros) →
      hget .metadata "state" shared.db = some (.text "open") ∧
        ∀ id, zscore .ready id shared.db = none ∧ zscore .leases id shared.db = none) := by
  obtain ⟨timed, created⟩ := started.created
  have sound : Shared.Sound codec (submission.run timed (millis micros))
      { db := start, micros } := fun _ _ => ⟨created.inv, created.isOpen⟩
  obtain ⟨sound, done⟩ := Setting.Loop.ended (fun _ => Shared.turn_ensures) sound left
  constructor
  · refine done.imp_right (.imp_left fun stored case member => ?_)
    exact stored case.id (List.mem_map_of_mem member)
  · intro going goesOn early
    obtain ⟨inv, isOpen⟩ := sound goesOn early
    refine ⟨isOpen, ?_⟩
    have same := live_eq_self inv.expiry
      (le_of_lt (early.trans (submission.run timed (millis micros)).deadline_lt))
    rcases done with stop | stored | ended | reached
    · rw [going] at stop
      cases stop
    · rw [Shared.Stored, same] at stored
      exact Shared.idle_of_stored inv.placed stored
    · rw [goesOn] at ended
      cases ended
    · exact absurd early (not_lt.mpr reached)

namespace Sample

/-- The keys after a claim that finds nothing left. -/
def drained : Db Document := (RunQueue.claim Key.own Codec.plain 4000000 "second" 30 completed).2

/-- The only consumer executes the only case, finds nothing left, and returns. -/
theorem left :
    ReflTransGen
      ((Shared.setting Codec.plain worker "run").Loop
        (Consumption.turn submission.suite.cases.length))
      (Consumption.turn submission.suite.cases.length, { db := start, micros := 1000000 })
      (.done false, { db := drained, micros := 5000000 }) := by
  have claims : RunQueue.claim Key.own Codec.plain 2000000 "token" 30 start =
      (.ok (some job), leased) := Prod.ext rfl rfl
  have completes : RunQueue.complete Key.own Codec.plain 3000000 job result leased =
      (.ok true, completed) := Prod.ext rfl rfl
  have finds : RunQueue.claim Key.own Codec.plain 4000000 "second" 30 completed =
      (.ok none, drained) := Prod.ext rfl rfl
  refine .head (.answered .isSet) ?_
  refine .head (.answered (.claim (by decide) claims)) ?_
  refine .head (.answered (.execute runs_case)) ?_
  refine .head (.answered (.complete (by decide) completes)) ?_
  refine .head .again ?_
  refine .head (.answered .isSet) ?_
  refine .head (.answered (.claim (by decide) finds)) ?_
  have counts := @Shared.Answers.count _ Codec.plain worker "run"
    { db := drained, micros := 4000000 } 5000000 (by decide)
  exact .head (.answered counts) .refl

end Sample

theorem no_early_leave_sample :
    hget .metadata "state" Sample.drained = some (.text "open") ∧
      ∀ id, zscore .ready id Sample.drained = none ∧ zscore .leases id Sample.drained = none :=
  (no_early_leave Sample.started Sample.worker "run" Sample.left).2 rfl rfl (by decide)

end ApiSentinel
