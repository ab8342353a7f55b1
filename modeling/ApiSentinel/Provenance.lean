import ApiSentinel.Fencing
import ApiSentinel.Coordinator

/-!
# Where stored results come from

What the methods of the queue can write into `results`, call by call: an accepted
completion, or the error of an exhausted case.  Everything else is quiet, and no
result ever leaves before all keys of the run expire at once.
-/

namespace ApiSentinel

open Redis

variable {Text : Type} {codec : Codec Text} {run : Run} {db : Db Text}

/-! ### One call -/

section Call

variable {now : Int} {call : Call Text} (keys : Keys codec run db)
  (old : (record codec now call db).creates = false)
include keys old

/-- A stored result stays until the keys expire. -/
theorem Keys.results_kept {id : String} {value : Bulk Text}
    (stored : hget .results id db = some value) :
    hget .results id (record codec now call db).after = some value ∨
      (record codec now call db).after = empty := by
  rcases keys.call_cases old with ⟨inv, step⟩ | ⟨_, gone⟩
  · rcases keys.live_cases now with gone | same
    · exact (inv.ne_empty gone).elim
    · left
      apply step.results_kept inv.placed
      change hget .results id (live now db) = some value
      rw [same, stored]
  · exact .inr gone

end Call

section Origin

variable {now : Int} {id : String} {value : Bulk Text}

/-- A `CLAIM` writes nothing but the error of an exhausted case. -/
theorem Keys.claim_origin (keys : Keys codec run db) {token : String} {lease : Int}
    (stored : hget .results id (record codec now (.claim token lease) db).after = some value) :
    hget .results id db = some value ∨
      ∃ deliveries, value = .doc (codec.encodeError id deliveries exhaustedMessage) := by
  have old : (record codec now (.claim token lease) db).creates = false := rfl
  rcases keys.call_cases old with ⟨inv, _⟩ | ⟨_, gone⟩
  · cases isActive : active Key.own now (live now db) with
    | false =>
        have same : (record codec now (.claim token lease) db).after = live now db :=
          congrArg Prod.snd (claim_inactive codec isActive token lease)
        rw [same] at stored
        exact .inl (hget_of_live stored)
    | true =>
        obtain ⟨delivered, _, claiming⟩ := claim_claiming inv isActive token lease
        obtain ⟨member, text, rfl, finished⟩ := claiming.inv.placed.finished stored
        obtain ⟨item, matched⟩ := inv.placed.cases id member
        obtain ⟨middle, next, arrived, lapse, pop⟩ := claiming.moves id member item matched
        obtain rfl := arrived.unique finished
        generalize numberOf delivered id = number at pop
        cases pop with
        | exhaust out used => exact .inr ⟨_, rfl⟩
        | stay left =>
            cases lapse with
            | stay running => exact .inl (hget_of_live matched.stored)
  · rw [gone] at stored
    cases stored

theorem Keys.renew_origin (keys : Keys codec run db) (now : Int) {target token : String}
    {lease : Int}
    (stored : hget .results id (record codec now (.renew target token lease) db).after =
      some value) : hget .results id db = some value := by
  cases held : holds Key.own now target token (live now db) with
  | false =>
      have same : (record codec now (.renew target token lease) db).after = live now db :=
        congrArg Prod.snd (renew_refused held lease)
      rw [same] at stored
      exact hget_of_live stored
  | true =>
      rcases keys.of_live now with inv | gone
      · obtain ⟨_, write⟩ := renew_accepted inv held lease
        obtain ⟨expiry, deliveries, _, _, arrived⟩ := write.moves
        by_cases same : id = target
        · subst same
          have missing : hget .results id (record codec now (.renew id token lease) db).after =
            none := arrived.stored
          rw [stored] at missing
          cases missing
        · apply hget_of_live
          exact (congrArg Slot.result (write.others id same)).symm.trans stored
      · rw [gone, holds_empty] at held
        cases held

theorem Keys.close_origin (keys : Keys codec run db) (now : Int)
    (stored : hget .results id (record codec now .close db).after = some value) :
    hget .results id db = some value := by
  rcases keys.of_live now with inv | gone
  · obtain ⟨_, _, _, slots⟩ := close_effect inv
    exact hget_of_live ((congrArg Slot.result (slots id)).symm.trans stored)
  · rw [(record_gone gone rfl).1] at stored
    cases stored

end Origin

/-! ### Accepted completions -/

/-- When a completion is accepted: the run is open and before its deadline, and the
token of the job owns the case under a lease that still runs. -/
structure Acceptance.Honoured (deadline : Int) (acceptance : Acceptance Text) : Prop where
  isOpen : hget .metadata "state" acceptance.before = some (.text "open")
  early : acceptance.now < deadline
  owner : hget .owners acceptance.job.case.id acceptance.before =
    some (.text acceptance.job.token)
  leased : ∃ expiry, zscore .leases acceptance.job.case.id acceptance.before = some expiry ∧
    acceptance.now < expiry
  unfinished : hget .results acceptance.job.case.id acceptance.before = none

/-- What an accepted completion has found and left behind. -/
structure Accepting (codec : Codec Text) (run : Run) (now : Int) (job : Job)
    (result : CaseResult) (before after : Db Text) : Prop where
  inv : Inv codec run before
  honoured : Acceptance.Honoured run.deadline ⟨now, job, result, before⟩
  identity : result.caseId = job.case.id
  stored : hget .results job.case.id after = some (.doc (codec.dumpResult result))
  others : ∀ id, id ≠ job.case.id → hget .results id after = hget .results id before

/-- `RunQueue.complete` with a result under the ID of its job calls `COMPLETE`. -/
theorem RunQueue.complete_record {micros : Int} {job : Job} {result : CaseResult}
    (identity : result.caseId = job.case.id) :
    RunQueue.complete Key.own codec micros job result db =
      let called := record codec (millis micros)
        (.complete job.case.id job.token (codec.dumpResult result)) db
      (.ok called.accepted, called.after) := by
  rw [RunQueue.complete, if_neg (not_not.mpr identity)]
  rfl

theorem Keys.accepting (keys : Keys codec run db) {micros : Int} {job : Job}
    {result : CaseResult} {after : Db Text}
    (called : RunQueue.complete Key.own codec micros job result db = (.ok true, after)) :
    Accepting codec run (millis micros) job result (live (millis micros) db) after ∧
      after = (record codec (millis micros)
        (.complete job.case.id job.token (codec.dumpResult result)) db).after := by
  by_cases identity : result.caseId = job.case.id
  · rw [RunQueue.complete_record identity] at called
    obtain ⟨answer, rfl⟩ := Prod.mk.inj called
    refine ⟨?_, rfl⟩
    have accepted : (record codec (millis micros)
      (.complete job.case.id job.token (codec.dumpResult result)) db).accepted = true :=
        Except.ok.inj answer
    have held := (complete_accepted_iff (keys.of_live _) _).mp accepted
    rcases keys.of_live (millis micros) with inv | gone
    · obtain ⟨_, write⟩ := complete_accepted inv held (codec.dumpResult result)
      obtain ⟨expiry, deliveries, running, leased, arrived⟩ := write.moves
      obtain ⟨isOpen, early⟩ := (inv.planned.active_iff _).mp (holds_active held)
      refine ⟨inv, ⟨isOpen, early, leased.owner, ⟨expiry, leased.lease, running⟩, leased.stored⟩,
        identity, arrived.stored, ?_⟩
      intro id different
      exact congrArg Slot.result (write.others id different)
    · rw [gone, holds_empty] at held
      cases held
  · rw [RunQueue.complete, if_pos identity] at called
    cases called

/-- `RunQueue.complete` without acceptance changes nothing. -/
theorem refused_cases {micros : Int} {job : Job} {result : CaseResult}
    {answer : Except Raised Bool} {after : Db Text}
    (called : RunQueue.complete Key.own codec micros job result db = (answer, after))
    (refused : answer ≠ .ok true) : after = db ∨ after = live (millis micros) db := by
  by_cases identity : result.caseId = job.case.id
  · rw [RunQueue.complete_record identity] at called
    obtain ⟨rfl, rfl⟩ := Prod.mk.inj called
    right
    apply unchanged_of_refused
    · simp
    · simp
    · rw [Bool.eq_false_iff]
      intro accepted
      exact refused (congrArg Except.ok accepted)
  · rw [RunQueue.complete, if_pos identity] at called
    exact .inl (Prod.mk.inj called).2.symm

/-! ### Calls without acceptance -/

/-- What a call that accepts no completion does to the stored results. -/
structure Quiet (codec : Codec Text) (run : Run) (before after : Db Text) : Prop where
  keys : Keys codec run after
  gone : before = empty → after = empty
  kept : ∀ id value, hget .results id before = some value →
    hget .results id after = some value ∨ after = empty
  origin : ∀ id value, hget .results id after = some value →
    hget .results id before = some value ∨
      ∃ deliveries, value = .doc (codec.encodeError id deliveries exhaustedMessage)

theorem Keys.quiet (keys : Keys codec run db) : Quiet codec run db db where
  keys := keys
  gone empty := empty
  kept _ _ stored := .inl stored
  origin _ _ stored := .inl stored

theorem Keys.quiet_live (keys : Keys codec run db) (now : Int) :
    Quiet codec run db (live now db) where
  keys := keys.of_live now
  gone empty := by rw [empty, live_empty]
  kept _ _ stored := by
    rcases keys.live_cases now with gone | same
    · exact .inr gone
    · exact .inl (by rw [same, stored])
  origin _ _ stored := .inl (hget_of_live stored)

theorem Keys.quiet_close (keys : Keys codec run db) (micros : Int) :
    Quiet codec run db (RunQueue.close Key.own micros db) where
  keys := @Keys.after _ codec db run (millis micros) .close keys rfl
  gone := @Keys.after_empty _ codec db run (millis micros) .close keys rfl
  kept _ _ := @Keys.results_kept _ codec run db (millis micros) .close keys rfl _ _
  origin _ _ stored := .inl (keys.close_origin (millis micros) stored)

theorem Keys.quiet_renew (keys : Keys codec run db) {micros : Int} {job : Job} {lease : Rat}
    {answer : Bool} {after : Db Text}
    (called : RunQueue.renew Key.own micros job lease db = (answer, after)) :
    Quiet codec run db after := by
  obtain ⟨_, rfl⟩ := Prod.mk.inj called
  have old : (record codec (millis micros)
    (.renew job.case.id job.token (milliseconds lease)) db).creates = false := rfl
  exact {
    keys := keys.after old
    gone := keys.after_empty old
    kept := fun _ _ stored => keys.results_kept old stored
    origin := fun _ _ stored => .inl (keys.renew_origin (millis micros) stored) }

/-- `RunQueue.claim` calls `CLAIM` and makes a job of its reply. -/
theorem claim_record {micros : Int} {token : String} {lease : Rat}
    {answer : Except Raised (Option Job)} {after : Db Text}
    (called : RunQueue.claim Key.own codec micros token lease db = (answer, after)) :
    let script := record codec (millis micros) (.claim token (milliseconds lease)) db
    after = script.after ∧ claimed answer = (script.job? codec).toList := by
  intro script
  unfold RunQueue.claim at called
  have handed : script.job? codec = (RunQueue.job codec token script.reply).join := rfl
  rw [handed]
  dsimp only at called
  split at called
  · rename_i none
    obtain ⟨rfl, rfl⟩ := Prod.mk.inj called
    exact ⟨rfl, by rw [show RunQueue.job codec token script.reply = _ from none]; rfl⟩
  · rename_i job some
    obtain ⟨rfl, rfl⟩ := Prod.mk.inj called
    exact ⟨rfl, by rw [show RunQueue.job codec token script.reply = _ from some]; rfl⟩
  · rename_i invalid
    obtain ⟨rfl, rfl⟩ := Prod.mk.inj called
    exact ⟨rfl, by rw [show RunQueue.job codec token script.reply = _ from invalid]; rfl⟩

/-- Every job is a case of the plan, as it was written. -/
theorem Keys.job_planned (keys : Keys codec run db) {now lease : Int} {token : String} {job : Job}
    (handed : (record codec now (.claim token lease) db).job? codec = some job) :
    job.case ∈ run.suite.cases.map Case.written := by
  cases isActive : active Key.own now (live now db) with
  | false =>
      have nothing : (record codec now (.claim token lease) db).reply = .nil :=
        congrArg Prod.fst (claim_inactive codec isActive token lease)
      simp only [Record.job?, nothing] at handed
      cases handed
  | true =>
      rcases keys.of_live now with inv | gone
      · obtain ⟨delivered, replied, _⟩ := claim_claiming inv isActive token lease
        rw [job?_claim rfl replied] at handed
        obtain ⟨delivery, _, found⟩ := Option.bind_eq_some_iff.mp handed
        obtain ⟨case, planned, rfl⟩ := Option.map_eq_some_iff.mp found
        exact List.mem_map_of_mem (run.mem_of_case? planned)
      · rw [gone, active_empty] at isActive
        cases isActive

theorem Keys.quiet_claim (keys : Keys codec run db) {micros : Int} {token : String} {lease : Rat}
    {answer : Except Raised (Option Job)} {after : Db Text}
    (called : RunQueue.claim Key.own codec micros token lease db = (answer, after)) :
    Quiet codec run db after ∧
      ∀ job ∈ claimed answer, job.case ∈ run.suite.cases.map Case.written := by
  obtain ⟨rfl, jobs⟩ := claim_record called
  have old : (record codec (millis micros)
    (.claim token (milliseconds lease)) db).creates = false := rfl
  constructor
  · exact {
      keys := keys.after old
      gone := keys.after_empty old
      kept := fun _ _ stored => keys.results_kept old stored
      origin := fun _ _ stored => keys.claim_origin stored }
  · intro job member
    rw [jobs, Option.mem_toList] at member
    exact keys.job_planned member

end ApiSentinel
