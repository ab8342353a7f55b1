import ApiSentinel.Provenance
import ApiSentinel.Worker

/-!
# Interrupted executions

A lease that Redis has refused once is lost for good.  An execution that was
interrupted for that reason can therefore never be accepted.  An interruption by a
`RedisError` says nothing about the lease, and its result can become final.
-/

namespace ApiSentinel

open Redis

variable {Text : Type} {codec : Codec Text} {run : Run} {db : Db Text}

/-! ### Dead tokens -/

/-- From this clock reading on the token cannot act on the case: as long as the run
is active, the case is not under a lease of the token that still runs. -/
def Dead (db : Db Text) (clock : Int) (id token : String) : Prop :=
  active Key.own clock db = true →
    ∀ item, Matches (slot db id) item → Lease.Lost token clock item

theorem active_earlier {clock now : Int} (later : clock ≤ now)
    (isActive : active Key.own now db = true) : active Key.own clock db = true := by
  simp only [active, Bool.and_eq_true, decide_eq_true_eq] at isActive ⊢
  exact ⟨isActive.1, Int.lt_of_le_of_lt later isActive.2⟩

section Token

variable {clock now : Int} {id token : String}

theorem Dead.later (dead : Dead db clock id token) (later : clock ≤ now) :
    Dead db now id token := by
  intro isActive item matched
  exact (dead (active_earlier later isActive) item matched).later later

/-- A dead token is refused. -/
theorem Dead.not_holds (dead : Dead db clock id token) (keys : Keys codec run db)
    (later : clock ≤ now) : holds Key.own now id token (live now db) = false := by
  rw [Bool.eq_false_iff]
  intro held
  rcases keys with inv | rfl
  · rcases inv.expiring.dated.live_cases now with gone | same
    · rw [gone, holds_empty] at held
      cases held
    · rw [same] at held
      obtain ⟨isActive, _, expiry, deliveries, leased, running⟩ :=
        (holds_iff inv.placed id token).mp held
      have lost := dead (active_earlier later isActive) _ leased
      have : expiry ≤ clock := lost rfl
      omega
  · rw [live_empty, holds_empty] at held
    cases held

/-- A token that is refused is dead. -/
theorem dead_of_not_holds (keys : Keys codec run db)
    (refused : holds Key.own now id token (live now db) = false) : Dead db now id token := by
  intro isActive item matched
  rcases keys with inv | rfl
  · have early := ((inv.planned.active_iff now).mp isActive).2
    rw [live_eq_self inv.expiry (le_of_lt (early.trans run.deadline_lt))] at refused
    cases item with
    | ready deliveries => trivial
    | finished result => trivial
    | leased holder expiry deliveries =>
        rintro rfl
        by_contra running
        have member := inv.placed.member_of_matches matched
        have held := (holds_iff inv.placed id holder).mpr
          ⟨isActive, member, expiry, deliveries, matched, Int.lt_of_not_ge running⟩
        rw [refused] at held
        cases held
  · rw [active_empty] at isActive
    cases isActive

/-- A delivery draws the token of its call. -/
theorem token_of_deliver {record : Record Text} {expiry number : Int}
    (delivered : Lease.Event.deliver token expiry number ∈ record.events codec id) :
    token ∈ record.call.tokens := by
  cases called : record.call with
  | claim drawn lease =>
      simp only [Record.events, called, List.mem_append] at delivered
      rcases delivered with (lapse | handed) | exhaust
      · split at lapse <;> simp at lapse
      · split at handed
        · split at handed
          · simp only [List.mem_singleton, Lease.Event.deliver.injEq] at handed
            exact List.mem_singleton.mpr handed.1
          · cases handed
        · cases handed
      · simp at exhaust
  | create args => simp [Record.events, called] at delivered
  | renew target holder lease =>
      simp only [Record.events, called] at delivered
      split at delivered <;> simp at delivered
  | complete target holder result =>
      simp only [Record.events, called] at delivered
      split at delivered <;> simp at delivered
  | close => simp [Record.events, called] at delivered

/-- A `CREATE` that succeeds starts a run of its own. -/
theorem created_of_creates (dated : Dated db) {call : Call Text} (checked : call.Checked codec)
    (creates : (record codec now call db).creates = true) :
    ∃ other, Created codec other (record codec now call db).after := by
  have gone : live now db = empty := before_of_creates dated creates
  cases call with
  | create args =>
      obtain ⟨submission, passed, rfl⟩ := checked args rfl
      have created := created_empty codec (Submission.timed_of_check passed) now
      rw [← gone] at created
      exact ⟨_, created⟩
  | claim token lease => cases creates
  | renew id token lease => cases creates
  | complete id token result => cases creates
  | close => cases creates

/-- A dead token stays dead, even when another run takes over the keys. -/
theorem Dead.call (dead : Dead db clock id token) (keys : Keys codec run db)
    (later : clock ≤ now) {call : Call Text} (checked : call.Checked codec)
    (fresh : token ∉ call.tokens) : Dead (record codec now call db).after now id token := by
  intro isActive next arrived
  cases creates : (record codec now call db).creates with
  | true =>
      obtain ⟨other, created⟩ := created_of_creates keys.dated checked creates
      have member := created.inv.placed.member_of_matches arrived
      obtain rfl := (created.ready id member).unique arrived
      trivial
  | false =>
      rcases keys.call_cases creates with ⟨found, step⟩ | ⟨_, gone⟩
      · rcases keys.live_cases now with gone | same
        · exact (found.ne_empty gone).elim
        · obtain ⟨isOpen, early⟩ := (step.inv.planned.active_iff now).mp isActive
          have before : active Key.own now (live now db) = true := by
            refine (found.planned.active_iff now).mpr ⟨?_, early⟩
            rcases found.planned.state with wasOpen | wasClosed
            · exact wasOpen
            · rw [step.closed.mpr (.inl wasClosed)] at isOpen
              simp at isOpen
          have member := step.inv.placed.member_of_matches arrived
          obtain ⟨item, matched⟩ := found.placed.cases id member
          obtain ⟨reached, reachedMatches, moves⟩ := step.moves id member item matched
          obtain rfl := reachedMatches.unique arrived
          rw [same] at before matched
          have lost := dead.later later before item matched
          exact Lease.lost_steps lost moves
            (fun expiry number delivered => fresh (token_of_deliver delivered))
      · rw [gone, active_empty] at isActive
        cases isActive

end Token

/-! ### One step of the site -/

/-- The keys, the Redis clock and the drawn tokens move by calls of the scripts. -/
def Moved (codec : Codec Text) (site next : Site Text) : Prop :=
  site.clock ≤ next.clock ∧ ((next.db = site.db ∧ next.tokens = site.tokens) ∨
    ∃ call : Call Text, call.Checked codec ∧
      (∀ token ∈ call.tokens, token ∉ site.tokens) ∧
      next.db = (record codec next.clock call site.db).after ∧
      next.tokens = call.tokens ++ site.tokens)

section Step

variable {worker : Worker} {runId : String} {site next : Site Text}

theorem moved_claim {micros : Int} {token : String} {lease : Rat}
    {answer : Except Raised (Option Job)} (later : site.clock ≤ millis micros)
    (fresh : token ∉ site.tokens)
    (called : RunQueue.claim Key.own codec micros token lease site.db = (answer, next.db))
    (clock : next.clock = millis micros) (tokens : next.tokens = token :: site.tokens) :
    Moved codec site next := by
  refine ⟨clock ▸ later, .inr ⟨.claim token (milliseconds lease), nofun, ?_, ?_, tokens⟩⟩
  · intro drawn member
    rw [List.mem_singleton.mp member]
    exact fresh
  · rw [clock]
    exact (claim_record called).1

theorem moved_renew {micros : Int} {job : Job} {lease : Rat} (later : site.clock ≤ millis micros)
    (called : next.db = (RunQueue.renew Key.own micros job lease site.db).2)
    (clock : next.clock = millis micros) (tokens : next.tokens = site.tokens) :
    Moved codec site next := by
  refine ⟨clock ▸ later, .inr ⟨.renew job.case.id job.token (milliseconds lease), nofun, ?_, ?_,
    tokens⟩⟩
  · intro drawn member
    cases member
  · rw [clock]
    exact called

theorem moved_complete {micros : Int} {job : Job} {result : CaseResult} {accepted : Bool}
    (later : site.clock ≤ millis micros)
    (called : RunQueue.complete Key.own codec micros job result site.db = (.ok accepted, next.db))
    (clock : next.clock = millis micros) (tokens : next.tokens = site.tokens) :
    Moved codec site next := by
  by_cases identity : result.caseId = job.case.id
  · rw [RunQueue.complete_record identity] at called
    refine ⟨clock ▸ later,
      .inr ⟨.complete job.case.id job.token (codec.dumpResult result), nofun, ?_, ?_, tokens⟩⟩
    · intro drawn member
      cases member
    · rw [clock]
      exact (Prod.mk.inj called).2.symm
  · rw [RunQueue.complete, if_pos identity] at called
    cases called

theorem SiteStep.moved (moves : SiteStep codec worker runId site next) :
    Moved codec site next := by
  have still : ∀ {other : Site Text}, other.db = site.db → other.clock = site.clock →
      other.tokens = site.tokens → Moved codec site other :=
    fun db clock tokens => ⟨le_of_eq clock.symm, .inl ⟨db, tokens⟩⟩
  cases moves with
  | claimed here going later fresh called => exact moved_claim later fresh called rfl rfl
  | nothing here going later fresh called => exact moved_claim later fresh called rfl rfl
  | claimFailed here going later fresh called => exact moved_claim later fresh called rfl rfl
  | completed here later called => exact moved_complete later called rfl rfl
  | completedUnanswered here later called => exact moved_complete later called rfl rfl
  | renewed here later called => exact moved_renew later (congrArg Prod.snd called).symm rfl rfl
  | refused here later called => exact moved_renew later (congrArg Prod.snd called).symm rfl rfl
  | unavailable here later called =>
      rcases called with same | applied
      · exact ⟨later, .inl ⟨same, rfl⟩⟩
      · exact moved_renew later applied rfl rfl
  | @other now call later checked fresh =>
      exact ⟨later, .inr ⟨call, checked, fresh, rfl, rfl⟩⟩
  | stopped here stop => exact still rfl rfl rfl
  | unanswered here => exact still rfl rfl rfl
  | drained here finished => exact still rfl rfl rfl
  | again here => exact still rfl rfl rfl
  | registered here => exact still rfl rfl rfl
  | leaseValid here => exact still rfl rfl rfl
  | asked here other => exact still rfl rfl rfl
  | ended here => exact still rfl rfl rfl
  | completeFailed here => exact still rfl rfl rfl
  | snapshot done => exact still rfl rfl rfl

theorem Moved.keys (moved : Moved codec site next) (keys : Keys codec run site.db) :
    ∃ run, Keys codec run next.db := by
  obtain ⟨_, ⟨db, _⟩ | ⟨call, checked, _, db, _⟩⟩ := moved
  · exact ⟨run, db ▸ keys⟩
  · rw [db]
    cases creates : (record codec next.clock call site.db).creates with
    | true =>
        obtain ⟨other, created⟩ := created_of_creates keys.dated checked creates
        exact ⟨other, .inl created.inv⟩
    | false => exact ⟨run, keys.after creates⟩

theorem Moved.tokens_subset (moved : Moved codec site next) : site.tokens ⊆ next.tokens := by
  obtain ⟨_, ⟨_, tokens⟩ | ⟨call, _, _, _, tokens⟩⟩ := moved
  · exact tokens ▸ List.Subset.refl _
  · rw [tokens]
    exact List.subset_append_right _ _

theorem Moved.dead (moved : Moved codec site next) (keys : Keys codec run site.db)
    {clock : Int} {id token : String} (later : clock ≤ next.clock) (drawn : token ∈ site.tokens)
    (dead : Dead site.db clock id token) : Dead next.db next.clock id token := by
  obtain ⟨_, ⟨db, _⟩ | ⟨call, checked, fresh, db, _⟩⟩ := moved
  · rw [db]
    exact dead.later later
  · rw [db]
    exact dead.call keys later checked (fun own => fresh token own drawn)

theorem Site.subset_suspect (site : Site Text) (now : Int) (job : Job) :
    site.spurious ⊆ site.suspect now job := by
  unfold Site.suspect
  split
  · exact List.subset_cons_self _ _
  · exact List.Subset.refl _

theorem Site.mem_suspect (site : Site Text) {now : Int} {job : Job}
    (held : holds Key.own now job.case.id job.token (live now site.db) = true) :
    job.lease ∈ site.suspect now job := by
  rw [Site.suspect, if_pos held]
  exact List.mem_cons_self

theorem SiteStep.flags_subset (moves : SiteStep codec worker runId site next) :
    site.lost ⊆ next.lost ∧ site.spurious ⊆ next.spurious := by
  cases moves
  case refused job pending micros db here later called =>
      exact ⟨List.subset_cons_self _ _, List.Subset.refl _⟩
  case unavailable job pending micros db here later called =>
      exact ⟨List.subset_cons_self _ _, site.subset_suspect _ job⟩
  all_goals exact ⟨List.Subset.refl _, List.Subset.refl _⟩

/-- A flag is set by a renewal that Redis refused, or that raised `RedisError`. -/
theorem SiteStep.lost (moves : SiteStep codec worker runId site next)
    (keys : Keys codec run site.db) :
    next.lost = site.lost ∨
      ∃ job ∈ site.pending, next.lost = job.lease :: site.lost ∧
        (job.lease ∈ next.spurious ∨ Dead site.db next.clock job.case.id job.token) := by
  cases moves
  case refused job pending micros db here later called =>
      refine .inr ⟨job, here ▸ List.mem_cons_self, rfl, .inr ?_⟩
      apply dead_of_not_holds keys
      rw [Bool.eq_false_iff]
      intro held
      have accepted := (@renew_accepted_iff _ codec _ _ _ _
        (milliseconds worker.leaseSeconds)).mpr held
      have refused := congrArg Prod.fst called
      rw [show (RunQueue.renew Key.own micros job worker.leaseSeconds site.db).1 = true from
        accepted] at refused
      cases refused
  case unavailable job pending micros db here later called =>
      refine .inr ⟨job, here ▸ List.mem_cons_self, rfl, ?_⟩
      cases held : holds Key.own (millis micros) job.case.id job.token
          (live (millis micros) site.db) with
      | true => exact .inl (site.mem_suspect held)
      | false => exact .inr (dead_of_not_holds keys held)
  all_goals exact .inl rfl

/-- A dead token completes nothing. -/
theorem Dead.complete {micros clock : Int} {job : Job} {result : CaseResult} {accepted : Bool}
    {after : Db Text} (dead : Dead db clock job.case.id job.token)
    (keys : Keys codec run db) (later : clock ≤ millis micros)
    (called : RunQueue.complete Key.own codec micros job result db = (.ok accepted, after)) :
    accepted = false ∧ after = live (millis micros) db := by
  have refused := dead.not_holds keys later
  by_cases identity : result.caseId = job.case.id
  · rw [RunQueue.complete_record identity] at called
    obtain ⟨answer, rfl⟩ := Prod.mk.inj called
    obtain rfl := Except.ok.inj answer
    have nothing := complete_refused refused (codec.dumpResult result)
    simp [record, Record.accepted, Call.exec, nothing, Reply.isOne]
  · rw [RunQueue.complete, if_pos identity] at called
    cases called

/-- An execution ends with a call of `COMPLETE`, which refuses a dead token. -/
theorem SiteStep.outcomes (moves : SiteStep codec worker runId site next)
    (keys : Keys codec run site.db) :
    next.outcomes = site.outcomes ∨
      ∃ thread result outcome,
        site.consumers thread = .completing outcome.job result outcome.trace ∧
        next.outcomes = outcome :: site.outcomes ∧
        (Dead site.db site.clock outcome.job.case.id outcome.job.token →
          outcome.accepted = false ∧ outcome.after = outcome.before) := by
  cases moves
  case completed thread job result trace micros accepted db here later called =>
      exact .inr ⟨thread, result, _, here, rfl, fun dead => dead.complete keys later called⟩
  case completedUnanswered thread job result trace micros accepted db here later called =>
      exact .inr ⟨thread, result, _, here, rfl, fun dead => dead.complete keys later called⟩
  all_goals exact .inl rfl

/-- The job of a consumer has drawn its token, and if its execution was interrupted
its flag is set. -/
def Consumer.Told (tokens : List String) (lost : List (String × String)) : Consumer → Prop
  | .claimed job => job.token ∈ tokens
  | .executing job _ trace => job.token ∈ tokens ∧ (Interrupted trace → job.lease ∈ lost)
  | .completing job _ trace => job.token ∈ tokens ∧ (Interrupted trace → job.lease ∈ lost)
  | .idle | .waiting | .returned => True

theorem Consumer.Told.mono {consumer : Consumer} {tokens more : List String}
    {lost further : List (String × String)} (told : consumer.Told tokens lost)
    (drawn : tokens ⊆ more) (flagged : lost ⊆ further) : consumer.Told more further := by
  cases consumer with
  | claimed job => exact drawn told
  | executing job program trace => exact ⟨drawn told.1, fun broken => flagged (told.2 broken)⟩
  | completing job result trace => exact ⟨drawn told.1, fun broken => flagged (told.2 broken)⟩
  | idle => trivial
  | waiting => trivial
  | returned => trivial

theorem interrupted_append {trace : Execution.Trace} {question : Ask} {answer : Answer question} :
    Interrupted (trace ++ [⟨question, answer⟩]) ↔
      Interrupted trace ∨ (⟨.leaseValid, false⟩ : Sigma Answer) = ⟨question, answer⟩ := by
  rw [Interrupted, List.mem_append, List.mem_singleton]
  rfl

/-- What holds of the jobs in the worker's hands. -/
structure Handled (site : Site Text) : Prop where
  consumers : ∀ thread, (site.consumers thread).Told site.tokens site.lost
  active : ∀ job ∈ site.active, job.token ∈ site.tokens
  pending : ∀ job ∈ site.pending, job.token ∈ site.tokens

theorem token_claimed {micros : Int} {token : String} {lease : Rat} {job : Job} {after : Db Text}
    (called : RunQueue.claim Key.own codec micros token lease db = (.ok (some job), after)) :
    job.token = token := by
  have handed := (claim_record called).2
  rw [claimed, eq_comm, Option.toList_eq_singleton_iff] at handed
  obtain ⟨_, same⟩ := job?_token handed
  exact (Call.claim.inj same).1.symm

/-- An answer interrupts an execution only if the flag of its lease is set. -/
theorem Consumer.Told.asked {job : Job} {program later : Execution CaseResult}
    {trace : Execution.Trace} {question : Ask} {answer : Answer question}
    {tokens more : List String} {lost further : List (String × String)}
    (told : (Consumer.executing job program trace).Told tokens lost) (drawn : tokens ⊆ more)
    (flagged : lost ⊆ further)
    (broken : (⟨.leaseValid, false⟩ : Sigma Answer) = ⟨question, answer⟩ → job.lease ∈ further) :
    (Consumer.executing job later (trace ++ [⟨question, answer⟩])).Told more further := by
  refine ⟨drawn told.1, fun interrupted => ?_⟩
  rcases interrupted_append.mp interrupted with older | now
  · exact flagged (told.2 older)
  · exact broken now

section Handled

variable (handled : Handled site) {tokens : List String} {lost : List (String × String)}
  (drawn : site.tokens ⊆ tokens)
include handled drawn

/-- A consumer goes on, and the others are as they were. -/
theorem Handled.update (flagged : site.lost ⊆ lost) {thread : Nat} {consumer : Consumer}
    (told : consumer.Told tokens lost) (other : Nat) :
    (Function.update site.consumers thread consumer other).Told tokens lost := by
  by_cases same : other = thread
  · rw [same, Function.update_self]
    exact told
  · rw [Function.update_of_ne same]
    exact (handled.consumers other).mono drawn flagged

theorem Handled.active_drawn : ∀ job ∈ site.active, job.token ∈ tokens :=
  fun job member => drawn (handled.active job member)

theorem Handled.pending_drawn : ∀ job ∈ site.pending, job.token ∈ tokens :=
  fun job member => drawn (handled.pending job member)

theorem Handled.popped {done : Job} :
    ∀ job ∈ site.active.filter (fun other => other.token ≠ done.token), job.token ∈ tokens :=
  fun job member => handled.active_drawn drawn job (List.mem_filter.mp member).1

/-- The first of the jobs that the heartbeat goes through is done. -/
theorem Handled.rest {job : Job} {rest : List Job} (here : site.pending = job :: rest) :
    ∀ job ∈ rest, job.token ∈ tokens :=
  fun job member => handled.pending_drawn drawn job (here ▸ List.mem_cons_of_mem _ member)

end Handled

theorem SiteStep.handled (moves : SiteStep codec worker runId site next) (handled : Handled site) :
    Handled next := by
  have drawn := moves.moved.tokens_subset
  have flagged := moves.flags_subset.1
  have active := handled.active_drawn drawn
  have pending := handled.pending_drawn drawn
  have update {thread : Nat} {consumer : Consumer} (told : consumer.Told next.tokens next.lost) :
      ∀ other, (Function.update site.consumers thread consumer other).Told next.tokens next.lost :=
    handled.update drawn flagged told
  have kept : ∀ thread, (site.consumers thread).Told next.tokens next.lost :=
    fun thread => (handled.consumers thread).mono drawn flagged
  cases moves with
  | claimed here going later fresh called =>
      refine ⟨update ?_, active, pending⟩
      change _ ∈ _
      rw [token_claimed called]
      exact List.mem_cons_self
  | nothing here going later fresh called => exact ⟨update trivial, active, pending⟩
  | claimFailed here going later fresh called => exact ⟨update trivial, active, pending⟩
  | stopped here stop => exact ⟨update trivial, active, pending⟩
  | unanswered here => exact ⟨update trivial, active, pending⟩
  | drained here finished => exact ⟨update trivial, active, pending⟩
  | again here => exact ⟨update trivial, active, pending⟩
  | @registered thread job here =>
      have told := handled.consumers thread
      rw [here] at told
      refine ⟨update ⟨told, fun broken => by cases broken⟩, ?_, pending⟩
      intro job member
      rcases List.mem_append.mp member with old | new
      · exact active job old
      · exact List.mem_singleton.mp new ▸ told
  | @leaseValid thread job next trace here =>
      have told := handled.consumers thread
      rw [here] at told
      refine ⟨update (told.asked drawn flagged fun refused => ?_), active, pending⟩
      have answer : decide (job.lease ∉ site.lost) = false :=
        (eq_of_heq (Sigma.mk.inj refused).2).symm
      exact not_not.mp (of_decide_eq_false answer)
  | @asked thread job question next trace answer here other =>
      have told := handled.consumers thread
      rw [here] at told
      exact ⟨update (told.asked drawn flagged fun refused =>
        (other (Sigma.mk.inj refused).1.symm).elim), active, pending⟩
  | @ended thread job result trace here =>
      have told := handled.consumers thread
      rw [here] at told
      exact ⟨update told, active, pending⟩
  | completed here later called => exact ⟨update trivial, handled.popped drawn, pending⟩
  | completedUnanswered here later called => exact ⟨update trivial, handled.popped drawn, pending⟩
  | completeFailed here => exact ⟨update trivial, handled.popped drawn, pending⟩
  | snapshot done => exact ⟨kept, active, active⟩
  | renewed here later called => exact ⟨kept, active, handled.rest drawn here⟩
  | refused here later called => exact ⟨kept, active, handled.rest drawn here⟩
  | unavailable here later called => exact ⟨kept, active, handled.rest drawn here⟩
  | other later checked fresh => exact ⟨kept, active, pending⟩

end Step

/-! ### Every interleaving -/

/-- A flag was set for a lease that is lost for good, unless a renewal had failed
that Redis would still have granted. -/
structure Guarded (codec : Codec Text) (site : Site Text) : Prop where
  keys : ∃ run, Keys codec run site.db
  handled : Handled site
  lost : ∀ held ∈ site.lost, held.2 ∈ site.tokens ∧
    (held ∈ site.spurious ∨ Dead site.db site.clock held.1 held.2)
  outcomes : ∀ outcome ∈ site.outcomes, Interrupted outcome.trace →
    outcome.job.lease ∈ site.spurious ∨
      (outcome.accepted = false ∧ outcome.after = outcome.before)

section Reached

variable {worker : Worker} {runId : String} {site next : Site Text}

theorem Guarded.step (guarded : Guarded codec site)
    (moves : SiteStep codec worker runId site next) : Guarded codec next := by
  obtain ⟨run, keys⟩ := guarded.keys
  have moved := moves.moved
  have drawn := moved.tokens_subset
  have spurious := moves.flags_subset.2
  have older : ∀ held ∈ site.lost, held.2 ∈ next.tokens ∧
      (held ∈ next.spurious ∨ Dead next.db next.clock held.1 held.2) := by
    intro held member
    obtain ⟨token, suspected | dead⟩ := guarded.lost held member
    · exact ⟨drawn token, .inl (spurious suspected)⟩
    · exact ⟨drawn token, .inr (moved.dead keys moved.1 token dead)⟩
  refine ⟨moved.keys keys, moves.handled guarded.handled, ?_, ?_⟩
  · rcases moves.lost keys with lost | ⟨job, pending, lost, reason⟩
    · rw [lost]
      exact older
    · rw [lost]
      intro held member
      rcases List.mem_cons.mp member with rfl | old
      · have token := guarded.handled.pending job pending
        exact ⟨drawn token, reason.imp_right
          (fun dead => moved.dead keys (le_refl _) token dead)⟩
      · exact older held old
  · intro outcome member broken
    rcases moves.outcomes keys with same | ⟨thread, result, new, here, outcomes, refuses⟩
    · exact (guarded.outcomes outcome (same ▸ member) broken).imp_left (spurious ·)
    · rw [outcomes] at member
      rcases List.mem_cons.mp member with rfl | old
      · have told := guarded.handled.consumers thread
        rw [here] at told
        obtain ⟨_, suspected | dead⟩ := guarded.lost _ (told.2 broken)
        · exact .inl (spurious suspected)
        · exact .inr (refuses dead)
      · exact (guarded.outcomes outcome old broken).imp_left (spurious ·)

theorem Operates.guarded {start : Db Text} {clock : Int} (keys : Keys codec run start)
    (operates : Operates codec worker runId start clock site) : Guarded codec site := by
  induction operates with
  | started =>
      exact {
        keys := ⟨run, keys⟩
        handled := ⟨fun _ => trivial, by simp, by simp⟩
        lost := by simp
        outcomes := by simp }
  | step past moves ih => exact ih.step moves

/-- If Redis no longer honoured the lease of a job whenever a renewal of it raised
`RedisError`, an interrupted execution of the job is refused, and the call leaves
every key as it was. -/
theorem interrupted_refused {micros : Int} {submission : Submission} {start : Db Text}
    {clock : Int} (started : Started codec micros submission start)
    (operates : Operates codec worker runId start clock site) :
    ∀ outcome ∈ site.outcomes, Interrupted outcome.trace →
      outcome.job.lease ∉ site.spurious →
      outcome.accepted = false ∧ outcome.after = outcome.before := by
  obtain ⟨timed, created⟩ := started.created
  have guarded := operates.guarded (.inl created.inv)
  intro outcome member broken honest
  exact (guarded.outcomes outcome member broken).resolve_left honest

end Reached

/-! ### Two interrupted executions -/

section Follow

variable {worker : Worker} {runId : String} {site : Site Text}

theorem Site.goto_goto (site : Site Text) (thread : Nat) (first second : Consumer) :
    (site.goto thread first).goto thread second = site.goto thread second := by
  simp [Site.goto]

/-- A consumer can follow every run of its program that is told of its flag. -/
theorem Operates.follow {start : Db Text} {clock : Int} {thread : Nat} {job : Job}
    {program : Execution CaseResult} {trace past : Execution.Trace} {result : CaseResult}
    (operates : Operates codec worker runId start clock site)
    (here : site.consumers thread = .executing job program past)
    (runs : Program.Runs program trace result)
    (honest : ∀ valid : Bool, ⟨.leaseValid, valid⟩ ∈ trace →
      valid = decide (job.lease ∉ site.lost)) :
    Operates codec worker runId start clock
      (site.goto thread (.executing job (.done result) (past ++ trace))) := by
  induction runs generalizing site past with
  | @done result =>
      have same : site.goto thread (.executing job (.done result) past) = site := by
        rw [← here, Site.goto, Function.update_eq_self]
      rwa [List.append_nil, same]
  | @ask question next answer trace result rest ih =>
      have told : ∀ valid : Bool, ⟨.leaseValid, valid⟩ ∈ trace →
          valid = decide (job.lease ∉ site.lost) :=
        fun valid member => honest valid (List.mem_cons_of_mem _ member)
      have asked : Operates codec worker runId start clock
          (site.goto thread (.executing job (next answer) (past ++ [⟨question, answer⟩]))) := by
        by_cases oracle : question = .leaseValid
        · subst oracle
          have answered : answer = decide (job.lease ∉ site.lost) :=
            honest answer List.mem_cons_self
          rw [answered]
          exact operates.step (.leaseValid here)
        · exact operates.step (.asked here oracle)
      have followed := ih asked (Function.update_self _ _ _) told
      rwa [Site.goto_goto, List.append_assoc] at followed

end Follow

namespace Sample

/-- The heartbeat has copied the table with the job, whose execution begins. -/
def executing : Site Document where
  db := leased
  clock := 2000
  consumers := Function.update (Function.update (fun _ => .idle) 0 (.claimed job)) 0
    (.executing job (executor.run case "run" "worker" 1) [])
  active := [job]
  pending := [job]
  tokens := ["token"]

theorem operates_executing : Operates Codec.plain worker "run" start 1000 executing := by
  have claimed := Operates.started.step (@SiteStep.claimed _ Codec.plain worker "run"
    { db := start, clock := 1000 } 0 2000000 "token" job leased rfl rfl (by decide) (by simp)
    (Prod.ext rfl rfl))
  have registered := claimed.step (@SiteStep.registered _ _ _ _ _ 0 job rfl)
  exact registered.step (.snapshot rfl)

/-- Once the flag is set the sample execution is interrupted. -/
theorem operates_completing {site : Site Document} {start : Db Document} {clock : Int}
    (operates : Operates Codec.plain worker "run" start clock site)
    (here : site.consumers 0 = .executing job (executor.run case "run" "worker" 1) [])
    (flagged : job.lease ∈ site.lost) :
    Operates Codec.plain worker "run" start clock
      (site.goto 0 (.completing job interrupted interruption)) := by
  have honest : ∀ valid : Bool, ⟨.leaseValid, valid⟩ ∈ interruption →
      valid = decide (job.lease ∉ site.lost) := by
    intro valid member
    simp only [interruption, List.mem_cons, Sigma.ext_iff, reduceCtorEq, false_and, false_or,
      List.not_mem_nil, or_false, true_and] at member
    have refused : valid = false := eq_of_heq member
    rw [refused, eq_comm, decide_eq_false_iff_not, not_not]
    exact flagged
  have followed := operates.follow here runs_interrupted honest
  have ended := followed.step (.ended (Function.update_self _ _ _))
  rwa [Site.goto_goto] at ended

/-- The keys after a renewal that comes too late. -/
def renewedLate : Db Document := (RunQueue.renew Key.own 33000000 job 30 leased).2

/-- The keys after a completion that comes too late. -/
def interruptedLate : Db Document :=
  (RunQueue.complete Key.own Codec.plain 34000000 job interrupted renewedLate).2

end Sample

/-- The lease of the sample job runs out before the heartbeat renews it. -/
theorem interrupted_refused_sample : ∃ outcome : Outcome Document,
    Interrupted outcome.trace ∧ outcome.accepted = false ∧ outcome.after = outcome.before := by
  have refused := Sample.operates_executing.step (@SiteStep.refused _ Codec.plain Sample.worker
    "run" Sample.executing Sample.job [] 33000000 Sample.renewedLate rfl (by decide)
    (Prod.ext rfl rfl))
  have completing := Sample.operates_completing refused rfl List.mem_cons_self
  have completed := completing.step (@SiteStep.completed _ _ _ _ _ 0 Sample.job
    Sample.interrupted Sample.interruption 34000000 false Sample.interruptedLate rfl (by decide)
    (Prod.ext rfl rfl))
  have broken : Interrupted Sample.interruption := by simp [Interrupted, Sample.interruption]
  exact ⟨_, broken, interrupted_refused Sample.started completed _ List.mem_cons_self broken
    List.not_mem_nil⟩

/-- A renewal of the sample job raises `RedisError` under a live lease.  Its step is
refused as lease lost, and the error of the interrupted execution becomes the result
of the case. -/
theorem interrupted_accepted : ∃ site : Site Document,
    Operates Codec.plain Sample.worker "run" Sample.start 1000 site ∧
      ∃ outcome ∈ site.outcomes, Interrupted outcome.trace ∧
        outcome.result = Sample.interrupted ∧ outcome.accepted = true := by
  have failed := Sample.operates_executing.step (@SiteStep.unavailable _ Codec.plain Sample.worker
    "run" Sample.executing Sample.job [] 12000000 Sample.leased rfl (by decide) (.inl rfl))
  have completing := Sample.operates_completing failed rfl List.mem_cons_self
  have completed := completing.step (@SiteStep.completed _ _ _ _ _ 0 Sample.job
    Sample.interrupted Sample.interruption 13000000 true _ rfl (by decide) (Prod.ext rfl rfl))
  have broken : Interrupted Sample.interruption := by simp [Interrupted, Sample.interruption]
  exact ⟨_, completed, _, List.mem_cons_self, broken, rfl, rfl⟩

end ApiSentinel
