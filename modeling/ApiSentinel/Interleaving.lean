import ApiSentinel.Provenance

/-!
# Coordinator and workers interleaved

Whatever workers and coordinator do, a stored result is either the dump of an
accepted completion or the error of an exhausted case, and an accepted completion
stays stored until all keys expire.  The same holds of the keys that the
coordinator has last read.
-/

namespace ApiSentinel

open Redis

variable {Text : Type} {codec : Codec Text} {run : Run} {db : Db Text}

/-! ### Explanations -/

/-- How a result came to be stored under an ID. -/
inductive Explained (codec : Codec Text) (accepted : List (Acceptance Text)) (id : String) :
    Bulk Text → Prop
  | accepted {acceptance} (member : acceptance ∈ accepted)
      (own : acceptance.job.case.id = id) :
      Explained codec accepted id (.doc (codec.dumpResult acceptance.result))
  | exhausted (deliveries : Int) :
      Explained codec accepted id (.doc (codec.encodeError id deliveries exhaustedMessage))

theorem Explained.cons {accepted : List (Acceptance Text)} {id : String} {value : Bulk Text}
    (explained : Explained codec accepted id value) (acceptance : Acceptance Text) :
    Explained codec (acceptance :: accepted) id value := by
  cases explained with
  | accepted member own => exact .accepted (List.mem_cons_of_mem _ member) own
  | exhausted deliveries => exact .exhausted deliveries

/-- Every stored result is explained. -/
def Explains (codec : Codec Text) (accepted : List (Acceptance Text)) (db : Db Text) : Prop :=
  ∀ id value, hget .results id db = some value → Explained codec accepted id value

/-- The result of an accepted completion is stored, unless all keys are gone. -/
def Kept (codec : Codec Text) (db : Db Text) (acceptance : Acceptance Text) : Prop :=
  hget .results acceptance.job.case.id db = some (.doc (codec.dumpResult acceptance.result)) ∨
    db = empty

theorem Quiet.explains {accepted : List (Acceptance Text)} {before after : Db Text}
    (quiet : Quiet codec run before after) (explains : Explains codec accepted before) :
    Explains codec accepted after := by
  intro id value stored
  rcases quiet.origin id value stored with older | ⟨deliveries, rfl⟩
  · exact explains id value older
  · exact .exhausted deliveries

theorem Quiet.kept_acceptance {before after : Db Text} (quiet : Quiet codec run before after)
    {acceptance : Acceptance Text} (kept : Kept codec before acceptance) :
    Kept codec after acceptance :=
  kept.elim (quiet.kept _ _) (fun gone => .inr (quiet.gone gone))

/-! ### The invariants -/

/-- What has happened in the queue. -/
structure Queued (codec : Codec Text) (run : Run) (produced : Job → CaseResult → Prop)
    (system : System Text) : Prop where
  keys : Keys codec run system.db
  jobs : ∀ job ∈ system.jobs, job.case ∈ run.suite.cases.map Case.written
  stored : Explains codec system.accepted system.db
  made : ∀ acceptance ∈ system.accepted, acceptance.job ∈ system.jobs ∧
    produced acceptance.job acceptance.result ∧
    acceptance.result.caseId = acceptance.job.case.id
  honoured : ∀ acceptance ∈ system.accepted, acceptance.Honoured run.deadline
  kept : ∀ acceptance ∈ system.accepted, Kept codec system.db acceptance

/-- What the coordinator has read of it. -/
structure LastRead (codec : Codec Text) (run : Run) (system : System Text) : Prop where
  keys : Keys codec run system.lastRead
  stored : Explains codec system.accepted system.lastRead
  kept : ∀ acceptance ∈ system.accepted,
    acceptance ∈ system.unread ∨ Kept codec system.lastRead acceptance
  older : ∀ id value, hget .results id system.lastRead = some value →
    hget .results id system.db = some value ∨ system.db = empty
  fresh : ∀ acceptance ∈ system.unread,
    acceptance ∈ system.accepted ∧ hget .results acceptance.job.case.id system.lastRead = none

section Steps

variable {produced : Job → CaseResult → Prop} {system next : System Text}

theorem Queued.of_quiet (queued : Queued codec run produced system)
    (quiet : Quiet codec run system.db next.db) (accepted : next.accepted = system.accepted)
    (jobs : system.jobs ⊆ next.jobs)
    (planned : ∀ job ∈ next.jobs,
      job ∈ system.jobs ∨ job.case ∈ run.suite.cases.map Case.written) :
    Queued codec run produced next where
  keys := quiet.keys
  jobs job member := (planned job member).elim (queued.jobs job) id
  stored := accepted ▸ quiet.explains queued.stored
  made := by
    intro acceptance member
    obtain ⟨handed, made⟩ := queued.made acceptance (accepted ▸ member)
    exact ⟨jobs handed, made⟩
  honoured acceptance member := queued.honoured acceptance (accepted ▸ member)
  kept acceptance member := quiet.kept_acceptance (queued.kept acceptance (accepted ▸ member))

theorem LastRead.of_quiet (read : LastRead codec run system)
    (quiet : Quiet codec run system.db next.db) (accepted : next.accepted = system.accepted)
    (lastRead : next.lastRead = system.lastRead) (unread : next.unread = system.unread) :
    LastRead codec run next where
  keys := lastRead ▸ read.keys
  stored := by
    rw [accepted, lastRead]
    exact read.stored
  kept := by
    rw [accepted, lastRead, unread]
    exact read.kept
  older := by
    rw [lastRead]
    intro id value stored
    exact (read.older id value stored).elim (quiet.kept id value)
      (fun gone => .inr (quiet.gone gone))
  fresh := by
    rw [accepted, lastRead, unread]
    exact read.fresh

/-- A successful read starts anew. -/
theorem Queued.lastRead (queued : Queued codec run produced system) {now : Int}
    (accepted : next.accepted = system.accepted) (db : next.db = system.db)
    (lastRead : next.lastRead = live now system.db) (unread : next.unread = []) :
    LastRead codec run next where
  keys := lastRead ▸ queued.keys.of_live now
  stored := by
    rw [accepted, lastRead]
    exact (queued.keys.quiet_live now).explains queued.stored
  kept acceptance member := by
    rw [accepted] at member
    rw [lastRead]
    exact .inr ((queued.keys.quiet_live now).kept_acceptance (queued.kept acceptance member))
  older id value stored := by
    rw [lastRead] at stored
    rw [db]
    exact .inl (hget_of_live stored)
  fresh acceptance member := by
    rw [unread] at member
    cases member

/-! ### The steps -/

/-- The coordinator closes the run or reads its results, and does no more to the
queue. -/
theorem CoordinatorStep.queue {call : Coordination}
    (moves : CoordinatorStep codec call system next) :
    next.jobs = system.jobs ∧ next.accepted = system.accepted ∧
      ((next.lastRead = system.lastRead ∧ next.unread = system.unread ∧
          Unanswered system.db next.db) ∨
        (next.db = system.db ∧ next.unread = [] ∧
          ∃ micros, next.lastRead = live (millis micros) system.db)) := by
  cases moves with
  | results => exact ⟨rfl, rfl, .inr ⟨rfl, rfl, _, rfl⟩⟩
  | invalid => exact ⟨rfl, rfl, .inl ⟨rfl, rfl, .inl rfl⟩⟩
  | unavailable => exact ⟨rfl, rfl, .inl ⟨rfl, rfl, .inl rfl⟩⟩
  | inTime => exact ⟨rfl, rfl, .inl ⟨rfl, rfl, .inl rfl⟩⟩
  | exceeded => exact ⟨rfl, rfl, .inl ⟨rfl, rfl, .inl rfl⟩⟩
  | fields => exact ⟨rfl, rfl, .inl ⟨rfl, rfl, .inl rfl⟩⟩
  | isOpen => exact ⟨rfl, rfl, .inl ⟨rfl, rfl, .inl rfl⟩⟩
  | ended => exact ⟨rfl, rfl, .inl ⟨rfl, rfl, .inl rfl⟩⟩
  | slept => exact ⟨rfl, rfl, .inl ⟨rfl, rfl, .inl rfl⟩⟩
  | closed => exact ⟨rfl, rfl, .inl ⟨rfl, rfl, .inr ⟨_, rfl⟩⟩⟩
  | closeFailed here unanswered => exact ⟨rfl, rfl, .inl ⟨rfl, rfl, unanswered⟩⟩
  | returned => exact ⟨rfl, rfl, .inl ⟨rfl, rfl, .inl rfl⟩⟩
  | aborted => exact ⟨rfl, rfl, .inl ⟨rfl, rfl, .inr ⟨_, rfl⟩⟩⟩
  | abortFailed here unanswered => exact ⟨rfl, rfl, .inl ⟨rfl, rfl, unanswered⟩⟩

theorem Keys.quiet_unanswered (keys : Keys codec run db) {after : Db Text}
    (unanswered : Unanswered db after) : Quiet codec run db after := by
  rcases unanswered with rfl | ⟨micros, rfl⟩
  · exact keys.quiet
  · exact keys.quiet_close micros

theorem coordinator_queued {call : Coordination} (queued : Queued codec run produced system)
    (read : LastRead codec run system) (moves : CoordinatorStep codec call system next) :
    Queued codec run produced next ∧ LastRead codec run next := by
  obtain ⟨jobs, accepted, ⟨lastRead, unread, unanswered⟩ | ⟨db, unread, micros, lastRead⟩⟩ :=
    moves.queue
  · have quiet := queued.keys.quiet_unanswered unanswered
    exact ⟨queued.of_quiet quiet accepted (jobs ▸ List.Subset.refl _)
      (fun job member => .inl (jobs ▸ member)), read.of_quiet quiet accepted lastRead unread⟩
  · have quiet : Quiet codec run system.db next.db := db ▸ queued.keys.quiet
    exact ⟨queued.of_quiet quiet accepted (jobs ▸ List.Subset.refl _)
      (fun job member => .inl (jobs ▸ member)), queued.lastRead accepted db lastRead unread⟩

section Accepted

variable {micros : Int} {job : Job} {result : CaseResult} {after : Db Text}

/-- The system after an accepted completion. -/
def System.completed (system : System Text) (micros : Int) (job : Job) (result : CaseResult)
    (after : Db Text) : System Text :=
  { system with
    db := after
    accepted := ⟨millis micros, job, result, live (millis micros) system.db⟩ :: system.accepted
    unread := ⟨millis micros, job, result, live (millis micros) system.db⟩ :: system.unread }

variable
  (accepting : Accepting codec run (millis micros) job result
    (live (millis micros) system.db) after)

include accepting in
theorem Accepting.found (keys : Keys codec run system.db) :
    live (millis micros) system.db = system.db ∧ system.db ≠ empty := by
  rcases keys.live_cases (millis micros) with gone | same
  · exact (accepting.inv.ne_empty gone).elim
  · exact ⟨same, same ▸ accepting.inv.ne_empty⟩

include accepting in
/-- Results stored before an accepted completion stay, since its case had none. -/
theorem Accepting.results_kept (keys : Keys codec run system.db) {id : String}
    {value : Bulk Text} (stored : hget .results id system.db = some value) :
    hget .results id after = some value := by
  have found := (accepting.found keys).1
  rw [accepting.others, found, stored]
  rintro rfl
  have unfinished := accepting.honoured.unfinished
  rw [found, stored] at unfinished
  cases unfinished

theorem Queued.completed (queued : Queued codec run produced system)
    (member : job ∈ system.jobs) (made : produced job result)
    (called : RunQueue.complete Key.own codec micros job result system.db = (.ok true, after)) :
    Queued codec run produced (system.completed micros job result after) := by
  obtain ⟨accepting, call⟩ := queued.keys.accepting called
  have found := (accepting.found queued.keys).1
  refine ⟨?_, queued.jobs, ?_, ?_, ?_, ?_⟩
  · change Keys codec run after
    rw [call]
    exact queued.keys.after rfl
  · intro id value stored
    by_cases same : id = job.case.id
    · subst same
      obtain rfl := Option.some.inj (stored.symm.trans accepting.stored)
      exact .accepted List.mem_cons_self rfl
    · apply Explained.cons
      apply queued.stored
      rw [← found, ← accepting.others id same]
      exact stored
  · intro acceptance new
    rcases List.mem_cons.mp new with rfl | old
    · exact ⟨member, made, accepting.identity⟩
    · exact queued.made acceptance old
  · intro acceptance new
    rcases List.mem_cons.mp new with rfl | old
    · exact accepting.honoured
    · exact queued.honoured acceptance old
  · intro acceptance new
    rcases List.mem_cons.mp new with rfl | old
    · exact .inl accepting.stored
    · rcases queued.kept acceptance old with stored | gone
      · exact .inl (accepting.results_kept queued.keys stored)
      · exact ((accepting.found queued.keys).2 gone).elim

theorem LastRead.completed (read : LastRead codec run system) (keys : Keys codec run system.db)
    (called : RunQueue.complete Key.own codec micros job result system.db = (.ok true, after)) :
    LastRead codec run (system.completed micros job result after) := by
  obtain ⟨accepting, _⟩ := keys.accepting called
  obtain ⟨found, present⟩ := accepting.found keys
  refine ⟨read.keys, ?_, ?_, ?_, ?_⟩
  · exact fun id value stored => (read.stored id value stored).cons _
  · intro acceptance new
    rcases List.mem_cons.mp new with rfl | old
    · exact .inl List.mem_cons_self
    · exact (read.kept acceptance old).imp_left (List.mem_cons_of_mem _)
  · intro id value stored
    rcases read.older id value stored with kept | gone
    · exact .inl (accepting.results_kept keys kept)
    · exact (present gone).elim
  · intro acceptance new
    rcases List.mem_cons.mp new with rfl | old
    · refine ⟨List.mem_cons_self, ?_⟩
      rw [Option.eq_none_iff_forall_ne_some]
      intro value stored
      have unfinished := accepting.honoured.unfinished
      rw [found, (read.older _ value stored).resolve_right present] at unfinished
      cases unfinished
    · obtain ⟨accepted, missing⟩ := read.fresh acceptance old
      exact ⟨List.mem_cons_of_mem _ accepted, missing⟩

end Accepted

theorem worker_queued (queued : Queued codec run produced system)
    (read : LastRead codec run system) (moves : WorkerStep codec produced system next) :
    Queued codec run produced next ∧ LastRead codec run next := by
  cases moves with
  | claim called =>
      obtain ⟨quiet, planned⟩ := queued.keys.quiet_claim called
      refine ⟨queued.of_quiet quiet rfl (List.subset_append_right _ _) ?_,
        read.of_quiet quiet rfl rfl rfl⟩
      intro job member
      exact (List.mem_append.mp member).symm.imp id (planned job)
  | renew called =>
      have quiet := queued.keys.quiet_renew called
      exact ⟨queued.of_quiet quiet rfl (List.Subset.refl _) (fun _ => .inl),
        read.of_quiet quiet rfl rfl rfl⟩
  | accepted member made called =>
      exact ⟨queued.completed member made called, read.completed queued.keys called⟩
  | @refused micros job result answer after member made refused called =>
      have quiet : Quiet codec run system.db after := by
        rcases refused_cases called refused with rfl | rfl
        · exact queued.keys.quiet
        · exact queued.keys.quiet_live _
      exact ⟨queued.of_quiet quiet rfl (List.Subset.refl _) (fun _ => .inl),
        read.of_quiet quiet rfl rfl rfl⟩

theorem Created.queued {start : Db Text} (created : Created codec run start)
    (produced : Job → CaseResult → Prop) (seconds : Rat) :
    Queued codec run produced { db := start, seconds } ∧
      LastRead codec run { db := start, seconds } := by
  have nothing : ∀ id, hget .results id start = none := by
    intro id
    by_cases member : id ∈ run.ids
    · exact (created.ready id member).stored
    · exact congrArg Slot.result (created.inv.placed.others id member)
  constructor
  · exact {
      keys := .inl created.inv
      jobs := by simp
      stored := fun id value stored => by simp [nothing] at stored
      made := by simp
      honoured := by simp
      kept := by simp }
  · exact {
      keys := .inr rfl
      stored := fun id value stored => by simp at stored
      kept := by simp
      older := fun id value stored => by simp at stored
      fresh := by simp }

/-- Over every interleaving. -/
theorem Reaches.queued {call : Coordination} {start : Db Text} {seconds : Rat} {steps : Nat}
    (created : Created codec run start)
    (reached : Reaches codec call produced start seconds steps system) :
    Queued codec run produced system ∧ LastRead codec run system := by
  induction reached with
  | created => exact created.queued produced seconds
  | coordinator _ moves ih => exact coordinator_queued ih.1 ih.2 moves
  | worker _ moves ih => exact worker_queued ih.1 ih.2 moves

end Steps

end ApiSentinel
