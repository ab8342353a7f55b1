import ApiSentinel.Expiry

/-!
# Cases are neither lost nor duplicated

Before its keys expire a run keeps every case in exactly one of `ready`, `leases`
and `results`, whatever is called with whatever arguments and clock readings; a
result that is stored stays; and nothing moves any more once the run has ended.
-/

namespace ApiSentinel

open Redis

variable {Text : Type} {codec : Codec Text} {run : Run} {db : Db Text}

/-! ### One state -/

/-- The collections that a case can be in. -/
def collections (db : Db Text) (id : String) : List Bool :=
  [(zscore .ready id db).isSome, (zscore .leases id db).isSome, (hget .results id db).isSome]

def Slot.collections (case : Slot Text) : List Bool :=
  [case.ready.isSome, case.lease.isSome, case.result.isSome]

theorem Matches.one_collection {case : Slot Text} {item : Item Text}
    (matched : Matches case item) : case.collections.count true = 1 := by
  cases matched <;> rfl

theorem Matches.owner_iff_lease {case : Slot Text} {item : Item Text}
    (matched : Matches case item) : case.owner.isSome = case.lease.isSome := by
  cases matched <;> rfl

theorem Placed.one_collection (placed : Placed run db) {id : String} (member : id ∈ run.ids) :
    (collections db id).count true = 1 := by
  obtain ⟨item, matched⟩ := placed.cases id member
  exact matched.one_collection

theorem Placed.no_collection (placed : Placed run db) {id : String} (absent : id ∉ run.ids) :
    (collections db id).count true = 0 :=
  congrArg (fun case => case.collections.count true) (placed.others id absent)

theorem Placed.owner_iff_lease (placed : Placed run db) (id : String) :
    (hget .owners id db).isSome = (zscore .leases id db).isSome := by
  by_cases member : id ∈ run.ids
  · obtain ⟨item, matched⟩ := placed.cases id member
    exact matched.owner_iff_lease
  · exact congrArg (fun case : Slot Text => case.owner.isSome) (placed.others id member) |>.trans
      (congrArg (fun case : Slot Text => case.lease.isSome) (placed.others id member)).symm

/-! ### The job of a claim -/

/-- A delivery leases its case to the token, and no other case gets a new owner. -/
theorem Claiming.delivers {now expiry : Int} {token id : String} {number : Nat}
    {before after : Db Text}
    (claiming : Claiming codec run now token expiry (some (id, number)) before after)
    (placed : Placed run before) :
    Matches (slot after id) (.leased token expiry number) ∧
      ∀ other, other ≠ id → ∀ holder, hget .owners other after = some holder →
        hget .owners other before = some holder := by
  constructor
  · have member := claiming.planned id number rfl
    obtain ⟨item, matched⟩ := placed.cases id member
    obtain ⟨middle, next, arrived, _, pop⟩ := claiming.moves id member item matched
    rw [numberOf_self] at pop
    cases pop with
    | deliver => exact arrived
  · intro other different holder owned
    have ownedAfter : (slot after other).owner = some holder := owned
    change (slot before other).owner = some holder
    by_cases member : other ∈ run.ids
    · obtain ⟨item, matched⟩ := placed.cases other member
      obtain ⟨middle, next, arrived, lapse, pop⟩ := claiming.moves other member item matched
      rw [numberOf_other (Ne.symm different)] at pop
      generalize slot after other = later at arrived ownedAfter
      cases pop with
      | exhaust =>
          cases arrived
          cases ownedAfter
      | stay =>
          cases lapse with
          | lapse =>
              cases arrived
              cases ownedAfter
          | stay =>
              generalize slot before other = earlier at matched ⊢
              cases arrived with
              | ready => cases ownedAfter
              | finished => cases ownedAfter
              | leased =>
                  cases matched
                  exact ownedAfter
    · rw [claiming.inv.placed.others other member] at ownedAfter
      cases ownedAfter

/-- Whatever job a `CLAIM` hands out, its payload is the submitted one of a case of the plan,
and exactly that case is leased to the token. -/
theorem claim_job {now lease : Int} {token : String} (inv : Inv codec run (live now db))
    {payload : Option (Bulk Text)} {attempt : Int}
    (replied : (record codec now (.claim token lease) db).reply = .job payload attempt) :
    ∃ case ∈ run.suite.cases, payload = some (.doc (codec.dumpCase case)) ∧
      (record codec now (.claim token lease) db).job? codec =
        some ⟨case.written, token, attempt⟩ ∧
      hget .owners case.id (record codec now (.claim token lease) db).after =
        some (.text token) ∧
      ∀ other, other ≠ case.id → ∀ holder,
        hget .owners other (record codec now (.claim token lease) db).after = some holder →
        hget .owners other (live now db) = some holder := by
  have replied' : (claim Key.own codec now token lease (live now db)).1 =
    .job payload attempt := replied
  cases isActive : active Key.own now (live now db) with
  | false =>
      rw [claim_inactive codec isActive] at replied'
      cases replied'
  | true =>
      obtain ⟨delivered, told, claiming⟩ := claim_claiming inv isActive token lease
      rw [replied'] at told
      cases delivered with
      | none => cases told
      | some delivery =>
          obtain ⟨id, number⟩ := delivery
          obtain ⟨rfl, rfl⟩ := Reply.job.inj told
          obtain ⟨case, found, rfl⟩ := Run.case?_of_mem (claiming.planned id number rfl)
          obtain ⟨leased, others⟩ := claiming.delivers inv.placed
          refine ⟨case, run.mem_of_case? found, ?_, ?_, ?_, others⟩
          · simp [Run.task, found]
          · rw [job?_claim rfl (replied'.trans told)]
            simp [found]
          · exact leased.owner

/-! ### Every reachable state -/

section Early

variable {micros : Int} {submission : Submission} {start : Db Text}

end Early

theorem Recorded.results_kept {record : Record Text} (recorded : Recorded codec run record)
    (placed : Placed run record.before) {id : String} {value : Bulk Text}
    (stored : hget .results id record.before = some value) :
    hget .results id record.after = some value := by
  obtain ⟨member, text, rfl, finished⟩ := placed.finished stored
  obtain ⟨next, arrived, moves⟩ := recorded.moves id member _ finished
  obtain ⟨_, rfl⟩ := Lease.steps_finished moves
  exact arrived.stored

theorem hkeys_subset_of_kept {key : Key} {before after : Db Text}
    (kept : ∀ id value, hget key id before = some value → hget key id after = some value) :
    hkeys key before ⊆ hkeys key after := by
  intro id listed
  obtain ⟨value, stored⟩ := Option.isSome_iff_exists.mp ((mem_hkeys_iff key id before).mp listed)
  exact (mem_hkeys_iff key id after).mpr (by rw [kept id value stored]; rfl)

theorem hlen_le_of_subset {key : Key} {db : Db Text} {ids : List String}
    (subset : hkeys key db ⊆ ids) : hlen key db ≤ ids.length := by
  rw [← length_hkeys]
  exact (List.subperm_of_subset (nodup_hkeys key db) subset).length_le

theorem Placed.results_subset (placed : Placed run db) : hkeys .results db ⊆ run.ids := by
  intro id listed
  obtain ⟨value, stored⟩ := Option.isSome_iff_exists.mp ((mem_hkeys_iff .results id db).mp listed)
  exact (placed.finished stored).1

/-! ### Ended runs -/

/-- An inactive run is left as it is, apart from the state that `CLOSE` writes. -/
theorem unchanged_of_inactive (inv : Inv codec run db) {now : Int}
    (early : now ≤ run.expires) (inactive : active Key.own now db = false) (call : Call Text)
    {key : Key} (other : key ≠ .metadata) :
    (record codec now call db).after key = db key := by
  have found := live_eq_self inv.expiry early
  have present := exists_metadata inv.planned
  change (call.exec Key.own codec now (live now db)).2 key = db key
  rw [found]
  rcases exec_cases codec now call db with
    same | ⟨isActive, _⟩ | ⟨_, closed⟩ | ⟨_, _, missing⟩
  · rw [same]
  · rw [inactive] at isActive
    cases isActive
  · rw [closed]
    exact store_other other _ _
  · rw [present] at missing
    cases missing

/-- The run has been closed, or its deadline has passed. -/
def Ended (calls : Calls Text) (deadline now : Int) : Prop :=
  (∃ time, (time, Call.close) ∈ calls) ∨ deadline ≤ now

theorem Alive.inactive_of_ended {start : Db Text} {calls : Calls Text}
    (alive : Alive codec run start calls) {now : Int} (ended : Ended calls run.deadline now) :
    active Key.own now (calls.state codec start) = false := by
  rw [Bool.eq_false_iff]
  intro isActive
  obtain ⟨isOpen, before⟩ := (alive.inv.planned.active_iff now).mp isActive
  rcases ended with closing | after
  · rw [alive.closed.mpr closing] at isOpen
    simp at isOpen
  · omega

section Early

variable {start : Db Text} {older : Calls Text}

theorem results_kept (created : Created codec run start) (newer : Calls Text)
    (early : ∀ call ∈ newer ++ older, call.1 ≤ run.expires) {id : String}
    {value : Bulk Text} (stored : hget .results id (older.state codec start) = some value) :
    hget .results id ((newer ++ older).state codec start) = some value := by
  induction newer with
  | nil => exact stored
  | cons head newer ih =>
      have past : ∀ call ∈ newer ++ older, call.1 ≤ run.expires :=
        fun call member => early call (List.mem_cons_of_mem _ member)
      have alive := created.alive_of_early _ past
      have found := live_eq_self alive.inv.expiry (early head List.mem_cons_self)
      have inv : Inv codec run (live head.1 (Calls.state codec start (newer ++ older))) :=
        found.symm ▸ alive.inv
      refine (recorded inv head.2).results_kept inv.placed ?_
      change hget .results id (live head.1 (Calls.state codec start (newer ++ older))) = _
      rw [found]
      exact ih past

theorem frozen (created : Created codec run start) (newer : Calls Text)
    (early : ∀ call ∈ newer ++ older, call.1 ≤ run.expires)
    (ended : ∀ call ∈ newer, Ended older run.deadline call.1) {key : Key}
    (other : key ≠ .metadata) :
    (newer ++ older).state codec start key = older.state codec start key := by
  induction newer with
  | nil => rfl
  | cons head newer ih =>
      have past : ∀ call ∈ newer ++ older, call.1 ≤ run.expires :=
        fun call member => early call (List.mem_cons_of_mem _ member)
      have alive := created.alive_of_early _ past
      have late : Ended (newer ++ older) run.deadline head.1 := by
        refine (ended head List.mem_cons_self).imp_left ?_
        rintro ⟨time, closing⟩
        exact ⟨time, List.mem_append_right _ closing⟩
      calc
        Calls.state codec start (head :: newer ++ older) key =
            Calls.state codec start (newer ++ older) key :=
          unchanged_of_inactive alive.inv (early head List.mem_cons_self)
            (alive.inactive_of_ended late) head.2 other
        _ = Calls.state codec start older key :=
          ih past (fun call member => ended call (List.mem_cons_of_mem _ member))

/-- `RunQueue.is_open` reads an ended run as not open, even if its two reads see
different instants. -/
theorem Alive.not_isOpen_of_ended {calls : Calls Text} (alive : Alive codec run start calls)
    {read micros : Int} (ended : Ended calls run.deadline (millis micros)) :
    RunQueue.isOpen (RunQueue.stateDeadline Key.own read (calls.state codec start)) micros =
      false := by
  unfold RunQueue.stateDeadline
  rcases alive.inv.expiring.dated.live_cases (millis read) with gone | same
  · rw [gone]
    exact RunQueue.isOpen_missing _ _
  · simp only [same, Key.own_eq, alive.inv.planned.deadline]
    rcases ended with closing | late
    · rw [alive.closed.mpr closing, Bool.eq_false_iff, ne_eq, RunQueue.isOpen_iff]
      simp
    · have late : run.deadline * 1000 ≤ micros :=
        (Int.le_ediv_iff_mul_le (by decide)).mp late
      rcases alive.inv.planned.state with isOpen | isClosed
      · rw [isOpen, Bool.eq_false_iff, ne_eq, RunQueue.isOpen_iff]
        omega
      · rw [isClosed, Bool.eq_false_iff, ne_eq, RunQueue.isOpen_iff]
        simp

/-- Results that are stored before the keys expire stay, their number grows up to
the number of cases, and once the run has been closed or its deadline has passed
nothing moves and the run never reads as open again. -/
theorem finality {micros : Int} {submission : Submission}
    (started : Started codec micros submission start) (older newer : Calls Text)
    (early : ∀ call ∈ newer ++ older, call.1 ≤ submission.expires (millis micros)) :
    (∀ id value, hget .results id (older.state codec start) = some value →
      hget .results id ((newer ++ older).state codec start) = some value) ∧
    hlen .results (older.state codec start) ≤ hlen .results ((newer ++ older).state codec start) ∧
    hlen .results ((newer ++ older).state codec start) ≤ submission.suite.cases.length ∧
    ((∀ call ∈ newer, Ended older (submission.deadline (millis micros)) call.1) →
      ∀ key, key ≠ .metadata →
        (newer ++ older).state codec start key = older.state codec start key) ∧
    ∀ read later, Ended older (submission.deadline (millis micros)) (millis later) →
      RunQueue.isOpen
        (RunQueue.stateDeadline Key.own read ((newer ++ older).state codec start)) later =
          false := by
  obtain ⟨timed, created⟩ := started.created
  have alive := created.alive_of_early _ early
  have kept : ∀ id value, hget .results id (older.state codec start) = some value →
      hget .results id ((newer ++ older).state codec start) = some value :=
    fun id value => results_kept created newer early
  refine ⟨kept, ?_, ?_, ?_, ?_⟩
  · rw [← length_hkeys .results ((newer ++ older).state codec start)]
    exact hlen_le_of_subset (hkeys_subset_of_kept kept)
  · have bound := hlen_le_of_subset alive.inv.placed.results_subset
    rwa [Run.ids, List.length_map] at bound
  · exact fun ended key => frozen created newer early ended
  · intro read later ended
    apply alive.not_isOpen_of_ended
    refine ended.imp_left ?_
    rintro ⟨time, closing⟩
    exact ⟨time, List.mem_append_right _ closing⟩

end Early

/-- The sample run is closed after a claim; the late completion stores nothing. -/
theorem finality_sample :
    Calls.state Codec.plain Sample.start
        ([(4000, .complete "health" "token" (.case Sample.case))] ++
          [(3000, .close), (2000, .claim "token" 30000)]) .results =
      Calls.state Codec.plain Sample.start [(3000, .close), (2000, .claim "token" 30000)]
        .results :=
  (finality Sample.started [(3000, .close), (2000, .claim "token" 30000)]
    [(4000, .complete "health" "token" (.case Sample.case))] (by decide)).2.2.2.1
      (by intro call member; exact .inl ⟨3000, List.mem_cons_self⟩) .results (by decide)

end ApiSentinel
