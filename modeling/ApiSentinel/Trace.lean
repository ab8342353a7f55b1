import ApiSentinel.Creation

/-!
# Traces of a run

A trace is a list of script calls with their clock readings, newest first.  A
record keeps what one call found, answered and left behind, and the records of a
trace give every case a history of lease events.  The main result is that these
events are the lifecycle of a leased work item.
-/

namespace ApiSentinel

open Redis

/-- A call of one of the scripts. -/
inductive Call (Text : Type)
  | create (args : CreateArgs Text)
  | claim (token : String) (lease : Int)
  | renew (id token : String) (lease : Int)
  | complete (id token : String) (result : Text)
  | close

variable {Text : Type}

def Call.exec {K : Type} [DecidableEq K] (KEYS : Key → K) (codec : Codec Text) (now : Int) :
    Call Text → Keyspace K Text → Reply Text × Keyspace K Text
  | .create args, db => ApiSentinel.create KEYS now args db
  | .claim token lease, db => ApiSentinel.claim KEYS codec now token lease db
  | .renew id token lease, db => ApiSentinel.renew KEYS now id token lease db
  | .complete id token result, db => ApiSentinel.complete KEYS now id token result db
  | .close, db => ApiSentinel.close KEYS db

/-- One call, the live keys it found, its reply, and the keys it left. -/
structure Record (Text : Type) where
  now : Int
  call : Call Text
  before : Db Text
  reply : Reply Text
  after : Db Text

def record (codec : Codec Text) (now : Int) (call : Call Text) (db : Db Text) :
    Record Text where
  now := now
  call := call
  before := live now db
  reply := (call.exec Key.own codec now (live now db)).1
  after := (call.exec Key.own codec now (live now db)).2

/-- Calls with their clock readings in milliseconds, newest first. -/
abbrev Calls (Text : Type) := List (Int × Call Text)

namespace Calls

/-- The keys after the calls. -/
def state (codec : Codec Text) (start : Db Text) : Calls Text → Db Text
  | [] => start
  | (now, call) :: older => (record codec now call (state codec start older)).after

/-- The records of the calls, newest first. -/
def history (codec : Codec Text) (start : Db Text) : Calls Text → List (Record Text)
  | [] => []
  | (now, call) :: older =>
      record codec now call (state codec start older) :: history codec start older

/-- The clock never ran backwards. -/
def Ordered (calls : Calls Text) : Prop :=
  calls.Pairwise (fun later earlier => earlier.1 ≤ later.1)

theorem state_append (codec : Codec Text) (start : Db Text) (newer older : Calls Text) :
    state codec start (newer ++ older) = state codec (state codec start older) newer := by
  induction newer with
  | nil => rfl
  | cons head newer ih => simp only [List.cons_append, state, ih]

theorem history_append (codec : Codec Text) (start : Db Text) (newer older : Calls Text) :
    history codec start (newer ++ older) =
      history codec (state codec start older) newer ++ history codec start older := by
  induction newer with
  | nil => rfl
  | cons head newer ih => simp only [List.cons_append, history, ih, state_append]

end Calls

namespace Record

/-- The script answered 1. -/
def accepted (record : Record Text) : Bool := record.reply.isOne

/-- The job that a call of `claim` returned. -/
def job? (codec : Codec Text) (record : Record Text) : Option Job :=
  match record.call with
  | .claim token _ => (RunQueue.job codec token record.reply).join
  | _ => none

/-- The call was a `CLAIM` of an active run that took back the lease of an ID. -/
def reclaims (id : String) (record : Record Text) : Bool :=
  match record.call with
  | .claim _ _ => active Key.own record.now record.before &&
      decide (id ∈ expired Key.own record.now record.before)
  | _ => false

/-- The call was a `CLAIM` of an active run that took an ID out of `ready`. -/
def pops (codec : Codec Text) (id : String) (record : Record Text) : Bool :=
  match record.call with
  | .claim _ _ => active Key.own record.now record.before &&
      decide (id ∈ claimPops codec record.now record.before)
  | _ => false

/-- The result that a `CLAIM` wrote for an ID. -/
def exhausts (id : String) (record : Record Text) : Option Text :=
  match record.call with
  | .claim _ _ =>
      if (hget .results id record.before).isNone then
        (hget .results id record.after).bind Bulk.doc?
      else none
  | _ => none

/-- What a call did to one case, oldest first. -/
def events (codec : Codec Text) (id : String) (record : Record Text) : List (Event Text) :=
  match record.call with
  | .claim token lease =>
      (if record.reclaims id then [.lapse] else []) ++
        (match record.job? codec with
          | some job =>
              if job.case.id = id then [.deliver token (record.now + lease) job.delivery] else []
          | none => []) ++
        (record.exhausts id).toList.map .exhaust
  | .renew target token lease =>
      if target = id ∧ record.accepted then [.renew token (record.now + lease)] else []
  | .complete target token result =>
      if target = id ∧ record.accepted then [.complete token result] else []
  | .create _ => []
  | .close => []

end Record

/-- The lease events of one case, newest first. -/
def eventsOf (codec : Codec Text) (id : String) (records : List (Record Text)) :
    Lease.History String Text :=
  records.flatMap (fun record =>
    ((record.events codec id).map (fun event => (record.now, event))).reverse)

/-! ### One call -/

variable {codec : Codec Text} {run : Run} {db : Db Text}

/-- What one call does to a run: the invariant stays, each case moves by the
events of the record, and only `CLOSE` changes the state. -/
structure Recorded (codec : Codec Text) (run : Run) (record : Record Text) : Prop where
  inv : Inv codec run record.after
  others : ∀ id ∉ run.ids, record.events codec id = []
  moves : ∀ id ∈ run.ids, ∀ item, Matches (slot record.before id) item →
    ∃ next, Matches (slot record.after id) next ∧
      Lease.Steps run.deliveries record.now item (record.events codec id) next
  closed : hget .metadata "state" record.after = some (.text "closed") ↔
    hget .metadata "state" record.before = some (.text "closed") ∨ record.call = .close

/-- The call started a run. -/
def Record.creates (record : Record Text) : Bool :=
  match record.call with
  | .create _ => record.accepted
  | _ => false

/-- A call without effect. -/
theorem recorded_of_unchanged {record : Record Text} (inv : Inv codec run record.before)
    (unchanged : record.after = record.before)
    (silent : ∀ id, record.events codec id = []) (other : record.call ≠ .close) :
    Recorded codec run record where
  inv := unchanged ▸ inv
  others id _ := silent id
  moves id _ item matched := ⟨item, unchanged ▸ matched, silent id ▸ .nil⟩
  closed := by simp [unchanged, other]

section Claim

variable {now lease : Int} {token : String}

theorem Run.task_decodes (codec : Codec Text) (run : Run) (id : String) :
    (((run.task codec id).map Bulk.doc).bind Bulk.doc?).bind codec.validateCase =
      (run.case? id).map Case.written := by
  cases found : run.case? id with
  | none => simp [Run.task, found]
  | some case =>
      have printable := run.printable case (Run.mem_of_case? found)
      simp [Run.task, found, Bulk.doc?, codec.validate_dumpCase case printable]

/-- The job of a delivery is what encoding keeps of the case submitted under its ID. -/
theorem job_deliveryReply (codec : Codec Text) (run : Run) (token : String)
    (delivered : Option (String × Nat)) :
    (RunQueue.job codec token (deliveryReply codec run delivered)).join =
      delivered.bind (fun delivery =>
        (run.case? delivery.1).map (fun case => ⟨case.written, token, delivery.2⟩)) := by
  cases delivered with
  | none => rfl
  | some delivery =>
      simp only [deliveryReply, RunQueue.job, Run.task_decodes, Option.map_map]
      rfl

theorem Run.case?_of_mem {id : String} (member : id ∈ run.ids) :
    ∃ case, run.case? id = some case ∧ case.id = id := by
  obtain ⟨case, found⟩ := Option.isSome_iff_exists.mp ((run.case?_isSome_iff id).mpr member)
  exact ⟨case, found, run.id_of_case? found⟩

section Events

variable {record : Record Text} {delivered : Option (String × Nat)}
variable (called : record.call = .claim token lease)
variable (replied : record.reply = deliveryReply codec run delivered)
include called replied

theorem job?_claim :
    record.job? codec = delivered.bind (fun delivery =>
      (run.case? delivery.1).map (fun case => ⟨case.written, token, delivery.2⟩)) := by
  rw [Record.job?, called]
  simp only [replied, job_deliveryReply]

variable (planned : ∀ id number, delivered = some (id, number) → id ∈ run.ids)
include planned

theorem events_claim (id : String) :
    record.events codec id =
      (if record.reclaims id then [.lapse] else []) ++
        (numberOf delivered id).toList.map (fun (number : Nat) =>
          .deliver token (record.now + lease) number) ++
        (record.exhausts id).toList.map .exhaust := by
  rw [Record.events, called]
  simp only [job?_claim called replied]
  cases delivered with
  | none => rfl
  | some delivery =>
      obtain ⟨case, found, same⟩ := Run.case?_of_mem (planned delivery.1 delivery.2 rfl)
      simp only [Option.bind_some, found, Option.map_some, Case.written_id, same]
      by_cases wanted : delivery.1 = id <;> simp [numberOf, wanted]

end Events

/-- The result that a call of `CLAIM` wrote is the one of the item it left. -/
theorem exhausts_claim {record : Record Text} (called : record.call = .claim token lease)
    {id : String} {item next : Item Text} (matched : Matches (slot record.before id) item)
    (arrived : Matches (slot record.after id) next) :
    record.exhausts id = if item.result.isNone then next.result else none := by
  have before : hget .results id record.before = item.result.map Bulk.doc := matched.result
  have after : hget .results id record.after = next.result.map Bulk.doc := arrived.result
  rw [Record.exhausts, called]
  simp only [before, after]
  cases item.result <;> cases next.result <;> rfl

theorem exhausts_unchanged {record : Record Text} (unchanged : record.after = record.before)
    (id : String) : record.exhausts id = none := by
  unfold Record.exhausts
  split
  · cases held : hget .results id record.before <;> simp [unchanged, held]
  · rfl

end Claim

/-- The events of a `CLAIM` are what its two loops do to the case. -/
theorem claim_steps {limit : Nat} {now expiry : Int} {id token : String}
    {due taken : Prop} [Decidable due] {number : Option Nat} {written : Option Text}
    {item middle next : Item Text} (lapse : LapseMove now due item middle)
    (pop : PopMove codec limit id token expiry taken middle number next)
    (exhausted : written = if item.result.isNone then next.result else none) :
    Lease.Steps limit now item
      ((if due then [.lapse] else []) ++
        number.toList.map (fun (number : Nat) => Lease.Event.deliver token expiry number) ++
        written.toList.map .exhaust) next := by
  subst exhausted
  cases lapse with
  | stay running =>
      rw [if_neg running]
      cases pop with
      | stay left => cases item <;> exact .nil
      | exhaust out used => exact .one (.exhaust used)
      | deliver out within => exact .one (.deliver within)
  | lapse listed reached =>
      rw [if_pos listed]
      cases pop with
      | stay left => exact .one (.lapse reached)
      | exhaust out used => exact .cons (.lapse reached) (.one (.exhaust used))
      | deliver out within => exact .cons (.lapse reached) (.one (.deliver within))

theorem reclaims_claim_iff (codec : Codec Text) {now : Int}
    (isActive : active Key.own now (live now db) = true) (token : String) (lease : Int)
    (id : String) :
    (record codec now (.claim token lease) db).reclaims id = true ↔
      id ∈ expired Key.own now (live now db) := by
  simp only [Record.reclaims, record, isActive, Bool.true_and]
  exact decide_eq_true_iff

theorem recorded_claim {now lease : Int} {token : String} (inv : Inv codec run (live now db)) :
    Recorded codec run (record codec now (.claim token lease) db) := by
  cases isActive : active Key.own now (live now db) with
  | false =>
      have nothing := claim_inactive codec isActive token lease
      have unchanged : (record codec now (.claim token lease) db).after = live now db :=
        congrArg Prod.snd nothing
      apply recorded_of_unchanged inv unchanged _ (by simp [record])
      intro id
      have kept : (record codec now (.claim token lease) db).reclaims id = false := by
        simp [Record.reclaims, record, isActive]
      have replied : (record codec now (.claim token lease) db).reply =
        deliveryReply codec run none := congrArg Prod.fst nothing
      rw [events_claim rfl replied (by simp), exhausts_unchanged unchanged, kept]
      rfl
  | true =>
      obtain ⟨delivered, replied, claiming⟩ := claim_claiming inv isActive token lease
      have answered : (record codec now (.claim token lease) db).reply =
        deliveryReply codec run delivered := replied
      have events := events_claim rfl answered claiming.planned
      have reclaims := reclaims_claim_iff codec isActive token lease
      refine ⟨claiming.inv, ?_, ?_, ?_⟩
      · intro id absent
        have unlisted := inv.placed.not_expired absent now
        have undelivered : numberOf delivered id = none := numberOf_none fun number handed =>
          absent (claiming.planned id number handed)
        have unwritten : (record codec now (.claim token lease) db).exhausts id = none := by
          have after : hget .results id (record codec now (.claim token lease) db).after = none :=
            congrArg Slot.result (claiming.inv.placed.others id absent)
          change (if (hget .results id (live now db)).isNone then _ else none) = none
          rw [after]
          simp
        rw [events, undelivered, unwritten, if_neg (by rwa [reclaims])]
        rfl
      · intro id member item matched
        obtain ⟨middle, next, arrived, lapse, pop⟩ := claiming.moves id member item matched
        refine ⟨next, arrived, ?_⟩
        rw [events]
        simp only [reclaims]
        exact claim_steps lapse pop (exhausts_claim rfl matched arrived)
      · have same := claiming.samePlan.metadata "state"
        simpa [record, Call.exec] using congrArg (· = some (Bulk.text "closed")) same

/-- An accepted write to one leased case is one step of that case. -/
theorem recorded_of_leaseWrite {record : Record Text} {id token : String}
    {next : Nat → Item Text} {event : Event Text} (placed : Placed run record.before)
    (write : LeaseWrite codec run record.now id token next record.before record.after)
    (events : ∀ other, record.events codec other = if id = other then [event] else [])
    (moves : ∀ expiry deliveries, record.now < expiry →
      Lease.Step run.deliveries record.now (.leased token expiry deliveries) event
        (next deliveries))
    (other : record.call ≠ .close) : Recorded codec run record := by
  obtain ⟨expiry, deliveries, live, leased, arrived⟩ := write.moves
  have member := placed.member_of_matches leased
  refine ⟨write.inv, ?_, ?_, ?_⟩
  · intro target outside
    rw [events, if_neg (fun same : id = target => outside (same ▸ member))]
  · intro target _ item matched
    rw [events]
    by_cases same : id = target
    · subst same
      obtain rfl := matched.unique leased
      rw [if_pos rfl]
      exact ⟨_, arrived, .one (moves expiry deliveries live)⟩
    · rw [if_neg same]
      exact ⟨item, (write.others target (Ne.symm same)) ▸ matched, .nil⟩
  · simp [write.samePlan.metadata, other]

section Calls

variable {now : Int} (inv : Inv codec run (live now db))
include inv

theorem recorded_renew (id token : String) (lease : Int) :
    Recorded codec run (record codec now (.renew id token lease) db) := by
  cases held : holds Key.own now id token (live now db) with
  | false =>
      have refused := renew_refused held lease
      apply recorded_of_unchanged inv (congrArg Prod.snd refused) _ (by simp [record])
      intro other
      simp [Record.events, Record.accepted, record, Call.exec, refused, Reply.isOne]
  | true =>
      obtain ⟨replied, write⟩ := renew_accepted inv held lease
      apply recorded_of_leaseWrite inv.placed write _ _ (by simp [record])
      · exact .renew token (now + lease)
      · intro other
        simp [Record.events, Record.accepted, record, Call.exec, replied, Reply.isOne]
      · exact fun _ _ live => .renew live

theorem recorded_complete (id token : String) (result : Text) :
    Recorded codec run (record codec now (.complete id token result) db) := by
  cases held : holds Key.own now id token (live now db) with
  | false =>
      have refused := complete_refused held result
      apply recorded_of_unchanged inv (congrArg Prod.snd refused) _ (by simp [record])
      intro other
      simp [Record.events, Record.accepted, record, Call.exec, refused, Reply.isOne]
  | true =>
      obtain ⟨replied, write⟩ := complete_accepted inv held result
      apply recorded_of_leaseWrite inv.placed write _ _ (by simp [record])
      · exact .complete token result
      · intro other
        simp [Record.events, Record.accepted, record, Call.exec, replied, Reply.isOne]
      · exact fun _ _ live => .complete live

theorem recorded_create (args : CreateArgs Text) :
    Recorded codec run (record codec now (.create args) db) :=
  recorded_of_unchanged inv (congrArg Prod.snd (create_refused inv.planned args))
    (fun _ => rfl) (by simp [record])

theorem recorded_close : Recorded codec run (record codec now .close db) := by
  obtain ⟨_, after, isClosed, slots⟩ := close_effect inv
  refine ⟨after, fun _ _ => rfl, ?_, ?_⟩
  · intro id _ item matched
    exact ⟨item, (slots id) ▸ matched, .nil⟩
  · exact ⟨fun _ => .inr rfl, fun _ => isClosed⟩

/-- Every call on the keys of a run. -/
theorem recorded (call : Call Text) : Recorded codec run (record codec now call db) := by
  cases call with
  | create args => exact recorded_create inv args
  | claim token lease => exact recorded_claim inv
  | renew id token lease => exact recorded_renew inv id token lease
  | complete id token result => exact recorded_complete inv id token result
  | close => exact recorded_close inv

end Calls

/-! ### Calls after the keys have expired -/

theorem active_empty (now : Int) : active Key.own now (empty : Db Text) = false := by
  simp [active]

theorem holds_empty (now : Int) (id token : String) :
    holds Key.own now id token (empty : Db Text) = false := by
  simp [holds, active_empty]

/-- On a database without keys only `CREATE` does anything. -/
theorem record_gone {now : Int} {call : Call Text} (gone : live now db = empty)
    (old : (record codec now call db).creates = false) :
    (record codec now call db).after = empty ∧
      ∀ id, (record codec now call db).events codec id = [] := by
  cases call with
  | create args =>
      have started : (record codec now (.create args) db).creates = true := by
        simp [Record.creates, Record.accepted, record, gone, Call.exec, create, exists?, empty,
          Reply.isOne]
      rw [started] at old
      cases old
  | claim token lease =>
      have nothing := claim_inactive codec (@active_empty Text now) token lease
      refine ⟨by simp [record, gone, Call.exec, nothing], ?_⟩
      intro id
      simp [Record.events, Record.job?, Record.reclaims, record, gone, Call.exec, nothing,
        active_empty, RunQueue.job]
      exact exhausts_unchanged rfl id
  | renew id token lease =>
      simp [record, gone, Call.exec, renew_refused (holds_empty now id token), Record.events,
        Record.accepted, Reply.isOne]
  | complete id token result =>
      simp [record, gone, Call.exec, complete_refused (holds_empty now id token), Record.events,
        Record.accepted, Reply.isOne]
  | close =>
      simp [record, gone, Call.exec, close, exists?, empty, Record.events]

/-! ### Whole traces -/

/-- Calls of one run, over a clock that never runs backwards.  `CREATE` may be
repeated among them, but starts no other run under the same ID. -/
structure Calls.OneRun (codec : Codec Text) (start : Db Text) (calls : Calls Text) : Prop where
  ordered : calls.Ordered
  once : ∀ record ∈ calls.history codec start, record.creates = false

/-- What holds after calls that all found the keys of the run. -/
structure Alive (codec : Codec Text) (run : Run) (start : Db Text) (calls : Calls Text) :
    Prop where
  inv : Inv codec run (calls.state codec start)
  cases : ∀ id ∈ run.ids, ∃ item, Matches (slot (calls.state codec start) id) item ∧
    Lease.Lifecycle run.deliveries (eventsOf codec id (calls.history codec start)) item
  others : ∀ id ∉ run.ids, eventsOf codec id (calls.history codec start) = []
  closed : hget .metadata "state" (calls.state codec start) = some (.text "closed") ↔
    ∃ time, (time, Call.close) ∈ calls

/-- What holds once a call has come after the expiry of the keys. -/
structure Gone (codec : Codec Text) (run : Run) (start : Db Text) (calls : Calls Text) :
    Prop where
  empty : calls.state codec start = empty
  late : ∃ call ∈ calls, run.expires < call.1
  cases : ∀ id ∈ run.ids, ∃ item,
    Lease.Lifecycle run.deliveries (eventsOf codec id (calls.history codec start)) item
  others : ∀ id ∉ run.ids, eventsOf codec id (calls.history codec start) = []

theorem eventsOf_cons (codec : Codec Text) (id : String) (record : Record Text)
    (older : List (Record Text)) :
    eventsOf codec id (record :: older) =
      ((record.events codec id).map (fun event => (record.now, event))).reverse ++
        eventsOf codec id older :=
  rfl

theorem eventsOf_append (codec : Codec Text) (id : String) (newer older : List (Record Text)) :
    eventsOf codec id (newer ++ older) = eventsOf codec id newer ++ eventsOf codec id older :=
  List.flatMap_append

section Run

variable {start : Db Text} {calls : Calls Text}

theorem Created.alive (created : Created codec run start) : Alive codec run start [] where
  inv := created.inv
  cases id member := ⟨.ready 0, created.ready id member, .new⟩
  others _ _ := rfl
  closed := by simp [Calls.state, created.isOpen]

theorem Alive.cons (alive : Alive codec run start calls) {now : Int}
    (early : now ≤ run.expires) (call : Call Text) :
    Alive codec run start ((now, call) :: calls) := by
  have found : live now (calls.state codec start) = calls.state codec start :=
    live_eq_self alive.inv.expiry early
  have step : Recorded codec run (record codec now call (calls.state codec start)) :=
    recorded (by rw [found]; exact alive.inv) call
  refine ⟨step.inv, ?_, ?_, ?_⟩
  · intro id member
    obtain ⟨item, matched, life⟩ := alive.cases id member
    have before : Matches (slot (live now (calls.state codec start)) id) item := by
      rw [found]
      exact matched
    obtain ⟨next, arrived, moves⟩ := step.moves id member item before
    exact ⟨next, arrived, life.steps moves⟩
  · intro id absent
    rw [Calls.history, eventsOf_cons, step.others id absent, alive.others id absent]
    rfl
  · have before : (record codec now call (calls.state codec start)).before =
        calls.state codec start := found
    rw [Calls.state, step.closed, before, alive.closed]
    constructor
    · rintro (⟨time, member⟩ | closing)
      · exact ⟨time, List.mem_cons_of_mem _ member⟩
      · exact ⟨now, by rw [show call = .close from closing]; exact List.mem_cons_self⟩
    · rintro ⟨time, member⟩
      rcases List.mem_cons.mp member with head | tail
      · exact .inr (Prod.mk.inj head).2.symm
      · exact .inl ⟨time, tail⟩

/-- Calls before the keys expire, in any order of their clock readings. -/
theorem Created.alive_of_early (created : Created codec run start) (calls : Calls Text)
    (early : ∀ call ∈ calls, call.1 ≤ run.expires) : Alive codec run start calls := by
  induction calls with
  | nil => exact created.alive
  | cons head calls ih =>
      have older := ih (fun call member => early call (List.mem_cons_of_mem _ member))
      exact older.cons (early head List.mem_cons_self) head.2

theorem Created.alive_or_gone (created : Created codec run start) (calls : Calls Text)
    (trace : calls.OneRun codec start) :
    Alive codec run start calls ∨ Gone codec run start calls := by
  obtain ⟨ordered, once⟩ := trace
  induction calls with
  | nil => exact .inl created.alive
  | cons head calls ih =>
      obtain ⟨now, call⟩ := head
      obtain ⟨later, ordered⟩ := List.pairwise_cons.mp ordered
      have older := ih ordered (fun record member => once record (List.mem_cons_of_mem _ member))
      have old := once _
        (List.mem_cons_self : record codec now call (Calls.state codec start calls) ∈ _)
      by_cases early : now ≤ run.expires
      · rcases older with alive | gone
        · exact .inl (alive.cons early call)
        · obtain ⟨past, member, late⟩ := gone.late
          have := later past member
          omega
      · have late := Int.lt_of_not_ge early
        have nothing : live now (Calls.state codec start calls) = empty := by
          rcases older with alive | gone
          · exact live_eq_empty alive.inv.expiry late
          · rw [gone.empty, live_empty]
        obtain ⟨after, silent⟩ := record_gone nothing old
        have same : ∀ id, eventsOf codec id (Calls.history codec start ((now, call) :: calls)) =
            eventsOf codec id (Calls.history codec start calls) := by
          intro id
          rw [Calls.history, eventsOf_cons, silent]
          rfl
        refine .inr ⟨after, ⟨_, List.mem_cons_self, late⟩, ?_, ?_⟩
        · intro id member
          rw [same]
          rcases older with alive | gone
          · obtain ⟨item, _, life⟩ := alive.cases id member
            exact ⟨item, life⟩
          · exact gone.cases id member
        · intro id absent
          rw [same]
          exact older.elim (fun alive => alive.others id absent) (fun gone => gone.others id absent)

end Run

end ApiSentinel
