import ApiSentinel.Lease
import ApiSentinel.Slots

/-!
# Cases as leased work items

A slot in one of three shapes is a leased work item, and the scripts move it by
the steps of the lease protocol: `CLAIM` lapses, exhausts and delivers, `RENEW`
renews and `COMPLETE` completes.  The invariant of a run says that every case of
the plan has such a slot, that no other ID has any trace in the keys, and that
every key carries the expiry of the run.
-/

namespace ApiSentinel

open Redis

variable {Text : Type}

abbrev Item (Text : Type) := Lease.Item String Text

abbrev Event (Text : Type) := Lease.Event String Text

/-- A run as it was created: its cases and the constants in `meta`. -/
structure Run where
  suite : Suite
  deadline : Int
  expires : Int
  deliveries : Nat
  deadline_lt : deadline < expires
  printable : ∀ case ∈ suite.cases, case.printable = true

namespace Run

def ids (run : Run) : List String := run.suite.cases.map Case.id

def case? (run : Run) (id : String) : Option Case :=
  run.suite.cases.find? (fun case => case.id == id)

theorem case?_isSome_iff (run : Run) (id : String) :
    (run.case? id).isSome ↔ id ∈ run.ids := by
  simp [case?, ids]

theorem id_of_case? {run : Run} {id : String} {case : Case}
    (found : run.case? id = some case) : case.id = id := by
  simpa using List.find?_some found

theorem mem_of_case? {run : Run} {id : String} {case : Case}
    (found : run.case? id = some case) : case ∈ run.suite.cases :=
  List.mem_of_find?_eq_some found

/-- The payload submitted for a case. -/
def task (codec : Codec Text) (run : Run) (id : String) : Option Text :=
  (run.case? id).map codec.dumpCase

end Run

/-- How `attempts` shows a number of deliveries. -/
def counted (deliveries : Nat) : Option (Bulk Text) :=
  if deliveries = 0 then none else some (.num deliveries)

theorem counted_injective : Function.Injective (@counted Text) := by
  intro first second equal
  by_cases noFirst : first = 0 <;> by_cases noSecond : second = 0 <;>
    simp [counted, noFirst, noSecond] at equal ⊢
  exact_mod_cast equal

/-- `HINCRBY` reads the number of deliveries so far. -/
theorem counted_number (deliveries : Nat) :
    ((@counted Text deliveries).bind Bulk.toNumber?).getD 0 = deliveries := by
  by_cases none : deliveries = 0 <;> simp [counted, none, Bulk.toNumber?]

theorem counted_succ (deliveries : Nat) :
    @counted Text (deliveries + 1) = some (.num ((deliveries : Int) + 1)) := by
  simp [counted]

/-- The three shapes of a slot, and the work item each stands for. -/
inductive Matches : Slot Text → Item Text → Prop
  | ready {score deliveries} :
      Matches ⟨some score, none, none, counted deliveries, none⟩ (.ready deliveries)
  | leased {token expiry deliveries} :
      Matches ⟨none, some expiry, some (.text token), counted deliveries, none⟩
        (.leased token expiry deliveries)
  | finished {attempts text} :
      Matches ⟨none, none, none, attempts, some (.doc text)⟩ (.finished text)

theorem Matches.result {case : Slot Text} {item : Item Text} (matched : Matches case item) :
    case.result = item.result.map Bulk.doc := by
  cases matched <;> rfl

/-- The plan in `meta` and `tasks` is the one the run was created with. -/
structure Planned (codec : Codec Text) (run : Run) (db : Db Text) : Prop where
  state : hget .metadata "state" db = some (.text "open") ∨
    hget .metadata "state" db = some (.text "closed")
  deadline : hget .metadata "deadline" db = some (.num run.deadline)
  expires : hget .metadata "expires" db = some (.num run.expires)
  deliveries : hget .metadata "deliveries" db = some (.num run.deliveries)
  tasks : ∀ id, hget .tasks id db = (run.task codec id).map .doc

theorem Planned.of_samePlan {codec : Codec Text} {run : Run} {before after : Db Text}
    (planned : Planned codec run before) (same : SamePlan before after) :
    Planned codec run after where
  state := by simpa only [same.metadata] using planned.state
  deadline := by simpa only [same.metadata] using planned.deadline
  expires := by simpa only [same.metadata] using planned.expires
  deliveries := by simpa only [same.metadata] using planned.deliveries
  tasks id := by simpa only [same.tasks] using planned.tasks id

theorem Planned.expires_number {codec : Codec Text} {run : Run} {db : Db Text}
    (planned : Planned codec run db) :
    hgetNumber Key.own .metadata "expires" db = some run.expires := by
  simp [hgetNumber, planned.expires, Bulk.toNumber?]

theorem Planned.deliveries_number {codec : Codec Text} {run : Run} {db : Db Text}
    (planned : Planned codec run db) :
    hgetNumber Key.own .metadata "deliveries" db = some run.deliveries := by
  simp [hgetNumber, planned.deliveries, Bulk.toNumber?]

theorem Planned.active_iff {codec : Codec Text} {run : Run} {db : Db Text}
    (planned : Planned codec run db) (now : Int) :
    active Key.own now db = true ↔
      hget .metadata "state" db = some (.text "open") ∧ now < run.deadline := by
  rcases planned.state with isOpen | isClosed
  · simp [active, hgetNumber, planned.deadline, Bulk.toNumber?, Bulk.text?, isOpen]
  · simp [active, Bulk.text?, isClosed]

/-- Every case of the plan is a work item, and nothing else is in the keys. -/
structure Placed (run : Run) (db : Db Text) : Prop where
  cases : ∀ id ∈ run.ids, ∃ item, Matches (slot db id) item
  others : ∀ id ∉ run.ids, slot db id = Slot.empty

/-- The invariant of a run whose keys have not expired. -/
structure Inv (codec : Codec Text) (run : Run) (db : Db Text) : Prop where
  planned : Planned codec run db
  placed : Placed run db
  expiry : ExpiresAt run.expires db

theorem Placed.of_slots {run : Run} {before after : Db Text} (placed : Placed run before)
    (same : ∀ id, slot after id = slot before id) : Placed run after where
  cases id member := by simpa only [same] using placed.cases id member
  others id absent := by simpa only [same] using placed.others id absent

/-- Moving one case of the plan keeps every case in place. -/
theorem Placed.of_move {run : Run} {before after : Db Text} (placed : Placed run before)
    {id : String} (member : id ∈ run.ids) {next : Item Text}
    (moved : Matches (slot after id) next)
    (kept : ∀ other, other ≠ id → slot after other = slot before other) :
    Placed run after where
  cases other otherMember := by
    by_cases same : other = id
    · exact ⟨next, same ▸ moved⟩
    · simpa only [kept other same] using placed.cases other otherMember
  others other absent := by
    have different : other ≠ id := fun same => absent (same ▸ member)
    simpa only [kept other different] using placed.others other absent

/-- An ID that has any trace in the keys belongs to the plan. -/
theorem Placed.member_of_slot {run : Run} {db : Db Text} (placed : Placed run db)
    {id : String} (trace : slot db id ≠ Slot.empty) : id ∈ run.ids := by
  by_contra absent
  exact trace (placed.others id absent)

theorem Matches.unique {case : Slot Text} {first second : Item Text}
    (one : Matches case first) (two : Matches case second) : first = second := by
  cases one with
  | @ready score deliveries =>
      generalize shown : @counted Text deliveries = attempts at two
      cases two
      rw [counted_injective shown]
  | @leased token expiry deliveries =>
      generalize shown : @counted Text deliveries = attempts at two
      cases two
      rw [counted_injective shown]
  | finished =>
      cases two
      rfl

theorem Placed.member_of_ready {run : Run} {db : Db Text} (placed : Placed run db)
    {id : String} {score : Int} (waiting : zscore .ready id db = some score) : id ∈ run.ids := by
  apply placed.member_of_slot
  intro empty
  have missing : zscore .ready id db = none := congrArg Slot.ready empty
  rw [waiting] at missing
  cases missing

theorem Placed.member_of_lease {run : Run} {db : Db Text} (placed : Placed run db)
    {id : String} {expiry : Int} (held : zscore .leases id db = some expiry) : id ∈ run.ids := by
  apply placed.member_of_slot
  intro empty
  have missing : zscore .leases id db = none := congrArg Slot.lease empty
  rw [held] at missing
  cases missing

theorem Placed.member_of_matches {run : Run} {db : Db Text} (placed : Placed run db)
    {id : String} {item : Item Text} (matched : Matches (slot db id) item) : id ∈ run.ids := by
  apply placed.member_of_slot
  intro empty
  rw [empty] at matched
  cases matched

/-! ### What a matched case shows -/

section Fields

variable {db : Db Text} {id token : String} {expiry : Int} {deliveries : Nat}

theorem Matches.stored {item : Item Text} (matched : Matches (slot db id) item) :
    hget .results id db = item.result.map Bulk.doc :=
  matched.result

theorem Matches.owner (matched : Matches (slot db id) (.leased token expiry deliveries)) :
    hget .owners id db = some (.text token) := by
  change (slot db id).owner = some (.text token)
  generalize slot db id = case at matched
  cases matched
  rfl

theorem Matches.lease (matched : Matches (slot db id) (.leased token expiry deliveries)) :
    zscore .leases id db = some expiry := by
  change (slot db id).lease = some expiry
  generalize slot db id = case at matched
  cases matched
  rfl

theorem Matches.leased_of_lease {item : Item Text} (matched : Matches (slot db id) item)
    (held : zscore .leases id db = some expiry) :
    ∃ token deliveries, item = .leased token expiry deliveries := by
  have inLeases : (slot db id).lease = some expiry := held
  generalize slot db id = case at matched inLeases
  cases matched with
  | ready => cases inLeases
  | leased =>
      cases inLeases
      exact ⟨_, _, rfl⟩
  | finished => cases inLeases

theorem Matches.waiting (matched : Matches (slot db id) (.ready deliveries)) :
    ∃ score, zscore .ready id db = some score := by
  change ∃ score, (slot db id).ready = some score
  generalize slot db id = case at matched
  cases matched with
  | @ready score => exact ⟨score, rfl⟩

end Fields

/-- An ID with a stored result is a finished case of the plan. -/
theorem Placed.finished {run : Run} {db : Db Text} (placed : Placed run db) {id : String}
    {value : Bulk Text} (stored : hget .results id db = some value) :
    id ∈ run.ids ∧ ∃ text, value = .doc text ∧ Matches (slot db id) (.finished text) := by
  have member : id ∈ run.ids := by
    apply placed.member_of_slot
    intro none
    have missing : hget .results id db = Option.none := congrArg Slot.result none
    rw [stored] at missing
    cases missing
  obtain ⟨item, matched⟩ := placed.cases id member
  have shown := matched.stored
  rw [stored] at shown
  cases item with
  | ready deliveries => cases shown
  | leased token expiry deliveries => cases shown
  | finished text =>
      cases shown
      exact ⟨member, text, rfl, matched⟩

end ApiSentinel
