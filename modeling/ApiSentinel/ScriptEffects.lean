import ApiSentinel.Lifecycle

/-!
# The effect of each script

One theorem for each script says everything that a call can do to a database
that satisfies the invariant of a run: which cases move, by which steps of the
lease protocol, and what the caller is told.
-/

namespace ApiSentinel

open Redis

variable {Text : Type} {codec : Codec Text} {run : Run} {db : Db Text}

/-! ### The pop loop -/

/-- What the pop loop can do to one case: leave it, or take it out of `ready` to
exhaust it or to deliver it under the number it then returns. -/
inductive PopMove (codec : Codec Text) (limit : Nat) (id token : String) (expiry : Int)
    (taken : Prop) : Item Text → Option Nat → Item Text → Prop
  | stay {item} (left : ¬ taken) : PopMove codec limit id token expiry taken item none item
  | exhaust {deliveries} (out : taken) (used : limit ≤ deliveries) :
      PopMove codec limit id token expiry taken (.ready deliveries) none
        (.finished (codec.encodeError id deliveries exhaustedMessage))
  | deliver {deliveries} (out : taken) (within : deliveries < limit) :
      PopMove codec limit id token expiry taken (.ready deliveries) (some (deliveries + 1))
        (.leased token expiry (deliveries + 1))

/-- The delivery number under which a case was handed out, if it was. -/
def numberOf (delivered : Option (String × Nat)) (id : String) : Option Nat :=
  delivered.bind (fun delivery => if delivery.1 = id then some delivery.2 else none)

/-- What the caller of `CLAIM` is told about a delivery. -/
def deliveryReply (codec : Codec Text) (run : Run) :
    Option (String × Nat) → Reply Text
  | none => .nil
  | some (id, number) => .job ((run.task codec id).map .doc) number

/-- A stretch of the pop loop, from `before` to its return. -/
structure Popping (codec : Codec Text) (run : Run) (token : String) (expiry : Int)
    (popped : List String) (delivered : Option (String × Nat)) (before after : Db Text) :
    Prop where
  samePlan : SamePlan before after
  expires : ExpiresAt run.expires after
  others : ∀ id ∉ run.ids, slot after id = slot before id
  planned : ∀ id number, delivered = some (id, number) → id ∈ run.ids
  moves : ∀ id ∈ run.ids, ∀ item, Matches (slot before id) item →
    ∃ next, Matches (slot after id) next ∧
      PopMove codec run.deliveries id token expiry (id ∈ popped) item
        (numberOf delivered id) next

theorem popping_touch {now : Int} (planned : Planned codec run db)
    (future : now < run.expires) (token : String) (expiry : Int) :
    Popping codec run token expiry [] none db (touch Key.own now db) where
  samePlan := samePlan_touch planned.expires_number future
  expires := expiresAt_touch planned.expires_number
  others id _ := slot_touch planned.expires_number future id
  planned := by simp
  moves id _ item matched := by
    refine ⟨item, ?_, .stay (by simp)⟩
    rwa [slot_touch planned.expires_number future]

/-- Taking an ID out of `ready` and counting the delivery. -/
def counting (id : String) (attempt : Int) (db : Db Text) : Db Text :=
  hset .attempts id (.num attempt) (zrem .ready id db)

theorem samePlan_counting (id : String) (attempt : Int) (db : Db Text) :
    SamePlan db (counting id attempt db) := by
  constructor <;> intro field <;> simp [counting]

/-- Counting a delivery that the case no longer has. -/
def exhausting (codec : Codec Text) (id : String) (attempt : Int) (db : Db Text) : Db Text :=
  hset .results id (.doc (codec.encodeError id (attempt - 1) exhaustedMessage))
    (counting id attempt db)

/-- Counting a delivery and leasing the case. -/
def delivering (id token : String) (attempt expiry : Int) (db : Db Text) : Db Text :=
  zadd .leases expiry id (hset .owners id (.text token) (counting id attempt db))

theorem samePlan_exhausting (codec : Codec Text) (id : String) (attempt : Int)
    (db : Db Text) : SamePlan db (exhausting codec id attempt db) := by
  constructor <;> intro field <;> simp [exhausting, counting]

theorem samePlan_delivering (id token : String) (attempt expiry : Int) (db : Db Text) :
    SamePlan db (delivering id token attempt expiry db) := by
  constructor <;> intro field <;> simp [delivering, counting]

theorem slot_exhausting (codec : Codec Text) (id other : String) (attempt : Int)
    (db : Db Text) :
    slot (exhausting codec id attempt db) other =
      if other = id then
        { slot db id with
          ready := none
          attempts := some (.num attempt)
          result := some (.doc (codec.encodeError id (attempt - 1) exhaustedMessage)) }
      else slot db other := by
  by_cases same : other = id
  · subst same
    simp [slot, exhausting, counting]
  · simp [slot, exhausting, counting, same]

theorem slot_delivering (id other token : String) (attempt expiry : Int) (db : Db Text) :
    slot (delivering id token attempt expiry db) other =
      if other = id then
        { slot db id with
          ready := none
          lease := some expiry
          owner := some (.text token)
          attempts := some (.num attempt) }
      else slot db other := by
  by_cases same : other = id
  · subst same
    simp [slot, delivering, counting]
  · simp [slot, delivering, counting, same]

theorem hincrby_counting {id : String} {deliveries : Nat}
    (count : hget .attempts id db = counted deliveries) :
    hincrby .attempts id 1 (zrem .ready id db) =
      ((deliveries : Int) + 1, counting id ((deliveries : Int) + 1) db) := by
  simp [hincrby, counting, count, counted_number]

section PopLoop

variable (now lease : Int) (token : String) {id : String} {deliveries : Nat}
variable (planned : Planned codec run db)
variable (pops : zpopmin .ready db = (some id, zrem .ready id db))
variable (count : hget .attempts id db = counted deliveries)
include planned pops count

theorem popLoop_exhaust (used : run.deliveries ≤ deliveries) (rounds : Nat) :
    popLoop Key.own codec now token lease (rounds + 1) db =
        popLoop Key.own codec now token lease rounds
          (exhausting codec id (deliveries + 1) db) ∧
      popped Key.own codec (rounds + 1) db =
        id :: popped Key.own codec rounds (exhausting codec id (deliveries + 1) db) := by
  have limit := (planned.of_samePlan
    (samePlan_counting id ((deliveries : Int) + 1) db)).deliveries_number
  have beyond : (deliveries : Int) + 1 > run.deliveries := by omega
  simp [popLoop, popped, exhausting, pops, hincrby_counting count, limit, beyond]

theorem popLoop_deliver (left : deliveries < run.deliveries) (rounds : Nat) :
    popLoop Key.own codec now token lease (rounds + 1) db =
        (.job (hget .tasks id (touch Key.own now (delivering id token (deliveries + 1)
            (now + lease) db))) ((deliveries : Int) + 1),
          touch Key.own now (delivering id token (deliveries + 1) (now + lease) db)) ∧
      popped Key.own codec (rounds + 1) db = [id] := by
  have limit := (planned.of_samePlan
    (samePlan_counting id ((deliveries : Int) + 1) db)).deliveries_number
  have within : ¬ (deliveries : Int) + 1 > run.deliveries := by omega
  simp [popLoop, popped, delivering, pops, hincrby_counting count, limit, within]

end PopLoop

/-- A slot that is in `ready` is a ready work item. -/
theorem ready_of_score {id : String} {score : Int} {item : Item Text}
    (matched : Matches (slot db id) item) (waiting : zscore .ready id db = some score) :
    ∃ deliveries, item = .ready deliveries ∧
      slot db id = ⟨some score, none, none, counted deliveries, none⟩ := by
  have inReady : (slot db id).ready = some score := waiting
  generalize slot db id = case at matched inReady
  cases matched with
  | ready =>
      cases inReady
      exact ⟨_, rfl, rfl⟩
  | leased => cases inReady
  | finished => cases inReady

theorem numberOf_self (id : String) (number : Nat) :
    numberOf (some (id, number)) id = some number := by
  simp [numberOf]

theorem numberOf_other {id other : String} (different : id ≠ other) (number : Nat) :
    numberOf (some (id, number)) other = none := by
  simp [numberOf, different]

theorem numberOf_none {delivered : Option (String × Nat)} {id : String}
    (other : ∀ number, delivered ≠ some (id, number)) : numberOf delivered id = none := by
  cases delivered with
  | none => rfl
  | some delivery =>
      exact numberOf_other (fun same => other delivery.2 (by rw [← same])) delivery.2

theorem finished_exhausting (codec : Codec Text) {id : String} {score : Int}
    {deliveries : Nat}
    (shape : slot db id = ⟨some score, none, none, counted deliveries, none⟩) :
    Matches (slot (exhausting codec id (deliveries + 1) db) id)
      (.finished (codec.encodeError id deliveries exhaustedMessage)) := by
  rw [slot_exhausting, if_pos rfl, shape]
  simpa using Matches.finished

section OneRound

variable {now : Int} {id : String} {score : Int} {deliveries : Nat}
variable (member : id ∈ run.ids)
variable (shape : slot db id = ⟨some score, none, none, counted deliveries, none⟩)
include member shape

theorem popping_deliver (planned : Planned codec run db) (future : now < run.expires)
    (left : deliveries < run.deliveries)
    (token : String) (expiry : Int) :
    Popping codec run token expiry [id] (some (id, deliveries + 1)) db
      (touch Key.own now (delivering id token (deliveries + 1) expiry db)) := by
  have plan := samePlan_delivering id token ((deliveries : Int) + 1) expiry db
  have stored := (planned.of_samePlan plan).expires_number
  refine ⟨plan.trans (samePlan_touch stored future), expiresAt_touch stored, ?_, ?_, ?_⟩
  · intro other absent
    have different : other ≠ id := fun same => absent (same ▸ member)
    rw [slot_touch stored future, slot_delivering, if_neg different]
  · rintro _ _ ⟨⟩
    exact member
  · intro other _ item matched
    rw [slot_touch stored future, slot_delivering]
    by_cases same : other = id
    · subst same
      rw [shape] at matched
      obtain rfl := matched.unique .ready
      rw [if_pos rfl, shape, numberOf_self]
      refine ⟨.leased token expiry (deliveries + 1), ?_, ?_⟩
      · rw [← counted_succ]
        exact .leased
      · exact .deliver (by simp) left
    · rw [if_neg same, numberOf_other (Ne.symm same)]
      exact ⟨item, matched, .stay (by simpa using same)⟩

theorem popping_exhaust (used : run.deliveries ≤ deliveries) {token : String} {expiry : Int}
    {later : List String} {delivered : Option (String × Nat)} {after : Db Text}
    (rest : Popping codec run token expiry later delivered
      (exhausting codec id (deliveries + 1) db) after) :
    Popping codec run token expiry (id :: later) delivered db after := by
  have plan := samePlan_exhausting codec id ((deliveries : Int) + 1) db
  refine ⟨plan.trans rest.samePlan, rest.expires, ?_, rest.planned, ?_⟩
  · intro other absent
    have different : other ≠ id := fun same => absent (same ▸ member)
    rw [rest.others other absent, slot_exhausting, if_neg different]
  · intro other otherMember item matched
    by_cases same : other = id
    · subst same
      rw [shape] at matched
      obtain rfl := matched.unique .ready
      obtain ⟨next, nextMatched, move⟩ :=
        rest.moves other otherMember _ (finished_exhausting codec shape)
      refine ⟨next, nextMatched, ?_⟩
      -- A finished case is left alone by the rest of the loop.
      generalize numberOf delivered other = number at move ⊢
      cases move with
      | stay => exact .exhaust (by simp) used
    · have kept : slot (exhausting codec id (deliveries + 1) db) other = slot db other := by
        rw [slot_exhausting, if_neg same]
      obtain ⟨next, nextMatched, move⟩ := rest.moves other otherMember item (kept ▸ matched)
      exact ⟨next, nextMatched, by simpa [same] using move⟩

end OneRound

/-- What the caller is told is the payload that was submitted for the case. -/
theorem reply_delivering {now : Int} (planned : Planned codec run db)
    (future : now < run.expires) (id token : String) (deliveries : Nat) (expiry : Int) :
    Reply.job (hget .tasks id (touch Key.own now (delivering id token (deliveries + 1) expiry db)))
        ((deliveries : Int) + 1) =
      deliveryReply codec run (some (id, deliveries + 1)) := by
  have plan := samePlan_delivering id token ((deliveries : Int) + 1) expiry db
  have stored := (planned.of_samePlan plan).expires_number
  simp only [deliveryReply, ← planned.tasks id,
    (plan.trans (samePlan_touch stored future)).tasks id]
  rfl

/-- The pop loop moves cases by exhausting and delivering them, and returns the
delivery if there was one. -/
theorem popLoop_popping {now : Int} (planned : Planned codec run db) (placed : Placed run db)
    (future : now < run.expires) (token : String) (lease : Int) (rounds : Nat) :
    ∃ delivered,
      (popLoop Key.own codec now token lease rounds db).1 =
        deliveryReply codec run delivered ∧
      Popping codec run token (now + lease) (popped Key.own codec rounds db) delivered db
        (popLoop Key.own codec now token lease rounds db).2 := by
  induction rounds generalizing db with
  | zero => exact ⟨none, rfl, popping_touch planned future token (now + lease)⟩
  | succ rounds ih =>
      rcases zpopmin_cases Key.ready db with ⟨noneReady, _⟩ | ⟨id, score, pops, waiting, _⟩
      · refine ⟨none, ?_, ?_⟩
        · simp [popLoop, noneReady, deliveryReply]
        · simpa [popLoop, popped, noneReady] using
            popping_touch planned future token (now + lease)
      · have member := placed.member_of_ready waiting
        obtain ⟨item, matched⟩ := placed.cases id member
        obtain ⟨deliveries, rfl, shape⟩ := ready_of_score matched waiting
        have count : hget .attempts id db = counted deliveries := congrArg Slot.attempts shape
        by_cases left : deliveries < run.deliveries
        · obtain ⟨loop, list⟩ := popLoop_deliver now lease token
            planned pops count left rounds
          refine ⟨some (id, deliveries + 1), ?_, ?_⟩
          · rw [loop]
            exact reply_delivering planned future id token deliveries (now + lease)
          · rw [loop, list]
            exact popping_deliver member shape planned future left token (now + lease)
        · have used := Nat.le_of_not_lt left
          obtain ⟨loop, list⟩ := popLoop_exhaust now lease token
            planned pops count used rounds
          have plan := samePlan_exhausting codec id ((deliveries : Int) + 1) db
          have kept := placed.of_move member (finished_exhausting codec shape)
            (fun other different => by rw [slot_exhausting, if_neg different])
          obtain ⟨delivered, reply, rest⟩ := ih (planned.of_samePlan plan) kept
          rw [loop, list]
          exact ⟨delivered, reply, popping_exhaust member shape used rest⟩

/-! ### `CLAIM` -/

/-- What the reclaim loop does to one case. -/
inductive LapseMove (now : Int) (due : Prop) : Item Text → Item Text → Prop
  | stay {item} (running : ¬ due) : LapseMove now due item item
  | lapse {token expiry deliveries} (listed : due) (reached : expiry ≤ now) :
      LapseMove now due (.leased token expiry deliveries) (.ready deliveries)

/-- The database that the reclaim loop hands to the pop loop. -/
def reclaimed (now : Int) (db : Db Text) : Db Text :=
  (expired Key.own now db).foldl (reclaim Key.own) db

theorem reclaimed_move (now : Int) (id : String)
    (item : Item Text) (matched : Matches (slot db id) item) :
    ∃ next, Matches (slot (reclaimed now db) id) next ∧
      LapseMove now (id ∈ expired Key.own now db) item next := by
  rw [reclaimed, slot_foldl_reclaim]
  by_cases listed : id ∈ expired Key.own now db
  · obtain ⟨expiry, lease, reached⟩ := mem_zrangebyscore listed
    have inLeases : (slot db id).lease = some expiry := lease
    rw [if_pos listed]
    generalize slot db id = case at matched inLeases
    cases matched with
    | ready => cases inLeases
    | leased =>
        cases inLeases
        exact ⟨_, .ready, .lapse listed reached⟩
    | finished => cases inLeases
  · rw [if_neg listed]
    exact ⟨item, matched, .stay listed⟩

theorem Placed.not_expired (placed : Placed run db) {id : String} (absent : id ∉ run.ids)
    (now : Int) : id ∉ expired Key.own now db := by
  intro listed
  obtain ⟨expiry, lease, _⟩ := mem_zrangebyscore listed
  have noLease : zscore .leases id db = none :=
    congrArg Slot.lease (placed.others id absent)
  rw [Key.own_eq, noLease] at lease
  cases lease

theorem placed_reclaimed (placed : Placed run db) (now : Int) :
    Placed run (reclaimed now db) where
  cases id member := by
    obtain ⟨item, matched⟩ := placed.cases id member
    obtain ⟨next, nextMatched, _⟩ := reclaimed_move now id item matched
    exact ⟨next, nextMatched⟩
  others id absent := by
    rw [reclaimed, slot_foldl_reclaim, if_neg (placed.not_expired absent now),
      placed.others id absent]

/-- The IDs that a call of `CLAIM` takes out of `ready`. -/
def claimPops (codec : Codec Text) (now : Int) (db : Db Text) : List String :=
  popped Key.own codec 100 (reclaimed now db)

/-- Everything that `CLAIM` can do to an active run. -/
structure Claiming (codec : Codec Text) (run : Run) (now : Int) (token : String)
    (expiry : Int) (delivered : Option (String × Nat)) (before after : Db Text) : Prop where
  samePlan : SamePlan before after
  inv : Inv codec run after
  planned : ∀ id number, delivered = some (id, number) → id ∈ run.ids
  moves : ∀ id ∈ run.ids, ∀ item, Matches (slot before id) item →
    ∃ middle next, Matches (slot after id) next ∧
      LapseMove now (id ∈ expired Key.own now before) item middle ∧
      PopMove codec run.deliveries id token expiry (id ∈ claimPops codec now before) middle
        (numberOf delivered id) next

theorem claim_claiming {now : Int} (inv : Inv codec run db)
    (isActive : active Key.own now db = true) (token : String) (lease : Int) :
    ∃ delivered,
      (claim Key.own codec now token lease db).1 = deliveryReply codec run delivered ∧
      Claiming codec run now token (now + lease) delivered db
        (claim Key.own codec now token lease db).2 := by
  have early := ((inv.planned.active_iff now).mp isActive).2
  have plan : SamePlan db (reclaimed now db) := samePlan_foldl_reclaim _ db
  obtain ⟨delivered, reply, pops⟩ := popLoop_popping (inv.planned.of_samePlan plan)
    (placed_reclaimed inv.placed now) (early.trans run.deadline_lt) token lease 100
  have unfolded : claim Key.own codec now token lease db =
      popLoop Key.own codec now token lease 100 (reclaimed now db) := by
    rw [claim, if_pos isActive, reclaimed]
  rw [unfolded]
  have moves : ∀ id ∈ run.ids, ∀ item, Matches (slot db id) item →
      ∃ middle next, Matches
          (slot (popLoop Key.own codec now token lease 100 (reclaimed now db)).2 id) next ∧
        LapseMove now (id ∈ expired Key.own now db) item middle ∧
        PopMove codec run.deliveries id token (now + lease) (id ∈ claimPops codec now db)
          middle (numberOf delivered id) next := by
    intro id member item matched
    obtain ⟨middle, middleMatched, lapse⟩ := reclaimed_move now id item matched
    obtain ⟨next, nextMatched, pop⟩ := pops.moves id member middle middleMatched
    exact ⟨middle, next, nextMatched, lapse, pop⟩
  refine ⟨delivered, reply, plan.trans pops.samePlan,
    ⟨inv.planned.of_samePlan (plan.trans pops.samePlan), ⟨?_, ?_⟩, pops.expires⟩,
    pops.planned, moves⟩
  · intro id member
    obtain ⟨item, matched⟩ := inv.placed.cases id member
    obtain ⟨_, next, nextMatched, _⟩ := moves id member item matched
    exact ⟨next, nextMatched⟩
  · intro id absent
    rw [pops.others id absent]
    exact (placed_reclaimed inv.placed now).others id absent

theorem claim_inactive (codec : Codec Text) {now : Int} (inactive : active Key.own now db = false)
    (token : String) (lease : Int) :
    claim Key.own codec now token lease db = (.nil, db) := by
  simp [claim, inactive]

/-! ### `RENEW` and `COMPLETE` -/

/-- The scripts' test for a live lease is the work item's. -/
theorem holds_iff {now : Int} (placed : Placed run db) (id token : String) :
    holds Key.own now id token db = true ↔
      active Key.own now db = true ∧ id ∈ run.ids ∧
        ∃ expiry deliveries, Matches (slot db id) (.leased token expiry deliveries) ∧
          now < expiry := by
  have shown : holds Key.own now id token db = true ↔
      (active Key.own now db = true ∧
        ((slot db id).owner.bind Bulk.text? = some token)) ∧
        now < (slot db id).lease.getD 0 := by
    simp only [holds, Bool.and_eq_true, beq_iff_eq, decide_eq_true_eq]
    rfl
  rw [shown, and_assoc]
  apply and_congr_right
  intro _
  by_cases member : id ∈ run.ids
  · obtain ⟨item, matched⟩ := placed.cases id member
    generalize slot db id = case at matched
    constructor
    · rintro ⟨owner, live⟩
      cases matched with
      | ready => cases owner
      | leased =>
          cases owner
          exact ⟨member, _, _, .leased, live⟩
      | finished => cases owner
    · rintro ⟨_, expiry, deliveries, leased, live⟩
      obtain rfl := matched.unique leased
      cases leased
      exact ⟨rfl, live⟩
  · simp [placed.others id member, Slot.empty, member]

theorem holds_active {now : Int} {id token : String}
    (held : holds Key.own now id token db = true) : active Key.own now db = true := by
  rw [holds, Bool.and_eq_true, Bool.and_eq_true] at held
  exact held.1.1

theorem slot_renew (expiry : Int) (id other : String) (db : Db Text) :
    slot (zadd .leases expiry id db) other =
      if other = id then { slot db id with lease := some expiry } else slot db other := by
  by_cases same : other = id
  · subst same
    simp [slot]
  · simp [slot, same]

theorem samePlan_renew (expiry : Int) (id : String) (db : Db Text) :
    SamePlan db (zadd .leases expiry id db) := by
  constructor <;> intro field <;> simp

/-- The writes of `COMPLETE`. -/
def completing (id : String) (result : Text) (db : Db Text) : Db Text :=
  zrem .leases id (hdel .owners id (hset .results id (.doc result) db))

theorem slot_completing (id other : String) (result : Text) (db : Db Text) :
    slot (completing id result db) other =
      if other = id then
        { slot db id with lease := none, owner := none, result := some (.doc result) }
      else slot db other := by
  by_cases same : other = id
  · subst same
    simp [slot, completing]
  · simp [slot, completing, same]

theorem samePlan_completing (id : String) (result : Text) (db : Db Text) :
    SamePlan db (completing id result db) := by
  constructor <;> intro field <;> simp [completing]

/-- What an accepted `RENEW` or `COMPLETE` does: the case leaves the live lease of
the token for another item, and nothing else of the run changes. -/
structure LeaseWrite (codec : Codec Text) (run : Run) (now : Int) (id token : String)
    (next : Nat → Item Text) (before after : Db Text) : Prop where
  samePlan : SamePlan before after
  inv : Inv codec run after
  moves : ∃ expiry deliveries, now < expiry ∧
    Matches (slot before id) (.leased token expiry deliveries) ∧
    Matches (slot after id) (next deliveries)
  others : ∀ other, other ≠ id → slot after other = slot before other

/-- A write to one leased case, followed by `touch`. -/
theorem leaseWrite_touch {now : Int} {id token : String} {next : Nat → Item Text}
    {after : Db Text} (inv : Inv codec run db)
    (held : holds Key.own now id token db = true) (plan : SamePlan db after)
    (moved : ∀ expiry deliveries, Matches (slot db id) (.leased token expiry deliveries) →
      Matches (slot after id) (next deliveries))
    (kept : ∀ other, other ≠ id → slot after other = slot db other) :
    LeaseWrite codec run now id token next db (touch Key.own now after) := by
  obtain ⟨isActive, member, expiry, deliveries, leased, live⟩ :=
    (holds_iff inv.placed id token).mp held
  have early := ((inv.planned.active_iff now).mp isActive).2
  have future := early.trans run.deadline_lt
  have planned := inv.planned.of_samePlan plan
  have touched := samePlan_touch planned.expires_number future
  have slots := slot_touch planned.expires_number future
  have arrived := moved expiry deliveries leased
  have placed := inv.placed.of_move member arrived kept
  refine ⟨plan.trans touched,
    ⟨planned.of_samePlan touched, placed.of_slots slots, expiresAt_touch planned.expires_number⟩,
    ⟨expiry, deliveries, live, leased, ?_⟩, ?_⟩
  · rw [slots]
    exact arrived
  · intro other different
    rw [slots]
    exact kept other different

theorem renew_accepted {now : Int} (inv : Inv codec run db) {id token : String}
    (held : holds Key.own now id token db = true) (lease : Int) :
    (renew Key.own now id token lease db).1 = .int 1 ∧
      LeaseWrite codec run now id token (.leased token (now + lease)) db
        (renew Key.own now id token lease db).2 := by
  have unfolded : renew Key.own now id token lease db =
      (.int 1, touch Key.own now (zadd .leases (now + lease) id db)) := by
    rw [renew, if_pos held]
    rfl
  rw [unfolded]
  refine ⟨rfl, leaseWrite_touch inv held (samePlan_renew _ id db) ?_ ?_⟩
  · intro expiry deliveries leased
    rw [slot_renew, if_pos rfl]
    generalize slot db id = case at leased ⊢
    cases leased
    exact .leased
  · intro other different
    rw [slot_renew, if_neg different]

theorem renew_refused {now : Int} {id token : String}
    (refused : holds Key.own now id token db = false) (lease : Int) :
    renew Key.own now id token lease db = (.int 0, db) := by
  simp [renew, refused]

/-- A leased case has no result, so `COMPLETE` accepts whatever `RENEW` would. -/
theorem not_hexists_of_leased {id token : String} {expiry : Int} {deliveries : Nat}
    (leased : Matches (slot db id) (.leased token expiry deliveries)) :
    hexists .results id db = false := by
  have noResult : (slot db id).result = none := by
    generalize slot db id = case at leased ⊢
    cases leased
    rfl
  simpa [hexists, slot] using noResult

theorem complete_accepted {now : Int} (inv : Inv codec run db) {id token : String}
    (held : holds Key.own now id token db = true) (result : Text) :
    (complete Key.own now id token result db).1 = .int 1 ∧
      LeaseWrite codec run now id token (fun _ => .finished result) db
        (complete Key.own now id token result db).2 := by
  obtain ⟨_, _, expiry, deliveries, leased, _⟩ := (holds_iff inv.placed id token).mp held
  have unfolded : complete Key.own now id token result db =
      (.int 1, touch Key.own now (completing id result db)) := by
    have fresh := not_hexists_of_leased leased
    simp [complete, completing, held, fresh]
  rw [unfolded]
  refine ⟨rfl, leaseWrite_touch inv held (samePlan_completing id result db) ?_ ?_⟩
  · intro expiry deliveries leased
    rw [slot_completing, if_pos rfl]
    generalize slot db id = case at leased ⊢
    cases leased
    exact .finished
  · intro other different
    rw [slot_completing, if_neg different]

theorem complete_refused {now : Int} {id token : String}
    (refused : holds Key.own now id token db = false) (result : Text) :
    complete Key.own now id token result db = (.int 0, db) := by
  simp [complete, refused]

/-! ### `CLOSE` and a repeated `CREATE` -/

theorem slot_closed (id : String) (db : Db Text) :
    slot (hset .metadata "state" (.text "closed") db) id = slot db id := by
  simp [slot]

theorem exists_metadata (planned : Planned codec run db) :
    exists? Key.metadata db = true := by
  cases held : db .metadata with
  | none =>
      have deadline := planned.deadline
      simp [hget, hashAt, held] at deadline
  | some entry => simp [exists?, held]

theorem Inv.ne_empty (inv : Inv codec run db) : db ≠ empty := by
  rintro rfl
  have present := exists_metadata inv.planned
  cases present

theorem close_effect (inv : Inv codec run db) :
    (close Key.own db).1 = .int 1 ∧
      Inv codec run (close Key.own db).2 ∧
      hget .metadata "state" (close Key.own db).2 = some (.text "closed") ∧
      ∀ id, slot (close Key.own db).2 id = slot db id := by
  have present := exists_metadata inv.planned
  have unfolded : close Key.own db =
      (.int 1, hset .metadata "state" (.text "closed") db) := by
    rw [close, if_pos (by simpa using present)]
    rfl
  rw [unfolded]
  refine ⟨rfl, ⟨?_, inv.placed.of_slots (slot_closed · db), ?_⟩, by simp, (slot_closed · db)⟩
  · exact ⟨by simp, by simpa using inv.planned.deadline, by simpa using inv.planned.expires,
      by simpa using inv.planned.deliveries, by simpa using inv.planned.tasks⟩
  · exact expiresAt_store inv.expiry present

theorem create_refused {now : Int} (planned : Planned codec run db)
    (args : CreateArgs Text) : create Key.own now args db = (.int 0, db) := by
  have present := exists_metadata planned
  rw [create, if_pos (by simpa using present)]

end ApiSentinel
