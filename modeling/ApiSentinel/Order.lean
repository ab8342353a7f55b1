import ApiSentinel.Accounting

/-!
# The order of the claims

`ready` is ordered by score: a case that waits for its first delivery has its
position in the suite as its score, and a case that was taken back has score 0.
A first delivery therefore happens in the order of the suite, and only once nothing
that was taken back is left.
-/

namespace ApiSentinel

open Redis

variable {Text : Type} {codec : Codec Text} {run : Run} {db : Db Text}

/-! ### Scores -/

/-- A case that waits for its first delivery at a position of the suite. -/
def Slot.fresh (index : Nat) : Slot Text := ⟨some ((index : Int) + 1), none, none, none, none⟩

theorem matches_fresh (index : Nat) : Matches (@Slot.fresh Text index) (.ready 0) :=
  @Matches.ready Text _ 0

/-- A case that has been delivered: if it waits again, then with score 0. -/
structure Slot.Delivered (case : Slot Text) : Prop where
  attempts : case.attempts ≠ none
  ready : ∀ score, case.ready = some score → score = 0

/-- The first cases of the suite have been delivered, and all others wait for their
first delivery in the order of the suite. -/
structure Ranked (run : Run) (count : Nat) (db : Db Text) : Prop where
  delivered : ∀ id ∈ run.ids.take count, (slot db id).Delivered
  fresh : ∀ index id, run.ids[index]? = some id → count ≤ index → slot db id = .fresh index

theorem Ranked.of_slots {count : Nat} {before after : Db Text} (ranked : Ranked run count before)
    (same : ∀ id, slot after id = slot before id) : Ranked run count after where
  delivered id member := by simpa only [same] using ranked.delivered id member
  fresh index id position later := by
    rw [same]
    exact ranked.fresh index id position later

/-- Every case is on one of the two sides. -/
theorem Ranked.sides {count : Nat} (ranked : Ranked run count db) {id : String}
    (member : id ∈ run.ids) :
    (id ∈ run.ids.take count ∧ (slot db id).Delivered) ∨
      ∃ index, count ≤ index ∧ run.ids[index]? = some id ∧ slot db id = .fresh index := by
  obtain ⟨index, position⟩ := List.mem_iff_getElem?.mp member
  by_cases early : index < count
  · have taken : id ∈ run.ids.take count :=
      List.mem_iff_getElem?.mpr ⟨index, by rw [List.getElem?_take_of_lt early, position]⟩
    exact .inl ⟨taken, ranked.delivered id taken⟩
  · have later := Nat.le_of_not_lt early
    exact .inr ⟨index, later, position, ranked.fresh index id position later⟩

/-- Moving a case that has been delivered before. -/
theorem Ranked.of_move {count : Nat} {before after : Db Text} (ranked : Ranked run count before)
    {id : String} (old : (slot before id).attempts ≠ none) (moved : (slot after id).Delivered)
    (kept : ∀ other, other ≠ id → slot after other = slot before other) :
    Ranked run count after where
  delivered other member := by
    by_cases same : other = id
    · rwa [same]
    · rw [kept other same]
      exact ranked.delivered other member
  fresh index other position later := by
    have waiting := ranked.fresh index other position later
    by_cases same : other = id
    · rw [same] at waiting
      exact (old (congrArg Slot.attempts waiting)).elim
    · rw [kept other same, waiting]

/-! ### The start of a run -/

section Enqueue

variable {cases : List (String × Text)}

theorem ready_enqueue {index position : Nat} {entry : String × Text} {db : Db Text}
    (nodup : (cases.map Prod.fst).Nodup) (placed : cases[position]? = some entry) :
    (slot (enqueue Key.own index cases db) entry.1).ready =
      some ((index + position : Nat) : Int) := by
  induction cases generalizing index position db with
  | nil => cases placed
  | cons head rest ih =>
      obtain ⟨unlisted, nodup⟩ := List.nodup_cons.mp nodup
      have unfolded : enqueue Key.own (index : Int) (head :: rest) db =
          enqueue Key.own ((index + 1 : Nat) : Int) rest
            (zadd .ready index head.1 (hset .tasks head.1 (.doc head.2) db)) := by
        rw [Nat.cast_add, Nat.cast_one]
        rfl
      rw [unfolded]
      cases position with
      | zero =>
          cases placed
          obtain ⟨score, later⟩ := slot_enqueue ((index + 1 : Nat) : Int) rest
            (zadd .ready index entry.1 (hset .tasks entry.1 (.doc entry.2) db)) entry.1
          rw [later, if_neg unlisted, slot_entering, if_pos rfl]
          rfl
      | succ position =>
          rw [ih nodup placed, Nat.add_right_comm, Nat.add_assoc]

end Enqueue

theorem ranked_start {micros : Int} {submission : Submission} {start : Db Text}
    (started : Started codec micros submission start) :
    ∃ timed : submission.Timed, Ranked (submission.run timed (millis micros)) 0 start := by
  obtain ⟨timed, rfl⟩ := started.create_empty
  have future := lt_of_le_of_lt (submission.deadline_ge timed (millis micros))
    (submission.run timed (millis micros)).deadline_lt
  have stored := (planned_creating codec timed (millis micros)).expires_number
  refine ⟨timed, by simp, ?_⟩
  intro index id position _
  have listed : id ∈ submission.suite.cases.map Case.id := List.mem_of_getElem? position
  obtain ⟨case, held, rfl⟩ : ∃ case, submission.suite.cases[index]? = some case ∧ case.id = id := by
    rw [← Option.map_eq_some_iff, ← List.getElem?_map]
    exact position
  have entry : (submission.cases codec)[index]? = some (case.id, codec.dumpCase case) := by
    rw [Submission.cases, List.getElem?_map, held]
    rfl
  have nodup : ((submission.cases codec).map Prod.fst).Nodup := by
    rw [Submission.ids_cases]
    exact submission.suite.unique_ids
  obtain ⟨score, shape⟩ := slot_creating codec (millis micros) submission case.id
  rw [if_pos listed] at shape
  have ready : (slot (creating codec (millis micros) submission) case.id).ready =
      some ((1 + index : Nat) : Int) :=
    @ready_enqueue _ _ 1 index _ _ nodup entry
  rw [shape] at ready
  obtain rfl := Option.some.inj ready
  rw [create_empty, slot_touch stored future, shape, Nat.add_comm]
  rfl

/-! ### One claim -/

/-- The ID of a delivery that carries number 1. -/
def debut (delivered : Option (String × Nat)) : Option String :=
  delivered.bind (fun delivery => if delivery.2 = 1 then some delivery.1 else none)

theorem delivered_of_debut {delivered : Option (String × Nat)} {id : String}
    (first : debut delivered = some id) : delivered = some (id, 1) := by
  obtain ⟨⟨other, number⟩, rfl, handed⟩ := Option.bind_eq_some_iff.mp first
  by_cases one : number = 1
  · rw [if_pos one] at handed
    cases handed
    rw [one]
  · rw [if_neg one] at handed
    cases handed

/-- What a call does to the order: it hands out no case for the first time, or the
next one of the suite, with no case left in `ready` that has been delivered. -/
inductive Served (run : Run) (count : Nat) (after : Db Text) : Option String → Prop
  | again (ranked : Ranked run count after) : Served run count after none
  | first {id} (next : run.ids[count]? = some id) (ranked : Ranked run (count + 1) after)
      (empty : ∀ other ∈ run.ids.take (count + 1), (slot after other).ready = none) :
      Served run count after (some id)

theorem Slot.Delivered.reclaimed {case : Slot Text} (delivered : case.Delivered) :
    case.reclaimed.Delivered where
  attempts := delivered.attempts
  ready score waiting := by
    cases done : case.result.isSome with
    | true => exact delivered.ready score (by simpa [Slot.reclaimed, done] using waiting)
    | false => simpa [Slot.reclaimed, done, eq_comm] using waiting

theorem Ranked.reclaimed {count : Nat} (ranked : Ranked run count db) (now : Int) :
    Ranked run count (reclaimed now db) where
  delivered id member := by
    rw [ApiSentinel.reclaimed, slot_foldl_reclaim]
    split
    · exact (ranked.delivered id member).reclaimed
    · exact ranked.delivered id member
  fresh index id position later := by
    have waiting := ranked.fresh index id position later
    rw [ApiSentinel.reclaimed, slot_foldl_reclaim, if_neg, waiting]
    intro listed
    obtain ⟨expiry, held, _⟩ := mem_zrangebyscore listed
    have lease : (slot db id).lease = some expiry := held
    rw [waiting] at lease
    cases lease

theorem delivered_delivering (id token : String) (attempt expiry : Int) (db : Db Text) :
    (slot (delivering id token attempt expiry db) id).Delivered := by
  rw [slot_delivering, if_pos rfl]
  exact ⟨by simp, by simp⟩

section Least

variable {count index : Nat} {id : String} {score : Int} (ranked : Ranked run count db)
  (least : ∀ other otherScore, zscore .ready other db = some otherScore →
    rank ⟨id, score⟩ ≤ rank ⟨other, otherScore⟩)
include ranked least

/-- A case that waits for its first delivery and has the least rank is the next one of
the suite. -/
theorem Ranked.first_popped {deliveries : Nat} (position : run.ids[index]? = some id)
    (later : count ≤ index) (fresh : slot db id = .fresh index)
    (shape : slot db id = ⟨some score, none, none, counted deliveries, none⟩) :
    index = count ∧ deliveries = 0 := by
  have same := fresh.symm.trans shape
  have placed : (index : Int) + 1 = score := Option.some.inj (congrArg Slot.ready same)
  have none : @counted Text 0 = counted deliveries := congrArg Slot.attempts same
  have within : count < run.ids.length :=
    lt_of_le_of_lt later (List.getElem?_eq_some_iff.mp position).1
  have next := ranked.fresh count _ (List.getElem?_eq_getElem within) (le_refl count)
  have waiting : zscore .ready run.ids[count] db = some ((count : Int) + 1) :=
    congrArg Slot.ready next
  refine ⟨?_, (counted_injective none).symm⟩
  rcases (rank_le_iff _ _).mp (least _ _ waiting) with below | ⟨equal, _⟩
  · change score < (count : Int) + 1 at below
    omega
  · change score = (count : Int) + 1 at equal
    omega

/-- Nothing that was taken back is left when a case that waits for its first delivery
has the least rank. -/
theorem Ranked.ready_none_of_fresh (fresh : slot db id = .fresh index)
    (waiting : zscore .ready id db = some score) {other : String}
    (taken : other ∈ run.ids.take count) : (slot db other).ready = none := by
  have placed : some score = some ((index : Int) + 1) :=
    waiting.symm.trans (congrArg Slot.ready fresh)
  obtain rfl := Option.some.inj placed
  cases held : (slot db other).ready with
  | none => rfl
  | some otherScore =>
      obtain rfl := (ranked.delivered other taken).ready otherScore held
      rcases (rank_le_iff _ _).mp (least other 0 held) with below | ⟨equal, _⟩
      · change (index : Int) + 1 < 0 at below
        omega
      · change (index : Int) + 1 = 0 at equal
        omega

end Least

theorem mem_take_of_succ {ids : List String} {count : Nat} {id other : String}
    (next : ids[count]? = some id) (taken : other ∈ ids.take (count + 1))
    (different : other ≠ id) : other ∈ ids.take count := by
  rw [List.take_add_one, next] at taken
  rcases List.mem_append.mp taken with before | last
  · exact before
  · exact (different (List.mem_singleton.mp last)).elim

/-- Delivering the next case of the suite. -/
theorem Ranked.deliver_next {count : Nat} {before after : Db Text} {id : String}
    (ranked : Ranked run count before) (next : run.ids[count]? = some id)
    (moved : (slot after id).Delivered)
    (kept : ∀ other, other ≠ id → slot after other = slot before other) :
    Ranked run (count + 1) after where
  delivered other taken := by
    by_cases same : other = id
    · rwa [same]
    · rw [kept other same]
      exact ranked.delivered other (mem_take_of_succ next taken same)
  fresh index other position later := by
    have different : other ≠ id := by
      rintro rfl
      have within := (List.getElem?_eq_some_iff.mp position).1
      have unique : index = count :=
        (List.getElem?_inj within run.suite.unique_ids).mp (position.trans next.symm)
      omega
    rw [kept other different]
    exact ranked.fresh index other position (Nat.le_of_succ_le later)

/-- The pop loop serves the cases that were taken back before it serves the next
case of the suite. -/
theorem popLoop_served {now : Int} {count : Nat} (planned : Planned codec run db)
    (placed : Placed run db) (ranked : Ranked run count db) (positive : 0 < run.deliveries)
    (future : now < run.expires) (token : String) (lease : Int) (rounds : Nat) :
    ∃ delivered,
      (popLoop Key.own codec now token lease rounds db).1 = deliveryReply codec run delivered ∧
      (∀ id number, delivered = some (id, number) → id ∈ run.ids) ∧
      Served run count (popLoop Key.own codec now token lease rounds db).2 (debut delivered) := by
  have idle : Served run count (touch Key.own now db) none :=
    .again (ranked.of_slots (slot_touch planned.expires_number future))
  induction rounds generalizing db with
  | zero => exact ⟨none, rfl, by simp, idle⟩
  | succ rounds ih =>
      rcases zpopmin_cases Key.ready db with ⟨noneReady, _⟩ | ⟨id, score, pops, waiting, least⟩
      · refine ⟨none, ?_, by simp, ?_⟩
        · simp [popLoop, noneReady, deliveryReply]
        · rw [popLoop, Key.own_eq, noneReady]
          exact idle
      · have member := placed.member_of_ready waiting
        obtain ⟨item, matched⟩ := placed.cases id member
        obtain ⟨deliveries, rfl, shape⟩ := ready_of_score matched waiting
        have counts : hget .attempts id db = counted deliveries := congrArg Slot.attempts shape
        have told := reply_delivering planned future id token deliveries (now + lease)
        have plan := samePlan_delivering id token ((deliveries : Int) + 1) (now + lease) db
        have stored := (planned.of_samePlan plan).expires_number
        rcases ranked.sides member with ⟨taken, old⟩ | ⟨index, later, position, fresh⟩
        · by_cases left : deliveries < run.deliveries
          · obtain ⟨loop, _⟩ := popLoop_deliver now lease token planned pops counts left rounds
            refine ⟨some (id, deliveries + 1), by rw [loop, told], ?_, ?_⟩
            · rintro _ _ ⟨⟩
              exact member
            · have repeated : debut (some (id, deliveries + 1)) = none := by
                have delivered : deliveries ≠ 0 := by
                  rintro rfl
                  exact old.attempts counts
                simp [debut, delivered]
              rw [loop, repeated]
              refine .again (Ranked.of_slots ?_ (slot_touch stored future))
              exact ranked.of_move old.attempts (delivered_delivering id token _ _ db)
                (fun other different => by rw [slot_delivering, if_neg different])
          · have used := Nat.le_of_not_lt left
            obtain ⟨loop, _⟩ := popLoop_exhaust now lease token planned pops counts used rounds
            have plan := samePlan_exhausting codec id ((deliveries : Int) + 1) db
            have kept : ∀ other, other ≠ id →
                slot (exhausting codec id (deliveries + 1) db) other = slot db other :=
              fun other different => by rw [slot_exhausting, if_neg different]
            have exhausted : Ranked run count (exhausting codec id (deliveries + 1) db) := by
              refine ranked.of_move old.attempts ?_ kept
              rw [slot_exhausting, if_pos rfl]
              exact ⟨by simp, by simp⟩
            have planned := planned.of_samePlan plan
            rw [loop]
            exact ih planned (placed.of_move member (finished_exhausting codec shape) kept)
              exhausted (.again (exhausted.of_slots (slot_touch planned.expires_number future)))
        · obtain ⟨rfl, rfl⟩ := ranked.first_popped least position later fresh shape
          obtain ⟨loop, _⟩ := popLoop_deliver now lease token planned pops counts positive rounds
          refine ⟨some (id, 1), by rw [loop, told], ?_, ?_⟩
          · rintro _ _ ⟨⟩
            exact member
          · rw [loop]
            refine .first position (Ranked.of_slots ?_ (slot_touch stored future)) ?_
            · exact ranked.deliver_next position (delivered_delivering id token _ _ db)
                (fun other different => by rw [slot_delivering, if_neg different])
            · intro other taken
              rw [slot_touch stored future, slot_delivering]
              by_cases same : other = id
              · rw [if_pos same]
              · rw [if_neg same]
                exact ranked.ready_none_of_fresh least fresh waiting
                  (mem_take_of_succ position taken same)

theorem claim_served {now : Int} {count : Nat} (inv : Inv codec run db)
    (ranked : Ranked run count db) (positive : 0 < run.deliveries)
    (isActive : active Key.own now db = true) (token : String) (lease : Int) :
    ∃ delivered,
      (claim Key.own codec now token lease db).1 = deliveryReply codec run delivered ∧
      (∀ id number, delivered = some (id, number) → id ∈ run.ids) ∧
      Served run count (claim Key.own codec now token lease db).2 (debut delivered) := by
  have early := ((inv.planned.active_iff now).mp isActive).2
  have plan : SamePlan db (reclaimed now db) := samePlan_foldl_reclaim _ db
  rw [claim, if_pos isActive]
  exact popLoop_served (inv.planned.of_samePlan plan) (placed_reclaimed inv.placed now)
    (ranked.reclaimed now) positive (early.trans run.deadline_lt) token lease 100

/-! ### One call -/

/-- The ID that a call handed out with delivery number 1. -/
def Record.first (codec : Codec Text) (record : Record Text) : Option String :=
  (record.job? codec).bind (fun job => if job.delivery = 1 then some job.case.id else none)

theorem first_claim {record : Record Text} {token : String} {lease : Int}
    {delivered : Option (String × Nat)} (called : record.call = .claim token lease)
    (replied : record.reply = deliveryReply codec run delivered)
    (planned : ∀ id number, delivered = some (id, number) → id ∈ run.ids) :
    record.first codec = debut delivered := by
  rw [Record.first, job?_claim called replied]
  cases delivered with
  | none => rfl
  | some delivery =>
      obtain ⟨case, found, same⟩ := Run.case?_of_mem (planned delivery.1 delivery.2 rfl)
      simp [debut, found, same]

/-- A call that did nothing handed nothing out. -/
theorem first_silent {record : Record Text} (silent : ∀ id, record.events codec id = []) :
    record.first codec = none := by
  cases handed : record.job? codec with
  | none => rw [Record.first, handed]; rfl
  | some job =>
      have numbers := @numbers_events _ codec job.case.id record
      rw [silent, Record.attempt, handed] at numbers
      simp [Lease.History.numbers] at numbers

section Call

variable {now : Int} {count : Nat} (inv : Inv codec run db) (ranked : Ranked run count db)
include inv ranked

/-- Only a case that has been delivered can be renewed or completed. -/
theorem Ranked.delivered_of_holds {id token : String}
    (held : holds Key.own now id token db = true) : (slot db id).Delivered := by
  obtain ⟨_, member, expiry, deliveries, leased, _⟩ := (holds_iff inv.placed id token).mp held
  rcases ranked.sides member with ⟨_, old⟩ | ⟨index, _, _, fresh⟩
  · exact old
  · have lease : (slot db id).lease = some expiry := leased.lease
    rw [fresh] at lease
    cases lease

/-- A write to one leased case, followed by `touch`. -/
theorem Ranked.write {id token : String} {after : Db Text}
    (held : holds Key.own now id token db = true) (plan : SamePlan db after)
    (moved : (slot db id).Delivered → (slot after id).Delivered)
    (kept : ∀ other, other ≠ id → slot after other = slot db other) :
    Ranked run count (touch Key.own now after) := by
  have old := ranked.delivered_of_holds inv held
  have early := ((inv.planned.active_iff now).mp (holds_active held)).2
  have stored := (inv.planned.of_samePlan plan).expires_number
  refine Ranked.of_slots ?_ (slot_touch stored (early.trans run.deadline_lt))
  exact ranked.of_move old.attempts (moved old) kept

theorem Ranked.renew (id token : String) (lease : Int) :
    Ranked run count (renew Key.own now id token lease db).2 := by
  cases held : holds Key.own now id token db with
  | false => rwa [renew_refused held]
  | true =>
      rw [ApiSentinel.renew, if_pos held]
      refine ranked.write inv held (samePlan_renew (now + lease) id db) ?_
        (fun other different => (slot_renew _ id other db).trans (if_neg different))
      intro old
      rw [Key.own_eq, slot_renew, if_pos rfl]
      exact ⟨old.attempts, old.ready⟩

theorem Ranked.complete (id token : String) (result : Text) :
    Ranked run count (complete Key.own now id token result db).2 := by
  rw [ApiSentinel.complete]
  split
  · next held =>
      change Ranked run count (touch Key.own now (completing id result db))
      refine ranked.write inv (Bool.and_eq_true_iff.mp held).1 (samePlan_completing id result db) ?_
        (fun other different => (slot_completing id other result db).trans (if_neg different))
      intro old
      rw [slot_completing, if_pos rfl]
      exact ⟨old.attempts, old.ready⟩
  · exact ranked

/-- Every call on the keys of a run. -/
theorem served (positive : 0 < run.deliveries) (found : live now db = db) (call : Call Text) :
    Served run count (record codec now call db).after
      ((record codec now call db).first codec) := by
  cases call with
  | create args =>
      refine .again ?_
      simp only [record, Call.exec, found, create_refused inv.planned args]
      exact ranked
  | claim token lease =>
      cases isActive : active Key.own now db with
      | false =>
          have nothing := claim_inactive codec isActive token lease
          have silent : (record codec now (.claim token lease) db).first codec = none := by
            simp [Record.first, Record.job?, record, Call.exec, found, nothing, RunQueue.job]
          rw [silent]
          refine .again ?_
          simp only [record, Call.exec, found, nothing]
          exact ranked
      | true =>
          obtain ⟨delivered, replied, planned, step⟩ :=
            claim_served inv ranked positive isActive token lease
          have answered : (record codec now (.claim token lease) db).reply =
              deliveryReply codec run delivered := by
            rw [← replied]
            simp only [record, Call.exec, found]
          rw [first_claim rfl answered planned]
          simpa only [record, Call.exec, found] using step
  | renew id token lease =>
      refine .again ?_
      simp only [record, Call.exec, found]
      exact ranked.renew inv id token lease
  | complete id token result =>
      refine .again ?_
      simp only [record, Call.exec, found]
      exact ranked.complete inv id token result
  | close =>
      refine .again ?_
      simp only [record, Call.exec, found]
      exact ranked.of_slots (close_effect inv).2.2.2

end Call

/-! ### Whole traces -/

theorem length_popped_le (codec : Codec Text) (rounds : Nat) (db : Db Text) :
    (popped Key.own codec rounds db).length ≤ rounds := by
  induction rounds generalizing db with
  | zero => exact le_refl 0
  | succ rounds ih =>
      rcases zpopmin_cases (Key.own .ready) db with ⟨none, _⟩ | ⟨id, score, pops, _, _⟩
      · rw [popped]
        simp only [none]
        exact Nat.zero_le _
      · rw [popped]
        simp only [pops]
        split
        · exact Nat.succ_le_succ (ih _)
        · exact Nat.succ_le_succ (Nat.zero_le _)

/-- Only a claim of an active run hands out a case. -/
theorem claim_of_first {now : Int} {call : Call Text} {id : String}
    (handed : (record codec now call db).first codec = some id) :
    ∃ token lease, call = .claim token lease ∧ active Key.own now (live now db) = true := by
  cases call with
  | claim token lease =>
      refine ⟨token, lease, rfl, ?_⟩
      by_contra inactive
      rw [Bool.not_eq_true] at inactive
      simp [Record.first, Record.job?, record, Call.exec, claim_inactive codec inactive,
        RunQueue.job] at handed
  | create args => cases handed
  | renew id token lease => cases handed
  | complete id token result => cases handed
  | close => cases handed

section FirstDelivery

variable {now expiry : Int} {token id : String} {count : Nat} {after : Db Text}
  (claiming : Claiming codec run now token expiry (some (id, 1)) db after)
  (placed : Placed run db) (ranked : Ranked run count db)
  (empty : ∀ other ∈ run.ids.take (count + 1), (slot after other).ready = none)
include claiming placed ranked empty

/-- A lease that was taken back has been popped again, or it would be waiting still. -/
theorem Claiming.expired_popped {other : String} (listed : other ∈ expired Key.own now db) :
    other ∈ claimPops codec now db := by
  obtain ⟨given, held, _⟩ := mem_zrangebyscore listed
  have member := placed.member_of_lease held
  have taken : other ∈ run.ids.take (count + 1) := by
    rcases ranked.sides member with ⟨before, _⟩ | ⟨index, _, _, fresh⟩
    · exact List.take_subset_take_left _ (Nat.le_succ count) before
    · have lease : (slot db other).lease = some given := held
      rw [fresh] at lease
      cases lease
  obtain ⟨item, matched⟩ := placed.cases other member
  obtain ⟨middle, final, arrived, lapse, pop⟩ := claiming.moves other member item matched
  generalize numberOf (some (id, 1)) other = number at pop
  cases pop with
  | exhaust out used => exact out
  | deliver out left => exact out
  | stay left =>
      cases lapse with
      | stay running => exact (running listed).elim
      | lapse =>
          obtain ⟨score, waiting⟩ := arrived.waiting
          have none : zscore .ready other after = none := empty other taken
          rw [waiting] at none
          cases none

variable (next : run.ids[count]? = some id)
include next

/-- The reclaim loop stayed below its limit: everything it took back was popped
together with the fresh case, in no more rounds than that limit. -/
theorem Claiming.expired_short : (expired Key.own now db).length < 100 := by
  have member := claiming.planned id 1 rfl
  have unlisted : id ∉ expired Key.own now db := by
    intro listed
    obtain ⟨given, held, _⟩ := mem_zrangebyscore listed
    have lease : (slot db id).lease = some given := held
    rw [ranked.fresh count id next (le_refl count)] at lease
    cases lease
  have delivered : id ∈ claimPops codec now db := by
    obtain ⟨item, matched⟩ := placed.cases id member
    obtain ⟨middle, final, arrived, lapse, pop⟩ := claiming.moves id member item matched
    rw [numberOf_self] at pop
    cases pop with
    | deliver out left => exact out
  have distinct : (id :: expired Key.own now db).Nodup :=
    List.nodup_cons.mpr ⟨unlisted, nodup_zrangebyscore _ now 100 db⟩
  have popped : id :: expired Key.own now db ⊆ claimPops codec now db := by
    intro other listed
    rcases List.mem_cons.mp listed with rfl | due
    · exact delivered
    · exact claiming.expired_popped placed ranked empty due
  have bound := (List.subperm_of_subset distinct popped).length_le
  have rounds := length_popped_le codec 100 (reclaimed now db)
  rw [List.length_cons] at bound
  exact Nat.lt_of_lt_of_le (Nat.lt_of_succ_le bound) rounds

/-- So it took back every lease that had run out. -/
theorem Claiming.running {other : String} {given : Int} (different : other ≠ id)
    (held : zscore .leases other after = some given) : now < given := by
  have short := claiming.expired_short placed ranked empty next
  have member := claiming.inv.placed.member_of_lease held
  obtain ⟨item, matched⟩ := placed.cases other member
  obtain ⟨middle, final, arrived, lapse, pop⟩ := claiming.moves other member item matched
  rw [numberOf_other (Ne.symm different)] at pop
  obtain ⟨holder, deliveries, rfl⟩ := arrived.leased_of_lease held
  cases pop with
  | stay left =>
      cases lapse with
      | stay running =>
          by_contra reached
          exact running (mem_zrangebyscore_of_lt short matched.lease (Int.not_lt.mp reached))

end FirstDelivery

section Alive

variable {start : Db Text} {calls : Calls Text} {count : Nat} {id other : String}

/-- With every delivered case out of `ready`, what waits there has never been taken
back. -/
theorem Alive.unreclaimed (alive : Alive codec run start calls)
    (ranked : Ranked run count (calls.state codec start))
    (empty : ∀ other ∈ run.ids.take count,
      (slot (calls.state codec start) other).ready = none)
    {score : Int} (waiting : zscore .ready other (calls.state codec start) = some score) :
    ∀ record ∈ calls.history codec start, record.reclaims other = false := by
  have inReady : (slot (calls.state codec start) other).ready = some score := waiting
  have member := alive.inv.placed.member_of_ready waiting
  rcases ranked.sides member with ⟨taken, _⟩ | ⟨index, _, _, fresh⟩
  · rw [empty other taken] at inReady
    cases inReady
  · obtain ⟨item, matched, life⟩ := alive.cases other member
    rw [fresh] at matched
    obtain rfl := matched.unique (matches_fresh index)
    have none : Lease.History.lapses (eventsOf codec other (calls.history codec start)) = 0 :=
      life.balanced
    rw [lapses_eventsOf, List.countP_eq_zero] at none
    intro record member
    exact Bool.eq_false_iff.mpr (none record member)

end Alive

section Run

variable {start : Db Text} {older : Calls Text} {now : Int} {call : Call Text} {id : String}
  (created : Created codec run start) (initial : Ranked run 0 start)
  (positive : 0 < run.deliveries)
include created initial positive

/-- In every trace the cases are handed out for the first time in the order of the
suite. -/
theorem Created.ranked (trace : older.OneRun codec start) :
    ∃ count, ((older.history codec start).filterMap (Record.first codec)).reverse =
        run.ids.take count ∧
      (older.state codec start = empty ∨ Ranked run count (older.state codec start)) := by
  induction older with
  | nil => exact ⟨0, rfl, .inr initial⟩
  | cons head older ih =>
      obtain ⟨now, call⟩ := head
      have past : Calls.OneRun codec start older :=
        (show Calls.OneRun codec start ([(now, call)] ++ older) from trace).older
      have old := trace.once _ List.mem_cons_self
      obtain ⟨count, firsts, order⟩ := ih past
      have keys := created.keys past
      simp only [Calls.history, Calls.state]
      rcases keys.call_cases old with ⟨inv, _⟩ | ⟨gone, after⟩
      · have found := (keys.live_cases now).resolve_left inv.ne_empty
        rw [found] at inv
        have step := served inv (order.resolve_left inv.ne_empty) positive found call
        generalize handed :
          (record codec now call (Calls.state codec start older)).first codec = first at step
        cases step with
        | again ranked =>
            refine ⟨count, ?_, .inr ranked⟩
            rw [List.filterMap_cons_none handed, firsts]
        | first next ranked _ =>
            refine ⟨count + 1, ?_, .inr ranked⟩
            rw [List.filterMap_cons_some handed, List.reverse_cons, firsts, List.take_add_one, next]
            rfl
      · refine ⟨count, ?_, .inl after⟩
        rw [List.filterMap_cons_none (first_silent (record_gone gone old).2), firsts]

/-- What a claim that hands out a case for the first time leaves behind. -/
theorem Created.first_delivery (trace : Calls.OneRun codec start ((now, call) :: older))
    (handed : (record codec now call (older.state codec start)).first codec = some id) :
    (∀ other score,
      zscore .ready other (record codec now call (older.state codec start)).after = some score →
      ∀ record ∈ Calls.history codec start ((now, call) :: older),
        record.reclaims other = false) ∧
    ∀ other expiry, other ≠ id →
      zscore .leases other (record codec now call (older.state codec start)).after =
        some expiry → now < expiry := by
  have past : Calls.OneRun codec start older :=
    (show Calls.OneRun codec start ([(now, call)] ++ older) from trace).older
  obtain ⟨token, lease, rfl, isActive⟩ := claim_of_first handed
  obtain ⟨alive, found⟩ := created.alive_of_active past isActive
  rw [found] at isActive
  obtain ⟨count, _, order⟩ := created.ranked initial positive past
  have ranked := order.resolve_left alive.inv.ne_empty
  have early := ((alive.inv.planned.active_iff now).mp isActive).2.trans run.deadline_lt
  have later := alive.cons (le_of_lt early) (.claim token lease)
  have step := served alive.inv ranked positive found (.claim token lease)
  rw [handed] at step
  cases step with
  | first next rankedAfter empty =>
      constructor
      · intro other score waiting
        exact later.unreclaimed rankedAfter empty waiting
      · intro other expiry different held
        obtain ⟨delivered, replied, claiming⟩ := claim_claiming alive.inv isActive token lease
        have answered : (record codec now (.claim token lease) (older.state codec start)).reply =
            deliveryReply codec run delivered := by
          rw [← replied]
          simp only [record, Call.exec, found]
        have after : (record codec now (.claim token lease) (older.state codec start)).after =
            (claim Key.own codec now token lease (older.state codec start)).2 := by
          simp only [record, Call.exec, found]
        rw [first_claim rfl answered claiming.planned] at handed
        obtain rfl := delivered_of_debut handed
        rw [after] at empty held
        exact claiming.running alive.inv.placed ranked empty next different held

end Run

/-- In every trace of a run the cases are handed out for the first time in the order
of the suite.  After a claim that hands one out so, nothing in `ready` has ever been
taken back, and no lease but the one just granted has run out. -/
theorem claim_order {micros : Int} {submission : Submission} {start : Db Text}
    (started : Started codec micros submission start) {calls : Calls Text}
    (trace : calls.OneRun codec start) :
    ((calls.history codec start).filterMap (Record.first codec)).reverse <+:
        submission.suite.cases.map Case.id ∧
    ∀ newer now call older, calls = newer ++ (now, call) :: older →
      ∀ job, (record codec now call (Calls.state codec start older)).job? codec = some job →
        job.delivery = 1 →
        (∀ id score,
          zscore .ready id (record codec now call (Calls.state codec start older)).after =
            some score →
          ∀ record ∈ Calls.history codec start ((now, call) :: older),
            record.reclaims id = false) ∧
        ∀ id expiry, id ≠ job.case.id →
          zscore .leases id (record codec now call (Calls.state codec start older)).after =
            some expiry → now < expiry := by
  obtain ⟨timed, initial⟩ := ranked_start started
  obtain ⟨_, created⟩ := started.created
  have positive : 0 < (submission.run timed (millis micros)).deliveries := by
    have limit := Submission.run_deliveries timed (millis micros)
    have := timed.maxDeliveries
    omega
  constructor
  · obtain ⟨count, firsts, _⟩ := created.ranked initial positive trace
    rw [firsts]
    exact List.take_prefix count _
  · rintro newer now call older rfl job handed delivery
    have past := (show Calls.OneRun codec start (newer ++ ((now, call) :: older)) from trace).older
    apply created.first_delivery initial positive past
    rw [Record.first, handed, Option.bind_some, if_pos delivery]

/-- The first claim of the sample case, followed by one that takes it back. -/
theorem claim_order_sample :
    ((Calls.history Codec.plain Sample.start
      [(40000, .claim "second" 30000), (2000, .claim "first" 30000)]).filterMap
        (Record.first Codec.plain)).reverse <+: ["health"] :=
  (claim_order Sample.started Sample.oneRun_reclaim).1

end ApiSentinel
