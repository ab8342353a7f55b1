import ApiSentinel.RunQueue
import ApiSentinel.ScriptEffects

/-!
# Creating a run

A submission that passes the checks of `RunQueue.create` fixes the constants of
a run, and `CREATE` on a database without keys establishes the run's invariant
with every case ready and undelivered.
-/

namespace ApiSentinel

open Redis

variable {Text : Type} {codec : Codec Text}

/-- The timing and delivery settings that `RunQueue.create` accepts, and a plan that it
encodes. -/
structure Submission.Timed (submission : Submission) : Prop where
  timeout : 0 < submission.timeout
  retention : 1 ≤ submission.retention
  maxDeliveries : 1 ≤ submission.maxDeliveries
  printable : submission.plan.printable = true

theorem Submission.timed_of_check {submission : Submission}
    (passed : submission.check codec = .ok ()) : submission.Timed := by
  unfold Submission.check at passed
  split at passed
  · cases passed
  · rename_i settings
    simp only [Bool.or_eq_true, decide_eq_true_eq, not_or, not_lt, not_le] at settings
    split at passed
    · cases passed
    · split at passed
      · cases passed
      · rename_i encoded
        exact ⟨settings.1.1, settings.1.2, settings.2, by simpa using encoded⟩

/-- The deadline in `meta` of a run that was created at a clock reading. -/
def Submission.deadline (submission : Submission) (now : Int) : Int :=
  now + milliseconds submission.timeout

/-- The expiry in `meta` of a run that was created at a clock reading. -/
def Submission.expires (submission : Submission) (now : Int) : Int :=
  submission.deadline now + submission.retention * 1000

/-- The run that a submission starts at a clock reading. -/
def Submission.run (submission : Submission) (timed : submission.Timed) (now : Int) : Run where
  suite := submission.suite
  deadline := submission.deadline now
  expires := submission.expires now
  deliveries := submission.maxDeliveries.toNat
  deadline_lt := by
    have := timed.retention
    unfold Submission.expires
    omega
  printable := Plan.printable_case timed.printable

theorem Submission.run_deliveries {submission : Submission} (timed : submission.Timed)
    (now : Int) : ((submission.run timed now).deliveries : Int) = submission.maxDeliveries :=
  Int.toNat_of_nonneg (Int.le_of_lt timed.maxDeliveries)

theorem Submission.deadline_ge {submission : Submission} (timed : submission.Timed)
    (now : Int) : now ≤ (submission.run timed now).deadline := by
  have := milliseconds_nonneg (le_of_lt timed.timeout)
  change now ≤ now + milliseconds submission.timeout
  omega

/-! ### The loop of `CREATE` -/

/-- A slot that has been put into `ready`. -/
def Slot.waiting (case : Slot Text) (score : Int) : Slot Text :=
  { case with ready := some score }

theorem slot_entering (index : Int) (entry : String × Text) (db : Db Text) (id : String) :
    slot (zadd .ready index entry.1 (hset .tasks entry.1 (.doc entry.2) db)) id =
      if id = entry.1 then (slot db id).waiting index else slot db id := by
  by_cases same : id = entry.1 <;> simp [slot, Slot.waiting, same]

section Enqueue

variable (index : Int) (cases : List (String × Text)) (db : Db Text)

theorem metadata_enqueue (field : String) :
    hget .metadata field (enqueue Key.own index cases db) = hget .metadata field db := by
  induction cases generalizing index db with
  | nil => rfl
  | cons head rest ih =>
      rw [enqueue, ih]
      simp

theorem slot_enqueue (id : String) :
    ∃ score, slot (enqueue Key.own index cases db) id =
      if id ∈ cases.map Prod.fst then (slot db id).waiting score else slot db id := by
  induction cases generalizing index db with
  | nil => exact ⟨0, by simp [enqueue]⟩
  | cons head rest ih =>
      obtain ⟨score, later⟩ := ih (index + 1)
        (zadd .ready index head.1 (hset .tasks head.1 (.doc head.2) db))
      rw [slot_entering] at later
      have unfolded : enqueue Key.own index (head :: rest) db = enqueue Key.own (index + 1) rest
          (zadd .ready index head.1 (hset .tasks head.1 (.doc head.2) db)) := rfl
      rw [unfolded]
      by_cases same : id = head.1
      · subst same
        by_cases again : head.1 ∈ rest.map Prod.fst
        · exact ⟨score, by simpa [again, Slot.waiting] using later⟩
        · exact ⟨index, by simpa [again, Slot.waiting] using later⟩
      · refine ⟨score, ?_⟩
        simpa only [List.map_cons, List.mem_cons, same, false_or, if_false] using later

theorem tasks_enqueue (nodup : (cases.map Prod.fst).Nodup) (id : String) :
    hget .tasks id (enqueue Key.own index cases db) =
      match cases.find? (fun entry => entry.1 == id) with
      | some entry => some (.doc entry.2)
      | none => hget .tasks id db := by
  induction cases generalizing index db with
  | nil => rfl
  | cons head rest ih =>
      obtain ⟨fresh, nodup⟩ := List.nodup_cons.mp nodup
      rw [enqueue, ih _ _ nodup]
      by_cases same : head.1 = id
      · have last : rest.find? (fun entry => entry.1 == id) = none := by
          apply List.find?_eq_none.mpr
          intro entry member equal
          apply fresh
          rw [same, ← beq_iff_eq.mp equal]
          exact List.mem_map_of_mem member
        simp [last, same]
      · simp [same, Ne.symm same]

end Enqueue

theorem Submission.ids_cases (codec : Codec Text) (submission : Submission) :
    (submission.cases codec).map Prod.fst = submission.suite.cases.map Case.id := by
  simp [Submission.cases]

theorem Submission.find_cases (submission : Submission) (id : String) :
    (submission.cases codec).find? (fun entry => entry.1 == id) =
      (submission.suite.cases.find? (fun case => case.id == id)).map
        (fun case => (case.id, codec.dumpCase case)) := by
  rw [Submission.cases, List.find?_map]
  rfl

/-- The database that `CREATE` has written before its `touch`. -/
def creating (codec : Codec Text) (now : Int) (submission : Submission) : Db Text :=
  enqueue Key.own 1 (submission.cases codec)
    (hset .metadata "total" (.num (submission.cases codec).length)
      (hset .metadata "deliveries" (.num submission.maxDeliveries)
        (hset .metadata "expires" (.num (submission.expires now))
          (hset .metadata "deadline" (.num (submission.deadline now))
            (hset .metadata "state" (.text "open")
              (hset .metadata "payload" (.doc (submission.payload codec)) empty))))))

theorem create_empty (now : Int) (submission : Submission) :
    create Key.own now (submission.args codec) empty =
      (.int 1, touch Key.own now (creating codec now submission)) :=
  rfl

theorem planned_creating (codec : Codec Text) {submission : Submission}
    (timed : submission.Timed) (now : Int) :
    Planned codec (submission.run timed now) (creating codec now submission) := by
  refine ⟨.inl ?_, ?_, ?_, ?_, ?_⟩
  · simp [creating, metadata_enqueue]
  · simp [creating, metadata_enqueue, Submission.run]
  · simp [creating, metadata_enqueue, Submission.run]
  · rw [Submission.run_deliveries]
    simp [creating, metadata_enqueue]
  · intro id
    have nodup : ((submission.cases codec).map Prod.fst).Nodup := by
      rw [Submission.ids_cases]
      exact submission.suite.unique_ids
    rw [creating, tasks_enqueue _ _ _ nodup, Submission.find_cases]
    cases found : submission.suite.cases.find? (fun case => case.id == id) <;>
      simp [Run.task, Run.case?, Submission.run, found]

theorem slot_creating (codec : Codec Text) (now : Int) (submission : Submission) (id : String) :
    ∃ score, slot (creating codec now submission) id =
      if id ∈ submission.suite.cases.map Case.id then
        Slot.empty.waiting score
      else Slot.empty := by
  have settings : ∀ field value (db : Db Text),
      slot (hset .metadata field value db) id = slot db id := by
    intro field value db
    simp [slot]
  rw [← submission.ids_cases codec]
  obtain ⟨score, entered⟩ := slot_enqueue 1 (submission.cases codec)
    (hset .metadata "total" (.num (submission.cases codec).length)
      (hset .metadata "deliveries" (.num submission.maxDeliveries)
        (hset .metadata "expires" (.num (submission.expires now))
          (hset .metadata "deadline" (.num (submission.deadline now))
            (hset .metadata "state" (.text "open")
              (hset .metadata "payload" (.doc (submission.payload codec)) empty)))))) id
  refine ⟨score, entered.trans ?_⟩
  simp only [settings]
  rfl

/-- What a successful `CREATE` leaves behind. -/
structure Created (codec : Codec Text) (run : Run) (db : Db Text) : Prop where
  inv : Inv codec run db
  isOpen : hget .metadata "state" db = some (.text "open")
  ready : ∀ id ∈ run.ids, Matches (slot db id) (.ready 0)

theorem created_empty (codec : Codec Text) {submission : Submission}
    (timed : submission.Timed) (now : Int) :
    Created codec (submission.run timed now)
      (create Key.own now (submission.args codec) empty).2 := by
  have future := lt_of_le_of_lt (submission.deadline_ge timed now)
    (submission.run timed now).deadline_lt
  have planned := planned_creating codec timed now
  have stored := planned.expires_number
  have same := samePlan_touch stored future
  have ready : ∀ id ∈ (submission.run timed now).ids,
      Matches (slot (touch Key.own now (creating codec now submission)) id) (.ready 0) := by
    intro id member
    obtain ⟨score, shape⟩ := slot_creating codec now submission id
    have listed : id ∈ submission.suite.cases.map Case.id := member
    rw [slot_touch stored future, shape, if_pos listed]
    change Matches ⟨some score, none, none, counted 0, none⟩ (.ready 0)
    exact .ready
  have others : ∀ id ∉ (submission.run timed now).ids,
      slot (touch Key.own now (creating codec now submission)) id = Slot.empty := by
    intro id absent
    obtain ⟨score, shape⟩ := slot_creating codec now submission id
    have unlisted : id ∉ submission.suite.cases.map Case.id := absent
    rw [slot_touch stored future, shape, if_neg unlisted]
  rw [create_empty]
  refine ⟨⟨planned.of_samePlan same, ⟨fun id member => ⟨_, ready id member⟩, others⟩,
    expiresAt_touch stored⟩, ?_, ready⟩
  rw [same.metadata]
  simp [creating, metadata_enqueue]

/-! ### The sample suite -/

namespace Sample

/-- The suite with the default settings of `RunQueue.create`. -/
def submission : Submission where
  suite := suite
  contract := .null

theorem check_submission : submission.check Codec.plain = .ok () := by
  rfl

def nanSubmission : Submission := { submission with suite := nanSuite }

end Sample

end ApiSentinel
