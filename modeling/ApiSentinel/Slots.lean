import ApiSentinel.Scripts

/-!
# What the scripts do to one case

A case is spread over five of the keys of its run.  Its slot collects what they
hold for one case ID, and the lemmas of this file say how each command sequence
of the scripts moves a slot.  The plan itself, in the other two keys, is only
read.
-/

namespace ApiSentinel

open Redis

variable {Text : Type}

/-- The keys of one run. -/
abbrev Db (Text : Type) := Keyspace Key Text

/-- What the five changing keys hold for one case ID. -/
@[ext]
structure Slot (Text : Type) where
  ready : Option Int
  lease : Option Int
  owner : Option (Bulk Text)
  attempts : Option (Bulk Text)
  result : Option (Bulk Text)

def slot (db : Db Text) (id : String) : Slot Text where
  ready := zscore .ready id db
  lease := zscore .leases id db
  owner := hget .owners id db
  attempts := hget .attempts id db
  result := hget .results id db

def Slot.empty : Slot Text := ⟨none, none, none, none, none⟩

/-- Two databases hold the same plan. -/
structure SamePlan (before after : Db Text) : Prop where
  metadata : ∀ field, hget .metadata field after = hget .metadata field before
  tasks : ∀ id, hget .tasks id after = hget .tasks id before

theorem SamePlan.refl (db : Db Text) : SamePlan db db :=
  ⟨fun _ => rfl, fun _ => rfl⟩

theorem SamePlan.trans {first second third : Db Text} (one : SamePlan first second)
    (two : SamePlan second third) : SamePlan first third :=
  ⟨fun field => (two.metadata field).trans (one.metadata field),
    fun id => (two.tasks id).trans (one.tasks id)⟩

theorem SamePlan.hgetNumber {before after : Db Text} (same : SamePlan before after)
    (field : String) :
    ApiSentinel.hgetNumber Key.own .metadata field after =
      ApiSentinel.hgetNumber Key.own .metadata field before := by
  simp only [ApiSentinel.hgetNumber, Key.own_eq, same.metadata]

theorem SamePlan.active {before after : Db Text} (same : SamePlan before after)
    (now : Int) :
    ApiSentinel.active Key.own now after = ApiSentinel.active Key.own now before := by
  simp only [ApiSentinel.active, same.hgetNumber, Key.own_eq, same.metadata]

/-! ### Touching -/

theorem Key.mem_all (key : Key) : key ∈ Key.all := by
  cases key <;> simp [Key.all]

section Touch

variable {now expires : Int} {db : Db Text}
variable (stored : hgetNumber Key.own .metadata "expires" db = some expires)
include stored

theorem touch_eq :
    touch Key.own now db =
      Key.all.foldl (fun db key => pexpireat now key expires db) db := by
  simp only [touch, stored, Key.own_eq]

/-- After `touch` every key that exists carries the expiry of the run. -/
theorem expiresAt_touch : ExpiresAt expires (touch Key.own now db) := by
  intro key entry held
  rw [touch_eq stored] at held
  exact foldl_pexpireat_expiry Key.all db (Or.inl key.mem_all) held

variable (future : now < expires)
include future

theorem touch_value (key : Key) :
    (touch Key.own now db key).map Entry.value = (db key).map Entry.value := by
  rw [touch_eq stored]
  exact foldl_pexpireat_value future Key.all key db

theorem slot_touch (id : String) : slot (touch Key.own now db) id = slot db id := by
  have same := touch_value stored future
  simp only [slot, hget_congr (same _), zscore_congr (same _)]

theorem samePlan_touch : SamePlan db (touch Key.own now db) :=
  ⟨hget_congr (touch_value stored future .metadata),
    hget_congr (touch_value stored future .tasks)⟩

end Touch

/-! ### Reclaiming -/

/-- A slot whose lease has been taken back. -/
def Slot.reclaimed (case : Slot Text) : Slot Text :=
  { case with
    lease := none
    owner := none
    ready := if case.result.isSome then case.ready else some 0 }

theorem Slot.reclaimed_reclaimed (case : Slot Text) :
    case.reclaimed.reclaimed = case.reclaimed := by
  cases done : case.result.isSome <;> simp [Slot.reclaimed, done]

theorem slot_reclaim (db : Db Text) (id other : String) :
    slot (reclaim Key.own db id) other =
      if other = id then (slot db id).reclaimed else slot db other := by
  by_cases same : other = id
  · subst same
    by_cases done : (hget Key.results other db).isSome = true <;>
      simp [slot, reclaim, hexists, Slot.reclaimed, done]
  · by_cases done : (hget Key.results id db).isSome = true <;>
      simp [slot, reclaim, hexists, done, same]

theorem samePlan_reclaim (db : Db Text) (id : String) :
    SamePlan db (reclaim Key.own db id) := by
  constructor <;> intro field <;>
    by_cases done : (hget Key.results id db).isSome = true <;>
    simp [reclaim, hexists, done]

theorem slot_foldl_reclaim (ids : List String) (db : Db Text) (id : String) :
    slot (ids.foldl (reclaim Key.own) db) id =
      if id ∈ ids then (slot db id).reclaimed else slot db id := by
  induction ids generalizing db with
  | nil => simp
  | cons head ids ih =>
      rw [List.foldl_cons, ih, slot_reclaim]
      by_cases same : id = head
      · subst same
        by_cases again : id ∈ ids <;> simp [again, Slot.reclaimed_reclaimed]
      · by_cases again : id ∈ ids <;> simp [again, same]

theorem samePlan_foldl_reclaim (ids : List String) (db : Db Text) :
    SamePlan db (ids.foldl (reclaim Key.own) db) := by
  induction ids generalizing db with
  | nil => exact SamePlan.refl db
  | cons head ids ih => exact (samePlan_reclaim db head).trans (ih _)

end ApiSentinel
