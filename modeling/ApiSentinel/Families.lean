import ApiSentinel.Redis
import Mathlib.Logic.Function.Basic

/-!
# Families of keys

A program that names its keys by an injective family works on that part of a database
alone: a command on a key of the family does there what it does on the family's own
keyspace, and leaves every other key as it is.
-/

namespace Redis

variable {Name K Doc : Type} {names : Name → K}

/-- What a family of keys holds. -/
def restrict (names : Name → K) (db : Keyspace K Doc) : Keyspace Name Doc :=
  fun name => db (names name)

/-- A database with other contents under a family of keys. -/
noncomputable def patch (names : Name → K) (db : Keyspace K Doc) (part : Keyspace Name Doc) :
    Keyspace K Doc :=
  Function.extend names part db

theorem patch_other {db : Keyspace K Doc} {part : Keyspace Name Doc} {key : K}
    (other : ∀ name, names name ≠ key) : patch names db part key = db key :=
  Function.extend_apply' _ _ _ (fun ⟨name, same⟩ => other name same)

section Injective

variable (injective : Function.Injective names) (db : Keyspace K Doc) (part : Keyspace Name Doc)
include injective

theorem patch_apply (name : Name) : patch names db part (names name) = part name :=
  injective.extend_apply _ _ _

theorem restrict_patch : restrict names (patch names db part) = part := by
  funext name
  exact patch_apply injective db part name

theorem patch_restrict : patch names db (restrict names db) = db := by
  funext key
  by_cases named : ∃ name, names name = key
  · obtain ⟨name, rfl⟩ := named
    rw [patch_apply injective, restrict]
  · exact patch_other fun name same => named ⟨name, same⟩

theorem live_patch (now : Int) :
    live now (patch names db part) = patch names (live now db) (live now part) := by
  funext key
  by_cases named : ∃ name, names name = key
  · obtain ⟨name, rfl⟩ := named
    simp only [live, patch_apply injective]
  · have other : ∀ name, names name ≠ key := fun name same => named ⟨name, same⟩
    simp only [live, patch_other other]

/-! ### Reading under a name -/

section Reading

variable (name : Name)

theorem hashAt_patch : hashAt (names name) (patch names db part) = hashAt name part := by
  rw [hashAt, patch_apply injective, hashAt]

theorem zsetAt_patch : zsetAt (names name) (patch names db part) = zsetAt name part := by
  rw [zsetAt, patch_apply injective, zsetAt]

theorem exists_patch : exists? (names name) (patch names db part) = exists? name part := by
  rw [exists?, patch_apply injective, exists?]

theorem hget_patch (field : String) :
    hget (names name) field (patch names db part) = hget name field part := by
  rw [hget, hashAt_patch injective, hget]

theorem hexists_patch (field : String) :
    hexists (names name) field (patch names db part) = hexists name field part := by
  rw [hexists, hget_patch injective, hexists]

theorem hvals_patch : hvals (names name) (patch names db part) = hvals name part := by
  rw [hvals, hashAt_patch injective, hvals]

theorem hlen_patch : hlen (names name) (patch names db part) = hlen name part := by
  rw [hlen, hashAt_patch injective, hlen]

theorem zscore_patch (member : String) :
    zscore (names name) member (patch names db part) = zscore name member part := by
  rw [zscore, zsetAt_patch injective, zscore]

theorem zrangebyscore_patch (max : Int) (limit : Nat) :
    zrangebyscore (names name) max limit (patch names db part) =
      zrangebyscore name max limit part := by
  rw [zrangebyscore, zsetAt_patch injective, zrangebyscore]

end Reading

/-! ### Writing under a name -/

section Writing

variable [DecidableEq Name] [DecidableEq K] (name : Name)

theorem update_patch (entry : Option (Entry Doc)) :
    Function.update (patch names db part) (names name) entry =
      patch names db (Function.update part name entry) := by
  funext key
  by_cases named : ∃ other, names other = key
  · obtain ⟨other, rfl⟩ := named
    rw [patch_apply injective]
    by_cases same : other = name
    · rw [same, Function.update_self, Function.update_self]
    · rw [Function.update_of_ne same, Function.update_of_ne (injective.ne same),
        patch_apply injective]
  · have unnamed : ∀ other, names other ≠ key := fun other same => named ⟨other, same⟩
    rw [Function.update_of_ne (Ne.symm (unnamed name)), patch_other unnamed, patch_other unnamed]

theorem store_patch (value : Value Doc) :
    store (names name) value (patch names db part) = patch names db (store name value part) := by
  rw [store, update_patch injective, patch_apply injective, store]

theorem hset_patch (field : String) (value : Bulk Doc) :
    hset (names name) field value (patch names db part) =
      patch names db (hset name field value part) := by
  rw [hset, store_patch injective, hashAt_patch injective, hset]

theorem hdel_patch (field : String) :
    hdel (names name) field (patch names db part) = patch names db (hdel name field part) := by
  rw [hdel, store_patch injective, hashAt_patch injective, hdel]

theorem zadd_patch (score : Int) (member : String) :
    zadd (names name) score member (patch names db part) =
      patch names db (zadd name score member part) := by
  rw [zadd, store_patch injective, zsetAt_patch injective, zadd]

theorem zrem_patch (member : String) :
    zrem (names name) member (patch names db part) = patch names db (zrem name member part) := by
  rw [zrem, store_patch injective, zsetAt_patch injective, zrem]

theorem hincrby_patch (field : String) (increment : Int) :
    hincrby (names name) field increment (patch names db part) =
      ((hincrby name field increment part).1,
        patch names db (hincrby name field increment part).2) := by
  simp only [hincrby, hget_patch injective, hset_patch injective]

theorem zpopmin_patch :
    zpopmin (names name) (patch names db part) =
      ((zpopmin name part).1, patch names db (zpopmin name part).2) := by
  simp only [zpopmin, zsetAt_patch injective]
  cases (zsetAt name part).entries.argmin rank with
  | none => rfl
  | some entry => simp only [zrem_patch injective]

theorem pexpireat_patch (now expiry : Int) :
    pexpireat now (names name) expiry (patch names db part) =
      patch names db (pexpireat now name expiry part) := by
  simp only [pexpireat, patch_apply injective]
  cases part name with
  | none => rfl
  | some entry => simp only [update_patch injective]

theorem del_patch :
    del (names name) (patch names db part) = patch names db (del name part) :=
  update_patch injective db part name none

end Writing

end Injective

end Redis
