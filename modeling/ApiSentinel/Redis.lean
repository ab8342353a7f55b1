import Mathlib.Data.List.AList
import Mathlib.Data.List.MinMax
import Mathlib.Data.List.Sort
import Mathlib.Data.Prod.Lex
import Mathlib.Data.String.Basic

/-!
# Keyspaces of hashes and sorted sets

The part of Redis that a script over hashes and sorted sets can observe: the
commands, the disappearance of emptied collections, and key expiry.  Keys come
from an arbitrary type and documents from another, so that a program can choose
its own names and its own serialization.

A command that meets a key of the other type sees an empty collection.  Redis
raises `WRONGTYPE` instead; programs that keep one type under each key cannot
tell the difference.
-/

namespace Redis

variable {K Doc : Type}

/-- A bulk string, by what it spells. -/
inductive Bulk (Doc : Type)
  | text (value : String)
  | num (value : Int)
  | doc (value : Doc)

namespace Bulk

def text? : Bulk Doc → Option String
  | .text value => some value
  | _ => none

/-- Lua's `tonumber`. -/
def toNumber? : Bulk Doc → Option Int
  | .num value => some value
  | _ => none

def doc? : Bulk Doc → Option Doc
  | .doc value => some value
  | _ => none

end Bulk

abbrev Hash (Doc : Type) := AList (fun _ : String => Bulk Doc)

/-- Members with their scores. -/
abbrev SortedSet := AList (fun _ : String => Int)

theorem lookup_insert_ite {V : Type} (key other : String) (value : V)
    (map : AList (fun _ : String => V)) :
    (map.insert key value).lookup other =
      if other = key then some value else map.lookup other := by
  by_cases same : other = key
  · subst same
    simp
  · simp [same, AList.lookup_insert_ne]

theorem lookup_erase_ite {V : Type} (key other : String)
    (map : AList (fun _ : String => V)) :
    (map.erase key).lookup other =
      if other = key then none else map.lookup other := by
  by_cases same : other = key
  · subst same
    simp
  · simp [same, AList.lookup_erase_ne]

inductive Value (Doc : Type)
  | hash (fields : Hash Doc)
  | zset (members : SortedSet)

namespace Value

def isEmpty : Value Doc → Bool
  | .hash fields => fields.entries.isEmpty
  | .zset members => members.entries.isEmpty

def asHash : Value Doc → Hash Doc
  | .hash fields => fields
  | .zset _ => ∅

def asZset : Value Doc → SortedSet
  | .hash _ => ∅
  | .zset members => members

theorem asHash_of_isEmpty {value : Value Doc} (empty : value.isEmpty = true) :
    value.asHash = ∅ := by
  cases value with
  | hash fields => exact AList.ext (List.isEmpty_iff.mp empty)
  | zset members => rfl

theorem asZset_of_isEmpty {value : Value Doc} (empty : value.isEmpty = true) :
    value.asZset = ∅ := by
  cases value with
  | hash fields => rfl
  | zset members => exact AList.ext (List.isEmpty_iff.mp empty)

end Value

/-- What a key holds.  A collection that loses its last element disappears
together with its key, so an entry is never empty. -/
structure Entry (Doc : Type) where
  value : Value Doc
  expiry : Option Int
  nonempty : value.isEmpty = false

/-- A database: the keys that exist, with what they hold. -/
abbrev Keyspace (K Doc : Type) := K → Option (Entry Doc)

def empty : Keyspace K Doc := fun _ => none

section Expiry

/-- A key is gone once the clock has passed its expiry. -/
def Entry.expired (now : Int) (entry : Entry Doc) : Bool :=
  entry.expiry.any (fun expiry => decide (expiry < now))

/-- The keys that still exist at a clock reading. -/
def live (now : Int) (db : Keyspace K Doc) : Keyspace K Doc :=
  fun key => (db key).filter (fun entry => !entry.expired now)

/-- Every key of the database carries one and the same expiry. -/
def ExpiresAt (expiry : Int) (db : Keyspace K Doc) : Prop :=
  ∀ key entry, db key = some entry → entry.expiry = some expiry

theorem live_eq_self {now expiry : Int} {db : Keyspace K Doc}
    (expires : ExpiresAt expiry db) (before : now ≤ expiry) : live now db = db := by
  funext key
  cases held : db key with
  | none => simp [live, held]
  | some entry =>
      have carried := expires key entry held
      simp [live, held, Entry.expired, carried, before]

theorem live_eq_empty {now expiry : Int} {db : Keyspace K Doc}
    (expires : ExpiresAt expiry db) (after : expiry < now) : live now db = empty := by
  funext key
  cases held : db key with
  | none => simp [live, held, empty]
  | some entry =>
      have carried := expires key entry held
      simp [live, held, Entry.expired, carried, after, empty]

/-- What is gone at one reading is gone at every later one. -/
theorem live_live {earlier now : Int} (ordered : earlier ≤ now) (db : Keyspace K Doc) :
    live now (live earlier db) = live now db := by
  funext key
  rw [live, live, live, Option.filter_filter]
  congr 1
  funext entry
  cases carried : entry.expiry with
  | none => simp [Entry.expired, carried]
  | some expiry =>
      simp [Entry.expired, carried]
      omega

@[simp]
theorem live_empty (now : Int) : live now (empty : Keyspace K Doc) = empty :=
  rfl

end Expiry

section Reading

def hashAt (key : K) (db : Keyspace K Doc) : Hash Doc :=
  ((db key).map (fun entry => entry.value.asHash)).getD ∅

def zsetAt (key : K) (db : Keyspace K Doc) : SortedSet :=
  ((db key).map (fun entry => entry.value.asZset)).getD ∅

/-- `EXISTS` -/
def exists? (key : K) (db : Keyspace K Doc) : Bool := (db key).isSome

/-- `HGET` -/
def hget (key : K) (field : String) (db : Keyspace K Doc) : Option (Bulk Doc) :=
  (hashAt key db).lookup field

/-- `HEXISTS` -/
def hexists (key : K) (field : String) (db : Keyspace K Doc) : Bool :=
  (hget key field db).isSome

/-- `HVALS`, in the order the model keeps; Redis promises none. -/
def hvals (key : K) (db : Keyspace K Doc) : List (Bulk Doc) :=
  (hashAt key db).entries.map Sigma.snd

/-- `HLEN` -/
def hlen (key : K) (db : Keyspace K Doc) : Nat :=
  (hashAt key db).entries.length

/-- `ZSCORE` -/
def zscore (key : K) (member : String) (db : Keyspace K Doc) : Option Int :=
  (zsetAt key db).lookup member

/-- Sorted sets are ordered by score, and by member where scores agree. -/
def Rank : Type := Int ×ₗ String

instance : LinearOrder Rank :=
  @Prod.Lex.instLinearOrder Int String Int.instLinearOrder inferInstance

def rank (entry : Σ _ : String, Int) : Rank := toLex (entry.2, entry.1)

theorem rank_le_iff (first second : Σ _ : String, Int) :
    rank first ≤ rank second ↔ first.2 < second.2 ∨ first.2 = second.2 ∧ first.1 ≤ second.1 :=
  Prod.Lex.toLex_le_toLex

/-- `ZRANGEBYSCORE key -inf max LIMIT 0 limit` -/
def zrangebyscore (key : K) (max : Int) (limit : Nat) (db : Keyspace K Doc) :
    List String :=
  ((((zsetAt key db).entries.filter (fun entry => entry.2 ≤ max)).insertionSort
    (fun first second => rank first ≤ rank second)).take limit).map Sigma.fst

@[simp]
theorem hget_empty (key : K) (field : String) :
    hget key field (empty : Keyspace K Doc) = none :=
  rfl

@[simp]
theorem zscore_empty (key : K) (member : String) :
    zscore key member (empty : Keyspace K Doc) = none :=
  rfl

/-- What is read at a clock reading was there. -/
theorem hget_of_live {key : K} {now : Int} {field : String} {value : Bulk Doc}
    {db : Keyspace K Doc} (stored : hget key field (live now db) = some value) :
    hget key field db = some value := by
  cases held : db key with
  | none => simp [hget, hashAt, live, held] at stored
  | some entry =>
      cases expired : entry.expired now with
      | false => simpa [hget, hashAt, live, held, Option.filter_some, expired] using stored
      | true => simp [hget, hashAt, live, held, Option.filter_some, expired] at stored

theorem mem_hvals_iff (key : K) (value : Bulk Doc) (db : Keyspace K Doc) :
    value ∈ hvals key db ↔ ∃ field, hget key field db = some value := by
  simp only [hvals, hget, List.mem_map]
  constructor
  · rintro ⟨⟨field, held⟩, member, rfl⟩
    exact ⟨field, AList.mem_lookup_iff.mpr member⟩
  · rintro ⟨field, held⟩
    exact ⟨⟨field, value⟩, AList.mem_lookup_iff.mp held, rfl⟩

/-- The fields of a hash, each once. -/
def hkeys (key : K) (db : Keyspace K Doc) : List String := (hashAt key db).keys

theorem nodup_hkeys (key : K) (db : Keyspace K Doc) : (hkeys key db).Nodup :=
  AList.keys_nodup _

theorem mem_hkeys_iff (key : K) (field : String) (db : Keyspace K Doc) :
    field ∈ hkeys key db ↔ (hget key field db).isSome := by
  rw [hget, AList.lookup_isSome, AList.mem_keys, hkeys]

theorem length_hkeys (key : K) (db : Keyspace K Doc) :
    (hkeys key db).length = hlen key db := by
  simp [hkeys, hlen, AList.keys, List.keys]

theorem mem_entries_iff (key : K) (member : String) (score : Int)
    (db : Keyspace K Doc) :
    (⟨member, score⟩ : Σ _ : String, Int) ∈ (zsetAt key db).entries ↔
      zscore key member db = some score :=
  AList.mem_lookup_iff.symm

theorem mem_zrangebyscore {key : K} {max : Int} {limit : Nat} {member : String}
    {db : Keyspace K Doc} (listed : member ∈ zrangebyscore key max limit db) :
    ∃ score, zscore key member db = some score ∧ score ≤ max := by
  obtain ⟨entry, taken, rfl⟩ := List.mem_map.mp listed
  have within := (List.mem_insertionSort _).mp (List.mem_of_mem_take taken)
  obtain ⟨held, low⟩ := List.mem_filter.mp within
  exact ⟨entry.2, (mem_entries_iff key _ _ db).mp held, by simpa using low⟩

theorem mem_filter_entries {key : K} {max score : Int} {member : String}
    {db : Keyspace K Doc} (held : zscore key member db = some score) (low : score ≤ max) :
    (⟨member, score⟩ : Σ _ : String, Int) ∈
      (zsetAt key db).entries.filter (fun entry => entry.2 ≤ max) :=
  List.mem_filter.mpr ⟨(mem_entries_iff key member score db).mpr held, decide_eq_true low⟩

/-- A bounded range is empty only if nothing is within the bound. -/
theorem zrangebyscore_ne_nil {key : K} {max score : Int} {member : String}
    {db : Keyspace K Doc} (held : zscore key member db = some score) (low : score ≤ max)
    (limit : Nat) : zrangebyscore key max (limit + 1) db ≠ [] := by
  have listed := mem_filter_entries held low
  intro none
  rw [zrangebyscore, List.map_eq_nil_iff, List.take_eq_nil_iff] at none
  rcases none with none | none
  · cases none
  · rw [← List.length_eq_zero_iff, List.length_insertionSort, List.length_eq_zero_iff] at none
    rw [none] at listed
    cases listed

/-- A range that stays below its limit leaves nothing out. -/
theorem mem_zrangebyscore_of_lt {key : K} {max score : Int} {limit : Nat} {member : String}
    {db : Keyspace K Doc} (short : (zrangebyscore key max limit db).length < limit)
    (held : zscore key member db = some score) (low : score ≤ max) :
    member ∈ zrangebyscore key max limit db := by
  have listed := mem_filter_entries held low
  rw [zrangebyscore, List.length_map, List.length_take] at short
  rw [zrangebyscore, List.take_of_length_le (by omega)]
  exact List.mem_map.mpr ⟨_, (List.mem_insertionSort _).mpr listed, rfl⟩

theorem nodup_zrangebyscore (key : K) (max : Int) (limit : Nat) (db : Keyspace K Doc) :
    (zrangebyscore key max limit db).Nodup := by
  have members : (((zsetAt key db).entries.filter (fun entry => entry.2 ≤ max)).map
      Sigma.fst).Nodup :=
    (List.filter_sublist.map Sigma.fst).nodup (AList.keys_nodup (zsetAt key db))
  have sorted := ((List.perm_insertionSort (fun first second => rank first ≤ rank second)
    ((zsetAt key db).entries.filter (fun entry => entry.2 ≤ max))).map Sigma.fst).nodup_iff.mpr
      members
  rw [zrangebyscore]
  exact ((List.take_sublist limit _).map Sigma.fst).nodup sorted

theorem hget_congr {key : K} {db other : Keyspace K Doc}
    (same : (other key).map Entry.value = (db key).map Entry.value) (field : String) :
    hget key field other = hget key field db := by
  have values := congrArg (Option.map Value.asHash) same
  simp only [Option.map_map] at values
  exact congrArg (fun held : Option (Hash Doc) => (held.getD ∅).lookup field) values

theorem zscore_congr {key : K} {db other : Keyspace K Doc}
    (same : (other key).map Entry.value = (db key).map Entry.value) (member : String) :
    zscore key member other = zscore key member db := by
  have values := congrArg (Option.map Value.asZset) same
  simp only [Option.map_map] at values
  exact congrArg (fun held : Option SortedSet => (held.getD ∅).lookup member) values

end Reading

section Writing

variable [DecidableEq K]

/-- Write a collection: an empty one removes the key, a key that exists keeps
its expiry, and a new key has none. -/
def store (key : K) (value : Value Doc) (db : Keyspace K Doc) : Keyspace K Doc :=
  Function.update db key
    (if nonempty : value.isEmpty = false then
      some ⟨value, (db key).bind Entry.expiry, nonempty⟩
    else none)

/-- `HSET` with one field -/
def hset (key : K) (field : String) (value : Bulk Doc) (db : Keyspace K Doc) :
    Keyspace K Doc :=
  store key (.hash ((hashAt key db).insert field value)) db

/-- `HDEL` -/
def hdel (key : K) (field : String) (db : Keyspace K Doc) : Keyspace K Doc :=
  store key (.hash ((hashAt key db).erase field)) db

/-- `HINCRBY`: the new count and the keyspace that holds it. -/
def hincrby (key : K) (field : String) (increment : Int) (db : Keyspace K Doc) :
    Int × Keyspace K Doc :=
  let count := ((hget key field db).bind Bulk.toNumber?).getD 0 + increment
  (count, hset key field (.num count) db)

/-- `ZADD` with one member -/
def zadd (key : K) (score : Int) (member : String) (db : Keyspace K Doc) :
    Keyspace K Doc :=
  store key (.zset ((zsetAt key db).insert member score)) db

/-- `ZREM` -/
def zrem (key : K) (member : String) (db : Keyspace K Doc) : Keyspace K Doc :=
  store key (.zset ((zsetAt key db).erase member)) db

/-- `ZPOPMIN` with count 1: the popped member and the keyspace without it. -/
def zpopmin (key : K) (db : Keyspace K Doc) : Option String × Keyspace K Doc :=
  match (zsetAt key db).entries.argmin rank with
  | none => (none, db)
  | some entry => (some entry.1, zrem key entry.1 db)

/-- `PEXPIREAT` at a clock reading: an instant that has been reached deletes the
key. -/
def pexpireat (now : Int) (key : K) (expiry : Int) (db : Keyspace K Doc) :
    Keyspace K Doc :=
  match db key with
  | none => db
  | some entry =>
      Function.update db key
        (if expiry ≤ now then none else some { entry with expiry := some expiry })

/-- `DEL` with one key -/
def del (key : K) (db : Keyspace K Doc) : Keyspace K Doc := Function.update db key none

/-! ### Reading after writing -/

theorem hashAt_store (key other : K) (value : Value Doc) (db : Keyspace K Doc) :
    hashAt other (store key value db) =
      if other = key then value.asHash else hashAt other db := by
  by_cases same : other = key
  · subst same
    cases empty : value.isEmpty with
    | true => simp [hashAt, store, empty, Value.asHash_of_isEmpty empty]
    | false => simp [hashAt, store, empty]
  · simp [hashAt, store, same]

theorem zsetAt_store (key other : K) (value : Value Doc) (db : Keyspace K Doc) :
    zsetAt other (store key value db) =
      if other = key then value.asZset else zsetAt other db := by
  by_cases same : other = key
  · subst same
    cases empty : value.isEmpty with
    | true => simp [zsetAt, store, empty, Value.asZset_of_isEmpty empty]
    | false => simp [zsetAt, store, empty]
  · simp [zsetAt, store, same]

@[simp]
theorem hget_hset (key other : K) (field wanted : String) (value : Bulk Doc)
    (db : Keyspace K Doc) :
    hget other wanted (hset key field value db) =
      if other = key ∧ wanted = field then some value else hget other wanted db := by
  by_cases sameKey : other = key
  · subst sameKey
    simp [hget, hset, hashAt_store, Value.asHash, lookup_insert_ite]
  · simp [hget, hset, hashAt_store, sameKey]

@[simp]
theorem hget_hdel (key other : K) (field wanted : String) (db : Keyspace K Doc) :
    hget other wanted (hdel key field db) =
      if other = key ∧ wanted = field then none else hget other wanted db := by
  by_cases sameKey : other = key
  · subst sameKey
    simp [hget, hdel, hashAt_store, Value.asHash, lookup_erase_ite]
  · simp [hget, hdel, hashAt_store, sameKey]

@[simp]
theorem zscore_zadd (key other : K) (score : Int) (member wanted : String)
    (db : Keyspace K Doc) :
    zscore other wanted (zadd key score member db) =
      if other = key ∧ wanted = member then some score else zscore other wanted db := by
  by_cases sameKey : other = key
  · subst sameKey
    simp [zscore, zadd, zsetAt_store, Value.asZset, lookup_insert_ite]
  · simp [zscore, zadd, zsetAt_store, sameKey]

@[simp]
theorem zscore_zrem (key other : K) (member wanted : String) (db : Keyspace K Doc) :
    zscore other wanted (zrem key member db) =
      if other = key ∧ wanted = member then none else zscore other wanted db := by
  by_cases sameKey : other = key
  · subst sameKey
    simp [zscore, zrem, zsetAt_store, Value.asZset, lookup_erase_ite]
  · simp [zscore, zrem, zsetAt_store, sameKey]

@[simp]
theorem hget_zadd (key other : K) (score : Int) (member field : String)
    (db : Keyspace K Doc) :
    hget other field (zadd key score member db) =
      if other = key then none else hget other field db := by
  by_cases sameKey : other = key <;>
    simp [hget, zadd, hashAt_store, Value.asHash, sameKey]

@[simp]
theorem hget_zrem (key other : K) (member field : String) (db : Keyspace K Doc) :
    hget other field (zrem key member db) =
      if other = key then none else hget other field db := by
  by_cases sameKey : other = key <;>
    simp [hget, zrem, hashAt_store, Value.asHash, sameKey]

@[simp]
theorem zscore_hset (key other : K) (field member : String) (value : Bulk Doc)
    (db : Keyspace K Doc) :
    zscore other member (hset key field value db) =
      if other = key then none else zscore other member db := by
  by_cases sameKey : other = key <;>
    simp [zscore, hset, zsetAt_store, Value.asZset, sameKey]

@[simp]
theorem zscore_hdel (key other : K) (field member : String) (db : Keyspace K Doc) :
    zscore other member (hdel key field db) =
      if other = key then none else zscore other member db := by
  by_cases sameKey : other = key <;>
    simp [zscore, hdel, zsetAt_store, Value.asZset, sameKey]

/-- What `ZPOPMIN` can do: nothing on an empty set, and otherwise remove a
member of least rank. -/
theorem zpopmin_cases (key : K) (db : Keyspace K Doc) :
    (zpopmin key db = (none, db) ∧ ∀ member, zscore key member db = none) ∨
      ∃ member score, zpopmin key db = (some member, zrem key member db) ∧
        zscore key member db = some score ∧
        ∀ other otherScore, zscore key other db = some otherScore →
          rank ⟨member, score⟩ ≤ rank ⟨other, otherScore⟩ := by
  cases least : (zsetAt key db).entries.argmin rank with
  | none =>
      left
      have noEntries : (zsetAt key db).entries = [] := List.argmin_eq_none.mp least
      refine ⟨by simp [zpopmin, least], ?_⟩
      intro member
      cases held : zscore key member db with
      | none => rfl
      | some score =>
          have listed := (mem_entries_iff key member score db).mpr held
          simp [noEntries] at listed
  | some entry =>
      right
      refine ⟨entry.1, entry.2, by simp [zpopmin, least], ?_, ?_⟩
      · exact (mem_entries_iff key _ _ db).mp (List.argmin_mem least)
      · intro other otherScore held
        have listed := (mem_entries_iff key other otherScore db).mpr held
        exact List.le_of_mem_argmin listed least

/-! ### Expiry of written keys -/

/-- A write keeps the expiry of a key that exists and gives a new key none. -/
theorem store_expiry {key : K} {value : Value Doc} {db : Keyspace K Doc}
    {entry : Entry Doc} (held : store key value db key = some entry) :
    entry.expiry = (db key).bind Entry.expiry := by
  simp only [store, Function.update_self] at held
  split at held
  · cases held
    rfl
  · cases held

theorem store_other {key other : K} (different : other ≠ key) (value : Value Doc)
    (db : Keyspace K Doc) : store key value db other = db other := by
  simp [store, different]

/-- Writing under a key that exists leaves a common expiry in place. -/
theorem expiresAt_store {expiry : Int} {key : K} {value : Value Doc}
    {db : Keyspace K Doc} (expires : ExpiresAt expiry db) (present : (db key).isSome) :
    ExpiresAt expiry (store key value db) := by
  intro other entry held
  by_cases same : other = key
  · subst same
    obtain ⟨before, was⟩ := Option.isSome_iff_exists.mp present
    rw [store_expiry held, was]
    exact expires other before was
  · rw [store_other same] at held
    exact expires other entry held

theorem pexpireat_self {now expiry : Int} {key : K} {db : Keyspace K Doc}
    {entry : Entry Doc} (held : pexpireat now key expiry db key = some entry) :
    entry.expiry = some expiry := by
  cases was : db key with
  | none => simp [pexpireat, was] at held
  | some before =>
      simp only [pexpireat, was, Function.update_self] at held
      split at held
      · cases held
      · cases held
        rfl

theorem pexpireat_other {now expiry : Int} {key other : K} (different : other ≠ key)
    (db : Keyspace K Doc) : pexpireat now key expiry db other = db other := by
  cases was : db key <;> simp [pexpireat, was, different]

/-- An expiry in the future changes no content. -/
theorem pexpireat_value {now expiry : Int} (future : now < expiry) (key other : K)
    (db : Keyspace K Doc) :
    (pexpireat now key expiry db other).map Entry.value = (db other).map Entry.value := by
  by_cases same : other = key
  · subst same
    cases was : db other <;> simp [pexpireat, was, not_le.mpr future]
  · rw [pexpireat_other same]

/-- Giving many keys a future expiry changes no content. -/
theorem foldl_pexpireat_value {now expiry : Int} (future : now < expiry) (keys : List K)
    (other : K) (db : Keyspace K Doc) :
    (keys.foldl (fun db key => pexpireat now key expiry db) db other).map Entry.value =
      (db other).map Entry.value := by
  induction keys generalizing db with
  | nil => rfl
  | cons key keys ih =>
      rw [List.foldl_cons, ih, pexpireat_value future]

/-- Every key that was given the expiry carries it, whatever it carried before. -/
theorem foldl_pexpireat_expiry {now expiry : Int} (keys : List K) {other : K}
    {entry : Entry Doc} (db : Keyspace K Doc)
    (given : other ∈ keys ∨ ∀ before, db other = some before → before.expiry = some expiry)
    (held : keys.foldl (fun db key => pexpireat now key expiry db) db other = some entry) :
    entry.expiry = some expiry := by
  induction keys generalizing db with
  | nil => exact given.elim (by simp) (fun carried => carried entry held)
  | cons key keys ih =>
      apply ih (pexpireat now key expiry db) _ held
      by_cases same : other = key
      · subst same
        exact Or.inr (fun before was => pexpireat_self was)
      · rw [pexpireat_other same]
        exact given.imp_left (fun member => (List.mem_cons.mp member).resolve_left same)

end Writing

end Redis
