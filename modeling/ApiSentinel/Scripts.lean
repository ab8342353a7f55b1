import ApiSentinel.Encoding
import ApiSentinel.Redis

/-!
# The queue scripts

The five Lua scripts over the seven keys of a run.  Each runs at one clock
reading `now`, the floor of Redis `TIME` in milliseconds.  Lua numbers and
sorted-set scores are integers here; the doubles that hold them are exact below
`2 ^ 53`.
-/

namespace ApiSentinel

open Redis

/-- The keys of a run, in the order of `KEYS`. -/
inductive Key
  | metadata
  | tasks
  | ready
  | leases
  | owners
  | attempts
  | results
  deriving DecidableEq, Repr

def Key.all : List Key :=
  [.metadata, .tasks, .ready, .leases, .owners, .attempts, .results]

/-- The keys of a single run under their own names. -/
def Key.own (key : Key) : Key := key

@[simp]
theorem Key.own_eq (key : Key) : key.own = key :=
  rfl

/-- What a script returns to its caller. -/
inductive Reply (Text : Type)
  | nil
  | int (value : Int)
  | job (payload : Option (Bulk Text)) (attempt : Int)

namespace Reply

variable {Text : Type}

/-- The script returned 1. -/
def isOne : Reply Text → Bool
  | .int value => value == 1
  | _ => false

end Reply

variable {K Text : Type} [DecidableEq K] (KEYS : Key → K)

/-- Lua's `tonumber(redis.call('HGET', key, field))`. -/
def hgetNumber (key : Key) (field : String) (db : Keyspace K Text) : Option Int :=
  (hget (KEYS key) field db).bind Bulk.toNumber?

/-- `COMMON`: give every key of the run the expiry stored in `meta`. -/
def touch (now : Int) (db : Keyspace K Text) : Keyspace K Text :=
  match hgetNumber KEYS .metadata "expires" db with
  | none => db
  | some expires => Key.all.foldl (fun db key => pexpireat now (KEYS key) expires db) db

/-- `COMMON`: the run is open and before its deadline. -/
def active (now : Int) (db : Keyspace K Text) : Bool :=
  (hget (KEYS .metadata) "state" db).bind Bulk.text? == some "open" &&
    decide ((hgetNumber KEYS .metadata "deadline" db).getD 0 > now)

/-- The arguments of `CREATE`: `ARGV[1]` to `ARGV[5]`, the cases decoded. -/
structure CreateArgs (Text : Type) where
  payload : Text
  cases : List (String × Text)
  timeout : Int
  retention : Int
  deliveries : Int

/-- The loop of `CREATE`: the cases from position `index` on. -/
def enqueue (index : Int) : List (String × Text) → Keyspace K Text → Keyspace K Text
  | [], db => db
  | (id, payload) :: rest, db =>
      let db := hset (KEYS .tasks) id (.doc payload) db
      let db := zadd (KEYS .ready) index id db
      enqueue (index + 1) rest db

/-- `CREATE` -/
def create (now : Int) (args : CreateArgs Text) (db : Keyspace K Text) :
    Reply Text × Keyspace K Text :=
  if exists? (KEYS .metadata) db then (.int 0, db)
  else
    let db := hset (KEYS .metadata) "payload" (.doc args.payload) db
    let db := hset (KEYS .metadata) "state" (.text "open") db
    let db := hset (KEYS .metadata) "deadline" (.num (now + args.timeout)) db
    let db := hset (KEYS .metadata) "expires" (.num (now + args.timeout + args.retention)) db
    let db := hset (KEYS .metadata) "deliveries" (.num args.deliveries) db
    let db := hset (KEYS .metadata) "total" (.num args.cases.length) db
    let db := enqueue KEYS 1 args.cases db
    (.int 1, touch KEYS now db)

/-- One round of the reclaim loop of `CLAIM`. -/
def reclaim (db : Keyspace K Text) (id : String) : Keyspace K Text :=
  let db := zrem (KEYS .leases) id db
  let db := hdel (KEYS .owners) id db
  if hexists (KEYS .results) id db then db else zadd (KEYS .ready) 0 id db

/-- The leases that `CLAIM` reclaims. -/
def expired (now : Int) (db : Keyspace K Text) : List String :=
  zrangebyscore (KEYS .leases) now 100 db

def exhaustedMessage : String := "worker delivery limit exhausted"

/-- The pop loop of `CLAIM`, with the number of rounds left.  An ID whose
deliveries are used up becomes an error result and the loop goes on; the first
other ID is leased to the caller. -/
def popLoop (codec : Codec Text) (now : Int) (token : String) (lease : Int) :
    Nat → Keyspace K Text → Reply Text × Keyspace K Text
  | 0, db => (.nil, touch KEYS now db)
  | rounds + 1, db =>
      match zpopmin (KEYS .ready) db with
      | (none, db) => (.nil, touch KEYS now db)
      | (some id, db) =>
          let (attempt, db) := hincrby (KEYS .attempts) id 1 db
          if attempt > (hgetNumber KEYS .metadata "deliveries" db).getD 0 then
            popLoop codec now token lease rounds
              (hset (KEYS .results) id
                (.doc (codec.encodeError id (attempt - 1) exhaustedMessage)) db)
          else
            let db := hset (KEYS .owners) id (.text token) db
            let db := zadd (KEYS .leases) (now + lease) id db
            let db := touch KEYS now db
            (.job (hget (KEYS .tasks) id db) attempt, db)

/-- The IDs that the pop loop takes out of `ready`, in its order. -/
def popped (codec : Codec Text) : Nat → Keyspace K Text → List String
  | 0, _ => []
  | rounds + 1, db =>
      match zpopmin (KEYS .ready) db with
      | (none, _) => []
      | (some id, db) =>
          let (attempt, db) := hincrby (KEYS .attempts) id 1 db
          if attempt > (hgetNumber KEYS .metadata "deliveries" db).getD 0 then
            id :: popped codec rounds
              (hset (KEYS .results) id
                (.doc (codec.encodeError id (attempt - 1) exhaustedMessage)) db)
          else [id]

/-- `CLAIM` -/
def claim (codec : Codec Text) (now : Int) (token : String) (lease : Int)
    (db : Keyspace K Text) : Reply Text × Keyspace K Text :=
  if active KEYS now db then
    popLoop KEYS codec now token lease 100 ((expired KEYS now db).foldl (reclaim KEYS) db)
  else (.nil, db)

/-- The checks that `RENEW` and `COMPLETE` share: the run is active, the token
owns the case and its lease has not run out. -/
def holds (now : Int) (id token : String) (db : Keyspace K Text) : Bool :=
  active KEYS now db &&
    (hget (KEYS .owners) id db).bind Bulk.text? == some token &&
    decide (now < (zscore (KEYS .leases) id db).getD 0)

/-- `RENEW` -/
def renew (now : Int) (id token : String) (lease : Int) (db : Keyspace K Text) :
    Reply Text × Keyspace K Text :=
  if holds KEYS now id token db then
    (.int 1, touch KEYS now (zadd (KEYS .leases) (now + lease) id db))
  else (.int 0, db)

/-- `COMPLETE` -/
def complete (now : Int) (id token : String) (result : Text) (db : Keyspace K Text) :
    Reply Text × Keyspace K Text :=
  if holds KEYS now id token db && !hexists (KEYS .results) id db then
    let db := hset (KEYS .results) id (.doc result) db
    let db := hdel (KEYS .owners) id db
    let db := zrem (KEYS .leases) id db
    (.int 1, touch KEYS now db)
  else (.int 0, db)

/-- `CLOSE` -/
def close (db : Keyspace K Text) : Reply Text × Keyspace K Text :=
  if exists? (KEYS .metadata) db then
    (.int 1, hset (KEYS .metadata) "state" (.text "closed") db)
  else (.int 0, db)

end ApiSentinel
