import ApiSentinel.Trace

/-!
# One expiry for all keys

The collections of a run vanish and reappear, each time without an expiry, so
every script that writes must end in `touch`.  Here nothing is assumed of the
keys but that they started out empty: not even that the arguments of `CREATE`
make sense.
-/

namespace ApiSentinel

open Redis

variable {Text : Type} {codec : Codec Text} {db : Db Text}

/-- Every key that exists carries the expiry stored in `meta`. -/
def Dated (db : Db Text) : Prop :=
  ∀ key entry, db key = some entry →
    ∃ expires, hget .metadata "expires" db = some (.num expires) ∧ entry.expiry = some expires

theorem dated_empty : Dated (empty : Db Text) := by
  intro key entry held
  cases held

theorem hget_of_missing {key : Key} (missing : db key = none) (field : String) :
    hget key field db = none := by
  simp [hget, hashAt, missing]

/-- A dated database without `meta` has no keys at all. -/
theorem Dated.eq_empty (dated : Dated db) (missing : exists? Key.metadata db = false) :
    db = empty := by
  have noMeta : db .metadata = none := by simpa [exists?] using missing
  funext key
  cases held : db key with
  | none => rfl
  | some entry =>
      obtain ⟨expires, stored, _⟩ := dated key entry held
      rw [hget_of_missing noMeta] at stored
      cases stored

theorem Dated.expiresAt (dated : Dated db) {expires : Int}
    (stored : hget .metadata "expires" db = some (.num expires)) : ExpiresAt expires db := by
  intro key entry held
  obtain ⟨other, otherStored, carried⟩ := dated key entry held
  rw [stored] at otherStored
  cases otherStored
  exact carried

theorem dated_of_expiresAt {expires : Int} (carried : ExpiresAt expires db)
    (stored : hget .metadata "expires" db = some (.num expires)) : Dated db :=
  fun key entry held => ⟨expires, stored, carried key entry held⟩

/-- A dated database with any key has an expiry in `meta`. -/
theorem Dated.empty_or_stored (dated : Dated db) :
    db = empty ∨ ∃ expires, hget .metadata "expires" db = some (.num expires) := by
  cases present : exists? Key.metadata db with
  | false => exact .inl (dated.eq_empty present)
  | true =>
      obtain ⟨entry, held⟩ := Option.isSome_iff_exists.mp present
      obtain ⟨expires, stored, _⟩ := dated .metadata entry held
      exact .inr ⟨expires, stored⟩

/-- All keys of a dated database disappear at the same instant. -/
theorem Dated.live_cases (dated : Dated db) (now : Int) :
    live now db = empty ∨ live now db = db := by
  rcases dated.empty_or_stored with rfl | ⟨expires, stored⟩
  · exact .inl (live_empty now)
  · have carried := dated.expiresAt stored
    by_cases early : now ≤ expires
    · exact .inr (live_eq_self carried early)
    · exact .inl (live_eq_empty carried (Int.lt_of_not_ge early))

theorem Dated.live (dated : Dated db) (now : Int) : Dated (live now db) := by
  rcases dated.live_cases now with gone | same
  · rw [gone]
    exact dated_empty
  · rwa [same]

/-! ### Every script ends in `touch` -/

/-- The keys are those of a written database after `touch`, and the writes left
`meta` alone. -/
def Touched (now : Int) (before after : Db Text) : Prop :=
  ∃ written, (∀ field, hget .metadata field written = hget .metadata field before) ∧
    after = touch Key.own now written

theorem Touched.of_written {now : Int} {before written after : Db Text}
    (touched : Touched now written after)
    (same : ∀ field, hget .metadata field written = hget .metadata field before) :
    Touched now before after := by
  obtain ⟨last, kept, rfl⟩ := touched
  exact ⟨last, fun field => (kept field).trans (same field), rfl⟩

/-- All four ways out of the pop loop. -/
theorem popLoop_touched (codec : Codec Text) (now : Int) (token : String) (lease : Int)
    (rounds : Nat) (db : Db Text) :
    Touched now db (popLoop Key.own codec now token lease rounds db).2 := by
  induction rounds generalizing db with
  | zero => exact ⟨db, fun _ => rfl, rfl⟩
  | succ rounds ih =>
      rw [popLoop]
      rcases zpopmin_cases (Key.own .ready) db with ⟨noneReady, _⟩ | ⟨id, _, pops, _⟩
      · simp only [noneReady]
        exact ⟨db, fun _ => rfl, rfl⟩
      · simp only [pops]
        have same : ∀ field, hget .metadata field (hincrby (Key.own .attempts) id 1
            (zrem (Key.own .ready) id db)).2 = hget .metadata field db := by
          simp [hincrby]
        generalize hincrby (Key.own .attempts) id 1 (zrem (Key.own .ready) id db) = count at same ⊢
        split
        · exact (ih _).of_written (by simp [same])
        · exact ⟨_, by simp [same], rfl⟩

/-- Everything that a call can do to the keys. -/
theorem exec_cases (codec : Codec Text) (now : Int) (call : Call Text) (db : Db Text) :
    (call.exec Key.own codec now db).2 = db ∨
      (active Key.own now db = true ∧
        Touched now db (call.exec Key.own codec now db).2) ∨
      (exists? Key.metadata db = true ∧
        (call.exec Key.own codec now db).2 = hset .metadata "state" (.text "closed") db) ∨
      ∃ args, call = .create args ∧ exists? Key.metadata db = false := by
  cases call with
  | create args =>
      cases present : exists? Key.metadata db with
      | false => exact .inr (.inr (.inr ⟨args, rfl, rfl⟩))
      | true => simp [Call.exec, create, present]
  | claim token lease =>
      cases isActive : active Key.own now db with
      | false => exact .inl (congrArg Prod.snd (claim_inactive codec isActive token lease))
      | true =>
          refine .inr (.inl ⟨rfl, ?_⟩)
          rw [Call.exec, claim, if_pos isActive]
          exact (popLoop_touched codec now token lease 100 _).of_written
            (samePlan_foldl_reclaim _ db).metadata
  | renew id token lease =>
      cases held : holds Key.own now id token db with
      | false => exact .inl (congrArg Prod.snd (renew_refused held lease))
      | true =>
          refine .inr (.inl ⟨holds_active held, ?_⟩)
          rw [Call.exec, renew, if_pos held]
          exact ⟨_, (samePlan_renew (now + lease) id db).metadata, rfl⟩
  | complete id token result =>
      by_cases held : (holds Key.own now id token db && !hexists (Key.own .results) id db) = true
      · refine .inr (.inl ⟨holds_active (Bool.and_eq_true_iff.mp held).1, ?_⟩)
        rw [Call.exec, complete, if_pos held]
        exact ⟨_, (samePlan_completing id result db).metadata, rfl⟩
      · left
        rw [Call.exec, complete, if_neg held]
  | close =>
      cases present : exists? Key.metadata db with
      | false => simp [Call.exec, close, present]
      | true => simp [Call.exec, close, present]

/-! ### The invariant -/

/-- A call whose arguments `RunQueue.create` would send, if it is a `CREATE`. -/
def Call.Checked (codec : Codec Text) (call : Call Text) : Prop :=
  ∀ args, call = .create args →
    ∃ submission : Submission, submission.check codec = .ok () ∧ args = submission.args codec

/-- The keys are dated, and a run is active only before they expire. -/
structure Expiring (db : Db Text) : Prop where
  dated : Dated db
  active_lt : ∀ now expires, active Key.own now db = true →
    hget .metadata "expires" db = some (.num expires) → now < expires

theorem expiring_empty : Expiring (empty : Db Text) where
  dated := dated_empty
  active_lt now expires isActive := by simp [active_empty] at isActive

/-- What `active` reads is in `meta`. -/
theorem active_congr {after : Db Text}
    (same : ∀ field, hget .metadata field after = hget .metadata field db) (now : Int) :
    active Key.own now after = active Key.own now db := by
  simp only [active, hgetNumber, Key.own_eq, same]
  rfl

theorem Expiring.live (expiring : Expiring db) (now : Int) : Expiring (live now db) := by
  rcases expiring.dated.live_cases now with gone | same
  · rw [gone]
    exact expiring_empty
  · rwa [same]

theorem Expiring.of_metadata {after : Db Text} (expiring : Expiring db)
    (same : ∀ field, hget .metadata field after = hget .metadata field db)
    (dated : Dated after) : Expiring after where
  dated := dated
  active_lt now expires isActive stored := by
    rw [active_congr same] at isActive
    rw [same] at stored
    exact expiring.active_lt now expires isActive stored

theorem Inv.expiring {run : Run} (inv : Inv codec run db) : Expiring db where
  dated := dated_of_expiresAt inv.expiry inv.planned.expires
  active_lt now expires isActive stored := by
    rw [inv.planned.expires] at stored
    cases stored
    exact ((inv.planned.active_iff now).mp isActive).2.trans run.deadline_lt

/-- The keys of a run, until all of them expire. -/
def Keys (codec : Codec Text) (run : Run) (db : Db Text) : Prop :=
  Inv codec run db ∨ db = empty

theorem Keys.dated {run : Run} (keys : Keys codec run db) : Dated db := by
  rcases keys with inv | rfl
  · exact inv.expiring.dated
  · exact dated_empty

theorem Keys.live_cases {run : Run} (keys : Keys codec run db) (now : Int) :
    live now db = empty ∨ live now db = db :=
  keys.dated.live_cases now

theorem Keys.of_live {run : Run} (keys : Keys codec run db) (now : Int) :
    Keys codec run (live now db) := by
  rcases keys.live_cases now with gone | same
  · exact .inr gone
  · rwa [same]

section Call

variable {run : Run} {now : Int} {call : Call Text} (keys : Keys codec run db)
  (old : (record codec now call db).creates = false)
include keys old

/-- A call that finds the keys keeps the run, and one that does not does nothing. -/
theorem Keys.call_cases :
    (Inv codec run (live now db) ∧ Recorded codec run (record codec now call db)) ∨
      (live now db = empty ∧ (record codec now call db).after = empty) := by
  rcases keys.of_live now with inv | gone
  · exact .inl ⟨inv, recorded inv call⟩
  · exact .inr ⟨gone, (record_gone gone old).1⟩

theorem Keys.after : Keys codec run (record codec now call db).after := by
  rcases keys.call_cases old with ⟨_, step⟩ | ⟨_, gone⟩
  · exact .inl step.inv
  · exact .inr gone

theorem Keys.after_empty (gone : db = empty) : (record codec now call db).after = empty := by
  rcases keys.call_cases old with ⟨inv, _⟩ | ⟨_, after⟩
  · exact (inv.ne_empty (by rw [gone, live_empty])).elim
  · exact after

end Call

/-- The keys of one run at any time of a trace. -/
theorem Created.keys {run : Run} {start : Db Text} {calls : Calls Text}
    (created : Created codec run start) (trace : calls.OneRun codec start) :
    Keys codec run (calls.state codec start) := by
  rcases created.alive_or_gone calls trace with alive | gone
  · exact .inl alive.inv
  · exact .inr gone.empty

theorem Expiring.expires_of_active (expiring : Expiring db) {now : Int}
    (isActive : active Key.own now db = true) :
    ∃ expires, hget .metadata "expires" db = some (.num expires) ∧ now < expires := by
  rcases expiring.dated.empty_or_stored with rfl | ⟨expires, stored⟩
  · simp [active_empty] at isActive
  · exact ⟨expires, stored, expiring.active_lt now expires isActive stored⟩

theorem Expiring.of_closed (expiring : Expiring db)
    (present : exists? Key.metadata db = true) :
    Expiring (hset .metadata "state" (.text "closed") db) where
  dated := by
    rcases expiring.dated.empty_or_stored with rfl | ⟨expires, stored⟩
    · cases present
    · exact dated_of_expiresAt (expiresAt_store (expiring.dated.expiresAt stored) present)
        (by simpa using stored)
  active_lt now expires isActive := by simp [active, Bulk.text?] at isActive

/-- A call keeps the keys dated and the stored expiry unchanged. -/
theorem exec_expiring (expiring : Expiring db) (now : Int) {call : Call Text}
    (checked : call.Checked codec) :
    Expiring (call.exec Key.own codec now db).2 ∧
      ∀ expires, hget .metadata "expires" db = some (.num expires) →
        hget .metadata "expires" (call.exec Key.own codec now db).2 = some (.num expires) := by
  rcases exec_cases codec now call db with
    same | ⟨isActive, written, same, touched⟩ | ⟨present, closed⟩ | ⟨args, rfl, missing⟩
  · rw [same]
    exact ⟨expiring, fun _ stored => stored⟩
  · obtain ⟨expires, stored, future⟩ := expiring.expires_of_active isActive
    have number : hgetNumber Key.own .metadata "expires" written = some expires := by
      simp [hgetNumber, same, stored, Bulk.toNumber?]
    have kept : ∀ field, hget .metadata field (touch Key.own now written) =
        hget .metadata field db :=
      fun field => ((samePlan_touch number future).metadata field).trans (same field)
    rw [touched]
    refine ⟨expiring.of_metadata kept (dated_of_expiresAt (expiresAt_touch number) ?_), ?_⟩
    · rw [kept, stored]
    · intro other otherStored
      rw [kept, otherStored]
  · rw [closed]
    exact ⟨expiring.of_closed present, fun _ stored => by simpa using stored⟩
  · obtain rfl := expiring.dated.eq_empty missing
    obtain ⟨submission, passed, rfl⟩ := checked args rfl
    have created := created_empty codec (Submission.timed_of_check passed) now
    exact ⟨created.inv.expiring, fun _ stored => by simp at stored⟩

theorem expiring_state (calls : Calls Text)
    (checked : ∀ call ∈ calls, call.2.Checked codec) :
    Expiring (Calls.state codec empty calls) := by
  induction calls with
  | nil => exact expiring_empty
  | cons head calls ih =>
      have older := ih (fun call member => checked call (List.mem_cons_of_mem _ member))
      exact (exec_expiring (older.live head.1) head.1 (checked head List.mem_cons_self)).1

/-- A `CREATE` that succeeds has found no key of the run. -/
theorem before_of_creates (dated : Dated db) {now : Int} {call : Call Text}
    (creates : (record codec now call db).creates = true) :
    (record codec now call db).before = empty := by
  cases call with
  | create args =>
      apply (dated.live now).eq_empty
      by_contra present
      rw [Bool.not_eq_false] at present
      simp [Record.creates, Record.accepted, record, Call.exec, create, present, Reply.isOne]
        at creates
  | claim token lease => cases creates
  | renew id token lease => cases creates
  | complete id token result => cases creates
  | close => cases creates

theorem state_gone {start : Db Text} {expires : Int} (carried : ExpiresAt expires start)
    (newer : Calls Text) (late : ∀ call ∈ newer, expires < call.1)
    (others : ∀ call ∈ newer, ∀ args, call.2 ≠ .create args) (some : newer ≠ []) :
    newer.state codec start = empty := by
  induction newer with
  | nil => exact (some rfl).elim
  | cons head newer ih =>
      obtain ⟨now, call⟩ := head
      have gone : live now (Calls.state codec start newer) = empty := by
        by_cases first : newer = []
        · subst first
          exact live_eq_empty carried (late _ List.mem_cons_self)
        · rw [ih (fun call member => late call (List.mem_cons_of_mem _ member))
            (fun call member => others call (List.mem_cons_of_mem _ member)) first, live_empty]
      refine (record_gone gone ?_).1
      have other := others _ List.mem_cons_self
      cases call with
      | create args => exact (other args rfl).elim
      | claim token lease => rfl
      | renew id token lease => rfl
      | complete id token result => rfl
      | close => rfl

theorem expires_kept {start : Db Text} (expiring : Expiring start) {expires : Int}
    (stored : hget .metadata "expires" start = some (.num expires)) (newer : Calls Text)
    (early : ∀ call ∈ newer, call.1 ≤ expires)
    (checked : ∀ call ∈ newer, call.2.Checked codec) :
    Expiring (newer.state codec start) ∧
      hget .metadata "expires" (newer.state codec start) = some (.num expires) := by
  induction newer with
  | nil => exact ⟨expiring, stored⟩
  | cons head newer ih =>
      obtain ⟨older, olderStored⟩ := ih
        (fun call member => early call (List.mem_cons_of_mem _ member))
        (fun call member => checked call (List.mem_cons_of_mem _ member))
      have found := live_eq_self (older.dated.expiresAt olderStored) (early head List.mem_cons_self)
      have step := exec_expiring (found.symm ▸ older) head.1 (checked head List.mem_cons_self)
      exact ⟨step.1, step.2 expires (by rw [found, olderStored])⟩

/-- Between any two calls every key that exists carries the one expiry stored in
`meta`, which no call changes; past it nothing is left and nothing comes back, and
a `CREATE` that succeeds starts from no keys. -/
theorem keys_expire_together (codec : Codec Text) (calls : Calls Text)
    (checked : ∀ call ∈ calls, call.2.Checked codec) :
    (∀ key entry, Calls.state codec empty calls key = some entry →
      ∃ expires, hget .metadata "expires" (Calls.state codec empty calls) = some (.num expires) ∧
        entry.expiry = some expires) ∧
    (∀ expires, hget .metadata "expires" (Calls.state codec empty calls) = some (.num expires) →
      (∀ now, live now (Calls.state codec empty calls) =
        if now ≤ expires then Calls.state codec empty calls else empty) ∧
      (∀ newer : Calls Text, (∀ call ∈ newer, call.1 ≤ expires) →
        (∀ call ∈ newer, call.2.Checked codec) →
        hget .metadata "expires" (Calls.state codec empty (newer ++ calls)) =
          some (.num expires)) ∧
      ∀ newer : Calls Text, (∀ call ∈ newer, expires < call.1) →
        (∀ call ∈ newer, ∀ args, call.2 ≠ .create args) → newer ≠ [] →
        Calls.state codec empty (newer ++ calls) = empty) ∧
    ∀ now call, (record codec now call (Calls.state codec empty calls)).creates = true →
      (record codec now call (Calls.state codec empty calls)).before = empty := by
  have expiring := expiring_state calls checked
  refine ⟨expiring.dated, ?_, fun now call => before_of_creates expiring.dated⟩
  intro expires stored
  have carried := expiring.dated.expiresAt stored
  refine ⟨?_, ?_, ?_⟩
  · intro now
    by_cases early : now ≤ expires
    · rw [if_pos early, live_eq_self carried early]
    · rw [if_neg early, live_eq_empty carried (Int.lt_of_not_ge early)]
  · intro newer early newerChecked
    rw [Calls.state_append]
    exact (expires_kept expiring stored newer early newerChecked).2
  · intro newer late others some
    rw [Calls.state_append]
    exact state_gone carried newer late others some

/-- The sample run, created at one second and claimed after its keys expired. -/
theorem keys_expire_together_sample :
    Calls.state Codec.plain empty
      [(86701001, .claim "late" 30000), (1000, .create (Sample.submission.args Codec.plain))] =
        empty := by
  refine ((keys_expire_together Codec.plain
    [(1000, .create (Sample.submission.args Codec.plain))] ?_).2.1 86701000 ?_).2.2
      [(86701001, .claim "late" 30000)] ?_ ?_ ?_
  · intro call member args created
    obtain rfl := List.mem_singleton.mp member
    cases created
    exact ⟨Sample.submission, Sample.check_submission, rfl⟩
  · rfl
  · simp
  · simp
  · simp

/-! ### Started runs -/

/-- `RunQueue.create` has started a run, whatever its run ID was used for before. -/
def Started (codec : Codec Text) (micros : Int) (submission : Submission) (start : Db Text) :
    Prop :=
  ∃ earlier : Calls Text, (∀ call ∈ earlier, call.2.Checked codec) ∧
    RunQueue.create Key.own codec micros submission (earlier.state codec empty) = (.ok (), start)

/-- A run starts with what `CREATE` writes into a database without keys. -/
theorem Started.create_empty {micros : Int} {submission : Submission} {start : Db Text}
    (started : Started codec micros submission start) :
    submission.Timed ∧
      start = (ApiSentinel.create Key.own (millis micros) (submission.args codec) empty).2 := by
  obtain ⟨earlier, checked, created⟩ := started
  have expiring := (expiring_state earlier checked).live (millis micros)
  cases passed : submission.check codec with
  | error raised => simp [RunQueue.create, passed] at created
  | ok =>
      cases present : exists? Key.metadata (live (millis micros) (earlier.state codec empty)) with
      | true => simp [RunQueue.create, passed, ApiSentinel.create, present, Reply.isOne] at created
      | false =>
          have gone := expiring.dated.eq_empty present
          simp only [RunQueue.create, passed, gone, ApiSentinel.create_empty, Reply.isOne]
            at created
          refine ⟨Submission.timed_of_check passed, ?_⟩
          rw [ApiSentinel.create_empty]
          exact (Prod.mk.inj created).2.symm

theorem Started.created {micros : Int} {submission : Submission} {start : Db Text}
    (started : Started codec micros submission start) :
    ∃ timed : submission.Timed,
      Created codec (submission.run timed (millis micros)) start := by
  obtain ⟨timed, rfl⟩ := started.create_empty
  exact ⟨timed, created_empty codec timed (millis micros)⟩

/-- The keys after the sample suite is submitted at one second. -/
def Sample.start : Db Document :=
  (RunQueue.create Key.own Codec.plain 1000000 Sample.submission empty).2

theorem Sample.started : Started Codec.plain 1000000 Sample.submission Sample.start :=
  ⟨[], by simp, rfl⟩

/-- The keys after the suite with a body that is not a number is submitted at one second. -/
def Sample.nanStart : Db Document :=
  (RunQueue.create Key.own Codec.plain 1000000 Sample.nanSubmission empty).2

theorem Sample.nanStarted : Started Codec.plain 1000000 Sample.nanSubmission Sample.nanStart :=
  ⟨[], by simp, rfl⟩

end ApiSentinel
