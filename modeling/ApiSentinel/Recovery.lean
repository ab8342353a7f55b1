import ApiSentinel.Fencing
import Mathlib.Algebra.BigOperators.Group.List.Lemmas
import Mathlib.Algebra.Order.BigOperators.Group.List

/-!
# Recovery from dead workers

As long as a case has no result, a claim that finds every lease run out has
something to pop: the reclaim loop puts an expired lease back if nothing is ready.
Every pop uses up one of the deliveries that the cases have left, so a bounded
number of such claims finishes the run.
-/

namespace ApiSentinel

open Redis

variable {Text : Type} {codec : Codec Text} {run : Run} {db : Db Text}

/-! ### What is left to do -/

/-- The deliveries that a case has left, and its exhaustion after them. -/
def Slot.remaining (limit : Nat) (case : Slot Text) : Nat :=
  if case.result.isSome then 0
  else limit + 1 - ((case.attempts.bind Bulk.toNumber?).getD 0).toNat

theorem Matches.remaining {case : Slot Text} {item : Item Text} (matched : Matches case item)
    (limit : Nat) : case.remaining limit = item.remaining limit := by
  cases matched with
  | ready => simp [Slot.remaining, Lease.Item.remaining, counted_number]
  | leased => simp [Slot.remaining, Lease.Item.remaining, counted_number]
  | finished => rfl

/-- What all cases of the plan have left. -/
def outstanding (run : Run) (db : Db Text) : Nat :=
  (run.ids.map (fun id => (slot db id).remaining run.deliveries)).sum

theorem outstanding_le (run : Run) (db : Db Text) :
    outstanding run db ≤ run.suite.cases.length * (run.deliveries + 1) := by
  have bound : ∀ amount ∈ run.ids.map (fun id => (slot db id).remaining run.deliveries),
      amount ≤ run.deliveries + 1 := by
    intro amount listed
    obtain ⟨id, _, rfl⟩ := List.mem_map.mp listed
    unfold Slot.remaining
    split <;> omega
  have total := List.sum_le_card_nsmul _ _ bound
  simpa [outstanding, Run.ids] using total

/-! ### What a claim uses up -/

section Moves

variable {now expiry : Int} {limit : Nat} {id token : String} {due taken : Prop}
  {number : Option Nat} {item middle next : Item Text}

theorem remaining_le (lapse : LapseMove now due item middle)
    (pop : PopMove codec limit id token expiry taken middle number next) :
    next.remaining limit ≤ item.remaining limit := by
  cases lapse <;> cases pop <;> simp only [Lease.Item.remaining] <;> omega

theorem remaining_lt (lapse : LapseMove now due item middle)
    (pop : PopMove codec limit id token expiry taken middle number next) (out : taken)
    (within : item.Within limit) : next.remaining limit < item.remaining limit := by
  cases pop with
  | stay left => exact (left out).elim
  | exhaust _ used =>
      cases lapse <;> simp only [Lease.Item.remaining, Lease.Item.Within] at within ⊢ <;> omega
  | deliver _ left =>
      cases lapse <;> simp only [Lease.Item.remaining] <;> omega

end Moves

/-- The pop loop pops if anything is ready. -/
theorem popped_of_waiting (codec : Codec Text) {id : String} {score : Int}
    (waiting : zscore .ready id db = some score) (rounds : Nat) :
    ∃ first later, popped Key.own codec (rounds + 1) db = first :: later ∧
      ∃ score, zscore .ready first db = some score := by
  rcases zpopmin_cases (Key.own .ready) db with ⟨_, none⟩ | ⟨first, score, pops, held, _⟩
  · have missing := none id
    rw [Key.own_eq, waiting] at missing
    cases missing
  · refine ⟨first, (popped Key.own codec (rounds + 1) db).tail, ?_, score, held⟩
    rw [popped]
    simp only [pops]
    split <;> rfl

/-- With every lease run out, a case without a result leaves something to pop. -/
theorem Placed.waiting (placed : Placed run db) {now : Int} {id : String}
    (ranOut : ∀ id expiry, zscore .leases id db = some expiry → expiry ≤ now)
    (member : id ∈ run.ids) (unfinished : hget .results id db = none) :
    ∃ other score, zscore .ready other (reclaimed now db) = some score := by
  obtain ⟨item, matched⟩ := placed.cases id member
  cases item with
  | ready deliveries =>
      obtain ⟨next, arrived, lapse⟩ := reclaimed_move now id _ matched
      cases lapse with
      | stay running => exact ⟨id, arrived.waiting⟩
  | leased token expiry deliveries =>
      have due := zrangebyscore_ne_nil matched.lease (ranOut id expiry matched.lease) 99
      obtain ⟨other, listed⟩ := List.exists_mem_of_ne_nil _ due
      obtain ⟨otherExpiry, held, _⟩ := mem_zrangebyscore listed
      have otherMember := placed.member_of_lease held
      obtain ⟨otherItem, otherMatched⟩ := placed.cases other otherMember
      obtain ⟨next, arrived, lapse⟩ := reclaimed_move now other _ otherMatched
      cases lapse with
      | stay running => exact (running listed).elim
      | lapse => exact ⟨other, arrived.waiting⟩
  | finished result =>
      have stored := matched.stored
      rw [unfinished] at stored
      cases stored

/-! ### One claim -/

section Claim

variable {start : Db Text} {calls : Calls Text} {now : Int}

/-- A case without a result is something left to do. -/
theorem Alive.outstanding_pos (alive : Alive codec run start calls) {id : String}
    (member : id ∈ run.ids) (unfinished : hget .results id (calls.state codec start) = none) :
    0 < outstanding run (calls.state codec start) := by
  obtain ⟨item, matched, life⟩ := alive.cases id member
  have within := life.within
  have positive : 0 < item.remaining run.deliveries := by
    cases item with
    | ready deliveries => exact Nat.sub_pos_of_lt (Nat.lt_succ_of_le within)
    | leased token expiry deliveries => exact Nat.sub_pos_of_lt (Nat.lt_succ_of_le within)
    | finished result =>
        have stored := matched.stored
        rw [unfinished] at stored
        cases stored
  rw [← matched.remaining] at positive
  exact lt_of_lt_of_le positive (List.le_sum_of_mem (List.mem_map_of_mem member))

/-- While a case has no result, a claim that finds every lease run out hands out a
job or writes a result, and leaves less to do. -/
theorem Alive.claim_progress (alive : Alive codec run start calls)
    (unclosed : ∀ time, (time, Call.close) ∉ calls) (early : now < run.deadline)
    (ranOut : ∀ id expiry, zscore .leases id (calls.state codec start) = some expiry →
      expiry ≤ now)
    {id : String} (member : id ∈ run.ids)
    (unfinished : hget .results id (calls.state codec start) = none)
    (token : String) (lease : Int) :
    (((record codec now (.claim token lease) (calls.state codec start)).job? codec).isSome ∨
      ∃ other, hget .results other (calls.state codec start) = none ∧
        (hget .results other
          (record codec now (.claim token lease) (calls.state codec start)).after).isSome) ∧
    outstanding run (record codec now (.claim token lease) (calls.state codec start)).after <
      outstanding run (calls.state codec start) := by
  have found : live now (calls.state codec start) = calls.state codec start :=
    live_eq_self alive.inv.expiry (le_of_lt (early.trans run.deadline_lt))
  have isActive := alive.active_iff.mpr ⟨unclosed, early⟩
  obtain ⟨delivered, replied, claiming⟩ := claim_claiming alive.inv isActive token lease
  have answered : (record codec now (.claim token lease) (calls.state codec start)).reply =
      deliveryReply codec run delivered := by
    rw [← replied]
    simp only [record, Call.exec, found]
  have after : (record codec now (.claim token lease) (calls.state codec start)).after =
      (claim Key.own codec now token lease (calls.state codec start)).2 := by
    simp only [record, Call.exec, found]
  obtain ⟨_, _, waiting⟩ := alive.inv.placed.waiting ranOut member unfinished
  obtain ⟨first, later, pops, _, held⟩ := popped_of_waiting codec waiting 99
  have taken : first ∈ claimPops codec now (calls.state codec start) := by
    rw [claimPops, pops]
    exact List.mem_cons_self
  have firstMember := (placed_reclaimed alive.inv.placed now).member_of_ready held
  rw [after]
  obtain ⟨item, matched, life⟩ := alive.cases first firstMember
  obtain ⟨middle, next, arrived, lapse, pop⟩ := claiming.moves first firstMember item matched
  have less := remaining_lt lapse pop taken life.within
  constructor
  · generalize numbered : numberOf delivered first = number at pop
    cases pop with
    | stay left => exact (left taken).elim
    | exhaust out used =>
        refine .inr ⟨first, ?_, ?_⟩
        · rw [matched.stored]
          cases lapse <;> rfl
        · rw [arrived.stored]
          rfl
    | deliver out left =>
        left
        rw [job?_claim rfl answered]
        cases delivered with
        | none => cases numbered
        | some delivery =>
            obtain ⟨case, plan, _⟩ := Run.case?_of_mem (claiming.planned delivery.1 delivery.2 rfl)
            simp [plan]
  · apply List.sum_lt_sum
    · intro other otherMember
      obtain ⟨otherItem, otherMatched⟩ := alive.inv.placed.cases other otherMember
      obtain ⟨_, otherNext, otherArrived, otherLapse, otherPop⟩ :=
        claiming.moves other otherMember otherItem otherMatched
      rw [otherMatched.remaining, otherArrived.remaining]
      exact remaining_le otherLapse otherPop
    · refine ⟨first, firstMember, ?_⟩
      rw [matched.remaining, arrived.remaining]
      exact less

end Claim

/-! ### Claims in a row -/

/-- Only claims, each before the deadline and at a time when every lease that is
still held has run out. -/
def Calls.Recover (codec : Codec Text) (deadline : Int) (start : Db Text) : Calls Text → Prop
  | [] => True
  | (now, call) :: older =>
      Recover codec deadline start older ∧ (∃ token lease, call = .claim token lease) ∧
        now < deadline ∧ ∀ id expiry,
          zscore .leases id (Calls.state codec start older) = some expiry → expiry ≤ now

section Recover

variable {deadline : Int} {start : Db Text} {newer claims older : Calls Text}

theorem Calls.Recover.past (recover : Calls.Recover codec deadline start (newer ++ claims)) :
    Calls.Recover codec deadline start claims := by
  induction newer with
  | nil => exact recover
  | cons head newer ih => exact ih recover.1

theorem Calls.Recover.each (recover : Calls.Recover codec deadline start claims) :
    ∀ call ∈ claims, (∃ token lease, call.2 = .claim token lease) ∧ call.1 < deadline := by
  induction claims with
  | nil => simp
  | cons head claims ih =>
      intro call member
      rcases List.mem_cons.mp member with rfl | older
      · exact ⟨recover.2.1, recover.2.2.1⟩
      · exact ih recover.1 call older

variable (created : Created codec run start)
  (early : ∀ call ∈ older, call.1 ≤ run.expires)
  (unclosed : ∀ time, (time, Call.close) ∉ older)
include created early unclosed

/-- Claims alone neither outlive the keys nor close the run. -/
theorem Created.alive_of_recover
    (recover : Calls.Recover codec run.deadline (older.state codec start) claims) :
    Alive codec run start (claims ++ older) ∧ ∀ time, (time, Call.close) ∉ claims ++ older := by
  constructor
  · apply created.alive_of_early
    intro call member
    rcases List.mem_append.mp member with claim | old
    · exact le_of_lt ((recover.each call claim).2.trans run.deadline_lt)
    · exact early call old
  · intro time member
    rcases List.mem_append.mp member with claim | old
    · obtain ⟨⟨token, lease, called⟩, _⟩ := recover.each _ claim
      cases called
    · exact unclosed time old

/-- What the next claim of a recovery does. -/
theorem Created.recover_step {now : Int} {call : Call Text}
    (recover : Calls.Recover codec run.deadline (older.state codec start)
      ((now, call) :: claims))
    {id : String} (member : id ∈ run.ids)
    (unfinished : hget .results id (Calls.state codec start (claims ++ older)) = none) :
    (((record codec now call (Calls.state codec start (claims ++ older))).job? codec).isSome ∨
      ∃ other, hget .results other (Calls.state codec start (claims ++ older)) = none ∧
        (hget .results other
          (record codec now call (Calls.state codec start (claims ++ older))).after).isSome) ∧
    outstanding run (record codec now call (Calls.state codec start (claims ++ older))).after <
      outstanding run (Calls.state codec start (claims ++ older)) := by
  obtain ⟨past, ⟨token, lease, rfl⟩, before, ranOut⟩ := recover
  obtain ⟨alive, open_⟩ := created.alive_of_recover early unclosed past
  rw [← Calls.state_append] at ranOut
  exact alive.claim_progress open_ before ranOut member unfinished token lease

/-- Every claim of a recovery has used something up, or the run is finished. -/
theorem Created.recovered
    (recover : Calls.Recover codec run.deadline (older.state codec start) claims) :
    (∀ id ∈ run.ids, (hget .results id (Calls.state codec start (claims ++ older))).isSome) ∨
      outstanding run (Calls.state codec start (claims ++ older)) + claims.length ≤
        outstanding run (older.state codec start) := by
  induction claims with
  | nil => exact .inr (le_refl _)
  | cons head claims ih =>
      obtain ⟨now, call⟩ := head
      obtain ⟨past, _, before, _⟩ := id recover
      by_cases finished : ∀ id ∈ run.ids,
          (hget .results id (Calls.state codec start (claims ++ older))).isSome
      · left
        intro id member
        obtain ⟨value, stored⟩ := Option.isSome_iff_exists.mp (finished id member)
        have kept := results_kept created [(now, call)] ?_ stored
        · exact Option.isSome_iff_exists.mpr ⟨value, kept⟩
        · intro call member
          rcases List.mem_append.mp member with claim | old
          · rw [List.mem_singleton.mp claim]
            exact le_of_lt (before.trans run.deadline_lt)
          · rcases List.mem_append.mp old with claim | old
            · exact le_of_lt ((past.each call claim).2.trans run.deadline_lt)
            · exact early call old
      · right
        obtain ⟨id, member, unfinished⟩ : ∃ id ∈ run.ids,
            hget .results id (Calls.state codec start (claims ++ older)) = none := by
          simpa using finished
        have bound := (ih past).resolve_left finished
        have less := (created.recover_step early unclosed recover member unfinished).2
        change outstanding run
          (record codec now call (Calls.state codec start (claims ++ older))).after + _ ≤ _
        rw [List.length_cons]
        omega

end Recover

/-- Claims at times when every lease has run out: each of them hands out a job or
writes a result as long as a case has none, and after as many as there are cases
times the permitted deliveries and one more, every case has a result. -/
theorem bounded_recovery {micros : Int} {submission : Submission} {start : Db Text}
    (started : Started codec micros submission start) (older claims : Calls Text)
    (early : ∀ call ∈ older, call.1 ≤ submission.expires (millis micros))
    (unclosed : ∀ time, (time, Call.close) ∉ older)
    (recover : Calls.Recover codec (submission.deadline (millis micros))
      (older.state codec start) claims) :
    (∀ newer now call past, claims = newer ++ (now, call) :: past →
      (∃ case ∈ submission.suite.cases,
        hget .results case.id (Calls.state codec start (past ++ older)) = none) →
      ((record codec now call (Calls.state codec start (past ++ older))).job? codec).isSome ∨
        ∃ id, hget .results id (Calls.state codec start (past ++ older)) = none ∧
          (hget .results id
            (record codec now call (Calls.state codec start (past ++ older))).after).isSome) ∧
    ((submission.suite.cases.length : Int) * (submission.maxDeliveries + 1) ≤ claims.length →
      ∀ case ∈ submission.suite.cases,
        (hget .results case.id (Calls.state codec start (claims ++ older))).isSome) := by
  obtain ⟨timed, created⟩ := started.created
  constructor
  · rintro newer now call past rfl ⟨case, member, unfinished⟩
    exact (created.recover_step early unclosed recover.past (List.mem_map_of_mem member)
      unfinished).1
  · intro many case member
    have listed : case.id ∈ (submission.run timed (millis micros)).ids := List.mem_map_of_mem member
    rcases created.recovered early unclosed recover with finished | bound
    · exact finished case.id listed
    · by_contra unfinished
      rw [Option.not_isSome_iff_eq_none] at unfinished
      obtain ⟨alive, _⟩ := created.alive_of_recover early unclosed recover
      have left := alive.outstanding_pos listed unfinished
      have total := outstanding_le (submission.run timed (millis micros)) (older.state codec start)
      have limit := Submission.run_deliveries timed (millis micros)
      rw [← limit] at many
      change _ ≤ submission.suite.cases.length * _ at total
      have enough : submission.suite.cases.length *
          ((submission.run timed (millis micros)).deliveries + 1) ≤ claims.length := by
        exact_mod_cast many
      omega

namespace Sample

/-- The sample case is claimed four times, and never completed. -/
def deaths : Calls Document :=
  [(123000, .claim "fourth" 30000), (92000, .claim "third" 30000),
    (61000, .claim "second" 30000), (30000, .claim "first" 30000)]

theorem recover_deaths :
    Calls.Recover Codec.plain (submission.deadline 1000) start deaths := by
  have ranOut : ∀ {calls : Calls Document} {now : Int},
      (zsetAt Key.leases (calls.state Codec.plain start)).entries.all
        (fun entry => decide (entry.2 ≤ now)) = true →
      ∀ id expiry, zscore .leases id (calls.state Codec.plain start) = some expiry →
        expiry ≤ now := by
    intro calls now all id expiry held
    have listed := (mem_entries_iff Key.leases id expiry _).mpr held
    simpa using List.all_eq_true.mp all _ listed
  refine ⟨⟨⟨⟨trivial, ⟨_, _, rfl⟩, by decide, ?_⟩, ⟨_, _, rfl⟩, by decide, ?_⟩,
    ⟨_, _, rfl⟩, by decide, ?_⟩, ⟨_, _, rfl⟩, by decide, ?_⟩
  · exact ranOut rfl
  · exact ranOut rfl
  · exact ranOut rfl
  · exact ranOut rfl

end Sample

theorem bounded_recovery_sample :
    (hget .results "health" (Sample.deaths.state Codec.plain Sample.start)).isSome :=
  (bounded_recovery Sample.started [] Sample.deaths (by simp) (by simp)
    Sample.recover_deaths).2 (by decide) Sample.case List.mem_cons_self

end ApiSentinel
