import ApiSentinel.Fencing

/-!
# Delivery accounting

The claims of a case are numbered from 1 on, and the queue writes an error result
of its own for a case when a claim takes it out of `ready` after every permitted
delivery has lapsed.
-/

namespace ApiSentinel

open Redis Lease

variable {Text : Type} {codec : Codec Text} {run : Run}

/-- The number under which a call of `claim` handed out an ID. -/
def Record.attempt (codec : Codec Text) (id : String) (record : Record Text) : Option Int :=
  (record.job? codec).bind (fun job => if job.case.id = id then some job.delivery else none)

theorem numbers_events (id : String) (record : Record Text) :
    History.numbers
        (((record.events codec id).map (fun event => (record.now, event))).reverse) =
      (record.attempt codec id).toList := by
  cases called : record.call with
  | claim token lease =>
      simp only [Record.events, called, Record.attempt]
      cases handed : record.job? codec with
      | none => cases record.exhausts id <;> cases record.reclaims id <;> rfl
      | some job =>
          by_cases wanted : job.case.id = id <;> cases record.exhausts id <;>
            cases record.reclaims id <;> simp [wanted, History.numbers, History.deliveryNumber]
  | renew target token lease =>
      by_cases accepted : target = id ∧ record.accepted = true <;>
        simp [Record.events, called, Record.attempt, Record.job?, accepted, History.numbers,
          History.deliveryNumber]
  | complete target token result =>
      by_cases accepted : target = id ∧ record.accepted = true <;>
        simp [Record.events, called, Record.attempt, Record.job?, accepted, History.numbers,
          History.deliveryNumber]
  | create args =>
      simp [Record.events, called, Record.attempt, Record.job?, History.numbers]
  | close => simp [Record.events, called, Record.attempt, Record.job?, History.numbers]

theorem numbers_eventsOf (codec : Codec Text) (id : String) (records : List (Record Text)) :
    History.numbers (eventsOf codec id records) = records.filterMap (Record.attempt codec id) := by
  induction records with
  | nil => rfl
  | cons record older ih =>
      rw [History.numbers] at ih
      rw [eventsOf_cons, History.numbers, List.filterMap_append, ih, ← History.numbers,
        numbers_events, List.filterMap_cons]
      cases record.attempt codec id <;> rfl

theorem lapses_events (id : String) (record : Record Text) :
    History.lapses
        (((record.events codec id).map (fun event => (record.now, event))).reverse) =
      (record.reclaims id).toNat := by
  cases called : record.call with
  | claim token lease =>
      simp only [Record.events, called]
      cases record.job? codec with
      | none => cases record.exhausts id <;> cases record.reclaims id <;> rfl
      | some job =>
          by_cases wanted : job.case.id = id <;> cases record.exhausts id <;>
            cases record.reclaims id <;> simp [wanted, History.lapses, History.isLapse]
  | renew target token lease =>
      by_cases accepted : target = id ∧ record.accepted = true <;>
        simp [Record.events, called, Record.reclaims, accepted, History.lapses, History.isLapse]
  | complete target token result =>
      by_cases accepted : target = id ∧ record.accepted = true <;>
        simp [Record.events, called, Record.reclaims, accepted, History.lapses, History.isLapse]
  | create args => simp [Record.events, called, Record.reclaims, History.lapses]
  | close => simp [Record.events, called, Record.reclaims, History.lapses]

theorem lapses_eventsOf (codec : Codec Text) (id : String) (records : List (Record Text)) :
    History.lapses (eventsOf codec id records) = records.countP (Record.reclaims id) := by
  induction records with
  | nil => rfl
  | cons record older ih =>
      rw [History.lapses] at ih
      rw [eventsOf_cons, History.lapses, List.countP_append, ih, ← History.lapses, lapses_events,
        List.countP_cons]
      cases record.reclaims id <;> simp [Nat.add_comm]

/-- Writing a result is the last event of a claim. -/
theorem events_of_exhausts (codec : Codec Text) {id : String} {record : Record Text} {text : Text}
    (written : record.exhausts id = some text) :
    ∃ front, record.events codec id = front ++ [.exhaust text] := by
  cases called : record.call with
  | claim token lease =>
      rw [Record.events, called]
      simp only [written]
      exact ⟨_, rfl⟩
  | create args => simp [Record.exhausts, called] at written
  | renew target token lease => simp [Record.exhausts, called] at written
  | complete target token result => simp [Record.exhausts, called] at written
  | close => simp [Record.exhausts, called] at written

/-- No completion of the ID has been accepted. -/
def Uncompleted (id : String) (records : List (Record Text)) : Prop :=
  ∀ record ∈ records, ∀ token result, record.call = .complete id token result →
    record.accepted = false

theorem uncompleted_of_history {id : String} {records : List (Record Text)}
    (open_ : ¬ History.Completed (eventsOf codec id records)) : Uncompleted id records := by
  intro record member token result called
  by_contra accepted
  rw [Bool.not_eq_false] at accepted
  apply open_
  refine ⟨record.now, token, result, mem_eventsOf member ?_⟩
  simp [Record.events, called, accepted]

/-- Every permitted delivery of a case has lapsed, the last of them in the call
itself or before, and no completion was accepted. -/
structure UsedUp (codec : Codec Text) (limit : Int) (id : String) (record : Record Text)
    (older : List (Record Text)) : Prop where
  deliveries : ((older.filterMap (Record.attempt codec id)).length : Int) = limit
  lapsed : ((record :: older).countP (Record.reclaims id) : Int) = limit
  uncompleted : Uncompleted id older

/-! ### One call -/

section Call

variable {start : Db Text} {calls : Calls Text} {now : Int} {id : String}

/-- Only a claim of an active run can exhaust a case or take it out of `ready`. -/
theorem claims_of_active {call : Call Text} {db : Db Text}
    (acts : ((record codec now call db).exhausts id).isSome ∨
      (record codec now call db).pops codec id = true) :
    ∃ token lease, call = .claim token lease ∧ active Key.own now (live now db) = true := by
  cases call with
  | claim token lease =>
      refine ⟨token, lease, rfl, ?_⟩
      by_contra inactive
      rw [Bool.not_eq_true] at inactive
      have unchanged : (record codec now (.claim token lease) db).after =
          (record codec now (.claim token lease) db).before :=
        congrArg Prod.snd (claim_inactive codec inactive token lease)
      rcases acts with written | taken
      · simp [exhausts_unchanged unchanged] at written
      · simp [Record.pops, record, inactive] at taken
  | create args =>
      rcases acts with written | taken <;> simp [Record.exhausts, Record.pops, record] at *
  | renew target token lease =>
      rcases acts with written | taken <;> simp [Record.exhausts, Record.pops, record] at *
  | complete target token result =>
      rcases acts with written | taken <;> simp [Record.exhausts, Record.pops, record] at *
  | close => rcases acts with written | taken <;> simp [Record.exhausts, Record.pops, record] at *

theorem Created.alive_of_active (created : Created codec run start)
    (trace : calls.OneRun codec start)
    (isActive : active Key.own now (live now (calls.state codec start)) = true) :
    Alive codec run start calls ∧
      live now (calls.state codec start) = calls.state codec start := by
  rcases created.alive_or_gone calls trace with alive | gone
  · rcases alive.inv.expiring.dated.live_cases now with expired | same
    · rw [expired, active_empty] at isActive
      cases isActive
    · exact ⟨alive, same⟩
  · rw [gone.empty, live_empty, active_empty] at isActive
    cases isActive

theorem pops_claim_iff (codec : Codec Text) {db : Db Text}
    (isActive : active Key.own now (live now db) = true) (token : String) (lease : Int)
    (id : String) :
    (record codec now (.claim token lease) db).pops codec id = true ↔
      id ∈ claimPops codec now (live now db) := by
  simp only [Record.pops, record, isActive, Bool.true_and]
  exact decide_eq_true_iff

/-- A case that the reclaim loop leaves in `ready` was delivered and has lapsed as often
as its count says, the lapse of the loop included. -/
theorem LapseMove.counts {limit deliveries : Nat} {due : Prop} [Decidable due]
    {history : History String Text} {item : Item Text}
    (lapse : LapseMove now due item (.ready deliveries)) (life : Lifecycle limit history item) :
    deliveries = History.deliveries history ∧ deliveries ≤ limit ∧
      ¬ History.Completed history ∧
      History.lapses history + (if due then 1 else 0) = deliveries := by
  have agrees := life.agrees
  have balanced := life.balanced
  cases lapse with
  | stay running =>
      rw [if_neg running]
      exact ⟨agrees.1, agrees.2.1, agrees.2.2.1, balanced⟩
  | lapse listed reached =>
      rw [if_pos listed]
      exact ⟨agrees.1, agrees.2.1, agrees.2.2.1, balanced⟩

theorem LapseMove.result_eq_none {deliveries : Nat} {due : Prop} {item : Item Text}
    (lapse : LapseMove now due item (.ready deliveries)) : item.result = none := by
  cases lapse <;> rfl

/-- Nobody holds a case that the reclaim loop leaves in `ready`. -/
theorem LapseMove.not_holds {db : Db Text} {deliveries : Nat} {due : Prop} {item : Item Text}
    (lapse : LapseMove now due item (.ready deliveries)) (placed : Placed run db)
    (matched : Matches (slot db id) item) (holder : String) :
    holds Key.own now id holder db = false := by
  rw [Bool.eq_false_iff, ne_eq, ApiSentinel.holds_iff placed]
  rintro ⟨_, _, expiry, number, leased, running⟩
  obtain rfl := matched.unique leased
  cases lapse with
  | lapse listed reached => omega

/-- What a claim of an active run does to one case of the plan: it writes no
result, or finds the deliveries of the case used up. -/
theorem Alive.claim_outcome (alive : Alive codec run start calls) (token : String) (lease : Int)
    (same : live now (calls.state codec start) = calls.state codec start)
    (isActive : active Key.own now (calls.state codec start) = true) (member : id ∈ run.ids) :
    ((record codec now (.claim token lease) (calls.state codec start)).exhausts id = none ∧
      ((record codec now (.claim token lease) (calls.state codec start)).pops codec id = true →
        ((calls.history codec start).filterMap (Record.attempt codec id)).length <
          run.deliveries)) ∨
    ((record codec now (.claim token lease) (calls.state codec start)).exhausts id =
        some (codec.encodeError id run.deliveries exhaustedMessage) ∧
      (record codec now (.claim token lease) (calls.state codec start)).pops codec id = true ∧
      UsedUp codec run.deliveries id
        (record codec now (.claim token lease) (calls.state codec start))
        (calls.history codec start) ∧
      ∀ holder, holds Key.own now id holder (calls.state codec start) = false) := by
  obtain ⟨delivered, _, claiming⟩ := claim_claiming alive.inv isActive token lease
  obtain ⟨item, matched, life⟩ := alive.cases id member
  obtain ⟨middle, next, arrived, lapse, pop⟩ := claiming.moves id member item matched
  have exhausts : (record codec now (.claim token lease) (calls.state codec start)).exhausts id =
      if item.result.isNone then next.result else none := by
    have before : Matches (slot (record codec now (.claim token lease)
        (calls.state codec start)).before id) item := by
      simpa only [record, same] using matched
    have after : Matches (slot (record codec now (.claim token lease)
        (calls.state codec start)).after id) next := by
      simpa only [record, Call.exec, same] using arrived
    exact exhausts_claim rfl before after
  have pops := pops_claim_iff codec (same.symm ▸ isActive) token lease id
  have reclaims := reclaims_claim_iff codec (same.symm ▸ isActive) token lease id
  rw [same] at pops reclaims
  have counted : History.deliveries (eventsOf codec id (calls.history codec start)) =
      ((calls.history codec start).filterMap (Record.attempt codec id)).length := by
    rw [History.deliveries, numbers_eventsOf]
  rw [exhausts]
  generalize numberOf delivered id = number at pop
  cases pop with
  | stay left =>
      refine .inl ⟨?_, fun taken => (left (pops.mp taken)).elim⟩
      cases lapse with
      | stay => cases item <;> rfl
      | lapse => rfl
  | deliver out within =>
      refine .inl ⟨by rw [lapse.result_eq_none]; rfl, fun _ => ?_⟩
      obtain ⟨before, _⟩ := lapse.counts life
      rwa [← counted, ← before]
  | exhaust out used =>
      right
      obtain ⟨before, most, uncompleted, lapsed⟩ := lapse.counts life
      obtain rfl := Nat.le_antisymm most used
      refine ⟨by rw [lapse.result_eq_none]; rfl, pops.mpr out, ⟨?_, ?_, ?_⟩, ?_⟩
      · rw [← counted, ← before]
      · rw [List.countP_cons, ← lapses_eventsOf codec]
        simp only [reclaims]
        exact congrArg Nat.cast lapsed
      · exact uncompleted_of_history uncompleted
      · exact lapse.not_holds alive.inv.placed matched

theorem Created.member_of_exhausts (created : Created codec run start)
    (trace : calls.OneRun codec start) {call : Call Text} {text : Text}
    (written : (record codec now call (calls.state codec start)).exhausts id = some text) :
    id ∈ run.ids := by
  obtain ⟨token, lease, rfl, isActive⟩ := claims_of_active (.inl (Option.isSome_of_eq_some written))
  obtain ⟨alive, same⟩ := created.alive_of_active trace isActive
  by_contra absent
  obtain ⟨front, last⟩ := events_of_exhausts codec written
  rw [(recorded_claim (same.symm ▸ alive.inv)).others id absent] at last
  simp at last

/-- A call exhausts a case exactly when it takes it out of `ready` with its
deliveries used up. -/
theorem Created.exhausts_iff (created : Created codec run start)
    (positive : 0 < run.deliveries) (trace : calls.OneRun codec start) (call : Call Text) :
    ((record codec now call (calls.state codec start)).exhausts id).isSome ↔
      (record codec now call (calls.state codec start)).pops codec id = true ∧
        UsedUp codec run.deliveries id (record codec now call (calls.state codec start))
          (calls.history codec start) := by
  by_cases acts : ((record codec now call (calls.state codec start)).exhausts id).isSome ∨
      (record codec now call (calls.state codec start)).pops codec id = true
  · obtain ⟨token, lease, rfl, isActive⟩ := claims_of_active acts
    obtain ⟨alive, same⟩ := created.alive_of_active trace isActive
    rw [same] at isActive
    by_cases member : id ∈ run.ids
    · rcases alive.claim_outcome token lease same isActive member with
        ⟨kept, below⟩ | ⟨written, taken, used, _⟩
      · rw [kept]
        constructor
        · intro impossible
          cases impossible
        · rintro ⟨taken, used⟩
          have := below taken
          have := used.deliveries
          omega
      · simp only [written, Option.isSome_some, taken, used, and_self]
    · have silent : (record codec now (.claim token lease) (calls.state codec start)).exhausts id =
          none := by
        by_contra written
        obtain ⟨text, written⟩ := Option.ne_none_iff_exists'.mp written
        exact member (created.member_of_exhausts trace written)
      rw [silent]
      constructor
      · intro impossible
        cases impossible
      · rintro ⟨_, used⟩
        have none := used.deliveries
        rw [← numbers_eventsOf, alive.others id member] at none
        simp [History.numbers] at none
        omega
  · rw [not_or, Bool.not_eq_true] at acts
    simp [acts.1, acts.2]

/-- The result that a call writes carries the delivery limit, and nobody holds a
live lease on the case then. -/
theorem Created.exhausted (created : Created codec run start) (trace : calls.OneRun codec start)
    {call : Call Text} {text : Text}
    (written : (record codec now call (calls.state codec start)).exhausts id = some text)
    (member : id ∈ run.ids) :
    text = codec.encodeError id run.deliveries exhaustedMessage ∧
      ∀ holder, holds Key.own now id holder (live now (calls.state codec start)) = false := by
  have acts := Option.isSome_of_eq_some written
  obtain ⟨token, lease, rfl, isActive⟩ := claims_of_active (.inl acts)
  obtain ⟨alive, same⟩ := created.alive_of_active trace isActive
  rw [same] at isActive ⊢
  rcases alive.claim_outcome token lease same isActive member with
    ⟨kept, _⟩ | ⟨result, _, _, free⟩
  · rw [kept] at written
    cases written
  · rw [result] at written
    cases written
    exact ⟨rfl, free⟩

/-- A case that a call has exhausted is not handed out by any later one. -/
theorem Created.not_issued (created : Created codec run start) {newer : Calls Text}
    {call : Call Text} {text : Text}
    (trace : Calls.OneRun codec start (newer ++ (now, call) :: calls))
    (written : (record codec now call (calls.state codec start)).exhausts id = some text)
    (member : id ∈ run.ids) :
    ∀ later ∈ Calls.history codec (Calls.state codec start ((now, call) :: calls)) newer,
      later.issues codec id = none := by
  obtain ⟨item, life⟩ := created.lifecycle trace member
  obtain ⟨front, last⟩ := events_of_exhausts codec written
  rw [Calls.history_append, eventsOf_append, Calls.history, eventsOf_cons, last] at life
  simp only [List.map_append, List.map_cons, List.map_nil, List.reverse_append,
    List.reverse_singleton, List.cons_append] at life
  have nothing := life.exhaust_newest
  apply List.findSome?_eq_none_iff.mp
  rw [← lastToken_eventsOf, nothing]
  rfl

/-- The deliveries of a case carry the numbers 1, 2, … up to the limit. -/
theorem Created.attempts_numbered (created : Created codec run start)
    (trace : calls.OneRun codec start) (id : String) :
    ∃ count : Nat, count ≤ run.deliveries ∧
      ((calls.history codec start).filterMap (Record.attempt codec id)).reverse =
        (List.range count).map (fun (index : Nat) => (index : Int) + 1) := by
  rw [← numbers_eventsOf]
  by_cases member : id ∈ run.ids
  · obtain ⟨item, life⟩ := created.lifecycle trace member
    exact ⟨_, life.deliveries_le, life.numbers_eq⟩
  · rw [created.events_of_absent trace member]
    exact ⟨0, Nat.zero_le _, rfl⟩

end Call

/-- In every trace of a run the successful claims of a case are numbered 1, 2, …
without gaps, never beyond the delivery limit.  The queue writes a result of its own
for a case exactly when a claim pops it with every permitted delivery lapsed; that
result carries the limit, no lease is live then, and the case is never handed out
again. -/
theorem delivery_accounting {micros : Int} {submission : Submission} {start : Db Text}
    (started : Started codec micros submission start) {calls : Calls Text}
    (trace : calls.OneRun codec start) (id : String) :
    (∃ count : Nat, (count : Int) ≤ submission.maxDeliveries ∧
      ((calls.history codec start).filterMap (Record.attempt codec id)).reverse =
        (List.range count).map (fun (index : Nat) => (index : Int) + 1)) ∧
    ∀ newer now call older, calls = newer ++ (now, call) :: older →
      (((record codec now call (Calls.state codec start older)).exhausts id).isSome ↔
        (record codec now call (Calls.state codec start older)).pops codec id = true ∧
          UsedUp codec submission.maxDeliveries id
            (record codec now call (Calls.state codec start older))
            (Calls.history codec start older)) ∧
      ∀ text, (record codec now call (Calls.state codec start older)).exhausts id = some text →
        codec.validateResult text = some
          { caseId := id, status := .error, workerId := "queue",
            delivery := submission.maxDeliveries, message := some exhaustedMessage } ∧
        (∀ holder, holds Key.own now id holder (live now (Calls.state codec start older)) =
          false) ∧
        ∀ later ∈ Calls.history codec (Calls.state codec start ((now, call) :: older)) newer,
          later.issues codec id = none := by
  obtain ⟨timed, created⟩ := started.created
  have limit := Submission.run_deliveries timed (millis micros)
  have positive : 0 < (submission.run timed (millis micros)).deliveries := by
    have := timed.maxDeliveries
    omega
  refine ⟨?_, ?_⟩
  · obtain ⟨count, bound, numbered⟩ := created.attempts_numbered trace id
    refine ⟨count, ?_, numbered⟩
    rw [← limit]
    exact Int.ofNat_le.mpr bound
  · rintro newer now call older rfl
    have past : Calls.OneRun codec start older := (List.append_cons newer _ older ▸ trace).older
    rw [← limit]
    refine ⟨created.exhausts_iff positive past call, ?_⟩
    intro text written
    have member := created.member_of_exhausts past written
    obtain ⟨rfl, free⟩ := created.exhausted past written member
    exact ⟨codec.validate_encodeError _ _ _, free, created.not_issued trace written member⟩

/-- Two claims of the sample case are numbered 1 and 2. -/
theorem delivery_accounting_sample :
    ∃ count : Nat, (count : Int) ≤ 3 ∧
      ((Calls.history Codec.plain Sample.start
        [(40000, .claim "second" 30000), (2000, .claim "first" 30000)]).filterMap
          (Record.attempt Codec.plain "health")).reverse =
        (List.range count).map (fun (index : Nat) => (index : Int) + 1) :=
  (delivery_accounting Sample.started Sample.oneRun_reclaim "health").1

end ApiSentinel
