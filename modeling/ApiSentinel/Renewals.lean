import ApiSentinel.Fencing

/-!
# Leases that are renewed in time

As long as the renewals of a holder come before its lease expires, nobody else is handed its
case, and every renewal and the completion of the holder are accepted, whatever others call
in between.
-/

namespace ApiSentinel

open Redis Lease

variable {Text : Type} {codec : Codec Text} {run : Run} {db : Db Text}
  {id token : String}

/-- The lease that a call asks for on behalf of a holder. -/
def Call.renewal? (id token : String) : Call Text → Option Int
  | .renew target holder lease => if target = id ∧ holder = token then some lease else none
  | _ => none

namespace Calls

/-- The expiry of a lease that the renewals of its holder ask for. -/
def leasedUntil (id token : String) (expiry : Int) : (calls : Calls Text) → Int
  | [] => expiry
  | (now, call) :: older =>
      ((call.renewal? id token).map (now + ·)).getD (leasedUntil id token expiry older)

/-- No call comes after the expiry that the renewals before it have asked for. -/
def Timely (id token : String) (expiry : Int) : (calls : Calls Text) → Prop
  | [] => True
  | (now, _) :: older => now < leasedUntil id token expiry older ∧ Timely id token expiry older

end Calls

/-! ### One call -/

/-- A renewal or a completion in the name of a holder. -/
def Own (token : String) (event : Event Text) : Prop :=
  (∃ given, event = .renew token given) ∨ ∃ result, event = .complete token result

/-- A claim neither renews nor completes a case. -/
theorem not_own_of_claim {record : Record Text} {lease : Int} {drawn : String}
    (called : record.call = .claim drawn lease) {event : Event Text}
    (member : event ∈ record.events codec id) : ¬ Own token event := by
  simp only [Record.events, called, List.mem_append] at member
  rcases member with (member | member) | member
  · split at member
    · obtain rfl := List.mem_singleton.mp member
      simp [Own]
    · cases member
  · split at member
    · split at member
      · obtain rfl := List.mem_singleton.mp member
        simp [Own]
      · cases member
    · cases member
  · obtain ⟨result, _, rfl⟩ := List.mem_map.mp member
    simp [Own]

/-- A call in the name of the holder is its renewal or its completion of the case. -/
theorem own_call {now : Int} {call : Call Text} {event : Event Text}
    (member : event ∈ (record codec now call db).events codec id) (own : Own token event) :
    (∃ lease, call = .renew id token lease) ∨ ∃ result, call = .complete id token result := by
  cases call with
  | create args => cases member
  | close => cases member
  | claim drawn lease => exact (not_own_of_claim rfl member own).elim
  | renew target holder lease =>
      have listed : event ∈
          if target = id ∧ (record codec now (.renew target holder lease) db).accepted then
            [.renew holder (now + lease)] else [] := member
      rw [List.mem_ite_nil_right, List.mem_singleton] at listed
      obtain ⟨⟨rfl, _⟩, rfl⟩ := listed
      rcases own with ⟨_, same⟩ | ⟨_, same⟩
      · cases same
        exact .inl ⟨lease, rfl⟩
      · cases same
  | complete target holder result =>
      have listed : event ∈
          if target = id ∧ (record codec now (.complete target holder result) db).accepted then
            [.complete holder result] else [] := member
      rw [List.mem_ite_nil_right, List.mem_singleton] at listed
      obtain ⟨⟨rfl, _⟩, rfl⟩ := listed
      rcases own with ⟨_, same⟩ | ⟨_, same⟩
      · cases same
      · cases same
        exact .inr ⟨result, rfl⟩

section OneCall

variable {now expiry : Int} {deliveries : Nat} {call : Call Text}
  (inv : Inv codec run (live now db)) (member : id ∈ run.ids)
  (leased : Matches (slot (live now db) id) (.leased token expiry deliveries))
  (held : now < expiry)
include inv member leased held

/-- What others call leaves a lease that runs, and does nothing to its case. -/
theorem Inv.kept_of_others (unrenewed : ∀ lease, call ≠ .renew id token lease)
    (uncompleted : ∀ result, call ≠ .complete id token result) :
    Matches (slot (record codec now call db).after id) (.leased token expiry deliveries) ∧
      (record codec now call db).events codec id = [] := by
  obtain ⟨next, arrived, moves⟩ := (recorded inv call).moves id member _ leased
  have others : ∀ event ∈ (record codec now call db).events codec id,
      (∀ given, event ≠ .renew token given) ∧ ∀ result, event ≠ .complete token result := by
    intro event listed
    have foreign : ¬ Own token event := fun own =>
      (own_call listed own).elim (fun ⟨lease, same⟩ => unrenewed lease same)
        (fun ⟨result, same⟩ => uncompleted result same)
    exact ⟨fun given same => foreign (.inl ⟨given, same⟩),
      fun result same => foreign (.inr ⟨result, same⟩)⟩
  obtain ⟨silent, rfl⟩ := held_steps_of_others held others moves
  exact ⟨arrived, silent⟩

/-- A renewal that is accepted moves the expiry. -/
theorem Inv.renewed {lease : Int}
    (accepted : (record codec now (.renew id token lease) db).accepted = true) :
    Matches (slot (record codec now (.renew id token lease) db).after id)
      (.leased token (now + lease) deliveries) := by
  obtain ⟨next, arrived, moves⟩ :=
    (recorded inv (.renew id token lease)).moves id member _ leased
  have events : (record codec now (.renew id token lease) db).events codec id =
      [.renew token (now + lease)] := if_pos ⟨rfl, accepted⟩
  rw [events] at moves
  rcases held_steps held moves with ⟨silent, _⟩ | ⟨given, rest, happened, later⟩ |
    ⟨_, happened, _⟩
  · cases silent
  · cases happened
    cases later
    exact arrived
  · cases happened

/-- A call while the lease of a case runs, other than a completion by its holder. -/
theorem Inv.kept (isActive : active Key.own now (live now db) = true)
    (uncompleted : ∀ result, call ≠ .complete id token result) :
    Matches (slot (record codec now call db).after id)
        (.leased token (((call.renewal? id token).map (now + ·)).getD expiry) deliveries) ∧
      (∀ lease, call = .renew id token lease → (record codec now call db).accepted = true) ∧
      (record codec now call db).issues codec id = none := by
  have accepted : ∀ lease, call = .renew id token lease →
      (record codec now call db).accepted = true := by
    rintro lease rfl
    rw [renew_accepted_iff, ApiSentinel.holds_iff inv.placed]
    exact ⟨isActive, member, expiry, deliveries, leased, held⟩
  by_cases renewal : ∃ lease, call = .renew id token lease
  · obtain ⟨lease, rfl⟩ := renewal
    refine ⟨?_, accepted, rfl⟩
    simpa [Call.renewal?] using inv.renewed member leased held (accepted lease rfl)
  · have unrenewed := not_exists.mp renewal
    obtain ⟨same, silent⟩ := inv.kept_of_others member leased held unrenewed uncompleted
    refine ⟨?_, accepted, ?_⟩
    · have none : call.renewal? id token = none := by
        cases call with
        | renew target holder lease =>
            rw [Call.renewal?, if_neg]
            rintro ⟨rfl, rfl⟩
            exact unrenewed lease rfl
        | create | close | claim | complete => rfl
      rw [none]
      exact same
    · rw [Option.eq_none_iff_forall_ne_some]
      intro holder issued
      obtain ⟨_, _, _, happened⟩ := events_of_issues issued
      rw [silent] at happened
      split at happened <;> cases happened

end OneCall

/-! ### Whole traces -/

section Trace

variable {start : Db Text} {older newer : Calls Text} {time lease now : Int}

/-- The claim that hands out a case leases it to its token. -/
theorem Created.leased_of_issued (created : Created codec run start)
    (early : ∀ call ∈ (time, Call.claim token lease) :: older, call.1 ≤ run.expires)
    (issued : (record codec time (.claim token lease) (older.state codec start)).issues codec id =
      some token) :
    id ∈ run.ids ∧ ∃ deliveries, Matches
      (slot (Calls.state codec start ((time, .claim token lease) :: older)) id)
        (.leased token (time + lease) deliveries) := by
  have alive := created.alive_of_early older fun call member =>
    early call (List.mem_cons_of_mem _ member)
  have found := live_eq_self alive.inv.expiry (early _ List.mem_cons_self)
  have step : Recorded codec run
      (record codec time (.claim token lease) (older.state codec start)) :=
    recorded (found.symm ▸ alive.inv) _
  obtain ⟨job, handed, wanted⟩ := Option.bind_eq_some_iff.mp issued
  have same : job.case.id = id := by
    by_contra other
    rw [if_neg other] at wanted
    cases wanted
  have events : (record codec time (.claim token lease) (older.state codec start)).events codec id =
      (if (record codec time (.claim token lease) (older.state codec start)).reclaims id then
        [.lapse] else []) ++ .deliver token (time + lease) job.delivery ::
        ((record codec time (.claim token lease) (older.state codec start)).exhausts id).toList.map
          .exhaust := by
    rw [Record.events, show
      (record codec time (.claim token lease) (older.state codec start)).call =
        .claim token lease from rfl]
    simp only [handed, if_pos same, List.append_assoc, List.singleton_append]
    rfl
  have member : id ∈ run.ids := by
    by_contra absent
    have silent := step.others id absent
    rw [events] at silent
    exact List.cons_ne_nil _ _ (List.append_eq_nil_iff.mp silent).2
  obtain ⟨item, matched, _⟩ := alive.cases id member
  obtain ⟨next, arrived, moves⟩ := step.moves id member item (by
    change Matches (slot (live time (older.state codec start)) id) item
    rwa [found])
  rw [events] at moves
  obtain ⟨deliveries, rfl⟩ := steps_delivered moves fun event exhausted => by
    obtain ⟨result, _, rfl⟩ := List.mem_map.mp exhausted
    exact ⟨result, rfl⟩
  exact ⟨member, deliveries, arrived⟩

/-- What holds of a case while its lease is renewed in time. -/
theorem Created.kept (created : Created codec run start)
    (issued : (record codec time (.claim token lease) (older.state codec start)).issues codec id =
      some token)
    (unclosed : ∀ time', (time', Call.close) ∉ newer ++ (time, .claim token lease) :: older)
    (early : ∀ call ∈ newer ++ (time, Call.claim token lease) :: older, call.1 < run.deadline)
    (timely : newer.Timely id token (time + lease))
    (uncompleted : ∀ time' result, (time', Call.complete id token result) ∉ newer) :
    (∃ deliveries, Matches
      (slot (Calls.state codec start (newer ++ (time, .claim token lease) :: older)) id)
        (.leased token (newer.leasedUntil id token (time + lease)) deliveries)) ∧
    ∀ script ∈ Calls.history codec (Calls.state codec start ((time, .claim token lease) :: older))
        newer,
      (∀ asked, script.call = .renew id token asked → script.accepted = true) ∧
        script.issues codec id = none := by
  have expires : ∀ {calls : Calls Text}, (∀ call ∈ calls, call.1 < run.deadline) →
      ∀ call ∈ calls, call.1 ≤ run.expires :=
    fun early call member => le_of_lt ((early call member).trans run.deadline_lt)
  have planned := (created.leased_of_issued (expires fun call member =>
    early call (List.mem_append_right _ member)) issued)
  induction newer with
  | nil => exact ⟨planned.2, nofun⟩
  | cons entry newer ih =>
      obtain ⟨now, call⟩ := entry
      obtain ⟨⟨deliveries, leased⟩, others⟩ := ih
        (fun time' closed => unclosed time' (List.mem_cons_of_mem _ closed))
        (fun call member => early call (List.mem_cons_of_mem _ member)) timely.2
        (fun time' result completed => uncompleted time' result (List.mem_cons_of_mem _ completed))
      have alive := created.alive_of_early (newer ++ (time, .claim token lease) :: older)
        (expires fun call member => early call (List.mem_cons_of_mem _ member))
      have soon : now < run.deadline := early _ List.mem_cons_self
      have found := live_eq_self alive.inv.expiry (le_of_lt (soon.trans run.deadline_lt))
      have isActive : active Key.own now (Calls.state codec start
          (newer ++ (time, .claim token lease) :: older)) = true :=
        alive.active_iff.mpr ⟨fun time' closed => unclosed time' (List.mem_cons_of_mem _ closed),
          soon⟩
      have step := @Inv.kept _ codec _ _ _ _ _ _ _ call (found.symm ▸ alive.inv) planned.1
        (found.symm ▸ leased) timely.1 (found.symm ▸ isActive)
        (fun result completed => uncompleted now result (completed ▸ List.mem_cons_self))
      constructor
      · exact ⟨deliveries, step.1⟩
      · intro script member
        rcases List.mem_cons.mp member with rfl | old
        · rw [← Calls.state_append]
          exact step.2
        · exact others script old

end Trace

/-- While the renewals of a holder come before the expiry that its claim and the renewals before
them asked for, in an open run before its deadline, each of them is accepted, nobody else is
handed the case, and at any time before that expiry a renewal or a completion by the holder is
accepted, whatever everybody else calls. -/
theorem renewed_lease_kept {micros : Int} {submission : Submission} {start : Db Text}
    (started : Started codec micros submission start) {older newer : Calls Text}
    {time lease now : Int} {id token : String}
    (issued : (record codec time (.claim token lease) (older.state codec start)).issues codec id =
      some token)
    (unclosed : ∀ time', (time', Call.close) ∉ newer ++ (time, .claim token lease) :: older)
    (timely : newer.Timely id token (time + lease))
    (uncompleted : ∀ time' result, (time', Call.complete id token result) ∉ newer)
    (later : ∀ call ∈ newer ++ (time, Call.claim token lease) :: older, call.1 ≤ now)
    (early : now < submission.deadline (millis micros))
    (running : now < newer.leasedUntil id token (time + lease)) :
    (∀ script ∈ Calls.history codec (Calls.state codec start ((time, .claim token lease) :: older))
        newer,
      (∀ asked, script.call = .renew id token asked → script.accepted = true) ∧
        script.issues codec id = none) ∧
    (∀ asked, (record codec now (.renew id token asked) (Calls.state codec start
      (newer ++ (time, .claim token lease) :: older))).accepted = true) ∧
    ∀ result, (record codec now (.complete id token result) (Calls.state codec start
      (newer ++ (time, .claim token lease) :: older))).accepted = true := by
  obtain ⟨timed, created⟩ := started.created
  obtain ⟨⟨deliveries, leased⟩, others⟩ := created.kept issued unclosed
    (fun call member => lt_of_le_of_lt (later call member) early) timely uncompleted
  have alive := created.alive_of_early (newer ++ (time, .claim token lease) :: older)
    fun call member => (later call member).trans
      (le_of_lt (early.trans (submission.run timed (millis micros)).deadline_lt))
  have found := live_eq_self alive.inv.expiry
    (le_of_lt (early.trans (submission.run timed (millis micros)).deadline_lt))
  have member := (created.leased_of_issued (fun call member => le_of_lt
    ((lt_of_le_of_lt (later call (List.mem_append_right _ member)) early).trans
      (submission.run timed (millis micros)).deadline_lt)) issued).1
  have holds : ApiSentinel.holds Key.own now id token (live now (Calls.state codec start
      (newer ++ (time, .claim token lease) :: older))) = true := by
    rw [found, ApiSentinel.holds_iff alive.inv.placed]
    exact ⟨alive.active_iff.mpr ⟨unclosed, early⟩, member, _, deliveries, leased, running⟩
  exact ⟨others, fun asked => (renew_accepted_iff asked).mpr holds, fun result =>
    (complete_accepted_iff (.inl (found.symm ▸ alive.inv)) result).mpr holds⟩

/-- The sample case is renewed at 20 seconds.  At 40 seconds a second worker is handed nothing,
and at 45 the first may complete. -/
theorem renewed_lease_kept_sample :
    (record Codec.plain 45000 (.complete "health" "first"
        (.result { caseId := "health", status := .passed, workerId := "first" }))
      (Calls.state Codec.plain Sample.start [(40000, .claim "second" 30000),
        (20000, .renew "health" "first" 30000), (2000, .claim "first" 30000)])).accepted =
      true := by
  have kept := @renewed_lease_kept _ Codec.plain 1000000 Sample.submission Sample.start
    Sample.started [] [(40000, .claim "second" 30000), (20000, .renew "health" "first" 30000)]
    2000 30000 45000 "health" "first" rfl (by simp) ?_ (by simp) ?_ (by decide) (by decide)
  · exact kept.2.2 _
  · exact ⟨by decide, by decide, trivial⟩
  · decide

end ApiSentinel
