import ApiSentinel.Conservation

/-!
# Fencing

The scripts look at the owner and the lease score that a case has now.  Over a
whole trace of one run that amounts to a law about its history: a completion or a
renewal is accepted from the holder of the newest claim, as long as the lease it
was last given runs.  Two workers can therefore never both act on a case.
-/

namespace ApiSentinel

open Redis Lease

variable {Text : Type} {codec : Codec Text} {run : Run}

/-! ### Records as history -/

namespace Record

/-- The token under which a call of `claim` handed out an ID. -/
def issues (codec : Codec Text) (id : String) (record : Record Text) : Option String :=
  (record.job? codec).bind (fun job => if job.case.id = id then some job.token else none)

/-- The token of a successful call of `claim`. -/
def token? (codec : Codec Text) (record : Record Text) : Option String :=
  (record.job? codec).map Job.token

end Record

/-- Every successful claim drew its own token. -/
def FreshTokens (codec : Codec Text) (records : List (Record Text)) : Prop :=
  (records.filterMap (Record.token? codec)).Nodup

theorem job?_token {record : Record Text} {job : Job} (handed : record.job? codec = some job) :
    ∃ lease, record.call = .claim job.token lease := by
  obtain ⟨now, call, before, reply, after⟩ := record
  cases call with
  | claim token lease =>
      cases reply with
      | job payload attempt =>
          obtain ⟨case, _, rfl⟩ := Option.map_eq_some_iff.mp handed
          exact ⟨lease, rfl⟩
      | nil => cases handed
      | int value => cases handed
  | create args => cases handed
  | renew id token lease => cases handed
  | complete id token result => cases handed
  | close => cases handed

theorem lastToken_events (id : String) (record : Record Text) :
    History.lastToken
        (((record.events codec id).map (fun event => (record.now, event))).reverse) =
      record.issues codec id := by
  cases called : record.call with
  | claim token lease =>
      simp only [Record.events, called, Record.issues]
      cases handed : record.job? codec with
      | none =>
          cases record.exhausts id <;> cases record.reclaims id <;> rfl
      | some job =>
          obtain ⟨_, same⟩ := job?_token handed
          obtain ⟨rfl, _⟩ := Call.claim.inj (called.symm.trans same)
          by_cases wanted : job.case.id = id <;> cases record.exhausts id <;>
            cases record.reclaims id <;> simp [wanted, History.lastToken]
  | renew target token lease =>
      have none : record.job? codec = none := by simp [Record.job?, called]
      by_cases accepted : target = id ∧ record.accepted = true <;>
        simp [Record.events, called, Record.issues, none, accepted, History.lastToken]
  | complete target token result =>
      have none : record.job? codec = none := by simp [Record.job?, called]
      by_cases accepted : target = id ∧ record.accepted = true <;>
        simp [Record.events, called, Record.issues, none, accepted, History.lastToken]
  | create args => simp [Record.events, called, Record.issues, Record.job?, History.lastToken]
  | close => simp [Record.events, called, Record.issues, Record.job?, History.lastToken]

/-- The holder of a case is the token of the newest claim that handed it out. -/
theorem lastToken_eventsOf (codec : Codec Text) (id : String) (records : List (Record Text)) :
    History.lastToken (eventsOf codec id records) =
      records.findSome? (Record.issues codec id) := by
  induction records with
  | nil => rfl
  | cons record older ih =>
      rw [eventsOf_cons, History.lastToken_append, lastToken_events, ih, List.findSome?_cons]
      cases record.issues codec id <;> rfl

/-! ### The law -/

/-- The condition under which the holder of a token may renew or complete a case:
the run is open and before its deadline, the token is that of the newest claim of
the case, no result is stored, and the lease last given to the token still runs
and has not been reclaimed. -/
structure Fenced (codec : Codec Text) (start : Db Text) (calls : Calls Text)
    (deadline now : Int) (id token : String) : Prop where
  unclosed : ∀ time, (time, Call.close) ∉ calls
  early : now < deadline
  newest : (calls.history codec start).findSome? (Record.issues codec id) = some token
  unfinished : hget .results id (live now (calls.state codec start)) = none
  running : ∃ expiry,
    History.expiryOf token (eventsOf codec id (calls.history codec start)) = some expiry ∧
      now < expiry
  kept : History.lapsed (eventsOf codec id (calls.history codec start)) = false

section Law

variable {start : Db Text} {calls : Calls Text} {now : Int} {id token : String}

theorem Alive.active_iff (alive : Alive codec run start calls) :
    active Key.own now (calls.state codec start) = true ↔
      (∀ time, (time, Call.close) ∉ calls) ∧ now < run.deadline := by
  rw [alive.inv.planned.active_iff, and_congr_left_iff]
  intro _
  rw [← not_exists, ← alive.closed]
  rcases alive.inv.planned.state with isOpen | isClosed
  · simp [isOpen]
  · simp [isClosed]

theorem Alive.holds_iff (alive : Alive codec run start calls) (found : now ≤ run.expires) :
    holds Key.own now id token (calls.state codec start) = true ↔
      Fenced codec start calls run.deadline now id token := by
  have same := live_eq_self alive.inv.expiry found
  rw [ApiSentinel.holds_iff alive.inv.placed, alive.active_iff]
  constructor
  · rintro ⟨⟨unclosed, early⟩, member, expiry, deliveries, leased, live⟩
    obtain ⟨item, matched, life⟩ := alive.cases id member
    obtain rfl := matched.unique leased
    obtain ⟨newest, given, running, _⟩ := (life.leased_iff token expiry).mp ⟨deliveries, rfl⟩
    refine ⟨unclosed, early, ?_, ?_, ⟨expiry, given, live⟩, running⟩
    · rw [← lastToken_eventsOf, newest]
    · rw [same]
      exact matched.result
  · rintro ⟨unclosed, early, newest, unfinished, ⟨expiry, given, live⟩, running⟩
    rw [← lastToken_eventsOf] at newest
    have member : id ∈ run.ids := by
      by_contra absent
      rw [alive.others id absent] at newest
      cases newest
    obtain ⟨item, matched, life⟩ := alive.cases id member
    have open_ : ∀ result, item ≠ .finished result := by
      rintro result rfl
      rw [same] at unfinished
      have stored : hget .results id (calls.state codec start) = some (.doc result) :=
        matched.result
      rw [stored] at unfinished
      cases unfinished
    obtain ⟨deliveries, rfl⟩ := (life.leased_iff token expiry).mpr ⟨newest, given, running, open_⟩
    exact ⟨⟨unclosed, early⟩, member, expiry, deliveries, matched, live⟩

/-- The scripts' check of owner and lease is the law about the history. -/
theorem Created.holds_iff (created : Created codec run start)
    (trace : calls.OneRun codec start) (later : ∀ call ∈ calls, call.1 ≤ now) :
    holds Key.own now id token (live now (calls.state codec start)) = true ↔
      Fenced codec start calls run.deadline now id token := by
  have late_refused : run.expires < now → live now (calls.state codec start) = empty →
      (holds Key.own now id token (live now (calls.state codec start)) = true ↔
        Fenced codec start calls run.deadline now id token) := by
    intro late gone
    rw [gone, holds_empty]
    constructor
    · intro impossible
      cases impossible
    · intro fenced
      have := fenced.early
      have := run.deadline_lt
      omega
  rcases created.alive_or_gone calls trace with alive | gone
  · by_cases found : now ≤ run.expires
    · rw [live_eq_self alive.inv.expiry found]
      exact alive.holds_iff found
    · have late := Int.lt_of_not_ge found
      exact late_refused late (live_eq_empty alive.inv.expiry late)
  · obtain ⟨call, member, late⟩ := gone.late
    apply late_refused (Int.lt_of_lt_of_le late (later call member))
    rw [gone.empty, live_empty]

end Law

section Replies

variable {db : Db Text} {now : Int} {id token : String}

theorem renew_accepted_iff (lease : Int) :
    (record codec now (.renew id token lease) db).accepted = true ↔
      holds Key.own now id token (live now db) = true := by
  cases held : holds Key.own now id token (live now db) <;>
    simp [Record.accepted, record, Call.exec, renew, held, Reply.isOne]

theorem complete_accepted_iff (keys : Keys codec run (live now db))
    (result : Text) :
    (record codec now (.complete id token result) db).accepted = true ↔
      holds Key.own now id token (live now db) = true := by
  cases held : holds Key.own now id token (live now db) with
  | false => simp [Record.accepted, record, Call.exec, complete, held, Reply.isOne]
  | true =>
      rcases keys with inv | gone
      · have replied := (complete_accepted inv held result).1
        simp [Record.accepted, record, Call.exec, replied, Reply.isOne]
      · rw [gone, holds_empty] at held
        cases held

/-- A call that is refused leaves every key as it was. -/
theorem unchanged_of_refused {call : Call Text}
    (changing : ∀ token lease, call ≠ .claim token lease) (unclosing : call ≠ .close)
    (refused : (record codec now call db).accepted = false) :
    (record codec now call db).after = live now db := by
  cases call with
  | create args =>
      cases present : exists? Key.metadata (live now db) with
      | false =>
          simp [Record.accepted, record, Call.exec, create, present, Reply.isOne] at refused
      | true => simp [record, Call.exec, create, present]
  | claim token lease => exact (changing token lease rfl).elim
  | renew id token lease =>
      rw [Bool.eq_false_iff, ne_eq, renew_accepted_iff, Bool.not_eq_true] at refused
      exact congrArg Prod.snd (renew_refused refused lease)
  | complete id token result =>
      by_cases held : (holds Key.own now id token (live now db) &&
          !hexists (Key.own .results) id (live now db)) = true
      · simp only [Record.accepted, record, Call.exec, complete, if_pos held] at refused
        cases refused
      · simp only [record, Call.exec, complete, if_neg held]
  | close => exact (unclosing rfl).elim

end Replies

/-- Over any trace of a run, `COMPLETE` and `RENEW` are accepted exactly when the
history gives the caller the case, and refused calls and claims of an ended run
leave every key as it was. -/
theorem fencing {micros : Int} {submission : Submission} {start : Db Text}
    (started : Started codec micros submission start) {calls : Calls Text}
    (trace : calls.OneRun codec start) (now : Int) (later : ∀ call ∈ calls, call.1 ≤ now) :
    (∀ id token result,
      (record codec now (.complete id token result) (calls.state codec start)).accepted = true ↔
        Fenced codec start calls (submission.deadline (millis micros)) now id token) ∧
    (∀ id token lease,
      (record codec now (.renew id token lease) (calls.state codec start)).accepted = true ↔
        Fenced codec start calls (submission.deadline (millis micros)) now id token) ∧
    (∀ call : Call Text, (∀ token lease, call ≠ .claim token lease) → call ≠ .close →
      (record codec now call (calls.state codec start)).accepted = false →
      (record codec now call (calls.state codec start)).after =
        live now (calls.state codec start)) ∧
    ∀ token lease, Ended calls (submission.deadline (millis micros)) now →
      (record codec now (.claim token lease) (calls.state codec start)).after =
        live now (calls.state codec start) := by
  obtain ⟨timed, created⟩ := started.created
  have held : ∀ id token, holds Key.own now id token (live now (calls.state codec start)) = true ↔
      Fenced codec start calls (submission.deadline (millis micros)) now id token :=
    fun id token => created.holds_iff trace later
  have found := (created.keys trace).of_live now
  refine ⟨?_, ?_, fun call => unchanged_of_refused, ?_⟩
  · intro id token result
    rw [complete_accepted_iff found, held]
  · intro id token lease
    rw [renew_accepted_iff, held]
  · intro token lease ended
    have inactive : active Key.own now (live now (calls.state codec start)) = false := by
      rcases created.alive_or_gone calls trace with alive | gone
      · rcases alive.inv.expiring.dated.live_cases now with gone | same
        · rw [gone, active_empty]
        · rw [same]
          exact alive.inactive_of_ended ended
      · rw [gone.empty, live_empty, active_empty]
    exact congrArg Prod.snd (claim_inactive codec inactive token lease)

theorem Sample.oneRun_claim :
    Calls.OneRun Codec.plain Sample.start [(2000, .claim "token" 30000)] where
  ordered := List.pairwise_singleton _ _
  once := by
    intro record member
    obtain rfl := List.mem_singleton.mp member
    rfl

/-- In the sample run the holder of the only claim is fenced in after five seconds. -/
theorem fencing_sample :
    Fenced Codec.plain Sample.start [(2000, .claim "token" 30000)]
      (Sample.submission.deadline 1000) 5000 "health" "token" :=
  ((fencing Sample.started Sample.oneRun_claim 5000 (by simp)).1 "health" "token"
    (.case Sample.case)).mp (by rfl)

/-! ### Exclusion -/

theorem mem_eventsOf {id : String} {records : List (Record Text)} {record : Record Text}
    {event : Event Text} (member : record ∈ records) (happened : event ∈ record.events codec id) :
    (record.now, event) ∈ eventsOf codec id records :=
  List.mem_flatMap.mpr ⟨record, member, by simpa using happened⟩

theorem history_now (codec : Codec Text) (start : Db Text) (calls : Calls Text) :
    (calls.history codec start).map Record.now = calls.map Prod.fst := by
  induction calls with
  | nil => rfl
  | cons head calls ih =>
      rw [Calls.history, List.map_cons, List.map_cons, ih]
      rfl

theorem ordered_eventsOf (codec : Codec Text) (start : Db Text) {calls : Calls Text}
    (ordered : calls.Ordered) (id : String) :
    Lease.Ordered (eventsOf codec id (calls.history codec start)) := by
  have clock : ((calls.history codec start).map Record.now).Pairwise (fun later earlier =>
      earlier ≤ later) := by
    rw [history_now, List.pairwise_map]
    exact ordered
  refine List.pairwise_flatMap.mpr ⟨?_, (List.pairwise_map.mp clock).imp ?_⟩
  · intro record _
    apply List.pairwise_of_forall_mem_list
    simp only [List.mem_reverse, List.mem_map]
    rintro _ ⟨_, _, rfl⟩ _ ⟨_, _, rfl⟩
    exact le_refl _
  · simp only [List.mem_reverse, List.mem_map]
    rintro later earlier before _ ⟨_, _, rfl⟩ _ ⟨_, _, rfl⟩
    exact before

theorem Calls.OneRun.older {start : Db Text} {newer older : Calls Text}
    (trace : (newer ++ older).OneRun codec start) : older.OneRun codec start where
  ordered := (List.pairwise_append.mp trace.ordered).2.1
  once record member := trace.once record (by
    rw [Calls.history_append]
    exact List.mem_append_right _ member)

/-- The events of a claim that handed out the ID. -/
theorem events_of_issues {id token : String} {record : Record Text}
    (issued : record.issues codec id = some token) :
    ∃ expiry number later, record.events codec id =
      (if record.reclaims id then [.lapse] else []) ++ .deliver token expiry number :: later := by
  obtain ⟨job, handed, wanted⟩ := Option.bind_eq_some_iff.mp issued
  obtain ⟨lease, called⟩ := job?_token handed
  by_cases same : job.case.id = id
  · rw [if_pos same] at wanted
    cases wanted
    refine ⟨record.now + lease, job.delivery, (record.exhausts id).toList.map .exhaust, ?_⟩
    simp only [Record.events, called, handed, if_pos same, List.append_assoc, List.singleton_append]
  · rw [if_neg same] at wanted
    cases wanted

section Exclusion

variable {start : Db Text} {calls : Calls Text} {id token : String}

/-- A case of any trace has lived through its events. -/
theorem Created.lifecycle (created : Created codec run start)
    (trace : calls.OneRun codec start) (member : id ∈ run.ids) :
    ∃ item, Lifecycle run.deliveries (eventsOf codec id (calls.history codec start)) item := by
  rcases created.alive_or_gone calls trace with alive | gone
  · obtain ⟨item, _, life⟩ := alive.cases id member
    exact ⟨item, life⟩
  · exact gone.cases id member

theorem Created.events_of_absent (created : Created codec run start)
    (trace : calls.OneRun codec start) (absent : id ∉ run.ids) :
    eventsOf codec id (calls.history codec start) = [] := by
  rcases created.alive_or_gone calls trace with alive | gone
  · exact alive.others id absent
  · exact gone.others id absent

/-- A claim hands out an ID only after every completion of it was refused and the
lease of the previous holder has run out. -/
theorem Created.issue_excludes (created : Created codec run start) {now lease : Int}
    (trace : Calls.OneRun codec start ((now, .claim token lease) :: calls))
    (issued : (record codec now (.claim token lease) (calls.state codec start)).issues codec id =
      some token) :
    ¬ History.Completed (eventsOf codec id (calls.history codec start)) ∧
      ∀ holder, (calls.history codec start).findSome? (Record.issues codec id) = some holder →
        ∃ expiry,
          History.expiryOf holder (eventsOf codec id (calls.history codec start)) = some expiry ∧
            expiry ≤ now := by
  obtain ⟨expiry, number, later, events⟩ := events_of_issues issued
  have split : eventsOf codec id (Calls.history codec start ((now, .claim token lease) :: calls)) =
      (later.map (fun event => (now, event))).reverse ++ (now, .deliver token expiry number) ::
        ((if (record codec now (.claim token lease) (calls.state codec start)).reclaims id then
            [(now, .lapse)] else []) ++
          eventsOf codec id (calls.history codec start)) := by
    rw [Calls.history, eventsOf_cons, events]
    cases (record codec now (.claim token lease) (calls.state codec start)).reclaims id <;>
      simp [record]
  have member : id ∈ run.ids := by
    by_contra absent
    rw [created.events_of_absent trace absent] at split
    simp at split
  obtain ⟨item, life⟩ := created.lifecycle trace member
  have ordered := ordered_eventsOf codec start trace.ordered id
  rw [split] at life ordered
  obtain ⟨past, delivery⟩ := life.older
  obtain ⟨open_, late⟩ := delivery.deliver_excludes (List.pairwise_append.mp ordered).2.1
  rw [← lastToken_eventsOf]
  cases reclaimed :
    (record codec now (.claim token lease) (calls.state codec start)).reclaims id with
  | false =>
      rw [reclaimed] at open_ late
      exact ⟨open_, late⟩
  | true =>
      rw [reclaimed] at open_ late
      refine ⟨fun completed => open_ ?_, late⟩
      obtain ⟨time, holder, result, happened⟩ := completed
      exact ⟨time, holder, result, List.mem_cons_of_mem _ happened⟩

/-- The holder of a token can still renew or complete a case. -/
def CanAct (codec : Codec Text) (db : Db Text) (now : Int) (id token : String) : Prop :=
  (∃ lease, (record codec now (.renew id token lease) db).accepted = true) ∨
    ∃ result, (record codec now (.complete id token result) db).accepted = true

theorem CanAct.holds {db : Db Text} {now : Int} (can : CanAct codec db now id token) :
    ApiSentinel.holds Key.own now id token (live now db) = true := by
  rcases can with ⟨lease, accepted⟩ | ⟨result, accepted⟩
  · exact (renew_accepted_iff lease).mp accepted
  · by_contra refused
    rw [Bool.not_eq_true] at refused
    simp [Record.accepted, record, Call.exec, complete_refused refused, Reply.isOne] at accepted

/-- At one clock reading a case has one owner. -/
theorem CanAct.unique {db : Db Text} {one two : Int} {first second : String}
    (dated : Dated db) (can : CanAct codec db one id first) (also : CanAct codec db two id second) :
    first = second := by
  have owner : ∀ {now : Int} {token : String}, CanAct codec db now id token →
      (hget .owners id db).bind Bulk.text? = some token := by
    intro now token can
    have held := can.holds
    rcases dated.live_cases now with gone | same
    · rw [gone, holds_empty] at held
      cases held
    · rw [same, ApiSentinel.holds, Bool.and_eq_true, Bool.and_eq_true] at held
      exact beq_iff_eq.mp held.1.2
  exact Option.some.inj ((owner can).symm.trans (owner also))

end Exclusion

section Superseded

variable {start : Db Text} {older newer : Calls Text} {now lease : Int} {id token : String}

theorem token?_of_issues {record : Record Text} (issued : record.issues codec id = some token) :
    record.token? codec = some token := by
  obtain ⟨job, handed, wanted⟩ := Option.bind_eq_some_iff.mp issued
  by_cases same : job.case.id = id
  · rw [if_pos same] at wanted
    rw [Record.token?, handed, Option.map_some, wanted]
  · rw [if_neg same] at wanted
    cases wanted

theorem FreshTokens.distinct {newer older : List (Record Text)}
    (fresh : FreshTokens codec (newer ++ older)) {one two : Record Text} (early : one ∈ newer)
    (late : two ∈ older) (oneToken : one.token? codec = some token) :
    two.token? codec ≠ some token := by
  intro twoToken
  rw [FreshTokens, List.filterMap_append, List.nodup_append] at fresh
  exact fresh.2.2 token (List.mem_filterMap.mpr ⟨one, early, oneToken⟩) token
    (List.mem_filterMap.mpr ⟨two, late, twoToken⟩) rfl

/-- A token that has been superseded can never act again. -/
theorem Created.superseded (created : Created codec run start) {earlier : String}
    (trace : Calls.OneRun codec start (newer ++ (now, .claim token lease) :: older))
    (fresh : FreshTokens codec
      (Calls.history codec start (newer ++ (now, .claim token lease) :: older)))
    (issued : (record codec now (.claim token lease) (older.state codec start)).issues codec id =
      some token)
    {past : Record Text} (old : past ∈ older.history codec start)
    (held : past.issues codec id = some earlier) {time : Int}
    (later : ∀ call ∈ newer ++ (now, .claim token lease) :: older, call.1 ≤ time) :
    ¬ CanAct codec (Calls.state codec start (newer ++ (now, .claim token lease) :: older)) time
      id earlier := by
  intro can
  have newest := ((created.holds_iff trace later).mp can.holds).newest
  rw [Calls.history_append, Calls.history, List.append_cons] at fresh
  rw [Calls.history_append, Calls.history, List.findSome?_append] at newest
  have other := token?_of_issues held
  cases found : (Calls.history codec
      (Calls.state codec start ((now, .claim token lease) :: older)) newer).findSome?
        (Record.issues codec id) with
  | some holder =>
      rw [found, Option.some_or] at newest
      cases newest
      obtain ⟨record, member, drew⟩ := List.exists_of_findSome?_eq_some found
      exact fresh.distinct (List.mem_append_left _ member) old (token?_of_issues drew) other
  | none =>
      rw [found, Option.none_or, List.findSome?_cons, issued] at newest
      cases newest
      exact fresh.distinct (List.mem_append_right _ List.mem_cons_self) old
        (token?_of_issues issued) other

end Superseded

/-- Between two successive claims that hand out the same case the first lease runs
out and no completion is accepted; the first token can never act again, and at no
time can two tokens act on one case. -/
theorem lease_exclusion {micros : Int} {submission : Submission} {start : Db Text}
    (started : Started codec micros submission start) (older middle newer : Calls Text)
    {t₁ t₂ lease₁ lease₂ : Int} {token₁ token₂ id : String}
    (trace : Calls.OneRun codec start
      (newer ++ (t₂, .claim token₂ lease₂) :: (middle ++ (t₁, .claim token₁ lease₁) :: older)))
    (fresh : FreshTokens codec (Calls.history codec start
      (newer ++ (t₂, .claim token₂ lease₂) :: (middle ++ (t₁, .claim token₁ lease₁) :: older))))
    (first : (record codec t₁ (.claim token₁ lease₁) (older.state codec start)).issues codec id =
      some token₁)
    (second : (record codec t₂ (.claim token₂ lease₂) (Calls.state codec start
      (middle ++ (t₁, .claim token₁ lease₁) :: older))).issues codec id = some token₂)
    (next : ∀ record ∈ Calls.history codec
      (Calls.state codec start ((t₁, .claim token₁ lease₁) :: older)) middle,
        record.issues codec id = none) :
    (∃ expiry, History.expiryOf token₁ (eventsOf codec id (Calls.history codec start
      (middle ++ (t₁, .claim token₁ lease₁) :: older))) = some expiry ∧ expiry ≤ t₂) ∧
    (∀ record ∈ Calls.history codec start (middle ++ (t₁, .claim token₁ lease₁) :: older),
      ∀ token result, record.call = .complete id token result → record.accepted = false) ∧
    (∀ time, (∀ call ∈ newer ++ (t₂, Call.claim token₂ lease₂) ::
        (middle ++ (t₁, .claim token₁ lease₁) :: older), call.1 ≤ time) →
      ¬ CanAct codec (Calls.state codec start (newer ++ (t₂, .claim token₂ lease₂) ::
        (middle ++ (t₁, .claim token₁ lease₁) :: older))) time id token₁) ∧
    ∀ one two tokenOne tokenTwo,
      CanAct codec (Calls.state codec start (newer ++ (t₂, .claim token₂ lease₂) ::
        (middle ++ (t₁, .claim token₁ lease₁) :: older))) one id tokenOne →
      CanAct codec (Calls.state codec start (newer ++ (t₂, .claim token₂ lease₂) ::
        (middle ++ (t₁, .claim token₁ lease₁) :: older))) two id tokenTwo →
      tokenOne = tokenTwo := by
  obtain ⟨timed, created⟩ := started.created
  obtain ⟨uncompleted, late⟩ := created.issue_excludes trace.older second
  have newest : (Calls.history codec start
      (middle ++ (t₁, .claim token₁ lease₁) :: older)).findSome? (Record.issues codec id) =
        some token₁ := by
    rw [Calls.history_append, List.findSome?_append, List.findSome?_eq_none_iff.mpr next,
      Option.none_or, Calls.history, List.findSome?_cons, first]
  have old : record codec t₁ (.claim token₁ lease₁) (older.state codec start) ∈
      Calls.history codec start (middle ++ (t₁, .claim token₁ lease₁) :: older) := by
    rw [Calls.history_append]
    exact List.mem_append_right _ List.mem_cons_self
  have dated := (created.keys trace).dated
  refine ⟨late token₁ newest, ?_, ?_, ?_⟩
  · intro past member token result called
    by_contra accepted
    rw [Bool.not_eq_false] at accepted
    apply uncompleted
    refine ⟨past.now, token, result, mem_eventsOf member ?_⟩
    simp [Record.events, called, accepted]
  · intro time later
    exact created.superseded trace fresh second old first later
  · intro one two tokenOne tokenTwo can also
    exact can.unique dated also

theorem Sample.oneRun_reclaim :
    Calls.OneRun Codec.plain Sample.start
      [(40000, .claim "second" 30000), (2000, .claim "first" 30000)] where
  ordered := by simp [Calls.Ordered]
  once := by
    intro record member
    rcases List.mem_cons.mp member with rfl | tail
    · rfl
    · obtain rfl := List.mem_singleton.mp tail
      rfl

/-- The sample case is claimed again after its lease has run out at 32 seconds. -/
theorem lease_exclusion_sample :
    ¬ CanAct Codec.plain (Calls.state Codec.plain Sample.start
      [(40000, .claim "second" 30000), (2000, .claim "first" 30000)]) 41000 "health" "first" :=
  (lease_exclusion Sample.started [] [] []
    Sample.oneRun_reclaim (by change ["second", "first"].Nodup; decide) (by rfl) (by rfl)
    (by simp [Calls.history])).2.2.1 41000 (by simp)

end ApiSentinel
