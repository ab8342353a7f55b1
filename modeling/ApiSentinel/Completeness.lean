import ApiSentinel.Report

/-!
# Every run ends with a complete report

The coordinator's variables are followed through its steps.  A bound on the rounds
that its clock still allows decreases with every step, so every interleaving leads
to a report, whatever calls fail on the way.
-/

namespace ApiSentinel

open Redis

variable {Text : Type} {codec : Codec Text} {run : Run} {call : Coordination}
  {produced : Job → CaseResult → Prop} {system next : System Text}

/-! ### The coordinator's variables -/

/-- What `distributed_run` knows at each point: whether it has an error to tell,
whether results are missing, and that its deadline was still ahead when it last
looked. -/
def Sound (call : Coordination) (system : System Text) : Prop :=
  let results := system.coordinator.results
  let error := system.coordinator.error
  let untold := error = none ∧ system.failed = false
  let incomplete := results.length ≠ call.suite.cases.length
  let left := system.seconds - call.started < call.timeout
  match system.coordinator.point with
  | .reading => untold
  | .comparing => untold ∧ incomplete
  | .asking | .dating _ | .sleeping => untold ∧ incomplete ∧ left
  | .closing | .finishing => Told call.suite error system.failed results
  | .returned report => Told call.suite error system.failed results ∧
      ∃ now, report = call.report results error now
  | .aborting _ | .raised _ => False

/-- The coordinator's variables together with what it has read. -/
structure Coordinated (codec : Codec Text) (call : Coordination) (system : System Text) :
    Prop where
  sound : Sound call system
  collected : Collected codec system.lastRead system.coordinator.results

theorem truthy_deadlineMessage : truthy (some deadlineMessage) = true := by decide

theorem truthy_collectingMessage : truthy (some collectingMessage) = true := by decide

theorem truthy_closingMessage : truthy (some closingMessage) = true := by decide

/-- Workers leave the coordinator alone. -/
theorem WorkerStep.coordinator (moves : WorkerStep codec produced system next) :
    next.coordinator = system.coordinator ∧ next.seconds = system.seconds ∧
      next.failed = system.failed ∧ next.lastRead = system.lastRead := by
  cases moves <;> exact ⟨rfl, rfl, rfl, rfl⟩

theorem WorkerStep.coordinated (moves : WorkerStep codec produced system next)
    (coordinated : Coordinated codec call system) : Coordinated codec call next := by
  obtain ⟨coordinator, seconds, failed, lastRead⟩ := moves.coordinator
  obtain ⟨sound, collected⟩ := coordinated
  constructor
  · simpa only [Sound, coordinator, seconds, failed] using sound
  · rwa [lastRead, coordinator]

theorem Queued.validates (queued : Queued codec run produced system) (now : Int) :
    Validates codec (live now system.db) := by
  intro id value stored
  cases queued.stored id value (hget_of_live stored) with
  | @accepted acceptance member own =>
      refine ⟨acceptance.result, codec.validate_dumpResult _, ?_⟩
      rw [(queued.made acceptance member).2.2, own]
  | exhausted deliveries => exact ⟨_, codec.validate_encodeError _ _ _, rfl⟩

theorem CoordinatorStep.coordinated (moves : CoordinatorStep codec call system next)
    (queued : Queued codec run produced system) (coordinated : Coordinated codec call system) :
    Coordinated codec call next := by
  obtain ⟨sound, collected⟩ := coordinated
  cases moves with
  | @results micros values read here answer valid =>
      simp only [Sound, here] at sound
      refine ⟨?_, collected_of_read (queued.validates _) answer valid⟩
      by_cases whole : read.length = call.suite.cases.length
      · simp [Sound, whole, Told, sound]
      · simp [Sound, whole, sound]
  | invalid here answer invalid =>
      exact (validate_ne_none (queued.validates _) answer invalid).elim
  | unavailable here =>
      refine ⟨?_, collected⟩
      simp [Sound, System.stop, Told, truthy_collectingMessage]
  | inTime here later left =>
      simp only [Sound, here] at sound
      exact ⟨⟨sound.1, sound.2, left⟩, collected⟩
  | exceeded here later reached =>
      simp only [Sound, here] at sound
      exact ⟨.inr ⟨truthy_deadlineMessage, .inr sound.2⟩, collected⟩
  | fields here =>
      simp only [Sound, here] at sound
      exact ⟨sound, collected⟩
  | isOpen here isOpen =>
      simp only [Sound, here] at sound
      exact ⟨sound, collected⟩
  | ended here ended =>
      simp only [Sound, here] at sound
      exact ⟨.inr ⟨truthy_deadlineMessage, .inr sound.2.1⟩, collected⟩
  | slept here later =>
      simp only [Sound, here] at sound
      exact ⟨sound.1, collected⟩
  | closed here =>
      simp only [Sound, here] at sound
      exact ⟨sound, collected⟩
  | closeFailed here unanswered =>
      exact ⟨.inr ⟨truthy_closingMessage, .inl rfl⟩, collected⟩
  | @returned now here later =>
      simp only [Sound, here] at sound
      exact ⟨⟨sound, now, rfl⟩, collected⟩
  | aborted here =>
      simp only [Sound, here] at sound
  | abortFailed here unanswered =>
      simp only [Sound, here] at sound

theorem Keys.planned {db : Db Text} (keys : Keys codec run db) :
    hkeys .results db ⊆ run.ids := by
  rcases keys with inv | rfl
  · exact inv.placed.results_subset
  · exact List.nil_subset _

section Reached

variable {start : Db Text} {seconds : Rat} {steps : Nat}
  (created : Created codec run start)
  (reached : Reaches codec call produced start seconds steps system)
include created reached

theorem Reaches.coordinated : Coordinated codec call system := by
  induction reached with
  | created => exact ⟨⟨rfl, rfl⟩, List.Perm.refl _, by simp⟩
  | coordinator past moves ih => exact moves.coordinated (past.queued created).1 ih
  | worker past moves ih => exact moves.coordinated ih

/-- What is known where the coordinator has returned a report. -/
theorem Reaches.concluded {report : RunReport}
    (returned : system.coordinator.point = .returned report) :
    Told call.suite system.coordinator.error system.failed system.coordinator.results ∧
      Collected codec system.lastRead system.coordinator.results ∧
      hkeys .results system.lastRead ⊆ run.ids ∧
      ∃ now, report = call.report system.coordinator.results system.coordinator.error now := by
  obtain ⟨_, read⟩ := reached.queued created
  obtain ⟨sound, collected⟩ := reached.coordinated created
  simp only [Sound, returned] at sound
  exact ⟨sound.1, collected, read.keys.planned, sound.2⟩

end Reached

/-! ### The coordinator's time -/

/-- How often the coordinator's clock still lets it sleep. -/
def Coordination.rounds (call : Coordination) (seconds : Rat) : Nat :=
  ⌈20 * (call.timeout - (seconds - call.started))⌉₊

/-- A bound on the steps that the coordinator has left. -/
def Coordination.remaining (call : Coordination) (system : System Text) : Nat :=
  match system.coordinator.point with
  | .reading => 5 * call.rounds system.seconds + 4
  | .comparing => 5 * call.rounds system.seconds + 3
  | .asking => 5 * call.rounds system.seconds + 2
  | .dating _ => 5 * call.rounds system.seconds + 1
  | .sleeping => 5 * call.rounds system.seconds
  | .closing => 2
  | .finishing => 1
  | .aborting _ => 1
  | .returned _ => 0
  | .raised _ => 0

theorem Coordination.rounds_mono (call : Coordination) {seconds now : Rat}
    (later : seconds ≤ now) : call.rounds now ≤ call.rounds seconds := by
  apply Nat.ceil_mono
  linarith

theorem Coordination.rounds_pos (call : Coordination) {seconds : Rat}
    (left : seconds - call.started < call.timeout) : 0 < call.rounds seconds := by
  apply Nat.ceil_pos.mpr
  linarith

theorem Coordination.rounds_slept (call : Coordination) {seconds now : Rat}
    (left : seconds - call.started < call.timeout) (later : seconds + 1 / 20 ≤ now) :
    call.rounds now + 1 ≤ call.rounds seconds := by
  have shorter : 20 * (call.timeout - (now - call.started)) ≤
      20 * (call.timeout - (seconds - call.started)) - 1 := by linarith
  have rounded : call.rounds now ≤ call.rounds seconds - 1 := by
    rw [Coordination.rounds, Coordination.rounds, ← Nat.ceil_sub_one]
    exact Nat.ceil_mono shorter
  have := call.rounds_pos left
  omega

theorem CoordinatorStep.remaining (moves : CoordinatorStep codec call system next)
    (sound : Sound call system) : call.remaining next < call.remaining system := by
  cases moves with
  | @results micros values read here answer valid =>
      by_cases whole : read.length = call.suite.cases.length <;>
        simp [Coordination.remaining, here, whole]
  | invalid here answer invalid => simp [Coordination.remaining, System.goto, here]
  | unavailable here =>
      change 2 < call.remaining system
      cases point : system.coordinator.point <;> rw [point] at here
      case reading => simp [Coordination.remaining, point]
      case asking =>
          simp only [Sound, point] at sound
          have := call.rounds_pos sound.2.2
          simp only [Coordination.remaining, point]
          omega
      case dating =>
          simp only [Sound, point] at sound
          have := call.rounds_pos sound.2.2
          simp only [Coordination.remaining, point]
          omega
      all_goals cases here
  | inTime here later left =>
      have := call.rounds_mono later
      simp only [Coordination.remaining, System.goto, here]
      omega
  | exceeded here later reached => simp [Coordination.remaining, System.stop, here]
  | fields here => simp [Coordination.remaining, System.goto, here]
  | isOpen here isOpen => simp [Coordination.remaining, System.goto, here]
  | ended here ended =>
      simp only [Sound, here] at sound
      have := call.rounds_pos sound.2.2
      simp only [Coordination.remaining, System.stop, here]
      omega
  | slept here later =>
      simp only [Sound, here] at sound
      have := call.rounds_slept sound.2.2 later
      simp only [Coordination.remaining, System.goto, here]
      omega
  | closed here => simp [Coordination.remaining, System.goto, here]
  | closeFailed here unanswered => simp [Coordination.remaining, here]
  | returned here later => simp [Coordination.remaining, System.goto, here]
  | aborted here => simp [Coordination.remaining, System.goto, here]
  | abortFailed here unanswered => simp [Coordination.remaining, System.goto, here]


/-! ### The report -/

/-- Without another failure the coordinator always has a next step. -/
theorem exists_step (queued : Queued codec run produced system) (sound : Sound call system) :
    (∃ report, system.coordinator.point = .returned report) ∨
      ∃ next, CoordinatorStep codec call system next ∧ next.failed = system.failed := by
  cases point : system.coordinator.point with
  | reading =>
      have answer := List.Perm.refl (hvals (Key.own .results) (live (millis 0) system.db))
      obtain ⟨read, valid⟩ := Option.ne_none_iff_exists'.mp
        (validate_ne_none (queued.validates (millis 0)) answer)
      exact .inr ⟨_, .results point answer valid, rfl⟩
  | comparing =>
      by_cases left : system.seconds - call.started < call.timeout
      · exact .inr ⟨_, .inTime point (le_refl _) left, rfl⟩
      · exact .inr ⟨_, .exceeded point (le_refl _) (not_lt.mp left), rfl⟩
  | asking => exact .inr ⟨_, @CoordinatorStep.fields _ _ _ _ 0 point, rfl⟩
  | dating fields =>
      cases isOpen : RunQueue.isOpen fields 0 with
      | true => exact .inr ⟨_, .isOpen point isOpen, rfl⟩
      | false => exact .inr ⟨_, .ended point isOpen, rfl⟩
  | sleeping => exact .inr ⟨_, .slept point (le_refl _), rfl⟩
  | closing => exact .inr ⟨_, @CoordinatorStep.closed _ _ _ _ 0 point, rfl⟩
  | finishing => exact .inr ⟨_, .returned point (le_refl _), rfl⟩
  | returned report => exact .inl ⟨report, rfl⟩
  | aborting raised => simp only [Sound, point] at sound
  | raised raised => simp only [Sound, point] at sound

section Report

variable {micros : Int} {start : Db Text} {seconds : Rat} {steps : Nat}

theorem Reaches.bounded (created : Created codec run start) (later : call.started ≤ seconds)
    (reached : Reaches codec call produced start seconds steps system) :
    steps + call.remaining system ≤ 5 * ⌈20 * call.timeout⌉₊ + 4 := by
  induction reached with
  | created =>
      have first : call.rounds seconds ≤ ⌈20 * call.timeout⌉₊ := by
        apply Nat.ceil_mono
        linarith
      simp only [Coordination.remaining]
      omega
  | coordinator past moves ih =>
      have := moves.remaining (past.coordinated created).sound
      omega
  | worker past moves ih =>
      obtain ⟨coordinator, seconds, _⟩ := moves.coordinator
      simpa only [Coordination.remaining, coordinator, seconds] using ih

/-- The coordinator takes a bounded number of steps, never raises, and never gets
stuck before it returns.  Its report has one entry for each case: the result stored
under the ID of the case when the results were last read, or an error where none
was.  The exit code is 2 if any of its calls failed, any case was missing then or
any entry is an error, and else tells whether an entry failed. -/
theorem complete_report (started : Started codec micros call.submission start)
    (later : call.started ≤ seconds)
    (reached : Reaches codec call produced start seconds steps system) :
    steps ≤ 5 * ⌈20 * call.timeout⌉₊ + 4 ∧
    (∀ raised, system.coordinator.point ≠ .raised raised) ∧
    ((∃ report, system.coordinator.point = .returned report) ∨
      ∃ next, CoordinatorStep codec call system next ∧ next.failed = system.failed) ∧
    ∀ report, system.coordinator.point = .returned report →
      (report.results.map CaseResult.caseId).Perm (call.suite.cases.map Case.id) ∧
      (∀ entry ∈ report.results,
        (∃ text, hget .results entry.caseId system.lastRead = some (.doc text) ∧
          codec.validateResult text = some entry) ∨
        ∃ case ∈ call.suite.cases, hget .results case.id system.lastRead = none ∧
          entry = missingResult report.infrastructureError case) ∧
      (Failing system.failed system.lastRead call.suite report.results → report.exitCode = 2) ∧
      (¬ Failing system.failed system.lastRead call.suite report.results →
        ((∃ entry ∈ report.results, entry.status = .failed) → report.exitCode = 1) ∧
        ((∀ entry ∈ report.results, entry.status = .passed) → report.exitCode = 0)) := by
  obtain ⟨timed, created⟩ := started.created
  obtain ⟨queued, _⟩ := reached.queued created
  obtain ⟨sound, _⟩ := reached.coordinated created
  refine ⟨?_, ?_, exists_step queued sound, ?_⟩
  · have := reached.bounded created later
    omega
  · intro raised point
    simp only [Sound, point] at sound
  · intro report point
    obtain ⟨told, collected, planned, now, rfl⟩ := reached.concluded created point
    refine ⟨padded_perm _ collected planned, ?_, exitCode_failing collected planned told, ?_⟩
    · intro entry listed
      rcases mem_padded.mp listed with stored | ⟨case, member, missing, rfl⟩
      · exact .inl (collected.stored entry stored)
      · exact .inr ⟨case, member, (collected.missing_iff case.id).mp missing, rfl⟩
    · intro counting
      obtain ⟨_, failures, passes⟩ := exitCode_counting collected planned told counting
      refine ⟨failures, fun passed => passes (fun entry member => ?_)⟩
      rw [passed entry member]
      decide

end Report

namespace Sample

def coordination : Coordination where
  queue := ⟨"run", rfl⟩
  suite := suite
  contract := .null
  timeout := 300
  started := 0

def nanCoordination : Coordination := { coordination with suite := nanSuite }

/-- The coordinator of the sample run finds Redis unavailable at its first poll, and
closes the run. -/
theorem reaches_unavailable :
    Reaches Codec.plain coordination (fun _ _ => True) start 0 3
      { db := RunQueue.close Key.own 1000000 start
        seconds := 1
        coordinator := {
          error := some collectingMessage
          point := .returned (coordination.report [] (some collectingMessage) 1) }
        failed := true } := by
  have stopped : Reaches Codec.plain coordination (fun _ _ => True) start 0 1 _ :=
    .coordinator .created (.unavailable rfl)
  have closed := stopped.coordinator (@CoordinatorStep.closed _ _ _ _ 1000000 rfl)
  exact closed.coordinator (@CoordinatorStep.returned _ _ _ _ 1 rfl (by decide))

end Sample

theorem complete_report_sample :
    (Sample.coordination.report [] (some collectingMessage) 1).exitCode = 2 :=
  ((complete_report Sample.started (le_refl _) Sample.reaches_unavailable).2.2.2 _ rfl).2.2.1
    (.inl rfl)

end ApiSentinel
