import ApiSentinel.Consume
import ApiSentinel.Fleets

/-!
# How a worker process ends

What `Worker.run` returns says whether a call of its threads has raised, and when it returns
without such a call, and without a signal, it has left nothing to do.  When it raises, there is
no code of its own.
-/

namespace ApiSentinel

open Redis

variable {Text : Type} {codec : Codec Text} {runId : String} {crew : Crew} {thread : Nat}
  {cluster next : Cluster Text} {process after : Process Text} {options : WorkerOptions}
  {platform : Platform Text}

/-! ### What a step of a thread does to its process -/

/-- The error that a thread is on its way to record. -/
def Thread.pending : Thread Text → Option String
  | .popping _ message => message
  | .blaming message => some message
  | _ => none

/-- The job of a thread that has to be in the table. -/
def Thread.working : Thread Text → Option Job
  | .executing job _ _ _ | .completing job _ _ _ | .popping job _ => some job
  | _ => none

/-- What a thread does not touch. -/
structure Process.Frame (process after : Process Text) : Prop where
  main : after.main = process.main
  crew : after.crew = process.crew
  beat : after.beat = process.beat
  signalled : after.signalled = process.signalled
  missed : after.missed = process.missed

/-- What a thread does to the flags of its process on its way to a point. -/
inductive Thread.Effect (process after : Process Text) (here : Thread Text) :
    Thread Text → Prop
  | quiet {point} (pending : point.pending = here.pending) (calm : point ≠ .stopping)
      (stop : after.stop = process.stop) (error : after.error = process.error)
      (failures : after.failures = process.failures) : Effect process after here point
  | failed {point message} (pending : point.pending = some message) (calm : point ≠ .stopping)
      (told : message ≠ "") (stop : after.stop = process.stop)
      (error : after.error = process.error)
      (failures : after.failures = process.failures + 1) : Effect process after here point
  | blamed {message} (pending : here.pending = some message)
      (stop : after.stop = process.stop) (error : after.error = some message)
      (failures : after.failures = process.failures) : Effect process after here .stopping
  | stopped (stopping : here = .stopping) (stop : after.stop = true)
      (error : after.error = process.error) (failures : after.failures = process.failures) :
      Effect process after here .returned

/-- What a thread does to the table on its way to a point. -/
inductive Thread.Tabling (process after : Process Text) (here point : Thread Text) : Prop
  | kept (working : point.working = here.working) (active : after.active = process.active)
  | added {job lost} (idle : here.working = none) (working : point.working = some job)
      (active : after.active = setItem job.token (job, lost) process.active)
  | removed {job} (working : here.working = some job)
      (active : after.active = process.active.filter (fun entry => entry.1 ≠ job.token))

theorem executionMessage_ne_empty (raised : Raised) : executionMessage raised ≠ "" := by
  intro empty
  have start := (String.append_eq_empty_iff.mp (String.append_eq_empty_iff.mp empty).1).1
  exact absurd start (by decide)

theorem unavailableMessage_ne_empty : unavailableMessage ≠ "" := by decide

theorem ThreadStep.effect
    (moves : ThreadStep codec runId crew thread cluster process next after) :
    process.Frame after ∧ ∃ point,
      after.threads = Function.update process.threads thread point ∧
      Thread.Effect process after (process.threads thread) point ∧
      Thread.Tabling process after (process.threads thread) point := by
  have frame : process.Frame after := by
    cases moves <;> exact ⟨rfl, rfl, rfl, rfl, rfl⟩
  refine ⟨frame, ?_⟩
  cases moves with
  | claimRaised here later answer =>
      exact ⟨_, rfl, .failed rfl nofun (executionMessage_ne_empty _) rfl rfl rfl,
        .kept (by rw [here]; rfl) rfl⟩
  | claimLost here later =>
      exact ⟨_, rfl, .failed rfl nofun unavailableMessage_ne_empty rfl rfl rfl,
        .kept (by rw [here]; rfl) rfl⟩
  | unreached here =>
      refine ⟨_, rfl, .failed rfl nofun unavailableMessage_ne_empty rfl rfl rfl, .kept ?_ rfl⟩
      rcases here with here | here | here | ⟨fields, here⟩ <;> rw [here] <;> rfl
  | completeRaised here answer =>
      exact ⟨_, rfl, .failed rfl nofun (executionMessage_ne_empty _) rfl rfl rfl,
        .kept (by rw [here]; rfl) rfl⟩
  | completeLost here later =>
      exact ⟨_, rfl, .failed rfl nofun unavailableMessage_ne_empty rfl rfl rfl,
        .kept (by rw [here]; rfl) rfl⟩
  | completeUnreached here =>
      exact ⟨_, rfl, .failed rfl nofun unavailableMessage_ne_empty rfl rfl rfl,
        .kept (by rw [here]; rfl) rfl⟩
  | @popped job message here =>
      refine ⟨_, rfl, .quiet ?_ ?_ rfl rfl rfl, .removed (by rw [here]; rfl) rfl⟩
      · rw [here]
        cases message <;> rfl
      · cases message <;> nofun
  | registered here =>
      exact ⟨_, rfl, .quiet (by rw [here]; rfl) nofun rfl rfl rfl,
        .added (by rw [here]; rfl) rfl rfl⟩
  | blamed here =>
      exact ⟨_, rfl, .blamed (by rw [here]; rfl) rfl rfl rfl, .kept (by rw [here]; rfl) rfl⟩
  | stopped here =>
      exact ⟨_, rfl, .stopped here rfl rfl rfl, .kept (by rw [here]; rfl) rfl⟩
  | leaves here stop | goesOn here going | claimed here later answer
  | nothing here later answer | full here later full | counted here later missing
  | asked here later | ended here later ended | isOpen here later isOpen | rested here
  | leaseValid here | answered here other | executed here | completed here later answer =>
      exact ⟨_, rfl, .quiet (by rw [here]; rfl) nofun rfl rfl rfl, .kept (by rw [here]; rfl) rfl⟩

theorem Thread.Effect.error_isSome {here point : Thread Text}
    (effect : Thread.Effect process after here point) (error : process.error.isSome) :
    after.error.isSome := by
  cases effect with
  | blamed pending stop same failures => rw [same]; rfl
  | quiet pending calm stop same failures => rwa [same]
  | failed pending calm told stop same failures => rwa [same]
  | stopped stopping stop same failures => rwa [same]

theorem Thread.Effect.failures_le {here point : Thread Text}
    (effect : Thread.Effect process after here point) :
    process.failures ≤ after.failures := by
  cases effect with
  | failed pending calm told stop same failures => omega
  | quiet pending calm stop same failures => omega
  | blamed pending stop same failures => omega
  | stopped stopping stop same failures => omega

/-- A thread that has returned takes no steps. -/
theorem ThreadStep.not_returned
    (moves : ThreadStep codec runId crew thread cluster process next after) :
    process.threads thread ≠ .returned := by
  intro returned
  cases moves with
  | unreached here =>
      rw [returned] at here
      rcases here with here | here | here | ⟨fields, here⟩ <;> cases here
  | leaves here | goesOn here | claimed here | nothing here | claimRaised here | claimLost here
  | full here | counted here | asked here | ended here | isOpen here | rested here
  | registered here | leaseValid here | answered here | executed here | completed here
  | completeRaised here | completeLost here | completeUnreached here | popped here
  | blamed here | stopped here =>
      rw [returned] at here
      cases here

/-! ### The flags of a process -/

/-- Before the threads are started. -/
def Main.early : Main → Bool
  | .starting | .planning | .pausing | .timing | .preparing _ => true
  | _ => false

/-- What the flags of a process say.  Between a call that has raised and the record of it, a
thread is on its way there. -/
structure Process.Controlled (concurrency : Nat) (process : Process Text) : Prop where
  pending : ∀ thread message, (process.threads thread).pending = some message →
    message ≠ "" ∧ 0 < process.failures
  stopping : ∀ thread, process.threads thread = .stopping → process.error.isSome
  losing : ∀ lost pending, process.beat = .losing lost true pending → 0 < process.missed
  blaming : ∀ pending, process.beat = .blaming pending → 0 < process.missed
  halting : ∀ pending, process.beat = .stopping pending → process.error.isSome
  error : ∀ message, process.error = some message →
    message ≠ "" ∧ (0 < process.failures ∨ 0 < process.missed)
  stop : process.stop → process.signalled ∨ process.error.isSome
  recorded : 0 < process.failures →
    process.error.isSome ∨ ∃ thread < concurrency, (process.threads thread).pending.isSome
  table : ∀ entry ∈ process.active, ∃ thread < concurrency, ∃ job,
    (process.threads thread).working = some job ∧ entry.1 = job.token
  idle : process.crew = none → process.error = none
  early : process.main.early → process.crew = none
  closing : process.main = .closing → ∀ thread < concurrency,
    process.threads thread = .returned
  exited : ∀ code, process.main = .exited code →
    (code = 2 ∧ (0 < process.failures ∨ 0 < process.missed ∨
      process.crew = none ∧ process.signalled)) ∨
    (code = 0 ∧ process.failures = 0 ∧ ∀ thread < concurrency,
      process.threads thread = .returned)

section Controlled

variable {concurrency : Nat}

theorem mem_setItem {Value : Type} {key : String} {value : Value} {entry : String × Value} :
    ∀ {entries : List (String × Value)}, entry ∈ setItem key value entries →
      entry = (key, value) ∨ entry ∈ entries
  | [], member => .inl (List.mem_singleton.mp member)
  | (other, old) :: rest, member => by
      unfold setItem at member
      split at member
      · exact (List.mem_cons.mp member).imp_right (List.mem_cons_of_mem _)
      · rcases List.mem_cons.mp member with rfl | later
        · exact .inr List.mem_cons_self
        · exact (mem_setItem later).imp_right (List.mem_cons_of_mem _)

section Effect

variable {point : Thread Text} (controlled : process.Controlled concurrency)
  (goes : after.threads = Function.update process.threads thread point)
  (effect : Thread.Effect process after (process.threads thread) point)
include controlled effect

theorem Process.Controlled.error_after {message : String} (found : after.error = some message) :
    message ≠ "" ∧ (0 < after.failures ∨ 0 < process.missed) := by
  have more := effect.failures_le
  have old : process.error = some message →
      message ≠ "" ∧ (0 < after.failures ∨ 0 < process.missed) := fun found =>
    (controlled.error message found).imp_right (.imp_left fun some => by omega)
  cases effect with
  | quiet same calm stop error failures => exact old (error ▸ found)
  | failed told calm nonempty stop error failures => exact old (error ▸ found)
  | stopped stopping stop error failures => exact old (error ▸ found)
  | blamed told stop error failures =>
      obtain rfl := Option.some.inj (error.symm.trans found)
      exact (controlled.pending thread _ told).imp_right fun some => .inl (by omega)

theorem Process.Controlled.stop_after (stop : after.stop) :
    process.signalled ∨ after.error.isSome := by
  have kept : process.error.isSome → after.error.isSome := effect.error_isSome
  cases effect with
  | quiet same calm stays => exact (controlled.stop (stays ▸ stop)).imp_right kept
  | failed told calm nonempty stays => exact (controlled.stop (stays ▸ stop)).imp_right kept
  | blamed told stays => exact (controlled.stop (stays ▸ stop)).imp_right kept
  | stopped stopping => exact .inr (kept (controlled.stopping thread stopping))

include goes

theorem Process.Controlled.pending_after (other : Nat) (message : String)
    (pending : (after.threads other).pending = some message) :
    message ≠ "" ∧ 0 < after.failures := by
  have more := effect.failures_le
  by_cases here : other = thread
  · rw [here, goes, Function.update_self] at pending
    cases effect with
    | quiet same calm stop error failures =>
        rw [failures]
        exact controlled.pending thread message (same ▸ pending)
    | failed told calm nonempty stop error failures =>
        obtain rfl := Option.some.inj (told.symm.trans pending)
        exact ⟨nonempty, by omega⟩
    | blamed told stop error failures => cases pending
    | stopped stopping stop error failures => cases pending
  · rw [goes, Function.update_of_ne here] at pending
    exact (controlled.pending other message pending).imp_right fun some => by omega

theorem Process.Controlled.stopping_after (other : Nat)
    (stopping : after.threads other = .stopping) : after.error.isSome := by
  by_cases here : other = thread
  · rw [here, goes, Function.update_self] at stopping
    cases effect with
    | quiet same calm => exact (calm stopping).elim
    | failed told calm => exact (calm stopping).elim
    | blamed told stop error failures => rw [error]; rfl
    | stopped => cases stopping
  · rw [goes, Function.update_of_ne here] at stopping
    exact effect.error_isSome (controlled.stopping other stopping)

/-- A call that has raised is recorded by the thread that it was made in. -/
theorem Process.Controlled.recorded_after (member : thread < concurrency)
    (some : 0 < after.failures) :
    after.error.isSome ∨ ∃ other < concurrency, (after.threads other).pending.isSome := by
  have kept : process.error.isSome → after.error.isSome := effect.error_isSome
  cases effect with
  | blamed told stop error failures => exact .inl (by rw [error]; rfl)
  | failed told =>
      exact .inr ⟨thread, member, by rw [goes, Function.update_self, told]; rfl⟩
  | stopped stopping stop error failures =>
      exact .inl (kept (controlled.stopping thread stopping))
  | quiet same calm stop error failures =>
      rcases controlled.recorded (failures ▸ some) with found | ⟨other, below, pending⟩
      · exact .inl (kept found)
      · refine .inr ⟨other, below, ?_⟩
        by_cases here : other = thread
        · rwa [here, goes, Function.update_self, same, ← here]
        · rwa [goes, Function.update_of_ne here]

omit effect

/-- A job is in the table as long as a thread works on it. -/
theorem Process.Controlled.table_after (member : thread < concurrency)
    (tabling : Thread.Tabling process after (process.threads thread) point) :
    ∀ entry ∈ after.active, ∃ other < concurrency, ∃ job,
      (after.threads other).working = some job ∧ entry.1 = job.token := by
  intro entry listed
  have old : ∀ {entry}, entry ∈ process.active →
      (∀ job, (process.threads thread).working = some job → entry.1 = job.token →
        ∃ job, point.working = some job ∧ entry.1 = job.token) →
      ∃ other < concurrency, ∃ job,
        (after.threads other).working = some job ∧ entry.1 = job.token := by
    intro entry listed own
    obtain ⟨other, below, job, working, token⟩ := controlled.table entry listed
    refine ⟨other, below, ?_⟩
    by_cases here : other = thread
    · rw [here] at working
      rw [here, goes, Function.update_self]
      exact own job working token
    · exact ⟨job, by rwa [goes, Function.update_of_ne here], token⟩
  cases tabling with
  | kept working active =>
      exact old (active ▸ listed) fun job found token => ⟨job, working ▸ found, token⟩
  | @added job lost idle working active =>
      rcases mem_setItem (active ▸ listed) with rfl | listed
      · exact ⟨thread, member, job, by rw [goes, Function.update_self, working], rfl⟩
      · exact old listed fun other found => by rw [idle] at found; cases found
  | @removed job working active =>
      rw [active, List.mem_filter] at listed
      refine old listed.1 fun other found token => ?_
      obtain rfl := Option.some.inj (working.symm.trans found)
      simp [token] at listed

end Effect

theorem ThreadStep.controlled (controlled : process.Controlled concurrency)
    (moves : ThreadStep codec runId crew thread cluster process next after)
    (hired : process.crew = some crew) (member : thread < concurrency) :
    after.Controlled concurrency := by
  obtain ⟨frame, point, goes, effect, tabling⟩ := moves.effect
  have more := effect.failures_le
  have running : ¬ ∀ other < concurrency, process.threads other = .returned :=
    fun all => moves.not_returned (all thread member)
  constructor
  case pending => exact controlled.pending_after goes effect
  case stopping => exact controlled.stopping_after goes effect
  case losing => rw [frame.beat, frame.missed]; exact controlled.losing
  case blaming => rw [frame.beat, frame.missed]; exact controlled.blaming
  case halting =>
    rw [frame.beat]
    exact fun pending here => effect.error_isSome (controlled.halting pending here)
  case error => rw [frame.missed]; exact fun _ => controlled.error_after effect
  case stop => rw [frame.signalled]; exact controlled.stop_after effect
  case recorded => exact controlled.recorded_after goes effect member
  case table => exact controlled.table_after goes member tabling
  case idle =>
    rw [frame.crew, hired]
    nofun
  case early => rw [frame.main, frame.crew]; exact controlled.early
  case closing =>
    rw [frame.main]
    exact fun closing => (running (controlled.closing closing)).elim
  case exited =>
    rw [frame.main, frame.crew, frame.signalled, frame.missed]
    intro code exited
    rcases controlled.exited code exited with ⟨two, why⟩ | ⟨_, _, all⟩
    · exact .inl ⟨two, why.imp_left fun some => by omega⟩
    · exact (running all).elim

theorem BeatStep.controlled (controlled : process.Controlled concurrency)
    (moves : BeatStep crew cluster process next after) (hired : process.crew = some crew) :
    after.Controlled concurrency := by
  have quiet : ∀ {beat : Beat} {lost : List Nat},
      (∀ lost pending, beat = .losing lost true pending → 0 < process.missed) →
      (∀ pending, beat = .blaming pending → 0 < process.missed) →
      (∀ pending, beat = .stopping pending → process.error.isSome) →
      Process.Controlled concurrency { process with beat, lost } := by
    intro beat lost losing blaming halting
    exact { controlled with losing, blaming, halting }
  -- whether Redis has carried out the renewal makes no difference to the process
  have failing : ∀ {lost : Nat} {pending : List (Job × Nat)}, Process.Controlled concurrency
      { process with beat := .losing lost true pending, missed := process.missed + 1 } := by
    intro lost pending
    exact {
      controlled with
      losing := fun _ _ _ => Nat.succ_pos _
      blaming := nofun
      halting := nofun
      error := fun message found => (controlled.error message found).imp_right
        fun _ => .inr (Nat.succ_pos _)
      exited := fun code exited => (controlled.exited code exited).imp_left
        fun two => ⟨two.1, .inr (.inl (Nat.succ_pos _))⟩ }
  cases moves with
  | ended here stop => exact quiet nofun nofun nofun
  | copied here going => exact quiet nofun nofun nofun
  | round here => exact quiet nofun nofun nofun
  | renewed here later answer => exact quiet nofun nofun nofun
  | refused here later answer =>
      refine quiet ?_ nofun nofun
      intro lost pending losing
      cases losing
  | unanswered here later => exact failing
  | unreached here => exact failing
  | @lost event raised pending here =>
      cases raised with
      | true => exact quiet nofun (fun _ _ => controlled.losing event pending here) nofun
      | false => exact quiet nofun nofun nofun
  | @blamed pending here =>
      have missed := controlled.blaming pending here
      exact {
        controlled with
        stopping := fun _ _ => rfl
        losing := nofun
        blaming := nofun
        halting := fun _ _ => rfl
        error := by
          intro message found
          obtain rfl := Option.some.inj found
          exact ⟨by decide, .inr missed⟩
        stop := fun stop => .inr rfl
        recorded := fun _ => .inl rfl
        idle := fun fired => by
          change process.crew = none at fired
          rw [hired] at fired
          cases fired }
  | @stopped pending here =>
      exact {
        controlled with
        losing := nofun
        blaming := nofun
        halting := nofun
        stop := fun _ => .inr (controlled.halting pending here) }

theorem MainStep.controlled (controlled : process.Controlled options.concurrency)
    (moves : MainStep platform options cluster process next after) :
    after.Controlled options.concurrency := by
  -- Until the threads are started there is nobody who could have recorded an error.
  have waiting : ∀ {main : Main} {seconds deadline : Rat}, process.main.early = true →
      main ≠ .closing → (∀ code, main ≠ .exited code) →
      Process.Controlled options.concurrency { process with main, seconds, deadline } := by
    intro main seconds deadline early goesOn stays
    exact {
      controlled with
      early := fun _ => controlled.early early
      closing := fun closing => (goesOn closing).elim
      exited := fun code exited => (stays code exited).elim }
  cases moves with
  | started here later => exact waiting (by rw [here]; rfl) nofun nofun
  | absent here later answer => exact waiting (by rw [here]; rfl) nofun nofun
  | found here later answer loaded =>
      refine waiting (by rw [here]; rfl) ?_ ?_ <;> split <;> nofun
  | unreadable here later answer loaded => exact waiting (by rw [here]; rfl) nofun nofun
  | unavailable here => exact waiting (by rw [here]; rfl) nofun nofun
  | paused here going later => exact waiting (by rw [here]; rfl) nofun nofun
  | expired here later reached => exact waiting (by rw [here]; rfl) nofun nofun
  | again here later left => exact waiting (by rw [here]; rfl) nofun nofun
  | rejected here failed => exact waiting (by rw [here]; rfl) nofun nofun
  | gaveUp here stop =>
      have unhired := controlled.early (by rw [here]; rfl)
      have signalled := (controlled.stop stop).resolve_right
        (by rw [controlled.idle unhired]; nofun)
      exact {
        controlled with
        early := nofun
        closing := nofun
        exited := by
          rintro code ⟨⟩
          exact .inl ⟨rfl, .inr (.inr ⟨unhired, signalled⟩)⟩ }
  | prepared here made =>
      exact {
        controlled with
        idle := nofun
        early := nofun
        closing := nofun
        exited := nofun }
  | joined here all =>
      exact {
        controlled with
        early := nofun
        closing := fun _ => all
        exited := nofun }
  | closed here =>
      have all := controlled.closing here
      exact {
        controlled with
        early := nofun
        closing := nofun
        exited := by
          rintro code ⟨⟩
          cases error : process.error with
          | none =>
              refine .inr ⟨rfl, ?_, all⟩
              by_contra some
              rcases controlled.recorded (Nat.pos_of_ne_zero some) with found |
                ⟨thread, below, pending⟩
              · rw [error] at found
                cases found
              · rw [all thread below] at pending
                cases pending
          | some message =>
              obtain ⟨told, why⟩ := controlled.error message error
              exact .inl ⟨by simp [truthy, told], why.imp_right .inl⟩ }
  | signalled =>
      exact {
        controlled with
        stop := fun _ => .inl rfl
        exited := fun code exited => (controlled.exited code exited).imp_left
          fun two => ⟨two.1, two.2.imp_right (.imp_right fun both => ⟨both.1, rfl⟩)⟩ }

theorem ProcessStep.controlled (controlled : process.Controlled options.concurrency)
    (moves : ProcessStep codec runId platform options cluster process next after) :
    after.Controlled options.concurrency := by
  cases moves with
  | main moves => exact moves.controlled controlled
  | thread hired member moves => exact moves.controlled controlled hired member
  | beat hired moves => exact moves.controlled controlled hired

theorem controlled_created : Process.Controlled concurrency ({} : Process Text) where
  pending := nofun
  stopping := nofun
  losing := nofun
  blaming := nofun
  halting := nofun
  error := nofun
  stop := nofun
  recorded := nofun
  table := nofun
  idle _ := rfl
  early _ := rfl
  closing := nofun
  exited := nofun

/-- A process whose threads have returned has nothing left in its table. -/
theorem Process.Controlled.emptied (controlled : process.Controlled concurrency)
    (all : ∀ thread < concurrency, process.threads thread = .returned) :
    process.active = [] := by
  rw [List.eq_nil_iff_forall_not_mem]
  intro entry listed
  obtain ⟨thread, below, job, working, _⟩ := controlled.table entry listed
  rw [all thread below] at working
  cases working

end Controlled

/-! ### What a process knows of its run -/

/-- The coordinator has called `close`. -/
def Point.over : Point Text → Bool
  | .finishing | .returned _ | .raised _ => true
  | _ => false

/-- What the processes of a fleet share. -/
def Cluster.shared (cluster : Cluster Text) : Shared Text where
  db := cluster.system.db
  micros := cluster.micros
  ended := cluster.system.coordinator.point.over

section Advances

variable {fleet later : Fleet Text} {call : Coordination} {platforms : Nat → Platform Text}
  {settings : Nat → WorkerOptions} {run : Run}

theorem db_finished (codec : Codec Text) (system : System Text) (micros : Int) (job : Job)
    (result : CaseResult) : (system.finished codec micros job result).db =
      (RunQueue.complete Key.own codec micros job result system.db).2 := by
  unfold System.finished
  split
  · next called => rw [called]; rfl
  · next called => rw [called]

theorem point_finished (codec : Codec Text) (system : System Text) (micros : Int) (job : Job)
    (result : CaseResult) :
    (system.finished codec micros job result).coordinator = system.coordinator := by
  unfold System.finished
  split <;> rfl

theorem advances_claimed (codec : Codec Text) (cluster : Cluster Text) {micros : Int}
    (later : cluster.micros ≤ micros) (token : String) (lease : Rat) :
    cluster.shared.Advances codec
      (Cluster.shared ⟨cluster.system.claimed codec micros token lease, micros⟩) where
  later := later
  stop := nofun
  ended := id
  db := .inr (.inr ⟨_, rfl, (@claim_record _ codec _ _ _ _ _ _ (Prod.eta _).symm).1⟩)

theorem advances_renewed (codec : Codec Text) (cluster : Cluster Text) {micros : Int}
    (later : cluster.micros ≤ micros) (job : Job) (lease : Rat) :
    cluster.shared.Advances codec
      (Cluster.shared ⟨cluster.system.renewed micros job lease, micros⟩) where
  later := later
  stop := nofun
  ended := id
  db := .inr (.inr ⟨.renew job.case.id job.token _, rfl, rfl⟩)

theorem advances_finished (codec : Codec Text) (cluster : Cluster Text) {micros : Int}
    (later : cluster.micros ≤ micros) (job : Job) (result : CaseResult) :
    cluster.shared.Advances codec
      (Cluster.shared ⟨cluster.system.finished codec micros job result, micros⟩) where
  later := later
  stop := nofun
  ended := by
    change _ → Point.over (System.finished ..).coordinator.point = true
    rw [point_finished]
    exact id
  db := by
    right
    change (System.finished ..).db = _ ∨ ∃ call, _ ∧ (System.finished ..).db = _
    rw [db_finished]
    by_cases identity : result.caseId = job.case.id
    · right
      rw [RunQueue.complete_record identity]
      exact ⟨_, rfl, rfl⟩
    · left
      rw [RunQueue.complete, if_pos identity]
      rfl

theorem advances_seen (codec : Codec Text) (cluster : Cluster Text) {micros : Int}
    (later : cluster.micros ≤ micros) :
    cluster.shared.Advances codec (Cluster.shared ⟨cluster.system, micros⟩) :=
  Shared.advances_time codec later

theorem advances_refl (codec : Codec Text) (cluster : Cluster Text) :
    cluster.shared.Advances codec cluster.shared :=
  Shared.advances_time codec (le_refl _)

theorem CoordinatorStep.advances {system after : System Text}
    (moves : CoordinatorStep codec call system after) (micros : Int) :
    (Cluster.shared ⟨system, micros⟩).Advances codec (Cluster.shared ⟨after, micros⟩) := by
  have quiet : after.db = system.db → system.coordinator.point.over = false →
      (Cluster.shared ⟨system, micros⟩).Advances codec (Cluster.shared ⟨after, micros⟩) :=
    fun same going => ⟨le_refl _, nofun, fun ended => absurd (going.symm.trans ended) nofun,
      .inr (.inl same)⟩
  cases moves with
  | closed here | closeFailed here | aborted here | abortFailed here =>
      exact ⟨le_refl _, nofun, fun _ => rfl, .inl rfl⟩
  | returned here later => exact ⟨le_refl _, nofun, fun _ => rfl, .inl rfl⟩
  | results here | invalid here | inTime here | exceeded here | fields here | isOpen here
  | ended here | slept here => exact quiet rfl (by rw [here]; rfl)
  | unavailable here =>
      refine quiet rfl ?_
      generalize system.coordinator.point = point at here
      cases point with
      | reading | asking | dating => rfl
      | comparing | sleeping | closing | finishing | returned | aborting | raised => cases here

/-- What a thread knows of the run. -/
def Thread.Told (run : Run) (shared : Shared Text) (stop : Bool) : Thread Text → Prop
  | .dating fields => Shared.Dates run fields shared
  | .returned => stop = true ∨ shared.Done run
  | _ => True

/-- What a process knows of the run. -/
structure Process.Told (run : Run) (shared : Shared Text) (process : Process Text) : Prop where
  threads : ∀ thread, (process.threads thread).Told run shared process.stop
  exited : process.main = .exited 0 → process.signalled = true ∨ shared.Done run

variable {before shared : Shared Text}

theorem Thread.Told.advances {point : Thread Text} {stop stopped : Bool}
    (told : point.Told run before stop) (advances : before.Advances codec shared)
    (sound : before.Sound codec run) (stays : stop = true → stopped = true) :
    point.Told run shared stopped := by
  cases point with
  | dating fields => exact told.imp_left advances.past
  | returned => exact told.imp stays (advances.done sound)
  | _ => trivial

/-- Every step but one of the threads. -/
theorem Process.Told.advances (told : process.Told run before)
    (advances : before.Advances codec shared) (sound : before.Sound codec run)
    (threads : after.threads = process.threads) (stays : process.stop = true → after.stop = true)
    (exited : after.main = .exited 0 → after.signalled = true ∨ shared.Done run) :
    after.Told run shared where
  threads thread := by
    rw [threads]
    exact (told.threads thread).advances advances sound stays
  exited := exited

theorem Process.Told.stays (told : process.Told run before)
    (advances : before.Advances codec shared) (sound : before.Sound codec run)
    (main : after.main = process.main)
    (signalled : process.signalled = true → after.signalled = true) :
    after.main = .exited 0 → after.signalled = true ∨ shared.Done run := by
  rw [main]
  exact fun exited => (told.exited exited).imp signalled (advances.done sound)

theorem ThreadStep.told (told : process.Told run cluster.shared)
    (sound : cluster.shared.Sound codec run)
    (moves : ThreadStep codec runId crew thread cluster process next after)
    (total : crew.total = run.suite.cases.length) :
    cluster.shared.Advances codec next.shared ∧ after.Told run next.shared := by
  obtain ⟨frame, -⟩ := moves.effect
  have arrived : ∀ {point}, after.threads = Function.update process.threads thread point →
      (process.stop = true → after.stop = true) →
      cluster.shared.Advances codec next.shared → point.Told run next.shared after.stop →
      cluster.shared.Advances codec next.shared ∧ after.Told run next.shared := by
    intro point goes stop advances here
    refine ⟨advances, fun other => ?_, told.stays advances sound frame.main fun signalled => ?_⟩
    · rw [goes]
      by_cases same : other = thread
      · subst same
        rwa [Function.update_self]
      · rw [Function.update_of_ne same]
        exact (told.threads other).advances advances sound stop
    · rwa [frame.signalled]
  have own := told.threads thread
  cases moves with
  | leaves here stop => exact arrived rfl id (advances_refl ..) (.inl stop)
  | full here later full =>
      exact arrived rfl id (advances_seen _ _ later)
        (.inr (Shared.stored_of_count later sound (total ▸ full)))
  | asked here later =>
      exact arrived rfl id (advances_seen _ _ later) (Shared.dates_of_fields later sound)
  | ended here later ended =>
      rw [here] at own
      exact arrived rfl id (advances_seen _ _ later)
        (.inr (.inr (.inr (Shared.over_of_not_open later own ended))))
  | stopped here => exact arrived rfl (fun _ => rfl) (advances_refl ..) (.inl rfl)
  | goesOn here | rested here | registered here | leaseValid here | answered here
  | executed here | blamed here | unreached here | completeRaised here
  | completeUnreached here => exact arrived rfl id (advances_refl ..) trivial
  | @popped job message here =>
      refine arrived rfl id (advances_refl ..) ?_
      cases message <;> trivial
  | claimed here later | nothing here later | claimRaised here later | claimLost here later =>
      exact arrived rfl id (advances_claimed _ _ later _ _) trivial
  | counted here later | isOpen here later =>
      exact arrived rfl id (advances_seen _ _ later) trivial
  | completed here later | completeLost here later =>
      exact arrived rfl id (advances_finished _ _ later _ _) trivial

theorem BeatStep.told (told : process.Told run cluster.shared)
    (sound : cluster.shared.Sound codec run)
    (moves : BeatStep crew cluster process next after) :
    cluster.shared.Advances codec next.shared ∧ after.Told run next.shared := by
  have arrived : after.threads = process.threads → (process.stop = true → after.stop = true) →
      after.main = process.main → after.signalled = process.signalled →
      cluster.shared.Advances codec next.shared →
      cluster.shared.Advances codec next.shared ∧ after.Told run next.shared := by
    intro threads stop main signalled advances
    exact ⟨advances, told.advances advances sound threads stop
      (told.stays advances sound main fun old => by rwa [signalled])⟩
  cases moves with
  | renewed here later | refused here later | unanswered here later =>
      exact arrived rfl id rfl rfl (advances_renewed _ _ later _ _)
  | stopped here => exact arrived rfl (fun _ => rfl) rfl rfl (advances_refl ..)
  | ended here | copied here | round here | unreached here | lost here | blamed here =>
      exact arrived rfl id rfl rfl (advances_refl ..)

theorem MainStep.told (told : process.Told run cluster.shared)
    (sound : cluster.shared.Sound codec run) (controlled : process.Controlled options.concurrency)
    (moves : MainStep platform options cluster process next after) :
    cluster.shared.Advances codec next.shared ∧ after.Told run next.shared := by
  have arrived : after.threads = process.threads → (process.stop = true → after.stop = true) →
      cluster.shared.Advances codec next.shared →
      (after.main = .exited 0 → after.signalled = true ∨ next.shared.Done run) →
      cluster.shared.Advances codec next.shared ∧ after.Told run next.shared :=
    fun threads stop advances exited => ⟨advances, told.advances advances sound threads stop exited⟩
  cases moves with
  | absent here later | unreadable here later =>
      exact arrived rfl id (advances_seen _ _ later) nofun
  | found here later =>
      refine arrived rfl id (advances_seen _ _ later) fun exited => ?_
      change (if _ then Main.pausing else .preparing _) = .exited 0 at exited
      split at exited <;> cases exited
  | started here | unavailable here | gaveUp here | paused here | expired here | again here
  | prepared here | rejected here | joined here => exact arrived rfl id (advances_refl ..) nofun
  | signalled => exact arrived rfl (fun _ => rfl) (advances_refl ..) fun _ => .inl rfl
  | closed here =>
      refine arrived rfl id (advances_refl ..) fun exited => ?_
      have unblamed : process.error = none := by
        cases error : process.error with
        | none => rfl
        | some message =>
            change Main.exited (if truthy process.error then 2 else 0) = .exited 0 at exited
            simp [error, truthy, (controlled.error message error).1] at exited
      have idle := told.threads 0
      rw [controlled.closing here 0 options.bounded.1] at idle
      refine idle.imp_left fun stop => (controlled.stop stop).resolve_right ?_
      simp [unblamed]

theorem ProcessStep.told (told : process.Told run cluster.shared)
    (sound : cluster.shared.Sound codec run) (controlled : process.Controlled options.concurrency)
    (moves : ProcessStep codec runId platform options cluster process next after)
    (total : ∀ crew, process.crew = some crew → crew.total = run.suite.cases.length) :
    cluster.shared.Advances codec next.shared ∧ after.Told run next.shared := by
  cases moves with
  | main moves => exact moves.told told sound controlled
  | thread hired member moves => exact moves.told told sound (total _ hired)
  | beat hired moves => exact moves.told told sound

/-- What every process knows of the run, and what its flags say. -/
structure Fleet.Told (codec : Codec Text) (run : Run) (settings : Nat → WorkerOptions)
    (fleet : Fleet Text) : Prop where
  sound : fleet.cluster.shared.Sound codec run
  controlled : ∀ name, (fleet.processes name).Controlled (settings name).concurrency
  told : ∀ name, (fleet.processes name).Told run fleet.cluster.shared

theorem FleetStep.told (told : fleet.Told codec run settings)
    (moves : FleetStep codec call platforms settings fleet later)
    (total : ∀ name crew, (fleet.processes name).crew = some crew →
      crew.total = run.suite.cases.length) : later.Told codec run settings := by
  cases moves with
  | coordinator moves =>
      have advances := moves.advances fleet.cluster.micros
      exact ⟨advances.sound told.sound, told.controlled, fun name =>
        (told.told name).advances advances told.sound rfl id
          ((told.told name).stays advances told.sound rfl id)⟩
  | @process name cluster process moves =>
      obtain ⟨advances, own⟩ := moves.told (told.told name) told.sound (told.controlled name)
        (total name)
      refine ⟨advances.sound told.sound, fun other => ?_, fun other => ?_⟩
      · by_cases here : other = name
        · subst here
          simpa using moves.controlled (told.controlled other)
        · simpa [here] using told.controlled other
      · by_cases here : other = name
        · subst here
          simpa using own
        · simpa [here] using (told.told other).advances advances told.sound rfl id
            ((told.told other).stays advances told.sound rfl id)

end Advances

/-! ### Exit codes -/

section Exits

variable {micros : Int} {seconds : Rat} {start : Db Text} {fleet : Fleet Text}
  {call : Coordination} {platforms : Nat → Platform Text} {settings : Nat → WorkerOptions}

theorem Operating.told (started : Started codec micros call.submission start)
    (loads : ∀ name, (platforms name).loads (codec.dumpPlan call.submission.plan) =
      .ok call.submission.plan.dump) (valid : call.suite.Valid)
    (operating : Operating codec call platforms settings start micros seconds fleet)
    {timed : call.submission.Timed}
    (created : Created codec (call.submission.run timed (millis micros)) start) :
    fleet.Told codec (call.submission.run timed (millis micros)) settings := by
  induction operating with
  | created =>
      exact ⟨fun _ _ => ⟨created.inv, created.isOpen⟩, fun name => controlled_created,
        fun name => ⟨fun thread => trivial, nofun⟩⟩
  | step past moves ih =>
      refine moves.told ih fun name crew hired => ?_
      have made := ((past.duly started loads).processes name).crew crew hired
      exact (worksBy_of_prepare valid made).total

/-- When `Worker.run` returns 0, no call of a thread has raised, nothing is left in the table,
and without a signal the run that is left has all its results, is closed, or is past its
deadline.  When it returns 2, a call of a thread or a renewal has raised, or a signal has come
before the run was submitted.  It returns nothing else. -/
theorem exit_codes (started : Started codec micros call.submission start)
    (loads : ∀ name, (platforms name).loads (codec.dumpPlan call.submission.plan) =
      .ok call.submission.plan.dump) (valid : call.suite.Valid)
    (operating : Operating codec call platforms settings start micros seconds fleet)
    {name code : Nat} (exited : (fleet.processes name).main = .exited code) :
    (code = 0 ∧ (fleet.processes name).failures = 0 ∧ (fleet.processes name).active = [] ∧
      ((fleet.processes name).signalled = true ∨
        (∀ case ∈ call.suite.cases, ∃ text, hget .results case.id
          (live (millis fleet.cluster.micros) fleet.cluster.system.db) = some (.doc text)) ∨
        fleet.cluster.system.coordinator.point.over = true ∨
        call.submission.deadline (millis micros) ≤ millis fleet.cluster.micros)) ∨
    (code = 2 ∧ (0 < (fleet.processes name).failures ∨ 0 < (fleet.processes name).missed ∨
      (fleet.processes name).crew = none ∧ (fleet.processes name).signalled = true)) := by
  obtain ⟨timed, created⟩ := started.created
  obtain ⟨_, controlled, told⟩ := operating.told started loads valid created
  rcases (controlled name).exited code exited with two | ⟨rfl, unfailing, all⟩
  · exact .inr two
  · refine .inl ⟨rfl, unfailing, (controlled name).emptied all, ?_⟩
    refine ((told name).exited exited).imp_right fun done => ?_
    rcases done with stop | stored | ended
    · cases stop
    · exact .inl fun case member => stored case.id (List.mem_map_of_mem member)
    · exact .inr ended

end Exits

namespace Sample

/-- The thread finds the only result stored, and the process and the coordinator end. -/
theorem leads_exited : ∃ fleet, Leads handed fleet ∧ (fleet.processes 0).main = .exited 0 ∧
    (fleet.processes 0).threads 0 = .returned ∧
    fleet.cluster.system.coordinator.point =
      .returned (monitoring.report [result] none 5) := by
  have going := leads_probed.thread (.goesOn rfl rfl)
  rw [goto_manned] at going
  have nothing := going.thread (@ThreadStep.nothing _ Codec.plain "run" crew 0 _ _ 4000000
    "second" rfl (by decide) rfl)
  rw [goto_manned] at nothing
  have full := nothing.thread (@ThreadStep.full _ Codec.plain "run" crew 0 _ _ 5000000 rfl
    (by decide) (by decide))
  rw [goto_manned] at full
  have joined := full.moves (.main (.joined rfl fun thread first => by
    obtain rfl := Nat.lt_one_iff.mp first
    rfl))
  have exited := joined.moves (.main (.closed rfl))
  have read := exited.tail (.coordinator (@CoordinatorStep.results _ _ _ _
    6000000 _ [result] rfl (.refl _) rfl))
  have closed := read.tail (.coordinator (@CoordinatorStep.closed _ _ _ _ 7000000 rfl))
  have returned := closed.tail
    (.coordinator (@CoordinatorStep.returned _ _ _ _ 5 rfl (by decide)))
  exact ⟨_, returned, rfl, rfl, rfl⟩

theorem watching_exited : ∃ fleet, Watching fleet ∧ (fleet.processes 0).main = .exited 0 := by
  obtain ⟨fleet, leads, exited, _⟩ := leads_exited
  exact ⟨fleet, operating_iff.mpr ((leads_hired.trans leads_handed).trans leads), exited⟩

end Sample

theorem exit_codes_sample : ∃ fleet, Sample.Watching fleet ∧
    (fleet.processes 0).main = .exited 0 ∧ (fleet.processes 0).failures = 0 := by
  obtain ⟨fleet, watching, exited⟩ := Sample.watching_exited
  rcases exit_codes Sample.started_monitored (fun _ => rfl) Sample.suite_valid watching exited
    with ⟨_, unfailing, _⟩ | ⟨wrong, _⟩
  · exact ⟨fleet, watching, exited, unfailing⟩
  · cases wrong

end ApiSentinel
