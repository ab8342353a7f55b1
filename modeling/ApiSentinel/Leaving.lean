import ApiSentinel.Courses
import ApiSentinel.Departures

/-!
# Every worker process ends

Once its process is stopped, or the run is closed or past its deadline, each step brings a
thread nearer to its return.  So under a schedule that keeps serving everybody the processes of
a fleet end, and so does the coordinator.
-/

namespace ApiSentinel

open Redis

variable {Text : Type} {codec : Codec Text} {run : Run} {runId : String} {crew : Crew}
  {thread : Nat} {since : Int} {db : Db Text} {cluster next : Cluster Text}
  {process after : Process Text}

/-! ### A run that is over -/

/-- What `is_open` has read tells from a time on that the run is not open. -/
def Shut (since : Int) (fields : Option (Bulk Text) × Option (Bulk Text)) : Prop :=
  ∀ micros, since ≤ micros → RunQueue.isOpen fields micros = false

/-- The deadline has passed, or the run is not open. -/
structure Cluster.Ceased (run : Run) (since : Int) (cluster : Cluster Text) : Prop where
  later : since ≤ cluster.micros
  past : run.deadline ≤ millis since ∨
    hget .metadata "state" cluster.system.db ≠ some (.text "open")

/-- A run that is not open is not opened again. -/
theorem Called.state_open {after : Db Text} (called : Called codec db after)
    (keys : Keys codec run db) (isOpen : hget .metadata "state" after = some (.text "open")) :
    hget .metadata "state" db = some (.text "open") := by
  cases called with
  | kept => exact isOpen
  | expired => exact hget_of_live isOpen
  | @record now call old =>
      rcases keys.call_cases old with ⟨inv, _⟩ | ⟨_, gone⟩
      · rcases exec_cases codec now call (live now db) with
          kept | ⟨isActive, _⟩ | ⟨_, closed⟩ | ⟨args, rfl, missing⟩
        · exact hget_of_live ((congrArg (hget .metadata "state") kept).symm.trans isOpen)
        · exact hget_of_live ((inv.planned.active_iff now).mp isActive).1
        · have written := (congrArg (hget .metadata "state") closed).symm.trans isOpen
          simp at written
        · exact (inv.ne_empty (inv.expiring.dated.eq_empty missing)).elim
      · rw [gone] at isOpen
        simp at isOpen

theorem Cluster.Ceased.step (ceased : cluster.Ceased run since)
    (keys : Keys codec run cluster.system.db) (later : cluster.micros ≤ next.micros)
    (called : Called codec cluster.system.db next.system.db) : next.Ceased run since where
  later := ceased.later.trans later
  past := ceased.past.imp_right fun shut isOpen => shut (called.state_open keys isOpen)

section Ceased

variable (ceased : cluster.Ceased run since) (keys : Keys codec run cluster.system.db)
  {micros : Int}
include ceased keys

/-- `is_open` finds out. -/
theorem Cluster.Ceased.shut :
    Shut since (RunQueue.stateDeadline Key.own micros cluster.system.db) := by
  intro time after
  change RunQueue.isOpen (hget .metadata "state" (live (millis micros) cluster.system.db),
    hget .metadata "deadline" (live (millis micros) cluster.system.db)) time = false
  rcases keys.of_live (millis micros) with inv | gone
  · rw [inv.planned.deadline, Bool.eq_false_iff]
    intro isOpen
    rcases inv.planned.state with state | state <;> rw [state] at isOpen
    · rcases ceased.past with passed | shut
      · have left := ((RunQueue.isOpen_iff time).mp isOpen).2
        have before : since / 1000 ≤ time / 1000 := Int.ediv_le_ediv (by norm_num) after
        unfold millis at passed
        omega
      · exact shut (hget_of_live state)
    · exact absurd ((RunQueue.isOpen_iff time).mp isOpen).1 (by decide)
  · rw [gone]
    simp [RunQueue.isOpen]

/-- `claim` hands out nothing. -/
theorem Cluster.Ceased.claim (later : cluster.micros ≤ micros) (token : String) (lease : Rat) :
    (RunQueue.claim Key.own codec micros token lease cluster.system.db).1 = .ok none := by
  have inactive : active Key.own (millis micros) (live (millis micros) cluster.system.db) =
      false := by
    rcases keys.of_live (millis micros) with inv | gone
    · rw [Bool.eq_false_iff]
      intro isActive
      obtain ⟨state, left⟩ := (inv.planned.active_iff _).mp isActive
      rcases ceased.past with passed | shut
      · have before : millis since ≤ millis micros :=
          Int.ediv_le_ediv (by norm_num) (ceased.later.trans later)
        omega
      · exact shut (hget_of_live state)
    · rw [gone]
      exact active_empty _
  rw [RunQueue.claim, claim_inactive codec inactive]
  rfl

end Ceased

/-! ### Threads on their way out -/

/-- A point of a thread and one before it, if its process is stopped, or else its run was over
at a time. -/
inductive Thread.Less (stop : Bool) (since : Int) : Thread Text → Thread Text → Prop
  | leaves : Less stop since .returned .checking
  | goesOn (going : stop = false) : Less stop since .claiming .checking
  | claimed {job} (stopped : stop = true) : Less stop since (.registering job) .claiming
  | nothing : Less stop since .counting .claiming
  | unclaimed {message} : Less stop since (.blaming message) .claiming
  | full : Less stop since .returned .counting
  | uncounted {message} : Less stop since (.blaming message) .counting
  | counted : Less stop since .asking .counting
  | asked {fields} (shut : stop = false → Shut since fields) :
      Less stop since (.dating fields) .asking
  | unasked {message} : Less stop since (.blaming message) .asking
  | ended {fields} : Less stop since .returned (.dating fields)
  | undated {fields message} : Less stop since (.blaming message) (.dating fields)
  | isOpen {fields} (isOpen : stop = false → ¬ Shut since fields) :
      Less stop since .resting (.dating fields)
  | rested : Less stop since .checking .resting
  | registered {job lost program trace} :
      Less stop since (.executing job lost program trace) (.registering job)
  | answered {job lost question next past answer trace} :
      Less stop since (.executing job lost (next answer) trace)
        (.executing job lost (.ask question next) past)
  | executed {job lost result past trace} :
      Less stop since (.completing job lost result trace)
        (.executing job lost (.done result) past)
  | completed {job lost result trace message} :
      Less stop since (.popping job message) (.completing job lost result trace)
  | popped {job} : Less stop since .checking (.popping job none)
  | blames {job message} : Less stop since (.blaming message) (.popping job (some message))
  | blamed {message} : Less stop since .stopping (.blaming message)
  | stopped : Less stop since .returned .stopping

section Founded

variable {stop : Bool}

theorem acc_returned : Acc (@Thread.Less Text stop since) .returned := ⟨_, nofun⟩

theorem acc_blaming (message : String) : Acc (@Thread.Less Text stop since) (.blaming message) := by
  have stopping : Acc (@Thread.Less Text stop since) .stopping := by
    refine ⟨_, fun point less => ?_⟩
    cases less with
    | stopped => exact acc_returned
  refine ⟨_, fun point less => ?_⟩
  cases less with
  | blamed => exact stopping

/-! The other points lead to a check of `stop`. -/

section Checked

variable (checking : Acc (@Thread.Less Text stop since) .checking)
include checking

theorem acc_popping (job : Job) (message : Option String) :
    Acc (@Thread.Less Text stop since) (.popping job message) := by
  refine ⟨_, fun point less => ?_⟩
  cases less with
  | popped => exact checking
  | blames => exact acc_blaming _

theorem acc_completing (job : Job) (lost : Nat) (result : CaseResult) (trace : Execution.Trace) :
    Acc (@Thread.Less Text stop since) (.completing job lost result trace) := by
  refine ⟨_, fun point less => ?_⟩
  cases less with
  | completed => exact acc_popping checking job _

theorem acc_executing (job : Job) (lost : Nat) (program : Execution CaseResult)
    (trace : Execution.Trace) :
    Acc (@Thread.Less Text stop since) (.executing job lost program trace) := by
  induction program generalizing trace with
  | done result =>
      refine ⟨_, fun point less => ?_⟩
      cases less with
      | executed => exact acc_completing checking job _ _ _
  | ask question next ih =>
      refine ⟨_, fun point less => ?_⟩
      cases less with
      | answered => exact ih _ _

theorem acc_registering (job : Job) :
    Acc (@Thread.Less Text stop since) (.registering job) := by
  refine ⟨_, fun point less => ?_⟩
  cases less with
  | registered => exact acc_executing checking job _ _ _

theorem acc_resting : Acc (@Thread.Less Text stop since) .resting := by
  refine ⟨_, fun point less => ?_⟩
  cases less with
  | rested => exact checking

theorem acc_dating (fields : Option (Bulk Text) × Option (Bulk Text)) :
    Acc (@Thread.Less Text stop since) (.dating fields) := by
  refine ⟨_, fun point less => ?_⟩
  cases less with
  | ended => exact acc_returned
  | undated => exact acc_blaming _
  | isOpen => exact acc_resting checking

theorem acc_asking : Acc (@Thread.Less Text stop since) .asking := by
  refine ⟨_, fun point less => ?_⟩
  cases less with
  | asked => exact acc_dating checking _
  | unasked => exact acc_blaming _

theorem acc_counting : Acc (@Thread.Less Text stop since) .counting := by
  refine ⟨_, fun point less => ?_⟩
  cases less with
  | full => exact acc_returned
  | uncounted => exact acc_blaming _
  | counted => exact acc_asking checking

end Checked

/-- The threads of a stopped process leave at their next check. -/
theorem acc_stopped : Acc (@Thread.Less Text true since) .checking ∧
    Acc (@Thread.Less Text true since) .claiming := by
  have checking : Acc (@Thread.Less Text true since) .checking := by
    refine ⟨_, fun point less => ?_⟩
    cases less with
    | leaves => exact acc_returned
    | goesOn going => cases going
  refine ⟨checking, _, fun point less => ?_⟩
  cases less with
  | claimed => exact acc_registering checking _
  | nothing => exact acc_counting checking
  | unclaimed => exact acc_blaming _

/-- In a run that is over they find no job and that it is not open. -/
theorem acc_over : Acc (@Thread.Less Text false since) .checking ∧
    Acc (@Thread.Less Text false since) .claiming := by
  have dating : ∀ fields, Shut since fields →
      Acc (@Thread.Less Text false since) (.dating fields) := by
    refine fun fields shut => ⟨_, fun point less => ?_⟩
    cases less with
    | ended => exact acc_returned
    | undated => exact acc_blaming _
    | isOpen isOpen => exact (isOpen rfl shut).elim
  have asking : Acc (@Thread.Less Text false since) .asking := by
    refine ⟨_, fun point less => ?_⟩
    cases less with
    | asked shut => exact dating _ (shut rfl)
    | unasked => exact acc_blaming _
  have counting : Acc (@Thread.Less Text false since) .counting := by
    refine ⟨_, fun point less => ?_⟩
    cases less with
    | full => exact acc_returned
    | uncounted => exact acc_blaming _
    | counted => exact asking
  have claiming : Acc (@Thread.Less Text false since) .claiming := by
    refine ⟨_, fun point less => ?_⟩
    cases less with
    | claimed stopped => cases stopped
    | nothing => exact counting
    | unclaimed => exact acc_blaming _
  refine ⟨⟨_, fun point less => ?_⟩, claiming⟩
  cases less with
  | leaves => exact acc_returned
  | goesOn => exact claiming

theorem Thread.wellFounded_less (stop : Bool) (since : Int) :
    WellFounded (@Thread.Less Text stop since) := by
  have both : Acc (@Thread.Less Text stop since) .checking ∧
      Acc (@Thread.Less Text stop since) .claiming := by
    cases stop with
    | true => exact acc_stopped
    | false => exact acc_over
  obtain ⟨checking, claiming⟩ := both
  refine ⟨fun point => ?_⟩
  cases point with
  | checking => exact checking
  | claiming => exact claiming
  | counting => exact acc_counting checking
  | asking => exact acc_asking checking
  | dating fields => exact acc_dating checking fields
  | resting => exact acc_resting checking
  | registering job => exact acc_registering checking job
  | executing job lost program trace => exact acc_executing checking job lost program trace
  | completing job lost result trace => exact acc_completing checking job lost result trace
  | popping job message => exact acc_popping checking job message
  | blaming message => exact acc_blaming message
  | stopping => exact ⟨_, fun point less => by cases less with | stopped => exact acc_returned⟩
  | returned => exact acc_returned

end Founded

/-- A step of a thread of a stopped process, or of a run that is over. -/
theorem ThreadStep.less {stop : Bool} (keys : Keys codec run cluster.system.db)
    (stopped : stop = true → process.stop = true)
    (ceased : stop = false → cluster.Ceased run since)
    (moves : ThreadStep codec runId crew thread cluster process next after) :
    Thread.Less stop since (after.threads thread) (process.threads thread) := by
  cases moves with
  | leaves here => simpa only [Process.goto, Function.update_self, here] using .leaves
  | goesOn here going =>
      rw [here]
      simp only [Process.goto, Function.update_self]
      refine .goesOn (Bool.eq_false_iff.mpr fun asked => ?_)
      rw [stopped asked] at going
      cases going
  | @claimed micros token job here later answer =>
      rw [here]
      simp only [Process.goto, Function.update_self]
      refine .claimed (by_contra fun going => ?_)
      have nothing := (ceased (Bool.eq_false_iff.mpr going)).claim keys later token
        crew.worker.leaseSeconds
      rw [answer] at nothing
      cases nothing
  | nothing here => simpa only [Process.goto, Function.update_self, here] using .nothing
  | claimRaised here | claimLost here =>
      simpa only [Process.fail, Process.goto, Function.update_self, here] using .unclaimed
  | unreached here =>
      simp only [Process.fail, Process.goto, Function.update_self]
      rcases here with here | here | here | ⟨fields, here⟩ <;> rw [here]
      · exact .unclaimed
      · exact .uncounted
      · exact .unasked
      · exact .undated
  | full here => simpa only [Process.goto, Function.update_self, here] using .full
  | counted here => simpa only [Process.goto, Function.update_self, here] using .counted
  | asked here =>
      simpa only [Process.goto, Function.update_self, here] using
        .asked fun going => (ceased going).shut keys
  | ended here => simpa only [Process.goto, Function.update_self, here] using .ended
  | isOpen here later isOpen =>
      rw [here]
      simp only [Process.goto, Function.update_self]
      refine .isOpen fun going shut => ?_
      rw [shut _ ((ceased going).later.trans later)] at isOpen
      cases isOpen
  | rested here => simpa only [Process.goto, Function.update_self, here] using .rested
  | registered here => simpa only [Process.goto, Function.update_self, here] using .registered
  | leaseValid here =>
      rw [here]
      simp only [Process.goto, Function.update_self]
      exact @Thread.Less.answered _ _ _ _ _ .leaseValid _ _ _ _
  | answered here => simpa only [Process.goto, Function.update_self, here] using .answered
  | executed here => simpa only [Process.goto, Function.update_self, here] using .executed
  | completed here => simpa only [Process.goto, Function.update_self, here] using .completed
  | completeRaised here | completeLost here | completeUnreached here =>
      simpa only [Process.fail, Process.goto, Function.update_self, here] using .completed
  | @popped job message here =>
      rw [here]
      simp only [Process.goto, Function.update_self]
      cases message with
      | none => exact .popped
      | some message => exact .blames
  | blamed here => simpa only [Process.goto, Function.update_self, here] using .blamed
  | stopped here => simpa only [Process.goto, Function.update_self, here] using .stopped

/-! ### Threads with a job -/

/-- The thread has claimed a job and has not executed it yet. -/
def Thread.Works (job : Job) : Thread Text → Prop
  | .registering other | .executing other _ _ _ => other = job
  | _ => False

/-- It comes nearer to its `complete`, whatever has become of the run. -/
theorem ThreadStep.works {job : Job} (works : (process.threads thread).Works job)
    (moves : ThreadStep codec runId crew thread cluster process next after) :
    Thread.Less true since (after.threads thread) (process.threads thread) ∧
      ((after.threads thread).Works job ∨
        ∃ lost result trace, after.threads thread = .completing job lost result trace) := by
  cases moves with
  | registered here =>
      simp only [Process.goto, Function.update_self, here] at works ⊢
      exact ⟨.registered, .inl works⟩
  | leaseValid here =>
      simp only [Process.goto, Function.update_self, here] at works ⊢
      exact ⟨@Thread.Less.answered _ _ _ _ _ .leaseValid _ _ _ _, .inl works⟩
  | answered here =>
      simp only [Process.goto, Function.update_self, here] at works ⊢
      exact ⟨.answered, .inl works⟩
  | executed here =>
      simp only [Process.goto, Function.update_self, here] at works ⊢
      obtain rfl := works
      exact ⟨.executed, .inr ⟨_, _, _, rfl⟩⟩
  | unreached here =>
      rcases here with here | here | here | ⟨fields, here⟩ <;> rw [here] at works <;> cases works
  | leaves here | goesOn here | claimed here | nothing here | claimRaised here
  | claimLost here | full here | counted here | asked here | ended here | isOpen here
  | rested here | completed here | completeRaised here | completeLost here
  | completeUnreached here | popped here | blamed here | stopped here =>
      rw [here] at works
      cases works

end ApiSentinel
