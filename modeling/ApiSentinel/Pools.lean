import ApiSentinel.Program
import Mathlib.Data.List.Forall2
import Mathlib.Logic.Hydra

/-!
# Pools of programs

A pool runs a list of programs with a number of workers.  The programs are submitted one by
one, the workers take them in this order, and the results are collected in it, while the
programs that are running are answered in any order.  Every run of a pool comes to its end,
and then there is a result of every program.
-/

namespace Program

open Relation (ReflTransGen)

variable {Ask Result : Type} {Answer : Ask → Type}

/-- The future of a program, with what it has asked. -/
inductive Future (Ask : Type) (Answer : Ask → Type) (Result : Type)
  | waiting
  | running (program : Program Ask Answer Result) (past : Trace Answer)
  | finished (past : Trace Answer) (result : Result)

def Future.isRunning : Future Ask Answer Result → Bool
  | .running _ _ => true
  | _ => false

/-- How many programs are submitted, how many of them a worker has taken, the futures by the
positions of their programs, and the results that are collected. -/
structure Pool (Ask : Type) (Answer : Ask → Type) (Result : Type) where
  submitted : Nat := 0
  started : Nat := 0
  futures : Nat → Future Ask Answer Result := fun _ => .waiting
  results : List Result := []

namespace Pool

/-- How many workers are at work. -/
def busy (pool : Pool Ask Answer Result) : Nat :=
  (List.range pool.started).countP (fun index => (pool.futures index).isRunning)

section Steps

variable (tasks : List (Program Ask Answer Result)) (workers : Nat)
  (may : (question : Ask) → Answer question → Prop)

inductive Step : Pool Ask Answer Result → Pool Ask Answer Result → Prop
  | submitted {pool} (left : pool.submitted < tasks.length) :
      Step pool { pool with submitted := pool.submitted + 1 }
  | started {pool task} (queued : pool.started < pool.submitted)
      (free : pool.busy < workers) (next : tasks[pool.started]? = some task) :
      Step pool { pool with
        started := pool.started + 1
        futures := Function.update pool.futures pool.started (.running task []) }
  | answered {pool index question next past answer}
      (here : pool.futures index = .running (.ask question next) past)
      (allowed : may question answer) :
      Step pool { pool with
        futures := Function.update pool.futures index
          (.running (next answer) (past ++ [⟨question, answer⟩])) }
  | finished {pool index result past}
      (here : pool.futures index = .running (.done result) past) :
      Step pool { pool with
        futures := Function.update pool.futures index (.finished past result) }
  | collected {pool past result} (all : pool.submitted = tasks.length)
      (here : pool.futures pool.results.length = .finished past result) :
      Step pool { pool with results := pool.results ++ [result] }

/-- The answers of a trace are allowed. -/
def Allowed (trace : Trace Answer) : Prop := ∀ event ∈ trace, may event.1 event.2

/-- A future is that of the program at its position. -/
def Future.Sound (index : Nat) : Future Ask Answer Result → Prop
  | .waiting => True
  | .running program past => ∃ task, tasks[index]? = some task ∧ Allowed may past ∧
      ∀ rest result, Runs program rest result → Runs task (past ++ rest) result
  | .finished past result => ∃ task, tasks[index]? = some task ∧ Allowed may past ∧
      Runs task past result

/-- What holds of a pool at any time. -/
structure Sound (pool : Pool Ask Answer Result) : Prop where
  started_le : pool.started ≤ pool.submitted
  submitted_le : pool.submitted ≤ tasks.length
  busy_le : pool.busy ≤ workers
  waiting : ∀ index, pool.futures index = .waiting ↔ pool.started ≤ index
  futures : ∀ index, Future.Sound tasks may index (pool.futures index)
  collected : ∀ index result, pool.results[index]? = some result →
    ∃ past, pool.futures index = .finished past result

end Steps

variable {tasks : List (Program Ask Answer Result)} {workers : Nat}
  {may : (question : Ask) → Answer question → Prop} {pool next : Pool Ask Answer Result}

theorem Allowed.append {past rest : Trace Answer} (before : Allowed may past)
    (after : Allowed may rest) : Allowed may (past ++ rest) :=
  fun event member => (List.mem_append.mp member).elim (before event) (after event)

/-- A worker goes on or is done. -/
theorem busy_update_le {index : Nat} {program : Program Ask Answer Result} {past : Trace Answer}
    (here : pool.futures index = .running program past) (future : Future Ask Answer Result) :
    Pool.busy { pool with futures := Function.update pool.futures index future } ≤ pool.busy := by
  refine List.countP_mono_left fun other _ running => ?_
  by_cases same : other = index
  · rw [same, here]
    rfl
  · change (Function.update pool.futures index future other).isRunning = true at running
    rwa [Function.update_of_ne same] at running

/-- A worker takes a program. -/
theorem busy_started (program : Program Ask Answer Result) :
    Pool.busy { pool with
      started := pool.started + 1
      futures := Function.update pool.futures pool.started (.running program []) } =
        pool.busy + 1 := by
  have before : (List.range pool.started).countP (fun index =>
      (Function.update pool.futures pool.started (.running program []) index).isRunning) =
        pool.busy := by
    refine List.countP_congr fun index member => ?_
    rw [Function.update_of_ne (ne_of_lt (List.mem_range.mp member))]
  change (List.range (pool.started + 1)).countP (fun index =>
    (Function.update pool.futures pool.started (.running program []) index).isRunning) = _
  rw [List.range_succ, List.countP_append, before]
  simp [Future.isRunning]

theorem sound_created : Sound tasks workers may {} where
  started_le := le_refl _
  submitted_le := Nat.zero_le _
  busy_le := Nat.zero_le _
  waiting _ := ⟨fun _ => Nat.zero_le _, fun _ => rfl⟩
  futures _ := trivial
  collected := nofun

/-- A future that is running moves on. -/
theorem Sound.update (sound : Sound tasks workers may pool) {index : Nat}
    {program : Program Ask Answer Result} {past : Trace Answer}
    (here : pool.futures index = .running program past) {future : Future Ask Answer Result}
    (going : future ≠ .waiting) (own : Future.Sound tasks may index future) :
    Sound tasks workers may
      { pool with futures := Function.update pool.futures index future } where
  started_le := sound.started_le
  submitted_le := sound.submitted_le
  busy_le := (busy_update_le here future).trans sound.busy_le
  waiting other := by
    by_cases same : other = index
    · have taken := (sound.waiting index).not.mp (by rw [here]; nofun)
      simp [same, going, taken]
    · simpa [same] using sound.waiting other
  futures := (Function.forall_update_iff pool.futures
    (fun index future => Future.Sound tasks may index future)).mpr
      ⟨own, fun other _ => sound.futures other⟩
  collected other result found := by
    obtain ⟨trace, finished⟩ := sound.collected other result found
    have different : other ≠ index := by
      rintro rfl
      rw [here] at finished
      cases finished
    exact ⟨trace, by simpa [different] using finished⟩

theorem Sound.step (sound : Sound tasks workers may pool)
    (moves : Step tasks workers may pool next) : Sound tasks workers may next := by
  cases moves with
  | submitted left =>
      exact { sound with started_le := Nat.le_succ_of_le sound.started_le, submitted_le := left }
  | @started task queued free found =>
      constructor
      case started_le => exact queued
      case submitted_le => exact sound.submitted_le
      case busy_le => rw [busy_started]; exact free
      case waiting =>
        intro index
        by_cases same : index = pool.started
        · simp [same]
        · have other := sound.waiting index
          simp only [Function.update_of_ne same, other]
          omega
      case futures =>
        exact (Function.forall_update_iff pool.futures
          (fun index future => Future.Sound tasks may index future)).mpr
            ⟨⟨task, found, nofun, fun rest result runs => runs⟩, fun other _ => sound.futures other⟩
      case collected =>
        intro index result collected
        obtain ⟨past, finished⟩ := sound.collected index result collected
        have different : index ≠ pool.started := by
          rintro rfl
          rw [(sound.waiting pool.started).mpr (le_refl _)] at finished
          cases finished
        exact ⟨past, by simpa [different] using finished⟩
  | @answered index question _ past answer here allowed =>
      have own := sound.futures index
      rw [here] at own
      obtain ⟨task, found, before, runs⟩ := own
      refine sound.update here nofun ⟨task, found, before.append ?_, fun rest result more => ?_⟩
      · intro event member
        obtain rfl := List.mem_singleton.mp member
        exact allowed
      · rw [List.append_assoc]
        exact runs _ result (.ask more)
  | @finished index result past here =>
      have own := sound.futures index
      rw [here] at own
      obtain ⟨task, found, before, runs⟩ := own
      have ran := runs [] result .done
      rw [List.append_nil] at ran
      exact sound.update here nofun ⟨task, found, before, ran⟩
  | @collected past result all here =>
      refine { sound with collected := fun index other found => ?_ }
      by_cases earlier : index < pool.results.length
      · rw [List.getElem?_append_left earlier] at found
        exact sound.collected index other found
      · rw [List.getElem?_append_right (not_lt.mp earlier), List.getElem?_singleton] at found
        split at found
        · next same =>
            obtain rfl : index = pool.results.length := by omega
            exact ⟨past, Option.some.inj found ▸ here⟩
        · cases found

theorem Sound.reached (reached : ReflTransGen (Step tasks workers may) {} pool) :
    Sound tasks workers may pool := by
  induction reached with
  | refl => exact sound_created
  | tail _ moves ih => exact ih.step moves

/-- The results that are collected are those of the first programs, in order. -/
theorem Sound.results (sound : Sound tasks workers may pool) :
    List.Forall₂ (fun task result => ∃ trace, Allowed may trace ∧ Runs task trace result)
      (tasks.take pool.results.length) pool.results := by
  have ran : ∀ (index : Nat) (result : Result), pool.results[index]? = some result →
      ∃ task : Program Ask Answer Result, tasks[index]? = some task ∧
        ∃ trace, Allowed may trace ∧ Runs task trace result := by
    intro index result found
    obtain ⟨past, finished⟩ := sound.collected index result found
    have own := sound.futures index
    rw [finished] at own
    obtain ⟨task, here, allowed, runs⟩ := own
    exact ⟨task, here, past, allowed, runs⟩
  have length_le : pool.results.length ≤ tasks.length := by
    by_contra longer
    obtain ⟨task, here, _⟩ := ran tasks.length _ (List.getElem?_eq_getElem (not_le.mp longer))
    simp at here
  refine List.forall₂_iff_get.mpr ⟨by simp [length_le], fun index first second => ?_⟩
  obtain ⟨task, here, runs⟩ := ran index _ (List.getElem?_eq_getElem second)
  obtain ⟨below, rfl⟩ := List.getElem?_eq_some_iff.mp here
  simpa using runs

/-- A pool can follow any run of a program that is allowed. -/
theorem follow {start : Pool Ask Answer Result} {index : Nat} {program : Program Ask Answer Result}
    {past trace : Trace Answer} {result : Result}
    (reached : ReflTransGen (Step tasks workers may) start pool)
    (here : pool.futures index = .running program past) (runs : Runs program trace result)
    (allowed : Allowed may trace) :
    ReflTransGen (Step tasks workers may) start
      { pool with
        futures := Function.update pool.futures index
          (.running (.done result) (past ++ trace)) } := by
  induction runs generalizing pool past with
  | done => rwa [List.append_nil, ← here, Function.update_eq_self]
  | @ask question next answer trace result rest ih =>
      have answered := reached.tail (Step.answered here (allowed _ List.mem_cons_self))
      have followed := ih answered (Function.update_self _ _ _)
        fun event member => allowed event (List.mem_cons_of_mem _ member)
      rwa [Function.update_idem, List.append_assoc] at followed

/-! ### One program after the other -/

theorem submits {count : Nat} (bound : count ≤ tasks.length) :
    ReflTransGen (Step tasks workers may) {} { submitted := count } := by
  induction count with
  | zero => exact .refl
  | succ count ih => exact (ih (Nat.le_of_succ_le bound)).tail (.submitted bound)

/-- The first programs have finished with these results. -/
def Finished (results : List Result) (count : Nat) (pool : Pool Ask Answer Result) : Prop :=
  ∀ index < count, ∃ past result, results[index]? = some result ∧
    pool.futures index = .finished past result

theorem Finished.busy {results : List Result} {count : Nat}
    (finished : Finished results count pool) (started : pool.started = count) : pool.busy = 0 := by
  rw [Pool.busy, List.countP_eq_zero]
  intro index member
  obtain ⟨past, result, _, here⟩ := finished index (started ▸ List.mem_range.mp member)
  rw [here]
  exact Bool.false_ne_true

section Sequence

variable {results : List Result} (manned : 0 < workers)
  (ran : List.Forall₂ (fun task result => ∃ trace, Allowed may trace ∧ Runs task trace result)
    tasks results)
include manned ran

/-- One worker is enough for all programs. -/
theorem exists_finished {count : Nat} (bound : count ≤ tasks.length) :
    ∃ pool, ReflTransGen (Step tasks workers may) {} pool ∧ pool.submitted = tasks.length ∧
      pool.started = count ∧ pool.results = [] ∧ Finished results count pool := by
  induction count with
  | zero => exact ⟨_, submits (le_refl _), rfl, rfl, rfl, nofun⟩
  | succ count ih =>
      obtain ⟨pool, reached, submitted, rfl, empty, finished⟩ := ih (Nat.le_of_succ_le bound)
      have written : pool.started < results.length := ran.length_eq ▸ bound
      obtain ⟨trace, allowed, runs⟩ := (List.forall₂_iff_get.mp ran).2 pool.started bound written
      have free : pool.busy < workers := (finished.busy rfl).symm ▸ manned
      have begun := reached.tail
        (.started (submitted ▸ bound) free (List.getElem?_eq_getElem bound))
      have followed := (follow begun (Function.update_self _ _ _) runs allowed).tail
        (.finished (Function.update_self _ _ _))
      refine ⟨_, followed, submitted, rfl, empty, fun index below => ?_⟩
      rcases Nat.lt_succ_iff_lt_or_eq.mp below with earlier | rfl
      · obtain ⟨past, result, listed, here⟩ := finished index earlier
        exact ⟨past, result, listed, by simpa [earlier.ne] using here⟩
      · exact ⟨_, _, List.getElem?_eq_getElem written, Function.update_self _ _ _⟩

/-- Whatever the runs of the programs, there is a schedule that collects their results. -/
theorem exists_reached :
    ∃ pool, ReflTransGen (Step tasks workers may) {} pool ∧ pool.results = results := by
  have collects : ∀ count ≤ tasks.length, ∃ pool,
      ReflTransGen (Step tasks workers may) {} pool ∧ pool.submitted = tasks.length ∧
        Finished results tasks.length pool ∧ pool.results = results.take count := by
    intro count bound
    induction count with
    | zero =>
        obtain ⟨pool, reached, submitted, _, empty, finished⟩ :=
          exists_finished manned ran (le_refl _)
        exact ⟨pool, reached, submitted, finished, empty⟩
    | succ count ih =>
        obtain ⟨pool, reached, submitted, finished, taken⟩ := ih (Nat.le_of_succ_le bound)
        obtain ⟨past, result, listed, here⟩ := finished count bound
        have length : pool.results.length = count := by
          rw [taken, List.length_take, min_eq_left]
          exact ran.length_eq ▸ Nat.le_of_succ_le bound
        refine ⟨_, reached.tail (.collected submitted (length ▸ here)), submitted, finished, ?_⟩
        rw [List.take_add_one, listed, ← taken]
        rfl
  obtain ⟨pool, reached, _, _, taken⟩ := collects tasks.length (le_refl _)
  refine ⟨pool, reached, taken.trans ?_⟩
  rw [ran.length_eq, List.take_length]

end Sequence

/-! ### Progress -/

/-- A pool with a worker and answers to all questions goes on until all results are collected. -/
theorem Sound.progress (sound : Sound tasks workers may pool) (manned : 0 < workers)
    (answering : ∀ question, ∃ answer, may question answer)
    (more : pool.results.length < tasks.length) : ∃ next, Step tasks workers may pool next := by
  by_cases left : pool.submitted < tasks.length
  · exact ⟨_, .submitted left⟩
  have all : pool.submitted = tasks.length := le_antisymm sound.submitted_le (not_lt.mp left)
  by_cases idle : ∃ index program past, pool.futures index = .running program past
  · obtain ⟨index, program, past, here⟩ := idle
    cases program with
    | done result => exact ⟨_, .finished here⟩
    | ask question next =>
        obtain ⟨answer, allowed⟩ := answering question
        exact ⟨_, .answered here allowed⟩
  · have free : pool.busy = 0 := by
      rw [busy, List.countP_eq_zero]
      intro index _
      cases here : pool.futures index with
      | running program past => exact (idle ⟨index, program, past, here⟩).elim
      | waiting => nofun
      | finished past result => nofun
    by_cases queued : pool.started < pool.submitted
    · exact ⟨_, .started queued (free ▸ manned) (List.getElem?_eq_getElem (all ▸ queued))⟩
    · cases here : pool.futures pool.results.length with
      | running program past => exact (idle ⟨_, program, past, here⟩).elim
      | finished past result => exact ⟨_, .collected all here⟩
      | waiting =>
          have later := (sound.waiting _).mp here
          omega

/-! ### Termination -/

/-- What is left to do of a program. -/
inductive Stage (Ask : Type) (Answer : Ask → Type) (Result : Type)
  | unsubmitted
  | queued
  | running (program : Program Ask Answer Result)
  | finished
  | collected

inductive Stage.Less : Stage Ask Answer Result → Stage Ask Answer Result → Prop
  | submitted : Less .queued .unsubmitted
  | started {program} : Less (.running program) .queued
  | answered {question next answer} :
      Less (.running (next answer)) (.running (.ask question next))
  | finished {program} : Less .finished (.running program)
  | collected : Less .collected .finished

theorem Stage.wellFounded : WellFounded (@Stage.Less Ask Result Answer) := by
  have collected : Acc (@Stage.Less Ask Result Answer) .collected := ⟨_, nofun⟩
  have finished : Acc (@Stage.Less Ask Result Answer) .finished := by
    refine ⟨_, fun stage less => ?_⟩
    cases less
    exact collected
  have running : ∀ program, Acc (@Stage.Less Ask Result Answer) (.running program) := by
    intro program
    induction program with
    | done result =>
        refine ⟨_, fun stage less => ?_⟩
        cases less
        exact finished
    | ask question next ih =>
        refine ⟨_, fun stage less => ?_⟩
        cases less with
        | answered => exact ih _
        | finished => exact finished
  have queued : Acc (@Stage.Less Ask Result Answer) .queued := by
    refine ⟨_, fun stage less => ?_⟩
    cases less
    exact running _
  refine ⟨fun stage => ?_⟩
  cases stage with
  | collected => exact collected
  | finished => exact finished
  | running program => exact running program
  | queued => exact queued
  | unsubmitted =>
      refine ⟨_, fun stage less => ?_⟩
      cases less
      exact queued

def stage (pool : Pool Ask Answer Result) (index : Nat) : Stage Ask Answer Result :=
  match pool.futures index with
  | .waiting => if index < pool.submitted then .queued else .unsubmitted
  | .running program _ => .running program
  | .finished _ _ => if index < pool.results.length then .collected else .finished

/-- What is left to do of a number of programs. -/
def stages (count : Nat) (pool : Pool Ask Answer Result) : Multiset (Stage Ask Answer Result) :=
  (Multiset.range count).map pool.stage

theorem cutExpand_stages {count index : Nat} (below : index < count)
    (less : Stage.Less (next.stage index) (pool.stage index))
    (others : ∀ other, other ≠ index → next.stage other = pool.stage other) :
    Relation.CutExpand Stage.Less (next.stages count) (pool.stages count) := by
  obtain ⟨rest, split⟩ := Multiset.exists_cons_of_mem (Multiset.mem_range.mpr below)
  have apart : index ∉ rest := by
    have distinct := Multiset.nodup_range count
    rw [split] at distinct
    exact (Multiset.nodup_cons.mp distinct).1
  have same : rest.map next.stage = rest.map pool.stage :=
    Multiset.map_congr rfl fun other member => others other fun equal => apart (equal ▸ member)
  rw [stages, stages, split, Multiset.map_cons, Multiset.map_cons, same,
    ← Multiset.singleton_add, ← Multiset.singleton_add]
  exact Relation.cutExpand_single_add less _

/-- Every step brings one program further. -/
theorem Sound.stages (sound : Sound tasks workers may pool)
    (moves : Step tasks workers may pool next) :
    Relation.CutExpand Stage.Less (next.stages tasks.length) (pool.stages tasks.length) := by
  have planned : ∀ {index program past}, pool.futures index = .running program past →
      index < tasks.length := by
    intro index program past here
    have own := sound.futures index
    rw [here] at own
    obtain ⟨task, found, _⟩ := own
    exact (List.getElem?_eq_some_iff.mp found).1
  cases moves with
  | submitted left =>
      have waiting := (sound.waiting pool.submitted).mpr sound.started_le
      refine cutExpand_stages left ?_ fun other different => ?_
      · simp only [stage, waiting, lt_irrefl, if_false, Nat.lt_succ_self, if_true]
        exact .submitted
      · have same : other < pool.submitted + 1 ↔ other < pool.submitted := by omega
        simp only [stage, same]
  | @started task queued free found =>
      have waiting := (sound.waiting pool.started).mpr (le_refl _)
      refine cutExpand_stages (queued.trans_le sound.submitted_le) ?_ fun other different => ?_
      · simp only [stage, waiting, queued, if_true, Function.update_self]
        exact .started
      · simp only [stage, Function.update_of_ne different]
  | @answered index question _ past answer here allowed =>
      refine cutExpand_stages (planned here) ?_ fun other different => ?_
      · simp only [stage, here, Function.update_self]
        exact .answered
      · simp only [stage, Function.update_of_ne different]
  | @finished index result past here =>
      have later : ¬ index < pool.results.length := by
        intro earlier
        obtain ⟨_, finished⟩ := sound.collected index _ (List.getElem?_eq_getElem earlier)
        rw [here] at finished
        cases finished
      refine cutExpand_stages (planned here) ?_ fun other different => ?_
      · simp only [stage, here, Function.update_self, if_neg later]
        exact .finished
      · simp only [stage, Function.update_of_ne different]
  | @collected past result all here =>
      have own := sound.futures pool.results.length
      rw [here] at own
      obtain ⟨task, found, _⟩ := own
      refine cutExpand_stages (List.getElem?_eq_some_iff.mp found).1 ?_ fun other different => ?_
      · simp only [stage, here, lt_irrefl, if_false, List.length_append, List.length_singleton,
          Nat.lt_succ_self, if_true]
        exact .collected
      · have same : other < pool.results.length + 1 ↔ other < pool.results.length := by omega
        simp only [stage, List.length_append, List.length_singleton, same]

theorem wellFounded_steps (tasks : List (Program Ask Answer Result)) (workers : Nat)
    (may : (question : Ask) → Answer question → Prop) :
    WellFounded fun next pool : Pool Ask Answer Result =>
      Sound tasks workers may pool ∧ Step tasks workers may pool next := by
  have irreflexive := (@Stage.wellFounded Ask Result Answer).irrefl
  exact Subrelation.wf (fun both => both.1.stages both.2)
    (InvImage.wf (Pool.stages tasks.length) Stage.wellFounded.cutExpand)

/-- A pool does not run for ever. -/
theorem ends (run : Nat → Pool Ask Answer Result) (created : run 0 = {}) :
    ∃ time, ¬ Step tasks workers may (run time) (run (time + 1)) := by
  by_contra goesOn
  simp only [not_exists, not_not] at goesOn
  have sound : ∀ time, Sound tasks workers may (run time) := by
    intro time
    induction time with
    | zero => exact created ▸ sound_created
    | succ time ih => exact ih.step (goesOn time)
  obtain ⟨_, ⟨time, rfl⟩, minimal⟩ := (wellFounded_steps tasks workers may).has_min
    (Set.range run) ⟨run 0, 0, rfl⟩
  exact minimal _ ⟨time + 1, rfl⟩ ⟨sound time, goesOn time⟩

end Pool

end Program
