import Mathlib.Logic.Relation
import Mathlib.Order.WellFounded

/-!
# Courses of a system

A course has a state at every time.  A value that only sinks comes to rest, and if it moves on
wherever it has not arrived, it arrives.
-/

namespace Course

variable {Value : Type} {lower : Value → Value → Prop} {value : Nat → Value} {start : Nat}

/-- From a time on a value stays or goes lower. -/
def Sinks (lower : Value → Value → Prop) (value : Nat → Value) (start : Nat) : Prop :=
  ∀ time, start ≤ time → value (time + 1) = value time ∨ lower (value (time + 1)) (value time)

/-- What only sinks comes to rest. -/
theorem Sinks.rests (sinks : Sinks lower value start) (founded : WellFounded lower) :
    ∃ time, start ≤ time ∧ ∀ later, time ≤ later → value later = value time := by
  obtain ⟨least, ⟨time, later, rfl⟩, minimal⟩ := founded.has_min
    { other | ∃ time, start ≤ time ∧ value time = other } ⟨value start, start, le_refl _, rfl⟩
  refine ⟨time, later, fun next after => ?_⟩
  induction next, after using Nat.le_induction with
  | base => rfl
  | succ next after ih =>
      rcases sinks next (later.trans after) with same | less
      · exact same.trans ih
      · exact (minimal _ ⟨next + 1, by omega, rfl⟩ (ih ▸ less)).elim

/-- What only sinks, and moves on as long as it has not arrived, arrives. -/
theorem Sinks.arrives (sinks : Sinks lower value start) (founded : WellFounded lower)
    {goal : Value → Prop}
    (moves : ∀ time, start ≤ time → ¬ goal (value time) →
      ∃ later, time ≤ later ∧ value later ≠ value time) :
    ∃ time, start ≤ time ∧ goal (value time) := by
  obtain ⟨time, later, rests⟩ := sinks.rests founded
  refine ⟨time, later, ?_⟩
  by_contra away
  obtain ⟨next, after, moved⟩ := moves time later away
  exact moved (rests next after)

/-- What is true of a value at a time and kept from then on. -/
theorem stays {holds : Value → Prop} (here : holds (value start))
    (kept : ∀ time, start ≤ time → holds (value time) → holds (value (time + 1))) {time : Nat}
    (later : start ≤ time) : holds (value time) := by
  induction time, later using Nat.le_induction with
  | base => exact here
  | succ next after ih => exact kept next after ih

/-- Finitely many things that stay true come true together. -/
theorem together {holds : Nat → Nat → Prop} {count : Nat}
    (stays : ∀ index < count, ∀ time, start ≤ time → holds index time →
      holds index (time + 1))
    (each : ∀ index < count, ∃ time, start ≤ time ∧ holds index time) :
    ∃ time, start ≤ time ∧ ∀ index < count, holds index time := by
  induction count with
  | zero => exact ⟨start, le_refl _, nofun⟩
  | succ count ih =>
      obtain ⟨one, later, all⟩ := ih (fun index below => stays index (by omega))
        (fun index below => each index (by omega))
      obtain ⟨two, after, last⟩ := each count (Nat.lt_succ_self count)
      have kept : ∀ index < count + 1, ∀ time next, start ≤ time → time ≤ next →
          holds index time → holds index next := by
        intro index below time next begun upto held
        induction next, upto using Nat.le_induction with
        | base => exact held
        | succ next upto ih => exact stays index below next (begun.trans upto) ih
      refine ⟨max one two, later.trans (le_max_left one two), fun index below => ?_⟩
      rcases Nat.lt_succ_iff_lt_or_eq.mp below with earlier | rfl
      · exact kept index below one _ later (le_max_left one two) (all index earlier)
      · exact kept index below two _ after (le_max_right one two) last

section Runs

variable {State : Type} {step : State → State → Prop} {first middle last rest : State}

/-- A run can be put before a course. -/
theorem exists_after (run : Relation.ReflTransGen step first middle) {course : Nat → State}
    (begins : course 0 = middle) (steps : ∀ time, step (course time) (course (time + 1))) :
    ∃ whole : Nat → State, whole 0 = first ∧
      (∀ time, step (whole time) (whole (time + 1))) ∧
      ∃ shift, ∀ time, whole (shift + time) = course time := by
  induction run using Relation.ReflTransGen.head_induction_on with
  | refl => exact ⟨course, begins, steps, 0, fun time => by rw [Nat.zero_add]⟩
  | @head first second moves _ ih =>
      obtain ⟨whole, rfl, steps, shift, shifted⟩ := ih
      refine ⟨Nat.rec first fun time _ => whole time, rfl, fun time => ?_, shift + 1,
        fun time => ?_⟩
      · cases time with
        | zero => exact moves
        | succ time => exact steps time
      · rw [Nat.add_right_comm]
        exact shifted time

/-- Two runs are passed one after the other by a course that stays in a state with a step to
itself. -/
theorem exists_of_runs (one : Relation.ReflTransGen step first middle)
    (two : Relation.ReflTransGen step middle last) (leaves : step last rest)
    (loops : step rest rest) :
    ∃ course : Nat → State, course 0 = first ∧
      (∀ time, step (course time) (course (time + 1))) ∧
      ∃ early late, early ≤ late ∧ course early = middle ∧ course late = last ∧
        ∀ later, late < later → course later = rest := by
  obtain ⟨tail, begins, steps, shift, shifted⟩ :=
    @exists_after _ _ _ _ two (Nat.rec last fun _ _ => rest) rfl fun time => by
      cases time with
      | zero => exact leaves
      | succ time => exact loops
  obtain ⟨whole, created, moves, early, follows⟩ := exists_after one begins steps
  refine ⟨whole, created, moves, early, early + shift, Nat.le_add_right _ _,
    (follows 0).trans begins, (follows shift).trans (shifted 0), fun later after => ?_⟩
  obtain ⟨more, rfl⟩ : ∃ more, later = early + (shift + (more + 1)) :=
    ⟨later - (early + shift) - 1, by omega⟩
  rw [follows, shifted]

end Runs

end Course
