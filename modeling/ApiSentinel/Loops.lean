import Mathlib.Data.Nat.Basic

/-!
# Loops that may raise

The run of a loop from a state: how often its body is run, and how it ends.  A loop whose
measure decreases in every turn ends after at most one turn more than the measure allows.
-/

namespace Loops

variable {State Result Error : Type}

/-- What a loop does at a state: it is left with a result, goes on at another state, or
raises an error. -/
abbrev Turn (State Result Error : Type) := State → Except Error (Result ⊕ State)

/-- The loop runs its body so many times, the last of them perhaps not to its end. -/
inductive Loop (turn : Turn State Result Error) : State → Nat → Except Error Result → Prop
  | left {state result} (stops : turn state = .ok (.inl result)) :
      Loop turn state 0 (.ok result)
  | raised {state error} (failed : turn state = .error error) :
      Loop turn state 1 (.error error)
  | again {state next count result} (goes : turn state = .ok (.inr next))
      (rest : Loop turn next count result) : Loop turn state (count + 1) result

variable {turn : Turn State Result Error}

/-- What every turn keeps holds where the loop ends. -/
theorem Loop.invariant {motive : State → Prop}
    (keeps : ∀ state next, motive state → turn state = .ok (.inr next) → motive next)
    {state : State} {count : Nat} {result : Except Error Result}
    (loop : Loop turn state count result) (initial : motive state) :
    ∃ final, motive final ∧ turn final = result.map .inl := by
  induction loop with
  | left stops => exact ⟨_, initial, stops⟩
  | raised failed => exact ⟨_, initial, failed⟩
  | again goes rest ih => exact ih (keeps _ _ initial goes)

/-- The rule for loops: what every turn keeps while it decreases the measure. -/
theorem exists_loop (invariant : State → Prop) (measure : State → Nat)
    (keeps : ∀ state next, invariant state → turn state = .ok (.inr next) →
      invariant next ∧ measure next < measure state)
    {state : State} (initial : invariant state) :
    ∃ count result, Loop turn state count result ∧ count ≤ measure state + 1 := by
  induction bound : measure state using Nat.strongRecOn generalizing state with
  | ind size ih =>
      cases taken : turn state with
      | error error => exact ⟨1, _, .raised taken, Nat.le_add_left 1 size⟩
      | ok outcome =>
          cases outcome with
          | inl result => exact ⟨0, _, .left taken, Nat.zero_le _⟩
          | inr next =>
              obtain ⟨kept, less⟩ := keeps state next initial taken
              obtain ⟨count, result, rest, most⟩ := ih (measure next) (bound ▸ less) kept rfl
              exact ⟨count + 1, result, .again taken rest, by omega⟩

end Loops
