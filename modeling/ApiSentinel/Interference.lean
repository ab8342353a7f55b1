import ApiSentinel.Program
import Mathlib.Logic.Relation

/-!
# Programs among others

A program asks a world that others change between its questions.  What a program
ensures in such a world is proved question by question, from assertions that the
others keep.
-/

namespace Program

open Relation (ReflTransGen)

/-- A world that answers the questions of a program, and how others change it. -/
structure Setting (Ask : Type) (Answer : Ask → Type) (World : Type) where
  answers : World → (question : Ask) → Answer question → World → Prop
  moves : World → World → Prop

namespace Setting

variable {Ask : Type} {Answer : Ask → Type} {World First Second : Type}
  (setting : Setting Ask Answer World)

/-- The others keep an assertion. -/
def Stable (assertion : World → Prop) : Prop :=
  ∀ ⦃world next⦄, setting.moves world next → assertion world → assertion next

/-- However the others move, if the program comes to its end, its result satisfies the
postcondition from then on. -/
def Ensures (post : First → World → Prop) : Program Ask Answer First → World → Prop
  | .done result, world => ∀ later, ReflTransGen setting.moves world later → post result later
  | .ask question next, world => ∀ later, ReflTransGen setting.moves world later →
      ∀ answer after, setting.answers later question answer after → Ensures post (next answer) after

/-- A step of a loop, which repeats its turn as long as the turn ends in `true`, or of the
others. -/
inductive Loop (turn : Program Ask Answer Bool) :
    Program Ask Answer Bool × World → Program Ask Answer Bool × World → Prop
  | answered {question next answer world after}
      (answers : setting.answers world question answer after) :
      Loop turn (.ask question next, world) (next answer, after)
  | moved {program world next} (moves : setting.moves world next) :
      Loop turn (program, world) (program, next)
  | again {world} : Loop turn (.done true, world) (turn, world)

variable {setting} {post : First → World → Prop} {world after : World}

theorem Stable.persists {assertion : World → Prop} (stable : setting.Stable assertion)
    (moves : ReflTransGen setting.moves world after) (holds : assertion world) :
    assertion after := by
  induction moves with
  | refl => exact holds
  | tail _ move ih => exact stable move ih

/-- What is ensured stays ensured while others move. -/
theorem Ensures.persists {program : Program Ask Answer First}
    (ensures : setting.Ensures post program world)
    (moves : ReflTransGen setting.moves world after) : setting.Ensures post program after := by
  cases program with
  | done result => exact fun last more => ensures last (moves.trans more)
  | ask question next => exact fun last more => ensures last (moves.trans more)

theorem ensures_pure {result : First} (stable : setting.Stable (post result))
    (holds : post result world) : setting.Ensures post (pure result) world :=
  fun _ moves => stable.persists moves holds

/-- A question is asked under a stable assertion. -/
theorem ensures_query_bind {question : Ask} {next : Answer question → Program Ask Answer First}
    {before : World → Prop} (stable : setting.Stable before) (holds : before world)
    (answered : ∀ earlier answer after, before earlier →
      setting.answers earlier question answer after → setting.Ensures post (next answer) after) :
    setting.Ensures post (query question >>= next) world :=
  fun later moves answer after answers =>
    answered later answer after (stable.persists moves holds) answers

theorem Ensures.bind {program : Program Ask Answer First}
    {next : First → Program Ask Answer Second} {last : Second → World → Prop}
    (first : setting.Ensures post program world)
    (rest : ∀ result middle, post result middle → setting.Ensures last (next result) middle) :
    setting.Ensures last (program >>= next) world := by
  induction program generalizing world with
  | done result => exact rest result world (first world .refl)
  | ask question continue_ ih =>
      intro later moves answer after answers
      exact ih answer (first later moves answer after answers)

/-! ### Loops -/

/-- What holds when a turn has ended: the invariant if another follows, else the
postcondition. -/
def Turned (invariant departed : World → Prop) : Bool → World → Prop
  | true => invariant
  | false => departed

variable {turn : Program Ask Answer Bool} {invariant departed : World → Prop}
  (body : ∀ world, invariant world → setting.Ensures (Turned invariant departed) turn world)
include body

theorem Loop.ensures {start reached : Program Ask Answer Bool × World}
    (ensured : setting.Ensures (Turned invariant departed) start.1 start.2)
    (steps : ReflTransGen (setting.Loop turn) start reached) :
    setting.Ensures (Turned invariant departed) reached.1 reached.2 := by
  induction steps with
  | refl => exact ensured
  | tail _ step ih =>
      cases step with
      | answered answers => exact ih _ .refl _ _ answers
      | moved moves => exact ih.persists (.single moves)
      | again => exact body _ (ih _ .refl)

/-- A loop whose turns keep the invariant has its postcondition when it has ended. -/
theorem Loop.ended (holds : invariant world)
    (steps : ReflTransGen (setting.Loop turn) (turn, world) (.done false, after)) :
    departed after :=
  Loop.ensures body (body world holds) steps after .refl

end Setting

end Program
