import ApiSentinel.Program

/-!
# Executions of programs in a world

A program asks a world that changes with every question.  What holds in all states of its
executions, and at their ends, is proved question by question.
-/

namespace Program

variable {Ask : Type} {Answer : Ask → Type} {World Error First Second : Type}

/-- What a world may answer, and how it is afterwards. -/
abbrev Behaviour (Ask : Type) (Answer : Ask → Type) (World : Type) :=
  World → (question : Ask) → Answer question → World → Prop

/-- An execution of a program with its states, the last of them being the final one. -/
inductive Executes (answers : Behaviour Ask Answer World) :
    Program Ask Answer First → World → List World → First → World → Prop
  | done {result world} : Executes answers (.done result) world [world] result world
  | ask {question next world answer after states result final}
      (answered : answers world question answer after)
      (rest : Executes answers (next answer) after states result final) :
      Executes answers (.ask question next) world (world :: states) result final

/-- An assertion holds in all states, and a postcondition at the end. -/
def Keeps (answers : Behaviour Ask Answer World) (always : World → Prop)
    (post : First → World → Prop) : Program Ask Answer First → World → Prop
  | .done result, world => always world ∧ post result world
  | .ask question next, world => always world ∧ ∀ answer after,
      answers world question answer after → Keeps answers always post (next answer) after

variable {answers : Behaviour Ask Answer World} {always : World → Prop}
  {post : First → World → Prop} {last : Second → World → Prop} {world : World}

theorem Keeps.of_executes {program : Program Ask Answer First} {states : List World}
    {result : First} {final : World}
    (execution : Executes answers program world states result final)
    (keeps : Keeps answers always post program world) :
    (∀ state ∈ states, always state) ∧ post result final := by
  induction execution with
  | done => exact ⟨fun state member => List.mem_singleton.mp member ▸ keeps.1, keeps.2⟩
  | ask answered rest ih =>
      obtain ⟨later, ends⟩ := ih (keeps.2 _ _ answered)
      exact ⟨List.forall_mem_cons.mpr ⟨keeps.1, later⟩, ends⟩

theorem Keeps.mono {program : Program Ask Answer First} {weaker : World → Prop}
    {final : First → World → Prop} (keeps : Keeps answers always post program world)
    (holds : ∀ state, always state → weaker state)
    (ends : ∀ result state, post result state → final result state) :
    Keeps answers weaker final program world := by
  induction program generalizing world with
  | done result => exact ⟨holds world keeps.1, ends result world keeps.2⟩
  | ask question next ih =>
      exact ⟨holds world keeps.1, fun answer after answered => ih answer (keeps.2 answer after
        answered)⟩

/-- What holds in all states holds in the last one. -/
theorem Keeps.settled {program : Program Ask Answer First}
    (keeps : Keeps answers always post program world) :
    Keeps answers always (fun result after => always after ∧ post result after) program
      world := by
  induction program generalizing world with
  | done result => exact ⟨keeps.1, keeps⟩
  | ask question next ih =>
      exact ⟨keeps.1, fun answer after answered => ih answer (keeps.2 answer after answered)⟩

theorem Keeps.and {program : Program Ask Answer First} {other : World → Prop}
    {final : First → World → Prop} (keeps : Keeps answers always post program world)
    (also : Keeps answers other final program world) :
    Keeps answers (fun state => always state ∧ other state)
      (fun result after => post result after ∧ final result after) program world := by
  induction program generalizing world with
  | done result => exact ⟨⟨keeps.1, also.1⟩, keeps.2, also.2⟩
  | ask question next ih =>
      exact ⟨⟨keeps.1, also.1⟩, fun answer after answered =>
        ih answer (keeps.2 answer after answered) (also.2 answer after answered)⟩

theorem keeps_all {Index : Type} {program : Program Ask Answer First}
    {all : Index → World → Prop} {ends : Index → First → World → Prop}
    (each : ∀ index, Keeps answers (all index) (ends index) program world) :
    Keeps answers (fun state => ∀ index, all index state)
      (fun result after => ∀ index, ends index result after) program world := by
  induction program generalizing world with
  | done result => exact ⟨fun index => (each index).1, fun index => (each index).2⟩
  | ask question next ih =>
      exact ⟨fun index => (each index).1, fun answer after answered =>
        ih answer fun index => (each index).2 answer after answered⟩

theorem keeps_pure {result : First} (holds : always world) (ends : post result world) :
    Keeps answers always post (pure result) world := ⟨holds, ends⟩

theorem keeps_query {question : Ask} {post : Answer question → World → Prop}
    (holds : always world)
    (answered : ∀ answer after, answers world question answer after →
      always after ∧ post answer after) :
    Keeps answers always post (query question) world := ⟨holds, answered⟩

theorem Keeps.bind {program : Program Ask Answer First}
    {next : First → Program Ask Answer Second}
    (first : Keeps answers always post program world)
    (second : ∀ result after, always after → post result after →
      Keeps answers always last (next result) after) :
    Keeps answers always last (program >>= next) world := by
  induction program generalizing world with
  | done result => exact second result world first.1 first.2
  | ask question continue_ ih =>
      exact ⟨first.1, fun answer after answered => ih answer (first.2 answer after answered)⟩

/-! ### Other worlds -/

/-- What holds of every question that a program may ask. -/
def Asks (allowed : Ask → Prop) : Program Ask Answer First → Prop
  | .done _ => True
  | .ask question next => allowed question ∧ ∀ answer, Asks allowed (next answer)

section Asks

variable {allowed : Ask → Prop} {more : Behaviour Ask Answer World}

theorem asks_query {question : Ask} (holds : allowed question) :
    Asks allowed (query question : Program Ask Answer (Answer question)) :=
  ⟨holds, fun _ => trivial⟩

theorem Asks.bind {program : Program Ask Answer First}
    {next : First → Program Ask Answer Second} (first : Asks allowed program)
    (second : ∀ result, Asks allowed (next result)) : Asks allowed (program >>= next) := by
  induction program with
  | done result => exact second result
  | ask question continue_ ih => exact ⟨first.1, fun answer => ih answer (first.2 answer)⟩

/-- A world that answers the questions of a program no otherwise keeps what another keeps. -/
theorem Keeps.of_asks {program : Program Ask Answer First} (asks : Asks allowed program)
    (same : ∀ state question answer after, allowed question → more state question answer after →
      answers state question answer after)
    (keeps : Keeps answers always post program world) :
    Keeps more always post program world := by
  induction program generalizing world with
  | done result => exact keeps
  | ask question next ih =>
      exact ⟨keeps.1, fun answer after answered =>
        ih answer (asks.2 answer) (keeps.2 answer after (same _ _ _ _ asks.1 answered))⟩

theorem Executes.mono {program : Program Ask Answer First} {states : List World} {result : First}
    {final : World} (execution : Executes answers program world states result final)
    (also : ∀ state question answer after, answers state question answer after →
      more state question answer after) : Executes more program world states result final := by
  induction execution with
  | done => exact .done
  | ask answered rest ih => exact .ask (also _ _ _ _ answered) ih

end Asks

/-- A program may return a result. -/
def Possible (answers : Behaviour Ask Answer World) (program : Program Ask Answer First)
    (world : World) (result : First) : Prop :=
  ∃ states final, Executes answers program world states result final

theorem possible_done {result : First} :
    Possible answers (.done result) world result := ⟨_, _, .done⟩

theorem possible_ask {question : Ask} {next : Answer question → Program Ask Answer First}
    {answer : Answer question} {after : World} {result : First}
    (answered : answers world question answer after)
    (rest : Possible answers (next answer) after result) :
    Possible answers (.ask question next) world result :=
  let ⟨_, _, execution⟩ := rest
  ⟨_, _, .ask answered execution⟩

theorem Executes.possible_bind {program : Program Ask Answer First}
    {next : First → Program Ask Answer Second} {states : List World} {result : First}
    {middle : World} {outcome : Second}
    (first : Executes answers program world states result middle)
    (second : Possible answers (next result) middle outcome) :
    Possible answers (program >>= next) world outcome := by
  induction first with
  | done => exact second
  | ask answered rest ih => exact possible_ask answered (ih second)

/-! ### Recording -/

/-- The world that records what it is asked, with its answers. -/
def recording : Behaviour Ask Answer (Trace Answer) :=
  fun past question answer after => after = past ++ [⟨question, answer⟩]

/-- What a program keeps of the record, it keeps along its runs. -/
theorem Keeps.of_runs {program : Program Ask Answer First} {always : Trace Answer → Prop}
    {post : First → Trace Answer → Prop} {past trace : Trace Answer} {result : First}
    (runs : Runs program trace result) (keeps : Keeps recording always post program past) :
    (∀ before, before <+: trace → always (past ++ before)) ∧ post result (past ++ trace) := by
  induction runs generalizing past with
  | done =>
      rw [List.append_nil]
      exact ⟨fun before nil => by rw [List.prefix_nil.mp nil, List.append_nil]; exact keeps.1,
        keeps.2⟩
  | @ask question next answer trace result rest ih =>
      obtain ⟨later, ends⟩ := ih (keeps.2 answer _ rfl)
      rw [List.append_assoc] at ends
      refine ⟨fun before leads => ?_, ends⟩
      cases before with
      | nil => rw [List.append_nil]; exact keeps.1
      | cons event before =>
          obtain ⟨rfl, within⟩ := List.cons_prefix_cons.mp leads
          have there := later before within
          rwa [List.append_assoc] at there

/-! ### Exceptions -/

/-- A statement after another one, which may raise. -/
def andThen {First Second : Type} (first : Program Ask Answer (Except Error First))
    (next : First → Program Ask Answer (Except Error Second)) :
    Program Ask Answer (Except Error Second) := do
  match ← first with
  | .ok result => next result
  | .error error => pure (.error error)

/-- `try: … finally: …`, where an exception of the cleanup replaces one of the body -/
def tryFinally (body : Program Ask Answer (Except Error First))
    (cleanup : Program Ask Answer (Except Error Unit)) :
    Program Ask Answer (Except Error First) := do
  let outcome ← body
  match ← cleanup with
  | .ok () => pure outcome
  | .error error => pure (.error error)

section Exceptions

variable {before : Except Error First → World → Prop} {allowed : Ask → Prop}

theorem Asks.andThen {first : Program Ask Answer (Except Error First)}
    {next : First → Program Ask Answer (Except Error Second)} (asks : Asks allowed first)
    (rest : ∀ result, Asks allowed (next result)) : Asks allowed (first.andThen next) := by
  refine asks.bind fun outcome => ?_
  cases outcome with
  | ok result => exact rest result
  | error raised => trivial

theorem Asks.tryFinally {body : Program Ask Answer (Except Error First)}
    {cleanup : Program Ask Answer (Except Error Unit)} (asks : Asks allowed body)
    (cleans : Asks allowed cleanup) : Asks allowed (body.tryFinally cleanup) := by
  refine asks.bind fun outcome => cleans.bind fun cleaned => ?_
  cases cleaned <;> trivial

theorem Keeps.andThen {first : Program Ask Answer (Except Error First)}
    {next : First → Program Ask Answer (Except Error Second)}
    {post : Except Error Second → World → Prop}
    (keeps : Keeps answers always before first world)
    (ok : ∀ result after, before (.ok result) after →
      Keeps answers always post (next result) after)
    (error : ∀ raised after, before (.error raised) after → post (.error raised) after) :
    Keeps answers always post (first.andThen next) world := by
  refine keeps.bind ?_
  intro outcome after holds reached
  cases outcome with
  | ok result => exact ok result after reached
  | error raised => exact keeps_pure holds (error raised after reached)

theorem Keeps.tryFinally {body : Program Ask Answer (Except Error First)}
    {cleanup : Program Ask Answer (Except Error Unit)}
    {post : Except Error First → World → Prop}
    (keeps : Keeps answers always before body world)
    (cleans : ∀ outcome after, always after → before outcome after →
      Keeps answers always (fun cleaned => post (cleaned.bind fun _ => outcome)) cleanup after) :
    Keeps answers always post (body.tryFinally cleanup) world := by
  refine keeps.bind fun outcome after holds reached =>
    (cleans outcome after holds reached).bind ?_
  intro cleaned final kept ends
  cases cleaned with
  | ok => exact keeps_pure kept ends
  | error raised => exact keeps_pure kept ends

end Exceptions

/-! ### What is returned -/

/-- Whatever the world answers, what the program returns has a property, if it does not raise. -/
def Returns (answers : Behaviour Ask Answer World) (post : First → Prop)
    (program : Program Ask Answer (Except Error First)) (world : World) : Prop :=
  Keeps answers (fun _ => True) (fun outcome _ => ∀ result, outcome = .ok result → post result)
    program world

theorem keeps_true (program : Program Ask Answer First) (world : World) :
    Keeps answers (fun _ => True) (fun _ _ => True) program world := by
  induction program generalizing world with
  | done result => exact ⟨trivial, trivial⟩
  | ask question next ih => exact ⟨trivial, fun answer after _ => ih answer after⟩

section Returns

variable {before : First → Prop} {wanted : Second → Prop}

theorem returns_pure {outcome : Except Error First}
    (holds : ∀ result, outcome = .ok result → before result) :
    Returns answers before (pure outcome) world :=
  ⟨trivial, holds⟩

theorem returns_bind {first : Program Ask Answer First}
    {next : First → Program Ask Answer (Except Error Second)}
    (rest : ∀ result after, Returns answers wanted (next result) after) :
    Returns answers wanted (first >>= next) world :=
  (keeps_true first world).bind fun result after _ _ => rest result after

theorem Returns.andThen {first : Program Ask Answer (Except Error First)}
    {next : First → Program Ask Answer (Except Error Second)}
    (returns : Returns answers before first world)
    (rest : ∀ result after, before result → Returns answers wanted (next result) after) :
    Returns answers wanted (first.andThen next) world :=
  Keeps.andThen returns (fun result after holds => rest result after (holds result rfl))
    (fun _ _ _ => nofun)

theorem Returns.tryFinally {body : Program Ask Answer (Except Error First)}
    {cleanup : Program Ask Answer (Except Error Unit)}
    (returns : Returns answers before body world) :
    Returns answers before (body.tryFinally cleanup) world := by
  refine Keeps.tryFinally returns fun outcome after _ holds => ?_
  refine (keeps_true cleanup after).mono (fun _ => id) fun cleaned _ _ result same => ?_
  cases cleaned with
  | ok => exact holds result same
  | error error => cases same

end Returns

end Program
