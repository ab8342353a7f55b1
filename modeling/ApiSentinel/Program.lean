/-!
# Programs that ask their environment

A program either is done or asks a question and goes on with the answer.  Every
branch ends, so a program takes finitely many steps whatever it is told.  The runs
of a program are the traces of questions and answers along its branches.
-/

inductive Program (Ask : Type) (Answer : Ask → Type) (Result : Type)
  | done (result : Result)
  | ask (question : Ask) (next : Answer question → Program Ask Answer Result)

namespace Program

variable {Ask : Type} {Answer : Ask → Type} {First Second Third : Type}

def bind (program : Program Ask Answer First) (next : First → Program Ask Answer Second) :
    Program Ask Answer Second :=
  match program with
  | .done result => next result
  | .ask question continue_ => .ask question (fun answer => (continue_ answer).bind next)

instance : Monad (Program Ask Answer) where
  pure := .done
  bind := bind

theorem bind_done (program : Program Ask Answer First) : program.bind .done = program := by
  induction program with
  | done result => rfl
  | ask question next ih => exact congrArg (Program.ask question) (funext ih)

theorem bind_bind (program : Program Ask Answer First) (next : First → Program Ask Answer Second)
    (last : Second → Program Ask Answer Third) :
    (program.bind next).bind last = program.bind (fun result => (next result).bind last) := by
  induction program with
  | done result => rfl
  | ask question continue_ ih => exact congrArg (Program.ask question) (funext ih)

instance : LawfulMonad (Program Ask Answer) :=
  LawfulMonad.mk' _ bind_done (fun _ _ => rfl) bind_bind

/-- The program that asks one question. -/
def query (question : Ask) : Program Ask Answer (Answer question) := .ask question .done

/-- Questions with their answers, oldest first. -/
abbrev Trace (Answer : Ask → Type) := List (Sigma Answer)

/-- A program can ask the questions of a trace, get its answers, and be done with
a result. -/
inductive Runs : Program Ask Answer First → Trace Answer → First → Prop
  | done {result} : Runs (.done result) [] result
  | ask {question next answer trace result} (rest : Runs (next answer) trace result) :
      Runs (.ask question next) (⟨question, answer⟩ :: trace) result

@[simp]
theorem runs_pure {result final : First} {trace : Trace Answer} :
    Runs (pure result : Program Ask Answer First) trace final ↔ trace = [] ∧ final = result := by
  constructor
  · intro run
    cases run
    exact ⟨rfl, rfl⟩
  · rintro ⟨rfl, rfl⟩
    exact .done

@[simp]
theorem runs_query {question : Ask} {answer : Answer question} {trace : Trace Answer} :
    Runs (query question) trace answer ↔ trace = [⟨question, answer⟩] := by
  constructor
  · intro run
    cases run with
    | ask rest =>
        cases rest
        rfl
  · rintro rfl
    exact .ask .done

theorem Runs.bind {program : Program Ask Answer First}
    {next : First → Program Ask Answer Second} {before after : Trace Answer} {middle : First}
    {result : Second} (one : Runs program before middle) (two : Runs (next middle) after result) :
    Runs (program >>= next) (before ++ after) result := by
  induction one with
  | done => exact two
  | ask _ ih => exact .ask (ih two)

/-- The runs of two programs in sequence are the runs of the one followed by those
of the other. -/
theorem runs_bind {program : Program Ask Answer First}
    {next : First → Program Ask Answer Second} {trace : Trace Answer} {result : Second} :
    Runs (program >>= next) trace result ↔
      ∃ before after middle, trace = before ++ after ∧ Runs program before middle ∧
        Runs (next middle) after result := by
  constructor
  · intro run
    induction program generalizing trace with
    | done middle => exact ⟨[], trace, middle, rfl, .done, run⟩
    | ask question continue_ ih =>
        cases run with
        | ask rest =>
            obtain ⟨before, after, middle, rfl, one, two⟩ := ih _ rest
            exact ⟨_ :: before, after, middle, rfl, .ask one, two⟩
  · rintro ⟨before, after, middle, rfl, one, two⟩
    exact one.bind two

/-- Asking first splits the first question off the trace. -/
theorem runs_query_bind {question : Ask} {next : Answer question → Program Ask Answer Second}
    {trace : Trace Answer} {result : Second} :
    Runs (query question >>= next) trace result ↔
      ∃ answer rest, trace = ⟨question, answer⟩ :: rest ∧ Runs (next answer) rest result := by
  rw [runs_bind]
  constructor
  · rintro ⟨before, after, middle, rfl, one, two⟩
    rw [runs_query] at one
    exact ⟨middle, after, by rw [one]; rfl, two⟩
  · rintro ⟨answer, rest, rfl, two⟩
    exact ⟨_, rest, answer, rfl, runs_query.mpr rfl, two⟩

/-- The trace decides the result. -/
theorem Runs.unique {program : Program Ask Answer First} {trace : Trace Answer}
    {result other : First} (one : Runs program trace result) (two : Runs program trace other) :
    result = other := by
  induction one with
  | done =>
      cases two
      rfl
  | ask _ ih =>
      cases two with
      | ask rest => exact ih rest

/-! ### Environments -/

/-- An environment answers every question by what was asked and answered before. -/
abbrev Environment (Ask : Type) (Answer : Ask → Type) :=
  Trace Answer → (question : Ask) → Answer question

/-- The answers of a trace are those of an environment that has seen the past. -/
def Follows (environment : Environment Ask Answer) : Trace Answer → Trace Answer → Prop
  | _, [] => True
  | past, event :: trace =>
      event.2 = environment past event.1 ∧ Follows environment (past ++ [event]) trace

/-- Whatever the environment answers, a program comes to its end. -/
theorem exists_run (program : Program Ask Answer First) (environment : Environment Ask Answer)
    (past : Trace Answer) :
    ∃ trace result, Follows environment past trace ∧ Runs program trace result := by
  induction program generalizing past with
  | done result => exact ⟨[], result, trivial, .done⟩
  | ask question next ih =>
      obtain ⟨trace, result, follows, run⟩ := ih (environment past question)
        (past ++ [⟨question, environment past question⟩])
      exact ⟨⟨question, environment past question⟩ :: trace, result, ⟨rfl, follows⟩, .ask run⟩

end Program
