import Mathlib.Data.List.Forall2
import ApiSentinel.Program

/-!
# Programs in two environments

Two programs correspond when they ask the same questions as long as they are told answers
that are alike, and end with related results.  Sequences of corresponding programs
correspond, and so do the results of their runs in environments that answer alike.
-/

namespace Program

variable {Ask : Type} {Answer : Ask → Type} {First Second Third Fourth : Type}

/-- One question with two answers that are alike. -/
inductive AlikeEvents (alike : ∀ question, Answer question → Answer question → Prop) :
    Sigma Answer → Sigma Answer → Prop
  | mk {question one two} (same : alike question one two) :
      AlikeEvents alike ⟨question, one⟩ ⟨question, two⟩

/-- After pasts that are alike, the environments give answers that are alike. -/
def AnswerAlike (alike : ∀ question, Answer question → Answer question → Prop)
    (one two : Environment Ask Answer) : Prop :=
  ∀ past other, List.Forall₂ (AlikeEvents alike) past other →
    ∀ question, alike question (one past question) (two other question)

/-- The programs ask the same questions and end with related results. -/
inductive Corresponds (alike : ∀ question, Answer question → Answer question → Prop)
    (related : First → Second → Prop) : Program Ask Answer First → Program Ask Answer Second → Prop
  | done {one two} (final : related one two) : Corresponds alike related (.done one) (.done two)
  | ask {question one two}
      (next : ∀ answer other, alike question answer other →
        Corresponds alike related (one answer) (two other)) :
      Corresponds alike related (.ask question one) (.ask question two)

namespace Corresponds

variable {alike : ∀ question, Answer question → Answer question → Prop}
  {related : First → Second → Prop} {final : Third → Fourth → Prop}

theorem query (alike : ∀ question, Answer question → Answer question → Prop) (question : Ask) :
    Corresponds alike (alike question) (query question) (query question) :=
  .ask fun _ _ same => .done same

theorem bind {one : Program Ask Answer First} {two : Program Ask Answer Second}
    {next : First → Program Ask Answer Third} {last : Second → Program Ask Answer Fourth}
    (first : Corresponds alike related one two)
    (rest : ∀ result other, related result other →
      Corresponds alike final (next result) (last other)) :
    Corresponds alike final (one >>= next) (two >>= last) := by
  induction first with
  | done same => exact rest _ _ same
  | ask _ ih => exact .ask fun answer other same => ih answer other same

/-- The runs of corresponding programs in environments that answer alike have related
results. -/
theorem related_of_runs {one : Program Ask Answer First} {two : Program Ask Answer Second}
    (corresponds : Corresponds alike related one two)
    {environment surroundings : Environment Ask Answer}
    (answers : AnswerAlike alike environment surroundings) {past other : Trace Answer}
    (before : List.Forall₂ (AlikeEvents alike) past other) {trace course : Trace Answer}
    {result : First} {outcome : Second} (follows : Follows environment past trace)
    (run : Runs one trace result)
    (keeps : Follows surroundings other course) (twin : Runs two course outcome) :
    related result outcome := by
  induction corresponds generalizing past other trace course with
  | done same =>
      cases run
      cases twin
      exact same
  | @ask question _ _ _ ih =>
      cases run with
      | ask run =>
          cases twin with
          | ask twin =>
              obtain ⟨answered, follows⟩ := follows
              obtain ⟨told, keeps⟩ := keeps
              dsimp only at answered told
              subst answered told
              have same := answers past other before question
              have both := List.rel_append before (.cons (.mk same) .nil)
              exact ih _ _ same both follows run keeps twin

end Corresponds

/-! ### Environments without a memory -/

/-- What a program returns when every question has one answer. -/
def told (answers : ∀ question, Answer question) : Program Ask Answer First → First
  | .done result => result
  | .ask question next => (next (answers question)).told answers

theorem told_bind {answers : ∀ question, Answer question} {program : Program Ask Answer First}
    {next : First → Program Ask Answer Second} :
    told answers (program >>= next) = told answers (next (told answers program)) := by
  induction program with
  | done result => rfl
  | ask question continue_ ih => exact ih _

theorem Runs.eq_told {answers : ∀ question, Answer question} {program : Program Ask Answer First}
    {past trace : Trace Answer} {result : First}
    (follows : Follows (fun _ => answers) past trace) (run : Runs program trace result) :
    result = told answers program := by
  induction run generalizing past with
  | done => rfl
  | ask rest ih =>
      obtain ⟨answered, follows⟩ := follows
      dsimp only at answered
      subst answered
      exact ih follows

end Program
