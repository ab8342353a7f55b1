import ApiSentinel.Execution

/-!
# The requests of an execution

Every request, in whatever phase and at whatever attempt, comes directly after a lease
check that held and a clock reading before the deadline of its phase.
-/

namespace ApiSentinel

open Program

variable {executor : CaseExecutor}

/-! ### Requests in a trace -/

/-- A request with its answer. -/
def send? : (event : Sigma Answer) → Option (Request × Except HttpError Response)
  | ⟨.stream request, answer⟩ => some (request, answer)
  | _ => none

/-- The requests of a trace with their answers, oldest first. -/
def sends (trace : Execution.Trace) : List (Request × Except HttpError Response) :=
  trace.filterMap send?

def requests (trace : Execution.Trace) : List Request := (sends trace).map Prod.fst

/-- A clock reading. -/
def reading? : (event : Sigma Answer) → Option Rat
  | ⟨.monotonic, now⟩ => some now
  | _ => none

/-- The last clock reading of a trace. -/
def lastReading (trace : Execution.Trace) : Option Rat := (trace.filterMap reading?).getLast?

@[simp]
theorem sends_append (before after : Execution.Trace) :
    sends (before ++ after) = sends before ++ sends after :=
  List.filterMap_append

@[simp]
theorem sends_stream (request : Request) (answer : Except HttpError Response)
    (trace : Execution.Trace) :
    sends (⟨.stream request, answer⟩ :: trace) = (request, answer) :: sends trace :=
  rfl

@[simp]
theorem sends_monotonic (now : Rat) (trace : Execution.Trace) :
    sends (⟨.monotonic, now⟩ :: trace) = sends trace :=
  rfl

@[simp]
theorem sends_leaseValid (valid : Bool) (trace : Execution.Trace) :
    sends (⟨.leaseValid, valid⟩ :: trace) = sends trace :=
  rfl

@[simp]
theorem sends_sleep (seconds : Rat) (trace : Execution.Trace) :
    sends (⟨.sleep seconds, ()⟩ :: trace) = sends trace :=
  rfl

@[simp]
theorem sends_nil : sends [] = [] :=
  rfl

theorem lastReading_concat (before : Execution.Trace) (now : Rat) :
    lastReading (before ++ [⟨.monotonic, now⟩]) = some now := by
  rw [lastReading, List.filterMap_append]
  exact List.getLast?_concat

theorem lastReading_append_now (before : Execution.Trace) (now : Rat) :
    lastReading (before ++ [⟨.leaseValid, true⟩, ⟨.monotonic, now⟩]) = some now := by
  rw [List.append_cons]
  exact lastReading_concat (before ++ [⟨.leaseValid, true⟩]) now

/-- Reading a body sends nothing. -/
theorem Reading.sends_eq {deadline : Rat} {failure : Option HttpError} {content : Content}
    {chunks : List Content} {trace : Execution.Trace} {result : Except HttpError Content}
    (reading : Reading executor deadline failure content chunks trace result) :
    sends trace = [] := by
  induction reading with
  | whole => rfl
  | broken => rfl
  | overrun => rfl
  | late => rfl
  | lost => rfl
  | next _ _ _ ih => exact ih

/-! ### Checked requests -/

/-- Every request comes directly after a lease check that held and a clock reading that
was in time. -/
inductive Checked (timely : Rat → Prop) : Execution.Trace → Prop
  | nil : Checked timely []
  | other {event trace} (silent : send? event = none) (rest : Checked timely trace) :
      Checked timely (event :: trace)
  | request {now request answer trace} (early : timely now) (rest : Checked timely trace) :
      Checked timely (⟨.leaseValid, true⟩ :: ⟨.monotonic, now⟩ ::
        ⟨.stream request, answer⟩ :: trace)

theorem checked_of_silent {timely : Rat → Prop} {trace : Execution.Trace}
    (silent : sends trace = []) : Checked timely trace := by
  induction trace with
  | nil => exact .nil
  | cons event trace ih =>
      rw [sends, List.filterMap_eq_nil_iff] at silent
      refine .other (silent event List.mem_cons_self) (ih ?_)
      rw [sends, List.filterMap_eq_nil_iff]
      exact fun later member => silent later (List.mem_cons_of_mem _ member)

namespace Checked

variable {timely : Rat → Prop} {before after : Execution.Trace}

theorem append (first : Checked timely before) (second : Checked timely after) :
    Checked timely (before ++ after) := by
  induction first with
  | nil => exact second
  | other silent _ ih => exact .other silent ih
  | request early _ ih => exact .request early ih

theorem mono {weaker : Rat → Prop} (weakens : ∀ now, timely now → weaker now)
    (checked : Checked timely before) : Checked weaker before := by
  induction checked with
  | nil => exact .nil
  | other silent _ ih => exact .other silent ih
  | request early _ ih => exact .request (weakens _ early) ih

/-- What stands before a request. -/
theorem split {trace : Execution.Trace} (checked : Checked timely trace) {request : Request}
    {answer : Except HttpError Response}
    (shape : trace = before ++ ⟨.stream request, answer⟩ :: after) :
    ∃ earlier now, before = earlier ++ [⟨.leaseValid, true⟩, ⟨.monotonic, now⟩] ∧ timely now := by
  induction checked generalizing before with
  | nil => simp at shape
  | @other event trace silent rest ih =>
      cases before with
      | nil =>
          obtain ⟨rfl, _⟩ := List.cons.inj shape
          cases silent
      | cons head before =>
          obtain ⟨rfl, later⟩ := List.cons.inj shape
          obtain ⟨earlier, now, rfl, early⟩ := ih later
          exact ⟨event :: earlier, now, rfl, early⟩
  | @request now first reply trace early rest ih =>
      match before, shape with
      | [], shape => cases shape
      | [_], shape => cases shape
      | [_, _], shape =>
          cases shape
          exact ⟨[], now, rfl, early⟩
      | _ :: _ :: _ :: before, shape =>
          simp only [List.cons_append, List.cons.injEq] at shape
          obtain ⟨rfl, rfl, rfl, shape⟩ := shape
          obtain ⟨earlier, later, rfl, intime⟩ := ih shape
          exact ⟨_ :: _ :: _ :: earlier, later, rfl, intime⟩

theorem silent_of_invalid {trace : Execution.Trace} (checked : Checked timely trace)
    (never : ⟨.leaseValid, true⟩ ∉ trace) : sends trace = [] := by
  induction checked with
  | nil => rfl
  | other silent _ ih =>
      rw [sends, List.filterMap_cons_none silent]
      exact ih fun member => never (List.mem_cons_of_mem _ member)
  | request => exact (never List.mem_cons_self).elim

/-- No request comes after a lease check has failed, unless a later one holds. -/
theorem silent_after_lost {trace : Execution.Trace} (checked : Checked timely trace)
    (shape : trace = before ++ ⟨.leaseValid, false⟩ :: after)
    (never : ⟨.leaseValid, true⟩ ∉ after) : sends after = [] := by
  induction checked generalizing before with
  | nil => simp at shape
  | @other event trace silent rest ih =>
      cases before with
      | nil =>
          obtain ⟨_, rfl⟩ := List.cons.inj shape
          exact rest.silent_of_invalid never
      | cons head before => exact ih (List.cons.inj shape).2
  | @request now request answer trace early rest ih =>
      match before, shape with
      | [], shape => cases shape
      | [_], shape => cases shape
      | [_, _], shape => cases shape
      | _ :: _ :: _ :: before, shape =>
          simp only [List.cons_append, List.cons.injEq] at shape
          exact ih shape.2.2.2

end Checked

/-! ### Every phase is checked -/

section Phases

variable {vars : Variables} {deadline : Rat} {trace : Execution.Trace}

/-- An exchange sends its request first, and nothing after it. -/
theorem Exchanged.sent {request : Request} {status : Option Int}
    {outcome : Except HttpError (Headers × Content)}
    (exchanged : Exchanged executor request deadline trace status outcome) :
    ∃ answer tail, trace = ⟨.stream request, answer⟩ :: tail ∧ sends tail = [] := by
  cases exchanged with
  | refused => exact ⟨_, _, rfl, rfl⟩
  | broken reading => exact ⟨_, _, rfl, reading.sends_eq⟩
  | received reading => exact ⟨_, _, rfl, reading.sends_eq⟩

theorem Exchanged.checked {request : Request} {status : Option Int} {now : Rat}
    {outcome : Except HttpError (Headers × Content)} (early : now < deadline)
    (exchanged : Exchanged executor request deadline trace status outcome) :
    Checked (· < deadline) (⟨.leaseValid, true⟩ :: ⟨.monotonic, now⟩ :: trace) := by
  obtain ⟨answer, tail, rfl, silent⟩ := exchanged.sent
  exact .request early (checked_of_silent silent)

theorem Sending.checked {step : Step} {method path : String} {progress final : Progress}
    {outcome : Except Raised (Headers × Content)}
    (sending : Sending executor step method path vars deadline progress trace final outcome) :
    Checked (· < deadline) trace := by
  induction sending with
  | lost => exact checked_of_silent rfl
  | late => exact checked_of_silent rfl
  | received early exchange => exact exchange.checked early
  | failed early exchange => exact exchange.checked early
  | again early exchange _ _ _ _ ih =>
      exact (exchange.checked early).append (.other rfl (.other rfl ih))

theorem Stepping.checked {rawStep : Step} {phase : Phase} {result : StepResult}
    (stepping : Stepping executor rawStep phase vars deadline trace result) :
    Checked (· < deadline) trace := by
  cases stepping with
  | rejected => exact checked_of_silent rfl
  | invalid => exact checked_of_silent rfl
  | unsent _ sending => exact .other rfl (sending.checked.append (checked_of_silent rfl))
  | unjudged _ sending => exact .other rfl (sending.checked.append (checked_of_silent rfl))
  | judged _ sending => exact .other rfl (sending.checked.append (checked_of_silent rfl))

theorem Performed.checked {steps : List (Phase × Step)} {results : List StepResult}
    (performed : Performed executor vars deadline steps results trace) :
    Checked (· < deadline) trace := by
  induction performed with
  | nil => exact .nil
  | cons ran _ ih => exact (stepping_of_runs ran).checked.append ih

end Phases

/-- In every execution of a case no request follows a failed lease check, unless the
lease comes back.  A setup or test request is sent only when the last clock reading is
before the deadline of the case, and a teardown request only when it is before the
deadline of the teardown. -/
theorem no_late_requests {case : Case} {runId workerId : String} {delivery : Int}
    {trace : Execution.Trace} {result : CaseResult}
    (run : Runs (executor.run case runId workerId delivery) trace result) :
    ((∀ before after, trace = before ++ ⟨.leaseValid, false⟩ :: after →
        ⟨.leaseValid, true⟩ ∉ after) →
      ∀ before after, trace = before ++ ⟨.leaseValid, false⟩ :: after → requests after = []) ∧
    ∃ (started cleanup finished : Rat) (tries cleaning : Execution.Trace)
      (tried steps : List StepResult),
      trace = ⟨.monotonic, started⟩ ::
        (tries ++ ⟨.monotonic, cleanup⟩ :: (cleaning ++ [⟨.monotonic, finished⟩])) ∧
      Runs (executor.runPhases case (executor.variablesOf case runId delivery)
        (started + executor.caseTimeout)) tries tried ∧
      Runs (executor.cleanUp (executor.variablesOf case runId delivery)
        (cleanup + min executor.caseTimeout 15) tried case.teardown) cleaning steps ∧
      (∀ before request answer after,
        tries = before ++ ⟨.stream request, answer⟩ :: after →
        ∃ now, lastReading (⟨.monotonic, started⟩ :: before) = some now ∧
          now < started + executor.caseTimeout) ∧
      ∀ before request answer after,
        cleaning = before ++ ⟨.stream request, answer⟩ :: after →
        ∃ now, lastReading (⟨.monotonic, started⟩ :: (tries ++ ⟨.monotonic, cleanup⟩ :: before)) =
            some now ∧
          now < cleanup + min executor.caseTimeout 15 := by
  obtain ⟨started, cleanup, finished, tries, cleaning, tried, steps, rfl, phases, teardown, rfl⟩ :=
    run_parts run
  have checkedTries := (runPhases_performed phases).1.checked
  obtain ⟨_, _, cleaned⟩ := cleanUp_performed case.teardown teardown
  have checkedCleaning := cleaned.checked
  constructor
  · intro oracle before after shape
    have anywhere : Checked (fun _ => True) (⟨.monotonic, started⟩ ::
        (tries ++ ⟨.monotonic, cleanup⟩ :: (cleaning ++ [⟨.monotonic, finished⟩]))) := by
      refine .other rfl (Checked.append (checkedTries.mono fun _ _ => trivial) (.other rfl ?_))
      exact Checked.append (checkedCleaning.mono fun _ _ => trivial) (.other rfl .nil)
    rw [requests, anywhere.silent_after_lost shape (oracle before after shape)]
    rfl
  · refine ⟨started, cleanup, finished, tries, cleaning, tried, steps, rfl, phases, teardown,
      ?_, ?_⟩
    · intro before request answer after shape
      obtain ⟨earlier, now, rfl, early⟩ := checkedTries.split shape
      exact ⟨now, lastReading_append_now (⟨.monotonic, started⟩ :: earlier) now, early⟩
    · intro before request answer after shape
      obtain ⟨earlier, now, rfl, early⟩ := checkedCleaning.split shape
      refine ⟨now, ?_, early⟩
      simpa only [List.cons_append, List.append_assoc] using lastReading_append_now
        (⟨.monotonic, started⟩ :: (tries ++ ⟨.monotonic, cleanup⟩ :: earlier)) now

/-- The sample execution that loses its lease sends nothing from then on. -/
theorem no_late_requests_sample :
    requests [⟨.monotonic, (0 : Rat)⟩, ⟨.monotonic, (0 : Rat)⟩, ⟨.monotonic, (0 : Rat)⟩] = [] := by
  refine (no_late_requests Sample.runs_interrupted).1 ?_
    [⟨.monotonic, (0 : Rat)⟩, ⟨.monotonic, (0 : Rat)⟩] _ rfl
  intro before after shape held
  have member : ⟨.leaseValid, true⟩ ∈ Sample.interruption :=
    shape ▸ List.mem_append_right _ (List.mem_cons_of_mem _ held)
  simp only [Sample.interruption, List.mem_cons, List.not_mem_nil, or_false] at member
  rcases member with same | same | same | same | same | same <;> cases same

end ApiSentinel
