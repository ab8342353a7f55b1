import ApiSentinel.Retries
import ApiSentinel.Values
import Mathlib.Data.List.Chain

/-!
# The verdict of a step

A step passes or fails on a response only when its last attempt brought a response to
the last chunk and every check on the way held.  Whatever else goes wrong is an error.
-/

namespace ApiSentinel

open Program

/-! ### The course of a step that is judged -/

section Courses

variable (executor : CaseExecutor) (step : Step) (method path : String) (vars : Variables)
  (deadline : Rat)

/-- Attempts that all ended with a connection error, each with the pause that follows. -/
inductive Retried : Execution.Trace → Prop
  | nil : Retried []
  | again {now answer error readings later seconds earlier} (early : now < deadline)
      (whole : Whole executor deadline answer readings) (failed : fault answer = some error)
      (connect : error.connect = true) (rest : Retried earlier) :
      Retried (⟨.leaseValid, true⟩ :: ⟨.monotonic, now⟩ ::
        ⟨.stream (executor.request step method path vars (deadline - now)), answer⟩ ::
          (checks readings ++ ⟨.monotonic, later⟩ :: ⟨.sleep seconds, ()⟩ :: earlier))

/-- The last attempt of the retry loop brought this response, complete. -/
inductive Received : Execution.Trace → Response → Prop
  | intro {earlier now response readings} (retried : Retried executor step method path vars
        deadline earlier)
      (early : now < deadline) (whole : Whole executor deadline (.ok response) readings)
      (complete : response.failure = none) :
      Received (earlier ++ ⟨.leaseValid, true⟩ :: ⟨.monotonic, now⟩ ::
        ⟨.stream (executor.request step method path vars (deadline - now)), .ok response⟩ ::
          checks readings) response

/-- The whole step asked for this complete response, and took so many milliseconds. -/
inductive Answered : Execution.Trace → Response → Rat → Prop
  | intro {started loop response finished}
      (received : Received executor step method path vars deadline loop response) :
      Answered (⟨.monotonic, started⟩ :: (loop ++ [⟨.monotonic, finished⟩])) response
        ((finished - started) * 1000)

end Courses

/-- What the contract and the assertions find wrong with a complete response. -/
def CaseExecutor.Judges (executor : CaseExecutor) (step : Step) (response : Response)
    (errors : List String) : Prop :=
  ∃ body isJson,
    executor.decode response.chunks.flatten (mediaType response.headers == "application/json") =
      .ok (body, isJson) ∧
    executor.harness.responseErrors step response.statusCode response.headers body
      (!response.chunks.flatten.isEmpty) isJson = .ok errors

/-- The latency budget of a step is exceeded.  A budget of zero is none. -/
def Step.Overdue (step : Step) (elapsed : Rat) : Prop :=
  ∃ limit, step.expect.maxLatencyMs = some limit ∧ limit.truthy = true ∧
    limit.exceededBy elapsed = true

section Courses

variable {executor : CaseExecutor} {step : Step} {method path : String} {vars : Variables}
  {deadline : Rat} {trace : Execution.Trace}

/-- The retry loop ends well only with a complete response to its last request. -/
theorem Sending.received_of_ok {progress final : Progress} {headers : Headers}
    {content : Content} {outcome : Except Raised (Headers × Content)}
    (sending : Sending executor step method path vars deadline progress trace final outcome)
    (ok : outcome = .ok (headers, content)) :
    ∃ response, Received executor step method path vars deadline trace response ∧
      final.statusCode = some response.statusCode ∧ headers = response.headers ∧
      content = response.chunks.flatten := by
  induction sending with
  | lost => cases ok
  | late => cases ok
  | failed => cases ok
  | received early exchange =>
      cases ok
      obtain ⟨_, readings, rfl, whole, response, rfl, complete, rfl, same⟩ :=
        exchange.whole_of_goes fun _ failed => by cases failed
      exact ⟨response, .intro .nil early whole complete, rfl, same⟩
  | @again progress now trace status error later seconds rest final outcome early exchange connect
      safe left retried ih =>
      obtain ⟨response, received, same⟩ := ih ok
      obtain ⟨answer, readings, rfl, whole, failed⟩ :=
        exchange.whole_of_goes fun _ failed => by
          cases failed
          exact connect
      cases received with
      | intro earlier intime complete ends =>
          have retried := @Retried.again executor step method path vars deadline _ answer error
            readings later seconds _ early whole failed connect earlier
          have course := Received.intro retried intime complete ends
          refine ⟨response, ?_, same⟩
          simpa only [List.cons_append, List.append_assoc] using course

/-- The failures of a complete response are those that the contract reports, and an
exceeded latency budget. -/
theorem CaseExecutor.judges_of_verdict {response : Response} {elapsed : Rat}
    {failures : List String}
    (verdict : executor.verdict step response.statusCode response.headers response.chunks.flatten
      elapsed = .ok failures) :
    ∃ errors, executor.Judges step response errors ∧
      (failures = [] ↔ errors = [] ∧ ¬ step.Overdue elapsed) := by
  obtain ⟨⟨body, isJson⟩, decoded, judged⟩ := except_bind_eq_ok.mp verdict
  obtain ⟨errors, found, all⟩ := except_bind_eq_ok.mp judged
  refine ⟨errors, ⟨body, isJson, decoded, found⟩, ?_⟩
  rw [← Except.ok.inj all, List.append_eq_nil_iff]
  refine and_congr_right fun _ => ?_
  cases budget : step.expect.maxLatencyMs with
  | none => simp [Step.Overdue, budget]
  | some limit => simp [Step.Overdue, budget]

/-- A step that does not end in an error was refused by the contract before it sent
anything, or judged a complete response. -/
theorem Stepping.settled {rawStep : Step} {phase : Phase} {result : StepResult}
    (stepping : Stepping executor rawStep phase vars deadline trace result)
    (settles : result.status ≠ .error) :
    (∃ step method path failures started, executor.Prepares vars rawStep step method path failures ∧
      failures ≠ [] ∧ trace = [⟨.monotonic, started⟩] ∧ result.status = .failed) ∨
    ∃ step method path response elapsed errors,
      executor.Prepares vars rawStep step method path [] ∧
      Answered executor step method path vars deadline trace response elapsed ∧
      executor.Judges step response errors ∧
      (result.status = .passed ↔ errors = [] ∧ ¬ step.Overdue elapsed) := by
  cases stepping with
  | rejected => cases settles rfl
  | unsent => cases settles rfl
  | unjudged => cases settles rfl
  | invalid prepares violated =>
      exact .inl ⟨_, _, _, _, _, prepares, violated, rfl, rfl⟩
  | judged prepares sending verdict =>
      obtain ⟨response, received, status, rfl, rfl⟩ := sending.received_of_ok rfl
      rw [status, Option.getD_some] at verdict
      obtain ⟨errors, judges, empty⟩ := CaseExecutor.judges_of_verdict verdict
      refine .inr ⟨_, _, _, response, _, errors, prepares, .intro received, judges, ?_⟩
      rw [← empty, judgedResult]
      split
      · next none => simp [none]
      · next found => simp [found]

end Courses

/-! ### What goes wrong -/

/-- A clock reading is a check, unless a pause follows it. -/
def Heeds (deadline : Rat) (event next : Sigma Answer) : Prop :=
  ∀ now, event = ⟨.monotonic, now⟩ → (∀ seconds, next.1 ≠ .sleep seconds) → now < deadline

section Heeds

variable {executor : CaseExecutor} {step : Step} {method path : String} {vars : Variables}
  {deadline : Rat} {trace : Execution.Trace}

theorem heeds_cons {event : Sigma Answer} (other : ∀ now, event ≠ ⟨.monotonic, now⟩)
    (rest : trace.IsChain (Heeds deadline)) : (event :: trace).IsChain (Heeds deadline) :=
  rest.cons fun _ _ now same => (other now same).elim

theorem heeds_checks {readings : List Rat} (timely : ∀ now ∈ readings, now < deadline)
    (rest : trace.IsChain (Heeds deadline)) :
    (checks readings ++ trace).IsChain (Heeds deadline) := by
  induction readings with
  | nil => exact rest
  | cons now readings ih =>
      obtain ⟨early, later⟩ := List.forall_mem_cons.mp timely
      refine .cons_cons ?_ (heeds_cons (by simp) (ih later))
      intro now same _
      cases same
      exact early

/-- The checks of an attempt that sends its request. -/
theorem heeds_attempt (request : Request) {answer : Except HttpError Response} {now : Rat}
    {readings : List Rat} (early : now < deadline) (whole : Whole executor deadline answer readings)
    (rest : trace.IsChain (Heeds deadline)) :
    (⟨.leaseValid, true⟩ :: ⟨.monotonic, now⟩ :: ⟨.stream request, answer⟩ ::
      (checks readings ++ trace)).IsChain (Heeds deadline) := by
  refine heeds_cons (by simp) (.cons_cons ?_ (heeds_cons (by simp)
    (heeds_checks whole.timely rest)))
  intro now same _
  cases same
  exact early

theorem Retried.heeds {earlier : Execution.Trace}
    (retried : Retried executor step method path vars deadline earlier)
    (rest : trace.IsChain (Heeds deadline)) : (earlier ++ trace).IsChain (Heeds deadline) := by
  induction retried with
  | nil => exact rest
  | @again now answer error readings later seconds earlier early whole _ _ _ ih =>
      have paused : Heeds deadline ⟨.monotonic, later⟩ ⟨.sleep seconds, ()⟩ :=
        fun _ _ check => (check seconds rfl).elim
      have course := heeds_attempt (executor.request step method path vars (deadline - now)) early
        whole (.cons_cons paused (heeds_cons (by simp) ih))
      simpa only [List.cons_append, List.append_assoc] using course

theorem Retried.not_lost {earlier : Execution.Trace}
    (retried : Retried executor step method path vars deadline earlier) :
    ⟨.leaseValid, false⟩ ∉ earlier := by
  induction retried with
  | nil => simp
  | again _ _ _ _ _ ih => simp [ih, not_lost_checks]

theorem Retried.fits {earlier : Execution.Trace}
    (retried : Retried executor step method path vars deadline earlier) :
    ∀ send ∈ sends earlier,
      ((chunks send.2).flatten.length : Int) ≤ max executor.maxResponseBytes 0 := by
  induction retried with
  | nil => simp
  | again _ whole _ _ _ ih =>
      simp only [sends_leaseValid, sends_monotonic, sends_stream, sends_append, sends_checks,
        sends_sleep, List.nil_append, List.forall_mem_cons]
      exact ⟨whole.fits, ih⟩

variable {response : Response} {elapsed : Rat}

/-- In a step that judges a response no lease check failed. -/
theorem Answered.not_lost
    (answered : Answered executor step method path vars deadline trace response elapsed) :
    ⟨.leaseValid, false⟩ ∉ trace := by
  obtain ⟨retried, early, whole, complete⟩ := answered
  simp [retried.not_lost, not_lost_checks]

/-- In a step that judges a response every check of the clock was in time. -/
theorem Answered.heeds
    (answered : Answered executor step method path vars deadline trace response elapsed) :
    trace.tail.IsChain (Heeds deadline) := by
  cases answered with
  | @intro started loop response finished received =>
      cases received with
      | @intro earlier now response readings retried early whole complete =>
          have ended : [⟨.monotonic, finished⟩].IsChain (Heeds deadline) :=
            List.isChain_singleton _
          have course := retried.heeds (heeds_attempt
            (executor.request step method path vars (deadline - now)) early whole ended)
          simpa only [List.tail_cons, List.cons_append, List.append_assoc] using course

/-- The response that is judged is complete, and answers the last request. -/
theorem Answered.sends_eq
    (answered : Answered executor step method path vars deadline trace response elapsed) :
    ∃ earlier request readings, Retried executor step method path vars deadline earlier ∧
      Whole executor deadline (.ok response) readings ∧ response.failure = none ∧
      sends trace = sends earlier ++ [(request, .ok response)] := by
  cases answered with
  | @intro started loop response finished received =>
      cases received with
      | @intro earlier now response readings retried early whole complete =>
          refine ⟨earlier, executor.request step method path vars (deadline - now), readings,
            retried, whole, complete, ?_⟩
          simp only [sends_monotonic, sends_append, sends_leaseValid, sends_stream, sends_checks,
            sends_nil, List.append_nil]

theorem Answered.last
    (answered : Answered executor step method path vars deadline trace response elapsed) :
    ∃ request, (sends trace).getLast? = some (request, .ok response) ∧
      response.failure = none := by
  obtain ⟨earlier, request, readings, retried, whole, complete, sent⟩ := answered.sends_eq
  exact ⟨request, by rw [sent, List.getLast?_concat], complete⟩

theorem Answered.fits
    (answered : Answered executor step method path vars deadline trace response elapsed) :
    ∀ send ∈ sends trace,
      ((chunks send.2).flatten.length : Int) ≤ max executor.maxResponseBytes 0 := by
  obtain ⟨earlier, request, readings, retried, whole, complete, sent⟩ := answered.sends_eq
  rw [sent, List.forall_mem_append, List.forall_mem_singleton]
  exact ⟨retried.fits, whole.fits⟩

end Heeds

/-- What can go wrong in a step: it has no request, a lease check fails, a deadline check
fails, its last request fails, or a body is too large.  The clock readings that are no
deadline checks are the first, the last, those before a pause, and the one at the end of a
response that cannot be judged. -/
inductive Problem (executor : CaseExecutor) (rawStep : Step) (vars : Variables) (deadline : Rat)
    (trace : Execution.Trace) : Prop
  | rejected {raised} (rejects : executor.Rejects vars rawStep raised)
  | lost (invalid : ⟨.leaseValid, false⟩ ∈ trace)
  | late {before now event after} (shape : trace = before ++ ⟨.monotonic, now⟩ :: event :: after)
      (inside : before ≠ []) (check : ∀ seconds, event.1 ≠ .sleep seconds)
      (reached : deadline ≤ now)
  | failed {request answer error} (last : (sends trace).getLast? = some (request, answer))
      (broken : fault answer = some error)
  | overrun {request answer} (sent : (request, answer) ∈ sends trace)
      (beyond : max executor.maxResponseBytes 0 < (chunks answer).flatten.length)

section Problems

variable {executor : CaseExecutor} {rawStep step : Step} {method path : String}
  {vars : Variables} {deadline : Rat} {trace : Execution.Trace}

/-- A step that is judged has no problem. -/
theorem Answered.sound {response : Response} {elapsed : Rat}
    (answered : Answered executor step method path vars deadline trace response elapsed)
    (prepares : executor.Prepares vars rawStep step method path []) :
    ¬ Problem executor rawStep vars deadline trace := by
  intro problem
  cases problem with
  | rejected rejects => exact prepares.not_rejects rejects
  | lost invalid => exact answered.not_lost invalid
  | @late before now event after shape inside check reached =>
      obtain ⟨first, before, rfl⟩ := List.exists_cons_of_ne_nil inside
      have heeds := answered.heeds
      rw [shape, List.cons_append, List.tail_cons, List.isChain_append_cons_cons] at heeds
      exact absurd (heeds.2.1 now rfl check) (not_lt.mpr reached)
  | failed last broken =>
      obtain ⟨request, sent, complete⟩ := answered.last
      cases last.symm.trans sent
      cases complete.symm.trans broken
  | overrun sent beyond => exact absurd (answered.fits _ sent) (not_le.mpr beyond)

theorem Stepping.error_of_problem {phase : Phase} {result : StepResult}
    (stepping : Stepping executor rawStep phase vars deadline trace result)
    (problem : Problem executor rawStep vars deadline trace) : result.status = .error := by
  by_contra settles
  rcases stepping.settled settles with ⟨_, _, _, _, _, prepares, _, rfl, _⟩ |
    ⟨_, _, _, _, _, _, prepares, answered, _⟩
  · cases problem with
    | rejected rejects => exact prepares.not_rejects rejects
    | lost invalid => simp at invalid
    | late shape inside => simp [List.singleton_eq_append_iff] at shape
    | failed last => cases last
    | overrun sent => cases sent
  · exact answered.sound prepares problem

end Problems

/-- The verdict of a step.  It fails only if the rendered request violates the contract,
and then nothing was sent, or if the complete response to its last request violates the
contract, an assertion or the latency budget.  It passes only if that response violates
none of them.  Whatever goes wrong makes it an error. -/
theorem verdict_sound (executor : CaseExecutor) (rawStep : Step) (phase : Phase)
    (vars : Variables) (deadline : Rat) {trace : Execution.Trace} {result : StepResult}
    (run : Runs (executor.step rawStep phase vars deadline) trace result) :
    (result.status = .failed →
      (∃ step method path failures, executor.Prepares vars rawStep step method path failures ∧
        failures ≠ [] ∧ requests trace = []) ∨
      ∃ step method path response elapsed errors,
        executor.Prepares vars rawStep step method path [] ∧
        Answered executor step method path vars deadline trace response elapsed ∧
        executor.Judges step response errors ∧ (errors ≠ [] ∨ step.Overdue elapsed)) ∧
    (result.status = .passed →
      ∃ step method path response elapsed,
        executor.Prepares vars rawStep step method path [] ∧
        Answered executor step method path vars deadline trace response elapsed ∧
        executor.Judges step response [] ∧ ¬ step.Overdue elapsed) ∧
    (Problem executor rawStep vars deadline trace → result.status = .error) := by
  have stepping := stepping_of_runs run
  refine ⟨?_, ?_, stepping.error_of_problem⟩
  · intro failed
    rcases stepping.settled (by simp [failed]) with
      ⟨step, method, path, failures, started, prepares, violated, rfl, _⟩ |
      ⟨step, method, path, response, elapsed, errors, prepares, answered, judges, passes⟩
    · exact .inl ⟨step, method, path, failures, prepares, violated, rfl⟩
    · refine .inr ⟨step, method, path, response, elapsed, errors, prepares, answered, judges, ?_⟩
      by_contra none
      rw [not_or, not_not] at none
      cases failed.symm.trans (passes.mpr none)
  · intro passed
    rcases stepping.settled (by simp [passed]) with
      ⟨_, _, _, _, _, _, _, _, failed⟩ |
      ⟨step, method, path, response, elapsed, errors, prepares, answered, judges, passes⟩
    · cases passed.symm.trans failed
    · obtain ⟨rfl, punctual⟩ := passes.mp passed
      exact ⟨step, method, path, response, elapsed, prepares, answered, judges, punctual⟩

/-- The sample step judges its response, and finds nothing wrong with it. -/
theorem verdict_sound_sample :
    ∃ step method path response elapsed,
      Sample.executor.Prepares (Sample.executor.variablesOf Sample.case "run" 1) Sample.step step
        method path [] ∧
      Answered Sample.executor step method path (Sample.executor.variablesOf Sample.case "run" 1)
        60 (⟨.monotonic, (0 : Rat)⟩ ::
          Sample.sending (Sample.executor.variablesOf Sample.case "run" 1) ++
            [⟨.monotonic, (0 : Rat)⟩]) response elapsed ∧
      Sample.executor.Judges step response [] ∧ ¬ step.Overdue elapsed :=
  (verdict_sound Sample.executor Sample.step .test _ 60 (Sample.runs_step _)).2.1 rfl

end ApiSentinel
