import ApiSentinel.Requests

/-!
# Retries

A step sends its request again only after a connection could not be established, for
the methods that are safe to repeat, and as often as the executor permits.
-/

namespace ApiSentinel

open Program

/-! ### Answers and checks -/

/-- The transport failure that an answer is or ends with. -/
def fault : Except HttpError Response → Option HttpError
  | .error error => some error
  | .ok response => response.failure

/-- The chunks that an answer brings. -/
def chunks : Except HttpError Response → List Content
  | .error _ => []
  | .ok response => response.chunks

/-- What is asked after each chunk while the lease holds. -/
def checks (readings : List Rat) : Execution.Trace :=
  readings.flatMap (fun now => [⟨.monotonic, now⟩, ⟨.leaseValid, true⟩])

@[simp]
theorem checks_cons (now : Rat) (readings : List Rat) :
    checks (now :: readings) = ⟨.monotonic, now⟩ :: ⟨.leaseValid, true⟩ :: checks readings :=
  rfl

theorem sends_checks (readings : List Rat) : sends (checks readings) = [] := by
  induction readings with
  | nil => rfl
  | cons now readings ih => exact ih

theorem not_lost_checks (readings : List Rat) : ⟨.leaseValid, false⟩ ∉ checks readings := by
  simp [checks]

/-- An answer was read to its end: the clock was in time after each chunk, and the
chunks are within the limit.  No chunks are within every limit. -/
structure Whole (executor : CaseExecutor) (deadline : Rat) (answer : Except HttpError Response)
    (readings : List Rat) : Prop where
  each : readings.length = (chunks answer).length
  timely : ∀ now ∈ readings, now < deadline
  fits : ((chunks answer).flatten.length : Int) ≤ max executor.maxResponseBytes 0

section Answers

variable {executor : CaseExecutor} {deadline : Rat} {trace : Execution.Trace}

/-- A body that ends well, or with a connection error, was read to its end. -/
theorem Reading.whole_of_goes {failure : Option HttpError} {content : Content}
    {chunks : List Content} {result : Except HttpError Content}
    (reading : Reading executor deadline failure content chunks trace result)
    (goes : ∀ error, result = .error error → error.connect = true) :
    ∃ readings, trace = checks readings ∧ readings.length = chunks.length ∧
      (∀ now ∈ readings, now < deadline) ∧
      ((content ++ chunks.flatten).length : Int) ≤
        max executor.maxResponseBytes content.length ∧
      result = failure.elim (.ok (content ++ chunks.flatten)) .error := by
  induction reading with
  | whole complete =>
      subst complete
      exact ⟨[], rfl, rfl, by simp, by simp, by simp⟩
  | broken failed =>
      subst failed
      exact ⟨[], rfl, rfl, by simp, by simp, rfl⟩
  | overrun => cases goes _ rfl
  | late => cases goes _ rfl
  | lost => cases goes _ rfl
  | @next content chunk chunks now trace result fits early rest ih =>
      obtain ⟨readings, rfl, each, timely, bound, rfl⟩ := ih goes
      rw [List.append_assoc] at bound
      rw [List.append_assoc, List.flatten_cons]
      refine ⟨now :: readings, rfl, congrArg Nat.succ each,
        List.forall_mem_cons.mpr ⟨early, timely⟩, ?_, rfl⟩
      omega

/-- An exchange that brings a response, or ends with a connection error. -/
theorem Exchanged.whole_of_goes {request : Request} {status : Option Int}
    {outcome : Except HttpError (Headers × Content)}
    (exchanged : Exchanged executor request deadline trace status outcome)
    (goes : ∀ error, outcome = .error error → error.connect = true) :
    ∃ answer readings, trace = ⟨.stream request, answer⟩ :: checks readings ∧
      Whole executor deadline answer readings ∧
      match outcome with
      | .error error => fault answer = some error
      | .ok (headers, content) => ∃ response, answer = .ok response ∧ response.failure = none ∧
          status = some response.statusCode ∧ headers = response.headers ∧
          content = response.chunks.flatten := by
  cases exchanged with
  | @refused error =>
      exact ⟨.error error, [], rfl, ⟨rfl, by simp, le_max_right _ _⟩, rfl⟩
  | @broken response trace error reading =>
      obtain ⟨readings, rfl, each, timely, bound, failed⟩ :=
        reading.whole_of_goes fun _ same => by
          cases same
          exact goes error rfl
      refine ⟨.ok response, readings, rfl, ⟨each, timely, bound⟩, ?_⟩
      cases ends : response.failure with
      | none =>
          rw [ends] at failed
          cases failed
      | some error =>
          rw [ends] at failed
          cases failed
          exact ends
  | @received response trace content reading =>
      obtain ⟨readings, rfl, each, timely, bound, ended⟩ :=
        reading.whole_of_goes fun _ same => by cases same
      refine ⟨.ok response, readings, rfl, ⟨each, timely, bound⟩, response, rfl, ?_⟩
      cases ends : response.failure with
      | none =>
          rw [ends] at ended
          cases ended
          exact ⟨rfl, rfl, rfl, rfl⟩
      | some error =>
          rw [ends] at ended
          cases ended

end Answers

/-! ### The retry loop -/

section Retries

variable {executor : CaseExecutor} {step : Step} {method path : String} {vars : Variables}
  {deadline : Rat} {trace : Execution.Trace}

/-- An exchange sends one request. -/
theorem Exchanged.sends_eq {request : Request} {status : Option Int}
    {outcome : Except HttpError (Headers × Content)}
    (exchanged : Exchanged executor request deadline trace status outcome) :
    ∃ answer, sends trace = [(request, answer)] := by
  obtain ⟨answer, tail, rfl, silent⟩ := exchanged.sent
  exact ⟨answer, by rw [sends_stream, silent]⟩

/-- A connection error comes instead of a response, or at the end of its body. -/
theorem Exchanged.answer_of_connect {request : Request} {status : Option Int} {error : HttpError}
    (exchanged : Exchanged executor request deadline trace status (.error error))
    (connect : error.connect = true) :
    ∃ answer, sends trace = [(request, answer)] ∧ fault answer = some error := by
  obtain ⟨answer, readings, rfl, _, failed⟩ := exchanged.whole_of_goes fun _ same => by
    cases same
    exact connect
  exact ⟨answer, by rw [sends_stream, sends_checks], failed⟩

namespace Sending

variable {progress final : Progress} {outcome : Except Raised (Headers × Content)}
  (sending : Sending executor step method path vars deadline progress trace final outcome)
include sending

/-- Every attempt sends the same request, with the time that remains as its limit. -/
theorem same : ∀ send ∈ sends trace, ∃ remaining,
    send.1 = executor.request step method path vars remaining := by
  induction sending with
  | lost => simp
  | late => simp
  | received _ exchange =>
      obtain ⟨answer, sent⟩ := exchange.sends_eq
      simp only [sends_leaseValid, sends_monotonic, sent, List.forall_mem_singleton]
      exact ⟨_, rfl⟩
  | failed _ exchange =>
      obtain ⟨answer, sent⟩ := exchange.sends_eq
      simp only [sends_leaseValid, sends_monotonic, sent, List.forall_mem_singleton]
      exact ⟨_, rfl⟩
  | again _ exchange _ _ _ _ ih =>
      obtain ⟨answer, sent⟩ := exchange.sends_eq
      simp only [sends_leaseValid, sends_monotonic, sends_append, sent, sends_sleep,
        List.singleton_append, List.forall_mem_cons]
      exact ⟨⟨_, rfl⟩, ih⟩

/-- The retry loop counts its requests. -/
theorem attempts_eq : final.attempts = progress.attempts + (sends trace).length := by
  induction sending with
  | lost => rfl
  | late => rfl
  | received _ exchange =>
      obtain ⟨answer, sent⟩ := exchange.sends_eq
      rw [sends_leaseValid, sends_monotonic, sent, List.length_singleton]
  | failed _ exchange =>
      obtain ⟨answer, sent⟩ := exchange.sends_eq
      rw [sends_leaseValid, sends_monotonic, sent, List.length_singleton]
  | again _ exchange _ _ _ _ ih =>
      obtain ⟨answer, sent⟩ := exchange.sends_eq
      rw [ih, sends_leaseValid, sends_monotonic, sends_append, sent, sends_monotonic, sends_sleep,
        List.singleton_append, List.length_cons]
      dsimp only
      omega

/-- The attempts that are left to a step after those so far. -/
theorem attempts_le :
    (final.attempts : Int) ≤ max executor.connectRetries progress.attempts + 1 := by
  induction sending with
  | lost => omega
  | late => omega
  | received => simp
  | failed => simp
  | again _ _ _ _ left _ ih =>
      dsimp only at ih
      omega

/-- A method that is not safe is attempted once at most. -/
theorem attempts_le_succ (once : method ∉ safeMethods) :
    final.attempts ≤ progress.attempts + 1 := by
  cases sending with
  | lost => exact Nat.le_succ _
  | late => exact Nat.le_succ _
  | received => exact Nat.le_refl _
  | failed => exact Nat.le_refl _
  | again _ _ _ safe => exact (once safe).elim

/-- As long as a connection error comes only before any response, every request but the
last has failed to connect. -/
theorem unconnected
    (established : ∀ send ∈ sends trace, ∀ response, send.2 = .ok response →
      ∀ error, response.failure = some error → error.connect = false) :
    ∀ send ∈ (sends trace).dropLast, ∃ error, send.2 = .error error ∧ error.connect = true := by
  induction sending with
  | lost => simp
  | late => simp
  | received _ exchange =>
      obtain ⟨answer, sent⟩ := exchange.sends_eq
      simp [sent]
  | failed _ exchange =>
      obtain ⟨answer, sent⟩ := exchange.sends_eq
      simp [sent]
  | again _ exchange connect _ _ _ ih =>
      obtain ⟨answer, sent, failed⟩ := exchange.answer_of_connect connect
      simp only [sends_leaseValid, sends_monotonic, sends_append, sent, sends_sleep,
        List.singleton_append, List.forall_mem_cons] at established ⊢
      obtain ⟨first, others⟩ := established
      intro send member
      cases later : sends _ with
      | nil =>
          rw [later] at member
          cases member
      | cons second rest =>
          rw [later, List.dropLast_cons_cons] at member
          rcases List.mem_cons.mp member with rfl | member
          · cases answer with
            | error error =>
                cases failed
                exact ⟨_, rfl, connect⟩
            | ok response =>
                rw [first response rfl _ failed] at connect
                cases connect
          · exact ih others send (by rwa [later])

end Sending

/-- What a step sends is what its retry loop sends. -/
theorem Stepping.sends_cases {rawStep : Step} {phase : Phase} {result : StepResult}
    (stepping : Stepping executor rawStep phase vars deadline trace result) :
    sends trace = [] ∨
      ∃ step method path loop final outcome,
        executor.Prepares vars rawStep step method path [] ∧
        Sending executor step method path vars deadline {} loop final outcome ∧
        sends trace = sends loop := by
  cases stepping with
  | rejected => exact .inl rfl
  | invalid => exact .inl rfl
  | unsent prepares sending => exact .inr ⟨_, _, _, _, _, _, prepares, sending, by simp⟩
  | unjudged prepares sending => exact .inr ⟨_, _, _, _, _, _, prepares, sending, by simp⟩
  | judged prepares sending => exact .inr ⟨_, _, _, _, _, _, prepares, sending, by simp⟩

end Retries

/-- A step comes to its end whatever the clock, the lease and the server do.  It sends
one request only, up to the time limit, at most `max(connect_retries, 0) + 1` times and
at most once if its method is not safe.  As long as a connection error comes only before
a response, every request but the last has failed to connect. -/
theorem safe_retries (executor : CaseExecutor) (rawStep : Step) (phase : Phase)
    (vars : Variables) (deadline : Rat) :
    (∀ environment : Environment Ask Answer, ∃ trace result, Follows environment [] trace ∧
      Runs (executor.step rawStep phase vars deadline) trace result) ∧
    ∀ trace result, Runs (executor.step rawStep phase vars deadline) trace result →
      (∃ step method path, ∀ send ∈ sends trace,
        executor.Prepares vars rawStep step method path [] ∧
        ∃ remaining, send.1 = executor.request step method path vars remaining) ∧
      ((sends trace).length : Int) ≤ max executor.connectRetries 0 + 1 ∧
      (∀ send ∈ sends trace, send.1.method ∉ safeMethods → (sends trace).length ≤ 1) ∧
      ((∀ send ∈ sends trace, ∀ response, send.2 = .ok response →
          ∀ error, response.failure = some error → error.connect = false) →
        ∀ send ∈ (sends trace).dropLast,
          ∃ error, send.2 = .error error ∧ error.connect = true) := by
  refine ⟨fun environment => exists_run _ environment [], ?_⟩
  intro trace result run
  rcases (stepping_of_runs run).sends_cases with
    silent | ⟨step, method, path, loop, final, outcome, prepares, sending, sent⟩
  · rw [silent]
    refine ⟨⟨rawStep, "", "", by simp⟩, ?_, by simp, by simp⟩
    rw [List.length_nil]
    omega
  · have counted : final.attempts = (sends loop).length := by
      rw [sending.attempts_eq, Nat.zero_add]
    rw [sent, ← counted]
    refine ⟨⟨step, method, path, fun send member => ⟨prepares, sending.same send member⟩⟩,
      sending.attempts_le, ?_, sending.unconnected⟩
    intro send member once
    obtain ⟨remaining, same⟩ := sending.same send member
    rw [same] at once
    exact sending.attempts_le_succ once

/-- The sample step sends at most two requests. -/
theorem safe_retries_sample :
    ((sends (⟨.monotonic, (0 : Rat)⟩ ::
      Sample.sending (Sample.executor.variablesOf Sample.case "run" 1) ++
        [⟨.monotonic, (0 : Rat)⟩])).length : Int) ≤ max 1 0 + 1 :=
  ((safe_retries Sample.executor Sample.step .test _ 60).2 _ _ (Sample.runs_step _)).2.1

/-! ### The attempts of a result -/

/-- A step whose request the contract accepts, or that has no request, counts its
requests. -/
theorem Stepping.attempts_eq {executor : CaseExecutor} {rawStep : Step} {phase : Phase}
    {vars : Variables} {deadline : Rat} {trace : Execution.Trace} {result : StepResult}
    (stepping : Stepping executor rawStep phase vars deadline trace result)
    (accepted : ∀ step method path failures,
      executor.Prepares vars rawStep step method path failures → failures = []) :
    result.attempts = (requests trace).length := by
  rw [requests, List.length_map]
  cases stepping with
  | rejected => rfl
  | invalid prepares violated => exact (violated (accepted _ _ _ _ prepares)).elim
  | unsent _ sending => simp [errorResult, sending.attempts_eq]
  | unjudged _ sending => simp [errorResult, sending.attempts_eq]
  | judged _ sending => simp [judgedResult, sending.attempts_eq]

/-- A step whose request the contract refuses sends nothing, and yet its result has the
default of one attempt. -/
theorem Stepping.attempts_invalid {executor : CaseExecutor} {rawStep step : Step} {phase : Phase}
    {vars : Variables} {deadline : Rat} {trace : Execution.Trace} {result : StepResult}
    {method path : String} {failures : List String}
    (stepping : Stepping executor rawStep phase vars deadline trace result)
    (prepares : executor.Prepares vars rawStep step method path failures)
    (violated : failures ≠ []) : result.attempts = 1 ∧ requests trace = [] := by
  cases stepping with
  | rejected rejects => exact (prepares.not_rejects rejects).elim
  | invalid => exact ⟨rfl, rfl⟩
  | unsent accepted => exact (violated (prepares.failures_eq accepted)).elim
  | unjudged accepted => exact (violated (prepares.failures_eq accepted)).elim
  | judged accepted => exact (violated (prepares.failures_eq accepted)).elim

/-- The attempts of a result are the requests that the HTTP client handed to its
transport, exactly if the contract does not refuse the rendered request and the client
hands on every request that it is given. -/
theorem attempts_exact (handed : Request → Bool) (executor : CaseExecutor) (rawStep : Step)
    (phase : Phase) (vars : Variables) (deadline : Rat) {trace : Execution.Trace}
    {result : StepResult} (run : Runs (executor.step rawStep phase vars deadline) trace result) :
    result.attempts = (requests trace).countP handed ↔
      (∀ step method path failures,
        executor.Prepares vars rawStep step method path failures → failures = []) ∧
      ∀ request ∈ requests trace, handed request = true := by
  have stepping := stepping_of_runs run
  by_cases accepted : ∀ step method path failures,
      executor.Prepares vars rawStep step method path failures → failures = []
  · rw [stepping.attempts_eq accepted, eq_comm, List.countP_eq_length]
    exact (and_iff_right accepted).symm
  · refine iff_of_false ?_ fun both => accepted both.1
    push Not at accepted
    obtain ⟨step, method, path, failures, prepares, violated⟩ := accepted
    obtain ⟨one, silent⟩ := stepping.attempts_invalid prepares violated
    rw [one, silent, List.countP_nil]
    exact Nat.one_ne_zero

/-- The sample step makes one attempt and sends one request. -/
theorem attempts_exact_sample :
    Sample.passed.attempts = (requests (⟨.monotonic, (0 : Rat)⟩ ::
      Sample.sending (Sample.executor.variablesOf Sample.case "run" 1) ++
        [⟨.monotonic, (0 : Rat)⟩])).countP fun _ => true := by
  refine (attempts_exact (fun _ => true) Sample.executor Sample.step .test _ 60
    (Sample.runs_step _)).mpr ⟨?_, fun _ _ => rfl⟩
  rintro step method path failures ⟨_, requested⟩
  cases requested
  rfl

/-- An executor whose contract wants a query parameter that the sample step lacks. -/
def Sample.refusing : CaseExecutor where
  harness := { Sample.harness with
    request := fun _ => .ok ("GET", "/health", ["request: missing required query parameter"]) }
  baseUrl := "http://test"

/-- The result of a refused request has an attempt, though nothing was sent. -/
theorem attempts_miscounted :
    ∃ trace result, Runs (Sample.refusing.step Sample.step .test
        (Sample.refusing.variablesOf Sample.case "run" 1) 60) trace result ∧
      ∀ handed : Request → Bool, result.attempts ≠ (requests trace).countP handed := by
  refine ⟨[⟨.monotonic, (0 : Rat)⟩], _, runs_query_bind.mpr ⟨(0 : Rat), [], rfl, .done⟩, ?_⟩
  intro handed
  exact Nat.one_ne_zero

end ApiSentinel
