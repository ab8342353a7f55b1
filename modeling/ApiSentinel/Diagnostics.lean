import ApiSentinel.Keywords
import ApiSentinel.Retries
import ApiSentinel.StepRendering

/-!
# Value-free diagnostics

The result of a step is a function of the step as it is in the suite, the clock, and a
verdict without values.  So two executions whose verdicts agree report the same, whatever
they were rendered with and whatever they received.
-/

namespace ApiSentinel

open Program

/-- The first clock reading of a trace. -/
def firstReading (trace : Execution.Trace) : Option Rat := (trace.filterMap reading?).head?

/-! ### Verdicts -/

/-- How a step went, without the values of its environment, its request or its responses. -/
inductive StepVerdict
  | raised (progress : Progress) (type : String) (configuration : Bool)
  | refused (finding : RequestFinding)
  | judged (progress : Progress) (finding : ResponseFinding)

/-- A verdict, with the first and the last reading of the clock. -/
structure Observation where
  verdict : StepVerdict
  started : Rat
  finished : Rat

def latencyErrors (rawStep : Step) (elapsed : Rat) : List String :=
  match rawStep.expect.maxLatencyMs with
  | some limit =>
      if limit.truthy && limit.exceededBy elapsed then ["latency budget exceeded"] else []
  | none => []

/-- The result of a step, from what it was in the suite and what was observed of it. -/
def report (rawStep : Step) (phase : Phase) (seen : Observation) : StepResult :=
  match seen.verdict with
  | .raised progress type configuration =>
      { name := rawStep.name
        phase := phase
        status := .error
        elapsedMs := elapsedMs (seen.finished - seen.started)
        httpStatus := progress.statusCode
        attempts := progress.attempts
        messages := [raisedMessage type configuration] }
  | .refused finding =>
      { name := rawStep.name, phase, status := .failed, messages := finding.messages }
  | .judged progress finding =>
      judgedResult rawStep phase seen.started seen.finished progress
        (finding.messages rawStep (progress.statusCode.getD 0) ++
          latencyErrors rawStep ((seen.finished - seen.started) * 1000))

namespace Contract

variable (contract : Contract) (executor : CaseExecutor)

/-- What is found about a complete response. -/
def findResponse (step : Step) (statusCode : Int) (headers : Headers) (content : Content) :
    Except Raised ResponseFinding := do
  let (body, isJson) ← executor.decode content (mediaType headers == "application/json")
  contract.responseFinding step statusCode headers body (!content.isEmpty) isJson

/-- The observation of a step that raised an exception. -/
def observeRaised (started : Rat) (progress : Progress) (raised : Raised) :
    Execution Observation := do
  let now ← monotonic
  pure ⟨.raised progress raised.type raised.configuration, started, now⟩

/-- A step that returns what is observed of it. -/
def observe (rawStep : Step) (vars : Variables) (deadline : Rat) : Execution Observation := do
  let started ← monotonic
  match executor.harness.render vars rawStep with
  | .error raised => observeRaised started {} raised
  | .ok step =>
      match contract.requestFinding step with
      | .error raised => observeRaised started {} raised
      | .ok (method, path, finding) =>
          if step.allowInvalidRequest = false ∧ finding.messages ≠ [] then
            pure ⟨.refused finding, started, started⟩
          else do
            let (progress, outcome) ← executor.send step method path vars deadline {}
            match outcome with
            | .error raised => observeRaised started progress raised
            | .ok (headers, content) => do
                let now ← monotonic
                match contract.findResponse executor step (progress.statusCode.getD 0) headers
                    content with
                | .error raised => observeRaised started progress raised
                | .ok finding => pure ⟨.judged progress finding, started, now⟩

variable {contract executor} {rawStep step : Step} {phase : Phase} {vars : Variables}
  {deadline : Rat} {host : Host}

/-! ### The result is a function of the observation -/

theorem raisedResult_eq (started : Rat) (progress : Progress) (raised : Raised) :
    CaseExecutor.raisedResult rawStep phase started progress raised =
      observeRaised started progress raised >>= fun seen => pure (report rawStep phase seen) :=
  rfl

/-- The messages of a response depend on the expected status of a step only. -/
theorem messages_congr (status : step.expect.status = rawStep.expect.status) (statusCode : Int)
    (finding : ResponseFinding) :
    finding.messages step statusCode = finding.messages rawStep statusCode := by
  have same : statusErrors step statusCode = statusErrors rawStep statusCode := by
    unfold statusErrors
    rw [status]
  cases finding <;> simp only [ResponseFinding.messages, same]

/-- The failures of a response are the messages of its finding, and the latency budget. -/
theorem verdict_eq (harnessed : executor.harness = contract.harness host)
    (status : step.expect.status = rawStep.expect.status)
    (latency : step.expect.maxLatencyMs = rawStep.expect.maxLatencyMs)
    (statusCode : Int) (headers : Headers) (content : Content) (elapsed : Rat) :
    executor.verdict step statusCode headers content elapsed =
      (fun finding => finding.messages rawStep statusCode ++ latencyErrors rawStep elapsed) <$>
        contract.findResponse executor step statusCode headers content := by
  have checks : executor.harness.responseErrors = contract.responseErrors := by
    rw [harnessed]
    rfl
  unfold CaseExecutor.verdict findResponse latencyErrors
  rw [map_bind, latency]
  apply bind_congr
  rintro ⟨body, isJson⟩
  cases rawStep.expect.maxLatencyMs with
  | none | some limit =>
      simp only [checks, responseErrors_eq, messages_congr status, map_eq_pure_bind, bind_assoc,
        pure_bind]

theorem step_eq_observe (harnessed : executor.harness = contract.harness host) :
    executor.step rawStep phase vars deadline =
      contract.observe executor rawStep vars deadline >>= fun seen =>
        pure (report rawStep phase seen) := by
  have requests : executor.harness.request = contract.request := by
    rw [harnessed]
    rfl
  unfold CaseExecutor.step observe
  rw [bind_assoc]
  apply bind_congr
  intro started
  cases rendered : executor.harness.render vars rawStep with
  | error raised => exact raisedResult_eq started {} raised
  | ok step =>
      have keeps : renderStep host contract.library.repr vars rawStep = .ok step := by
        rw [harnessed] at rendered
        exact rendered
      obtain ⟨_, _, status, latency, _⟩ := of_renderStep keeps
      dsimp only
      rw [requests, request_eq]
      cases contract.requestFinding step with
      | error raised => exact raisedResult_eq started {} raised
      | ok found =>
          obtain ⟨method, path, finding⟩ := found
          have failures : (if step.allowInvalidRequest = true then [] else finding.messages) ≠ [] ↔
              step.allowInvalidRequest = false ∧ finding.messages ≠ [] := by
            cases step.allowInvalidRequest <;> simp
          change (if (if step.allowInvalidRequest = true then [] else finding.messages) ≠ [] then _
              else _) =
            (if step.allowInvalidRequest = false ∧ finding.messages ≠ [] then _ else _) >>= _
          by_cases violated : step.allowInvalidRequest = false ∧ finding.messages ≠ []
          · rw [if_pos (failures.mpr violated), if_pos violated, violated.1]
            rfl
          · rw [if_neg (failures.not.mpr violated), if_neg violated, bind_assoc]
            apply bind_congr
            rintro ⟨progress, outcome⟩
            cases outcome with
            | error raised => exact raisedResult_eq started progress raised
            | ok received =>
                obtain ⟨headers, content⟩ := received
                dsimp only
                rw [bind_assoc]
                apply bind_congr
                intro now
                rw [verdict_eq harnessed status latency]
                cases contract.findResponse executor step (progress.statusCode.getD 0) headers
                    content with
                | error raised => exact raisedResult_eq started progress raised
                | ok finding => rfl

/-! ### What is observed -/

theorem runs_observeRaised {started : Rat} {progress : Progress} {raised : Raised}
    {trace : Execution.Trace} {seen : Observation}
    (run : Runs (observeRaised started progress raised) trace seen) :
    ∃ now, trace = [⟨.monotonic, now⟩] ∧
      seen = ⟨.raised progress raised.type raised.configuration, started, now⟩ := by
  obtain ⟨now, rest, rfl, returned⟩ := runs_query_bind.mp run
  obtain ⟨rfl, rfl⟩ := runs_pure.mp returned
  exact ⟨now, rfl, rfl⟩

/-- Where the findings of a verdict come from. -/
inductive Finds (contract : Contract) (executor : CaseExecutor) (rawStep : Step)
    (vars : Variables) : StepVerdict → Prop
  | raised {progress type configuration} :
      Finds contract executor rawStep vars (.raised progress type configuration)
  | refused {step method path finding}
      (rendered : executor.harness.render vars rawStep = .ok step)
      (found : contract.requestFinding step = .ok (method, path, finding)) :
      Finds contract executor rawStep vars (.refused finding)
  | judged {step progress headers content finding}
      (rendered : executor.harness.render vars rawStep = .ok step)
      (found : contract.findResponse executor step (progress.statusCode.getD 0) headers content =
        .ok finding) :
      Finds contract executor rawStep vars (.judged progress finding)

/-- An observation has a verdict on the rendered step, between the first and the last reading
of the clock. -/
theorem of_runs_observe {trace : Execution.Trace} {seen : Observation}
    (run : Runs (contract.observe executor rawStep vars deadline) trace seen) :
    Finds contract executor rawStep vars seen.verdict ∧
      firstReading trace = some seen.started ∧ lastReading trace = some seen.finished := by
  have ends : ∀ {started now : Rat} {middle : Execution.Trace},
      lastReading (⟨.monotonic, started⟩ :: (middle ++ [⟨.monotonic, now⟩])) = some now := by
    intro started now middle
    exact lastReading_concat (⟨.monotonic, started⟩ :: middle) now
  obtain ⟨started, rest, rfl, prepared⟩ := runs_query_bind.mp run
  split at prepared
  · obtain ⟨now, rfl, rfl⟩ := runs_observeRaised prepared
    exact ⟨.raised, rfl, rfl⟩
  · rename_i step rendered
    split at prepared
    · obtain ⟨now, rfl, rfl⟩ := runs_observeRaised prepared
      exact ⟨.raised, rfl, rfl⟩
    · rename_i method path finding found
      split at prepared
      · obtain ⟨rfl, rfl⟩ := runs_pure.mp prepared
        exact ⟨.refused rendered found, rfl, rfl⟩
      · obtain ⟨before, after, ⟨progress, outcome⟩, rfl, _, judged⟩ := runs_bind.mp prepared
        cases outcome with
        | error raised =>
            obtain ⟨now, rfl, rfl⟩ := runs_observeRaised judged
            exact ⟨.raised, rfl, ends⟩
        | ok received =>
            obtain ⟨now, rest, rfl, decided⟩ := runs_query_bind.mp judged
            split at decided
            · obtain ⟨late, rfl, rfl⟩ := runs_observeRaised decided
              refine ⟨.raised, rfl, ?_⟩
              have last := @ends started late (before ++ [⟨.monotonic, now⟩])
              rwa [List.append_assoc] at last
            · rename_i found
              obtain ⟨rfl, rfl⟩ := runs_pure.mp decided
              exact ⟨.judged rendered found, rfl, ends⟩

/-- The trace of an execution shows a verdict. -/
def Shows (contract : Contract) (executor : CaseExecutor) (rawStep : Step) (vars : Variables)
    (deadline : Rat) (trace : Execution.Trace) (verdict : StepVerdict) : Prop :=
  ∃ started finished,
    Runs (contract.observe executor rawStep vars deadline) trace ⟨verdict, started, finished⟩

/-- The result of an execution is the report of what is observed of it. -/
theorem runs_step_iff (harnessed : executor.harness = contract.harness host)
    {trace : Execution.Trace} {result : StepResult} :
    Runs (executor.step rawStep phase vars deadline) trace result ↔
      ∃ seen, Runs (contract.observe executor rawStep vars deadline) trace seen ∧
        result = report rawStep phase seen := by
  rw [step_eq_observe harnessed, runs_bind]
  constructor
  · rintro ⟨before, after, seen, rfl, observed, returned⟩
    obtain ⟨rfl, rfl⟩ := runs_pure.mp returned
    exact ⟨seen, by rwa [List.append_nil], rfl⟩
  · rintro ⟨seen, observed, rfl⟩
    exact ⟨trace, [], seen, (List.append_nil trace).symm, observed, .done⟩

theorem name_report (seen : Observation) : (report rawStep phase seen).name = rawStep.name := by
  unfold report
  split <;> rfl

/-- The messages of a report are in the family of the contract. -/
theorem diagnostic_of_report (names : contract.library.NamesKeywords)
    (within : ∀ name operation, contract.operation? name = some operation →
      Inherits contract.Within operation)
    {seen : Observation} (finds : Finds contract executor rawStep vars seen.verdict) :
    ∀ message ∈ (report rawStep phase seen).messages,
      contract.Diagnostic rawStep.expect.status
        ((report rawStep phase seen).httpStatus.getD 0) message := by
  obtain ⟨verdict, started, finished⟩ := seen
  cases finds with
  | raised =>
      intro message member
      cases List.mem_singleton.mp member
      exact .raised
  | refused _ found =>
      exact diagnostic_of_requestFinding names (fun operation => within _ operation) found
  | @judged step progress headers content finding _ found =>
      obtain ⟨⟨body, isJson⟩, _, found⟩ := except_bind_eq_ok.mp found
      intro message member
      rcases List.mem_append.mp member with reported | late
      · exact diagnostic_of_responseFinding names (fun operation => within _ operation) found
          message reported
      · unfold latencyErrors at late
        split at late
        · split at late
          · cases List.mem_singleton.mp late
            exact .fixed (by decide)
          · cases late
        · cases late

end Contract

/-- Two executions of one step against one contract whose verdicts and clocks agree have the
same result, with the name of the step as it is in the suite, and with messages from a family
that the document, the expected and the received status fix. -/
theorem value_free_diagnostics {library : Library} {document : List (String × Json)}
    {contract : Contract} (accepted : Contract.init library document = .ok contract)
    {one two : CaseExecutor} {host other : Host} (harnessed : one.harness = contract.harness host)
    (alike : two.harness = contract.harness other) {rawStep : Step} {phase : Phase}
    {vars others : Variables} {deadline limit : Rat} {trace course : Execution.Trace}
    {result outcome : StepResult} {verdict : StepVerdict}
    (run : Runs (one.step rawStep phase vars deadline) trace result)
    (twin : Runs (two.step rawStep phase others limit) course outcome)
    (shown : contract.Shows one rawStep vars deadline trace verdict)
    (same : contract.Shows two rawStep others limit course verdict)
    (begins : firstReading trace = firstReading course)
    (ends : lastReading trace = lastReading course) :
    result = outcome ∧ result.name = rawStep.name ∧
      (contract.library.NamesKeywords → ∀ message ∈ result.messages,
        contract.Diagnostic rawStep.expect.status (result.httpStatus.getD 0) message) := by
  obtain ⟨seen, observed, rfl⟩ := (Contract.runs_step_iff harnessed).mp run
  obtain ⟨viewed, watched, rfl⟩ := (Contract.runs_step_iff alike).mp twin
  obtain ⟨_, _, shown⟩ := shown
  obtain ⟨_, _, same⟩ := same
  obtain ⟨finds, first, last⟩ := Contract.of_runs_observe observed
  obtain ⟨_, start, finish⟩ := Contract.of_runs_observe watched
  cases observed.unique shown
  cases watched.unique same
  rw [first, start] at begins
  rw [last, finish] at ends
  cases begins
  cases ends
  refine ⟨rfl, Contract.name_report _, ?_⟩
  intro names
  refine Contract.diagnostic_of_report names ?_ finds
  intro name operation found
  exact (Contract.heritable_within contract).operation accepted (List.Subset.refl _) found

/-! ### Two executions of one step -/

namespace Sample

def countItem : Contract.Operation where
  method := "GET"
  path := "/items/\x7bid\x7d"
  operation := .obj [("operationId", .str "countItem"), ("responses", .obj [("200", .obj [
    ("headers", .obj [("X-Count", .obj [("schema", .obj [("type", .str "integer")])])])])])]
  params := []

def countDocument : List (String × Json) :=
  [("openapi", .str "3.1.0"),
    ("paths", .obj [(countItem.path, .obj [("get", countItem.operation)])])]

def countContract : Contract where
  library := checking
  document := countDocument
  operations := [(.str "countItem", countItem)]

theorem countContract_init : Contract.init checking countDocument = .ok countContract := by rfl

/-- A step whose path has a secret of the environment. -/
def count : Step where
  name := "count"
  operation := "countItem"
  pathParams := [("id", .str "$\x7benv:ITEM\x7d")]
  expect := { status := 200 }

def hostOf (item : String) : Host := { host with
  environ := fun name => if name = "ITEM" then some item else none }

def counter (item : String) : CaseExecutor where
  harness := countContract.harness (hostOf item)
  baseUrl := "http://test"

def counted (item : String) : Step := { count with pathParams := [("id", .str item)] }

def counting (text : String) (body : Content) : Response where
  statusCode := 200
  headers := [("x-count", text)]
  chunks := [body]

/-- A body that the contract does not have, and a header that is no integer. -/
def countFinding : ResponseFinding := .checked (.uncontracted true) [.present ["type"]] []

def countTrace (item path text : String) (body : Content) : Execution.Trace :=
  [⟨.monotonic, (0 : Rat)⟩, ⟨.leaseValid, true⟩, ⟨.monotonic, (0 : Rat)⟩,
    ⟨.stream ((counter item).request (counted item) "GET" path vars 60),
      Except.ok (counting text body)⟩,
    ⟨.monotonic, (0 : Rat)⟩, ⟨.leaseValid, true⟩, ⟨.monotonic, (0 : Rat)⟩]

theorem runs_readCount (item text : String) (symbol : UInt8) :
    Runs ((counter item).readChunks 60 (counting text [symbol]).failure [] [[symbol]])
      [⟨.monotonic, (0 : Rat)⟩, ⟨.leaseValid, true⟩] (.ok [symbol]) := by
  rw [CaseExecutor.readChunks, if_neg (by simp [counter])]
  refine runs_query_bind.mpr ⟨(0 : Rat), _, rfl, ?_⟩
  rw [if_neg (by norm_num)]
  exact runs_query_bind.mpr ⟨true, [], rfl, .done⟩

theorem runs_sendCount (item path text : String) (symbol : UInt8) :
    Runs ((counter item).send (counted item) "GET" path vars 60 {})
      [⟨.leaseValid, true⟩, ⟨.monotonic, (0 : Rat)⟩,
        ⟨.stream ((counter item).request (counted item) "GET" path vars 60),
          Except.ok (counting text [symbol])⟩,
        ⟨.monotonic, (0 : Rat)⟩, ⟨.leaseValid, true⟩]
      (⟨1, some 200⟩, .ok ([("x-count", text)], [symbol])) := by
  rw [CaseExecutor.send]
  refine runs_query_bind.mpr ⟨true, _, rfl, ?_⟩
  refine runs_query_bind.mpr ⟨(0 : Rat), _, rfl, ?_⟩
  simp only [sub_zero]
  rw [if_neg (by norm_num)]
  refine runs_bind.mpr ⟨[_, _, _], [], (some 200, .ok ([("x-count", text)], [symbol])), rfl, ?_,
    .done⟩
  refine runs_query_bind.mpr ⟨Except.ok (counting text [symbol]), _, rfl, ?_⟩
  exact runs_bind.mpr ⟨[_, _], [], .ok [symbol], rfl, runs_readCount item text symbol, .done⟩

theorem runs_count {item path text : String} {symbol : UInt8}
    (rendered : renderStep (hostOf item) library.repr vars count = .ok (counted item))
    (found : countContract.requestFinding (counted item) = .ok ("GET", path, ⟨[], .absent false⟩))
    (judged : countContract.findResponse (counter item) (counted item) 200 [("x-count", text)]
      [symbol] = .ok countFinding) :
    Runs (countContract.observe (counter item) count vars 60) (countTrace item path text [symbol])
      ⟨.judged ⟨1, some 200⟩ countFinding, 0, 0⟩ := by
  refine runs_query_bind.mpr ⟨(0 : Rat), _, rfl, ?_⟩
  have renders : (counter item).harness.render vars count = .ok (counted item) := rendered
  rw [renders]
  dsimp only
  rw [found]
  dsimp only
  rw [if_neg (by simp [RequestFinding.messages, BodyFinding.messages])]
  refine runs_bind.mpr ⟨[_, _, _, _, _], [_], _, rfl, runs_sendCount item path text symbol, ?_⟩
  refine runs_query_bind.mpr ⟨(0 : Rat), [], rfl, ?_⟩
  have finds : countContract.findResponse (counter item) (counted item)
      ((Progress.mk 1 (some 200)).statusCode.getD 0) [("x-count", text)] [symbol] =
        .ok countFinding := judged
  rw [finds]
  exact .done

theorem rendered_seven : renderStep (hostOf "7") library.repr vars count = .ok (counted "7") := by
  rfl

theorem rendered_eight : renderStep (hostOf "8") library.repr vars count = .ok (counted "8") := by
  rfl

theorem found_seven : countContract.requestFinding (counted "7") =
    .ok ("GET", "/items/7", ⟨[], .absent false⟩) := by rfl

theorem found_eight : countContract.requestFinding (counted "8") =
    .ok ("GET", "/items/8", ⟨[], .absent false⟩) := by rfl

/-- Neither body is JSON, whatever its media type. -/
theorem judged_seven : countContract.findResponse (counter "7") (counted "7") 200
    [("x-count", "many")] [0x41] = .ok countFinding := by
  unfold Contract.findResponse
  cases mediaType [("x-count", "many")] == "application/json" <;> rfl

theorem judged_eight : countContract.findResponse (counter "8") (counted "8") 200
    [("x-count", "lots")] [0x42] = .ok countFinding := by
  unfold Contract.findResponse
  cases mediaType [("x-count", "lots")] == "application/json" <;> rfl

def countResult : StepResult where
  name := "count"
  phase := .test
  status := .failed
  elapsedMs := elapsedMs (0 - 0)
  httpStatus := some 200
  messages := ["response: unexpected body", "response header: schema violation (type)"]

theorem runs_counter {item path text : String} {body : Content}
    (observed : Runs (countContract.observe (counter item) count vars 60)
      (countTrace item path text body) ⟨.judged ⟨1, some 200⟩ countFinding, 0, 0⟩) :
    Runs ((counter item).step count .test vars 60) (countTrace item path text body)
      countResult := by
  have harnessed : (counter item).harness = countContract.harness (hostOf item) := rfl
  exact (Contract.runs_step_iff harnessed).mpr ⟨_, observed, rfl⟩

end Sample

/-- Another secret in the path, another header and another body make no difference. -/
theorem value_free_diagnostics_sample :
    ∃ result outcome,
      Runs ((Sample.counter "7").step Sample.count .test Sample.vars 60)
        (Sample.countTrace "7" "/items/7" "many" [0x41]) result ∧
      Runs ((Sample.counter "8").step Sample.count .test Sample.vars 60)
        (Sample.countTrace "8" "/items/8" "lots" [0x42]) outcome ∧
      result = outcome ∧ result.name = "count" ∧
      (Sample.checking.NamesKeywords → ∀ message ∈ result.messages,
        Sample.countContract.Diagnostic 200 (result.httpStatus.getD 0) message) := by
  have observed := Sample.runs_count Sample.rendered_seven Sample.found_seven Sample.judged_seven
  have watched := Sample.runs_count Sample.rendered_eight Sample.found_eight Sample.judged_eight
  have run := Sample.runs_counter observed
  have twin := Sample.runs_counter watched
  have one : (Sample.counter "7").harness =
      Sample.countContract.harness (Sample.hostOf "7") := rfl
  have two : (Sample.counter "8").harness =
      Sample.countContract.harness (Sample.hostOf "8") := rfl
  exact ⟨_, _, run, twin, value_free_diagnostics Sample.countContract_init one two run twin
    ⟨_, _, observed⟩ ⟨_, _, watched⟩ rfl rfl⟩

end ApiSentinel
