import ApiSentinel.Reporting
import ApiSentinel.Verdicts

/-!
# The verdicts of the report files

The exit code, the JSON summary and the JUnit document each say whether a run has passed.
Only the exit code looks at the infrastructure error.
-/

namespace ApiSentinel

open Redis

/-! ### What a reader finds -/

/-- The summary has no failures and no errors, and as many passed cases as are expected. -/
def JsonGreen (data : List (String × Json)) : Prop :=
  ∃ summary passed, data.lookup "summary" = some (.obj summary) ∧
    summary.lookup "failed" = some (.int 0) ∧ summary.lookup "errors" = some (.int 0) ∧
    summary.lookup "passed" = some passed ∧ data.lookup "expected" = some passed

/-- The document has no `failure` and no `error` element, and as many tests as are
expected. -/
def JunitGreen (root : Element) (expected : Nat) : Prop :=
  root.count "failure" = 0 ∧ root.count "error" = 0 ∧
    root.attribute? "tests" = some (toString expected)

/-- The counts of the summary add up, and the attributes of the JUnit document count its
elements. -/
structure Consistent (report : RunReport) : Prop where
  counts : ∃ passed failed errors : Nat, report.summary.lookup "passed" = some (.int passed) ∧
    report.summary.lookup "failed" = some (.int failed) ∧
    report.summary.lookup "errors" = some (.int errors) ∧
    passed + failed + errors = report.results.length
  tests : report.junit.attribute? "tests" = some (toString (report.junit.count "testcase"))
  failures : report.junit.attribute? "failures" = some (toString (report.junit.count "failure"))
  errors : report.junit.attribute? "errors" = some (toString (report.junit.count "error"))

/-- The exit code is 0 just if the one document is green, and just if the other one is. -/
structure Agrees (report : RunReport) : Prop where
  json : report.exitCode = 0 ↔ JsonGreen report.data
  junit : report.exitCode = 0 ↔ JunitGreen report.junit report.expected

/-! ### Counting -/

/-- The tags that a case adds to the document. -/
def CaseResult.tags (result : CaseResult) : List String :=
  "testcase" :: match result.status with
    | .passed => []
    | .failed => ["failure"]
    | .error => ["error"]

theorem tags_testcase (suite : String) (result : CaseResult) :
    (result.testcase suite).tags = result.tags := by
  unfold CaseResult.testcase CaseResult.outcomes CaseResult.tags
  cases result.status <;> rfl

namespace RunReport

variable (report : RunReport)

/-- The order of the cases does not matter to a count. -/
theorem count_junit (tag : String)
    (other : tag ∉ ["testsuite", "properties", "property"]) :
    report.junit.count tag = (report.results.flatMap CaseResult.tags).count tag := by
  have sorted : report.sortedResults.Perm report.results := List.mergeSort_perm _ _
  have cases : Element.tags.tagsBelow
        (report.sortedResults.map (CaseResult.testcase report.suite)) =
      report.sortedResults.flatMap CaseResult.tags := by
    rw [Element.tagsBelow_eq_flatMap, List.flatMap_map]
    exact List.flatMap_congr fun result _ => tags_testcase report.suite result
  have tags : report.junit.tags =
      ["testsuite", "properties", "property", "property", "property", "property"] ++
        report.sortedResults.flatMap CaseResult.tags := by
    rw [← cases]
    rfl
  simp only [List.mem_cons, List.not_mem_nil, or_false, not_or] at other
  have before : (["testsuite", "properties", "property", "property", "property",
      "property"] : List String).count tag = 0 := by
    rw [List.count_eq_zero]
    simp [other]
  rw [Element.count, tags, List.count_append, before, Nat.zero_add]
  exact (sorted.flatMap_right CaseResult.tags).count_eq tag

/-- A tag that each of some cases adds once, and no other case. -/
theorem count_eq_countP {tag : String} (other : tag ∉ ["testsuite", "properties", "property"])
    {adds : CaseResult → Bool}
    (each : ∀ result : CaseResult, result.tags.count tag = if adds result then 1 else 0) :
    report.junit.count tag = report.results.countP adds := by
  rw [count_junit _ _ other]
  induction report.results with
  | nil => rfl
  | cons result results ih =>
      rw [List.flatMap_cons, List.count_append, ih, List.countP_cons, each, Nat.add_comm]

theorem count_testcase : report.junit.count "testcase" = report.results.length := by
  have all : report.junit.count "testcase" = report.results.countP fun _ => true := by
    refine report.count_eq_countP (by decide) fun result => ?_
    unfold CaseResult.tags
    cases result.status <;> rfl
  rw [all, List.countP_true]

theorem count_failure : report.junit.count "failure" = report.total .failed := by
  refine report.count_eq_countP (by decide) fun result => ?_
  unfold CaseResult.tags
  cases result.status <;> rfl

theorem count_error : report.junit.count "error" = report.total .error := by
  refine report.count_eq_countP (by decide) fun result => ?_
  unfold CaseResult.tags
  cases result.status <;> rfl

theorem total_add_total :
    report.total .passed + report.total .failed + report.total .error =
      report.results.length := by
  unfold total
  induction report.results with
  | nil => rfl
  | cons result results ih =>
      rw [List.countP_cons, List.countP_cons, List.countP_cons, List.length_cons, ← ih]
      cases result.status <;> simp <;> omega

theorem total_eq_zero_iff {status : Status} :
    report.total status = 0 ↔ ∀ result ∈ report.results, result.status ≠ status := by
  unfold total
  rw [List.countP_eq_zero]
  simp

end RunReport

theorem consistent (report : RunReport) : Consistent report where
  counts := ⟨_, _, _, rfl, rfl, rfl, report.total_add_total⟩
  tests := by
    rw [report.count_testcase]
    rfl
  failures := by
    rw [report.count_failure]
    rfl
  errors := by
    rw [report.count_error]
    rfl

/-! ### The verdicts -/

/-- Every case has passed. -/
def AllPassed (report : RunReport) : Prop := ∀ result ∈ report.results, result.status = .passed

section Complete

variable {report : RunReport}

theorem allPassed_iff :
    AllPassed report ↔ report.total .failed = 0 ∧ report.total .error = 0 := by
  rw [report.total_eq_zero_iff, report.total_eq_zero_iff]
  constructor
  · intro passed
    exact ⟨fun result member => by rw [passed result member]; decide,
      fun result member => by rw [passed result member]; decide⟩
  · rintro ⟨failed, error⟩ result member
    cases status : result.status with
    | passed => rfl
    | failed => exact absurd status (failed result member)
    | error => exact absurd status (error result member)

variable (complete : report.results.length = report.expected)

include complete

theorem jsonGreen_iff : JsonGreen report.data ↔ AllPassed report := by
  rw [allPassed_iff]
  constructor
  · rintro ⟨summary, passed, found, failed, errors, _⟩
    cases found
    have noFailures : Json.int (report.total .failed) = .int 0 := Option.some.inj failed
    have noErrors : Json.int (report.total .error) = .int 0 := Option.some.inj errors
    exact ⟨by simpa using noFailures, by simpa using noErrors⟩
  · rintro ⟨failed, error⟩
    have sum := report.total_add_total
    have passed : report.total .passed = report.expected := by omega
    refine ⟨report.summary, .int report.expected, rfl, ?_, ?_, ?_, rfl⟩
    · exact congrArg (fun count : Nat => some (Json.int count)) failed
    · exact congrArg (fun count : Nat => some (Json.int count)) error
    · exact congrArg (fun count : Nat => some (Json.int count)) passed

theorem junitGreen_iff : JunitGreen report.junit report.expected ↔ AllPassed report := by
  have tests : report.junit.attribute? "tests" = some (toString report.expected) := by
    rw [← complete]
    rfl
  rw [allPassed_iff, JunitGreen, report.count_failure, report.count_error]
  simp [tests]

theorem exitCode_eq_zero_iff :
    report.exitCode = 0 ↔ truthy report.infrastructureError = false ∧ AllPassed report := by
  have anyError : report.results.any (fun result => result.status == .error) = false ↔
      report.total .error = 0 := by
    rw [report.total_eq_zero_iff]
    simp
  have anyFailed : report.results.any (fun result => result.status == .failed) = false ↔
      report.total .failed = 0 := by
    rw [report.total_eq_zero_iff]
    simp
  rw [allPassed_iff, ← anyError, ← anyFailed]
  unfold RunReport.exitCode
  cases truthy report.infrastructureError <;>
    cases report.results.any (fun result => result.status == .error) <;>
    cases report.results.any (fun result => result.status == .failed) <;> simp [complete]

/-- The documents are consistent.  The exit code agrees with them exactly if there is no
infrastructure error or some case has not passed. -/
theorem verdicts_agree_iff : Consistent report ∧
    (Agrees report ↔ (truthy report.infrastructureError = false ∨
      ∃ result ∈ report.results, result.status ≠ .passed)) := by
  refine ⟨consistent report, ?_⟩
  have code := exitCode_eq_zero_iff complete
  have json := jsonGreen_iff complete
  have junit := junitGreen_iff complete
  have some : (∃ result ∈ report.results, result.status ≠ .passed) ↔ ¬ AllPassed report := by
    simp [AllPassed]
  rw [some]
  constructor
  · intro agrees
    have both := code.symm.trans (agrees.json.trans json)
    by_cases passed : AllPassed report
    · exact .inl (both.mpr passed).1
    · exact .inr passed
  · intro condition
    have both : report.exitCode = 0 ↔ AllPassed report := by
      rw [code]
      exact ⟨And.right, fun passed => ⟨condition.resolve_right (not_not.mpr passed), passed⟩⟩
    exact ⟨both.trans json.symm, both.trans junit.symm⟩

end Complete

/-! ### The reports of distributed runs -/

section Reached

variable {Text : Type} {codec : Codec Text} {call : Coordination}
  {produced : Job → CaseResult → Prop} {micros : Int} {start : Db Text} {seconds : Rat}
  {steps : Nat} {system : System Text} {report : RunReport}

/-- The report of a distributed run has one entry for each case.  The verdicts disagree just
if a call of the coordinator has failed although every case has passed. -/
theorem verdicts_agree_distributed (started : Started codec micros call.submission start)
    (reached : Reaches codec call produced start seconds steps system)
    (returned : system.coordinator.point = .returned report) :
    report.results.length = report.expected ∧
      (Agrees report ↔ ¬ (system.failed = true ∧ AllPassed report)) := by
  obtain ⟨timed, created⟩ := started.created
  obtain ⟨told, collected, planned, now, rfl⟩ := reached.concluded created returned
  have complete : (call.report system.coordinator.results system.coordinator.error
      now).results.length = call.suite.cases.length := by
    have ids := (padded_perm system.coordinator.error collected planned).length_eq
    rwa [List.length_map, List.length_map] at ids
  refine ⟨complete, ?_⟩
  rw [(verdicts_agree_iff complete).2]
  have error : (call.report system.coordinator.results system.coordinator.error
      now).infrastructureError = system.coordinator.error := rfl
  rw [error]
  rcases told with ⟨none, answered, _⟩ | ⟨noted, failed | incomplete⟩
  · simp [none, answered, truthy]
  · simp [noted, failed, AllPassed]
  · obtain ⟨case, member, missing⟩ := (missing_iff collected planned).mp incomplete
    have entry : missingResult system.coordinator.error case ∈
        padded call.suite system.coordinator.error system.coordinator.results :=
      mem_padded.mpr (.inr ⟨case, member, (collected.missing_iff case.id).mpr missing, rfl⟩)
    have unpassed : (missingResult system.coordinator.error case).status ≠ .passed := by
      intro same
      cases same
    have other : ∃ result ∈ padded call.suite system.coordinator.error
        system.coordinator.results, result.status ≠ .passed := ⟨_, entry, unpassed⟩
    have refuted : ¬ AllPassed (call.report system.coordinator.results system.coordinator.error
        now) := fun passed => unpassed (passed _ entry)
    exact iff_of_true (.inr other) (fun both => refuted both.2)

end Reached

/-! ### A run that is not closed -/

namespace Sample

/-- The worker completes the sample case, the coordinator reads its result, and then finds
Redis unavailable when it closes the run. -/
theorem reaches_unclosed : ∃ system,
    Reaches Codec.plain coordination (coordination.executedBy {worker}) start 0 3 system ∧
      system.coordinator.point =
        .returned (coordination.report [result] (some closingMessage) 5) := by
  have failed := reaches_observed.coordinator
    (@CoordinatorStep.closeFailed _ _ _ _ _ rfl (.inl rfl))
  have returned := failed.coordinator (@CoordinatorStep.returned _ _ _ _ 5 rfl (by decide))
  exact ⟨_, returned, rfl⟩

end Sample

/-- Without an infrastructure error the verdicts on the sample agree. -/
theorem verdicts_agree_iff_sample :
    Agrees (Sample.coordination.report [Sample.result] none 5) :=
  (@verdicts_agree_iff (Sample.coordination.report [Sample.result] none 5) rfl).2.mpr (.inl rfl)

/-- The coordinator can return a report with exit code 2 whose documents are both green. -/
theorem verdicts_agree_counterexample :
    ∃ system report,
      Reaches Codec.plain Sample.coordination (Sample.coordination.executedBy {Sample.worker})
        Sample.start 0 3 system ∧
      system.coordinator.point = .returned report ∧ report.results.length = report.expected ∧
      report.exitCode = 2 ∧ JsonGreen report.data ∧ JunitGreen report.junit report.expected := by
  obtain ⟨system, reached, returned⟩ := Sample.reaches_unclosed
  have passed : AllPassed (Sample.coordination.report [Sample.result] (some closingMessage) 5) := by
    intro result member
    cases List.mem_singleton.mp member
    rfl
  exact ⟨system, _, reached, returned, rfl, rfl, (jsonGreen_iff rfl).mpr passed,
    (junitGreen_iff rfl).mpr passed⟩

end ApiSentinel
