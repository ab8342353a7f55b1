import ApiSentinel.AtomicWrite
import ApiSentinel.Executor

/-!
# The report files

The JSON and the JUnit document of `write_reports`, and the verdicts that a reader finds in
them.  The two serializers of the standard library are parameters.
-/

namespace ApiSentinel

open Program

/-- An element of an XML document. -/
inductive Element
  | mk (tag : String) (attributes : List (String × String)) (text : String)
      (children : List Element)

namespace Element

/-- The tags of an element and of all elements below it, in document order. -/
def tags : Element → List String
  | .mk tag _ _ children => tag :: tagsBelow children
where
  tagsBelow : List Element → List String
    | [] => []
    | child :: children => child.tags ++ tagsBelow children

/-- The number of elements with a tag in a document. -/
def count (tag : String) (element : Element) : Nat := element.tags.count tag

def attribute? (name : String) : Element → Option String
  | .mk _ attributes _ _ => attributes.lookup name

theorem tagsBelow_eq_flatMap (children : List Element) :
    tags.tagsBelow children = children.flatMap tags := by
  induction children with
  | nil => rfl
  | cons child children ih => rw [tags.tagsBelow, ih, List.flatMap_cons]

end Element

/-! ### The JSON document -/

def Status.value : Status → String
  | .passed => "passed"
  | .failed => "failed"
  | .error => "error"

def Phase.value : Phase → String
  | .setup => "setup"
  | .test => "test"
  | .teardown => "teardown"

def Mode.value : Mode → String
  | .local => "local"
  | .distributed => "distributed"

def optional (text : Option String) : Json := (text.map Json.str).getD .null

/-- `StepResult.model_dump()` -/
def StepResult.dump (step : StepResult) : Json :=
  .obj [("name", .str step.name), ("phase", .str step.phase.value),
    ("status", .str step.status.value), ("elapsed_ms", .float step.elapsedMs),
    ("http_status", (step.httpStatus.map Json.int).getD .null), ("attempts", .int step.attempts),
    ("messages", .arr (step.messages.map .str))]

/-- `CaseResult.model_dump()` -/
def CaseResult.dump (result : CaseResult) : Json :=
  .obj [("case_id", .str result.caseId), ("status", .str result.status.value),
    ("elapsed_ms", .float result.elapsedMs), ("worker_id", .str result.workerId),
    ("delivery", .int result.delivery), ("steps", .arr (result.steps.map StepResult.dump)),
    ("message", optional result.message)]

namespace RunReport

variable (report : RunReport)

/-- `sum(r.status == status for r in report.results)` -/
def total (status : Status) : Nat := report.results.countP (fun result => result.status == status)

/-- `report.model_dump()` -/
def dump : List (String × Json) :=
  [("run_id", .str report.runId), ("suite", .str report.suite), ("mode", .str report.mode.value),
    ("elapsed_ms", .float report.elapsedMs), ("expected", .int report.expected),
    ("results", .arr (report.results.map CaseResult.dump)),
    ("infrastructure_error", optional report.infrastructureError)]

def summary : List (String × Json) :=
  [("passed", .int (report.total .passed)), ("failed", .int (report.total .failed)),
    ("errors", .int (report.total .error)), ("exit_code", .int report.exitCode)]

/-- The document of `results.json`. -/
def data : List (String × Json) := report.dump ++ [("summary", .obj report.summary)]

end RunReport

/-! ### The JUnit document -/

/-- `re.sub(r"[\x00-\x08\x0b\x0c\x0e-\x1f\ud800-\udfff\ufffe\uffff]", "", value)` -/
def xmlText (value : String) : String :=
  String.ofList (value.toList.filter (fun symbol =>
    !(symbol.toNat ≤ 0x08 || symbol.toNat == 0x0B || symbol.toNat == 0x0C ||
      (0x0E ≤ symbol.toNat && symbol.toNat ≤ 0x1F) ||
      (0xD800 ≤ symbol.toNat && symbol.toNat ≤ 0xDFFF) ||
      symbol.toNat == 0xFFFE || symbol.toNat == 0xFFFF)))

/-- `f"{milliseconds / 1000:.6f}"` -/
def seconds (milliseconds : Rat) : String :=
  let micros := (roundHalfEven (|milliseconds| * 1000)).toNat
  let digits := Nat.toDigits 10 (micros % 1000000)
  (if milliseconds < 0 then "-" else "") ++ toString (micros / 1000000) ++ "." ++
    String.ofList (List.replicate (6 - digits.length) '0' ++ digits)

/-- What is said of a case that has not passed. -/
def CaseResult.explanation (result : CaseResult) : String :=
  let messages := (result.steps.filter (fun step => step.status != .passed)).map (fun step =>
    step.phase.value ++ "/" ++ step.name ++ ": " ++ "; ".intercalate step.messages)
  let joined := "\n".intercalate messages
  xmlText (if truthy result.message then result.message.getD ""
    else if joined ≠ "" then joined else result.status.value)

/-- The element inside the `testcase` of a case that has not passed. -/
def CaseResult.outcomes (result : CaseResult) : List Element :=
  if result.status = .passed then []
  else
    [.mk (if result.status = .error then "error" else "failure")
      [("message", String.ofList (result.explanation.toList.take 500))] result.explanation []]

def CaseResult.testcase (suite : String) (result : CaseResult) : Element :=
  .mk "testcase" [("classname", xmlText suite), ("name", result.caseId),
    ("time", seconds result.elapsedMs)] "" result.outcomes

namespace RunReport

variable (report : RunReport)

def properties : Element :=
  .mk "properties" [] ""
    ([("run_id", report.runId), ("mode", report.mode.value),
      ("expected", toString report.expected),
      ("infrastructure_error", report.infrastructureError.getD "")].map (fun entry =>
        .mk "property" [("name", entry.1), ("value", xmlText entry.2)] "" []))

/-- `sorted(report.results, key=lambda r: r.case_id)` -/
def sortedResults : List CaseResult :=
  report.results.mergeSort (fun result other => result.caseId ≤ other.caseId)

/-- The document of `junit.xml`. -/
def junit : Element :=
  .mk "testsuite" [("name", xmlText report.suite), ("tests", toString report.results.length),
    ("failures", toString (report.total .failed)), ("errors", toString (report.total .error)),
    ("time", seconds report.elapsedMs)] ""
    (report.properties :: report.sortedResults.map (CaseResult.testcase report.suite))

end RunReport

/-! ### Writing -/

structure Serializers where
  /-- `json.dumps(data, indent=2)` -/
  dumps : Json → String
  /-- `ET.tostring(root, encoding="unicode")` -/
  tostring : Element → String

def resultsPath (directory : String) : FilePath := ⟨directory, "results.json"⟩

def junitPath (directory : String) : FilePath := ⟨directory, "junit.xml"⟩

def writeReports (serializers : Serializers) (report : RunReport) (directory : String) :
    FileProgram (Except Raised Unit) :=
  (atomicWrite (resultsPath directory) (serializers.dumps (.obj report.data) ++ "\n")).andThen
    fun () => atomicWrite (junitPath directory) (serializers.tostring report.junit ++ "\n")

/-- If `write_reports` returns, the two files have exactly the two documents.  All other
files are as before. -/
theorem writeReports_files {serializers : Serializers} {report : RunReport} {directory : String}
    {disk final : Disk} {states : List Disk}
    (execution : Executes MayPerform (writeReports serializers report directory) disk states
      (.ok ()) final) :
    final.files = Function.update (Function.update disk.files (resultsPath directory)
        (some (utf8 (serializers.dumps (.obj report.data) ++ "\n"))))
      (junitPath directory) (some (utf8 (serializers.tostring report.junit ++ "\n"))) := by
  have written : Keeps MayPerform (fun _ => True)
      (fun outcome after => outcome = .ok () → after.files =
        Function.update (Function.update disk.files (resultsPath directory)
          (some (utf8 (serializers.dumps (.obj report.data) ++ "\n"))))
        (junitPath directory) (some (utf8 (serializers.tostring report.junit ++ "\n"))))
      (writeReports serializers report directory) disk := by
    have returned (before : Disk) (path : FilePath) (contents : String) :
        Keeps MayPerform (fun _ => True)
          (fun outcome after => outcome = .ok () →
            after.files = Function.update before.files path (some (utf8 contents)))
          (atomicWrite path contents) before := by
      refine (atomicWrite_may_keep before path contents).mono (fun _ _ => trivial) ?_
      rintro outcome after (settled | ⟨⟨raised, rfl⟩, _⟩) same
      · subst same
        exact settled
      · cases same
    refine (returned disk _ _).andThen ?_ nofun
    intro _ after first
    refine (returned after _ _).mono (fun _ _ => trivial) ?_
    rintro outcome last second same
    rw [second same, first rfl]
  exact (written.of_executes execution).2 rfl

end ApiSentinel
