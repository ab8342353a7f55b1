import ApiSentinel.Invocations

/-!
# What a command means

With exit code 0 a run has executed every case of the suite that it was given in full, with
every step passed, by the contract that it was given and at its target, and both report files
say so, whether it ran here or on any number of workers.
-/

namespace ApiSentinel

open Program Redis UrlSyntax

/-- The calls that neither execute cases nor read or write files. -/
def Deed.plain : Deed → Bool
  | .readText _ | .distributedRun _ _ | .runLocal _ | .writeReports _ _ => false
  | _ => true

/-- A case was executed in full, with every step passed, under a contract that allows its
suite. -/
structure PassedBy (library : Library) (host : Host)
    (checkNetloc : List Char → Except Raised Unit) (document : List (String × Json))
    (suite : Suite) (baseUrl runId : String) (case : Case) (contract : Contract)
    (executor : CaseExecutor) (trace : Execution.Trace) (result : CaseResult) : Prop where
  made : Contract.init library document = .ok contract
  fits : contract.validateSuite suite = .ok ()
  harness : executor.harness = contract.harness host
  seed : executor.seed = suite.seed
  target : validateBaseUrl checkNetloc baseUrl = .ok executor.baseUrl
  ran : ∃ workerId delivery, Runs (executor.run case runId workerId delivery) trace result ∧
    List.Forall₂ (fun step outcome =>
        Executed executor (executor.variablesOf case runId delivery) trace step outcome ∧
          outcome.status = .passed)
      case.phased result.steps

/-- The coordinator's machine, with the texts of its configuration files, and its workers. -/
structure Deployment (Text : Type) where
  installation : Installation
  texts : String → Option String
  serializers : Serializers
  codec : Codec Text
  platforms : Nat → Platform Text
  workers : Nat → WorkerOptions
  loads : ∀ name plan, plan.printable = true →
    (platforms name).loads (codec.dumpPlan plan) = .ok plan.dump

namespace Deployment

variable {Text : Type} (deployment : Deployment Text)

/-- What a case was executed by: this process, or a worker, which reads null for NaN and for an
infinity. -/
def Passed (document : List (String × Json)) (suite : Suite) (baseUrl runId : String)
    (case : Case) (result : CaseResult) : Prop :=
  ∃ contract executor trace,
    PassedBy deployment.installation.library deployment.installation.host
        deployment.installation.checkNetloc document suite baseUrl runId case contract executor
        trace result ∨
      ∃ name, PassedBy (deployment.platforms name).library (deployment.platforms name).host
        (deployment.platforms name).checkNetloc document suite baseUrl runId case.written
        contract executor trace result

/-- The calls of a command on a disk that they share. -/
inductive Performs : Behaviour Deed Deed.Reply Disk
  | read {disk path text} (holds : deployment.texts path = some text) :
      Performs disk (.readText path) (.ok text) disk
  | unread {disk path stop} : Performs disk (.readText path) (.error stop) disk
  | distributed {disk queue call micros seconds start fleet report}
      (same : call.queue = queue)
      (started : Started deployment.codec micros call.submission start)
      (operating : Operating deployment.codec call deployment.platforms deployment.workers start
        micros seconds fleet)
      (returned : fleet.cluster.system.coordinator.point = .returned report) :
      Performs disk (.distributedRun queue call.submission) (.ok report) disk
  | undistributed {disk queue submission stop} :
      Performs disk (.distributedRun queue submission) (.error stop) disk
  | ranHere {disk run results} (ends : run.Ends (.ok results)) :
      Performs disk (.runLocal run) (.ok results) disk
  | notRan {disk run stop} : Performs disk (.runLocal run) (.error stop) disk
  | written {disk report directory states outcome final} {stop : Raised → Stop}
      (execution : Executes MayPerform
        (writeReports deployment.serializers report directory) disk states outcome final) :
      Performs disk (.writeReports report directory) (outcome.mapError stop) final
  | other {disk deed reply} (plain : deed.plain = true) : Performs disk deed reply disk

/-- What the two report files have to be after a run. -/
structure Reported (report : RunReport) (directory : String) (disk : Disk) : Prop where
  json : disk.files (resultsPath directory) =
    some (utf8 (deployment.serializers.dumps (.obj report.data) ++ "\n"))
  junit : disk.files (junitPath directory) =
    some (utf8 (deployment.serializers.tostring report.junit ++ "\n"))

/-- The text of a configuration file. -/
def Written (path written : String) : Prop := deployment.texts path = some written

/-- The suite and the contract of the files, which fit. -/
abbrev Proper (suite contract : String) (checked : Installation.Checked) : Prop :=
  deployment.installation.Proper deployment.Written suite contract checked

/-- A report of passed cases. -/
def Green (document : List (String × Json)) (suite : Suite) (baseUrl : String)
    (report : RunReport) : Prop :=
  report.exitCode = 0 → ∀ case ∈ suite.cases, ∃ result ∈ report.results,
    deployment.Passed document suite baseUrl report.runId case result

/-- What a run that returns a code has done. -/
def Done (args : RunArguments) (code : Nat) (disk : Disk) : Prop :=
  ∃ checked baseUrl report, deployment.Proper args.suite args.contract checked ∧
    validateBaseUrl deployment.installation.checkNetloc args.connection.baseUrl = .ok baseUrl ∧
    report.exitCode = code ∧ deployment.Reported report args.reportDir disk ∧
    deployment.Green checked.document checked.suite baseUrl report

variable {deployment} {disk : Disk}

/-! ### Checking -/

theorem returns_attempt {Value : Type} (outcome : Except Raised Value) :
    Returns deployment.Performs (fun value => outcome = .ok value) (attempt outcome) disk := by
  refine returns_pure fun result same => ?_
  cases outcome with
  | ok value => exact congrArg _ (Except.ok.inj same)
  | error raised => cases same

theorem returns_true {Value : Type} (program : CliProgram (Except Stop Value)) :
    Returns deployment.Performs (fun _ => True) program disk :=
  (keeps_true program disk).mono (fun _ => id) fun _ _ _ _ _ => trivial

theorem reader :
    Installation.Reader deployment.Performs (fun _ => True) (fun _ => deployment.Written) where
  stat _ _ := trivial
  readText _ _ := trivial
  kept _ := id
  read answered := by
    cases answered with
    | read holds => exact holds
    | other plain => cases plain

theorem returns_check (suite contract : String) :
    Returns deployment.Performs (deployment.Proper suite contract)
      (deployment.installation.check suite contract) disk :=
  reader.check suite contract trivial

/-! ### Running -/

theorem ne_empty_of_validated {checkNetloc : List Char → Except Raised Unit}
    {value result : String} (validated : validateBaseUrl checkNetloc value = .ok result) :
    result ≠ "" := by
  obtain ⟨_, ⟨schemed, _⟩, stripped⟩ := validateBaseUrlBy_eq_ok_iff.mp validated
  rintro rfl
  have slashes := List.rdropWhile_eq_nil_iff.mp stripped.symm
  have colon : ':' ∈ value.toList := by
    by_contra none
    have schemeless : (pythonSplit value.toList).scheme = [] := by
      simp [pythonSplit, urlsplit, splitScheme, mt mem_of_mem_cleaned none]
    rw [schemeless] at schemed
    rcases schemed with same | same <;> cases same
  have slash := slashes _ colon
  simp at slash

theorem passed_of_fleet {call : Coordination} {micros : Int} {seconds : Rat} {start : Db Text}
    {fleet : Fleet Text} {report : RunReport} {document : List (String × Json)}
    {baseUrl : String} (started : Started deployment.codec micros call.submission start)
    (operating : Operating deployment.codec call deployment.platforms deployment.workers start
      micros seconds fleet)
    (returned : fleet.cluster.system.coordinator.point = .returned report)
    (green : report.exitCode = 0) (valid : call.suite.Valid)
    (contract : call.contract = .obj document) (url : call.baseUrl = some baseUrl)
    (given : baseUrl ≠ "") {case : Case} (member : case ∈ call.suite.cases) :
    ∃ result ∈ report.results,
      deployment.Passed document call.suite baseUrl report.runId case result := by
  obtain ⟨timed, created⟩ := started.created
  have loads := fun name => deployment.loads name call.submission.plan timed.printable
  obtain ⟨steps, reached⟩ := (operating.duly started loads).reaches
  obtain ⟨acceptance, _, same, _, listed, name, crew, trace, works, passes⟩ :=
    passes_of_green started loads valid operating returned green member
  obtain ⟨_, _, _, now, rfl⟩ := reached.concluded created returned
  obtain ⟨members, opened, read, made, fits, harness⟩ := works.contract
  obtain rfl := Json.obj.inj (contract.symm.trans read)
  rw [Worker.Passes, Worker.Executes, same] at passes
  exact ⟨acceptance.result, listed, opened, crew.worker.executor, trace, .inr ⟨name, {
    made, fits, harness
    seed := works.seed
    target := works.planned baseUrl url given
    ran := ⟨crew.worker.workerId, acceptance.job.delivery, passes⟩ }⟩⟩

theorem returns_distribute (args : RunArguments) {checked : Installation.Checked}
    {baseUrl : String} (proper : deployment.Proper args.suite args.contract checked)
    (given : baseUrl ≠ "") (runId : String) :
    Returns deployment.Performs
      (deployment.Green checked.document checked.suite baseUrl)
      (Installation.distribute args checked baseUrl runId) disk := by
  refine (returns_true _).andThen fun _ _ _ => Returns.tryFinally ?_
  refine (returns_true _).andThen fun queue _ _ => ?_
  refine keeps_query trivial fun answer after answered => ⟨trivial, ?_⟩
  rintro report rfl green case member
  generalize sent : Installation.submission args checked baseUrl = submission at answered
  cases answered with
  | @distributed _ _ call micros seconds start fleet _ same started operating returned =>
      simp only [Coordination.submission, Installation.submission, Submission.mk.injEq] at sent
      obtain ⟨suite, contract, _, _, _, url, _⟩ := sent
      rw [suite] at member ⊢
      exact passed_of_fleet started operating returned green (suite ▸ proper.valid)
        contract.symm url.symm given member
  | other plain => cases plain

theorem passed_of_local {run : LocalRun} {results : List CaseResult} (ends : run.Ends (.ok results))
    {seconds : Rat} (green : (run.report results seconds).exitCode = 0) {case : Case}
    (member : case ∈ run.suite.cases) :
    ∃ executor, run.executor = .ok executor ∧ ∃ result ∈ results, ∃ trace,
      Runs (executor.run case run.runId "local" 1) trace result ∧ result.status = .passed := by
  cases ends with
  | @returned executor pool made reached all =>
      have executed := LocalRun.results_of_reached reached all
      obtain ⟨_, passed⟩ := (exitCode_eq_zero_iff
        (show (run.report pool.results seconds).results.length = _ from all)).mp green
      obtain ⟨index, below, rfl⟩ := List.getElem_of_mem member
      have here : index < pool.results.length := all ▸ below
      obtain ⟨trace, _, runs⟩ := executed.get below here
      exact ⟨executor, made, _, List.getElem_mem here, trace, runs,
        passed _ (List.getElem_mem here)⟩

theorem returns_runHere (args : RunArguments) {checked : Installation.Checked}
    (proper : deployment.Proper args.suite args.contract checked) (baseUrl runId : String) :
    Returns deployment.Performs
      (deployment.Green checked.document checked.suite baseUrl)
      (deployment.installation.runHere args checked baseUrl runId) disk := by
  refine returns_bind fun started after => ?_
  have ran : Returns deployment.Performs
      (fun results => (deployment.installation.localRun args checked baseUrl runId).Ends
        (.ok results))
      (does (.runLocal (deployment.installation.localRun args checked baseUrl runId))) after := by
    refine keeps_query trivial fun answer final answered => ⟨trivial, ?_⟩
    rintro results rfl
    cases answered with
    | ranHere ends => exact ends
    | other plain => cases plain
  refine ran.andThen fun results later ends => ?_
  refine returns_bind fun finished _ => returns_pure fun report same => ?_
  obtain rfl := Except.ok.inj same
  intro green case member
  obtain ⟨executor, made, result, listed, trace, runs, passed⟩ :=
    passed_of_local ends green member
  obtain ⟨harness, seed, target⟩ := of_init made
  exact ⟨result, listed, checked.contract, executor, trace, .inl {
    made := proper.made
    fits := proper.fits
    harness, seed, target
    ran := ⟨"local", 1, runs, (run_executed runs).2.2.2.2 passed⟩ }⟩

/-- The files after the reports are written. -/
theorem keeps_writeReports (report : RunReport) (directory : String) :
    Keeps deployment.Performs (fun _ => True)
      (fun outcome after => outcome = .ok () → deployment.Reported report directory after)
      (does (.writeReports report directory)) disk := by
  refine keeps_query trivial fun answer after answered => ⟨trivial, ?_⟩
  rintro rfl
  generalize same : Except.ok () = reply at answered
  cases answered with
  | @written _ _ _ states outcome _ _ execution =>
      cases outcome with
      | error raised => cases same
      | ok value =>
          have files := writeReports_files execution
          constructor
          · rw [files, Function.update_of_ne (by simp [resultsPath, junitPath]),
              Function.update_self]
          · rw [files, Function.update_self]
  | other plain => cases plain

/-- A line on the standard output leaves the files as they are. -/
theorem keeps_print (line : List (String × Json)) {files : Disk → Prop} (kept : files disk) :
    Keeps deployment.Performs (fun _ => True) (fun _ after => files after)
      (does (.print line)) disk := by
  refine keeps_query trivial fun _ after answered => ⟨trivial, ?_⟩
  cases answered with
  | other plain => exact kept

theorem keeps_run (args : RunArguments) :
    Keeps deployment.Performs (fun _ => True)
      (fun outcome after => ∀ code, outcome = .ok code → deployment.Done args code after)
      (deployment.installation.run args) disk := by
  refine Keeps.andThen (returns_check _ _) (fun checked _ found => ?_) (fun _ _ _ => nofun)
  have proper := found checked rfl
  refine Keeps.andThen (returns_attempt _) (fun baseUrl _ validated => ?_) (fun _ _ _ => nofun)
  have accepted := validated baseUrl rfl
  refine (keeps_true _ _).bind fun runId after _ _ => ?_
  have reported : Returns deployment.Performs
      (deployment.Green checked.document checked.suite baseUrl)
      (if args.distributed then Installation.distribute args checked baseUrl runId
        else deployment.installation.runHere args checked baseUrl runId) after := by
    split
    · exact returns_distribute args proper (ne_empty_of_validated accepted) runId
    · exact returns_runHere args proper baseUrl runId
  refine Keeps.andThen reported (fun report _ green => ?_) (fun _ _ _ => nofun)
  refine Keeps.andThen (keeps_writeReports report args.reportDir) (fun _ disk written => ?_)
    (fun _ _ _ => nofun)
  refine Keeps.andThen (keeps_print _ (written rfl)) (fun _ last kept => ?_) (fun _ _ _ => nofun)
  refine keeps_pure trivial fun code same => ?_
  obtain rfl := Except.ok.inj same
  exact ⟨checked, baseUrl, report, proper, accepted, rfl, kept, green report rfl⟩

end Deployment

namespace Sample

/-- A file is written if its temporary one is new. -/
theorem possible_atomicWrite (disk : Disk) (path : FilePath) (contents : String)
    (fresh : disk.files ⟨path.parent, "." ++ path.name ++ "." ++ "tmp"⟩ = none) :
    Possible Performs (atomicWrite path contents) disk (.ok ()) := by
  refine possible_ask (@Performs.mkdir _ _ (fun _ => true) (.ok ()) (fun _ _ => rfl)
    (fun _ => rfl)) ?_
  refine possible_ask (@Performs.created _ _ _ "tmp" rfl fresh) ?_
  refine possible_ask .fdopened ?_
  refine possible_ask (@Performs.write _ _ _ (utf8 contents) [] [] (utf8 contents) (.ok ()) rfl
    (List.append_nil _).symm (fun _ => rfl) rfl) ?_
  refine possible_ask (@Performs.flush _ _ (utf8 contents) [] (.ok ()) rfl
    (List.append_nil _).symm (fun _ => rfl)) ?_
  refine possible_ask (@Performs.fsync _ (.ok ())) ?_
  refine possible_ask (@Performs.close _ _ [] [] (.ok ()) rfl rfl (fun _ => rfl)) ?_
  refine possible_ask (@Performs.replaced _ _ _ (utf8 contents)
    (by simp [Disk.drain, Disk.setFile])) ?_
  refine possible_ask .pathExists ?_
  generalize Option.isSome _ = there
  cases there with
  | true => exact possible_ask .unlink possible_done
  | false => exact possible_done

def serializers : Serializers where
  dumps _ := "\x7b\x7d"
  tostring _ := "<testsuite/>"

def blank : Disk where
  folders _ := true
  files _ := none
  stream := none

theorem possible_writeReports (serializers : Serializers) (report : RunReport) :
    Possible Performs (writeReports serializers report "reports") blank (.ok ()) := by
  obtain ⟨states, middle, written⟩ := possible_atomicWrite blank (resultsPath "reports")
    (serializers.dumps (.obj report.data) ++ "\n") rfl
  have files : middle.files = _ := ((atomicWrite_keeps blank _ _).of_executes written).2
  refine written.possible_bind (possible_atomicWrite middle _ _ ?_)
  rw [files]
  rfl

def deployment : Deployment Document where
  installation
  texts path := some (if path = "suite.json" then "suite" else "contract")
  serializers
  codec := Codec.plain
  platforms _ := platform
  workers _ := oneThread
  loads _ _ _ := rfl

def args : RunArguments where
  suite := "suite.json"
  contract := "contract.json"
  runId := some "run"
  reportDir := "reports"
  connection := { baseUrl := "http://test", concurrency := ⟨1, oneThread.bounded⟩ }

def checked : Installation.Checked := ⟨suite, healthDocument, healthContract⟩

def here : LocalRun := installation.localRun args checked "http://test" "run"

theorem executor_here : here.executor = .ok prober := by
  rfl

theorem ends_here : here.Ends (.ok [{ result with workerId := "local" }]) := by
  have submitted : here.Reached prober { submitted := 1 } :=
    .single (.submitted (by decide))
  have started := submitted.tail (Pool.Step.started (by decide) (by decide) rfl)
  have allowed : Pool.Allowed keepsLease probe := by
    simp [Pool.Allowed, probe, probing, keepsLease]
  have followed := Pool.follow started (Function.update_self _ _ _) (runs_prober "local") allowed
  have finished := followed.tail (Pool.Step.finished (Function.update_self _ _ _))
  have collected := finished.tail (Pool.Step.collected rfl rfl)
  exact .returned executor_here collected rfl

theorem possible_run :
    Possible deployment.Performs (installation.main (.run args)) blank 0 := by
  have replies {disk : Disk} (deed : Deed) (reply : deed.Reply) (plain : deed.plain = true) :
      deployment.Performs disk deed reply disk := .other plain
  refine possible_ask (replies (.stat _) (.ok 10) rfl) ?_
  refine possible_ask (.read rfl) ?_
  refine possible_ask (replies (.stat _) (.ok 10) rfl) ?_
  refine possible_ask (.read rfl) ?_
  refine possible_ask (replies .monotonic (0 : Rat) rfl) ?_
  refine possible_ask (.ranHere ends_here) ?_
  refine possible_ask (replies .monotonic (1 : Rat) rfl) ?_
  obtain ⟨states, final, written⟩ :=
    possible_writeReports serializers (here.report [{ result with workerId := "local" }] (1 - 0))
  have fallible := written.mono fun _ _ _ _ => MayPerform.performed
  refine possible_ask (@Deployment.Performs.written _ deployment _ _ _ _ _ _ .raised fallible) ?_
  exact possible_ask (replies (.print _) (.ok ()) rfl) possible_done

theorem suite_held {written : String} {members : List (String × Json)} {read : Suite}
    (found : deployment.Written "suite.json" written)
    (parsed : installation.parse "suite.json" written = .ok (.obj members))
    (validated : Suite.validate coercions (.obj members) = some read) : read = suite := by
  obtain rfl := Option.some.inj found
  rw [← Except.ok.inj parsed] at validated
  exact (Option.some.inj validated).symm

end Sample

end ApiSentinel
