import ApiSentinel.Executions
import ApiSentinel.Local

/-!
# The command line

`main` with the calls that it makes, one after another.  What the parser makes of its
arguments carries their bounds.
-/

namespace ApiSentinel

open Program

/-! ### Arguments -/

/-- What `positive_float` accepts. -/
abbrev PositiveFloat := { number : Rat // 0 < number ∧ number ≤ 86400 }

/-- What `concurrency_value` accepts. -/
abbrev ConcurrencyValue := { number : Nat // 1 ≤ number ∧ number ≤ 128 }

/-- The options that `run` and `worker` have in common. -/
structure Connection where
  baseUrl : String := "http://127.0.0.1:8000"
  redisUrl : String := "redis://localhost:6379/0"
  concurrency : ConcurrencyValue := ⟨4, by decide⟩
  requestTimeout : PositiveFloat := ⟨5, by norm_num⟩
  caseTimeout : PositiveFloat := ⟨60, by norm_num⟩

/-- `{"timeout": args.request_timeout, "case_timeout": args.case_timeout}` -/
def Connection.options (connection : Connection) : List (String × Json) :=
  [("timeout", .float connection.requestTimeout), ("case_timeout", .float connection.caseTimeout)]

structure RunArguments where
  suite : String
  contract : String
  distributed : Bool := false
  runId : Option String := none
  reportDir : String := "reports/latest"
  runTimeout : PositiveFloat := ⟨300, by norm_num⟩
  maxDeliveries : ConcurrencyValue := ⟨3, by decide⟩
  connection : Connection := {}

structure WorkerArguments where
  runId : String
  workerId : String
  leaseSeconds : PositiveFloat := ⟨30, by norm_num⟩
  waitSeconds : PositiveFloat := ⟨60, by norm_num⟩
  connection : Connection := {}

inductive Invocation
  | validate (suite contract : String)
  | run (args : RunArguments)
  | worker (args : WorkerArguments)

/-- `Worker.__init__` -/
def WorkerOptions.init (baseUrl workerId : String) (concurrency : Nat)
    (leaseSeconds waitSeconds : Rat) (executorOptions : List (String × Json)) :
    Except Raised WorkerOptions :=
  if accepted : (1 ≤ concurrency ∧ concurrency ≤ 128) ∧ 1 / 10 ≤ leaseSeconds then
    .ok ⟨baseUrl, workerId, concurrency, leaseSeconds, waitSeconds, executorOptions, accepted.1,
      accepted.2⟩
  else .error (valueError "invalid concurrency or lease duration")

/-! ### Calls -/

/-- What stops a command early. -/
inductive Stop
  /-- `KeyboardInterrupt` -/
  | interrupted
  | raised (raised : Raised)

/-- The calls of `main` that reach out of the process. -/
inductive Deed
  /-- `source.stat().st_size` -/
  | stat (path : String)
  /-- `source.read_text(encoding="utf-8")` -/
  | readText (path : String)
  | connect (url : String)
  /-- `client.close()` -/
  | closeClient
  /-- `uuid.uuid4().hex` -/
  | uuid
  | monotonic
  | distributedRun (queue : RunQueue) (submission : Submission)
  | runLocal (run : LocalRun)
  /-- `worker.run()`, which tells of its cases with events of its own -/
  | work (queue : RunQueue) (options : WorkerOptions)
  | writeReports (report : RunReport) (directory : String)
  /-- `print(json.dumps(…))` -/
  | print (line : List (String × Json))
  /-- A call of `event` in `main` itself. -/
  | event (name : String) (fields : List (String × Json))
  /-- The line that `main` prints on `sys.stderr`. -/
  | complain (line : String)

@[reducible]
def Deed.Reply : Deed → Type
  | .stat _ => Except Stop Nat
  | .readText _ => Except Stop String
  | .connect _ => Except Stop Unit
  | .closeClient => Except Stop Unit
  | .uuid => String
  | .monotonic => Rat
  | .distributedRun _ _ => Except Stop RunReport
  | .runLocal _ => Except Stop (List CaseResult)
  | .work _ _ => Except Stop Nat
  | .writeReports _ _ => Except Stop Unit
  | .print _ => Except Stop Unit
  | .event _ _ | .complain _ => Unit

abbrev CliProgram := Program Deed Deed.Reply

def does (deed : Deed) : CliProgram deed.Reply := query deed

/-- A call that stays inside the process. -/
def attempt {Value : Type} (outcome : Except Raised Value) : CliProgram (Except Stop Value) :=
  pure (outcome.mapError .raised)

/-- What `main` calls outside its own code. -/
structure Installation where
  library : Library
  host : Host
  coercions : Coercions
  checkNetloc : List Char → Except Raised Unit
  /-- `json.loads` -/
  jsonLoads : String → Except Raised Json
  /-- `yaml.safe_load`, of texts that have the values of a JSON document -/
  safeLoad : String → Except Raised Json
  /-- `Path(path).suffix` -/
  suffix : String → String

namespace Installation

variable (installation : Installation)

/-! ### Configuration -/

def parse (path text : String) : Except Raised Json :=
  if installation.suffix path = ".json" then installation.jsonLoads text
  else installation.safeLoad text

def loadDocument (path : String) : CliProgram (Except Stop (List (String × Json))) :=
  (does (.stat path)).andThen fun size =>
  if size > 5000000 then attempt (.error (valueError "configuration exceeds the 5 MB limit"))
  else (does (.readText path)).andThen fun text =>
    (attempt (installation.parse path text)).andThen fun value =>
    match value with
    | .obj members => pure (.ok members)
    | _ => attempt (.error (valueError "configuration must be an object"))

def loadSuite (path : String) : CliProgram (Except Stop Suite) :=
  (installation.loadDocument path).andThen fun members =>
  match Suite.validate installation.coercions (.obj members) with
  | some suite => pure (.ok suite)
  | none => attempt (.error ⟨"ValidationError", true, "invalid suite"⟩)

/-- What `validate` and `run` have checked. -/
structure Checked where
  suite : Suite
  document : List (String × Json)
  contract : Contract

def check (suite contract : String) : CliProgram (Except Stop Checked) :=
  (installation.loadSuite suite).andThen fun suite =>
  (installation.loadDocument contract).andThen fun document =>
  (attempt (Contract.init installation.library document)).andThen fun contract =>
  (attempt (contract.validateSuite suite)).andThen fun () =>
  pure (.ok ⟨suite, document, contract⟩)

/-! ### Commands -/

/-- `args.run_id or uuid.uuid4().hex` -/
def chooseId (runId : Option String) : CliProgram String :=
  match runId with
  | some runId => if runId = "" then does .uuid else pure runId
  | none => does .uuid

/-- The arguments of `distributed_run`. -/
def submission (args : RunArguments) (checked : Checked) (baseUrl : String) : Submission where
  suite := checked.suite
  contract := .obj checked.document
  timeout := args.runTimeout
  maxDeliveries := args.maxDeliveries.1
  baseUrl := some baseUrl
  executorOptions := args.connection.options

/-- `run --distributed` up to its report. -/
def distribute (args : RunArguments) (checked : Checked) (baseUrl runId : String) :
    CliProgram (Except Stop RunReport) :=
  (does (.connect args.connection.redisUrl)).andThen fun () =>
  tryFinally
    ((attempt (RunQueue.init runId)).andThen fun queue =>
      does (.distributedRun queue (submission args checked baseUrl)))
    (does .closeClient)

def localRun (args : RunArguments) (checked : Checked) (baseUrl runId : String) : LocalRun where
  checkNetloc := installation.checkNetloc
  suite := checked.suite
  harness := checked.contract.harness installation.host
  baseUrl
  runId
  concurrency := args.connection.concurrency
  options := args.connection.options

/-- `run` without `--distributed` up to its report. -/
def runHere (args : RunArguments) (checked : Checked) (baseUrl runId : String) :
    CliProgram (Except Stop RunReport) := do
  let run := installation.localRun args checked baseUrl runId
  let started ← does .monotonic
  (does (.runLocal run)).andThen fun results => do
    let finished ← does .monotonic
    pure (.ok (run.report results (finished - started)))

def run (args : RunArguments) : CliProgram (Except Stop Nat) :=
  (installation.check args.suite args.contract).andThen fun checked =>
  (attempt (validateBaseUrl installation.checkNetloc args.connection.baseUrl)).andThen
    fun baseUrl => do
  let runId ← chooseId args.runId
  (if args.distributed then distribute args checked baseUrl runId
    else installation.runHere args checked baseUrl runId).andThen fun report =>
  (does (.writeReports report args.reportDir)).andThen fun () =>
  (does (.print [("run_id", .str runId), ("cases", .int report.results.length),
    ("elapsed_ms", .float report.elapsedMs), ("exit_code", .int report.exitCode)])).andThen
    fun () =>
  pure (.ok report.exitCode)

def validate (suite contract : String) : CliProgram (Except Stop Nat) :=
  (installation.check suite contract).andThen fun checked =>
  (does (.print [("valid", .bool true), ("suite", .str checked.suite.name),
    ("cases", .int checked.suite.cases.length)])).andThen fun () =>
  pure (.ok 0)

def worker (args : WorkerArguments) : CliProgram (Except Stop Nat) :=
  (attempt (validateBaseUrl installation.checkNetloc args.connection.baseUrl)).andThen
    fun baseUrl =>
  (does (.connect args.connection.redisUrl)).andThen fun () =>
  (attempt (RunQueue.init args.runId)).andThen fun queue =>
  (attempt (WorkerOptions.init baseUrl args.workerId args.connection.concurrency
    args.leaseSeconds args.waitSeconds args.connection.options)).andThen fun options =>
  tryFinally (does (.work queue options)) (does .closeClient)

def command : Invocation → CliProgram (Except Stop Nat)
  | .validate suite contract => installation.validate suite contract
  | .run args => installation.run args
  | .worker args => installation.worker args

def fatalMessage : String :=
  "Configuration or infrastructure error. Check your suite, contract, and services."

def main (given : Invocation) : CliProgram Nat := do
  match ← installation.command given with
  | .ok code => pure code
  | .error .interrupted => do
      does (.event "interrupted" [])
      pure 2
  | .error (.raised raised) => do
      does (.event "fatal" [("error_type", .str raised.type)])
      does (.complain fatalMessage)
      pure 2

/-! ### Checking -/

/-- The texts of two files are a suite and a contract that fits it. -/
structure Proper (text : String → String → Prop) (suite contract : String) (checked : Checked) :
    Prop where
  read : ∃ written members, text suite written ∧
    installation.parse suite written = .ok (.obj members) ∧
      Suite.validate installation.coercions (.obj members) = some checked.suite
  document : ∃ written, text contract written ∧
    installation.parse contract written = .ok (.obj checked.document)
  made : Contract.init installation.library checked.document = .ok checked.contract
  fits : checked.contract.validateSuite checked.suite = .ok ()

/-- A world knows the texts of the files that are read in it, and an assertion holds while
configuration files are opened. -/
structure Reader {World : Type} (answers : Behaviour Deed Deed.Reply World)
    (always : World → Prop) (text : World → String → String → Prop) : Prop where
  stat : ∀ {world path reply after}, answers world (.stat path) reply after → always world →
    always after
  readText : ∀ {world path reply after}, answers world (.readText path) reply after →
    always world → always after
  kept : ∀ {world deed reply after path written}, answers world deed reply after →
    text world path written → text after path written
  read : ∀ {world path written after}, answers world (.readText path) (.ok written) after →
    text after path written

section Checking

variable {installation} {text : String → String → Prop} {World : Type}
  {answers : Behaviour Deed Deed.Reply World} {always : World → Prop}
  {texts : World → String → String → Prop} {world : World}

theorem Proper.valid {suite contract : String} {checked : Checked}
    (proper : installation.Proper text suite contract checked) : checked.suite.Valid :=
  let ⟨_, _, _, _, validated⟩ := proper.read
  Suite.valid_of_validate _ validated

theorem Proper.mono {other : String → String → Prop} {suite contract : String}
    {checked : Checked} (proper : installation.Proper text suite contract checked)
    (kept : ∀ path written, text path written → other path written) :
    installation.Proper other suite contract checked where
  read :=
    let ⟨written, members, found, rest⟩ := proper.read
    ⟨written, members, kept _ _ found, rest⟩
  document := proper.document.imp fun _ => And.imp_left (kept _ _)
  made := proper.made
  fits := proper.fits

theorem keeps_attempt {Value : Type} (outcome : Except Raised Value) (holds : always world) :
    Keeps answers always (fun result after => after = world ∧ ∀ value, result = .ok value →
      outcome = .ok value) (attempt outcome) world := by
  refine keeps_pure holds ⟨rfl, fun value same => ?_⟩
  cases outcome with
  | ok _ => exact congrArg _ (Except.ok.inj same)
  | error raised => cases same

theorem Reader.loadDocument (reader : Reader answers always texts) (path : String)
    (holds : always world) :
    Keeps answers always
      (fun outcome after => (∀ other written, texts world other written →
          texts after other written) ∧
        ∀ members, outcome = .ok members → ∃ written, texts after path written ∧
          installation.parse path written = .ok (.obj members))
      (installation.loadDocument path) world := by
  have sized : Keeps answers always (fun _ after => always after ∧ ∀ other written,
      texts world other written → texts after other written) (does (.stat path)) world :=
    keeps_query holds fun _ _ answered =>
      have there := reader.stat answered holds
      ⟨there, there, fun _ _ => reader.kept answered⟩
  refine sized.andThen (fun size middle known => ?_) (fun _ _ known => ⟨known.2, nofun⟩)
  split
  · exact keeps_pure known.1 ⟨known.2, nofun⟩
  have taken : Keeps answers always (fun outcome after => always after ∧
      (∀ other written, texts world other written → texts after other written) ∧
      ∀ written, outcome = .ok written → texts after path written) (does (.readText path))
      middle := by
    refine keeps_query known.1 fun reply after answered => ?_
    have there := reader.readText answered known.1
    refine ⟨there, there, fun _ _ before => reader.kept answered (known.2 _ _ before), ?_⟩
    rintro written rfl
    exact reader.read answered
  refine taken.andThen (fun written after known => ?_) (fun _ _ known => ⟨known.2.1, nofun⟩)
  obtain ⟨holds, grows, found⟩ := known
  refine (keeps_attempt _ holds).andThen ?_ ?_
  · rintro value _ ⟨rfl, parsed⟩
    cases value with
    | obj members =>
        refine keeps_pure holds ⟨grows, fun result same => ?_⟩
        exact Except.ok.inj same ▸ ⟨written, found written rfl, parsed _ rfl⟩
    | _ => exact keeps_pure holds ⟨grows, nofun⟩
  · rintro raised _ ⟨rfl, _⟩
    exact ⟨grows, nofun⟩

theorem Reader.loadSuite (reader : Reader answers always texts) (path : String)
    (holds : always world) :
    Keeps answers always
      (fun outcome after => ∀ suite, outcome = .ok suite → ∃ written members,
        texts after path written ∧ installation.parse path written = .ok (.obj members) ∧
          Suite.validate installation.coercions (.obj members) = some suite)
      (installation.loadSuite path) world := by
  refine (reader.loadDocument path holds).settled.andThen ?_ (fun _ _ _ => nofun)
  rintro members after ⟨there, _, found⟩
  obtain ⟨written, kept, parsed⟩ := found members rfl
  split
  · next suite read =>
      refine keeps_pure there fun result same => ?_
      exact Except.ok.inj same ▸ ⟨written, members, kept, parsed, read⟩
  · exact keeps_pure there nofun

/-- What `check` returns has been read. -/
theorem Reader.check (reader : Reader answers always texts) (suite contract : String)
    (holds : always world) :
    Keeps answers always
      (fun outcome after => ∀ checked, outcome = .ok checked →
        installation.Proper (texts after) suite contract checked)
      (installation.check suite contract) world := by
  refine (reader.loadSuite suite holds).settled.andThen ?_ (fun _ _ _ => nofun)
  rintro loaded middle ⟨there, found⟩
  obtain ⟨written, members, kept, read⟩ := found loaded rfl
  refine (reader.loadDocument contract there).settled.andThen ?_ (fun _ _ _ => nofun)
  rintro document after ⟨holds, grows, found⟩
  have holding := found document rfl
  refine (keeps_attempt _ holds).andThen ?_ (fun _ _ _ => nofun)
  rintro made _ ⟨rfl, building⟩
  refine (keeps_attempt _ holds).andThen ?_ (fun _ _ _ => nofun)
  rintro ⟨⟩ _ ⟨rfl, fitting⟩
  refine keeps_pure holds fun result same => Except.ok.inj same ▸ ?_
  exact ⟨⟨written, members, grows _ _ kept, read⟩, holding, building _ rfl, fitting _ rfl⟩

end Checking

end Installation

end ApiSentinel
