import ApiSentinel.Commands
import ApiSentinel.Departures

/-!
# Targets of a run

The coordinator and its workers validate their base URLs on their own.  A worker of the same
software that the command line has started goes to work exactly if its URL is that of the run,
and one with another URL never starts a thread.
-/

namespace ApiSentinel

open Redis UrlSyntax

/-! ### Making a crew -/

def foreignTarget : Raised := valueError "worker target does not match the coordinator target"

/-- Options for the executor from the command line replace one another. -/
theorem merge_options (own planned : Connection) :
    merge own.options planned.options = planned.options := by
  simp [merge, Connection.options, setItem]

theorem exists_init {checkNetloc : List Char → Except Raised Unit} {baseUrl target : String}
    (harness : Harness) (seed : Int) (connection : Connection)
    (validated : validateBaseUrl checkNetloc baseUrl = .ok target) :
    ∃ executor,
      CaseExecutor.init checkNetloc harness baseUrl seed connection.options = .ok executor := by
  have known : connection.options.find? (fun entry => entry.1 ∉
      ["timeout", "case_timeout", "max_response_bytes", "connect_retries"]) = none := by
    simp [Connection.options]
  have timeout : numberOption connection.options "timeout" 5 =
      .ok connection.requestTimeout.1 := rfl
  have caseTimeout : numberOption connection.options "case_timeout" 60 =
      .ok connection.caseTimeout.1 := rfl
  have size : numberOption connection.options "max_response_bytes" 2000000 = .ok 2000000 := rfl
  have retries : numberOption connection.options "connect_retries" 1 = .ok 1 := rfl
  rw [CaseExecutor.init, known, validated, timeout, caseTimeout, size, retries]
  exact ⟨_, rfl⟩

section Prepare

variable {Text : Type} {platform : Platform Text} {options : WorkerOptions} {plan : Plan}
  {members : List (String × Json)} {contract : Contract} {target own : String}

/-- Comparing two targets that are kept as they are. -/
theorem checkTarget_eq (named : target ≠ "")
    (validated : validateBaseUrl platform.checkNetloc target = .ok target)
    (also : validateBaseUrl platform.checkNetloc options.baseUrl = .ok own) :
    checkTarget platform options (.str target) =
      if target = own then .ok () else .error foreignTarget := by
  have truthy : (Json.str target).truthy = true := by simp [Json.truthy, named]
  unfold checkTarget
  rw [truthy, if_neg (by decide)]
  dsimp only
  rw [validated, also]
  change (if target ≠ own then Except.error foreignTarget else Except.ok ()) = _
  rw [ite_not]

/-- A worker of the command line makes a crew of a plan whose suite fits its contract exactly if
it has the target of the plan. -/
theorem prepare_target (valid : plan.suite.Valid) (object : plan.contract = .obj members)
    (made : Contract.init platform.library members = .ok contract)
    (fits : contract.validateSuite plan.suite = .ok ()) (named : target ≠ "")
    (given : plan.baseUrl = some target)
    (validated : validateBaseUrl platform.checkNetloc target = .ok target)
    (also : validateBaseUrl platform.checkNetloc options.baseUrl = .ok own)
    (connection settings : Connection) (planned : plan.execution = connection.options)
    (set : options.executorOptions = settings.options) :
    (target = own → ∃ crew, prepare platform options plan.dump = .ok crew) ∧
      (target ≠ own → prepare platform options plan.dump = .error foreignTarget) := by
  have opened : openContract platform.library plan.contract = .ok contract :=
    openContract_eq_ok_iff.mpr ⟨members, object, made⟩
  have unfolded : prepare platform options plan.dump =
      (checkTarget platform options (.str target)).bind fun () =>
        (CaseExecutor.init platform.checkNetloc (contract.harness platform.host)
          options.baseUrl plan.suite.seed connection.options).bind fun executor =>
          .ok ⟨⟨executor, options.workerId, options.leaseSeconds⟩, plan.suite.cases.length⟩ := by
    have suite : plan.dump.getItem "suite" = .ok plan.suite.dump := rfl
    have document : plan.dump.getItem "contract" = .ok plan.contract := rfl
    have url : plan.dump.get "base_url" .null = .ok (.str target) := by
      change Except.ok (optional plan.baseUrl) = _
      rw [given]
      rfl
    have execution : plan.dump.get "execution" (.obj []) = .ok (.obj connection.options) := by
      rw [← planned]
      rfl
    unfold prepare
    rw [suite, document, url, execution]
    simp only [Except.bind, bind, pure, Except.pure, Suite.validate_dump platform.coercions valid,
      opened, fits, set, merge_options]
  rw [unfolded, checkTarget_eq named validated also]
  constructor
  · intro same
    obtain ⟨executor, executes⟩ := exists_init (contract.harness platform.host) plan.suite.seed
      connection also
    exact ⟨_, by rw [if_pos same, executes]; rfl⟩
  · intro other
    rw [if_neg other]
    rfl

end Prepare

/-! ### Processes of a fleet -/

section Fleet

variable {Text : Type} {codec : Codec Text} {call : Coordination}
  {platforms : Nat → Platform Text} {options : Nat → WorkerOptions} {start : Db Text}
  {micros : Int} {seconds : Rat} {fleet : Fleet Text} {name : Nat}

/-- No thread of a process takes a step before there is a crew. -/
theorem Operating.idle
    (operating : Operating codec call platforms options start micros seconds fleet)
    (unmanned : (fleet.processes name).crew = none) (thread : Nat) :
    (fleet.processes name).threads thread = .checking := by
  induction operating with
  | created => rfl
  | step past moves ih =>
      cases moves with
      | coordinator moves => exact ih unmanned
      | @process other cluster process moves =>
          dsimp only at unmanned ⊢
          by_cases here : name = other
          · subst here
            rw [Function.update_self] at unmanned ⊢
            cases moves with
            | main moves =>
                cases moves with
                | prepared here made => cases unmanned
                | started | absent | found | unreadable | unavailable | gaveUp | paused | expired
                | again | rejected | joined | closed | signalled => exact ih unmanned
            | thread hired member moves =>
                rw [moves.effect.1.crew, hired] at unmanned
                cases unmanned
            | beat hired moves =>
                have manned : process.crew ≠ none := by cases moves <;> simp [hired]
                exact (manned unmanned).elim
          · rw [Function.update_of_ne here] at unmanned ⊢
            exact ih unmanned

/-- A worker that the command line starts on some software, with the base URL that it has
validated. -/
structure Installation.Starts (installation : Installation) (connection : Connection)
    (platform : Platform Text) (options : WorkerOptions) (own : String) : Prop where
  library : platform.library = installation.library
  checkNetloc : platform.checkNetloc = installation.checkNetloc
  validated : validateBaseUrl installation.checkNetloc connection.baseUrl = .ok own
  baseUrl : options.baseUrl = own
  set : options.executorOptions = connection.options

end Fleet

namespace Sample

/-- The run that `run --distributed` submits for the sample files. -/
def aimed : Coordination where
  queue := coordination.queue
  suite := suite
  contract := .obj healthDocument
  timeout := 300
  baseUrl := some "http://test"
  executorOptions := args.connection.options
  started := 0

/-- The keys after the run is submitted. -/
def awaited : Db Document :=
  (RunQueue.create Key.own Codec.plain 1000000 aimed.submission empty).2

theorem started_aimed : Started Codec.plain 1000000 aimed.submission awaited :=
  ⟨[], by simp, rfl⟩

/-- The first worker has the target of the run, and the others have another one. -/
def targets (name : Nat) : WorkerOptions :=
  { oneThread with
    baseUrl := if name = 0 then "http://test" else "http://other"
    executorOptions := args.connection.options }

def joining (name : Nat) : Connection :=
  { args.connection with baseUrl := if name = 0 then "http://test/" else "http://other/" }

theorem proper_checked : installation.Proper
    (fun path written => written = if path = "suite.json" then "suite" else "contract")
    args.suite args.contract checked where
  read := ⟨"suite", _, rfl, rfl, rfl⟩
  document := ⟨"contract", rfl, rfl⟩
  made := rfl
  fits := rfl

theorem starts_joining (name : Nat) :
    installation.Starts (joining name) platform (targets name) (targets name).baseUrl where
  library := rfl
  checkNetloc := rfl
  validated := by
    unfold joining targets
    by_cases first : name = 0
    · rw [if_pos first]
      simp only [first, if_true]
      rfl
    · rw [if_neg first]
      simp only [first, if_false]
      rfl
  baseUrl := rfl
  set := rfl

abbrev Aiming (fleet : Fleet Document) : Prop :=
  Operating Codec.plain aimed (fun _ => platform) targets awaited 1000000 0 fleet

/-- One worker is at work, and nobody else has done anything. -/
def lone (name : Nat) (process : Process Document) : Fleet Document where
  cluster := ⟨{ db := awaited, seconds := 0 }, 1000000⟩
  processes := Function.update (fun _ => {}) name process

@[simp]
theorem lone_processes (name : Nat) (process : Process Document) :
    (lone name process).processes name = process := by
  simp [lone]

theorem lone_update (name : Nat) (process other : Process Document) :
    { cluster := (lone name process).cluster
      processes := Function.update (lone name process).processes name other } =
        lone name other := by
  simp [lone, Function.update_idem]

theorem Aiming.moves {name : Nat} {process other : Process Document}
    (aiming : Aiming (lone name process))
    (moves : MainStep platform (targets name) (lone name process).cluster process
      (lone name process).cluster other) :
    Aiming (lone name other) := by
  rw [← lone_update name process]
  refine .step aiming (.process (.main ?_))
  rw [lone_processes]
  exact moves

/-- A worker loads the plan. -/
theorem exists_preparing (name : Nat) : ∃ fleet, Aiming fleet ∧
    (fleet.processes name).main = .preparing aimed.submission.plan.dump := by
  have idle : Aiming (lone name {}) := by
    rw [lone, Function.update_eq_self]
    exact .created
  have started := idle.moves (@MainStep.started _ platform (targets name) _ _ 0 rfl (by rfl))
  have found := started.moves (@MainStep.found _ platform (targets name) _ _ 1000000
    (.plan aimed.submission.plan) aimed.submission.plan.dump rfl (by rfl) (by rfl) rfl)
  refine ⟨_, found, ?_⟩
  rw [lone_processes]
  rfl

end Sample

end ApiSentinel
