import ApiSentinel.BaseUrl
import ApiSentinel.Schemas
import ApiSentinel.Worker

/-!
# From a plan to an executor

What `Worker.run` makes of the plan that `RunQueue.create` has published: the suite, the
contract that it is checked against, and an executor with the options of the plan.
-/

namespace ApiSentinel

/-- The dictionary that `RunQueue.create` encodes. -/
def Plan.dump (plan : Plan) : Json :=
  .obj [("suite", plan.suite.dump), ("contract", plan.contract),
    ("base_url", optional plan.baseUrl), ("execution", .obj plan.execution)]

/-- `{**known, **entries}` -/
def merge {Value : Type} (known entries : List (String × Value)) : List (String × Value) :=
  entries.foldl (fun known entry => setItem entry.1 entry.2 known) known

theorem lookup_setItem {Value : Type} {key other : String} {value : Value}
    {entries : List (String × Value)} :
    (setItem key value entries).lookup other =
      if other = key then some value else entries.lookup other := by
  induction entries with
  | nil =>
      rw [setItem, List.lookup_cons]
      by_cases same : other = key
      · simp [same]
      · simp [same, beq_false_of_ne same]
  | cons entry entries ih =>
      obtain ⟨name, old⟩ := entry
      rw [setItem]
      by_cases here : name = key
      · subst here
        rw [if_pos rfl, List.lookup_cons, List.lookup_cons]
        by_cases same : other = name
        · simp [same]
        · simp [same, beq_false_of_ne same]
      · rw [if_neg here, List.lookup_cons, List.lookup_cons, ih]
        by_cases named : other = name
        · subst named
          simp [here]
        · simp [beq_false_of_ne named]

/-- The entries that are merged into a dictionary replace those that it has. -/
theorem lookup_merge {Value : Type} {known entries : List (String × Value)} {key : String}
    (distinct : (entries.map Prod.fst).Nodup) :
    (merge known entries).lookup key = (entries.lookup key).or (known.lookup key) := by
  induction entries generalizing known with
  | nil => rfl
  | cons entry entries ih =>
      obtain ⟨fresh, distinct⟩ := List.nodup_cons.mp distinct
      change (merge (setItem entry.1 entry.2 known) entries).lookup key = _
      rw [ih distinct, lookup_setItem, List.lookup_cons]
      by_cases same : key = entry.1
      · subst same
        have absent : entries.lookup entry.1 = none := by
          rw [List.lookup_eq_none_iff]
          intro other member
          rw [bne_iff_ne]
          intro equal
          exact fresh (equal ▸ List.mem_map_of_mem member)
        simp [absent]
      · simp [same, beq_false_of_ne same]

/-! ### Constructing an executor -/

/-- A number that is given as an option. -/
def numberOption (options : List (String × Json)) (name : String) (default : Rat) :
    Except Raised Rat :=
  match options.lookup name with
  | none => .ok default
  | some value =>
      match value.number? with
      | some number => .ok number
      | none =>
          .error (typeError ("'<' not supported between instances of 'int' and '" ++
            value.typeName ++ "'"))

/-- `CaseExecutor(contract, base_url, seed=seed, concurrency=concurrency, **options)`.  A limit
on whole numbers is as good as its floor.  The constructor compares `timeout` only.  Another
option that is no number, or a `transport`, which no plan of the command line has, is refused
here and not where a case would use it. -/
def CaseExecutor.init (checkNetloc : List Char → Except Raised Unit) (harness : Harness)
    (baseUrl : String) (seed : Int) (options : List (String × Json)) :
    Except Raised CaseExecutor :=
  match options.find? (fun entry => entry.1 ∉
      ["timeout", "case_timeout", "max_response_bytes", "connect_retries"]) with
  | some entry =>
      .error (typeError
        ("CaseExecutor.__init__() got an unexpected keyword argument '" ++ entry.1 ++ "'"))
  | none => do
      let baseUrl ← validateBaseUrl checkNetloc baseUrl
      let timeout ← numberOption options "timeout" 5
      let caseTimeout ← numberOption options "case_timeout" 60
      let maxResponseBytes ← numberOption options "max_response_bytes" 2000000
      let connectRetries ← numberOption options "connect_retries" 1
      pure {
        harness, baseUrl, seed, timeout, caseTimeout
        maxResponseBytes := maxResponseBytes.floor
        connectRetries := connectRetries.floor }

/-! ### Loading a plan -/

/-- What a process of a worker runs on. -/
structure Platform (Text : Type) where
  library : Library
  host : Host
  coercions : Coercions
  /-- The errors that `urlsplit` finds in a network location. -/
  checkNetloc : List Char → Except Raised Unit
  /-- `json.loads` -/
  loads : Text → Except Raised Json

/-- The arguments of `Worker` that its constructor accepts. -/
structure WorkerOptions where
  baseUrl : String
  workerId : String
  concurrency : Nat := 4
  leaseSeconds : Rat := 30
  waitSeconds : Rat := 60
  executorOptions : List (String × Json) := []
  bounded : 1 ≤ concurrency ∧ concurrency ≤ 128
  long : 1 / 10 ≤ leaseSeconds

/-- What the threads of a worker work with: the worker, and how many results they wait for. -/
structure Crew where
  worker : Worker
  total : Nat

section Prepare

variable {Text : Type} (platform : Platform Text) (options : WorkerOptions)

/-- `Contract(document)` of any value. -/
def openContract (library : Library) : Json → Except Raised Contract
  | .obj members => Contract.init library members
  | value => .error (attributeError value.typeName "get")

/-- The target that a plan names, if any, has to be the worker's own. -/
def checkTarget (planned : Json) : Except Raised Unit :=
  if !planned.truthy then .ok ()
  else
    match planned with
    | .str url => do
        let target ← validateBaseUrl platform.checkNetloc url
        let own ← validateBaseUrl platform.checkNetloc options.baseUrl
        if target ≠ own then
          .error (valueError "worker target does not match the coordinator target")
        else .ok ()
    | value => .error (attributeError value.typeName "decode")

/-- `Worker.run` from the plan up to the start of its threads. -/
def prepare (plan : Json) : Except Raised Crew := do
  let document ← plan.getItem "suite"
  match Suite.validate platform.coercions document with
  | none => .error ⟨"ValidationError", true, "invalid suite"⟩
  | some suite => do
      let contract ← openContract platform.library (← plan.getItem "contract")
      contract.validateSuite suite
      checkTarget platform options (← plan.get "base_url" .null)
      match ← plan.get "execution" (.obj []) with
      | .obj execution => do
          let executor ← CaseExecutor.init platform.checkNetloc (contract.harness platform.host)
            options.baseUrl suite.seed (merge options.executorOptions execution)
          pure ⟨⟨executor, options.workerId, options.leaseSeconds⟩, suite.cases.length⟩
      | value => .error (typeError ("'" ++ value.typeName ++ "' object is not a mapping"))

/-- A crew that works by a plan: under its contract, which allows its suite, with its seed, at
its target and with its options for the executor. -/
structure WorksBy (plan : Plan) (crew : Crew) : Prop where
  total : crew.total = plan.suite.cases.length
  workerId : crew.worker.workerId = options.workerId
  leaseSeconds : crew.worker.leaseSeconds = options.leaseSeconds
  contract : ∃ members contract, plan.contract = .obj members ∧
    Contract.init platform.library members = .ok contract ∧
    contract.validateSuite plan.suite = .ok () ∧
    crew.worker.executor.harness = contract.harness platform.host
  seed : crew.worker.executor.seed = plan.suite.seed
  target : validateBaseUrl platform.checkNetloc options.baseUrl =
    .ok crew.worker.executor.baseUrl
  planned : ∀ url, plan.baseUrl = some url → url ≠ "" →
    validateBaseUrl platform.checkNetloc url = .ok crew.worker.executor.baseUrl
  options : CaseExecutor.init platform.checkNetloc crew.worker.executor.harness
    options.baseUrl plan.suite.seed (merge options.executorOptions plan.execution) =
      .ok crew.worker.executor

variable {platform options} {plan : Plan} {crew : Crew}

theorem openContract_eq_ok_iff {library : Library} {document : Json} {contract : Contract} :
    openContract library document = .ok contract ↔
      ∃ members, document = .obj members ∧ Contract.init library members = .ok contract := by
  cases document <;> simp [openContract]

/-- A crew is given the target that its plan names. -/
theorem target_of_checkTarget {url : String} (given : plan.baseUrl = some url) (named : url ≠ "")
    (checked : checkTarget platform options (optional plan.baseUrl) = .ok ()) :
    validateBaseUrl platform.checkNetloc url =
      validateBaseUrl platform.checkNetloc options.baseUrl := by
  have shown : optional plan.baseUrl = .str url := by
    rw [given]
    rfl
  have truthy : (!(Json.str url).truthy) = false := by simp [Json.truthy, named]
  rw [shown] at checked
  unfold checkTarget at checked
  rw [truthy, if_neg Bool.false_ne_true] at checked
  obtain ⟨target, one, checked⟩ := except_bind_eq_ok.mp checked
  obtain ⟨own, two, checked⟩ := except_bind_eq_ok.mp checked
  split at checked
  · cases checked
  · next same => rw [one, two, not_not.mp same]

theorem of_init {checkNetloc : List Char → Except Raised Unit} {harness : Harness}
    {baseUrl : String} {seed : Int} {settings : List (String × Json)} {executor : CaseExecutor}
    (made : CaseExecutor.init checkNetloc harness baseUrl seed settings = .ok executor) :
    executor.harness = harness ∧ executor.seed = seed ∧
      validateBaseUrl checkNetloc baseUrl = .ok executor.baseUrl := by
  unfold CaseExecutor.init at made
  split at made
  · cases made
  · obtain ⟨target, validated, made⟩ := except_bind_eq_ok.mp made
    obtain ⟨_, _, made⟩ := except_bind_eq_ok.mp made
    obtain ⟨_, _, made⟩ := except_bind_eq_ok.mp made
    obtain ⟨_, _, made⟩ := except_bind_eq_ok.mp made
    obtain ⟨_, _, made⟩ := except_bind_eq_ok.mp made
    cases made
    exact ⟨rfl, rfl, validated⟩

/-- The crew that is made of a published plan works by it. -/
theorem worksBy_of_prepare (valid : plan.suite.Valid)
    (prepared : prepare platform options plan.dump = .ok crew) :
    WorksBy platform options plan crew := by
  obtain ⟨document, read, prepared⟩ := except_bind_eq_ok.mp prepared
  obtain rfl : plan.suite.dump = document := Except.ok.inj read
  rw [Suite.validate_dump platform.coercions valid] at prepared
  obtain ⟨document, read, prepared⟩ := except_bind_eq_ok.mp prepared
  obtain rfl : plan.contract = document := Except.ok.inj read
  obtain ⟨contract, opened, prepared⟩ := except_bind_eq_ok.mp prepared
  obtain ⟨⟨⟩, allowed, prepared⟩ := except_bind_eq_ok.mp prepared
  obtain ⟨document, read, prepared⟩ := except_bind_eq_ok.mp prepared
  obtain rfl : optional plan.baseUrl = document := Except.ok.inj read
  obtain ⟨⟨⟩, checked, prepared⟩ := except_bind_eq_ok.mp prepared
  obtain ⟨document, read, prepared⟩ := except_bind_eq_ok.mp prepared
  obtain rfl : Json.obj plan.execution = document := Except.ok.inj read
  obtain ⟨executor, made, prepared⟩ := except_bind_eq_ok.mp prepared
  cases prepared
  obtain ⟨members, object, loaded⟩ := openContract_eq_ok_iff.mp opened
  obtain ⟨harness, seed, target⟩ := of_init made
  exact {
    total := rfl
    workerId := rfl
    leaseSeconds := rfl
    contract := ⟨members, contract, object, loaded, allowed, harness⟩
    seed := seed
    target := target
    planned := fun url given named => (target_of_checkTarget given named checked).trans target
    options := by rw [harness]; exact made }

end Prepare

end ApiSentinel
