import ApiSentinel.Cli
import ApiSentinel.Fleets

/-!
# What a command asks for

Nothing reaches out of the process before the given files and target are checked, a run closes
its connection, and when a command is stopped, `main` tells nothing but the type of what
stopped it.
-/

namespace ApiSentinel

open Program

namespace Deed

/-- A line that `main` itself writes to the standard error output. -/
def speaks : Deed → Bool
  | .event _ _ | .complain _ => true
  | _ => false

/-- What looks at the configuration, the clock or random bits only. -/
def inward : Deed → Bool
  | .stat _ | .readText _ | .uuid | .monotonic => true
  | _ => false

abbrev Trace := Program.Trace Deed.Reply

def Read (trace : Trace) (path written : String) : Prop :=
  ⟨.readText path, .ok written⟩ ∈ trace

/-- `connect` has returned a client. -/
def opens : Sigma Deed.Reply → Bool
  | ⟨.connect _, .ok ()⟩ => true
  | _ => false

def closes : Sigma Deed.Reply → Bool
  | ⟨.closeClient, _⟩ => true
  | _ => false

/-- As many clients are closed as were opened. -/
def Disposed (trace : Trace) : Prop := trace.countP opens = trace.countP closes

/-- The report of a run. -/
def Reports (trace : Trace) (report : RunReport) : Prop :=
  (∃ queue submission, ⟨.distributedRun queue submission, .ok report⟩ ∈ trace) ∨
    ∃ run results seconds, ⟨.runLocal run, .ok results⟩ ∈ trace ∧
      report = run.report results seconds

end Deed

namespace Installation

open Deed

variable (installation : Installation)

/-- What has to be checked before a command reaches out. -/
def Admits (trace : Deed.Trace) : Invocation → Prop
  | .validate suite contract => ∃ checked, installation.Proper (Read trace) suite contract checked
  | .run args => (∃ checked, installation.Proper (Read trace) args.suite args.contract checked) ∧
      ∃ baseUrl, validateBaseUrl installation.checkNetloc args.connection.baseUrl = .ok baseUrl
  | .worker args =>
      ∃ baseUrl, validateBaseUrl installation.checkNetloc args.connection.baseUrl = .ok baseUrl

/-- A command tells nothing itself, and at each of its calls it may reach out only if what it was
given has been checked before. -/
def Guarded (given : Invocation) (trace : Deed.Trace) : Prop :=
  ∀ before event, before ++ [event] <+: trace →
    event.1.speaks = false ∧ (event.1.inward = false → installation.Admits before given)

/-- How a command comes to its exit code. -/
def Concludes (trace : Deed.Trace) (code : Nat) : Invocation → Prop
  | .validate _ _ => code = 0
  | .run args => ∃ report, Reports trace report ∧
      ⟨.writeReports report args.reportDir, .ok ()⟩ ∈ trace ∧ code = report.exitCode
  | .worker _ => ∃ queue options, ⟨.work queue options, .ok code⟩ ∈ trace

variable {installation} {given : Invocation} {trace after : Deed.Trace} {deed : Deed}
  {reply : deed.Reply}

/-! ### Calls -/

theorem Admits.mono (admits : installation.Admits trace given) (kept : trace ⊆ after) :
    installation.Admits after given := by
  have read : ∀ path written, Read trace path written → Read after path written :=
    fun path written member => kept member
  cases given with
  | validate suite contract => exact admits.imp fun checked proper => proper.mono read
  | run args => exact admits.imp_left fun found => found.imp fun checked proper => proper.mono read
  | worker args => exact admits

theorem Guarded.append (guarded : installation.Guarded given trace)
    (quiet : deed.speaks = false)
    (admitted : deed.inward = false → installation.Admits trace given) :
    installation.Guarded given (trace ++ [⟨deed, reply⟩]) := by
  intro before event leads
  rcases List.prefix_concat_iff.mp leads with same | within
  · obtain ⟨rfl, last⟩ := List.append_inj' same rfl
    obtain rfl := List.singleton_inj.mp last
    exact ⟨quiet, admitted⟩
  · exact guarded before event within

/-- A call that is made where it may be made. -/
theorem keeps_does (guarded : installation.Guarded given trace) (quiet : deed.speaks = false)
    (admitted : deed.inward = false → installation.Admits trace given) :
    Keeps recording (installation.Guarded given)
      (fun reply after => after = trace ++ [⟨deed, reply⟩] ∧ installation.Guarded given after)
      (does deed) trace :=
  keeps_query guarded fun reply after answered =>
    have there : installation.Guarded given after := by
      rw [show after = _ from answered]
      exact guarded.append quiet admitted
    ⟨there, answered, there⟩

theorem countP_append (test : Sigma Deed.Reply → Bool) :
    (trace ++ [(⟨deed, reply⟩ : Sigma Deed.Reply)]).countP test =
      trace.countP test + (test ⟨deed, reply⟩).toNat := by
  rw [List.countP_append, List.countP_singleton]
  cases test ⟨deed, reply⟩ <;> rfl

theorem Disposed.append (disposed : Disposed trace)
    (same : (opens ⟨deed, reply⟩).toNat = (closes ⟨deed, reply⟩).toNat) :
    Disposed (trace ++ [⟨deed, reply⟩]) := by
  rw [Disposed, countP_append, countP_append, same, disposed]

theorem Reports.mono {report : RunReport} (reports : Reports trace report)
    (kept : trace ⊆ after) : Reports after report := by
  rcases reports with ⟨queue, submission, member⟩ | ⟨run, results, seconds, member, same⟩
  · exact .inl ⟨queue, submission, kept member⟩
  · exact .inr ⟨run, results, seconds, kept member, same⟩

theorem reader : Reader recording
    (fun trace => installation.Guarded given trace ∧ Disposed trace) Read where
  stat answered holds := by
    rw [show _ = _ from answered]
    exact ⟨holds.1.append rfl nofun, Disposed.append holds.2 rfl⟩
  readText answered holds := by
    rw [show _ = _ from answered]
    exact ⟨holds.1.append rfl nofun, Disposed.append holds.2 rfl⟩
  kept answered member := by
    rw [show _ = _ from answered]
    exact List.mem_append_left _ member
  read answered := by
    rw [show _ = _ from answered]
    exact List.mem_append_right _ List.mem_cons_self

/-! ### Commands -/

theorem keeps_check (suite contract : String) (guarded : installation.Guarded given trace)
    (disposed : Disposed trace) :
    Keeps recording (installation.Guarded given)
      (fun outcome after => installation.Guarded given after ∧ Disposed after ∧
        ∀ checked, outcome = .ok checked →
          installation.Proper (Read after) suite contract checked)
      (installation.check suite contract) trace :=
  (reader.check suite contract ⟨guarded, disposed⟩).settled.mono (fun _ => And.left)
    fun _ _ ends => ⟨ends.1.1, ends.1.2, ends.2⟩

/-- `run --distributed` closes the client that it has opened. -/
theorem keeps_distribute {args : RunArguments} {checked : Checked} {baseUrl runId : String}
    (guarded : installation.Guarded given trace) (disposed : Disposed trace)
    (admits : installation.Admits trace given) :
    Keeps recording (installation.Guarded given)
      (fun outcome after => installation.Guarded given after ∧ Disposed after ∧
        trace ⊆ after ∧ ∀ report, outcome = .ok report → Reports after report)
      (distribute args checked baseUrl runId) trace := by
  refine (keeps_does guarded rfl fun _ => admits).andThen ?_ ?_
  · rintro ⟨⟩ opened ⟨same, guarded⟩
    have kept : trace ⊆ opened := same ▸ List.subset_append_left _ _
    have more : opened.countP opens = opened.countP closes + 1 := by
      rw [same, countP_append, countP_append, disposed]
      rfl
    have body : Keeps recording (installation.Guarded given)
        (fun outcome after => installation.Guarded given after ∧
          after.countP opens = after.countP closes + 1 ∧ trace ⊆ after ∧
          ∀ report, outcome = .ok report → Reports after report)
        ((attempt (RunQueue.init runId)).andThen fun queue =>
          does (.distributedRun queue (submission args checked baseUrl))) opened := by
      refine (keeps_attempt _ guarded).andThen ?_ ?_
      · rintro queue _ ⟨rfl, _⟩
        refine (keeps_does guarded rfl fun _ => admits.mono kept).mono (fun _ => id) ?_
        rintro outcome after ⟨rfl, guarded⟩
        refine ⟨guarded, ?_, List.Subset.trans kept (List.subset_append_left _ _), ?_⟩
        · rw [countP_append, countP_append, more]
          rfl
        · rintro report rfl
          exact .inl ⟨queue, _, List.mem_append_right _ List.mem_cons_self⟩
      · rintro raised _ ⟨rfl, _⟩
        exact ⟨guarded, more, kept, nofun⟩
    refine body.tryFinally fun outcome after _ ⟨guarded, more, kept, reported⟩ => ?_
    refine (keeps_does guarded rfl fun _ => admits.mono kept).mono (fun _ => id) ?_
    rintro cleaned last ⟨rfl, guarded⟩
    refine ⟨guarded, ?_, List.Subset.trans kept (List.subset_append_left _ _),
      fun report same => ?_⟩
    · rw [Disposed, countP_append, countP_append, more]
      rfl
    · cases cleaned with
      | ok => exact Reports.mono (reported report same) (List.subset_append_left _ _)
      | error stop => cases same
  · rintro raised after ⟨rfl, guarded⟩
    exact ⟨guarded, Disposed.append disposed rfl, List.subset_append_left _ _, nofun⟩

theorem keeps_runHere {args : RunArguments} {checked : Checked} {baseUrl runId : String}
    (guarded : installation.Guarded given trace) (disposed : Disposed trace)
    (admits : installation.Admits trace given) :
    Keeps recording (installation.Guarded given)
      (fun outcome after => installation.Guarded given after ∧ Disposed after ∧
        trace ⊆ after ∧ ∀ report, outcome = .ok report → Reports after report)
      (installation.runHere args checked baseUrl runId) trace := by
  refine (keeps_does guarded rfl (by nofun)).bind ?_
  rintro started _ _ ⟨rfl, guarded⟩
  refine (keeps_does guarded rfl fun _ => admits.mono (List.subset_append_left _ _)).andThen ?_ ?_
  · rintro results _ ⟨rfl, guarded⟩
    refine (keeps_does guarded rfl (by nofun)).bind ?_
    rintro finished _ _ ⟨rfl, guarded⟩
    refine keeps_pure guarded ⟨guarded, ?_, ?_, fun report same => ?_⟩
    · exact Disposed.append (Disposed.append (Disposed.append disposed rfl) rfl) rfl
    · simp
    · exact .inr ⟨_, results, _, by simp, (Except.ok.inj same).symm⟩
  · rintro raised _ ⟨rfl, guarded⟩
    exact ⟨guarded, Disposed.append (Disposed.append disposed rfl) rfl, by simp, nofun⟩

theorem keeps_chooseId (runId : Option String) (guarded : installation.Guarded given trace)
    (disposed : Disposed trace) :
    Keeps recording (installation.Guarded given)
      (fun _ after => installation.Guarded given after ∧ Disposed after ∧ trace ⊆ after)
      (chooseId runId) trace := by
  have drawn : Keeps recording (installation.Guarded given)
      (fun _ after => installation.Guarded given after ∧ Disposed after ∧ trace ⊆ after)
      (does .uuid) trace := by
    refine (keeps_does guarded rfl (by nofun)).mono (fun _ => id) ?_
    rintro drawn _ ⟨rfl, guarded⟩
    exact ⟨guarded, Disposed.append disposed rfl, List.subset_append_left _ _⟩
  cases runId with
  | none => exact drawn
  | some runId =>
      change Keeps _ _ _ (if runId = "" then _ else _) _
      split
      · exact drawn
      · exact keeps_pure guarded ⟨guarded, disposed, List.Subset.refl _⟩

/-- A worker that has begun closes its client, and all other commands close theirs. -/
def Settled (trace : Deed.Trace) : Invocation → Prop
  | .worker _ => (∃ queue options reply, ⟨.work queue options, reply⟩ ∈ trace) → Disposed trace
  | _ => Disposed trace

/-- What a command that is over has done. -/
structure Over (installation : Installation) (given : Invocation) (outcome : Except Stop Nat)
    (trace : Deed.Trace) : Prop where
  guarded : installation.Guarded given trace
  settled : Settled trace given
  concludes : ∀ code, outcome = .ok code → Concludes trace code given

theorem guarded_nil : installation.Guarded given [] := by
  intro before event leads
  simp at leads

theorem keeps_validate (suite contract : String) :
    Keeps recording (installation.Guarded (.validate suite contract))
      (installation.Over (.validate suite contract)) (installation.validate suite contract)
      [] := by
  refine (keeps_check _ _ guarded_nil rfl).andThen ?_ ?_
  · rintro checked after ⟨guarded, disposed, found⟩
    refine (keeps_does guarded rfl fun _ => ⟨checked, found checked rfl⟩).andThen ?_ ?_
    · rintro ⟨⟩ printed ⟨rfl, guarded⟩
      exact keeps_pure guarded ⟨guarded, Disposed.append disposed rfl,
        fun code same => (Except.ok.inj same).symm⟩
    · rintro raised _ ⟨rfl, guarded⟩
      exact ⟨guarded, Disposed.append disposed rfl, nofun⟩
  · rintro raised after ⟨guarded, disposed, _⟩
    exact ⟨guarded, disposed, nofun⟩

/-- The report of a run is written and its summary printed. -/
theorem keeps_conclusion {args : RunArguments} {report : RunReport} {runId : String}
    (guarded : installation.Guarded (.run args) trace) (disposed : Disposed trace)
    (admits : installation.Admits trace (.run args)) (reports : Reports trace report) :
    Keeps recording (installation.Guarded (.run args)) (installation.Over (.run args))
      ((does (.writeReports report args.reportDir)).andThen fun () =>
        (does (.print [("run_id", .str runId), ("cases", .int report.results.length),
          ("elapsed_ms", .float report.elapsedMs), ("exit_code", .int report.exitCode)])).andThen
          fun () => pure (.ok report.exitCode)) trace := by
  refine (keeps_does guarded rfl fun _ => admits).andThen ?_ ?_
  · rintro ⟨⟩ written ⟨rfl, guarded⟩
    refine (keeps_does guarded rfl fun _ =>
      admits.mono (List.subset_append_left _ _)).andThen ?_ ?_
    · rintro ⟨⟩ printed ⟨rfl, guarded⟩
      refine keeps_pure guarded ⟨guarded, Disposed.append (Disposed.append disposed rfl) rfl,
        fun code same => ?_⟩
      exact ⟨report, Reports.mono reports (by simp), by simp, (Except.ok.inj same).symm⟩
    · rintro raised _ ⟨rfl, guarded⟩
      exact ⟨guarded, Disposed.append (Disposed.append disposed rfl) rfl, nofun⟩
  · rintro raised _ ⟨rfl, guarded⟩
    exact ⟨guarded, Disposed.append disposed rfl, nofun⟩

theorem keeps_run (args : RunArguments) :
    Keeps recording (installation.Guarded (.run args)) (installation.Over (.run args))
      (installation.run args) [] := by
  refine (keeps_check _ _ guarded_nil rfl).andThen ?_ ?_
  · rintro checked after ⟨guarded, disposed, found⟩
    have proper := found checked rfl
    refine (keeps_attempt _ guarded).andThen ?_ ?_
    · rintro baseUrl later ⟨rfl, validated⟩
      have admits : installation.Admits later (.run args) :=
        ⟨⟨checked, proper⟩, baseUrl, validated _ rfl⟩
      refine (keeps_chooseId args.runId guarded disposed).bind ?_
      rintro runId chose _ ⟨guarded, disposed, kept⟩
      have admits := admits.mono kept
      have reported : Keeps recording (installation.Guarded (.run args))
          (fun outcome after => installation.Guarded (.run args) after ∧ Disposed after ∧
            chose ⊆ after ∧ ∀ report, outcome = .ok report → Reports after report)
          (if args.distributed then distribute args checked baseUrl runId
            else installation.runHere args checked baseUrl runId) chose := by
        split
        · exact keeps_distribute guarded disposed admits
        · exact keeps_runHere guarded disposed admits
      refine reported.andThen ?_ ?_
      · rintro report ended ⟨guarded, disposed, kept, reports⟩
        exact keeps_conclusion guarded disposed (admits.mono kept) (reports report rfl)
      · rintro raised ended ⟨guarded, disposed, _⟩
        exact ⟨guarded, disposed, nofun⟩
    · rintro raised _ ⟨rfl, _⟩
      exact ⟨guarded, disposed, nofun⟩
  · rintro raised after ⟨guarded, disposed, _⟩
    exact ⟨guarded, disposed, nofun⟩

theorem keeps_worker (args : WorkerArguments) :
    Keeps recording (installation.Guarded (.worker args)) (installation.Over (.worker args))
      (installation.worker args) [] := by
  refine (keeps_attempt _ guarded_nil).andThen ?_ ?_
  · rintro baseUrl later ⟨same, validated⟩
    subst same
    have admits {trace : Deed.Trace} : installation.Admits trace (.worker args) :=
      ⟨baseUrl, validated _ rfl⟩
    refine (keeps_does guarded_nil rfl fun _ => admits).andThen ?_ ?_
    · rintro ⟨⟩ opened ⟨rfl, guarded⟩
      have early {outcome : Except Stop Nat} : (∀ code, outcome ≠ .ok code) →
          installation.Over (.worker args) outcome
            ([] ++ [⟨.connect args.connection.redisUrl, .ok ()⟩]) := fun raised =>
        ⟨guarded, fun ⟨_, _, _, begun⟩ => by simp at begun,
          fun code same => absurd same (raised code)⟩
      refine (keeps_attempt _ guarded).andThen ?_ ?_
      · rintro queue _ ⟨rfl, _⟩
        refine (keeps_attempt _ guarded).andThen ?_ ?_
        · rintro options _ ⟨rfl, _⟩
          refine (keeps_does guarded rfl fun _ => admits).tryFinally ?_
          rintro outcome _ _ ⟨rfl, guarded⟩
          refine (keeps_does guarded rfl fun _ => admits).mono (fun _ => id) ?_
          rintro cleaned _ ⟨rfl, guarded⟩
          refine ⟨guarded, fun _ => rfl, fun code same => ?_⟩
          cases cleaned with
          | ok =>
              obtain rfl : outcome = .ok code := same
              exact ⟨queue, options, by simp⟩
          | error stop => cases same
        · rintro raised _ ⟨rfl, _⟩
          exact early nofun
      · rintro raised _ ⟨rfl, _⟩
        exact early nofun
    · rintro raised _ ⟨rfl, guarded⟩
      exact ⟨guarded, fun ⟨_, _, _, begun⟩ => by simp at begun, nofun⟩
  · rintro raised _ ⟨rfl, _⟩
    exact ⟨guarded_nil, fun ⟨_, _, _, begun⟩ => by simp at begun, nofun⟩

theorem keeps_command (given : Invocation) :
    Keeps recording (installation.Guarded given) (installation.Over given)
      (installation.command given) [] := by
  cases given with
  | validate suite contract => exact keeps_validate suite contract
  | run args => exact keeps_run args
  | worker args => exact keeps_worker args

end Installation

/-- Whatever is asked of the command line and whatever its calls give: before its files and its
target are checked it reaches out to nothing, it closes its client, and `main` tells nothing on
the way, whatever events a worker tells of its cases.  At the end it gives the code of what it
has done, or 2 with a line that tells no more than the type of what stopped it. -/
theorem main_law {installation : Installation} {given : Invocation} {trace : Deed.Trace}
    {code : Nat} (runs : Runs (installation.main given) trace code) :
    ∃ body, installation.Guarded given body ∧ Installation.Settled body given ∧
      (trace = body ∧ Installation.Concludes body code given ∨
        code = 2 ∧ (trace = body ++ [⟨.event "interrupted" [], ()⟩] ∨
          ∃ type, trace = body ++ [⟨.event "fatal" [("error_type", .str type)], ()⟩,
            ⟨.complain Installation.fatalMessage, ()⟩])) := by
  obtain ⟨body, tail, outcome, rfl, ran, ends⟩ := runs_bind.mp runs
  have done : installation.Over given outcome ([] ++ body) :=
    ((Installation.keeps_command given).of_runs ran).2
  refine ⟨body, done.guarded, done.settled, ?_⟩
  cases outcome with
  | ok result =>
      obtain ⟨rfl, rfl⟩ := runs_pure.mp ends
      exact .inl ⟨List.append_nil _, done.concludes _ rfl⟩
  | error stop =>
      cases stop with
      | interrupted =>
          obtain ⟨_, _, rfl, told⟩ := runs_query_bind.mp ends
          obtain ⟨rfl, rfl⟩ := runs_pure.mp told
          exact .inr ⟨rfl, .inl rfl⟩
      | raised raised =>
          obtain ⟨_, _, rfl, told⟩ := runs_query_bind.mp ends
          obtain ⟨_, _, rfl, complained⟩ := runs_query_bind.mp told
          obtain ⟨rfl, rfl⟩ := runs_pure.mp complained
          exact .inr ⟨rfl, .inr ⟨raised.type, rfl⟩⟩

namespace Sample

def installation : Installation where
  library
  host
  coercions
  checkNetloc := anyNetloc
  jsonLoads text := .ok (if text = "suite" then suite.dump else .obj healthDocument)
  safeLoad _ := .error (valueError "no YAML")
  suffix _ := ".json"

/-- The trace of `validate` on proper files. -/
def validated : Deed.Trace :=
  [⟨.stat "suite.json", .ok 10⟩, ⟨.readText "suite.json", .ok "suite"⟩,
    ⟨.stat "contract.json", .ok 10⟩, ⟨.readText "contract.json", .ok "contract"⟩,
    ⟨.print [("valid", .bool true), ("suite", .str "smoke"), ("cases", .int 1)], .ok ()⟩]

theorem runs_validated :
    Runs (installation.main (.validate "suite.json" "contract.json")) validated 0 :=
  .ask (.ask (.ask (.ask (.ask .done))))

end Sample

/-- The line of `validate` comes after both files are read and checked. -/
theorem main_law_sample :
    Sample.installation.Guarded (.validate "suite.json" "contract.json") Sample.validated := by
  obtain ⟨body, guarded, _, ⟨same, _⟩ | ⟨two, _⟩⟩ := main_law Sample.runs_validated
  · exact same ▸ guarded
  · cases two

end ApiSentinel
