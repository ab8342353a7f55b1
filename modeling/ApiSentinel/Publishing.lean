import ApiSentinel.Commands

/-!
# What is left of a report

`write_reports` writes its two files one after the other.  Whenever it is stopped, by an
exception or by the end of the process, each file is the old or the complete new one, the JUnit
document is new only if the JSON document is, and no other file of the folder is touched.  Only
if a temporary file cannot be removed is it left.
-/

namespace ApiSentinel

open Program

/-! ### Files that a write does not touch -/

section Untouched

variable {path other temporary : FilePath} {contents : String} {held : Option (List UInt8)}
  {disk : Disk}

/-- A file has its contents, and a stream that is open writes to a temporary file. -/
structure Apart (other : FilePath) (held : Option (List UInt8)) (temporary : FilePath)
    (state : Disk) : Prop where
  files : state.files other = held
  apart : temporary ≠ other
  stream : ∃ buffer, state.stream = some ⟨temporary, buffer⟩

theorem drain_files_of_ne (apart : temporary ≠ other) (bytes : List UInt8) :
    (disk.drain temporary bytes).files other = disk.files other :=
  Function.update_of_ne apart.symm _ _

theorem setFile_files_of_ne (apart : path ≠ other) (bytes : Option (List UInt8)) :
    (disk.setFile path bytes).files other = disk.files other :=
  Function.update_of_ne apart.symm _ _

/-- A call of the body of the stream. -/
theorem Apart.performs {call : FileCall} {answer : FileAnswer call} {after : Disk}
    (apart : Apart other held temporary disk) (answered : Performs disk call answer after)
    (body : (∃ contents, call = .write contents) ∨ call = .flush ∨ call = .fsync) :
    Apart other held temporary after := by
  obtain ⟨files, distinct, buffer, stream⟩ := apart
  cases answered with
  | write opened =>
      cases stream.symm.trans opened
      exact ⟨(drain_files_of_ne distinct _).trans files, distinct, _, rfl⟩
  | flush opened =>
      cases stream.symm.trans opened
      exact ⟨(drain_files_of_ne distinct _).trans files, distinct, _, rfl⟩
  | fsync => exact ⟨files, distinct, buffer, stream⟩
  | mkdir | created | notCreated | fdopened | notFdopened | close | replaced | notReplaced
  | pathExists | unlink => simp at body

/-- The file has its contents. -/
abbrev Holds (other : FilePath) (held : Option (List UInt8)) (state : Disk) : Prop :=
  state.files other = held

theorem writeStream_spares (apart : Apart other held temporary disk) :
    Keeps Performs (Holds other held) (fun _ => Apart other held temporary)
      (writeStream contents) disk := by
  have each : ∀ {state : Disk} {call : FileCall}, Apart other held temporary state →
      ((∃ contents, call = .write contents) ∨ call = .flush ∨ call = .fsync) →
      Keeps Performs (Holds other held) (fun _ => Apart other held temporary) (perform call)
        state := by
    intro state call apart body
    refine keeps_query apart.files ?_
    intro answer after answered
    have next := apart.performs answered body
    exact ⟨next.files, next⟩
  refine (each apart (.inl ⟨contents, rfl⟩)).andThen ?_ fun _ _ => id
  rintro ⟨⟩ written apart
  refine (each apart (.inr (.inl rfl))).andThen ?_ fun _ _ => id
  rintro ⟨⟩ flushed apart
  exact each apart (.inr (.inr rfl))

theorem withStream_spares (holds : Holds other held disk) (distinct : temporary ≠ other) :
    Keeps Performs (Holds other held) (fun _ => Holds other held)
      (withStream temporary (writeStream contents)) disk := by
  have opens : Keeps Performs (Holds other held)
      (fun outcome after => Holds other held after ∧
        (outcome = .ok () → Apart other held temporary after))
      (perform (.fdopen temporary)) disk := by
    refine keeps_query holds ?_
    intro answer after answered
    cases answered with
    | fdopened => exact ⟨holds, holds, fun _ => ⟨holds, distinct, [], rfl⟩⟩
    | notFdopened => exact ⟨holds, holds, nofun⟩
  refine opens.andThen ?_ fun _ _ opened => opened.1
  rintro ⟨⟩ opened ⟨_, apart⟩
  refine (writeStream_spares (apart rfl)).tryFinally ?_
  intro outcome streamed _ apart
  refine keeps_query apart.files ?_
  intro answer closed answered
  obtain ⟨files, distinct, buffer, stream⟩ := apart
  cases answered with
  | @close _ _ now later _ opened writes all =>
      cases stream.symm.trans opened
      have kept := (drain_files_of_ne distinct now).trans files
      exact ⟨kept, kept⟩

theorem removeTemporary_spares (holds : Holds other held disk) (distinct : temporary ≠ other) :
    Keeps MayPerform (Holds other held) (fun _ => Holds other held) (removeTemporary temporary)
      disk := by
  have looks : Keeps MayPerform (Holds other held) (fun _ => Holds other held)
      (perform (.pathExists temporary)) disk := by
    refine keeps_query holds ?_
    intro answer after answered
    cases answered.performs rfl
    exact ⟨holds, holds⟩
  refine looks.bind ?_
  intro found after _ holds
  cases found with
  | false => exact keeps_pure holds holds
  | true =>
      refine keeps_query holds ?_
      intro answer final answered
      cases answered with
      | performed performs =>
          cases performs
          have kept := (setFile_files_of_ne distinct none).trans holds
          exact ⟨kept, kept⟩
      | notUnlinked => exact ⟨holds, holds⟩

/-- A write does not touch a file that is neither its target nor a temporary file of it, nor one
that was there before. -/
theorem atomicWrite_spares (distinct : path ≠ other)
    (lasting : held ≠ none ∨ ¬ Temporary path other) (holds : Holds other held disk) :
    Keeps MayPerform (Holds other held) (fun _ => Holds other held) (atomicWrite path contents)
      disk := by
  have made : Keeps MayPerform (Holds other held) (fun _ => Holds other held)
      (perform (.mkdir path.parent)) disk := by
    refine keeps_query holds ?_
    intro answer after answered
    cases answered.performs rfl
    exact ⟨holds, holds⟩
  refine made.andThen ?_ fun _ _ => id
  rintro ⟨⟩ state holds
  have created : Keeps MayPerform (Holds other held)
      (fun outcome after => Holds other held after ∧
        ∀ temporary, outcome = .ok temporary → temporary ≠ other)
      (perform (.mkstemp path.parent ("." ++ path.name ++ "."))) state := by
    refine keeps_query holds ?_
    intro answer after answered
    cases answered.performs rfl with
    | @created _ _ _ random parent fresh =>
        have apart : (⟨path.parent, "." ++ path.name ++ "." ++ random⟩ : FilePath) ≠ other := by
          rintro rfl
          rcases lasting with some | never
          · exact some (holds.symm.trans fresh)
          · exact never ⟨random, rfl⟩
        have kept := (setFile_files_of_ne apart (some [])).trans holds
        exact ⟨kept, kept, fun temporary same => Except.ok.inj same ▸ apart⟩
    | notCreated => exact ⟨holds, holds, nofun⟩
  refine created.andThen ?_ fun _ _ opened => opened.1
  rintro temporary after ⟨holds, apart⟩
  have replaced : Keeps Performs (Holds other held) (fun _ => Holds other held)
      ((withStream temporary (writeStream contents)).andThen fun () =>
        perform (.replace temporary path)) after := by
    refine (withStream_spares holds (apart _ rfl)).andThen ?_ fun _ _ => id
    rintro ⟨⟩ written holds
    refine keeps_query holds ?_
    intro answer final answered
    cases answered with
    | @replaced _ _ _ bytes found =>
        have removed := (setFile_files_of_ne (apart _ rfl) none).trans holds
        have kept := (setFile_files_of_ne distinct (some bytes)).trans removed
        exact ⟨kept, kept⟩
    | notReplaced => exact ⟨holds, holds⟩
  have body := replaced.of_asks (asks_replace path temporary contents)
    fun _ _ _ _ => MayPerform.performs
  exact body.tryFinally fun _ _ _ holds =>
    (removeTemporary_spares holds (apart _ rfl)).mono (fun _ => id) fun _ _ => id

end Untouched

/-- Other files are as before, if they were there or are no temporary files. -/
def Spares (paths : List FilePath) (disk state : Disk) : Prop :=
  ∀ other ∉ paths, (disk.files other ≠ none ∨ ∀ path ∈ paths, ¬ Temporary path other) →
    state.files other = disk.files other

theorem atomicWrite_spares_all (disk : Disk) (path : FilePath) (contents : String) :
    Keeps MayPerform (Spares [path] disk) (fun _ => Spares [path] disk) (atomicWrite path contents)
      disk := by
  have each : ∀ other : { other // other ∉ [path] ∧
      (disk.files other ≠ none ∨ ∀ target ∈ [path], ¬ Temporary target other) },
      Keeps MayPerform (Holds other (disk.files other)) (fun _ => Holds other (disk.files other))
        (atomicWrite path contents) disk := by
    rintro ⟨other, distinct, lasting⟩
    rw [List.mem_singleton] at distinct
    rw [List.forall_mem_singleton] at lasting
    exact atomicWrite_spares (Ne.symm distinct) lasting rfl
  exact (keeps_all each).mono
    (fun _ holds other distinct lasting => holds ⟨other, distinct, lasting⟩)
    (fun _ _ holds other distinct lasting => holds ⟨other, distinct, lasting⟩)

/-! ### The two files -/

section Reports

variable (serializers : Serializers) (report : RunReport) (directory : String)

def jsonBytes : List UInt8 := utf8 (serializers.dumps (.obj report.data) ++ "\n")

def junitBytes : List UInt8 := utf8 (serializers.tostring report.junit ++ "\n")

/-- What may be found in the folder of a report, whenever one looks. -/
structure InOrder (disk state : Disk) : Prop where
  json : state.files (resultsPath directory) = disk.files (resultsPath directory) ∨
    state.files (resultsPath directory) = some (jsonBytes serializers report)
  junit : state.files (junitPath directory) = disk.files (junitPath directory) ∨
    state.files (junitPath directory) = some (junitBytes serializers report) ∧
      state.files (resultsPath directory) = some (jsonBytes serializers report)
  others : Spares [resultsPath directory, junitPath directory] disk state

/-- The files with the new JSON document. -/
def firstFiles (disk : Disk) : FilePath → Option (List UInt8) :=
  Function.update disk.files (resultsPath directory) (some (jsonBytes serializers report))

/-- The files with both new documents. -/
def bothFiles (disk : Disk) : FilePath → Option (List UInt8) :=
  Function.update (firstFiles serializers report directory disk) (junitPath directory)
    (some (junitBytes serializers report))

/-- What `write_reports` leaves: both files, or with an exception none of them or the first. -/
def Leaves (disk : Disk) (outcome : Except Raised Unit) (final : Disk) : Prop :=
  match outcome with
  | .ok () => final.files = bothFiles serializers report directory disk
  | .error _ =>
      final.files = disk.files ∨ final.files = firstFiles serializers report directory disk

/-- What it leaves if `unlink` may raise: a temporary file may be there besides. -/
def MayLeave (disk : Disk) (outcome : Except Raised Unit) (final : Disk) : Prop :=
  Leaves serializers report directory disk outcome final ∨
    (∃ raised, outcome = .error raised) ∧
      ((∃ temporary written, Temporary (resultsPath directory) temporary ∧
          disk.files temporary = none ∧
          final.files = Function.update disk.files temporary (some written)) ∨
        ∃ temporary written, Temporary (junitPath directory) temporary ∧
          firstFiles serializers report directory disk temporary = none ∧
          final.files = Function.update (firstFiles serializers report directory disk) temporary
            (some written))

variable {serializers report directory} {disk state : Disk}

theorem resultsPath_ne : resultsPath directory ≠ junitPath directory := by
  intro same
  have names : "results.json" = "junit.xml" := congrArg FilePath.name same
  exact absurd names (by decide)

theorem not_temporary_junitPath : ¬ Temporary (resultsPath directory) (junitPath directory) := by
  rintro ⟨random, same⟩
  have names := congrArg (fun path : FilePath => path.name.toList.head?) same
  simp [junitPath, resultsPath] at names

/-- While the JSON document is written, the JUnit document is as before. -/
theorem inOrder_of_first (oldOrNew : OldOrNew disk (resultsPath directory)
      (serializers.dumps (.obj report.data) ++ "\n") state)
    (spares : Spares [resultsPath directory] disk state) :
    InOrder serializers report directory disk state where
  json := oldOrNew
  junit := .inl (spares _ (by simpa using resultsPath_ne.symm)
    (.inr (List.forall_mem_singleton.mpr not_temporary_junitPath)))
  others other distinct lasting :=
    spares other (fun member => distinct (List.mem_cons.mpr (.inl (List.mem_singleton.mp member))))
      (lasting.imp_right fun never => List.forall_mem_singleton.mpr
        (never _ List.mem_cons_self))

/-- While the JUnit document is written, the JSON document is the new one. -/
theorem inOrder_of_second {written : Disk}
    (settled : written.files = Function.update disk.files (resultsPath directory)
      (some (jsonBytes serializers report)))
    (oldOrNew : OldOrNew written (junitPath directory)
      (serializers.tostring report.junit ++ "\n") state)
    (spares : Spares [junitPath directory] written state) :
    InOrder serializers report directory disk state := by
  have kept : state.files (resultsPath directory) = some (jsonBytes serializers report) := by
    have there : written.files (resultsPath directory) =
        some (jsonBytes serializers report) := by rw [settled, Function.update_self]
    rw [← there]
    exact spares _ (by simpa using resultsPath_ne) (.inl (by simp [there]))
  have same : ∀ other ≠ resultsPath directory, written.files other = disk.files other := by
    intro other distinct
    rw [settled, Function.update_of_ne distinct]
  refine ⟨.inr kept, ?_, ?_⟩
  · rcases oldOrNew with old | new
    · exact .inl (old.trans (same _ resultsPath_ne.symm))
    · exact .inr ⟨new, kept⟩
  · intro other distinct lasting
    simp only [List.mem_cons, List.not_mem_nil, or_false, not_or] at distinct
    have before := same other distinct.1
    rw [← before]
    refine spares other (by simpa using distinct.2) ?_
    rw [before]
    exact lasting.imp_right fun never => List.forall_mem_singleton.mpr
      (never _ (List.mem_cons_of_mem _ List.mem_cons_self))

theorem writeReports_keeps :
    Keeps MayPerform (InOrder serializers report directory disk)
      (MayLeave serializers report directory disk) (writeReports serializers report directory)
      disk := by
  have first := (atomicWrite_may_keep disk (resultsPath directory)
    (serializers.dumps (.obj report.data) ++ "\n")).and (atomicWrite_spares_all disk _ _)
  refine (first.mono (fun _ both => inOrder_of_first both.1 both.2) fun _ _ => id).andThen ?_ ?_
  · rintro ⟨⟩ written ⟨settled | ⟨⟨raised, same⟩, _⟩, _⟩
    · have start : written.files = firstFiles serializers report directory disk := settled
      have second := (atomicWrite_may_keep written (junitPath directory)
        (serializers.tostring report.junit ++ "\n")).and (atomicWrite_spares_all written _ _)
      refine second.mono (fun _ both => inOrder_of_second start both.1 both.2) ?_
      rintro outcome final ⟨ends | ⟨failed, temporary, held, named, staged⟩, _⟩
      · cases outcome with
        | ok =>
            have files : final.files = _ := ends
            rw [start] at files
            exact .inl files
        | error raised =>
            have files : final.files = _ := ends
            exact .inl (.inr (files.trans start))
      · have files := staged.files
        have fresh := staged.fresh
        rw [start] at files fresh
        exact .inr ⟨failed, .inr ⟨temporary, held, named, fresh, files⟩⟩
    · cases same
  · rintro raised written ⟨settled | ⟨failed, temporary, held, named, staged⟩, _⟩
    · exact .inl (.inl settled)
    · exact .inr ⟨⟨_, rfl⟩, .inl ⟨temporary, held, named, staged.fresh, staged.files⟩⟩

theorem writeReports_leaves :
    Keeps Performs (fun _ => True) (Leaves serializers report directory disk)
      (writeReports serializers report directory) disk := by
  have write (before : Disk) (path : FilePath) (contents : String) :
      Keeps Performs (fun _ => True) (Settled before path contents) (atomicWrite path contents)
        before :=
    (atomicWrite_keeps before path contents).mono (fun _ _ => trivial) fun _ _ => id
  refine (write disk _ _).andThen ?_ fun raised after files => .inl files
  rintro ⟨⟩ written settled
  have start : written.files = firstFiles serializers report directory disk := settled
  refine (write written _ _).mono (fun _ => id) fun outcome final ends => ?_
  cases outcome with
  | ok =>
      have files : final.files = _ := ends
      rwa [start] at files
  | error raised =>
      have files : final.files = _ := ends
      exact .inr (files.trans start)

/-- Whichever calls of `write_reports` fail, and wherever the process is stopped: each file has
its old or its complete new contents, the JUnit document is new only if the JSON document is,
and no file that was there before is touched.  If it returns, both are new, and if it raises, the
files are as before, or but for the JSON document.  A temporary file is left only if `unlink`
raises. -/
theorem reports_in_order {states : List Disk} {outcome : Except Raised Unit} {final : Disk}
    (execution : Executes MayPerform (writeReports serializers report directory) disk states
      outcome final) :
    (∀ state ∈ states, InOrder serializers report directory disk state) ∧
      MayLeave serializers report directory disk outcome final ∧
      (Executes Performs (writeReports serializers report directory) disk states outcome final →
        Leaves serializers report directory disk outcome final) := by
  obtain ⟨inOrder, leaves⟩ := writeReports_keeps.of_executes execution
  exact ⟨inOrder, leaves, fun clean => (writeReports_leaves.of_executes clean).2⟩

end Reports

namespace Sample

/-- The second temporary file can neither be opened nor removed. -/
theorem possible_stopped (serializers : Serializers) (report : RunReport) :
    Possible MayPerform (writeReports serializers report "reports") blank (.error noSpace) := by
  obtain ⟨states, middle, written⟩ := possible_atomicWrite blank (resultsPath "reports")
    (serializers.dumps (.obj report.data) ++ "\n") rfl
  have files : middle.files = _ := ((atomicWrite_keeps blank _ _).of_executes written).2
  have fresh : middle.files ⟨"reports", "." ++ "junit.xml" ++ "." ++ "tmp"⟩ = none := by
    rw [files]
    rfl
  refine (written.mono fun _ _ _ _ => .performed).possible_bind ?_
  refine possible_ask (.performed (@Performs.mkdir _ _ (fun _ => true) (.ok ()) (fun _ _ => rfl)
    (fun _ => rfl))) ?_
  refine possible_ask (.performed (@Performs.created _ _ _ "tmp" rfl fresh)) ?_
  refine possible_ask (.performed (@Performs.notFdopened _ _ noSpace)) ?_
  refine possible_ask (.performed .pathExists) ?_
  have there (state : Disk) (path : FilePath) :
      ((state.setFile path (some [])).files path).isSome = true := by
    simp [Disk.setFile]
  rw [there]
  exact possible_ask (@MayPerform.notUnlinked _ _ noSpace) possible_done

end Sample

/-- A report that is written in part has no JUnit document. -/
theorem reports_in_order_sample :
    ∃ states final,
      Executes MayPerform (writeReports Sample.serializers
        (Sample.here.report [Sample.result] 0) "reports") Sample.blank states
        (.error Sample.noSpace) final ∧ final.files (junitPath "reports") = none := by
  obtain ⟨states, final, execution⟩ := Sample.possible_stopped Sample.serializers
    (Sample.here.report [Sample.result] 0)
  refine ⟨states, final, execution, ?_⟩
  have first : firstFiles Sample.serializers (Sample.here.report [Sample.result] 0) "reports"
      Sample.blank (junitPath "reports") = none := by
    rw [firstFiles, Function.update_of_ne resultsPath_ne.symm]
    rfl
  obtain ⟨_, leaves, _⟩ := reports_in_order execution
  rcases leaves with (files | files) | ⟨_, ⟨temporary, _, named, _, files⟩ |
    ⟨temporary, _, ⟨random, rfl⟩, _, files⟩⟩
  · rw [files]
    rfl
  · rw [files, first]
  · have apart : junitPath "reports" ≠ temporary := by
      rintro rfl
      exact not_temporary_junitPath named
    rw [files, Function.update_of_ne apart]
    rfl
  · rw [files, Function.update_of_ne (temporary_ne _ random).symm, first]

end ApiSentinel
