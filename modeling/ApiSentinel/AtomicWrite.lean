import ApiSentinel.Executions
import ApiSentinel.Models
import Mathlib.Logic.Function.Basic

/-!
# Atomic writes of files

`atomic_write` on a file system whose calls may fail, a write after any part of the contents.
Until the temporary file replaces the target, the target is as before.  A temporary file
that has not replaced it is removed.
-/

namespace ApiSentinel

open Program

structure FilePath where
  parent : String
  name : String
  deriving DecidableEq, Repr

/-- A stream opened for writing, with the bytes that its buffer holds back. -/
structure Stream where
  path : FilePath
  buffer : List UInt8

structure Disk where
  folders : String → Bool
  files : FilePath → Option (List UInt8)
  stream : Option Stream

/-- The calls of `atomic_write`. -/
inductive FileCall
  /-- `mkdir(parents=True, exist_ok=True)` -/
  | mkdir (folder : String)
  | mkstemp (folder filePrefix : String)
  /-- `os.fdopen(fd, "w", encoding="utf-8")` -/
  | fdopen (temporary : FilePath)
  | write (contents : String)
  | flush
  | fsync
  | close
  | replace (temporary path : FilePath)
  /-- `os.path.exists` -/
  | pathExists (path : FilePath)
  | unlink (path : FilePath)

abbrev FileAnswer : FileCall → Type
  | .mkstemp _ _ => Except Raised FilePath
  | .pathExists _ => Bool
  | _ => Except Raised Unit

/-- Programs that call the file system. -/
abbrev FileProgram := Program FileCall FileAnswer

def perform (call : FileCall) : FileProgram (FileAnswer call) := query call

/-- `with os.fdopen(fd, "w", encoding="utf-8") as stream: …` -/
def withStream (temporary : FilePath) (body : FileProgram (Except Raised Unit)) :
    FileProgram (Except Raised Unit) :=
  (perform (.fdopen temporary)).andThen fun () => body.tryFinally (perform .close)

/-- The body of the stream. -/
def writeStream (contents : String) : FileProgram (Except Raised Unit) :=
  (perform (.write contents)).andThen fun () =>
    (perform .flush).andThen fun () => perform .fsync

/-- `if os.path.exists(temporary): os.unlink(temporary)` -/
def removeTemporary (temporary : FilePath) : FileProgram (Except Raised Unit) := do
  if ← perform (.pathExists temporary) then perform (.unlink temporary)
  else pure (.ok ())

def atomicWrite (path : FilePath) (contents : String) : FileProgram (Except Raised Unit) :=
  (perform (.mkdir path.parent)).andThen fun () =>
  (perform (.mkstemp path.parent ("." ++ path.name ++ "."))).andThen fun temporary =>
  tryFinally
    ((withStream temporary (writeStream contents)).andThen fun () =>
      perform (.replace temporary path))
    (removeTemporary temporary)

/-! ### The file system -/

/-- The bytes of a text in UTF-8. -/
def utf8 (text : String) : List UInt8 := text.toUTF8.data.toList

def Disk.setFile (disk : Disk) (path : FilePath) (contents : Option (List UInt8)) : Disk :=
  { disk with files := Function.update disk.files path contents }

/-- Bytes that a stream held back reach its file. -/
def Disk.drain (disk : Disk) (path : FilePath) (bytes : List UInt8) : Disk :=
  disk.setFile path ((disk.files path).map (· ++ bytes))

/-- What a call answers and does.  Every call but `exists` and `unlink` may raise. -/
inductive Performs : Behaviour FileCall FileAnswer Disk
  | mkdir {disk folder folders answer}
      (kept : ∀ other, disk.folders other = true → folders other = true)
      (made : answer = .ok () → folders folder = true) :
      Performs disk (.mkdir folder) answer { disk with folders }
  | created {disk folder filePrefix random} (parent : disk.folders folder = true)
      (fresh : disk.files ⟨folder, filePrefix ++ random⟩ = none) :
      Performs disk (.mkstemp folder filePrefix) (.ok ⟨folder, filePrefix ++ random⟩)
        (disk.setFile ⟨folder, filePrefix ++ random⟩ (some []))
  | notCreated {disk folder filePrefix raised} :
      Performs disk (.mkstemp folder filePrefix) (.error raised) disk
  | fdopened {disk temporary} :
      Performs disk (.fdopen temporary) (.ok ()) { disk with stream := some ⟨temporary, []⟩ }
  | notFdopened {disk temporary raised} :
      Performs disk (.fdopen temporary) (.error raised) disk
  /-- A part of the contents is taken, and a part of what is buffered then is written. -/
  | write {disk stream contents taken left written buffer answer}
      (opened : disk.stream = some stream) (takes : utf8 contents = taken ++ left)
      (all : answer = .ok () → left = []) (writes : stream.buffer ++ taken = written ++ buffer) :
      Performs disk (.write contents) answer
        { disk.drain stream.path written with stream := some ⟨stream.path, buffer⟩ }
  | flush {disk stream written buffer answer} (opened : disk.stream = some stream)
      (writes : stream.buffer = written ++ buffer) (all : answer = .ok () → buffer = []) :
      Performs disk .flush answer
        { disk.drain stream.path written with stream := some ⟨stream.path, buffer⟩ }
  | fsync {disk answer} : Performs disk .fsync answer disk
  | close {disk stream written buffer answer} (opened : disk.stream = some stream)
      (writes : stream.buffer = written ++ buffer) (all : answer = .ok () → buffer = []) :
      Performs disk .close answer { disk.drain stream.path written with stream := none }
  | replaced {disk temporary path contents} (found : disk.files temporary = some contents) :
      Performs disk (.replace temporary path) (.ok ())
        ((disk.setFile temporary none).setFile path (some contents))
  | notReplaced {disk temporary path raised} :
      Performs disk (.replace temporary path) (.error raised) disk
  | pathExists {disk path} : Performs disk (.pathExists path) (disk.files path).isSome disk
  | unlink {disk path} : Performs disk (.unlink path) (.ok ()) (disk.setFile path none)

def FileCall.removes : FileCall → Bool
  | .unlink _ => true
  | _ => false

/-- What a call answers and does if `unlink` may raise too. -/
inductive MayPerform : Behaviour FileCall FileAnswer Disk
  | performed {disk call answer after} (performs : Performs disk call answer after) :
      MayPerform disk call answer after
  | notUnlinked {disk path raised} : MayPerform disk (.unlink path) (.error raised) disk

theorem MayPerform.performs {disk after : Disk} {call : FileCall} {answer : FileAnswer call}
    (other : call.removes = false) (may : MayPerform disk call answer after) :
    Performs disk call answer after := by
  cases may with
  | performed performs => exact performs
  | notUnlinked => cases other

/-! ### The states of a write -/

/-- The temporary files of a write. -/
def Temporary (path temporary : FilePath) : Prop :=
  ∃ random, temporary = ⟨path.parent, "." ++ path.name ++ "." ++ random⟩

section States

variable (disk : Disk) (path temporary : FilePath) (contents : String)

/-- The target has its old or its complete new contents. -/
def OldOrNew (state : Disk) : Prop :=
  state.files path = disk.files path ∨ state.files path = some (utf8 contents)

/-- Of the files, only the temporary one is new. -/
structure Staged (written : List UInt8) (state : Disk) : Prop where
  apart : temporary ≠ path
  fresh : disk.files temporary = none
  files : state.files = Function.update disk.files temporary (some written)

/-- The temporary file is open. -/
structure Streaming (written buffer : List UInt8) (state : Disk) : Prop where
  staged : Staged disk path temporary written state
  stream : state.stream = some ⟨temporary, buffer⟩

end States

variable {disk state : Disk} {path temporary : FilePath} {contents : String}
  {written buffer : List UInt8}

theorem Staged.oldOrNew (staged : Staged disk path temporary written state) :
    OldOrNew disk path contents state := by
  left
  rw [staged.files, Function.update_of_ne staged.apart.symm]

theorem Staged.drain (staged : Staged disk path temporary written state) (bytes : List UInt8) :
    Staged disk path temporary (written ++ bytes) (state.drain temporary bytes) where
  apart := staged.apart
  fresh := staged.fresh
  files := by
    unfold Disk.drain Disk.setFile
    rw [staged.files, Function.update_self, Function.update_idem]
    rfl

theorem Streaming.write (streaming : Streaming disk path temporary written buffer state)
    (bytes rest : List UInt8) :
    Streaming disk path temporary (written ++ bytes) rest
      { state.drain temporary bytes with stream := some ⟨temporary, rest⟩ } where
  staged := ⟨streaming.staged.apart, streaming.staged.fresh,
    (streaming.staged.drain bytes).files⟩
  stream := rfl

/-- A name that goes on after the name of the target is another one. -/
theorem temporary_ne (path : FilePath) (random : String) :
    (⟨path.parent, "." ++ path.name ++ "." ++ random⟩ : FilePath) ≠ path := by
  intro same
  have length := congrArg (fun file => file.name.length) same
  simp only [String.length_append] at length
  have dot : ".".length = 1 := rfl
  omega

theorem staged_of_created {random : String} (files : state.files = disk.files)
    (fresh : state.files ⟨path.parent, "." ++ path.name ++ "." ++ random⟩ = none) :
    Staged disk path ⟨path.parent, "." ++ path.name ++ "." ++ random⟩ []
      (state.setFile ⟨path.parent, "." ++ path.name ++ "." ++ random⟩ (some [])) where
  apart := temporary_ne path random
  fresh := by rw [← files, fresh]
  files := by
    unfold Disk.setFile
    rw [files]

/-- Removing the temporary file leaves the files as they were. -/
theorem Staged.unlink (staged : Staged disk path temporary written state) :
    (state.setFile temporary none).files = disk.files := by
  unfold Disk.setFile
  rw [staged.files]
  dsimp only
  rw [Function.update_idem, ← staged.fresh, Function.update_eq_self]

/-- Replacing the target moves the new contents there. -/
theorem Staged.replace (staged : Staged disk path temporary written state) :
    ((state.setFile temporary none).setFile path (some written)).files =
      Function.update disk.files path (some written) := by
  rw [← staged.unlink]
  rfl

/-! ### The program -/

section Steps

variable (disk path temporary contents)

/-- What the body of the stream leaves. -/
def Streamed (outcome : Except Raised Unit) (state : Disk) : Prop :=
  ∃ written buffer, Streaming disk path temporary written buffer state ∧
    (outcome = .ok () → written = utf8 contents ∧ buffer = [])

/-- What is left when the stream is closed. -/
def Closed (outcome : Except Raised Unit) (state : Disk) : Prop :=
  ∃ written, Staged disk path temporary written state ∧
    (outcome = .ok () → written = utf8 contents)

/-- The new contents are where they belong, or nothing has changed. -/
def Settled (outcome : Except Raised Unit) (state : Disk) : Prop :=
  match outcome with
  | .ok () => state.files = Function.update disk.files path (some (utf8 contents))
  | .error _ => state.files = disk.files

/-- An exception has left the temporary file behind, and nothing else has changed. -/
def Abandoned (outcome : Except Raised Unit) (state : Disk) : Prop :=
  (∃ raised, outcome = .error raised) ∧
    ∃ temporary written, Temporary path temporary ∧ Staged disk path temporary written state

/-- What is left before the cleanup. -/
def Replaced (outcome : Except Raised Unit) (state : Disk) : Prop :=
  match outcome with
  | .ok () => temporary ≠ path ∧ disk.files temporary = none ∧
      state.files = Function.update disk.files path (some (utf8 contents))
  | .error _ => ∃ written, Staged disk path temporary written state

end Steps

/-- The bytes of the contents are in the file or in the buffer, unless an error is raised. -/
theorem write_keeps (streaming : Streaming disk path temporary [] [] state) :
    Keeps Performs (OldOrNew disk path contents)
      (fun outcome after => ∃ written buffer,
        Streaming disk path temporary written buffer after ∧
          (outcome = .ok () → written ++ buffer = utf8 contents))
      (perform (.write contents)) state := by
  refine keeps_query streaming.staged.oldOrNew ?_
  intro answer after answered
  cases answered with
  | @write _ _ _ taken left now later _ opened takes all writes =>
      cases streaming.stream.symm.trans opened
      have next := streaming.write now later
      refine ⟨next.staged.oldOrNew, _, _, next, ?_⟩
      intro ok
      rw [all ok, List.append_nil] at takes
      rw [List.nil_append] at writes
      rw [List.nil_append, takes, writes]

theorem flush_keeps (streaming : Streaming disk path temporary written buffer state)
    (complete : written ++ buffer = utf8 contents) :
    Keeps Performs (OldOrNew disk path contents) (Streamed disk path temporary contents)
      (perform .flush) state := by
  refine keeps_query streaming.staged.oldOrNew ?_
  intro answer final answered
  cases answered with
  | @flush _ _ now later _ opened writes all =>
      cases streaming.stream.symm.trans opened
      have next := streaming.write now later
      refine ⟨next.staged.oldOrNew, _, _, next, ?_⟩
      intro ok
      have nothing := all ok
      subst nothing
      rw [List.append_nil] at writes
      exact ⟨writes ▸ complete, rfl⟩

theorem writeStream_keeps (streaming : Streaming disk path temporary [] [] state) :
    Keeps Performs (OldOrNew disk path contents) (Streamed disk path temporary contents)
      (writeStream contents) state := by
  refine (write_keeps streaming).andThen ?_ ?_
  · rintro ⟨⟩ after ⟨written, buffer, streaming, complete⟩
    refine (flush_keeps streaming (complete rfl)).andThen ?_ ?_
    · rintro ⟨⟩ final ⟨written, buffer, streaming, complete⟩
      refine keeps_query streaming.staged.oldOrNew ?_
      intro answer last answered
      cases answered
      exact ⟨streaming.staged.oldOrNew, written, buffer, streaming, fun _ => complete rfl⟩
    · rintro raised final ⟨written, buffer, streaming, _⟩
      exact ⟨written, buffer, streaming, nofun⟩
  · rintro raised after ⟨written, buffer, streaming, _⟩
    exact ⟨written, buffer, streaming, nofun⟩

theorem fdopen_keeps (staged : Staged disk path temporary [] state) :
    Keeps Performs (OldOrNew disk path contents)
      (fun outcome after => Staged disk path temporary [] after ∧
        (outcome = .ok () → after.stream = some ⟨temporary, []⟩))
      (perform (.fdopen temporary)) state := by
  refine keeps_query staged.oldOrNew ?_
  intro answer after answered
  cases answered with
  | fdopened => exact ⟨staged.oldOrNew, ⟨staged.apart, staged.fresh, staged.files⟩, fun _ => rfl⟩
  | notFdopened => exact ⟨staged.oldOrNew, staged, nofun⟩

/-- Closing the stream writes what the buffer holds back. -/
theorem close_keeps {outcome : Except Raised Unit}
    (streamed : Streamed disk path temporary contents outcome state) :
    Keeps Performs (OldOrNew disk path contents)
      (fun closed => Closed disk path temporary contents (closed.bind fun _ => outcome))
      (perform .close) state := by
  obtain ⟨written, buffer, streaming, complete⟩ := streamed
  refine keeps_query streaming.staged.oldOrNew ?_
  intro answer last answered
  cases answered with
  | @close _ _ now later _ opened writes all =>
      cases streaming.stream.symm.trans opened
      have next := (streaming.write now later).staged
      have kept : Staged disk path temporary (written ++ now)
          { state.drain temporary now with stream := none } :=
        ⟨next.apart, next.fresh, next.files⟩
      refine ⟨kept.oldOrNew, _, kept, ?_⟩
      intro ok
      cases answer with
      | error raised => cases ok
      | ok =>
          obtain ⟨rfl, rfl⟩ := complete ok
          rw [(List.append_eq_nil_iff.mp writes.symm).1, List.append_nil]

theorem withStream_keeps (staged : Staged disk path temporary [] state) :
    Keeps Performs (OldOrNew disk path contents) (Closed disk path temporary contents)
      (withStream temporary (writeStream contents)) state := by
  refine (fdopen_keeps staged).andThen ?_ ?_
  · rintro ⟨⟩ after ⟨staged, stream⟩
    exact (writeStream_keeps ⟨staged, stream rfl⟩).tryFinally fun _ _ _ => close_keeps
  · rintro raised after ⟨staged, _⟩
    exact ⟨[], staged, nofun⟩

theorem Replaced.oldOrNew {outcome : Except Raised Unit}
    (replaced : Replaced disk path temporary contents outcome state) :
    OldOrNew disk path contents state := by
  cases outcome with
  | ok =>
      right
      rw [replaced.2.2, Function.update_self]
  | error raised =>
      obtain ⟨written, staged⟩ := replaced
      exact staged.oldOrNew

/-- The body that the cleanup follows. -/
theorem replace_keeps (staged : Staged disk path temporary [] state) :
    Keeps Performs (OldOrNew disk path contents) (Replaced disk path temporary contents)
      ((withStream temporary (writeStream contents)).andThen fun () =>
        perform (.replace temporary path)) state := by
  refine (withStream_keeps staged).andThen ?_ ?_
  · rintro ⟨⟩ after ⟨written, staged, complete⟩
    obtain rfl := complete rfl
    refine keeps_query staged.oldOrNew ?_
    intro answer last answered
    cases answered with
    | replaced found =>
        rw [staged.files, Function.update_self, Option.some.injEq] at found
        subst found
        have settled := staged.replace
        exact ⟨.inr (by rw [settled, Function.update_self]), staged.apart, staged.fresh, settled⟩
    | notReplaced => exact ⟨staged.oldOrNew, _, staged⟩
  · rintro raised after ⟨written, staged, _⟩
    exact ⟨written, staged⟩

/-! ### The cleanup -/

section Cleanup

variable {answers : Behaviour FileCall FileAnswer Disk} {outcome : Except Raised Unit}

/-- Only a temporary file that has not replaced the target is there to be removed. -/
theorem removeTemporary_keeps_of (post : Except Raised Unit → Disk → Prop)
    (same : ∀ state call answer after, call.removes = false →
      answers state call answer after → Performs state call answer after)
    (replaced : Replaced disk path temporary contents outcome state)
    (kept : outcome = .ok () → post (.ok ()) state)
    (unlinked : ∀ written answer after, (∃ raised, outcome = .error raised) →
      Staged disk path temporary written state → answers state (.unlink temporary) answer after →
        OldOrNew disk path contents after ∧ post (answer.bind fun _ => outcome) after) :
    Keeps answers (OldOrNew disk path contents)
      (fun cleaned => post (cleaned.bind fun _ => outcome)) (removeTemporary temporary) state := by
  have looked : Keeps answers (OldOrNew disk path contents)
      (fun found after => found = (state.files temporary).isSome ∧ after = state)
      (perform (.pathExists temporary)) state := by
    refine keeps_query replaced.oldOrNew ?_
    intro answer after answered
    cases same _ _ _ _ rfl answered
    exact ⟨replaced.oldOrNew, rfl, rfl⟩
  refine looked.bind ?_
  rintro found after _ ⟨present, rfl⟩
  cases outcome with
  | ok =>
      -- the target was replaced by the temporary file
      have settled := replaced.2.2
      rw [settled, Function.update_of_ne replaced.1, replaced.2.1] at present
      subst present
      exact keeps_pure replaced.oldOrNew (kept rfl)
  | error raised =>
      obtain ⟨written, staged⟩ := replaced
      rw [staged.files, Function.update_self] at present
      subst present
      exact keeps_query staged.oldOrNew fun answer last => unlinked written answer last ⟨_, rfl⟩
        staged

theorem removeTemporary_keeps
    (replaced : Replaced disk path temporary contents outcome state) :
    Keeps Performs (OldOrNew disk path contents)
      (fun cleaned => Settled disk path contents (cleaned.bind fun _ => outcome))
      (removeTemporary temporary) state := by
  refine removeTemporary_keeps_of (Settled disk path contents) (fun _ _ _ _ _ => id) replaced
    ?_ ?_
  · rintro rfl
    exact replaced.2.2
  · rintro written answer after ⟨raised, rfl⟩ staged answered
    cases answered
    exact ⟨.inl (congrFun staged.unlink path), staged.unlink⟩

theorem removeTemporary_may_keep (named : Temporary path temporary)
    (replaced : Replaced disk path temporary contents outcome state) :
    Keeps MayPerform (OldOrNew disk path contents)
      (fun cleaned after => Settled disk path contents (cleaned.bind fun _ => outcome) after ∨
        Abandoned disk path (cleaned.bind fun _ => outcome) after)
      (removeTemporary temporary) state := by
  refine removeTemporary_keeps_of
    (fun outcome after => Settled disk path contents outcome after ∨
      Abandoned disk path outcome after)
    (fun _ _ _ _ => MayPerform.performs) replaced ?_ ?_
  · rintro rfl
    exact .inl replaced.2.2
  · rintro written answer after ⟨raised, rfl⟩ staged answered
    cases answered with
    | performed performs =>
        cases performs
        exact ⟨.inl (congrFun staged.unlink path), .inl staged.unlink⟩
    | notUnlinked =>
        exact ⟨staged.oldOrNew, .inr ⟨⟨_, rfl⟩, temporary, written, named, staged⟩⟩

theorem asks_replace (path temporary : FilePath) (contents : String) :
    Asks (fun call => call.removes = false)
      ((withStream temporary (writeStream contents)).andThen fun () =>
        perform (.replace temporary path)) := by
  have asks {call : FileCall} (other : call.removes = false) :
      Asks (fun call => call.removes = false) (perform call) := asks_query other
  have written : Asks (fun call => call.removes = false) (writeStream contents) :=
    (asks rfl).andThen fun _ => (asks rfl).andThen fun _ => asks rfl
  have closed : Asks (fun call => call.removes = false)
      (withStream temporary (writeStream contents)) :=
    (asks rfl).andThen fun _ => written.tryFinally (asks rfl)
  exact closed.andThen fun _ => asks rfl

/-- What is left of a write when the rest of its calls do what they do depends on the cleanup. -/
theorem atomicWrite_keeps_of {post : Except Raised Unit → Disk → Prop} (disk : Disk)
    (path : FilePath) (contents : String)
    (same : ∀ state call answer after, call.removes = false →
      answers state call answer after → Performs state call answer after)
    (unchanged : ∀ raised state, state.files = disk.files → post (.error raised) state)
    (cleans : ∀ temporary outcome state, Temporary path temporary →
      Replaced disk path temporary contents outcome state →
      Keeps answers (OldOrNew disk path contents)
        (fun cleaned => post (cleaned.bind fun _ => outcome)) (removeTemporary temporary) state) :
    Keeps answers (OldOrNew disk path contents) post (atomicWrite path contents) disk := by
  have old {state : Disk} (files : state.files = disk.files) :
      OldOrNew disk path contents state := .inl (congrFun files path)
  have made : Keeps answers (OldOrNew disk path contents)
      (fun _ after => after.files = disk.files) (perform (.mkdir path.parent)) disk := by
    refine keeps_query (old rfl) ?_
    intro answer after answered
    cases same _ _ _ _ rfl answered
    exact ⟨old rfl, rfl⟩
  refine made.andThen ?_ unchanged
  rintro ⟨⟩ state files
  have created : Keeps answers (OldOrNew disk path contents)
      (fun outcome after => match outcome with
        | .ok temporary => Temporary path temporary ∧ Staged disk path temporary [] after
        | .error _ => after.files = disk.files)
      (perform (.mkstemp path.parent ("." ++ path.name ++ "."))) state := by
    refine keeps_query (old files) ?_
    intro answer after answered
    cases same _ _ _ _ rfl answered with
    | created parent fresh =>
        have staged := staged_of_created files fresh
        exact ⟨staged.oldOrNew, ⟨_, rfl⟩, staged⟩
    | notCreated => exact ⟨old files, files⟩
  refine created.andThen ?_ unchanged
  rintro temporary after ⟨named, staged⟩
  have body := (replace_keeps staged).of_asks (asks_replace path temporary contents) same
  exact body.tryFinally fun outcome final _ => cleans temporary outcome final named

end Cleanup

theorem atomicWrite_keeps (disk : Disk) (path : FilePath) (contents : String) :
    Keeps Performs (OldOrNew disk path contents) (Settled disk path contents)
      (atomicWrite path contents) disk :=
  atomicWrite_keeps_of disk path contents (fun _ _ _ _ _ => id) (fun _ _ => id)
    fun _ _ _ _ => removeTemporary_keeps

/-- With an exception that comes from `unlink`, the temporary file is left. -/
theorem atomicWrite_may_keep (disk : Disk) (path : FilePath) (contents : String) :
    Keeps MayPerform (OldOrNew disk path contents)
      (fun outcome after => Settled disk path contents outcome after ∨
        Abandoned disk path outcome after)
      (atomicWrite path contents) disk :=
  atomicWrite_keeps_of disk path contents (fun _ _ _ _ => MayPerform.performs)
    (fun _ _ => .inl) fun _ _ _ => removeTemporary_may_keep

/-- Whichever calls fail: if `atomic_write` returns, the target has exactly the contents, and
if it raises, the target is as before.  All other files are as before, so no temporary one is
left.  In all states on the way the target has its old or its complete new contents. -/
theorem atomicWrite_atomic {disk final : Disk} {path : FilePath} {contents : String}
    {states : List Disk} {outcome : Except Raised Unit}
    (execution : Executes Performs (atomicWrite path contents) disk states outcome final) :
    (outcome = .ok () → final.files path = some (utf8 contents)) ∧
      (∀ raised, outcome = .error raised → final.files path = disk.files path) ∧
      (∀ other, other ≠ path → final.files other = disk.files other) ∧
      ∀ state ∈ states, state.files path = disk.files path ∨
        state.files path = some (utf8 contents) := by
  obtain ⟨oldOrNew, settled⟩ := (atomicWrite_keeps disk path contents).of_executes execution
  cases outcome with
  | ok =>
      have files : final.files = Function.update disk.files path (some (utf8 contents)) := settled
      refine ⟨fun _ => by rw [files, Function.update_self], nofun, ?_, oldOrNew⟩
      intro other apart
      rw [files, Function.update_of_ne apart]
  | error raised =>
      have files : final.files = disk.files := settled
      exact ⟨nofun, fun _ _ => congrFun files path, fun other _ => congrFun files other, oldOrNew⟩

namespace Sample

def results : FilePath := ⟨"reports", "results.json"⟩

/-- A folder with an old report. -/
def reports : Disk where
  folders _ := true
  files path := if path = results then some (utf8 "[]") else none
  stream := none

def noSpace : Raised := ⟨"OSError", false, "[Errno 28] No space left on device"⟩

/-- The write fails after its first byte, which closing the stream brings to the file. -/
theorem write_stopped : ∃ states final,
    Executes Performs (atomicWrite results "\x7b\x7d") reports states (.error noSpace) final :=
  ⟨_, _, .ask (@Performs.mkdir _ _ (fun _ => true) (.ok ()) (fun _ _ => rfl) (fun _ => rfl))
    (.ask (@Performs.created _ _ _ "tmp" rfl rfl)
      (.ask .fdopened
        (.ask (@Performs.write _ _ _ [123] [125] [] [123] (.error noSpace) rfl rfl nofun rfl)
          (.ask (@Performs.close _ _ [123] [] (.ok ()) rfl rfl (fun _ => rfl))
            (.ask .pathExists (.ask .unlink .done))))))⟩

theorem write_completed : ∃ states final,
    Executes Performs (atomicWrite results "\x7b\x7d") reports states (.ok ()) final :=
  ⟨_, _, .ask (@Performs.mkdir _ _ (fun _ => true) (.ok ()) (fun _ _ => rfl) (fun _ => rfl))
    (.ask (@Performs.created _ _ _ "tmp" rfl rfl)
      (.ask .fdopened
        (.ask (@Performs.write _ _ _ [123, 125] [] [] [123, 125] (.ok ()) rfl rfl (fun _ => rfl)
            rfl)
          (.ask (@Performs.flush _ _ [123, 125] [] (.ok ()) rfl rfl (fun _ => rfl))
            (.ask (@Performs.fsync _ (.ok ()))
              (.ask (@Performs.close _ _ [] [] (.ok ()) rfl rfl (fun _ => rfl))
                (.ask (.replaced rfl) (.ask .pathExists .done))))))))⟩

end Sample

/-- A run that fails keeps the old report, and one that does not gives the new one. -/
theorem atomicWrite_atomic_sample :
    (∃ states final,
      Executes Performs (atomicWrite Sample.results "\x7b\x7d") Sample.reports states
        (.error Sample.noSpace) final ∧ final.files Sample.results = some (utf8 "[]")) ∧
      ∃ states final,
        Executes Performs (atomicWrite Sample.results "\x7b\x7d") Sample.reports states (.ok ())
          final ∧ final.files Sample.results = some (utf8 "\x7b\x7d") := by
  obtain ⟨states, final, stopped⟩ := Sample.write_stopped
  obtain ⟨others, last, completed⟩ := Sample.write_completed
  exact ⟨⟨states, final, stopped, (atomicWrite_atomic stopped).2.1 _ rfl⟩,
    others, last, completed, (atomicWrite_atomic completed).1 rfl⟩

end ApiSentinel
