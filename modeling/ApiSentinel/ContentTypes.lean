import Mathlib.Tactic.NormNum
import ApiSentinel.Correspondence
import ApiSentinel.MediaTypes
import ApiSentinel.Responses
import ApiSentinel.Sending
import ApiSentinel.StepRendering

/-!
# The spelling of a Content-Type

`CaseExecutor.step` takes the text before the first semicolon of a Content-Type as its media
type, in lower case but with the white space that stands before the semicolon.  So the
spelling does not matter where there is no such white space, and a JSON body is not
parsed where there is.
-/

namespace ApiSentinel

open Program MediaTypes

/-! ### Responses that differ in one header -/

/-- Dictionaries of headers that differ in the spelling of the Content-Type at most. -/
structure AlikeHeaders (one two : String) (headers other : Headers) : Prop where
  contentType : headers.lookup "content-type" = other.lookup "content-type" ∨
    headers.lookup "content-type" = some one ∧ other.lookup "content-type" = some two
  others : ∀ name, name ≠ "content-type" → headers.lookup name = other.lookup name

structure AlikeResponses (one two : String) (response other : Response) : Prop where
  statusCode : response.statusCode = other.statusCode
  headers : AlikeHeaders one two response.headers other.headers
  chunks : response.chunks = other.chunks
  failure : response.failure = other.failure

/-- Answers that differ in the spelling of a Content-Type at most. -/
def AlikeAnswers (one two : String) : (question : Ask) → Answer question → Answer question → Prop
  | .stream _, answer, other => AlikeOutcomes (AlikeResponses one two) answer other
  | .monotonic, answer, other | .leaseValid, answer, other | .sleep _, answer, other =>
      answer = other

/-- A complete response, up to the spelling of the Content-Type. -/
def AlikeReceived (one two : String) (received other : Headers × Content) : Prop :=
  AlikeHeaders one two received.1 other.1 ∧ received.2 = other.2

section Executor

variable {executor : CaseExecutor} {one two : String} {deadline : Rat}

abbrev Alike (one two : String) {First Second : Type} (related : First → Second → Prop) :
    Execution First → Execution Second → Prop :=
  Corresponds (AlikeAnswers one two) related

theorem alike_monotonic : Alike one two Eq monotonic monotonic :=
  Corresponds.query (AlikeAnswers one two) .monotonic

theorem alike_leaseValid : Alike one two Eq leaseValid leaseValid :=
  Corresponds.query (AlikeAnswers one two) .leaseValid

theorem alike_sleep (seconds : Rat) : Alike one two Eq (sleep seconds) (sleep seconds) :=
  Corresponds.query (AlikeAnswers one two) (.sleep seconds)

theorem alike_stream (request : Request) :
    Alike one two (AlikeOutcomes (AlikeResponses one two)) (stream request) (stream request) :=
  Corresponds.query (AlikeAnswers one two) (.stream request)

theorem alike_readChunks {failure : Option HttpError} (chunks : List Content)
    (content : Content) :
    Alike one two Eq (executor.readChunks deadline failure content chunks)
      (executor.readChunks deadline failure content chunks) := by
  induction chunks generalizing content with
  | nil =>
      cases failure with
      | none => exact .done rfl
      | some error => exact .done rfl
  | cons chunk chunks ih =>
      unfold CaseExecutor.readChunks
      split
      · exact .done rfl
      · refine .bind alike_monotonic ?_
        rintro now _ rfl
        split
        · exact .done rfl
        · refine .bind alike_leaseValid ?_
          rintro valid _ rfl
          cases valid with
          | false => exact .done rfl
          | true => exact ih _

theorem alike_exchange (request : Request) :
    Alike one two
      (fun result other => result.1 = other.1 ∧
        AlikeOutcomes (AlikeReceived one two) result.2 other.2)
      (executor.exchange request deadline) (executor.exchange request deadline) := by
  refine .bind (alike_stream request) ?_
  intro answer other same
  cases same with
  | error => exact .done ⟨rfl, .error⟩
  | @ok response other same =>
      dsimp only
      rw [← same.statusCode, ← same.chunks, ← same.failure]
      refine .bind (alike_readChunks response.chunks []) ?_
      rintro body _ rfl
      cases body with
      | error error => exact .done ⟨rfl, .error⟩
      | ok content => exact .done ⟨rfl, .ok ⟨same.headers, rfl⟩⟩

theorem alike_send {step : Step} {method path : String} {vars : Variables}
    (progress : Progress) :
    Alike one two
      (fun result other => result.1 = other.1 ∧
        AlikeOutcomes (AlikeReceived one two) result.2 other.2)
      (executor.send step method path vars deadline progress)
      (executor.send step method path vars deadline progress) := by
  fun_induction CaseExecutor.send executor step method path vars deadline progress with
  | case1 progress ih =>
      refine .bind alike_leaseValid ?_
      rintro valid _ rfl
      cases valid with
      | false => exact .done ⟨rfl, .error⟩
      | true =>
          refine .bind alike_monotonic ?_
          rintro now _ rfl
          dsimp only
          split
          · exact .done ⟨rfl, .error⟩
          · refine .bind (alike_exchange _) ?_
            rintro ⟨status, outcome⟩ ⟨_, other⟩ ⟨rfl, same⟩
            cases same with
            | ok same => exact .done ⟨rfl, .ok same⟩
            | @error error =>
                dsimp only
                split
                · exact .done ⟨rfl, .error⟩
                · rename_i retries
                  refine .bind alike_monotonic ?_
                  rintro later _ rfl
                  refine .bind (alike_sleep _) ?_
                  rintro _ _ _
                  exact ih status error retries

theorem alike_raisedResult {rawStep : Step} {phase : Phase} {started : Rat}
    {progress : Progress} {raised : Raised} :
    Alike one two Eq (CaseExecutor.raisedResult rawStep phase started progress raised)
      (CaseExecutor.raisedResult rawStep phase started progress raised) := by
  refine .bind alike_monotonic ?_
  rintro now _ rfl
  exact .done rfl

/-- Where the verdict does not depend on the spelling, neither does the result of a step. -/
theorem alike_step (rawStep : Step) (phase : Phase) (vars : Variables) (deadline : Rat)
    (judges : ∀ (step : Step) (statusCode : Int) (headers other : Headers) (content : Content)
      (elapsed : Rat), AlikeHeaders one two headers other →
        executor.verdict step statusCode headers content elapsed =
          executor.verdict step statusCode other content elapsed) :
    Alike one two Eq (executor.step rawStep phase vars deadline)
      (executor.step rawStep phase vars deadline) := by
  unfold CaseExecutor.step
  refine .bind alike_monotonic ?_
  rintro started _ rfl
  split
  · exact alike_raisedResult
  · rename_i step _
    split
    · exact alike_raisedResult
    · split
      · exact .done rfl
      · refine .bind (alike_send {}) ?_
        rintro ⟨progress, outcome⟩ ⟨_, other⟩ ⟨rfl, same⟩
        cases same with
        | error => exact alike_raisedResult
        | @ok received other same =>
            obtain ⟨headers, content⟩ := received
            obtain ⟨spelled, _⟩ := other
            obtain ⟨alike, rfl⟩ := same
            refine .bind alike_monotonic ?_
            rintro now _ rfl
            dsimp only
            rw [judges _ _ _ _ _ _ alike]
            cases executor.verdict step (progress.statusCode.getD 0) spelled content
                ((now - started) * 1000) with
            | error raised => exact alike_raisedResult
            | ok failures => exact .done rfl

end Executor

/-! ### The checks of a response -/

namespace Contract

variable {contract : Contract}

/-- No response that the operations declare has a header named Content-Type. -/
def LeavesContentType (contract : Contract) : Prop :=
  ∀ name operation status definition headers declared,
    contract.operation? name = some operation →
    contract.responseDefinition operation.operation status = .ok definition →
    definition.get "headers" (.obj []) = .ok headers → headers.items = .ok declared →
    ∀ entry ∈ declared, contract.library.lower entry.1 ≠ "content-type"

theorem responseErrors_congr (leaves : contract.LeavesContentType) {one two : String}
    {headers other : Headers} (alike : AlikeHeaders one two headers other) (step : Step)
    (status : Int) (body : Json) (hasBody isJson : Bool) :
    contract.responseErrors step status headers body hasBody isJson =
      contract.responseErrors step status other body hasBody isJson := by
  unfold responseErrors
  split
  · rfl
  · rename_i operation found
    split
    · rfl
    · rename_i definition defined
      refine bind_congr ?_
      rintro ⟨errors, goesOn⟩
      cases goesOn with
      | false => rfl
      | true =>
          dsimp only
          refine except_bind_congr fun value given => ?_
          refine except_bind_congr fun declared listed => ?_
          have same : gather (contract.headerErrors headers) declared =
              gather (contract.headerErrors other) declared := by
            refine gather_forall₂ (List.forall₂_same.mpr ?_) fun _ _ agree => agree
            intro entry member
            have apart := leaves _ _ _ _ _ _ found defined given listed entry member
            unfold headerErrors
            rw [alike.others _ apart]
          rw [same]

end Contract

/-- A Content-Type is read as JSON if and only if it names this media type and has no white
space before its first semicolon. -/
theorem mediaType_eq_iff {spelling : Spelling} {headers : Headers}
    (given : headers.lookup "content-type" = some spelling.text) :
    mediaType headers = "application/json" ↔
      spelling.Names "application" "json" ∧ spelling.Tight := by
  unfold mediaType
  rw [given]
  have whole : "application/json" = "application" ++ "/" ++ "json" := by decide
  rw [whole]
  exact spelling.toLower_eq_iff (by decide)

theorem mediaType_beq_eq {spelling : Spelling} {headers : Headers}
    (given : headers.lookup "content-type" = some spelling.text) (tight : Bool)
    (reads : tight = true ↔ spelling.Names "application" "json" ∧ spelling.Tight) :
    (mediaType headers == "application/json") = tight := by
  rw [Bool.eq_iff_iff, beq_iff_eq, reads]
  exact mediaType_eq_iff given

theorem mediaType_congr {one two : Spelling} {headers other : Headers}
    (alike : AlikeHeaders one.text two.text headers other)
    (reads : one.Names "application" "json" ∧ one.Tight ↔
      two.Names "application" "json" ∧ two.Tight) :
    (mediaType headers == "application/json") = (mediaType other == "application/json") := by
  rcases alike.contentType with same | ⟨first, second⟩
  · unfold mediaType
    rw [same]
  · rw [Bool.eq_iff_iff, beq_iff_eq, beq_iff_eq, mediaType_eq_iff first, mediaType_eq_iff second]
    exact reads

theorem verdict_congr {contract : Contract} {executor : CaseExecutor} {host : Host}
    (harnessed : executor.harness = contract.harness host)
    (leaves : contract.LeavesContentType) {one two : String} {headers other : Headers}
    (alike : AlikeHeaders one two headers other)
    (media : (mediaType headers == "application/json") = (mediaType other == "application/json"))
    (step : Step) (statusCode : Int) (content : Content) (elapsed : Rat) :
    executor.verdict step statusCode headers content elapsed =
      executor.verdict step statusCode other content elapsed := by
  have checks : executor.harness.responseErrors = contract.responseErrors := by
    rw [harnessed]
    rfl
  unfold CaseExecutor.verdict
  rw [media, checks]
  refine bind_congr ?_
  rintro ⟨body, isJson⟩
  dsimp only
  rw [Contract.responseErrors_congr leaves alike]

/-! ### The law -/

/-- In every execution of a step against an accepted contract that declares no Content-Type,
the status and the messages are the same for the two spellings. -/
def SpellingLaw (one two : String) : Prop :=
  ∀ (library : Library) (document : List (String × Json)) (contract : Contract),
    Contract.init library document = .ok contract → contract.LeavesContentType →
    ∀ (executor : CaseExecutor) (host : Host), executor.harness = contract.harness host →
    ∀ (rawStep : Step) (phase : Phase) (vars : Variables) (deadline : Rat)
      (environment surroundings : Environment Ask Answer),
      AnswerAlike (AlikeAnswers one two) environment surroundings →
    ∀ (trace course : Execution.Trace) (result outcome : StepResult),
      Follows environment [] trace →
      Runs (executor.step rawStep phase vars deadline) trace result →
      Follows surroundings [] course →
      Runs (executor.step rawStep phase vars deadline) course outcome →
      result.status = outcome.status ∧ result.messages = outcome.messages

/-- A well-formed body under the Content-Type is parsed and validated against the schema that
the response declares for JSON. -/
def ReadsJson (contentType : String) : Prop :=
  ∀ (contract : Contract) (executor : CaseExecutor) (host : Host),
    executor.harness = contract.harness host →
    ∀ (headers : Headers) (content : Content) (body : Json),
      headers.lookup "content-type" = some contentType → content ≠ [] →
      host.loads content = .ok body →
    ∀ definition declared media : List (String × Json),
      (definition.lookup "content").getD (.obj []) = .obj declared →
      declared.lookup "application/json" = some (.obj media) →
      (do
        let (value, isJson) ←
          executor.decode content (mediaType headers == "application/json")
        contract.contentErrors (.obj definition) value (!content.isEmpty) isJson) =
      do
        let schema := (media.lookup "schema").getD (.obj [])
        pure (← contract.errors schema body "response body", true)

/-! ### A server that answers with one Content-Type -/

namespace Sample

def parsing : Host := { host with loads := fun _ => .ok (.obj [("id", .int 7)]) }

def reader : CaseExecutor where
  harness := contract.harness parsing
  baseUrl := "http://test"

def spelled (text : String) : Response where
  statusCode := 200
  headers := [("content-type", text)]
  chunks := [[0x37]]

/-- A server that always answers so, to a client for which no time passes. -/
def served (text : String) : (question : Ask) → Answer question
  | .monotonic => (0 : Rat)
  | .leaseValid => true
  | .stream _ => .ok (spelled text)
  | .sleep _ => ()

theorem told_send (text : String) :
    told (served text) (reader.send read "GET" "/items/7" vars 60 {}) =
      (⟨1, some 200⟩, .ok ((spelled text).headers, [0x37])) := by
  rw [CaseExecutor.send]
  change told (served text) (if (60 : Rat) - 0 ≤ 0 then _ else _) = _
  rw [if_neg (by norm_num)]
  rfl

theorem rendered : reader.harness.render vars read = .ok read := by rfl

theorem requested : reader.harness.request read = .ok ("GET", "/items/7", []) := by rfl

theorem told_step (text : String) {failures : List String}
    (judged : reader.verdict read 200 (spelled text).headers [0x37] ((0 - 0) * 1000) =
      .ok failures) :
    (told (served text) (reader.step read .test vars 60)).messages = failures := by
  have readings : told (served text) monotonic = (0 : Rat) := rfl
  unfold CaseExecutor.step
  rw [told_bind, readings, rendered]
  dsimp only
  rw [requested]
  dsimp only
  rw [if_neg (not_not_intro rfl), told_bind, told_send]
  dsimp only
  rw [told_bind, readings, Option.getD_some, judged]
  rfl

theorem alike_served {one two : String} (question : Ask) :
    AlikeAnswers one two question (served one question) (served two question) := by
  cases question with
  | monotonic | leaseValid | sleep => rfl
  | stream request =>
      refine .ok ⟨rfl, ⟨.inr ⟨rfl, rfl⟩, ?_⟩, rfl, rfl⟩
      intro name apart
      have differs : (name == "content-type") = false := beq_eq_false_iff_ne.mpr apart
      simp [spelled, differs]

theorem leaves : contract.LeavesContentType := by
  intro name operation status definition headers declared found defined given listed entry member
  have same : operation = readItem := by
    unfold Contract.operation? at found
    obtain ⟨known, picked, rfl⟩ := Option.map_eq_some_iff.mp found
    cases List.mem_singleton.mp (List.mem_of_find?_eq_some picked)
    rfl
  subst operation
  have responds : readItem.operation.get "responses" (.obj []) = .ok (.obj [("200", _)]) := rfl
  obtain ⟨raw, _, selects, resolved⟩ :=
    (Contract.responseDefinition_eq_ok_iff responds).mp defined
  obtain ⟨key, inside⟩ := selects.mem
  cases List.mem_singleton.mp inside
  cases resolved
  cases given
  cases listed
  cases List.mem_singleton.mp member
  decide

/-- The body is validated, and then a header is missing, if the Content-Type is read as JSON. -/
theorem told_messages_iff {spelling : Spelling} (names : spelling.Names "application" "json") :
    (told (served spelling.text) (reader.step read .test vars 60)).messages =
      ["response: missing required header"] ↔ spelling.Tight := by
  have given : (spelled spelling.text).headers.lookup "content-type" = some spelling.text := rfl
  by_cases tight : spelling.Tight
  · have media := mediaType_beq_eq given true (by simp [names, tight])
    have judged : reader.verdict read 200 (spelled spelling.text).headers [0x37]
        ((0 - 0) * 1000) = .ok ["response: missing required header"] := by
      unfold CaseExecutor.verdict
      rw [media]
      rfl
    rw [told_step _ judged]
    exact iff_of_true rfl tight
  · have media := mediaType_beq_eq given false (by simp [tight])
    have judged : reader.verdict read 200 (spelled spelling.text).headers [0x37]
        ((0 - 0) * 1000) =
          .ok ["response: expected a JSON body and application/json content type"] := by
      unfold CaseExecutor.verdict
      rw [media]
      rfl
    rw [told_step _ judged]
    exact iff_of_false (by decide) tight

end Sample

/-! ### Where the law holds -/

theorem readsJson_iff {spelling : Spelling} (names : spelling.Names "application" "json") :
    ReadsJson spelling.text ↔ spelling.Tight := by
  constructor
  · intro reads
    by_contra loose
    have given : List.lookup "content-type" [("content-type", spelling.text)] =
        some spelling.text := rfl
    have media := mediaType_beq_eq given false (by simp [loose])
    have parsed := reads Sample.contract Sample.reader Sample.parsing rfl _ [0] _ given
      (List.cons_ne_nil 0 []) rfl [("content", .obj [("application/json", .obj [])])] _ []
      rfl rfl
    rw [media] at parsed
    cases parsed
  · intro tight contract executor host harnessed headers content body given nonempty loads
      definition declared media' listed found
    have media := mediaType_beq_eq given true (by simp [names, tight])
    have filled : content.isEmpty = false := by
      rw [List.isEmpty_eq_false_iff]
      exact nonempty
    have decoded : executor.decode content true = .ok (body, true) := by
      have loaded : executor.harness.loads content = .ok body := by
        rw [harnessed]
        exact loads
      unfold CaseExecutor.decode
      rw [filled, loaded]
      rfl
    rw [media, decoded, filled]
    exact Contract.contentErrors_of_media listed found

/-- The law is about executions that come to different messages where it does not hold. -/
theorem SpellingLaw.tight_iff {one two : Spelling} (law : SpellingLaw one.text two.text)
    (first : one.Names "application" "json") (second : two.Names "application" "json") :
    one.Tight ↔ two.Tight := by
  have alike : AnswerAlike (AlikeAnswers one.text two.text)
      (fun _ => Sample.served one.text) (fun _ => Sample.served two.text) :=
    fun _ _ _ => Sample.alike_served
  obtain ⟨trace, result, follows, run⟩ := exists_run
    (Sample.reader.step Sample.read .test Sample.vars 60) (fun _ => Sample.served one.text) []
  obtain ⟨course, outcome, keeps, twin⟩ := exists_run
    (Sample.reader.step Sample.read .test Sample.vars 60) (fun _ => Sample.served two.text) []
  have messages := (law _ _ _ Sample.contract_init Sample.leaves Sample.reader Sample.parsing rfl
    _ _ _ _ _ _ alike _ _ _ _ follows run keeps twin).2
  rw [run.eq_told follows, twin.eq_told keeps] at messages
  rw [← Sample.told_messages_iff first, ← Sample.told_messages_iff second, messages]

/-- The spelling of a Content-Type does not matter if and only if it is not that of JSON or
both spellings have, or both lack, white space before the first semicolon.  JSON is read if and
only if they lack it. -/
theorem content_type_spelling {one two : Spelling} (same : one.Same two) :
    (SpellingLaw one.text two.text ↔
      (one.Names "application" "json" → (one.Tight ↔ two.Tight))) ∧
    (one.Names "application" "json" → (ReadsJson one.text ↔ one.Tight)) := by
  refine ⟨⟨?_, ?_⟩, readsJson_iff⟩
  · intro law names
    exact law.tight_iff names (same.names_iff.mp names)
  · intro tight library document contract accepted leaves executor host harnessed rawStep phase
      vars deadline environment surroundings alike trace course result outcome follows run keeps
      twin
    have reads : one.Names "application" "json" ∧ one.Tight ↔
        two.Names "application" "json" ∧ two.Tight := by
      rw [← same.names_iff]
      exact and_congr_right tight
    have both := alike_step rawStep phase vars deadline
      fun step statusCode headers other content elapsed near =>
        verdict_congr harnessed leaves near (mediaType_congr near reads) step statusCode content
          elapsed
    have equal := both.related_of_runs alike .nil follows run keeps twin
    rw [equal]
    exact ⟨rfl, rfl⟩

/-! ### Three spellings of one type -/

namespace Sample

theorem charset_valid : ParameterText "charset=utf-8".toList :=
  ⟨"charset".toList, "utf-8".toList, by decide, token_of_all (by decide) (by decide),
    .inl (token_of_all (by decide) (by decide))⟩

/-- A character set, after the given white space and a semicolon. -/
def charset (before after : List Char) (before_blank : Blank before)
    (after_blank : Blank after) : Parameter :=
  ⟨before, after, "charset=utf-8".toList, before_blank, after_blank, .inr charset_valid⟩

def plain : Spelling where
  type := "application".toList
  subtype := "json".toList
  parameters := []
  type_token := token_of_all (by decide) (by decide)
  subtype_token := token_of_all (by decide) (by decide)

def cased : Spelling where
  type := "Application".toList
  subtype := "JSON".toList
  parameters := [charset [] [' '] (by simp [Blank]) (by simp [Blank])]
  type_token := token_of_all (by decide) (by decide)
  subtype_token := token_of_all (by decide) (by decide)

def spaced : Spelling where
  type := "application".toList
  subtype := "json".toList
  parameters := [charset [' '] [] (by simp [Blank]) (by simp [Blank])]
  type_token := token_of_all (by decide) (by decide)
  subtype_token := token_of_all (by decide) (by decide)

end Sample

/-- Letter case and a parameter do not matter. -/
theorem content_type_spelling_sample :
    SpellingLaw "application/json" "Application/JSON; charset=utf-8" ∧
      ReadsJson "application/json" := by
  have same : Sample.plain.Same Sample.cased := ⟨by decide, by decide⟩
  have names : Sample.plain.Names "application" "json" := ⟨by decide, by decide⟩
  have tight : Sample.plain.Tight := rfl
  obtain ⟨law, reads⟩ := content_type_spelling same
  exact ⟨law.mpr fun _ => iff_of_true tight rfl, (reads names).mpr tight⟩

/-- White space before the semicolon does. -/
theorem content_type_spelling_counterexample :
    Sample.plain.Same Sample.spaced ∧ Sample.plain.text = "application/json" ∧
      Sample.spaced.text = "application/json ;charset=utf-8" ∧
      ¬ SpellingLaw Sample.plain.text Sample.spaced.text ∧
      ¬ ReadsJson Sample.spaced.text := by
  have names : Sample.plain.Names "application" "json" := ⟨by decide, by decide⟩
  have others : Sample.spaced.Names "application" "json" := ⟨by decide, by decide⟩
  have loose : ¬ Sample.spaced.Tight := List.cons_ne_nil ' ' []
  refine ⟨⟨rfl, rfl⟩, by decide, by decide, ?_, ?_⟩
  · intro law
    exact loose ((law.tight_iff names others).mp rfl)
  · intro reads
    exact loose ((readsJson_iff others).mp reads)

end ApiSentinel
