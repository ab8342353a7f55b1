import ApiSentinel.Loading
import ApiSentinel.Paths
import ApiSentinel.Responses

/-!
# What an execution reads of a contract

Loading a contract follows the references to path items, operations and parameters.  The
request body, the responses and their headers are read only while a step is executed.  They
can be checked, whatever is sent and received, exactly if they are objects where they are
read as objects.
-/

namespace ApiSentinel

theorem gather_ok_iff {Item : Type} {body : Item → Except Raised (List String)}
    {items : List Item} :
    (∃ errors, gather body items = .ok errors) ↔
      ∀ item ∈ items, ∃ errors, body item = .ok errors := by
  induction items with
  | nil => simp [gather]
  | cons item items ih =>
      rw [List.forall_mem_cons, ← ih]
      simp only [gather_cons_eq_ok_iff]
      constructor
      · rintro ⟨_, first, others, ran, rest, _⟩
        exact ⟨⟨first, ran⟩, others, rest⟩
      · rintro ⟨⟨first, ran⟩, others, rest⟩
        exact ⟨_, first, others, ran, rest, rfl⟩

theorem exists_of_gather_error {Item : Type} {body : Item → Except Raised (List String)}
    {items : List Item} {raised : Raised} (failed : gather body items = .error raised) :
    ∃ item ∈ items, body item = .error raised := by
  induction items with
  | nil => cases failed
  | cons item items ih =>
      rw [gather, except_bind_eq_error] at failed
      rcases failed with first | ⟨_, _, failed⟩
      · exact ⟨item, List.mem_cons_self, first⟩
      · rcases except_bind_eq_error.mp failed with later | ⟨_, _, failed⟩
        · obtain ⟨other, member, stopped⟩ := ih later
          exact ⟨other, List.mem_cons_of_mem _ member, stopped⟩
        · cases failed

namespace Contract

variable {contract : Contract} {operation : Operation} {step sent : Step} {status : Int}

/-! ### What an execution reads -/

/-- A schema of the document, or the one that stands for a missing schema. -/
def Schema (contract : Contract) (schema : Json) : Prop :=
  schema = .obj [] ∨ ∃ members, Occurs (.obj contract.document) (.obj members) ∧
    members.lookup "schema" = some schema

/-- The library raises for no value and no schema of the document. -/
def Quiet (contract : Contract) : Prop :=
  ∀ schema value, contract.Schema schema → ∃ keywords,
    contract.library.iterErrors (.obj contract.document) (contract.wrapped schema) value =
      .ok keywords

/-- Every value of the path can be printed, up to the first that is a dot segment. -/
def PathReadable (contract : Contract) : List (String × Json) → Prop
  | [] => True
  | (_, value) :: params => value.printable = true ∧
      (isDotSegment (contract.encoded value) = true ∨ contract.PathReadable params)

/-- The name of a header parameter is a string. -/
def Named (param : Json) : Prop :=
  param.getItem "in" = .ok (.str "header") → ∃ name, param.getItem "name" = .ok (.str name)

/-- The request body is an object, and so is what it has for JSON if the step has a body. -/
def BodyReadable (contract : Contract) (operation jsonBody : Json) : Prop :=
  ∃ raw body, operation.get "requestBody" (.obj []) = .ok raw ∧ contract.Leads raw (.obj body) ∧
    (jsonBody ≠ .null → ∃ content media, (body.lookup "content").getD (.obj []) = .obj content ∧
      (content.lookup "application/json").getD (.obj []) = .obj media)

/-- A declared header is an object, and so is its schema, if it has one. -/
def HeaderReadable (contract : Contract) (raw : Json) : Prop :=
  ∃ header, contract.Leads raw (.obj header) ∧
    ∀ schema, header.lookup "schema" = some schema → ∃ target, contract.Leads schema (.obj target)

def HeadersReadable (contract : Contract) (definition : List (String × Json)) : Prop :=
  ∃ declared, (definition.lookup "headers").getD (.obj []) = .obj declared ∧
    ∀ name raw, (name, raw) ∈ declared → contract.HeaderReadable raw

/-- The definition of a response has content of another type only, after which nothing else
is read, or it has no content, or JSON content, and readable headers. -/
inductive DefinitionReadable (contract : Contract) (definition : List (String × Json)) : Prop
  | unsupported {content} (given : (definition.lookup "content").getD (.obj []) = content)
      (some : content.truthy = true) (lacks : content.contains "application/json" = .ok false)
  | none (empty : ((definition.lookup "content").getD (.obj [])).truthy = false)
      (headers : contract.HeadersReadable definition)
  | json {content media} (given : (definition.lookup "content").getD (.obj []) = .obj content)
      (found : content.lookup "application/json" = some (.obj media))
      (headers : contract.HeadersReadable definition)

/-- For every status that selects a response, the chain of references from it never ends, or
it ends at a readable definition. -/
def ResponsesReadable (contract : Contract) (operation : Json) : Prop :=
  ∀ responses status final, operation.get "responses" (.obj []) = .ok (.obj responses) →
    selected responses status ≠ .null → contract.Leads (selected responses status) final →
    ∃ definition, final = .obj definition ∧ contract.DefinitionReadable definition

/-- What a step makes the contract read can be read. -/
structure Readable (contract : Contract) (operation : Operation) (jsonBody : Json) : Prop where
  params : ∀ param ∈ operation.params, Named param
  body : contract.BodyReadable operation.operation jsonBody
  responses : contract.ResponsesReadable operation.operation

/-! ### References -/

/-- The end of a chain of references has passed `_inspect`, and has no reference itself. -/
theorem inspect_of_leads (whole : contract.Inspected) {value final : Json}
    (inspected : inspect contract.library (.obj contract.document) value = .ok ())
    (leads : contract.Leads value final) :
    inspect contract.library (.obj contract.document) final = .ok () ∧ final.ref? = none := by
  refine Chasing.Ends.invariant (motive := fun value =>
    inspect contract.library (.obj contract.document) value = .ok ()) ?_ inspected leads
  intro ref
  unfold Json.target
  split
  · rename_i target resolved
    obtain ⟨location, addresses⟩ := addresses_of_pointer resolved
    exact inspect_of_addresses whole addresses
  · rfl

/-- A chain of references that ends at an object is followed to it. -/
theorem deref_of_leads_obj (whole : contract.Inspected) {value : Json}
    (inspected : inspect contract.library (.obj contract.document) value = .ok ())
    {members : List (String × Json)} (leads : contract.Leads value (.obj members)) :
    contract.deref value = .ok (.obj members) := by
  obtain ⟨passed, bare⟩ := inspect_of_leads whole inspected leads
  rw [deref_of_leads whole inspected leads]
  cases found : members.lookup "$ref" with
  | none => exact settle_obj found
  | some child =>
      obtain ⟨ref, target, rfl, _⟩ := inspected_ref passed found
      simp [Json.ref?, found, Json.text?] at bare

theorem settle_eq_ok {value final : Json} (settled : settle value = .ok final)
    (object : ∀ members, value ≠ .obj members) : final = value := by
  unfold settle at settled
  obtain ⟨has, _, settled⟩ := except_bind_eq_ok.mp settled
  split at settled
  · cases settled
    rfl
  · obtain ⟨members, rfl, _⟩ := Json.getItem_eq_ok_iff.mp settled
    exact absurd rfl (object members)

theorem type_of_settle_error {value : Json} {raised : Raised}
    (failed : settle value = .error raised) (object : ∀ members, value ≠ .obj members) :
    raised.type = "TypeError" := by
  cases value with
  | obj members => exact absurd rfl (object members)
  | null | bool | int | float | nan | infinity =>
      cases failed
      rfl
  | str | arr =>
      unfold settle at failed
      rcases except_bind_eq_error.mp failed with lost | ⟨has, _, failed⟩
      · cases lost
      · split at failed
        · cases failed
        · cases failed
          rfl

theorem deref_eq_obj_iff (whole : contract.Inspected) {value : Json}
    (inspected : inspect contract.library (.obj contract.document) value = .ok ())
    {members : List (String × Json)} :
    contract.deref value = .ok (.obj members) ↔ contract.Leads value (.obj members) := by
  constructor
  · intro followed
    by_cases ends : ∃ final, contract.Leads value final
    · obtain ⟨final, leads⟩ := ends
      by_cases object : ∃ others, final = .obj others
      · obtain ⟨others, rfl⟩ := object
        rw [deref_of_leads_obj whole inspected leads] at followed
        cases followed
        exact leads
      · rw [deref_of_leads whole inspected leads] at followed
        have same := settle_eq_ok followed (fun others object_ => object ⟨others, object_⟩)
        exact absurd ⟨members, same.symm⟩ object
    · rw [deref_of_endless whole inspected ends] at followed
      cases followed
  · exact deref_of_leads_obj whole inspected

/-! ### Schemas -/

theorem exists_errors (quiet : contract.Quiet) {schema : Json} (declared : contract.Schema schema)
    (value : Json) (label : String) :
    ∃ errors, contract.errors schema value label = .ok errors := by
  obtain ⟨keywords, reported⟩ := quiet schema value declared
  unfold errors
  rw [reported]
  exact ⟨_, rfl⟩

theorem schema_of_part {members : List (String × Json)} (part : contract.Part (.obj members))
    {schema : Json} (found : members.lookup "schema" = some schema) : contract.Schema schema := by
  rcases part with occurs | same | same | ⟨text, same⟩
  · exact .inr ⟨members, occurs, found⟩
  all_goals cases same
  cases found

theorem schema_getD {members : List (String × Json)} (part : contract.Part (.obj members)) :
    contract.Schema ((members.lookup "schema").getD (.obj [])) := by
  cases found : members.lookup "schema" with
  | none => exact .inl rfl
  | some schema => exact schema_of_part part found

/-! ### Requests -/

theorem missingErrors_obj (members : List (String × Json)) (location : String) :
    ∃ errors, missingErrors (.obj members) location = .ok errors := by
  exact ⟨_, rfl⟩

theorem coerced_of_deref {schema : Json} {target : List (String × Json)} (text : String)
    (resolved : contract.deref schema = .ok (.obj target)) :
    ∃ value, contract.coerced text schema = .ok value := by
  unfold coerced
  rw [resolved]
  exact ⟨_, rfl⟩

/-- A parameter is checked whatever the step gives, if it is no header or its name is a
string. -/
theorem paramErrors_ok_iff (quiet : contract.Quiet) {param : Json} (part : contract.Part param)
    (loaded : contract.LoadedParam param) :
    (∃ errors, contract.paramErrors step param = .ok errors) ↔ Named param := by
  obtain ⟨members, location, name, schema, target, rfl, inPlace, known, named, typed, resolved⟩ :=
    loaded.fields
  have located : (Json.obj members).getItem "in" = .ok (.str location) :=
    Json.getItem_eq_ok_iff.mpr ⟨members, rfl, inPlace⟩
  have called : (Json.obj members).getItem "name" = .ok name :=
    Json.getItem_eq_ok_iff.mpr ⟨members, rfl, named⟩
  have declared : (Json.obj members).getItem "schema" = .ok schema :=
    Json.getItem_eq_ok_iff.mpr ⟨members, rfl, typed⟩
  have plain : ∀ values, ∃ errors,
      contract.valueErrors (.obj members) location values = .ok errors := by
    intro values
    unfold valueErrors
    simp only [called, declared, bind, Except.bind]
    split
    · exact missingErrors_obj members location
    · exact exists_errors quiet (schema_of_part part typed) _ _
  unfold paramErrors Named
  rw [located]
  simp only [List.mem_cons, List.not_mem_nil, or_false] at known
  rcases known with rfl | rfl | rfl
  · exact iff_of_true (plain step.pathParams) (fun header => by simp at header)
  · exact iff_of_true (plain step.query) (fun header => by simp at header)
  · simp only [called, forall_const, bind, Except.bind]
    cases name with
    | str text =>
        refine iff_of_true ?_ ⟨text, rfl⟩
        unfold headerParamErrors
        simp only [called, declared, bind, Except.bind]
        split
        · exact missingErrors_obj members "header"
        · rename_i value _
          obtain ⟨coerced, known⟩ := coerced_of_deref value resolved
          rw [known]
          exact exists_errors quiet (schema_of_part part typed) _ _
    | null | bool | int | float | nan | infinity | arr | obj =>
        unfold headerParamErrors
        simp [called, bind, Except.bind]

theorem ne_dotSegment_of_get {value default : Json} {key : String} {raised : Raised}
    (failed : value.get key default = .error raised) : raised ≠ dotSegment := by
  cases value with
  | obj => cases failed
  | null | bool | int | float | nan | infinity | str | arr =>
      cases failed
      simp [attributeError, dotSegment, contractError]

theorem ne_dotSegment_of_deref {value : Json} {raised : Raised}
    (failed : contract.deref value = .error raised) : raised ≠ dotSegment := by
  rcases unresolved_of_deref failed with rfl | unresolved
  · simp [cyclicReference, dotSegment, contractError]
  · cases unresolved <;>
      simp [pointerStart, arrayIndex, keyError, indexError, typeError, dotSegment, contractError]

theorem ne_dotSegment_of_paramErrors (quiet : contract.Quiet) {param : Json} {raised : Raised}
    (part : contract.Part param) (loaded : contract.LoadedParam param)
    (failed : contract.paramErrors step param = .error raised) : raised ≠ dotSegment := by
  have unnamed : ¬ Named param := by
    intro named
    obtain ⟨errors, ok⟩ := (paramErrors_ok_iff quiet part loaded).mpr named
    cases ok.symm.trans failed
  obtain ⟨header, nameless⟩ := not_forall.mp unnamed
  obtain ⟨members, _, name, _, _, rfl, _, _, named, _⟩ := loaded.fields
  have called : (Json.obj members).getItem "name" = .ok name :=
    Json.getItem_eq_ok_iff.mpr ⟨members, rfl, named⟩
  unfold paramErrors at failed
  rw [header] at failed
  simp only [headerParamErrors, called, bind, Except.bind] at failed
  cases name with
  | str text => exact absurd ⟨text, called⟩ nameless
  | null | bool | int | float | nan | infinity | arr | obj =>
      cases failed
      simp [attributeError, dotSegment, contractError]

/-- What a request body has for JSON is a part of the document. -/
theorem part_of_body {raw declared body content media : Json} (part : contract.Part raw)
    (given : raw.get "requestBody" (.obj []) = .ok declared)
    (resolved : contract.deref declared = .ok body)
    (contains : body.get "content" (.obj []) = .ok content)
    (typed : content.get "application/json" (.obj []) = .ok media) : contract.Part media := by
  have heritable := heritable_part contract
  have inBody := heritable.deref (heritable.get part heritable.empty.1 given) resolved
  exact heritable.get (heritable.get inBody heritable.empty.1 contains) heritable.empty.1 typed

theorem bodyErrors_ok_iff (quiet : contract.Quiet) {raw jsonBody : Json}
    (part : contract.Part raw) (whole : contract.Inspected)
    (inspected : inspect contract.library (.obj contract.document) raw = .ok ()) :
    (∃ errors, contract.bodyErrors raw jsonBody = .ok errors) ↔
      contract.BodyReadable raw jsonBody := by
  have defaulted : ∀ {value}, raw.get "requestBody" (.obj []) = .ok value →
      inspect contract.library (.obj contract.document) value = .ok () :=
    fun given => inspect_of_get inspected rfl given
  constructor
  · rintro ⟨errors, checked⟩
    unfold bodyErrors at checked
    obtain ⟨declared, given, checked⟩ := except_bind_eq_ok.mp checked
    obtain ⟨body, resolved, checked⟩ := except_bind_eq_ok.mp checked
    split at checked
    · obtain ⟨_, required, _⟩ := except_bind_eq_ok.mp checked
      obtain ⟨members, rfl, _⟩ := Json.get_eq_ok_iff.mp required
      have leads := (deref_eq_obj_iff whole (defaulted given)).mp resolved
      exact ⟨declared, members, given, leads, fun some => absurd rfl some⟩
    · obtain ⟨content, contains, checked⟩ := except_bind_eq_ok.mp checked
      obtain ⟨media, typed, checked⟩ := except_bind_eq_ok.mp checked
      obtain ⟨schema, declares, _⟩ := except_bind_eq_ok.mp checked
      obtain ⟨members, rfl, same⟩ := Json.get_eq_ok_iff.mp contains
      obtain ⟨types, rfl, sameMedia⟩ := Json.get_eq_ok_iff.mp typed
      obtain ⟨fields, rfl, _⟩ := Json.get_eq_ok_iff.mp declares
      have leads := (deref_eq_obj_iff whole (defaulted given)).mp resolved
      exact ⟨declared, members, given, leads, fun _ => ⟨types, fields, same.symm, sameMedia.symm⟩⟩
  · rintro ⟨declared, body, given, leads, media⟩
    have resolved := deref_of_leads_obj whole (defaulted given) leads
    unfold bodyErrors
    simp only [given, resolved, bind, Except.bind]
    split
    · exact ⟨_, rfl⟩
    · rename_i some
      obtain ⟨content, media, contains, typed⟩ := media some
      simp only [Json.get, contains, typed]
      cases found : media.lookup "schema" with
      | none => exact ⟨_, rfl⟩
      | some schema =>
          have inMedia := part_of_body part given resolved (congrArg Except.ok contains)
            (congrArg Except.ok typed)
          rw [Option.getD_some]
          split
          · exact ⟨_, rfl⟩
          · exact exists_errors quiet (schema_of_part inMedia found) _ _

theorem ne_dotSegment_of_bodyErrors (quiet : contract.Quiet) {raw jsonBody : Json}
    {raised : Raised} (part : contract.Part raw)
    (failed : contract.bodyErrors raw jsonBody = .error raised) : raised ≠ dotSegment := by
  unfold bodyErrors at failed
  rcases except_bind_eq_error.mp failed with lost | ⟨declared, given, failed⟩
  · exact ne_dotSegment_of_get lost
  rcases except_bind_eq_error.mp failed with lost | ⟨body, resolved, failed⟩
  · exact ne_dotSegment_of_deref lost
  split at failed
  · rcases except_bind_eq_error.mp failed with lost | ⟨_, _, failed⟩
    · exact ne_dotSegment_of_get lost
    · cases failed
  · rcases except_bind_eq_error.mp failed with lost | ⟨content, contains, failed⟩
    · exact ne_dotSegment_of_get lost
    rcases except_bind_eq_error.mp failed with lost | ⟨media, typed, failed⟩
    · exact ne_dotSegment_of_get lost
    rcases except_bind_eq_error.mp failed with lost | ⟨schema, declares, failed⟩
    · exact ne_dotSegment_of_get lost
    · split at failed
      · cases failed
      · rename_i declared
        obtain ⟨fields, rfl, same⟩ := Json.get_eq_ok_iff.mp declares
        have inMedia := part_of_body part given resolved contains typed
        cases found : fields.lookup "schema" with
        | none =>
            rw [found] at same
            exact absurd same declared
        | some shape =>
            rw [found] at same
            cases same
            obtain ⟨errors, ok⟩ := exists_errors quiet (schema_of_part inMedia found) jsonBody
              "request body"
            cases ok.symm.trans failed

/-- The values of a path are refused for dot segments only, if they can be read. -/
theorem buildPath_refuses_iff {params : List (String × Json)} {path : List Char} :
    (∀ raised, contract.buildPath params path = .error raised → raised = dotSegment) ↔
      contract.PathReadable params := by
  induction params generalizing path with
  | nil => exact iff_of_true (fun raised failed => by cases failed) trivial
  | cons entry params ih =>
      obtain ⟨key, value⟩ := entry
      rw [buildPath, PathReadable, isDotSegment_iff]
      cases printable : value.printable with
      | false =>
          refine iff_of_false (fun only => ?_) (fun readable => by cases readable.1)
          have same := only tooManyDigits rfl
          simp [tooManyDigits, valueError, dotSegment, contractError] at same
      | true =>
          simp only [Bool.not_true, Bool.false_eq_true, if_false, true_and]
          split
          · rename_i dots
            refine iff_of_true (fun raised failed => ?_) (.inl dots)
            exact (Except.error.inj failed).symm
          · rename_i proper
            rw [ih, or_iff_right proper]

/-- A request is refused for dot segments only, if its parameters and its body can be
checked, and its path can be read. -/
theorem request_refuses_iff (quiet : contract.Quiet)
    (found : contract.operation? sent.operation = some operation)
    (parts : Inherits contract.Part operation)
    (loaded : ∀ param ∈ operation.params, contract.LoadedParam param) :
    (∀ raised, contract.request sent = .error raised → raised = dotSegment) ↔
      (∀ param ∈ operation.params, ∃ errors, contract.paramErrors sent param = .ok errors) ∧
        (∃ errors, contract.bodyErrors operation.operation sent.jsonBody = .ok errors) ∧
        contract.PathReadable sent.pathParams := by
  rw [← gather_ok_iff]
  unfold request
  rw [found]
  dsimp only
  constructor
  · intro only
    cases gathered : gather (contract.paramErrors sent) operation.params with
    | error raised =>
        rw [gathered] at only
        obtain ⟨param, member, stopped⟩ := exists_of_gather_error gathered
        exact absurd (only raised rfl) (ne_dotSegment_of_paramErrors quiet
          (parts.2 param member) (loaded param member) stopped)
    | ok errors =>
        rw [gathered] at only
        cases checked : contract.bodyErrors operation.operation sent.jsonBody with
        | error raised =>
            rw [checked] at only
            exact absurd (only raised rfl) (ne_dotSegment_of_bodyErrors quiet parts.1 checked)
        | ok others =>
            refine ⟨⟨errors, rfl⟩, ⟨others, rfl⟩, ?_⟩
            refine (@buildPath_refuses_iff contract sent.pathParams operation.path.toList).mp ?_
            intro raised stopped
            rw [checked, stopped] at only
            exact only raised rfl
  · rintro ⟨⟨errors, gathered⟩, ⟨others, checked⟩, readable⟩ raised failed
    rcases except_bind_eq_error.mp failed with stopped | ⟨_, _, failed⟩
    · cases gathered.symm.trans stopped
    rcases except_bind_eq_error.mp failed with stopped | ⟨_, _, failed⟩
    · cases checked.symm.trans stopped
    rcases except_bind_eq_error.mp failed with stopped | ⟨path, _, failed⟩
    · exact buildPath_refuses_iff.mpr readable raised stopped
    · cases failed

/-! ### Responses -/

theorem headerErrors_ok_iff (quiet : contract.Quiet) {name : String} {raw : Json}
    (part : contract.Part raw) (whole : contract.Inspected)
    (inspected : inspect contract.library (.obj contract.document) raw = .ok ()) :
    (∀ headers, ∃ errors, contract.headerErrors headers (name, raw) = .ok errors) ↔
      contract.HeaderReadable raw := by
  simp only [headerErrors_eq_ok_iff]
  constructor
  · intro always
    obtain ⟨_, absent⟩ := always []
    cases absent with
    | free _ sent => cases sent
    | validated _ sent => cases sent
    | @absent header required resolved unsent declared =>
        obtain ⟨members, rfl, _⟩ := Json.get_eq_ok_iff.mp declared
        refine ⟨members, (deref_eq_obj_iff whole inspected).mp resolved, ?_⟩
        intro schema found
        have below := inspect_of_lookup (inspect_of_deref whole inspected resolved) found
        obtain ⟨_, present⟩ := always [(contract.library.lower name, "")]
        cases present with
        | absent _ unsent => simp at unsent
        | free same _ untyped =>
            cases resolved.symm.trans same
            simp [Json.contains, found] at untyped
        | validated same _ _ typed coerced =>
            cases resolved.symm.trans same
            obtain ⟨_, same, declares⟩ := Json.getItem_eq_ok_iff.mp typed
            cases same
            cases found.symm.trans declares
            obtain ⟨target, followed, coerced⟩ := except_bind_eq_ok.mp coerced
            obtain ⟨kind, given, _⟩ := except_bind_eq_ok.mp coerced
            obtain ⟨fields, rfl, _⟩ := Json.get_eq_ok_iff.mp given
            exact ⟨fields, (deref_eq_obj_iff whole below).mp followed⟩
  · rintro ⟨header, leads, typed⟩ headers
    have resolved := deref_of_leads_obj whole inspected leads
    cases sent : headers.lookup (contract.library.lower name) with
    | none => exact ⟨_, .absent resolved sent rfl⟩
    | some text =>
        cases found : header.lookup "schema" with
        | none => exact ⟨_, .free resolved sent (by simp [Json.contains, found])⟩
        | some schema =>
            have below := inspect_of_lookup (inspect_of_deref whole inspected resolved) found
            obtain ⟨target, leads⟩ := typed schema found
            obtain ⟨value, coerced⟩ := coerced_of_deref text (deref_of_leads_obj whole below leads)
            have inHeader := (heritable_part contract).deref part resolved
            obtain ⟨errors, validated⟩ := exists_errors quiet (schema_of_part inHeader found) value
              "response header"
            refine ⟨_, .validated resolved sent ?_ ?_ coerced validated⟩
            · simp [Json.contains, found]
            · simp [Json.getItem, found]

/-- The headers of a definition can be checked whatever was received. -/
theorem headers_ok_iff (quiet : contract.Quiet) {definition declared : List (String × Json)}
    (part : contract.Part (.obj definition)) (whole : contract.Inspected)
    (inspected : inspect contract.library (.obj contract.document) (.obj definition) = .ok ())
    (named : (definition.lookup "headers").getD (.obj []) = .obj declared) :
    (∀ headers, ∃ errors, gather (contract.headerErrors headers) declared = .ok errors) ↔
      ∀ name raw, (name, raw) ∈ declared → contract.HeaderReadable raw := by
  have passed : inspect contract.library (.obj contract.document) (.obj declared) = .ok () :=
    inspect_of_get inspected rfl (congrArg Except.ok named)
  have heritable := heritable_part contract
  have inDeclared : contract.Part (.obj declared) :=
    heritable.get part heritable.empty.1 (congrArg Except.ok named)
  have readable_iff (name raw) (member : (name, raw) ∈ declared) :=
    @headerErrors_ok_iff contract quiet name raw (heritable.member inDeclared member) whole
      (inspectMembers_ok_iff.mp passed name raw member).2
  simp only [gather_ok_iff]
  constructor
  · intro always name raw member
    rw [← readable_iff name raw member]
    exact fun headers => always headers (name, raw) member
  · rintro readable headers ⟨name, raw⟩ member
    exact (readable_iff name raw member).mpr (readable name raw member) headers

/-- The checks of a body have one result. -/
theorem ContentChecks.unique {definition body : Json} {hasBody isJson goesOn goesOn' : Bool}
    {errors errors' : List String}
    (one : contract.ContentChecks definition body hasBody isJson errors goesOn)
    (two : contract.ContentChecks definition body hasBody isJson errors' goesOn') :
    goesOn = goesOn' := by
  have same := (contentErrors_eq_ok_iff.mpr one).symm.trans (contentErrors_eq_ok_iff.mpr two)
  exact congrArg Prod.snd (Except.ok.inj same)

/-- Reports that go on to the headers for a JSON body read them. -/
theorem headersReadable_of_reports (quiet : contract.Quiet) {definition : List (String × Json)}
    {errors : List String} (part : contract.Part (.obj definition)) (whole : contract.Inspected)
    (inspected : inspect contract.library (.obj contract.document) (.obj definition) = .ok ())
    (defined : contract.responseDefinition operation.operation status = .ok (.obj definition))
    (checks : contract.ContentChecks (.obj definition) .null true true errors true)
    (always : ∀ headers, ∃ errors,
      contract.Reports operation step status headers .null true true errors) :
    contract.HeadersReadable definition := by
  have gathers : ∀ headers, ∃ declared errors,
      (definition.lookup "headers").getD (.obj []) = .obj declared ∧
        gather (contract.headerErrors headers) declared = .ok errors := by
    intro headers
    obtain ⟨_, reports⟩ := always headers
    cases reports with
    | undeclared refused => cases defined.symm.trans refused
    | unread same stops =>
        cases defined.symm.trans same
        cases checks.unique stops
    | checked same _ named gathered =>
        cases defined.symm.trans same
        exact ⟨_, _, Except.ok.inj named, gathered⟩
  obtain ⟨declared, _, named, _⟩ := gathers []
  refine ⟨declared, named, (headers_ok_iff quiet part whole inspected named).mp ?_⟩
  intro headers
  obtain ⟨_, errors, same, gathered⟩ := gathers headers
  cases named.symm.trans same
  exact ⟨errors, gathered⟩

theorem reports_of_headersReadable (quiet : contract.Quiet) {definition : List (String × Json)}
    {headers : Headers} {body : Json} {hasBody isJson : Bool} {errors : List String}
    (part : contract.Part (.obj definition)) (whole : contract.Inspected)
    (inspected : inspect contract.library (.obj contract.document) (.obj definition) = .ok ())
    (defined : contract.responseDefinition operation.operation status = .ok (.obj definition))
    (checks : contract.ContentChecks (.obj definition) body hasBody isJson errors true)
    (readable : contract.HeadersReadable definition) :
    ∃ errors, contract.Reports operation step status headers body hasBody isJson errors := by
  obtain ⟨declared, named, all⟩ := readable
  obtain ⟨_, gathered⟩ := (headers_ok_iff quiet part whole inspected named).mpr all headers
  exact ⟨_, .checked defined checks (congrArg Except.ok named) gathered⟩

/-- A response can be checked, whatever was received, if its definition is an object that
can be read. -/
theorem reports_iff_of_defined (quiet : contract.Quiet) {definition : Json}
    (part : contract.Part definition) (whole : contract.Inspected)
    (inspected : inspect contract.library (.obj contract.document) definition = .ok ())
    (defined : contract.responseDefinition operation.operation status = .ok definition) :
    (∀ headers body hasBody isJson, ∃ errors,
        contract.Reports operation step status headers body hasBody isJson errors) ↔
      ∃ members, definition = .obj members ∧ contract.DefinitionReadable members := by
  constructor
  · intro always
    have object : ∃ errors goesOn,
        contract.ContentChecks definition .null true true errors goesOn := by
      obtain ⟨_, reports⟩ := always [] .null true true
      cases reports with
      | undeclared refused => cases defined.symm.trans refused
      | unread same checks =>
          cases defined.symm.trans same
          exact ⟨_, _, checks⟩
      | checked same checks =>
          cases defined.symm.trans same
          exact ⟨_, _, checks⟩
    obtain ⟨errors, goesOn, checks⟩ := object
    cases checks with
    | unsupported given some lacks =>
        obtain ⟨members, rfl, rfl⟩ := Json.get_eq_ok_iff.mp given
        exact ⟨members, rfl, .unsupported rfl some lacks⟩
    | notJson _ _ _ missing => exact absurd ⟨rfl, rfl⟩ missing
    | none given empty =>
        obtain ⟨members, rfl, rfl⟩ := Json.get_eq_ok_iff.mp given
        exact ⟨members, rfl, .none empty (headersReadable_of_reports quiet part whole inspected
          defined (.none given empty) (fun headers => always headers .null true true))⟩
    | validated given some has received found declared validated =>
        obtain ⟨members, rfl, same⟩ := Json.get_eq_ok_iff.mp given
        obtain ⟨content, rfl, located⟩ := Json.getItem_eq_ok_iff.mp found
        obtain ⟨media, rfl, _⟩ := Json.get_eq_ok_iff.mp declared
        exact ⟨members, rfl, .json same.symm located (headersReadable_of_reports quiet part whole
          inspected defined (.validated given some has received found declared validated)
          (fun headers => always headers .null true true))⟩
  · rintro ⟨members, rfl, readable⟩ headers body hasBody isJson
    cases readable with
    | unsupported given some lacks =>
        exact ⟨_, .unread defined (.unsupported (congrArg Except.ok given) some lacks)⟩
    | none empty readable =>
        exact reports_of_headersReadable quiet part whole inspected defined (.none rfl empty)
          readable
    | @json content media given found readable =>
        have some : (Json.obj content).truthy = true := by
          cases content with
          | nil => cases found
          | cons => rfl
        have has : Json.contains "application/json" (.obj content) = .ok true := by
          simp [Json.contains, found]
        by_cases received : hasBody = true ∧ isJson = true
        · have located : (Json.obj content).getItem "application/json" = .ok (.obj media) :=
            Json.getItem_eq_ok_iff.mpr ⟨content, rfl, found⟩
          have heritable := heritable_part contract
          have inMedia := heritable.getItem
            (heritable.get part heritable.empty.1 (congrArg Except.ok given)) located
          obtain ⟨errors, validated⟩ := exists_errors quiet (schema_getD inMedia) body
            "response body"
          exact reports_of_headersReadable quiet part whole inspected defined
            (.validated (congrArg Except.ok given) some has received located rfl validated)
            readable
        · exact ⟨_, .unread defined (.notJson (congrArg Except.ok given) some has received)⟩

/-- The definition of a response is a part of the document. -/
theorem part_of_responseDefinition {responses : List (String × Json)} {definition : Json}
    (part : contract.Part operation.operation)
    (given : operation.operation.get "responses" (.obj []) = .ok (.obj responses))
    (defined : contract.responseDefinition operation.operation status = .ok definition) :
    contract.Part definition := by
  have heritable := heritable_part contract
  obtain ⟨raw, _, selects, resolved⟩ := (responseDefinition_eq_ok_iff given).mp defined
  obtain ⟨key, listed⟩ := selects.mem
  have inResponses := heritable.get part heritable.empty.1 given
  exact heritable.deref (heritable.member inResponses listed) resolved

/-- Every response can be checked, for every status, if the responses can be read. -/
theorem reports_iff (quiet : contract.Quiet) {responses : List (String × Json)}
    (part : contract.Part operation.operation) (whole : contract.Inspected)
    (inspected : inspect contract.library (.obj contract.document) operation.operation = .ok ())
    (given : operation.operation.get "responses" (.obj []) = .ok (.obj responses)) :
    (∀ status headers body hasBody isJson, ∃ errors,
        contract.Reports operation step status headers body hasBody isJson errors) ↔
      contract.ResponsesReadable operation.operation := by
  have passed := inspect_of_get inspected rfl given
  have picked : ∀ status, selected responses status ≠ .null →
      inspect contract.library (.obj contract.document) (selected responses status) = .ok () :=
    fun status something => by
      obtain ⟨key, member⟩ := (selects_of_selected_ne_null something).mem
      exact (inspectMembers_ok_iff.mp passed key _ member).2
  constructor
  · intro always others status final same something leads
    cases given.symm.trans same
    have followed : contract.responseDefinition operation.operation status =
        contract.deref (selected responses status) :=
      responseDefinition_of_ne_null given something
    rw [deref_of_leads whole (picked status something) leads] at followed
    have examined := (inspect_of_leads whole (picked status something) leads).1
    by_contra unreadable
    have scalar : ∀ members, final ≠ .obj members := by
      rintro members rfl
      have defined : contract.responseDefinition operation.operation status =
          contract.deref (selected responses status) :=
        responseDefinition_of_ne_null given something
      rw [deref_of_leads_obj whole (picked status something) leads] at defined
      have inside := part_of_responseDefinition part given defined
      exact unreadable
        ((reports_iff_of_defined quiet inside whole examined defined).mp (always status))
    cases settled : settle final with
    | ok value =>
        rw [settled, settle_eq_ok settled scalar] at followed
        have inside := part_of_responseDefinition part given followed
        exact unreadable
          ((reports_iff_of_defined quiet inside whole examined followed).mp (always status))
    | error raised =>
        rw [settled] at followed
        obtain ⟨_, reports⟩ := always status [] .null true true
        cases reports with
        | undeclared refused caught =>
            cases followed.symm.trans refused
            exact absurd ((type_of_settle_error settled scalar).symm.trans caught) (by decide)
        | unread defined => cases followed.symm.trans defined
        | checked defined => cases followed.symm.trans defined
  · intro readable status headers body hasBody isJson
    by_cases something : selected responses status = .null
    · exact ⟨_, .undeclared (responseDefinition_of_null given something) rfl⟩
    have followed : contract.responseDefinition operation.operation status =
        contract.deref (selected responses status) :=
      responseDefinition_of_ne_null given something
    by_cases ends : ∃ final, contract.Leads (selected responses status) final
    · obtain ⟨final, leads⟩ := ends
      obtain ⟨members, rfl, definition⟩ := readable responses status final given something leads
      have examined := (inspect_of_leads whole (picked status something) leads).1
      rw [deref_of_leads_obj whole (picked status something) leads] at followed
      have inside := part_of_responseDefinition part given followed
      exact (reports_iff_of_defined quiet inside whole examined followed).mpr
        ⟨members, rfl, definition⟩
        headers body hasBody isJson
    · rw [deref_of_endless whole (picked status something) ends] at followed
      exact ⟨_, .undeclared followed rfl⟩

end Contract

end ApiSentinel
