import ApiSentinel.Declarations
import ApiSentinel.HeaderCase
import ApiSentinel.Preflight
import ApiSentinel.Requests

/-!
# The verdict on a request

What `request` reports of a step is determined by the declarations of the document: of the
parameters of a path item and of its operation the last one of each location and name, and the
request body.
-/

namespace ApiSentinel

open Assignments Scanning PercentEncoding

namespace Contract

variable {contract : Contract} {step : Step} {library : Library}
  {document : List (String × Json)}

/-! ### Operations by their IDs -/

/-- No two operations have one ID. -/
def Apart (operations : List (Json × Operation)) : Prop :=
  operations.Pairwise fun one two => one.1.equals two.1 = false

theorem Apart.concat {operations : List (Json × Operation)} {opId : Json} {operation : Operation}
    (apart : Apart operations)
    (fresh : operations.any (fun known => known.1.equals opId) = false) :
    Apart (operations ++ [(opId, operation)]) := by
  refine List.pairwise_append.mpr ⟨apart, List.pairwise_singleton _ _, ?_⟩
  intro known member other single
  obtain rfl := List.mem_singleton.mp single
  simpa using List.any_eq_false.mp fresh known member

theorem Apart.loadOperation {path : String} {item : Json}
    {operations next : List (Json × Operation)} {entry : String × Json} (apart : Apart operations)
    (loaded : contract.loadOperation path item operations entry = .ok next) : Apart next := by
  unfold Contract.loadOperation at loaded
  split at loaded
  · cases loaded
    exact apart
  · obtain ⟨operation, _, loaded⟩ := except_bind_eq_ok.mp loaded
    obtain ⟨opId, _, loaded⟩ := except_bind_eq_ok.mp loaded
    split at loaded
    · cases loaded
    · split at loaded
      · cases loaded
      · split at loaded
        · cases loaded
        · rename_i fresh
          obtain ⟨_, _, loaded⟩ := except_bind_eq_ok.mp loaded
          obtain ⟨_, _, loaded⟩ := except_bind_eq_ok.mp loaded
          obtain ⟨_, _, loaded⟩ := except_bind_eq_ok.mp loaded
          obtain ⟨_, _, loaded⟩ := except_bind_eq_ok.mp loaded
          cases loaded
          exact apart.concat (Bool.not_eq_true _ ▸ fresh)

theorem apart_of_init (accepted : init library document = .ok contract) :
    Apart contract.operations := by
  obtain ⟨_, _, _, paths, _, gathered⟩ := exists_of_init accepted
  refine foldlM_invariant (motive := Apart) ?_ List.Pairwise.nil gathered
  intro operations entry next _ apart loaded
  obtain ⟨_, _, members, _, loaded⟩ := exists_of_loadPath loaded
  exact foldlM_invariant (motive := Apart) (fun _ _ _ _ kept ran => kept.loadOperation ran) apart
    loaded

/-- A declared operation is found by its ID. -/
theorem operation?_of_declared (accepted : init library document = .ok contract)
    {declaration : Declaration} (listed : declaration ∈ contract.declarations) {name : String}
    (named : (members declaration.operation).lookup "operationId" = some (.str name)) :
    contract.operation? name = some declaration.stored.2 := by
  have apart := apart_of_init accepted
  have member : declaration.stored ∈ contract.operations := by
    rw [(operations_eq accepted).1]
    exact List.mem_map_of_mem listed
  have opId : declaration.stored.1 = .str name := by
    unfold Declaration.stored
    rw [named]
    rfl
  have itself : declaration.stored.1.equals (.str name) = true := by
    rw [opId]
    simp [Json.equals]
  obtain ⟨before, after, split⟩ := List.append_of_mem member
  have earlier : before.find? (fun entry => entry.1.equals (.str name)) = none := by
    rw [List.find?_eq_none]
    intro known among
    rw [split] at apart
    have differ := (List.pairwise_append.mp apart).2.2 known among _ List.mem_cons_self
    rw [opId] at differ
    rw [differ]
    decide
  unfold operation?
  rw [split, List.find?_append, earlier, Option.none_or, List.find?_cons, itself]
  rfl

/-! ### Parameters -/

/-- The type that a header value is converted to. -/
def headerType (contract : Contract) (param : Json) : Json :=
  match param.getItem "schema" with
  | .ok schema => ((members (contract.destination schema)).lookup "type").getD .null
  | .error _ => .null

/-- The value that a step gives for a parameter, as it is checked. -/
def given? (contract : Contract) (step : Step) (param : Json) : Option Json :=
  match param.getItem "in", param.getItem "name" with
  | .ok (.str "path"), .ok (.str name) => step.pathParams.lookup name
  | .ok (.str "query"), .ok (.str name) => step.query.lookup name
  | .ok (.str "header"), .ok (.str name) =>
      ((contract.lowerHeaders step.headers).lookup (contract.library.lower name)).map
        fun text => contract.coerce text (contract.headerType param)
  | _, _ => none

/-- A parameter that is not given is not required, and one that is given satisfies its schema. -/
structure ParamConforms (contract : Contract) (step : Step) (param : Json) : Prop where
  absent : contract.given? step param = none → ∀ required,
    param.get "required" .null = .ok required → required.truthy = false
  present : ∀ value schema, contract.given? step param = some value →
    param.getItem "schema" = .ok schema → contract.Satisfies schema value

/-- What is allowed of the value of a parameter. -/
def Admits (contract : Contract) (fields : List (String × Json)) (schema : Json) :
    Option Json → Prop
  | none => ((fields.lookup "required").getD .null).truthy = false
  | some value => contract.Satisfies schema value

theorem missingErrors_eq_nil_iff {fields : List (String × Json)} {location : String} :
    missingErrors (.obj fields) location = .ok [] ↔
      ((fields.lookup "required").getD .null).truthy = false := by
  change Except.ok (if _ then _ else _) = Except.ok [] ↔ _
  rw [Except.ok.injEq]
  cases ((fields.lookup "required").getD .null).truthy <;> simp

section Param

variable {fields : List (String × Json)} {location : String} {name schema : Json}

/-- Nothing is reported of a value just if it conforms, whatever the value is. -/
theorem conforms_iff {value : Option Json} (same : contract.given? step (.obj fields) = value)
    (declared : (Json.obj fields).getItem "schema" = .ok schema) :
    contract.ParamConforms step (.obj fields) ↔
      contract.Admits fields schema value := by
  cases value with
  | none =>
      constructor
      · exact fun conforms => conforms.absent same _ rfl
      · intro optional
        refine ⟨fun _ required known => ?_, fun value schema given => ?_⟩
        · cases known
          exact optional
        · rw [same] at given
          cases given
  | some value =>
      constructor
      · exact fun conforms => conforms.present value schema same declared
      · intro satisfies
        refine ⟨fun given => ?_, fun other shape given known => ?_⟩
        · rw [same] at given
          cases given
        · rw [same] at given
          rw [declared] at known
          cases given
          cases known
          exact satisfies

/-- What is given under a name, which is nothing unless the name is a string. -/
def lookupName (values : List (String × Json)) : Json → Option Json
  | .str text => values.lookup text
  | _ => none

theorem valueErrors_eq_nil_iff {values : List (String × Json)}
    (called : (Json.obj fields).getItem "name" = .ok name)
    (declared : (Json.obj fields).getItem "schema" = .ok schema) :
    contract.valueErrors (.obj fields) location values = .ok [] ↔
      contract.Admits fields schema (lookupName values name) := by
  have same : contract.valueErrors (.obj fields) location values =
      match lookupName values name with
      | none => missingErrors (.obj fields) location
      | some value => contract.errors schema value ("request " ++ location ++ " parameter") := by
    unfold valueErrors
    simp only [called, declared, bind, Except.bind]
    cases name <;> rfl
  rw [same]
  cases lookupName values name with
  | none => exact missingErrors_eq_nil_iff
  | some value => exact errors_eq_nil_iff

theorem headerParamErrors_eq_nil_iff {text : String} {target : List (String × Json)}
    {headers : Headers} (called : (Json.obj fields).getItem "name" = .ok (.str text))
    (declared : (Json.obj fields).getItem "schema" = .ok schema)
    (resolved : contract.deref schema = .ok (.obj target)) :
    contract.headerParamErrors (.obj fields) headers = .ok [] ↔
      contract.Admits fields schema
        (((contract.lowerHeaders headers).lookup (contract.library.lower text)).map
          fun value => contract.coerce value (contract.headerType (.obj fields))) := by
  have type : contract.headerType (.obj fields) = (target.lookup "type").getD .null := by
    unfold headerType
    rw [declared]
    dsimp only
    rw [destination_eq resolved]
    rfl
  unfold headerParamErrors
  simp only [called, declared, bind, Except.bind]
  cases (contract.lowerHeaders headers).lookup (contract.library.lower text) with
  | none => exact missingErrors_eq_nil_iff
  | some value =>
      have coerced : contract.coerced value schema =
          .ok (contract.coerce value ((target.lookup "type").getD .null)) := by
        unfold coerced
        rw [resolved]
        rfl
      rw [Option.map_some, type]
      dsimp only
      rw [coerced]
      exact errors_eq_nil_iff

end Param

/-- Nothing is reported of a parameter just if the step conforms to it. -/
theorem paramErrors_eq_nil_iff {param : Json} (loaded : contract.LoadedParam param)
    (named : Named param) :
    contract.paramErrors step param = .ok [] ↔ contract.ParamConforms step param := by
  obtain ⟨fields, location, name, schema, target, rfl, inPlace, known, called, typed, resolved⟩ :=
    loaded.fields
  have located : (Json.obj fields).getItem "in" = .ok (.str location) :=
    Json.getItem_eq_ok_iff.mpr ⟨fields, rfl, inPlace⟩
  have called : (Json.obj fields).getItem "name" = .ok name :=
    Json.getItem_eq_ok_iff.mpr ⟨fields, rfl, called⟩
  have declared : (Json.obj fields).getItem "schema" = .ok schema :=
    Json.getItem_eq_ok_iff.mpr ⟨fields, rfl, typed⟩
  simp only [List.mem_cons, List.not_mem_nil, or_false] at known
  rcases known with rfl | rfl | rfl
  · have given : contract.given? step (.obj fields) = lookupName step.pathParams name := by
      unfold given?
      rw [located, called]
      cases name <;> rfl
    have errors : contract.paramErrors step (.obj fields) =
        contract.valueErrors (.obj fields) "path" step.pathParams := by
      unfold paramErrors
      rw [located]
      rfl
    rw [conforms_iff given declared, errors]
    exact valueErrors_eq_nil_iff called declared
  · have given : contract.given? step (.obj fields) = lookupName step.query name := by
      unfold given?
      rw [located, called]
      cases name <;> rfl
    have errors : contract.paramErrors step (.obj fields) =
        contract.valueErrors (.obj fields) "query" step.query := by
      unfold paramErrors
      rw [located]
      rfl
    rw [conforms_iff given declared, errors]
    exact valueErrors_eq_nil_iff called declared
  · obtain ⟨text, spelled⟩ := named located
    obtain rfl := Except.ok.inj (called.symm.trans spelled)
    have given : contract.given? step (.obj fields) =
        ((contract.lowerHeaders step.headers).lookup (contract.library.lower text)).map
          (fun value => contract.coerce value (contract.headerType (.obj fields))) := by
      unfold given?
      rw [located, called]
      rfl
    have errors : contract.paramErrors step (.obj fields) =
        contract.headerParamErrors (.obj fields) step.headers := by
      unfold paramErrors
      rw [located]
      rfl
    rw [conforms_iff given declared, errors]
    exact headerParamErrors_eq_nil_iff called declared resolved

/-! ### The body -/

/-- A body is declared and satisfies its schema, or there is none and none is required. -/
def BodyAllowed (contract : Contract) (operation jsonBody : Json) : Prop :=
  ∃ raw body, operation.get "requestBody" (.obj []) = .ok raw ∧
    contract.deref raw = .ok (.obj body) ∧
    (jsonBody = .null → ((body.lookup "required").getD .null).truthy = false) ∧
    (jsonBody ≠ .null → ∃ content media schema,
      (body.lookup "content").getD (.obj []) = .obj content ∧
      (content.lookup "application/json").getD (.obj []) = .obj media ∧
      media.lookup "schema" = some schema ∧ schema ≠ .null ∧
      contract.Satisfies schema jsonBody)

theorem bodyErrors_eq_nil_iff {operation jsonBody : Json} :
    contract.bodyErrors operation jsonBody = .ok [] ↔ contract.BodyAllowed operation jsonBody := by
  constructor
  · intro checked
    unfold bodyErrors at checked
    obtain ⟨raw, given, checked⟩ := except_bind_eq_ok.mp checked
    obtain ⟨body, resolved, checked⟩ := except_bind_eq_ok.mp checked
    split at checked
    · obtain ⟨required, known, checked⟩ := except_bind_eq_ok.mp checked
      obtain ⟨fields, rfl, rfl⟩ := Json.get_eq_ok_iff.mp known
      refine ⟨raw, fields, given, resolved, fun _ => ?_, fun some => absurd rfl some⟩
      cases needed : ((fields.lookup "required").getD .null).truthy with
      | false => rfl
      | true =>
          rw [needed] at checked
          cases checked
    · rename_i present
      obtain ⟨content, contains, checked⟩ := except_bind_eq_ok.mp checked
      obtain ⟨media, typed, checked⟩ := except_bind_eq_ok.mp checked
      obtain ⟨schema, declares, checked⟩ := except_bind_eq_ok.mp checked
      split at checked
      · cases checked
      · rename_i declared
        have satisfies := errors_eq_nil_iff.mp checked
        obtain ⟨fields, rfl, same⟩ := Json.get_eq_ok_iff.mp contains
        obtain ⟨types, rfl, sameMedia⟩ := Json.get_eq_ok_iff.mp typed
        obtain ⟨entries, rfl, sameSchema⟩ := Json.get_eq_ok_iff.mp declares
        refine ⟨raw, fields, given, resolved, fun none => absurd none present, fun _ =>
          ⟨types, entries, schema, same.symm, sameMedia.symm, ?_, declared, satisfies⟩⟩
        cases found : entries.lookup "schema" with
        | none =>
            rw [found] at sameSchema
            exact absurd sameSchema declared
        | some shape =>
            rw [found] at sameSchema
            rw [sameSchema]
            rfl
  · rintro ⟨raw, body, given, resolved, optional, present⟩
    unfold bodyErrors
    simp only [given, resolved, bind, Except.bind]
    split
    · change Except.ok (if _ then _ else _) = _
      rw [optional rfl]
      rfl
    · rename_i some
      obtain ⟨content, media, schema, contains, typed, declared, proper, satisfies⟩ := present some
      simp only [Json.get, contains, typed, declared, Option.getD_some]
      exact errors_eq_nil_iff.mpr satisfies

/-! ### The whole request -/

/-- What a step gives conforms to a declared operation: to the last declaration of each location
and name, and to its request body. -/
structure Allows (contract : Contract) (declaration : Declaration) (step : Step) : Prop where
  params : ∀ param, LastOf paramKey? declaration.given param → contract.ParamConforms step param
  body : contract.BodyAllowed declaration.operation step.jsonBody

/-- What a step makes the contract read can be read: the declarations, and the values of the
path. -/
structure Legible (contract : Contract) (declaration : Declaration) (step : Step) : Prop where
  params : ∀ param, LastOf paramKey? declaration.given param → Named param
  body : contract.BodyReadable declaration.operation step.jsonBody
  path : contract.PathReadable step.pathParams

/-- A value of the path is a dot segment. -/
def HasDots (contract : Contract) (step : Step) : Prop :=
  ∃ key value, (key, value) ∈ step.pathParams ∧ isDotSegment (contract.encoded value) = true

/-- Readable values without a dot segment can all be printed. -/
theorem PathReadable.proper {params : List (String × Json)}
    (readable : contract.PathReadable params)
    (plain : ∀ key value, (key, value) ∈ params →
      isDotSegment (contract.encoded value) = false) :
    ∀ key value, (key, value) ∈ params →
      value.printable = true ∧ isDotSegment (contract.encoded value) = false := by
  induction params with
  | nil => simp
  | cons entry params ih =>
      obtain ⟨key, value⟩ := entry
      obtain ⟨printable, rest⟩ := readable
      have first := plain key value List.mem_cons_self
      rw [first] at rest
      intro other final member
      rcases List.mem_cons.mp member with same | later
      · cases same
        exact ⟨printable, first⟩
      · exact ih (rest.resolve_left Bool.false_ne_true)
          (fun key value among => plain key value (List.mem_cons_of_mem _ among)) other final later

/-- Without dot segments the placeholders of any template can be filled. -/
theorem exists_buildPath (readable : contract.PathReadable step.pathParams)
    (plain : ¬ contract.HasDots step) (template : List Char) :
    ∃ path : String, contract.buildPath step.pathParams template = .ok path.toList := by
  have proper := readable.proper fun key value member => by
    by_contra dots
    exact plain ⟨key, value, member, by simpa using dots⟩
  refine ⟨String.ofList (step.pathParams.foldl (fun text entry =>
    replace (braced entry.1.toList) (contract.encoded entry.2) text) template), ?_⟩
  rw [String.toList_ofList]
  exact buildPath_eq_ok_iff.mpr ⟨proper, rfl⟩

section Request

variable {declaration : Declaration} (accepted : init library document = .ok contract)
  (quiet : contract.Quiet) (listed : declaration ∈ contract.declarations)
  (named : (members declaration.operation).lookup "operationId" = some (.str step.operation))
  (legible : contract.Legible declaration step)
include accepted quiet listed named legible

theorem gather_paramErrors :
    (∃ errors, gather (contract.paramErrors step) declaration.stored.2.params = .ok errors) ∧
      (gather (contract.paramErrors step) declaration.stored.2.params = .ok [] ↔
        ∀ param, LastOf paramKey? declaration.given param → contract.ParamConforms step param) := by
  have found := operation?_of_declared accepted listed named
  have loaded := loaded_of_operation? accepted found
  have parts := (heritable_part contract).operation accepted (.inl .whole) found
  have each : ∀ param ∈ declaration.stored.2.params, Named param := fun param member =>
    legible.params param (mem_assignAll_iff.mp member)
  rw [gather_ok_iff, gather_eq_nil_iff]
  refine ⟨fun param member => (paramErrors_ok_iff quiet (parts.2 param member)
    (loaded.params param member)).mpr (each param member), ?_⟩
  refine forall_congr' fun param => ?_
  rw [← mem_assignAll_iff]
  exact imp_congr_right fun member =>
    paramErrors_eq_nil_iff (loaded.params param member) (each param member)

/-- Unless a value of the path is a dot segment, a request is made, with a list of failures that
is empty just if the declarations allow what is given, or the step does not mind. -/
theorem exists_request (plain : ¬ contract.HasDots step) :
    ∃ path failures, contract.request step =
        .ok (upper declaration.method, path, failures) ∧
      (failures = [] ↔ step.allowInvalidRequest = true ∨ contract.Allows declaration step) := by
  have found := operation?_of_declared accepted listed named
  have loaded := loaded_of_operation? accepted found
  have parts := (heritable_part contract).operation accepted (.inl .whole) found
  obtain ⟨inspected, _⟩ := exists_of_init accepted
  obtain ⟨⟨paramErrors, gathered⟩, conforms⟩ :=
    gather_paramErrors accepted quiet listed named legible
  obtain ⟨bodyErrors, checked⟩ :=
    (bodyErrors_ok_iff quiet parts.1 inspected loaded.inspected).mpr legible.body
  obtain ⟨path, built⟩ := exists_buildPath legible.path plain declaration.stored.2.path.toList
  refine ⟨path, _, (request_eq_ok_iff found).mpr
    ⟨paramErrors, bodyErrors, gathered, checked, built, rfl, rfl⟩, ?_⟩
  cases step.allowInvalidRequest with
  | true => simp
  | false =>
      have params : paramErrors = [] ↔ ∀ param, LastOf paramKey? declaration.given param →
          contract.ParamConforms step param := by
        rw [← conforms, gathered, Except.ok.injEq]
      have body : bodyErrors = [] ↔
          contract.BodyAllowed declaration.operation step.jsonBody := by
        have same : contract.bodyErrors declaration.operation step.jsonBody = .ok bodyErrors :=
          checked
        rw [← bodyErrors_eq_nil_iff, same, Except.ok.injEq]
      simp only [Bool.false_eq_true, if_false, false_or, List.append_eq_nil_iff, params, body]
      exact ⟨fun both => ⟨both.1, both.2⟩, fun allows => ⟨allows.params, allows.body⟩⟩

/-- A dot segment is refused. -/
theorem request_of_hasDots (dots : contract.HasDots step) :
    contract.request step = .error dotSegment := by
  have found := operation?_of_declared accepted listed named
  have loaded := loaded_of_operation? accepted found
  have parts := (heritable_part contract).operation accepted (.inl .whole) found
  obtain ⟨inspected, _⟩ := exists_of_init accepted
  obtain ⟨gathered, _⟩ := gather_paramErrors accepted quiet listed named legible
  have checked := (bodyErrors_ok_iff quiet parts.1 inspected loaded.inspected).mpr legible.body
  cases requested : contract.request step with
  | error raised =>
      rw [(request_refuses_iff quiet found parts loaded.params).mpr
        ⟨gather_ok_iff.mp gathered, checked, legible.path⟩ raised requested]
  | ok made =>
      obtain ⟨method, path, failures⟩ := made
      obtain ⟨_, _, _, _, built, _⟩ := (request_eq_ok_iff found).mp requested
      obtain ⟨key, value, member, dotted⟩ := dots
      have proper := ((buildPath_eq_ok_iff.mp built).1 key value member).2
      rw [dotted] at proper
      cases proper

end Request

end Contract

/-! ### A header that is declared twice -/

namespace Sample

def traceDeclaration : Contract.Declaration where
  method := "get"
  path := "/trace"
  operation := traceOperation "x-trace"
  shared := [traceHeader "X-Trace" "integer"]
  own := [traceHeader "x-trace" "string"]

theorem clashing_declarations : clashing.declarations = [traceDeclaration] := by rfl

theorem legible_traced : clashing.Legible traceDeclaration traced where
  params := by
    intro param last
    obtain ⟨before, after, split, _⟩ := last
    have member : param ∈ traceDeclaration.given := by
      rw [split]
      exact List.mem_append_right before List.mem_cons_self
    simp only [traceDeclaration, Contract.Declaration.given, List.cons_append, List.nil_append,
      List.mem_cons, List.not_mem_nil, or_false] at member
    intro _
    rcases member with rfl | rfl
    · exact ⟨"X-Trace", rfl⟩
    · exact ⟨"x-trace", rfl⟩
  body := ⟨_, [], rfl, ⟨0, .here rfl⟩, by simp [traced]⟩
  path := trivial

theorem quiet_clashing : clashing.Quiet := by
  intro schema value _
  exact ⟨typeErrors schema value, rfl⟩

end Sample

end ApiSentinel
