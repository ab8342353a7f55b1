import ApiSentinel.Overriding
import ApiSentinel.Responses

/-!
# The letter case of header names

Two accepted contracts whose documents differ in the letter case of the names of header
parameters, and what they find about the requests of a step.
-/

namespace ApiSentinel

open Assignments

namespace Contract

/-- Two objects at the same place of the two documents have these schemas. -/
def CorrespondingSchemas (contract twin : Contract) (schema other : Json) : Prop :=
  ∃ fields others,
    SamePlace (.obj contract.document) (.obj twin.document) (.obj fields) (.obj others) ∧
      fields.lookup "schema" = some schema ∧ others.lookup "schema" = some other

/-- The names of header parameters play no part in the validation against the schemas at the
same place of two documents. -/
def SchemasAgree (contract twin : Contract) : Prop :=
  ∀ schema other value, contract.CorrespondingSchemas twin schema other →
    contract.library.iterErrors (.obj contract.document) (contract.wrapped schema) value =
      twin.library.iterErrors (.obj twin.document) (twin.wrapped other) value

/-- A contract agrees with itself, whatever its library validates. -/
theorem schemasAgree_refl (contract : Contract) : contract.SchemasAgree contract := by
  rintro schema other value ⟨fields, others, stands, found, given⟩
  cases stands.eq
  cases Option.some.inj (found.symm.trans given)
  rfl

/-- Contracts of one library whose documents differ in the letter case of header names. -/
structure Twins (contract twin : Contract) : Prop where
  library : twin.library = contract.library
  documents : Respelled contract.library.lower (.obj contract.document) (.obj twin.document)
  schemas : contract.SchemasAgree twin

/-- A parameter and its respelling, with all that is read of them. -/
structure AlikeParams (contract twin : Contract) (param other : Json) : Prop where
  alike : AlikeIn contract.library.lower contract twin param other
  first : contract.Parameter param
  second : twin.Parameter other

section Twins

variable {contract twin : Contract}

theorem Twins.errors_eq (twins : Twins contract twin) {schema other : Json}
    (schemas : contract.CorrespondingSchemas twin schema other) (value : Json) (label : String) :
    contract.errors schema value label = twin.errors other value label := by
  unfold errors
  rw [twins.schemas schema other value schemas]

/-! ### Parameters -/

/-- What is read of two parameters is the same, up to the name of a header and the schema. -/
theorem AlikeParams.fields {param other : Json} (alike : AlikeParams contract twin param other) :
    ∃ fields others location name again schema shape,
      (param = .obj fields ∧ fields.lookup "in" = some (.str location) ∧
        fields.lookup "name" = some name ∧ fields.lookup "schema" = some schema) ∧
      (other = .obj others ∧ others.lookup "in" = some (.str location) ∧
        others.lookup "name" = some again ∧ others.lookup "schema" = some shape) ∧
      location ∈ ["path", "query", "header"] ∧
      (again = name ∨ location = "header" ∧ Spelt contract.library.lower name again) ∧
      AlikeIn contract.library.lower contract twin schema shape ∧
      contract.CorrespondingSchemas twin schema shape ∧
      (∃ target, contract.deref schema = .ok (.obj target)) ∧
      ∃ target, twin.deref shape = .ok (.obj target) := by
  obtain ⟨⟨respelled, stands⟩, ⟨fields, location, name, schema, target, rfl, located, listed, named,
    hashed, typed, leads⟩, ⟨others, place, again, shape, aim, rfl, placed, _, called, _, shaped,
    aims⟩⟩ := alike
  obtain ⟨_, same, all⟩ := respelled.members_of_obj
  cases same
  have places := all.lookup "in"
  have names := all.lookup "name"
  have schemas := (all.lookup "schema").options stands (by decide)
  rw [located, placed] at places
  rw [named, called] at names
  rw [typed, shaped] at schemas
  have one : place = location := by
    cases places with
    | some same _ => exact Json.str.inj (same.eq_of_hashable rfl)
    | name impossible => exact absurd impossible (by decide)
  subst place
  refine ⟨fields, others, location, name, again, schema, shape, ⟨rfl, located, named, typed⟩,
    ⟨rfl, placed, called, shaped⟩, listed, ?_, ?_, ⟨fields, others, stands, typed, shaped⟩,
    ⟨target, leads⟩, ⟨aim, aims⟩⟩
  · cases names with
    | some same _ => exact .inl (same.eq_of_hashable hashed)
    | name _ header spelt =>
        rw [located] at header
        exact .inr ⟨Json.str.inj (Option.some.inj header), spelt⟩
  · cases schemas with
    | some same => exact same

theorem missingErrors_alike {lower : String → String} {document other param twinParam : Json}
    (alike : AlikePlaces lower document other param twinParam) (location : String) :
    missingErrors param location = missingErrors twinParam location := by
  refine ((alike.get (by decide) (.inl rfl)).bind fun required again same => ?_).eq
  rw [same.respelled.truthy_eq]
  exact .ok rfl

theorem Twins.coerce_eq (twins : Twins contract twin) {kind other : Json}
    (respelled : Respelled contract.library.lower kind other) (text : String) :
    contract.coerce text kind = twin.coerce text other := by
  unfold coerce
  rw [twins.library]
  cases respelled <;> rfl

theorem Twins.coerced_eq (twins : Twins contract twin) {schema other : Json}
    (alike : AlikeIn contract.library.lower contract twin schema other) {text : String}
    (leads : ∃ target, contract.deref schema = .ok (.obj target))
    (aims : ∃ target, twin.deref other = .ok (.obj target)) :
    contract.coerced text schema = twin.coerced text other := by
  obtain ⟨target, leads⟩ := leads
  obtain ⟨aim, aims⟩ := aims
  have targets := alike_of_deref twins.documents alike leads aims
  unfold coerced
  rw [leads, aims]
  have ends : AlikeOutcomes Eq
      ((Json.obj target).get "type" .null >>= fun kind => pure (contract.coerce text kind))
      ((Json.obj aim).get "type" .null >>= fun kind => pure (twin.coerce text kind)) :=
    (targets.get (by decide) (.inl rfl)).bind fun kind again same =>
      .ok (twins.coerce_eq same.respelled text)
  exact ends.eq

theorem Twins.valueErrors_eq (twins : Twins contract twin) {param other name schema shape : Json}
    (alike : AlikeIn contract.library.lower contract twin param other)
    (named : param.getItem "name" = .ok name) (called : other.getItem "name" = .ok name)
    (typed : param.getItem "schema" = .ok schema) (shaped : other.getItem "schema" = .ok shape)
    (schemas : contract.CorrespondingSchemas twin schema shape) (location : String)
    (values : List (String × Json)) :
    contract.valueErrors param location values = twin.valueErrors other location values := by
  unfold valueErrors
  rw [named, called, typed, shaped, missingErrors_alike alike]
  simp only [bind, Except.bind, twins.errors_eq schemas]

theorem Twins.headerParamErrors_eq (twins : Twins contract twin)
    {param other name again schema shape : Json}
    (alike : AlikeIn contract.library.lower contract twin param other)
    (named : param.getItem "name" = .ok name) (called : other.getItem "name" = .ok again)
    (names : again = name ∨ Spelt contract.library.lower name again)
    (typed : param.getItem "schema" = .ok schema) (shaped : other.getItem "schema" = .ok shape)
    (same : AlikeIn contract.library.lower contract twin schema shape)
    (schemas : contract.CorrespondingSchemas twin schema shape)
    (leads : ∃ target, contract.deref schema = .ok (.obj target))
    (aims : ∃ target, twin.deref shape = .ok (.obj target)) (headers : Headers) :
    contract.headerParamErrors param headers = twin.headerParamErrors other headers := by
  have lowered : contract.lowerHeaders headers = twin.lowerHeaders headers := by
    unfold lowerHeaders
    rw [twins.library]
  have coercion (text : String) : contract.coerced text schema = twin.coerced text shape :=
    twins.coerced_eq same leads aims
  unfold headerParamErrors
  rw [named, called, typed, shaped, missingErrors_alike alike, lowered, twins.library]
  rcases names with rfl | spelt
  · simp only [bind, Except.bind, coercion, twins.errors_eq schemas]
  · obtain @⟨text, twinText, same⟩ := spelt
    simp only [bind, Except.bind, coercion, twins.errors_eq schemas, same]

theorem Twins.paramErrors_eq (twins : Twins contract twin) {param other : Json}
    (alike : AlikeParams contract twin param other) (step : Step) :
    contract.paramErrors step param = twin.paramErrors step other := by
  have both := alike.alike
  obtain ⟨fields, others, location, name, again, schema, shape, ⟨rfl, located, named, typed⟩,
    ⟨rfl, placed, called, shaped⟩, listed, names, similar, schemas, leads, aims⟩ := alike.fields
  have item (fields : List (String × Json)) (key : String) (value : Json)
      (found : fields.lookup key = some value) : (Json.obj fields).getItem key = .ok value :=
    Json.getItem_eq_ok_iff.mpr ⟨fields, rfl, found⟩
  unfold paramErrors
  rw [item _ _ _ located, item _ _ _ placed]
  simp only [List.mem_cons, List.not_mem_nil, or_false] at listed
  rcases listed with rfl | rfl | rfl
  · have same : again = name := names.resolve_right fun other => absurd other.1 (by decide)
    subst same
    exact twins.valueErrors_eq both (item _ _ _ named) (item _ _ _ called)
      (item _ _ _ typed) (item _ _ _ shaped) schemas _ _
  · have same : again = name := names.resolve_right fun other => absurd other.1 (by decide)
    subst same
    exact twins.valueErrors_eq both (item _ _ _ named) (item _ _ _ called)
      (item _ _ _ typed) (item _ _ _ shaped) schemas _ _
  · exact twins.headerParamErrors_eq both (item _ _ _ named) (item _ _ _ called)
      (names.imp_right And.right) (item _ _ _ typed) (item _ _ _ shaped) similar schemas leads
      aims _

/-! ### Requests -/

theorem toOption_bind {First Second : Type} {value : Except Raised First}
    {next : First → Except Raised Second} :
    (value >>= next).toOption = value.toOption.bind fun result => (next result).toOption := by
  cases value <;> rfl

theorem toOption_of_alike {First Second : Type} {related : First → Second → Prop}
    {one : Except Raised First} {two : Except Raised Second}
    {next : First → Except Raised (List String)} {last : Second → Except Raised (List String)}
    (alike : AlikeOutcomes related one two)
    (same : ∀ result other, related result other →
      (next result).toOption = (last other).toOption) :
    (one >>= next).toOption = (two >>= last).toOption := by
  cases alike with
  | error => rfl
  | ok alike => exact same _ _ alike

/-- What comes of references, to anything that needs an object. -/
theorem toOption_of_followed {lower : String → String} {document twinned : Json}
    {outcome other : Except Raised Json} {next last : Json → Except Raised (List String)}
    (followed : Followed lower document twinned outcome other)
    (same : ∀ value twinValue, AlikePlaces lower document twinned value twinValue →
      AlikeOutcomes Eq (next value) (last twinValue))
    (useless : ∀ text, (next (.str text)).toOption = none ∧ (last (.str text)).toOption = none) :
    (outcome >>= next).toOption = (other >>= last).toOption := by
  rcases followed with alike | ⟨one, two⟩
  · rw [(alike.bind same).eq]
  · have none {found : Except Raised Json} {rest : Json → Except Raised (List String)}
        (unusable : Unusable found) (fails : ∀ text, (rest (.str text)).toOption = none) :
        (found >>= rest).toOption = none := by
      cases found with
      | error raised => rfl
      | ok value =>
          obtain ⟨text, rfl⟩ := unusable value rfl
          exact fails text
    rw [none one fun text => (useless text).1, none two fun text => (useless text).2]

/-- The schema of a media type is none in both documents, or it stands at the same place. -/
theorem alike_schema {media twinMedia : Json}
    (alike : AlikeIn contract.library.lower contract twin media twinMedia) :
    AlikeOutcomes (fun schema shape => schema = .null ∧ shape = .null ∨
        AlikeIn contract.library.lower contract twin schema shape ∧
          contract.CorrespondingSchemas twin schema shape)
      (media.get "schema" .null) (twinMedia.get "schema" .null) := by
  obtain ⟨respelled, stands⟩ := alike
  cases media with
  | obj members =>
      obtain ⟨others, rfl, all⟩ := respelled.members_of_obj
      unfold Json.get
      refine .ok ?_
      rcases ((all.lookup "schema").options stands (by decide)).cases_eq with
        ⟨found, absent⟩ | ⟨_, _, found, given, same⟩
      · rw [found, absent]
        exact .inl ⟨rfl, rfl⟩
      · rw [found, given]
        exact .inr ⟨same, members, others, stands, found, given⟩
  | arr items =>
      obtain ⟨others, rfl, _⟩ := respelled.items_of_arr
      exact .error
  | null | bool | int | float | nan | infinity | str =>
      cases respelled.eq_of_hashable rfl
      exact .error

theorem Twins.bodyErrors_eq (twins : Twins contract twin) {operation other : Json}
    (alike : AlikeIn contract.library.lower contract twin operation other) (body : Json) :
    (contract.bodyErrors operation body).toOption = (twin.bodyErrors other body).toOption := by
  unfold bodyErrors
  refine toOption_of_alike (alike.get (by decide) (.inr (.inl rfl))) fun given again same => ?_
  have followed := followed_deref twins.documents same
  cases body with
  | null =>
      refine toOption_of_followed followed ?_ fun _ => ⟨rfl, rfl⟩
      intro one two same
      refine (same.get (by decide) (.inl rfl)).bind fun required twinRequired same => ?_
      rw [same.respelled.truthy_eq]
      exact .ok rfl
  | bool | int | float | nan | infinity | str | arr | obj =>
      refine toOption_of_followed followed ?_ fun _ => ⟨rfl, rfl⟩
      intro one two same
      refine (same.get (by decide) (.inr (.inl rfl))).bind fun content twinContent same => ?_
      refine (same.get (by decide) (.inr (.inl rfl))).bind fun media twinMedia same => ?_
      refine (alike_schema same).bind fun schema shape same => ?_
      rcases same with ⟨rfl, rfl⟩ | ⟨⟨same, _⟩, schemas⟩
      · exact .ok rfl
      · have agree := twins.errors_eq schemas
        have ends {outcome : Except Raised (List String)} : AlikeOutcomes Eq outcome outcome :=
          .refl (fun _ => rfl) outcome
        cases schema with
        | obj members =>
            obtain ⟨_, rfl, _⟩ := same.members_of_obj
            dsimp only
            rw [agree]
            exact ends
        | arr items =>
            obtain ⟨_, rfl, _⟩ := same.items_of_arr
            dsimp only
            rw [agree]
            exact ends
        | null =>
            cases same.eq_of_hashable rfl
            exact .ok rfl
        | bool | int | float | nan | infinity | str =>
            cases same.eq_of_hashable rfl
            dsimp only
            rw [agree]
            exact ends

/-- Operations that are stored for respelled declarations. -/
structure AlikeOperations (contract twin : Contract) (one two : Operation) : Prop where
  method : one.method = two.method
  path : one.path = two.path
  operation : AlikeIn contract.library.lower contract twin one.operation two.operation
  params : List.Forall₂ (AlikeParams contract twin) one.params two.params

theorem Twins.buildPath_eq (twins : Twins contract twin) (params : List (String × Json))
    (path : List Char) : contract.buildPath params path = twin.buildPath params path := by
  have encodings (value : Json) : contract.encoded value = twin.encoded value := by
    unfold encoded
    rw [twins.library]
  induction params generalizing path with
  | nil => rfl
  | cons entry params ih =>
      unfold buildPath
      rw [encodings entry.2, ih]

theorem Twins.request_eq (twins : Twins contract twin) {step : Step}
    (alike : AlikeOptions (AlikeOperations contract twin) (contract.operation? step.operation)
      (twin.operation? step.operation)) :
    (contract.request step).toOption = (twin.request step).toOption := by
  unfold request
  generalize contract.operation? step.operation = found at alike ⊢
  generalize twin.operation? step.operation = twinFound at alike ⊢
  cases alike with
  | none => rfl
  | @some operation other same =>
      have params : gather (contract.paramErrors step) operation.params =
          gather (twin.paramErrors step) other.params :=
        gather_forall₂ same.params fun _ _ alike => twins.paramErrors_eq alike step
      dsimp only
      rw [params, same.path, twins.buildPath_eq, same.method]
      simp only [toOption_bind, twins.bodyErrors_eq same.operation]

/-! ### Declarations -/

theorem forall₂_flatMap {First Second Third Fourth : Type} {related : First → Second → Prop}
    {final : Third → Fourth → Prop} {good : First → Prop} {fine : Second → Prop}
    {items : List First} {others : List Second} {emit : First → List Third}
    {twinEmit : Second → List Fourth} (both : List.Forall₂ related items others)
    (all : ∀ item ∈ items, good item) (each : ∀ other ∈ others, fine other)
    (same : ∀ item other, related item other → good item → fine other →
      List.Forall₂ final (emit item) (twinEmit other)) :
    List.Forall₂ final (items.flatMap emit) (others.flatMap twinEmit) := by
  induction both with
  | nil => exact .nil
  | cons alike _ ih =>
      obtain ⟨first, all⟩ := List.forall_mem_cons.mp all
      obtain ⟨second, each⟩ := List.forall_mem_cons.mp each
      rw [List.flatMap_cons, List.flatMap_cons]
      exact List.rel_append (same _ _ alike first second) (ih all each)

theorem rawParams_alike {lower : String → String} {document twinned value other : Json}
    (alike : AlikePlaces lower document twinned value other) :
    List.Forall₂ (AlikePlaces lower document twinned) (rawParams value) (rawParams other) := by
  have both : AlikeOutcomes (AlikePlaces lower document twinned) (value.get "parameters" (.arr []))
      (other.get "parameters" (.arr [])) := alike.get (by decide) (.inr (.inr rfl))
  unfold rawParams
  generalize value.get "parameters" (.arr []) = found at both ⊢
  generalize other.get "parameters" (.arr []) = twinFound at both ⊢
  cases both with
  | error => exact .nil
  | @ok declared again same =>
      cases declared with
      | arr items =>
          obtain ⟨_, rfl, _⟩ := same.respelled.items_of_arr
          exact alike_items same
      | obj members =>
          obtain ⟨_, rfl, _⟩ := same.respelled.members_of_obj
          exact .nil
      | null | bool | int | float | nan | infinity | str =>
          cases same.respelled.eq_of_hashable rfl
          exact .nil

theorem Twins.alike_destinations (twins : Twins contract twin) {raws others : List Json}
    (both : List.Forall₂ (AlikeIn contract.library.lower contract twin) raws others)
    (all : ∀ raw ∈ raws, contract.Defines raw) (each : ∀ raw ∈ others, twin.Defines raw) :
    List.Forall₂ (AlikeParams contract twin) (raws.map contract.destination)
      (others.map twin.destination) := by
  induction both with
  | nil => exact .nil
  | cons same _ ih =>
      obtain ⟨⟨param, resolved, parameter⟩, all⟩ := List.forall_mem_cons.mp all
      obtain ⟨⟨twinParam, twinned, twinParameter⟩, each⟩ := List.forall_mem_cons.mp each
      rw [List.map_cons, List.map_cons, destination_eq resolved, destination_eq twinned]
      have first := parameter
      have second := twinParameter
      obtain ⟨_, _, _, _, _, rfl, _⟩ := first
      obtain ⟨_, _, _, _, _, rfl, _⟩ := second
      exact .cons ⟨alike_of_deref twins.documents same resolved twinned, parameter,
        twinParameter⟩ (ih all each)

/-- Declarations of one operation in the two documents. -/
structure AlikeDeclarations (contract twin : Contract) (one two : Declaration) : Prop where
  method : one.method = two.method
  path : one.path = two.path
  operation : AlikeIn contract.library.lower contract twin one.operation two.operation
  given : List.Forall₂ (AlikeParams contract twin) one.given two.given

theorem Twins.alike_declared (twins : Twins contract twin) {item other : Json}
    (items : AlikeIn contract.library.lower contract twin item other)
    {entry another : String × Json}
    (entries : AlikeEntries contract.library.lower (.obj contract.document) (.obj twin.document)
      entry another) (path : String)
    (reads : entry.1 ∈ methods → contract.ReadsOperation item entry.2)
    (twinReads : another.1 ∈ methods → twin.ReadsOperation other another.2) :
    List.Forall₂ (AlikeDeclarations contract twin) (contract.declared path item entry)
      (twin.declared path other another) := by
  obtain ⟨key, raw⟩ := entry
  obtain ⟨_, twinRaw⟩ := another
  obtain ⟨rfl, values⟩ := entries
  unfold declared
  dsimp only at reads twinReads values ⊢
  by_cases listed : key ∈ methods
  · rw [if_pos listed, if_pos listed]
    have alike : AlikeIn contract.library.lower contract twin raw twinRaw := by
      refine values.resolve_right ?_
      rintro ⟨rfl, _⟩
      revert listed
      decide
    obtain ⟨operation, resolved, defines⟩ := reads listed
    obtain ⟨twinOperation, twinned, twinDefines⟩ := twinReads listed
    have operations := alike_of_deref twins.documents alike resolved twinned
    rw [destination_eq resolved, destination_eq twinned]
    refine .cons ⟨rfl, rfl, operations, ?_⟩ .nil
    have raws := List.rel_append (rawParams_alike items) (rawParams_alike operations)
    have params := twins.alike_destinations raws defines twinDefines
    rwa [List.map_append, List.map_append] at params
  · rw [if_neg listed, if_neg listed]
    exact .nil

theorem Twins.alike_declaredIn (twins : Twins contract twin) {entry another : String × Json}
    (entries : AlikeEntries contract.library.lower (.obj contract.document) (.obj twin.document)
      entry another)
    (reads : contract.ReadsPath entry.2) (twinReads : twin.ReadsPath another.2) :
    List.Forall₂ (AlikeDeclarations contract twin) (contract.declaredIn entry)
      (twin.declaredIn another) := by
  obtain ⟨key, raw⟩ := entry
  obtain ⟨_, twinRaw⟩ := another
  obtain ⟨rfl, values⟩ := entries
  obtain ⟨item, resolved, all⟩ := reads
  obtain ⟨twinItem, twinned, each⟩ := twinReads
  have alike : AlikeIn contract.library.lower contract twin raw twinRaw := by
    refine values.resolve_right ?_
    rintro ⟨_, ⟨_⟩⟩
    obtain ⟨_, impossible⟩ := unusable_derefFrom _ resolved
    cases impossible
  have items := alike_of_deref twins.documents alike resolved twinned
  unfold declaredIn
  rw [destination_eq resolved, destination_eq twinned]
  exact forall₂_flatMap (alike_entries items) all each fun _ _ entries reads twinReads =>
    twins.alike_declared items entries key reads twinReads

section Members

variable {lower : String → String} {document twinned value other : Json}

/-- Both are objects, or neither has a member. -/
theorem members_cases (alike : AlikePlaces lower document twinned value other) :
    (∃ fields others, value = .obj fields ∧ other = .obj others) ∨
      members value = [] ∧ members other = [] := by
  cases value with
  | obj fields =>
      obtain ⟨others, rfl, _⟩ := alike.respelled.members_of_obj
      exact .inl ⟨fields, others, rfl, rfl⟩
  | arr items =>
      obtain ⟨_, rfl, _⟩ := alike.respelled.items_of_arr
      exact .inr ⟨rfl, rfl⟩
  | null | bool | int | float | nan | infinity | str =>
      cases alike.respelled.eq_of_hashable rfl
      exact .inr ⟨rfl, rfl⟩

theorem lookup_members (alike : AlikePlaces lower document twinned value other) {key : String}
    (apart : key ≠ "name") :
    AlikeOptions (AlikePlaces lower document twinned) ((members value).lookup key)
      ((members other).lookup key) := by
  rcases members_cases alike with ⟨fields, others, rfl, rfl⟩ | ⟨one, two⟩
  · obtain ⟨_, same, all⟩ := alike.respelled.members_of_obj
    cases same
    exact (all.lookup key).options alike.stands apart
  · rw [one, two]
    exact .none

theorem alike_members (alike : AlikePlaces lower document twinned value other) :
    List.Forall₂ (AlikeEntries lower document twinned) (members value) (members other) := by
  rcases members_cases alike with ⟨fields, others, rfl, rfl⟩ | ⟨one, two⟩
  · exact alike_entries alike
  · rw [one, two]
    exact .nil

end Members

theorem Twins.alike_declarations (twins : Twins contract twin)
    (all : ∀ entry ∈ members ((contract.document.lookup "paths").getD (.obj [])),
      contract.ReadsPath entry.2)
    (each : ∀ entry ∈ members ((twin.document.lookup "paths").getD (.obj [])),
      twin.ReadsPath entry.2) :
    List.Forall₂ (AlikeDeclarations contract twin) contract.declarations twin.declarations := by
  have paths : AlikeOptions (AlikeIn contract.library.lower contract twin)
      (contract.document.lookup "paths") (twin.document.lookup "paths") :=
    lookup_members ⟨twins.documents, .whole⟩ (by decide)
  exact forall₂_flatMap (alike_members (alike_getD paths (.inr (.inl rfl)))) all each
    fun _ _ entries reads twinReads => twins.alike_declaredIn entries reads twinReads

theorem AlikeParams.caselessKey?_eq {param other : Json}
    (alike : AlikeParams contract twin param other) :
    caselessKey? contract.library.lower param = caselessKey? contract.library.lower other := by
  obtain ⟨fields, others, location, name, again, _, _, ⟨rfl, located, named, _⟩,
    ⟨rfl, placed, called, _⟩, _, names, _⟩ := alike.fields
  unfold caselessKey?
  rw [paramKey?_eq located named, paramKey?_eq placed called]
  rcases names with rfl | ⟨rfl, spelt⟩
  · rfl
  · obtain @⟨text, twinText, same⟩ := spelt
    unfold Json.dictKey? caseless DictKey.mapText
    simp [same]

/-- The parameters that are stored for two declarations are alike if neither clashes. -/
theorem alike_stored {lower : String → String} (lowers : contract.library.lower = lower)
    {one two : Declaration} (alike : AlikeDeclarations contract twin one two)
    (apart : ¬ one.Clashes lower) (twinApart : ¬ two.Clashes lower) :
    List.Forall₂ (AlikeParams contract twin) (assignAll paramKey? one.given)
      (assignAll paramKey? two.given) := by
  subst lowers
  have among : List.Forall₂ (fun param other => AlikeParams contract twin param other ∧
      param ∈ one.given ∧ other ∈ two.given) one.given two.given :=
    List.forall₂_iff_zip.mpr ⟨alike.given.length_eq, fun inside =>
      ⟨List.forall₂_zip alike.given inside, List.of_mem_zip inside⟩⟩
  refine (forall₂_assignAll ?_ among).imp fun _ _ both => both.1
  rintro first second other another ⟨same, firstIn, otherIn⟩ ⟨again, secondIn, anotherIn⟩
  have keys : SameKey (caselessKey? contract.library.lower) first second ↔
      SameKey (caselessKey? contract.library.lower) other another := by
    unfold SameKey
    rw [same.caselessKey?_eq, again.caselessKey?_eq]
  constructor
  · intro equal
    exact Declaration.sameKey_of_not_clashes twinApart otherIn anotherIn
      (keys.mp (sameKey_caseless equal))
  · intro equal
    exact Declaration.sameKey_of_not_clashes apart firstIn secondIn
      (keys.mpr (sameKey_caseless equal))

/-- Under a name both have operations that are alike, or neither has one. -/
theorem alike_find {declarations others : List Declaration}
    (both : List.Forall₂ (AlikeDeclarations contract twin) declarations others)
    (apart : ∀ declaration ∈ declarations, ¬ declaration.Clashes contract.library.lower)
    (twinApart : ∀ declaration ∈ others, ¬ declaration.Clashes contract.library.lower)
    (name : String) :
    AlikeOptions (AlikeOperations contract twin)
      (((declarations.map Declaration.stored).find? fun entry =>
        entry.1.equals (.str name)).map Prod.snd)
      (((others.map Declaration.stored).find? fun entry =>
        entry.1.equals (.str name)).map Prod.snd) := by
  induction both with
  | nil => exact .none
  | @cons one two _ _ same _ ih =>
      obtain ⟨first, apart⟩ := List.forall_mem_cons.mp apart
      obtain ⟨second, twinApart⟩ := List.forall_mem_cons.mp twinApart
      have ids : AlikeIn contract.library.lower contract twin (Declaration.stored one).1
          (Declaration.stored two).1 :=
        alike_getD (lookup_members same.operation (by decide)) (.inl rfl)
      rw [List.map_cons, List.map_cons, List.find?_cons, List.find?_cons,
        ids.respelled.equals_str name]
      cases (Declaration.stored two).1.equals (.str name) with
      | true =>
          exact .some ⟨congrArg upper same.method, same.path, same.operation,
            alike_stored rfl same first second⟩
      | false => exact ih apart twinApart

end Twins

end Contract

open Contract in
/-- What is stored for the parameters of two accepted contracts, whose documents differ in the
letter case of header names, is as it should be and gives the same verdicts, if and only if no
header is declared under different spellings for one operation. -/
theorem parameter_overriding {library : Library} {document other : List (String × Json)}
    {contract twin : Contract} (accepted : Contract.init library document = .ok contract)
    (also : Contract.init library other = .ok twin)
    (respelled : Respelled library.lower (.obj document) (.obj other))
    (agree : contract.SchemasAgree twin) :
    (contract.Overrides ∧ twin.Overrides ∧
      ∀ step, (contract.request step).toOption = (twin.request step).toOption) ↔
      ¬ contract.Clashes ∧ ¬ twin.Clashes := by
  rw [overrides_iff accepted, overrides_iff also]
  refine and_congr_right fun apart => and_iff_left_of_imp fun twinApart step => ?_
  obtain ⟨operations, all⟩ := operations_eq accepted
  obtain ⟨twinOperations, each⟩ := operations_eq also
  obtain ⟨_, rfl, rfl, _⟩ := exists_of_init accepted
  obtain ⟨_, libraries, rfl, _⟩ := exists_of_init also
  have twins : Twins contract twin := ⟨libraries, respelled, agree⟩
  have declarations := twins.alike_declarations all each
  refine twins.request_eq ?_
  unfold operation?
  rw [operations, twinOperations]
  refine alike_find declarations (fun declaration member clashes => ?_)
    (fun declaration member clashes => ?_) step.operation
  · exact apart ⟨declaration, member, clashes⟩
  · rw [← libraries] at clashes
    exact twinApart ⟨declaration, member, clashes⟩

/-! ### A header of a path item and of an operation -/

namespace Sample

def traceHeader (name type : String) : Json :=
  .obj [("name", .str name), ("in", .str "header"), ("schema", .obj [("type", .str type)])]

def traceOperation (name : String) : Json :=
  .obj [("operationId", .str "trace"), ("parameters", .arr [traceHeader name "string"])]

/-- A path item that declares `X-Trace` as an integer, and an operation that declares it again. -/
def traceDocument (shared own : String) : List (String × Json) :=
  [("openapi", .str "3.1.0"),
    ("paths", .obj [("/trace", .obj [("parameters", .arr [traceHeader shared "integer"]),
      ("get", traceOperation own)])])]

def traceContract (shared own : String) (params : List Json) : Contract where
  library := checking
  document := traceDocument shared own
  operations := [(.str "trace", ⟨"GET", "/trace", traceOperation own, params⟩)]

def clashing : Contract := traceContract "X-Trace" "x-trace"
  [traceHeader "X-Trace" "integer", traceHeader "x-trace" "string"]

def agreeing (name : String) : Contract := traceContract name name [traceHeader name "string"]

theorem clashing_init :
    Contract.init checking (traceDocument "X-Trace" "x-trace") = .ok clashing := by rfl

theorem agreeing_init :
    Contract.init checking (traceDocument "X-Trace" "X-Trace") = .ok (agreeing "X-Trace") := by
  rfl

theorem lowered_init :
    Contract.init checking (traceDocument "x-trace" "x-trace") = .ok (agreeing "x-trace") := by
  rfl

def traced : Step where
  name := "trace"
  operation := "trace"
  headers := [("X-Trace", "seven")]
  expect := { status := 200 }

theorem respelled_traceDocument {shared own again twin : String}
    (first : checking.lower shared = checking.lower again)
    (second : checking.lower own = checking.lower twin) :
    Respelled checking.lower (.obj (traceDocument shared own))
      (.obj (traceDocument again twin)) := by
  have header {name other type : String} (same : checking.lower name = checking.lower other) :
      Respelled checking.lower (traceHeader name type) (traceHeader other type) :=
    .obj (.name rfl same (.cons .same (.cons .same .nil)))
  have operation : Respelled checking.lower (traceOperation own) (traceOperation twin) :=
    .obj (.cons .same (.cons (.arr (.cons (header second) .nil)) .nil))
  exact .obj (.cons .same (.cons (.obj (.cons (.obj (.cons (.arr (.cons (header first) .nil))
    (.cons operation .nil))) .nil)) .nil))

theorem schemasAgree {shared own again twin : String} {params others : List Json}
    (first : checking.lower shared = checking.lower again)
    (second : checking.lower own = checking.lower twin) :
    (traceContract shared own params).SchemasAgree (traceContract again twin others) := by
  rintro schema other value ⟨members, fields, stands, found, given⟩
  have alike := (stands.near (respelled_traceDocument first second)).resolve_right
    fun spelt => (by cases spelt)
  have typed := @Contract.lookup_members _ _ _ _ _ alike "schema" (by decide)
  simp only [Contract.members, found, given] at typed
  cases typed with
  | some same =>
      have apart : "type" ≠ "name" := by decide
      have both := same.get apart (.inl rfl)
      change Except.ok (typeErrors schema value) = Except.ok (typeErrors other value)
      unfold typeErrors
      generalize schema.get "type" .null = kind at both ⊢
      generalize other.get "type" .null = twinKind at both ⊢
      cases both with
      | error => rfl
      | ok same =>
          dsimp only
          rw [same.respelled.equals_str]

theorem not_clashes_agreeing (name : String) : ¬ (agreeing name).Clashes := by
  rintro ⟨declaration, member, first, one, second, two, spelling, other, ⟨_, named⟩, ⟨_, called⟩,
    _, apart⟩
  cases List.mem_singleton.mp member
  have names {param : Json} {text : String}
      (inside : param ∈ [traceHeader name "integer", traceHeader name "string"])
      (named : param.getItem "name" = .ok (.str text)) : text = name := by
    simp only [List.mem_cons, List.not_mem_nil, or_false] at inside
    rcases inside with rfl | rfl <;> cases named <;> rfl
  exact apart ((names one named).trans (names two called).symm)

end Sample

/-- The letter case of a header that is declared twice under one spelling does not matter. -/
theorem parameter_overriding_sample :
    (Sample.agreeing "X-Trace").Overrides ∧ (Sample.agreeing "x-trace").Overrides ∧
      ∀ step, ((Sample.agreeing "X-Trace").request step).toOption =
        ((Sample.agreeing "x-trace").request step).toOption :=
  (parameter_overriding Sample.agreeing_init Sample.lowered_init
    (Sample.respelled_traceDocument (by decide) (by decide))
    (Sample.schemasAgree (by decide) (by decide))).mpr
    ⟨Sample.not_clashes_agreeing _, Sample.not_clashes_agreeing _⟩

/-- Declared under two spellings, the header is checked against both definitions. -/
theorem parameter_overriding_counterexample :
    Contract.init Sample.checking (Sample.traceDocument "X-Trace" "x-trace") =
        .ok Sample.clashing ∧
      Contract.init Sample.checking (Sample.traceDocument "X-Trace" "X-Trace") =
        .ok (Sample.agreeing "X-Trace") ∧
      Respelled Sample.checking.lower (.obj (Sample.traceDocument "X-Trace" "x-trace"))
        (.obj (Sample.traceDocument "X-Trace" "X-Trace")) ∧
      ¬ Sample.clashing.Overrides ∧
      Sample.clashing.request Sample.traced =
        .ok ("GET", "/trace", ["request header parameter: schema violation (type)"]) ∧
      (Sample.agreeing "X-Trace").request Sample.traced = .ok ("GET", "/trace", []) := by
  refine ⟨Sample.clashing_init, Sample.agreeing_init,
    Sample.respelled_traceDocument rfl (by decide), ?_, by rfl, by rfl⟩
  rw [Contract.overrides_iff Sample.clashing_init, not_not]
  exact ⟨_, List.mem_singleton_self _, _, List.mem_cons_self, _, .tail _ List.mem_cons_self,
    "X-Trace", "x-trace", ⟨rfl, rfl⟩, ⟨rfl, rfl⟩, by decide, by decide⟩

end ApiSentinel
