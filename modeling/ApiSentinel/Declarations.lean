import ApiSentinel.Assignments
import ApiSentinel.Loading
import ApiSentinel.Respelling

/-!
# The operations of a document

An accepted contract keeps the operations that its document declares, in this order, and of
the parameters that a path item and an operation declare the last one of each key.
-/

namespace ApiSentinel

open Assignments

/-- What a scalar is as the key of a dictionary. -/
inductive DictKey
  | null
  | number (value : Rat)
  | infinity (negative : Bool)
  | text (value : String)
  deriving DecidableEq, Repr

/-- The key that a value is.  No value is `==` to `nan`. -/
def Json.dictKey? : Json → Option DictKey
  | .null => some .null
  | .infinity negative => some (.infinity negative)
  | .str text => some (.text text)
  | value => value.number?.map .number

/-- The key of a parameter in the dictionary `params`. -/
def paramKey? (param : Json) : Option (String × DictKey) :=
  match param.getItem "in", param.getItem "name" with
  | .ok (.str location), .ok name => name.dictKey?.map (Prod.mk location)
  | _, _ => none

theorem Json.equals_iff {value other : Json} (scalar : value.hashable = true)
    (plain : other.hashable = true) :
    value.equals other = true ↔ value.dictKey?.isSome = true ∧ value.dictKey? = other.dictKey? := by
  cases value <;> cases other <;>
    simp_all [hashable, equals, number?, dictKey?]

namespace Contract

variable {contract : Contract}

/-! ### The parameters of an operation -/

/-- An entry of `params` stands under the key of its parameter. -/
def Keyed (entry : (String × Json) × Json) : Prop :=
  entry.1.2.hashable = true ∧ paramKey? entry.2 = entry.1.2.dictKey?.map (Prod.mk entry.1.1)

theorem Keyed.sameKey_iff {first second : (String × Json) × Json} (keyed : Keyed first)
    (other : Keyed second) :
    SameKey paramKey? first.2 second.2 ↔
      first.1.1 = second.1.1 ∧ first.1.2.equals second.1.2 = true := by
  unfold SameKey
  rw [keyed.2, other.2, Json.equals_iff keyed.1 other.1]
  cases first.1.2.dictKey? <;> cases second.1.2.dictKey? <;> simp

/-- Setting a key of `params` is an assignment to the key of the parameter. -/
theorem setParam_eq {location : String} {name param : Json}
    {params : List ((String × Json) × Json)} (keyed : Keyed ((location, name), param))
    (all : ∀ entry ∈ params, Keyed entry) :
    (setParam location name param params).map Prod.snd =
        assign paramKey? param (params.map Prod.snd) ∧
      ∀ entry ∈ setParam location name param params, Keyed entry := by
  induction params with
  | nil =>
      refine ⟨rfl, ?_⟩
      intro entry member
      cases List.mem_singleton.mp member
      exact keyed
  | cons first params ih =>
      obtain ⟨⟨other, key⟩, old⟩ := first
      obtain ⟨known, all⟩ := List.forall_mem_cons.mp all
      obtain ⟨same, kept⟩ := ih all
      have test := known.sameKey_iff keyed
      rw [setParam, List.map_cons, assign]
      by_cases replaced : SameKey paramKey? old param
      · have equal := test.mp replaced
        rw [if_pos equal, if_pos replaced]
        refine ⟨rfl, List.forall_mem_cons.mpr ⟨⟨known.1, ?_⟩, all⟩⟩
        rw [← replaced.2]
        exact known.2
      · rw [if_neg (mt test.mpr replaced), if_neg replaced, List.map_cons, same]
        exact ⟨rfl, List.forall_mem_cons.mpr ⟨known, kept⟩⟩

/-- What following the references of a value leads to. -/
def destination (contract : Contract) (value : Json) : Json :=
  match contract.deref value with
  | .ok target => target
  | .error _ => .null

theorem destination_eq {value target : Json} (resolved : contract.deref value = .ok target) :
    contract.destination value = target := by
  unfold destination
  rw [resolved]

/-- A parameter, with all that is read of it. -/
def Parameter (contract : Contract) (param : Json) : Prop :=
  ∃ fields location name schema target, param = .obj fields ∧
    fields.lookup "in" = some (.str location) ∧ location ∈ ["path", "query", "header"] ∧
    fields.lookup "name" = some name ∧ name.hashable = true ∧
    fields.lookup "schema" = some schema ∧ contract.deref schema = .ok (.obj target)

/-- A declaration that leads to a parameter. -/
def Defines (contract : Contract) (raw : Json) : Prop :=
  ∃ param, contract.deref raw = .ok param ∧ contract.Parameter param

theorem paramKey?_eq {fields : List (String × Json)} {location : String} {name : Json}
    (located : fields.lookup "in" = some (.str location))
    (named : fields.lookup "name" = some name) :
    paramKey? (.obj fields) = name.dictKey?.map (Prod.mk location) := by
  unfold paramKey? Json.getItem
  dsimp only
  rw [located, named]
  rfl

/-- The parameters of an operation are what is left of the declared ones. -/
theorem params_eq {raws : List Json} {before params : List ((String × Json) × Json)}
    (all : ∀ entry ∈ before, Keyed entry)
    (gathered : raws.foldlM contract.loadParam before = .ok params) :
    params.map Prod.snd = (raws.map contract.destination).foldl
        (fun known item => assign paramKey? item known) (before.map Prod.snd) ∧
      ∀ raw ∈ raws, contract.Defines raw := by
  induction raws generalizing before with
  | nil =>
      cases gathered
      exact ⟨rfl, List.forall_mem_nil _⟩
  | cons raw raws ih =>
      rw [List.foldlM_cons] at gathered
      obtain ⟨next, loaded, gathered⟩ := except_bind_eq_ok.mp gathered
      obtain ⟨param, location, name, resolved, ⟨fields, place, other, schema, target, rfl, place_eq,
        listed, other_eq, typed, schema_eq⟩, located, named, hashed, rfl⟩ :=
        exists_of_loadParam loaded
      obtain ⟨_, same, located⟩ := Json.getItem_eq_ok_iff.mp located
      cases same
      obtain ⟨_, same, named⟩ := Json.getItem_eq_ok_iff.mp named
      cases same
      cases place_eq.symm.trans located
      have keyed : Keyed ((location, name), .obj fields) := ⟨hashed, paramKey?_eq located named⟩
      obtain ⟨same, kept⟩ := setParam_eq keyed all
      obtain ⟨left, defines⟩ := ih kept gathered
      rw [same] at left
      rw [List.map_cons, List.foldl_cons, destination_eq resolved]
      exact ⟨left, List.forall_mem_cons.mpr ⟨⟨_, resolved, fields, location, name, schema, target,
        rfl, located, listed, named, hashed, typed, schema_eq⟩, defines⟩⟩

/-! ### The declared operations -/

/-- The declarations under `parameters`. -/
def rawParams (object : Json) : List Json :=
  match object.get "parameters" (.arr []) with
  | .ok (.arr raws) => raws
  | _ => []

/-- An operation with the parameters that its path item and it itself declare, after
following references. -/
structure Declaration where
  method : String
  path : String
  operation : Json
  shared : List Json
  own : List Json

def Declaration.given (declaration : Declaration) : List Json :=
  declaration.shared ++ declaration.own

def members (value : Json) : List (String × Json) :=
  match value with
  | .obj members => members
  | _ => []

/-- The entry of `operations` for a declared operation. -/
def Declaration.stored (declaration : Declaration) : Json × Operation :=
  (((members declaration.operation).lookup "operationId").getD .null,
    ⟨upper declaration.method, declaration.path, declaration.operation,
      assignAll paramKey? declaration.given⟩)

def declared (contract : Contract) (path : String) (item : Json) (entry : String × Json) :
    List Declaration :=
  if entry.1 ∈ methods then
    [{ method := entry.1
       path := path
       operation := contract.destination entry.2
       shared := (rawParams item).map contract.destination
       own := (rawParams (contract.destination entry.2)).map contract.destination }]
  else []

def declaredIn (contract : Contract) (entry : String × Json) : List Declaration :=
  (members (contract.destination entry.2)).flatMap
    (contract.declared entry.1 (contract.destination entry.2))

/-- The operations that the document declares. -/
def declarations (contract : Contract) : List Declaration :=
  (members ((contract.document.lookup "paths").getD (.obj []))).flatMap contract.declaredIn

/-- A loop that appends to a list what it finds about each item. -/
theorem foldlM_append {Item Out : Type} {body : List Out → Item → Except Raised (List Out)}
    {emit : Item → List Out} {good : Item → Prop} {items : List Item}
    (each : ∀ known item next, body known item = .ok next → next = known ++ emit item ∧ good item)
    {start result : List Out} (ran : items.foldlM body start = .ok result) :
    result = start ++ items.flatMap emit ∧ ∀ item ∈ items, good item := by
  induction items generalizing start with
  | nil =>
      cases ran
      exact ⟨(List.append_nil _).symm, List.forall_mem_nil _⟩
  | cons item items ih =>
      rw [List.foldlM_cons] at ran
      obtain ⟨next, first, rest⟩ := except_bind_eq_ok.mp ran
      obtain ⟨rfl, fine⟩ := each _ item next first
      obtain ⟨rfl, all⟩ := ih rest
      exact ⟨by rw [List.flatMap_cons, List.append_assoc], List.forall_mem_cons.mpr ⟨fine, all⟩⟩

theorem not_defines_str {text : String} : ¬ contract.Defines (.str text) := by
  rintro ⟨param, resolved, fields, _, _, _, _, rfl, _⟩
  obtain ⟨_, impossible⟩ := unusable_derefFrom _ resolved
  cases impossible

/-- Strings are joined to a list of parameters only if both are empty. -/
theorem concat_eq {first second shared own : Json} {raws : List Json}
    (below : first.get "parameters" (.arr []) = .ok shared)
    (given : second.get "parameters" (.arr []) = .ok own) (joined : shared.concat own = .ok raws)
    (defines : ∀ raw ∈ raws, contract.Defines raw) :
    raws = rawParams first ++ rawParams second := by
  unfold rawParams
  rw [below, given]
  cases shared with
  | arr items =>
      cases own with
      | arr others =>
          cases joined
          rfl
      | null | bool | int | float | nan | infinity | str | obj => cases joined
  | str text =>
      cases own with
      | str other =>
          cases joined
          cases symbols : (text ++ other).toList with
          | nil => rfl
          | cons symbol rest =>
              rw [symbols] at defines
              exact absurd (defines _ List.mem_cons_self) not_defines_str
      | null | bool | int | float | nan | infinity | arr | obj => cases joined
  | null | bool | int | float | nan | infinity | obj => cases own <;> cases joined

/-- The parameters of an operation are defined, those of its path item included. -/
def ReadsOperation (contract : Contract) (item : Json) (raw : Json) : Prop :=
  ∃ operation, contract.deref raw = .ok (.obj operation) ∧
    ∀ param ∈ rawParams item ++ rawParams (.obj operation), contract.Defines param

def ReadsPath (contract : Contract) (raw : Json) : Prop :=
  ∃ item, contract.deref raw = .ok (.obj item) ∧
    ∀ entry ∈ item, entry.1 ∈ methods → contract.ReadsOperation (.obj item) entry.2

theorem loadOperation_eq {path : String} {item : Json} {operations next : List (Json × Operation)}
    {entry : String × Json}
    (loaded : contract.loadOperation path item operations entry = .ok next) :
    next = operations ++ (contract.declared path item entry).map Declaration.stored ∧
      (entry.1 ∈ methods → contract.ReadsOperation item entry.2) := by
  rcases exists_of_loadOperation loaded with
    ⟨other, rfl⟩ |
      ⟨listed, opId, fields, shared, own, raws, params, resolved, identified, below, given, joined,
        gathered, rfl⟩
  · unfold declared
    rw [if_neg other]
    exact ⟨(List.append_nil _).symm, fun listed => absurd listed other⟩
  · obtain ⟨left, defines⟩ := params_eq (List.forall_mem_nil _) gathered
    have all := concat_eq below given joined defines
    subst all
    unfold declared
    rw [if_pos listed, destination_eq resolved]
    refine ⟨?_, fun _ => ⟨fields, resolved, defines⟩⟩
    rw [List.map_append] at left
    cases identified
    rw [left]
    rfl

theorem loadPath_eq {operations next : List (Json × Operation)} {entry : String × Json}
    (loaded : contract.loadPath operations entry = .ok next) :
    next = operations ++ (contract.declaredIn entry).map Declaration.stored ∧
      contract.ReadsPath entry.2 := by
  obtain ⟨_, _, item, resolved, loaded⟩ := exists_of_loadPath loaded
  obtain ⟨rfl, all⟩ := foldlM_append (fun _ _ _ ran => loadOperation_eq ran) loaded
  unfold declaredIn
  rw [destination_eq resolved, List.map_flatMap]
  exact ⟨rfl, item, resolved, all⟩

/-- An accepted contract keeps the operations of its document, and their parameters are those
that are left after all the declared ones have been assigned to their keys. -/
theorem operations_eq {library : Library} {document : List (String × Json)}
    (accepted : init library document = .ok contract) :
    contract.operations = contract.declarations.map Declaration.stored ∧
      ∀ entry ∈ members ((contract.document.lookup "paths").getD (.obj [])),
        contract.ReadsPath entry.2 := by
  obtain ⟨_, rfl, rfl, paths, given, gathered⟩ := exists_of_init accepted
  obtain ⟨same, all⟩ := foldlM_append (fun _ _ _ ran => loadPath_eq ran) gathered
  have found : (contract.document.lookup "paths").getD (.obj []) = .obj paths :=
    Except.ok.inj given
  unfold declarations
  rw [found, List.map_flatMap]
  -- Following references needs the document only.
  exact ⟨same, all⟩

end Contract

end ApiSentinel
