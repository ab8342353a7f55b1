import ApiSentinel.Loading
import ApiSentinel.PercentEncoding

/-!
# Local references

`_inspect` and `deref` follow a reference literally through the whole document.  The schema
library decodes its percent escapes and follows it through the wrapper of `errors`, which
has the components and the paths of the document only.
-/

namespace ApiSentinel

open PercentEncoding

namespace Contract

variable {library : Library} {members : List (String × Json)} {contract : Contract}
  {decode : List Char → List Char} {ref : String}

/-- The pointer that the schema library follows for a reference. -/
def decoded (decode : List Char → List Char) (ref : String) : String :=
  String.ofList (decode (fragment ref).toList)

/-- Where the schema library arrives when it follows a local reference from a schema that
`errors` has wrapped. -/
def followed (contract : Contract) (decode : List Char → List Char) (schema : Json)
    (ref : String) : Except Raised Json :=
  pointer (contract.wrapped schema) (decoded decode ref)

/-- The decoded reference goes through the components or the paths, and leads there to the
same value of the document as the literal one; or it happens to lead to the same value
elsewhere in the wrapper. -/
inductive Agrees (contract : Contract) (decode : List Char → List Char) (ref : String) : Prop
  | inside {name tokens} (spelled : tokens? (decoded decode ref) = some (name :: tokens))
      (kept : name = "components".toList ∨ name = "paths".toList)
      (same : pointer (.obj contract.document) (decoded decode ref) =
        pointer (.obj contract.document) (fragment ref))
  | noComponents (spelled : tokens? (decoded decode ref) = some ["components".toList])
      (none : contract.document.lookup "components" = none)
      (same : pointer (.obj contract.document) (fragment ref) = .ok (.obj []))
  | identifier (spelled : tokens? (decoded decode ref) = some ["$id".toList])
      (same : pointer (.obj contract.document) (fragment ref) =
        .ok (.str "urn:api-sentinel:contract"))

/-! ### The references of the document -/

mutual

/-- Every reference anywhere in an inspected value can be resolved. -/
theorem resolved_of_mem_refs : ∀ {document value : Json},
    inspect library document value = .ok () → ∀ ref ∈ value.refs,
      ∃ target, pointer document (fragment ref) = .ok target
  | _, .obj members, inspected, ref, member => resolved_of_mem_members inspected ref member
  | _, .arr items, inspected, ref, member => resolved_of_mem_items inspected ref member
  | _, .null, _, _, member | _, .bool _, _, _, member | _, .int _, _, _, member
  | _, .float _, _, _, member | _, .nan, _, _, member | _, .infinity _, _, _, member
  | _, .str _, _, _, member => by cases member

theorem resolved_of_mem_members : ∀ {document : Json} {members : List (String × Json)},
    inspectMembers library document members = .ok () → ∀ ref ∈ refsOfMembers members,
      ∃ target, pointer document (fragment ref) = .ok target
  | _, [], _, _, member => by cases member
  | document, (key, child) :: members, inspected, ref, member => by
      rw [inspectMembers] at inspected
      obtain ⟨_, item, inspected⟩ := except_bind_eq_ok.mp inspected
      obtain ⟨_, below, rest⟩ := except_bind_eq_ok.mp inspected
      rw [refsOfMembers, List.mem_append, List.mem_append] at member
      rcases member with here | inside | later
      · split at here
        · rename_i same
          subst key
          obtain ⟨other, target, rfl, resolved⟩ := resolved_of_inspectItem item
          have same : ref = other := by simpa [Json.text?] using here
          exact ⟨target, same ▸ resolved⟩
        · cases here
      · exact resolved_of_mem_refs below ref inside
      · exact resolved_of_mem_members rest ref later

theorem resolved_of_mem_items : ∀ {document : Json} {items : List Json},
    inspectItems library document items = .ok () → ∀ ref ∈ refsOfItems items,
      ∃ target, pointer document (fragment ref) = .ok target
  | _, [], _, _, member => by cases member
  | _, item :: items, inspected, ref, member => by
      rw [inspectItems] at inspected
      obtain ⟨_, first, rest⟩ := except_bind_eq_ok.mp inspected
      rw [refsOfItems, List.mem_append] at member
      rcases member with here | later
      · exact resolved_of_mem_refs first ref here
      · exact resolved_of_mem_items rest ref later

end

theorem resolved_of_listed (accepted : init library members = .ok contract)
    (listed : ref ∈ (Json.obj contract.document).refs) :
    ∃ target, pointer (.obj contract.document) (fragment ref) = .ok target := by
  obtain ⟨inspected, _, _, _⟩ := loaded_of_init accepted
  exact resolved_of_mem_refs inspected ref listed

/-- A contract with operations has paths. -/
theorem paths_of_init (accepted : init library members = .ok contract) :
    (contract.document.lookup "paths").isSome := by
  have document := (loaded_of_init accepted).2.2.1
  rw [document]
  cases found : members.lookup "paths" with
  | some paths => rfl
  | none =>
      unfold init at accepted
      dsimp only at accepted
      obtain ⟨version, _, accepted⟩ := except_bind_eq_ok.mp accepted
      split at accepted
      · cases accepted
      · obtain ⟨_, _, accepted⟩ := except_bind_eq_ok.mp accepted
        rw [found] at accepted
        cases accepted

/-! ### Walking the wrapper -/

theorem walkTokens_obj_cons {entries : List (String × Json)} {token : List Char}
    {tokens : List (List Char)} {child : Json}
    (found : entries.lookup (String.ofList token) = some child) :
    walkTokens (.obj entries) (token :: tokens) = walkTokens child tokens := by
  rw [walkTokens, descend_obj, found]
  rfl

theorem walkTokens_obj_missing {entries : List (String × Json)} {token : List Char}
    {tokens : List (List Char)} (missing : entries.lookup (String.ofList token) = none) :
    walkTokens (.obj entries) (token :: tokens) = .error (keyError (String.ofList token)) := by
  rw [walkTokens, descend_obj, missing]
  rfl

theorem wrapped_eq (schema : Json) :
    contract.wrapped schema = .obj [("$id", .str "urn:api-sentinel:contract"),
      ("components", (contract.document.lookup "components").getD (.obj [])),
      ("paths", (contract.document.lookup "paths").getD (.obj [])),
      ("allOf", .arr [schema])] := rfl

/-- Below the components and the paths the wrapper is the document. -/
theorem walkTokens_wrapped {name : List Char} {tokens : List (List Char)}
    (kept : name = "components".toList ∨ name = "paths".toList)
    {child : Json} (found : contract.document.lookup (String.ofList name) = some child)
    (schema : Json) :
    walkTokens (contract.wrapped schema) (name :: tokens) =
      walkTokens (.obj contract.document) (name :: tokens) := by
  rw [walkTokens_obj_cons found, wrapped_eq]
  refine walkTokens_obj_cons ?_
  rcases kept with rfl | rfl
  · rw [String.ofList_toList] at found ⊢
    rw [found]
    rfl
  · rw [String.ofList_toList] at found ⊢
    rw [found]
    rfl

theorem lookup_wrapped {schema child : Json} {name : String}
    (found : List.lookup name [("$id", Json.str "urn:api-sentinel:contract"),
      ("components", (contract.document.lookup "components").getD (.obj [])),
      ("paths", (contract.document.lookup "paths").getD (.obj [])),
      ("allOf", .arr [schema])] = some child) :
    name = "$id" ∨ name = "components" ∨ name = "paths" ∨ name = "allOf" := by
  have member := mem_of_lookup found
  simp only [List.mem_cons, Prod.mk.injEq, List.not_mem_nil, or_false] at member
  rcases member with ⟨same, _⟩ | ⟨same, _⟩ | ⟨same, _⟩ | ⟨same, _⟩
  · exact .inl same
  · exact .inr (.inl same)
  · exact .inr (.inr (.inl same))
  · exact .inr (.inr (.inr same))

/-- A value that is neither a list nor a dictionary ends a walk. -/
theorem walkTokens_ok_of_leaf {value result : Json} {tokens : List (List Char)}
    (leaf : ∀ token, ∃ raised, descend value token = .error raised)
    (walked : walkTokens value tokens = .ok result) : tokens = [] ∧ result = value := by
  cases tokens with
  | nil =>
      cases walked
      exact ⟨rfl, rfl⟩
  | cons token tokens =>
      obtain ⟨raised, stuck⟩ := leaf token
      rw [walkTokens, stuck] at walked
      cases walked

/-- No reference leads through the list of schemas to the same value whatever the schema. -/
theorem not_walkTokens_allOf {tokens : List (List Char)} {target : Json}
    (walked : ∀ schema : Json, walkTokens (.arr [schema]) tokens = .ok target) : False := by
  cases tokens with
  | nil =>
      have first := Except.ok.inj (walked .null)
      have second := Except.ok.inj (walked (.bool true))
      cases first.trans second.symm
  | cons token tokens =>
      have inside : ∀ schema, walkTokens schema tokens = .ok target := by
        intro schema
        have below := walked schema
        rw [walkTokens, descend_arr] at below
        split at below
        · cases position : Nat.ofDigitChars 10 token 0 with
          | zero =>
              rw [position] at below
              exact below
          | succ position =>
              simp [*] at below
              cases below
        · cases below
      have first := (walkTokens_ok_of_leaf (fun _ => ⟨_, rfl⟩) (inside .null)).2
      have second := (walkTokens_ok_of_leaf (fun _ => ⟨_, rfl⟩) (inside (.bool true))).2
      cases first.symm.trans second

/-- Where a reference ends that leads to the same value from every schema. -/
theorem agrees_of_walked {name : List Char} {tokens : List (List Char)} {target : Json}
    (spelled : tokens? (decoded decode ref) = some (name :: tokens))
    (resolved : pointer (.obj contract.document) (fragment ref) = .ok target)
    (paths : (contract.document.lookup "paths").isSome)
    (walked : ∀ schema, walkTokens (contract.wrapped schema) (name :: tokens) = .ok target) :
    contract.Agrees decode ref := by
  have inside {child : Json} (kept : name = "components".toList ∨ name = "paths".toList)
      (found : contract.document.lookup (String.ofList name) = some child) :
      contract.Agrees decode ref := by
    refine .inside spelled kept ?_
    rw [pointer_of_tokens spelled, resolved, ← walkTokens_wrapped kept found .null, walked]
  simp only [wrapped_eq] at walked
  cases found : List.lookup (String.ofList name) [("$id", Json.str "urn:api-sentinel:contract"),
      ("components", (contract.document.lookup "components").getD (.obj [])),
      ("paths", (contract.document.lookup "paths").getD (.obj [])), ("allOf", .arr [.null])] with
  | none =>
      have lost := walked .null
      rw [walkTokens_obj_missing found] at lost
      cases lost
  | some child =>
      have spelling : name = (String.ofList name).toList := String.toList_ofList.symm
      rcases lookup_wrapped found with named | named | named | named
      · rw [named] at spelling
        subst spelling
        have below : walkTokens (.str "urn:api-sentinel:contract") tokens = .ok target :=
          walked .null
        obtain ⟨rfl, rfl⟩ := walkTokens_ok_of_leaf (fun _ => ⟨_, rfl⟩) below
        exact .identifier spelled resolved
      · rw [named] at spelling
        subst spelling
        cases components : contract.document.lookup "components" with
        | some child => exact inside (.inl rfl) components
        | none =>
            have lost := walked .null
            rw [components] at lost
            have below : walkTokens (.obj []) tokens = .ok target := lost
            cases tokens with
            | nil =>
                cases below
                exact .noComponents spelled components resolved
            | cons token tokens => cases below
      · rw [named] at spelling
        subst spelling
        obtain ⟨child, located⟩ := Option.isSome_iff_exists.mp paths
        exact inside (.inr rfl) located
      · rw [named] at spelling
        subst spelling
        exact (not_walkTokens_allOf walked).elim

/-- The schema library follows a reference of the document to the value that `_inspect` has
found under it, from whatever schema, exactly if the decoded reference agrees with it. -/
theorem followed_iff (accepted : init library members = .ok contract)
    (listed : ref ∈ (Json.obj contract.document).refs) :
    (∀ schema, contract.followed decode schema ref =
      pointer (.obj contract.document) (fragment ref)) ↔ contract.Agrees decode ref := by
  obtain ⟨target, resolved⟩ := resolved_of_listed accepted listed
  constructor
  · intro same
    simp only [resolved] at same
    cases spelled : tokens? (decoded decode ref) with
    | none =>
        have whole : ∀ schema, contract.wrapped schema = target := by
          intro schema
          rcases @pointer_of_no_tokens (contract.wrapped schema) _ spelled with ⟨found, _⟩ | lost
          · exact Except.ok.inj (found.symm.trans (same schema))
          · cases lost.symm.trans (same schema)
        have different := (whole .null).trans (whole (.bool true)).symm
        rw [wrapped_eq, wrapped_eq] at different
        simp at different
    | some tokens =>
        have walked : ∀ schema, walkTokens (contract.wrapped schema) tokens = .ok target := by
          intro schema
          rw [← pointer_of_tokens spelled]
          exact same schema
        cases tokens with
        | nil => exact absurd spelled tokens?_ne_nil
        | cons name tokens =>
            exact agrees_of_walked spelled resolved (paths_of_init accepted) walked
  · intro agrees schema
    cases agrees with
    | @inside name tokens spelled kept same =>
        rw [← same, followed, pointer_of_tokens spelled, pointer_of_tokens spelled]
        rw [resolved, pointer_of_tokens spelled] at same
        cases found : contract.document.lookup (String.ofList name) with
        | some child => exact walkTokens_wrapped kept found schema
        | none =>
            rw [walkTokens_obj_missing found] at same
            cases same
    | noComponents spelled none same =>
        rw [same, followed, pointer_of_tokens spelled, wrapped_eq, none]
        rfl
    | identifier spelled same =>
        rw [same, followed, pointer_of_tokens spelled]
        rfl

end Contract

/-! ### A schema among the components, and one outside them -/

namespace Sample

def typed (ref : String) : Json :=
  .obj [("in", .str "query"), ("name", .str "id"), ("schema", .obj [("$ref", .str ref)])]

def listItems (ref : String) : Contract.Operation where
  method := "GET"
  path := "/items"
  operation := .obj [("operationId", .str "listItems"), ("parameters", .arr [typed ref]),
    ("responses", responses)]
  params := [typed ref]

/-- A document with the same schema among its components and under an extension. -/
def referring (ref : String) : List (String × Json) :=
  [("openapi", .str "3.1.0"),
    ("components", .obj [("schemas", .obj [("Id", .obj [("type", .str "integer")])])]),
    ("x-schemas", .obj [("Id", .obj [("type", .str "integer")])]),
    ("paths", .obj [("/items", .obj [("get", (listItems ref).operation)])])]

def referringContract (ref : String) : Contract where
  library := library
  document := referring ref
  operations := [(.str "listItems", listItems ref)]

theorem components_init : Contract.init library (referring "#/components/schemas/Id") =
    .ok (referringContract "#/components/schemas/Id") := by rfl

theorem extension_init : Contract.init library (referring "#/x-schemas/Id") =
    .ok (referringContract "#/x-schemas/Id") := by rfl

theorem mem_refs_referring (ref : String) : ref ∈ (Json.obj (referring ref)).refs := by
  simp [referring, listItems, typed, Json.refs, refsOfMembers, refsOfItems, Json.text?]

theorem tokens_components : tokens? (Contract.decoded id "#/components/schemas/Id") =
    some ["components".toList, "schemas".toList, "Id".toList] := by rfl

end Sample

/-- A reference to the components is followed alike.  It has no escapes to decode. -/
theorem Contract.followed_iff_sample :
    (Sample.referringContract "#/components/schemas/Id").followed id .null
        "#/components/schemas/Id" =
      pointer (.obj (Sample.referring "#/components/schemas/Id"))
        (fragment "#/components/schemas/Id") :=
  have agrees : (Sample.referringContract "#/components/schemas/Id").Agrees id
      "#/components/schemas/Id" :=
    .inside Sample.tokens_components (.inl rfl) rfl
  (Contract.followed_iff Sample.components_init (Sample.mem_refs_referring _)).mpr agrees .null

/-- A reference to an extension is accepted, and the schema library cannot follow it. -/
theorem Contract.followed_counterexample :
    Contract.init Sample.library (Sample.referring "#/x-schemas/Id") =
        .ok (Sample.referringContract "#/x-schemas/Id") ∧
      "#/x-schemas/Id" ∈ (Json.obj (Sample.referring "#/x-schemas/Id")).refs ∧
      pointer (.obj (Sample.referring "#/x-schemas/Id")) "/x-schemas/Id" =
        .ok (.obj [("type", .str "integer")]) ∧
      (Sample.referringContract "#/x-schemas/Id").followed id (.obj []) "#/x-schemas/Id" =
        .error (keyError "x-schemas") :=
  ⟨Sample.extension_init, Sample.mem_refs_referring _, rfl, rfl⟩

end ApiSentinel
