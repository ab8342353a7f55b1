import ApiSentinel.Dereference

/-!
# Accepted contracts

What `Contract(document)` has checked of the paths, operations and parameters that it
keeps.
-/

namespace ApiSentinel

/-- A loop that may raise keeps what each iteration keeps. -/
theorem foldlM_invariant {State Item : Type} {body : State → Item → Except Raised State}
    {motive : State → Prop} {items : List Item}
    (keeps : ∀ state item next, item ∈ items → motive state → body state item = .ok next →
      motive next)
    {state result : State} (initial : motive state)
    (ran : items.foldlM body state = .ok result) : motive result := by
  induction items generalizing state with
  | nil =>
      cases ran
      exact initial
  | cons item items ih =>
      rw [List.foldlM_cons] at ran
      obtain ⟨next, first, rest⟩ := except_bind_eq_ok.mp ran
      have kept := keeps state item next List.mem_cons_self initial first
      exact ih (fun state other next member =>
        keeps state other next (List.mem_cons_of_mem _ member)) kept rest

namespace Json

theorem isOneOf_eq_true_iff {names : List String} {value : Json} :
    value.isOneOf names = .ok true ↔ ∃ name ∈ names, value = .str name := by
  unfold isOneOf
  cases value with
  | str text => simp only [hashable, if_true, Except.ok.injEq, List.any_eq_true, equals,
      beq_iff_eq, Json.str.injEq]
  | null | bool | int | float | nan | infinity | arr | obj => simp [hashable, equals, number?]

end Json

namespace Contract

variable {contract : Contract} {library : Library} {document : Json}

/-- A parameter that `loadParam` lets through. -/
structure LoadedParam (contract : Contract) (param : Json) : Prop where
  fields : ∃ members location name schema target,
    param = .obj members ∧
    members.lookup "in" = some (.str location) ∧ location ∈ ["path", "query", "header"] ∧
    members.lookup "name" = some name ∧ members.lookup "schema" = some schema ∧
    contract.deref schema = .ok (.obj target)

/-- An operation that `loadOperation` lets through. -/
structure Loaded (contract : Contract) (operation : Operation) : Prop where
  absolute : ['/'] <+: operation.path.toList
  bare : '?' ∉ operation.path.toList ∧ '#' ∉ operation.path.toList
  object : ∃ members, operation.operation = .obj members
  inspected : inspect contract.library (.obj contract.document) operation.operation = .ok ()
  params : ∀ param ∈ operation.params, contract.LoadedParam param

/-- What holds of a value and of every target of a reference holds of what `deref` returns. -/
theorem derefFrom_invariant {motive : Json → Prop} {fuel : Nat} {visited : List String}
    {value final : Json}
    (targets : ∀ ref target, pointer document (fragment ref) = .ok target → motive target)
    (initial : motive value) (followed : derefFrom document fuel visited value = .ok final) :
    motive final := by
  induction fuel generalizing visited value with
  | zero => cases followed
  | succ fuel ih =>
      rw [derefFrom] at followed
      obtain ⟨has, _, followed⟩ := except_bind_eq_ok.mp followed
      split at followed
      · cases followed
        exact initial
      · obtain ⟨ref, _, followed⟩ := except_bind_eq_ok.mp followed
        split at followed
        · split at followed
          · cases followed
          · obtain ⟨target, resolved, followed⟩ := except_bind_eq_ok.mp followed
            exact ih (targets _ target resolved) followed
        · cases followed

theorem inspect_of_deref (whole : contract.Inspected) {value final : Json}
    (inspected : inspect contract.library (.obj contract.document) value = .ok ())
    (followed : contract.deref value = .ok final) :
    inspect contract.library (.obj contract.document) final = .ok () := by
  refine derefFrom_invariant (motive := fun value =>
    inspect contract.library (.obj contract.document) value = .ok ()) ?_ inspected followed
  intro ref target resolved
  obtain ⟨location, addresses⟩ := addresses_of_pointer resolved
  exact inspect_of_addresses whole addresses

theorem inspect_of_lookup {members : List (String × Json)} {key : String} {child : Json}
    (inspected : inspect library document (.obj members) = .ok ())
    (found : members.lookup key = some child) : inspect library document child = .ok () :=
  inspect_of_child inspected (.member found)

/-- A key of an inspected value, or an empty default, has passed `_inspect`. -/
theorem inspect_of_get {value default child : Json} {key : String}
    (inspected : inspect library document value = .ok ())
    (plain : inspect library document default = .ok ())
    (given : value.get key default = .ok child) : inspect library document child = .ok () := by
  obtain ⟨members, rfl, rfl⟩ := Json.get_eq_ok_iff.mp given
  cases found : members.lookup key with
  | none => exact plain
  | some child => exact inspect_of_lookup inspected found

theorem mem_setParam {location : String} {name param : Json}
    {params : List ((String × Json) × Json)} {entry : (String × Json) × Json}
    (member : entry ∈ setParam location name param params) :
    entry ∈ params ∨ entry.2 = param := by
  induction params with
  | nil =>
      cases List.mem_singleton.mp member
      exact .inr rfl
  | cons first params ih =>
      obtain ⟨⟨other, key⟩, old⟩ := first
      rw [setParam] at member
      split at member
      · rcases List.mem_cons.mp member with rfl | later
        · exact .inr rfl
        · exact .inl (List.mem_cons_of_mem _ later)
      · rcases List.mem_cons.mp member with rfl | later
        · exact .inl List.mem_cons_self
        · exact (ih later).imp_left (List.mem_cons_of_mem _)

/-! ### One iteration of each loop -/

/-- A declaration that passes has a location, a name and a schema. -/
theorem exists_of_loadParam {params next : List ((String × Json) × Json)} {raw : Json}
    (loaded : contract.loadParam params raw = .ok next) :
    ∃ param location name, contract.deref raw = .ok param ∧ contract.LoadedParam param ∧
      param.getItem "in" = .ok (.str location) ∧ param.getItem "name" = .ok name ∧
      name.hashable = true ∧ next = setParam location name param params := by
  unfold loadParam at loaded
  obtain ⟨param, followed, loaded⟩ := except_bind_eq_ok.mp loaded
  obtain ⟨location, located, loaded⟩ := except_bind_eq_ok.mp loaded
  obtain ⟨supported, known, loaded⟩ := except_bind_eq_ok.mp loaded
  cases supported with
  | false => cases loaded
  | true =>
      simp only [Bool.not_true, Bool.false_eq_true, if_false] at loaded
      obtain ⟨schema, given, loaded⟩ := except_bind_eq_ok.mp loaded
      obtain ⟨target, resolved, loaded⟩ := except_bind_eq_ok.mp loaded
      obtain ⟨kind, typed, loaded⟩ := except_bind_eq_ok.mp loaded
      obtain ⟨scalar, declared, loaded⟩ := except_bind_eq_ok.mp loaded
      cases scalar with
      | false => cases loaded
      | true =>
          simp only [Bool.not_true, Bool.false_eq_true, if_false] at loaded
          obtain ⟨content, _, loaded⟩ := except_bind_eq_ok.mp loaded
          obtain ⟨style, _, loaded⟩ := except_bind_eq_ok.mp loaded
          obtain ⟨explode, _, loaded⟩ := except_bind_eq_ok.mp loaded
          split at loaded
          · cases loaded
          · obtain ⟨name, named, loaded⟩ := except_bind_eq_ok.mp loaded
            split at loaded
            · cases loaded
            · rename_i scalarName
              cases loaded
              obtain ⟨text, listed, rfl⟩ := Json.isOneOf_eq_true_iff.mp known
              have hashed : name.hashable = true := by simpa using scalarName
              obtain ⟨members, rfl, inPlace⟩ := Json.getItem_eq_ok_iff.mp located
              obtain ⟨_, same, nameOf⟩ := Json.getItem_eq_ok_iff.mp named
              cases same
              obtain ⟨type, _, rfl⟩ := Json.isOneOf_eq_true_iff.mp declared
              obtain ⟨fields, rfl, typeOf⟩ := Json.get_eq_ok_iff.mp typed
              obtain ⟨_, same, rfl⟩ := Json.get_eq_ok_iff.mp given
              cases same
              refine ⟨_, _, _, followed, ?_, located, named, hashed, rfl⟩
              cases found : members.lookup "schema" with
              | none =>
                  -- The empty default declares no type.
                  rw [found, Option.getD_none] at resolved
                  cases resolved
                  cases typeOf
              | some schema =>
                  rw [found, Option.getD_some] at resolved
                  exact ⟨members, text, name, schema, fields, rfl, inPlace, listed, nameOf, found,
                    resolved⟩

/-- A method adds an operation with its parameters, if it is one of HTTP. -/
theorem exists_of_loadOperation {path : String} {item : Json}
    {operations next : List (Json × Operation)} {entry : String × Json}
    (loaded : contract.loadOperation path item operations entry = .ok next) :
    entry.1 ∉ methods ∧ next = operations ∨
      entry.1 ∈ methods ∧ ∃ opId members shared own raws params,
      contract.deref entry.2 = .ok (.obj members) ∧
      (Json.obj members).get "operationId" .null = .ok opId ∧
      item.get "parameters" (.arr []) = .ok shared ∧
      (Json.obj members).get "parameters" (.arr []) = .ok own ∧ shared.concat own = .ok raws ∧
      raws.foldlM contract.loadParam [] = .ok params ∧
      next = operations ++ [(opId, ⟨upper entry.1, path, .obj members, params.map Prod.snd⟩)] := by
  unfold loadOperation at loaded
  split at loaded
  · rename_i other
    cases loaded
    exact .inl ⟨other, rfl⟩
  · rename_i listed
    obtain ⟨operation, followed, loaded⟩ := except_bind_eq_ok.mp loaded
    obtain ⟨opId, identified, loaded⟩ := except_bind_eq_ok.mp loaded
    obtain ⟨members, rfl, _⟩ := Json.get_eq_ok_iff.mp identified
    split at loaded
    · cases loaded
    · split at loaded
      · cases loaded
      · split at loaded
        · cases loaded
        · obtain ⟨shared, below, loaded⟩ := except_bind_eq_ok.mp loaded
          obtain ⟨own, given, loaded⟩ := except_bind_eq_ok.mp loaded
          obtain ⟨raws, joined, loaded⟩ := except_bind_eq_ok.mp loaded
          obtain ⟨params, gathered, loaded⟩ := except_bind_eq_ok.mp loaded
          cases loaded
          exact .inr ⟨not_not.mp listed, _, members, shared, own, raws, params, followed,
            identified, below, given, joined, gathered, rfl⟩

/-- A path is absolute, and adds the operations of its item. -/
theorem exists_of_loadPath {operations next : List (Json × Operation)} {entry : String × Json}
    (loaded : contract.loadPath operations entry = .ok next) :
    ['/'] <+: entry.1.toList ∧ ('?' ∉ entry.1.toList ∧ '#' ∉ entry.1.toList) ∧
      ∃ members, contract.deref entry.2 = .ok (.obj members) ∧
        members.foldlM (contract.loadOperation entry.1 (.obj members)) operations = .ok next := by
  unfold loadPath at loaded
  dsimp only at loaded
  obtain ⟨item, followed, loaded⟩ := except_bind_eq_ok.mp loaded
  split at loaded
  · cases loaded
  · rename_i proper
    simp only [Bool.or_eq_true, Bool.not_eq_eq_eq_not, Bool.not_true, decide_eq_true_eq, not_or,
      Bool.not_eq_false, List.isPrefixOf_iff_prefix] at proper
    obtain ⟨⟨⟨absolute, _⟩, noQuery⟩, noFragment⟩ := proper
    obtain ⟨members, listed, loaded⟩ := except_bind_eq_ok.mp loaded
    cases Json.items_eq_ok_iff.mp listed
    exact ⟨absolute, ⟨noQuery, noFragment⟩, members, followed, loaded⟩

/-- An accepted document was inspected, and its paths were loaded one after the other. -/
theorem exists_of_init {members : List (String × Json)}
    (accepted : init library members = .ok contract) :
    contract.Inspected ∧ contract.library = library ∧ contract.document = members ∧
      ∃ paths, (Json.obj members).get "paths" (.obj []) = .ok (.obj paths) ∧
        paths.foldlM (Contract.loadPath { library, document := members }) [] =
          .ok contract.operations := by
  unfold init at accepted
  dsimp only at accepted
  obtain ⟨version, _, accepted⟩ := except_bind_eq_ok.mp accepted
  split at accepted
  · cases accepted
  · obtain ⟨_, inspected, accepted⟩ := except_bind_eq_ok.mp accepted
    obtain ⟨paths, listed, accepted⟩ := except_bind_eq_ok.mp accepted
    obtain ⟨operations, gathered, accepted⟩ := except_bind_eq_ok.mp accepted
    split at accepted
    · cases accepted
    · cases accepted
      refine ⟨inspected, rfl, rfl, paths, ?_, gathered⟩
      exact congrArg Except.ok (Json.items_eq_ok_iff.mp listed)

/-! ### Loaded operations -/

theorem loaded_of_loadParam {params next : List ((String × Json) × Json)} {raw : Json}
    (kept : ∀ entry ∈ params, contract.LoadedParam entry.2)
    (loaded : contract.loadParam params raw = .ok next) :
    ∀ entry ∈ next, contract.LoadedParam entry.2 := by
  obtain ⟨param, location, name, _, fields, _, _, _, rfl⟩ := exists_of_loadParam loaded
  intro entry member
  rcases mem_setParam member with before | now
  · exact kept entry before
  · rw [now]
    exact fields

theorem loaded_of_loadOperation {path : String} {item : Json}
    {operations next : List (Json × Operation)} {entry : String × Json}
    (whole : contract.Inspected) (absolute : ['/'] <+: path.toList)
    (bare : '?' ∉ path.toList ∧ '#' ∉ path.toList)
    (inspected : inspect contract.library (.obj contract.document) entry.2 = .ok ())
    (kept : ∀ known ∈ operations, contract.Loaded known.2)
    (loaded : contract.loadOperation path item operations entry = .ok next) :
    ∀ known ∈ next, contract.Loaded known.2 := by
  rcases exists_of_loadOperation loaded with
    ⟨_, rfl⟩ | ⟨_, opId, members, _, _, _, params, followed, _, _, _, _, gathered, rfl⟩
  · exact kept
  · have paramsLoaded := foldlM_invariant (motive := fun params => ∀ entry ∈ params,
      contract.LoadedParam entry.2) (fun _ _ _ _ kept ran => loaded_of_loadParam kept ran)
      (by simp) gathered
    intro known member
    rcases List.mem_append.mp member with before | now
    · exact kept known before
    · cases List.mem_singleton.mp now
      refine ⟨absolute, bare, ⟨members, rfl⟩, inspect_of_deref whole inspected followed, ?_⟩
      intro param among
      obtain ⟨entry, listed, rfl⟩ := List.mem_map.mp among
      exact paramsLoaded entry listed

theorem loaded_of_loadPath {operations next : List (Json × Operation)} {entry : String × Json}
    (whole : contract.Inspected)
    (inspected : inspect contract.library (.obj contract.document) entry.2 = .ok ())
    (kept : ∀ known ∈ operations, contract.Loaded known.2)
    (loaded : contract.loadPath operations entry = .ok next) :
    ∀ known ∈ next, contract.Loaded known.2 := by
  obtain ⟨absolute, bare, members, followed, loaded⟩ := exists_of_loadPath loaded
  have itemInspected := inspect_of_deref whole inspected followed
  refine foldlM_invariant (motive := fun operations => ∀ known ∈ operations,
    contract.Loaded known.2) ?_ kept loaded
  intro operations method next member kept ran
  exact loaded_of_loadOperation whole absolute bare
    (inspectMembers_ok_iff.mp itemInspected _ _ member).2 kept ran

/-- An accepted contract has an inspected document, and keeps loaded operations only. -/
theorem loaded_of_init {members : List (String × Json)}
    (accepted : init library members = .ok contract) :
    contract.Inspected ∧ contract.library = library ∧ contract.document = members ∧
      ∀ known ∈ contract.operations, contract.Loaded known.2 := by
  obtain ⟨inspected, rfl, rfl, paths, given, gathered⟩ := exists_of_init accepted
  have whole : Contract.Inspected { library := contract.library, document := contract.document } :=
    inspected
  have pathsInspected : inspect contract.library (.obj contract.document) (.obj paths) = .ok () :=
    inspect_of_get inspected rfl given
  refine ⟨inspected, rfl, rfl, ?_⟩
  have all := foldlM_invariant (motive := fun operations => ∀ known ∈ operations,
    Contract.Loaded { library := contract.library, document := contract.document } known.2)
    (fun _ entry _ member kept ran => loaded_of_loadPath whole
      (inspectMembers_ok_iff.mp pathsInspected _ _ member).2 kept ran) (by simp) gathered
  intro known member
  obtain ⟨absolute, bare, object, examined, params⟩ := all known member
  -- Following references needs the document only.
  exact ⟨absolute, bare, object, examined, fun param among => ⟨(params param among).fields⟩⟩

theorem loaded_of_operation? {members : List (String × Json)}
    (accepted : init library members = .ok contract) {name : String} {operation : Operation}
    (found : contract.operation? name = some operation) : contract.Loaded operation := by
  obtain ⟨entry, located, rfl⟩ := Option.map_eq_some_iff.mp found
  exact (loaded_of_init accepted).2.2.2 entry (List.mem_of_find?_eq_some located)

/-! ### Inherited properties -/

/-- A property of values that passes to their parts, and to the targets of references. -/
structure Heritable (contract : Contract) (motive : Json → Prop) : Prop where
  member : ∀ {members key child}, motive (.obj members) → (key, child) ∈ members → motive child
  item : ∀ {items item}, motive (.arr items) → item ∈ items → motive item
  target : ∀ ref target, pointer (.obj contract.document) (fragment ref) = .ok target →
    motive target
  text : ∀ text, motive (.str text)
  empty : motive (.obj []) ∧ motive (.arr [])

section Heritable

variable {motive : Json → Prop}

theorem Heritable.deref (heritable : contract.Heritable motive) {value final : Json}
    (initial : motive value) (followed : contract.deref value = .ok final) : motive final :=
  derefFrom_invariant heritable.target initial followed

theorem Heritable.lookup (heritable : contract.Heritable motive) {key : String} {child : Json}
    {members : List (String × Json)} (initial : motive (.obj members))
    (found : members.lookup key = some child) : motive child :=
  heritable.member initial (mem_of_lookup found)

theorem Heritable.get (heritable : contract.Heritable motive) {value default child : Json}
    {key : String} (initial : motive value) (plain : motive default)
    (given : value.get key default = .ok child) : motive child := by
  obtain ⟨members, rfl, rfl⟩ := Json.get_eq_ok_iff.mp given
  cases found : members.lookup key with
  | none => exact plain
  | some child => exact heritable.lookup initial found

theorem Heritable.getItem (heritable : contract.Heritable motive) {value child : Json}
    {key : String} (initial : motive value) (given : value.getItem key = .ok child) :
    motive child := by
  obtain ⟨members, rfl, found⟩ := Json.getItem_eq_ok_iff.mp given
  exact heritable.lookup initial found

theorem Heritable.concat (heritable : contract.Heritable motive) {value other : Json}
    {items : List Json} (initial : motive value) (also : motive other)
    (joined : value.concat other = .ok items) : ∀ item ∈ items, motive item := by
  intro item member
  cases value with
  | arr first =>
      cases other with
      | arr second =>
          cases joined
          rcases List.mem_append.mp member with before | after
          · exact heritable.item initial before
          · exact heritable.item also after
      | null | bool | int | float | nan | infinity | str | obj => cases joined
  | str text =>
      cases other with
      | str more =>
          cases joined
          obtain ⟨symbol, _, rfl⟩ := List.mem_map.mp member
          exact heritable.text _
      | null | bool | int | float | nan | infinity | arr | obj => cases joined
  | null | bool | int | float | nan | infinity | obj => cases other <;> cases joined

theorem Heritable.loadParam (heritable : contract.Heritable motive)
    {params next : List ((String × Json) × Json)} {raw : Json} (initial : motive raw)
    (kept : ∀ entry ∈ params, motive entry.2) (loaded : contract.loadParam params raw = .ok next) :
    ∀ entry ∈ next, motive entry.2 := by
  obtain ⟨param, location, name, followed, _, _, _, _, rfl⟩ := exists_of_loadParam loaded
  intro entry member
  rcases mem_setParam member with before | now
  · exact kept entry before
  · rw [now]
    exact heritable.deref initial followed

/-- An operation and its parameters have the property. -/
def Inherits (motive : Json → Prop) (operation : Operation) : Prop :=
  motive operation.operation ∧ ∀ param ∈ operation.params, motive param

theorem Heritable.loadOperation (heritable : contract.Heritable motive) {path : String}
    {item : Json} {operations next : List (Json × Operation)} {entry : String × Json}
    (whole : motive item) (initial : motive entry.2)
    (kept : ∀ known ∈ operations, Inherits motive known.2)
    (loaded : contract.loadOperation path item operations entry = .ok next) :
    ∀ known ∈ next, Inherits motive known.2 := by
  rcases exists_of_loadOperation loaded with
    ⟨_, rfl⟩ |
      ⟨_, opId, members, shared, own, raws, params, followed, _, below, given, joined, gathered,
        rfl⟩
  · exact kept
  · have operation := heritable.deref initial followed
    have declared := heritable.concat (heritable.get whole heritable.empty.2 below)
      (heritable.get operation heritable.empty.2 given) joined
    have inherited := foldlM_invariant (motive := fun params => ∀ entry ∈ params, motive entry.2)
      (fun _ raw _ member kept ran => heritable.loadParam (declared raw member) kept ran)
      (by simp) gathered
    intro known member
    rcases List.mem_append.mp member with before | now
    · exact kept known before
    · cases List.mem_singleton.mp now
      refine ⟨operation, ?_⟩
      intro param among
      obtain ⟨entry, listed, rfl⟩ := List.mem_map.mp among
      exact inherited entry listed

theorem Heritable.loadPath (heritable : contract.Heritable motive)
    {operations next : List (Json × Operation)} {entry : String × Json} (initial : motive entry.2)
    (kept : ∀ known ∈ operations, Inherits motive known.2)
    (loaded : contract.loadPath operations entry = .ok next) :
    ∀ known ∈ next, Inherits motive known.2 := by
  obtain ⟨_, _, members, followed, loaded⟩ := exists_of_loadPath loaded
  have whole := heritable.deref initial followed
  refine foldlM_invariant (motive := fun operations => ∀ known ∈ operations,
    Inherits motive known.2) ?_ kept loaded
  intro operations method next member kept ran
  exact heritable.loadOperation whole (heritable.member whole member) kept ran

/-- What passes from the document to its parts holds of every operation that is kept. -/
theorem Heritable.operation (heritable : contract.Heritable motive) {members : List (String × Json)}
    (accepted : init library members = .ok contract) (initial : motive (.obj contract.document))
    {name : String} {operation : Operation} (found : contract.operation? name = some operation) :
    Inherits motive operation := by
  obtain ⟨_, rfl, rfl, paths, given, gathered⟩ := exists_of_init accepted
  have also : Contract.Heritable { library := contract.library, document := contract.document }
      motive :=
    ⟨heritable.member, heritable.item, heritable.target, heritable.text, heritable.empty⟩
  have listed : motive (.obj paths) := heritable.get initial heritable.empty.1 given
  have all := foldlM_invariant (motive := fun operations => ∀ known ∈ operations,
    Inherits motive known.2) (fun _ _ _ member kept ran =>
      also.loadPath (heritable.member listed member) kept ran) (by simp) gathered
  obtain ⟨entry, located, rfl⟩ := Option.map_eq_some_iff.mp found
  exact all entry (List.mem_of_find?_eq_some located)

end Heritable

end Contract

/-! ### Parts of a document -/

/-- A value that occurs in a document. -/
inductive Occurs (document : Json) : Json → Prop
  | whole : Occurs document document
  | member {members key child} (object : Occurs document (.obj members))
      (listed : (key, child) ∈ members) : Occurs document child
  | item {items child} (list : Occurs document (.arr items)) (listed : child ∈ items) :
      Occurs document child

theorem Occurs.of_addresses {document value final : Json} {location : List Selector}
    (occurs : Occurs document value) (addresses : Addresses value location final) :
    Occurs document final := by
  induction addresses with
  | here => exact occurs
  | into step _ ih =>
      cases step with
      | member found => exact ih (.member occurs (mem_of_lookup found))
      | item found => exact ih (.item occurs (List.mem_of_getElem? found))

namespace Contract

variable {contract : Contract}

/-- A part of the document, or a value that stands for a missing one. -/
def Part (contract : Contract) (value : Json) : Prop :=
  Occurs (.obj contract.document) value ∨ value = .obj [] ∨ value = .arr [] ∨
    ∃ text, value = .str text

theorem heritable_part (contract : Contract) : contract.Heritable contract.Part where
  member := by
    rintro members key child (occurs | same | same | ⟨text, same⟩) listed
    · exact .inl (.member occurs listed)
    all_goals cases same
    cases listed
  item := by
    rintro items item (occurs | same | same | ⟨text, same⟩) listed
    · exact .inl (.item occurs listed)
    all_goals cases same
    cases listed
  target := by
    intro ref target resolved
    obtain ⟨location, addresses⟩ := addresses_of_pointer resolved
    exact .inl (Occurs.whole.of_addresses addresses)
  text := fun text => .inr (.inr (.inr ⟨text, rfl⟩))
  empty := ⟨.inr (.inl rfl), .inr (.inr (.inl rfl))⟩

end Contract

end ApiSentinel
