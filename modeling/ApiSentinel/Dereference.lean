import ApiSentinel.Chasing
import ApiSentinel.Contract

/-!
# References of an inspected document

Every reference that `_inspect` has passed can be followed.  So `deref` fails only on a
chain of references that never ends, or on one that ends outside the objects.
-/

namespace ApiSentinel

open Chasing

/-! ### Inspection -/

namespace Contract

variable {library : Library} {document : Json}

theorem inspectMembers_ok_iff {members : List (String × Json)} :
    inspectMembers library document members = .ok () ↔
      ∀ key child, (key, child) ∈ members →
        inspectItem library document key child = .ok () ∧
          inspect library document child = .ok () := by
  induction members with
  | nil => simp [inspectMembers]
  | cons entry members ih =>
      obtain ⟨key, child⟩ := entry
      rw [inspectMembers, except_bind_eq_ok]
      constructor
      · rintro ⟨_, item, rest⟩
        obtain ⟨_, value, rest⟩ := except_bind_eq_ok.mp rest
        intro name other member
        rcases List.mem_cons.mp member with same | later
        · cases same
          exact ⟨item, value⟩
        · exact ih.mp rest name other later
      · intro all
        obtain ⟨item, value⟩ := all key child List.mem_cons_self
        refine ⟨(), item, except_bind_eq_ok.mpr ⟨(), value, ih.mpr ?_⟩⟩
        intro name other member
        exact all name other (List.mem_cons_of_mem _ member)

theorem inspectItems_ok_iff {items : List Json} :
    inspectItems library document items = .ok () ↔
      ∀ item ∈ items, inspect library document item = .ok () := by
  induction items with
  | nil => simp [inspectItems]
  | cons item items ih =>
      rw [inspectItems, except_bind_eq_ok, List.forall_mem_cons, ← ih]
      constructor
      · rintro ⟨_, value, rest⟩
        exact ⟨value, rest⟩
      · rintro ⟨value, rest⟩
        exact ⟨(), value, rest⟩

theorem inspect_of_child {value child : Json} {key : Selector}
    (inspected : inspect library document value = .ok ()) (step : Child value key child) :
    inspect library document child = .ok () := by
  cases step with
  | member found => exact (inspectMembers_ok_iff.mp inspected _ _ (mem_of_lookup found)).2
  | item found => exact inspectItems_ok_iff.mp inspected _ (List.mem_of_getElem? found)

theorem inspect_of_addresses {value final : Json} {location : List Selector}
    (inspected : inspect library document value = .ok ())
    (addresses : Addresses value location final) : inspect library document final = .ok () := by
  induction addresses with
  | here => exact inspected
  | into step _ ih => exact ih (inspect_of_child inspected step)

/-- A reference that was inspected is a string that can be resolved. -/
theorem resolved_of_inspectItem {child : Json}
    (item : inspectItem library document "$ref" child = .ok ()) :
    ∃ ref target, child = .str ref ∧ pointer document (fragment ref) = .ok target := by
  unfold inspectItem at item
  rw [if_neg (by decide), if_pos rfl] at item
  cases child with
  | str ref =>
      dsimp only at item
      split at item
      · split at item
        · rename_i target resolved
          exact ⟨ref, target, rfl, resolved⟩
        · cases item
      · cases item
  | null | bool | int | float | nan | infinity | arr | obj => cases item

theorem inspected_ref {members : List (String × Json)} {child : Json}
    (inspected : inspect library document (.obj members) = .ok ())
    (found : members.lookup "$ref" = some child) :
    ∃ ref target, child = .str ref ∧ pointer document (fragment ref) = .ok target :=
  resolved_of_inspectItem (inspectMembers_ok_iff.mp inspected _ _ (mem_of_lookup found)).1

end Contract

/-! ### The references of a document -/

namespace Json

/-- The string under `$ref`. -/
def ref? : Json → Option String
  | .obj members => (members.lookup "$ref").bind text?
  | _ => none

/-- The value that a reference leads to. -/
def target (document : Json) (ref : String) : Json :=
  match pointer document (fragment ref) with
  | .ok value => value
  | .error _ => .null

theorem text?_eq_some_iff {value : Json} {text : String} :
    value.text? = some text ↔ value = .str text := by
  cases value <;> simp [text?]

theorem mem_refsOfMembers_of_mem {members : List (String × Json)} {key ref : String}
    {child : Json} (member : (key, child) ∈ members) :
    (key = "$ref" ∧ child = .str ref → ref ∈ refsOfMembers members) ∧
      (ref ∈ child.refs → ref ∈ refsOfMembers members) := by
  induction members with
  | nil => cases member
  | cons entry members ih =>
      obtain ⟨name, value⟩ := entry
      rw [refsOfMembers]
      rcases List.mem_cons.mp member with same | later
      · cases same
        constructor
        · rintro ⟨rfl, rfl⟩
          exact List.mem_append_left _ (by simp [text?])
        · intro inside
          exact List.mem_append_right _ (List.mem_append_left _ inside)
      · constructor
        · intro found
          exact List.mem_append_right _ (List.mem_append_right _ ((ih later).1 found))
        · intro inside
          exact List.mem_append_right _ (List.mem_append_right _ ((ih later).2 inside))

theorem mem_refsOfItems_of_mem {items : List Json} {item : Json} {ref : String}
    (member : item ∈ items) (inside : ref ∈ item.refs) : ref ∈ refsOfItems items := by
  induction items with
  | nil => cases member
  | cons first items ih =>
      rw [refsOfItems]
      rcases List.mem_cons.mp member with rfl | later
      · exact List.mem_append_left _ inside
      · exact List.mem_append_right _ (ih later)

theorem refs_of_addresses {value final : Json} {location : List Selector}
    (addresses : Addresses value location final) : final.refs ⊆ value.refs := by
  induction addresses with
  | here => exact List.Subset.refl _
  | into step _ ih =>
      intro ref member
      cases step with
      | member found => exact (mem_refsOfMembers_of_mem (mem_of_lookup found)).2 (ih member)
      | item found => exact mem_refsOfItems_of_mem (List.mem_of_getElem? found) (ih member)

theorem mem_refs_of_ref? {value : Json} {ref : String} (carried : value.ref? = some ref) :
    ref ∈ value.refs := by
  cases value with
  | obj members =>
      obtain ⟨child, found, named⟩ := Option.bind_eq_some_iff.mp carried
      exact (mem_refsOfMembers_of_mem (mem_of_lookup found)).1
        ⟨rfl, text?_eq_some_iff.mp named⟩
  | null | bool | int | float | nan | infinity | str | arr => cases carried

/-- A reference at the top of a target is one of the document. -/
theorem mem_refs_of_target {document : Json} {ref other : String}
    (carried : (target document ref).ref? = some other) : other ∈ document.refs := by
  unfold target at carried
  split at carried
  · rename_i value found
    obtain ⟨location, addresses⟩ := addresses_of_pointer found
    exact refs_of_addresses addresses (mem_refs_of_ref? carried)
  · cases carried

end Json

/-! ### The loop -/

namespace Contract

/-- What becomes of a value without a reference. -/
def settle (value : Json) : Except Raised Json := do
  if !(← value.contains "$ref") then pure value
  else value.getItem "$ref"

variable {library : Library} {document : Json}

theorem settle_obj {members : List (String × Json)} (bare : members.lookup "$ref" = none) :
    settle (.obj members) = .ok (.obj members) := by
  simp [settle, Json.contains, bare, bind, Except.bind, pure, Except.pure]

/-- On inspected values the loop of `deref` follows labels. -/
theorem derefFrom_eq_chase (whole : inspect library document document = .ok ()) {fuel : Nat}
    {visited : List String} {value : Json} (inspected : inspect library document value = .ok ()) :
    derefFrom document fuel visited value =
      match chase Json.ref? (Json.target document) fuel visited value with
      | some final => settle final
      | none => .error cyclicReference := by
  induction fuel generalizing visited value with
  | zero => rfl
  | succ fuel ih =>
      rw [derefFrom, chase]
      cases value with
      | obj members =>
          cases found : members.lookup "$ref" with
          | none =>
              simp [Json.ref?, found, settle_obj, Json.contains, bind, Except.bind, pure,
                Except.pure]
          | some child =>
              obtain ⟨ref, target, rfl, resolved⟩ := inspected_ref inspected found
              obtain ⟨location, addresses⟩ := addresses_of_pointer resolved
              have next := @ih (ref :: visited) target (inspect_of_addresses whole addresses)
              have leads : Json.target document ref = target := by
                unfold Json.target
                rw [resolved]
              simp only [Json.contains, Json.getItem, Json.ref?, Json.text?, found, resolved, leads,
                Option.isSome_some, Bool.not_true, Bool.false_eq_true, if_false, Option.map_some,
                Option.getD_some, Option.bind_some, bind, Except.bind]
              split
              · rfl
              · exact next
      | null | bool | int | float | nan | infinity => rfl
      | str text | arr items =>
          simp only [Json.ref?, settle, Json.contains, Json.getItem, bind, Except.bind]

/-- The document has passed `_inspect`. -/
def Inspected (contract : Contract) : Prop :=
  inspect contract.library (.obj contract.document) (.obj contract.document) = .ok ()

/-- The chain of references from a value ends at another value. -/
def Leads (contract : Contract) (value final : Json) : Prop :=
  Ends Json.ref? (Json.target (.obj contract.document)) value final

variable {contract : Contract}

theorem deref_of_leads (whole : contract.Inspected) {value final : Json}
    (inspected : inspect contract.library (.obj contract.document) value = .ok ())
    (leads : contract.Leads value final) : contract.deref value = settle final := by
  have known : ∀ ref, value.ref? = some ref →
      ref ∈ value.ref?.toList ++ (Json.obj contract.document).refs := by
    intro ref carried
    simp [carried]
  have enough : (value.ref?.toList ++ (Json.obj contract.document).refs).length + 1 ≤
      (Json.obj contract.document).refs.length + 2 := by
    rw [List.length_append]
    cases value.ref? <;> (simp; try omega)
  have found := (chase_eq_some_iff known
    (fun _ _ carried => List.mem_append_right _ (Json.mem_refs_of_target carried))
    enough).mpr leads
  unfold deref
  dsimp only
  rw [derefFrom_eq_chase whole inspected, found]

theorem deref_of_endless (whole : contract.Inspected) {value : Json}
    (inspected : inspect contract.library (.obj contract.document) value = .ok ())
    (endless : ¬ ∃ final, contract.Leads value final) :
    contract.deref value = .error cyclicReference := by
  unfold deref
  dsimp only
  rw [derefFrom_eq_chase whole inspected]
  cases followed : chase Json.ref? (Json.target (.obj contract.document))
      ((Json.obj contract.document).refs.length + 2) [] value with
  | none => rfl
  | some final => exact absurd ⟨final, ends_of_chase followed⟩ endless

/-! ### Exceptions -/

theorem unresolved_of_contains {key : String} {value : Json} {raised : Raised}
    (failed : value.contains key = .error raised) : Unresolved raised := by
  cases value with
  | obj | arr | str => cases failed
  | null | bool | int | float | nan | infinity =>
      cases failed
      exact .type

theorem unresolved_of_derefFrom {fuel : Nat} {visited : List String} {value : Json}
    {raised : Raised} (failed : derefFrom document fuel visited value = .error raised) :
    raised = cyclicReference ∨ Unresolved raised := by
  induction fuel generalizing visited value with
  | zero =>
      cases failed
      exact .inl rfl
  | succ fuel ih =>
      rw [derefFrom, except_bind_eq_error] at failed
      rcases failed with scalar | ⟨has, _, failed⟩
      · exact .inr (unresolved_of_contains scalar)
      · split at failed
        · cases failed
        · rcases except_bind_eq_error.mp failed with subscript | ⟨ref, _, failed⟩
          · exact .inr (unresolved_of_getItem subscript)
          · split at failed
            · split at failed
              · cases failed
                exact .inl rfl
              · rcases except_bind_eq_error.mp failed with lost | ⟨target, _, failed⟩
                · exact .inr (unresolved_of_pointer lost)
                · exact ih failed
            · cases failed
              exact .inr .type

theorem unresolved_of_deref {value : Json} {raised : Raised}
    (failed : contract.deref value = .error raised) :
    raised = cyclicReference ∨ Unresolved raised :=
  unresolved_of_derefFrom failed

/-- The texts of the `ContractError`s that `response_errors` copies into its report. -/
theorem caught_of_responseDefinition {operation : Json} {status : Int} {raised : Raised}
    (failed : contract.responseDefinition operation status = .error raised)
    (caught : raised.type = "ContractError") :
    raised ∈ [undeclaredStatus status, cyclicReference, pointerStart, arrayIndex] := by
  have uncaught : ∀ {value default : Json} {key : String},
      value.get key default = .error raised → False := by
    intro value default key lost
    cases value <;> simp only [Json.get, Except.error.injEq, reduceCtorEq] at lost
    all_goals
      rw [← lost] at caught
      simp [attributeError] at caught
  unfold responseDefinition at failed
  rcases except_bind_eq_error.mp failed with lost | ⟨responses, _, failed⟩
  · exact (uncaught lost).elim
  rcases except_bind_eq_error.mp failed with lost | ⟨fallback, _, failed⟩
  · exact (uncaught lost).elim
  rcases except_bind_eq_error.mp failed with lost | ⟨range, _, failed⟩
  · exact (uncaught lost).elim
  rcases except_bind_eq_error.mp failed with lost | ⟨definition, _, failed⟩
  · exact (uncaught lost).elim
  split at failed
  · cases failed
    simp
  · rcases unresolved_of_deref failed with rfl | unresolved
    · simp
    · cases unresolved with
      | start => simp
      | position => simp
      | index => simp [indexError] at caught
      | key => simp [keyError] at caught
      | type => simp [typeError] at caught

end Contract

end ApiSentinel
