import ApiSentinel.Dereference
import ApiSentinel.Loops
import Mathlib.Data.List.Dedup

/-!
# Cyclic references

The loop of `deref` without fuel.  On the objects of an inspected document it ends after at
most one iteration more than the document has different references: at the end of the chain
of references, or at the first reference that it has followed before.
-/

namespace ApiSentinel

open Chasing Loops

namespace Contract

/-- One turn of the `while` loop of `deref`, at the references that it has followed and the
value that it has come to. -/
def derefTurn (document : Json) : Turn (List String × Json) Json Raised :=
  fun (visited, value) => do
    if !(← value.contains "$ref") then pure (.inl value)
    else
      match ← value.getItem "$ref" with
      | .str ref =>
          if ref ∈ visited then .error cyclicReference
          else pure (.inr (ref :: visited, ← pointer document (fragment ref)))
      | ref =>
          .error (typeError
            (if ref.hashable then "'" ++ ref.typeName ++ "' object is not subscriptable"
            else "unhashable type: '" ++ ref.typeName ++ "'"))

variable {document : Json}

theorem derefFrom_succ (fuel : Nat) (visited : List String) (value : Json) :
    derefFrom document (fuel + 1) visited value =
      derefTurn document (visited, value) >>= fun outcome =>
        match outcome with
        | .inl final => .ok final
        | .inr (others, next) => derefFrom document fuel others next := by
  rw [derefFrom, derefTurn]
  cases value.contains "$ref" with
  | error raised => rfl
  | ok labelled =>
      cases labelled with
      | false => rfl
      | true =>
          cases given : value.getItem "$ref" with
          | error raised => simp [bind, Except.bind]
          | ok ref =>
              cases ref with
              | str ref =>
                  simp only [bind, Except.bind, Bool.not_true, Bool.false_eq_true, if_false]
                  split
                  · rfl
                  · cases pointer document (fragment ref) <;> rfl
              | null | bool | int | float | nan | infinity | arr | obj =>
                  simp [bind, Except.bind]

/-- With fuel for its iterations and for the last test of its condition, `deref` gives the
result of the loop. -/
theorem derefFrom_of_loop {state : List String × Json} {count : Nat}
    {result : Except Raised Json} (loop : Loop (derefTurn document) state count result)
    (spare : Nat) : derefFrom document (spare + count + 1) state.1 state.2 = result := by
  induction loop with
  | left stops =>
      rw [derefFrom_succ, stops]
      rfl
  | raised failed =>
      rw [derefFrom_succ, failed]
      rfl
  | again goes rest ih =>
      rw [derefFrom_succ, goes]
      exact ih

/-- The loop is left at a value without a reference. -/
theorem bare_of_derefTurn {state : List String × Json} {final : Json}
    (stops : derefTurn document state = .ok (.inl final)) :
    final = state.2 ∧ state.2.contains "$ref" = .ok false := by
  obtain ⟨visited, value⟩ := state
  unfold derefTurn at stops
  obtain ⟨labelled, tested, stops⟩ := except_bind_eq_ok.mp stops
  cases labelled with
  | false =>
      cases stops
      exact ⟨rfl, tested⟩
  | true =>
      obtain ⟨ref, _, stops⟩ := except_bind_eq_ok.mp stops
      split at stops
      · split at stops
        · cases stops
        · obtain ⟨_, _, stops⟩ := except_bind_eq_ok.mp stops
          cases stops
      · cases stops

/-- The loop goes on at the target of a reference that it has not followed before. -/
theorem followed_of_derefTurn {state next : List String × Json}
    (goes : derefTurn document state = .ok (.inr next)) :
    ∃ members ref target, state.2 = .obj members ∧ members.lookup "$ref" = some (.str ref) ∧
      ref ∉ state.1 ∧ pointer document (fragment ref) = .ok target ∧
      next = (ref :: state.1, target) := by
  obtain ⟨visited, value⟩ := state
  unfold derefTurn at goes
  obtain ⟨labelled, _, goes⟩ := except_bind_eq_ok.mp goes
  split at goes
  · cases goes
  · obtain ⟨child, given, goes⟩ := except_bind_eq_ok.mp goes
    obtain ⟨members, same, found⟩ := Json.getItem_eq_ok_iff.mp given
    split at goes
    · split at goes
      · cases goes
      · rename_i ref new
        obtain ⟨target, resolved, goes⟩ := except_bind_eq_ok.mp goes
        cases goes
        exact ⟨members, ref, target, same, found, new, resolved, rfl⟩
    · cases goes

theorem ref?_of_bare {value : Json} (bare : value.contains "$ref" = .ok false) :
    value.ref? = none := by
  cases value with
  | obj members =>
      rw [Json.contains, Except.ok.injEq, Option.isSome_eq_false_iff, Option.isNone_iff_eq_none]
        at bare
      rw [Json.ref?, bare]
      rfl
  | null | bool | int | float | nan | infinity | str | arr => rfl

/-- A loop that is left has come to the end of the chain of references. -/
theorem ends_of_derefLoop {state : List String × Json} {count : Nat} {final : Json}
    (loop : Loop (derefTurn document) state count (.ok final)) :
    Ends Json.ref? (Json.target document) state.2 final := by
  generalize outcome : (Except.ok final : Except Raised Json) = result at loop
  induction loop with
  | left stops =>
      cases outcome
      obtain ⟨rfl, bare⟩ := bare_of_derefTurn stops
      exact ⟨0, .here (ref?_of_bare bare)⟩
  | raised failed => cases outcome
  | again goes rest ih =>
      obtain ⟨later, ends⟩ := ih outcome
      obtain ⟨members, ref, target, same, found, _, resolved, rfl⟩ := followed_of_derefTurn goes
      rw [same]
      have labelled : (Json.obj members).ref? = some ref := by
        rw [Json.ref?, found]
        rfl
      have leads : Json.target document ref = target := by
        rw [Json.target, resolved]
      exact ⟨later + 1, .follow labelled (leads ▸ ends)⟩

/-! ### Objects of an inspected document -/

/-- Every reference of the document leads to an object. -/
def TargetsObjects (document : Json) : Prop :=
  ∀ ref ∈ document.refs, ∃ members, pointer document (fragment ref) = .ok (.obj members)

/-- The loop has followed different references of the document, and is at an object. -/
structure Following (document : Json) (state : List String × Json) : Prop where
  seen : state.1 ⊆ document.refs
  fresh : state.1.Nodup
  inside : ∃ location members, Addresses document location state.2 ∧ state.2 = .obj members

theorem Following.length_le {state : List String × Json} (following : Following document state) :
    state.1.length ≤ document.refs.dedup.length :=
  (List.subperm_of_subset following.fresh fun _ old =>
    List.mem_dedup.mpr (following.seen old)).length_le

/-- A turn that does not end the loop follows a new reference of the document. -/
theorem Following.turn (objects : TargetsObjects document) {state next : List String × Json}
    (following : Following document state) (goes : derefTurn document state = .ok (.inr next)) :
    Following document next ∧ next.1.length = state.1.length + 1 := by
  obtain ⟨members, ref, target, same, found, new, resolved, rfl⟩ := followed_of_derefTurn goes
  obtain ⟨location, _, inside, _⟩ := following.inside
  have listed : ref ∈ document.refs := by
    refine Json.refs_of_addresses inside (Json.mem_refs_of_ref? ?_)
    rw [same, Json.ref?, found]
    rfl
  obtain ⟨fields, leads⟩ := objects ref listed
  cases leads.symm.trans resolved
  obtain ⟨place, there⟩ := addresses_of_pointer resolved
  exact ⟨⟨List.cons_subset.mpr ⟨listed, following.seen⟩,
    List.nodup_cons.mpr ⟨new, following.fresh⟩, place, fields, there, rfl⟩, rfl⟩

/-- On an object of an inspected document, only a repeated reference raises. -/
theorem Following.raised {library : Library}
    (whole : inspect library document document = .ok ()) {state : List String × Json}
    {raised : Raised} (following : Following document state)
    (failed : derefTurn document state = .error raised) : raised = cyclicReference := by
  obtain ⟨visited, value⟩ := state
  obtain ⟨location, members, inside, rfl⟩ := following.inside
  have inspected := inspect_of_addresses whole inside
  unfold derefTurn at failed
  cases found : members.lookup "$ref" with
  | none => simp [Json.contains, found, bind, Except.bind, pure, Except.pure] at failed
  | some child =>
      obtain ⟨ref, target, rfl, resolved⟩ := inspected_ref inspected found
      simp only [Json.contains, Json.getItem, found, resolved, bind, Except.bind, pure,
        Except.pure, Option.isSome_some, Option.map_some, Option.getD_some, Bool.not_true,
        Bool.false_eq_true, if_false] at failed
      split at failed
      · cases failed
        rfl
      · cases failed

theorem exists_derefLoop (objects : TargetsObjects document) {members : List (String × Json)}
    {location : List Selector} (inside : Addresses document location (.obj members)) :
    ∃ count result, Loop (derefTurn document) ([], .obj members) count result ∧
      count ≤ document.refs.dedup.length + 1 := by
  have initial : Following document ([], .obj members) :=
    ⟨List.nil_subset _, List.nodup_nil, location, members, inside, rfl⟩
  have keeps : ∀ state next, Following document state →
      derefTurn document state = .ok (.inr next) → Following document next ∧
        document.refs.dedup.length - next.1.length <
          document.refs.dedup.length - state.1.length := by
    intro state next following goes
    obtain ⟨kept, longer⟩ := following.turn objects goes
    have bound := kept.length_le
    exact ⟨kept, by omega⟩
  exact exists_loop (Following document) _ keeps initial

/-- What the loop gives on an object: another object of the document without a reference, or
the error about cycles. -/
theorem of_derefLoop {library : Library} (whole : inspect library document document = .ok ())
    (objects : TargetsObjects document) {members : List (String × Json)}
    {location : List Selector} {count : Nat} {result : Except Raised Json}
    (inside : Addresses document location (.obj members))
    (loop : Loop (derefTurn document) ([], .obj members) count result) :
    (∃ place fields, result = .ok (.obj fields) ∧ fields.lookup "$ref" = none ∧
      Addresses document place (.obj fields)) ∨ result = .error cyclicReference := by
  have initial : Following document ([], .obj members) :=
    ⟨List.nil_subset _, List.nodup_nil, location, members, inside, rfl⟩
  obtain ⟨final, following, ended⟩ :=
    loop.invariant (fun _ _ following goes => (following.turn objects goes).1) initial
  cases result with
  | error raised => exact .inr (congrArg Except.error (following.raised whole ended))
  | ok value =>
      obtain ⟨rfl, bare⟩ := bare_of_derefTurn ended
      obtain ⟨place, fields, there, same⟩ := following.inside
      rw [same] at bare there
      rw [Json.contains, Except.ok.injEq, Option.isSome_eq_false_iff, Option.isNone_iff_eq_none]
        at bare
      exact .inl ⟨place, fields, congrArg Except.ok same, bare, there⟩

/-- What becomes of the end of a chain is never the error about cycles. -/
theorem settle_ne_cyclicReference (value : Json) : settle value ≠ .error cyclicReference := by
  intro settled
  have unresolved : Unresolved cyclicReference := by
    rcases except_bind_eq_error.mp settled with scalar | ⟨labelled, _, failed⟩
    · exact unresolved_of_contains scalar
    · split at failed
      · cases failed
      · exact unresolved_of_getItem failed
  generalize same : cyclicReference = raised at unresolved
  cases unresolved <;>
    simp [cyclicReference, contractError, pointerStart, arrayIndex, indexError, keyError,
      typeError] at same

/-! ### The law -/

/-- The chain of references from a value comes to one of them a second time. -/
def Cyclic (document : Json) (value : Json) : Prop :=
  Repeats Json.ref? (Json.target document) value

/-- On every object of an inspected document whose references lead to objects, the loop of
`deref` ends in time.  It gives the end of the chain of references unless the chain is
cyclic, and the error about cycles if it is. -/
theorem deref_terminates {contract : Contract} (whole : contract.Inspected)
    (objects : TargetsObjects (.obj contract.document)) {location : List Selector}
    {members : List (String × Json)}
    (inside : Addresses (.obj contract.document) location (.obj members)) :
    ∃ count result,
      Loop (derefTurn (.obj contract.document)) ([], .obj members) count result ∧
      count ≤ (Json.obj contract.document).refs.dedup.length + 1 ∧
      contract.deref (.obj members) = result ∧
      (¬ Cyclic (.obj contract.document) (.obj members) →
        ∃ place fields, result = .ok (.obj fields) ∧ fields.lookup "$ref" = none ∧
          contract.Leads (.obj members) (.obj fields) ∧
          Addresses (.obj contract.document) place (.obj fields)) ∧
      (Cyclic (.obj contract.document) (.obj members) →
        result = .error (contractError "cyclic reference outside a JSON schema")) := by
  obtain ⟨count, result, loop, most⟩ := exists_derefLoop objects inside
  have known : ∀ ref, (Json.obj members).ref? = some ref →
      ref ∈ (Json.obj contract.document).refs :=
    fun ref carried => Json.refs_of_addresses inside (Json.mem_refs_of_ref? carried)
  have ends : (∃ final, contract.Leads (.obj members) final) ↔
      ¬ Cyclic (.obj contract.document) (.obj members) :=
    ends_iff_not_repeats known (fun _ _ => Json.mem_refs_of_target)
  have followed : contract.deref (.obj members) = result := by
    have fewer := (List.dedup_sublist (Json.obj contract.document).refs).length_le
    have gives := derefFrom_of_loop loop
      ((Json.obj contract.document).refs.length + 1 - count)
    rwa [Nat.sub_add_cancel (by omega)] at gives
  refine ⟨count, result, loop, most, followed, ?_, ?_⟩
  · intro acyclic
    obtain ⟨final, leads⟩ := ends.mpr acyclic
    rcases of_derefLoop whole objects inside loop with ⟨place, fields, rfl, bare, there⟩ | rfl
    · exact ⟨place, fields, rfl, bare, ends_of_derefLoop loop, there⟩
    · have settled := deref_of_leads whole (inspect_of_addresses whole inside) leads
      exact absurd (settled.symm.trans followed) (settle_ne_cyclicReference final)
  · intro cyclic
    rcases of_derefLoop whole objects inside loop with ⟨place, fields, rfl, _⟩ | same
    · exact absurd cyclic (ends.mp ⟨_, ends_of_derefLoop loop⟩)
    · exact same

end Contract

namespace Sample

/-- Two references in a circle, and two in a row. -/
def circular : Contract where
  library := library
  document := [("a", .obj [("$ref", .str "#/b")]), ("b", .obj [("$ref", .str "#/a")]),
    ("c", .obj [("$ref", .str "#/d")]), ("d", .obj [("$ref", .str "#/e")]), ("e", .obj [])]

theorem circular_targets : Contract.TargetsObjects (.obj circular.document) := by
  intro ref listed
  have cases : ref ∈ ["#/b", "#/a", "#/d", "#/e"] := listed
  simp only [List.mem_cons, List.not_mem_nil, or_false] at cases
  rcases cases with rfl | rfl | rfl | rfl <;> exact ⟨_, rfl⟩

theorem circular_cyclic :
    Contract.Cyclic (.obj circular.document) (.obj [("$ref", .str "#/b")]) :=
  ⟨0, 2, "#/b", by omega, rfl, rfl⟩

end Sample

/-- The loop raises on the circle of the sample, within five iterations. -/
theorem Contract.deref_terminates_sample :
    ∃ count,
      Loop (Contract.derefTurn (.obj Sample.circular.document))
        ([], .obj [("$ref", .str "#/b")]) count
        (.error (contractError "cyclic reference outside a JSON schema")) ∧ count ≤ 5 := by
  obtain ⟨count, result, loop, most, _, _, cyclic⟩ :=
    @Contract.deref_terminates Sample.circular rfl Sample.circular_targets [.name "a"] _
      (.into (.member rfl) .here)
  exact ⟨count, cyclic Sample.circular_cyclic ▸ loop, most⟩

end ApiSentinel
