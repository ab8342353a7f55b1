import Mathlib.Data.Fintype.EquivFin
import Mathlib.Data.List.Perm.Subperm
import Mathlib.Data.Set.Finite.Basic

/-!
# Following labels

Some values carry a label, and a label leads to another value.  The loop that follows
labels and gives up at the first one it has seen before reaches the end of a chain
exactly when there is one.
-/

namespace Chasing

variable {Value Label : Type} (label? : Value → Option Label) (target : Label → Value)

/-- The chain of labels from a value has so many of them, and ends at a value without one. -/
inductive EndsIn : Nat → Value → Value → Prop
  | here {value} (bare : label? value = none) : EndsIn 0 value value
  | follow {count value label final} (labelled : label? value = some label)
      (rest : EndsIn count (target label) final) : EndsIn (count + 1) value final

def Ends (value final : Value) : Prop := ∃ count, EndsIn label? target count value final

/-- Follow labels until there is none, or one that was followed before. -/
def chase [DecidableEq Label] : Nat → List Label → Value → Option Value
  | 0, _, _ => none
  | fuel + 1, visited, value =>
      match label? value with
      | none => some value
      | some label => if label ∈ visited then none else chase fuel (label :: visited) (target label)

variable {label? target}

theorem EndsIn.unique {count other : Nat} {value final result : Value}
    (ends : EndsIn label? target count value final)
    (also : EndsIn label? target other value result) : count = other ∧ final = result := by
  induction ends generalizing other with
  | here bare =>
      cases also with
      | here => exact ⟨rfl, rfl⟩
      | follow labelled => cases bare.symm.trans labelled
  | follow labelled rest ih =>
      cases also with
      | here bare => cases bare.symm.trans labelled
      | follow same later =>
          cases labelled.symm.trans same
          obtain ⟨rfl, rfl⟩ := ih later
          exact ⟨rfl, rfl⟩

theorem Ends.unique {value final result : Value} (ends : Ends label? target value final)
    (also : Ends label? target value result) : final = result := by
  obtain ⟨_, one⟩ := ends
  obtain ⟨_, two⟩ := also
  exact (one.unique two).2

/-- What holds of a value and of everything a label leads to holds at the end of the chain. -/
theorem Ends.invariant {motive : Value → Prop} (leads : ∀ label, motive (target label))
    {value final : Value} (initial : motive value) (ends : Ends label? target value final) :
    motive final ∧ label? final = none := by
  obtain ⟨_, ends⟩ := ends
  induction ends with
  | here bare => exact ⟨initial, bare⟩
  | follow _ _ ih => exact ih (leads _)

/-! ### Repeated labels -/

variable (label? target) in
/-- The label that is followed after so many others. -/
def labelAt : Nat → Value → Option Label
  | 0, value => label? value
  | index + 1, value => (label? value).bind (fun label => labelAt index (target label))

variable (label? target) in
/-- Following the labels of a value comes to one of them a second time. -/
def Repeats (value : Value) : Prop :=
  ∃ first second label, first < second ∧ labelAt label? target first value = some label ∧
    labelAt label? target second value = some label

/-- The chain from a label on is the rest of the chain that leads to it. -/
theorem EndsIn.rest {count index : Nat} {value final : Value} {label : Label}
    (ends : EndsIn label? target count value final)
    (followed : labelAt label? target index value = some label) :
    ∃ left, EndsIn label? target left (target label) final ∧ left + index + 1 = count := by
  induction ends generalizing index with
  | here bare =>
      cases index with
      | zero => cases bare.symm.trans followed
      | succ index =>
          rw [labelAt, bare] at followed
          cases followed
  | @follow count value first final labelled later ih =>
      cases index with
      | zero =>
          cases labelled.symm.trans followed
          exact ⟨count, later, rfl⟩
      | succ index =>
          rw [labelAt, labelled, Option.bind_some] at followed
          obtain ⟨left, rest, same⟩ := ih followed
          exact ⟨left, rest, by omega⟩

theorem ends_of_labelAt_eq_none {index : Nat} {value : Value}
    (stops : labelAt label? target index value = none) :
    ∃ final, Ends label? target value final := by
  induction index generalizing value with
  | zero => exact ⟨value, 0, .here stops⟩
  | succ index ih =>
      cases labelled : label? value with
      | none => exact ⟨value, 0, .here labelled⟩
      | some label =>
          rw [labelAt, labelled, Option.bind_some] at stops
          obtain ⟨final, count, rest⟩ := ih stops
          exact ⟨final, count + 1, .follow labelled rest⟩

theorem mem_of_labelAt {labels : List Label} {index : Nat} {value : Value} {label : Label}
    (known : ∀ label, label? value = some label → label ∈ labels)
    (closed : ∀ label other, label? (target label) = some other → other ∈ labels)
    (followed : labelAt label? target index value = some label) : label ∈ labels := by
  induction index generalizing value with
  | zero => exact known label followed
  | succ index ih =>
      obtain ⟨first, _, later⟩ := Option.bind_eq_some_iff.mp followed
      exact ih (closed first) later

/-- Among finitely many labels, a chain ends exactly if it never repeats one. -/
theorem ends_iff_not_repeats {labels : List Label} {value : Value}
    (known : ∀ label, label? value = some label → label ∈ labels)
    (closed : ∀ label other, label? (target label) = some other → other ∈ labels) :
    (∃ final, Ends label? target value final) ↔ ¬ Repeats label? target value := by
  constructor
  · rintro ⟨final, count, ends⟩ ⟨first, second, label, earlier, one, two⟩
    obtain ⟨left, rest, here⟩ := ends.rest one
    obtain ⟨less, again, later⟩ := ends.rest two
    have same := (rest.unique again).1
    omega
  · intro fresh
    by_contra endless
    have goesOn : ∀ index, ∃ label, labelAt label? target index value = some label := by
      intro index
      rw [← Option.ne_none_iff_exists']
      exact fun stops => endless (ends_of_labelAt_eq_none stops)
    choose labelOf followed using goesOn
    have : Finite {label // label ∈ labels} := (List.finite_toSet labels).to_subtype
    -- infinitely many places of the chain share the finitely many labels
    apply not_injective_infinite_finite (fun index : Nat =>
      (⟨labelOf index, mem_of_labelAt known closed (followed index)⟩ :
        {label // label ∈ labels}))
    intro first second same
    have label : labelOf first = labelOf second := congrArg Subtype.val same
    rcases Nat.lt_trichotomy first second with earlier | equal | later
    · exact absurd ⟨first, second, _, earlier, followed first, label ▸ followed second⟩ fresh
    · exact equal
    · exact absurd ⟨second, first, _, later, followed second, label ▸ followed first⟩ fresh

variable [DecidableEq Label]

theorem ends_of_chase {fuel : Nat} {visited : List Label} {value final : Value}
    (found : chase label? target fuel visited value = some final) :
    Ends label? target value final := by
  induction fuel generalizing visited value with
  | zero => cases found
  | succ fuel ih =>
      rw [chase] at found
      cases carried : label? value with
      | none =>
          rw [carried] at found
          cases found
          exact ⟨0, .here carried⟩
      | some label =>
          simp only [carried] at found
          split at found
          · cases found
          · obtain ⟨count, rest⟩ := ih found
            exact ⟨count + 1, .follow carried rest⟩

/-- No label of a chain that ends was followed before: from it the chain would be longer
than it is.  So the fuel never runs out while new labels remain. -/
theorem chase_of_endsIn {labels visited : List Label} {count fuel : Nat} {value final : Value}
    (ends : EndsIn label? target count value final)
    (known : ∀ label, label? value = some label → label ∈ labels)
    (closed : ∀ label other, label? (target label) = some other → other ∈ labels)
    (fresh : visited.Nodup) (seen : visited ⊆ labels)
    (earlier : ∀ label ∈ visited, ∃ longer,
      EndsIn label? target longer (target label) final ∧ count ≤ longer)
    (enough : labels.length + 1 ≤ fuel + visited.length) :
    chase label? target fuel visited value = some final := by
  have bound := (List.subperm_of_subset fresh seen).length_le
  induction ends generalizing visited fuel with
  | here bare =>
      obtain ⟨fuel, rfl⟩ : ∃ less, fuel = less + 1 := ⟨fuel - 1, by omega⟩
      rw [chase, bare]
  | @follow count value label final labelled rest ih =>
      obtain ⟨fuel, rfl⟩ : ∃ less, fuel = less + 1 := ⟨fuel - 1, by omega⟩
      have new : label ∉ visited := by
        intro old
        obtain ⟨longer, again, longest⟩ := earlier label old
        have same := (rest.unique again).1
        omega
      have member := known label labelled
      have tracked : (label :: visited).Nodup := List.nodup_cons.mpr ⟨new, fresh⟩
      have inside : label :: visited ⊆ labels := List.cons_subset.mpr ⟨member, seen⟩
      rw [chase, labelled]
      dsimp only
      rw [if_neg new]
      apply ih (closed label) tracked inside
      · intro other old
        rcases List.mem_cons.mp old with rfl | old
        · exact ⟨count, rest, Nat.le_refl count⟩
        · obtain ⟨longer, again, longest⟩ := earlier other old
          exact ⟨longer, again, by omega⟩
      · rw [List.length_cons]
        omega
      · exact (List.subperm_of_subset tracked inside).length_le

/-- With more fuel than there are labels, the loop finds the end of every chain that has
one, and gives up on all others. -/
theorem chase_eq_some_iff {labels : List Label} {fuel : Nat} {value final : Value}
    (known : ∀ label, label? value = some label → label ∈ labels)
    (closed : ∀ label other, label? (target label) = some other → other ∈ labels)
    (enough : labels.length + 1 ≤ fuel) :
    chase label? target fuel [] value = some final ↔ Ends label? target value final := by
  constructor
  · exact ends_of_chase
  · rintro ⟨count, ends⟩
    refine chase_of_endsIn ends known closed List.nodup_nil (List.nil_subset labels) ?_ enough
    intro label member
    cases member

end Chasing
