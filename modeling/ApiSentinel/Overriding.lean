import ApiSentinel.Declarations

/-!
# Overriding parameters

A parameter of an operation takes the place of the one that its path item declares under
the same location and name.  `Contract.request` looks up the values of headers in lower
case, but parameters take the place of others under the exact spelling of their names.
-/

namespace ApiSentinel

open Assignments

/-! ### Names of headers -/

def DictKey.mapText (change : String → String) : DictKey → DictKey
  | .text value => .text (change value)
  | key => key

/-- A key, with the name of a header in lower case. -/
def caseless (lower : String → String) (key : String × DictKey) : String × DictKey :=
  (key.1, if key.1 = "header" then key.2.mapText lower else key.2)

/-- The location of a parameter and its name, without the letter case of a header. -/
def caselessKey? (lower : String → String) (param : Json) : Option (String × DictKey) :=
  (paramKey? param).map (caseless lower)

/-- The two define a header, under names that are spelled differently. -/
def DifferInCase (lower : String → String) (one two : Json) : Prop :=
  ∃ name other, (one.getItem "in" = .ok (.str "header") ∧ one.getItem "name" = .ok (.str name)) ∧
    (two.getItem "in" = .ok (.str "header") ∧ two.getItem "name" = .ok (.str other)) ∧
    lower name = lower other ∧ name ≠ other

/-- The value of a header is looked up for a parameter. -/
def LooksUp (lower : String → String) (name : String) (param : Json) : Prop :=
  param.getItem "in" = .ok (.str "header") ∧
    ∃ spelling, param.getItem "name" = .ok (.str spelling) ∧ lower spelling = name

section Keys

variable {lower : String → String} {one two param : Json}

theorem Json.dictKey?_eq_text_iff {value : Json} {text : String} :
    value.dictKey? = some (.text text) ↔ value = .str text := by
  cases value <;> simp [dictKey?, number?]

theorem paramKey?_header_iff {name : String} :
    paramKey? param = some ("header", .text name) ↔
      param.getItem "in" = .ok (.str "header") ∧ param.getItem "name" = .ok (.str name) := by
  unfold paramKey?
  constructor
  · intro found
    split at found
    · rename_i location value located named
      obtain ⟨key, keyed, same⟩ := Option.map_eq_some_iff.mp found
      cases same
      cases Json.dictKey?_eq_text_iff.mp keyed
      exact ⟨located, named⟩
    · cases found
  · rintro ⟨located, named⟩
    rw [located, named]
    rfl

theorem DictKey.mapText_eq_iff {first second : DictKey} :
    first.mapText lower = second.mapText lower ↔
      first = second ∨ ∃ name other, first = .text name ∧ second = .text other ∧
        lower name = lower other := by
  cases first with
  | text name =>
      cases second with
      | text other =>
          constructor
          · intro same
            exact .inr ⟨name, other, rfl, rfl, DictKey.text.inj same⟩
          · rintro (same | ⟨_, _, same, again, equal⟩)
            · rw [same]
            · cases same
              cases again
              exact congrArg DictKey.text equal
      | null | number | infinity => simp [mapText]
  | null | number | infinity => cases second <;> simp [mapText]

theorem sameKey_caseless (same : SameKey paramKey? one two) :
    SameKey (caselessKey? lower) one two := by
  obtain ⟨key, first, second⟩ := sameKey_iff.mp same
  refine sameKey_iff.mpr ⟨caseless lower key, ?_, ?_⟩
  · unfold caselessKey?
    rw [first]
    rfl
  · unfold caselessKey?
    rw [second]
    rfl

/-- Keys that are equal without the letter case of headers are equal, or differ in it. -/
theorem sameKey_caseless_iff :
    SameKey (caselessKey? lower) one two ↔
      SameKey paramKey? one two ∨ DifferInCase lower one two := by
  constructor
  · intro same
    obtain ⟨key, first, second⟩ := sameKey_iff.mp same
    obtain ⟨⟨location, name⟩, foundOne, rfl⟩ := Option.map_eq_some_iff.mp first
    obtain ⟨⟨place, other⟩, foundTwo, equal⟩ := Option.map_eq_some_iff.mp second
    obtain ⟨rfl, names⟩ := Prod.mk.inj equal
    dsimp only at names
    by_cases header : place = "header"
    · rw [if_pos header, if_pos header] at names
      subst place
      rcases DictKey.mapText_eq_iff.mp names with rfl | ⟨spelling, respelled, rfl, rfl, lowered⟩
      · exact .inl (sameKey_iff.mpr ⟨_, foundOne, foundTwo⟩)
      · by_cases alike : respelled = spelling
        · subst alike
          exact .inl (sameKey_iff.mpr ⟨_, foundOne, foundTwo⟩)
        · exact .inr ⟨respelled, spelling, paramKey?_header_iff.mp foundOne,
            paramKey?_header_iff.mp foundTwo, lowered.symm, alike⟩
    · rw [if_neg header, if_neg header] at names
      subst names
      exact .inl (sameKey_iff.mpr ⟨_, foundOne, foundTwo⟩)
  · rintro (same | ⟨name, other, first, second, equal, _⟩)
    · exact sameKey_caseless same
    · refine sameKey_iff.mpr ⟨("header", .text (lower name)), ?_, ?_⟩
      · unfold caselessKey?
        rw [paramKey?_header_iff.mpr first]
        rfl
      · unfold caselessKey?
        rw [paramKey?_header_iff.mpr second, equal]
        rfl

end Keys

namespace Contract

/-! ### One definition for each parameter -/

namespace Declaration

variable (declaration : Declaration) (lower : String → String)

/-- What is stored for the parameters of an operation: one definition for each location and
name, that of the operation in place of that of the path item, and no value of a header that
is looked up for two of them. -/
structure Overridden (stored : List Json) : Prop where
  one : Distinct (caselessKey? lower) stored
  all : ∀ param ∈ declaration.given,
    ∃ left ∈ stored, left = param ∨ SameKey (caselessKey? lower) param left
  own : ∀ left ∈ stored, ∀ param ∈ declaration.own,
    SameKey (caselessKey? lower) left param → left ∈ declaration.own
  checked : ∀ name, stored.Pairwise fun first second =>
    ¬ (LooksUp lower name first ∧ LooksUp lower name second)

/-- Two of the declared parameters are one header under different spellings. -/
def Clashes : Prop :=
  ∃ first ∈ declaration.given, ∃ second ∈ declaration.given, DifferInCase lower first second

variable {declaration lower}

theorem sameKey_of_not_clashes (apart : ¬ declaration.Clashes lower) {first second : Json}
    (one : first ∈ declaration.given) (two : second ∈ declaration.given)
    (same : SameKey (caselessKey? lower) first second) : SameKey paramKey? first second := by
  rcases sameKey_caseless_iff.mp same with exact_ | differ
  · exact exact_
  · exact absurd ⟨first, one, second, two, differ⟩ apart

theorem LooksUp.sameKey {name : String} {first second : Json} (one : LooksUp lower name first)
    (two : LooksUp lower name second) : SameKey (caselessKey? lower) first second := by
  obtain ⟨located, spelling, named, rfl⟩ := one
  obtain ⟨placed, respelling, other, equal⟩ := two
  by_cases alike : spelling = respelling
  · subst alike
    exact sameKey_caseless (sameKey_iff.mpr ⟨_, paramKey?_header_iff.mpr ⟨located, named⟩,
      paramKey?_header_iff.mpr ⟨placed, other⟩⟩)
  · exact sameKey_caseless_iff.mpr
      (.inr ⟨spelling, respelling, ⟨located, named⟩, ⟨placed, other⟩, equal.symm, alike⟩)

/-- The last definition of a key is one of the operation, if the operation has one. -/
theorem mem_own_of_lastOf {left param : Json} (last : LastOf paramKey? declaration.given left)
    (member : param ∈ declaration.own) (same : SameKey paramKey? left param) :
    left ∈ declaration.own := by
  obtain ⟨before, after, split, none⟩ := last
  rcases List.append_eq_append_iff.mp split with ⟨middle, _, rest⟩ | ⟨middle, _, rest⟩
  · rw [rest]
    exact List.mem_append_right middle List.mem_cons_self
  · cases middle with
    | nil =>
        rw [List.nil_append] at rest
        rw [← rest]
        exact List.mem_cons_self
    | cons first middle =>
        obtain ⟨_, rfl⟩ := List.cons.inj rest
        exact absurd same.symm (none param (List.mem_append_right middle member))

/-- Every key of a declared parameter has a definition that is stored. -/
theorem exists_stored {param : Json} {key : String × DictKey} (member : param ∈ declaration.given)
    (keyed : paramKey? param = some key) :
    ∃ left ∈ assignAll paramKey? declaration.given, SameKey paramKey? param left := by
  obtain ⟨left, among, rfl | same⟩ := exists_of_mem paramKey? member
  · exact ⟨left, among, sameKey_iff.mpr ⟨key, keyed, keyed⟩⟩
  · exact ⟨left, among, same⟩

theorem overridden_iff :
    declaration.Overridden lower (assignAll paramKey? declaration.given) ↔
      ¬ declaration.Clashes lower := by
  constructor
  · rintro overridden ⟨first, one, second, two, differ⟩
    have differs := differ
    obtain ⟨name, other, header, twin, _, apart⟩ := differs
    have named := paramKey?_header_iff.mpr header
    have again := paramKey?_header_iff.mpr twin
    obtain ⟨left, among, stands⟩ := exists_stored one named
    obtain ⟨right, member, follows⟩ := exists_stored two again
    have same := ((sameKey_caseless stands).symm.trans
      (sameKey_caseless_iff.mpr (.inr differ))).trans (sameKey_caseless follows)
    cases overridden.one.eq_of_sameKey among member same
    have equal := (stands.trans follows.symm).2
    rw [named, again] at equal
    cases equal
    exact apart rfl
  · intro apart
    have one : Distinct (caselessKey? lower) (assignAll paramKey? declaration.given) := by
      refine (distinct_assignAll paramKey? declaration.given).imp_of_mem ?_
      intro first second among member differs same
      exact differs (sameKey_of_not_clashes apart (mem_of_mem_assignAll among)
        (mem_of_mem_assignAll member) same)
    refine ⟨one, ?_, ?_, ?_⟩
    · intro param member
      obtain ⟨left, among, found⟩ := exists_of_mem paramKey? member
      exact ⟨left, among, found.imp_right sameKey_caseless⟩
    · intro left among param member same
      have given : param ∈ declaration.given := List.mem_append_right _ member
      exact mem_own_of_lastOf (lastOf_of_mem_assignAll among) member
        (sameKey_of_not_clashes apart (mem_of_mem_assignAll among) given same)
    · intro name
      exact one.imp fun differs both => differs (LooksUp.sameKey both.1 both.2)

end Declaration

/-- What is stored for the parameters of each operation of the document is as it should be. -/
def Overrides (contract : Contract) : Prop :=
  List.Forall₂ (fun (declaration : Declaration) (entry : Json × Operation) =>
    declaration.Overridden contract.library.lower entry.2.params)
    contract.declarations contract.operations

/-- A path item and an operation declare one header under different spellings. -/
def Clashes (contract : Contract) : Prop :=
  ∃ declaration ∈ contract.declarations, declaration.Clashes contract.library.lower

theorem overrides_iff {library : Library} {document : List (String × Json)} {contract : Contract}
    (accepted : init library document = .ok contract) :
    contract.Overrides ↔ ¬ contract.Clashes := by
  unfold Overrides
  rw [(operations_eq accepted).1, List.forall₂_map_right_iff, List.forall₂_same]
  constructor
  · rintro overridden ⟨declaration, member, clashes⟩
    exact Declaration.overridden_iff.mp (overridden declaration member) clashes
  · intro apart declaration member
    exact Declaration.overridden_iff.mpr fun clashes => apart ⟨declaration, member, clashes⟩

end Contract

end ApiSentinel
