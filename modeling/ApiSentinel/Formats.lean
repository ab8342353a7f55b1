import Mathlib.Data.List.Basic

/-!
# Values with a document form

A format writes values as documents and reads documents back as values.  What it
reads is valid, and a valid value reads back from what was written of it.  Formats
of lists, of optional values and of checked values are made of simpler ones, and the
members of a record are read by their keys.
-/

structure Format (Doc Value : Type) where
  write : Value → Doc
  read : Doc → Option Value
  Valid : Value → Prop
  reads_back : ∀ {value}, Valid value → read (write value) = some value
  valid_of_read : ∀ {document value}, read document = some value → Valid value

namespace Format

variable {Doc Value Key : Type} (format : Format Doc Value)

theorem mapM_write {values : List Value} (valid : ∀ value ∈ values, format.Valid value) :
    (values.map format.write).mapM format.read = some values := by
  induction values with
  | nil => rfl
  | cons value values ih =>
      rw [List.map_cons, List.mapM_cons, format.reads_back (valid value List.mem_cons_self),
        ih (fun other member => valid other (List.mem_cons_of_mem _ member))]
      rfl

theorem valid_of_mapM {documents : List Doc} {values : List Value}
    (read : documents.mapM format.read = some values) : ∀ value ∈ values, format.Valid value := by
  induction documents generalizing values with
  | nil =>
      cases read
      simp
  | cons document documents ih =>
      rw [List.mapM_cons] at read
      simp only [Option.bind_eq_bind, Option.bind_eq_some_iff, Option.pure_def,
        Option.some.injEq] at read
      obtain ⟨first, head, rest, tail, rfl⟩ := read
      intro value member
      rcases List.mem_cons.mp member with rfl | later
      · exact format.valid_of_read head
      · exact ih tail value later

/-- A list of documents for a list of values. -/
def items : Format (List Doc) (List Value) where
  write values := values.map format.write
  read documents := documents.mapM format.read
  Valid values := ∀ value ∈ values, format.Valid value
  reads_back := format.mapM_write
  valid_of_read := format.valid_of_mapM

/-- Only the values that pass a check. -/
def checked (check : Value → Prop) [DecidablePred check] : Format Doc Value where
  write := format.write
  read document := (format.read document).filter (fun value => check value)
  Valid value := format.Valid value ∧ check value
  reads_back valid := by simp [format.reads_back valid.1, valid.2]
  valid_of_read read := by
    obtain ⟨found, passes⟩ := Option.filter_eq_some_iff.mp read
    exact ⟨format.valid_of_read found, of_decide_eq_true passes⟩

/-- A document of another kind stands for no value. -/
def orNone (isNone : Doc → Bool) (none_ : Doc) (marked : isNone none_ = true)
    (apart : ∀ value, isNone (format.write value) = false) : Format Doc (Option Value) where
  write value := (value.map format.write).getD none_
  read document := if isNone document then some none else (format.read document).map some
  Valid value := ∀ inner ∈ value, format.Valid inner
  reads_back {value} valid := by
    cases value with
    | none => simp [marked]
    | some inner => simp [apart, format.reads_back (valid inner rfl)]
  valid_of_read {document value} read := by
    intro inner held
    obtain rfl := Option.mem_def.mp held
    split at read
    · cases read
    · obtain ⟨found, same, equal⟩ := Option.map_eq_some_iff.mp read
      cases equal
      exact format.valid_of_read same

/-! ### Members of a record -/

variable [BEq Key] (members : List (Key × Doc)) (key : Key)

/-- The value of a member that has to be there. -/
def required : Option Value := (members.lookup key).bind format.read

/-- The value of a member, or its default if there is none. -/
def optional (default : Value) : Option Value :=
  match members.lookup key with
  | none => some default
  | some document => format.read document

variable {format members key} {value default : Value}

theorem valid_of_required (read : format.required members key = some value) :
    format.Valid value := by
  obtain ⟨document, _, read⟩ := Option.bind_eq_some_iff.mp read
  exact format.valid_of_read read

theorem valid_of_optional (read : format.optional members key default = some value)
    (valid : format.Valid default) : format.Valid value := by
  unfold optional at read
  split at read
  · cases read
    exact valid
  · exact format.valid_of_read read

theorem required_write (found : members.lookup key = some (format.write value))
    (valid : format.Valid value) : format.required members key = some value := by
  simp [required, found, format.reads_back valid]

theorem optional_write (found : members.lookup key = some (format.write value))
    (valid : format.Valid value) : format.optional members key default = some value := by
  simp [optional, found, format.reads_back valid]

end Format
