import ApiSentinel.Scanning
import ApiSentinel.Encoding

/-!
# JSON values in Python

The operations of Python on the values of JSON: truth values, `==`, `in`, subscripts and
the methods of dictionaries, each with the exception it raises on a value of another type.
A dictionary is its list of items in insertion order.
-/

namespace ApiSentinel

def keyError (key : String) : Raised := ⟨"KeyError", false, "'" ++ key ++ "'"⟩

def indexError : Raised := ⟨"IndexError", false, "list index out of range"⟩

def typeError (message : String) : Raised := ⟨"TypeError", false, message⟩

def attributeError (type method : String) : Raised :=
  ⟨"AttributeError", false, "'" ++ type ++ "' object has no attribute '" ++ method ++ "'"⟩

/-! ### Exceptions -/

theorem except_bind_eq_ok {Error First Second : Type} {value : Except Error First}
    {next : First → Except Error Second} {result : Second} :
    (value >>= next) = .ok result ↔ ∃ middle, value = .ok middle ∧ next middle = .ok result := by
  cases value with
  | error error => exact ⟨fun ok => (by cases ok), fun ⟨_, ok, _⟩ => (by cases ok)⟩
  | ok middle => exact ⟨fun ok => ⟨middle, rfl, ok⟩, fun ⟨_, same, ok⟩ => Except.ok.inj same ▸ ok⟩

theorem except_bind_eq_error {Error First Second : Type} {value : Except Error First}
    {next : First → Except Error Second} {error : Error} :
    (value >>= next) = .error error ↔
      value = .error error ∨ ∃ middle, value = .ok middle ∧ next middle = .error error := by
  cases value with
  | error other =>
      constructor
      · intro failed
        cases failed
        exact .inl rfl
      · rintro (failed | ⟨middle, ok, _⟩)
        · cases failed
          rfl
        · cases ok
  | ok middle =>
      constructor
      · intro failed
        exact .inr ⟨middle, rfl, failed⟩
      · rintro (failed | ⟨_, same, failed⟩)
        · cases failed
        · cases same
          exact failed

/-- Going on alike from the result that there is. -/
theorem except_bind_congr {Error First Second : Type} {value : Except Error First}
    {next last : First → Except Error Second}
    (same : ∀ result, value = .ok result → next result = last result) :
    value >>= next = value >>= last := by
  cases value with
  | error error => rfl
  | ok result => exact same result rfl

/-- The same exception, or results that are related. -/
inductive AlikeOutcomes {Error First Second : Type} (related : First → Second → Prop) :
    Except Error First → Except Error Second → Prop
  | error {error} : AlikeOutcomes related (.error error) (.error error)
  | ok {one two} (same : related one two) : AlikeOutcomes related (.ok one) (.ok two)

theorem AlikeOutcomes.refl {Error Result : Type} {related : Result → Result → Prop}
    (all : ∀ result, related result result) (outcome : Except Error Result) :
    AlikeOutcomes related outcome outcome := by
  cases outcome with
  | error error => exact .error
  | ok result => exact .ok (all result)

theorem AlikeOutcomes.eq {Error Result : Type} {one two : Except Error Result}
    (alike : AlikeOutcomes Eq one two) : one = two := by
  cases alike with
  | error => rfl
  | ok same => rw [same]

theorem AlikeOutcomes.bind {Error First Second Third Fourth : Type}
    {related : First → Second → Prop} {final : Third → Fourth → Prop}
    {one : Except Error First} {two : Except Error Second} {next : First → Except Error Third}
    {last : Second → Except Error Fourth} (alike : AlikeOutcomes related one two)
    (rest : ∀ result other, related result other →
      AlikeOutcomes final (next result) (last other)) :
    AlikeOutcomes final (one >>= next) (two >>= last) := by
  cases alike with
  | error => exact .error
  | ok same => exact rest _ _ same

/-! ### Operations -/

namespace Json

/-- `type(value).__name__` -/
def typeName : Json → String
  | .null => "NoneType"
  | .bool _ => "bool"
  | .int _ => "int"
  | .float _ | .nan | .infinity _ => "float"
  | .str _ => "str"
  | .arr _ => "list"
  | .obj _ => "dict"

/-- `bool(value)` -/
def truthy : Json → Bool
  | .null => false
  | .bool value => value
  | .int value => value != 0
  | .float value => value != 0
  | .nan | .infinity _ => true
  | .str value => value != ""
  | .arr items => !items.isEmpty
  | .obj members => !members.isEmpty

/-- The number that a boolean, an integer or a finite float is to `==`. -/
def number? : Json → Option Rat
  | .bool value => some (if value then 1 else 0)
  | .int value => some value
  | .float value => some value
  | _ => none

mutual

/-- Python's `==`: numbers are compared by value whatever their types, and dictionaries
whatever the order of their keys. -/
def equals : Json → Json → Bool
  | .null, .null => true
  | .str value, .str other => value == other
  | .infinity sign, .infinity other => sign == other
  | .arr items, .arr others => equalsItems items others
  | .obj members, .obj others =>
      members.length == others.length && equalsMembers members others
  | value, other =>
      match value.number?, other.number? with
      | some number, some same => number == same
      | _, _ => false

def equalsItems : List Json → List Json → Bool
  | [], [] => true
  | value :: items, other :: others => equals value other && equalsItems items others
  | _, _ => false

def equalsMembers : List (String × Json) → List (String × Json) → Bool
  | [], _ => true
  | (key, value) :: members, others =>
      (match others.lookup key with
        | some other => equals value other
        | none => false) && equalsMembers members others

end

/-- `key in value` -/
def contains (key : String) : Json → Except Raised Bool
  | .obj members => .ok (members.lookup key).isSome
  | .arr items => .ok (items.any (equals (.str key)))
  | .str text => .ok !(Scanning.findAll (Scanning.literal key.toList) text.toList).isEmpty
  | value => .error (typeError ("argument of type '" ++ value.typeName ++ "' is not iterable"))

/-- `value[key]` -/
def getItem (key : String) : Json → Except Raised Json
  | .obj members => ((members.lookup key).map .ok).getD (.error (keyError key))
  | .arr _ => .error (typeError "list indices must be integers or slices, not str")
  | .str _ => .error (typeError "string indices must be integers, not 'str'")
  | value => .error (typeError ("'" ++ value.typeName ++ "' object is not subscriptable"))

/-- `value.get(key, default)` -/
def get (value : Json) (key : String) (default : Json) : Except Raised Json :=
  match value with
  | .obj members => .ok ((members.lookup key).getD default)
  | value => .error (attributeError value.typeName "get")

/-- `value.items()` -/
def items : Json → Except Raised (List (String × Json))
  | .obj members => .ok members
  | value => .error (attributeError value.typeName "items")

/-- The elements of `value + other` in a `for` loop. -/
def concat : Json → Json → Except Raised (List Json)
  | .arr items, .arr others => .ok (items ++ others)
  | .str text, .str other =>
      .ok ((text ++ other).toList.map (fun symbol => .str (String.singleton symbol)))
  | .arr _, other =>
      .error (typeError ("can only concatenate list (not \"" ++ other.typeName ++ "\") to list"))
  | .str _, other =>
      .error (typeError ("can only concatenate str (not \"" ++ other.typeName ++ "\") to str"))
  | value, other =>
      -- Two numbers have a sum, which is not iterable.
      .error (typeError ("'" ++ value.typeName ++ "' and '" ++ other.typeName ++
        "' give nothing to iterate"))

/-- The text of a value that can be printed, given the spelling of floats, lists and
dictionaries. -/
def toStr (repr : Json → String) : Json → String
  | .null => "None"
  | .bool true => "True"
  | .bool false => "False"
  | .int value => toString value
  | .str value => value
  | value => repr value

/-- `str(value)` -/
def spell (repr : Json → String) (value : Json) : Except Raised String :=
  if value.printable then .ok (value.toStr repr) else .error tooManyDigits

end Json

/-! ### Results -/

theorem mem_of_lookup {Value : Type} {key : String} {value : Value}
    {entries : List (String × Value)} (found : entries.lookup key = some value) :
    (key, value) ∈ entries := by
  obtain ⟨before, after, rfl, _⟩ := List.lookup_eq_some_iff.mp found
  exact List.mem_append_right before List.mem_cons_self

namespace Json

theorem get_eq_ok_iff {key : String} {default value result : Json} :
    value.get key default = .ok result ↔
      ∃ members, value = .obj members ∧ result = (members.lookup key).getD default := by
  cases value <;> simp [get, eq_comm]

theorem getItem_eq_ok_iff {key : String} {value result : Json} :
    value.getItem key = .ok result ↔
      ∃ members, value = .obj members ∧ members.lookup key = some result := by
  cases value with
  | obj members => cases located : members.lookup key <;> simp [getItem, located]
  | null | bool | int | float | nan | infinity | str | arr => simp [getItem]

theorem spell_eq_ok_iff {repr : Json → String} {value : Json} {text : String} :
    value.spell repr = .ok text ↔ value.printable = true ∧ text = value.toStr repr := by
  unfold spell
  split <;> simp [*, eq_comm]

theorem items_eq_ok_iff {value : Json} {members : List (String × Json)} :
    value.items = .ok members ↔ value = .obj members := by
  cases value <;> simp [items]

end Json

end ApiSentinel
