import ApiSentinel.Numerals
import ApiSentinel.Responses

/-!
# Numbers in headers

`coerce` takes every text that `int` or `float` converts.  Exactly the texts that have a
mark foreign to JSON, and integers with more digits than the interpreter converts, are read
otherwise than JSON reads them.
-/

namespace ApiSentinel

open Numerals

/-- What is documented of the conversions of a text. -/
structure Documented (library : Library) (alphabet : Alphabet) (limit : Nat) (text : String) :
    Prop where
  int : library.int text = alphabet.int? limit text.toList
  float : (library.float text).isSome ↔ alphabet.FloatLiteral text.toList
  type : ∀ value, library.float text = some value → value.typeName = "float"

namespace Contract

variable {contract : Contract} {text : String}

/-- A schema of a type that no text has. -/
structure NumericSchema (contract : Contract) (kind : String) (schema : Json) : Prop where
  typed : ∃ target, contract.deref schema = .ok target ∧
    target.get "type" .null = .ok (.str kind)
  rejects : ∀ text, contract.Violates schema (.str text)

/-- No header with a schema of this type passes with the text, in a request or a response. -/
structure Refused (contract : Contract) (kind text : String) : Prop where
  request : ∀ {param headers name schema}, param.getItem "name" = .ok (.str name) →
    (contract.lowerHeaders headers).lookup (contract.library.lower name) = some text →
    param.getItem "schema" = .ok schema → contract.NumericSchema kind schema →
    ∃ errors, contract.headerParamErrors param headers = .ok errors ∧ errors ≠ []
  response : ∀ {headers name raw header schema}, contract.deref raw = .ok (.obj header) →
    headers.lookup (contract.library.lower name) = some text →
    header.lookup "schema" = some schema → contract.NumericSchema kind schema →
    ∃ errors, contract.headerErrors headers (name, raw) = .ok errors ∧ errors ≠ []

/-- As an integer, the validator is given the integer of a JSON literal, and any other text
as it is. -/
structure ReadsInteger (contract : Contract) (text : String) : Prop where
  exact : (∃ value, contract.coerce text (.str "integer") = .int value) ↔
    JsonInteger text.toList
  denoted : JsonInteger text.toList →
    contract.coerce text (.str "integer") = .int (jsonValue text.toList)
  stays : ¬ JsonInteger text.toList → contract.coerce text (.str "integer") = .str text
  refused : ¬ JsonInteger text.toList → contract.Refused "integer" text

/-- As a number, the validator is given a number for a JSON literal, and any other text as
it is. -/
structure ReadsNumber (contract : Contract) (text : String) : Prop where
  exact : (contract.coerce text (.str "number")).typeName ∈ ["int", "float"] ↔
    JsonNumber text.toList
  stays : ¬ JsonNumber text.toList → contract.coerce text (.str "number") = .str text
  refused : ¬ JsonNumber text.toList → contract.Refused "number" text

/-- A text that stays a text is refused. -/
theorem refused_of_stays {kind : String} (stays : contract.coerce text (.str kind) = .str text) :
    contract.Refused kind text where
  request := by
    intro param headers name schema named sent declared numeric
    obtain ⟨target, resolved, typed⟩ := numeric.typed
    obtain ⟨errors, reported, some⟩ :=
      exists_errors_of_violates (numeric.rejects text) "request header parameter"
    refine ⟨errors, ?_, some⟩
    simp [headerParamErrors, coerced, named, sent, declared, resolved, typed, stays, reported,
      bind, Except.bind, pure, Except.pure]
  response := by
    intro headers name raw header schema resolved sent declared numeric
    obtain ⟨target, followed, typed⟩ := numeric.typed
    obtain ⟨errors, reported, some⟩ :=
      exists_errors_of_violates (numeric.rejects text) "response header"
    refine ⟨errors, ?_, some⟩
    simp [headerErrors, coerced, resolved, sent, declared, followed, typed, stays, reported,
      Json.contains, Json.getItem, bind, Except.bind, pure, Except.pure]

variable {alphabet : Alphabet} {limit : Nat}

theorem coerce_integer (documented : Documented contract.library alphabet limit text) :
    contract.coerce text (.str "integer") =
      ((alphabet.int? limit text.toList).map Json.int).getD (.str text) := by
  rw [← documented.int]
  rfl

theorem coerce_number : contract.coerce text (.str "number") =
    (contract.library.float text).getD (.str text) := rfl

theorem readsInteger_iff (documented : Documented contract.library alphabet limit text) :
    contract.ReadsInteger text ↔
      (alphabet.IntLiteral text.toList ∧ alphabet.Within limit text.toList →
        ¬ alphabet.Foreign text.toList) ∧
      (JsonInteger text.toList → alphabet.Within limit text.toList) := by
  constructor
  · intro reads
    constructor
    · intro accepted foreign
      have none : alphabet.int? limit text.toList ≠ none := by
        rw [Ne, Alphabet.int?_eq_none_iff]
        exact not_not.mpr accepted
      obtain ⟨value, read⟩ := Option.ne_none_iff_exists'.mp none
      have literal := reads.exact.mp ⟨value, by rw [coerce_integer documented, read]; rfl⟩
      exact (Alphabet.jsonInteger_iff.mp literal).2 foreign
    · intro literal
      by_contra beyond
      have none : alphabet.int? limit text.toList = none :=
        Alphabet.int?_eq_none_iff.mpr fun accepted => beyond accepted.2
      have denoted := reads.denoted literal
      rw [coerce_integer documented, none] at denoted
      cases denoted
  · rintro ⟨kept, within⟩
    have denoted (literal : JsonInteger text.toList) :
        contract.coerce text (.str "integer") = .int (jsonValue text.toList) := by
      rw [coerce_integer documented, Alphabet.int?_of_jsonInteger literal (within literal)]
      rfl
    have stays (other : ¬ JsonInteger text.toList) :
        contract.coerce text (.str "integer") = .str text := by
      have none : alphabet.int? limit text.toList = none :=
        Alphabet.int?_eq_none_iff.mpr fun accepted =>
          other (Alphabet.jsonInteger_iff.mpr ⟨accepted.1, kept accepted⟩)
      rw [coerce_integer documented, none]
      rfl
    refine ⟨⟨?_, fun literal => ⟨_, denoted literal⟩⟩, denoted, stays,
      fun other => refused_of_stays (stays other)⟩
    rintro ⟨value, read⟩
    by_contra other
    cases read.symm.trans (stays other)

theorem readsNumber_iff (documented : Documented contract.library alphabet limit text) :
    contract.ReadsNumber text ↔
      (alphabet.FloatLiteral text.toList → ¬ alphabet.Foreign text.toList) := by
  constructor
  · intro reads accepted foreign
    obtain ⟨value, read⟩ := Option.isSome_iff_exists.mp (documented.float.mpr accepted)
    have numeric : (contract.coerce text (.str "number")).typeName ∈ ["int", "float"] := by
      rw [coerce_number, read, Option.getD_some, documented.type value read]
      decide
    exact (Alphabet.jsonNumber_iff.mp (reads.exact.mp numeric)).2 foreign
  · intro kept
    have stays (other : ¬ JsonNumber text.toList) :
        contract.coerce text (.str "number") = .str text := by
      cases read : contract.library.float text with
      | none =>
          rw [coerce_number, read]
          rfl
      | some value =>
          have accepted := documented.float.mp (Option.isSome_of_eq_some read)
          exact absurd (Alphabet.jsonNumber_iff.mpr ⟨accepted, kept accepted⟩) other
    refine ⟨⟨?_, ?_⟩, stays, fun other => refused_of_stays (stays other)⟩
    · intro numeric
      by_contra other
      rw [stays other] at numeric
      simp [Json.typeName] at numeric
    · intro literal
      have accepted := (@Alphabet.jsonNumber_iff alphabet _).mp literal
      obtain ⟨value, read⟩ := Option.isSome_iff_exists.mp (documented.float.mpr accepted.1)
      rw [coerce_number, read, Option.getD_some, documented.type value read]
      decide

/-- A text is read as JSON reads it, exactly if what `int` and `float` convert of it has no
mark foreign to JSON, and the digits of a JSON integer are not too many for `int`. -/
theorem coerce_numbers (documented : Documented contract.library alphabet limit text) :
    (contract.ReadsInteger text ↔
      (alphabet.IntLiteral text.toList ∧ alphabet.Within limit text.toList →
        ¬ alphabet.Foreign text.toList) ∧
      (JsonInteger text.toList → alphabet.Within limit text.toList)) ∧
    (contract.ReadsNumber text ↔
      (alphabet.FloatLiteral text.toList → ¬ alphabet.Foreign text.toList)) :=
  ⟨readsInteger_iff documented, readsNumber_iff documented⟩

end Contract

/-! ### An integer, and texts that only Python takes for one -/

namespace Sample

/-- Converts integers, as `int` and `float` do. -/
def converting : Library where
  checkSchema _ := .ok ()
  iterErrors _ _ _ := .ok []
  int text := Alphabet.unicode.int? 4300 text.toList
  float text := (Alphabet.unicode.int? 0 text.toList).map (fun value => .float value)
  lower text := String.ofList (text.toList.map Char.toLower)
  repr _ := ""

def convertingContract : Contract where
  library := converting
  document := []

theorem jsonInteger_twelve : JsonInteger "12".toList :=
  .positive rfl (by decide) fun _ member => (by cases List.mem_singleton.mp member; rfl)

theorem jsonNumber_twelve : JsonNumber "12".toList :=
  ⟨"12".toList, [], [], rfl, jsonInteger_twelve, .none, .inl rfl⟩

theorem documented_twelve : Documented converting Alphabet.unicode 4300 "12" where
  int := rfl
  float := ⟨fun _ => (Alphabet.jsonNumber_iff.mp jsonNumber_twelve).1, fun _ => rfl⟩
  type := by
    intro value read
    cases read
    rfl

theorem not_jsonInteger_plus : ¬ JsonInteger "+7".toList := by
  intro literal
  exact absurd (literal.characters '+' (by decide)) (by decide)

end Sample

/-- The header `12` is read as it should be. -/
theorem Contract.coerce_numbers_sample :
    Sample.convertingContract.ReadsInteger "12" ∧ Sample.convertingContract.ReadsNumber "12" :=
  have reads := @Contract.coerce_numbers Sample.convertingContract _ _ _
    Sample.documented_twelve
  ⟨reads.1.mpr ⟨fun _ => (Alphabet.jsonInteger_iff.mp Sample.jsonInteger_twelve).2,
      fun _ => .inr (by decide)⟩,
    reads.2.mpr fun _ => (Alphabet.jsonNumber_iff.mp Sample.jsonNumber_twelve).2⟩

/-- The headers `+7`, ` 1_0` and `٣` are no numbers of JSON, and are given to the validator
as the integers 7, 10 and 3. -/
theorem Contract.coerce_numbers_counterexample :
    ¬ JsonInteger "+7".toList ∧
      Sample.convertingContract.coerce "+7" (.str "integer") = .int 7 ∧
      Sample.convertingContract.coerce " 1_0" (.str "integer") = .int 10 ∧
      Sample.convertingContract.coerce "٣" (.str "integer") = .int 3 ∧
      ¬ Sample.convertingContract.ReadsInteger "+7" :=
  ⟨Sample.not_jsonInteger_plus, rfl, rfl, rfl,
    fun reads => Sample.not_jsonInteger_plus (reads.exact.mp ⟨7, rfl⟩)⟩

end ApiSentinel
