import Mathlib.Data.List.Basic
import Mathlib.Data.List.DropRight

/-!
# Numerals of Python and of JSON

The texts that `int` and `float` convert, by their documented grammars over any tables of
decimal digits and white space, and the numbers of JSON.  Every number of JSON is such a
text.  The others can be told by a mark that JSON does not allow.
-/

namespace Numerals

/-- What the conversions know of the characters.  On ASCII the tables are fixed. -/
structure Alphabet where
  space : Char → Bool
  /-- The value of a decimal digit. -/
  digit : Char → Option Nat
  digit_of_isDigit : ∀ symbol, symbol.isDigit = true →
    digit symbol = some (symbol.toNat - '0'.toNat)
  digit_of_ascii : ∀ symbol, symbol.toNat < 128 → symbol.isDigit = false → digit symbol = none
  space_of_visible : ∀ symbol, 32 < symbol.toNat → symbol.toNat < 127 → space symbol = false

/-- A numeral after its sign. -/
def unsigned : List Char → List Char
  | '+' :: rest => rest
  | '-' :: rest => rest
  | text => text

def withoutMinus : List Char → List Char
  | '-' :: rest => rest
  | text => text

/-- `("e" | "E") [sign] part` -/
def Exponent (part : List Char → Prop) (text : List Char) : Prop :=
  ∃ mark rest, text = mark :: rest ∧ (mark = 'e' ∨ mark = 'E') ∧ part (unsigned rest)

/-! ### JSON -/

/-- One or more ASCII digits. -/
def Digits (text : List Char) : Prop := text ≠ [] ∧ ∀ symbol ∈ text, symbol.isDigit = true

/-- `int = zero / ( digit1-9 *DIGIT )` -/
inductive JsonInt : List Char → Prop
  | zero : JsonInt ['0']
  | positive {first rest} (digit : first.isDigit = true) (nonzero : first ≠ '0')
      (more : ∀ symbol ∈ rest, symbol.isDigit = true) : JsonInt (first :: rest)

/-- `[ frac ]` -/
inductive JsonFraction : List Char → Prop
  | none : JsonFraction []
  | some {part} (digits : Digits part) : JsonFraction ('.' :: part)

/-- `[ minus ] int` -/
def JsonInteger (text : List Char) : Prop := JsonInt (withoutMinus text)

/-- `[ minus ] int [ frac ] [ exp ]` -/
def JsonNumber (text : List Char) : Prop :=
  ∃ whole fraction exponent, withoutMinus text = whole ++ (fraction ++ exponent) ∧
    JsonInt whole ∧ JsonFraction fraction ∧ (exponent = [] ∨ Exponent Digits exponent)

/-- The integer that a literal denotes. -/
def jsonValue (text : List Char) : Int :=
  if text.head? = some '-' then -(Nat.ofDigitChars 10 (withoutMinus text) 0 : Int)
  else (Nat.ofDigitChars 10 (withoutMinus text) 0 : Int)

namespace Alphabet

variable (alphabet : Alphabet)

/-! ### Python -/

/-- A text without the white space around it. -/
def strip (text : List Char) : List Char :=
  (text.dropWhile alphabet.space).rdropWhile alphabet.space

/-- `digit (["_"] digit)*` -/
def DigitPart (text : List Char) : Prop :=
  ∀ part ∈ text.splitOn '_', part ≠ [] ∧ ∀ symbol ∈ part, (alphabet.digit symbol).isSome

instance (text : List Char) : Decidable (alphabet.DigitPart text) :=
  decidable_of_iff ((text.splitOn '_').all (fun part =>
    part ≠ [] && part.all (fun symbol => (alphabet.digit symbol).isSome)) = true) (by
      simp [DigitPart, List.all_eq_true])

/-- What `int` converts: a digit part, after a sign or not. -/
def IntLiteral (text : List Char) : Prop := alphabet.DigitPart (unsigned (alphabet.strip text))

def digits (text : List Char) : List Nat :=
  (unsigned (alphabet.strip text)).filterMap alphabet.digit

/-- A text with no more digits than the interpreter converts, 0 being no limit. -/
def Within (limit : Nat) (text : List Char) : Prop :=
  limit = 0 ∨ (alphabet.digits text).length ≤ limit

def value (digits : List Nat) : Nat := digits.foldl (fun value digit => 10 * value + digit) 0

/-- `int(text)`, unless it raises `ValueError` -/
def int? (limit : Nat) (text : List Char) : Option Int :=
  if alphabet.DigitPart (unsigned (alphabet.strip text)) ∧
      (limit = 0 ∨ (alphabet.digits text).length ≤ limit) then
    some (if (alphabet.strip text).head? = some '-' then -(value (alphabet.digits text) : Int)
      else (value (alphabet.digits text) : Int))
  else none

/-- `[digitpart] "." digitpart | digitpart ["."]` -/
inductive Number : List Char → Prop
  | point {whole fraction} (before : whole = [] ∨ alphabet.DigitPart whole)
      (after : alphabet.DigitPart fraction) : Number (whole ++ '.' :: fraction)
  | ended {whole} (before : alphabet.DigitPart whole) : Number (whole ++ ['.'])
  | plain {whole} (before : alphabet.DigitPart whole) : Number whole

/-- The infinities and the values that are no number, in any case. -/
def Word (text : List Char) : Prop :=
  text.map Char.toLower ∈ ["inf".toList, "infinity".toList, "nan".toList]

/-- What `float` converts: `[sign] (floatnumber | infinity | nan)`. -/
def FloatLiteral (text : List Char) : Prop :=
  Word (unsigned (alphabet.strip text)) ∨
    ∃ number exponent, unsigned (alphabet.strip text) = number ++ exponent ∧
      alphabet.Number number ∧ (exponent = [] ∨ Exponent alphabet.DigitPart exponent)

/-! ### What JSON does not allow -/

/-- A mark that no number of JSON has. -/
inductive Foreign (text : List Char) : Prop
  | white {symbol} (member : symbol ∈ text) (space : alphabet.space symbol = true)
  | plus {rest} (starts : text = '+' :: rest)
  | underscore (member : '_' ∈ text)
  /-- A decimal digit outside ASCII. -/
  | digit {symbol} (member : symbol ∈ text) (decimal : (alphabet.digit symbol).isSome = true)
      (other : symbol.isDigit = false)
  /-- A leading zero. -/
  | zero {next rest} (starts : withoutMinus text = '0' :: next :: rest)
      (more : next.isDigit = true)
  /-- A point without a digit before or after it. -/
  | point {before after} (same : text = before ++ '.' :: after)
      (alone : ¬ (before.getLast?.any Char.isDigit = true ∧
        after.head?.any Char.isDigit = true))
  /-- A letter of an infinity or of `nan`. -/
  | word (member : 'n' ∈ text ∨ 'N' ∈ text)

/-! ### The characters of a numeral of JSON -/

/-- The characters that numbers of JSON are made of. -/
def Plain (text : List Char) : Prop :=
  ∀ symbol ∈ text, symbol.isDigit = true ∨ symbol ∈ ['+', '-', '.', 'e', 'E']

variable {alphabet} {text : List Char}

theorem digit_of_mark {mark : Char} (member : mark ∈ ['+', '-', '.', 'e', 'E']) :
    alphabet.digit mark = none := by
  have table : ∀ mark ∈ ['+', '-', '.', 'e', 'E'], mark.toNat < 128 ∧ mark.isDigit = false := by
    simp
  exact alphabet.digit_of_ascii mark (table mark member).1 (table mark member).2

theorem space_of_plain {symbol : Char}
    (plain : symbol.isDigit = true ∨ symbol ∈ ['+', '-', '.', 'e', 'E']) :
    alphabet.space symbol = false := by
  have visible : 32 < symbol.toNat ∧ symbol.toNat < 127 := by
    rcases plain with digit | mark
    · rw [Char.isDigit_iff_toNat] at digit
      have low : 48 ≤ symbol.toNat := digit.1
      have high : symbol.toNat ≤ 57 := digit.2
      omega
    · have table : ∀ mark ∈ ['+', '-', '.', 'e', 'E'], 32 < mark.toNat ∧ mark.toNat < 127 := by
        simp
      exact table symbol mark
  exact alphabet.space_of_visible symbol visible.1 visible.2

theorem isSome_digit_of_isDigit {symbol : Char} (digit : symbol.isDigit = true) :
    (alphabet.digit symbol).isSome = true := by
  rw [alphabet.digit_of_isDigit symbol digit]
  rfl

theorem strip_eq_self (bare : ∀ symbol ∈ text, alphabet.space symbol = false) :
    alphabet.strip text = text := by
  unfold strip
  have start : text.dropWhile alphabet.space = text := by
    rw [List.dropWhile_eq_self_iff]
    intro nonempty
    simp [bare _ (List.getElem_mem nonempty)]
  rw [start, List.rdropWhile_eq_self_iff]
  intro nonempty
  simp [bare _ (List.getLast_mem nonempty)]

theorem strip_of_plain (plain : Plain text) : alphabet.strip text = text :=
  strip_eq_self fun symbol member => space_of_plain (plain symbol member)

/-- Of the marks, only a plus sign, a leading zero and a lone point may be in a text of
plain characters. -/
theorem not_foreign_of_plain (plain : Plain text) (plus : ∀ rest, text ≠ '+' :: rest)
    (zero : ∀ next rest, withoutMinus text = '0' :: next :: rest → next.isDigit = false)
    (point : ∀ before after, text = before ++ '.' :: after →
      before.getLast?.any Char.isDigit = true ∧ after.head?.any Char.isDigit = true) :
    ¬ alphabet.Foreign text := by
  rintro (⟨member, space⟩ | starts | member | ⟨member, decimal, other⟩ | ⟨starts, more⟩ |
    ⟨same, alone⟩ | member)
  · rw [space_of_plain (plain _ member)] at space
    cases space
  · exact plus _ starts
  · exact absurd (plain _ member) (by decide)
  · rcases plain _ member with digit | mark
    · cases digit.symm.trans other
    · rw [digit_of_mark mark] at decimal
      cases decimal
  · rw [zero _ _ starts] at more
    cases more
  · exact alone (point _ _ same)
  · rcases member with member | member <;> exact absurd (plain _ member) (by decide)

end Alphabet

/-! ### The parts of a numeral of JSON -/

theorem mem_of_mem_withoutMinus {text : List Char} {symbol : Char}
    (member : symbol ∈ withoutMinus text) : symbol ∈ text := by
  unfold withoutMinus at member
  split at member
  · exact List.mem_cons_of_mem _ member
  · exact member

theorem eq_withoutMinus (text : List Char) :
    text = withoutMinus text ∨ text = '-' :: withoutMinus text := by
  unfold withoutMinus
  split
  · exact .inr rfl
  · exact .inl rfl

theorem JsonInt.digits {text : List Char} (whole : JsonInt text) : Digits text := by
  cases whole with
  | zero => exact ⟨by simp, by simp⟩
  | positive digit nonzero more => exact ⟨by simp, List.forall_mem_cons.mpr ⟨digit, more⟩⟩

/-- The digits of an integer of JSON have no leading zero. -/
theorem jsonInt_iff {text : List Char} :
    JsonInt text ↔ Digits text ∧ ∀ next rest, text ≠ '0' :: next :: rest := by
  constructor
  · intro whole
    refine ⟨whole.digits, ?_⟩
    rintro next rest rfl
    cases whole with
    | positive digit nonzero more => exact nonzero rfl
  · rintro ⟨⟨nonempty, digits⟩, zero⟩
    obtain ⟨first, rest, rfl⟩ := List.exists_cons_of_ne_nil nonempty
    rw [List.forall_mem_cons] at digits
    by_cases same : first = '0'
    · subst first
      cases rest with
      | nil => exact .zero
      | cons next rest => exact absurd rfl (zero next rest)
    · exact .positive digits.1 same digits.2

theorem JsonInteger.characters {text : List Char} (literal : JsonInteger text) :
    ∀ symbol ∈ text, symbol.isDigit = true ∨ symbol = '-' := by
  have digits := (JsonInt.digits literal).2
  intro symbol member
  rcases eq_withoutMinus text with same | same
  · rw [same] at member
    exact .inl (digits symbol member)
  · rw [same] at member
    rcases List.mem_cons.mp member with minus | later
    · exact .inr minus
    · exact .inl (digits symbol later)

theorem unsigned_eq_withoutMinus {text : List Char} (plus : ∀ rest, text ≠ '+' :: rest) :
    unsigned text = withoutMinus text := by
  unfold unsigned withoutMinus
  split
  · exact absurd rfl (plus _)
  · rfl
  · rename_i minus
    split
    · exact absurd rfl (minus _)
    · rfl

theorem mem_of_mem_unsigned {text : List Char} {symbol : Char}
    (member : symbol ∈ unsigned text) : symbol ∈ text := by
  unfold unsigned at member
  split at member
  · exact List.mem_cons_of_mem _ member
  · exact List.mem_cons_of_mem _ member
  · exact member

theorem mem_unsigned_or {text : List Char} {symbol : Char} (member : symbol ∈ text) :
    symbol ∈ unsigned text ∨ symbol = '+' ∨ symbol = '-' := by
  unfold unsigned
  split
  · rcases List.mem_cons.mp member with same | later
    · exact .inr (.inl same)
    · exact .inl later
  · rcases List.mem_cons.mp member with same | later
    · exact .inr (.inr same)
    · exact .inl later
  · exact .inl member

namespace Alphabet

variable {alphabet : Alphabet} {text : List Char}

theorem digitPart_of_digits (digits : Digits text) : alphabet.DigitPart text := by
  have free : '_' ∉ text := fun member => absurd (digits.2 _ member) (by decide)
  unfold DigitPart
  rw [List.splitOn_eq_singleton free]
  intro part member
  rw [List.mem_singleton.mp member]
  exact ⟨digits.1, fun symbol inside => isSome_digit_of_isDigit (digits.2 symbol inside)⟩

theorem exponent_of_digits (exponent : Exponent Digits text) :
    Exponent alphabet.DigitPart text := by
  obtain ⟨mark, rest, same, letter, digits⟩ := exponent
  exact ⟨mark, rest, same, letter, digitPart_of_digits digits⟩

/-! ### Texts without a foreign mark -/

section Kept

variable (kept : ¬ alphabet.Foreign text)

include kept

theorem strip_of_kept : alphabet.strip text = text := by
  apply strip_eq_self
  intro symbol member
  by_contra space
  exact kept (.white member (by simpa using space))

theorem unsigned_of_kept : unsigned text = withoutMinus text :=
  unsigned_eq_withoutMinus fun _ starts => kept (.plus starts)

/-- A digit part inside such a text consists of ASCII digits. -/
theorem digits_of_kept {part : List Char} (inside : ∀ symbol ∈ part, symbol ∈ text)
    (digits : alphabet.DigitPart part) : Digits part := by
  have free : '_' ∉ part := fun member => kept (.underscore (inside _ member))
  unfold DigitPart at digits
  rw [List.splitOn_eq_singleton free] at digits
  obtain ⟨nonempty, decimal⟩ := digits part List.mem_cons_self
  refine ⟨nonempty, ?_⟩
  intro symbol member
  by_contra other
  exact kept (.digit (inside symbol member) (decimal symbol member) (by simpa using other))

theorem jsonInt_of_kept {whole rest : List Char} (starts : withoutMinus text = whole ++ rest)
    (digits : Digits whole) : JsonInt whole := by
  rw [jsonInt_iff]
  refine ⟨digits, ?_⟩
  rintro next more rfl
  exact kept (.zero starts (digits.2 next (by simp)))

end Kept

/-! ### Integers -/

/-- The integers of JSON are the texts for `int` without a foreign mark. -/
theorem jsonInteger_iff :
    JsonInteger text ↔ alphabet.IntLiteral text ∧ ¬ alphabet.Foreign text := by
  constructor
  · intro literal
    have characters := literal.characters
    have plus : ∀ rest, text ≠ '+' :: rest := by
      rintro rest rfl
      exact absurd (characters '+' List.mem_cons_self) (by decide)
    have plain : Plain text := by
      intro symbol member
      rcases characters symbol member with digit | rfl
      · exact .inl digit
      · exact .inr (by simp)
    refine ⟨?_, not_foreign_of_plain plain plus ?_ ?_⟩
    · unfold IntLiteral
      rw [strip_of_plain plain, unsigned_eq_withoutMinus plus]
      exact digitPart_of_digits (JsonInt.digits literal)
    · intro next rest starts
      exact absurd starts ((jsonInt_iff.mp literal).2 next rest)
    · rintro before after rfl
      exact absurd (characters '.' (by simp)) (by decide)
  · rintro ⟨literal, kept⟩
    unfold IntLiteral at literal
    rw [strip_of_kept kept, unsigned_of_kept kept] at literal
    have digits := digits_of_kept kept (fun _ => mem_of_mem_withoutMinus) literal
    exact jsonInt_of_kept kept (List.append_nil _).symm digits

/-- `int` gives the integer that an integer of JSON denotes, if its limit allows it. -/
theorem int?_of_jsonInteger (literal : JsonInteger text) {limit : Nat}
    (within : alphabet.Within limit text) : alphabet.int? limit text = some (jsonValue text) := by
  obtain ⟨accepted, kept⟩ := jsonInteger_iff.mp literal
  have spelled : alphabet.digits text =
      (withoutMinus text).map (fun symbol => symbol.toNat - '0'.toNat) := by
    unfold digits
    rw [strip_of_kept kept, unsigned_of_kept kept, ← List.filterMap_eq_map]
    apply List.filterMap_congr
    intro symbol member
    exact alphabet.digit_of_isDigit symbol ((JsonInt.digits literal).2 symbol member)
  have read : value (alphabet.digits text) = Nat.ofDigitChars 10 (withoutMinus text) 0 := by
    rw [spelled, value, List.foldl_map, Nat.ofDigitChars_eq_foldl]
  unfold int?
  rw [if_pos ⟨accepted, within⟩, read, strip_of_kept kept]
  rfl

theorem int?_eq_none_iff {limit : Nat} :
    alphabet.int? limit text = none ↔
      ¬ (alphabet.IntLiteral text ∧ alphabet.Within limit text) := by
  unfold int? IntLiteral Within
  split <;> simp_all

/-! ### Numbers -/

theorem characters_of_jsonNumber (literal : JsonNumber text) : Plain text := by
  obtain ⟨whole, fraction, exponent, same, int, frac, exp⟩ := literal
  intro symbol member
  have inside : symbol = '-' ∨ symbol ∈ withoutMinus text := by
    rcases eq_withoutMinus text with same | same
    · exact .inr (same ▸ member)
    · rw [same] at member
      exact List.mem_cons.mp member
  rcases inside with rfl | inside
  · exact .inr (by simp)
  · rw [same, List.mem_append, List.mem_append] at inside
    rcases inside with inside | inside | inside
    · exact .inl (int.digits.2 symbol inside)
    · cases frac with
      | none => cases inside
      | some digits =>
          rcases List.mem_cons.mp inside with rfl | later
          · exact .inr (by simp)
          · exact .inl (digits.2 symbol later)
    · rcases exp with rfl | ⟨mark, rest, rfl, letter, digits⟩
      · cases inside
      · rcases List.mem_cons.mp inside with rfl | later
        · rcases letter with rfl | rfl <;> exact .inr (by simp)
        · rcases mem_unsigned_or later with decimal | rfl | rfl
          · exact .inl (digits.2 symbol decimal)
          · exact .inr (by simp)
          · exact .inr (by simp)

theorem point_not_mem_exponent {exponent : List Char}
    (exp : exponent = [] ∨ Exponent Digits exponent) : '.' ∉ exponent := by
  intro member
  rcases exp with rfl | ⟨mark, rest, rfl, letter, digits⟩
  · cases member
  · rcases List.mem_cons.mp member with same | later
    · rcases letter with rfl | rfl <;> exact absurd same (by decide)
    · rcases mem_unsigned_or later with decimal | same | same
      · exact absurd (digits.2 _ decimal) (by decide)
      · exact absurd same (by decide)
      · exact absurd same (by decide)

/-- The only point of a number of JSON stands between digits. -/
theorem point_of_jsonNumber (literal : JsonNumber text) {before after : List Char}
    (same : text = before ++ '.' :: after) :
    before.getLast?.any Char.isDigit = true ∧ after.head?.any Char.isDigit = true := by
  obtain ⟨whole, fraction, exponent, spelled, int, frac, exp⟩ := literal
  obtain ⟨lead, minus, start⟩ : ∃ lead : List Char, '.' ∉ lead ∧
      text = lead ++ withoutMinus text := by
    rcases eq_withoutMinus text with same | same
    · exact ⟨[], by simp, same⟩
    · exact ⟨['-'], by simp, same⟩
  have wholePoint : '.' ∉ whole := fun member => absurd (int.digits.2 _ member) (by decide)
  have among : '.' ∈ text := by simp [same]
  rw [start, spelled] at among
  cases frac with
  | none => simp [minus, wholePoint, point_not_mem_exponent exp] at among
  | @some part digits =>
      have partPoint : '.' ∉ part := fun member => absurd (digits.2 _ member) (by decide)
      rw [start, spelled, ← List.append_assoc, List.cons_append] at same
      have free : '.' ∉ lead ++ whole ∧ '.' ∉ part ++ exponent := by
        simp [minus, wholePoint, partPoint, point_not_mem_exponent exp]
      obtain ⟨rfl, _, rfl⟩ := (List.append_cons_inj_of_notMem free.1 free.2).mp same
      obtain ⟨first, rest, rfl⟩ := List.exists_cons_of_ne_nil digits.1
      have last := int.digits.2 _ (List.getLast_mem int.digits.1)
      rw [List.getLast?_append_of_ne_nil _ int.digits.1,
        List.getLast?_eq_some_getLast int.digits.1]
      exact ⟨last, digits.2 first List.mem_cons_self⟩

theorem floatLiteral_of_jsonNumber (literal : JsonNumber text) (plus : ∀ rest, text ≠ '+' :: rest) :
    alphabet.FloatLiteral text := by
  unfold FloatLiteral
  rw [strip_of_plain (characters_of_jsonNumber literal), unsigned_eq_withoutMinus plus]
  obtain ⟨whole, fraction, exponent, spelled, int, frac, exp⟩ := literal
  refine .inr ⟨whole ++ fraction, exponent, by rw [spelled, List.append_assoc], ?_,
    exp.imp_right exponent_of_digits⟩
  have before : alphabet.DigitPart whole := digitPart_of_digits int.digits
  cases frac with
  | none =>
      rw [List.append_nil]
      exact .plain before
  | some digits => exact .point (.inr before) (digitPart_of_digits digits)

theorem eq_of_toLower {symbol : Char} (same : symbol.toLower = 'n') :
    symbol = 'n' ∨ symbol = 'N' := by
  unfold Char.toLower at same
  split at same
  · right
    have shifted := congrArg Char.val same
    exact Char.ext ((UInt32.add_left_inj ('a'.val - 'A'.val)).mp shifted)
  · exact .inl same

/-- Each of the words has an `n`. -/
theorem mem_of_word (word : Word text) : 'n' ∈ text ∨ 'N' ∈ text := by
  unfold Word at word
  have inside : 'n' ∈ text.map Char.toLower := by
    simp only [List.mem_cons, List.not_mem_nil, or_false] at word
    rcases word with same | same | same <;> rw [same] <;> decide
  obtain ⟨symbol, member, same⟩ := List.mem_map.mp inside
  rcases eq_of_toLower same with rfl | rfl
  · exact .inl member
  · exact .inr member

theorem exponent_of_kept (kept : ¬ alphabet.Foreign text) {exponent : List Char}
    (inside : ∀ symbol ∈ exponent, symbol ∈ text) (exp : Exponent alphabet.DigitPart exponent) :
    Exponent Digits exponent := by
  obtain ⟨mark, rest, rfl, letter, digits⟩ := exp
  refine ⟨mark, rest, rfl, letter, digits_of_kept kept ?_ digits⟩
  intro symbol member
  exact inside symbol (List.mem_cons_of_mem _ (mem_of_mem_unsigned member))

/-- A point in such a text stands between digits. -/
theorem point_of_kept (kept : ¬ alphabet.Foreign text) {before after : List Char}
    (spelled : withoutMinus text = before ++ '.' :: after) :
    before ≠ [] ∧ after.head?.any Char.isDigit = true := by
  rcases eq_withoutMinus text with same | same
  · rw [spelled] at same
    have between := not_imp_comm.mp (fun alone => Foreign.point same alone) kept
    refine ⟨?_, between.2⟩
    rintro rfl
    cases between.1
  · rw [spelled, ← List.cons_append] at same
    have between := not_imp_comm.mp (fun alone => Foreign.point same alone) kept
    refine ⟨?_, between.2⟩
    rintro rfl
    cases between.1

/-- The numbers of JSON are the texts for `float` without a foreign mark. -/
theorem jsonNumber_iff :
    JsonNumber text ↔ alphabet.FloatLiteral text ∧ ¬ alphabet.Foreign text := by
  constructor
  · intro literal
    have plus : ∀ rest, text ≠ '+' :: rest := by
      rintro rest rfl
      obtain ⟨whole, _, _, spelled, int, _⟩ := literal
      obtain ⟨first, more, rfl⟩ := List.exists_cons_of_ne_nil int.digits.1
      cases spelled
      exact absurd (int.digits.2 '+' List.mem_cons_self) (by decide)
    refine ⟨floatLiteral_of_jsonNumber literal plus,
      not_foreign_of_plain (characters_of_jsonNumber literal) plus ?_
        fun before after => point_of_jsonNumber literal⟩
    intro next rest starts
    obtain ⟨whole, fraction, exponent, spelled, int, frac, exp⟩ := literal
    rw [starts] at spelled
    cases int with
    | positive digit nonzero more =>
        rw [List.cons_append, List.cons.injEq] at spelled
        exact absurd spelled.1.symm nonzero
    | zero =>
        rw [List.singleton_append, List.cons.injEq] at spelled
        have rest := spelled.2
        cases frac with
        | some digits =>
            rw [List.cons_append, List.cons.injEq] at rest
            rw [rest.1]
            rfl
        | none =>
            rcases exp with rfl | ⟨mark, tail, rfl, letter, _⟩
            · cases rest
            · rw [List.nil_append, List.cons.injEq] at rest
              rw [rest.1]
              rcases letter with rfl | rfl <;> rfl
  · rintro ⟨literal, kept⟩
    unfold FloatLiteral at literal
    rw [strip_of_kept kept, unsigned_of_kept kept] at literal
    rcases literal with word | ⟨number, exponent, spelled, mantissa, exp⟩
    · exact (kept (.word ((mem_of_word word).imp mem_of_mem_withoutMinus
        mem_of_mem_withoutMinus))).elim
    · have inside : ∀ symbol ∈ number ++ exponent, symbol ∈ text := by
        intro symbol member
        exact mem_of_mem_withoutMinus (spelled ▸ member)
      have exp' := exp.imp_right (exponent_of_kept kept fun symbol member =>
        inside symbol (List.mem_append_right _ member))
      cases mantissa with
      | plain before =>
          have digits := digits_of_kept kept (fun symbol member =>
            inside symbol (List.mem_append_left _ member)) before
          exact ⟨number, [], exponent, spelled, jsonInt_of_kept kept spelled digits, .none, exp'⟩
      | @ended whole before =>
          rw [List.append_assoc] at spelled
          have after := (point_of_kept kept spelled).2
          rcases exp with rfl | ⟨mark, rest, rfl, rfl | rfl, _⟩
          · cases after
          · cases after
          · cases after
      | @point whole fraction before after =>
          rw [List.append_assoc] at spelled
          have wholeDigits := digits_of_kept kept (fun symbol member =>
            inside symbol (by simp [member])) (before.resolve_left (point_of_kept kept spelled).1)
          have fractionDigits := digits_of_kept kept (fun symbol member =>
            inside symbol (by simp [member])) after
          exact ⟨whole, '.' :: fraction, exponent, spelled,
            jsonInt_of_kept kept spelled wholeDigits, .some fractionDigits, exp'⟩

/-! ### The tables of Unicode -/

/-- The decimal zeros of Unicode 14.  The other digits of a script follow its zero. -/
def zeros : List Nat :=
  [0x30, 0x660, 0x6F0, 0x7C0, 0x966, 0x9E6, 0xA66, 0xAE6, 0xB66, 0xBE6, 0xC66, 0xCE6, 0xD66,
   0xDE6, 0xE50, 0xED0, 0xF20, 0x1040, 0x1090, 0x17E0, 0x1810, 0x1946, 0x19D0, 0x1A80, 0x1A90,
   0x1B50, 0x1BB0, 0x1C40, 0x1C50, 0xA620, 0xA8D0, 0xA900, 0xA9D0, 0xA9F0, 0xAA50, 0xABF0,
   0xFF10, 0x104A0, 0x10D30, 0x11066, 0x110F0, 0x11136, 0x111D0, 0x112F0, 0x11450, 0x114D0,
   0x11650, 0x116C0, 0x11730, 0x118E0, 0x11950, 0x11C50, 0x11D50, 0x11DA0, 0x16A60, 0x16AC0,
   0x16B50, 0x1D7CE, 0x1D7D8, 0x1D7E2, 0x1D7EC, 0x1D7F6, 0x1E140, 0x1E2F0, 0x1E950, 0x1FBF0]

/-- The white space that the conversions strip.  The separators from U+001C to U+001F do not
count as such here. -/
def spaces : List Nat :=
  [0x9, 0xA, 0xB, 0xC, 0xD, 0x20, 0x85, 0xA0, 0x1680, 0x2000, 0x2001, 0x2002, 0x2003, 0x2004,
   0x2005, 0x2006, 0x2007, 0x2008, 0x2009, 0x200A, 0x2028, 0x2029, 0x202F, 0x205F, 0x3000]

def decimal (symbol : Char) : Option Nat :=
  (zeros.find? (fun first => first ≤ symbol.toNat && symbol.toNat < first + 10)).map
    (fun first => symbol.toNat - first)

def unicode : Alphabet where
  space symbol := spaces.contains symbol.toNat
  digit := decimal
  digit_of_isDigit := by
    intro symbol digit
    rw [Char.isDigit_iff_toNat] at digit
    have low : 48 ≤ symbol.toNat := digit.1
    have high : symbol.toNat < 48 + 10 := Nat.lt_succ_of_le digit.2
    unfold decimal zeros
    rw [List.find?_cons_of_pos (by simp [low, high])]
    rfl
  digit_of_ascii := by
    intro symbol ascii other
    have table : ∀ first ∈ zeros, first = 48 ∨ 128 ≤ first := by decide
    have outside : ¬ (48 ≤ symbol.toNat ∧ symbol.toNat ≤ 57) := by
      intro inside
      cases other.symm.trans (Char.isDigit_iff_toNat.mpr inside)
    unfold decimal
    rw [Option.map_eq_none_iff, List.find?_eq_none]
    intro first member
    have position := table first member
    simp only [Bool.and_eq_true, decide_eq_true_eq]
    omega
  space_of_visible := by
    intro symbol low high
    have table : ∀ space ∈ spaces, space ≤ 32 ∨ 127 ≤ space := by decide
    rw [List.contains_eq_mem, decide_eq_false_iff_not]
    intro member
    have position := table _ member
    omega

end Alphabet

end Numerals
