import Mathlib.Data.List.Basic

/-!
# Percent-encoding

Texts in which only unreserved characters and percent escapes occur.  Every other byte of
the UTF-8 form is escaped, and decoding gives the text back.
-/

namespace PercentEncoding

/-- The ASCII letters and digits, `_`, `.`, `-` and `~`. -/
def unreserved (symbol : Char) : Bool :=
  symbol.isAlphanum || symbol == '_' || symbol == '.' || symbol == '-' || symbol == '~'

def hexDigit (value : Nat) : Char :=
  if value < 10 then Char.ofNat (48 + value) else Char.ofNat (55 + value)

def hexValue? (symbol : Char) : Option Nat :=
  if '0' ≤ symbol ∧ symbol ≤ '9' then some (symbol.toNat - 48)
  else if 'A' ≤ symbol ∧ symbol ≤ 'F' then some (symbol.toNat - 55)
  else if 'a' ≤ symbol ∧ symbol ≤ 'f' then some (symbol.toNat - 87)
  else none

def encodeByte (byte : UInt8) : List Char :=
  if unreserved (Char.ofNat byte.toNat) then [Char.ofNat byte.toNat]
  else ['%', hexDigit (byte.toNat / 16), hexDigit (byte.toNat % 16)]

/-- `quote(text, safe="")` -/
def quote (text : List Char) : List Char :=
  (text.flatMap String.utf8EncodeChar).flatMap encodeByte

/-- The bytes that a text with percent escapes denotes. -/
def decodeBytes : List Char → List UInt8
  | [] => []
  | '%' :: high :: low :: rest =>
      match hexValue? high, hexValue? low with
      | some upper, some lower => UInt8.ofNat (16 * upper + lower) :: decodeBytes rest
      | _, _ => 37 :: decodeBytes (high :: low :: rest)
  | symbol :: rest => String.utf8EncodeChar symbol ++ decodeBytes rest

/-- `unquote(text)`, where the bytes are the UTF-8 form of a text. -/
def unquote? (text : List Char) : Option (List Char) :=
  (decodeBytes text).toByteArray.utf8Decode?.map Array.toList

/-- Texts of unreserved characters and percent escapes. -/
inductive Escaped : List Char → Prop
  | nil : Escaped []
  | plain {symbol rest} (free : unreserved symbol = true) (tail : Escaped rest) :
      Escaped (symbol :: rest)
  | escape {high low rest} (upper : (hexValue? high).isSome) (lower : (hexValue? low).isSome)
      (tail : Escaped rest) : Escaped ('%' :: high :: low :: rest)

theorem Escaped.append {text other : List Char} (left : Escaped text) (right : Escaped other) :
    Escaped (text ++ other) := by
  induction left with
  | nil => exact right
  | plain free _ ih => exact .plain free ih
  | escape upper lower _ ih => exact .escape upper lower ih

theorem hexValue?_hexDigit : ∀ value < 16, hexValue? (hexDigit value) = some value := by decide

/-- Neither an unreserved character nor a part of an escape. -/
def delimiter (symbol : Char) : Bool :=
  !unreserved symbol && symbol != '%' && !(hexValue? symbol).isSome

theorem Escaped.not_mem {text : List Char} (escaped : Escaped text) {symbol : Char}
    (separates : delimiter symbol = true) : symbol ∉ text := by
  unfold delimiter at separates
  induction escaped with
  | nil => exact List.not_mem_nil
  | plain free _ ih =>
      rintro (_ | ⟨_, later⟩)
      · simp [free] at separates
      · exact ih later
  | escape upper lower _ ih =>
      rintro (_ | ⟨_, _ | ⟨_, _ | ⟨_, later⟩⟩⟩)
      · simp at separates
      · simp [upper] at separates
      · simp [lower] at separates
      · exact ih later

theorem escaped_encodeByte (byte : UInt8) : Escaped (encodeByte byte) := by
  unfold encodeByte
  split
  · rename_i free
    exact .plain free .nil
  · have bound := byte.toNat_lt
    refine .escape ?_ ?_ .nil
    · rw [hexValue?_hexDigit _ (by omega)]
      rfl
    · rw [hexValue?_hexDigit _ (by omega)]
      rfl

theorem escaped_quote (text : List Char) : Escaped (quote text) := by
  unfold quote
  induction text.flatMap String.utf8EncodeChar with
  | nil => exact .nil
  | cons byte bytes ih =>
      rw [List.flatMap_cons]
      exact (escaped_encodeByte byte).append ih

theorem utf8EncodeChar_of_unreserved {byte : UInt8}
    (free : unreserved (Char.ofNat byte.toNat) = true) :
    String.utf8EncodeChar (Char.ofNat byte.toNat) = [byte] := by
  have table : ∀ value < 256, unreserved (Char.ofNat value) = true →
      String.utf8EncodeChar (Char.ofNat value) = [UInt8.ofNat value] := by decide +kernel
  have spelled := table byte.toNat byte.toNat_lt free
  rwa [UInt8.ofNat_toNat] at spelled

theorem decodeBytes_encodeByte (byte : UInt8) (rest : List Char) :
    decodeBytes (encodeByte byte ++ rest) = byte :: decodeBytes rest := by
  unfold encodeByte
  split
  · rename_i free
    have percent : Char.ofNat byte.toNat ≠ '%' := by
      intro same
      rw [same] at free
      revert free
      decide
    rw [List.singleton_append, decodeBytes, utf8EncodeChar_of_unreserved free]
    · rfl
    · intro high low tail same
      exact absurd same percent
  · have bound := byte.toNat_lt
    simp only [List.cons_append, List.nil_append, decodeBytes]
    rw [hexValue?_hexDigit _ (by omega), hexValue?_hexDigit _ (by omega)]
    have whole : 16 * (byte.toNat / 16) + byte.toNat % 16 = byte.toNat := Nat.div_add_mod ..
    dsimp only
    rw [whole, UInt8.ofNat_toNat]

theorem decodeBytes_quote (text : List Char) :
    decodeBytes (quote text) = text.flatMap String.utf8EncodeChar := by
  unfold quote
  induction text.flatMap String.utf8EncodeChar with
  | nil => rfl
  | cons byte bytes ih => rw [List.flatMap_cons, decodeBytes_encodeByte, ih]

theorem unquote?_quote (text : List Char) : unquote? (quote text) = some text := by
  have encoded : (text.flatMap String.utf8EncodeChar).toByteArray = text.utf8Encode := rfl
  unfold unquote?
  rw [decodeBytes_quote, encoded, List.utf8Decode?_utf8Encode]
  rfl

theorem quote_eq_nil_iff {text : List Char} : quote text = [] ↔ text = [] := by
  constructor
  · intro empty
    have decoded := unquote?_quote text
    rw [empty] at decoded
    have nothing := unquote?_quote []
    exact (Option.some.inj (nothing.symm.trans decoded)).symm
  · rintro rfl
    rfl

end PercentEncoding
