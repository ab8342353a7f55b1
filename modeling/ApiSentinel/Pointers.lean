import ApiSentinel.Values
import Mathlib.Data.List.Induction

/-!
# JSON Pointers

`pointer` walks a document token by token.  It finds every location under its RFC 6901
encoding, and raises for tokens that address nothing.
-/

namespace ApiSentinel

open Scanning

def contractError (message : String) : Raised := ⟨"ContractError", true, message⟩

def pointerStart : Raised := contractError "JSON pointer must start with /"

def arrayIndex : Raised := contractError "invalid array index in JSON pointer"

/-- `re.fullmatch(r"0|[1-9][0-9]*", token)` -/
def isIndex : List Char → Bool
  | [] => false
  | first :: rest =>
      (first == '0' && rest.isEmpty) ||
        ('1' ≤ first && first ≤ '9' && rest.all (fun digit => '0' ≤ digit && digit ≤ '9'))

/-- `token.replace("~1", "/").replace("~0", "~")` -/
def unescape (token : List Char) : List Char :=
  replace ['~', '0'] ['~'] (replace ['~', '1'] ['/'] token)

/-- One iteration of the loop of `pointer`. -/
def descend (current : Json) (token : List Char) : Except Raised Json :=
  match current with
  | .arr items =>
      if isIndex token then
        match items[Nat.ofDigitChars 10 token 0]? with
        | some item => .ok item
        | none => .error indexError
      else .error arrayIndex
  | current => current.getItem (String.ofList token)

def walk : Json → List (List Char) → Except Raised Json
  | current, [] => .ok current
  | current, token :: tokens => do
      let next ← descend current (unescape token)
      walk next tokens

def pointer (document : Json) (path : String) : Except Raised Json :=
  if path = "" then .ok document
  else if path.toList.head? ≠ some '/' then
    .error pointerStart
  else walk document ((path.toList.drop 1).splitOn '/')

/-! ### Locations -/

/-- A step into an object or into an array. -/
inductive Selector
  | name (key : String)
  | index (position : Nat)
  deriving DecidableEq, Repr

/-- The reference token of a key: the name itself, or the position in decimal. -/
def Selector.token : Selector → List Char
  | .name key => key.toList
  | .index position => Nat.toDigits 10 position

/-- The values one key below a value. -/
inductive Child : Json → Selector → Json → Prop
  | member {members key child} (found : members.lookup key = some child) :
      Child (.obj members) (.name key) child
  | item {items position child} (found : items[position]? = some child) :
      Child (.arr items) (.index position) child

/-- The value at a location of a document. -/
inductive Addresses : Json → List Selector → Json → Prop
  | here {value} : Addresses value [] value
  | into {document key child location value} (step : Child document key child)
      (rest : Addresses child location value) : Addresses document (key :: location) value

/-- `~` is written `~0`, then `/` is written `~1`. -/
def escape (token : List Char) : List Char :=
  replace ['/'] ['~', '1'] (replace ['~'] ['~', '0'] token)

/-- The JSON Pointer of a list of reference tokens. -/
def encode (tokens : List (List Char)) : String :=
  String.ofList (tokens.flatMap (fun token => '/' :: escape token))

/-! ### Escaping -/

theorem escape_cons (symbol : Char) (token : List Char) :
    escape (symbol :: token) =
      (if symbol = '~' then ['~', '0'] else if symbol = '/' then ['~', '1'] else [symbol]) ++
        escape token := by
  unfold escape
  by_cases tilde : symbol = '~'
  · subst symbol
    have expanded := @replace_append _ _ ['~'] ['~', '0'] (by simp) token
    rw [List.singleton_append] at expanded
    rw [expanded, if_pos rfl]
    exact replace_block (by decide) _
  · rw [replace_cons (fun starts => tilde (List.cons_prefix_cons.mp starts).1.symm), if_neg tilde]
    by_cases slash : symbol = '/'
    · subst symbol
      have expanded := @replace_append _ _ ['/'] ['~', '1'] (by simp)
        (replace ['~'] ['~', '0'] token)
      rw [List.singleton_append] at expanded
      rw [expanded, if_pos rfl]
    · rw [replace_cons (fun starts => slash (List.cons_prefix_cons.mp starts).1.symm),
        if_neg slash]
      rfl

theorem slash_not_mem_escape (token : List Char) : '/' ∉ escape token := by
  intro member
  induction token with
  | nil => cases member
  | cons symbol token ih =>
      rw [escape_cons, List.mem_append] at member
      rcases member with first | later
      · split at first
        · revert first
          decide
        · split at first
          · revert first
            decide
          · rename_i other
            exact other (List.mem_singleton.mp first).symm
      · exact ih later

/-- Reading `~1` before `~0` undoes the two replacements in the opposite order. -/
theorem replace_escape (token : List Char) :
    replace ['~', '1'] ['/'] (escape token) = replace ['~'] ['~', '0'] token := by
  induction token with
  | nil => rfl
  | cons symbol token ih =>
      rw [escape_cons]
      by_cases tilde : symbol = '~'
      · subst symbol
        have expanded := @replace_append _ _ ['~'] ['~', '0'] (by simp) token
        rw [List.singleton_append] at expanded
        rw [if_pos rfl, expanded, List.cons_append, List.cons_append, List.nil_append]
        rw [replace_cons (by simp [List.cons_prefix_cons])]
        rw [replace_cons (by simp [List.cons_prefix_cons]), ih]
        rfl
      · rw [if_neg tilde,
          replace_cons (fun starts => tilde (List.cons_prefix_cons.mp starts).1.symm)]
        by_cases slash : symbol = '/'
        · subst symbol
          have undone := @replace_append _ _ ['~', '1'] ['/'] (by simp) (escape token)
          rw [if_pos rfl, undone, ih]
          rfl
        · rw [if_neg slash, List.singleton_append]
          rw [replace_cons (fun starts => tilde (List.cons_prefix_cons.mp starts).1.symm), ih]

theorem unescape_escape (token : List Char) : unescape (escape token) = token := by
  unfold unescape
  rw [replace_escape, replace_cancel]

/-! ### Array indices -/

theorem digitChar_of_digit {digit : Char} (low : '0' ≤ digit) (high : digit ≤ '9') :
    digit.toNat - '0'.toNat < 10 ∧ Nat.digitChar (digit.toNat - '0'.toNat) = digit := by
  have least : 48 ≤ digit.toNat := low
  have greatest : digit.toNat ≤ 57 := high
  have spelled : digit = Char.ofNat (48 + (digit.toNat - 48)) := by
    rw [Nat.add_sub_cancel' least, Char.ofNat_toNat]
  have table : ∀ value < 10, Nat.digitChar value = Char.ofNat (48 + value) := by decide
  have small : digit.toNat - 48 < 10 := by omega
  exact ⟨small, (table _ small).trans spelled.symm⟩

theorem isIndex_append {token : List Char} {digit : Char} (nonempty : token ≠ []) :
    isIndex (token ++ [digit]) = true ↔
      isIndex token = true ∧ token ≠ ['0'] ∧ '0' ≤ digit ∧ digit ≤ '9' := by
  cases token with
  | nil => exact absurd rfl nonempty
  | cons first rest =>
      by_cases zero : first = '0'
      · subst first
        have small : ¬ '1' ≤ '0' := by decide
        cases rest <;> simp [isIndex, small]
      · simp [isIndex, zero, and_assoc]

theorem isIndex_toDigits (position : Nat) : isIndex (Nat.toDigits 10 position) = true := by
  induction position using Nat.strongRecOn with
  | ind position ih =>
      by_cases single : position < 10
      · rw [Nat.toDigits_of_lt_base single]
        have table : ∀ value < 10, isIndex [Nat.digitChar value] = true := by decide
        exact table position single
      · rw [Nat.toDigits_of_base_le (by omega) (by omega), isIndex_append Nat.toDigits_ne_nil]
        refine ⟨ih _ (by omega), ?_, ?_⟩
        · intro zero
          have value := congrArg (fun digits => Nat.ofDigitChars 10 digits 0) zero
          rw [Nat.ofDigitChars_ten_toDigits] at value
          have positive : 0 < position / 10 := by omega
          exact absurd value (by simp [Nat.ofDigitChars_cons]; omega)
        · have table : ∀ value < 10, '0' ≤ Nat.digitChar value ∧ Nat.digitChar value ≤ '9' := by
            decide
          exact table _ (Nat.mod_lt _ (by omega))

/-- A token that passes the pattern is the decimal spelling of the number it denotes. -/
theorem toDigits_ofDigitChars {token : List Char} (canonical : isIndex token = true) :
    Nat.toDigits 10 (Nat.ofDigitChars 10 token 0) = token := by
  induction token using List.reverseRecOn with
  | nil => cases canonical
  | append_singleton token digit ih =>
      rw [Nat.ofDigitChars_append, Nat.ofDigitChars_cons, Nat.ofDigitChars_nil]
      by_cases empty : token = []
      · subst token
        simp only [isIndex, List.nil_append, List.all_nil, Bool.and_true, Bool.or_eq_true,
          Bool.and_eq_true, beq_iff_eq, decide_eq_true_eq, List.isEmpty_nil] at canonical
        have range : '0' ≤ digit ∧ digit ≤ '9' := by
          rcases canonical with rfl | ⟨low, high⟩
          · decide
          · exact ⟨Char.le_trans (show '0' ≤ '1' by decide) low, high⟩
        obtain ⟨small, spelled⟩ := digitChar_of_digit range.1 range.2
        rw [Nat.ofDigitChars_nil, Nat.mul_zero, Nat.zero_add, Nat.toDigits_of_lt_base small,
          spelled]
        rfl
      · obtain ⟨start, positive, low, high⟩ := (isIndex_append empty).mp canonical
        obtain ⟨small, spelled⟩ := digitChar_of_digit low high
        have leading := ih start
        have nonzero : 0 < Nat.ofDigitChars 10 token 0 := by
          rw [Nat.pos_iff_ne_zero]
          intro zero
          rw [zero, Nat.toDigits_zero] at leading
          exact positive leading.symm
        rw [← Nat.toDigits_append_toDigits (by omega) nonzero small, leading,
          Nat.toDigits_of_lt_base small, spelled]

theorem index_token_iff {token : List Char} {position : Nat} :
    isIndex token = true ∧ Nat.ofDigitChars 10 token 0 = position ↔
      (Selector.index position).token = token := by
  constructor
  · rintro ⟨canonical, rfl⟩
    exact toDigits_ofDigitChars canonical
  · rintro rfl
    exact ⟨isIndex_toDigits position, Nat.ofDigitChars_ten_toDigits⟩

/-! ### Walking -/

/-- The reference tokens of a pointer that starts with a slash. -/
def tokens? (path : String) : Option (List (List Char)) :=
  if path.toList.head? = some '/' then
    some (((path.toList.drop 1).splitOn '/').map unescape)
  else none

/-- A walk that has unescaped its tokens. -/
def walkTokens : Json → List (List Char) → Except Raised Json
  | current, [] => .ok current
  | current, token :: tokens => do
      let next ← descend current token
      walkTokens next tokens

theorem walk_eq_walkTokens (current : Json) (tokens : List (List Char)) :
    walk current tokens = walkTokens current (tokens.map unescape) := by
  induction tokens generalizing current with
  | nil => rfl
  | cons token tokens ih =>
      rw [walk, List.map_cons, walkTokens]
      simp only [ih]

theorem pointer_of_tokens {document : Json} {path : String} {tokens : List (List Char)}
    (spelled : tokens? path = some tokens) :
    pointer document path = walkTokens document tokens := by
  unfold tokens? at spelled
  split at spelled
  · rename_i slash
    have nonempty : path ≠ "" := by
      rintro rfl
      cases slash
    cases spelled
    unfold pointer
    rw [if_neg nonempty, if_neg (not_not.mpr slash), walk_eq_walkTokens]
  · cases spelled

theorem pointer_of_no_tokens {document : Json} {path : String} (spelled : tokens? path = none) :
    pointer document path = .ok document ∧ path = "" ∨
      pointer document path = .error pointerStart := by
  unfold tokens? at spelled
  split at spelled
  · cases spelled
  · rename_i slash
    unfold pointer
    by_cases empty : path = ""
    · exact .inl ⟨if_pos empty, empty⟩
    · rw [if_neg empty, if_pos slash]
      exact .inr rfl

theorem tokens?_ne_nil {path : String} : tokens? path ≠ some [] := by
  unfold tokens?
  split
  · simp [List.splitOn_ne_nil]
  · simp

theorem descend_arr (items : List Json) (token : List Char) :
    descend (.arr items) token =
      if isIndex token then
        match items[Nat.ofDigitChars 10 token 0]? with
        | some item => .ok item
        | none => .error indexError
      else .error arrayIndex := rfl

theorem descend_obj (members : List (String × Json)) (token : List Char) :
    descend (.obj members) token =
      ((members.lookup (String.ofList token)).map .ok).getD
        (.error (keyError (String.ofList token))) := rfl

/-- The loop goes on to exactly the children of the current value. -/
theorem descend_eq_ok_iff {current child : Json} {token : List Char} :
    descend current token = .ok child ↔
      ∃ key : Selector, key.token = token ∧ Child current key child := by
  cases current with
  | arr items =>
      rw [descend_arr]
      constructor
      · intro found
        split at found
        · rename_i canonical
          cases located : items[Nat.ofDigitChars 10 token 0]? with
          | none => simp [located] at found
          | some item =>
              simp only [located, Except.ok.injEq] at found
              subst item
              exact ⟨.index _, toDigits_ofDigitChars canonical, .item located⟩
        · cases found
      · rintro ⟨key, spelled, below⟩
        cases below with
        | item located =>
            obtain ⟨canonical, value⟩ := index_token_iff.mpr spelled
            rw [if_pos canonical, value, located]
  | obj members =>
      rw [descend_obj]
      constructor
      · intro found
        cases located : members.lookup (String.ofList token) with
        | none => simp [located] at found
        | some value =>
            simp only [located, Option.map_some, Option.getD_some, Except.ok.injEq] at found
            subst value
            exact ⟨.name (String.ofList token), String.toList_ofList, .member located⟩
      · rintro ⟨key, rfl, below⟩
        cases below with
        | member located => simp [Selector.token, located]
  | null | bool | int | float | nan | infinity | str =>
      exact ⟨fun found => (by cases found), fun ⟨_, _, below⟩ => (by cases below)⟩

/-- A walk goes to the values at the locations that its tokens spell. -/
theorem walkTokens_eq_ok_iff {current value : Json} {tokens : List (List Char)} :
    walkTokens current tokens = .ok value ↔
      ∃ location : List Selector, location.map Selector.token = tokens ∧
        Addresses current location value := by
  induction tokens generalizing current with
  | nil =>
      constructor
      · intro found
        cases found
        exact ⟨[], rfl, .here⟩
      · rintro ⟨location, spelled, addresses⟩
        rw [List.map_eq_nil_iff] at spelled
        subst location
        cases addresses
        rfl
  | cons token tokens ih =>
      rw [walkTokens]
      constructor
      · intro found
        obtain ⟨child, first, later⟩ := except_bind_eq_ok.mp found
        obtain ⟨key, rfl, step⟩ := descend_eq_ok_iff.mp first
        obtain ⟨location, rfl, addresses⟩ := ih.mp later
        exact ⟨key :: location, rfl, .into step addresses⟩
      · rintro ⟨location, spelled, addresses⟩
        cases addresses with
        | here => cases spelled
        | into step rest =>
            rw [List.map_cons, List.cons.injEq] at spelled
            rw [descend_eq_ok_iff.mpr ⟨_, spelled.1, step⟩]
            exact ih.mpr ⟨_, spelled.2, rest⟩

/-- Whatever `pointer` returns is a value of the document. -/
theorem addresses_of_pointer {document value : Json} {path : String}
    (found : pointer document path = .ok value) :
    ∃ location, Addresses document location value := by
  cases spelled : tokens? path with
  | some tokens =>
      rw [pointer_of_tokens spelled, walkTokens_eq_ok_iff] at found
      obtain ⟨location, _, addresses⟩ := found
      exact ⟨location, addresses⟩
  | none =>
      rcases pointer_of_no_tokens spelled with ⟨whole, _⟩ | failed
      · cases whole.symm.trans found
        exact ⟨[], .here⟩
      · cases failed.symm.trans found

/-- Parts without a slash, each after a slash, are split again. -/
theorem splitOn_drop_flatMap {first : List Char} {parts : List (List Char)}
    (free : ∀ part ∈ first :: parts, '/' ∉ part) :
    (((first :: parts).flatMap (fun part => '/' :: part)).drop 1).splitOn '/' =
      first :: parts := by
  have joined : first ++ parts.flatMap (fun part => '/' :: part) =
      ['/'].intercalate (first :: parts) := by
    clear free
    induction parts generalizing first with
    | nil => simp [List.intercalate]
    | cons next parts ih =>
        rw [List.flatMap_cons, List.cons_append, ih]
        simp [List.intercalate]
  rw [List.flatMap_cons, List.cons_append, List.drop_one, List.tail_cons, joined]
  exact List.splitOn_intercalate _ free (by simp)

theorem tokens?_of_flatMap {path : String} {parts : List (List Char)} (nonempty : parts ≠ [])
    (joined : path.toList = parts.flatMap (fun part => '/' :: part))
    (free : ∀ part ∈ parts, '/' ∉ part) : tokens? path = some (parts.map unescape) := by
  obtain ⟨first, rest, rfl⟩ := List.exists_cons_of_ne_nil nonempty
  unfold tokens?
  rw [joined, splitOn_drop_flatMap free]
  exact if_pos rfl

/-- The encoding of some tokens is read as these tokens. -/
theorem tokens?_encode (token : List Char) (tokens : List (List Char)) :
    tokens? (encode (token :: tokens)) = some (token :: tokens) := by
  have joined : (encode (token :: tokens)).toList =
      ((token :: tokens).map escape).flatMap (fun part => '/' :: part) := by
    unfold encode
    rw [String.toList_ofList, List.flatMap_map]
  rw [tokens?_of_flatMap (by simp) joined, List.map_map]
  · have undone : unescape ∘ escape = id := funext unescape_escape
    rw [undone, List.map_id]
  · intro part member
    obtain ⟨plain, _, rfl⟩ := List.mem_map.mp member
    exact slash_not_mem_escape plain

/-- On the encoding of some tokens, `pointer` gives the value that the tokens address. -/
theorem pointer_encode_eq_ok_iff {document value : Json} {tokens : List (List Char)} :
    pointer document (encode tokens) = .ok value ↔
      ∃ location : List Selector, location.map Selector.token = tokens ∧
        Addresses document location value := by
  rw [← walkTokens_eq_ok_iff]
  cases tokens with
  | nil => rfl
  | cons token tokens => rw [pointer_of_tokens (tokens?_encode token tokens)]

/-- `pointer` returns exactly the value at a location, given the location's encoding, and
raises on the encoding of tokens that address nothing in the document. -/
theorem pointer_round_trip (document : Json) :
    (∀ location value, Addresses document location value →
      pointer document (encode (location.map Selector.token)) = .ok value) ∧
    ∀ tokens : List (List Char),
      (¬ ∃ (location : List Selector) (value : Json), location.map Selector.token = tokens ∧
        Addresses document location value) →
      ∃ raised, pointer document (encode tokens) = .error raised := by
  constructor
  · intro location value addresses
    exact pointer_encode_eq_ok_iff.mpr ⟨location, rfl, addresses⟩
  · intro tokens nowhere
    cases found : pointer document (encode tokens) with
    | error raised => exact ⟨raised, rfl⟩
    | ok value =>
        obtain ⟨location, spelled, addresses⟩ := pointer_encode_eq_ok_iff.mp found
        exact absurd ⟨location, value, spelled, addresses⟩ nowhere

/-! ### Exceptions -/

/-- The exceptions that callers of `pointer` catch: `ContractError` with one of two texts,
`IndexError`, `KeyError` and `TypeError`. -/
inductive Unresolved : Raised → Prop
  | start : Unresolved pointerStart
  | position : Unresolved arrayIndex
  | index : Unresolved indexError
  | key {key} : Unresolved (keyError key)
  | type {message} : Unresolved (typeError message)

theorem unresolved_of_getItem {key : String} {value : Json} {raised : Raised}
    (failed : value.getItem key = .error raised) : Unresolved raised := by
  cases value with
  | obj members =>
      cases located : members.lookup key with
      | none =>
          simp only [Json.getItem, located, Option.map_none, Option.getD_none,
            Except.error.injEq] at failed
          exact failed ▸ .key
      | some child => simp [Json.getItem, located] at failed
  | null | bool | int | float | nan | infinity | str | arr =>
      cases failed
      exact .type

theorem unresolved_of_walk {current : Json} {tokens : List (List Char)} {raised : Raised}
    (failed : walk current tokens = .error raised) : Unresolved raised := by
  induction tokens generalizing current with
  | nil => cases failed
  | cons token tokens ih =>
      rw [walk, except_bind_eq_error] at failed
      rcases failed with first | ⟨child, _, later⟩
      · cases current with
        | arr items =>
            rw [descend_arr] at first
            split at first
            · split at first
              · cases first
              · cases first
                exact .index
            · cases first
              exact .position
        | null | bool | int | float | nan | infinity | str | obj =>
            dsimp only [descend] at first
            exact unresolved_of_getItem first
      · exact ih later

theorem unresolved_of_pointer {document : Json} {path : String} {raised : Raised}
    (failed : pointer document path = .error raised) : Unresolved raised := by
  unfold pointer at failed
  split at failed
  · cases failed
  · split at failed
    · cases failed
      exact .start
    · exact unresolved_of_walk failed

namespace Sample

/-- `{"a/b": [{"~01": 3}]}` -/
def nested : Json := .obj [("a/b", .arr [.obj [("~01", .int 3)]])]

theorem nested_addresses :
    Addresses nested [.name "a/b", .index 0, .name "~01"] (.int 3) :=
  .into (.member rfl) (.into (.item rfl) (.into (.member rfl) .here))

/-- Nothing is under the key `~1` of the object. -/
theorem nested_lacks (location : List Selector) (value : Json)
    (spelled : location.map Selector.token = ["~1".toList]) :
    ¬ Addresses nested location value := by
  intro addresses
  cases addresses with
  | here => cases spelled
  | into step rest =>
      cases step with
      | @member _ name _ found =>
          have named : name = "~1" := String.toList_inj.mp (List.cons.inj spelled).1
          subst name
          cases found

end Sample

/-- The pointers `/a~1b/0/~001` and `/~01` of the nested sample. -/
theorem pointer_round_trip_sample :
    pointer Sample.nested
        (encode ([Selector.name "a/b", .index 0, .name "~01"].map Selector.token)) = .ok (.int 3) ∧
      ∃ raised, pointer Sample.nested (encode ["~1".toList]) = .error raised :=
  ⟨(pointer_round_trip Sample.nested).1 _ _ Sample.nested_addresses,
    (pointer_round_trip Sample.nested).2 _ fun ⟨location, value, spelled, addresses⟩ =>
      Sample.nested_lacks location value spelled addresses⟩

end ApiSentinel
