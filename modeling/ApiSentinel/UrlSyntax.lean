import Mathlib.Data.List.DropRight

/-!
# The generic syntax of URLs

Splitting a URL into its components by RFC 3986: the scheme up to a colon, the authority
after two slashes, the fragment after the first `#` and the query after the first `?`.
Python splits so what it leaves of a text after removing white space and controls.
-/

namespace UrlSyntax

structure SplitResult where
  scheme : List Char
  netloc : List Char
  path : List Char
  query : List Char
  fragment : List Char
  deriving DecidableEq, Repr

/-- What is before and what is after the first separator. -/
def cut (separator : Char) (text : List Char) : List Char × List Char :=
  (text.takeWhile (· != separator), (text.dropWhile (· != separator)).drop 1)

/-- What is before and what is after the last separator. -/
def cutLast (separator : Char) (text : List Char) : List Char × List Char :=
  ((cut separator text.reverse).2.reverse, (cut separator text.reverse).1.reverse)

def isSchemeChar (symbol : Char) : Bool :=
  symbol.isAlphanum || symbol == '+' || symbol == '-' || symbol == '.'

/-- `ALPHA *( ALPHA / DIGIT / "+" / "-" / "." )` -/
def isScheme : List Char → Bool
  | [] => false
  | first :: rest => first.isAlpha && rest.all isSchemeChar

/-- Ends the authority. -/
def isDelimiter (symbol : Char) : Bool := symbol == '/' || symbol == '?' || symbol == '#'

def splitScheme (text : List Char) : List Char × List Char :=
  if ':' ∈ text ∧ isScheme (cut ':' text).1 then
    ((cut ':' text).1.map Char.toLower, (cut ':' text).2)
  else ([], text)

def splitAuthority : List Char → List Char × List Char
  | '/' :: '/' :: rest =>
      (rest.takeWhile (!isDelimiter ·), rest.dropWhile (!isDelimiter ·))
  | text => ([], text)

/-- `urlsplit(text)`, by the generic syntax alone -/
def urlsplit (text : List Char) : SplitResult :=
  let (scheme, rest) := splitScheme text
  let (netloc, rest) := splitAuthority rest
  let (rest, fragment) := cut '#' rest
  let (path, query) := cut '?' rest
  { scheme, netloc, path, query, fragment }

/-- What is left of a text without the controls and spaces at its front, and without tabs,
carriage returns and line feeds. -/
def cleaned (text : List Char) : List Char :=
  (text.dropWhile (·.toNat ≤ 32)).filter (· ∉ ['\t', '\r', '\n'])

/-- `urlsplit(text)` in Python -/
def pythonSplit (text : List Char) : SplitResult := urlsplit (cleaned text)

namespace SplitResult

variable (url : SplitResult)

/-- The host as it is spelled, empty if there is none. -/
def hostname : List Char :=
  let host := (cutLast '@' url.netloc).2
  if '[' ∈ host then (cut ']' (cut '[' host).2).1 else (cut ':' host).1

def username : List Char := (cut ':' (cutLast '@' url.netloc).1).1

def password : List Char := (cut ':' (cutLast '@' url.netloc).1).2

end SplitResult

/-! ### Cleaning -/

/-- Slashes at the end are left where they are. -/
theorem cleaned_append_of_slashes {text slashes : List Char}
    (all : ∀ symbol ∈ slashes, symbol = '/') :
    cleaned (text ++ slashes) = cleaned text ++ slashes := by
  have kept : slashes.dropWhile (·.toNat ≤ 32) = slashes := by
    cases slashes with
    | nil => rfl
    | cons first rest =>
        obtain rfl := all first List.mem_cons_self
        rfl
  have dropped : (text ++ slashes).dropWhile (·.toNat ≤ 32) =
      text.dropWhile (·.toNat ≤ 32) ++ slashes := by
    rw [List.dropWhile_append]
    split
    · rename_i empty
      rw [List.isEmpty_iff.mp empty, kept, List.nil_append]
    · rfl
  have left : slashes.filter (· ∉ ['\t', '\r', '\n']) = slashes := by
    refine List.filter_eq_self.mpr fun symbol member => ?_
    rw [all symbol member]
    decide
  unfold cleaned
  rw [dropped, List.filter_append, left]

theorem mem_of_mem_cleaned {text : List Char} {symbol : Char} (member : symbol ∈ cleaned text) :
    symbol ∈ text :=
  (List.dropWhile_sublist _).subset (List.mem_of_mem_filter member)

/-! ### Cutting -/

section Cut

variable {separator : Char} {text rest : List Char}

theorem takeWhile_append {Item : Type} {keeps : Item → Bool} {items rest : List Item}
    (all : ∀ item ∈ items, keeps item = true) (stops : ∀ item ∈ rest.head?, keeps item = false) :
    (items ++ rest).takeWhile keeps = items ∧ (items ++ rest).dropWhile keeps = rest := by
  induction items with
  | nil =>
      cases rest with
      | nil => exact ⟨rfl, rfl⟩
      | cons item rest =>
          have stop := stops item rfl
          simp [stop]
  | cons item items ih =>
      have keep := all item List.mem_cons_self
      obtain ⟨taken, dropped⟩ := ih fun other member => all other (List.mem_cons_of_mem _ member)
      simp [keep, taken, dropped]

theorem cut_append (none : separator ∉ text) (rest : List Char) :
    cut separator (text ++ separator :: rest) = (text, rest) := by
  have parts := @takeWhile_append _ (· != separator) text (separator :: rest)
    (fun symbol member => bne_iff_ne.mpr (fun same => none (same ▸ member)))
    (fun symbol head => by
      cases head
      exact bne_self_eq_false separator)
  unfold cut
  rw [parts.1, parts.2]
  rfl

theorem cut_of_not_mem (none : separator ∉ text) : cut separator text = (text, []) := by
  have parts := @takeWhile_append _ (· != separator) text []
    (fun symbol member => bne_iff_ne.mpr (fun same => none (same ▸ member)))
    (fun symbol head => by cases head)
  rw [List.append_nil] at parts
  unfold cut
  rw [parts.1, parts.2]
  rfl

end Cut

/-! ### Composing -/

section Compose

variable {name netloc rest : List Char}

theorem colon_not_mem_of_isScheme (valid : isScheme name = true) : ':' ∉ name := by
  cases name with
  | nil => cases valid
  | cons first name =>
      simp only [isScheme, Bool.and_eq_true, List.all_eq_true] at valid
      rintro (_ | ⟨_, later⟩)
      · exact absurd valid.1 (by decide)
      · exact absurd (valid.2 _ later) (by decide)

theorem splitScheme_append (valid : isScheme name = true) (rest : List Char) :
    splitScheme (name ++ ':' :: rest) = (name.map Char.toLower, rest) := by
  unfold splitScheme
  rw [cut_append (colon_not_mem_of_isScheme valid), if_pos ⟨by simp, valid⟩]

theorem splitAuthority_append (free : ∀ symbol ∈ netloc, isDelimiter symbol = false)
    (ends : ∀ symbol ∈ rest.head?, isDelimiter symbol = true) :
    splitAuthority ('/' :: '/' :: (netloc ++ rest)) = (netloc, rest) := by
  have parts := @takeWhile_append _ (!isDelimiter ·) netloc rest
    (fun symbol member => by simp [free symbol member])
    (fun symbol head => by simp [ends symbol head])
  exact Prod.ext parts.1 parts.2

/-- A URL is split where its components were put together. -/
theorem urlsplit_compose (valid : isScheme name = true)
    (free : ∀ symbol ∈ netloc, isDelimiter symbol = false)
    (ends : ∀ symbol ∈ rest.head?, isDelimiter symbol = true) :
    urlsplit (name ++ ':' :: '/' :: '/' :: (netloc ++ rest)) =
      { scheme := name.map Char.toLower
        netloc
        path := (cut '?' (cut '#' rest).1).1
        query := (cut '?' (cut '#' rest).1).2
        fragment := (cut '#' rest).2 } := by
  unfold urlsplit
  rw [splitScheme_append valid]
  dsimp only
  rw [splitAuthority_append free ends]

/-- A URL with a scheme and an authority is put together from its components. -/
theorem exists_of_urlsplit {text : List Char} (schemed : (urlsplit text).scheme ≠ [])
    (located : (urlsplit text).netloc ≠ []) :
    ∃ name netloc rest, isScheme name = true ∧ (∀ symbol ∈ netloc, isDelimiter symbol = false) ∧
      (∀ symbol ∈ rest.head?, isDelimiter symbol = true) ∧
      text = name ++ ':' :: '/' :: '/' :: (netloc ++ rest) := by
  have schemeOf : (urlsplit text).scheme = (splitScheme text).1 := rfl
  have netlocOf : (urlsplit text).netloc = (splitAuthority (splitScheme text).2).1 := rfl
  rw [schemeOf] at schemed
  rw [netlocOf] at located
  unfold splitScheme at schemed located
  split at schemed
  · rename_i proper
    obtain ⟨separated, valid⟩ := proper
    rw [if_pos ⟨separated, valid⟩] at located
    obtain ⟨name, rest, rfl, none⟩ := List.eq_append_cons_of_mem separated
    rw [cut_append none] at valid located
    dsimp only at valid located
    unfold splitAuthority at located
    split at located
    · rename_i tail
      refine ⟨name, tail.takeWhile (!isDelimiter ·), tail.dropWhile (!isDelimiter ·), valid, ?_,
        ?_, ?_⟩
      · intro symbol member
        have kept := List.all_eq_true.mp List.all_takeWhile _ member
        simpa using kept
      · intro symbol head
        have stopped := List.head?_dropWhile_not (!isDelimiter ·) tail
        rw [Option.mem_def.mp head] at stopped
        simpa using stopped
      · rw [List.takeWhile_append_dropWhile]
    · exact absurd rfl located
  · exact absurd rfl schemed

end Compose

end UrlSyntax
