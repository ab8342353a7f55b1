import Mathlib.Data.String.Basic

/-!
# Media types

The spellings of a media type in a Content-Type field: tokens in any letter case, and
parameters with optional white space around their semicolons.  The text before the first
semicolon is the type with the white space that follows it.
-/

namespace MediaTypes

/-! ### Splitting a text -/

section Split

open String

/-- The parts of a text, when some of them and the beginning of the next have been read. -/
theorem splitOnAux_ofList (separator : Char) (before part rest : List Char)
    (parts : List String) :
    splitOnAux (ofList (before ++ part ++ rest)) (ofList [separator]) ⟨utf8Len before⟩
        ⟨utf8Len before + utf8Len part⟩ 0 parts =
      parts.reverse ++
        (List.splitOnPPrepend (· == separator) rest part.reverse).map ofList := by
  have first : Pos.Raw.get (ofList [separator]) 0 = separator := get_of_valid [] [separator]
  have next : Pos.Raw.next (ofList [separator]) 0 = ⟨separator.utf8Size⟩ := by
    simpa using next_of_valid [] separator []
  have ends : Pos.Raw.atEnd (ofList [separator]) ⟨separator.utf8Size⟩ = true := by
    simpa using atEnd_of_valid [separator] []
  induction rest generalizing before part parts with
  | nil =>
      have last := (atEnd_of_valid (before ++ part) []).mpr rfl
      rw [utf8Len_append] at last
      unfold splitOnAux
      rw [if_pos last, extract_of_valid before part []]
      simp
  | cons symbol rest ih =>
      have inside := mt (atEnd_of_valid (before ++ part) (symbol :: rest)).mp (by simp)
      have here := get_of_valid (before ++ part) (symbol :: rest)
      have after := next_of_valid (before ++ part) symbol rest
      have piece := extract_of_valid before part (symbol :: rest)
      rw [utf8Len_append] at inside here after
      rw [List.headD_cons] at here
      have back (size : Nat) :
          Pos.Raw.unoffsetBy ⟨utf8Len before + utf8Len part + size⟩ ⟨size⟩ =
            ⟨utf8Len before + utf8Len part⟩ := by
        simp [Pos.Raw.unoffsetBy]
      unfold splitOnAux
      rw [if_neg inside, here, after, first, next]
      by_cases same : symbol = separator
      · subst symbol
        simp only [beq_self_eq_true, if_true, ends, back, piece]
        have later := ih (before ++ part ++ [separator]) [] (ofList part :: parts)
        simpa [Nat.add_assoc, List.splitOnPPrepend_cons_eq_if] using later
      · have stay : Pos.Raw.unoffsetBy ⟨utf8Len before + utf8Len part⟩ 0 =
            ⟨utf8Len before + utf8Len part⟩ := back 0
        rw [if_neg (by simp [same]), stay, after]
        have later := ih before (part ++ [symbol]) parts
        simpa [Nat.add_assoc, List.splitOnPPrepend_cons_eq_if, same] using later

theorem splitOn_ofList (separator : Char) (text : List Char) :
    (ofList text).splitOn (ofList [separator]) = (text.splitOn separator).map ofList := by
  have split := splitOnAux_ofList separator [] [] text []
  have nonempty : (ofList [separator] == "") = false := by simp
  unfold splitOn
  rw [nonempty]
  simpa [List.splitOn_eq_splitOnP] using split

end Split

/-! ### The grammar -/

/-- `OWS = *( SP / HTAB )` -/
def Blank (text : List Char) : Prop := ∀ symbol ∈ text, symbol = ' ' ∨ symbol = '\t'

/-- `tchar` -/
def isTokenSymbol (symbol : Char) : Bool :=
  symbol.isAlphanum || "!#$%&'*+-.^_`|~".toList.contains symbol

/-- `token = 1*tchar` -/
def Token (text : List Char) : Prop :=
  text ≠ [] ∧ ∀ symbol ∈ text, isTokenSymbol symbol = true

/-- A horizontal tab, a visible character or a space, or a character outside ASCII. -/
def Printed (symbol : Char) : Prop :=
  symbol = '\t' ∨ 32 ≤ symbol.toNat ∧ symbol.toNat ≠ 127

/-- What follows the opening quote of a quoted string. -/
inductive Quoted : List Char → Prop
  | close : Quoted ['"']
  | plain {symbol rest} (printed : Printed symbol) (quote : symbol ≠ '"')
      (backslash : symbol ≠ '\\') (more : Quoted rest) : Quoted (symbol :: rest)
  | pair {symbol rest} (printed : Printed symbol) (more : Quoted rest) :
      Quoted ('\\' :: symbol :: rest)

/-- `parameter = token "=" ( token / quoted-string )` -/
def ParameterText (text : List Char) : Prop :=
  ∃ name value, text = name ++ '=' :: value ∧ Token name ∧
    (Token value ∨ ∃ rest, value = '"' :: rest ∧ Quoted rest)

/-- `OWS ";" OWS [ parameter ]` -/
structure Parameter where
  before : List Char
  after : List Char
  text : List Char
  before_blank : Blank before
  after_blank : Blank after
  valid : text = [] ∨ ParameterText text

/-- `type "/" subtype *( OWS ";" OWS [ parameter ] )` -/
structure Spelling where
  type : List Char
  subtype : List Char
  parameters : List Parameter
  type_token : Token type
  subtype_token : Token subtype

namespace Spelling

variable (spelling : Spelling)

def tail : List Parameter → List Char
  | [] => []
  | parameter :: parameters =>
      parameter.before ++ ';' :: (parameter.after ++ parameter.text ++ tail parameters)

def text : String := String.ofList (spelling.type ++ '/' :: (spelling.subtype ++
  tail spelling.parameters))

/-- The white space between the subtype and the first semicolon. -/
def gap : List Char := (spelling.parameters.head?.map Parameter.before).getD []

/-- There is no white space between the subtype and the first semicolon. -/
def Tight : Prop := spelling.gap = []

/-- The media type, in any letter case. -/
def Names (type subtype : String) : Prop :=
  spelling.type.map Char.toLower = type.toList ∧ spelling.subtype.map Char.toLower = subtype.toList

/-- Two spellings of one media type, with any parameters. -/
def Same (other : Spelling) : Prop :=
  spelling.type.map Char.toLower = other.type.map Char.toLower ∧
    spelling.subtype.map Char.toLower = other.subtype.map Char.toLower

end Spelling

/-! ### The text before the first semicolon -/

theorem token_of_all {text : List Char} (nonempty : text ≠ [])
    (symbols : text.all isTokenSymbol = true) : Token text :=
  ⟨nonempty, List.all_eq_true.mp symbols⟩

theorem Token.not_mem {text : List Char} (token : Token text) {symbol : Char}
    (other : isTokenSymbol symbol = false) : symbol ∉ text := by
  intro member
  cases other.symm.trans (token.2 symbol member)

theorem Blank.not_mem {text : List Char} (blank : Blank text) {symbol : Char}
    (other : symbol ≠ ' ' ∧ symbol ≠ '\t') : symbol ∉ text := by
  intro member
  rcases blank symbol member with same | same
  · exact other.1 same
  · exact other.2 same

/-- Spellings of one media type have the same names. -/
theorem Spelling.Same.names_iff {spelling other : Spelling} (same : spelling.Same other)
    {type subtype : String} : spelling.Names type subtype ↔ other.Names type subtype := by
  unfold Spelling.Names
  rw [same.1, same.2]

theorem Spelling.gap_blank (spelling : Spelling) : Blank spelling.gap := by
  unfold Spelling.gap
  cases spelling.parameters with
  | nil => exact List.forall_mem_nil _
  | cons parameter _ => exact parameter.before_blank

/-- The first part of a text that begins with parameters is what stands before them. -/
theorem headD_splitOn_tail {before : List Char} (free : ';' ∉ before) :
    ∀ parameters : List Parameter,
      ';' ∉ (parameters.head?.map Parameter.before).getD [] →
        ((before ++ Spelling.tail parameters).splitOn ';').headD [] =
          before ++ (parameters.head?.map Parameter.before).getD []
  | [], _ => by
      rw [Spelling.tail, List.append_nil, List.splitOn_eq_singleton free]
      exact (List.append_nil before).symm
  | parameter :: parameters, outside => by
      have both : ';' ∉ before ++ parameter.before := by
        rw [List.mem_append, not_or]
        exact ⟨free, outside⟩
      rw [Spelling.tail, ← List.append_assoc, List.splitOn_append_cons_self_of_not_mem both]
      rfl

/-- What a reader finds before the first semicolon. -/
theorem Spelling.headD_splitOn (spelling : Spelling) :
    (spelling.text.splitOn ";").headD "" =
      String.ofList (spelling.type ++ '/' :: (spelling.subtype ++ spelling.gap)) := by
  have free : ';' ∉ spelling.type ++ '/' :: spelling.subtype := by
    simp only [List.mem_append, List.mem_cons, not_or]
    exact ⟨spelling.type_token.not_mem (by decide), by decide,
      spelling.subtype_token.not_mem (by decide)⟩
  have blank : ';' ∉ spelling.gap := spelling.gap_blank.not_mem (by decide)
  have first := headD_splitOn_tail free spelling.parameters blank
  have split := splitOn_ofList ';' (spelling.type ++ '/' :: spelling.subtype ++
    tail spelling.parameters)
  have literal : String.ofList [';'] = ";" := rfl
  have whole : spelling.text = String.ofList (spelling.type ++ '/' :: spelling.subtype ++
      tail spelling.parameters) := by
    rw [List.append_assoc]
    rfl
  rw [literal, ← whole] at split
  rw [split]
  have nonempty := List.splitOn_ne_nil ';' (spelling.type ++ '/' :: spelling.subtype ++
    tail spelling.parameters)
  cases parts : (spelling.type ++ '/' :: spelling.subtype ++
      tail spelling.parameters).splitOn ';' with
  | nil => exact absurd parts nonempty
  | cons part _ =>
      rw [parts] at first
      have same : part = spelling.type ++ '/' :: spelling.subtype ++ spelling.gap := first
      rw [List.append_assoc] at same
      rw [same]
      rfl

/-! ### Reading a media type -/

/-- No upper-case letter becomes a character that comes before the letters. -/
theorem eq_of_toLower {symbol other : Char} (same : symbol.toLower = other)
    (before : other.toNat < 97) : symbol = other := by
  subst other
  unfold Char.toLower at before ⊢
  split
  · rename_i upper
    rw [dif_pos upper] at before
    simp only [Char.toNat, ge_iff_le, UInt32.le_iff_toNat_le] at before upper
    have big := upper.1
    have small := upper.2
    simp at before big small
    omega
  · rfl

/-- Changing the letter case of a text adds no character that is not a letter. -/
theorem not_mem_toLower {text : List Char} {symbol : Char} (before : symbol.toNat < 97)
    (outside : symbol ∉ text) : symbol ∉ text.map Char.toLower := by
  intro member
  obtain ⟨origin, inside, same⟩ := List.mem_map.mp member
  cases eq_of_toLower same before
  exact outside inside

/-- The text before the first semicolon is a media type in lower case if and only if the
spelling names this type and has no white space there. -/
theorem Spelling.toLower_eq_iff (spelling : Spelling) {type subtype : String}
    (blank : ' ' ∉ subtype.toList ∧ '\t' ∉ subtype.toList) :
    ((spelling.text.splitOn ";").headD "").toLower = type ++ "/" ++ subtype ↔
      spelling.Names type subtype ∧ spelling.Tight := by
  have first : '/' ∉ spelling.type.map Char.toLower :=
    not_mem_toLower (by decide) (spelling.type_token.not_mem (by decide))
  have second : '/' ∉ (spelling.subtype ++ spelling.gap).map Char.toLower := by
    refine not_mem_toLower (by decide) ?_
    rw [List.mem_append, not_or]
    exact ⟨spelling.subtype_token.not_mem (by decide), spelling.gap_blank.not_mem (by decide)⟩
  have whole : (type ++ "/" ++ subtype).toList = type.toList ++ '/' :: subtype.toList := by
    simp [String.toList_append]
  rw [spelling.headD_splitOn, ← String.toList_inj, whole]
  change (String.map Char.toLower _).toList = _ ↔ _
  rw [String.toList_map, String.toList_ofList, List.map_append, List.map_cons]
  change _ ++ '/' :: _ = _ ↔ _
  rw [List.append_cons_inj_of_notMem first second]
  constructor
  · rintro ⟨same, -, rest⟩
    have tight : spelling.gap = [] := by
      refine List.eq_nil_iff_forall_not_mem.mpr ?_
      intro symbol member
      have kept : symbol.toLower ∈ subtype.toList := by
        rw [← rest]
        exact List.mem_map_of_mem (List.mem_append_right _ member)
      rcases spelling.gap_blank symbol member with rfl | rfl
      · exact blank.1 kept
      · exact blank.2 kept
    rw [tight, List.append_nil] at rest
    exact ⟨⟨same, rest⟩, tight⟩
  · rintro ⟨⟨same, rest⟩, tight⟩
    have none : spelling.gap = [] := tight
    rw [none, List.append_nil]
    exact ⟨same, rfl, rest⟩

end MediaTypes
