import Mathlib.Data.List.Chain

/-!
# Elements, attributes and text

The part of XML 1.0 that a serializer of elements, attributes and text needs: a writer, and a
reader that refuses what is outside of it.  A document is read back as it was written, but for
the line ends of its text.
-/

namespace Markup

inductive Node
  | element (name : List Char) (attributes : List (List Char × List Char))
      (children : List Node)
  | text (value : List Char)

def Node.isText : Node → Bool
  | .text _ => true
  | .element _ _ _ => false

/-! ### Characters -/

/-- The characters of a document. -/
def isChar (symbol : Char) : Bool :=
  symbol == '\t' || symbol == '\n' || symbol == '\r' ||
    (0x20 ≤ symbol.toNat && symbol.toNat ≤ 0xD7FF) ||
    (0xE000 ≤ symbol.toNat && symbol.toNat ≤ 0xFFFD) || 0x10000 ≤ symbol.toNat

def isSpace (symbol : Char) : Bool :=
  symbol == ' ' || symbol == '\t' || symbol == '\n' || symbol == '\r'

/-- Names are kept to ASCII. -/
def isNameStart (symbol : Char) : Bool := symbol.isAlpha || symbol == '_'

def isNameChar (symbol : Char) : Bool :=
  isNameStart symbol || symbol.isDigit || symbol == '-' || symbol == '.'

def isName : List Char → Bool
  | [] => false
  | symbol :: rest => isNameStart symbol && rest.all isNameChar

/-! ### Writing -/

/-- A character of a text. -/
def escape : Char → List Char
  | '&' => ['&', 'a', 'm', 'p', ';']
  | '<' => ['&', 'l', 't', ';']
  | '>' => ['&', 'g', 't', ';']
  | symbol => [symbol]

/-- A character of an attribute. -/
def escapeAttribute : Char → List Char
  | '"' => ['&', 'q', 'u', 'o', 't', ';']
  | '\r' => ['&', '#', '1', '3', ';']
  | '\n' => ['&', '#', '1', '0', ';']
  | '\t' => ['&', '#', '0', '9', ';']
  | symbol => escape symbol

def writeAttribute (entry : List Char × List Char) : List Char :=
  ' ' :: entry.1 ++ '=' :: '"' :: entry.2.flatMap escapeAttribute ++ ['"']

/-- An element without children is closed in its own tag. -/
def Node.write : Node → List Char
  | .text value => value.flatMap escape
  | .element name attributes [] =>
      '<' :: name ++ attributes.flatMap writeAttribute ++ [' ', '/', '>']
  | .element name attributes (child :: children) =>
      '<' :: name ++ attributes.flatMap writeAttribute ++ '>' :: child.write ++
        writeAll children ++ '<' :: '/' :: name ++ ['>']
where
  writeAll : List Node → List Char
    | [] => []
    | child :: children => child.write ++ writeAll children

/-! ### Reading -/

/-- A line ends in a line feed, in whichever of the three ways it is written. -/
def lineEnds : List Char → List Char
  | '\r' :: '\n' :: rest => '\n' :: lineEnds rest
  | '\r' :: rest => '\n' :: lineEnds rest
  | symbol :: rest => symbol :: lineEnds rest
  | [] => []

/-- What stands between `&` and `;`. -/
def referent : List Char → Option Char
  | ['a', 'm', 'p'] => some '&'
  | ['l', 't'] => some '<'
  | ['g', 't'] => some '>'
  | ['q', 'u', 'o', 't'] => some '"'
  | ['a', 'p', 'o', 's'] => some '\''
  | '#' :: digit :: digits =>
      if (digit :: digits).all Char.isDigit then
        some (Char.ofNat ((digit :: digits).foldl (fun number digit =>
          10 * number + (digit.toNat - '0'.toNat)) 0))
      else none
  | _ => none

/-- A tag that is being read. -/
structure Tag where
  name : List Char
  attributes : List (List Char × List Char) := []

/-- Where the reader is. -/
inductive Mode
  | content
  /-- After `&`. -/
  | reference (name : List Char)
  /-- After `<`. -/
  | markup
  | endTag (name : List Char)
  | startTag (name : List Char)
  /-- Between two attributes, after white space or not. -/
  | between (tag : Tag) (spaced : Bool)
  | key (tag : Tag) (key : List Char)
  /-- After `=`. -/
  | quote (tag : Tag) (key : List Char)
  | value (tag : Tag) (key : List Char) (quote : Char) (value : List Char)
  | valueReference (tag : Tag) (key : List Char) (quote : Char) (value name : List Char)
  /-- After `/` in a tag. -/
  | slash (tag : Tag)

/-- An element that is open, and what has been read before it. -/
structure Open where
  tag : Tag
  before : List Node

/-- The elements that are open from the inside out, what has been read inside of the innermost,
from right to left, and where the reader is. -/
structure State where
  above : List Open := []
  done : List Node := []
  mode : Mode := .content

namespace State

def goto (state : State) (mode : Mode) : State := { state with mode }

/-- Read a character of the content, which belongs to a text. -/
def push (symbol : Char) : List Node → List Node
  | .text value :: rest => .text (value ++ [symbol]) :: rest
  | done => .text [symbol] :: done

def addChar (state : State) (symbol : Char) : Option State :=
  if isChar symbol && !state.above.isEmpty then
    some { state with done := push symbol state.done, mode := .content }
  else none

/-- Only one element is outside of all others. -/
def mayOpen (state : State) : Bool := !state.above.isEmpty || state.done.isEmpty

def openTag (state : State) (tag : Tag) : Option State :=
  if state.mayOpen then
    some { above := ⟨tag, state.done⟩ :: state.above, done := [], mode := .content }
  else none

def emptyTag (state : State) (tag : Tag) : Option State :=
  if state.mayOpen then
    some { state with
      done := .element tag.name tag.attributes [] :: state.done, mode := .content }
  else none

def closeTag (state : State) (name : List Char) : Option State :=
  match state.above with
  | [] => none
  | ⟨tag, before⟩ :: above =>
      if tag.name = name then
        some { above, done := .element tag.name tag.attributes state.done.reverse :: before }
      else none

/-- Between the attributes of a tag. -/
def stepTag (state : State) (tag : Tag) (spaced : Bool) (symbol : Char) : Option State :=
  if isSpace symbol then some (state.goto (.between tag true))
  else if symbol = '/' then some (state.goto (.slash tag))
  else if symbol = '>' then state.openTag tag
  else if spaced && isNameStart symbol then some (state.goto (.key tag [symbol]))
  else none

def step (state : State) (symbol : Char) : Option State :=
  match state.mode with
  | .content =>
      if symbol = '<' then some (state.goto .markup)
      else if symbol = '&' then some (state.goto (.reference []))
      -- Only the end of a CDATA section is forbidden.
      else if symbol = '>' then none
      else if state.above.isEmpty && isSpace symbol then some state
      else state.addChar symbol
  | .reference name =>
      if symbol = ';' then (referent name).bind state.addChar
      else some (state.goto (.reference (name ++ [symbol])))
  | .markup =>
      if symbol = '/' then some (state.goto (.endTag []))
      else if isNameStart symbol then some (state.goto (.startTag [symbol]))
      else none
  | .endTag name =>
      if symbol = '>' then state.closeTag name
      else if isNameChar symbol then some (state.goto (.endTag (name ++ [symbol])))
      else none
  | .startTag name =>
      if isNameChar symbol then some (state.goto (.startTag (name ++ [symbol])))
      else state.stepTag ⟨name, []⟩ false symbol
  | .between tag spaced => state.stepTag tag spaced symbol
  | .key tag key =>
      if symbol = '=' then some (state.goto (.quote tag key))
      else if isNameChar symbol then some (state.goto (.key tag (key ++ [symbol])))
      else none
  | .quote tag key =>
      if symbol = '"' || symbol = '\'' then some (state.goto (.value tag key symbol []))
      else none
  | .value tag key quote value =>
      if symbol = quote then
        if tag.attributes.any (fun entry => entry.1 == key) then none
        else some (state.goto (.between
          { tag with attributes := tag.attributes ++ [(key, value)] } false))
      else if symbol = '<' then none
      else if symbol = '&' then some (state.goto (.valueReference tag key quote value []))
      else if isSpace symbol then some (state.goto (.value tag key quote (value ++ [' '])))
      else if isChar symbol then some (state.goto (.value tag key quote (value ++ [symbol])))
      else none
  | .valueReference tag key quote value name =>
      if symbol = ';' then
        (referent name).bind fun symbol =>
          if isChar symbol then some (state.goto (.value tag key quote (value ++ [symbol])))
          else none
      else some (state.goto (.valueReference tag key quote value (name ++ [symbol])))
  | .slash tag => if symbol = '>' then state.emptyTag tag else none

def run (state : State) (text : List Char) : Option State := text.foldlM step state

end State

/-- The element of a document. -/
def read (document : List Char) : Option Node :=
  match State.run {} (lineEnds document) with
  | some ⟨[], [root], .content⟩ => some root
  | _ => none

/-! ### What may be written -/

/-- Texts have characters, names are names, no attribute stands twice in a tag, and no text
stands beside another one. -/
inductive Node.Sound : Node → Prop
  | text {value} (written : value ≠ []) (chars : ∀ symbol ∈ value, isChar symbol) :
      Sound (.text value)
  | element {name attributes children} (named : isName name)
      (distinct : (attributes.map Prod.fst).Nodup)
      (keys : ∀ entry ∈ attributes, isName entry.1)
      (values : ∀ entry ∈ attributes, ∀ symbol ∈ entry.2, isChar symbol)
      (apart : children.IsChain fun one two => one.isText → two.isText = false)
      (each : ∀ child ∈ children, Sound child) :
      Sound (.element name attributes children)

/-- A node with the line ends of its texts as a reader has them. -/
def Node.normal : Node → Node
  | .text value => .text (lineEnds value)
  | .element name attributes children => .element name attributes (normalAll children)
where
  normalAll : List Node → List Node
    | [] => []
    | child :: children => child.normal :: normalAll children

theorem writeAll_eq_flatMap (children : List Node) :
    Node.write.writeAll children = children.flatMap Node.write := by
  induction children with
  | nil => rfl
  | cons child children ih => rw [Node.write.writeAll, ih, List.flatMap_cons]

theorem normalAll_eq_map (children : List Node) :
    Node.normal.normalAll children = children.map Node.normal := by
  induction children with
  | nil => rfl
  | cons child children ih => rw [Node.normal.normalAll, ih, List.map_cons]

@[simp]
theorem isText_normal (node : Node) : node.normal.isText = node.isText := by
  cases node <;> rfl

/-! ### Characters of what is written -/

theorem escape_of_plain {symbol : Char} (ampersand : symbol ≠ '&') (less : symbol ≠ '<')
    (greater : symbol ≠ '>') : escape symbol = [symbol] := by
  unfold escape
  split <;> first | contradiction | rfl

theorem escapeAttribute_of_plain {symbol : Char} (quote : symbol ≠ '"')
    (carriage : symbol ≠ '\r') (line : symbol ≠ '\n') (tab : symbol ≠ '\t') :
    escapeAttribute symbol = escape symbol := by
  unfold escapeAttribute
  split <;> first | contradiction | rfl

/-- A character is written as itself or as a reference. -/
theorem escape_cases (symbol : Char) :
    escape symbol = [symbol] ∧ symbol ≠ '&' ∧ symbol ≠ '<' ∧ symbol ≠ '>' ∨
      ∃ name, escape symbol = '&' :: name ∧ '\r' ∉ name := by
  by_cases ampersand : symbol = '&'
  · subst ampersand
    exact .inr ⟨_, rfl, by decide⟩
  by_cases less : symbol = '<'
  · subst less
    exact .inr ⟨_, rfl, by decide⟩
  by_cases greater : symbol = '>'
  · subst greater
    exact .inr ⟨_, rfl, by decide⟩
  exact .inl ⟨escape_of_plain ampersand less greater, ampersand, less, greater⟩

theorem return_notMem_escape {symbol : Char} (other : symbol ≠ '\r') :
    '\r' ∉ escape symbol := by
  rcases escape_cases symbol with ⟨plain, _⟩ | ⟨name, written, plain⟩
  · rw [plain]
    simpa using other.symm
  · rw [written]
    simpa using plain

theorem return_notMem_escapeAttribute (symbol : Char) : '\r' ∉ escapeAttribute symbol := by
  unfold escapeAttribute
  split
  · decide
  · decide
  · decide
  · decide
  · next other _ _ => exact return_notMem_escape other

theorem isNameChar_of_start {symbol : Char} (start : isNameStart symbol) : isNameChar symbol := by
  simp [isNameChar, start]

theorem exists_of_isName {name : List Char} (named : isName name) :
    ∃ first more, name = first :: more ∧ isNameStart first ∧
      ∀ symbol ∈ more, isNameChar symbol := by
  cases name with
  | nil => cases named
  | cons first more =>
      simp only [isName, Bool.and_eq_true, List.all_eq_true] at named
      exact ⟨first, more, rfl, named⟩

/-- A name does not start like what may stand in its place. -/
theorem other_of_start {symbol : Char} (start : isNameStart symbol) :
    isSpace symbol = false ∧ symbol ≠ '/' ∧ symbol ≠ '>' := by
  have other : ∀ wrong, isNameStart wrong = false → symbol ≠ wrong := by
    rintro wrong none rfl
    rw [none] at start
    cases start
  refine ⟨?_, other _ (by decide), other _ (by decide)⟩
  simp [isSpace, other ' ' (by decide), other '\t' (by decide), other '\n' (by decide),
    other '\r' (by decide)]

theorem all_of_isName {name : List Char} (named : isName name) :
    ∀ symbol ∈ name, isNameChar symbol := by
  obtain ⟨first, more, rfl, start, names⟩ := exists_of_isName named
  exact List.forall_mem_cons.mpr ⟨isNameChar_of_start start, names⟩

theorem return_notMem_name {name : List Char} (named : isName name) : '\r' ∉ name :=
  fun member => absurd (all_of_isName named _ member) (by decide)

theorem return_notMem_writeAttribute {entry : List Char × List Char} (named : isName entry.1) :
    '\r' ∉ writeAttribute entry := by
  simp only [writeAttribute, List.cons_append, List.mem_cons, List.mem_append,
    List.mem_flatMap, List.not_mem_nil, or_false]
  rintro (wrong | (wrong | wrong | wrong | ⟨symbol, _, wrong⟩) | wrong)
  · cases wrong
  · exact return_notMem_name named wrong
  · cases wrong
  · cases wrong
  · exact return_notMem_escapeAttribute symbol wrong
  · cases wrong

/-! ### Line ends -/

theorem lineEnds_plain {one : List Char} (plain : '\r' ∉ one) (two : List Char) :
    lineEnds (one ++ two) = one ++ lineEnds two := by
  induction one with
  | nil => rfl
  | cons symbol one ih =>
      obtain ⟨other, plain⟩ := List.ne_and_not_mem_of_not_mem_cons plain
      rw [List.cons_append, lineEnds, ih plain, List.cons_append]
      · rintro _ rfl
        contradiction
      · rintro rfl
        contradiction

theorem lineEnds_return {rest : List Char} (alone : rest.head? ≠ some '\n') :
    lineEnds ('\r' :: rest) = '\n' :: lineEnds rest := by
  rw [lineEnds]
  rintro tail rfl
  exact alone rfl

theorem head?_flatMap_escape {value rest : List Char} (value_alone : value.head? ≠ some '\n')
    (alone : rest.head? ≠ some '\n') : (value.flatMap escape ++ rest).head? ≠ some '\n' := by
  cases value with
  | nil => exact alone
  | cons symbol value =>
      rcases escape_cases symbol with ⟨plain, _⟩ | ⟨name, written, _⟩
      · rw [List.flatMap_cons, plain]
        exact value_alone
      · rw [List.flatMap_cons, written]
        simp

theorem lineEnds_text (value : List Char) {rest : List Char} (alone : rest.head? ≠ some '\n') :
    lineEnds (value.flatMap escape ++ rest) = (lineEnds value).flatMap escape ++ lineEnds rest := by
  induction value using lineEnds.induct with
  | case1 value ih =>
      change lineEnds ('\r' :: '\n' :: (value.flatMap escape ++ rest)) = _
      rw [lineEnds, ih, lineEnds]
      rfl
  | case2 value lone ih =>
      have value_alone : value.head? ≠ some '\n' := by
        cases value with
        | nil => nofun
        | cons symbol value =>
            rintro ⟨⟩
            exact lone _ rfl
      rw [List.flatMap_cons, List.append_assoc]
      change lineEnds ('\r' :: (value.flatMap escape ++ rest)) = _
      rw [lineEnds_return (head?_flatMap_escape value_alone alone), ih,
        lineEnds_return value_alone]
      rfl
  | case3 symbol value pair lone ih =>
      have other : symbol ≠ '\r' := by
        rintro rfl
        exact lone rfl
      rw [List.flatMap_cons, List.append_assoc, lineEnds_plain (return_notMem_escape other), ih,
        lineEnds, List.flatMap_cons, List.append_assoc]
      · exact pair
      · exact lone
  | case4 => rfl

theorem lineEnds_tag {name : List Char} {attributes : List (List Char × List Char)}
    (named : isName name) (keys : ∀ entry ∈ attributes, isName entry.1) (rest : List Char) :
    lineEnds ('<' :: name ++ attributes.flatMap writeAttribute ++ rest) =
      '<' :: name ++ attributes.flatMap writeAttribute ++ lineEnds rest := by
  refine lineEnds_plain ?_ rest
  simp only [List.cons_append, List.mem_cons, List.mem_append, List.mem_flatMap]
  rintro (wrong | wrong | ⟨entry, member, wrong⟩)
  · cases wrong
  · exact return_notMem_name named wrong
  · exact return_notMem_writeAttribute (keys entry member) wrong

theorem head?_write_element (name : List Char) (attributes : List (List Char × List Char))
    (children : List Node) (rest : List Char) :
    ((Node.element name attributes children).write ++ rest).head? = some '<' := by
  cases children <;> simp [Node.write]

/-- The ends of the lines of some nodes, of each of which they are known. -/
theorem lineEnds_children {children : List Node}
    (apart : children.IsChain fun one two => one.isText → two.isText = false)
    (each : ∀ child ∈ children, ∀ rest : List Char,
      (child.isText → rest.head? ≠ some '\n') →
      lineEnds (child.write ++ rest) = child.normal.write ++ lineEnds rest)
    {rest : List Char} (alone : rest.head? ≠ some '\n') :
    lineEnds (children.flatMap Node.write ++ rest) =
      (children.map Node.normal).flatMap Node.write ++ lineEnds rest := by
  induction children with
  | nil => rfl
  | cons child children ih =>
      have followed : child.isText →
          (children.flatMap Node.write ++ rest).head? ≠ some '\n' := by
        intro isText
        cases children with
        | nil => exact alone
        | cons next children =>
            have element := (List.isChain_cons_cons.mp apart).1 isText
            cases next with
            | text value => cases element
            | element name attributes below =>
                rw [List.flatMap_cons, List.append_assoc, head?_write_element]
                simp
      rw [List.flatMap_cons, List.append_assoc, each child List.mem_cons_self _ followed,
        ih apart.of_cons fun child member => each child (List.mem_cons_of_mem _ member),
        List.map_cons, List.flatMap_cons, List.append_assoc]

theorem write_of_children {name : List Char} {attributes : List (List Char × List Char)}
    {children : List Node} (some_child : children ≠ []) (rest : List Char) :
    (Node.element name attributes children).write ++ rest =
      '<' :: name ++ attributes.flatMap writeAttribute ++
        (['>'] ++ (children.flatMap Node.write ++ ('<' :: '/' :: name ++ '>' :: rest))) := by
  cases children with
  | nil => exact (some_child rfl).elim
  | cons child children => simp [Node.write, writeAll_eq_flatMap]

/-- A reader has the lines of a document end as in its normal form. -/
theorem Node.Sound.lineEnds_write {node : Node} (sound : node.Sound) {rest : List Char}
    (alone : node.isText → rest.head? ≠ some '\n') :
    lineEnds (node.write ++ rest) = node.normal.write ++ lineEnds rest := by
  induction sound generalizing rest with
  | @text value => exact lineEnds_text value (alone rfl)
  | @element name attributes children named distinct keys values apart each ih =>
      by_cases empty : children = []
      · subst empty
        rw [write, List.append_assoc, lineEnds_tag named keys, lineEnds_plain (by decide)]
        simp [normal, normal.normalAll, write]
      · have below := lineEnds_children apart (fun child member rest => ih child member)
          (show ('<' :: '/' :: name ++ '>' :: rest).head? ≠ some '\n' by simp)
        have closing : lineEnds ('<' :: '/' :: name ++ '>' :: rest) =
            '<' :: '/' :: name ++ '>' :: lineEnds rest := by
          have plain : '\r' ∉ '<' :: '/' :: name ++ ['>'] := by
            simpa using return_notMem_name named
          simpa using lineEnds_plain plain rest
        rw [normal, normalAll_eq_map, write_of_children empty,
          write_of_children (by simpa using empty), lineEnds_tag named keys,
          lineEnds_plain (by decide), below, closing]

theorem mem_lineEnds {value : List Char} {symbol : Char} (member : symbol ∈ lineEnds value) :
    symbol = '\n' ∨ symbol ∈ value := by
  induction value using lineEnds.induct with
  | case1 value ih =>
      rw [lineEnds, List.mem_cons] at member
      exact member.imp_right fun later => by simp [ih later]
  | case2 value lone ih =>
      rw [lineEnds_return, List.mem_cons] at member
      · exact member.elim .inl fun later => (ih later).imp_right (List.mem_cons_of_mem _)
      · intro starts
        obtain ⟨rest, rfl⟩ := List.head?_eq_some_iff.mp starts
        exact lone rest rfl
  | case3 other value pair lone ih =>
      rw [lineEnds, List.mem_cons] at member
      · exact member.elim (fun same => .inr (same ▸ List.mem_cons_self))
          fun later => (ih later).imp_right (List.mem_cons_of_mem _)
      · exact pair
      · exact lone
  | case4 => cases member

theorem lineEnds_ne_nil {value : List Char} (written : value ≠ []) : lineEnds value ≠ [] := by
  unfold lineEnds
  split
  · exact List.cons_ne_nil _ _
  · exact List.cons_ne_nil _ _
  · exact List.cons_ne_nil _ _
  · exact written

theorem Node.Sound.normal {node : Node} (sound : node.Sound) : node.normal.Sound := by
  induction sound with
  | text written chars =>
      refine .text (lineEnds_ne_nil written) fun symbol member => ?_
      rcases mem_lineEnds member with rfl | old
      · rfl
      · exact chars symbol old
  | element named distinct keys values apart each ih =>
      rw [Node.normal, normalAll_eq_map]
      refine .element named distinct keys values ?_ ?_
      · exact (List.isChain_map _).mpr (by simpa using apart)
      · simpa using ih

/-! ### Reading what is written -/

namespace State

theorem run_cons {state next : State} {symbol : Char} (stepped : step state symbol = some next)
    (rest : List Char) : run state (symbol :: rest) = run next rest := by
  rw [run, List.foldlM_cons, stepped]
  rfl

/-- A reader that gathers what is written of each symbol gathers all. -/
theorem run_gather {states : List Char → State} {writes : Char → List Char} {value : List Char}
    (gathers : ∀ symbol ∈ value, ∀ before rest,
      run (states before) (writes symbol ++ rest) = run (states (before ++ [symbol])) rest)
    (before rest : List Char) :
    run (states before) (value.flatMap writes ++ rest) = run (states (before ++ value)) rest := by
  induction value generalizing before with
  | nil => simp
  | cons symbol value ih =>
      rw [List.flatMap_cons, List.append_assoc, gathers symbol List.mem_cons_self,
        ih fun other member => gathers other (List.mem_cons_of_mem _ member), List.append_assoc]
      rfl

theorem run_name {states : List Char → State} {name : List Char}
    (gathers : ∀ symbol, isNameChar symbol → ∀ before,
      step (states before) symbol = some (states (before ++ [symbol])))
    (named : ∀ symbol ∈ name, isNameChar symbol) (before rest : List Char) :
    run (states before) (name ++ rest) = run (states (before ++ name)) rest := by
  have gathered := @run_gather states (fun symbol => [symbol]) name
    (fun symbol member before => run_cons (gathers symbol (named symbol member) before))
    before rest
  rwa [List.flatMap_singleton'] at gathered

/-! #### Texts -/

/-- What has been read, with a text that is being read. -/
def withText (value : List Char) (done : List Node) : List Node :=
  if value = [] then done else .text value :: done

theorem push_withText {done : List Node} (apart : ∀ node ∈ done.head?, node.isText = false)
    (value : List Char) (symbol : Char) :
    push symbol (withText value done) = withText (value ++ [symbol]) done := by
  rw [withText, withText, if_neg (List.append_ne_nil_of_right_ne_nil _ (List.cons_ne_nil _ _))]
  by_cases empty : value = []
  · subst empty
    cases done with
    | nil => rfl
    | cons node done =>
        cases node with
        | text value => cases apart _ rfl
        | element name attributes children => rfl
  · rw [if_neg empty]
    rfl

/-- A character of a text is read as it was written. -/
theorem run_escape {symbol : Char} (char : isChar symbol) (top : Open) (above : List Open)
    (done : List Node) (rest : List Char) :
    run ⟨top :: above, done, .content⟩ (escape symbol ++ rest) =
      run ⟨top :: above, push symbol done, .content⟩ rest := by
  by_cases ampersand : symbol = '&'
  · subst ampersand
    rfl
  by_cases less : symbol = '<'
  · subst less
    rfl
  by_cases greater : symbol = '>'
  · subst greater
    rfl
  rw [escape_of_plain ampersand less greater]
  refine run_cons ?_ rest
  simp [step, addChar, ampersand, less, greater, char]

theorem run_text {value : List Char} (chars : ∀ symbol ∈ value, isChar symbol) (top : Open)
    (above : List Open) {done : List Node} (apart : ∀ node ∈ done.head?, node.isText = false)
    (rest : List Char) :
    run ⟨top :: above, done, .content⟩ (value.flatMap escape ++ rest) =
      run ⟨top :: above, withText value done, .content⟩ rest := by
  refine @run_gather (fun value => ⟨top :: above, withText value done, .content⟩) _ _ ?_ [] rest
  intro symbol member before rest
  rw [run_escape (chars symbol member), push_withText apart]

/-! #### Tags -/

section Tags

variable {above : List Open} {done : List Node}

/-- A character of an attribute is read as it was written. -/
theorem run_escapeAttribute {symbol : Char} (char : isChar symbol) (tag : Tag)
    (key before rest : List Char) :
    run ⟨above, done, .value tag key '"' before⟩ (escapeAttribute symbol ++ rest) =
      run ⟨above, done, .value tag key '"' (before ++ [symbol])⟩ rest := by
  by_cases quote : symbol = '"'
  · subst quote
    rfl
  by_cases carriage : symbol = '\r'
  · subst carriage
    rfl
  by_cases line : symbol = '\n'
  · subst line
    rfl
  by_cases tab : symbol = '\t'
  · subst tab
    rfl
  rw [escapeAttribute_of_plain quote carriage line tab]
  by_cases ampersand : symbol = '&'
  · subst ampersand
    rfl
  by_cases less : symbol = '<'
  · subst less
    rfl
  by_cases greater : symbol = '>'
  · subst greater
    rfl
  rw [escape_of_plain ampersand less greater]
  refine run_cons ?_ rest
  by_cases space : symbol = ' '
  · subst space
    rfl
  simp [step, goto, isSpace, quote, carriage, line, tab, ampersand, less, space, char]

theorem run_attribute {entry : List Char × List Char} {tag : Tag} (named : isName entry.1)
    (chars : ∀ symbol ∈ entry.2, isChar symbol) (other : entry.1 ∉ tag.attributes.map Prod.fst)
    (rest : List Char) :
    run ⟨above, done, .between tag false⟩ (writeAttribute entry ++ rest) =
      run ⟨above, done, .between ⟨tag.name, tag.attributes ++ [entry]⟩ false⟩ rest := by
  obtain ⟨key, value⟩ := entry
  obtain ⟨first, more, rfl, start, names⟩ := exists_of_isName named
  have written : writeAttribute (first :: more, value) ++ rest =
      ' ' :: first :: (more ++ '=' :: '"' :: (value.flatMap escapeAttribute ++ '"' :: rest)) := by
    simp [writeAttribute]
  have spaced : step ⟨above, done, .between tag false⟩ ' ' =
      some ⟨above, done, .between tag true⟩ := rfl
  have begun : step ⟨above, done, .between tag true⟩ first =
      some ⟨above, done, .key tag [first]⟩ := by
    obtain ⟨space, slash, greater⟩ := other_of_start start
    simp [step, stepTag, goto, space, slash, greater, start]
  have gathers : ∀ symbol, isNameChar symbol → ∀ before,
      step ⟨above, done, .key tag before⟩ symbol =
        some ⟨above, done, .key tag (before ++ [symbol])⟩ := by
    intro symbol char before
    have unequal : symbol ≠ '=' := by
      rintro rfl
      exact absurd char (by decide)
    simp [step, goto, unequal, char]
  have equals : step ⟨above, done, .key tag (first :: more)⟩ '=' =
      some ⟨above, done, .quote tag (first :: more)⟩ := rfl
  have quoted : step ⟨above, done, .quote tag (first :: more)⟩ '"' =
      some ⟨above, done, .value tag (first :: more) '"' []⟩ := rfl
  have ended : step ⟨above, done, .value tag (first :: more) '"' value⟩ '"' =
      some ⟨above, done, .between ⟨tag.name, tag.attributes ++ [(first :: more, value)]⟩
        false⟩ := by
    have alone : tag.attributes.any (fun entry => entry.1 == first :: more) = false := by
      rw [List.any_eq_false]
      intro old member same
      exact other (List.mem_map.mpr ⟨old, member, eq_of_beq same⟩)
    simp only [step, if_pos, alone]
    rfl
  rw [written, run_cons spaced, run_cons begun]
  rw [@run_name (fun before => ⟨above, done, .key tag before⟩) _ gathers names [first]]
  rw [List.singleton_append, run_cons equals, run_cons quoted]
  rw [@run_gather (fun before => ⟨above, done, .value tag (first :: more) '"' before⟩) _ _
    (fun symbol member before => run_escapeAttribute (chars symbol member) _ _ before) []]
  rw [List.nil_append, run_cons ended]

theorem run_attributes {attributes : List (List Char × List Char)} {tag : Tag}
    (keys : ∀ entry ∈ attributes, isName entry.1)
    (values : ∀ entry ∈ attributes, ∀ symbol ∈ entry.2, isChar symbol)
    (distinct : ((tag.attributes ++ attributes).map Prod.fst).Nodup) (rest : List Char) :
    run ⟨above, done, .between tag false⟩ (attributes.flatMap writeAttribute ++ rest) =
      run ⟨above, done, .between ⟨tag.name, tag.attributes ++ attributes⟩ false⟩ rest := by
  induction attributes generalizing tag with
  | nil => simp
  | cons entry attributes ih =>
      have other : entry.1 ∉ tag.attributes.map Prod.fst := by
        rw [List.map_append, List.map_cons, List.nodup_append] at distinct
        exact fun member => distinct.2.2 _ member _ List.mem_cons_self rfl
      rw [List.flatMap_cons, List.append_assoc,
        run_attribute (keys entry List.mem_cons_self) (values entry List.mem_cons_self) other,
        ih (fun next member => keys next (List.mem_cons_of_mem _ member))
          (fun next member => values next (List.mem_cons_of_mem _ member))
          (by simpa using distinct)]
      simp

/-- A start tag up to its end. -/
theorem run_tag {name : List Char} {attributes : List (List Char × List Char)}
    (named : isName name) (keys : ∀ entry ∈ attributes, isName entry.1)
    (values : ∀ entry ∈ attributes, ∀ symbol ∈ entry.2, isChar symbol)
    (distinct : (attributes.map Prod.fst).Nodup) {last : Char} (ends : isNameChar last = false)
    (rest : List Char) :
    run ⟨above, done, .content⟩
        ('<' :: name ++ attributes.flatMap writeAttribute ++ last :: rest) =
      run ⟨above, done, .between ⟨name, attributes⟩ false⟩ (last :: rest) := by
  obtain ⟨first, more, rfl, start, names⟩ := exists_of_isName named
  have less : step ⟨above, done, .content⟩ '<' = some ⟨above, done, .markup⟩ := rfl
  have begun : step ⟨above, done, .markup⟩ first = some ⟨above, done, .startTag [first]⟩ := by
    simp [step, goto, (other_of_start start).2.1, start]
  have gathers : ∀ symbol, isNameChar symbol → ∀ before,
      step ⟨above, done, .startTag before⟩ symbol =
        some ⟨above, done, .startTag (before ++ [symbol])⟩ := by
    intro symbol char before
    simp [step, goto, char]
  have leaves : ∀ symbol rest, isNameChar symbol = false →
      run ⟨above, done, .startTag (first :: more)⟩ (symbol :: rest) =
        run ⟨above, done, .between ⟨first :: more, []⟩ false⟩ (symbol :: rest) := by
    intro symbol rest other
    have same : step ⟨above, done, .startTag (first :: more)⟩ symbol =
        step ⟨above, done, .between ⟨first :: more, []⟩ false⟩ symbol := by
      simp only [step, other, Bool.false_eq_true, if_false]
      rfl
    rw [run, run, List.foldlM_cons, List.foldlM_cons, same]
  have left : run ⟨above, done, .startTag (first :: more)⟩
      (attributes.flatMap writeAttribute ++ last :: rest) =
        run ⟨above, done, .between ⟨first :: more, []⟩ false⟩
          (attributes.flatMap writeAttribute ++ last :: rest) := by
    cases attributes with
    | nil => exact leaves last rest ends
    | cons entry attributes => exact leaves ' ' _ (by decide)
  have read := @run_attributes above done attributes ⟨first :: more, []⟩ keys values
    (by simpa using distinct) (last :: rest)
  rw [List.nil_append] at read
  rw [List.append_assoc, List.cons_append, List.cons_append, run_cons less, run_cons begun]
  rw [@run_name (fun before => ⟨above, done, .startTag before⟩) _ gathers names [first]]
  rw [List.singleton_append, left, read]

theorem run_endTag {name : List Char} (named : isName name)
    (attributes : List (List Char × List Char)) (before : List Node) (rest : List Char) :
    run ⟨⟨⟨name, attributes⟩, before⟩ :: above, done, .content⟩
        ('<' :: '/' :: name ++ '>' :: rest) =
      run ⟨above, .element name attributes done.reverse :: before, .content⟩ rest := by
  have gathers : ∀ symbol, isNameChar symbol → ∀ read,
      step ⟨⟨⟨name, attributes⟩, before⟩ :: above, done, .endTag read⟩ symbol =
        some ⟨⟨⟨name, attributes⟩, before⟩ :: above, done, .endTag (read ++ [symbol])⟩ := by
    intro symbol char read
    have unequal : symbol ≠ '>' := by
      rintro rfl
      exact absurd char (by decide)
    simp [step, goto, unequal, char]
  have closes : step ⟨⟨⟨name, attributes⟩, before⟩ :: above, done, .endTag name⟩ '>' =
      some ⟨above, .element name attributes done.reverse :: before, .content⟩ := by
    simp [step, closeTag]
  have opened : run ⟨⟨⟨name, attributes⟩, before⟩ :: above, done, .content⟩
      ('<' :: '/' :: name ++ '>' :: rest) =
        run ⟨⟨⟨name, attributes⟩, before⟩ :: above, done, .endTag []⟩ (name ++ '>' :: rest) := rfl
  rw [opened, @run_name (fun read => ⟨⟨⟨name, attributes⟩, before⟩ :: above, done, .endTag read⟩) _
    gathers (all_of_isName named) [], List.nil_append, run_cons closes]

end Tags

/-! #### Documents -/

/-- A node may be read next. -/
def Fits (node : Node) (above : List Open) (done : List Node) : Prop :=
  (above = [] → node.isText = false ∧ done = []) ∧
    (node.isText → ∀ last ∈ done.head?, last.isText = false)

/-- Nodes of which each is read as it was written. -/
theorem run_children {children : List Node}
    (apart : children.IsChain fun one two => one.isText → two.isText = false)
    (each : ∀ child ∈ children, ∀ above done rest, Fits child above done →
      run ⟨above, done, .content⟩ (child.write ++ rest) =
        run ⟨above, child :: done, .content⟩ rest)
    (top : Open) (above : List Open) {done : List Node}
    (first : ∀ child ∈ children.head?, child.isText → ∀ last ∈ done.head?, last.isText = false)
    (rest : List Char) :
    run ⟨top :: above, done, .content⟩ (children.flatMap Node.write ++ rest) =
      run ⟨top :: above, children.reverse ++ done, .content⟩ rest := by
  induction children generalizing done with
  | nil => rfl
  | cons child children ih =>
      have next : ∀ other ∈ children.head?, other.isText →
          ∀ last ∈ (child :: done).head?, last.isText = false := by
        rintro other starts text _ ⟨⟩
        cases children with
        | nil => cases starts
        | cons other children =>
            obtain ⟨⟩ := starts
            by_contra before
            rw [(List.isChain_cons_cons.mp apart).1 (by simpa using before)] at text
            cases text
      have fits : Fits child (top :: above) done := ⟨(fun none => by cases none), first child rfl⟩
      rw [List.flatMap_cons, List.append_assoc, each child List.mem_cons_self _ _ _ fits,
        ih apart.of_cons (fun other member => each other (List.mem_cons_of_mem _ member)) next,
        List.reverse_cons, List.append_assoc, List.singleton_append]

/-- A node is read as it was written. -/
theorem run_write {node : Node} (sound : node.Sound) {above : List Open} {done : List Node}
    (fits : Fits node above done) (rest : List Char) :
    run ⟨above, done, .content⟩ (node.write ++ rest) =
      run ⟨above, node :: done, .content⟩ rest := by
  induction sound generalizing above done rest with
  | text written chars =>
      cases above with
      | nil => cases (fits.1 rfl).1
      | cons top above =>
          rw [Node.write, run_text chars top above (fits.2 rfl), withText, if_neg written]
  | @element name attributes children named distinct keys values apart each ih =>
      have may : mayOpen ⟨above, done, .content⟩ := by
        cases above with
        | nil => rw [(fits.1 rfl).2]; rfl
        | cons top above => rfl
      by_cases empty : children = []
      · subst empty
        have slash : step ⟨above, done, .between ⟨name, attributes⟩ true⟩ '/' =
            some ⟨above, done, .slash ⟨name, attributes⟩⟩ := rfl
        have closes : step ⟨above, done, .slash ⟨name, attributes⟩⟩ '>' =
            some ⟨above, .element name attributes [] :: done, .content⟩ :=
          if_pos may
        calc run ⟨above, done, .content⟩ ((Node.element name attributes []).write ++ rest)
            = run ⟨above, done, .between ⟨name, attributes⟩ false⟩ (' ' :: '/' :: '>' :: rest) := by
              rw [Node.write, List.append_assoc]
              exact run_tag named keys values distinct (by decide) _
          _ = run ⟨above, done, .between ⟨name, attributes⟩ true⟩ ('/' :: '>' :: rest) := rfl
          _ = run ⟨above, .element name attributes [] :: done, .content⟩ rest := by
              rw [run_cons slash, run_cons closes]
      · have opens : step ⟨above, done, .between ⟨name, attributes⟩ false⟩ '>' =
            some ⟨⟨⟨name, attributes⟩, done⟩ :: above, [], .content⟩ :=
          if_pos may
        rw [write_of_children empty]
        refine (run_tag named keys values distinct (by decide) _).trans ?_
        rw [run_cons opens]
        change run _ (children.flatMap Node.write ++ ('<' :: '/' :: name ++ '>' :: rest)) = _
        rw [run_children apart (fun child member above done rest fits => ih child member fits rest)
            _ above (fun _ _ _ _ none => by cases none),
          run_endTag named, List.append_nil, List.reverse_reverse]

/-- White space after the element of a document. -/
theorem run_spaces {root : Node} {trail : List Char} (spaces : ∀ symbol ∈ trail, isSpace symbol) :
    run { done := [root] } trail = some { done := [root] } := by
  induction trail with
  | nil => rfl
  | cons symbol trail ih =>
      have stays : step { done := [root] } symbol = some { done := [root] } := by
        have space := spaces symbol List.mem_cons_self
        have other : ∀ wrong, isSpace wrong = false → symbol ≠ wrong := by
          rintro wrong none rfl
          rw [none] at space
          cases space
        simp [step, other '<' (by decide), other '&' (by decide), other '>' (by decide), space]
      rw [run_cons stays]
      exact ih fun other member => spaces other (List.mem_cons_of_mem _ member)

end State

/-- A document is read as it was written, but for the ends of its lines. -/
theorem read_write {root : Node} (sound : root.Sound) (element : root.isText = false)
    {trail : List Char} (spaces : ∀ symbol ∈ trail, isSpace symbol) :
    read (root.write ++ trail) = some root.normal := by
  have fits : State.Fits root.normal [] [] :=
    ⟨fun _ => ⟨by simpa using element, rfl⟩, fun _ _ none => by cases none⟩
  have ends : ∀ symbol ∈ lineEnds trail, isSpace symbol := by
    intro symbol member
    rcases mem_lineEnds member with rfl | old
    · rfl
    · exact spaces symbol old
  have done : State.run {} (lineEnds (root.write ++ trail)) = some { done := [root.normal] } := by
    rw [sound.lineEnds_write (by simp [element]), State.run_write sound.normal fits]
    exact State.run_spaces ends
  rw [read, done]

end Markup
