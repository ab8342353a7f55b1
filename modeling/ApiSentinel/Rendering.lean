import ApiSentinel.Templates
import ApiSentinel.Values

/-!
# Rendering templates

`render` replaces the placeholders `${name}` in the strings of a value.  A string that is
one placeholder becomes the variable itself; in any other string the text of the variables
is inserted and not read again.
-/

namespace ApiSentinel

open Scanning

section Render

-- `os.environ`, the dictionary of variables, and `str` of a float, a list or a dictionary.
variable (environ : String → Option String) (vars : List (String × Json)) (repr : Json → String)

/-- `resolve(name)` -/
def resolve (name : List Char) : Except Raised Json :=
  if "env:".toList.isPrefixOf name then
    let key := String.ofList (name.drop 4)
    match environ key with
    | none => .error (valueError ("missing environment variable: " ++ key))
    | some value => .ok (.str value)
  else
    match vars.lookup (String.ofList name) with
    | none => .error (valueError ("unknown template variable: " ++ String.ofList name))
    | some value => .ok value

/-- `str(resolve(name))` -/
def resolveText (name : List Char) : Except Raised (List Char) := do
  pure (← (← resolve environ vars name).spell repr).toList

/-- `render` of a string -/
def renderText (text : String) : Except Raised Json :=
  match fullMatch variablePattern text.toList with
  | some name => resolve environ vars name
  | none => do
      let filled ← fillM (resolveText environ vars repr) (scan variablePattern text.toList)
      pure (.str (String.ofList filled))

mutual

def render : Json → Except Raised Json
  | .str text => renderText environ vars repr text
  | .arr items => do pure (.arr (← renderItems items))
  | .obj members => do pure (.obj (← renderMembers members))
  | value => .ok value

def renderItems : List Json → Except Raised (List Json)
  | [] => .ok []
  | item :: items => do
      let result ← render item
      let results ← renderItems items
      pure (result :: results)

def renderMembers : List (String × Json) → Except Raised (List (String × Json))
  | [] => .ok []
  | (key, child) :: members => do
      let result ← render child
      let results ← renderMembers members
      pure ((key, result) :: results)

end

/-! ### The law -/

/-- What a placeholder stands for: an environment variable that is set, if its name has the
prefix `env:`, and a known variable otherwise. -/
inductive Resolves : List Char → Json → Prop
  | environment {key value} (set : environ (String.ofList key) = some value) :
      Resolves ("env:".toList ++ key) (.str value)
  | known {name value} (plain : ¬ "env:".toList <+: name)
      (found : vars.lookup (String.ofList name) = some value) : Resolves name value

/-- The text is one placeholder, with this name. -/
def IsPlaceholder (text name : List Char) : Prop :=
  name ≠ [] ∧ '\x7d' ∉ name ∧ text = variableBraced name

/-- A text read from left to right: a placeholder is read as a whole, and a symbol that
begins none as itself. -/
inductive Reads : List Char → List (Piece Char (List Char)) → Prop
  | nil : Reads [] []
  | placeholder {text name rest pieces} (whole : IsPlaceholder text name)
      (later : Reads rest pieces) : Reads (text ++ rest) (.found name :: pieces)
  | plain {symbol rest pieces}
      (none : ¬ ∃ text name, IsPlaceholder text name ∧ text <+: symbol :: rest)
      (later : Reads rest pieces) : Reads (symbol :: rest) (.plain symbol :: pieces)

/-- The rendered form of a string. -/
inductive RenderedText : String → Json → Prop
  | whole {text name value} (placeholder : IsPlaceholder text.toList name)
      (resolves : Resolves environ vars name value) : RenderedText text value
  | filled {text pieces} {blocks : List Char → List Char}
      (mixed : ¬ ∃ name, IsPlaceholder text.toList name) (reads : Reads text.toList pieces)
      (resolves : ∀ name, .found name ∈ pieces → ∃ value, Resolves environ vars name value ∧
        value.printable = true ∧ blocks name = (value.toStr repr).toList) :
      RenderedText text (.str (String.ofList (fill blocks pieces)))

/-- Neither a string nor a list nor a dictionary. -/
def Json.isScalar : Json → Bool
  | .str _ | .arr _ | .obj _ => false
  | _ => true

mutual

/-- The rendered form of a value: only its strings change. -/
inductive Rendered : Json → Json → Prop
  | scalar {value} (leaf : value.isScalar = true) : Rendered value value
  | text {text value} (rendered : RenderedText environ vars repr text value) :
      Rendered (.str text) value
  | list {items results} (all : RenderedItems items results) :
      Rendered (.arr items) (.arr results)
  | dict {members results} (all : RenderedMembers members results) :
      Rendered (.obj members) (.obj results)

inductive RenderedItems : List Json → List Json → Prop
  | nil : RenderedItems [] []
  | cons {item result items results} (first : Rendered item result)
      (others : RenderedItems items results) : RenderedItems (item :: items) (result :: results)

inductive RenderedMembers : List (String × Json) → List (String × Json) → Prop
  | nil : RenderedMembers [] []
  | cons {key child result members results} (first : Rendered child result)
      (others : RenderedMembers members results) :
      RenderedMembers ((key, child) :: members) ((key, result) :: results)

end

/-- The strings of a value that are not keys. -/
inductive StringLeaf : Json → String → Prop
  | text {text} : StringLeaf (.str text) text
  | item {items item text} (member : item ∈ items) (inside : StringLeaf item text) :
      StringLeaf (.arr items) text
  | entry {members : List (String × Json)} {key child text} (member : (key, child) ∈ members)
      (inside : StringLeaf child text) : StringLeaf (.obj members) text

/-- Some placeholder in some string stands for nothing. -/
def Unresolvable (value : Json) : Prop :=
  ∃ text pieces name, StringLeaf value text ∧ Reads text.toList pieces ∧ .found name ∈ pieces ∧
    ¬ ∃ resolved, Resolves environ vars name resolved

/-- A placeholder in a text stands for nothing, or it is not the whole text and stands for a
value with an integer of too many digits. -/
inductive Breaks (text : List Char) (name : List Char) : Prop
  | unknown (lost : ¬ ∃ value, Resolves environ vars name value)
  | unprintable {value} (mixed : ¬ ∃ whole, IsPlaceholder text whole)
      (resolves : Resolves environ vars name value) (long : value.printable = false)

/-- Some placeholder in some string cannot be replaced. -/
def Unrenderable (value : Json) : Prop :=
  ∃ text pieces name, StringLeaf value text ∧ Reads text.toList pieces ∧ .found name ∈ pieces ∧
    Breaks environ vars text.toList name

end Render

/-! ### Reading -/

theorem isPlaceholder_iff {text name : List Char} :
    IsPlaceholder text name ↔ fullMatch variablePattern text = some name := by
  rw [fullMatch_eq_some_iff]
  constructor
  · rintro ⟨nonempty, closed, rfl⟩
    refine ⟨'$', braced name, rfl, variablePattern_eq_some_iff.mpr ⟨nonempty, closed, ?_, [], ?_⟩⟩
    · simp [braced]
    · rw [List.append_nil]
      rfl
  · rintro ⟨symbol, rest, rfl, hit⟩
    obtain ⟨nonempty, closed, length, tail, same⟩ := variablePattern_eq_some_iff.mp hit
    refine ⟨nonempty, closed, ?_⟩
    have size := congrArg List.length same
    simp only [variableBraced, braced, List.length_cons, List.length_append, List.length_nil]
      at size
    have nothing : tail = [] := by
      rw [← List.length_eq_zero_iff]
      omega
    rw [same, nothing, List.append_nil]

theorem variablePattern_isSome_iff {text : List Char} :
    (variablePattern text).isSome ↔ ∃ whole name, IsPlaceholder whole name ∧ whole <+: text := by
  rw [Option.isSome_iff_exists]
  constructor
  · rintro ⟨⟨name, more⟩, hit⟩
    obtain ⟨nonempty, closed, _, rest, rfl⟩ := variablePattern_eq_some_iff.mp hit
    exact ⟨_, name, ⟨nonempty, closed, rfl⟩, List.prefix_append _ rest⟩
  · rintro ⟨_, name, ⟨nonempty, closed, rfl⟩, rest, rfl⟩
    exact ⟨_, variablePattern_eq_some_iff.mpr ⟨nonempty, closed, rfl, rest, rfl⟩⟩

/-- A text is read in one way, the one in which it is scanned. -/
theorem reads_iff {text : List Char} {pieces : List (Piece Char (List Char))} :
    Reads text pieces ↔ pieces = scan variablePattern text := by
  constructor
  · intro reads
    induction reads with
    | nil => rfl
    | placeholder whole later ih =>
        obtain ⟨nonempty, closed, rfl⟩ := whole
        rename_i name rest pieces
        have hit : variablePattern (variableBraced name ++ rest) = some (name, name.length + 2) :=
          variablePattern_eq_some_iff.mpr ⟨nonempty, closed, rfl, rest, rfl⟩
        rw [variableBraced, List.cons_append] at hit ⊢
        rw [scan_cons_of_some hit, drop_braced, ih]
    | plain none later ih =>
        rw [← variablePattern_isSome_iff, Option.not_isSome_iff_eq_none] at none
        rw [scan_cons_of_none none, ih]
  · rintro rfl
    induction text using scan_induction variablePattern with
    | nil => exact .nil
    | found symbol rest name more hit ih =>
        obtain ⟨nonempty, closed, rfl, tail, same⟩ := variablePattern_eq_some_iff.mp hit
        rw [variableBraced, List.cons_append] at same
        obtain ⟨rfl, rfl⟩ := List.cons.inj same
        rw [scan_cons_of_some hit, drop_braced]
        rw [drop_braced] at ih
        exact .placeholder ⟨nonempty, closed, rfl⟩ ih
    | plain symbol rest miss ih =>
        rw [scan_cons_of_none miss]
        refine .plain ?_ ih
        rw [← variablePattern_isSome_iff, miss]
        exact Bool.false_ne_true

/-! ### Resolving -/

section Law

variable {environ : String → Option String} {vars : List (String × Json)} {repr : Json → String}

theorem resolve_eq_ok_iff {name : List Char} {value : Json} :
    resolve environ vars name = .ok value ↔ Resolves environ vars name value := by
  unfold resolve
  constructor
  · intro resolved
    split at resolved
    · rename_i starts
      obtain ⟨key, rfl⟩ := List.isPrefixOf_iff_prefix.mp starts
      have dropped : ("env:".toList ++ key).drop 4 = key := rfl
      dsimp only at resolved
      rw [dropped] at resolved
      cases set : environ (String.ofList key) with
      | none => simp [set] at resolved
      | some found =>
          simp only [set, Except.ok.injEq] at resolved
          exact resolved ▸ .environment set
    · rename_i plain
      cases known : vars.lookup (String.ofList name) with
      | none => simp [known] at resolved
      | some found =>
          simp only [known, Except.ok.injEq] at resolved
          subst found
          exact .known (fun starts => plain (List.isPrefixOf_iff_prefix.mpr starts)) known
  · intro resolves
    cases resolves with
    | @environment key value set =>
        have dropped : ("env:".toList ++ key).drop 4 = key := rfl
        rw [if_pos (List.isPrefixOf_iff_prefix.mpr (List.prefix_append _ key)), dropped]
        simp only [set]
    | known plain found =>
        rw [if_neg (fun starts => plain (List.isPrefixOf_iff_prefix.mp starts)), found]

theorem type_of_resolve {name : List Char} {raised : Raised}
    (failed : resolve environ vars name = .error raised) : raised.type = "ValueError" := by
  unfold resolve at failed
  split at failed
  · dsimp only at failed
    split at failed
    · cases failed
      rfl
    · cases failed
  · split at failed
    · cases failed
      rfl
    · cases failed

theorem resolveText_eq_ok_iff {name block : List Char} :
    resolveText environ vars repr name = .ok block ↔
      ∃ value, Resolves environ vars name value ∧ value.printable = true ∧
        block = (value.toStr repr).toList := by
  unfold resolveText
  simp only [except_bind_eq_ok, resolve_eq_ok_iff, Json.spell_eq_ok_iff]
  constructor
  · rintro ⟨value, resolves, _, ⟨printable, rfl⟩, spelled⟩
    exact ⟨value, resolves, printable, (Except.ok.inj spelled).symm⟩
  · rintro ⟨value, resolves, printable, rfl⟩
    exact ⟨value, resolves, _, ⟨printable, rfl⟩, rfl⟩

theorem type_of_resolveText {name : List Char} {raised : Raised}
    (failed : resolveText environ vars repr name = .error raised) : raised.type = "ValueError" := by
  rcases except_bind_eq_error.mp failed with first | ⟨value, _, failed⟩
  · exact type_of_resolve first
  · rcases except_bind_eq_error.mp failed with spelled | ⟨text, _, failed⟩
    · unfold Json.spell at spelled
      split at spelled
      · cases spelled
      · cases spelled
        rfl
    · cases failed

/-- A text is inserted, or its placeholder stands for nothing or for an unprintable value. -/
theorem resolveText_eq_error_iff {text name : List Char}
    (mixed : ¬ ∃ whole, IsPlaceholder text whole) :
    (∃ raised, resolveText environ vars repr name = .error raised) ↔
      Breaks environ vars text name := by
  cases outcome : resolveText environ vars repr name with
  | ok block =>
      obtain ⟨value, resolves, printable, _⟩ := resolveText_eq_ok_iff.mp outcome
      simp only [reduceCtorEq, exists_false, false_iff]
      intro breaks
      cases breaks with
      | unknown lost => exact lost ⟨value, resolves⟩
      | unprintable _ again long =>
          cases (resolve_eq_ok_iff.mpr resolves).symm.trans (resolve_eq_ok_iff.mpr again)
          cases printable.symm.trans long
  | error raised =>
      simp only [Except.error.injEq, exists_eq', true_iff]
      by_cases known : ∃ value, Resolves environ vars name value
      · obtain ⟨value, resolves⟩ := known
        refine .unprintable mixed resolves ?_
        by_contra printable
        have spelled := (@resolveText_eq_ok_iff environ vars repr name _).mpr
          ⟨value, resolves, by simpa using printable, rfl⟩
        cases outcome.symm.trans spelled
      · exact .unknown known

/-- A name stands for something or cannot be resolved. -/
theorem resolve_eq_error_iff {name : List Char} :
    (∃ raised, resolve environ vars name = .error raised) ↔
      ¬ ∃ value, Resolves environ vars name value := by
  cases outcome : resolve environ vars name with
  | ok value =>
      simp only [reduceCtorEq, exists_false, false_iff, not_not]
      exact ⟨value, resolve_eq_ok_iff.mp outcome⟩
  | error raised =>
      simp only [Except.error.injEq, exists_eq', true_iff]
      rintro ⟨value, resolves⟩
      cases outcome.symm.trans (resolve_eq_ok_iff.mpr resolves)

/-! ### Strings -/

theorem renderText_eq_ok_iff {text : String} {value : Json} :
    renderText environ vars repr text = .ok value ↔ RenderedText environ vars repr text value := by
  unfold renderText
  cases whole : fullMatch variablePattern text.toList with
  | some name =>
      have placeholder := isPlaceholder_iff.mpr whole
      dsimp only
      rw [resolve_eq_ok_iff]
      constructor
      · exact .whole placeholder
      · intro rendered
        cases rendered with
        | whole other resolves =>
            cases whole.symm.trans (isPlaceholder_iff.mp other)
            exact resolves
        | filled mixed => exact absurd ⟨name, placeholder⟩ mixed
  | none =>
      have mixed : ¬ ∃ name, IsPlaceholder text.toList name := by
        rintro ⟨name, placeholder⟩
        cases whole.symm.trans (isPlaceholder_iff.mp placeholder)
      dsimp only
      rw [except_bind_eq_ok]
      constructor
      · rintro ⟨filled, spelled, same⟩
        cases same
        obtain ⟨blocks, resolves, rfl⟩ := fillM_eq_ok_iff.mp spelled
        refine .filled mixed (reads_iff.mpr rfl) ?_
        intro name member
        exact resolveText_eq_ok_iff.mp (resolves name member)
      · intro rendered
        cases rendered with
        | whole placeholder => exact absurd ⟨_, placeholder⟩ mixed
        | filled _ reads resolves =>
            cases reads_iff.mp reads
            refine ⟨_, fillM_of_ok fun name member => ?_, rfl⟩
            exact resolveText_eq_ok_iff.mpr (resolves name member)

theorem type_of_renderText {text : String} {raised : Raised}
    (failed : renderText environ vars repr text = .error raised) : raised.type = "ValueError" := by
  unfold renderText at failed
  split at failed
  · exact type_of_resolve failed
  · rcases except_bind_eq_error.mp failed with stopped | ⟨filled, _, failed⟩
    · obtain ⟨name, _, lost⟩ := exists_of_fillM_error stopped
      exact type_of_resolveText lost
    · cases failed

/-- A string cannot be rendered just if one of its placeholders cannot be replaced. -/
theorem renderText_eq_error_iff {text : String} :
    (∃ raised, renderText environ vars repr text = .error raised) ↔
      ∃ pieces name, Reads text.toList pieces ∧ .found name ∈ pieces ∧
        Breaks environ vars text.toList name := by
  simp only [reads_iff]
  unfold renderText
  cases whole : fullMatch variablePattern text.toList with
  | some name =>
      obtain ⟨nonempty, closed, same⟩ := isPlaceholder_iff.mpr whole
      have alone : scan variablePattern text.toList = [.found name] := by
        have reads := Reads.placeholder ⟨nonempty, closed, rfl⟩ Reads.nil
        rw [List.append_nil, reads_iff] at reads
        rw [same]
        exact reads.symm
      have unknown_iff : Breaks environ vars text.toList name ↔
          ¬ ∃ value, Resolves environ vars name value := by
        constructor
        · intro breaks
          cases breaks with
          | unknown lost => exact lost
          | unprintable mixed => exact absurd ⟨name, isPlaceholder_iff.mpr whole⟩ mixed
        · exact .unknown
      dsimp only
      rw [resolve_eq_error_iff, ← unknown_iff]
      simp [alone]
  | none =>
      have mixed : ¬ ∃ name, IsPlaceholder text.toList name := by
        rintro ⟨name, placeholder⟩
        cases whole.symm.trans (isPlaceholder_iff.mp placeholder)
      dsimp only
      constructor
      · rintro ⟨raised, failed⟩
        rcases except_bind_eq_error.mp failed with stopped | ⟨filled, _, failed⟩
        · obtain ⟨name, member, lost⟩ := exists_of_fillM_error stopped
          exact ⟨_, name, rfl, member, (resolveText_eq_error_iff mixed).mp ⟨raised, lost⟩⟩
        · cases failed
      · rintro ⟨pieces, name, rfl, member, breaks⟩
        cases outcome : fillM (resolveText environ vars repr)
            (scan variablePattern text.toList) with
        | error raised => exact ⟨raised, rfl⟩
        | ok filled =>
            obtain ⟨blocks, spelled, _⟩ := fillM_eq_ok_iff.mp outcome
            obtain ⟨raised, lost⟩ :=
              (@resolveText_eq_error_iff environ vars repr _ _ mixed).mpr breaks
            cases lost.symm.trans (spelled name member)

/-! ### Values -/

theorem render_scalar_iff {value result : Json} (leaf : value.isScalar = true) :
    render environ vars repr value = .ok result ↔ Rendered environ vars repr value result := by
  have same : render environ vars repr value = .ok value := by
    cases value <;> first | rfl | cases leaf
  rw [same, Except.ok.injEq]
  constructor
  · rintro rfl
    exact .scalar leaf
  · intro rendered
    cases rendered with
    | scalar => rfl
    | text | list | dict => cases leaf

mutual

theorem render_eq_ok_iff : ∀ value result : Json,
    render environ vars repr value = .ok result ↔ Rendered environ vars repr value result
  | .str text, result => by
      rw [render, renderText_eq_ok_iff]
      constructor
      · exact .text
      · intro rendered
        cases rendered with
        | scalar leaf => cases leaf
        | text rendered => exact rendered
  | .arr items, result => by
      rw [render, except_bind_eq_ok]
      constructor
      · rintro ⟨results, all, same⟩
        cases same
        exact .list ((renderItems_eq_ok_iff items results).mp all)
      · intro rendered
        cases rendered with
        | scalar leaf => cases leaf
        | list all => exact ⟨_, (renderItems_eq_ok_iff items _).mpr all, rfl⟩
  | .obj members, result => by
      rw [render, except_bind_eq_ok]
      constructor
      · rintro ⟨results, all, same⟩
        cases same
        exact .dict ((renderMembers_eq_ok_iff members results).mp all)
      · intro rendered
        cases rendered with
        | scalar leaf => cases leaf
        | dict all => exact ⟨_, (renderMembers_eq_ok_iff members _).mpr all, rfl⟩
  | .null, result | .bool _, result | .int _, result | .float _, result | .nan, result
  | .infinity _, result => render_scalar_iff rfl

theorem renderItems_eq_ok_iff : ∀ items results : List Json,
    renderItems environ vars repr items = .ok results ↔
      RenderedItems environ vars repr items results
  | [], results => by
      rw [renderItems, Except.ok.injEq]
      constructor
      · rintro rfl
        exact .nil
      · intro rendered
        cases rendered with
        | nil => rfl
  | item :: items, results => by
      rw [renderItems, except_bind_eq_ok]
      constructor
      · rintro ⟨result, first, later⟩
        obtain ⟨others, rest, same⟩ := except_bind_eq_ok.mp later
        cases same
        exact .cons ((render_eq_ok_iff item result).mp first)
          ((renderItems_eq_ok_iff items others).mp rest)
      · intro rendered
        cases rendered with
        | cons first others =>
            refine ⟨_, (render_eq_ok_iff item _).mpr first, ?_⟩
            exact except_bind_eq_ok.mpr ⟨_, (renderItems_eq_ok_iff items _).mpr others, rfl⟩

theorem renderMembers_eq_ok_iff : ∀ members results : List (String × Json),
    renderMembers environ vars repr members = .ok results ↔
      RenderedMembers environ vars repr members results
  | [], results => by
      rw [renderMembers, Except.ok.injEq]
      constructor
      · rintro rfl
        exact .nil
      · intro rendered
        cases rendered with
        | nil => rfl
  | (key, child) :: members, results => by
      rw [renderMembers, except_bind_eq_ok]
      constructor
      · rintro ⟨result, first, later⟩
        obtain ⟨others, rest, same⟩ := except_bind_eq_ok.mp later
        cases same
        exact .cons ((render_eq_ok_iff child result).mp first)
          ((renderMembers_eq_ok_iff members others).mp rest)
      · intro rendered
        cases rendered with
        | cons first others =>
            refine ⟨_, (render_eq_ok_iff child _).mpr first, ?_⟩
            exact except_bind_eq_ok.mpr ⟨_, (renderMembers_eq_ok_iff members _).mpr others, rfl⟩

end

theorem unrenderable_str_iff {text : String} :
    Unrenderable environ vars (.str text) ↔
      ∃ pieces name, Reads text.toList pieces ∧ .found name ∈ pieces ∧
        Breaks environ vars text.toList name := by
  constructor
  · rintro ⟨_, pieces, name, leaf, lost⟩
    cases leaf
    exact ⟨pieces, name, lost⟩
  · rintro ⟨pieces, name, lost⟩
    exact ⟨text, pieces, name, .text, lost⟩

theorem unrenderable_of_item {items : List Json} {item : Json} (member : item ∈ items)
    (lost : Unrenderable environ vars item) : Unrenderable environ vars (.arr items) := by
  obtain ⟨text, pieces, name, leaf, lost⟩ := lost
  exact ⟨text, pieces, name, .item member leaf, lost⟩

theorem unrenderable_of_entry {members : List (String × Json)} {key : String} {child : Json}
    (member : (key, child) ∈ members) (lost : Unrenderable environ vars child) :
    Unrenderable environ vars (.obj members) := by
  obtain ⟨text, pieces, name, leaf, lost⟩ := lost
  exact ⟨text, pieces, name, .entry member leaf, lost⟩

mutual

/-- An exception comes from a placeholder that cannot be replaced. -/
theorem of_render_error : ∀ (value : Json) (raised : Raised),
    render environ vars repr value = .error raised →
      raised.type = "ValueError" ∧ Unrenderable environ vars value
  | .str text, raised, failed =>
      ⟨type_of_renderText failed,
        unrenderable_str_iff.mpr (renderText_eq_error_iff.mp ⟨raised, failed⟩)⟩
  | .arr items, raised, failed => by
      rw [render] at failed
      rcases except_bind_eq_error.mp failed with inside | ⟨results, _, failed⟩
      · obtain ⟨type, item, member, lost⟩ := of_renderItems_error items raised inside
        exact ⟨type, unrenderable_of_item member lost⟩
      · cases failed
  | .obj members, raised, failed => by
      rw [render] at failed
      rcases except_bind_eq_error.mp failed with inside | ⟨results, _, failed⟩
      · obtain ⟨type, key, child, member, lost⟩ := of_renderMembers_error members raised inside
        exact ⟨type, unrenderable_of_entry member lost⟩
      · cases failed
  | .null, _, failed | .bool _, _, failed | .int _, _, failed | .float _, _, failed
  | .nan, _, failed | .infinity _, _, failed => by cases failed

theorem of_renderItems_error : ∀ (items : List Json) (raised : Raised),
    renderItems environ vars repr items = .error raised →
      raised.type = "ValueError" ∧ ∃ item ∈ items, Unrenderable environ vars item
  | [], _, failed => by cases failed
  | item :: items, raised, failed => by
      rw [renderItems] at failed
      rcases except_bind_eq_error.mp failed with first | ⟨result, _, failed⟩
      · obtain ⟨type, lost⟩ := of_render_error item raised first
        exact ⟨type, item, List.mem_cons_self, lost⟩
      · rcases except_bind_eq_error.mp failed with later | ⟨results, _, failed⟩
        · obtain ⟨type, other, member, lost⟩ := of_renderItems_error items raised later
          exact ⟨type, other, List.mem_cons_of_mem _ member, lost⟩
        · cases failed

theorem of_renderMembers_error : ∀ (members : List (String × Json)) (raised : Raised),
    renderMembers environ vars repr members = .error raised →
      raised.type = "ValueError" ∧
        ∃ key child, (key, child) ∈ members ∧ Unrenderable environ vars child
  | [], _, failed => by cases failed
  | (key, child) :: members, raised, failed => by
      rw [renderMembers] at failed
      rcases except_bind_eq_error.mp failed with first | ⟨result, _, failed⟩
      · obtain ⟨type, lost⟩ := of_render_error child raised first
        exact ⟨type, key, child, List.mem_cons_self, lost⟩
      · rcases except_bind_eq_error.mp failed with later | ⟨results, _, failed⟩
        · obtain ⟨type, name, other, member, lost⟩ := of_renderMembers_error members raised later
          exact ⟨type, name, other, List.mem_cons_of_mem _ member, lost⟩
        · cases failed

end

theorem rendered_of_item {items results : List Json} {item : Json}
    (all : RenderedItems environ vars repr items results) (member : item ∈ items) :
    ∃ result, Rendered environ vars repr item result := by
  induction items generalizing results with
  | nil => cases member
  | cons other items ih =>
      cases all with
      | cons first others =>
          rcases List.mem_cons.mp member with rfl | later
          · exact ⟨_, first⟩
          · exact ih others later

theorem rendered_of_entry {members results : List (String × Json)} {key : String} {child : Json}
    (all : RenderedMembers environ vars repr members results) (member : (key, child) ∈ members) :
    ∃ result, Rendered environ vars repr child result := by
  induction members generalizing results with
  | nil => cases member
  | cons entry members ih =>
      cases all with
      | cons first others =>
          rcases List.mem_cons.mp member with same | later
          · cases same
            exact ⟨_, first⟩
          · exact ih others later

/-- A rendered value has a rendered form of each of its strings. -/
theorem renderedText_of_leaf {value result : Json} {text : String} (leaf : StringLeaf value text)
    (rendered : Rendered environ vars repr value result) :
    ∃ spelled, RenderedText environ vars repr text spelled := by
  induction leaf generalizing result with
  | text =>
      cases rendered with
      | scalar leaf => cases leaf
      | text rendered => exact ⟨_, rendered⟩
  | item member _ ih =>
      cases rendered with
      | scalar leaf => cases leaf
      | list all =>
          obtain ⟨inside, first⟩ := rendered_of_item all member
          exact ih first
  | entry member _ ih =>
      cases rendered with
      | scalar leaf => cases leaf
      | dict all =>
          obtain ⟨inside, first⟩ := rendered_of_entry all member
          exact ih first

/-- `render` gives the rendered form of a value, in which only strings change, or raises
`ValueError`, and raises exactly if some placeholder in some string stands for nothing, or
beside other text for a value with an integer of too many digits. -/
theorem render_law (environ : String → Option String) (vars : List (String × Json))
    (repr : Json → String) (value : Json) :
    (∀ result, render environ vars repr value = .ok result ↔
      Rendered environ vars repr value result) ∧
    (∀ raised, render environ vars repr value = .error raised → raised.type = "ValueError") ∧
    ((∃ raised, render environ vars repr value = .error raised) ↔
      Unrenderable environ vars value) := by
  refine ⟨render_eq_ok_iff value, fun raised failed => (of_render_error value raised failed).1, ?_⟩
  constructor
  · rintro ⟨raised, failed⟩
    exact (of_render_error value raised failed).2
  · rintro ⟨text, pieces, name, leaf, reads, member, breaks⟩
    cases outcome : render environ vars repr value with
    | error raised => exact ⟨raised, rfl⟩
    | ok result =>
        obtain ⟨spelled, rendered⟩ :=
          renderedText_of_leaf leaf ((render_eq_ok_iff value result).mp outcome)
        obtain ⟨raised, failed⟩ :=
          renderText_eq_error_iff.mpr ⟨pieces, name, reads, member, breaks⟩
        cases failed.symm.trans (renderText_eq_ok_iff.mpr rendered)

end Law

/-! ### A seed that is not printed -/

namespace Sample

def seeded : List (String × Json) := [("seed", .int (longInteger 4300))]

theorem scan_seeded : scan variablePattern "s-$\x7bseed\x7d".toList =
    [.plain 's', .plain '-', .found "seed".toList] := by rfl

theorem resolves_seed : Resolves (fun _ => none) seeded "seed".toList (.int (longInteger 4300)) :=
  .known (by decide) rfl

end Sample

/-- The seed is known, but it has too many digits to stand in a text. -/
theorem render_counterexample :
    (∃ raised, render (fun _ => none) Sample.seeded (fun _ => "") (.str "s-$\x7bseed\x7d") =
      .error raised) ∧
    ¬ Unresolvable (fun _ => none) Sample.seeded (.str "s-$\x7bseed\x7d") := by
  constructor
  · have mixed : ¬ ∃ whole, IsPlaceholder "s-$\x7bseed\x7d".toList whole := by
      rintro ⟨whole, placeholder⟩
      cases isPlaceholder_iff.mp placeholder
    exact renderText_eq_error_iff.mpr ⟨_, "seed".toList, reads_iff.mpr rfl,
      by rw [Sample.scan_seeded]; simp,
      .unprintable mixed Sample.resolves_seed Sample.not_printable_longInteger⟩
  · rintro ⟨text, pieces, name, leaf, reads, member, lost⟩
    cases leaf
    rw [reads_iff.mp reads, Sample.scan_seeded] at member
    simp only [List.mem_cons, reduceCtorEq, Piece.found.injEq, List.not_mem_nil, or_false,
      false_or] at member
    subst member
    exact lost ⟨_, Sample.resolves_seed⟩

end ApiSentinel
