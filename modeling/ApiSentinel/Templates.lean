import ApiSentinel.Scanning

/-!
# Names in braces

The two patterns with a name in braces: the placeholders of a path and the variables of a
suite.  A name is nonempty and goes up to the next closing brace.
-/

namespace ApiSentinel

open Scanning

/-- `([^}]+)\}`, with the number of characters up to the closing brace. -/
def nameBefore (text : List Char) : Option (List Char × Nat) :=
  let name := text.takeWhile (fun symbol => symbol != '\x7d')
  if name = [] ∨ name.length = text.length then none else some (name, name.length + 1)

/-- `\{([^}]+)\}` -/
def placeholder : Matcher Char (List Char)
  | '\x7b' :: rest => nameBefore rest
  | _ => none

/-- `\$\{([^}]+)\}` -/
def variablePattern : Matcher Char (List Char)
  | '$' :: '\x7b' :: rest => (nameBefore rest).map (fun (name, more) => (name, more + 1))
  | _ => none

/-- A name between its braces. -/
def braced (name : List Char) : List Char := '\x7b' :: (name ++ ['\x7d'])

theorem takeWhile_name {name rest : List Char} (closed : '\x7d' ∉ name) :
    (name ++ '\x7d' :: rest).takeWhile (fun symbol => symbol != '\x7d') = name := by
  induction name with
  | nil => rfl
  | cons symbol name ih =>
      rw [List.mem_cons, not_or] at closed
      have other : (symbol != '\x7d') = true := by simpa using Ne.symm closed.1
      rw [List.cons_append, List.takeWhile_cons, if_pos other, ih closed.2]

theorem nameBefore_eq_some_iff {text name : List Char} {more : Nat} :
    nameBefore text = some (name, more) ↔
      name ≠ [] ∧ '\x7d' ∉ name ∧ more = name.length + 1 ∧
        ∃ rest, text = name ++ '\x7d' :: rest := by
  constructor
  · intro found
    unfold nameBefore at found
    dsimp only at found
    split at found
    · cases found
    · rename_i proper
      rw [not_or] at proper
      obtain ⟨rfl, rfl⟩ := Prod.mk.inj (Option.some.inj found)
      refine ⟨proper.1, ?_, rfl, ?_⟩
      · intro member
        have other := List.all_eq_true.mp List.all_takeWhile _ member
        simp at other
      · have whole := @List.takeWhile_append_dropWhile _ (fun symbol => symbol != '\x7d') text
        cases after : text.dropWhile (fun symbol => symbol != '\x7d') with
        | nil =>
            rw [after, List.append_nil] at whole
            exact absurd (congrArg List.length whole) proper.2
        | cons symbol rest =>
            have closing := List.head?_dropWhile_not (fun symbol => symbol != '\x7d') text
            rw [after] at closing
            have same : symbol = '\x7d' := by simpa using closing
            rw [after, same] at whole
            exact ⟨rest, whole.symm⟩
  · rintro ⟨nonempty, closed, rfl, rest, rfl⟩
    unfold nameBefore
    dsimp only
    rw [takeWhile_name closed, if_neg]
    rw [not_or]
    refine ⟨nonempty, ?_⟩
    rw [List.length_append, List.length_cons]
    omega

theorem not_closed_of_nameBefore {text : List Char} (missing : nameBefore text = none) :
    '\x7d' ∉ text ∨ ∃ rest, text = '\x7d' :: rest := by
  by_cases closes : '\x7d' ∈ text
  · obtain ⟨name, rest, rfl, closed⟩ := List.eq_append_cons_of_mem closes
    cases name with
    | nil => exact .inr ⟨rest, rfl⟩
    | cons symbol name =>
        have found := nameBefore_eq_some_iff.mpr
          ⟨List.cons_ne_nil symbol name, closed, rfl, rest, rfl⟩
        cases found.symm.trans missing
  · exact .inl closes

theorem placeholder_eq_some_iff {text name : List Char} {more : Nat} :
    placeholder text = some (name, more) ↔
      name ≠ [] ∧ '\x7d' ∉ name ∧ more = name.length + 1 ∧
        ∃ rest, text = '\x7b' :: (name ++ '\x7d' :: rest) := by
  constructor
  · intro found
    unfold placeholder at found
    split at found
    · obtain ⟨nonempty, closed, length, rest, rfl⟩ := nameBefore_eq_some_iff.mp found
      exact ⟨nonempty, closed, length, rest, rfl⟩
    · cases found
  · rintro ⟨nonempty, closed, length, rest, rfl⟩
    exact nameBefore_eq_some_iff.mpr ⟨nonempty, closed, length, rest, rfl⟩

/-- A variable name in its braces, behind a dollar sign. -/
def variableBraced (name : List Char) : List Char := '$' :: braced name

theorem variablePattern_eq_some_iff {text name : List Char} {more : Nat} :
    variablePattern text = some (name, more) ↔
      name ≠ [] ∧ '\x7d' ∉ name ∧ more = name.length + 2 ∧
        ∃ rest, text = variableBraced name ++ rest := by
  unfold variableBraced braced
  constructor
  · intro found
    unfold variablePattern at found
    split at found
    · obtain ⟨⟨inner, length⟩, hit, same⟩ := Option.map_eq_some_iff.mp found
      cases same
      obtain ⟨nonempty, closed, rfl, rest, rfl⟩ := nameBefore_eq_some_iff.mp hit
      exact ⟨nonempty, closed, rfl, rest, by simp⟩
    · cases found
  · rintro ⟨nonempty, closed, rfl, rest, rfl⟩
    have hit := nameBefore_eq_some_iff.mpr ⟨nonempty, closed, rfl, rest, rfl⟩
    simp [variablePattern, hit]

theorem drop_braced (name rest : List Char) :
    (braced name ++ rest).drop (name.length + 2) = rest := by
  have length : (braced name).length = name.length + 2 := by simp [braced]
  rw [← length, List.drop_left]

theorem drop_name (name rest : List Char) :
    (name ++ '\x7d' :: rest).drop (name.length + 1) = rest := by
  rw [← List.drop_drop, List.drop_left]
  rfl

/-! ### Filling placeholders -/

/-- A placeholder is spelled by the text that it has been filled with, or as it stands. -/
def spell (filled : List Char → Option (List Char)) (name : List Char) : List Char :=
  (filled name).getD (braced name)

theorem substitute_placeholder (spelling : List Char → List Char) {name rest : List Char}
    (nonempty : name ≠ []) (closed : '\x7d' ∉ name) :
    substitute placeholder spelling ('\x7b' :: (name ++ '\x7d' :: rest)) =
      spelling name ++ substitute placeholder spelling rest := by
  have hit := placeholder_eq_some_iff.mpr ⟨nonempty, closed, rfl, rest, rfl⟩
  unfold substitute
  rw [scan_cons_of_some hit, fill_found, drop_name]

theorem substitute_plain (spelling : List Char → List Char) {symbol : Char} {rest : List Char}
    (miss : placeholder (symbol :: rest) = none) :
    substitute placeholder spelling (symbol :: rest) =
      symbol :: substitute placeholder spelling rest := by
  unfold substitute
  rw [scan_cons_of_none miss, fill_plain]

theorem substitute_of_not_closed (spelling : List Char → List Char) {text : List Char}
    (open_ : '\x7d' ∉ text) : substitute placeholder spelling text = text := by
  unfold substitute
  rw [scan_of_miss, fill_map_plain]
  intro symbol rest ends
  cases missing : placeholder (symbol :: rest) with
  | none => rfl
  | some found =>
      obtain ⟨_, _, _, tail, same⟩ := placeholder_eq_some_iff.mp missing
      refine absurd (ends.subset ?_) open_
      rw [same]
      simp

/-- Spelling every placeholder as it stands changes nothing. -/
theorem substitute_braced (text : List Char) : substitute placeholder braced text = text := by
  induction text using scan_induction placeholder with
  | nil => rfl
  | found symbol rest name more hit ih =>
      obtain ⟨nonempty, closed, rfl, tail, same⟩ := placeholder_eq_some_iff.mp hit
      obtain ⟨rfl, rfl⟩ := List.cons.inj same
      rw [drop_name] at ih
      rw [substitute_placeholder braced nonempty closed, ih]
      simp [braced]
  | plain symbol rest miss ih => rw [substitute_plain braced miss, ih]

/-- A text without an opening brace at its front does not begin with a placeholder. -/
theorem placeholder_of_ne {symbol : Char} {rest : List Char} (other : symbol ≠ '\x7b') :
    placeholder (symbol :: rest) = none := by
  cases missing : placeholder (symbol :: rest) with
  | none => rfl
  | some found =>
      obtain ⟨_, _, _, tail, same⟩ := placeholder_eq_some_iff.mp missing
      exact absurd (List.cons.inj same).1 other

/-- An opening brace that opens no placeholder opens none after filling the others. -/
theorem placeholder_of_plain (spelling : List Char → List Char) {symbol : Char}
    {rest : List Char} (miss : placeholder (symbol :: rest) = none) :
    placeholder (symbol :: substitute placeholder spelling rest) = none := by
  by_cases opening : symbol = '\x7b'
  · subst symbol
    rcases not_closed_of_nameBefore miss with open_ | ⟨tail, rfl⟩
    · rw [substitute_of_not_closed spelling open_]
      exact miss
    · rw [substitute_plain spelling (placeholder_of_ne (by decide))]
      rfl
  · exact placeholder_of_ne opening

theorem not_prefix_of_plain {key rest : List Char} (spelling : List Char → List Char)
    (nonempty : key ≠ []) (closed : '\x7d' ∉ key) {symbol : Char}
    (miss : placeholder (symbol :: rest) = none) :
    ¬ braced key <+: symbol :: substitute placeholder spelling rest := by
  rintro ⟨tail, same⟩
  have hit := placeholder_eq_some_iff.mpr ⟨nonempty, closed, rfl, tail, rfl⟩
  rw [braced, List.cons_append, List.append_assoc, List.singleton_append] at same
  cases hit.symm.trans (same ▸ placeholder_of_plain spelling miss)

/-- A name is determined by the text that begins with it and its closing brace. -/
theorem name_unique {name key rest : List Char} (closed : '\x7d' ∉ name)
    (other : '\x7d' ∉ key) (starts : key ++ ['\x7d'] <+: name ++ ['\x7d'] ++ rest) :
    name = key := by
  obtain ⟨tail, same⟩ := starts
  have first := @takeWhile_name key tail other
  have second := @takeWhile_name name rest closed
  rw [List.append_assoc, List.singleton_append, List.append_assoc, List.singleton_append] at same
  rw [same, second] at first
  exact first

theorem findAll_skip {block : List Char} (free : '\x7b' ∉ block) (rest : List Char) :
    findAll placeholder (block ++ rest) = findAll placeholder rest := by
  induction block with
  | nil => rfl
  | cons symbol block ih =>
      rw [List.mem_cons, not_or] at free
      unfold findAll at ih ⊢
      rw [List.cons_append, scan_cons_of_none (placeholder_of_ne (Ne.symm free.1))]
      exact ih free.2

/-- Fillings without an opening brace leave no placeholder and make none. -/
theorem findAll_substitute {spelling : List Char → List Char} {text : List Char}
    (blocks : ∀ name ∈ findAll placeholder text, '\x7b' ∉ spelling name) :
    findAll placeholder (substitute placeholder spelling text) = [] := by
  induction text using scan_induction placeholder with
  | nil => rfl
  | found symbol rest name more hit ih =>
      obtain ⟨proper, ends, rfl, tail, same⟩ := placeholder_eq_some_iff.mp hit
      obtain ⟨rfl, rfl⟩ := List.cons.inj same
      have scanned := scan_cons_of_some hit
      rw [drop_name] at ih scanned
      rw [substitute_placeholder spelling proper ends,
        findAll_skip (blocks name (mem_findAll.mpr (scanned ▸ List.mem_cons_self)))]
      exact ih (fun other member => blocks other (mem_findAll.mpr (by
        rw [scanned]
        exact List.mem_cons_of_mem _ (mem_findAll.mp member))))
  | plain symbol rest miss ih =>
      have later := ih (fun other member => blocks other (mem_findAll.mpr (by
        rw [scan_cons_of_none miss]
        exact List.mem_cons_of_mem _ (mem_findAll.mp member))))
      rw [substitute_plain spelling miss, findAll,
        scan_cons_of_none (placeholder_of_plain spelling miss)]
      exact later

/-- Replacing one placeholder in a text in which some are filled fills it everywhere, if
no name and no filling has an opening brace. -/
theorem replace_fill {key new text : List Char} {filled : List Char → Option (List Char)}
    (nonempty : key ≠ []) (closed : '\x7d' ∉ key)
    (names : ∀ name ∈ findAll placeholder text, '\x7b' ∉ name)
    (blocks : ∀ name block, filled name = some block → '\x7b' ∉ block) :
    replace (braced key) new (substitute placeholder (spell filled) text) =
      substitute placeholder
        (spell fun name => (filled name).or (if name = key then some new else none)) text := by
  induction text using scan_induction placeholder with
  | nil => rfl
  | found symbol rest name more hit ih =>
      obtain ⟨proper, ends, rfl, tail, same⟩ := placeholder_eq_some_iff.mp hit
      obtain ⟨rfl, rfl⟩ := List.cons.inj same
      rw [drop_name] at ih
      have scanned := scan_cons_of_some hit
      have first : '\x7b' ∉ name := names name (mem_findAll.mpr (scanned ▸ List.mem_cons_self))
      have rest := ih (fun other member => names other (mem_findAll.mpr (by
        rw [scanned, drop_name]
        exact List.mem_cons_of_mem _ (mem_findAll.mp member))))
      rw [substitute_placeholder _ proper ends, substitute_placeholder _ proper ends, ← rest]
      cases given : filled name with
      | some block =>
          have free := blocks name block given
          simp only [spell, given, Option.getD_some, Option.some_or]
          exact replace_block free _
      | none =>
          by_cases target : name = key
          · subst name
            simp only [spell, given, Option.getD_none, Option.none_or, if_true, Option.getD_some]
            exact replace_append (List.cons_ne_nil _ _) _
          · simp only [spell, given, Option.getD_none, Option.none_or, if_neg target, braced,
              List.cons_append]
            rw [replace_cons, replace_block]
            · simp [first]
            · intro starts
              have named := (List.cons_prefix_cons.mp starts).2
              exact target (name_unique ends closed named)
  | plain symbol rest miss ih =>
      have scanned := scan_cons_of_none miss
      have rest := ih (fun other member => names other (mem_findAll.mpr (by
        rw [scanned]
        exact List.mem_cons_of_mem _ (mem_findAll.mp member))))
      rw [substitute_plain _ miss, substitute_plain _ miss, ← rest]
      exact replace_cons (not_prefix_of_plain _ nonempty closed miss)

end ApiSentinel
