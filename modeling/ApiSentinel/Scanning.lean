import Mathlib.Data.List.Basic

/-!
# Scanning a text for matches

The leftmost non-overlapping matches of a matcher in a text.  Finding all matches,
substituting them and replacing a literal text are read off the pieces of one scan.
-/

namespace Scanning

variable {Symbol Found : Type}

/-- A matcher looks at a text from its first symbol on.  It gives what it found there,
and how many symbols after the first belong to the match. -/
abbrev Matcher (Symbol Found : Type) := List Symbol → Option (Found × Nat)

inductive Piece (Symbol Found : Type)
  | plain (symbol : Symbol)
  | found (value : Found)
  deriving DecidableEq

def Piece.value? : Piece Symbol Found → Option Found
  | .plain _ => none
  | .found value => some value

/-- Scan a text whose first symbols belong to an earlier match. -/
def scanFrom (matcher : Matcher Symbol Found) : Nat → List Symbol → List (Piece Symbol Found)
  | _, [] => []
  | skip + 1, _ :: rest => scanFrom matcher skip rest
  | 0, symbol :: rest =>
      match matcher (symbol :: rest) with
      | some (value, more) => .found value :: scanFrom matcher more rest
      | none => .plain symbol :: scanFrom matcher 0 rest

def scan (matcher : Matcher Symbol Found) (text : List Symbol) : List (Piece Symbol Found) :=
  scanFrom matcher 0 text

/-- What a scan finds, from left to right. -/
def findAll (matcher : Matcher Symbol Found) (text : List Symbol) : List Found :=
  (scan matcher text).filterMap Piece.value?

/-- The text of a piece, each match being spelled by a function. -/
def Piece.spell (spelling : Found → List Symbol) : Piece Symbol Found → List Symbol
  | .plain symbol => [symbol]
  | .found value => spelling value

def fill (spelling : Found → List Symbol) (pieces : List (Piece Symbol Found)) : List Symbol :=
  pieces.flatMap (Piece.spell spelling)

/-- Replace every match. -/
def substitute (matcher : Matcher Symbol Found) (spelling : Found → List Symbol)
    (text : List Symbol) : List Symbol :=
  fill spelling (scan matcher text)

section Scan

variable {matcher : Matcher Symbol Found} {symbol : Symbol} {rest : List Symbol}

theorem scanFrom_eq_scan_drop (matcher : Matcher Symbol Found) (skip : Nat)
    (text : List Symbol) : scanFrom matcher skip text = scan matcher (text.drop skip) := by
  induction text generalizing skip with
  | nil =>
      rw [List.drop_nil]
      cases skip <;> rfl
  | cons symbol rest ih =>
      cases skip with
      | zero => rfl
      | succ skip => exact ih skip

@[simp]
theorem scan_nil : scan matcher [] = [] := rfl

theorem scan_cons_of_some {value : Found} {more : Nat}
    (hit : matcher (symbol :: rest) = some (value, more)) :
    scan matcher (symbol :: rest) = .found value :: scan matcher (rest.drop more) := by
  rw [scan, scanFrom, hit]
  exact congrArg _ (scanFrom_eq_scan_drop matcher more rest)

theorem scan_cons_of_none (miss : matcher (symbol :: rest) = none) :
    scan matcher (symbol :: rest) = .plain symbol :: scan matcher rest := by
  rw [scan, scanFrom, miss]
  rfl

/-- Induction along a scan: a match is taken off as a whole, any other symbol alone. -/
theorem scan_induction {motive : List Symbol → Prop} (matcher : Matcher Symbol Found)
    (nil : motive [])
    (found : ∀ symbol rest value more, matcher (symbol :: rest) = some (value, more) →
      motive (rest.drop more) → motive (symbol :: rest))
    (plain : ∀ symbol rest, matcher (symbol :: rest) = none → motive rest →
      motive (symbol :: rest))
    (text : List Symbol) : motive text := by
  induction bound : text.length using Nat.strongRecOn generalizing text with
  | ind size ih =>
      cases text with
      | nil => exact nil
      | cons symbol rest =>
          rw [List.length_cons] at bound
          cases outcome : matcher (symbol :: rest) with
          | none => exact plain symbol rest outcome (ih rest.length (by omega) rest rfl)
          | some hit =>
              obtain ⟨value, more⟩ := hit
              have shorter : (rest.drop more).length < size := by
                rw [List.length_drop]
                omega
              exact found symbol rest value more outcome (ih _ shorter _ rfl)

@[simp]
theorem fill_nil (spelling : Found → List Symbol) :
    fill spelling ([] : List (Piece Symbol Found)) = [] := rfl

@[simp]
theorem fill_plain (spelling : Found → List Symbol) (pieces : List (Piece Symbol Found)) :
    fill spelling (.plain symbol :: pieces) = symbol :: fill spelling pieces := rfl

@[simp]
theorem fill_found (spelling : Found → List Symbol) (value : Found)
    (pieces : List (Piece Symbol Found)) :
    fill spelling (.found value :: pieces) = spelling value ++ fill spelling pieces := rfl

theorem fill_congr {spelling other : Found → List Symbol} {pieces : List (Piece Symbol Found)}
    (same : ∀ value, .found value ∈ pieces → spelling value = other value) :
    fill spelling pieces = fill other pieces := by
  induction pieces with
  | nil => rfl
  | cons piece pieces ih =>
      have rest := ih (fun value member => same value (List.mem_cons_of_mem _ member))
      cases piece with
      | plain symbol => rw [fill_plain, fill_plain, rest]
      | found value => rw [fill_found, fill_found, rest, same value List.mem_cons_self]

theorem mem_findAll {text : List Symbol} {value : Found} :
    value ∈ findAll matcher text ↔ .found value ∈ scan matcher text := by
  unfold findAll
  rw [List.mem_filterMap]
  constructor
  · rintro ⟨piece, member, named⟩
    cases piece with
    | plain symbol => cases named
    | found other =>
        cases named
        exact member
  · intro member
    exact ⟨.found value, member, rfl⟩

/-- What is found is matched somewhere in the text. -/
theorem exists_of_mem_findAll {text : List Symbol} {value : Found}
    (member : value ∈ findAll matcher text) :
    ∃ symbol rest more, symbol :: rest <:+ text ∧
      matcher (symbol :: rest) = some (value, more) := by
  rw [mem_findAll] at member
  induction text using scan_induction matcher with
  | nil => cases member
  | found symbol rest other more hit ih =>
      rw [scan_cons_of_some hit] at member
      rcases List.mem_cons.mp member with same | later
      · cases same
        exact ⟨symbol, rest, more, List.suffix_refl _, hit⟩
      · obtain ⟨first, tail, count, ends, matched⟩ := ih later
        refine ⟨first, tail, count, ends.trans ?_, matched⟩
        exact (List.drop_suffix more rest).trans (List.suffix_cons symbol rest)
  | plain symbol rest miss ih =>
      rw [scan_cons_of_none miss] at member
      rcases List.mem_cons.mp member with same | later
      · cases same
      · obtain ⟨first, tail, count, ends, matched⟩ := ih later
        exact ⟨first, tail, count, ends.trans (List.suffix_cons symbol rest), matched⟩

/-- A text in which a matcher never matches is scanned symbol by symbol. -/
theorem scan_of_miss {text : List Symbol}
    (miss : ∀ symbol rest, symbol :: rest <:+ text → matcher (symbol :: rest) = none) :
    scan matcher text = text.map .plain := by
  induction text with
  | nil => rfl
  | cons symbol rest ih =>
      rw [scan_cons_of_none (miss symbol rest (List.suffix_refl _)), List.map_cons]
      rw [ih (fun other tail ends => miss other tail (ends.trans (List.suffix_cons symbol rest)))]

theorem fill_map_plain (spelling : Found → List Symbol) (text : List Symbol) :
    fill spelling (text.map .plain) = text := by
  induction text with
  | nil => rfl
  | cons symbol rest ih => rw [List.map_cons, fill_plain, ih]

end Scan

/-! ### Matches of whole texts, and spellings that may fail -/

/-- What a matcher finds in a text that it matches up to its end. -/
def fullMatch (matcher : Matcher Symbol Found) : List Symbol → Option Found
  | [] => none
  | symbol :: rest =>
      match matcher (symbol :: rest) with
      | some (value, more) => if more = rest.length then some value else none
      | none => none

theorem fullMatch_eq_some_iff {matcher : Matcher Symbol Found} {text : List Symbol}
    {value : Found} :
    fullMatch matcher text = some value ↔
      ∃ symbol rest, text = symbol :: rest ∧
        matcher (symbol :: rest) = some (value, rest.length) := by
  cases text with
  | nil => simp [fullMatch]
  | cons symbol rest =>
      simp only [fullMatch, List.cons.injEq]
      cases outcome : matcher (symbol :: rest) with
      | none => simp [outcome]
      | some hit =>
          obtain ⟨other, more⟩ := hit
          by_cases all : more = rest.length <;> simp [outcome, all]

/-- A text in which nothing is found is not matched as a whole. -/
theorem fullMatch_of_findAll_eq_nil {matcher : Matcher Symbol Found} {text : List Symbol}
    (bare : findAll matcher text = []) : fullMatch matcher text = none := by
  rw [Option.eq_none_iff_forall_ne_some]
  intro value whole
  obtain ⟨symbol, rest, rfl, hit⟩ := fullMatch_eq_some_iff.mp whole
  have member : value ∈ findAll matcher (symbol :: rest) := by
    rw [mem_findAll, scan_cons_of_some hit]
    exact List.mem_cons_self
  rw [bare] at member
  cases member

/-- A text in which nothing is found has nothing to replace. -/
theorem substitute_of_findAll_eq_nil {matcher : Matcher Symbol Found} {text : List Symbol}
    (spelling : Found → List Symbol) (bare : findAll matcher text = []) :
    substitute matcher spelling text = text := by
  unfold substitute
  induction text using scan_induction matcher with
  | nil => rfl
  | found symbol rest value more hit _ =>
      unfold findAll at bare
      rw [scan_cons_of_some hit] at bare
      cases bare
  | plain symbol rest miss ih =>
      unfold findAll at bare
      rw [scan_cons_of_none miss] at bare ⊢
      rw [fill_plain, ih bare]

/-- Fill the matches one after the other, up to the first one whose spelling fails. -/
def fillM {Error : Type} (spelling : Found → Except Error (List Symbol)) :
    List (Piece Symbol Found) → Except Error (List Symbol)
  | [] => .ok []
  | .plain symbol :: pieces => do
      let rest ← fillM spelling pieces
      pure (symbol :: rest)
  | .found value :: pieces => do
      let block ← spelling value
      let rest ← fillM spelling pieces
      pure (block ++ rest)

theorem fillM_of_ok {Error : Type} {spelling : Found → Except Error (List Symbol)}
    {blocks : Found → List Symbol} {pieces : List (Piece Symbol Found)}
    (spelled : ∀ value, .found value ∈ pieces → spelling value = .ok (blocks value)) :
    fillM spelling pieces = .ok (fill blocks pieces) := by
  induction pieces with
  | nil => rfl
  | cons piece pieces ih =>
      have rest := ih (fun value member => spelled value (List.mem_cons_of_mem _ member))
      cases piece with
      | plain symbol =>
          rw [fillM, rest]
          rfl
      | found value =>
          rw [fillM, spelled value List.mem_cons_self, rest]
          rfl

theorem exists_blocks {Error : Type} {spelling : Found → Except Error (List Symbol)}
    {pieces : List (Piece Symbol Found)}
    (spelled : ∀ value, .found value ∈ pieces → ∃ block, spelling value = .ok block) :
    ∃ blocks : Found → List Symbol,
      ∀ value, .found value ∈ pieces → spelling value = .ok (blocks value) := by
  refine ⟨fun value => (spelling value).toOption.getD [], ?_⟩
  intro value member
  obtain ⟨block, same⟩ := spelled value member
  simp only [same]
  rfl

/-- Every match is spelled, or the filling fails with the failure of one of them. -/
theorem fillM_cases {Error : Type} (spelling : Found → Except Error (List Symbol))
    (pieces : List (Piece Symbol Found)) :
    (∀ value, .found value ∈ pieces → ∃ block, spelling value = .ok block) ∨
      ∃ value error, .found value ∈ pieces ∧ spelling value = .error error ∧
        fillM spelling pieces = .error error := by
  induction pieces with
  | nil => simp
  | cons piece pieces ih =>
      cases piece with
      | plain symbol =>
          rcases ih with spelled | ⟨value, error, member, failed, stopped⟩
          · exact .inl fun value member => spelled value (by simpa using member)
          · refine .inr ⟨value, error, List.mem_cons_of_mem _ member, failed, ?_⟩
            rw [fillM, stopped]
            rfl
      | found first =>
          cases outcome : spelling first with
          | error error =>
              refine .inr ⟨first, error, List.mem_cons_self, outcome, ?_⟩
              rw [fillM, outcome]
              rfl
          | ok block =>
              rcases ih with spelled | ⟨value, error, member, failed, stopped⟩
              · left
                intro value member
                rcases List.mem_cons.mp member with same | later
                · cases same
                  exact ⟨block, outcome⟩
                · exact spelled value later
              · refine .inr ⟨value, error, List.mem_cons_of_mem _ member, failed, ?_⟩
                rw [fillM, outcome, stopped]
                rfl

/-- A filling that fails does so at one of the matches. -/
theorem exists_of_fillM_error {Error : Type} {spelling : Found → Except Error (List Symbol)}
    {pieces : List (Piece Symbol Found)} {error : Error}
    (failed : fillM spelling pieces = .error error) :
    ∃ value, .found value ∈ pieces ∧ spelling value = .error error := by
  rcases fillM_cases spelling pieces with spelled | ⟨value, other, member, stopped, same⟩
  · obtain ⟨blocks, spelled⟩ := exists_blocks spelled
    cases failed.symm.trans (fillM_of_ok spelled)
  · cases failed.symm.trans same
    exact ⟨value, member, stopped⟩

theorem fillM_eq_ok_iff {Error : Type} {spelling : Found → Except Error (List Symbol)}
    {pieces : List (Piece Symbol Found)} {text : List Symbol} :
    fillM spelling pieces = .ok text ↔
      ∃ blocks : Found → List Symbol,
        (∀ value, .found value ∈ pieces → spelling value = .ok (blocks value)) ∧
          text = fill blocks pieces := by
  constructor
  · intro filled
    rcases fillM_cases spelling pieces with spelled | ⟨value, error, _, _, failed⟩
    · obtain ⟨blocks, spelled⟩ := exists_blocks spelled
      exact ⟨blocks, spelled, Except.ok.inj (filled.symm.trans (fillM_of_ok spelled))⟩
    · cases filled.symm.trans failed
  · rintro ⟨blocks, spelled, rfl⟩
    exact fillM_of_ok spelled

/-! ### Separators -/

/-- Induction along the parts of a list between separators. -/
theorem splitOn_induction {Item : Type} [DecidableEq Item] {motive : List Item → Prop}
    (separator : Item) (last : ∀ part, separator ∉ part → motive part)
    (part : ∀ part rest, separator ∉ part → motive rest → motive (part ++ separator :: rest))
    (items : List Item) : motive items := by
  induction bound : items.length using Nat.strongRecOn generalizing items with
  | ind size ih =>
      by_cases separated : separator ∈ items
      · obtain ⟨before, after, rfl, none⟩ := List.eq_append_cons_of_mem separated
        have shorter : after.length < size := by
          rw [← bound, List.length_append, List.length_cons]
          omega
        exact part before after none (ih _ shorter after rfl)
      · exact last items separated

theorem mem_of_mem_splitOn {Item : Type} [DecidableEq Item] {separator : Item}
    {items part : List Item} (member : part ∈ items.splitOn separator) {item : Item}
    (inside : item ∈ part) : item ∈ items := by
  induction items using splitOn_induction separator with
  | last items none =>
      rw [List.splitOn_eq_singleton none, List.mem_singleton] at member
      exact member ▸ inside
  | part before after none ih =>
      rw [List.splitOn_append_cons_self_of_not_mem none] at member
      rcases List.mem_cons.mp member with rfl | later
      · exact List.mem_append_left _ inside
      · exact List.mem_append_right _ (List.mem_cons_of_mem _ (ih later))

theorem fill_append (spelling : Found → List Symbol) (pieces others : List (Piece Symbol Found)) :
    fill spelling (pieces ++ others) = fill spelling pieces ++ fill spelling others :=
  List.flatMap_append

theorem not_mem_fill {separator : Symbol} {spelling : Found → List Symbol}
    {pieces : List (Piece Symbol Found)}
    (apart : ∀ value, .found value ∈ pieces → separator ∉ spelling value)
    (none : .plain separator ∉ pieces) : separator ∉ fill spelling pieces := by
  intro member
  obtain ⟨piece, among, inside⟩ := List.mem_flatMap.mp member
  cases piece with
  | plain symbol =>
      cases List.mem_singleton.mp inside
      exact none among
  | found value => exact apart value among inside

/-- Splitting a filled text is filling the parts of the split scan, if no spelling of a
match has the separator. -/
theorem splitOn_fill [DecidableEq Symbol] [DecidableEq Found] {separator : Symbol}
    {spelling : Found → List Symbol} {pieces : List (Piece Symbol Found)}
    (apart : ∀ value, .found value ∈ pieces → separator ∉ spelling value) :
    (fill spelling pieces).splitOn separator =
      (pieces.splitOn (.plain separator)).map (fill spelling) := by
  induction pieces using splitOn_induction (Piece.plain separator : Piece Symbol Found) with
  | last pieces none =>
      rw [List.splitOn_eq_singleton none, List.splitOn_eq_singleton (not_mem_fill apart none),
        List.map_singleton]
  | part before after none ih =>
      have first := not_mem_fill (fun value member =>
        apart value (List.mem_append_left _ member)) none
      have rest := ih (fun value member =>
        apart value (List.mem_append_right _ (List.mem_cons_of_mem _ member)))
      rw [fill_append, fill_plain, List.splitOn_append_cons_self_of_not_mem first,
        List.splitOn_append_cons_self_of_not_mem none, rest, List.map_cons]

/-! ### Literal replacement -/

section Literal

variable [DecidableEq Symbol]

/-- Matches one nonempty literal text. -/
def literal (old : List Symbol) : Matcher Symbol Unit :=
  fun text => if old <+: text then some ((), old.length - 1) else none

/-- Replace every occurrence of a literal text, from left to right. -/
def replace (old new text : List Symbol) : List Symbol :=
  substitute (literal old) (fun _ => new) text

variable {old new : List Symbol}

@[simp]
theorem replace_nil : replace old new [] = [] := rfl

theorem literal_of_starts {text : List Symbol} (starts : old <+: text) :
    literal old text = some ((), old.length - 1) := if_pos starts

theorem literal_of_differs {text : List Symbol} (differs : ¬ old <+: text) :
    literal old text = none := if_neg differs

theorem replace_append (nonempty : old ≠ []) (rest : List Symbol) :
    replace old new (old ++ rest) = new ++ replace old new rest := by
  cases old with
  | nil => exact absurd rfl nonempty
  | cons symbol tail =>
      have hit := literal_of_starts (List.prefix_append (symbol :: tail) rest)
      rw [List.length_cons, Nat.add_sub_cancel] at hit
      unfold replace substitute
      rw [List.cons_append] at hit ⊢
      rw [scan_cons_of_some hit, fill_found, List.drop_left]

theorem replace_cons {symbol : Symbol} {rest : List Symbol} (differs : ¬ old <+: symbol :: rest) :
    replace old new (symbol :: rest) = symbol :: replace old new rest := by
  unfold replace substitute
  rw [scan_cons_of_none (literal_of_differs differs), fill_plain]

/-- A block without the first symbol of the old text stays as it is. -/
theorem replace_block {first : Symbol} {tail block : List Symbol} (free : first ∉ block)
    (rest : List Symbol) :
    replace (first :: tail) new (block ++ rest) =
      block ++ replace (first :: tail) new rest := by
  induction block with
  | nil => rfl
  | cons symbol block ih =>
      rw [List.mem_cons, not_or] at free
      rw [List.cons_append, List.cons_append, replace_cons, ih free.2]
      intro starts
      exact free.1 (List.cons_prefix_cons.mp starts).1

/-- A prefix without a symbol ends before the symbol. -/
theorem prefix_of_prefix_append_cons {Item : Type} {first : Item} {tail before rest : List Item}
    (free : first ∉ tail) (starts : tail <+: before ++ first :: rest) : tail <+: before := by
  rcases List.prefix_or_prefix_of_prefix starts (List.prefix_append before _) with inside | beyond
  · exact inside
  · obtain ⟨more, rfl⟩ := beyond
    cases more with
    | nil => simp
    | cons symbol more =>
        rw [List.prefix_append_right_inj, List.cons_prefix_cons] at starts
        exact absurd (List.mem_append_right before (starts.1 ▸ List.mem_cons_self)) free

/-- If the first symbol of the old text is not in its tail, no occurrence reaches over a
place where this symbol stands. -/
theorem replace_append_cons {first : Symbol} {tail : List Symbol} (free : first ∉ tail)
    (before rest : List Symbol) :
    replace (first :: tail) new (before ++ first :: rest) =
      replace (first :: tail) new before ++ replace (first :: tail) new (first :: rest) := by
  induction bound : before.length using Nat.strongRecOn generalizing before with
  | ind size ih =>
      cases before with
      | nil => rfl
      | cons symbol before =>
          by_cases starts : first :: tail <+: symbol :: before ++ first :: rest
          · have whole : first :: tail <+: symbol :: before := by
              rw [List.cons_append, List.cons_prefix_cons] at starts
              rw [List.cons_prefix_cons]
              exact ⟨starts.1, prefix_of_prefix_append_cons free starts.2⟩
            obtain ⟨left, same⟩ := whole
            have shorter : left.length < size := by
              rw [← bound, ← same, List.length_append, List.length_cons]
              omega
            rw [← same, List.append_assoc, replace_append (by simp), replace_append (by simp),
              ih _ shorter left rfl, List.append_assoc]
          · have also : ¬ first :: tail <+: symbol :: before := fun inside =>
              starts (inside.trans (List.prefix_append _ _))
            have shorter : before.length < size := by
              rw [← bound, List.length_cons]
              omega
            rw [List.cons_append] at starts
            rw [replace_cons also, List.cons_append, replace_cons starts, ih _ shorter before rfl,
              List.cons_append]

/-- A replaced text begins with the inserted text, or as it did before. -/
theorem head?_replace (symbol : Symbol) (text : List Symbol) :
    (replace old (symbol :: new) text).head? = some symbol ∨
      (replace old (symbol :: new) text).head? = text.head? := by
  cases text with
  | nil => exact .inr rfl
  | cons first rest =>
      unfold replace substitute
      cases outcome : literal old (first :: rest) with
      | none =>
          rw [scan_cons_of_none outcome]
          exact .inr rfl
      | some hit =>
          obtain ⟨value, more⟩ := hit
          rw [scan_cons_of_some outcome]
          exact .inl rfl

/-- Expanding a symbol to a text that begins with it can be undone. -/
theorem replace_cancel (symbol : Symbol) (tail text : List Symbol) :
    replace (symbol :: tail) [symbol] (replace [symbol] (symbol :: tail) text) = text := by
  induction text with
  | nil => rfl
  | cons head text ih =>
      by_cases same : head = symbol
      · subst head
        have expanded := @replace_append _ _ [symbol] (symbol :: tail) (by simp) text
        have undone := @replace_append _ _ (symbol :: tail) [symbol] (by simp)
          (replace [symbol] (symbol :: tail) text)
        rw [List.singleton_append] at expanded
        rw [expanded, undone, ih, List.singleton_append]
      · have differs (old : List Symbol) (rest : List Symbol) :
            ¬ symbol :: old <+: head :: rest := fun starts =>
          same (List.cons_prefix_cons.mp starts).1.symm
        rw [replace_cons (differs [] text), replace_cons (differs tail _), ih]

theorem mem_of_mem_replace {text : List Symbol} {symbol : Symbol}
    (member : symbol ∈ replace old new text) : symbol ∈ text ∨ symbol ∈ new := by
  induction text using scan_induction (literal old) with
  | nil => cases member
  | found head rest value more hit ih =>
      unfold replace substitute at member
      rw [scan_cons_of_some hit, fill_found, List.mem_append] at member
      rcases member with inserted | later
      · exact .inr inserted
      · exact (ih later).imp_left (fun inside =>
          List.mem_cons_of_mem head (List.mem_of_mem_drop inside))
  | plain head rest miss ih =>
      unfold replace substitute at member
      rw [scan_cons_of_none miss, fill_plain, List.mem_cons] at member
      rcases member with rfl | later
      · exact .inl List.mem_cons_self
      · exact (ih later).imp_left (List.mem_cons_of_mem head)

end Literal

end Scanning
