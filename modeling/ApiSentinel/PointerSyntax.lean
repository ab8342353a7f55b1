import ApiSentinel.Pointers

/-!
# The syntax of JSON Pointers

`pointer` splits and replaces text without parsing it.  A text outside the RFC 6901 grammar
still leads to a value if a key of the document has a tilde that no escape explains.
-/

namespace ApiSentinel

open Scanning

/-- `reference-token = *( unescaped / escaped )` -/
inductive ReferenceToken : List Char → Prop
  | nil : ReferenceToken []
  | unescaped {symbol rest} (slash : symbol ≠ '/') (tilde : symbol ≠ '~')
      (more : ReferenceToken rest) : ReferenceToken (symbol :: rest)
  | escaped {digit rest} (code : digit = '0' ∨ digit = '1') (more : ReferenceToken rest) :
      ReferenceToken ('~' :: digit :: rest)

/-- `json-pointer = *( "/" reference-token )` -/
def JsonPointer (path : String) : Prop :=
  ∃ tokens : List (List Char), (∀ token ∈ tokens, ReferenceToken token) ∧
    path.toList = tokens.flatMap (fun token => '/' :: token)

/-- Some tilde is followed by neither `0` nor `1`. -/
def Stray (text : List Char) : Prop :=
  ∃ before after, text = before ++ '~' :: after ∧ after.head? ≠ some '0' ∧
    after.head? ≠ some '1'

/-! ### The grammar -/

theorem not_stray_nil : ¬ Stray [] := by
  rintro ⟨before, after, same, _⟩
  simp at same

theorem stray_cons {symbol : Char} {rest : List Char} :
    Stray (symbol :: rest) ↔
      symbol = '~' ∧ rest.head? ≠ some '0' ∧ rest.head? ≠ some '1' ∨ Stray rest := by
  constructor
  · rintro ⟨before, after, same, zero, one⟩
    cases before with
    | nil =>
        cases same
        exact .inl ⟨rfl, zero, one⟩
    | cons first before =>
        cases same
        exact .inr ⟨before, after, rfl, zero, one⟩
  · rintro (⟨rfl, zero, one⟩ | ⟨before, after, rfl, zero, one⟩)
    · exact ⟨[], rest, rfl, zero, one⟩
    · exact ⟨symbol :: before, after, rfl, zero, one⟩

theorem stray_append_slash {part rest : List Char} :
    Stray (part ++ '/' :: rest) ↔ Stray part ∨ Stray rest := by
  induction part with
  | nil =>
      rw [List.nil_append, stray_cons]
      simp [not_stray_nil]
  | cons symbol part ih =>
      rw [List.cons_append, stray_cons, stray_cons, ih, or_assoc]
      cases part <;> simp

/-- A text is stray if and only if one of its parts is. -/
theorem stray_iff_of_splitOn {text : List Char} :
    Stray text ↔ ∃ part ∈ text.splitOn '/', Stray part := by
  induction text using splitOn_induction '/' with
  | last text free => rw [List.splitOn_eq_singleton free]; simp
  | part part rest free ih =>
      rw [List.splitOn_append_cons_self_of_not_mem free, stray_append_slash, ih]
      simp

theorem flatMap_splitOn (text : List Char) :
    (text.splitOn '/').flatMap (fun part => '/' :: part) = '/' :: text := by
  induction text using splitOn_induction '/' with
  | last text free => rw [List.splitOn_eq_singleton free]; simp
  | part part rest free ih =>
      rw [List.splitOn_append_cons_self_of_not_mem free, List.flatMap_cons, ih]
      simp

theorem stray_flatMap {parts : List (List Char)} {part : List Char} (member : part ∈ parts)
    (stray : Stray part) : Stray (parts.flatMap (fun part => '/' :: part)) := by
  obtain ⟨before, after, rfl⟩ := List.append_of_mem member
  rw [List.flatMap_append, List.flatMap_cons, List.cons_append, stray_append_slash]
  right
  cases after with
  | nil => simpa using stray
  | cons next after =>
      rw [List.flatMap_cons, List.cons_append, stray_append_slash]
      exact .inl stray

theorem slash_not_mem_of_mem_splitOn {text part : List Char}
    (member : part ∈ text.splitOn '/') : '/' ∉ part := by
  induction text using splitOn_induction '/' with
  | last text free =>
      rw [List.splitOn_eq_singleton free, List.mem_singleton] at member
      exact member ▸ free
  | part before rest free ih =>
      rw [List.splitOn_append_cons_self_of_not_mem free, List.mem_cons] at member
      rcases member with rfl | later
      · exact free
      · exact ih later

theorem referenceToken_iff {text : List Char} :
    ReferenceToken text ↔ '/' ∉ text ∧ ¬ Stray text := by
  constructor
  · intro token
    induction token with
    | nil => exact ⟨List.not_mem_nil, not_stray_nil⟩
    | unescaped slash tilde _ ih =>
        rw [List.mem_cons, stray_cons]
        exact ⟨by simp [ih.1, slash.symm], by simp [ih.2, tilde]⟩
    | escaped code _ ih =>
        rw [List.mem_cons, List.mem_cons, stray_cons, stray_cons]
        rcases code with rfl | rfl <;> simp [ih]
  · rintro ⟨slash, kept⟩
    induction bound : text.length using Nat.strongRecOn generalizing text with
    | ind size ih =>
        cases text with
        | nil => exact .nil
        | cons symbol rest =>
            rw [List.mem_cons, not_or] at slash
            rw [stray_cons, not_or] at kept
            rw [List.length_cons] at bound
            by_cases tilde : symbol = '~'
            · subst symbol
              cases rest with
              | nil => exact absurd ⟨rfl, by simp, by simp⟩ kept.1
              | cons digit rest =>
                  rw [List.mem_cons, not_or] at slash
                  rw [stray_cons, not_or] at kept
                  rw [List.length_cons] at bound
                  refine .escaped ?_ (ih rest.length (by omega) slash.2.2 kept.2.2 rfl)
                  simpa [or_iff_not_imp_left] using kept.1
            · exact .unescaped (Ne.symm slash.1) tilde
                (ih rest.length (by omega) slash.2 kept.2 rfl)

/-- The pointers are the empty text and the texts that start with a slash and have no
stray tilde. -/
theorem jsonPointer_iff {path : String} :
    JsonPointer path ↔
      (path = "" ∨ path.toList.head? = some '/') ∧ ¬ Stray path.toList := by
  constructor
  · rintro ⟨tokens, valid, joined⟩
    rw [← String.toList_inj, joined]
    clear joined
    induction tokens with
    | nil => exact ⟨.inl rfl, not_stray_nil⟩
    | cons token tokens ih =>
        have rest := (ih fun token member => valid token (List.mem_cons_of_mem _ member)).2
        have first := (referenceToken_iff.mp (valid token List.mem_cons_self)).2
        refine ⟨.inr rfl, ?_⟩
        rw [List.flatMap_cons, List.cons_append, stray_cons]
        simp only [show '/' ≠ '~' by decide, false_and, false_or]
        cases tokens with
        | nil => simpa using first
        | cons next tokens =>
            rw [List.flatMap_cons, List.cons_append] at rest ⊢
            rw [stray_append_slash]
            rw [stray_cons] at rest
            simp_all
  · rintro ⟨empty | slash, kept⟩
    · exact ⟨[], by simp, by simp [empty]⟩
    · obtain ⟨rest, spelled⟩ := List.head?_eq_some_iff.mp slash
      rw [spelled, stray_cons, not_or, stray_iff_of_splitOn] at kept
      refine ⟨rest.splitOn '/', ?_, by rw [spelled, flatMap_splitOn]⟩
      intro token member
      rw [referenceToken_iff]
      exact ⟨slash_not_mem_of_mem_splitOn member, fun stray => kept.2 ⟨token, member, stray⟩⟩

/-! ### Reading a stray tilde -/

/-- A tilde that no escape explains is read as itself. -/
theorem unescape_append {after : List Char} (zero : after.head? ≠ some '0')
    (one : after.head? ≠ some '1') (before : List Char) :
    unescape (before ++ '~' :: after) = unescape before ++ '~' :: unescape after := by
  have apart {code : Char} {text : List Char} (other : text.head? ≠ some code) :
      ¬ ['~', code] <+: '~' :: text := by
    intro starts
    rw [List.cons_prefix_cons] at starts
    obtain ⟨rest, rfl⟩ := starts.2
    exact other rfl
  have kept : (replace ['~', '1'] ['/'] after).head? ≠ some '0' := by
    rcases @head?_replace _ _ ['~', '1'] [] '/' after with inserted | same
    · rw [inserted]
      decide
    · rw [same]
      exact zero
  unfold unescape
  rw [replace_append_cons (by decide), replace_cons (apart one),
    replace_append_cons (by decide), replace_cons (apart kept)]

theorem stray_unescape {part : List Char} (stray : Stray part) : Stray (unescape part) := by
  obtain ⟨before, after, rfl, zero, one⟩ := stray
  refine ⟨unescape before, unescape after, unescape_append zero one before, ?_⟩
  unfold unescape
  rcases @head?_replace _ _ ['~', '0'] [] '~' (replace ['~', '1'] ['/'] after) with
    inserted | same
  · rw [inserted]
    decide
  · rw [same]
    rcases @head?_replace _ _ ['~', '1'] [] '/' after with inserted | same
    · rw [inserted]
      decide
    · rw [same]
      exact ⟨zero, one⟩

/-- A name with a stray tilde is also spelled by a part that is no reference token. -/
theorem exists_stray_of_stray {name : List Char} (stray : Stray name) :
    ∃ part, '/' ∉ part ∧ Stray part ∧ unescape part = name := by
  obtain ⟨before, after, rfl, zero, one⟩ := stray
  have kept : (escape after).head? ≠ some '0' ∧ (escape after).head? ≠ some '1' := by
    unfold escape
    rcases @head?_replace _ _ ['/'] ['1'] '~' (replace ['~'] ['~', '0'] after) with
      inserted | same
    · rw [inserted]
      decide
    · rw [same]
      rcases @head?_replace _ _ ['~'] ['0'] '~' after with inserted | same
      · rw [inserted]
        decide
      · rw [same]
        exact ⟨zero, one⟩
  refine ⟨escape before ++ '~' :: escape after, ?_, ⟨_, _, rfl, kept⟩, ?_⟩
  · rw [List.mem_append, List.mem_cons]
    simp [slash_not_mem_escape]
  · rw [unescape_append kept.1 kept.2, unescape_escape, unescape_escape]

/-! ### Keys with a stray tilde -/

/-- The keys of the objects anywhere in a document. -/
def Names (document : Json) (key : String) : Prop :=
  ∃ location members value, Addresses document location (.obj members) ∧
    members.lookup key = some value

theorem names_of_addresses {document value : Json} {location : List Selector} {key : String}
    (addresses : Addresses document location value) (member : .name key ∈ location) :
    Names document key := by
  induction addresses with
  | here => cases member
  | @into document first child location value step rest ih =>
      rcases List.mem_cons.mp member with rfl | later
      · cases step with
        | member found => exact ⟨[], _, _, .here, found⟩
      · obtain ⟨above, members, value, addresses, found⟩ := ih later
        exact ⟨first :: above, members, value, .into step addresses, found⟩

theorem Addresses.child {document value child : Json} {location : List Selector} {key : Selector}
    (addresses : Addresses document location value) (step : Child value key child) :
    Addresses document (location ++ [key]) child := by
  induction addresses with
  | here => exact .into step .here
  | into first _ ih => exact .into first (ih step)

/-- Positions are spelled without a tilde. -/
theorem not_stray_index (position : Nat) : ¬ Stray (Selector.index position).token := by
  rintro ⟨before, after, same, _⟩
  have canonical := isIndex_toDigits position
  have member : '~' ∈ Nat.toDigits 10 position := by
    have spelled : Nat.toDigits 10 position = before ++ '~' :: after := same
    simp [spelled]
  have digit := Nat.isDigit_of_mem_toDigits (by decide) (by decide) member
  exact absurd digit (by decide)

theorem tokens?_stray {path : String} {tokens : List (List Char)} (malformed : ¬ JsonPointer path)
    (spelled : tokens? path = some tokens) : ∃ token ∈ tokens, Stray token := by
  unfold tokens? at spelled
  split at spelled
  · rename_i slash
    have stray : Stray path.toList := by
      by_contra kept
      exact malformed (jsonPointer_iff.mpr ⟨.inr slash, kept⟩)
    obtain ⟨rest, text⟩ := List.head?_eq_some_iff.mp slash
    rw [text, stray_cons, stray_iff_of_splitOn] at stray
    cases spelled
    rcases stray with ⟨differs, _⟩ | ⟨part, member, stray⟩
    · exact absurd differs (by decide)
    · rw [text]
      exact ⟨unescape part, List.mem_map_of_mem member, stray_unescape stray⟩
  · cases spelled

/-- Outside the grammar `pointer` returns what the tokens of the text address. -/
theorem pointer_raises_iff {document : Json} {path : String} (malformed : ¬ JsonPointer path) :
    (∃ raised, pointer document path = .error raised) ↔
      ∀ location value, Addresses document location value →
        tokens? path ≠ some (location.map Selector.token) := by
  cases spelled : tokens? path with
  | none =>
      rcases @pointer_of_no_tokens document path spelled with ⟨_, rfl⟩ | failed
      · exact absurd (jsonPointer_iff.mpr ⟨.inl rfl, by simp [not_stray_nil]⟩) malformed
      · simp [failed]
  | some tokens =>
      rw [pointer_of_tokens spelled]
      constructor
      · rintro ⟨raised, failed⟩ location value addresses same
        cases failed.symm.trans
          (walkTokens_eq_ok_iff.mpr ⟨location, (Option.some.inj same).symm, addresses⟩)
      · intro nowhere
        cases walked : walkTokens document tokens with
        | error raised => exact ⟨raised, rfl⟩
        | ok value =>
            obtain ⟨location, rfl, addresses⟩ := walkTokens_eq_ok_iff.mp walked
            exact absurd rfl (nowhere location value addresses)

/-- A key with a stray tilde is reached by a text outside the grammar. -/
theorem exists_malformed_of_names {document : Json} {key : String} (named : Names document key)
    (stray : Stray key.toList) :
    ∃ path location value, ¬ JsonPointer path ∧ Addresses document location value ∧
      tokens? path = some (location.map Selector.token) := by
  obtain ⟨above, members, value, addresses, found⟩ := named
  obtain ⟨part, free, wrong, same⟩ := exists_stray_of_stray stray
  let parts := above.map (fun key => escape key.token) ++ [part]
  let path := String.ofList (parts.flatMap (fun part => '/' :: part))
  have joined : path.toList = parts.flatMap (fun part => '/' :: part) := String.toList_ofList
  have apart : ∀ block ∈ parts, '/' ∉ block := by
    intro block member
    simp only [parts, List.mem_append, List.mem_map, List.mem_singleton] at member
    rcases member with ⟨_, _, rfl⟩ | rfl
    · exact slash_not_mem_escape _
    · exact free
  refine ⟨path, above ++ [.name key], value, ?_, addresses.child (.member found), ?_⟩
  · rw [jsonPointer_iff, joined]
    intro valid
    exact valid.2 (stray_flatMap List.mem_concat_self wrong)
  · rw [tokens?_of_flatMap (by simp [parts]) joined apart]
    simp [parts, same, Function.comp_def, unescape_escape, Selector.token]

/-- Exactly the documents without a stray tilde in a key make `pointer` raise on every text
outside the grammar.  On one such text, it raises if and only if the tokens that it reads
address nothing. -/
theorem pointer_malformed (document : Json) :
    (∀ path, ¬ JsonPointer path →
      ((∃ raised, pointer document path = .error raised) ↔
        ∀ location value, Addresses document location value →
          tokens? path ≠ some (location.map Selector.token))) ∧
      ((∀ path, ¬ JsonPointer path → ∃ raised, pointer document path = .error raised) ↔
        ∀ key, Names document key → ¬ Stray key.toList) := by
  refine ⟨fun path => pointer_raises_iff, ?_⟩
  constructor
  · intro raises key named stray
    obtain ⟨path, location, value, malformed, addresses, spelled⟩ :=
      exists_malformed_of_names named stray
    exact (pointer_raises_iff malformed).mp (raises path malformed) location value addresses
      spelled
  · intro kept path malformed
    rw [pointer_raises_iff malformed]
    intro location value addresses spelled
    obtain ⟨token, member, stray⟩ := tokens?_stray malformed spelled
    obtain ⟨key, among, rfl⟩ := List.mem_map.mp member
    cases key with
    | index position => exact not_stray_index position stray
    | name key => exact kept key (names_of_addresses addresses among) stray

namespace Sample

/-- `{"a~b": 1}` -/
def tilde : Json := .obj [("a~b", .int 1)]

theorem not_jsonPointer_tilde : ¬ JsonPointer "/a~b" := by
  rw [jsonPointer_iff]
  intro valid
  exact valid.2 ⟨['/', 'a'], ['b'], rfl, by decide, by decide⟩

/-- `{"~0": 1}` -/
def escaped : Json := .obj [("~0", .int 1)]

theorem not_stray_of_names_escaped {key : String} (named : Names escaped key) :
    ¬ Stray key.toList := by
  obtain ⟨location, members, value, addresses, found⟩ := named
  cases addresses with
  | here =>
      obtain ⟨rfl, _⟩ : key = "~0" ∧ _ := by simpa [escaped] using mem_of_lookup found
      simp [stray_cons, not_stray_nil]
  | into step rest =>
      cases step with
      | member located =>
          obtain ⟨_, rfl⟩ : _ ∧ _ := by simpa [escaped] using mem_of_lookup located
          cases rest with
          | into step _ => cases step

end Sample

/-- The only key of a document explains its tilde: no text with a stray one is accepted. -/
theorem pointer_malformed_sample : ∃ raised, pointer Sample.escaped "/a~b" = .error raised :=
  (pointer_malformed Sample.escaped).2.mpr (fun _ => Sample.not_stray_of_names_escaped) "/a~b"
    Sample.not_jsonPointer_tilde

/-- A text outside the grammar gives the value under a key with a stray tilde. -/
theorem pointer_malformed_counterexample :
    ¬ JsonPointer "/a~b" ∧ pointer Sample.tilde "/a~b" = .ok (.int 1) :=
  ⟨Sample.not_jsonPointer_tilde, rfl⟩

end ApiSentinel
