import ApiSentinel.Contract

/-!
# The paths of requests

The loop of replacements in `request` fills all placeholders of a template at once, whatever
the order of the parameters.  A path gets a new dot segment only from placeholders that are
filled with nothing.
-/

namespace ApiSentinel

open Scanning PercentEncoding

/-! ### Dot segments -/

/-- `.` and `..` -/
def isDotSegment (segment : List Char) : Bool := segment == ['.'] || segment == ['.', '.']

/-- The segments of a path that are `.` or `..`, in order. -/
def dotSegments (path : List Char) : List (List Char) := (path.splitOn '/').filter isDotSegment

theorem isDotSegment_iff {segment : List Char} :
    isDotSegment segment = true ↔ segment = ['.'] ∨ segment = ['.', '.'] := by
  simp [isDotSegment]

/-- A segment with a nonempty block that is no dot segment is none either. -/
theorem isDotSegment_of_block {before block after : List Char} (nonempty : block ≠ [])
    (proper : isDotSegment block = false) : isDotSegment (before ++ block ++ after) = false := by
  cases dots : isDotSegment (before ++ block ++ after) with
  | false => rfl
  | true =>
      have inside := List.infix_append before block after
      rcases isDotSegment_iff.mp dots with single | double
      · rw [single] at inside
        simp_all [List.infix_cons_iff, List.prefix_cons_iff, isDotSegment]
      · rw [double] at inside
        have parts : (∃ tail, block = '.' :: tail ∧ (tail = [] ∨ tail = ['.'])) ∨
            block = ['.'] := by
          simpa [List.infix_cons_iff, List.prefix_cons_iff, nonempty] using inside
        rcases parts with ⟨tail, rfl, rfl | rfl⟩ | rfl
        · cases proper
        · cases proper
        · cases proper

theorem dotSegments_append_cons (path rest : List Char) :
    dotSegments (path ++ '/' :: rest) = dotSegments path ++ dotSegments rest := by
  unfold dotSegments
  rw [List.splitOn_append_cons_self, List.filter_append]

theorem dotSegments_of_not_mem {segment : List Char} (single : '/' ∉ segment) :
    dotSegments segment = [segment].filter isDotSegment := by
  unfold dotSegments
  rw [List.splitOn_eq_singleton single]

theorem singleton_sublist_dotSegments (text : List Char) :
    ([text].filter isDotSegment).Sublist (dotSegments text) := by
  by_cases separated : '/' ∈ text
  · have proper : isDotSegment text = false := by
      rw [← Bool.not_eq_true, isDotSegment_iff]
      rintro (rfl | rfl) <;> simp at separated
    rw [List.filter_singleton, proper]
    exact List.nil_sublist _
  · rw [dotSegments_of_not_mem separated]

/-- Only the last segment of a text matters to what follows it. -/
theorem exists_last_segment (text : List Char) :
    ∃ dots last, '/' ∉ last ∧
      ∀ rest, dotSegments (text ++ rest) = dots ++ dotSegments (last ++ rest) := by
  induction text using splitOn_induction '/' with
  | last part none => exact ⟨[], part, none, fun rest => rfl⟩
  | part part rest none ih =>
      obtain ⟨dots, last, single, later⟩ := ih
      refine ⟨dotSegments part ++ dots, last, single, ?_⟩
      intro tail
      rw [List.append_assoc, List.cons_append, dotSegments_append_cons, later, List.append_assoc]

/-- Only the first segment of a text matters to what precedes it. -/
theorem exists_first_segment (text : List Char) :
    ∃ first dots, '/' ∉ first ∧
      ∀ before, dotSegments (before ++ text) = dotSegments (before ++ first) ++ dots := by
  by_cases separated : '/' ∈ text
  · obtain ⟨first, rest, rfl, none⟩ := List.eq_append_cons_of_mem separated
    refine ⟨first, dotSegments rest, none, ?_⟩
    intro before
    rw [← List.append_assoc, dotSegments_append_cons]
  · exact ⟨text, [], separated, fun before => (List.append_nil _).symm⟩

/-- Putting a nonempty block that is no dot segment in the place of some text makes no dot
segment. -/
theorem dotSegments_replace {old block : List Char} (nonempty : block ≠ [])
    (single : '/' ∉ block) (proper : isDotSegment block = false) (before text : List Char) :
    (dotSegments (before ++ replace old block text)).Sublist (dotSegments (before ++ text)) := by
  induction text using scan_induction (literal old) generalizing before with
  | nil => exact List.Sublist.refl _
  | found symbol rest value more hit ih =>
      have replaced : replace old block (symbol :: rest) =
          block ++ replace old block (rest.drop more) := by
        unfold replace substitute
        rw [scan_cons_of_some hit, fill_found]
      have whole : symbol :: rest = symbol :: rest.take more ++ rest.drop more := by
        rw [List.cons_append, List.take_append_drop]
      obtain ⟨dots, last, lastSingle, front⟩ := exists_last_segment before
      obtain ⟨first, later, firstSingle, back⟩ :=
        exists_first_segment (replace old block (rest.drop more))
      obtain ⟨other, remaining, otherSingle, original⟩ := exists_first_segment (rest.drop more)
      have dead : dotSegments (last ++ (block ++ first)) = [] := by
        rw [dotSegments_of_not_mem (by simp [lastSingle, single, firstSingle]), ← List.append_assoc,
          List.filter_singleton, isDotSegment_of_block nonempty proper]
        rfl
      have marked (text : List Char) (none : '/' ∉ text) : dotSegments (['x'] ++ text) = [] := by
        rw [dotSegments_of_not_mem (by simp [none])]
        simp [isDotSegment]
      -- Behind a mark that is no dot, the text contributes its later segments only.
      have shorter : later.Sublist remaining := by
        have inside := ih ['x']
        rwa [back, original, marked _ firstSingle, marked _ otherSingle, List.nil_append,
          List.nil_append] at inside
      rw [replaced, whole, front, front, ← List.append_assoc last block, back,
        ← List.append_assoc last _ (rest.drop more), original, List.append_assoc last block, dead,
        List.nil_append]
      exact (List.Sublist.refl dots).append (shorter.trans (List.sublist_append_right _ _))
  | plain symbol rest miss ih =>
      have replaced : replace old block (symbol :: rest) = symbol :: replace old block rest := by
        unfold replace substitute
        rw [scan_cons_of_none miss, fill_plain]
      have inside := ih (before ++ [symbol])
      rwa [List.append_assoc, List.append_assoc, List.singleton_append, List.singleton_append,
        ← replaced] at inside

section Segments

variable {Segment : Type} {segments : List Segment} {first second : Segment → List Char}

theorem filter_isDotSegment_congr
    (forth : ∀ segment ∈ segments, isDotSegment (first segment) = true →
      first segment = second segment)
    (back : ∀ segment ∈ segments, isDotSegment (second segment) = true →
      first segment = second segment) :
    (segments.map first).filter isDotSegment = (segments.map second).filter isDotSegment := by
  have same : segments.filter (isDotSegment ∘ first) = segments.filter (isDotSegment ∘ second) := by
    apply List.filter_congr
    intro segment member
    rw [Function.comp, Function.comp, Bool.eq_iff_iff]
    constructor
    · intro dots
      rwa [← forth segment member dots]
    · intro dots
      rwa [back segment member dots]
  rw [List.filter_map, List.filter_map, same]
  apply List.map_congr_left
  intro segment member
  obtain ⟨among, dots⟩ := List.mem_filter.mp member
  exact back segment among dots

theorem not_sublist_of_new (back : ∀ segment ∈ segments, isDotSegment (second segment) = true →
      first segment = second segment) {segment : Segment} (member : segment ∈ segments)
    (new : isDotSegment (first segment) = true) (old : isDotSegment (second segment) = false) :
    ¬ ((segments.map first).filter isDotSegment).Sublist
      ((segments.map second).filter isDotSegment) := by
  intro inside
  have fewer := inside.length_le
  rw [← List.countP_eq_length_filter, ← List.countP_eq_length_filter, List.countP_map,
    List.countP_map] at fewer
  obtain ⟨before, after, rfl⟩ := List.append_of_mem member
  have more (part : List Segment) (within : part ⊆ before ++ segment :: after) :
      part.countP (isDotSegment ∘ second) ≤ part.countP (isDotSegment ∘ first) := by
    apply List.countP_mono_left
    intro other among dots
    rwa [Function.comp, back other (within among) dots]
  have left := more before (List.subset_append_left _ _)
  have right := more after fun other among =>
    List.mem_append_right _ (List.mem_cons_of_mem _ among)
  simp only [List.countP_append, List.countP_cons, Function.comp, new, old] at fewer left right
  simp only [if_true, Bool.false_eq_true, if_false] at fewer
  omega

end Segments

/-- A dot segment has room for empty fillings only. -/
theorem fill_eq_nil_of_isDotSegment {segment : List (Piece Char (List Char))}
    {spelling : List Char → List Char}
    (proper : ∀ name, .found name ∈ segment → isDotSegment (spelling name) = false)
    (dots : isDotSegment (fill spelling segment) = true) {name : List Char}
    (member : .found name ∈ segment) : spelling name = [] := by
  by_contra nonempty
  obtain ⟨before, after, rfl⟩ := List.append_of_mem member
  have whole := @isDotSegment_of_block (fill spelling before) (spelling name) (fill spelling after)
    nonempty (proper name member)
  rw [fill_append, fill_found, ← List.append_assoc, whole] at dots
  cases dots

/-! ### Building a path -/

namespace Contract

variable {contract : Contract} {operation : Operation} {step : Step}

theorem buildPath_eq_ok_iff {params : List (String × Json)} {template path : List Char} :
    contract.buildPath params template = .ok path ↔
      (∀ key value, (key, value) ∈ params →
        value.printable = true ∧ isDotSegment (contract.encoded value) = false) ∧
        params.foldl (fun text entry =>
          replace (braced entry.1.toList) (contract.encoded entry.2) text) template = path := by
  induction params generalizing template with
  | nil => simp [buildPath]
  | cons entry params ih =>
      obtain ⟨key, value⟩ := entry
      have first (all : ∀ name other, (name, other) ∈ (key, value) :: params →
          other.printable = true ∧ isDotSegment (contract.encoded other) = false) :=
        all key value List.mem_cons_self
      rw [buildPath]
      split
      · rename_i long
        constructor
        · intro built
          cases built
        · rintro ⟨all, _⟩
          rw [(first all).1] at long
          cases long
      · rename_i printable
        split
        · rename_i dots
          rw [← isDotSegment_iff] at dots
          constructor
          · intro built
            cases built
          · rintro ⟨all, _⟩
            rw [(first all).2] at dots
            cases dots
        · rename_i proper
          rw [← isDotSegment_iff, Bool.not_eq_true] at proper
          rw [ih, List.foldl_cons]
          constructor
          · rintro ⟨others, filled⟩
            refine ⟨?_, filled⟩
            intro name other member
            rcases List.mem_cons.mp member with same | later
            · cases same
              exact ⟨by simpa using printable, proper⟩
            · exact others name other later
          · rintro ⟨all, filled⟩
            exact ⟨fun name other member => all name other (List.mem_cons_of_mem _ member), filled⟩

/-- What each replacement keeps, the built path has. -/
theorem buildPath_invariant {motive : List Char → Prop} {params : List (String × Json)}
    {template path : List Char} (initial : motive template)
    (keeps : ∀ key value text, (key, value) ∈ params →
      isDotSegment (contract.encoded value) = false → motive text →
        motive (replace (braced key.toList) (contract.encoded value) text))
    (built : contract.buildPath params template = .ok path) : motive path := by
  obtain ⟨proper, rfl⟩ := buildPath_eq_ok_iff.mp built
  clear built
  induction params generalizing template with
  | nil => exact initial
  | cons entry params ih =>
      obtain ⟨key, value⟩ := entry
      have first := keeps key value template List.mem_cons_self
        (proper key value List.mem_cons_self).2 initial
      exact ih first
        (fun name other text member => keeps name other text (List.mem_cons_of_mem _ member))
        (fun name other member => proper name other (List.mem_cons_of_mem _ member))

/-- What `request` returns. -/
theorem request_eq_ok_iff (found : contract.operation? step.operation = some operation)
    {method path : String} {failures : List String} :
    contract.request step = .ok (method, path, failures) ↔
      ∃ paramErrors bodyErrors,
        gather (contract.paramErrors step) operation.params = .ok paramErrors ∧
        contract.bodyErrors operation.operation step.jsonBody = .ok bodyErrors ∧
        contract.buildPath step.pathParams operation.path.toList = .ok path.toList ∧
        method = operation.method ∧
        failures = if step.allowInvalidRequest then [] else paramErrors ++ bodyErrors := by
  unfold request
  rw [found]
  dsimp only
  constructor
  · intro returned
    obtain ⟨paramErrors, params, returned⟩ := except_bind_eq_ok.mp returned
    obtain ⟨bodyErrors, body, returned⟩ := except_bind_eq_ok.mp returned
    obtain ⟨built, filled, returned⟩ := except_bind_eq_ok.mp returned
    cases returned
    exact ⟨paramErrors, bodyErrors, params, body, by rw [String.toList_ofList, filled], rfl, rfl⟩
  · rintro ⟨paramErrors, bodyErrors, params, body, filled, rfl, rfl⟩
    simp [params, body, filled, bind, Except.bind, pure, Except.pure]

/-- The text that fills a placeholder. -/
def filling (contract : Contract) (params : List (String × Json)) (name : List Char) :
    Option (List Char) :=
  (params.lookup (String.ofList name)).map contract.encoded

/-- The text that replaces a placeholder for which there is a value. -/
def inserted (contract : Contract) (params : List (String × Json)) (name : List Char) :
    List Char :=
  contract.encoded ((params.lookup (String.ofList name)).getD .null)

theorem inserted_of_lookup {params : List (String × Json)} {name : List Char} {value : Json}
    (located : params.lookup (String.ofList name) = some value) :
    contract.inserted params name = contract.encoded value := by
  rw [inserted, located, Option.getD_some]

theorem escaped_encoded (value : Json) : Escaped (contract.encoded value) :=
  escaped_quote _

theorem proper_of_mem_findAll {text name : List Char} (member : name ∈ findAll placeholder text) :
    name ≠ [] ∧ '\x7d' ∉ name := by
  obtain ⟨symbol, rest, more, _, hit⟩ := exists_of_mem_findAll member
  obtain ⟨nonempty, closed, _⟩ := placeholder_eq_some_iff.mp hit
  exact ⟨nonempty, closed⟩

/-- Replacing the placeholders one after the other fills all of them at once. -/
theorem foldl_replace {params : List (String × Json)} {template : List Char}
    {filled : List Char → Option (List Char)}
    (names : ∀ name ∈ findAll placeholder template, '\x7b' ∉ name)
    (keys : ∀ key value, (key, value) ∈ params → key.toList ≠ [] ∧ '\x7d' ∉ key.toList)
    (blocks : ∀ name block, filled name = some block → '\x7b' ∉ block) :
    params.foldl (fun text entry =>
        replace (braced entry.1.toList) (contract.encoded entry.2) text)
          (substitute placeholder (spell filled) template) =
      substitute placeholder
        (spell fun name => (filled name).or (contract.filling params name)) template := by
  induction params generalizing filled with
  | nil => simp [filling]
  | cons entry params ih =>
      obtain ⟨key, value⟩ := entry
      obtain ⟨nonempty, closed⟩ := keys key value List.mem_cons_self
      have free : '\x7b' ∉ contract.encoded value := (escaped_encoded value).not_mem (by decide)
      rw [List.foldl_cons, replace_fill nonempty closed names blocks]
      rw [ih (fun name other member => keys name other (List.mem_cons_of_mem _ member))]
      · congr 2
        funext name
        rw [Option.or_assoc]
        congr 1
        unfold filling
        rw [List.lookup_cons]
        by_cases same : name = key.toList
        · subst name
          simp
        · have other : (String.ofList name == key) = false := by
            rw [beq_eq_false_iff_ne]
            rintro rfl
            exact same String.toList_ofList.symm
          rw [if_neg same, other, Option.none_or]
      · intro name block given
        rcases Option.or_eq_some_iff.mp given with before | ⟨_, now⟩
        · exact blocks name block before
        · split at now
          · cases now
            exact free
          · cases now

/-- What `validate_suite` has found out about a step that it accepts. -/
theorem of_validateStep (accepted : contract.validateStep step = .ok ()) :
    ∃ operation, contract.operation? step.operation = some operation ∧
      (∀ name, name ∈ findAll placeholder operation.path.toList ↔
        name ∈ step.pathParams.map (fun entry => entry.1.toList)) ∧
      ∃ definition,
        contract.responseDefinition operation.operation step.expect.status = .ok definition := by
  unfold validateStep at accepted
  split at accepted
  · cases accepted
  · rename_i operation found
    dsimp only at accepted
    split at accepted
    · cases accepted
    · rename_i matching
      obtain ⟨definition, defined, _⟩ := except_bind_eq_ok.mp accepted
      refine ⟨operation, found, ?_, definition, defined⟩
      simp only [Bool.not_eq_true, Bool.not_eq_false', Bool.and_eq_true, List.all_eq_true,
        decide_eq_true_eq] at matching
      exact fun name => ⟨matching.1 name, matching.2 name⟩

/-- With a value for every placeholder and nothing else, a path is its template with all
placeholders filled. -/
theorem path_of_request (found : contract.operation? step.operation = some operation)
    (names : ∀ name ∈ findAll placeholder operation.path.toList, '\x7b' ∉ name)
    (keys : ∀ name, name ∈ findAll placeholder operation.path.toList ↔
      name ∈ step.pathParams.map (fun entry => entry.1.toList))
    {method path : String} {failures : List String}
    (returned : contract.request step = .ok (method, path, failures)) :
    (∀ name ∈ findAll placeholder operation.path.toList,
      ∃ value, step.pathParams.lookup (String.ofList name) = some value) ∧
    path.toList =
      substitute placeholder (contract.inserted step.pathParams) operation.path.toList := by
  have given : ∀ name ∈ findAll placeholder operation.path.toList,
      ∃ value, step.pathParams.lookup (String.ofList name) = some value := by
    intro name member
    obtain ⟨⟨key, value⟩, among, rfl⟩ := List.mem_map.mp ((keys name).mp member)
    rw [String.ofList_toList, ← Option.isSome_iff_exists, List.lookup_isSome_iff]
    exact ⟨(key, value), among, beq_self_eq_true key⟩
  refine ⟨given, ?_⟩
  obtain ⟨_, _, _, _, built, _⟩ := (request_eq_ok_iff found).mp returned
  have whole := @foldl_replace contract step.pathParams operation.path.toList (fun _ => none) names
    (fun key value member =>
      proper_of_mem_findAll ((keys key.toList).mpr (List.mem_map_of_mem member)))
    (fun name block given => by cases given)
  have bare : spell (fun _ => none) = braced := rfl
  rw [bare, substitute_braced, (buildPath_eq_ok_iff.mp built).2] at whole
  rw [whole]
  apply fill_congr
  intro name member
  obtain ⟨value, located⟩ := given name (mem_findAll.mpr member)
  rw [inserted_of_lookup located]
  simp [spell, filling, located]

/-- The path of a request of an accepted step fills all placeholders of the template at once
with percent-encoded values, which bring in no delimiter and can be decoded. -/
theorem request_path {sent : Step} (accepted : contract.validateStep step = .ok ())
    (found : contract.operation? step.operation = some operation)
    (names : ∀ name ∈ findAll placeholder operation.path.toList, '\x7b' ∉ name)
    (same : sent.operation = step.operation)
    (keys : ∀ key, key ∈ sent.pathParams.map Prod.fst ↔ key ∈ step.pathParams.map Prod.fst)
    {method path : String} {failures : List String}
    (returned : contract.request sent = .ok (method, path, failures)) :
    (∀ name ∈ findAll placeholder operation.path.toList,
      ∃ value, sent.pathParams.lookup (String.ofList name) = some value) ∧
    path.toList =
      substitute placeholder (contract.inserted sent.pathParams) operation.path.toList ∧
    findAll placeholder path.toList = [] ∧
    ∀ key value, (key, value) ∈ sent.pathParams →
      Escaped (contract.encoded value) ∧
      (∀ symbol ∈ ['/', '?', '#', '\x7b', '\x7d'], symbol ∉ contract.encoded value) ∧
      unquote? (contract.encoded value) = some (value.toStr contract.library.repr).toList := by
  obtain ⟨known, again, matching, _⟩ := of_validateStep accepted
  cases found.symm.trans again
  have renamed : ∀ name, name ∈ findAll placeholder operation.path.toList ↔
      name ∈ sent.pathParams.map (fun entry => entry.1.toList) := by
    intro name
    have keysOf (params : List (String × Json)) :
        name ∈ params.map (fun entry => entry.1.toList) ↔
          String.ofList name ∈ params.map Prod.fst := by
      simp only [List.mem_map, ← String.toList_inj, String.toList_ofList]
    rw [matching, keysOf, keysOf, keys]
  obtain ⟨given, filled⟩ := path_of_request (same ▸ found) names renamed returned
  refine ⟨given, filled, ?_, ?_⟩
  · rw [filled]
    apply findAll_substitute
    intro name member
    exact (escaped_encoded _).not_mem (by decide)
  · intro key value member
    refine ⟨escaped_encoded value, ?_, unquote?_quote _⟩
    have delimiters : ['/', '?', '#', '\x7b', '\x7d'].all delimiter = true := by rfl
    intro symbol listed
    exact (escaped_encoded value).not_mem (List.all_eq_true.mp delimiters symbol listed)

/-! ### New dot segments -/

/-- The parts of a template between the slashes outside its names. -/
def parts (template : List Char) : List (List (Piece Char (List Char))) :=
  (scan placeholder template).splitOn (.plain '/')

/-- A segment of the template consists of `.` or `..` and of placeholders that are filled
with nothing. -/
def Hollow (contract : Contract) (params : List (String × Json)) (template : List Char) : Prop :=
  ∃ segment ∈ parts template,
    (∃ name, .found name ∈ segment) ∧
    (∀ name, .found name ∈ segment → ∃ value,
      params.lookup (String.ofList name) = some value ∧
        value.toStr contract.library.repr = "") ∧
    isDotSegment (fill (fun _ => []) segment) = true

theorem encoded_eq_nil_iff {value : Json} :
    contract.encoded value = [] ↔ value.toStr contract.library.repr = "" := by
  unfold encoded
  rw [quote_eq_nil_iff, String.toList_eq_nil_iff]

theorem slash_not_mem_encoded (value : Json) : '/' ∉ contract.encoded value :=
  (escaped_encoded value).not_mem (by decide)

/-- Values that are not empty bring in no dot segment. -/
theorem dotSegments_buildPath {params : List (String × Json)} {template path : List Char}
    (nonempty : ∀ key value, (key, value) ∈ params → value.toStr contract.library.repr ≠ "")
    (built : contract.buildPath params template = .ok path) :
    (dotSegments path).Sublist (dotSegments template) := by
  refine buildPath_invariant (motive := fun text =>
    (dotSegments text).Sublist (dotSegments template)) (List.Sublist.refl _) ?_ built
  intro key value text member proper inside
  have block : contract.encoded value ≠ [] := fun empty =>
    nonempty key value member (encoded_eq_nil_iff.mp empty)
  exact (dotSegments_replace block (slash_not_mem_encoded value) proper [] text).trans inside

/-- A segment whose placeholders are spelled with braces is a dot segment only if it has
no placeholder. -/
theorem fill_braced_of_isDotSegment {segment : List (Piece Char (List Char))}
    (spelling : List Char → List Char) (dots : isDotSegment (fill braced segment) = true) :
    fill spelling segment = fill braced segment := by
  apply fill_congr
  intro name member
  have proper : ∀ name, isDotSegment (braced name) = false := fun name => by
    simp [isDotSegment, braced]
  cases fill_eq_nil_of_isDotSegment (fun name _ => proper name) dots member

/-- A slash in a name only splits the template further. -/
theorem dotSegments_parts (template : List Char) :
    (((parts template).map (fill braced)).filter isDotSegment).Sublist (dotSegments template) := by
  have whole := substitute_braced template
  unfold substitute at whole
  conv_rhs => rw [← whole]
  unfold parts
  generalize scan placeholder template = pieces
  clear whole
  induction pieces using splitOn_induction (Piece.plain '/' : Piece Char (List Char)) with
  | last part none =>
      rw [List.splitOn_eq_singleton none, List.map_singleton]
      exact singleton_sublist_dotSegments _
  | part part rest none ih =>
      rw [List.splitOn_append_cons_self_of_not_mem none, fill_append, fill_plain,
        dotSegments_append_cons, List.map_cons, ← List.singleton_append, List.filter_append]
      exact (singleton_sublist_dotSegments _).append ih

theorem dotSegments_parts_eq {template : List Char}
    (names : ∀ name ∈ findAll placeholder template, '/' ∉ name) :
    dotSegments template = ((parts template).map (fill braced)).filter isDotSegment := by
  have whole := substitute_braced template
  unfold substitute at whole
  conv_lhs => rw [← whole]
  rw [dotSegments, splitOn_fill]
  · rfl
  · intro name member
    simp [braced, names name (mem_findAll.mpr member)]

section Filled

variable {params : List (String × Json)} {template : List Char}

/-- A part of the template that becomes a dot segment is one, or is hollow. -/
theorem hollow_or_literal
    (given : ∀ name ∈ findAll placeholder template,
      ∃ value, params.lookup (String.ofList name) = some value)
    (proper : ∀ key value, (key, value) ∈ params → isDotSegment (contract.encoded value) = false)
    {segment : List (Piece Char (List Char))} (listed : segment ∈ parts template)
    (dots : isDotSegment (fill (contract.inserted params) segment) = true) :
    contract.Hollow params template ∨
      fill (contract.inserted params) segment = fill braced segment := by
  have located : ∀ name, .found name ∈ segment →
      ∃ value, params.lookup (String.ofList name) = some value := fun name member =>
    given name (mem_findAll.mpr (mem_of_mem_splitOn listed member))
  have empty : ∀ name, .found name ∈ segment → contract.inserted params name = [] := by
    intro name member
    refine fill_eq_nil_of_isDotSegment ?_ dots member
    intro other among
    obtain ⟨value, found⟩ := located other among
    rw [inserted_of_lookup found]
    exact proper _ value (mem_of_lookup found)
  by_cases filled : ∃ name, .found name ∈ segment
  · refine .inl ⟨segment, listed, filled, ?_, ?_⟩
    · intro name member
      obtain ⟨value, found⟩ := located name member
      have nothing := empty name member
      rw [inserted_of_lookup found] at nothing
      exact ⟨value, found, encoded_eq_nil_iff.mp nothing⟩
    · have hollow : fill (contract.inserted params) segment = fill (fun _ => []) segment :=
        fill_congr empty
      exact hollow ▸ dots
  · refine .inr (fill_congr ?_)
    intro name member
    exact absurd ⟨name, member⟩ filled

theorem dotSegments_filled :
    dotSegments (substitute placeholder (contract.inserted params) template) =
      ((parts template).map (fill (contract.inserted params))).filter isDotSegment := by
  unfold substitute parts
  rw [dotSegments, splitOn_fill]
  intro name member
  exact slash_not_mem_encoded _

/-- Without a hollow segment the dot segments of a path are parts of its template. -/
theorem dotSegments_of_not_hollow
    (given : ∀ name ∈ findAll placeholder template,
      ∃ value, params.lookup (String.ofList name) = some value)
    (proper : ∀ key value, (key, value) ∈ params → isDotSegment (contract.encoded value) = false)
    (solid : ¬ contract.Hollow params template) :
    (dotSegments (substitute placeholder (contract.inserted params) template)).Sublist
      (dotSegments template) := by
  have same := @filter_isDotSegment_congr _ (parts template) (fill (contract.inserted params))
    (fill braced)
    (fun segment listed dots => (hollow_or_literal given proper listed dots).resolve_left solid)
    (fun segment _ dots => fill_braced_of_isDotSegment _ dots)
  rw [dotSegments_filled, same]
  exact dotSegments_parts template

/-- A hollow segment adds a dot segment to those of the template. -/
theorem not_hollow_of_dotSegments (names : ∀ name ∈ findAll placeholder template, '/' ∉ name)
    (inside : (dotSegments (substitute placeholder (contract.inserted params) template)).Sublist
      (dotSegments template)) : ¬ contract.Hollow params template := by
  rintro ⟨segment, listed, ⟨name, member⟩, empty, dots⟩
  have hollow : fill (contract.inserted params) segment = fill (fun _ => []) segment := by
    apply fill_congr
    intro name member
    obtain ⟨value, located, nothing⟩ := empty name member
    rw [inserted_of_lookup located, encoded_eq_nil_iff.mpr nothing]
  have bracedProper : ∀ name, isDotSegment (braced name) = false := fun name => by
    simp [isDotSegment, braced]
  have literal : isDotSegment (fill braced segment) = false := by
    rw [← Bool.not_eq_true]
    intro literal
    cases fill_eq_nil_of_isDotSegment (fun name _ => bracedProper name) literal member
  rw [dotSegments_filled, dotSegments_parts_eq names] at inside
  exact @not_sublist_of_new _ (parts template) (fill (contract.inserted params)) (fill braced)
    (fun segment _ dots => fill_braced_of_isDotSegment _ dots) segment listed (hollow ▸ dots)
    literal
    inside

end Filled

/-- The path of a request has no dot segment that is not in its template: always if no value
is empty, and if the names have no opening brace, just if no segment is hollow. -/
theorem dotSegments_request_iff
    (found : contract.operation? step.operation = some operation)
    (keys : ∀ name, name ∈ findAll placeholder operation.path.toList ↔
      name ∈ step.pathParams.map (fun entry => entry.1.toList))
    {method path : String} {failures : List String}
    (returned : contract.request step = .ok (method, path, failures)) :
    ((∀ key value, (key, value) ∈ step.pathParams → value.toStr contract.library.repr ≠ "") →
      (dotSegments path.toList).Sublist (dotSegments operation.path.toList)) ∧
    ((∀ name ∈ findAll placeholder operation.path.toList, '\x7b' ∉ name) →
      ¬ contract.Hollow step.pathParams operation.path.toList →
      (dotSegments path.toList).Sublist (dotSegments operation.path.toList)) ∧
    ((∀ name ∈ findAll placeholder operation.path.toList, '\x7b' ∉ name ∧ '/' ∉ name) →
      ((dotSegments path.toList).Sublist (dotSegments operation.path.toList) ↔
        ¬ contract.Hollow step.pathParams operation.path.toList)) := by
  obtain ⟨_, _, _, _, built, _⟩ := (request_eq_ok_iff found).mp returned
  have proper := (buildPath_eq_ok_iff.mp built).1
  have solid : (∀ name ∈ findAll placeholder operation.path.toList, '\x7b' ∉ name) →
      ¬ contract.Hollow step.pathParams operation.path.toList →
      (dotSegments path.toList).Sublist (dotSegments operation.path.toList) := by
    intro names solid
    obtain ⟨given, filled⟩ := path_of_request found names keys returned
    rw [filled]
    exact dotSegments_of_not_hollow given (fun key value member => (proper key value member).2)
      solid
  refine ⟨fun nonempty => dotSegments_buildPath nonempty built, solid, ?_⟩
  intro names
  have free : ∀ name ∈ findAll placeholder operation.path.toList, '\x7b' ∉ name :=
    fun name member => (names name member).1
  constructor
  · intro inside
    rw [(path_of_request found free keys returned).2] at inside
    exact not_hollow_of_dotSegments (fun name member => (names name member).2) inside
  · exact solid free

end Contract

namespace Sample

theorem findAll_readItem : findAll placeholder readItem.path.toList = ["id".toList] := by rfl

theorem read_accepted : contract.validateStep read = .ok () := by rfl

theorem read_request : contract.request read = .ok ("GET", "/items/7", []) := by rfl

/-- An operation with a literal dot before a placeholder. -/
def readHidden : Contract.Operation where
  method := "GET"
  path := "/files/.\x7bname\x7d"
  operation := .obj [("operationId", .str "readHidden"), ("responses", responses)]
  params := []

def hiddenDocument : List (String × Json) :=
  [("openapi", .str "3.1.0"),
    ("paths", .obj [(readHidden.path, .obj [("get", readHidden.operation)])])]

def hiddenContract : Contract where
  library := library
  document := hiddenDocument
  operations := [(.str "readHidden", readHidden)]

/-- A step that reads the hidden file of a name. -/
def readNamed (name : String) : Step where
  name := "read"
  operation := "readHidden"
  pathParams := [("name", .str name)]
  expect := { status := 200 }

def nameless : Step := readNamed ""

theorem findAll_readHidden : findAll placeholder readHidden.path.toList = ["name".toList] := by rfl

end Sample

/-- The sample request: `/items/7`. -/
theorem Contract.request_path_sample :
    "/items/7".toList = substitute placeholder
        (Sample.contract.inserted Sample.read.pathParams) Sample.readItem.path.toList ∧
      findAll placeholder "/items/7".toList = [] :=
  have filled := @Contract.request_path Sample.contract Sample.readItem Sample.read Sample.read
    Sample.read_accepted rfl (by rw [Sample.findAll_readItem]; simp) rfl (fun _ => Iff.rfl)
    "GET" "/items/7" [] Sample.read_request
  ⟨filled.2.1, filled.2.2.1⟩

/-- The segment `.{name}` is hollow for the empty name, and not for `x`. -/
theorem Contract.dotSegments_request_iff_sample :
    ¬ Sample.hiddenContract.Hollow (Sample.readNamed "x").pathParams
        Sample.readHidden.path.toList ∧
      Sample.hiddenContract.Hollow (Sample.readNamed "").pathParams
        Sample.readHidden.path.toList := by
  have names : ∀ name ∈ findAll placeholder Sample.readHidden.path.toList,
      '\x7b' ∉ name ∧ '/' ∉ name := by
    rw [Sample.findAll_readHidden]
    decide
  have keys (given name) : name ∈ findAll placeholder Sample.readHidden.path.toList ↔
      name ∈ (Sample.readNamed given).pathParams.map (fun entry => entry.1.toList) := by
    rw [Sample.findAll_readHidden]
    rfl
  have law := (@Contract.dotSegments_request_iff Sample.hiddenContract Sample.readHidden
    (Sample.readNamed "x") rfl (keys "x") "GET" "/files/.x" [] rfl).2.2 names
  have empty := (@Contract.dotSegments_request_iff Sample.hiddenContract Sample.readHidden
    (Sample.readNamed "") rfl (keys "") "GET" "/files/." [] rfl).2.2 names
  refine ⟨law.mp (by decide), ?_⟩
  by_contra solid
  exact absurd (empty.mpr solid) (by decide)

/-- An empty name makes `/files/.` of `/files/.{name}`. -/
theorem Contract.dotSegments_counterexample :
    Contract.init Sample.library Sample.hiddenDocument = .ok Sample.hiddenContract ∧
      Sample.hiddenContract.validateStep Sample.nameless = .ok () ∧
      Sample.hiddenContract.request Sample.nameless = .ok ("GET", "/files/.", []) ∧
      ¬ (dotSegments "/files/.".toList).Sublist (dotSegments Sample.readHidden.path.toList) := by
  refine ⟨rfl, rfl, rfl, ?_⟩
  decide

end ApiSentinel
