import ApiSentinel.Loading
import ApiSentinel.Paths
import ApiSentinel.UrlSyntax

/-!
# The base URL

`validate_base_url` looks at the components of a URL, and the executor appends paths to the
text.  The two agree unless an empty query or fragment has left its delimiter at the end.
-/

namespace ApiSentinel

open Scanning PercentEncoding UrlSyntax

def invalidBaseUrl : Raised :=
  ⟨"ValueError", true, "base URL must be HTTP(S), without credentials, query, or fragment"⟩

/-- `validate_base_url(value)`, where the `urlsplit` that takes a text apart, and the errors
that it finds in a network location, are parameters. -/
def validateBaseUrlBy (split : List Char → SplitResult)
    (checkNetloc : List Char → Except Raised Unit) (value : String) : Except Raised String := do
  let url := split value.toList
  checkNetloc url.netloc
  if !(url.scheme == "http".toList || url.scheme == "https".toList) || url.hostname.isEmpty ||
      !url.username.isEmpty || !url.password.isEmpty || !url.query.isEmpty ||
      !url.fragment.isEmpty then
    .error invalidBaseUrl
  else pure (String.ofList (value.toList.rdropWhile (· == '/')))

/-- `validate_base_url(value)` in Python -/
def validateBaseUrl : (List Char → Except Raised Unit) → String → Except Raised String :=
  validateBaseUrlBy pythonSplit

/-- What the components of a base URL have to be. -/
def IsBase (url : SplitResult) : Prop :=
  (url.scheme = "http".toList ∨ url.scheme = "https".toList) ∧ url.hostname ≠ [] ∧
    url.username = [] ∧
    url.password = [] ∧ url.query = [] ∧ url.fragment = []

theorem validateBaseUrlBy_eq_ok_iff {split : List Char → SplitResult}
    {checkNetloc : List Char → Except Raised Unit} {value result : String} :
    validateBaseUrlBy split checkNetloc value = .ok result ↔
      checkNetloc (split value.toList).netloc = .ok () ∧ IsBase (split value.toList) ∧
        result.toList = value.toList.rdropWhile (· == '/') := by
  have condition (url : SplitResult) :
      (!(url.scheme == "http".toList || url.scheme == "https".toList) || url.hostname.isEmpty ||
        !url.username.isEmpty || !url.password.isEmpty || !url.query.isEmpty ||
        !url.fragment.isEmpty) = false ↔ IsBase url := by
    simp only [IsBase, Bool.or_eq_false_iff, Bool.not_eq_false', Bool.or_eq_true, beq_iff_eq,
      List.isEmpty_eq_false_iff, List.isEmpty_iff, and_assoc]
  unfold validateBaseUrlBy
  dsimp only
  rw [except_bind_eq_ok, ← condition]
  constructor
  · rintro ⟨_, checked, validated⟩
    split at validated
    · cases validated
    · rename_i proper
      cases validated
      exact ⟨checked, by simpa only [Bool.not_eq_true] using proper, String.toList_ofList⟩
  · rintro ⟨checked, proper, stripped⟩
    refine ⟨(), checked, ?_⟩
    rw [proper, ← stripped, String.ofList_toList]
    rfl

/-- On a text that Python leaves as it is, the generic syntax is all there is to it. -/
theorem validateBaseUrl_of_cleaned {checkNetloc : List Char → Except Raised Unit} {value : String}
    (clean : cleaned value.toList = value.toList) :
    validateBaseUrl checkNetloc value = validateBaseUrlBy urlsplit checkNetloc value := by
  unfold validateBaseUrl validateBaseUrlBy pythonSplit
  rw [clean]

/-- The URL of a request by the generic syntax: the base URL with the path appended to its own
path. -/
structure Composes (checkNetloc : List Char → Except Raised Unit) (given base path : String) :
    Prop where
  scheme : (urlsplit (base ++ path).toList).scheme = (urlsplit given.toList).scheme
  netloc : (urlsplit (base ++ path).toList).netloc = (urlsplit given.toList).netloc
  query : (urlsplit (base ++ path).toList).query = []
  fragment : (urlsplit (base ++ path).toList).fragment = []
  path : (urlsplit (base ++ path).toList).path = (urlsplit base.toList).path ++ path.toList
  stable : validateBaseUrlBy urlsplit checkNetloc base = .ok base

/-! ### Paths of accepted contracts -/

namespace Contract

variable {library : Library} {members : List (String × Json)} {contract : Contract} {step : Step}

/-- Filling placeholders keeps the slash at the front of a path and brings in no `?` or `#`. -/
theorem absolute_of_buildPath {params : List (String × Json)} {template path : List Char}
    (absolute : ['/'] <+: template) (bare : '?' ∉ template ∧ '#' ∉ template)
    (built : contract.buildPath params template = .ok path) :
    ['/'] <+: path ∧ '?' ∉ path ∧ '#' ∉ path := by
  refine buildPath_invariant (motive := fun text =>
    ['/'] <+: text ∧ '?' ∉ text ∧ '#' ∉ text) ⟨absolute, bare⟩ ?_ built
  rintro key value text member proper ⟨⟨rest, rfl⟩, noQuery, noFragment⟩
  have clean (symbol : Char) (separates : delimiter symbol = true)
      (lacks : symbol ∉ ['/'] ++ rest) :
      symbol ∉ replace (braced key.toList) (contract.encoded value) (['/'] ++ rest) := by
    intro inside
    rcases mem_of_mem_replace inside with before | inserted
    · exact lacks before
    · exact (escaped_encoded value).not_mem separates inserted
  refine ⟨?_, clean '?' (by decide) noQuery, clean '#' (by decide) noFragment⟩
  rw [List.singleton_append, replace_cons]
  · exact List.prefix_append ['/'] _
  · intro starts
    exact absurd (List.cons_prefix_cons.mp starts).1 (by decide)

theorem absolute_of_request (accepted : init library members = .ok contract)
    {method path : String} {failures : List String}
    (returned : contract.request step = .ok (method, path, failures)) :
    ['/'] <+: path.toList ∧ '?' ∉ path.toList ∧ '#' ∉ path.toList := by
  cases found : contract.operation? step.operation with
  | none =>
      unfold request at returned
      rw [found] at returned
      cases returned
  | some operation =>
      have loaded := loaded_of_operation? accepted found
      obtain ⟨_, _, _, _, built, _⟩ := (request_eq_ok_iff found).mp returned
      exact absolute_of_buildPath loaded.absolute loaded.bare built

end Contract

/-! ### Appending a path -/

section Appending

variable {name netloc rest : List Char}

/-- Only the slashes of the last part are stripped if the first does not end in one. -/
theorem rdropWhile_append {first rest : List Char} {last : Char} (other : last ≠ '/') :
    ((first ++ [last]) ++ rest).rdropWhile (· == '/') =
      (first ++ [last]) ++ rest.rdropWhile (· == '/') := by
  induction rest using List.reverseRecOn with
  | nil =>
      rw [List.append_nil, List.rdropWhile_nil, List.append_nil,
        List.rdropWhile_concat_neg _ _ _ (by simpa using other)]
  | append_singleton rest symbol ih =>
      rw [← List.append_assoc]
      by_cases slash : symbol = '/'
      · subst symbol
        rw [List.rdropWhile_concat_pos _ _ _ (by simp), ih,
          List.rdropWhile_concat_pos _ _ _ (by simp)]
      · rw [List.rdropWhile_concat_neg _ _ _ (by simpa using slash),
          List.rdropWhile_concat_neg _ _ _ (by simpa using slash), List.append_assoc]

theorem rdropWhile_compose (free : ∀ symbol ∈ netloc, isDelimiter symbol = false)
    (located : netloc ≠ []) :
    (name ++ ':' :: '/' :: '/' :: (netloc ++ rest)).rdropWhile (· == '/') =
      name ++ ':' :: '/' :: '/' :: (netloc ++ rest.rdropWhile (· == '/')) := by
  obtain ⟨first, last, rfl⟩ := List.eq_nil_or_concat' netloc |>.resolve_left located
  have other : last ≠ '/' := by
    rintro rfl
    exact absurd (free '/' (by simp)) (by decide)
  have stripped := @rdropWhile_append (name ++ ':' :: '/' :: '/' :: first) rest last other
  simpa only [List.append_assoc, List.cons_append] using stripped

/-- The delimiters of a query and of a fragment are behind the authority. -/
theorem mem_compose_iff (valid : isScheme name = true)
    (free : ∀ symbol ∈ netloc, isDelimiter symbol = false) {symbol : Char}
    (delimits : symbol = '?' ∨ symbol = '#') :
    symbol ∈ name ++ ':' :: '/' :: '/' :: (netloc ++ rest) ↔ symbol ∈ rest := by
  have notInName : symbol ∉ name := by
    cases name with
    | nil => exact List.not_mem_nil
    | cons first name =>
        simp only [isScheme, Bool.and_eq_true, List.all_eq_true] at valid
        rintro (_ | ⟨_, later⟩)
        · rcases delimits with rfl | rfl <;> exact absurd valid.1 (by decide)
        · rcases delimits with rfl | rfl <;> exact absurd (valid.2 _ later) (by decide)
  have notInNetloc : symbol ∉ netloc := by
    intro member
    rcases delimits with rfl | rfl <;> exact absurd (free _ member) (by decide)
  rcases delimits with rfl | rfl <;> simp [notInName, notInNetloc]

theorem head?_append_of_slash {path : List Char} (absolute : ['/'] <+: path)
    (ends : ∀ symbol ∈ rest.head?, isDelimiter symbol = true) :
    ∀ symbol ∈ (rest ++ path).head?, isDelimiter symbol = true := by
  obtain ⟨tail, rfl⟩ := absolute
  cases rest with
  | nil =>
      intro symbol head
      cases head
      rfl
  | cons first rest => exact ends

theorem head?_rdropWhile (ends : ∀ symbol ∈ rest.head?, isDelimiter symbol = true) :
    ∀ symbol ∈ (rest.rdropWhile (· == '/')).head?, isDelimiter symbol = true := by
  obtain ⟨tail, whole⟩ := List.rdropWhile_prefix (· == '/') rest
  cases stripped : rest.rdropWhile (· == '/') with
  | nil =>
      intro symbol head
      cases head
  | cons first others =>
      rw [stripped] at whole
      rw [← whole] at ends
      exact ends

end Appending

theorem netloc_ne_nil_of_isBase {url : SplitResult} (base : IsBase url) : url.netloc ≠ [] := by
  intro nowhere
  refine base.2.1 ?_
  unfold SplitResult.hostname
  rw [nowhere]
  rfl

theorem scheme_ne_nil_of_isBase {url : SplitResult} (base : IsBase url) : url.scheme ≠ [] := by
  intro empty
  rcases base.1 with known | known
  · rw [empty] at known
    cases known
  · rw [empty] at known
    cases known

/-- Without a slash at its end a base URL is still one, at the same network location. -/
theorem isBase_of_slash {text : List Char} (base : IsBase (urlsplit (text ++ ['/']))) :
    IsBase (urlsplit text) ∧ (urlsplit text).netloc = (urlsplit (text ++ ['/'])).netloc := by
  obtain ⟨name, netloc, rest, valid, free, ends, whole⟩ :=
    exists_of_urlsplit (scheme_ne_nil_of_isBase base) (netloc_ne_nil_of_isBase base)
  have split := @urlsplit_compose name netloc rest valid free ends
  rw [whole, split] at base ⊢
  obtain ⟨scheme, host, user, password, noQuery, noFragment⟩ := base
  rcases List.eq_nil_or_concat' rest with rfl | ⟨before, last, rfl⟩
  · -- The slash would be in the network location.
    exfalso
    rw [List.append_nil] at whole
    have member : '/' ∈ netloc := by
      rcases List.eq_nil_or_concat' netloc with rfl | ⟨first, final, rfl⟩
      · exact absurd rfl host
      · have pieces : text ++ ['/'] = (name ++ ':' :: '/' :: '/' :: first) ++ [final] := by
          simpa only [List.append_assoc, List.cons_append] using whole
        rw [(List.singleton_inj.mp (List.append_inj' pieces rfl).2)]
        exact List.mem_append_right _ (List.mem_singleton_self _)
    exact absurd (free '/' member) (by decide)
  · have pieces : text ++ ['/'] = (name ++ ':' :: '/' :: '/' :: (netloc ++ before)) ++ [last] := by
      simpa only [List.append_assoc, List.cons_append] using whole
    obtain ⟨rfl, same⟩ := List.append_inj' pieces rfl
    obtain rfl := (List.singleton_inj.mp same).symm
    have noHash : '#' ∉ before := by
      intro member
      obtain ⟨front, after, rfl, none⟩ := List.eq_append_cons_of_mem member
      rw [List.append_assoc, List.cons_append, cut_append none] at noFragment
      simp at noFragment
    have noMark : '?' ∉ before := by
      have noHashes : '#' ∉ before ++ ['/'] := by simpa using noHash
      rw [cut_of_not_mem noHashes] at noQuery
      intro member
      obtain ⟨front, after, rfl, none⟩ := List.eq_append_cons_of_mem member
      rw [List.append_assoc, List.cons_append, cut_append none] at noQuery
      simp at noQuery
    have starts : ∀ symbol ∈ before.head?, isDelimiter symbol = true := by
      intro symbol head
      refine ends symbol ?_
      rw [List.head?_append, Option.mem_def.mp head]
      rfl
    rw [urlsplit_compose valid free starts, cut_of_not_mem noHash, cut_of_not_mem noMark]
    exact ⟨⟨scheme, host, user, password, rfl, rfl⟩, rfl⟩

theorem isBase_of_slashes {text slashes : List Char} (all : ∀ symbol ∈ slashes, symbol = '/')
    (base : IsBase (urlsplit (text ++ slashes))) :
    IsBase (urlsplit text) ∧ (urlsplit text).netloc = (urlsplit (text ++ slashes)).netloc := by
  induction slashes using List.reverseRecOn with
  | nil =>
      rw [List.append_nil] at base ⊢
      exact ⟨base, rfl⟩
  | append_singleton slashes symbol ih =>
      obtain rfl := all symbol (List.mem_append_right _ (List.mem_singleton_self _))
      rw [← List.append_assoc] at base ⊢
      obtain ⟨shorter, same⟩ := isBase_of_slash base
      obtain ⟨isBase, netloc⟩ := ih (fun other member => all other (List.mem_append_left _ member))
        shorter
      exact ⟨isBase, netloc.trans same⟩

/-- The text that is kept of a base URL is a base URL that is kept as it is. -/
theorem validateBaseUrl_again {checkNetloc : List Char → Except Raised Unit}
    {given base : String} (validated : validateBaseUrl checkNetloc given = .ok base) :
    validateBaseUrl checkNetloc base = .ok base := by
  obtain ⟨checked, isBase, stripped⟩ := validateBaseUrlBy_eq_ok_iff.mp validated
  have whole : given.toList = base.toList ++ given.toList.rtakeWhile (· == '/') := by
    rw [stripped, List.rdropWhile_append_rtakeWhile]
  have all : ∀ symbol ∈ given.toList.rtakeWhile (· == '/'), symbol = '/' := by
    intro symbol member
    have slash := List.mem_rtakeWhile_imp member
    exact beq_iff_eq.mp slash
  generalize given.toList.rtakeWhile (· == '/') = slashes at whole all
  unfold pythonSplit at isBase checked
  rw [whole, cleaned_append_of_slashes all] at isBase checked
  obtain ⟨kept, netloc⟩ := isBase_of_slashes all isBase
  refine validateBaseUrlBy_eq_ok_iff.mpr ⟨?_, kept, ?_⟩
  · exact (congrArg checkNetloc netloc).trans checked
  · rw [stripped, List.rdropWhile_idempotent]

/-- A base URL taken apart, with its text as it is kept and a path to append to it. -/
structure Parts (given base path : String) (name netloc rest : List Char) : Prop where
  valid : isScheme name = true
  free : ∀ symbol ∈ netloc, isDelimiter symbol = false
  located : netloc ≠ []
  ends : ∀ symbol ∈ rest.head?, isDelimiter symbol = true
  whole : given.toList = name ++ ':' :: '/' :: '/' :: (netloc ++ rest)
  stripped : base.toList =
    name ++ ':' :: '/' :: '/' :: (netloc ++ rest.rdropWhile (· == '/'))
  absolute : ['/'] <+: path.toList
  bare : '?' ∉ path.toList ∧ '#' ∉ path.toList

namespace Parts

variable {given base path : String} {name netloc rest : List Char}
  {checkNetloc : List Char → Except Raised Unit}

theorem urlsplit_given (parts : Parts given base path name netloc rest) :
    urlsplit given.toList =
      { scheme := name.map Char.toLower
        netloc
        path := (cut '?' (cut '#' rest).1).1
        query := (cut '?' (cut '#' rest).1).2
        fragment := (cut '#' rest).2 } := by
  rw [parts.whole, urlsplit_compose parts.valid parts.free parts.ends]

/-- The text of the URL is the base URL up to its path, the path and the appended path. -/
theorem urlsplit_append (parts : Parts given base path name netloc rest) :
    urlsplit (base ++ path).toList =
      { scheme := name.map Char.toLower
        netloc
        path := (cut '?' (cut '#' (rest.rdropWhile (· == '/') ++ path.toList)).1).1
        query := (cut '?' (cut '#' (rest.rdropWhile (· == '/') ++ path.toList)).1).2
        fragment := (cut '#' (rest.rdropWhile (· == '/') ++ path.toList)).2 } := by
  rw [String.toList_append, parts.stripped, ← urlsplit_compose parts.valid parts.free
    (head?_append_of_slash parts.absolute (head?_rdropWhile parts.ends))]
  simp only [List.append_assoc, List.cons_append]

theorem path_ne_nil (parts : Parts given base path name netloc rest) : path.toList ≠ [] := by
  intro empty
  have slash := parts.absolute
  rw [empty] at slash
  simp at slash

/-- An empty query or fragment with its delimiter swallows the path. -/
theorem not_mem_of_composes (parts : Parts given base path name netloc rest)
    (isBase : IsBase (urlsplit given.toList)) (composes : Composes checkNetloc given base path) :
    '?' ∉ rest ∧ '#' ∉ rest := by
  have query := composes.query
  have fragment := composes.fragment
  rw [parts.urlsplit_append] at query fragment
  rw [parts.urlsplit_given] at isBase
  obtain ⟨_, _, _, _, noQuery, noFragment⟩ := isBase
  dsimp only at query fragment noQuery noFragment
  have noHash : '#' ∉ rest := by
    intro member
    obtain ⟨before, after, rfl, none⟩ := List.eq_append_cons_of_mem member
    rw [cut_append none] at noFragment
    dsimp only at noFragment
    subst after
    rw [List.rdropWhile_concat_neg _ _ _ (by decide), List.append_assoc, List.cons_append,
      List.nil_append, cut_append none] at fragment
    exact parts.path_ne_nil fragment
  refine ⟨?_, noHash⟩
  intro member
  obtain ⟨before, after, rfl, none⟩ := List.eq_append_cons_of_mem member
  rw [cut_of_not_mem noHash, cut_append none] at noQuery
  dsimp only at noQuery
  subst after
  have noHashes : '#' ∉ before ++ ['?'] ++ path.toList := by
    rw [List.mem_append, not_or]
    exact ⟨noHash, parts.bare.2⟩
  rw [List.rdropWhile_concat_neg _ _ _ (by decide), cut_of_not_mem noHashes, List.append_assoc,
    List.cons_append, List.nil_append, cut_append none] at query
  exact parts.path_ne_nil query

theorem composes_of_not_mem (parts : Parts given base path name netloc rest)
    (isBase : IsBase (urlsplit given.toList))
    (checked : checkNetloc (urlsplit given.toList).netloc = .ok ())
    (noQuery : '?' ∉ rest) (noHash : '#' ∉ rest) : Composes checkNetloc given base path := by
  have inside := (List.rdropWhile_prefix (· == '/') rest).subset
  have clean (symbol : Char) (lacks : symbol ∉ rest) (free : symbol ∉ path.toList) :
      symbol ∉ rest.rdropWhile (· == '/') ++ path.toList := by
    rw [List.mem_append, not_or]
    exact ⟨fun member => lacks (inside member), free⟩
  have baseUrl : urlsplit base.toList =
      { scheme := name.map Char.toLower
        netloc
        path := rest.rdropWhile (· == '/')
        query := []
        fragment := [] } := by
    rw [parts.stripped, urlsplit_compose parts.valid parts.free (head?_rdropWhile parts.ends),
      cut_of_not_mem (fun member => noHash (inside member)),
      cut_of_not_mem (fun member => noQuery (inside member))]
  have appended := parts.urlsplit_append
  rw [cut_of_not_mem (clean '#' noHash parts.bare.2)] at appended
  dsimp only at appended
  rw [cut_of_not_mem (clean '?' noQuery parts.bare.1)] at appended
  have given := parts.urlsplit_given
  rw [given] at isBase checked
  refine ⟨?_, ?_, ?_, ?_, ?_, ?_⟩
  · rw [appended, given]
  · rw [appended, given]
  · rw [appended]
  · rw [appended]
  · rw [appended, baseUrl]
  · obtain ⟨scheme, host, user, password, _, _⟩ := isBase
    rw [validateBaseUrlBy_eq_ok_iff, baseUrl]
    refine ⟨checked, ⟨scheme, host, user, password, rfl, rfl⟩, ?_⟩
    rw [parts.stripped, rdropWhile_compose parts.free parts.located, List.rdropWhile_idempotent]

end Parts

/-- The URL of a request is composed of the base URL and the path of the contract exactly if
the base URL was given without the delimiter of a query or a fragment. -/
theorem composes_iff {library : Library} {members : List (String × Json)} {contract : Contract}
    (accepted : Contract.init library members = .ok contract) {step : Step}
    {method path : String} {failures : List String}
    (returned : contract.request step = .ok (method, path, failures))
    {checkNetloc : List Char → Except Raised Unit} {given base : String}
    (validated : validateBaseUrlBy urlsplit checkNetloc given = .ok base) :
    Composes checkNetloc given base path ↔ '?' ∉ given.toList ∧ '#' ∉ given.toList := by
  obtain ⟨absolute, bare⟩ := Contract.absolute_of_request accepted returned
  obtain ⟨checked, isBase, stripped⟩ := validateBaseUrlBy_eq_ok_iff.mp validated
  obtain ⟨name, netloc, rest, valid, free, ends, whole⟩ := exists_of_urlsplit
    (scheme_ne_nil_of_isBase isBase) (netloc_ne_nil_of_isBase isBase)
  have located : netloc ≠ [] := by
    have somewhere := netloc_ne_nil_of_isBase isBase
    rwa [whole, urlsplit_compose valid free ends] at somewhere
  rw [whole, rdropWhile_compose free located] at stripped
  have parts : Parts given base path name netloc rest :=
    ⟨valid, free, located, ends, whole, stripped, absolute, bare⟩
  rw [whole, mem_compose_iff valid free (.inl rfl), mem_compose_iff valid free (.inr rfl)]
  constructor
  · exact parts.not_mem_of_composes isBase
  · rintro ⟨noQuery, noHash⟩
    exact parts.composes_of_not_mem isBase checked noQuery noHash

namespace Sample

def anyNetloc : List Char → Except Raised Unit := fun _ => .ok ()

end Sample

/-- `http://host/api/` is a base URL without a delimiter at its end. -/
theorem composes_iff_sample :
    Composes Sample.anyNetloc "http://host/api/" "http://host/api" "/items/7" :=
  (composes_iff Sample.contract_init Sample.read_request
    (show validateBaseUrlBy urlsplit Sample.anyNetloc "http://host/api/" = .ok "http://host/api"
      by rfl)).mpr (by decide)

/-- `http://host?` is accepted, and the path of a request becomes its query. -/
theorem composes_counterexample :
    validateBaseUrlBy urlsplit Sample.anyNetloc "http://host?" = .ok "http://host?" ∧
      (urlsplit ("http://host?" ++ "/items/7").toList).query = "/items/7".toList ∧
      ¬ Composes Sample.anyNetloc "http://host?" "http://host?" "/items/7" := by
  refine ⟨rfl, rfl, ?_⟩
  intro composes
  cases composes.query

end ApiSentinel
