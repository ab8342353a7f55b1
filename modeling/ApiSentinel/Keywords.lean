import ApiSentinel.Findings
import ApiSentinel.Loading
import ApiSentinel.Paths

/-!
# The keywords of a contract

The keyword of a violation is a key of the document, so the messages that a contract can
give come from a family that its document and the status codes fix.
-/

namespace ApiSentinel

mutual

/-- The keys of the dictionaries anywhere in a value. -/
def Json.keys : Json → List String
  | .obj members => keysOfMembers members
  | .arr items => keysOfItems items
  | _ => []

def keysOfMembers : List (String × Json) → List String
  | [] => []
  | (key, child) :: members => key :: (child.keys ++ keysOfMembers members)

def keysOfItems : List Json → List String
  | [] => []
  | item :: items => item.keys ++ keysOfItems items

end

/-- The library reports the keyword of a failed check, which it has read in a schema, or
`None` for a schema that is `false`. -/
def Library.NamesKeywords (library : Library) : Prop :=
  ∀ registered schema value words, library.iterErrors registered schema value = .ok words →
    ∀ keyword ∈ words, keyword = "None" ∨ keyword ∈ registered.keys ∨ keyword ∈ schema.keys

namespace Json

theorem keys_of_member {members : List (String × Json)} {key : String} {child : Json}
    (member : (key, child) ∈ members) : child.keys ⊆ (Json.obj members).keys := by
  rw [keys]
  induction members with
  | nil => cases member
  | cons entry members ih =>
      obtain ⟨name, value⟩ := entry
      rw [keysOfMembers]
      intro keyword inside
      rcases List.mem_cons.mp member with same | later
      · cases same
        exact List.mem_cons_of_mem _ (List.mem_append_left _ inside)
      · exact List.mem_cons_of_mem _ (List.mem_append_right _ (ih later inside))

theorem keys_of_item {items : List Json} {item : Json} (member : item ∈ items) :
    item.keys ⊆ (Json.arr items).keys := by
  rw [keys]
  induction items with
  | nil => cases member
  | cons first items ih =>
      rw [keysOfItems]
      intro keyword inside
      rcases List.mem_cons.mp member with rfl | later
      · exact List.mem_append_left _ inside
      · exact List.mem_append_right _ (ih later inside)

theorem keys_of_addresses {value final : Json} {location : List Selector}
    (addresses : Addresses value location final) : final.keys ⊆ value.keys := by
  induction addresses with
  | here => exact List.Subset.refl _
  | into step _ ih =>
      cases step with
      | member found => exact List.Subset.trans ih (keys_of_member (mem_of_lookup found))
      | item found => exact List.Subset.trans ih (keys_of_item (List.mem_of_getElem? found))

end Json

namespace Contract

/-- The keys of a value are keys of the document. -/
def Within (contract : Contract) (value : Json) : Prop :=
  value.keys ⊆ (Json.obj contract.document).keys

/-- The keywords that a violation can have. -/
def vocabulary (contract : Contract) : List String :=
  ["None", "$id", "components", "paths", "allOf"] ++ (Json.obj contract.document).keys

variable {contract : Contract} {operation : Operation} {step : Step}

theorem heritable_within (contract : Contract) : contract.Heritable contract.Within where
  member := fun within member => List.Subset.trans (Json.keys_of_member member) within
  item := fun within member => List.Subset.trans (Json.keys_of_item member) within
  target := by
    intro ref target resolved
    obtain ⟨location, addresses⟩ := addresses_of_pointer resolved
    exact Json.keys_of_addresses addresses
  text := fun _ => List.nil_subset _
  empty := ⟨List.nil_subset _, List.nil_subset _⟩

theorem within_null : contract.Within .null := List.nil_subset _

/-- The wrapper of a schema of the document adds a few keys. -/
theorem mem_vocabulary_of_wrapped {schema : Json} {keyword : String}
    (within : contract.Within schema) (member : keyword ∈ (contract.wrapped schema).keys) :
    keyword ∈ contract.vocabulary := by
  have section_ : ∀ name,
      contract.Within ((contract.document.lookup name).getD (.obj [])) := by
    intro name
    have whole : contract.Within (.obj contract.document) := List.Subset.refl _
    exact (heritable_within contract).get whole (List.nil_subset _) rfl
  unfold wrapped at member
  simp only [Json.keys, keysOfMembers, keysOfItems, List.append_nil, List.nil_append,
    List.mem_cons, List.mem_append] at member
  unfold vocabulary
  rw [List.mem_append]
  rcases member with rfl | rfl | inside | rfl | inside | rfl | inside
  · simp
  · simp
  · exact .inr (section_ "components" inside)
  · simp
  · exact .inr (section_ "paths" inside)
  · simp
  · exact .inr (within inside)

/-- The keywords that are reported for a schema of the document are in its vocabulary. -/
theorem keywords_subset (names : contract.library.NamesKeywords) {schema : Json}
    (within : contract.Within schema) {value : Json} {words : List String}
    (reported : contract.keywords schema value = .ok words) : words ⊆ contract.vocabulary := by
  obtain ⟨found, ran, taken⟩ := except_bind_eq_ok.mp reported
  cases taken
  intro keyword member
  rcases names _ _ _ _ ran keyword (List.mem_of_mem_take member) with rfl | registered | wrapped
  · simp [vocabulary]
  · exact List.mem_append_right _ registered
  · exact mem_vocabulary_of_wrapped within wrapped

/-! ### The family of messages -/

def fixedTexts : List String :=
  ["request: missing required path parameter", "request: missing required query parameter",
    "request: missing required header parameter", "request: required JSON body is missing",
    "request: JSON body is not declared",
    "response media type is outside supported JSON contracts",
    "response: expected a JSON body and application/json content type",
    "response: unexpected body", "response: missing required header",
    "JSON assertion: value mismatch", "JSON assertion: pointer not found",
    "latency budget exceeded"]

/-- What a schema is declared for. -/
def places : List String :=
  ["request path parameter", "request query parameter", "request header parameter",
    "request body", "response body", "response header"]

/-- The messages of a step with this expected and this received status. -/
inductive Diagnostic (contract : Contract) (expected received : Int) : String → Prop
  | fixed {text} (listed : text ∈ fixedTexts) : Diagnostic contract expected received text
  | violation {place keyword} (declared : place ∈ places) (word : keyword ∈ contract.vocabulary) :
      Diagnostic contract expected received (place ++ ": schema violation (" ++ keyword ++ ")")
  | status : Diagnostic contract expected received
      ("expected HTTP " ++ toString expected ++ "; received " ++ toString received)
  | refusal {refusal : Refusal} :
      Diagnostic contract expected received (refusal.raised received).message
  | raised {type : String} {configuration : Bool} :
      Diagnostic contract expected received (raisedMessage type configuration)

variable {expected received : Int}

theorem diagnostic_of_violations {place : String} {keywords : List String}
    (declared : place ∈ places) (words : keywords ⊆ contract.vocabulary) :
    ∀ message ∈ violations place keywords, contract.Diagnostic expected received message := by
  intro message member
  obtain ⟨keyword, among, rfl⟩ := List.mem_map.mp member
  exact .violation declared (words among)

theorem diagnostic_of_fixed {text : String} (listed : text ∈ fixedTexts) :
    ∀ message ∈ [text], contract.Diagnostic expected received message := by
  intro message member
  cases List.mem_singleton.mp member
  exact .fixed listed

theorem diagnostic_of_if {condition : Bool} {text : String} (listed : text ∈ fixedTexts) :
    ∀ message ∈ (if condition then [text] else []),
      contract.Diagnostic expected received message := by
  split
  · exact diagnostic_of_fixed listed
  · simp

theorem exists_of_mem_mapM {Item Finding : Type} {find : Item → Except Raised Finding}
    {items : List Item} {found : List Finding} (ran : items.mapM find = .ok found)
    {finding : Finding} (member : finding ∈ found) : ∃ item ∈ items, find item = .ok finding := by
  induction items generalizing found with
  | nil =>
      cases ran
      cases member
  | cons item items ih =>
      rw [List.mapM_cons] at ran
      obtain ⟨first, one, ran⟩ := except_bind_eq_ok.mp ran
      obtain ⟨others, rest, ran⟩ := except_bind_eq_ok.mp ran
      cases ran
      rcases List.mem_cons.mp member with rfl | later
      · exact ⟨item, List.mem_cons_self, one⟩
      · obtain ⟨other, among, same⟩ := ih rest later
        exact ⟨other, List.mem_cons_of_mem _ among, same⟩

/-! ### Requests -/

/-- A parameter is absent, or it is checked against its schema. -/
theorem of_valueFinding {param : Json} {location : String} {values : List (String × Json)}
    {finding : ParamFinding} (found : contract.valueFinding param location values = .ok finding) :
    (∃ required, finding = .absent location required) ∨
      ∃ schema value words, param.getItem "schema" = .ok schema ∧
        contract.keywords schema value = .ok words ∧ finding = .present location words := by
  unfold valueFinding at found
  obtain ⟨name, _, found⟩ := except_bind_eq_ok.mp found
  dsimp only at found
  split at found
  · obtain ⟨required, _, found⟩ := except_bind_eq_ok.mp found
    cases found
    exact .inl ⟨_, rfl⟩
  · obtain ⟨schema, declared, found⟩ := except_bind_eq_ok.mp found
    obtain ⟨words, reported, found⟩ := except_bind_eq_ok.mp found
    cases found
    exact .inr ⟨schema, _, words, declared, reported, rfl⟩

theorem of_headerParamFinding {param : Json} {headers : Headers} {finding : ParamFinding}
    (found : contract.headerParamFinding param headers = .ok finding) :
    (∃ required, finding = .absent "header" required) ∨
      ∃ schema value words, param.getItem "schema" = .ok schema ∧
        contract.keywords schema value = .ok words ∧ finding = .present "header" words := by
  unfold headerParamFinding at found
  obtain ⟨name, _, found⟩ := except_bind_eq_ok.mp found
  split at found
  · split at found
    · obtain ⟨required, _, found⟩ := except_bind_eq_ok.mp found
      cases found
      exact .inl ⟨_, rfl⟩
    · obtain ⟨schema, declared, found⟩ := except_bind_eq_ok.mp found
      obtain ⟨value, _, found⟩ := except_bind_eq_ok.mp found
      obtain ⟨words, reported, found⟩ := except_bind_eq_ok.mp found
      cases found
      exact .inr ⟨schema, value, words, declared, reported, rfl⟩
  · cases found

theorem of_paramFinding {param : Json} {finding : ParamFinding}
    (found : contract.paramFinding step param = .ok finding) :
    ∃ location ∈ ["path", "query", "header"], (∃ required, finding = .absent location required) ∨
      ∃ schema value words, param.getItem "schema" = .ok schema ∧
        contract.keywords schema value = .ok words ∧ finding = .present location words := by
  unfold paramFinding at found
  obtain ⟨location, _, found⟩ := except_bind_eq_ok.mp found
  split at found
  · exact ⟨"path", by simp, of_valueFinding found⟩
  · exact ⟨"query", by simp, of_valueFinding found⟩
  · exact ⟨"header", by simp, of_headerParamFinding found⟩
  · cases found

theorem diagnostic_of_paramFinding (names : contract.library.NamesKeywords) {param : Json}
    (within : contract.Within param) {finding : ParamFinding}
    (found : contract.paramFinding step param = .ok finding) :
    ∀ message ∈ finding.messages, contract.Diagnostic expected received message := by
  obtain ⟨location, known, absent | present⟩ := of_paramFinding found
  · obtain ⟨required, rfl⟩ := absent
    simp only [List.mem_cons, List.not_mem_nil, or_false] at known
    rcases known with rfl | rfl | rfl <;> exact diagnostic_of_if (by decide)
  · obtain ⟨schema, value, words, declared, reported, rfl⟩ := present
    have inSchema := (heritable_within contract).getItem within declared
    have listed := keywords_subset names inSchema reported
    simp only [List.mem_cons, List.not_mem_nil, or_false] at known
    rcases known with rfl | rfl | rfl <;> exact diagnostic_of_violations (by decide) listed

theorem diagnostic_of_bodyFinding (names : contract.library.NamesKeywords)
    {raw jsonBody : Json} (within : contract.Within raw) {finding : BodyFinding}
    (found : contract.bodyFinding raw jsonBody = .ok finding) :
    ∀ message ∈ finding.messages, contract.Diagnostic expected received message := by
  have heritable := heritable_within contract
  unfold bodyFinding at found
  obtain ⟨declared, given, found⟩ := except_bind_eq_ok.mp found
  obtain ⟨body, followed, found⟩ := except_bind_eq_ok.mp found
  have inside := heritable.deref (heritable.get within heritable.empty.1 given) followed
  split at found
  · obtain ⟨required, _, found⟩ := except_bind_eq_ok.mp found
    cases found
    exact diagnostic_of_if (by decide)
  · obtain ⟨content, contains, found⟩ := except_bind_eq_ok.mp found
    obtain ⟨media, typed, found⟩ := except_bind_eq_ok.mp found
    obtain ⟨schema, declares, found⟩ := except_bind_eq_ok.mp found
    have inContent := heritable.get inside heritable.empty.1 contains
    have inMedia := heritable.get inContent heritable.empty.1 typed
    have inSchema := heritable.get inMedia within_null declares
    split at found
    · cases found
      exact diagnostic_of_fixed (by decide)
    · obtain ⟨words, reported, found⟩ := except_bind_eq_ok.mp found
      cases found
      exact diagnostic_of_violations (by decide) (keywords_subset names inSchema reported)

/-- What is found about a request is reported in the family. -/
theorem diagnostic_of_requestFinding (names : contract.library.NamesKeywords)
    (within : ∀ operation, contract.operation? step.operation = some operation →
      Inherits contract.Within operation)
    {method path : String} {finding : RequestFinding}
    (found : contract.requestFinding step = .ok (method, path, finding)) :
    ∀ message ∈ finding.messages, contract.Diagnostic expected received message := by
  unfold requestFinding at found
  split at found
  · cases found
  · rename_i operation called
    obtain ⟨inOperation, inParams⟩ := within operation called
    obtain ⟨params, gathered, found⟩ := except_bind_eq_ok.mp found
    obtain ⟨body, checked, found⟩ := except_bind_eq_ok.mp found
    obtain ⟨_, _, found⟩ := except_bind_eq_ok.mp found
    cases found
    intro message member
    rcases List.mem_append.mp member with early | late
    · obtain ⟨one, among, inside⟩ := List.mem_flatMap.mp early
      obtain ⟨param, listed, same⟩ := exists_of_mem_mapM gathered among
      exact diagnostic_of_paramFinding names (inParams param listed) same message inside
    · exact diagnostic_of_bodyFinding names inOperation checked message late

/-! ### Responses -/

theorem diagnostic_of_contentFinding (names : contract.library.NamesKeywords)
    {definition body : Json} {hasBody isJson : Bool} (within : contract.Within definition)
    {finding : ContentFinding}
    (found : contract.contentFinding definition body hasBody isJson = .ok finding) :
    ∀ message ∈ finding.messages, contract.Diagnostic expected received message := by
  have heritable := heritable_within contract
  unfold contentFinding at found
  obtain ⟨content, given, found⟩ := except_bind_eq_ok.mp found
  have inContent := heritable.get within heritable.empty.1 given
  split at found
  · obtain ⟨has, _, found⟩ := except_bind_eq_ok.mp found
    split at found
    · cases found
      exact diagnostic_of_fixed (by decide)
    · split at found
      · cases found
        exact diagnostic_of_fixed (by decide)
      · obtain ⟨media, located, found⟩ := except_bind_eq_ok.mp found
        obtain ⟨schema, declares, found⟩ := except_bind_eq_ok.mp found
        obtain ⟨words, reported, found⟩ := except_bind_eq_ok.mp found
        cases found
        have inMedia := heritable.getItem inContent located
        have inSchema := heritable.get inMedia heritable.empty.1 declares
        exact diagnostic_of_violations (by decide) (keywords_subset names inSchema reported)
  · cases found
    exact diagnostic_of_if (by decide)

theorem diagnostic_of_headerFinding (names : contract.library.NamesKeywords)
    {headers : Headers} {entry : String × Json} (within : contract.Within entry.2)
    {finding : HeaderFinding} (found : contract.headerFinding headers entry = .ok finding) :
    ∀ message ∈ finding.messages, contract.Diagnostic expected received message := by
  unfold headerFinding at found
  obtain ⟨header, followed, found⟩ := except_bind_eq_ok.mp found
  have inside := (heritable_within contract).deref within followed
  split at found
  · obtain ⟨required, _, found⟩ := except_bind_eq_ok.mp found
    cases found
    exact diagnostic_of_if (by decide)
  · obtain ⟨typed, _, found⟩ := except_bind_eq_ok.mp found
    split at found
    · obtain ⟨schema, declares, found⟩ := except_bind_eq_ok.mp found
      obtain ⟨value, _, found⟩ := except_bind_eq_ok.mp found
      obtain ⟨words, reported, found⟩ := except_bind_eq_ok.mp found
      cases found
      have inSchema := (heritable_within contract).getItem inside declares
      exact diagnostic_of_violations (by decide) (keywords_subset names inSchema reported)
    · cases found
      intro message member
      cases member

theorem diagnostic_of_assertionFinding (finding : AssertionFinding) :
    ∀ message ∈ finding.messages, contract.Diagnostic expected received message := by
  cases finding with
  | holds =>
      intro message member
      cases member
  | mismatch => exact diagnostic_of_fixed (by decide)
  | notFound => exact diagnostic_of_fixed (by decide)

theorem diagnostic_of_statusErrors {rawStep : Step} {status : Int} :
    ∀ message ∈ statusErrors rawStep status,
      contract.Diagnostic rawStep.expect.status status message := by
  intro message member
  unfold statusErrors at member
  split at member
  · cases List.mem_singleton.mp member
    exact .status
  · cases member

theorem within_of_responseDefinition {raw definition : Json} {status : Int}
    (within : contract.Within raw)
    (defined : contract.responseDefinition raw status = .ok definition) :
    contract.Within definition := by
  have heritable := heritable_within contract
  unfold responseDefinition at defined
  obtain ⟨responses, given, defined⟩ := except_bind_eq_ok.mp defined
  obtain ⟨fallback, default, defined⟩ := except_bind_eq_ok.mp defined
  obtain ⟨range, ranged, defined⟩ := except_bind_eq_ok.mp defined
  obtain ⟨picked, chosen, defined⟩ := except_bind_eq_ok.mp defined
  have inResponses := heritable.get within heritable.empty.1 given
  have inFallback := heritable.get inResponses within_null default
  have inRange := heritable.get inResponses inFallback ranged
  have inPicked := heritable.get inResponses inRange chosen
  split at defined
  · cases defined
  · exact heritable.deref inPicked defined

/-- What is found about a response is reported in the family. -/
theorem diagnostic_of_responseFinding (names : contract.library.NamesKeywords) {rawStep : Step}
    (within : ∀ operation, contract.operation? step.operation = some operation →
      Inherits contract.Within operation)
    {status : Int} {headers : Headers} {body : Json} {hasBody isJson : Bool}
    {finding : ResponseFinding}
    (found : contract.responseFinding step status headers body hasBody isJson = .ok finding) :
    ∀ message ∈ finding.messages rawStep status,
      contract.Diagnostic rawStep.expect.status status message := by
  have heritable := heritable_within contract
  unfold responseFinding at found
  split at found
  · cases found
  · rename_i operation called
    obtain ⟨inOperation, _⟩ := within operation called
    intro message member
    split at found
    · split at found
      · cases found
        rcases List.mem_append.mp member with early | late
        · exact diagnostic_of_statusErrors message early
        · cases List.mem_singleton.mp late
          exact .refusal
      · cases found
    · rename_i definition defined
      have inside := within_of_responseDefinition inOperation defined
      obtain ⟨content, checked, found⟩ := except_bind_eq_ok.mp found
      have inBody : ∀ message ∈ content.messages,
          contract.Diagnostic rawStep.expect.status status message :=
        diagnostic_of_contentFinding names inside checked
      split at found
      · obtain ⟨fields, named, found⟩ := except_bind_eq_ok.mp found
        obtain ⟨declared, listed, found⟩ := except_bind_eq_ok.mp found
        obtain ⟨headerFindings, gathered, found⟩ := except_bind_eq_ok.mp found
        cases found
        cases Json.items_eq_ok_iff.mp listed
        have inFields := heritable.get inside heritable.empty.1 named
        simp only [ResponseFinding.messages, List.mem_append, List.mem_flatMap] at member
        rcases member with ((early | content) | ⟨one, among, text⟩) | ⟨one, among, text⟩
        · exact diagnostic_of_statusErrors message early
        · exact inBody message content
        · obtain ⟨entry, listed, same⟩ := exists_of_mem_mapM gathered among
          exact diagnostic_of_headerFinding names (heritable.member inFields listed) same message
            text
        · exact diagnostic_of_assertionFinding one message text
      · cases found
        rcases List.mem_append.mp member with early | late
        · exact diagnostic_of_statusErrors message early
        · exact inBody message late

end Contract

end ApiSentinel
