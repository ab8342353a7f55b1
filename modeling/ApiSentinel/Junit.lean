import ApiSentinel.Commands
import ApiSentinel.Markup

/-!
# The text of the JUnit document

What an XML reader finds in `junit.xml` is the document that was written, with one `testcase`
for each case of the suite, whatever the names and messages of a run contain.
-/

namespace ApiSentinel

open Program
open Markup (isChar isName)

/-! ### Elements as markup -/

/-- A text that may stand in a document. -/
def Spelled (text : String) : Prop := ∀ symbol ∈ text.toList, isChar symbol

instance (text : String) : Decidable (Spelled text) :=
  decidable_of_iff (text.toList.all isChar) List.all_eq_true

theorem spelled_append {one two : String} (first : Spelled one) (second : Spelled two) :
    Spelled (one ++ two) := by
  intro symbol member
  rw [String.toList_append] at member
  exact (List.mem_append.mp member).elim (first symbol) (second symbol)

namespace Element

/-- An element without a text has none in the markup either. -/
def node : Element → Markup.Node
  | .mk tag attributes text children =>
      .element tag.toList (attributes.map fun entry => (entry.1.toList, entry.2.toList))
        ((if text = "" then [] else [.text text.toList]) ++ nodes children)
where
  nodes : List Element → List Markup.Node
    | [] => []
    | child :: children => child.node :: nodes children

/-- `ET.tostring(root, encoding="unicode")` -/
def tostring (element : Element) : String := String.ofList element.node.write

/-- The element of some markup, whose text comes first. -/
def ofNode? : Markup.Node → Option Element
  | .text _ => none
  | .element name attributes (.text value :: children) => do
      let below ← ofNodes? children
      pure (.mk (String.ofList name)
        (attributes.map fun entry => (String.ofList entry.1, String.ofList entry.2))
        (String.ofList value) below)
  | .element name attributes children => do
      let below ← ofNodes? children
      pure (.mk (String.ofList name)
        (attributes.map fun entry => (String.ofList entry.1, String.ofList entry.2)) "" below)
where
  ofNodes? : List Markup.Node → Option (List Element)
    | [] => some []
    | child :: children => do
        let first ← ofNode? child
        let rest ← ofNodes? children
        pure (first :: rest)

/-- What an XML reader finds in a document. -/
def read (document : String) : Option Element := (Markup.read document.toList).bind ofNode?

/-- An element with the line ends of its texts as a reader has them. -/
def lineEnds : Element → Element
  | .mk tag attributes text children =>
      .mk tag attributes (String.ofList (Markup.lineEnds text.toList)) (below children)
where
  below : List Element → List Element
    | [] => []
    | child :: children => child.lineEnds :: below children

/-! #### Reading back -/

/-- The tag and the keys are names, no key stands twice, and everything else consists of
characters of a document. -/
inductive Sound : Element → Prop
  | mk {tag attributes text children} (named : isName tag.toList)
      (distinct : (attributes.map Prod.fst).Nodup)
      (keys : ∀ key ∈ attributes.map Prod.fst, isName key.toList)
      (values : ∀ value ∈ attributes.map Prod.snd, Spelled value) (spelled : Spelled text)
      (each : ∀ child ∈ children, Sound child) :
      Sound (.mk tag attributes text children)

theorem nodes_eq_map (children : List Element) : node.nodes children = children.map node := by
  induction children with
  | nil => rfl
  | cons child children ih => rw [node.nodes, ih, List.map_cons]

theorem below_eq_map (children : List Element) :
    lineEnds.below children = children.map lineEnds := by
  induction children with
  | nil => rfl
  | cons child children ih => rw [lineEnds.below, ih, List.map_cons]

theorem isText_node (element : Element) : element.node.isText = false := by
  cases element
  rfl

theorem Sound.node {element : Element} (sound : element.Sound) : element.node.Sound := by
  induction sound with
  | @mk tag attributes text children named distinct keys values spelled each ih =>
      have below : ∀ child ∈ children.map Element.node, child.isText = false ∧ child.Sound :=
        List.forall_mem_map.mpr fun child member => ⟨isText_node child, ih child member⟩
      have apart : (children.map Element.node).Pairwise
          fun one two => one.isText → two.isText = false :=
        List.pairwise_of_forall_mem_list fun _ _ two member _ => (below two member).1
      rw [Element.node, nodes_eq_map]
      refine .element named ?_ (List.forall_mem_map.mpr (List.forall_mem_map.mp keys))
        (List.forall_mem_map.mpr (List.forall_mem_map.mp values)) (List.Pairwise.isChain ?_) ?_
      · have spelled_apart := distinct.map fun _ _ => String.toList_inj.mp
        simpa [List.map_map, Function.comp_def] using spelled_apart
      · split
        · exact apart
        · exact List.pairwise_cons.mpr ⟨fun two member _ => (below two member).1, apart⟩
      · split
        · exact fun child member => (below child member).2
        · next written =>
            have text : (Markup.Node.text text.toList).Sound :=
              .text (by simpa using written) spelled
            exact List.forall_mem_cons.mpr ⟨text, fun child member => (below child member).2⟩

/-- Elements of which each is read back. -/
theorem ofNodes?_normal {children : List Element}
    (each : ∀ child ∈ children, ofNode? child.node.normal = some child.lineEnds) :
    ofNode?.ofNodes? ((children.map node).map Markup.Node.normal) =
      some (children.map lineEnds) := by
  induction children with
  | nil => rfl
  | cons child children ih =>
      rw [List.map_cons, List.map_cons, ofNode?.ofNodes?, each child List.mem_cons_self,
        ih fun other member => each other (List.mem_cons_of_mem _ member)]
      rfl

theorem ofNode?_of_elements {name : List Char} {attributes : List (List Char × List Char)}
    {children : List Markup.Node} (elements : ∀ child ∈ children, child.isText = false) :
    ofNode? (.element name attributes children) =
      (ofNode?.ofNodes? children).map fun below => .mk (String.ofList name)
        (attributes.map fun entry => (String.ofList entry.1, String.ofList entry.2)) "" below := by
  cases children with
  | nil => rfl
  | cons child children =>
      cases child with
      | text value => cases elements _ List.mem_cons_self
      | element name attributes below =>
          rw [ofNode?]
          · cases ofNode?.ofNodes? (.element name attributes below :: children) <;> rfl
          · nofun

theorem ofNode?_normal (element : Element) :
    ofNode? element.node.normal = some element.lineEnds := by
  cases element with
  | mk tag attributes text children =>
      have below : ofNode?.ofNodes? ((children.map node).map Markup.Node.normal) =
          some (children.map lineEnds) := ofNodes?_normal fun child member => ofNode?_normal child
      have spelled : (attributes.map fun entry => (entry.1.toList, entry.2.toList)).map
          (fun entry => (String.ofList entry.1, String.ofList entry.2)) = attributes := by
        simp [List.map_map, Function.comp_def]
      rw [node, nodes_eq_map, lineEnds, below_eq_map, Markup.Node.normal,
        Markup.normalAll_eq_map]
      by_cases empty : text = ""
      · subst empty
        have elements : ∀ child ∈ (children.map node).map Markup.Node.normal,
            child.isText = false := by
          simp [isText_node]
        rw [if_pos rfl, List.nil_append, ofNode?_of_elements elements, below, Option.map_some,
          spelled, String.ofList_toList]
        rfl
      · rw [if_neg empty, List.singleton_append, List.map_cons, Markup.Node.normal, ofNode?,
          below, spelled, String.ofList_toList]
        rfl
termination_by sizeOf element
decreasing_by
  have smaller := List.sizeOf_lt_of_mem member
  simp
  omega

/-- What is written is read back, but for the ends of its lines. -/
theorem read_tostring {element : Element} (sound : element.Sound) :
    read (element.tostring ++ "\n") = some element.lineEnds := by
  have trail : ∀ symbol ∈ ['\n'], Markup.isSpace symbol := List.forall_mem_singleton.mpr rfl
  rw [read, tostring, String.toList_append, String.toList_ofList,
    show "\n".toList = ['\n'] from rfl, Markup.read_write sound.node (isText_node element) trail]
  exact ofNode?_normal element

/-! #### What line ends do not change -/

def tag : Element → String
  | .mk tag _ _ _ => tag

/-- The names of the cases in a document. -/
def testcases : Element → List (Option String)
  | .mk _ _ _ children =>
      (children.filter fun child => child.tag == "testcase").map (attribute? "name")

theorem tag_lineEnds (element : Element) : element.lineEnds.tag = element.tag := by
  cases element
  rfl

theorem attribute?_lineEnds (name : String) (element : Element) :
    element.lineEnds.attribute? name = element.attribute? name := by
  cases element
  rfl

theorem tags_lineEnds (element : Element) : element.lineEnds.tags = element.tags := by
  cases element with
  | mk tag attributes text children =>
      have each : ∀ child ∈ children, child.lineEnds.tags = child.tags :=
        fun child member => tags_lineEnds child
      rw [lineEnds, below_eq_map, tags, tags, tagsBelow_eq_flatMap, tagsBelow_eq_flatMap,
        List.flatMap_map]
      exact congrArg _ (List.flatMap_congr each)
termination_by sizeOf element
decreasing_by
  have smaller := List.sizeOf_lt_of_mem member
  simp
  omega

theorem count_lineEnds (tag : String) (element : Element) :
    element.lineEnds.count tag = element.count tag := by
  rw [count, count, tags_lineEnds]

theorem testcases_lineEnds (element : Element) :
    element.lineEnds.testcases = element.testcases := by
  cases element with
  | mk tag attributes text children =>
      simp [lineEnds, below_eq_map, testcases, List.filter_map, Function.comp_def, tag_lineEnds,
        attribute?_lineEnds]

end Element

/-! ### The characters of a report -/

theorem isChar_of_ascii {symbol : Char} (printable : 0x20 ≤ symbol.toNat)
    (ascii : symbol.toNat < 0x80) : isChar symbol := by
  have plane : symbol.toNat ≤ 0xD7FF := by omega
  simp [isChar, printable, plane]

theorem isChar_of_digit {symbol : Char} (digit : symbol.isDigit) : isChar symbol := by
  rw [Char.isDigit_iff_toNat, show '0'.toNat = 48 from rfl, show '9'.toNat = 57 from rfl] at digit
  exact isChar_of_ascii (by omega) (by omega)

theorem spelled_toDigits (number : Nat) : Spelled (String.ofList (Nat.toDigits 10 number)) := by
  intro symbol member
  rw [String.toList_ofList] at member
  exact isChar_of_digit (Nat.isDigit_of_mem_toDigits (by decide) (by decide) member)

theorem spelled_toString (number : Nat) : Spelled (toString number) := by
  have spelled := spelled_toDigits number
  rwa [← Nat.toList_repr, String.ofList_toList] at spelled

theorem spelled_seconds (milliseconds : Rat) : Spelled (seconds milliseconds) := by
  refine spelled_append (spelled_append (spelled_append ?_ (spelled_toString _)) ?_) ?_
  · split
    · decide
    · decide
  · decide
  · intro symbol member
    rw [String.toList_ofList, List.mem_append] at member
    rcases member with zero | digit
    · rw [List.eq_of_mem_replicate zero]
      rfl
    · exact isChar_of_digit (Nat.isDigit_of_mem_toDigits (by decide) (by decide) digit)

/-- `xml_text` leaves out what may not stand in a document. -/
theorem spelled_xmlText (value : String) : Spelled (xmlText value) := by
  intro symbol member
  rw [xmlText, String.toList_ofList, List.mem_filter] at member
  obtain ⟨_, kept⟩ := member
  simp at kept
  by_cases printable : 0x20 ≤ symbol.toNat
  · simp [isChar, printable]
    omega
  · have named : symbol.toNat = 9 ∨ symbol.toNat = 10 ∨ symbol.toNat = 13 := by omega
    have known : symbol = Char.ofNat symbol.toNat := (Char.ofNat_toNat symbol).symm
    rcases named with tab | line | carriage
    · rw [known, tab]
      rfl
    · rw [known, line]
      rfl
    · rw [known, carriage]
      rfl

theorem spelled_id {id : String} (pattern : matchesIdPattern id = true) : Spelled id := by
  intro symbol member
  have rest := isIdRest_of_mem pattern member
  have bounds : ∀ low high : Char, low ≤ symbol ∧ symbol ≤ high →
      low.toNat ≤ symbol.toNat ∧ symbol.toNat ≤ high.toNat := fun low high both => both
  simp only [isIdRest, isIdStart, Bool.or_eq_true, Bool.and_eq_true, decide_eq_true_eq,
    beq_iff_eq] at rest
  rcases rest with ((((lower | upper) | digit) | rfl) | rfl) | rfl
  · have range := bounds 'a' 'z' lower
    exact isChar_of_ascii (le_trans (by decide) range.1) (range.2.trans_lt (by decide))
  · have range := bounds 'A' 'Z' upper
    exact isChar_of_ascii (le_trans (by decide) range.1) (range.2.trans_lt (by decide))
  · have range := bounds '0' '9' digit
    exact isChar_of_ascii (le_trans (by decide) range.1) (range.2.trans_lt (by decide))
  · rfl
  · rfl
  · rfl

theorem spelled_take {text : String} (spelled : Spelled text) (count : Nat) :
    Spelled (String.ofList (text.toList.take count)) := by
  intro symbol member
  rw [String.toList_ofList] at member
  exact spelled symbol (List.mem_of_mem_take member)

theorem spelled_explanation (result : CaseResult) : Spelled result.explanation :=
  spelled_xmlText _

/-! ### The documents of reports -/

theorem sound_testcase (suite : String) {result : CaseResult}
    (pattern : matchesIdPattern result.caseId = true) : (result.testcase suite).Sound := by
  have distinct : ["classname", "name", "time"].Nodup := by decide
  have keys : ∀ key ∈ ["classname", "name", "time"], isName key.toList := by decide
  have values : ∀ value ∈ [xmlText suite, result.caseId, seconds result.elapsedMs],
      Spelled value := by
    simp [spelled_xmlText, spelled_id pattern, spelled_seconds]
  refine .mk (by decide) distinct keys values (by decide) fun child member => ?_
  rw [CaseResult.outcomes] at member
  split at member
  · cases member
  · obtain rfl := List.mem_singleton.mp member
    have message : ∀ value ∈ [String.ofList (result.explanation.toList.take 500)],
        Spelled value := by
      simpa using spelled_take (spelled_explanation result) 500
    have named : ["message"].Nodup ∧ ∀ key ∈ ["message"], isName key.toList := by decide
    refine .mk ?_ named.1 named.2 message (spelled_explanation result) nofun
    split
    · decide
    · decide

namespace RunReport

variable {report : RunReport}

theorem sound_properties (report : RunReport) : report.properties.Sound := by
  refine .mk (by decide) List.nodup_nil nofun nofun (by decide) ?_
  refine List.forall_mem_map.mpr fun entry member => ?_
  have named : ["name", "value"].Nodup ∧ ∀ key ∈ ["name", "value"], isName key.toList := by
    decide
  have names : ∀ name ∈ ["run_id", "mode", "expected", "infrastructure_error"], Spelled name := by
    decide
  have known : entry.1 ∈ ["run_id", "mode", "expected", "infrastructure_error"] :=
    List.mem_map_of_mem member
  have values : ∀ value ∈ [entry.1, xmlText entry.2], Spelled value := by
    simp [names entry.1 known, spelled_xmlText]
  exact .mk (by decide) named.1 named.2 values (by decide) nofun

theorem sound_junit
    (patterns : ∀ result ∈ report.results, matchesIdPattern result.caseId = true) :
    report.junit.Sound := by
  have named : ["name", "tests", "failures", "errors", "time"].Nodup ∧
      ∀ key ∈ ["name", "tests", "failures", "errors", "time"], isName key.toList := by
    decide
  have values : ∀ value ∈ [xmlText report.suite, toString report.results.length,
      toString (report.total .failed), toString (report.total .error),
      seconds report.elapsedMs], Spelled value := by
    have counts := spelled_toString
    exact List.forall_mem_cons.mpr ⟨spelled_xmlText _, List.forall_mem_cons.mpr ⟨counts _,
      List.forall_mem_cons.mpr ⟨counts _, List.forall_mem_cons.mpr ⟨counts _,
        List.forall_mem_singleton.mpr (spelled_seconds _)⟩⟩⟩⟩
  refine .mk (by decide) named.1 named.2 values (by decide) ?_
  refine List.forall_mem_cons.mpr ⟨report.sound_properties, List.forall_mem_map.mpr ?_⟩
  intro result listed
  exact sound_testcase _ (patterns result (List.mem_mergeSort.mp listed))

/-- The cases of the document are those of the report. -/
theorem testcases_junit (report : RunReport) :
    report.junit.testcases.Perm (report.results.map fun result => some result.caseId) := by
  have sorted : report.sortedResults.Perm report.results := List.mergeSort_perm _ _
  have cases : report.junit.testcases =
      report.sortedResults.map fun result => some result.caseId := by
    have other : ¬ (report.properties.tag == "testcase") := by
      change ¬ ("properties" == "testcase")
      decide
    rw [junit, Element.testcases, List.filter_cons, if_neg other,
      List.filter_eq_self.mpr (List.forall_mem_map.mpr fun _ _ => rfl), List.map_map]
    rfl
  rw [cases]
  exact sorted.map _

end RunReport

/-! ### The reports of runs -/

/-- When the reports of a run are written, whatever the suite, the messages and the errors are
made of, an XML reader finds in `junit.xml` the document as it was meant, but for the line ends
of its texts, with one `testcase` for each case of the suite, and it finds no failure and no
error in it just if every case has passed. -/
theorem junit_reads_back {suite : Suite} {report : RunReport} (made : ReportOf suite report)
    {serializers : Serializers} (standard : serializers.tostring = Element.tostring)
    {directory : String} {disk final : Disk} {states : List Disk}
    (execution : Executes MayPerform (writeReports serializers report directory) disk states
      (.ok ()) final) :
    ∃ text root, final.files (junitPath directory) = some (utf8 text) ∧
      Element.read text = some root ∧ root = report.junit.lineEnds ∧
      root.testcases.Perm (suite.cases.map fun case => some case.id) ∧
      (JunitGreen root report.expected ↔ AllPassed report) := by
  have written : final.files (junitPath directory) =
      some (utf8 (report.junit.tostring ++ "\n")) := by
    rw [writeReports_files execution, Function.update_self, standard]
  refine ⟨_, _, written, Element.read_tostring (RunReport.sound_junit made.patterns), rfl, ?_, ?_⟩
  · rw [Element.testcases_lineEnds]
    have ids := made.complete.1.map some
    rw [List.map_map, List.map_map] at ids
    exact report.testcases_junit.trans ids
  · rw [← junitGreen_iff made.complete.2]
    simp only [JunitGreen, Element.count_lineEnds, Element.attribute?_lineEnds]

namespace Sample

/-! A local run whose only step has markup in its name and is refused. -/

def marked : Case := { case with steps := [{ step with name := "a < b & \"c\"" }] }

def markedRun : LocalRun where
  checkNetloc := anyNetloc
  suite := { suite with cases := [marked], unique_ids := by simp }
  harness := { harness with request := fun _ => .ok ("GET", "/health", ["query: required"]) }
  baseUrl := "http://test"
  runId := "run"
  concurrency := 1
  options := []

def markedExecutor : CaseExecutor := { prober with harness := markedRun.harness }

def markedResult : CaseResult where
  caseId := "health"
  status := .failed
  elapsedMs := elapsedMs (0 - 0)
  workerId := "local"
  steps := [⟨"a < b & \"c\"", .test, .failed, 0, none, 1, ["query: required"]⟩]

/-- The answers of the clock. -/
def markedTrace : Execution.Trace :=
  [⟨.monotonic, (0 : Rat)⟩, ⟨.monotonic, (0 : Rat)⟩, ⟨.monotonic, (0 : Rat)⟩,
    ⟨.monotonic, (0 : Rat)⟩]

theorem runs_marked : Runs (markedExecutor.run marked "run" "local" 1) markedTrace markedResult :=
  .ask (.ask (.ask (.ask .done)))

theorem ends_marked : markedRun.Ends (.ok [markedResult]) := by
  have ran : List.Forall₂
      (fun task result => ∃ trace, Pool.Allowed keepsLease trace ∧ Runs task trace result)
      (markedExecutor.tasks markedRun.suite "run") [markedResult] :=
    .cons ⟨markedTrace, by simp [Pool.Allowed, markedTrace, keepsLease], runs_marked⟩ .nil
  obtain ⟨pool, reached, same⟩ := Pool.exists_reached (Nat.one_pos : 0 < 1) ran
  have made : markedRun.executor = .ok markedExecutor := by rfl
  exact same ▸ .returned made reached (congrArg List.length same)

end Sample

/-- A case that has failed is found, whatever its step is called. -/
theorem junit_reads_back_sample :
    ∃ text root, Element.read text = some root ∧ root.testcases.Perm [some "health"] ∧
      ¬ JunitGreen root 1 := by
  obtain ⟨states, final, execution⟩ := Sample.possible_writeReports ⟨fun _ => "", Element.tostring⟩
    (Sample.markedRun.report [Sample.markedResult] 0)
  obtain ⟨text, root, _, read, _, cases, green⟩ := junit_reads_back (.ranHere Sample.ends_marked)
    rfl (execution.mono fun _ _ _ _ => .performed)
  refine ⟨text, root, read, cases, fun quiet => ?_⟩
  cases green.mp quiet Sample.markedResult List.mem_cons_self

end ApiSentinel
