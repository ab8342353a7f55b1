import ApiSentinel.Interleaving
import Mathlib.Data.Rat.Floor

/-!
# The coordinator's report

What the coordinator has collected is what was stored when it last read the
results, and the loop over the suite completes it to one entry for each case.  The
loop of `distributed_run` ends, because every round sleeps, and it never raises,
because everything that is stored validates.
-/

namespace ApiSentinel

open Redis

variable {Text : Type} {codec : Codec Text} {db : Db Text}

/-! ### Reading the results -/

theorem validate_eq {values : List (Bulk Text)} {results : List CaseResult}
    (valid : RunQueue.validate codec values = some results) :
    results = values.filterMap (RunQueue.parse codec) := by
  induction values generalizing results with
  | nil =>
      cases valid
      rfl
  | cons value values ih =>
      simp only [RunQueue.validate, List.mapM_cons, Option.bind_eq_bind, Option.bind_eq_some_iff,
        Option.pure_def, Option.some.injEq] at valid
      obtain ⟨result, parsed, rest, others, rfl⟩ := valid
      rw [List.filterMap_cons_some parsed, ← ih others]

theorem validate_isSome {values : List (Bulk Text)}
    (valid : ∀ value ∈ values, (RunQueue.parse codec value).isSome) :
    (RunQueue.validate codec values).isSome := by
  induction values with
  | nil => rfl
  | cons value values ih =>
      obtain ⟨result, parsed⟩ := Option.isSome_iff_exists.mp (valid value List.mem_cons_self)
      obtain ⟨results, others⟩ := Option.isSome_iff_exists.mp
        (ih (fun other member => valid other (List.mem_cons_of_mem _ member)))
      rw [RunQueue.validate] at others
      simp [RunQueue.validate, parsed, others]

/-- Every stored result validates, under its own ID. -/
def Validates (codec : Codec Text) (db : Db Text) : Prop :=
  ∀ id value, hget .results id db = some value →
    ∃ result, RunQueue.parse codec value = some result ∧ result.caseId = id

/-- The results that were read are the stored ones, in some order. -/
structure Collected (codec : Codec Text) (db : Db Text) (results : List CaseResult) : Prop where
  ids : (results.map CaseResult.caseId).Perm (hkeys .results db)
  stored : ∀ result ∈ results, ∃ text,
    hget .results result.caseId db = some (.doc text) ∧ codec.validateResult text = some result

theorem parse_eq {value : Bulk Text} {result : CaseResult}
    (parsed : RunQueue.parse codec value = some result) :
    ∃ text, value = .doc text ∧ codec.validateResult text = some result := by
  cases value with
  | text value => cases parsed
  | num value => cases parsed
  | doc text => exact ⟨text, rfl, parsed⟩

/-- Values that validate under their own IDs give results with these IDs. -/
theorem ids_filterMap (entries : List (Σ _ : String, Bulk Text))
    (valid : ∀ entry ∈ entries, ∃ result, RunQueue.parse codec entry.2 = some result ∧
      result.caseId = entry.1) :
    ((entries.map Sigma.snd).filterMap (RunQueue.parse codec)).map CaseResult.caseId =
      entries.map Sigma.fst := by
  induction entries with
  | nil => rfl
  | cons entry entries ih =>
      obtain ⟨result, parsed, own⟩ := valid entry List.mem_cons_self
      have rest := ih (fun other member => valid other (List.mem_cons_of_mem _ member))
      rw [List.map_cons, List.filterMap_cons_some parsed, List.map_cons, List.map_cons, rest, own]

section Read

variable (validates : Validates codec db) {values : List (Bulk Text)}
  (answer : values.Perm (hvals .results db))
include validates answer

theorem collected_of_read {results : List CaseResult}
    (valid : RunQueue.validate codec values = some results) : Collected codec db results where
  ids := by
    have own : ∀ entry ∈ (hashAt Key.results db).entries,
        ∃ result, RunQueue.parse codec entry.2 = some result ∧ result.caseId = entry.1 :=
      fun entry member => validates entry.1 entry.2 (AList.mem_lookup_iff.mpr member)
    have ids := ids_filterMap _ own
    rw [validate_eq valid]
    refine ((answer.filterMap _).map _).trans ?_
    rw [hvals, ids]
    exact List.Perm.refl _
  stored := by
    intro result member
    rw [validate_eq valid] at member
    obtain ⟨value, held, parsed⟩ := List.mem_filterMap.mp member
    obtain ⟨id, stored⟩ := (mem_hvals_iff .results value db).mp (answer.mem_iff.mp held)
    obtain ⟨other, otherParsed, rfl⟩ := validates id value stored
    obtain rfl := Option.some.inj (parsed.symm.trans otherParsed)
    obtain ⟨text, rfl, validated⟩ := parse_eq parsed
    exact ⟨text, stored, validated⟩

theorem validate_ne_none : RunQueue.validate codec values ≠ none := by
  rw [← Option.isSome_iff_ne_none]
  apply validate_isSome
  intro value held
  obtain ⟨id, stored⟩ := (mem_hvals_iff .results value db).mp (answer.mem_iff.mp held)
  obtain ⟨result, parsed, _⟩ := validates id value stored
  rw [parsed]
  rfl

end Read

theorem Collected.missing_iff {results : List CaseResult} (collected : Collected codec db results)
    (id : String) : id ∉ results.map CaseResult.caseId ↔ hget .results id db = none := by
  rw [collected.ids.mem_iff, mem_hkeys_iff, Bool.not_eq_true, Option.isSome_eq_false_iff,
    Option.isNone_iff_eq_none]

/-- A stored result has been read. -/
theorem Collected.mem {results : List CaseResult} (collected : Collected codec db results)
    {id : String} {text : Text} {result : CaseResult}
    (stored : hget .results id db = some (.doc text))
    (valid : codec.validateResult text = some result) : result ∈ results := by
  have listed : id ∈ results.map CaseResult.caseId := by
    by_contra missing
    rw [(collected.missing_iff id).mp missing] at stored
    cases stored
  obtain ⟨other, member, rfl⟩ := List.mem_map.mp listed
  obtain ⟨otherText, otherStored, otherValid⟩ := collected.stored other member
  rw [stored] at otherStored
  cases otherStored
  rw [valid] at otherValid
  exact (Option.some.inj otherValid) ▸ member

/-! ### Completing the report -/

section Report

variable {call : Coordination} {results : List CaseResult} {error : Option String} {now : Rat}

theorem mem_padded {suite : Suite} {result : CaseResult} :
    result ∈ padded suite error results ↔ result ∈ results ∨
      ∃ case ∈ suite.cases, case.id ∉ results.map CaseResult.caseId ∧
        result = missingResult error case := by
  simp only [padded, List.mem_append, List.mem_map, List.mem_filter, decide_eq_true_eq]
  constructor
  · rintro (read | ⟨case, ⟨member, missing⟩, rfl⟩)
    · exact .inl read
    · exact .inr ⟨case, member, missing, rfl⟩
  · rintro (read | ⟨case, member, missing, rfl⟩)
    · exact .inl read
    · exact .inr ⟨case, ⟨member, missing⟩, rfl⟩

variable {suite : Suite} (collected : Collected codec db results)
  (planned : hkeys .results db ⊆ suite.cases.map Case.id)
include collected planned

variable (error) in
/-- One entry for each case of the suite, and no other. -/
theorem padded_perm :
    ((padded suite error results).map CaseResult.caseId).Perm (suite.cases.map Case.id) := by
  have ids : (padded suite error results).map CaseResult.caseId =
      results.map CaseResult.caseId ++
        (suite.cases.map Case.id).filter (fun id => id ∉ results.map CaseResult.caseId) := by
    simp only [padded, List.map_append, List.map_map, List.filter_map]
    rfl
  have nodup : (results.map CaseResult.caseId).Nodup :=
    collected.ids.nodup_iff.mpr (nodup_hkeys _ _)
  rw [ids]
  refine (List.perm_ext_iff_of_nodup ?_ suite.unique_ids).mpr ?_
  · refine nodup.append (suite.unique_ids.filter _) ?_
    intro id read missing
    have absent := (List.mem_filter.mp missing).2
    exact (of_decide_eq_true absent) read
  · intro id
    rw [List.mem_append, List.mem_filter]
    constructor
    · rintro (read | ⟨listed, _⟩)
      · exact planned (collected.ids.mem_iff.mp read)
      · exact listed
    · intro listed
      by_cases read : id ∈ results.map CaseResult.caseId
      · exact .inl read
      · exact .inr ⟨listed, decide_eq_true read⟩

/-- The list that was read is as long as the suite when no case is missing. -/
theorem length_eq_iff : results.length = suite.cases.length ↔
    ∀ case ∈ suite.cases, hget .results case.id db ≠ none := by
  have whole := (padded_perm none collected planned).length_eq
  simp only [padded, List.length_map, List.length_append] at whole
  have none_missing : results.length = suite.cases.length ↔
      suite.cases.filter (fun case => case.id ∉ results.map CaseResult.caseId) = [] := by
    rw [← List.length_eq_zero_iff]
    omega
  rw [none_missing, List.filter_eq_nil_iff]
  apply forall₂_congr
  intro case _
  rw [decide_eq_true_iff, collected.missing_iff]

/-! ### The exit code -/

variable {failed : Bool}

/-- Why a report is not the plain count of its results: a Redis call failed, a case
had no result, or an entry is an error. -/
def Failing (failed : Bool) (db : Db Text) (suite : Suite) (entries : List CaseResult) : Prop :=
  failed = true ∨ (∃ case ∈ suite.cases, hget .results case.id db = none) ∨
    ∃ entry ∈ entries, entry.status = .error

/-- The coordinator has an error to tell exactly when a call failed or a result is
missing. -/
def Told (suite : Suite) (error : Option String) (failed : Bool) (results : List CaseResult) :
    Prop :=
  (error = none ∧ failed = false ∧ results.length = suite.cases.length) ∨
    (truthy error = true ∧ (failed = true ∨ results.length ≠ suite.cases.length))

theorem missing_iff : results.length ≠ suite.cases.length ↔
    ∃ case ∈ suite.cases, hget .results case.id db = none := by
  rw [ne_eq, length_eq_iff collected planned]
  simp only [not_forall, not_not, exists_prop]

end Report

section ExitCode

variable {call : Coordination} {results : List CaseResult} {error : Option String} {now : Rat}
variable (collected : Collected codec db results)
  (planned : hkeys .results db ⊆ call.suite.cases.map Case.id)
include collected planned

variable (error now) in
theorem length_report :
    (call.report results error now).results.length = call.suite.cases.length := by
  have length := (padded_perm error collected planned).length_eq
  rwa [List.length_map, List.length_map] at length

variable {failed : Bool} (told : Told call.suite error failed results)
include told

theorem exitCode_failing
    (failing : Failing failed db call.suite (call.report results error now).results) :
    (call.report results error now).exitCode = 2 := by
  rcases told with ⟨rfl, rfl, whole⟩ | ⟨noted, _⟩
  · have complete := (length_eq_iff collected planned).mp whole
    obtain impossible | ⟨case, member, missing⟩ | ⟨entry, member, isError⟩ := failing
    · cases impossible
    · exact (complete case member missing).elim
    · have any : (call.report results none now).results.any
          (fun result => result.status == .error) = true :=
        List.any_eq_true.mpr ⟨entry, member, by rw [isError]; rfl⟩
      simp [RunReport.exitCode, any]
  · simp [RunReport.exitCode, Coordination.report, noted]

theorem exitCode_counting
    (counting : ¬ Failing failed db call.suite (call.report results error now).results) :
    error = none ∧
    ((∃ entry ∈ (call.report results error now).results, entry.status = .failed) →
      (call.report results error now).exitCode = 1) ∧
    ((∀ entry ∈ (call.report results error now).results, entry.status ≠ .failed) →
      (call.report results error now).exitCode = 0) := by
  obtain ⟨answered, counting⟩ := not_or.mp counting
  obtain ⟨complete, noError⟩ := not_or.mp counting
  rw [← missing_iff collected planned, ne_eq, not_not] at complete
  have absent : error = none := by
    rcases told with ⟨none, _⟩ | ⟨_, failed | incomplete⟩
    · exact none
    · exact (answered failed).elim
    · exact (incomplete complete).elim
  subst absent
  have length := length_report none now collected planned
  have noErrors : (call.report results none now).results.any
      (fun result => result.status == .error) = false := by
    simp only [List.any_eq_false, beq_iff_eq]
    exact fun entry member isError => noError ⟨entry, member, isError⟩
  have code : (call.report results none now).exitCode =
      ((call.report results none now).results.any
        (fun result => result.status == .failed)).toNat := by
    have expected : (call.report results none now).expected = call.suite.cases.length := rfl
    have noInfrastructure : (call.report results none now).infrastructureError = none := rfl
    simp [RunReport.exitCode, noErrors, length, expected, noInfrastructure, truthy]
  refine ⟨rfl, ?_, ?_⟩
  · rintro ⟨entry, member, isFailed⟩
    rw [code, List.any_eq_true.mpr ⟨entry, member, by rw [isFailed]; rfl⟩]
    rfl
  · intro noFailure
    have none : (call.report results none now).results.any
        (fun result => result.status == .failed) = false := by
      simp only [List.any_eq_false, beq_iff_eq]
      exact noFailure
    rw [code, none]
    rfl

end ExitCode

end ApiSentinel
