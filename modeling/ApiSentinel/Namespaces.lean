import ApiSentinel.Accounting
import ApiSentinel.Executor

/-!
# Fixture namespaces

The namespace of an execution is a digest of the run ID, the case ID and the delivery
number, joined by colons.  Neither of the last two contains a colon, so the text can
be split from its end, and within a run no delivery of a case repeats a number.
-/

namespace ApiSentinel

open Redis Lease

variable {Text : Type} {codec : Codec Text} {run : Run}

/-! ### The digested text -/

/-- `f"{run_id}:{case.id}:{delivery}"` -/
def preimage (runId caseId : String) (delivery : Int) : String :=
  runId ++ ":" ++ caseId ++ ":" ++ toString delivery

/-- The first 24 digits of the digest. -/
def CaseExecutor.digest (executor : CaseExecutor) (text : String) : String :=
  ((executor.harness.sha256 text).take 24).toString

theorem variablesOf_namespace (executor : CaseExecutor) (case : Case) (runId : String)
    (delivery : Int) :
    (executor.variablesOf case runId delivery).«namespace» =
      executor.digest (preimage runId case.id delivery) :=
  rfl

/-- The first of several separators can be found in only one place. -/
theorem append_cons_inj_of_notMem {Symbol : Type} {separator : Symbol}
    {first second firstRest secondRest : List Symbol} (inFirst : separator ∉ first)
    (inSecond : separator ∉ second)
    (same : first ++ separator :: firstRest = second ++ separator :: secondRest) :
    first = second ∧ firstRest = secondRest := by
  induction first generalizing second with
  | nil =>
      cases second with
      | nil => exact ⟨rfl, (List.cons.inj same).2⟩
      | cons head second =>
          have found : separator = head := (List.cons.inj same).1
          exact (inSecond (found ▸ List.mem_cons_self)).elim
  | cons head first ih =>
      cases second with
      | nil =>
          have found : head = separator := (List.cons.inj same).1
          exact (inFirst (found ▸ List.mem_cons_self)).elim
      | cons other second =>
          obtain rfl := (List.cons.inj same).1
          obtain ⟨rfl, rest⟩ := ih (List.not_mem_of_not_mem_cons inFirst)
            (List.not_mem_of_not_mem_cons inSecond)
            (List.cons.inj same).2
          exact ⟨rfl, rest⟩

theorem colon_not_mem_caseId (case : Case) : ':' ∉ case.id.toList := by
  intro member
  exact absurd (isIdRest_of_mem case.id_pattern member) (by decide)

theorem colon_not_mem_toDigits (number : Nat) : ':' ∉ Nat.toDigits 10 number := by
  intro member
  exact absurd (Nat.isDigit_of_mem_toDigits (by decide) (by decide) member) (by decide)

/-- The characters of the digested text from its end. -/
theorem reverse_preimage (runId caseId : String) (delivery : Nat) :
    (preimage runId caseId delivery).toList.reverse =
      (Nat.toDigits 10 delivery).reverse ++ ':' ::
        (caseId.toList.reverse ++ ':' :: runId.toList.reverse) := by
  have spelled : (Int.repr delivery).toList = Nat.toDigits 10 delivery := Nat.toList_repr
  simp [preimage, spelled]

/-- The digested text determines the run ID, the case ID and the delivery number. -/
theorem preimage_injective {firstRun secondRun : String} {firstCase secondCase : Case}
    {firstDelivery secondDelivery : Int} (firstPositive : 0 < firstDelivery)
    (secondPositive : 0 < secondDelivery)
    (same : preimage firstRun firstCase.id firstDelivery =
      preimage secondRun secondCase.id secondDelivery) :
    firstRun = secondRun ∧ firstCase.id = secondCase.id ∧ firstDelivery = secondDelivery := by
  obtain ⟨first, rfl⟩ := Int.eq_ofNat_of_zero_le (le_of_lt firstPositive)
  obtain ⟨second, rfl⟩ := Int.eq_ofNat_of_zero_le (le_of_lt secondPositive)
  have spelled := congrArg (fun text => text.toList.reverse) same
  simp only [reverse_preimage] at spelled
  obtain ⟨digits, spelled⟩ := append_cons_inj_of_notMem
    (by simpa using colon_not_mem_toDigits first) (by simpa using colon_not_mem_toDigits second)
    spelled
  obtain ⟨caseIds, runIds⟩ := append_cons_inj_of_notMem
    (by simpa using colon_not_mem_caseId firstCase)
    (by simpa using colon_not_mem_caseId secondCase) spelled
  refine ⟨String.toList_injective (List.reverse_injective runIds),
    String.toList_injective (List.reverse_injective caseIds), ?_⟩
  have parsed := congrArg (fun digits => Nat.ofDigitChars 10 digits 0)
    (List.reverse_injective digits)
  simpa using parsed

/-! ### The deliveries of a run -/

/-- Pairs repeat only if under one of the first components the second repeats. -/
theorem nodup_of_fibers {First Second : Type} [DecidableEq First]
    {pairs : List (First × Second)}
    (fibers : ∀ first, (pairs.filterMap (fun pair =>
      if pair.1 = first then some pair.2 else none)).Nodup) : pairs.Nodup := by
  induction pairs with
  | nil => exact List.nodup_nil
  | cons head tail ih =>
      refine List.nodup_cons.mpr ⟨?_, ih fun first => ?_⟩
      · intro again
        have own := fibers head.1
        simp only [List.filterMap_cons, if_true] at own
        exact (List.nodup_cons.mp own).1 (List.mem_filterMap.mpr ⟨head, again, if_pos rfl⟩)
      · exact (List.Sublist.filterMap _ (List.sublist_cons_self head tail)).nodup (fibers first)

/-- The jobs that the calls handed out, newest first. -/
def Calls.jobs (codec : Codec Text) (start : Db Text) (calls : Calls Text) : List Job :=
  (calls.history codec start).filterMap (Record.job? codec)

/-- What `CaseExecutor.run` digests for a job. -/
def Job.preimage (runId : String) (job : Job) : String :=
  ApiSentinel.preimage runId job.case.id job.delivery

/-- The case ID and the number of a delivery. -/
def Job.delivered (job : Job) : String × Int := (job.case.id, job.delivery)

section Deliveries

variable {start : Db Text} {calls : Calls Text}

theorem attempts_eq (codec : Codec Text) (id : String) (start : Db Text) (calls : Calls Text) :
    (calls.history codec start).filterMap (Record.attempt codec id) =
      ((calls.jobs codec start).map Job.delivered).filterMap
        (fun pair => if pair.1 = id then some pair.2 else none) := by
  rw [Calls.jobs, List.filterMap_map, List.filterMap_filterMap]
  rfl

variable (created : Created codec run start) (trace : calls.OneRun codec start)
include created trace

/-- No case is delivered twice under one number. -/
theorem Created.delivered_nodup : ((calls.jobs codec start).map Job.delivered).Nodup := by
  apply nodup_of_fibers
  intro id
  obtain ⟨count, _, numbered⟩ := created.attempts_numbered trace id
  rw [← attempts_eq, ← List.nodup_reverse, numbered]
  refine List.Nodup.map ?_ List.nodup_range
  intro first second same
  exact_mod_cast add_right_cancel same

theorem Created.delivery_pos {job : Job} (handed : job ∈ calls.jobs codec start) :
    0 < job.delivery := by
  obtain ⟨count, _, numbered⟩ := created.attempts_numbered trace job.case.id
  have listed : job.delivery ∈ (calls.history codec start).filterMap
      (Record.attempt codec job.case.id) := by
    rw [attempts_eq, List.mem_filterMap]
    exact ⟨job.delivered, List.mem_map_of_mem handed, if_pos rfl⟩
  rw [← List.mem_reverse, numbered] at listed
  obtain ⟨index, _, numberedJob⟩ := List.mem_map.mp listed
  omega

end Deliveries

/-- The texts digested for the deliveries of a run are all different, and so are the
fixture namespaces of any executor whose digest tells those texts apart.  Over all runs
the text determines the run ID, the case ID and the delivery number. -/
theorem namespaces_distinct {micros : Int} {submission : Submission} {start : Db Text}
    (started : Started codec micros submission start) {calls : Calls Text}
    (trace : calls.OneRun codec start) (runId : String) :
    ((calls.jobs codec start).map (Job.preimage runId)).Nodup ∧
    (∀ executor : CaseExecutor,
      (∀ first ∈ (calls.jobs codec start).map (Job.preimage runId),
        ∀ second ∈ (calls.jobs codec start).map (Job.preimage runId),
        executor.digest first = executor.digest second → first = second) →
      ((calls.jobs codec start).map
        (fun job => (executor.variablesOf job.case runId job.delivery).«namespace»)).Nodup) ∧
    ∀ (firstRun secondRun : String) (firstCase secondCase : Case)
      (firstDelivery secondDelivery : Int), 0 < firstDelivery → 0 < secondDelivery →
      preimage firstRun firstCase.id firstDelivery =
        preimage secondRun secondCase.id secondDelivery →
      firstRun = secondRun ∧ firstCase.id = secondCase.id ∧ firstDelivery = secondDelivery := by
  obtain ⟨timed, created⟩ := started.created
  have distinct : ((calls.jobs codec start).map (Job.preimage runId)).Nodup := by
    have deliveries := created.delivered_nodup trace
    refine deliveries.of_map _ |>.map_on ?_
    intro first firstHanded second secondHanded same
    obtain ⟨_, caseIds, numbers⟩ := preimage_injective (created.delivery_pos trace firstHanded)
      (created.delivery_pos trace secondHanded) same
    exact List.inj_on_of_nodup_map deliveries firstHanded secondHanded
      (Prod.ext caseIds numbers)
  refine ⟨distinct, ?_, fun _ _ _ _ _ _ => preimage_injective⟩
  intro executor separates
  have digests := distinct.map_on separates
  simp only [variablesOf_namespace]
  rwa [List.map_map] at digests

/-- The sample case is delivered twice. -/
theorem namespaces_distinct_sample :
    ((Calls.jobs Codec.plain Sample.start
      [(40000, .claim "second" 30000), (2000, .claim "first" 30000)]).map
        (Job.preimage "run")).Nodup :=
  (namespaces_distinct Sample.started Sample.oneRun_reclaim "run").1

end ApiSentinel
