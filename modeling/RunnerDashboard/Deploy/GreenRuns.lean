import RunnerDashboard.Deploy.CheckRuns

/-!
# Green check runs

The gate goes name by name.  Over the runs of one commit it says something simple: there is a run
that counts, all of these are completed, each name has a run that satisfies it, and no run failed
but for those that were superseded.

## Main results

* `checkNamePasses_iff` — one name.
* `ciGateForDeployCommit_iff` — **the gate passes exactly the green runs.**
-/

namespace Deploy

def CheckRun.Blocking (r : CheckRun) : Prop := r.name.getD "" ∉ nonBlockingDeployCheckNames

instance (r : CheckRun) : Decidable r.Blocking := inferInstanceAs (Decidable (_ ∉ _))

/-- A well formed run of a commit. -/
structure CheckRun.IsOf (full : String) (r : CheckRun) : Prop where
  valid : validateCheckRunRecord r = none
  status : r.status.getD "" ∈ pendingStatuses ++ ["completed"]
  head : normalizeCommitSha r.headSha = some full

/-- What passes. -/
structure Green (runs : List CheckRun) : Prop where
  nonempty : ∃ r ∈ runs, r.Blocking
  completed : ∀ r ∈ runs, r.Blocking → runIsPending r = false
  satisfied : ∀ r ∈ runs, r.Blocking →
    ∃ r' ∈ runs, r'.name = r.name ∧ r'.conclusion ∈ ["success", "skipped"]
  passing : ∀ r ∈ runs, r.Blocking → r.conclusion ∉ ["cancelled", "stale"] →
    r.conclusion ∈ ["success", "skipped", "neutral"]

variable {runs : List CheckRun} {run : CheckRun} {sha full : String}

theorem CheckRun.IsOf.lower_head (h : run.IsOf full) : Py.lower run.headSha = full := by
  have hhead := h.head
  unfold normalizeCommitSha at hhead
  dsimp only at hhead
  split at hhead
  · exact Option.some.inj hhead
  · cases hhead

theorem name_of_valid (h : validateCheckRunRecord run = none) :
    run.name = some (run.name.getD "") := by
  unfold validateCheckRunRecord at h
  cases hname : run.name with
  | none => simp [hname] at h
  | some name => rfl

theorem completedRunConclusionFails_eq_false_iff :
    completedRunConclusionFails run = false ↔ run.conclusion ∈ passingConclusions := by
  unfold completedRunConclusionFails
  by_cases hfail : run.conclusion ∈ failingConclusions
  · rw [if_pos hfail]
    refine iff_of_false (by simp) fun hpass => ?_
    have hdisjoint : ∀ s ∈ failingConclusions, s ∉ passingConclusions := by decide
    exact hdisjoint _ hfail hpass
  · rw [if_neg hfail]
    split <;> simp_all

/-- **One name**: a run that satisfies it, and no run that failed but for those that were
superseded. -/
theorem checkNamePasses_iff (h : ∀ r ∈ runs, runIsPending r = false) :
    checkNamePasses runs = true ↔ (∃ r ∈ runs, r.conclusion ∈ satisfyingNameConclusions) ∧
      ∀ r ∈ runs, r.conclusion ∉ ignoredWhenSuperseded → r.conclusion ∈ passingConclusions := by
  have hcompleted : runs.filter (fun r => !runIsPending r) = runs :=
    List.filter_eq_self.mpr fun r hr => by simp [h r hr]
  unfold checkNamePasses
  simp only [hcompleted]
  by_cases hsat : ∃ r ∈ runs, r.conclusion ∈ satisfyingNameConclusions
  · have hany : (runs.any fun r => r.conclusion ∈ satisfyingNameConclusions) = true := by
      simpa using hsat
    simp only [hany, if_true, hsat, true_and]
    split
    · next hfails =>
      refine iff_of_false (by simp) fun hall => ?_
      obtain ⟨r, hr, hfail⟩ := List.any_eq_true.mp hfails
      obtain ⟨hmem, hignored⟩ := List.mem_filter.mp hr
      have hpass := hall r hmem (of_decide_eq_true hignored)
      rw [completedRunConclusionFails_eq_false_iff.mpr hpass] at hfail
      cases hfail
    · next hfails =>
      refine iff_of_true rfl fun r hr hignored => ?_
      refine completedRunConclusionFails_eq_false_iff.mp (Bool.eq_false_iff.mpr fun hfail => ?_)
      exact hfails (List.any_eq_true.mpr
        ⟨r, List.mem_filter.mpr ⟨hr, decide_eq_true hignored⟩, hfail⟩)
  · have hany : (runs.any fun r => r.conclusion ∈ satisfyingNameConclusions) = false := by
      simpa using hsat
    simp [hany, hsat]

theorem sortedNames_eq_nil_iff {names : List String} : sortedNames names = [] ↔ names = [] := by
  unfold sortedNames
  rw [← List.length_eq_zero_iff, List.length_insertionSort, List.length_eq_zero_iff,
    List.eq_nil_iff_forall_not_mem, List.eq_nil_iff_forall_not_mem]
  simp only [List.mem_dedup]

theorem mem_filterNonBlocking_iff :
    run ∈ filterNonBlockingCheckRuns runs ↔ run ∈ runs ∧ run.Blocking := by
  rw [filterNonBlockingCheckRuns, List.mem_filter, decide_eq_true_iff]
  rfl

theorem ciGateForCommit_iff (hsha : normalizeCommitSha sha = some full)
    (hruns : ∀ r ∈ runs, r.IsOf full) :
    (ciGateForCommit runs sha).1 = true ↔ runs ≠ [] ∧ (∀ r ∈ runs, runIsPending r = false) ∧
      ∀ r ∈ runs, checkNamePasses (runs.filter fun r' => r'.name = r.name) = true := by
  have hvalid : runs.findSome? validateCheckRunRecord = none :=
    List.findSome?_eq_none_iff.mpr fun r hr => (hruns r hr).valid
  have hrelevant : runs.filter (fun r => Py.lower r.headSha = full) = runs :=
    List.filter_eq_self.mpr fun r hr => decide_eq_true (hruns r hr).lower_head
  have hpending : runs.filter runIsPending = [] ↔ ∀ r ∈ runs, runIsPending r = false := by
    rw [List.filter_eq_nil_iff]
    simp
  have hfailing : sortedNames ((namesOf runs).filter fun name =>
        !checkNamePasses (runs.filter fun r => r.name = some name)) = [] ↔
      ∀ r ∈ runs, checkNamePasses (runs.filter fun r' => r'.name = r.name) = true := by
    rw [sortedNames_eq_nil_iff, List.filter_eq_nil_iff, namesOf, List.forall_mem_map]
    refine forall₂_congr fun r hr => ?_
    rw [← name_of_valid (hruns r hr).valid]
    simp
  unfold ciGateForCommit
  simp only [hsha, hvalid, hrelevant]
  by_cases hnil : runs = []
  · rw [if_pos hnil]
    exact iff_of_false (by simp) fun h => h.1 hnil
  rw [if_neg hnil]
  by_cases hpend : runs.filter runIsPending = []
  · rw [if_neg (not_not.mpr hpend)]
    split
    · next hfail => exact iff_of_false (by simp) fun h => hfail (hfailing.mpr h.2.2)
    · next hfail =>
      exact iff_of_true rfl ⟨hnil, hpending.mp hpend, hfailing.mp (not_not.mp hfail)⟩
  · rw [if_pos hpend]
    exact iff_of_false (by simp) fun h => hpend (hpending.mpr h.2.1)

/-- **The gate passes exactly the green runs.** -/
theorem ciGateForDeployCommit_iff (hsha : normalizeCommitSha sha = some full)
    (hruns : ∀ r ∈ runs, r.IsOf full) :
    (ciGateForDeployCommit runs sha).1 = true ↔ Green runs := by
  have hblocking : ∀ r ∈ filterNonBlockingCheckRuns runs, r.IsOf full := fun r hr =>
    hruns r (mem_filterNonBlocking_iff.mp hr).1
  have hname : ∀ {r r' : CheckRun}, r'.name = r.name → r.Blocking → r'.Blocking := by
    intro r r' hname hr
    unfold CheckRun.Blocking at hr ⊢
    rwa [hname]
  rw [ciGateForDeployCommit, ciGateForCommit_iff hsha hblocking]
  constructor
  · rintro ⟨hne, hcompleted, hpasses⟩
    have hscore : ∀ r ∈ runs, r.Blocking → (∃ r' ∈ (filterNonBlockingCheckRuns runs).filter
          (fun r' => r'.name = r.name), r'.conclusion ∈ satisfyingNameConclusions) ∧
        ∀ r' ∈ (filterNonBlockingCheckRuns runs).filter (fun r' => r'.name = r.name),
          r'.conclusion ∉ ignoredWhenSuperseded → r'.conclusion ∈ passingConclusions := by
      intro r hr hb
      refine (checkNamePasses_iff fun r' hr' => ?_).mp
        (hpasses r (mem_filterNonBlocking_iff.mpr ⟨hr, hb⟩))
      exact hcompleted r' (List.mem_filter.mp hr').1
    refine ⟨?_, fun r hr hb => ?_, fun r hr hb => ?_, fun r hr hb => ?_⟩
    · obtain ⟨r, hr⟩ := List.exists_mem_of_ne_nil _ hne
      exact ⟨r, mem_filterNonBlocking_iff.mp hr⟩
    · exact hcompleted r (mem_filterNonBlocking_iff.mpr ⟨hr, hb⟩)
    · obtain ⟨r', hr', hsat⟩ := (hscore r hr hb).1
      obtain ⟨hmem, heq⟩ := List.mem_filter.mp hr'
      exact ⟨r', (mem_filterNonBlocking_iff.mp hmem).1, of_decide_eq_true heq, hsat⟩
    · exact (hscore r hr hb).2 r (List.mem_filter.mpr
        ⟨mem_filterNonBlocking_iff.mpr ⟨hr, hb⟩, decide_eq_true rfl⟩)
  · intro hgreen
    have hcompleted : ∀ r ∈ filterNonBlockingCheckRuns runs, runIsPending r = false :=
      fun r hr => hgreen.completed r (mem_filterNonBlocking_iff.mp hr).1
        (mem_filterNonBlocking_iff.mp hr).2
    refine ⟨?_, hcompleted, fun r hr => ?_⟩
    · obtain ⟨r, hr, hb⟩ := hgreen.nonempty
      exact List.ne_nil_of_mem (mem_filterNonBlocking_iff.mpr ⟨hr, hb⟩)
    · obtain ⟨hmem, hb⟩ := mem_filterNonBlocking_iff.mp hr
      refine (checkNamePasses_iff fun r' hr' => ?_).mpr ⟨?_, fun r' hr' => ?_⟩
      · exact hcompleted r' (List.mem_filter.mp hr').1
      · obtain ⟨r', hr', heq, hsat⟩ := hgreen.satisfied r hmem hb
        exact ⟨r', List.mem_filter.mpr
          ⟨mem_filterNonBlocking_iff.mpr ⟨hr', hname heq hb⟩, decide_eq_true heq⟩, hsat⟩
      · obtain ⟨hmem', hb'⟩ := mem_filterNonBlocking_iff.mp (List.mem_filter.mp hr').1
        exact hgreen.passing r' hmem' hb'

end Deploy
