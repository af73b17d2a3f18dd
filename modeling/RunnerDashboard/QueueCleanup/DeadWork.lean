import RunnerDashboard.QueueCleanup.Purge

/-!
# What is safe to cancel

A run may be cancelled if nothing comes of it: no online runner can take it, its pull request is
closed, a newer head has superseded it, or it waits in the queue for a branch that is not protected.
The report is held against this.

Two branches do not keep to it.  A protected run is sent past the groups, but where the branch
decides nothing asks whether it is protected.  And in a group the first run that is not on the head
is given up with the others, although the head may be unknown, or an older run may be on it.

## Main results

* `Scan.onlyDeadWork_iff` — the report of a repository.
* `cancelsSuperseded_iff` — the purge.
-/

namespace QueueCleanup

namespace Scan

variable (s : Scan)

/-! ### Dead runs -/

/-- The labels of the run and of the runners are known, and no online runner carries them. -/
def NoRunner (r : Run) : Prop :=
  s.onlineLabelSets ≠ [] ∧ (∃ label ∈ s.requiredLabels r, label ≠ "") ∧
    ∀ labels ∈ s.onlineLabelSets, ∃ label ∈ s.requiredLabels r, label ≠ "" ∧ label ∉ labels

/-- The pull request is known, and it is closed or its branch is gone. -/
def PrGone (r : Run) : Prop :=
  ∃ n d, r.prNumber = some n ∧ s.prDetails n = some d ∧ s.isGone r.groupKey d = true

/-- The head of the pull request is known, and it is another one, or a run of the workflow that is
as new is kept on it. -/
def Superseded (kept : Run → Prop) (r : Run) : Prop :=
  ∃ n d sha, r.prNumber = some n ∧ s.prDetails n = some d ∧ d.currentSha = some sha ∧ sha ≠ "" ∧
    (r.headSha ≠ some sha ∨ ∃ r' ∈ s.runs, r'.id ≠ r.id ∧ r'.workflow = r.workflow ∧
      r'.headSha = some sha ∧ r.createdAt.getD "" ≤ r'.createdAt.getD "" ∧ kept r')

/-- A run of no pull request with a target that is not protected, or a run of a main branch that has
waited for long. -/
def Abandoned (r : Run) : Prop :=
  r.isPrRun = false ∧ r.isProtected = false ∨ isMainBranch r.branch = true ∧ 360 < s.ageMinutes r

def Kept (r : Run) : Prop := ∀ row ∈ s.queuedStaleForRepo, row.runId ≠ r.runId

def Dead (r : Run) : Prop :=
  s.NoRunner r ∨ r.isQueued = true ∧ s.PrGone r ∨ s.Superseded s.Kept r ∨
    r.isQueued = true ∧ s.Abandoned r

def OnlyDeadWork : Prop := ∀ row ∈ s.queuedStaleForRepo, row.safeToCancel = true →
  ∃ r ∈ s.runs, r.runId = row.runId ∧ s.isOld r = true ∧ s.Dead r

/-! ### The two branches -/

/-- The run is too young, or the newest of its group and on the head. -/
def Spared (r : Run) : Prop := s.isOld r = false ∨ s.Retained r

/-- The runs that go through the two branches are dead for another reason. -/
structure Careful : Prop where
  /-- A queued run with a protected target, off the main branches. -/
  protectedTargets : ∀ r ∈ s.runs, s.isOld r = true → r.isQueued = true → r.isProtected = true →
    isMainBranch r.branch = false → s.NoRunner r ∨ s.PrGone r ∨ s.Superseded s.Spared r
  /-- A run of an open pull request that is not retained. -/
  heads : ∀ r ∈ s.oldRuns, r.route = .group → ∀ d, s.prDetails r.groupKey.2 = some d →
    d.isClosed = false → s.ref r.groupKey d = some true → ¬s.Retained r →
    r.isQueued = true ∨ inProgressStrictThresholdMinutes < s.ageMinutes r →
    s.NoRunner r ∨ s.Superseded s.Spared r

end Scan

variable {s : Scan} {r r' : Run} {k : GroupKey} {d : PrDetails} {row : StaleRun}

theorem isRoutable_eq_false_iff {required : List String} {online : List (List String)} :
    isRoutable required online = false ↔ (∃ label ∈ required, label ≠ "") ∧
      ∀ labels ∈ online, ∃ label ∈ required, label ≠ "" ∧ label ∉ labels := by
  simp [isRoutable]

theorem noRunner_of_isUnroutable (h : s.isUnroutable r = true) : s.NoRunner r := by
  simp only [Scan.isUnroutable, Bool.and_eq_true, decide_eq_true_iff, Bool.not_eq_true'] at h
  obtain ⟨⟨⟨honline, -⟩, -⟩, -, hroutable⟩ := h
  obtain ⟨hlabels, hnone⟩ := isRoutable_eq_false_iff.mp hroutable
  exact ⟨honline, hlabels, hnone⟩

theorem kept_iff_spared (hr : r ∈ s.runs) : s.Kept r ↔ s.Spared r := by
  rw [Scan.Spared, ← forall_not_hasRow_iff hr]
  constructor
  · intro h row hrow
    exact h row (mem_queuedStaleForRepo_iff.mpr ⟨r, hrow⟩) hrow.runId_eq
  · intro h row hrow hid
    obtain ⟨r', hr'⟩ := mem_queuedStaleForRepo_iff.mp hrow
    obtain rfl := eq_of_runId_eq hr'.mem hr (hr'.runId_eq.symm.trans hid)
    exact h row hr'

theorem superseded_kept_iff : s.Superseded s.Kept r ↔ s.Superseded s.Spared r := by
  unfold Scan.Superseded
  refine exists_congr fun n => exists_congr fun d => exists_congr fun sha => ?_
  refine and_congr_right fun _ => and_congr_right fun _ => and_congr_right fun _ =>
    and_congr_right fun _ => or_congr_right (exists_congr fun r' => and_congr_right fun hr' => ?_)
  rw [kept_iff_spared hr']

/-! ### The routes -/

theorem isProtected_of_isMainBranch (h : isMainBranch r.branch = true) : r.isProtected = true := by
  simp [Run.isProtected, isProtectedTarget, h]

theorem route_eq_group_iff :
    r.route = .group ↔ r.isProtected = false ∧ r.prNumber.isSome = true := by
  have hpr : r.prNumber.isSome = true → r.isPrRun = true := by
    intro hsome
    cases hpulls : r.pullRequests with
    | nil => simp [Run.prNumber, hpulls] at hsome
    | cons => simp [Run.isPrRun, hpulls]
  unfold Run.route
  cases hsome : r.prNumber.isSome with
  | true => cases hprot : r.isProtected <;> simp [hpr hsome]
  | false => cases hprot : r.isProtected <;> simp [ite_eq_iff]

theorem route_eq_fallback_iff :
    r.route = .fallback ↔ r.isPrRun = false ∨ r.isProtected = true := by
  unfold Run.route
  cases hpr : r.isPrRun with
  | true => cases hprot : r.isProtected <;> simp [ite_eq_iff]
  | false => simp

theorem prNumber_of_route (h : r.route = .group) : r.prNumber = some r.groupKey.2 := by
  obtain ⟨n, hn⟩ := Option.isSome_iff_exists.mp (route_eq_group_iff.mp h).2
  rw [Run.groupKey, hn]
  rfl

/-- The branch alone decides of a run that is not of the merge queue. -/
theorem classifyStaleRun_snd (hr : r ∈ s.runs) (age : ℤ) :
    (classifyStaleRun r.branch age r.actorLogin r.event).2 = true ↔
      isMainBranch r.branch = false ∨ 360 < age := by
  rw [classifyStaleRun, isMergeQueueRun_branch hr]
  split_ifs <;> simp_all

theorem safeToCancel_fallbackRow (hr : r ∈ s.runs) :
    (s.fallbackRow r).safeToCancel = true ↔
      (isMainBranch r.branch = false ∨ 360 < s.ageMinutes r) ∧ r.isQueued = true := by
  have hqueued : r.status ≠ some .inProgress ↔ r.isQueued = true := by
    rcases hstatus : r.status with _ | _ | _ <;> simp [Run.isQueued, hstatus]
  rw [← classifyStaleRun_snd hr, ← hqueued]
  simp [Scan.fallbackRow, Scan.fullRow, Scan.row]

/-! ### The report -/

/-- A run that is reported as safe is dead, if it goes through none of the two branches or is dead
for another reason. -/
theorem dead_of_hasRow (h : s.Careful) (hrow : s.HasRow r row) (hsafe : row.safeToCancel = true) :
    s.Dead r := by
  cases hrow with
  | unroutable _ hun => exact .inl (noRunner_of_isUnroutable hun)
  | ambiguous => cases hsafe
  | noDetails => cases hsafe
  | gone hr hroute hd hgone => exact .inr (.inl ⟨hsafe, _, _, prNumber_of_route hroute, hd, hgone⟩)
  | @superseded d hr hroute hd hgone hret =>
    have hclosed : d.isClosed = false := (Bool.or_eq_false_iff.mp hgone).1
    have hsafe : (s.ref r.groupKey d).isSome = true ∧
        (r.isQueued = true ∨ inProgressStrictThresholdMinutes < s.ageMinutes r) := by
      simpa [Scan.row] using hsafe
    have href : s.ref r.groupKey d = some true := by
      cases hget : s.ref r.groupKey d with
      | none => simp [hget] at hsafe
      | some there =>
        cases there with
        | true => rfl
        | false => simp [Scan.isGone, hget] at hgone
    rcases h.heads r hr hroute d hd hclosed href hret hsafe.2 with hdead | hdead
    · exact .inl hdead
    · exact .inr (.inr (.inl (superseded_kept_iff.mpr hdead)))
  | fallback hr hroute =>
    obtain ⟨hmem, -, hold⟩ := mem_oldRuns_iff.mp hr
    obtain ⟨hbranch, hqueued⟩ := (safeToCancel_fallbackRow hmem).mp hsafe
    cases hmain : isMainBranch r.branch with
    | true =>
      have hage : 360 < s.ageMinutes r := hbranch.resolve_left (by simp [hmain])
      exact .inr (.inr (.inr ⟨hqueued, .inr ⟨hmain, hage⟩⟩))
    | false =>
      cases hprot : r.isProtected with
      | true =>
        rcases h.protectedTargets r hmem hold hqueued hprot hmain with hdead | hdead | hdead
        · exact .inl hdead
        · exact .inr (.inl ⟨hqueued, hdead⟩)
        · exact .inr (.inr (.inl (superseded_kept_iff.mpr hdead)))
      | false =>
        have hpr : r.isPrRun = false :=
          (route_eq_fallback_iff.mp hroute).resolve_right (by simp [hprot])
        exact .inr (.inr (.inr ⟨hqueued, .inl ⟨hpr, hprot⟩⟩))

theorem Scan.OnlyDeadWork.dead (h : s.OnlyDeadWork) (hrow : s.HasRow r row)
    (hsafe : row.safeToCancel = true) : s.Dead r := by
  obtain ⟨r', hr', hid, -, hdead⟩ := h row (mem_queuedStaleForRepo_iff.mpr ⟨r, hrow⟩) hsafe
  obtain rfl := eq_of_runId_eq hr' hrow.mem (hid.trans hrow.runId_eq)
  exact hdead

theorem Scan.OnlyDeadWork.careful (h : s.OnlyDeadWork) : s.Careful where
  protectedTargets := by
    intro r hr hold hqueued hprot hmain
    cases hun : s.isUnroutable r with
    | true => exact .inl (noRunner_of_isUnroutable hun)
    | false =>
      have hmem : r ∈ s.oldRuns := mem_oldRuns_iff.mpr ⟨hr, hun, hold⟩
      have hroute : r.route = .fallback := route_eq_fallback_iff.mpr (.inr hprot)
      have hsafe := (safeToCancel_fallbackRow hr).mpr ⟨.inl hmain, hqueued⟩
      rcases h.dead (.fallback hmem hroute) hsafe with hdead | hdead | hdead | hdead
      · exact .inl hdead
      · exact .inr (.inl hdead.2)
      · exact .inr (.inr (superseded_kept_iff.mp hdead))
      · rcases hdead.2 with ⟨-, hfree⟩ | ⟨hmain', -⟩
        · rw [hprot] at hfree
          cases hfree
        · rw [hmain] at hmain'
          cases hmain'
  heads := by
    intro r hr hroute d hd hclosed href hret hage
    have hgone : s.isGone r.groupKey d = false := by simp [Scan.isGone, hclosed, href]
    have hsafe : (s.row r .supersededPrHead ((s.ref r.groupKey d).isSome &&
        (r.isQueued || inProgressStrictThresholdMinutes < s.ageMinutes r))).safeToCancel =
          true := by
      simpa [Scan.row, href] using hage
    have hprot := (route_eq_group_iff.mp hroute).1
    rcases h.dead (.superseded hr hroute hd hgone hret) hsafe with hdead | hdead | hdead | hdead
    · exact .inl hdead
    · obtain ⟨-, n, d', hn, hd', hgone'⟩ := hdead
      -- it is the pull request that was looked up
      obtain rfl := Option.some.inj ((prNumber_of_route hroute).symm.trans hn)
      obtain rfl := Option.some.inj (hd.symm.trans hd')
      rw [hgone] at hgone'
      cases hgone'
    · exact .inr (superseded_kept_iff.mp hdead)
    · rcases hdead.2 with ⟨hpr, -⟩ | ⟨hmain, -⟩
      · have hfallback := route_eq_fallback_iff.mpr (.inl hpr)
        rw [hroute] at hfallback
        cases hfallback
      · rw [isProtected_of_isMainBranch hmain] at hprot
        cases hprot

theorem Scan.onlyDeadWork_iff (s : Scan) : s.OnlyDeadWork ↔ s.Careful := by
  constructor
  · exact Scan.OnlyDeadWork.careful
  · intro h row hrow hsafe
    obtain ⟨r, hr⟩ := mem_queuedStaleForRepo_iff.mp hrow
    exact ⟨r, hr.mem, hr.runId_eq.symm, hr.isOld, dead_of_hasRow h hr hsafe⟩

/-! ### The purge -/

/-- `purge_stale_runs(superseded_only=True)` cancels the rows that are reported as superseded. -/
def CancelsSuperseded (G : Org) (minAgeMinutes : ℤ) (repo : Option String) : Prop :=
  (purgeStaleRuns G minAgeMinutes { supersededOnly := true, repo := repo }).map
      PurgeResult.requests =
    (G.findStaleRuns minAgeMinutes repo none).map fun stale =>
      (stale.filter (·.reason = .supersededPrHead)).map fun row => (row.repo, row.runId)

/-- Each run of an open pull request that is old enough is retained, in all that is scanned. -/
def AllRetained (G : Org) (minAgeMinutes : ℤ) (repo : Option String) : Prop :=
  ∀ names, G.repos repo = some names → ∀ name ∈ names, ∀ r ∈ (G.scan minAgeMinutes name).oldRuns,
    r.route = .group → ∀ d, (G.scan minAgeMinutes name).prDetails r.groupKey.2 = some d →
      (G.scan minAgeMinutes name).isGone r.groupKey d = false →
        (G.scan minAgeMinutes name).Retained r

variable {G : Org} {minAgeMinutes : ℤ} {repo : Option String} {names : List String}
  {stale : List StaleRun}

theorem classifyStaleRun_fst_ne (branch : String) (age : ℤ) (actor : Option String)
    (event : String) : (classifyStaleRun branch age actor event).1 ≠ .supersededPrHead := by
  unfold classifyStaleRun
  split_ifs <;> decide

theorem Scan.HasRow.reason_eq_iff (h : s.HasRow r row) :
    row.reason = .supersededPrHead ↔ r ∈ s.oldRuns ∧ r.route = .group ∧ ¬s.Retained r ∧
      ∃ d, s.prDetails r.groupKey.2 = some d ∧ s.isGone r.groupKey d = false := by
  cases h with
  | superseded hr hroute hd hgone hret => exact iff_of_true rfl ⟨hr, hroute, hret, _, hd, hgone⟩
  | unroutable hr hun =>
    refine iff_of_false (by simp [Scan.fullRow, Scan.row]) fun h => ?_
    rw [(mem_oldRuns_iff.mp h.1).2.1] at hun
    cases hun
  | ambiguous hr hroute =>
    refine iff_of_false (by simp [Scan.fullRow, Scan.row]) fun h => ?_
    rw [hroute] at h
    cases h.2.1
  | fallback hr hroute =>
    refine iff_of_false (classifyStaleRun_fst_ne _ _ _ _) fun h => ?_
    rw [hroute] at h
    cases h.2.1
  | noDetails hr hroute hd =>
    refine iff_of_false (by simp [Scan.fullRow, Scan.row]) ?_
    rintro ⟨-, -, -, d, hd', -⟩
    rw [hd] at hd'
    cases hd'
  | gone hr hroute hd hgone =>
    refine iff_of_false (by simp [Scan.fullRow, Scan.row]) ?_
    rintro ⟨-, -, -, d, hd', hopen⟩
    obtain rfl := Option.some.inj (hd.symm.trans hd')
    rw [hopen] at hgone
    cases hgone

/-- Nothing is reported as superseded if every run of an open pull request is retained. -/
theorem filter_superseded_eq_nil_iff (hnames : G.repos repo = some names)
    (h : G.findStaleRuns minAgeMinutes repo none = some stale) :
    stale.filter (·.reason = .supersededPrHead) = [] ↔ ∀ name ∈ names,
      ∀ r ∈ (G.scan minAgeMinutes name).oldRuns, r.route = .group →
        ∀ d, (G.scan minAgeMinutes name).prDetails r.groupKey.2 = some d →
          (G.scan minAgeMinutes name).isGone r.groupKey d = false →
            (G.scan minAgeMinutes name).Retained r := by
  rw [List.filter_eq_nil_iff]
  constructor
  · intro hnone name hname r hr hroute d hd hgone
    by_contra hret
    have hrow := Scan.HasRow.superseded hr hroute hd hgone hret
    have hmem := (mem_findStaleRuns_iff hnames h).mpr
      ⟨⟨name, hname, mem_queuedStaleForRepo_iff.mpr ⟨r, hrow⟩⟩, by simp [given]⟩
    exact hnone _ hmem (decide_eq_true rfl)
  · intro hall row hrow hreason
    obtain ⟨⟨name, hname, hmem⟩, -⟩ := (mem_findStaleRuns_iff hnames h).mp hrow
    obtain ⟨r, hr⟩ := mem_queuedStaleForRepo_iff.mp hmem
    obtain ⟨hold, hroute, hret, d, hd, hgone⟩ := hr.reason_eq_iff.mp (of_decide_eq_true hreason)
    exact hret (hall name hname r hold hroute d hd hgone)

theorem cancelsSuperseded_iff (G : Org) (minAgeMinutes : ℤ) (repo : Option String) :
    CancelsSuperseded G minAgeMinutes repo ↔ AllRetained G minAgeMinutes repo := by
  unfold CancelsSuperseded AllRetained
  cases hnames : G.repos repo with
  | none => simp [purgeStaleRuns, Org.findStaleRuns, hnames]
  | some names =>
    obtain ⟨stale, hstale⟩ : ∃ stale, G.findStaleRuns minAgeMinutes repo none = some stale := by
      simp [Org.findStaleRuns, hnames]
    obtain ⟨result, hresult⟩ : ∃ result, purgeStaleRuns G minAgeMinutes
        { supersededOnly := true, repo := repo } = some result := by
      simp [purgeStaleRuns, hstale]
    rw [hresult, hstale, Option.map_some, Option.map_some, requests_supersededOnly rfl hresult,
      Option.some.injEq, eq_comm, List.map_eq_nil_iff, filter_superseded_eq_nil_iff hnames hstale]
    constructor
    · intro hall names' hnames'
      rwa [← Option.some.inj hnames']
    · intro hall
      exact hall names rfl

/-- **The report names dead work only, as far as the runs that go through the two branches are dead
for another reason; and the purge of what is superseded cancels that, as far as there is none.** -/
theorem cleanup_iff (s : Scan) (G : Org) (minAgeMinutes : ℤ) (repo : Option String) :
    (s.OnlyDeadWork ↔ s.Careful) ∧
      (CancelsSuperseded G minAgeMinutes repo ↔ AllRetained G minAgeMinutes repo) :=
  ⟨s.onlyDeadWork_iff, cancelsSuperseded_iff G minAgeMinutes repo⟩

/-- Ten past ten, and ten past twelve. -/
def sampleIso (text : String) : Option ℤ :=
  if text = "2026-05-22T10:10:00+00:00" then some 600000000 else none

def tagRun : Run where
  id := some 1001
  status := some .queued
  createdAt := some "2026-05-22T10:10:00Z"
  headBranch := some "v1.2.0"
  event := "push"
  name := some (some "Release")
  headSha := some "sha-1"

/-- A queued run of the pull request 42, which has a newer head. -/
def advancedRun : Run where
  id := some 1002
  status := some .queued
  createdAt := some "2026-05-22T10:10:00Z"
  headBranch := some "feature-1"
  event := "pull_request"
  name := some (some "CI")
  headSha := some "sha-1"
  pullRequests := [some 42]

def advancedPr : PrDetails where
  state := some "open"
  headRef := some "feature-1"
  headSha := some "sha-2"

/-- What GitHub answers when one run is queued. -/
def sampleAnswers (r : Run) : Answers where
  now := 7800000000
  fromisoformat := sampleIso
  queuedData := [r]
  inProgressData := []
  jobs := fun _ => none
  prDetails := fun n => if n = 42 then some advancedPr else none
  branch := fun _ _ _ => .done 0 ""

def sampleScan (r : Run) : Scan where
  toAnswers := sampleAnswers r
  org := "org"
  repo := "repo"
  minAge := 3600000000
  onlineLabelSets := []

def sampleOrg : Org where
  name := "org"
  runners := none
  repoList := some [(some "repo", false)]
  answers := fun _ => sampleAnswers advancedRun
  cancel := fun _ => (0, "")

/-- A run for a tag is reported as safe to cancel, and the run on the old head, which is reported as
superseded, is not cancelled. -/
theorem not_cleanup :
    ¬(sampleScan tagRun).OnlyDeadWork ∧ ¬CancelsSuperseded sampleOrg 60 none := by
  constructor
  · intro h
    have hcareful := (Scan.onlyDeadWork_iff _).mp h
    have hpr : tagRun.prNumber = none := rfl
    have hmem : tagRun ∈ (sampleScan tagRun).runs := by decide
    have hdead := hcareful.protectedTargets tagRun hmem (by decide) (by decide) (by decide)
      (by decide)
    rcases hdead with hdead | hdead | hdead
    · exact hdead.1 rfl
    · obtain ⟨n, d, hn, -⟩ := hdead
      rw [hpr] at hn
      cases hn
    · obtain ⟨n, d, sha, hn, -⟩ := hdead
      rw [hpr] at hn
      cases hn
  · intro h
    have hrepos : sampleOrg.repos none = some ["repo"] := by decide
    have hmem : advancedRun ∈ (sampleOrg.scan 60 "repo").oldRuns := by decide
    have hret := (cancelsSuperseded_iff _ _ _).mp h _ hrepos "repo" (List.mem_singleton_self _)
      advancedRun hmem (by decide) advancedPr (by decide) (by decide)
    obtain ⟨d, hd, -, hsha⟩ := hret.onHead
    obtain rfl : advancedPr = d := Option.some.inj hd
    revert hsha
    decide

end QueueCleanup
