import RunnerDashboard.QueueCleanup.Report

/-!
# Purging stale runs

`find_stale_runs` puts the reports of the repositories together, and `purge_stale_runs` asks GitHub
to cancel what is left of them by its options.

## Main results

* `requests_supersededOnly` — **with `superseded_only` nothing is cancelled.**
-/

namespace QueueCleanup

/-- What GitHub answers about the organisation; the answers about each repository are those of the
scan. -/
structure Org where
  name : String
  runners : Option (List Runner)
  /-- The `name` of each repository, and whether it is archived. -/
  repoList : Option (List (Option String × Bool))
  answers : String → Answers
  /-- What the cancellation of a run returns: the code and `stderr`. -/
  cancel : String × ℕ → ℕ × String

structure PurgeOptions where
  dryRun : Bool := false
  supersededOnly : Bool := false
  repo : Option String := none
  workflow : Option String := none
  reason : Option String := none
  safeOnly : Bool := false
  maxCount : Option ℤ := none

structure PurgeResult where
  staleCount : ℕ
  purgeCandidateCount : ℕ
  cancelledCount : ℕ
  runs : List StaleRun
  /-- The runs that GitHub is asked to cancel. -/
  requests : List (String × ℕ)
  deriving DecidableEq, Repr

def listAllRepos (repos : Option (List (Option String × Bool))) : List String :=
  (repos.getD []).filterMap fun (name, isArchived) =>
    if isArchived || name.getD "" = "" then none else name

/-- `validate_repo_slug`; nothing where it raises. -/
def validateRepoSlug (name : String) : Option String :=
  let slug := Py.strip name
  if 0 < slug.length ∧ slug.length ≤ 100 ∧
      slug.toList.all fun c => c.isAlphanum || c = '.' || c = '_' || c = '-' then some slug
  else none

def given (param : Option String) : Option String := param.filter (· ≠ "")

namespace Org

variable (G : Org) (minAgeMinutes : ℤ)

def scan (repo : String) : Scan where
  toAnswers := G.answers repo
  org := G.name
  repo := repo
  minAge := minAgeMinutes * 60000000
  onlineLabelSets := fetchOnlineRunnerLabelSets G.runners

/-- The repositories that are scanned. -/
def repos (repo : Option String) : Option (List String) :=
  match given repo with
  | some name => (validateRepoSlug name).map fun slug => [slug]
  | none => some (listAllRepos G.repoList)

def findStaleRuns (repo reason : Option String) : Option (List StaleRun) :=
  (G.repos repo).map fun names =>
    let flat := names.flatMap fun name => (G.scan minAgeMinutes name).queuedStaleForRepo
    (flat.filter fun r => (given reason).all (Py.lower r.reason.value = Py.lower ·)).insertionSort
      fun r r' => r'.ageMinutes ≤ r.ageMinutes

end Org

/-- What `_cancel_one` returns. -/
def cancelOne (answer : ℕ × String) : Bool :=
  answer.1 = 0 || Py.contains "409" answer.2 || Py.contains "Cannot cancel" answer.2 ||
    Py.contains "already" (Py.lower answer.2)

def purgeCandidates (opts : PurgeOptions) (stale : List StaleRun) : List StaleRun :=
  let rows := stale.filter fun r => (!opts.supersededOnly || r.prHeadSuperseded) &&
    (given opts.workflow).all (r.workflow = some ·) && (!opts.safeOnly || r.safeToCancel)
  match opts.maxCount with
  | some n => if 0 < n then rows.take n.toNat else rows
  | none => rows

def purgeStaleRuns (G : Org) (minAgeMinutes : ℤ) (opts : PurgeOptions) : Option PurgeResult :=
  (G.findStaleRuns minAgeMinutes opts.repo opts.reason).map fun stale =>
    let candidates := purgeCandidates opts stale
    let requests := if opts.dryRun then [] else candidates.map fun r => (r.repo, r.runId)
    { staleCount := stale.length
      purgeCandidateCount := candidates.length
      cancelledCount := requests.countP fun run => cancelOne (G.cancel run)
      runs := stale
      requests := requests }

variable {G : Org} {minAgeMinutes : ℤ} {repo reason : Option String} {opts : PurgeOptions}
  {names : List String} {stale : List StaleRun} {result : PurgeResult} {row : StaleRun}

theorem mem_findStaleRuns_iff (hnames : G.repos repo = some names)
    (h : G.findStaleRuns minAgeMinutes repo reason = some stale) :
    row ∈ stale ↔ (∃ name ∈ names, row ∈ (G.scan minAgeMinutes name).queuedStaleForRepo) ∧
      ∀ text, given reason = some text → Py.lower row.reason.value = Py.lower text := by
  simp only [Org.findStaleRuns, hnames, Option.map_some, Option.some.injEq] at h
  subst h
  rw [List.mem_insertionSort, List.mem_filter, List.mem_flatMap, Option.all_eq_true]
  simp only [decide_eq_true_iff]

theorem forall_mem_findStaleRuns (h : G.findStaleRuns minAgeMinutes repo reason = some stale) :
    ∀ row ∈ stale, ∃ name, row ∈ (G.scan minAgeMinutes name).queuedStaleForRepo := by
  intro row hrow
  obtain ⟨names, hnames, -⟩ := Option.map_eq_some_iff.mp h
  obtain ⟨⟨name, -, hmem⟩, -⟩ := (mem_findStaleRuns_iff hnames h).mp hrow
  exact ⟨name, hmem⟩

theorem of_mem_purgeCandidates (h : row ∈ purgeCandidates opts stale) : row ∈ stale ∧
    (opts.supersededOnly = true → row.prHeadSuperseded = true) ∧
    (opts.safeOnly = true → row.safeToCancel = true) := by
  have hmem : row ∈ stale.filter fun r => (!opts.supersededOnly || r.prHeadSuperseded) &&
      (given opts.workflow).all (r.workflow = some ·) && (!opts.safeOnly || r.safeToCancel) := by
    unfold purgeCandidates at h
    dsimp only at h
    split at h
    · split at h
      · exact List.mem_of_mem_take h
      · exact h
    · exact h
  obtain ⟨hstale, hopts⟩ := List.mem_filter.mp hmem
  simp only [Bool.and_eq_true, Bool.or_eq_true, Bool.not_eq_true'] at hopts
  obtain ⟨⟨hsup, -⟩, hsafe⟩ := hopts
  refine ⟨hstale, fun h => ?_, fun h => ?_⟩
  · exact hsup.resolve_left (by simp [h])
  · exact hsafe.resolve_left (by simp [h])

/-- **With `superseded_only` nothing is cancelled.** -/
theorem requests_supersededOnly (hopts : opts.supersededOnly = true)
    (h : purgeStaleRuns G minAgeMinutes opts = some result) : result.requests = [] := by
  unfold purgeStaleRuns at h
  obtain ⟨stale, hstale, rfl⟩ := Option.map_eq_some_iff.mp h
  have hnil : purgeCandidates opts stale = [] := by
    rw [List.eq_nil_iff_forall_not_mem]
    intro row hrow
    obtain ⟨hmem, hsup, -⟩ := of_mem_purgeCandidates hrow
    obtain ⟨name, hmem⟩ := forall_mem_findStaleRuns hstale row hmem
    obtain ⟨r, hr⟩ := mem_queuedStaleForRepo_iff.mp hmem
    have hmark := hsup hopts
    rw [hr.prHeadSuperseded_eq] at hmark
    cases hmark
  simp [hnil]

end QueueCleanup
