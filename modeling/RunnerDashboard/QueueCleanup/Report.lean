import Mathlib.Data.List.Lex
import Mathlib.Data.List.Sort
import Mathlib.Data.String.Basic
import RunnerDashboard.Lib.Groups
import RunnerDashboard.Lib.PyStr

/-!
# Stale runs

What `queue_cleanup.py` reports of the queued and running workflow runs of a repository.  A queued
run whose labels no online runner carries is reported first.  The runs of a pull request are put
into groups by workflow, and of the others the branch decides.

## Main results

* `mem_queuedStaleForRepo_iff` — **the rows, run by run.**
* `forall_not_hasRow_iff` — which runs stay out of the report.
-/

namespace QueueCleanup

open Sql

/-! ### What GitHub answers -/

inductive RunStatus
  | queued
  | inProgress
  deriving DecidableEq, Repr

/-- A workflow run; `none` where a field is missing or null, but for a `name`, which may be missing
or null.  The actor is there with the `login` that it has. -/
structure Run where
  id : Option ℕ
  status : Option RunStatus
  createdAt : Option String
  headBranch : Option String
  event : String := ""
  name : Option (Option String)
  headSha : Option String
  /-- The `number` of each pull request. -/
  pullRequests : List (Option ℕ) := []
  triggeringActor : Option (Option String) := none
  actor : Option (Option String) := none
  htmlUrl : String := ""
  deriving DecidableEq, Repr

/-- `head.repo` of a pull request. -/
inductive HeadRepo
  | missing
  | null
  | named (fullName : String)
  deriving DecidableEq, Repr

structure PrDetails where
  state : Option String
  merged : Bool := false
  headRef : Option String
  headRepo : HeadRepo := .missing
  headSha : Option String
  headRefOid : Option String := none
  deriving DecidableEq, Repr

/-- A job of a run, with its `status` and its labels. -/
structure Job where
  status : Option String
  labels : List String

/-- A runner of the organisation, with the names of its labels. -/
structure Runner where
  status : Option String
  labels : List String

inductive Lookup
  | raised
  | done (code : ℕ) (stderr : String)

/-- The workflow and the number of the pull request. -/
abbrev GroupKey := Option String × ℕ

/-- What GitHub answers about a repository, and the clock.  A lookup that fails answers nothing. -/
structure Answers where
  /-- `_get_now()`, in microseconds. -/
  now : ℤ
  /-- `datetime.fromisoformat`; nothing where it raises. -/
  fromisoformat : String → Option ℤ
  queuedData : List Run
  inProgressData : List Run
  jobs : ℕ → Option (List Job)
  prDetails : ℕ → Option PrDetails
  /-- The lookup that is made for a group, of a branch of `org/repo`. -/
  branch : GroupKey → String × String → String → Lookup

structure Scan extends Answers where
  org : String
  repo : String
  /-- In microseconds. -/
  minAge : ℤ
  onlineLabelSets : List (List String)

/-! ### The rules for one run -/

/-- `StaleReason`, as far as it is given to a run. -/
inductive StaleReason
  | supersededPrHead
  | closedOrDeletedRef
  | abandonedAgent
  | protectedMergeQueue
  | staleFeatureBranch
  | offlineRunnerOrLag
  | staleMainBranch
  | unroutableLabel
  | unknown
  deriving DecidableEq, Repr

def StaleReason.value : StaleReason → String
  | supersededPrHead => "superseded_pr_head"
  | closedOrDeletedRef => "closed_or_deleted_ref"
  | abandonedAgent => "abandoned-agent-run"
  | protectedMergeQueue => "protected_merge_queue"
  | staleFeatureBranch => "stale-feature-branch"
  | offlineRunnerOrLag => "offline-runner-or-lag"
  | staleMainBranch => "stale-main-branch-queue"
  | unroutableLabel => "unroutable-label"
  | unknown => "unknown"

def inProgressStrictThresholdMinutes : ℤ := 120

def isAgentBranch (branch : String) : Bool :=
  let firstSegment := String.ofList ((Py.lower branch).toList.takeWhile (· ≠ '/'))
  firstSegment ∈ ["agent", "codex", "jules", "worktree"] ||
    ["wt-", "patch-", "run-"].any (Py.startsWith firstSegment)

def isAgentActor (actor : Option String) : Bool :=
  match actor with
  | none => false
  | some actor =>
    let login := Py.lower actor
    actor ≠ "" && ("[bot]".toList.isSuffixOf login.toList ||
      login ∈ ["codex", "jules", "dashboard-bot", "github-actions"])

def isMergeQueueRun (event branch : String) : Bool :=
  event = "merge_group" || Py.startsWith branch "gh-readonly-queue/"

def isMainBranch (branch : String) : Bool := branch ∈ ["main", "master", "release"]

def isProtectedTarget (branch event : String) (workflow : Option String) : Bool :=
  isMergeQueueRun event branch || isMainBranch branch ||
    (event = "release" || Py.startsWith branch "v" ||
      Py.contains "/" branch && Py.contains "tags" branch) ||
    (event = "schedule" || Py.contains "maintenance" (Py.lower (workflow.getD "")))

def classifyStaleRun (branch : String) (ageMinutes : ℤ) (actor : Option String) (event : String) :
    StaleReason × Bool :=
  if isMergeQueueRun event branch then (.protectedMergeQueue, false)
  else if isMainBranch branch then
    if 360 < ageMinutes then (.offlineRunnerOrLag, true) else (.staleMainBranch, false)
  else if isAgentBranch branch then
    if actor = none ∨ isAgentActor actor then (.abandonedAgent, true)
    else (.staleFeatureBranch, true)
  else (.staleFeatureBranch, true)

def isRoutable (requiredLabels : List String) (onlineLabelSets : List (List String)) : Bool :=
  let required := requiredLabels.filter (· ≠ "")
  required = [] || onlineLabelSets.any fun labels => required.all (· ∈ labels)

def fetchOnlineRunnerLabelSets (runners : Option (List Runner)) : List (List String) :=
  ((runners.getD []).filter (·.status = some "online")).map fun r => r.labels.filter (· ≠ "")

def requiredLabelsForRun (jobs : Option (List Job)) : List String :=
  let jobs := jobs.getD []
  match jobs.find? (·.status = some "queued") with
  | some job => job.labels
  | none => (jobs.head?.map Job.labels).getD []

def branchExists : Lookup → Option Bool
  | .raised => none
  | .done code stderr =>
    if code = 0 then some true
    else if Py.contains "(HTTP 404)" stderr then some false
    else none

namespace Run

variable (r : Run)

/-- `run.get("id", 0)`. -/
def runId : ℕ := r.id.getD 0

/-- `run.get("status", "queued") == "queued"`. -/
def isQueued : Bool := r.status.getD .queued = .queued

/-- `run.get("head_branch", "?") or "?"`. -/
def branch : String := if r.headBranch.getD "" = "" then "?" else r.headBranch.getD ""

def workflow : Option String := r.name.getD (some "?")

def isProtected : Bool := isProtectedTarget r.branch r.event r.workflow

def isPrRun : Bool := r.pullRequests ≠ [] || r.event = "pull_request"

def prNumber : Option ℕ := r.pullRequests.head?.join

def groupKey : GroupKey := (r.workflow, r.prNumber.getD 0)

def actorLogin : Option String := (r.triggeringActor.or r.actor).join

end Run

/-- What becomes of a run that is old enough. -/
inductive Route
  | group
  | ambiguous
  | fallback
  deriving DecidableEq

def Run.route (r : Run) : Route :=
  if r.isPrRun && !r.isProtected then if r.prNumber.isSome then .group else .ambiguous
  else .fallback

def PrDetails.isClosed (d : PrDetails) : Bool := d.state = some "closed" || d.merged

/-- `pr_details.get("head", {}).get("sha") or pr_details.get("headRefOid")`. -/
def PrDetails.currentSha (d : PrDetails) : Option String :=
  if d.headSha.getD "" = "" then d.headRefOid else d.headSha

/-! ### The report -/

/-- A row of the report. -/
structure StaleRun where
  repo : String
  runId : ℕ
  workflow : Option String
  branch : String
  createdAt : String
  ageMinutes : ℤ
  htmlUrl : String := ""
  event : String := ""
  headSha : String := ""
  pullRequestNumber : Option ℕ := none
  prHeadSuperseded : Bool := false
  reason : StaleReason
  safeToCancel : Bool := false
  url : String := ""
  deriving DecidableEq, Repr

def addUnique (unique : List Run) (r : Run) : List Run :=
  if isMergeQueueRun r.event (r.headBranch.getD "") then unique
  else if r.id ≠ none ∧ r.id ∉ unique.map Run.id then unique ++ [r]
  else unique

/-- The runs without those of the merge queue, each id once. -/
def uniqueRuns (runs : List Run) : List Run := runs.foldl addUnique []

/-- The branch of a pull request: the organisation and the repository, and its name. -/
def headOf (org repo : String) (d : PrDetails) (first : Option Run) :
    Option ((String × String) × String) :=
  let branch := if d.headRef.getD "" = "" then (first.bind Run.headBranch).getD ""
    else d.headRef.getD ""
  let fullName := match d.headRepo with
    | .missing => org ++ "/" ++ repo
    | .null => ""
    | .named fullName => fullName
  match Py.splitOnce '/' fullName.toList with
  | some (headOrg, headName) =>
    if branch ≠ "" ∧ '/' ∉ headName then
      some ((String.ofList headOrg, String.ofList headName), branch)
    else none
  | none => none

/-- The runs of a group that the loop does not leave out: the newest stays if it is on the head. -/
def supersededRuns (currentSha : Option String) : List Run → List Run
  | [] => []
  | newest :: older => if newest.headSha = currentSha then older else newest :: older

namespace Scan

variable (s : Scan)

def runs : List Run := uniqueRuns (s.queuedData ++ s.inProgressData)

/-- `raw_ts.replace("Z", "+00:00")`, and read. -/
def created (r : Run) : Option ℤ :=
  r.createdAt.bind fun raw => s.fromisoformat
    (String.ofList (raw.toList.flatMap fun c => if c = 'Z' then "+00:00".toList else [c]))

def age (r : Run) : Option ℤ := (s.created r).map (s.now - ·)

def ageMinutes (r : Run) : ℤ := ((s.age r).getD 0).tdiv 60000000

/-- Past the minimum age. -/
def isOld (r : Run) : Bool := (s.age r).any (s.minAge ≤ ·)

def requiredLabels (r : Run) : List String := requiredLabelsForRun (s.jobs r.runId)

/-- The rows of the pre-pass. -/
def isUnroutable (r : Run) : Bool :=
  s.onlineLabelSets ≠ [] && r.status = some .queued && s.isOld r &&
    (s.requiredLabels r ≠ [] && !isRoutable (s.requiredLabels r) s.onlineLabelSets)

def unroutableIds : List ℕ := (s.runs.filter s.isUnroutable).map Run.runId

/-- The runs that are not in the pre-pass and old enough. -/
def oldRuns : List Run := s.runs.filter fun r => r.runId ∉ s.unroutableIds && s.isOld r

/-- `group_runs.sort(key=..., reverse=True)`. -/
def newestFirst (group : List Run) : List Run :=
  group.insertionSort fun r r' => r'.createdAt.getD "" ≤ r.createdAt.getD ""

def prGroups : Table GroupKey (List Run) :=
  Groups.group Run.groupKey (s.oldRuns.filter (·.route = .group))

/-- Whether the branch of an open pull request is there. -/
def refExists (k : GroupKey) (d : PrDetails) (first : Option Run) : Option Bool :=
  match headOf s.org s.repo d first with
  | some (repo, branch) => branchExists (s.branch k repo branch)
  | none => none

def row (r : Run) (reason : StaleReason) (safeToCancel : Bool) : StaleRun where
  repo := s.repo
  runId := r.runId
  workflow := r.workflow
  branch := r.branch
  createdAt := r.createdAt.getD ""
  ageMinutes := s.ageMinutes r
  reason := reason
  safeToCancel := safeToCancel
  url := "https://github.com/" ++ s.org ++ "/" ++ s.repo ++ "/actions/runs/" ++ toString r.runId

def fullRow (r : Run) (reason : StaleReason) (safeToCancel : Bool) : StaleRun :=
  { s.row r reason safeToCancel with
    htmlUrl := r.htmlUrl, event := r.event, headSha := r.headSha.getD "" }

def groupRows (k : GroupKey) (group : List Run) : List StaleRun :=
  match s.prDetails k.2 with
  | none => group.map fun r => s.fullRow r .unknown false
  | some d =>
    let refExists := if d.isClosed then some true else s.refExists k d group.head?
    if d.isClosed || refExists = some false then
      group.map fun r => { s.fullRow r .closedOrDeletedRef r.isQueued with
        pullRequestNumber := some k.2 }
    else
      (supersededRuns d.currentSha group).map fun r => s.row r .supersededPrHead
        (refExists.isSome && (r.isQueued || inProgressStrictThresholdMinutes < s.ageMinutes r))

def fallbackRow (r : Run) : StaleRun :=
  let (reason, safeToCancel) := classifyStaleRun r.branch (s.ageMinutes r) r.actorLogin r.event
  s.fullRow r reason (safeToCancel && r.status ≠ some .inProgress)

/-- `_queued_stale_for_repo`: the pre-pass, the runs of no certain pull request, the groups and the
branches. -/
def queuedStaleForRepo : List StaleRun :=
  (s.runs.filter s.isUnroutable).map (fun r => s.fullRow r .unroutableLabel true) ++
    (s.oldRuns.filter (·.route = .ambiguous)).map (fun r => s.fullRow r .unknown false) ++
    s.prGroups.rows.flatMap (fun g => s.groupRows g.1 (newestFirst g.2)) ++
    (s.oldRuns.filter (·.route = .fallback)).map s.fallbackRow

def group (k : GroupKey) : List Run :=
  newestFirst ((s.oldRuns.filter (·.route = .group)).filter (·.groupKey = k))

/-- Whether the branch of the pull request is there. -/
def ref (k : GroupKey) (d : PrDetails) : Option Bool := s.refExists k d (s.group k).head?

/-- The pull request is closed, or its branch is gone. -/
def isGone (k : GroupKey) (d : PrDetails) : Bool := d.isClosed || s.ref k d = some false

/-- The newest run of a group, on the head of an open pull request. -/
structure Retained (r : Run) : Prop where
  mem : r ∈ s.oldRuns
  route : r.route = .group
  newest : (s.group r.groupKey).head? = some r
  onHead : ∃ d, s.prDetails r.groupKey.2 = some d ∧ s.isGone r.groupKey d = false ∧
    r.headSha = d.currentSha

inductive HasRow : Run → StaleRun → Prop
  | unroutable {r} (hr : r ∈ s.runs) (hun : s.isUnroutable r = true) :
    HasRow r (s.fullRow r .unroutableLabel true)
  | ambiguous {r} (hr : r ∈ s.oldRuns) (hroute : r.route = .ambiguous) :
    HasRow r (s.fullRow r .unknown false)
  | noDetails {r} (hr : r ∈ s.oldRuns) (hroute : r.route = .group)
      (hd : s.prDetails r.groupKey.2 = none) :
    HasRow r (s.fullRow r .unknown false)
  | gone {r d} (hr : r ∈ s.oldRuns) (hroute : r.route = .group)
      (hd : s.prDetails r.groupKey.2 = some d) (hgone : s.isGone r.groupKey d = true) :
    HasRow r { s.fullRow r .closedOrDeletedRef r.isQueued with
      pullRequestNumber := some r.groupKey.2 }
  | superseded {r d} (hr : r ∈ s.oldRuns) (hroute : r.route = .group)
      (hd : s.prDetails r.groupKey.2 = some d) (hgone : s.isGone r.groupKey d = false)
      (hnot : ¬s.Retained r) :
    HasRow r (s.row r .supersededPrHead ((s.ref r.groupKey d).isSome &&
      (r.isQueued || inProgressStrictThresholdMinutes < s.ageMinutes r)))
  | fallback {r} (hr : r ∈ s.oldRuns) (hroute : r.route = .fallback) :
    HasRow r (s.fallbackRow r)

end Scan

/-! ### The runs that are looked at -/

variable {s : Scan} {r r' : Run} {k : GroupKey} {d : PrDetails} {row : StaleRun}

theorem uniqueRuns_spec (runs : List Run) : ((uniqueRuns runs).map Run.id).Nodup ∧
    ∀ r ∈ uniqueRuns runs,
      r.id ≠ none ∧ isMergeQueueRun r.event (r.headBranch.getD "") = false := by
  induction runs using List.reverseRecOn with
  | nil => exact ⟨List.nodup_nil, by simp [uniqueRuns]⟩
  | append_singleton runs r ih =>
    obtain ⟨hnodup, hspec⟩ := ih
    have hstep : uniqueRuns (runs ++ [r]) = addUnique (uniqueRuns runs) r := by simp [uniqueRuns]
    rw [hstep, addUnique]
    split_ifs with hqueue hnew
    · exact ⟨hnodup, hspec⟩
    · constructor
      · rw [List.map_append, List.map_singleton, ← List.concat_eq_append]
        exact hnodup.concat hnew.2
      · intro r' hr'
        rcases List.mem_append.mp hr' with hr' | hr'
        · exact hspec r' hr'
        · rw [List.mem_singleton.mp hr']
          exact ⟨hnew.1, Bool.eq_false_iff.mpr hqueue⟩
    · exact ⟨hnodup, hspec⟩

theorem eq_of_runId_eq (hr : r ∈ s.runs) (hr' : r' ∈ s.runs) (h : r.runId = r'.runId) :
    r = r' := by
  obtain ⟨hnodup, hspec⟩ := uniqueRuns_spec (s.queuedData ++ s.inProgressData)
  obtain ⟨i, hi⟩ := Option.ne_none_iff_exists'.mp (hspec r hr).1
  obtain ⟨j, hj⟩ := Option.ne_none_iff_exists'.mp (hspec r' hr').1
  refine List.inj_on_of_nodup_map hnodup hr hr' ?_
  simp only [Run.runId, hi, hj, Option.getD_some] at h
  rw [hi, hj, h]

theorem isMergeQueueRun_branch (h : r ∈ s.runs) : isMergeQueueRun r.event r.branch = false := by
  have hqueue := ((uniqueRuns_spec _).2 r h).2
  unfold Run.branch
  split
  · have hmark : Py.startsWith "?" "gh-readonly-queue/" = false := by decide
    simp only [isMergeQueueRun, Bool.or_eq_false_iff] at hqueue ⊢
    exact ⟨hqueue.1, hmark⟩
  · exact hqueue

theorem mem_unroutableIds_iff (h : r ∈ s.runs) :
    r.runId ∈ s.unroutableIds ↔ s.isUnroutable r = true := by
  rw [Scan.unroutableIds, List.mem_map]
  constructor
  · rintro ⟨r', hr', hid⟩
    obtain ⟨hmem, hun⟩ := List.mem_filter.mp hr'
    rwa [eq_of_runId_eq hmem h hid] at hun
  · intro hun
    exact ⟨r, List.mem_filter.mpr ⟨h, hun⟩, rfl⟩

theorem mem_oldRuns_iff :
    r ∈ s.oldRuns ↔ r ∈ s.runs ∧ s.isUnroutable r = false ∧ s.isOld r = true := by
  rw [Scan.oldRuns, List.mem_filter]
  refine and_congr_right fun h => ?_
  rw [Bool.and_eq_true, decide_eq_true_iff, mem_unroutableIds_iff h, Bool.not_eq_true]

theorem nodup_runs : s.runs.Nodup := (uniqueRuns_spec _).1.of_map

theorem mem_group_iff :
    r ∈ s.group k ↔ r ∈ s.oldRuns ∧ r.route = .group ∧ r.groupKey = k := by
  rw [Scan.group, Scan.newestFirst, List.mem_insertionSort, List.mem_filter, List.mem_filter,
    decide_eq_true_iff, decide_eq_true_iff, and_assoc]

theorem nodup_group : (s.group k).Nodup := by
  refine (List.perm_insertionSort _ _).nodup_iff.mpr ?_
  exact ((nodup_runs.filter _).filter _).filter _

/-! ### The rows -/

theorem get?_prGroups (s : Scan) (k : GroupKey) : s.prGroups.get? k =
    if (s.oldRuns.filter (·.route = .group)).filter (·.groupKey = k) = [] then none
    else some ((s.oldRuns.filter (·.route = .group)).filter (·.groupKey = k)) :=
  Groups.get?_group _ _ k

theorem mem_groupRows_iff :
    (row ∈ s.prGroups.rows.flatMap fun g => s.groupRows g.1 (Scan.newestFirst g.2)) ↔
      ∃ r ∈ s.oldRuns, r.route = .group ∧ row ∈ s.groupRows r.groupKey (s.group r.groupKey) := by
  rw [List.mem_flatMap]
  constructor
  · rintro ⟨⟨k, runs⟩, hg, hrow⟩
    have hget := get?_prGroups s k
    rw [Table.get?_eq_some_iff.mpr hg] at hget
    split_ifs at hget with hnil
    obtain rfl := Option.some.inj hget
    obtain ⟨r, hr⟩ := List.exists_mem_of_ne_nil _ hnil
    obtain ⟨hold, hkey⟩ := List.mem_filter.mp hr
    obtain ⟨hold, hroute⟩ := List.mem_filter.mp hold
    obtain rfl := of_decide_eq_true hkey
    exact ⟨r, hold, of_decide_eq_true hroute, hrow⟩
  · rintro ⟨r, hold, hroute, hrow⟩
    have hmem : r ∈ (s.oldRuns.filter (·.route = .group)).filter (·.groupKey = r.groupKey) := by
      simp [hold, hroute]
    have hget := get?_prGroups s r.groupKey
    rw [if_neg (List.ne_nil_of_mem hmem)] at hget
    exact ⟨(r.groupKey, _), Table.get?_eq_some_iff.mp hget, hrow⟩

theorem mem_supersededRuns_iff {sha : Option String} {runs : List Run} (h : runs.Nodup) :
    r ∈ supersededRuns sha runs ↔ r ∈ runs ∧ ¬(runs.head? = some r ∧ r.headSha = sha) := by
  cases runs with
  | nil => simp [supersededRuns]
  | cons newest older =>
    have hnot : newest ∉ older := (List.nodup_cons.mp h).1
    rw [supersededRuns, List.head?_cons, Option.some.injEq, List.mem_cons]
    split
    · next hsha =>
      constructor
      · intro hr
        refine ⟨.inr hr, ?_⟩
        rintro ⟨rfl, -⟩
        exact hnot hr
      · rintro ⟨rfl | hr, hhead⟩
        · exact absurd ⟨rfl, hsha⟩ hhead
        · exact hr
    · next hsha =>
      rw [List.mem_cons]
      refine ⟨fun hr => ⟨hr, ?_⟩, And.left⟩
      rintro ⟨rfl, hhead⟩
      exact hsha hhead

theorem retained_iff (hr : r ∈ s.oldRuns) (hroute : r.route = .group)
    (hd : s.prDetails r.groupKey.2 = some d) (hgone : s.isGone r.groupKey d = false) :
    s.Retained r ↔ (s.group r.groupKey).head? = some r ∧ r.headSha = d.currentSha := by
  constructor
  · rintro ⟨-, -, hnewest, d', hd', -, hsha⟩
    obtain rfl := Option.some.inj (hd.symm.trans hd')
    exact ⟨hnewest, hsha⟩
  · rintro ⟨hnewest, hsha⟩
    exact ⟨hr, hroute, hnewest, d, hd, hgone, hsha⟩

theorem groupRows_noDetails (hd : s.prDetails k.2 = none) :
    s.groupRows k (s.group k) = (s.group k).map fun r => s.fullRow r .unknown false := by
  simp only [Scan.groupRows, hd]

theorem groupRows_gone (hd : s.prDetails k.2 = some d) (hgone : s.isGone k d = true) :
    s.groupRows k (s.group k) = (s.group k).map fun r =>
      { s.fullRow r .closedOrDeletedRef r.isQueued with pullRequestNumber := some k.2 } := by
  simp only [Scan.groupRows, hd]
  rw [if_pos]
  unfold Scan.isGone Scan.ref at hgone
  cases hclosed : d.isClosed with
  | true => rfl
  | false => simpa [hclosed] using hgone

theorem groupRows_superseded (hd : s.prDetails k.2 = some d) (hgone : s.isGone k d = false) :
    s.groupRows k (s.group k) = (supersededRuns d.currentSha (s.group k)).map fun r =>
      s.row r .supersededPrHead ((s.ref k d).isSome &&
        (r.isQueued || inProgressStrictThresholdMinutes < s.ageMinutes r)) := by
  have hclosed : d.isClosed = false := (Bool.or_eq_false_iff.mp hgone).1
  have href : s.ref k d ≠ some false := by
    simpa using (Bool.or_eq_false_iff.mp hgone).2
  simp only [Scan.groupRows, hd, hclosed, Bool.false_or, Bool.false_eq_true, if_false]
  rw [if_neg (by simpa [Scan.ref] using href)]
  rfl

theorem exists_hasRow_of_mem_groupRows (h : row ∈ s.groupRows k (s.group k)) :
    ∃ r, s.HasRow r row := by
  cases hd : s.prDetails k.2 with
  | none =>
    rw [groupRows_noDetails hd] at h
    obtain ⟨r, hr, rfl⟩ := List.mem_map.mp h
    obtain ⟨hold, hroute, rfl⟩ := mem_group_iff.mp hr
    exact ⟨r, .noDetails hold hroute hd⟩
  | some d =>
    cases hgone : s.isGone k d with
    | true =>
      rw [groupRows_gone hd hgone] at h
      obtain ⟨r, hr, rfl⟩ := List.mem_map.mp h
      obtain ⟨hold, hroute, rfl⟩ := mem_group_iff.mp hr
      exact ⟨r, .gone hold hroute hd hgone⟩
    | false =>
      rw [groupRows_superseded hd hgone] at h
      obtain ⟨r, hr, rfl⟩ := List.mem_map.mp h
      obtain ⟨hr, hnot⟩ := (mem_supersededRuns_iff nodup_group).mp hr
      obtain ⟨hold, hroute, rfl⟩ := mem_group_iff.mp hr
      exact ⟨r, .superseded hold hroute hd hgone fun h =>
        hnot ((retained_iff hold hroute hd hgone).mp h)⟩

theorem mem_groupRows (hr : r ∈ s.oldRuns) (hroute : r.route = .group)
    (hnot : s.isUnroutable r = false) (h : s.HasRow r row) :
    row ∈ s.groupRows r.groupKey (s.group r.groupKey) := by
  have hmem : r ∈ s.group r.groupKey := mem_group_iff.mpr ⟨hr, hroute, rfl⟩
  cases h with
  | unroutable _ hun => rw [hnot] at hun; cases hun
  | ambiguous _ hroute' => rw [hroute] at hroute'; cases hroute'
  | fallback _ hroute' => rw [hroute] at hroute'; cases hroute'
  | noDetails _ _ hd =>
    rw [groupRows_noDetails hd]
    exact List.mem_map_of_mem hmem
  | gone _ _ hd hgone =>
    rw [groupRows_gone hd hgone]
    exact List.mem_map.mpr ⟨r, hmem, rfl⟩
  | superseded _ _ hd hgone hret =>
    rw [groupRows_superseded hd hgone]
    refine List.mem_map.mpr ⟨r, (mem_supersededRuns_iff nodup_group).mpr ⟨hmem, ?_⟩, rfl⟩
    intro h
    exact hret ((retained_iff hr hroute hd hgone).mpr h)

/-- **The rows, run by run.** -/
theorem mem_queuedStaleForRepo_iff : row ∈ s.queuedStaleForRepo ↔ ∃ r, s.HasRow r row := by
  rw [Scan.queuedStaleForRepo, List.mem_append, List.mem_append, List.mem_append,
    mem_groupRows_iff, List.mem_map, List.mem_map, List.mem_map]
  constructor
  · rintro (((⟨r, hr, rfl⟩ | ⟨r, hr, rfl⟩) | ⟨r, -, -, hrow⟩) | ⟨r, hr, rfl⟩)
    · obtain ⟨hr, hun⟩ := List.mem_filter.mp hr
      exact ⟨r, .unroutable hr hun⟩
    · obtain ⟨hr, hroute⟩ := List.mem_filter.mp hr
      exact ⟨r, .ambiguous hr (of_decide_eq_true hroute)⟩
    · exact exists_hasRow_of_mem_groupRows hrow
    · obtain ⟨hr, hroute⟩ := List.mem_filter.mp hr
      exact ⟨r, .fallback hr (of_decide_eq_true hroute)⟩
  · rintro ⟨r, hrow⟩
    by_cases hgroup : r ∈ s.oldRuns ∧ r.route = .group
    · obtain ⟨hr, hroute⟩ := hgroup
      exact .inl (.inr ⟨r, hr, hroute,
        mem_groupRows hr hroute (mem_oldRuns_iff.mp hr).2.1 hrow⟩)
    · cases hrow with
      | unroutable hr hun => exact .inl (.inl (.inl ⟨r, List.mem_filter.mpr ⟨hr, hun⟩, rfl⟩))
      | ambiguous hr hroute =>
        exact .inl (.inl (.inr ⟨r, List.mem_filter.mpr ⟨hr, decide_eq_true hroute⟩, rfl⟩))
      | fallback hr hroute =>
        exact .inr ⟨r, List.mem_filter.mpr ⟨hr, decide_eq_true hroute⟩, rfl⟩
      | noDetails hr hroute _ => exact absurd ⟨hr, hroute⟩ hgroup
      | gone hr hroute _ _ => exact absurd ⟨hr, hroute⟩ hgroup
      | superseded hr hroute _ _ _ => exact absurd ⟨hr, hroute⟩ hgroup

namespace Scan.HasRow

theorem runId_eq (h : s.HasRow r row) : row.runId = r.runId := by
  cases h with
  | fallback => rfl
  | _ => rfl

theorem mem (h : s.HasRow r row) : r ∈ s.runs := by
  cases h with
  | unroutable hr _ => exact hr
  | ambiguous hr _ | noDetails hr _ _ | gone hr _ _ _ | superseded hr _ _ _ _ | fallback hr _ =>
    exact (mem_oldRuns_iff.mp hr).1

theorem isOld (h : s.HasRow r row) : s.isOld r = true := by
  cases h with
  | unroutable _ hun =>
    simp only [Scan.isUnroutable, Bool.and_eq_true] at hun
    exact hun.1.2
  | ambiguous hr _ | noDetails hr _ _ | gone hr _ _ _ | superseded hr _ _ _ _ | fallback hr _ =>
    exact (mem_oldRuns_iff.mp hr).2.2

theorem prHeadSuperseded_eq (h : s.HasRow r row) : row.prHeadSuperseded = false := by
  cases h with
  | fallback => rfl
  | _ => rfl

end Scan.HasRow

/-- **A run that is looked at stays out of the report if it is too young or retained.** -/
theorem forall_not_hasRow_iff (hr : r ∈ s.runs) :
    (∀ row, ¬s.HasRow r row) ↔ s.isOld r = false ∨ s.Retained r := by
  constructor
  · intro hnone
    by_contra! h
    obtain ⟨hold, hret⟩ := h
    cases hun : s.isUnroutable r with
    | true => exact hnone _ (.unroutable hr hun)
    | false =>
      have hmem : r ∈ s.oldRuns := mem_oldRuns_iff.mpr ⟨hr, hun, by simpa using hold⟩
      cases hroute : r.route with
      | ambiguous => exact hnone _ (.ambiguous hmem hroute)
      | fallback => exact hnone _ (.fallback hmem hroute)
      | group =>
        cases hd : s.prDetails r.groupKey.2 with
        | none => exact hnone _ (.noDetails hmem hroute hd)
        | some d =>
          cases hgone : s.isGone r.groupKey d with
          | true => exact hnone _ (.gone hmem hroute hd hgone)
          | false => exact hnone _ (.superseded hmem hroute hd hgone hret)
  · rintro (hyoung | hret) row hrow
    · rw [hrow.isOld] at hyoung
      cases hyoung
    · have hroute := hret.route
      obtain ⟨d, hd, hgone, -⟩ := hret.onHead
      cases hrow with
      | unroutable _ hun =>
        rw [(mem_oldRuns_iff.mp hret.mem).2.1] at hun
        cases hun
      | ambiguous _ hroute' => rw [hroute] at hroute'; cases hroute'
      | fallback _ hroute' => rw [hroute] at hroute'; cases hroute'
      | noDetails _ _ hd' => rw [hd] at hd'; cases hd'
      | gone _ _ hd' hgone' =>
        obtain rfl := Option.some.inj (hd.symm.trans hd')
        rw [hgone] at hgone'
        cases hgone'
      | superseded _ _ _ _ hnot => exact hnot hret

end QueueCleanup
