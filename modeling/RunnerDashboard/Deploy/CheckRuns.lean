import Mathlib.Data.List.Dedup
import Mathlib.Data.List.Sort
import Mathlib.Data.String.Basic
import RunnerDashboard.Lib.PyStr

/-!
# Check runs

The check runs of a commit decide whether it may be deployed and released.  The runs are taken
together by their names: a name passes if one of its runs succeeded or was skipped and none failed,
where a run that was cancelled counts for nothing beside one that succeeded.

## Main definitions

* `normalizeCommitSha` — full commit ids.
* `CheckRun` — what the gate reads of a run.
* `checkNamePasses` — the runs of one name.
-/

namespace Deploy

/-! ### Commits -/

/-- A digit of a commit id. -/
def isHex (c : Char) : Bool :=
  (48 ≤ c.toNat && c.toNat ≤ 57) || (97 ≤ c.toNat && c.toNat ≤ 102)

def normalizeCommitSha (value : String) : Option String :=
  let sha := Py.lower value
  if sha.toList.length = 40 && sha.toList.all isHex then some sha else none

/-- `sha[:7]`. -/
def short (sha : String) : String := String.ofList (sha.toList.take 7)

/-! ### Runs -/

structure CheckRun where
  /-- `name` and `status`; `none` where there is none, or no text. -/
  name : Option String
  status : Option String
  /-- `str(run.get("conclusion") or "")`, and the same of `head_sha`. -/
  conclusion : String := ""
  headSha : String
  deriving DecidableEq, Repr

def pendingStatuses : List String := ["queued", "in_progress", "requested", "waiting", "pending"]

def passingConclusions : List String := ["success", "skipped", "neutral"]

def failingConclusions : List String :=
  ["failure", "cancelled", "timed_out", "action_required", "startup_failure"]

def satisfyingNameConclusions : List String := ["success", "skipped"]

def ignoredWhenSuperseded : List String := ["cancelled", "stale"]

def validateCheckRunRecord (run : CheckRun) : Option String :=
  if (run.name.getD "") = "" then some "check run missing name"
  else if (run.status.getD "") = "" then some "check run missing status"
  else none

def runIsPending (run : CheckRun) : Bool :=
  run.status.getD "" ∈ pendingStatuses || run.status ≠ some "completed"

def completedRunConclusionFails (run : CheckRun) : Bool :=
  if run.conclusion ∈ failingConclusions then true
  else if run.conclusion ∈ passingConclusions then false
  else true

def checkNamePasses (runs : List CheckRun) : Bool :=
  let completed := runs.filter fun r => !runIsPending r
  let hasSatisfying := completed.any fun r => r.conclusion ∈ satisfyingNameConclusions
  let toScore :=
    if hasSatisfying then completed.filter fun r => r.conclusion ∉ ignoredWhenSuperseded
    else completed
  if toScore.any completedRunConclusionFails then false else hasSatisfying

/-! ### The gate -/

def nonBlockingDeployCheckNames : List String :=
  ["Publish dashboard release when CI gate is green", "Publish dashboard release (manual dispatch)",
    "Wait for CI gate (cancellable; newer candidate supersedes)", "Main CI auto-release", "compare",
    "reconcile", "refresh", "verify-closure", "reap", "sweep", "on-demand-label",
      "upgrade", "route",
    "preview", "apply", "slo"]

def filterNonBlockingCheckRuns (runs : List CheckRun) : List CheckRun :=
  runs.filter fun r => r.name.getD "" ∉ nonBlockingDeployCheckNames

/-- `sorted(set(names))`. -/
def sortedNames (names : List String) : List String := names.dedup.insertionSort (· ≤ ·)

def namesOf (runs : List CheckRun) : List String := runs.map fun r => r.name.getD ""

/-- `ci_gate_for_commit`: whether the commit passes, and why. -/
def ciGateForCommit (runs : List CheckRun) (expectedSha : String) : Bool × String :=
  match normalizeCommitSha expectedSha with
  | none => (false, "invalid expected commit sha")
  | some sha =>
    match runs.findSome? validateCheckRunRecord with
    | some err => (false, "invalid check run: " ++ err)
    | none =>
      let relevant := runs.filter fun r => Py.lower r.headSha = sha
      let pending := relevant.filter runIsPending
      let failingNames := sortedNames ((namesOf relevant).filter fun name =>
        !checkNamePasses (relevant.filter fun r => r.name = some name))
      if relevant = [] then (false, "no check runs found for commit " ++ short sha)
      else if pending ≠ [] then
        (false, "checks still running: " ++
          ", ".intercalate (sortedNames (namesOf (pending.take 5))))
      else if failingNames ≠ [] then
        (false, "checks failed: " ++ ", ".intercalate (failingNames.take 5))
      else
        (true, toString (namesOf relevant).dedup.length ++
          " check name(s) succeeded for " ++ short sha)

def ciGateForDeployCommit (runs : List CheckRun) (expectedSha : String) : Bool × String :=
  ciGateForCommit (filterNonBlockingCheckRuns runs) expectedSha

/-! ### What passes -/

variable {runs : List CheckRun} {run : CheckRun} {sha : String}

theorem runIsPending_eq_false (h : runIsPending run = false) : run.status = some "completed" := by
  unfold runIsPending at h
  rw [Bool.or_eq_false_iff] at h
  simpa using h.2

end Deploy
