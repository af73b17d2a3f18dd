import Mathlib.Data.Finset.Sort
import Mathlib.Data.List.Sort
import Mathlib.Data.String.Basic
import RunnerDashboard.Lib.PyStr
import RunnerDashboard.Lib.Table
import RunnerDashboard.Lib.Waves

/-!
# The executor stage

A pipeline dispatches the child issues of a plan to agents, wave after wave, and follows their pull
requests.  A child that fails is queued again, on a higher tier after some attempts.  On the highest
tier it is paused for a human, and what depends on it is blocked.

## Main results

* `get?_childrenOf`, `queued_of_initializePipeline` — the children of a new pipeline.
* `fromSnapshot_snapshot` — a pipeline is resumed as it was.
-/

namespace Executor

/-! ### Records -/

inductive ExecutorTier
  | ollama
  | cli
  | strong
  deriving DecidableEq, Repr

def ExecutorTier.value : ExecutorTier → String
  | .ollama => "ollama"
  | .cli => "cli"
  | .strong => "strong"

inductive ChildExecutionState
  | queued
  | claimed
  | prOpen
  | ci
  | merged
  | failed
  | blocked
  | pausedForHuman
  deriving DecidableEq, Repr

def ChildExecutionState.active : ChildExecutionState → Bool
  | .claimed => true
  | .prOpen => true
  | .ci => true
  | _ => false

/-- `ChildIssuePayload`.  Only a record that is planned again has a handoff. -/
structure ChildIssuePayload where
  key : String
  repository : String
  issueNumber : Option ℤ := none
  dependencies : List String := []
  tier : ExecutorTier := .ollama
  turnoverDoc : String := ""
  handoff : String := ""
  acceptanceCriteria : List String
  deriving DecidableEq, Repr

/-- `ChildExecutionRecord`, without its key. -/
structure ChildExecutionRecord where
  repository : String
  issueNumber : Option ℤ
  dependencies : List String
  tier : ExecutorTier
  state : ChildExecutionState := .queued
  agent : Option String := none
  attempts : ℕ := 0
  prNumber : Option ℤ := none
  prStatus : Option String := none
  handoff : String
  errorReasons : List String := []
  turnoverDoc : String
  wave : ℕ
  escalationHistory : List String := []
  leaseReceipt : Option String := none
  acceptanceCriteria : List String
  deriving DecidableEq, Repr

/-- `ExecutionConfig`, with the bounds that are validated. -/
structure ExecutionConfig where
  maxConcurrentPerRepo : ℕ
  maxTierAttempts : ℕ
  autoAdvanceWaves : Bool
  cap_pos : 1 ≤ maxConcurrentPerRepo
  cap_le : maxConcurrentPerRepo ≤ 20
  attempts_pos : 1 ≤ maxTierAttempts
  attempts_le : maxTierAttempts ≤ 5
  deriving DecidableEq, Repr

/-- `ExecutorPipeline`.  The children are in the order of the payloads. -/
structure Pipeline where
  config : ExecutionConfig
  children : Sql.Table String ChildExecutionRecord
  waves : List (List String)
  currentWaveIdx : ℕ
  pausedBranches : Finset String

/-! ### Providers -/

def escalateTier : ExecutorTier → Option ExecutorTier
  | .ollama => some .cli
  | .cli => some .strong
  | .strong => none

def tierRank : ExecutorTier → ℕ
  | .ollama => 0
  | .cli => 1
  | .strong => 2

def defaultProvidersByTier : ExecutorTier → List String
  | .ollama => ["ollama", "local"]
  | .cli => ["codex_cli", "claude_code_cli", "antigravity", "cursor_agent", "jules_cli", "cline"]
  | .strong => ["antigravity", "claude_code_cli"]

/-- `ESTIMATED_COST_PER_DISPATCH`, in cents. -/
def estimatedCostPerDispatch : String → ℕ
  | "ollama" => 0
  | "local" => 0
  | "codex_cli" => 5
  | "jules_cli" => 5
  | "cline" => 8
  | "claude_code_cli" => 20
  | "antigravity" => 25
  | _ => 10

def profileTier (profile : String) : ExecutorTier :=
  if Py.contains "ollama" profile ∨ Py.contains "local" profile then .ollama
  else if Py.contains "strong" profile ∨ Py.contains "opus" profile ∨
      Py.contains "antigravity" profile then .strong
  else .cli

def filterAvailable (registry : String → Option Bool) (candidates : List String) : List String :=
  let filtered := candidates.filter fun provider => (registry provider).getD true
  if filtered = [] then candidates else filtered

/-- `resolve_child_executor`: the provider, its tier and the reason.  No budget is given. -/
def resolveChildExecutor (child : ChildExecutionRecord) (pinnedProfile : Option String)
    (registry : String → Option Bool) : String × ExecutorTier × String :=
  match pinnedProfile.filter (· ≠ "") with
  | some profile =>
    if tierRank (profileTier profile) < tierRank child.tier then
      let escalated := (escalateTier (profileTier profile)).getD (profileTier profile)
      ((defaultProvidersByTier escalated).headD "antigravity", escalated,
        s!"escalation: child tier '{child.tier.value}' demands higher tier than " ++
        s!"pinned profile '{profile}' ({(profileTier profile).value}); " ++
        s!"escalated to '{escalated.value}'")
    else
      (profile, profileTier profile, s!"pinned_profile: using pinned executor profile '{profile}'")
  | none =>
    let sorted := (filterAvailable registry (defaultProvidersByTier child.tier)).insertionSort
      fun a b => estimatedCostPerDispatch a ≤ estimatedCostPerDispatch b
    let selected := sorted.headD "codex_cli"
    (selected, child.tier, s!"conductor_routing: selected cheapest provider '{selected}' " ++
      s!"for tier '{child.tier.value}'")

/-! ### Claims and leases -/

def rosterPriority : List String :=
  ["user", "maxwell-daemon", "claude", "codex", "conductor", "jules", "local", "gaai"]

def rosterRank (agent : String) : ℕ :=
  if agent = "" then rosterPriority.length
  else rosterPriority.findIdx fun member => Py.contains member (Py.lower (Py.strip agent))

def isHigherPriority (holder candidate : String) : Bool := rosterRank holder < rosterRank candidate

structure ClaimStatus where
  held : Bool
  agent : String
  deriving DecidableEq, Repr

def ChildExecutionRecord.unfiled (child : ChildExecutionRecord) : Bool :=
  child.issueNumber = none || child.issueNumber = some 0

/-- `can_dispatch_child`, without labels. -/
def canDispatchChild (child : ChildExecutionRecord) (candidate : String) (status : ClaimStatus) :
    Bool × String :=
  if child.unfiled then (true, "no_issue_number: claim check bypassed")
  else if !status.held then (true, "available")
  else if status.agent ≠ "" ∧
      Py.contains (Py.lower status.agent) (Py.lower candidate) then
    (true, s!"continuation: held by self ({status.agent})")
  else if isHigherPriority status.agent candidate then
    (false, s!"held_by_higher_priority: issue held by higher-priority agent '{status.agent}'")
  else (false, s!"held: issue held by agent '{status.agent}' with active lease")

/-- `post_child_lease`.  The poster returns a receipt, or raises. -/
def postChildLease (child : ChildExecutionRecord) (poster : Except String String) : Bool × String :=
  if child.unfiled then (true, "simulated_lease")
  else
    match poster with
    | .ok receipt => (true, if receipt = "" then "lease_posted" else receipt)
    | .error exc => (false, s!"lease_error: {exc}")

/-- What a dispatch is given: the profile of the request, the registry and the answers of the
coordination service. -/
structure DispatchEnv where
  pinnedProfile : Option String := none
  registry : String → Option Bool := fun _ => none
  claimStatus : ClaimStatus := { held := false, agent := "" }
  poster : Except String String := .ok ""

/-! ### Pull requests -/

/-- What a report of a pull request is given, with the decimal digits that the interpreter knows. -/
structure PullRequest where
  number : ℤ
  body : String := ""
  labels : List String := []
  decimal : Char → Option ℕ := fun c => if c.isDigit then some (c.toNat - 48) else none

/-- A letter of a pattern, where the case is ignored: `i` is also U+0130 and U+0131, and `s` is also
U+017F. -/
def sameLetter (l c : Char) : Bool :=
  c.toLower = l || l = 'i' && (c.toNat = 0x130 || c.toNat = 0x131) || l = 's' && c.toNat = 0x17F

def afterWord : List Char → List Char → Option (List Char)
  | [], s => some s
  | _ :: _, [] => none
  | l :: word, c :: s => if sameLetter l c then afterWord word s else none

/-- The group of `FIXES_ISSUE_RE` at the begin of a text. -/
def fixesIssue? (decimal : Char → Option ℕ) (s : List Char) : Option (List Char) := do
  let rest ← ["fixes", "closes", "resolves"].findSome? fun word => afterWord word.toList s
  if rest.takeWhile Py.isSpace = [] then none
  else
    match rest.dropWhile Py.isSpace with
    | '#' :: rest =>
      let digits := rest.takeWhile fun c => (decimal c).isSome
      if digits = [] then none else some digits
    | _ => none

/-- `FIXES_ISSUE_RE.findall`: no match begins within another one. -/
def fixedIssues (decimal : Char → Option ℕ) : List Char → List (List Char)
  | [] => []
  | c :: s => (fixesIssue? decimal (c :: s)).toList ++ fixedIssues decimal s

def intMaxStrDigits : ℕ := 4300

/-- `int`, of decimal digits. -/
def parseInt (decimal : Char → Option ℕ) (digits : List Char) : Option ℤ :=
  if digits.length ≤ intMaxStrDigits then
    some (digits.foldl (fun n c => 10 * n + (decimal c).getD 0) 0 : ℕ)
  else none

/-- `validate_pr_submission`, `none` where a number is too long. -/
def validatePrSubmission (pr : PullRequest) (issueNumber : Option ℤ) (agent : String) :
    Option (Bool × String) :=
  let label := s!"agent:{agent}"
  let tagged := if label ∉ pr.labels ∧ ¬ (pr.labels.any fun l => Py.startsWith l "agent:") then
      (false, s!"missing_label: PR must include '{label}' label")
    else (true, "valid")
  match issueNumber with
  | none => some tagged
  | some number =>
    ((fixedIssues pr.decimal pr.body.toList).mapM (parseInt pr.decimal)).map fun numbers =>
      if number ∉ numbers then
        (false, "missing_reference: PR body must contain " ++
          s!"'Fixes #{number}' or 'Closes #{number}'")
      else tagged

/-! ### Waves -/

/-- The dependencies of a child that are children too. -/
def localDeps (keys dependencies : List String) (key : String) : List String :=
  dependencies.filter fun d => d ∈ keys ∧ d ≠ key

def depsOf (payloads : List ChildIssuePayload) (key : String) : List String :=
  match payloads.find? fun p => p.key = key with
  | none => []
  | some p => localDeps (payloads.map (·.key)) p.dependencies p.key

/-- `compute_waves`, `none` where it raises. -/
def computeWaves (payloads : List ChildIssuePayload) : Option (List (List String)) :=
  Waves.layer (payloads.map (·.key)) (depsOf payloads)

/-- The errors of `initialize`, and that of `int`. -/
inductive ValueError
  | dependencyCycle
  | noAcceptanceCriterion (key : String)
  | tooManyDigits
  deriving DecidableEq, Repr

def ChildIssuePayload.record (waves : List (List String)) (p : ChildIssuePayload) :
    ChildExecutionRecord where
  repository := p.repository
  issueNumber := p.issueNumber
  dependencies := p.dependencies
  tier := p.tier
  handoff := if p.handoff = "" then p.turnoverDoc else p.handoff
  turnoverDoc := p.turnoverDoc
  wave := (waves.findIdx? fun w => p.key ∈ w).getD 0
  acceptanceCriteria := p.acceptanceCriteria

def childrenOf (waves : List (List String)) (payloads : List ChildIssuePayload) :
    Sql.Table String ChildExecutionRecord :=
  payloads.foldl (fun t p => t.put p.key (p.record waves)) .empty

def newPipeline (config : ExecutionConfig) (waves : List (List String))
    (payloads : List ChildIssuePayload) : Pipeline where
  config
  children := childrenOf waves payloads
  waves
  currentWaveIdx := 0
  pausedBranches := ∅

/-- `initialize`. -/
def initializePipeline (config : ExecutionConfig) (payloads : List ChildIssuePayload) :
    Except ValueError Pipeline :=
  match computeWaves payloads with
  | none => .error .dependencyCycle
  | some waves =>
    match payloads.find? fun p => p.acceptanceCriteria = [] with
    | some p => .error (.noAcceptanceCriterion p.key)
    | none => .ok (newPipeline config waves payloads)

theorem get?_childrenOf {waves : List (List String)} {payloads : List ChildIssuePayload}
    {k : String} : (childrenOf waves payloads).get? k =
      (payloads.reverse.find? fun p => p.key = k).map (ChildIssuePayload.record waves) := by
  unfold childrenOf
  induction payloads using List.reverseRecOn with
  | nil => rfl
  | append_singleton payloads p ih =>
    rw [List.foldl_append, List.foldl_cons, List.foldl_nil, List.reverse_append,
      List.reverse_singleton, List.singleton_append, Sql.Table.get?_put, ih]
    by_cases hk : k = p.key
    · rw [if_pos hk, List.find?_cons_of_pos (by simp [hk])]
      rfl
    · rw [if_neg hk, List.find?_cons_of_neg (by simpa using fun h => hk h.symm)]

theorem eq_of_initializePipeline {config : ExecutionConfig} {payloads : List ChildIssuePayload}
    {p : Pipeline} (h : initializePipeline config payloads = .ok p) :
    ∃ waves, computeWaves payloads = some waves ∧ p = newPipeline config waves payloads := by
  unfold initializePipeline at h
  cases hwaves : computeWaves payloads with
  | none =>
    rw [hwaves] at h
    cases h
  | some waves =>
    simp only [hwaves] at h
    split at h
    · cases h
    · exact ⟨waves, rfl, (Except.ok.inj h).symm⟩

theorem initializePipeline_eq {config : ExecutionConfig} {payloads : List ChildIssuePayload}
    {waves : List (List String)} (hwaves : computeWaves payloads = some waves)
    (hcriteria : (payloads.find? fun p => p.acceptanceCriteria = []) = none) :
    initializePipeline config payloads = .ok (newPipeline config waves payloads) := by
  unfold initializePipeline
  rw [hwaves, hcriteria]

theorem queued_of_initializePipeline {config : ExecutionConfig} {payloads : List ChildIssuePayload}
    {p : Pipeline} {k : String} {c : ChildExecutionRecord}
    (h : initializePipeline config payloads = .ok p) (hc : p.children.get? k = some c) :
    c.state = .queued := by
  obtain ⟨waves, -, rfl⟩ := eq_of_initializePipeline h
  unfold newPipeline at hc
  rw [get?_childrenOf, Option.map_eq_some_iff] at hc
  obtain ⟨payload, -, rfl⟩ := hc
  rfl

namespace Pipeline

/-! ### The pipeline -/

def child? (p : Pipeline) (key : String) : Option ChildExecutionRecord := p.children.get? key

def modify (p : Pipeline) (key : String) (f : ChildExecutionRecord → ChildExecutionRecord) :
    Pipeline :=
  { p with children := p.children.update (fun k _ => k = key) fun _ c => f c }

def isMerged (p : Pipeline) (key : String) : Bool :=
  (p.child? key).any fun c => c.state = .merged

def unmerged (p : Pipeline) (key : String) : Bool :=
  (p.child? key).any fun c => c.state ≠ .merged

def isChildReady (p : Pipeline) (key : String) : Bool :=
  match p.child? key with
  | none => false
  | some child => child.state = .queued && key ∉ p.pausedBranches &&
      child.dependencies.all fun dep => !p.unmerged dep

def activeCount (p : Pipeline) (repository : String) : ℕ :=
  p.children.count fun _ c => c.state.active && c.repository = repository

/-- The keys of a wave that are ready, as long as there is room in their repository. -/
def readyFrom (p : Pipeline) : List String → (String → ℕ) → List String
  | [], _ => []
  | key :: keys, counts =>
    match p.child? key with
    | none => p.readyFrom keys counts
    | some child =>
      if p.isChildReady key = true ∧ counts child.repository < p.config.maxConcurrentPerRepo then
        key :: p.readyFrom keys
          (Function.update counts child.repository (counts child.repository + 1))
      else p.readyFrom keys counts

/-- The keys of `get_ready_children`. -/
def getReadyChildren (p : Pipeline) : List String :=
  match p.waves[p.currentWaveIdx]? with
  | none => []
  | some wave => p.readyFrom wave p.activeCount

/-- `dispatch_child`.  The provider and its tier are kept also where the claim check or the lease
fails. -/
def dispatchChild (p : Pipeline) (key : String) (env : DispatchEnv) : (Bool × String) × Pipeline :=
  match p.child? key with
  | none => ((false, s!"child_not_found: {key}"), p)
  | some child =>
    if !p.isChildReady key then ((false, s!"child_not_ready: {key}"), p)
    else
      let (provider, tier, _) := resolveChildExecutor child env.pinnedProfile env.registry
      let resolved := p.modify key fun c => { c with agent := some provider, tier }
      let (canDispatch, claimReason) := canDispatchChild child provider env.claimStatus
      if !canDispatch then ((false, claimReason), resolved)
      else
        let (ok, receipt) := postChildLease child env.poster
        if !ok then ((false, receipt), resolved)
        else ((true, s!"dispatched to {provider}"),
          resolved.modify key fun c =>
            { c with leaseReceipt := some receipt, state := .claimed })

/-- `report_pr_opened`.  The check of the pull request only warns, or it raises. -/
def reportPrOpened (p : Pipeline) (key : String) (pr : PullRequest) :
    Except ValueError ((Bool × String) × Pipeline) :=
  match p.child? key with
  | none => .ok ((false, s!"child_not_found: {key}"), p)
  | some child =>
    let recorded := ((true, s!"pr #{pr.number} recorded"),
      p.modify key fun c => { c with prNumber := some pr.number, state := .prOpen })
    match child.agent.filter (· ≠ "") with
    | none => .ok recorded
    | some agent =>
      if pr.body = "" then .ok recorded
      else
        match validatePrSubmission pr child.issueNumber agent with
        | some _ => .ok recorded
        | none => .error .tooManyDigits

/-- The words for a check that runs. -/
def pendingStatus (status : String) : Bool :=
  Py.lower status ∈ ["in_progress", "pending", "running"]

def reportCiStatus (p : Pipeline) (key status : String) : Pipeline :=
  p.modify key fun c =>
    if pendingStatus status then { c with prStatus := some status, state := .ci }
    else { c with prStatus := some status }

def checkAndAdvanceWave (p : Pipeline) : Pipeline :=
  match p.waves[p.currentWaveIdx]? with
  | none => p
  | some wave =>
    if p.config.autoAdvanceWaves = true ∧ ∀ key ∈ wave, p.isMerged key = true then
      { p with currentWaveIdx := p.currentWaveIdx + 1 }
    else p

def reportMerged (p : Pipeline) (key : String) : Pipeline :=
  match p.child? key with
  | none => p
  | some _ => (p.modify key fun c => { c with state := .merged }).checkAndAdvanceWave

def downstream (curr : String) (c : ChildExecutionRecord) : Bool :=
  curr ∈ c.dependencies && c.state ≠ .merged

def dependents (p : Pipeline) (curr : String) : List String :=
  (p.children.matching fun _ c => downstream curr c).map Prod.fst

def blockDependents (p : Pipeline) (curr : String) : Pipeline :=
  { p with
    children := p.children.update (fun _ c => downstream curr c) fun _ c =>
      { c with state := .blocked }
    pausedBranches := p.pausedBranches ∪ (p.dependents curr).toFinset }

/-- `_pause_dependent_branches`, in at most `fuel` rounds.  A child is visited each time it is
reached. -/
def pauseDependentBranches : ℕ → List String → Pipeline → Option Pipeline
  | _, [], p => some p
  | 0, _ :: _, _ => none
  | fuel + 1, curr :: toVisit, p =>
    pauseDependentBranches fuel (toVisit ++ p.dependents curr) (p.blockDependents curr)

def countFailure (reason updatedHandoff : String) (c : ChildExecutionRecord) :
    ChildExecutionRecord :=
  { c with
    attempts := c.attempts + 1
    errorReasons := c.errorReasons ++ [reason]
    handoff := if updatedHandoff = "" then c.handoff else updatedHandoff }

def escalate (next : ExecutorTier) (c : ChildExecutionRecord) : ChildExecutionRecord :=
  { c with
    tier := next
    attempts := 0
    escalationHistory := c.escalationHistory ++
      [s!"escalated from {c.tier.value} to {next.value}"]
    state := .queued }

/-- `report_failed`, `none` where the walk is not done after `fuel` rounds. -/
def reportFailed (fuel : ℕ) (p : Pipeline) (key reason updatedHandoff : String) :
    Option Pipeline :=
  match p.child? key with
  | none => some p
  | some child =>
    let counted := p.modify key (countFailure reason updatedHandoff)
    if p.config.maxTierAttempts ≤ child.attempts + 1 then
      match escalateTier child.tier with
      | some next => some (counted.modify key (escalate next))
      | none =>
        let paused := counted.modify key fun c => { c with state := .pausedForHuman }
        pauseDependentBranches fuel [key]
          { paused with pausedBranches := insert key paused.pausedBranches }
    else some (counted.modify key fun c => { c with state := .queued })

/-! ### Snapshots and the rollup -/

/-- `PipelineSnapshot`. -/
structure Snapshot where
  config : ExecutionConfig
  children : Sql.Table String ChildExecutionRecord
  waves : List (List String)
  currentWaveIdx : ℕ
  pausedBranches : List String

def snapshot (p : Pipeline) : Snapshot where
  config := p.config
  children := p.children
  waves := p.waves
  currentWaveIdx := p.currentWaveIdx
  pausedBranches := p.pausedBranches.sort (· ≤ ·)

def fromSnapshot (snap : Snapshot) : Pipeline where
  config := snap.config
  children := snap.children
  waves := snap.waves
  currentWaveIdx := snap.currentWaveIdx
  pausedBranches := snap.pausedBranches.toFinset

/-- **A pipeline is resumed as it was.** -/
@[simp] theorem fromSnapshot_snapshot (p : Pipeline) : fromSnapshot p.snapshot = p := by
  unfold fromSnapshot snapshot
  simp only [Finset.sort_toFinset]

/-- The children in a state, as `get_rollup` lists them. -/
def keysIn (p : Pipeline) (state : ChildExecutionState) : List String :=
  (p.children.matching fun _ c => c.state = state).map Prod.fst

/-- The completed children of `get_rollup`. -/
def completed (p : Pipeline) : List String := p.keysIn .merged

end Pipeline

end Executor
