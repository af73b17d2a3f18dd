import Mathlib.Data.Rat.Defs
import Mathlib.Algebra.Order.Ring.Rat
import RunnerDashboard.Deploy.ReleaseMatch

/-!
# A cycle of auto-deploy

A cycle looks for the newest commit of the main history that passes the gate and has a release, as
GitHub says at that moment, and deploys it unless it is deployed already.  It does not ask where the
deployed commit stands: if the checks of that commit fail by now, the newest commit that passes is
an older one.

## Main results

* `ready_iff` — **when a cycle is ready.**
* `neverBackwards_iff` — **a cycle goes back exactly if an older commit is the first.**
-/

namespace Deploy

/-! ### What is read -/

/-- What a request returns: a value, the error that the cycle expects, or another one. -/
inductive Fetched (α : Type*)
  | ok (value : α)
  | unavailable (message : String)
  | raised

structure CommitTime where
  hours : ℚ
  isoformat : String

/-- A node of the fleet status: its role, and the commits of its deployment and of its health. -/
structure FleetNode where
  role : String
  deploymentSha : Option String
  healthSha : Option String

/-- The settings of a node. -/
structure CycleConfig where
  machineRole : String
  hubUrl : Option String
  maxUnreleasedHours : ℚ := 3
  maxGreenBehind : ℕ := 5

structure CycleDeps where
  /-- `RUNNER_DASHBOARD_AUTO_DEPLOY`, and whether the flag file is there. -/
  autoDeploy : Option String := none
  flagFile : Bool := false
  /-- The `sha` of the main branch. -/
  mainSha : Fetched String
  /-- The `git_sha` of `deployment.json`. -/
  deploymentSha : String
  /-- The commits of the main history, with their times. -/
  commits : Fetched (List (String × Option CommitTime))
  releases : Fetched Releases
  checkRuns : String → Fetched (List CheckRun)
  fleetStatus : Fetched (List (String × Option FleetNode))
  staffInFlight : Fetched ℕ
  now : ℚ

def autoDeployDisabled (deps : CycleDeps) : Bool :=
  Py.lower (Py.strip (deps.autoDeploy.getD "1")) ∈ ["0", "false", "no", "off", ""] || deps.flagFile

def deployedGitSha (deps : CycleDeps) : Option String :=
  let sha := Py.lower (Py.strip deps.deploymentSha)
  if sha.toList.length = 40 && sha.toList.all isHex then some sha else none

def defaultMainHistoryLimit : ℕ := 20

/-- `_main_commit_log`: the commits, newest first, and their times. -/
def mainCommitLog (commits : List (String × Option CommitTime)) (mainHeadSha : String) :
    List String × List (String × CommitTime) :=
  let items := (commits.map fun x => (Py.lower x.1, x.2)).filter fun x => x.1.toList.length = 40
  let shas := items.map Prod.fst
  let times := items.reverse.filterMap fun x => x.2.map fun time => (x.1, time)
  ((if mainHeadSha ∈ shas then shas else mainHeadSha :: shas).take defaultMainHistoryLimit, times)

/-! ### The walk over the history -/

inductive NewestState
  | greenReleased
  | greenUnreleased
  | notGreen
  | empty
  deriving DecidableEq, Repr

structure MainWindowScan where
  deployableSha : Option String
  deployableDetail : String
  newestSha : Option String
  newestState : NewestState
  newestDetail : String
  greenUnreleased : List String
  window : ℕ

def MainWindowScan.detail (scan : MainWindowScan) : String :=
  if scan.deployableSha.isSome then scan.deployableDetail
  else
    match scan.newestSha with
    | none => "no commits in main history window"
    | some newest =>
      if scan.newestState = .greenUnreleased then
        "main " ++ short newest ++ " is green but has no published release (none of last " ++
          toString scan.window ++ " commits released)"
      else
        "main " ++ short newest ++ " is not green: " ++ scan.newestDetail ++
          " (no green released commit in last " ++ toString scan.window ++ ")"

/-- What the walk remembers: the newest commit, and the commits that pass without a release. -/
structure ScanState where
  newest : Option (String × NewestState × String) := none
  unreleased : List String := []

/-- The end of the walk. -/
def ScanState.result (st : ScanState) (window : ℕ) (deployable : Option String) (detail : String) :
    MainWindowScan where
  deployableSha := deployable
  deployableDetail := detail
  newestSha := st.newest.map (·.1)
  newestState := (st.newest.map (·.2.1)).getD .empty
  newestDetail := (st.newest.map (·.2.2)).getD ""
  greenUnreleased := st.unreleased
  window

/-- The walk from a commit on. -/
def scanFrom (window : ℕ) (fetchCheckRuns : String → Fetched (List CheckRun))
    (hasRelease : String → Bool) : ScanState → List String → Fetched MainWindowScan
  | st, [] => .ok (st.result window none "")
  | st, rawSha :: rest =>
    match normalizeCommitSha rawSha with
    | none => scanFrom window fetchCheckRuns hasRelease st rest
    | some sha =>
      match fetchCheckRuns sha with
      | .unavailable message => .unavailable message
      | .raised => .raised
      | .ok runs =>
        let gate := ciGateForDeployCommit runs sha
        let released := gate.1 && hasRelease sha
        let state :=
          if released then NewestState.greenReleased
          else if gate.1 then .greenUnreleased
          else .notGreen
        let newest := st.newest.or (some (sha, state, gate.2))
        if released then .ok (ScanState.result ⟨newest, st.unreleased⟩ window (some sha) gate.2)
        else
          scanFrom window fetchCheckRuns hasRelease
            ⟨newest, if gate.1 then st.unreleased ++ [sha] else st.unreleased⟩ rest

def scanMainWindow (commitsNewestFirst : List String)
    (fetchCheckRuns : String → Fetched (List CheckRun)) (hasRelease : String → Bool) :
    Fetched MainWindowScan :=
  scanFrom commitsNewestFirst.length fetchCheckRuns hasRelease {} commitsNewestFirst

/-- `assess_release_staleness`: the reason where attention is raised. -/
def assessReleaseStaleness (scan : MainWindowScan) (times : List (String × CommitTime)) (now : ℚ)
    (maxAgeHours : ℚ) (maxGreenBehind : ℕ) : Option String :=
  match scan.greenUnreleased.head? with
  | none => none
  | some sha =>
    let since := times.lookup sha
    let behind := scan.greenUnreleased.length
    let tooOld := since.any fun time => maxAgeHours < now - time.hours
    if !tooOld && behind ≤ maxGreenBehind then none
    else
      some ("no release published for green main " ++ short sha ++
        ((since.map fun time => " since " ++ time.isoformat).getD "") ++ " (" ++ toString behind ++
        " green commit(s) behind)")

/-! ### The hub -/

def hubCommitFromStatus (payload : List (String × Option FleetNode)) : Option String :=
  payload.findSome? fun x =>
    if Py.startsWith x.1 "_" then none
    else
      x.2.bind fun node =>
        if node.role = "hub" then
          [node.deploymentSha, node.healthSha].findSome? fun sha =>
            (sha.map Py.lower).filter fun sha => sha.toList.length = 40
        else none

def hubReadyForCommit (payload : List (String × Option FleetNode)) (targetSha : String) :
    Bool × String :=
  match hubCommitFromStatus payload with
  | none => (false, "hub deployment sha not found in fleet status")
  | some sha =>
    if sha ≠ Py.lower targetSha then
      (false, "hub at " ++ short sha ++ ", want " ++ short targetSha)
    else (true, "hub at " ++ short sha)

/-! ### The decision -/

inductive CycleResult
  | skipped (message : String)
  | failed (message : String)
  | ready (version target : String)
  /-- An error that the cycle does not catch. -/
  | raised

/-- The hub gate of a node; `none` where it is passed. -/
def hubGate (config : CycleConfig) (deps : CycleDeps) (target : String) : Option CycleResult :=
  if config.machineRole ≠ "hub" ∧ (config.hubUrl.filter (· ≠ "")).isSome then
    match deps.fleetStatus with
    | .unavailable message => some (.skipped ("hub gate: " ++ message))
    | .raised => some .raised
    | .ok fleet =>
      let ready := hubReadyForCommit fleet target
      if ready.1 then none else some (.skipped ("hub gate: " ++ ready.2))
  else none

/-- The end of a cycle, with the commit that can be deployed. -/
def decideTarget (config : CycleConfig) (deps : CycleDeps) (releases : Releases) (dg : Digits)
    (mainSha target : String) (flag : String → String) : CycleResult :=
  if deployedGitSha deps = some target then
    if mainSha ≠ target then
      .skipped (flag ("already at " ++ short target ++ " (main HEAD " ++ short mainSha ++
        " awaiting CI/release)"))
    else .skipped ("already at " ++ short target)
  else
    match pickReleaseAssets dg releases target with
    | none => .skipped ("no release artifact for " ++ short target)
    | some assets =>
      match hubGate config deps target with
      | some result => result
      | none =>
        match deps.staffInFlight with
        | .ok count =>
          if 0 < count then .skipped "staff runs in flight" else .ready assets.version target
        | _ => .raised

def evaluateCycle (config : CycleConfig) (deps : CycleDeps) (dg : Digits) : CycleResult :=
  if autoDeployDisabled deps then .skipped "auto-deploy disabled by kill switch"
  else
    match deps.mainSha with
    | .ok sha =>
      let mainSha := Py.lower sha
      if mainSha.toList.length ≠ 40 then .failed "could not resolve main HEAD"
      else
        match deps.commits with
        | .ok commits =>
          let log := mainCommitLog commits mainSha
          match deps.releases with
          | .ok releases =>
            match scanMainWindow log.1 deps.checkRuns
              fun sha => (pickReleaseAssets dg releases sha).isSome with
            | .unavailable message => .failed ("CI gate unavailable: " ++ message)
            | .raised => .raised
            | .ok scan =>
              let stale := assessReleaseStaleness scan log.2 deps.now config.maxUnreleasedHours
                config.maxGreenBehind
              let flag :=
                fun message => (stale.map fun reason => reason ++ "; " ++ message).getD message
              match scan.deployableSha with
              | none => .failed (flag ("CI gate: " ++ scan.detail))
              | some target => decideTarget config deps releases dg mainSha target flag
          | _ => .raised
        | _ => .raised
    | _ => .raised

/-! ### Going back -/

/-- The commits that a cycle walks over, newest first. -/
def window (deps : CycleDeps) : List String :=
  match deps.mainSha, deps.commits with
  | .ok sha, .ok commits => (mainCommitLog commits (Py.lower sha)).1.filterMap normalizeCommitSha
  | _, _ => []

def newerThan (commits : List String) (sha : String) : List String := commits.takeWhile (· ≠ sha)

def Deployable (deps : CycleDeps) (dg : Digits) (sha : String) : Prop :=
  (∃ runs, deps.checkRuns sha = .ok runs ∧ (ciGateForDeployCommit runs sha).1 = true) ∧
    ∃ releases, deps.releases = .ok releases ∧ (pickReleaseAssets dg releases sha).isSome = true

/-- **Nothing else stops a cycle at a commit**: it is not switched off, the checks of all newer
commits are there, the hub is at the commit, and no run is in flight. -/
structure Free (config : CycleConfig) (deps : CycleDeps) (sha : String) : Prop where
  enabled : autoDeployDisabled deps = false
  head : ∃ main, deps.mainSha = .ok main ∧ (Py.lower main).toList.length = 40
  checks : ∀ newer ∈ newerThan (window deps) sha, ∃ runs, deps.checkRuns newer = .ok runs
  hub : hubGate config deps sha = none
  idle : deps.staffInFlight = .ok 0

/-- **A cycle does not go back**: where it is ready with a commit, this passes, has assets, and is
newer than the deployed one. -/
def NeverBackwards (config : CycleConfig) (deps : CycleDeps) (dg : Digits)
    (deployed : String) : Prop :=
  ∀ version target, evaluateCycle config deps dg = .ready version target →
    Deployable deps dg target ∧ target ∈ newerThan (window deps) deployed

/-- **No older commit is the first**: where a commit that is older than the deployed one can be
deployed, and nothing else stops the cycle, a newer commit than that can be deployed as well. -/
def NoneOlder (config : CycleConfig) (deps : CycleDeps) (dg : Digits) (deployed : String) : Prop :=
  ∀ older ∈ window deps, older ≠ deployed → older ∉ newerThan (window deps) deployed →
    Deployable deps dg older → Free config deps older →
    ∃ newer ∈ newerThan (window deps) older, Deployable deps dg newer

variable {config : CycleConfig} {deps : CycleDeps} {dg : Digits} {w : ℕ}
  {fetch : String → Fetched (List CheckRun)} {hasRelease : String → Bool} {st : ScanState}
  {commits : List String} {sha version target deployed mainSha : String} {releases : Releases}
  {flag : String → String}

/-! ### The walk -/

/-- A commit with its checks that passes and has a release, or that does not. -/
def Verdict (fetch : String → Fetched (List CheckRun)) (hasRelease : String → Bool) (sha : String)
    (verdict : Bool) : Prop :=
  ∃ runs, fetch sha = .ok runs ∧ ((ciGateForDeployCommit runs sha).1 && hasRelease sha) = verdict

theorem Verdict.unique {verdict verdict' : Bool} (h : Verdict fetch hasRelease sha verdict)
    (h' : Verdict fetch hasRelease sha verdict') : verdict = verdict' := by
  obtain ⟨runs, hruns, rfl⟩ := h
  obtain ⟨runs', hruns', rfl⟩ := h'
  rw [hruns] at hruns'
  injection hruns' with hruns'
  rw [hruns']

theorem exists_verdict_of_cons {shas before after : List String}
    (hcut : sha :: shas = before ++ target :: after)
    (hbefore : ∀ newer ∈ before, Verdict fetch hasRelease newer false)
    (htarget : Verdict fetch hasRelease target true) :
    ∃ verdict, Verdict fetch hasRelease sha verdict := by
  cases before with
  | nil => exact ⟨true, by rwa [(List.cons.inj hcut).1]⟩
  | cons b before => exact ⟨false, (List.cons.inj hcut).1 ▸ hbefore b List.mem_cons_self⟩

/-- **The walk ends at the first commit that can be deployed.** -/
theorem scanFrom_deployable_iff :
    (∃ scan, scanFrom w fetch hasRelease st commits = .ok scan ∧ scan.deployableSha = some target) ↔
      ∃ before after, commits.filterMap normalizeCommitSha = before ++ target :: after ∧
        (∀ newer ∈ before, Verdict fetch hasRelease newer false) ∧
        Verdict fetch hasRelease target true := by
  induction commits generalizing st with
  | nil =>
    constructor
    · rintro ⟨scan, hscan, htarget⟩
      injection hscan with hscan
      subst hscan
      cases htarget
    · rintro ⟨before, after, h, -⟩
      simp at h
  | cons rawSha rest ih =>
    unfold scanFrom
    cases hsha : normalizeCommitSha rawSha with
    | none =>
      rw [List.filterMap_cons_none hsha]
      exact ih
    | some sha =>
      rw [List.filterMap_cons_some hsha]
      dsimp only
      -- a commit whose checks cannot be read ends the walk without a target
      cases hfetch : fetch sha with
      | unavailable message =>
        refine iff_of_false (by simp) ?_
        rintro ⟨before, after, hcut, hbefore, htarget⟩
        obtain ⟨verdict, runs, hruns, -⟩ := exists_verdict_of_cons hcut hbefore htarget
        rw [hfetch] at hruns
        cases hruns
      | raised =>
        refine iff_of_false (by simp) ?_
        rintro ⟨before, after, hcut, hbefore, htarget⟩
        obtain ⟨verdict, runs, hruns, -⟩ := exists_verdict_of_cons hcut hbefore htarget
        rw [hfetch] at hruns
        cases hruns
      | ok runs =>
        dsimp only
        cases hverdict : (ciGateForDeployCommit runs sha).1 && hasRelease sha with
        | true =>
          have htrue : Verdict fetch hasRelease sha true := ⟨runs, hfetch, hverdict⟩
          -- the walk ends here, and a newer commit cannot be the target
          rw [if_pos rfl]
          constructor
          · rintro ⟨scan, hscan, htarget⟩
            injection hscan with hscan
            subst hscan
            obtain rfl := Option.some.inj htarget
            exact ⟨[], _, rfl, by simp, htrue⟩
          · rintro ⟨before, after, hcut, hbefore, -⟩
            cases before with
            | nil => exact ⟨_, rfl, congrArg some (List.cons.inj hcut).1⟩
            | cons b before =>
              have hfalse := hbefore b List.mem_cons_self
              rw [← (List.cons.inj hcut).1] at hfalse
              exact absurd (htrue.unique hfalse) (by decide)
        | false =>
          have hfalse : Verdict fetch hasRelease sha false := ⟨runs, hfetch, hverdict⟩
          rw [if_neg Bool.false_ne_true, ih]
          constructor
          · rintro ⟨before, after, hcut, hbefore, htarget⟩
            refine ⟨sha :: before, after, by rw [hcut, List.cons_append], ?_, htarget⟩
            intro newer hnewer
            rcases List.mem_cons.mp hnewer with rfl | hnewer
            · exact hfalse
            · exact hbefore newer hnewer
          · rintro ⟨before, after, hcut, hbefore, htarget⟩
            cases before with
            | nil =>
              rw [← (List.cons.inj hcut).1] at htarget
              exact absurd (htarget.unique hfalse) (by decide)
            | cons b before =>
              exact ⟨before, after, (List.cons.inj hcut).2,
                fun newer hnewer => hbefore newer (List.mem_cons_of_mem _ hnewer), htarget⟩

/-! ### When a cycle is ready -/

theorem hubGate_ne_ready : hubGate config deps target ≠ some (.ready version sha) := by
  unfold hubGate
  intro h
  split at h
  · split at h
    · cases h
    · cases h
    · dsimp only at h
      split at h
      · cases h
      · cases h
  · cases h

/-- **A commit that can be deployed is deployed**, if it is another one, the hub is there and
nothing is in flight. -/
theorem decideTarget_ready_iff :
    (∃ version, decideTarget config deps releases dg mainSha target flag = .ready version sha) ↔
      sha = target ∧ deployedGitSha deps ≠ some target ∧
        (pickReleaseAssets dg releases target).isSome = true ∧ hubGate config deps target = none ∧
        deps.staffInFlight = .ok 0 := by
  unfold decideTarget
  by_cases hdeployed : deployedGitSha deps = some target
  · rw [if_pos hdeployed]
    refine iff_of_false ?_ fun h => h.2.1 hdeployed
    rintro ⟨version, h⟩
    split at h <;> cases h
  · rw [if_neg hdeployed]
    cases hassets : pickReleaseAssets dg releases target with
    | none => simp
    | some assets =>
      dsimp only
      cases hhub : hubGate config deps target with
      | some result =>
        refine iff_of_false ?_ (by simp)
        rintro ⟨version, rfl⟩
        exact hubGate_ne_ready hhub
      | none =>
        dsimp only
        cases hstaff : deps.staffInFlight with
        | unavailable message => simp
        | raised => simp
        | ok count =>
          dsimp only
          by_cases hcount : 0 < count
          · rw [if_pos hcount]
            refine iff_of_false (by simp) ?_
            rintro ⟨-, -, -, -, hzero⟩
            injection hzero with hzero
            omega
          · obtain rfl : count = 0 := by omega
            simp [hdeployed, eq_comm]

theorem newerThan_append {before after : List String} (h : target ∉ before) :
    newerThan (before ++ target :: after) target = before := by
  unfold newerThan
  rw [List.takeWhile_append_of_pos]
  · simp
  · intro u hu
    refine decide_eq_true ?_
    rintro rfl
    exact h hu

structure Requests (deps : CycleDeps) (mainSha : String)
    (commits : List (String × Option CommitTime))
    (releases : Releases) : Prop where
  main : ∃ sha, deps.mainSha = .ok sha ∧ Py.lower sha = mainSha
  full : mainSha.toList.length = 40
  commits : deps.commits = .ok commits
  releases : deps.releases = .ok releases

/-- What the walk of a cycle asks of a commit. -/
abbrev CycleVerdict (deps : CycleDeps) (dg : Digits) (releases : Releases) : String → Bool → Prop :=
  Verdict deps.checkRuns fun sha => (pickReleaseAssets dg releases sha).isSome

theorem window_of_requests {items : List (String × Option CommitTime)}
    (h : Requests deps mainSha items releases) :
    window deps = (mainCommitLog items mainSha).1.filterMap normalizeCommitSha := by
  obtain ⟨⟨sha, hmain, rfl⟩, -, hcommits, -⟩ := h
  unfold window
  rw [hmain, hcommits]

theorem requests_of_ready (h : evaluateCycle config deps dg = .ready version target) :
    autoDeployDisabled deps = false ∧ ∃ mainSha items releases,
      Requests deps mainSha items releases := by
  unfold evaluateCycle at h
  split at h
  · cases h
  · next henabled =>
    refine ⟨Bool.eq_false_iff.mpr henabled, ?_⟩
    split at h
    · next sha hmain =>
      dsimp only at h
      split at h
      · cases h
      · next hfull =>
        split at h
        · next items hcommits =>
          split at h
          · next releases hreleases =>
            exact ⟨_, items, releases, ⟨sha, hmain, rfl⟩, not_not.mp hfull, hcommits, hreleases⟩
          · cases h
        · cases h
    · cases h

/-- **The steps of a cycle that has its answers.** -/
theorem ready_iff_of_requests {items : List (String × Option CommitTime)}
    (henabled : autoDeployDisabled deps = false) (h : Requests deps mainSha items releases) :
    (∃ version, evaluateCycle config deps dg = .ready version target) ↔
      (∃ before after, window deps = before ++ target :: after ∧
        (∀ newer ∈ before, CycleVerdict deps dg releases newer false) ∧
        CycleVerdict deps dg releases target true) ∧
      deployedGitSha deps ≠ some target ∧ hubGate config deps target = none ∧
        deps.staffInFlight = .ok 0 := by
  have hscan : (∃ scan, scanMainWindow (mainCommitLog items mainSha).1 deps.checkRuns
      (fun sha => (pickReleaseAssets dg releases sha).isSome) = .ok scan ∧
        scan.deployableSha = some target) ↔ _ := scanFrom_deployable_iff
  rw [window_of_requests h, ← hscan]
  obtain ⟨⟨sha, hmain, rfl⟩, hfull, hcommits, hreleases⟩ := h
  unfold evaluateCycle
  rw [henabled, if_neg Bool.false_ne_true, hmain]
  dsimp only
  rw [if_neg (not_not.mpr hfull), hcommits, hreleases]
  dsimp only
  cases hresult : scanMainWindow (mainCommitLog items (Py.lower sha)).1 deps.checkRuns
      (fun sha => (pickReleaseAssets dg releases sha).isSome) with
  | unavailable message => simp
  | raised => simp
  | ok scan =>
    dsimp only
    cases htarget : scan.deployableSha with
    | none => simp [htarget]
    | some first =>
      dsimp only
      rw [decideTarget_ready_iff]
      constructor
      · rintro ⟨rfl, hnew, -, hhub, hidle⟩
        exact ⟨⟨scan, rfl, htarget⟩, hnew, hhub, hidle⟩
      · rintro ⟨⟨scan', hscan', htarget'⟩, hnew, hhub, hidle⟩
        injection hscan' with hscan'
        subst hscan'
        obtain rfl := Option.some.inj (htarget'.symm.trans htarget)
        obtain ⟨before, after, -, -, runs, -, hverdict⟩ := hscan.mp ⟨scan, hresult, htarget⟩
        rw [Bool.and_eq_true] at hverdict
        exact ⟨rfl, hnew, hverdict.2, hhub, hidle⟩

theorem cycleVerdict_true_iff (hreleases : deps.releases = .ok releases) :
    CycleVerdict deps dg releases sha true ↔ Deployable deps dg sha := by
  unfold CycleVerdict Verdict Deployable
  simp only [Bool.and_eq_true]
  constructor
  · rintro ⟨runs, hruns, hgate, hpick⟩
    exact ⟨⟨runs, hruns, hgate⟩, releases, hreleases, hpick⟩
  · rintro ⟨⟨runs, hruns, hgate⟩, releases', hreleases', hpick⟩
    rw [hreleases] at hreleases'
    injection hreleases' with hreleases'
    subst hreleases'
    exact ⟨runs, hruns, hgate, hpick⟩

theorem cycleVerdict_false_iff (hreleases : deps.releases = .ok releases) :
    CycleVerdict deps dg releases sha false ↔
      (∃ runs, deps.checkRuns sha = .ok runs) ∧ ¬ Deployable deps dg sha := by
  rw [← cycleVerdict_true_iff hreleases]
  constructor
  · intro hfalse
    refine ⟨?_, fun htrue => absurd (htrue.unique hfalse) (by decide)⟩
    obtain ⟨runs, hruns, -⟩ := hfalse
    exact ⟨runs, hruns⟩
  · rintro ⟨⟨runs, hruns⟩, hnot⟩
    refine ⟨runs, hruns, Bool.eq_false_iff.mpr fun hverdict => hnot ⟨runs, hruns, hverdict⟩⟩

/-- **A cycle is ready with a commit that is not deployed, if nothing else stops it and no newer
commit can be deployed.** -/
theorem ready_iff : (∃ version, evaluateCycle config deps dg = .ready version target) ↔
    target ∈ window deps ∧ deployedGitSha deps ≠ some target ∧ Deployable deps dg target ∧
      Free config deps target ∧ ∀ newer ∈ newerThan (window deps) target,
        ¬ Deployable deps dg newer := by
  constructor
  · rintro ⟨version, hready⟩
    obtain ⟨henabled, mainSha, items, releases, hrequests⟩ := requests_of_ready hready
    obtain ⟨⟨before, after, hcut, hbefore, htarget⟩, hnew, hhub, hidle⟩ :=
      (ready_iff_of_requests henabled hrequests).mp ⟨version, hready⟩
    have hnotMem : target ∉ before := fun hmem => by
      exact absurd (htarget.unique (hbefore target hmem)) (by decide)
    have hnewer : newerThan (window deps) target = before := by rw [hcut, newerThan_append hnotMem]
    refine ⟨hcut ▸ List.mem_append_right _ List.mem_cons_self, hnew,
      (cycleVerdict_true_iff hrequests.releases).mp htarget, ⟨henabled, ?_, ?_, hhub, hidle⟩, ?_⟩
    · obtain ⟨sha, hmain, rfl⟩ := hrequests.main
      exact ⟨sha, hmain, hrequests.full⟩
    · rw [hnewer]
      exact fun newer hmem =>
        ((cycleVerdict_false_iff hrequests.releases).mp (hbefore newer hmem)).1
    · rw [hnewer]
      exact fun newer hmem =>
        ((cycleVerdict_false_iff hrequests.releases).mp (hbefore newer hmem)).2
  · rintro ⟨hmem, hnew, hdeployable, hfree, hnone⟩
    obtain ⟨sha, hmain, hfull⟩ := hfree.head
    obtain ⟨-, releases, hreleases, -⟩ := id hdeployable
    obtain ⟨items, hcommits⟩ : ∃ items, deps.commits = .ok items := by
      unfold window at hmem
      rw [hmain] at hmem
      cases hcommits : deps.commits with
      | ok items => exact ⟨items, rfl⟩
      | unavailable message => simp [hcommits] at hmem
      | raised => simp [hcommits] at hmem
    have hrequests : Requests deps (Py.lower sha) items releases :=
      ⟨⟨sha, hmain, rfl⟩, hfull, hcommits, hreleases⟩
    refine (ready_iff_of_requests hfree.enabled hrequests).mpr ⟨?_, hnew, hfree.hub, hfree.idle⟩
    -- the window is cut where the commit is for the first time
    obtain ⟨before, after, hcut, hnotMem⟩ := List.eq_append_cons_of_mem hmem
    have hnewer : newerThan (window deps) target = before := by rw [hcut, newerThan_append hnotMem]
    rw [hnewer] at hnone
    have hchecks := hfree.checks
    rw [hnewer] at hchecks
    refine ⟨before, after, hcut, fun newer hmem => ?_,
      (cycleVerdict_true_iff hreleases).mpr hdeployable⟩
    exact (cycleVerdict_false_iff hreleases).mpr ⟨hchecks newer hmem, hnone newer hmem⟩

/-- A cycle goes back only if an older commit is the first. -/
theorem neverBackwards_of_noneOlder (hdeployed : deployedGitSha deps = some deployed)
    (h : NoneOlder config deps dg deployed) : NeverBackwards config deps dg deployed := by
  intro version target hready
  obtain ⟨hmem, hnew, hdeployable, hfree, hnone⟩ := ready_iff.mp ⟨version, hready⟩
  refine ⟨hdeployable, ?_⟩
  by_contra holder
  have hne : target ≠ deployed := by
    rintro rfl
    exact hnew hdeployed
  obtain ⟨newer, hnewer, hbefore⟩ := h target hmem hne holder hdeployable hfree
  exact hnone newer hnewer hbefore

theorem noneOlder_of_neverBackwards (hdeployed : deployedGitSha deps = some deployed)
    (h : NeverBackwards config deps dg deployed) : NoneOlder config deps dg deployed := by
  intro older hmem hne holder hdeployable hfree
  by_contra hnone
  have hnew : deployedGitSha deps ≠ some older := by
    rw [hdeployed]
    exact fun heq => hne (Option.some.inj heq).symm
  obtain ⟨version, hready⟩ := ready_iff.mpr ⟨hmem, hnew, hdeployable, hfree,
    fun newer hnewer hbefore => hnone ⟨newer, hnewer, hbefore⟩⟩
  exact holder (h version older hready).2

/-- **A cycle goes back exactly if an older commit is the first that can be deployed.** -/
theorem neverBackwards_iff (hdeployed : deployedGitSha deps = some deployed) :
    NeverBackwards config deps dg deployed ↔ NoneOlder config deps dg deployed :=
  ⟨noneOlder_of_neverBackwards hdeployed, neverBackwards_of_noneOlder hdeployed⟩

/-! ### Two cycles of a hub -/

def bSha : String := "bbbbbbbbbbbbbbbbbbbbbbbbbbbbbbbbbbbbbbbb"

def testRun (sha conclusion : String) : CheckRun where
  name := some "tests"
  status := some "completed"
  conclusion
  headSha := sha

def twoReleases : Releases :=
  [some (releaseOf "v2026.01.02-ccccccc" cSha [tarballOf "4.10.2", checksumOf "4.10.2"]),
    some (releaseOf "v2026.01.01-bbbbbbb" bSha [tarballOf "4.10.1", checksumOf "4.10.1"])]

/-- A hub that runs the newest of two released commits, where the checks of this one end so. -/
def newestDeployed (conclusion : String) : CycleDeps where
  mainSha := .ok cSha
  deploymentSha := cSha
  commits := .ok [(cSha, none), (bSha, none)]
  releases := .ok twoReleases
  checkRuns := fun sha => .ok [testRun sha (if sha = cSha then conclusion else "success")]
  fleetStatus := .raised
  staffInFlight := .ok 0
  now := 0

def hubConfig : CycleConfig where
  machineRole := "hub"
  hubUrl := none

theorem window_newestDeployed (conclusion : String) :
    window (newestDeployed conclusion) = [cSha, bSha] := by
  show (mainCommitLog _ (Py.lower cSha)).1.filterMap normalizeCommitSha = _
  decide +kernel

theorem deployedGitSha_newestDeployed (conclusion : String) :
    deployedGitSha (newestDeployed conclusion) = some cSha := by
  show deployedGitSha (newestDeployed "") = some cSha
  decide +kernel

/-- The deployed commit still passes: it is the first. -/
theorem neverBackwards_iff_one :
    NeverBackwards hubConfig (newestDeployed "success") asciiDigits cSha := by
  refine (neverBackwards_iff (deployedGitSha_newestDeployed _)).mpr ?_
  intro older hmem hne _ _ _
  rw [window_newestDeployed] at hmem ⊢
  obtain rfl : older = bSha := by
    rcases List.mem_cons.mp hmem with rfl | hmem
    · exact absurd rfl hne
    · exact List.mem_singleton.mp hmem
  refine ⟨cSha, by decide +kernel, ⟨_, rfl, by decide +kernel⟩, _, rfl, by decide +kernel⟩

/-- **The checks of the deployed commit were run again and failed: the cycle is ready with the
commit before it.** -/
theorem went_back :
    deployedGitSha (newestDeployed "failure") = some cSha ∧ cSha ∈
      window (newestDeployed "failure") ∧
      ¬ NeverBackwards hubConfig (newestDeployed "failure") asciiDigits cSha := by
  have hwindow := window_newestDeployed "failure"
  have hdeployed := deployedGitSha_newestDeployed "failure"
  have hnewer : newerThan (window (newestDeployed "failure")) bSha = [cSha] := by
    rw [hwindow]
    decide +kernel
  refine ⟨hdeployed, by simp [hwindow], fun h => ?_⟩
  obtain ⟨version, hready⟩ : ∃ version,
      evaluateCycle hubConfig (newestDeployed "failure") asciiDigits = .ready version bSha := by
    refine ready_iff.mpr ⟨by simp [hwindow], ?_, ?_, ?_, ?_⟩
    · rw [hdeployed]
      decide
    · exact ⟨⟨_, rfl, by decide +kernel⟩, _, rfl, by decide +kernel⟩
    · exact ⟨by decide +kernel, ⟨_, rfl, by decide +kernel⟩, fun _ _ => ⟨_, rfl⟩, rfl, rfl⟩
    · rw [hnewer]
      intro newer hmem hdeployable
      obtain rfl := List.mem_singleton.mp hmem
      obtain ⟨⟨runs, hruns, hgate⟩, -⟩ := hdeployable
      injection hruns with hruns
      subst hruns
      exact absurd hgate (by decide +kernel)
  have hmem := (h version bSha hready).2
  rw [hwindow] at hmem
  exact absurd hmem (by decide +kernel)

end Deploy
