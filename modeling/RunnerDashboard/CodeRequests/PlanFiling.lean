import RunnerDashboard.Lib.PyStr
import RunnerDashboard.Lib.Regex
import RunnerDashboard.Lib.Waves

/-!
# Filing a plan

A plan is filed on GitHub as an epic and its children, each with a turnover comment and a link to
the epic.  The session of the request remembers what was created, so that a filing that was
interrupted goes on where it stopped.

## Main definitions

* `PlanObject`, `PlanDraft.objects` — what a plan has on GitHub, with the plan it was written from.
* `filePlanTasks`, `FilingTask.outcome` — the tasks of `file_plan`, and what each does.
* `PlanCall.begin` — the part of a call before it awaits.

## Main results

* `outcome_creates` — the task of a part creates it, unless it is there.
* `exists_task` — every part of a plan has its task.
-/

namespace PlanFiling

/-! ### Plans -/

/-- A character of the owner or the name of a repository in a reference. -/
def isRefChar (c : Char) : Bool := c.isAlphanum || c = '_' || c = '.' || c = '-'

def externalRef : Regex.Pattern :=
  .seqAll
    [.opt (.seqAll [.some_ isRefChar, .text "/".toList, .some_ isRefChar]), .text "#".toList,
      .some_ Char.isDigit, .atEnd]

structure PlanChild where
  key : String
  title : String
  dependencies : List String
  tier : String
  complexity : String
  taskClass : String
  deriving DecidableEq, Repr

/-- A reference to an issue that exists. -/
def isExternal (d : String) : Bool := (Regex.match? externalRef d.toList).isSome

def PlanChild.localDependencies (child : PlanChild) : List String :=
  child.dependencies.filter fun d => !isExternal d

def PlanChild.externalDependencies (child : PlanChild) : List String :=
  child.dependencies.filter isExternal

/-- `PlanDraft`; the title is that of the epic. -/
structure PlanDraft where
  epicTitle : String
  children : List PlanChild
  deriving DecidableEq, Repr

/-- The child with a key: the last one, as in a dictionary. -/
def byKey (children : List PlanChild) (key : String) : Option PlanChild :=
  children.reverse.find? fun child => child.key = key

/-- `compute_waves`, `none` where it raises. -/
def computeWaves (children : List PlanChild) : Option (List (List String)) :=
  Waves.layer (children.map PlanChild.key) fun key =>
    ((byKey children key).map PlanChild.localDependencies).getD []

def childLabels (child : PlanChild) : List String :=
  [child.tier, "complexity:" ++ child.complexity, child.taskClass, "code-request-plan"]

def epicLabels : List String := ["epic", "code-request-plan"]

/-! ### Progress -/

structure FilingProgress where
  epicNumber : Option ℕ
  epicUrl : Option String
  children : List (String × ℕ)
  childIds : List (String × ℕ)
  turnoversPosted : List String
  linked : List String

def FilingProgress.empty : FilingProgress := ⟨none, none, [], [], [], []⟩

/-- A part of a plan, by the key of the child. -/
inductive PlanPart
  | epic
  | child (key : String)
  | turnover (key : String)
  | link (key : String)
  deriving DecidableEq, Repr

def PlanDraft.parts (plan : PlanDraft) : List PlanPart :=
  .epic :: plan.children.flatMap fun child =>
    [.child child.key, .turnover child.key, .link child.key]

/-- What a plan has on GitHub: a part, written from a plan. -/
structure PlanObject where
  part : PlanPart
  plan : PlanDraft
  deriving DecidableEq, Repr

def PlanDraft.objects (plan : PlanDraft) : List PlanObject :=
  plan.parts.map fun part => ⟨part, plan⟩

/-- A write to GitHub: what it creates, where, and the title, the labels and the dependency
references of an issue. -/
structure GitHubWrite where
  target : PlanObject
  endpoint : String
  title : String
  labels : List String
  refs : List String

/-- What GitHub returns for an issue. -/
structure Created where
  number : ℕ
  id : ℕ
  htmlUrl : String

def FilingProgress.has (progress : FilingProgress) : PlanPart → Prop
  | .epic => progress.epicNumber.isSome = true
  | .child key => (progress.children.lookup key).isSome = true
  | .turnover key => key ∈ progress.turnoversPosted
  | .link key => key ∈ progress.linked

/-- `_dependency_refs`, `none` where a sibling has no number. -/
def dependencyRefs (child : PlanChild) (numbers : List (String × ℕ)) : Option (List String) := do
  let siblings ← child.localDependencies.mapM fun d => numbers.lookup d
  return siblings.map (fun n => "#" ++ toString n) ++ child.externalDependencies

/-! ### The tasks of a filing -/

/-- What `file_plan` does one after the other. -/
inductive FilingTask
  | searchDuplicates
  | createEpic
  | readBaseline
  | createChild (key : String)
  | postTurnover (key : String)
  | linkChild (key : String)
  /-- The children depend on each other in a cycle. -/
  | cycle
  deriving DecidableEq, Repr

/-- The tasks of `file_plan`. -/
def filePlanTasks (plan : PlanDraft) : List FilingTask :=
  [.searchDuplicates, .createEpic, .readBaseline] ++
    match computeWaves plan.children with
    | some waves => waves.flatten.flatMap fun key =>
        [.createChild key, .postTurnover key, .linkChild key]
    | none => [.cycle]

inductive TaskOutcome
  /-- It was done before. -/
  | skip
  /-- GitHub is read. -/
  | read
  | write (w : GitHubWrite) (record : Created → FilingProgress)
  /-- An exception. -/
  | fail

section Outcomes

variable (base : String) (plan : PlanDraft) (progress : FilingProgress)

def createEpic : TaskOutcome :=
  if progress.epicNumber.isSome then .skip
  else if (computeWaves plan.children).isNone then .fail
  else
    .write ⟨⟨.epic, plan⟩, base ++ "/issues", plan.epicTitle, epicLabels, []⟩ fun created =>
      { progress with epicNumber := some created.number, epicUrl := some created.htmlUrl }

def createChild (key : String) : TaskOutcome :=
  if (progress.children.lookup key).isSome then .skip
  else
    match byKey plan.children key with
    | none => .fail
    | some child =>
      match dependencyRefs child progress.children with
      | none => .fail
      | some refs =>
        .write ⟨⟨.child key, plan⟩, base ++ "/issues", child.title, childLabels child, refs⟩
          fun created =>
            { progress with
              children := progress.children ++ [(key, created.number)]
              childIds := progress.childIds ++ [(key, created.id)] }

def postTurnover (key : String) : TaskOutcome :=
  match progress.children.lookup key with
  | none => .fail
  | some number =>
    if key ∈ progress.turnoversPosted then .skip
    else
      .write
        ⟨⟨.turnover key, plan⟩, base ++ "/issues/" ++ toString number ++ "/comments", "", [], []⟩
        fun _ => { progress with turnoversPosted := progress.turnoversPosted ++ [key] }

def linkChild (key : String) : TaskOutcome :=
  if key ∈ progress.linked then .skip
  else
    match progress.epicNumber, progress.childIds.lookup key with
    | some epic, some _ =>
      .write ⟨⟨.link key, plan⟩, base ++ "/issues/" ++ toString epic ++ "/sub_issues", "", [], []⟩
        fun _ => { progress with linked := progress.linked ++ [key] }
    | _, _ => .fail

/-- What `file_plan` does at a task; `base` is the path of the repository. -/
def FilingTask.outcome : FilingTask → TaskOutcome
  | .searchDuplicates => if progress.epicNumber.isSome then .skip else .read
  | .createEpic => PlanFiling.createEpic base plan progress
  | .readBaseline => .read
  | .createChild key => PlanFiling.createChild base plan progress key
  | .postTurnover key => PlanFiling.postTurnover base plan progress key
  | .linkChild key => PlanFiling.linkChild base plan progress key
  | .cycle => .fail

def FilingTask.part : FilingTask → Option PlanPart
  | .createEpic => some .epic
  | .createChild key => some (.child key)
  | .postTurnover key => some (.turnover key)
  | .linkChild key => some (.link key)
  | _ => none

end Outcomes

/-! ### Sessions -/

inductive PlanningStatus
  | awaitingPlan
  | draft
  | filed
  | failed
  deriving DecidableEq, Repr

structure PlanningSession where
  status : PlanningStatus
  attempts : ℕ
  errors : List String
  draft : Option PlanDraft
  filing : FilingProgress
  approvedBy : Option String
  staffRole : Option String

def maxReprompts : ℕ := 2

inductive NextAction
  | draft
  | file
  | reprompt
  | fail
  deriving DecidableEq, Repr

/-- `receive_plan`, for an output that was validated; `none` where it raises. -/
def receivePlan (session : PlanningSession) (validated : Option PlanDraft × List String)
    (requiresApproval : Bool) : Option (PlanningSession × NextAction) :=
  if session.status ≠ .awaitingPlan then none
  else
    let updated := { session with errors := validated.2 }
    match validated.1 with
    | some plan =>
      some ({ updated with draft := some plan, status := .draft },
        if requiresApproval then .draft else .file)
    | none =>
      if updated.attempts ≤ maxReprompts then some (updated, .reprompt)
      else some ({ updated with status := .failed }, .fail)

/-- The planner profile, as far as a submission reads it. -/
structure PlannerProfile where
  staffRole : Option String
  requiresApproval : Bool

/-- The calls of the planner stage on one request: an approval, a submission whose output was
validated, and an edit whose plan was parsed and validated. -/
inductive PlanCall
  | approve (actor : String)
  | submit (validated : Option PlanDraft × List String) (profile : PlannerProfile)
  | edit (plan : Option PlanDraft) (errors : List String)

inductive CallState
  | ready
  /-- The planner is prompted again. -/
  | dispatching (session : PlanningSession) (profile : PlannerProfile)
  /-- The request is moved to `failed`. -/
  | rejecting (session : PlanningSession)
  /-- `file_plan` has some tasks left. -/
  | filing (session : PlanningSession) (plan : PlanDraft) (rest : List FilingTask)
  /-- The plan is filed, and the request is moved to `planned`. -/
  | transitioning (session : PlanningSession)
  | returned (session : PlanningSession)
  | raised

/-- The part of `_file` before it awaits. -/
def startFiling (session : PlanningSession) : CallState :=
  match session.draft with
  | some plan => .filing session plan (filePlanTasks plan)
  | none => .raised

def withRole (session : PlanningSession) (role : Option String) : PlanningSession :=
  if session.staffRole.getD "" = "" then { session with staffRole := role } else session

/-- The part of a call before it awaits: the session that is stored, and how far the call is. -/
def PlanCall.begin (stored : Option PlanningSession) :
    PlanCall → Option PlanningSession × CallState
  | .approve actor =>
    match stored with
    | none => (none, .raised)
    | some session =>
      if session.status ≠ .draft then (stored, .raised)
      else
        let session := { session with approvedBy := some actor }
        (some session, startFiling session)
  | .submit validated profile =>
    match stored with
    | none => (none, .raised)
    | some session =>
      let session := withRole session profile.staffRole
      match receivePlan session validated profile.requiresApproval with
      | none => (some session, .raised)
      | some (session, .draft) => (some session, .returned session)
      | some (session, .file) => (some session, startFiling session)
      | some (session, .reprompt) => (some session, .dispatching session profile)
      | some (session, .fail) => (some session, .rejecting session)
  | .edit plan errors =>
    match stored with
    | none => (none, .raised)
    | some session =>
      if session.status ≠ .draft then (stored, .raised)
      else
        match plan with
        | none => (stored, .raised)
        | some plan =>
          if errors ≠ [] then (stored, .raised)
          else
            let session := { session with draft := some plan, errors := [] }
            (some session, .returned session)

/-! ### What a task does -/

section Spec

variable {base : String} {plan : PlanDraft} {progress : FilingProgress} {task : FilingTask}
  {w : GitHubWrite} {record : Created → FilingProgress} {part : PlanPart}

theorem computeWaves_mem {waves : List (List String)} (h : computeWaves plan.children = some waves)
    {child : PlanChild} (hchild : child ∈ plan.children) : child.key ∈ waves.flatten := by
  refine (Waves.layers_of_layer h).mem_iff.mpr ⟨List.mem_map_of_mem hchild, ?_⟩
  exact Finset.notMem_empty _

theorem lookup_append_isSome {α : Type*} (l : List (String × α)) (key key' : String) (v : α) :
    ((l ++ [(key, v)]).lookup key').isSome = true ↔
      (l.lookup key').isSome = true ∨ key' = key := by
  rw [List.lookup_append]
  cases hl : l.lookup key' with
  | some x => simp
  | none =>
    by_cases h : key' = key
    · simp [h]
    · have hbeq : (key' == key) = false := beq_eq_false_iff_ne.mpr h
      simp [h, List.lookup_cons, hbeq]

/-- The outcome of the task of a part: the part is there, or it is written from the plan and
recorded, or an exception is raised. -/
def TaskOutcome.Creates (plan : PlanDraft) (progress : FilingProgress) (part : PlanPart) :
    TaskOutcome → Prop
  | .skip => progress.has part
  | .read => False
  | .write w record => w.target = ⟨part, plan⟩ ∧ ¬ progress.has part ∧
      ∀ created part', (record created).has part' ↔ progress.has part' ∨ part' = part
  | .fail => True

theorem createEpic_creates (base : String) (plan : PlanDraft) (progress : FilingProgress) :
    (createEpic base plan progress).Creates plan progress .epic := by
  unfold createEpic
  split_ifs with hepic hwaves
  · exact hepic
  · trivial
  · refine ⟨rfl, hepic, ?_⟩
    intro created object
    cases object <;> simp [FilingProgress.has]

theorem createChild_creates (base : String) (plan : PlanDraft) (progress : FilingProgress)
    (key : String) : (createChild base plan progress key).Creates plan progress (.child key) := by
  unfold createChild
  split_ifs with hchild
  · exact hchild
  cases hkey : byKey plan.children key with
  | none => trivial
  | some child =>
    dsimp only
    cases hrefs : dependencyRefs child progress.children with
    | none => trivial
    | some refs =>
      refine ⟨rfl, hchild, ?_⟩
      intro created object
      cases object with
      | child key' => simp only [FilingProgress.has, lookup_append_isSome, PlanPart.child.injEq]
      | epic => simp [FilingProgress.has]
      | turnover key' => simp [FilingProgress.has]
      | link key' => simp [FilingProgress.has]

theorem postTurnover_creates (base : String) (plan : PlanDraft) (progress : FilingProgress)
    (key : String) :
    (postTurnover base plan progress key).Creates plan progress (.turnover key) := by
  unfold postTurnover
  cases progress.children.lookup key with
  | none => trivial
  | some number =>
    dsimp only
    split_ifs with hposted
    · exact hposted
    · refine ⟨rfl, hposted, ?_⟩
      intro created object
      cases object <;> simp [FilingProgress.has]

theorem linkChild_creates (base : String) (plan : PlanDraft) (progress : FilingProgress)
    (key : String) : (linkChild base plan progress key).Creates plan progress (.link key) := by
  unfold linkChild
  split_ifs with hlinked
  · exact hlinked
  split
  · refine ⟨rfl, hlinked, ?_⟩
    intro created object
    cases object <;> simp [FilingProgress.has]
  · trivial

/-- **The task of a part** creates it, unless it is there. -/
theorem outcome_creates (h : task.part = some part) :
    (task.outcome base plan progress).Creates plan progress part := by
  cases task with
  | createEpic =>
    obtain rfl := Option.some.inj h
    exact createEpic_creates base plan progress
  | createChild key =>
    obtain rfl := Option.some.inj h
    exact createChild_creates base plan progress key
  | postTurnover key =>
    obtain rfl := Option.some.inj h
    exact postTurnover_creates base plan progress key
  | linkChild key =>
    obtain rfl := Option.some.inj h
    exact linkChild_creates base plan progress key
  | searchDuplicates => cases h
  | readBaseline => cases h
  | cycle => cases h

theorem part_of_write (h : task.outcome base plan progress = .write w record) :
    task.part = some w.target.part := by
  cases hpart : task.part with
  | some part =>
    have hcreates : (task.outcome base plan progress).Creates plan progress part :=
      outcome_creates hpart
    rw [h] at hcreates
    rw [hcreates.1]
  | none =>
    cases task with
    | searchDuplicates =>
      unfold FilingTask.outcome at h
      dsimp only at h
      split_ifs at h
    | readBaseline => cases h
    | cycle => cases h
    | createEpic => cases hpart
    | createChild key => cases hpart
    | postTurnover key => cases hpart
    | linkChild key => cases hpart

/-- **Every part of a plan has its task**, if the children are in waves. -/
theorem exists_task (hcycle : FilingTask.cycle ∉ filePlanTasks plan) (h : part ∈ plan.parts) :
    ∃ task ∈ filePlanTasks plan, task.part = some part := by
  unfold filePlanTasks at hcycle ⊢
  cases hwaves : computeWaves plan.children with
  | none =>
    rw [hwaves] at hcycle
    exact absurd (List.mem_append_right _ (List.mem_singleton_self _)) hcycle
  | some waves =>
    dsimp only
    rcases List.mem_cons.mp h with rfl | h
    · exact ⟨.createEpic, by simp, rfl⟩
    · obtain ⟨child, hchild, hpart⟩ := List.mem_flatMap.mp h
      have hkey := computeWaves_mem hwaves hchild
      have hmem : ∀ task ∈ [FilingTask.createChild child.key, .postTurnover child.key,
          .linkChild child.key], task ∈ [.searchDuplicates, .createEpic, .readBaseline] ++
            waves.flatten.flatMap fun key =>
              [FilingTask.createChild key, .postTurnover key, .linkChild key] := by
        intro task htask
        exact List.mem_append_right _ (List.mem_flatMap.mpr ⟨child.key, hkey, htask⟩)
      simp only [List.mem_cons, List.not_mem_nil, or_false] at hpart
      rcases hpart with rfl | rfl | rfl
      · exact ⟨_, hmem (.createChild child.key) (by simp), rfl⟩
      · exact ⟨_, hmem (.postTurnover child.key) (by simp), rfl⟩
      · exact ⟨_, hmem (.linkChild child.key) (by simp), rfl⟩

end Spec

end PlanFiling
