import RunnerDashboard.Lib.PyStr
import RunnerDashboard.Lib.Table

/-!
# The task inventory

The tasks of `staff/barb_task_inventory.py`, in a table of SQLite.  A call of `upsert_task` makes a
task or writes over it, and a call of `transition_handoff` moves it between the command line and
the desktop app.  A parameter that is not given stands for its default, and the defaults of three
of them are texts like any other.

## Main results

* `frame_over_iff` — **a row is kept exactly if it has the defaults.**
* `frames_iff` — the same for the calls of a run.
-/

namespace TaskInventory

open Sql

/-! ### Surfaces -/

def taskSurfaces : List String := ["headless_cli", "desktop_app", "hybrid_handoff"]

def handoffStates : List String :=
  ["none", "needs_desktop", "desktop_claimed", "resume_ready", "completed"]

def desktopKeywords : List String :=
  ["browser", "gui", "oauth", "sso", "sign-in", "login", "re-authenticate", "visual", "screenshot",
    "computer use", "desktop app", "interactive", "window", "click", "dialog", "2fa", "mfa"]

def cliKeywords : List String :=
  ["pytest", "ruff", "unit test", "refactor", "lint", "typecheck", "worktree", "git branch", "sql",
    "migration", "endpoint", "docstring"]

/-- The surface of `classify_task_surface`, which is all that is read of its answer. -/
def classifyTaskSurface (title description : String) (requiresBrowserAuth : Bool := false)
    (requiresGui : Bool := false) (requiresCodeEdit : Bool := true) : String :=
  let text := Py.lower (title ++ " " ++ description)
  let matchedDesktop := desktopKeywords.filter fun kw => Py.contains kw text
  let matchedCli := cliKeywords.filter fun kw => Py.contains kw text
  let needsDesktop := requiresBrowserAuth || requiresGui || !matchedDesktop.isEmpty
  let needsCli := requiresCodeEdit || !matchedCli.isEmpty
  if needsDesktop && needsCli then "hybrid_handoff"
  else if needsDesktop then "desktop_app"
  else "headless_cli"

/-! ### Rows and calls -/

/-- A row of `barb_task_inventory`, without its id. -/
structure Task where
  title : String
  scope : String
  status : String
  ownerPersona : String
  machine : String
  repo : String
  issueOrPr : String
  priority : String
  surface : String
  handoffState : String
  fencingEpoch : Int
  handoffRequest : String
  handoffResolution : String
  artifactRef : String
  nextAction : String
  updatedAt : String
  createdAt : String
  deriving DecidableEq, Repr

/-- The table `barb_task_inventory`. -/
abbrev Inventory := Table String Task

/-- A call of `upsert_task`: `none` is a parameter that is not given.  The id for a new task and the
time are what the call draws. -/
structure UpsertCall where
  taskId : Option String := none
  title : String
  scope : Option String := none
  status : Option String := none
  ownerPersona : Option String := none
  machine : Option String := none
  repo : Option String := none
  issueOrPr : Option String := none
  priority : Option String := none
  surface : Option String := none
  handoffState : Option String := none
  handoffRequest : Option String := none
  handoffResolution : Option String := none
  artifactRef : Option String := none
  nextAction : Option String := none
  freshId : String
  now : String

/-- A call of `transition_handoff`. -/
structure TransitionCall where
  taskId : String
  targetState : String
  actorPersona : String
  expectedEpoch : Option Int := none
  handoffRequest : Option String := none
  handoffResolution : Option String := none
  artifactRef : Option String := none
  nextAction : Option String := none
  now : String

/-- `a or b`. -/
def orText (a b : String) : String := if a = "" then b else a

/-- A text that has to be one of some. -/
def oneOf (allowed : List String) (value : Option String) : Option String :=
  value.filter (· ∈ allowed)

/-- `redact_sensitive_content`: nothing is done to an empty text. -/
def redactSensitiveContent (gate : String → String) (text : String) : String :=
  if text = "" then text else gate text

/-! ### `upsert_task` -/

def UpsertCall.id (c : UpsertCall) : String := orText (Py.strip (c.taskId.getD "")) c.freshId

section Upsert

variable (gate : String → String)

/-- The row that is inserted. -/
def UpsertCall.fresh (c : UpsertCall) : Task :=
  let title := redactSensitiveContent gate c.title
  let nextAction := redactSensitiveContent gate (c.nextAction.getD "")
  let handoffRequest := c.handoffRequest.map (redactSensitiveContent gate)
  let handoffResolution := c.handoffResolution.map (redactSensitiveContent gate)
  { title
    scope := c.scope.getD "barb:front-door"
    status := c.status.getD "pending"
    ownerPersona := c.ownerPersona.getD ""
    machine := c.machine.getD ""
    repo := c.repo.getD ""
    issueOrPr := c.issueOrPr.getD ""
    priority := c.priority.getD "P1"
    surface := (oneOf taskSurfaces c.surface).getD
      (classifyTaskSurface title (nextAction ++ " " ++ handoffRequest.getD ""))
    handoffState := (oneOf handoffStates c.handoffState).getD
      (if handoffRequest.getD "" ≠ "" then "needs_desktop" else "none")
    fencingEpoch := 1
    handoffRequest := handoffRequest.getD ""
    handoffResolution := handoffResolution.getD ""
    artifactRef := c.artifactRef.getD ""
    nextAction
    updatedAt := c.now
    createdAt := c.now }

/-- The row that is written over the current one. -/
def UpsertCall.over (c : UpsertCall) (cur : Task) : Task :=
  let hState := (oneOf handoffStates c.handoffState).getD cur.handoffState
  { cur with
    title := orText (redactSensitiveContent gate c.title) cur.title
    -- the defaults of these are not empty, so what is not given is written, too
    scope := orText (c.scope.getD "barb:front-door") cur.scope
    status := orText (c.status.getD "pending") cur.status
    ownerPersona := orText (c.ownerPersona.getD "") cur.ownerPersona
    machine := orText (c.machine.getD "") cur.machine
    repo := orText (c.repo.getD "") cur.repo
    issueOrPr := orText (c.issueOrPr.getD "") cur.issueOrPr
    priority := orText (c.priority.getD "P1") cur.priority
    surface := (oneOf taskSurfaces c.surface).getD cur.surface
    handoffState := hState
    fencingEpoch := cur.fencingEpoch + if hState ≠ cur.handoffState then 1 else 0
    handoffRequest :=
      (c.handoffRequest.map (redactSensitiveContent gate)).getD cur.handoffRequest
    handoffResolution :=
      (c.handoffResolution.map (redactSensitiveContent gate)).getD cur.handoffResolution
    artifactRef := c.artifactRef.getD cur.artifactRef
    nextAction := orText (redactSensitiveContent gate (c.nextAction.getD "")) cur.nextAction
    updatedAt := c.now }

def upsertTask (c : UpsertCall) (t : Inventory) : Inventory :=
  match t.get? c.id with
  | none => t.put c.id (c.fresh gate)
  | some cur => t.put c.id (c.over gate cur)

end Upsert

/-! ### `transition_handoff` -/

/-- What `transition_handoff` raises. -/
inductive TaskError
  | value (message : String)
  | key (message : String)
  deriving DecidableEq, Repr

def statusOf (targetState status : String) : String :=
  if targetState = "needs_desktop" then "blocked_desktop"
  else if targetState = "desktop_claimed" then "in_desktop"
  else if targetState = "resume_ready" then "in_progress"
  else if targetState = "completed" then "completed"
  else status

/-- The row that is written over the current one. -/
def TransitionCall.over (c : TransitionCall) (cur : Task) : Task :=
  { cur with
    handoffState := c.targetState
    status := statusOf c.targetState cur.status
    ownerPersona := orText c.actorPersona cur.ownerPersona
    fencingEpoch := cur.fencingEpoch + 1
    handoffRequest := c.handoffRequest.getD cur.handoffRequest
    handoffResolution := c.handoffResolution.getD cur.handoffResolution
    artifactRef := c.artifactRef.getD cur.artifactRef
    nextAction := c.nextAction.getD cur.nextAction
    updatedAt := c.now }

/-- `transition_handoff`: whether there was a transition, and the task. -/
def transitionHandoff (c : TransitionCall) (t : Inventory) :
    Except TaskError ((Bool × Task) × Inventory) :=
  if c.targetState ∉ handoffStates then
    .error (.value ("Invalid handoff target_state '" ++ c.targetState ++ "'. Expected one of (" ++
      ", ".intercalate (handoffStates.map fun s => "'" ++ s ++ "'") ++ ")."))
  else
    match t.get? c.taskId with
    | none => .error (.key ("Task '" ++ c.taskId ++ "' not found"))
    | some cur =>
      if c.expectedEpoch.any (· ≠ cur.fencingEpoch) then .ok ((false, cur), t)
      else .ok ((true, c.over cur), t.put c.taskId (c.over cur))

/-! ### Runs -/

/-- A call. -/
inductive Act
  | upsert (c : UpsertCall)
  | transition (c : TransitionCall)

/-- The table after a call; a call that raises changes nothing. -/
def Act.apply (gate : String → String) (t : Inventory) : Act → Inventory
  | .upsert c => upsertTask gate c t
  | .transition c =>
    match transitionHandoff c t with
    | .error _ => t
    | .ok (_, t') => t'

/-- The table after some calls. -/
def run (gate : String → String) (t : Inventory) (acts : List Act) : Inventory :=
  acts.foldl (Act.apply gate) t

/-- The row keeps what the call does not name. -/
structure Frame (c : UpsertCall) (r r' : Task) : Prop where
  scope : c.scope = none → r'.scope = r.scope
  status : c.status = none → r'.status = r.status
  ownerPersona : c.ownerPersona = none → r'.ownerPersona = r.ownerPersona
  machine : c.machine = none → r'.machine = r.machine
  repo : c.repo = none → r'.repo = r.repo
  issueOrPr : c.issueOrPr = none → r'.issueOrPr = r.issueOrPr
  priority : c.priority = none → r'.priority = r.priority
  surface : c.surface = none → r'.surface = r.surface
  handoffState : c.handoffState = none →
    r'.handoffState = r.handoffState ∧ r'.fencingEpoch = r.fencingEpoch
  handoffRequest : c.handoffRequest = none → r'.handoffRequest = r.handoffRequest
  handoffResolution : c.handoffResolution = none → r'.handoffResolution = r.handoffResolution
  artifactRef : c.artifactRef = none → r'.artifactRef = r.artifactRef
  nextAction : c.nextAction = none → r'.nextAction = r.nextAction

/-- The row has the defaults of the scope, the status and the priority that are not given. -/
structure Defaulted (c : UpsertCall) (r : Task) : Prop where
  scope : c.scope = none → r.scope = "barb:front-door"
  status : c.status = none → r.status = "pending"
  priority : c.priority = none → r.priority = "P1"

/-- Every call of `upsert_task` for a row that exists keeps what it does not name. -/
def Frames (gate : String → String) : Inventory → List Act → Prop
  | _, [] => True
  | t, .upsert c :: acts =>
    (∀ r, t.get? c.id = some r →
      ∃ r', (upsertTask gate c t).get? c.id = some r' ∧ Frame c r r') ∧
      Frames gate (upsertTask gate c t) acts
  | t, .transition c :: acts => Frames gate (Act.apply gate t (.transition c)) acts

/-- Every such call finds the defaults. -/
def DefaultedRun (gate : String → String) : Inventory → List Act → Prop
  | _, [] => True
  | t, .upsert c :: acts =>
    (∀ r, t.get? c.id = some r → Defaulted c r) ∧ DefaultedRun gate (upsertTask gate c t) acts
  | t, .transition c :: acts => DefaultedRun gate (Act.apply gate t (.transition c)) acts

/-! ### What an upsert keeps -/

variable {gate : String → String} {c : UpsertCall} {r cur : Task} {t : Inventory}

@[simp] theorem orText_empty (b : String) : orText "" b = b := by simp [orText]

@[simp] theorem redactSensitiveContent_empty : redactSensitiveContent gate "" = "" := rfl

@[simp] theorem oneOf_none (allowed : List String) : oneOf allowed none = none := rfl

theorem get?_upsertTask (h : t.get? c.id = some cur) :
    (upsertTask gate c t).get? c.id = some (c.over gate cur) := by
  simp [upsertTask, h]

/-- **A row is kept exactly if it has the defaults.** -/
theorem frame_over_iff : Frame c r (c.over gate r) ↔ Defaulted c r := by
  constructor
  · -- what is not given is written as the default
    intro h
    constructor
    · intro hscope
      simpa [UpsertCall.over, hscope, orText] using (h.scope hscope).symm
    · intro hstatus
      simpa [UpsertCall.over, hstatus, orText] using (h.status hstatus).symm
    · intro hpriority
      simpa [UpsertCall.over, hpriority, orText] using (h.priority hpriority).symm
  · intro h
    constructor
    · intro hscope
      simp [UpsertCall.over, hscope, h.scope hscope, orText]
    · intro hstatus
      simp [UpsertCall.over, hstatus, h.status hstatus, orText]
    all_goals intro hnone
    case priority => simp [UpsertCall.over, hnone, h.priority hnone, orText]
    -- the defaults of the others stand for the current value
    all_goals simp [UpsertCall.over, hnone]

/-- **The calls of a run keep what they do not name exactly if they find the defaults**, from
whatever table the run starts. -/
theorem frames_iff (gate : String → String) (t : Inventory) (acts : List Act) :
    Frames gate t acts ↔ DefaultedRun gate t acts := by
  induction acts generalizing t with
  | nil => simp [Frames, DefaultedRun]
  | cons a acts ih =>
    cases a with
    | transition c => simp only [Frames, DefaultedRun, ih]
    | upsert c =>
      simp only [Frames, DefaultedRun, ih]
      refine and_congr_left fun _ => forall_congr' fun r => forall_congr' fun hr => ?_
      simp [get?_upsertTask hr, frame_over_iff]

def created : Act := .upsert { taskId := some "t", title := "a", freshId := "f", now := "1" }

def completed : Act :=
  .transition { taskId := "t", targetState := "completed", actorPersona := "b", now := "2" }

def retitled : Act := .upsert { taskId := some "t", title := "c", freshId := "f", now := "3" }

/-- **A task that was completed is pending again after its title is set.** -/
theorem not_frames :
    ((run id .empty [created, completed]).get? "t").map Task.status = some "completed" ∧
      ((run id .empty [created, completed, retitled]).get? "t").map Task.status
        = some "pending" ∧
      ¬ Frames id .empty [created, completed, retitled] := by
  refine ⟨by decide +kernel, by decide +kernel, ?_⟩
  rintro ⟨-, hlast, -⟩
  obtain ⟨r', hr', hframe⟩ := hlast _ rfl
  obtain rfl := Option.some.inj (Eq.trans hr'.symm rfl)
  exact absurd (hframe.status rfl) (by decide +kernel)

end TaskInventory
