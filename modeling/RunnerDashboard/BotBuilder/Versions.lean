import Mathlib.Data.List.Dedup
import Mathlib.Data.List.Sort
import Mathlib.Data.String.Basic
import RunnerDashboard.Lib.Json
import RunnerDashboard.Lib.PyStr

/-!
# Versions of a bot

The versions of a bot are a history that only grows.  A bot is dispatched in its current version,
which the owner has to approve after a dry run.  A new version keeps the approval if it changes
nothing material.
-/

namespace BotBuilder

/-! ### Roles -/

structure TriggerEdge where
  targetRole : String
  event : String
  deriving DecidableEq, Repr

structure ScheduleBounds where
  runsPerDay : Int
  concurrency : Int := 1
  quietHoursUtc : Int × Int := (0, 6)
  deriving DecidableEq, Repr

structure BuilderRoleDefinition where
  schemaVersion : Int := 1
  name : String
  persona : String
  instructions : String
  skills : List String := []
  model : Option String := none
  providers : List String
  schedule : Option String := none
  triggers : List TriggerEdge := []
  host : String
  enabled : Bool := false
  capabilities : List String := []
  privateContextRef : Option String := none
  householdDataOptIn : Bool := false
  description : String := ""
  scheduleBounds : Option ScheduleBounds := none
  deriving DecidableEq, Repr

def jsonStrings (l : List String) : Json := .arr (l.map .str)

/-- A string or `None` in JSON. -/
def jsonOption : Option String → Json
  | none => .null
  | some s => .str s

def TriggerEdge.json (t : TriggerEdge) : Json :=
  .obj [("target_role", .str t.targetRole), ("event", .str t.event)]

def ScheduleBounds.json (b : ScheduleBounds) : Json :=
  .obj [("runs_per_day", .num b.runsPerDay), ("concurrency", .num b.concurrency),
    ("quiet_hours_utc", .arr [.num b.quietHoursUtc.1, .num b.quietHoursUtc.2])]

def canonicalRolePayload (role : BuilderRoleDefinition) : Json :=
  .obj ([("schema_version", .num role.schemaVersion),
    ("name", .str role.name),
    ("persona", .str role.persona),
    ("instructions", .str role.instructions),
    ("skills", jsonStrings role.skills),
    ("model", jsonOption role.model),
    ("providers", jsonStrings role.providers),
    ("schedule", jsonOption role.schedule),
    ("triggers", .arr (role.triggers.map TriggerEdge.json)),
    ("host", .str role.host),
    ("enabled", .bool role.enabled),
    ("capabilities", jsonStrings role.capabilities),
    ("private_context_ref", jsonOption role.privateContextRef),
    ("household_data_opt_in", .bool role.householdDataOptIn)] ++
    (if role.description = "" then [] else [("description", .str role.description)]) ++
    match role.scheduleBounds with
    | none => []
    | some b => [("schedule_bounds", b.json)])

/-- `compute_content_hash`; `sha256` gives the digest of a text. -/
def computeContentHash (sha256 : String → String) (role : BuilderRoleDefinition) : String :=
  sha256 (canonicalRolePayload role).sortKeys.dumpsCompact

def normWs (text : String) : String :=
  " ".intercalate ((Py.splitSpaces text.toList).map String.ofList)

def materialChangeFields (previous candidate : BuilderRoleDefinition) : List String :=
  let capsChanged := previous.capabilities ≠ candidate.capabilities ||
    previous.householdDataOptIn ≠ candidate.householdDataOptIn ||
    previous.privateContextRef ≠ candidate.privateContextRef
  let checks : List (String × Bool) :=
    [("persona", normWs previous.persona ≠ normWs candidate.persona),
      ("instructions", normWs previous.instructions ≠ normWs candidate.instructions),
      ("skills", previous.skills ≠ candidate.skills),
      ("model", previous.model ≠ candidate.model),
      ("providers", previous.providers ≠ candidate.providers),
      ("capabilities", capsChanged),
      ("host", previous.host ≠ candidate.host),
      ("schedule", previous.schedule ≠ candidate.schedule ||
        previous.scheduleBounds ≠ candidate.scheduleBounds),
      ("triggers", previous.triggers ≠ candidate.triggers)]
  (checks.filter Prod.snd).map Prod.fst

def isMaterialChange (previous candidate : BuilderRoleDefinition) : Bool :=
  materialChangeFields previous candidate ≠ []

/-! ### The ledger -/

structure RoleVersion where
  versionId : String
  contentHash : String
  role : BuilderRoleDefinition
  sequence : ℕ
  rolledBackFrom : Option String := none
  deriving DecidableEq, Repr

inductive MutatingSurface
  | boardPost
  | threadReply
  | prAction
  | contextWrite
  | dispatch
  deriving DecidableEq, Repr

def MutatingSurface.value : MutatingSurface → String
  | .boardPost => "board_post"
  | .threadReply => "thread_reply"
  | .prAction => "pr_action"
  | .contextWrite => "context_write"
  | .dispatch => "dispatch"

structure DryRunRecordedAction where
  surface : MutatingSurface
  summary : String
  target : String
  refused : Bool := true
  deriving DecidableEq, Repr

structure DryRunRecord where
  runId : String
  roleId : String
  versionId : String
  contentHash : String
  recordedActions : List DryRunRecordedAction
  completed : Bool
  deriving DecidableEq, Repr

structure ApprovalRecord where
  roleId : String
  versionId : String
  contentHash : String
  dryRunId : String
  approver : String
  notes : String
  deriving DecidableEq, Repr

/-- `RoleVersionLedger`; `seq` is the number of the next version. -/
structure Ledger where
  roleId : String
  history : List RoleVersion := []
  seq : ℕ := 1
  activationGated : Bool := false
  active : Bool := false
  approvalRecord : Option ApprovalRecord := none
  deriving DecidableEq, Repr

namespace Ledger

def current (l : Ledger) : Option RoleVersion := l.history.getLast?

def originalRole (l : Ledger) : Option BuilderRoleDefinition := l.history.head?.map (·.role)

def isActive (l : Ledger) : Bool := l.active && l.current.any fun v => v.role.enabled

def enableActivationGate (l : Ledger) : Ledger := { l with activationGated := true }

def revokeActivation (l : Ledger) : Ledger :=
  { l with activationGated := true, active := false, approvalRecord := none }

/-- `version_id` of a number and a hash. -/
def versionIdOf (seq : ℕ) (contentHash : String) : String :=
  String.ofList ('v' :: (Json.renderInt seq ++ '-' :: contentHash.toList.take 12))

/-- `_append`, with the new version. -/
def append (l : Ledger) (role : BuilderRoleDefinition) (contentHash : String)
    (rolledBackFrom : Option String) : RoleVersion × Ledger :=
  let version := ⟨versionIdOf l.seq contentHash, contentHash, role, l.seq, rolledBackFrom⟩
  (version, { l with history := l.history ++ [version], seq := l.seq + 1 })

def publish (sha256 : String → String) (l : Ledger) (role : BuilderRoleDefinition) :
    RoleVersion × Ledger :=
  l.append role (computeContentHash sha256 role) none

/-- `get`, `none` where it raises. -/
def get (l : Ledger) (versionId : String) : Option RoleVersion :=
  l.history.find? fun v => v.versionId = versionId

end Ledger

/-! ### The calls -/

/-- The exceptions, with their texts. -/
inductive Error
  | publish (text : String)
  | activation (text : String)
  | value (text : String)
  | key (versionId : String)
  | runtime (text : String)
  | refused (text : String)
  deriving DecidableEq, Repr

/-- What a publish or a rollback asks, when it is made: why a role is not valid, and what a change
of a role from the original and the previous one needs to be confirmed for. -/
structure Policy where
  invalid : BuilderRoleDefinition → Option String
  widens : BuilderRoleDefinition → BuilderRoleDefinition → BuilderRoleDefinition → List String

def requiresConfirmation (policy : Policy) (l : Ledger) (role : BuilderRoleDefinition) :
    List String :=
  match l.current with
  | none => []
  | some previous => policy.widens (l.originalRole.getD previous.role) previous.role role

/-- `publish_draft` up to its audit. -/
def publishDraft (sha256 : String → String) (policy : Policy) (role : BuilderRoleDefinition)
    (confirmed : Bool) (principal : String) (l : Ledger) : Except Error RoleVersion × Ledger :=
  match policy.invalid role with
  | some reasons =>
    (.error (.publish s!"publish blocked: validation failed ({reasons})"), l)
  | none =>
    let reasons := requiresConfirmation policy l role
    if reasons ≠ [] ∧ Py.strip principal = role.name then
      (.error (.publish "publish blocked: self-widening of role bounds is forbidden"), l)
    else if reasons ≠ [] ∧ confirmed = false then
      (.error (.publish ("publish blocked without confirmation: " ++
        ", ".intercalate (reasons.dedup.insertionSort (· ≤ ·)))), l)
    else
      let material := l.current.all fun previous => isMaterialChange previous.role role
      let published := l.publish sha256
        { role with enabled := if material then false else l.isActive }
      (.ok published.1,
        if material then published.2.revokeActivation else published.2.enableActivationGate)

/-- `rollback_publish` up to its audit. -/
def rollbackPublish (policy : Policy) (targetVersionId : String) (l : Ledger) :
    Except Error RoleVersion × Ledger :=
  match l.get targetVersionId with
  | none => (.error (.key targetVersionId), l)
  | some target =>
    match policy.invalid target.role with
    | some reasons => (.error (.publish
        s!"rollback blocked: target version fails current ceiling ({reasons})"), l)
    | none =>
      let appended := l.append target.role target.contentHash (some target.versionId)
      (.ok appended.1,
        if l.current.all fun previous => isMaterialChange previous.role target.role then
          appended.2.revokeActivation
        else appended.2)

/-- `activate_current`, where there is a current version. -/
def activateCurrent (approval : ApprovalRecord) (current : RoleVersion) (l : Ledger) : Ledger :=
  { l with
    activationGated := true
    active := true
    approvalRecord := some approval
    history := l.history.dropLast ++
      [{ current with role := { current.role with enabled := true } }] }

def approvedActivationPrincipals : List String := ["dieter"]

/-- `approve_activation` up to its audit. -/
def approveActivation (dryRun : DryRunRecord) (approver notes : String) (l : Ledger) :
    Except Error ApprovalRecord × Ledger :=
  match l.current with
  | none => (.error (.activation "activation refused: role has no published version"), l)
  | some current =>
    let normalized := Py.lower (Py.strip approver)
    if normalized ∉ approvedActivationPrincipals then
      (.error (.activation "activation refused: requires recorded approval by dieter"), l)
    else if dryRun.completed = false ∨ dryRun.roleId ≠ l.roleId ∨
        dryRun.versionId ≠ current.versionId then
      (.error (.activation "activation refused: dry-run record does not match current version"), l)
    else if dryRun.contentHash ≠ current.contentHash ∨
        dryRun.recordedActions.any (fun a => !a.refused) = true then
      (.error (.activation "activation refused: dry-run integrity check failed"), l)
    else
      let approval := ⟨l.roleId, current.versionId, current.contentHash, dryRun.runId, normalized,
        Py.strip notes⟩
      (.ok approval, activateCurrent approval current l)

structure ShadowDryRunSession where
  roleId : String
  version : RoleVersion
  runId : String
  actions : List DryRunRecordedAction := []
  completed : Bool := false
  deriving DecidableEq, Repr

/-- The start of a session, the `run`-th of the process. -/
def startDryRun (run : ℕ) (l : Ledger) : Except Error ShadowDryRunSession × Ledger :=
  match l.current with
  | none => (.error (.value "shadow dry run requires a published role version"), l)
  | some current =>
    (.ok { roleId := l.roleId, version := current, runId := s!"dryrun-{run}-{current.versionId}" },
      l.enableActivationGate)

/-- `attempt_mutation`: the mutation is recorded, and never made. -/
def ShadowDryRunSession.attemptMutation (surface : MutatingSurface) (summary target : String)
    (raiseOnRefuse : Bool) (s : ShadowDryRunSession) :
    Except Error DryRunRecordedAction × ShadowDryRunSession :=
  if s.completed then
    (.error (.runtime "shadow dry-run session is already finalized"), s)
  else if Py.strip summary = "" then
    (.error (.value "valid MutatingSurface and non-empty summary required"), s)
  else
    let recorded := { surface, summary := Py.strip summary, target := Py.strip target }
    (if raiseOnRefuse then
      .error (.refused s!"shadow mode refused mutating surface: {surface.value}")
      else .ok recorded,
      { s with actions := s.actions ++ [recorded] })

def ShadowDryRunSession.finish (s : ShadowDryRunSession) (l : Ledger) :
    DryRunRecord × ShadowDryRunSession × Ledger :=
  ({ runId := s.runId
     roleId := s.roleId
     versionId := s.version.versionId
     contentHash := s.version.contentHash
     recordedActions := s.actions
     completed := true },
    { s with completed := true }, l.enableActivationGate)

structure TaskHandle where
  roleId : String
  pinnedVersionId : String
  pinnedContentHash : String
  pinnedRole : BuilderRoleDefinition
  deriving DecidableEq, Repr

def dispatchTask (l : Ledger) : Except Error TaskHandle :=
  match l.current with
  | none => .error (.value "cannot dispatch a task against a role with no published version")
  | some current =>
    if l.activationGated = true ∧ l.isActive = false then
      .error (.activation "hub dispatch refused: bot version is not approved and active")
    else .ok ⟨l.roleId, current.versionId, current.contentHash, current.role⟩

end BotBuilder
