import RunnerDashboard.Lib.PyStr

/-!
# Who may approve a proposal

The risk of an action decides whose approval it needs; the caller's scopes, or being the owner,
decide whether the caller can give it.  The role that proposed an action must be allowed to.

## Main definitions

* `Principal`, `isOwner`, `principalHasScope` — the caller.
* `RoleSpec`, `checkRolePermission` — whether a role may propose an action.
-/

namespace Approval

/-- The fields of a principal that the checks read. -/
structure Principal where
  id : String
  name : String
  roles : List String
  scopes : List String

/-- `ActionRiskClass`. -/
inductive Risk
  | read
  | low
  | medium
  | high
  | critical
  | ownerOnly
  deriving DecidableEq

def Risk.text : Risk → String
  | read => "read"
  | low => "low"
  | medium => "medium"
  | high => "high"
  | critical => "critical"
  | ownerOnly => "owner-only"

def ownerApprovedRisks : List Risk := [.high, .critical, .ownerOnly]

/-- What the checks read of a registered action. -/
structure ActionSpec where
  name : String
  requiredScope : String
  riskClass : Risk

/-- `SCOPE_PRESETS` and `SCOPE_ALIASES`. -/
structure ScopeTables where
  presets : String → List String
  aliases : String → Option String

def isOwner (p : Principal) : Bool :=
  let roles := p.roles.map Py.lower
  let scopes := p.scopes.map Py.lower
  "owner" ∈ roles || "admin" ∈ roles || "owner" ∈ scopes || "admin" ∈ scopes ||
    Py.lower p.id ∈ ["owner", "operator"] || Py.lower p.name ∈ ["owner", "operator"]

def scopeCovers (granted scope : String) : Bool :=
  granted = scope ||
    granted.toList.getLast? = some '*' && granted.toList.dropLast.isPrefixOf scope.toList

def principalHasScope (T : ScopeTables) (p : Principal) (requiredScope : String) : Bool :=
  let scopes := p.scopes ++ p.roles.flatMap T.presets
  "*" ∈ scopes || scopes.any fun granted => scopeCovers granted requiredScope ||
    (T.aliases requiredScope).any (scopeCovers granted)

/-! ### The verdict -/

inductive Code
  | expired
  | terminal
  | ownerRequired
  | scopeMissing
  | actionScopeMissing
  | roleNotPermitted
  deriving DecidableEq

/-- `ApprovalAuthority`: only a denial has a reason. -/
inductive Verdict
  | allowed
  | denied (code : Code) (reason : String)

/-- `PROPOSAL_STATES`. -/
inductive State
  | proposed
  | approved
  | denied
  | executing
  | done
  | failed
  | expired
  deriving DecidableEq

def State.text : State → String
  | proposed => "proposed"
  | approved => "approved"
  | denied => "denied"
  | executing => "executing"
  | done => "done"
  | failed => "failed"
  | expired => "expired"

def decidableStates : List State := [.proposed, .approved, .failed]

/-- What the evaluator reads of a proposal. -/
structure Reviewed where
  id : String
  action : String
  risk : Risk
  state : State

/-- The switches of `evaluate_approval_authority`. -/
structure Switches where
  includeState : Bool
  rolePermitted : Bool
  proposingRole : String
  ignoreExpiry : Bool

/-- `evaluate_approval_authority`; `expired` is `is_proposal_expired` at the time of the call. -/
def evaluateAuthority (T : ScopeTables) (action : Option ActionSpec) (prop : Reviewed)
    (expired : Bool) (approver : Principal) (w : Switches) : Verdict :=
  let risk := (action.map ActionSpec.riskClass).getD prop.risk
  let owner := isOwner approver
  if !w.ignoreExpiry && expired then
    .denied .expired s!"Proposal {prop.id} has expired (exceeded 24h TTL)"
  else if w.includeState && prop.state ∉ decidableStates then
    .denied .terminal s!"Proposal {prop.id} is '{prop.state.text}' and can no longer be approved"
  else if !w.rolePermitted then
    .denied .roleNotPermitted
      s!"Role '{w.proposingRole}' is not permitted to invoke '{prop.action}'"
  else if risk ∈ ownerApprovedRisks && !owner then
    .denied .ownerRequired
      s!"Action '{prop.action}' has risk '{risk.text}' and requires owner approval"
  else if !owner && !principalHasScope T approver "staff.approve" then
    .denied .scopeMissing s!"Principal '{approver.id}' lacks 'staff.approve' scope"
  else
    match action with
    | none => .allowed
    | some a =>
      if !owner && !principalHasScope T approver a.requiredScope then
        .denied .actionScopeMissing
          s!"Principal '{approver.id}' lacks '{a.requiredScope}' required by '{a.name}'"
      else .allowed

/-! ### The proposing role -/

/-- What the check reads of a role file. -/
structure RoleSpec where
  /-- `permissions.allowed_actions` and `permissions.actions`. -/
  allowedActions : List String
  actions : List String
  notifyUser : Bool
  openPr : Bool
  lease : Bool
  /-- `permissions.can_dispatch`, true if it is left out. -/
  canDispatch : Bool
  fleetActions : List String
  tools : List String
  /-- `chat.tools`. -/
  chatTools : List String
  reportsTo : String
  /-- `scope.proposals_per_run` is set. -/
  proposalsPerRun : Bool

def maintenanceActions : List String :=
  ["runner.start", "runner.stop", "runner.restart", "runner.scale", "fleet.node_up",
    "fleet.node_down", "queue.purge_stale", "run.cancel", "run.rerun", "queue.diagnose",
    "host.vhdx_compact", "dashboard.restart"]

def boardProposalRole : String := "board-secretary"

def codeRequestOwnerRole : String := "product-owner"

def RoleSpec.permits (spec : RoleSpec) (act : String) : Bool :=
  let allowed := if spec.allowedActions = [] then spec.actions else spec.allowedActions
  let patterns := allowed ++ spec.fleetActions
  let tools := spec.tools ++ spec.chatTools
  "*" ∈ patterns || act ∈ patterns ||
    patterns.any (fun pat => ".*".toList.isSuffixOf pat.toList && pat.toList.dropLast.isPrefixOf
      act.toList) ||
    act = "notify_user" && spec.notifyUser || act = "open_pr" && spec.openPr ||
    act = "claim_issue" && spec.lease || act ∈ tools ||
    act ∈ ["board.propose", "submit_proposal"] && ("submit_proposal" ∈ tools ||
      "board.propose" ∈ tools || spec.reportsTo = boardProposalRole || spec.proposalsPerRun) ||
    act ∈ ["staff.dispatch", "staff.review_pr"] && spec.canDispatch && allowed = []

def checkRolePermission (roles : String → Option RoleSpec) (act roleName : String) : Bool :=
  if roleName = "" ∨ Py.lower roleName ∈ ["barb", "user", "operator", "owner"] then true
  else if roleName = "maintenance" ∧
      (Py.startsWith act "maintenance." ∨ act ∈ maintenanceActions) then true
  else if roleName = boardProposalRole ∧
      act ∈ ["board.propose", "board.convene", "submit_proposal", "staff.dispatch"] then true
  else if roleName = codeRequestOwnerRole ∧ Py.startsWith act "code_request." then true
  else
    match roles roleName with
    | none => false
    | some spec => spec.permits act

end Approval
