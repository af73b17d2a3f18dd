import RunnerDashboard.Lib.Attempt
import RunnerDashboard.Lib.Json
import RunnerDashboard.Lib.Table
import RunnerDashboard.Staff.Approval

/-!
# Executing a proposal

A proposal is checked, decided, run and verified.  Some of the refusals are recorded in its row, and
come before the check of the caller's authority.

## Main results

* `refused_of_denied` — **without authority no executor starts, and the row only changes if the
  proposal expires, or is refused for its action or its role**.
-/

namespace Approval

open Attempt

/-! ### The store -/

abbrev Params := List (String × Json)

/-- `ActionProposalRecord`, without the owner's deadline. -/
structure Proposal where
  id : String
  messageId : String
  threadId : String
  action : String
  params : Params
  risk : Risk
  state : State
  decidedBy : String
  decidedAt : Option String
  reason : String
  createdAt : String
  epoch : ℤ

def Proposal.reviewed (p : Proposal) : Reviewed := ⟨p.id, p.action, p.risk, p.state⟩

/-- `_VALID_PROPOSAL_TRANSITIONS`. -/
def validTransitions : State → List State
  | .proposed => [.approved, .denied, .expired, .executing, .failed]
  | .approved => [.executing, .failed, .expired]
  | .denied => []
  | .executing => [.done, .failed]
  | .done => []
  | .failed => [.executing, .approved, .denied]
  | .expired => []

structure AuditEntry where
  action : String
  target : String
  principal : String
  threadId : String
  previous : State
  reason : String

structure ResultMessage where
  threadId : String
  proposalId : String
  action : String
  success : Bool

/-- What a call can change. -/
structure World where
  proposals : Sql.Table String Proposal
  /-- The epochs of the threads. -/
  threads : Sql.Table String ℤ
  /-- The author of a message, if it is a role. -/
  roleAuthors : Sql.Table String String
  audit : List AuditEntry
  /-- The proposals whose executors were started. -/
  started : List String
  results : List ResultMessage

/-- The exceptions of a call. -/
inductive Raised
  | replay (message : String)
  | notApproved (message : String)
  | hashRequired (message : String)
  | hashMismatch (message : String)
  | hashUnavailable (message : String)
  | expired (message : String)
  | roleDenied (message : String)
  | permission (message : String)
  | value (message : String)
  | audit

structure ActionResult where
  success : Bool
  result : Option Json := none
  error : Option String := none
  failureClass : Option String := none
  verificationOk : Bool := true
  verificationMessage : String := ""

/-- `ActionContext`. -/
structure Context where
  threadId : String
  messageId : String
  proposalId : String
  proposingRole : String
  caller : Principal

/-- A registered action; an executor may change anything, and may raise. -/
structure ActionDefinition extends ActionSpec where
  executor : Params → Context → EStateM String World ActionResult
  verifier : Option (ActionResult → Params → Context → EStateM String World (Bool × String))

/-- What a call reads besides the store. -/
structure Env where
  /-- The clock at the start of the call and at the check of the caller, in microseconds. -/
  entry : ℤ
  check : ℤ
  now : String
  /-- `datetime.fromisoformat`; nothing for a text that it refuses. -/
  parseTime : String → Option ℤ
  /-- The hash of an action with its parameters; nothing if they cannot be serialised. -/
  paramsHash : String → Params → Option String
  redact : String → String
  registry : String → Option ActionDefinition
  roles : String → Option RoleSpec
  scopes : ScopeTables
  auditOk : AuditEntry → Bool
  /-- `str(v)` of a parameter that is no text. -/
  strOf : Json → String

variable (E : Env)

/-- `is_proposal_expired`: after 24 hours. -/
def isExpired (clock : ℤ) (prop : Proposal) : Bool :=
  match E.parseTime prop.createdAt with
  | none => false
  | some created => clock - created > 86400000000

/-- `record_audit` with `fail_closed`. -/
def recordAudit (entry : AuditEntry) : EStateM Raised World Unit := fun s =>
  if E.auditOk entry then .ok () { s with audit := s.audit ++ [entry] } else .error .audit s

/-- The row after a transition. -/
def Proposal.moved (prop : Proposal) (newState : State) (decidedBy reason : String) : Proposal :=
  { prop with
    state := newState
    decidedBy := if decidedBy = "" then prop.decidedBy else decidedBy
    decidedAt := if newState ∈ [.approved, .denied] then some E.now else prop.decidedAt
    reason := if E.redact reason = "" then prop.reason else E.redact reason }

def auditName : State → String
  | .approved => "proposal_approved"
  | .denied => "proposal_denied"
  | .executing => "proposal_execute"
  | _ => "proposal_create"

/-- `transition_proposal_state`. -/
def transitionState (id : String) (newState : State) (decidedBy reason : String) :
    EStateM Raised World Unit := fun s =>
  match s.proposals.get? id with
  | none => .error (.value s!"Proposal {id} not found") s
  | some prop =>
    if newState ∈ validTransitions prop.state then
      let row := prop.moved E newState decidedBy reason
      recordAudit E ⟨auditName newState, id, row.decidedBy, prop.threadId, prop.state, row.reason⟩
        { s with proposals := s.proposals.put id row }
    else
      .error (.value
        s!"Invalid proposal transition from '{prop.state.text}' to '{newState.text}'") s

/-- `decide_proposal` with an approval. -/
def decideApproved (id decidedBy : String) : EStateM Raised World Unit := fun s =>
  match s.proposals.get? id with
  | none => .error (.value s!"Proposal {id} not found") s
  | some prop =>
    if prop.state ∈ [.proposed, .failed] then
      match s.threads.get? prop.threadId with
      | some epoch =>
        if epoch = prop.epoch then approve prop s
        else .error (.value s!"Proposal {id} belongs to stale thread epoch {prop.epoch}") s
      | none => approve prop s
    else .error (.value s!"Cannot decide proposal in state '{prop.state.text}'") s
where
  approve (prop : Proposal) : EStateM Raised World Unit := fun s =>
    let row := { prop with
      state := .approved, decidedBy, decidedAt := some E.now, reason := E.redact "" }
    recordAudit E ⟨"proposal_approve", id, decidedBy, prop.threadId, prop.state, ""⟩
      { s with proposals := s.proposals.put id row }

/-! ### The checks -/

/-- `check_approval_policy`: the verdict on the caller, raised if it is a denial. -/
def checkApprovalPolicy (action : Option ActionSpec) (prop : Proposal) (approver : Principal) :
    Except Raised Unit :=
  match evaluateAuthority E.scopes action prop.reviewed (isExpired E E.check prop) approver
    ⟨false, true, "", false⟩ with
  | .allowed => .ok ()
  | .denied .expired reason => .error (.expired reason)
  | .denied _ reason => .error (.permission reason)

def verifyParamsHash (prop : Proposal) (reviewedHash : String) : Except Raised Unit :=
  if reviewedHash = "" then
    .error (.hashRequired s!"Proposal {prop.id}: params_hash is required to approve or execute")
  else
    match E.paramsHash prop.action prop.params with
    | none => .error (.hashUnavailable s!"Proposal {prop.id}: parameters cannot be hashed")
    | some hash =>
      if hash = reviewedHash then .ok ()
      else .error (.hashMismatch
        s!"Proposal {prop.id}: parameters changed since they were reviewed")

def checkEpoch (s : World) (prop : Proposal) : Except Raised Unit :=
  match s.threads.get? prop.threadId with
  | none => .ok ()
  | some epoch =>
    if prop.threadId = "" ∨ epoch = prop.epoch then .ok ()
    else .error (.replay s!"Proposal {prop.id} belongs to stale thread epoch {prop.epoch}")

/-- `str(v)`. -/
def Env.str (E : Env) : Json → String
  | .str s => s
  | v => E.strOf v

def proposingRoleOf (s : World) (prop : Proposal) : String :=
  let named :=
    match prop.params.lookup "proposing_role" with
    | none => ""
    | some v => if v.truthy then E.str v else ""
  if named ≠ "" then named
  else if prop.messageId = "" then ""
  else (s.roleAuthors.get? prop.messageId).getD ""

def formatCaller (p : Principal) : String :=
  if p.id ∈
    ["fleet-peer", "__loopback__", "loopback-dev", "test-orchestrator", "test-peer"] then p.id
  else s!"principal:{p.id}"

/-! ### The call -/

def caught {α : Type} (m : EStateM String World α) (failure : String → α) :
    EStateM Raised World α :=
  fun s =>
    match m s with
    | .ok a s' => .ok a s'
    | .error e s' => .ok (failure e) s'

/-- The executor and its verifier. -/
def runAction (action : ActionDefinition) (prop : Proposal) (ctx : Context) :
    EStateM Raised World ActionResult := do
  modify fun s => { s with started := s.started ++ [prop.id] }
  let res ← caught (action.executor prop.params ctx) fun e =>
    { success := false, error := some e, failureClass := some "execution_exception" }
  match action.verifier with
  | none => pure res
  | some verifier =>
    if res.success then
      let failed : String → String → String → ActionResult := fun error failureClass vmsg =>
        { res with
          success := false
          error := some error
          failureClass := some failureClass
          verificationOk := false
          verificationMessage := vmsg }
      caught (do
        let (ok, vmsg) ← verifier res prop.params ctx
        if ok then pure { res with verificationMessage := vmsg }
        else pure (failed s!"Verification mismatch: {vmsg}" "verification_mismatch" vmsg))
        fun e => failed s!"Verification error: {e}" "verification_error" ""
    else pure res

/-- The message for the thread, if that is still there. -/
def postResult (prop : Proposal) (success : Bool) : EStateM Raised World Unit := modify fun s =>
  if prop.threadId ≠ "" ∧ (s.threads.get? prop.threadId).isSome then
    { s with results := s.results ++ [⟨prop.threadId, prop.id, prop.action, success⟩] }
  else s

def approveAndRun (id : String) (prop : Proposal) (action : ActionDefinition) (role : String)
    (approver : Principal) : EStateM Raised World ActionResult := do
  if prop.state = .proposed then
    decideApproved E id (formatCaller approver)
  transitionState E id .executing (formatCaller approver) ""
  let res ← runAction action prop ⟨prop.threadId, prop.messageId, prop.id, role, approver⟩
  if res.success then
    transitionState E id .done "" ""
  else
    transitionState E id .failed "" (res.error.getD "Action failed")
  postResult prop res.success
  return res

/-- The call once the proposal may run: its action, its role and its caller. -/
def authoriseAndRun (id : String) (prop : Proposal) (approver : Principal) :
    EStateM Raised World ActionResult := fun s =>
  match E.registry prop.action with
  | none =>
    (do
      transitionState E id .failed "" s!"Unknown action '{prop.action}'"
      return {
        success := false
        error := some s!"Action '{prop.action}' not registered"
        failureClass := some "unknown_action" } : EStateM Raised World ActionResult) s
  | some action =>
    let role := proposingRoleOf E s prop
    if role ≠ "" ∧ checkRolePermission E.roles action.name role = false then
      (do
        transitionState E id .failed "" s!"Role '{role}' not permitted for action '{prop.action}'"
        throw (.roleDenied s!"Role '{role}' is not permitted to invoke '{prop.action}'") :
          EStateM Raised World ActionResult) s
    else
      match checkApprovalPolicy E (some action.toActionSpec) prop approver with
      | .error e => .error e s
      | .ok () => approveAndRun E id prop action role approver s

/-- The refusal of a proposal that is too old. -/
def refuseExpired (id : String) (prop : Proposal) : EStateM Raised World ActionResult := do
  if prop.state = .proposed then
    transitionState E id .expired "" "Expired after 24h"
  throw (.expired s!"Proposal {id} has expired (exceeded 24h TTL)")

def mayRun (prop : Proposal) (approve : Bool) : Bool :=
  prop.state = .approved || approve && prop.state = .proposed

def executeProposal (id : String) (approver : Principal) (approve : Bool) (reviewedHash : String) :
    EStateM Raised World ActionResult := fun s =>
  match s.proposals.get? id with
  | none => .error (.replay s!"Proposal {id} not found") s
  | some prop =>
    match checkEpoch s prop, verifyParamsHash E prop reviewedHash with
    | .error e, _ => .error e s
    | .ok (), .error e => .error e s
    | .ok (), .ok () =>
      if isExpired E E.entry prop then refuseExpired E id prop s
      else if prop.state ∈ [.denied, .expired, .done] then
        .error (.replay s!"Proposal {id} is in terminal state '{prop.state.text}'") s
      else if mayRun prop approve then authoriseAndRun E id prop approver s
      else .error (.notApproved
        s!"Proposal {id} is '{prop.state.text}'; only an approved proposal executes") s

/-! ### Without authority -/

/-- The action is registered, and the role that proposed it may propose it. -/
def ActionAllowed (s : World) (prop : Proposal) : Prop :=
  ∃ action, E.registry prop.action = some action ∧
    (proposingRoleOf E s prop = "" ∨
      checkRolePermission E.roles action.name (proposingRoleOf E s prop) = true)

/-- What a call leaves of a proposal that the caller may not approve. -/
structure Refused (s s' : World) (id : String) (prop : Proposal) : Prop where
  notStarted : s'.started = s.started
  decidedBy : ∃ row, s'.proposals.get? id = some row ∧ row.decidedBy = prop.decidedBy
  unchanged : isExpired E E.entry prop = false → ActionAllowed E s prop →
    s'.proposals.get? id = some prop
  /-- A proposal that is too old expires if it was not decided. -/
  expired : isExpired E E.entry prop = true → s'.proposals.get? id = some prop ∨
    prop.state = .proposed ∧
      s'.proposals.get? id = some (prop.moved E .expired "" "Expired after 24h")

variable {E} {s : World} {id : String} {prop : Proposal} {approver : Principal}

/-- A transition that names nobody leaves the row, or moves it and leaves its decider. -/
theorem stateOf_transitionState (hprop : s.proposals.get? id = some prop) (newState : State)
    (decidedBy reason : String) :
    (stateOf (transitionState E id newState decidedBy reason s)).started = s.started ∧
      ((stateOf (transitionState E id newState decidedBy reason s)).proposals.get? id = some prop ∨
        (stateOf (transitionState E id newState decidedBy reason s)).proposals.get? id =
          some (prop.moved E newState decidedBy reason)) := by
  unfold transitionState
  rw [hprop]
  dsimp only
  by_cases hvalid : newState ∈ validTransitions prop.state
  · rw [if_pos hvalid]
    unfold recordAudit
    split_ifs
    · exact ⟨rfl, .inr (Sql.Table.get?_put_self _ _ _)⟩
    · exact ⟨rfl, .inr (Sql.Table.get?_put_self _ _ _)⟩
  · rw [if_neg hvalid]
    exact ⟨rfl, .inl hprop⟩

theorem refused_self (hprop : s.proposals.get? id = some prop) : Refused E s s id prop :=
  ⟨rfl, ⟨prop, hprop, rfl⟩, fun _ _ => hprop, fun _ => .inl hprop⟩

theorem decidedBy_moved (newState : State) (reason : String) :
    (prop.moved E newState "" reason).decidedBy = prop.decidedBy := by
  unfold Proposal.moved
  dsimp only
  exact if_pos rfl

theorem refused_failed (hprop : s.proposals.get? id = some prop) (reason : String)
    (hexpired : isExpired E E.entry prop = false) (hnot : ¬ ActionAllowed E s prop) :
    Refused E s (stateOf (transitionState E id .failed "" reason s)) id prop := by
  obtain ⟨hstarted, hrow⟩ := stateOf_transitionState (E := E) hprop .failed "" reason
  refine ⟨hstarted, ?_, fun _ hallowed => absurd hallowed hnot, fun h => ?_⟩
  · rcases hrow with hrow | hrow
    · exact ⟨prop, hrow, rfl⟩
    · exact ⟨_, hrow, decidedBy_moved _ _⟩
  · rw [hexpired] at h
    cases h

theorem refused_refuseExpired (hprop : s.proposals.get? id = some prop)
    (hexpired : isExpired E E.entry prop = true) :
    Refused E s (stateOf (refuseExpired E id prop s)) id prop := by
  unfold refuseExpired
  by_cases hstate : prop.state = .proposed
  · rw [if_pos hstate, stateOf_bind fun _ _ => rfl]
    obtain ⟨hstarted, hrow⟩ :=
      stateOf_transitionState (E := E) hprop .expired "" "Expired after 24h"
    refine ⟨hstarted, ?_, fun h => ?_, fun _ => hrow.imp_right fun hrow => ⟨hstate, hrow⟩⟩
    · rcases hrow with hrow | hrow
      · exact ⟨prop, hrow, rfl⟩
      · exact ⟨_, hrow, decidedBy_moved _ _⟩
    · rw [hexpired] at h
      cases h
  · rw [if_neg hstate]
    exact refused_self hprop

theorem refused_authoriseAndRun (hprop : s.proposals.get? id = some prop)
    (hexpired : isExpired E E.entry prop = false) {e : Raised}
    (hdenied : checkApprovalPolicy E ((E.registry prop.action).map ActionDefinition.toActionSpec)
      prop approver = .error e) :
    Refused E s (stateOf (authoriseAndRun E id prop approver s)) id prop := by
  unfold authoriseAndRun
  cases haction : E.registry prop.action with
  | none =>
    dsimp only
    rw [stateOf_bind fun _ _ => rfl]
    refine refused_failed hprop _ hexpired ?_
    rintro ⟨action, hsome, -⟩
    rw [haction] at hsome
    cases hsome
  | some action =>
    rw [haction] at hdenied
    dsimp only
    by_cases hrole : proposingRoleOf E s prop ≠ "" ∧
        checkRolePermission E.roles action.name (proposingRoleOf E s prop) = false
    · rw [if_pos hrole, stateOf_bind fun _ _ => rfl]
      refine refused_failed hprop _ hexpired ?_
      rintro ⟨action', hsome, hallowed⟩
      obtain rfl := Option.some.inj (haction.symm.trans hsome)
      rcases hallowed with hempty | hpermitted
      · exact hrole.1 hempty
      · rw [hrole.2] at hpermitted
        cases hpermitted
    · rw [if_neg hrole, Option.map_some] at *
      rw [hdenied]
      exact refused_self hprop

/-- **Without authority no executor starts and nobody is recorded as the decider; the row only
changes if the proposal expires, or if its action is unknown or its role not permitted.** -/
theorem refused_of_denied (hprop : s.proposals.get? id = some prop) {e : Raised}
    (hdenied : checkApprovalPolicy E ((E.registry prop.action).map ActionDefinition.toActionSpec)
      prop approver = .error e) (approve : Bool) (reviewedHash : String) :
    Refused E s (stateOf (executeProposal E id approver approve reviewedHash s)) id prop := by
  unfold executeProposal
  rw [hprop]
  dsimp only
  split
  next => exact refused_self hprop
  next => exact refused_self hprop
  next =>
    split_ifs with hexpired
    · exact refused_refuseExpired hprop hexpired
    · exact refused_self hprop
    · exact refused_authoriseAndRun hprop (Bool.eq_false_iff.mpr hexpired) hdenied
    · exact refused_self hprop

/-! ### A proposal that is too old -/

def nobody : Principal := ⟨"x", "x", [], []⟩

def oldProposal : Proposal :=
  ⟨"p", "", "", "shell.exec", [], .high, .proposed, "", none, "", "", 0⟩

/-- A clock of the third day, and an empty registry. -/
def laterEnv : Env where
  entry := 200000000000
  check := 200000000000
  now := ""
  parseTime _ := some 0
  paramsHash _ _ := some "hash"
  redact text := text
  registry _ := none
  roles _ := none
  scopes := ⟨fun _ => [], fun _ => none⟩
  auditOk _ := true
  strOf _ := ""

def oldWorld : World := ⟨Sql.Table.empty.put "p" oldProposal, .empty, .empty, [], [], []⟩

theorem denied_nobody : ∃ e, checkApprovalPolicy laterEnv
    ((laterEnv.registry oldProposal.action).map ActionDefinition.toActionSpec) oldProposal nobody =
      .error e := ⟨_, rfl⟩

/-- Whoever asks for it, a call moves a proposal that is too old. -/
theorem not_unchanged : ¬ ∀ (E : Env) (s : World) (id : String) (prop : Proposal)
    (approver : Principal) (approve : Bool) (reviewedHash : String),
    s.proposals.get? id = some prop →
    (∃ e, checkApprovalPolicy E ((E.registry prop.action).map ActionDefinition.toActionSpec) prop
      approver = .error e) →
    (stateOf (executeProposal E id approver approve reviewedHash s)).proposals.get? id = some prop ∧
      (stateOf (executeProposal E id approver approve reviewedHash s)).started = s.started := by
  intro h
  have hrow := (h laterEnv oldWorld "p" oldProposal nobody false "hash" rfl denied_nobody).1
  have hstate := congrArg (Option.map Proposal.state) hrow
  exact absurd hstate (by decide)

/-- A clock of the first day, and a registry with the action of the proposal. -/
def sameDayEnv : Env :=
  { laterEnv with
    entry := 1000000
    check := 1000000
    registry := fun _ => some ⟨⟨"shell.exec", "ops", .high⟩, fun _ _ s => .error "failed" s, none⟩ }

/-- A proposal that is too old is refused, and one of the same day is left as it is. -/
theorem refused_nobody :
    Refused laterEnv oldWorld
      (stateOf (executeProposal laterEnv "p" nobody true "hash" oldWorld)) "p" oldProposal ∧
    (stateOf (executeProposal sameDayEnv "p" nobody true "hash" oldWorld)).proposals.get? "p" =
      some oldProposal := by
  obtain ⟨e, hdenied⟩ := denied_nobody
  have hsame : Refused sameDayEnv oldWorld
      (stateOf (executeProposal sameDayEnv "p" nobody true "hash" oldWorld)) "p" oldProposal :=
    refused_of_denied rfl (e := .permission _) rfl true "hash"
  exact ⟨refused_of_denied rfl hdenied true "hash", hsame.unchanged rfl ⟨_, rfl, .inl rfl⟩⟩

end Approval
