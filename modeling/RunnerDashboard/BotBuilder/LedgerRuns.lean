import RunnerDashboard.BotBuilder.Versions
import RunnerDashboard.Lib.Path

/-!
# Runs of a ledger

Any sequence of calls on a new ledger.  What is material of a role is never changed without a new
approval, and a version is never changed at all, but for being enabled.

## Main results

* `approved_of_dispatch` — **what is dispatched was approved**, up to changes that are not material.
* `lineage_of_path` — the numbers, identifiers, hashes and sources of the versions.
* `extends_of_path` — **the history only grows.**
* `approve_iff_of_path` — a dry run is good for an approval until the next version.
-/

namespace BotBuilder

open Lts

/-! ### What is material -/

def material (r : BuilderRoleDefinition) :=
  (normWs r.persona, normWs r.instructions, r.skills, r.model, r.providers, r.capabilities,
    r.householdDataOptIn, r.privateContextRef, r.host, r.schedule, r.scheduleBounds, r.triggers)

variable {r r' : BuilderRoleDefinition}

theorem isMaterialChange_eq_false_iff :
    isMaterialChange r r' = false ↔ material r = material r' := by
  unfold isMaterialChange materialChangeFields material
  simp only [ne_eq, decide_not, Bool.not_eq_false', decide_eq_true_eq, List.map_eq_nil_iff,
    List.filter_eq_nil_iff, List.forall_mem_cons, Bool.not_eq_true, Bool.or_eq_false_iff,
    Prod.mk.injEq, List.not_mem_nil, false_imp_iff, implies_true, and_true, and_assoc]

def flagged (enabled : Bool) (r : BuilderRoleDefinition) : BuilderRoleDefinition :=
  { r with enabled }

@[simp] theorem flagged_flagged (b b' : Bool) : flagged b (flagged b' r) = flagged b r := rfl

def RoleVersion.flagged (enabled : Bool) (v : RoleVersion) : RoleVersion :=
  { v with role := BotBuilder.flagged enabled v.role }

/-! ### Calls -/

inductive Call
  | publish (policy : Policy) (role : BuilderRoleDefinition) (confirmed : Bool) (principal : String)
  | rollback (policy : Policy) (targetVersionId : String)
  | start (run : ℕ)
  | finish (session : ShadowDryRunSession)
  | approve (dryRun : DryRunRecord) (approver notes : String)
  | revoke

def Call.exec (sha256 : String → String) (l : Ledger) : Call → Ledger
  | .publish policy role confirmed principal =>
    (publishDraft sha256 policy role confirmed principal l).2
  | .rollback policy targetVersionId => (rollbackPublish policy targetVersionId l).2
  | .start run => (startDryRun run l).2
  | .finish session => (session.finish l).2.2
  | .approve dryRun approver notes => (approveActivation dryRun approver notes l).2
  | .revoke => l.revokeActivation

def Step (sha256 : String → String) (l : Ledger) (c : Call) (l' : Ledger) : Prop :=
  l' = c.exec sha256 l

/-- Where a new version is from: its content is hashed, or that of an old version. -/
inductive From (sha256 : String → String) (l : Ledger) :
    BuilderRoleDefinition → String → Option String → Prop
  | content (role : BuilderRoleDefinition) :
    From sha256 l role (computeContentHash sha256 role) none
  | rollback {id : String} {target : RoleVersion} (found : l.get id = some target) :
    From sha256 l target.role target.contentHash (some target.versionId)

/-- What a call can do. -/
inductive Change (sha256 : String → String) (l : Ledger) : Ledger → Prop
  | gated {gated : Bool} (h : l.activationGated = true → gated = true) :
    Change sha256 l { l with activationGated := gated }
  | revoked : Change sha256 l l.revokeActivation
  | approved {current : RoleVersion} {approval : ApprovalRecord}
    (hcurrent : l.current = some current) (hid : approval.versionId = current.versionId)
    (hhash : approval.contentHash = current.contentHash) (hrole : approval.roleId = l.roleId)
    (howner : approval.approver ∈ approvedActivationPrincipals) :
    Change sha256 l (activateCurrent approval current l)
  /-- A material change. -/
  | appended {role : BuilderRoleDefinition} {hash : String} {source : Option String}
    (content : From sha256 l role hash source) :
    Change sha256 l (l.append role hash source).2.revokeActivation
  /-- A change that keeps the approval. -/
  | kept {role : BuilderRoleDefinition} {hash : String} {source : Option String} {gated : Bool}
    {previous : RoleVersion} (content : From sha256 l role hash source)
    (h : l.activationGated = true → gated = true) (hcurrent : l.current = some previous)
    (hsame : material previous.role = material role) :
    Change sha256 l { (l.append role hash source).2 with activationGated := gated }

variable {sha256 : String → String} {l l' : Ledger} {c : Call} {calls : List Call}

theorem publishDraft_change (policy : Policy) (role : BuilderRoleDefinition) (confirmed : Bool)
    (principal : String) :
    Change sha256 l (publishDraft sha256 policy role confirmed principal l).2 := by
  unfold publishDraft
  cases policy.invalid role with
  | some reasons => exact .gated id
  | none =>
    dsimp only
    split_ifs with hself hconfirm hmaterial
    · exact .gated id
    · exact .gated id
    · exact .appended (.content _)
    · simp only [Option.all_eq_true, not_forall, Bool.not_eq_true] at hmaterial
      obtain ⟨previous, hcurrent, hsame⟩ := hmaterial
      exact .kept (.content (flagged l.isActive role)) (fun _ => rfl) hcurrent
        (isMaterialChange_eq_false_iff.mp hsame)

theorem rollbackPublish_change (policy : Policy) (id : String) :
    Change sha256 l (rollbackPublish policy id l).2 := by
  unfold rollbackPublish
  cases hfound : l.get id with
  | none => exact .gated fun h => h
  | some target =>
    dsimp only
    cases policy.invalid target.role with
    | some reasons => exact .gated fun h => h
    | none =>
      dsimp only
      split_ifs with hmaterial
      · exact .appended (.rollback hfound)
      · simp only [Option.all_eq_true, not_forall, Bool.not_eq_true] at hmaterial
        obtain ⟨previous, hcurrent, hsame⟩ := hmaterial
        exact .kept (.rollback hfound) (fun h => h) hcurrent
          (isMaterialChange_eq_false_iff.mp hsame)

theorem approveActivation_change (dryRun : DryRunRecord) (approver notes : String) :
    Change sha256 l (approveActivation dryRun approver notes l).2 := by
  unfold approveActivation
  cases hcurrent : l.current with
  | none => exact .gated id
  | some current =>
    dsimp only
    by_cases howner : Py.lower (Py.strip approver) ∈ approvedActivationPrincipals
    · rw [if_neg (not_not.mpr howner)]
      split_ifs
      · exact .gated id
      · exact .gated id
      · exact .approved hcurrent rfl rfl rfl howner
    · rw [if_pos howner]
      exact .gated id

/-- **What a call does.** -/
theorem Step.change (h : Step sha256 l c l') : Change sha256 l l' := by
  subst h
  cases c with
  | publish policy role confirmed principal =>
    exact publishDraft_change policy role confirmed principal
  | rollback policy id => exact rollbackPublish_change policy id
  | start run =>
    change Change sha256 l (startDryRun run l).2
    unfold startDryRun
    cases l.current with
    | none => exact .gated id
    | some current => exact .gated fun _ => rfl
  | finish session => exact .gated fun _ => rfl
  | approve dryRun approver notes => exact approveActivation_change dryRun approver notes
  | revoke => exact .revoked

/-! ### A bot that is approved -/

def helper : BuilderRoleDefinition where
  name := "helper"
  persona := "A helper."
  instructions := "Help."
  providers := ["grok"]
  host := "both"

/-- The digest of the one content that is hashed. -/
def helperSha256 (_ : String) : String :=
  "3aede6bd19c306e8385c90ecf28fe242b336696ce6b39d241e86dc7a0a96aed7"

/-- Every role is valid, and no change widens it. -/
def helperPolicy : Policy := ⟨fun _ => none, fun _ _ _ => []⟩

def published : Ledger :=
  Call.exec helperSha256 { roleId := "helper" } (.publish helperPolicy helper false "owner")

def firstVersion : RoleVersion :=
  ⟨"v1-3aede6bd19c3", "3aede6bd19c306e8385c90ecf28fe242b336696ce6b39d241e86dc7a0a96aed7", helper, 1,
    none⟩

def helperSession : ShadowDryRunSession := ⟨"helper", firstVersion, "dryrun-1-v1-3aede6bd19c3", [],
  false⟩

def approval : Call := .approve (helperSession.finish published).1 " Dieter " ""

theorem path_exec (sha256 : String → String) (l : Ledger) (calls : List Call) :
    Path (Step sha256) l calls (calls.foldl (Call.exec sha256) l) := by
  induction calls generalizing l with
  | nil => exact .nil l
  | cons c calls ih => exact .cons rfl (ih _)

/-! ### The history -/

/-- The versions of the first ledger are the first ones of the second, but for their flags. -/
def Extends (l l' : Ledger) : Prop :=
  l.history.map (RoleVersion.flagged false) <+: l'.history.map (RoleVersion.flagged false)

theorem history_of_current {v : RoleVersion} (h : l.current = some v) :
    l.history = l.history.dropLast ++ [v] :=
  (List.dropLast_append_getLast? v h).symm

/-- A change leaves the versions as they are, but for their flags, and adds at most one. -/
theorem Change.history (h : Change sha256 l l') : l'.roleId = l.roleId ∧
    ((l'.seq = l.seq ∧ l'.history.map (RoleVersion.flagged false) =
        l.history.map (RoleVersion.flagged false)) ∨
      ∃ role hash source, From sha256 l role hash source ∧ l'.seq = l.seq + 1 ∧
        l'.history = l.history ++ [(l.append role hash source).1]) := by
  cases h with
  | gated => exact ⟨rfl, .inl ⟨rfl, rfl⟩⟩
  | revoked => exact ⟨rfl, .inl ⟨rfl, rfl⟩⟩
  | approved hcurrent =>
    refine ⟨rfl, .inl ⟨rfl, ?_⟩⟩
    conv_rhs => rw [history_of_current hcurrent]
    simp [activateCurrent, RoleVersion.flagged, flagged]
  | appended content => exact ⟨rfl, .inr ⟨_, _, _, content, rfl, rfl⟩⟩
  | kept content => exact ⟨rfl, .inr ⟨_, _, _, content, rfl, rfl⟩⟩

theorem Extends.of_eq (h : l.history.map (RoleVersion.flagged false) =
    l'.history.map (RoleVersion.flagged false)) : Extends l l' :=
  ⟨[], by rw [List.append_nil, h]⟩

theorem Extends.exists_getElem? (h : Extends l l') {i : ℕ} {v : RoleVersion}
    (hv : l.history[i]? = some v) :
    ∃ w, l'.history[i]? = some w ∧ w.flagged false = v.flagged false := by
  obtain ⟨rest, hrest⟩ := h
  obtain ⟨hi, -⟩ := List.getElem?_eq_some_iff.mp hv
  have hsome := congrArg (fun vs => vs[i]?) hrest
  rw [List.getElem?_append_left (by simpa using hi)] at hsome
  simp only [List.getElem?_map, hv, Option.map_some] at hsome
  exact Option.map_eq_some_iff.mp hsome.symm

theorem Extends.step {l₀ : Ledger} (h : Extends l₀ l) (hstep : Step sha256 l c l') :
    Extends l₀ l' := by
  unfold Extends
  obtain ⟨-, ⟨-, hhistory⟩ | ⟨role, hash, source, -, -, hhistory⟩⟩ := hstep.change.history
  · rwa [hhistory]
  · rw [hhistory, List.map_append]
    exact h.trans (List.prefix_append _ _)

/-- **The history only grows**: no run changes or drops a version, but for its flag. -/
theorem extends_of_path (p : Path (Step sha256) l calls l') : Extends l l' :=
  p.invariant (fun _ _ _ hext hstep => hext.step hstep) (List.prefix_refl _)

theorem extends_published : Extends published
    ([.start 1, approval, .rollback helperPolicy "v1-3aede6bd19c3"].foldl
      (Call.exec helperSha256) published) :=
  extends_of_path (path_exec helperSha256 published _)

theorem roleId_of_path (p : Path (Step sha256) l calls l') : l'.roleId = l.roleId :=
  p.invariant (I := fun s => s.roleId = l.roleId)
    (fun _ _ _ hrole hstep => hstep.change.history.1.trans hrole) rfl

/-! ### What is dispatched -/

/-- The owner approved a version that is materially this role, and no activation was revoked
since. -/
def Approves (l : Ledger) (role : BuilderRoleDefinition) : Prop :=
  ∃ approval v, l.approvalRecord = some approval ∧ approval.roleId = l.roleId ∧
    approval.approver ∈ approvedActivationPrincipals ∧ v ∈ l.history ∧
    v.versionId = approval.versionId ∧ v.contentHash = approval.contentHash ∧
    material v.role = material role

/-- A published ledger is gated, and an active one approved. -/
structure Guarded (l : Ledger) : Prop where
  gated : l.history ≠ [] → l.activationGated = true
  approved : l.active = true → ∀ current, l.current = some current → Approves l current.role

theorem Guarded.change (h : Guarded l) (hchange : Change sha256 l l') : Guarded l' := by
  cases hchange with
  | gated hgated =>
    exact ⟨fun hne => hgated (h.gated hne), fun hactive current hcurrent =>
      h.approved hactive current hcurrent⟩
  | revoked => exact ⟨fun _ => rfl, fun hactive => nomatch hactive⟩
  | appended => exact ⟨fun _ => rfl, fun hactive => nomatch hactive⟩
  | @approved current approval hcurrent hid hhash hrole howner =>
    refine ⟨fun _ => rfl, fun _ v hv => ?_⟩
    obtain rfl : current.flagged true = v := by
      simpa [Ledger.current, activateCurrent, RoleVersion.flagged, flagged] using hv
    exact ⟨approval, _, rfl, hrole, howner, List.mem_append_right _ List.mem_cons_self, hid.symm,
      hhash.symm, rfl⟩
  | @kept role hash source gated previous content hgated hcurrent hsame =>
    have hne : l.history ≠ [] := by
      rintro hnil
      rw [Ledger.current, hnil] at hcurrent
      cases hcurrent
    refine ⟨fun _ => hgated (h.gated hne), fun hactive v hv => ?_⟩
    -- the approval of the previous version is one of the new version
    obtain ⟨approval, w, hsome, hrole, howner, hw, hid, hhash, hmaterial⟩ :=
      h.approved hactive previous hcurrent
    obtain rfl : (l.append role hash source).1 = v := by
      simpa [Ledger.current, Ledger.append] using hv
    exact ⟨approval, w, hsome, hrole, howner, List.mem_append_left _ hw, hid, hhash,
      hmaterial.trans hsame⟩

/-- **What is dispatched was approved**: by the owner, in a version with the same material content,
and it is enabled. -/
theorem approved_of_dispatch {roleId : String} {handle : TaskHandle}
    (p : Path (Step sha256) { roleId } calls l) (h : dispatchTask l = .ok handle) :
    Approves l handle.pinnedRole ∧ handle.pinnedRole.enabled = true ∧
      ∃ v, l.current = some v ∧
        handle = ⟨roleId, v.versionId, v.contentHash, v.role⟩ := by
  have hguarded : Guarded l := p.invariant (fun _ _ _ hs hstep => hs.change hstep.change)
    ⟨fun hne => absurd rfl hne, fun hactive => nomatch hactive⟩
  have hrole : l.roleId = roleId := roleId_of_path p
  unfold dispatchTask at h
  cases hcurrent : l.current with
  | none =>
    rw [hcurrent] at h
    cases h
  | some current =>
    rw [hcurrent] at h
    dsimp only at h
    split_ifs at h with hrefused
    obtain rfl := Except.ok.inj h
    -- there is a version, so the gate is on
    have hgated : l.activationGated = true := by
      refine hguarded.gated fun hnil => ?_
      rw [Ledger.current, hnil] at hcurrent
      cases hcurrent
    have hactive : l.isActive = true := by
      rw [← Bool.not_eq_false]
      exact fun hinactive => hrefused ⟨hgated, hinactive⟩
    unfold Ledger.isActive at hactive
    rw [hcurrent, Bool.and_eq_true, Option.any_some] at hactive
    exact ⟨hguarded.approved hactive.1 current hcurrent, hactive.2, current, rfl, by rw [hrole]⟩

/-- An approved bot is dispatched. -/
theorem approved_published : ∃ l handle, dispatchTask l = .ok handle ∧
    Approves l handle.pinnedRole ∧ handle.pinnedRole.enabled = true := by
  have h : dispatchTask ([Call.publish helperPolicy helper false "owner", .start 1, approval].foldl
      (Call.exec helperSha256) { roleId := "helper" }) = .ok ⟨"helper", firstVersion.versionId,
        firstVersion.contentHash, flagged true helper⟩ := by
    decide +kernel
  have happroved := approved_of_dispatch (path_exec helperSha256 { roleId := "helper" } _) h
  exact ⟨_, _, h, happroved.1, happroved.2.1⟩

/-! ### The lineage of a version -/

theorem versionIdOf_seq {n n' : ℕ} {hash hash' : String}
    (h : Ledger.versionIdOf n hash = Ledger.versionIdOf n' hash') : n = n' := by
  unfold Ledger.versionIdOf at h
  have hchars := List.cons.inj (String.ofList_injective h)
  have hparse : ∀ (m : ℕ) (rest : List Char),
      Json.parseInt (Json.renderInt m ++ '-' :: rest) = some ((m : Int), '-' :: rest) :=
    fun m rest => Json.parseInt_renderInt m (by simp [Json.Follow])
  have hsome := (hparse n _).symm.trans ((congrArg Json.parseInt hchars.2).trans (hparse n' _))
  exact Int.ofNat_inj.mp (Prod.mk.inj (Option.some.inj hsome)).1

/-- What a version says of itself. -/
structure Lineage (sha256 : String → String) (l : Ledger) : Prop where
  seq : l.seq = l.history.length + 1
  numbered : ∀ (i : ℕ) v, l.history[i]? = some v →
    v.sequence = i + 1 ∧ v.versionId = Ledger.versionIdOf (i + 1) v.contentHash
  hashed : ∀ v ∈ l.history, ∃ enabled,
    v.contentHash = computeContentHash sha256 (flagged enabled v.role)
  rolledBack : ∀ v ∈ l.history, ∀ id, v.rolledBackFrom = some id → ∃ w ∈ l.history,
    w.versionId = id ∧ w.sequence < v.sequence ∧ w.contentHash = v.contentHash ∧
      flagged false w.role = flagged false v.role

theorem flagged_eq {v v' : RoleVersion} (h : v.flagged false = v'.flagged false) :
    v.versionId = v'.versionId ∧ v.contentHash = v'.contentHash ∧ v.sequence = v'.sequence ∧
      v.rolledBackFrom = v'.rolledBackFrom ∧ ∀ b, flagged b v.role = flagged b v'.role := by
  unfold RoleVersion.flagged at h
  rw [RoleVersion.mk.injEq] at h
  obtain ⟨hid, hhash, hrole, hseq, hsource⟩ := h
  refine ⟨hid, hhash, hseq, hsource, fun b => ?_⟩
  simpa using congrArg (BotBuilder.flagged b) hrole

theorem Lineage.of_flagged (h : Lineage sha256 l) (hseq : l'.seq = l.seq)
    (hhistory : l'.history.map (RoleVersion.flagged false) =
      l.history.map (RoleVersion.flagged false)) : Lineage sha256 l' where
  seq := by
    have hlen := congrArg List.length hhistory
    rw [List.length_map, List.length_map] at hlen
    rw [hseq, h.seq, hlen]
  numbered := by
    intro i v hv
    obtain ⟨v', hv', heq⟩ := (Extends.of_eq hhistory).exists_getElem? hv
    obtain ⟨hid, hhash, hsequence, -, -⟩ := flagged_eq heq.symm
    rw [hid, hhash, hsequence]
    exact h.numbered i v' hv'
  hashed := by
    intro v hv
    obtain ⟨i, hi⟩ := List.mem_iff_getElem?.mp hv
    obtain ⟨v', hv', heq⟩ := (Extends.of_eq hhistory).exists_getElem? hi
    obtain ⟨-, hhash, -, -, hrole⟩ := flagged_eq heq.symm
    obtain ⟨enabled, hcontent⟩ := h.hashed v' (List.mem_of_getElem? hv')
    exact ⟨enabled, by rw [hhash, hrole, hcontent]⟩
  rolledBack := by
    intro v hv id hsource
    obtain ⟨i, hi⟩ := List.mem_iff_getElem?.mp hv
    obtain ⟨v', hv', heq⟩ := (Extends.of_eq hhistory).exists_getElem? hi
    obtain ⟨-, hhash, hsequence, hsource', hrole⟩ := flagged_eq heq.symm
    obtain ⟨w, hw, hid, hlt, hhash', hcontent⟩ :=
      h.rolledBack v' (List.mem_of_getElem? hv') id (hsource' ▸ hsource)
    obtain ⟨j, hj⟩ := List.mem_iff_getElem?.mp hw
    obtain ⟨w', hw', heq'⟩ := (Extends.of_eq hhistory.symm).exists_getElem? hj
    obtain ⟨hid', hhash'', hsequence', -, hrole'⟩ := flagged_eq heq'.symm
    refine ⟨w', List.mem_of_getElem? hw', hid'.symm.trans hid, ?_, ?_, ?_⟩
    · rwa [← hsequence', hsequence]
    · rw [← hhash'', hhash', hhash]
    · rw [← hrole', hcontent, hrole]

theorem mem_of_get {id : String} {v : RoleVersion} (h : l.get id = some v) :
    v ∈ l.history ∧ v.versionId = id :=
  ⟨List.mem_of_find?_eq_some h, by simpa using List.find?_some h⟩

theorem Lineage.sequence_lt (h : Lineage sha256 l) {v : RoleVersion} (hv : v ∈ l.history) :
    v.sequence < l.seq := by
  obtain ⟨i, hi⟩ := List.mem_iff_getElem?.mp hv
  obtain ⟨hlt, -⟩ := List.getElem?_eq_some_iff.mp hi
  rw [(h.numbered i v hi).1, h.seq]
  omega

theorem Lineage.append (h : Lineage sha256 l) {role : BuilderRoleDefinition} {hash : String}
    {source : Option String} (content : From sha256 l role hash source) (hseq : l'.seq = l.seq + 1)
    (hhistory : l'.history = l.history ++ [(l.append role hash source).1]) : Lineage sha256 l' where
  seq := by
    rw [hseq, hhistory, h.seq, List.length_append, List.length_singleton]
  numbered := by
    intro i v hv
    rw [hhistory, List.getElem?_append] at hv
    split_ifs at hv with hi
    · exact h.numbered i v hv
    · obtain ⟨hlast, rfl⟩ := List.getElem?_eq_some_iff.mp hv
      have hi' : l.seq = i + 1 := by
        rw [List.length_singleton] at hlast
        rw [h.seq]
        omega
      simp [Ledger.append, hi']
  hashed := by
    intro v hv
    rw [hhistory, List.mem_append, List.mem_singleton] at hv
    rcases hv with hv | rfl
    · exact h.hashed v hv
    · cases content with
      | content role => exact ⟨role.enabled, rfl⟩
      | rollback found =>
        obtain ⟨enabled, hcontent⟩ := h.hashed _ (mem_of_get found).1
        exact ⟨enabled, hcontent⟩
  rolledBack := by
    intro v hv id hsource
    rw [hhistory, List.mem_append, List.mem_singleton] at hv
    rcases hv with hv | rfl
    · obtain ⟨w, hw, hrest⟩ := h.rolledBack v hv id hsource
      exact ⟨w, by rw [hhistory]; exact List.mem_append_left _ hw, hrest⟩
    · cases content with
      | content role => cases hsource
      | @rollback _ target found =>
        have htarget := (mem_of_get found).1
        refine ⟨target, by rw [hhistory]; exact List.mem_append_left _ htarget,
          Option.some.inj hsource, h.sequence_lt htarget, rfl, rfl⟩

theorem Lineage.get_eq (h : Lineage sha256 l) {v : RoleVersion} (hv : v ∈ l.history) :
    l.get v.versionId = some v := by
  obtain ⟨w, hw⟩ : ∃ w, l.get v.versionId = some w :=
    Option.isSome_iff_exists.mp (List.find?_isSome.mpr ⟨v, hv, by simp⟩)
  obtain ⟨hmem, hid⟩ := mem_of_get hw
  obtain ⟨i, hi⟩ := List.mem_iff_getElem?.mp hv
  obtain ⟨j, hj⟩ := List.mem_iff_getElem?.mp hmem
  rw [(h.numbered i v hi).2, (h.numbered j w hj).2] at hid
  obtain rfl : j = i := by simpa using versionIdOf_seq hid
  rw [hw, ← hj, hi]

theorem lineage_new (sha256 : String → String) (roleId : String) : Lineage sha256 { roleId } where
  seq := rfl
  numbered := fun _ _ h => nomatch h
  hashed := fun _ h => nomatch h
  rolledBack := fun _ h => nomatch h

theorem Lineage.step (h : Lineage sha256 l) (hstep : Step sha256 l c l') : Lineage sha256 l' := by
  obtain ⟨-, ⟨hseq, hhistory⟩ | ⟨role, hash, source, content, hseq, hhistory⟩⟩ :=
    hstep.change.history
  · exact h.of_flagged hseq hhistory
  · exact h.append content hseq hhistory

/-- **The lineage of the versions.**  They are numbered, and found by their identifiers; their hash
is that of their content, but for the flag; and a rollback has the content of an earlier version. -/
theorem lineage_of_path {roleId : String} (p : Path (Step sha256) { roleId } calls l) :
    Lineage sha256 l ∧ ∀ v ∈ l.history, l.get v.versionId = some v := by
  have hlineage : Lineage sha256 l :=
    p.invariant (fun _ _ _ hs hstep => hs.step hstep) (lineage_new sha256 roleId)
  exact ⟨hlineage, fun v hv => hlineage.get_eq hv⟩

/-- A rollback has the content of the version that was approved. -/
theorem lineage_published : ∃ l, Lineage helperSha256 l ∧ l.history.length = 2 :=
  ⟨_, (lineage_of_path (path_exec helperSha256 { roleId := "helper" }
    [.publish helperPolicy helper false "owner", .start 1, approval,
      .rollback helperPolicy "v1-3aede6bd19c3"])).1, by decide +kernel⟩

/-! ### Dry runs -/

def ShadowDryRunSession.attempts (s : ShadowDryRunSession)
    (tries : List (MutatingSurface × String × String × Bool)) : ShadowDryRunSession :=
  tries.foldl (fun s t => (s.attemptMutation t.1 t.2.1 t.2.2.1 t.2.2.2).2) s

def ShadowDryRunSession.Of (roleId : String) (v : RoleVersion) (s : ShadowDryRunSession) : Prop :=
  s.roleId = roleId ∧ s.version = v ∧ ∀ a ∈ s.actions, a.refused = true

theorem ShadowDryRunSession.Of.attempts {roleId : String} {v : RoleVersion}
    {s : ShadowDryRunSession} (h : s.Of roleId v)
    (tries : List (MutatingSurface × String × String × Bool)) : (s.attempts tries).Of roleId v := by
  unfold ShadowDryRunSession.attempts
  induction tries generalizing s with
  | nil => exact h
  | cons t tries ih =>
    rw [List.foldl_cons]
    refine ih ?_
    unfold attemptMutation
    split_ifs
    · exact h
    · exact h
    all_goals
      refine ⟨h.1, h.2.1, fun a ha => ?_⟩
      rcases List.mem_append.mp ha with ha | ha
      · exact h.2.2 a ha
      · rw [List.mem_singleton.mp ha]

theorem startDryRun_ok {run : ℕ} {session : ShadowDryRunSession}
    (h : startDryRun run l = (.ok session, l')) :
    ∃ v, l.current = some v ∧ session.Of l.roleId v ∧ l' = l.enableActivationGate := by
  unfold startDryRun at h
  cases hcurrent : l.current with
  | none =>
    rw [hcurrent] at h
    cases h
  | some v =>
    rw [hcurrent] at h
    obtain ⟨hok, rfl⟩ := Prod.mk.inj h
    obtain rfl := Except.ok.inj hok
    exact ⟨v, rfl, ⟨rfl, rfl, fun _ ha => nomatch ha⟩, rfl⟩

theorem getElem?_of_current {v : RoleVersion} (h : l.current = some v) :
    l.history[l.history.length - 1]? = some v := by
  rw [← List.getLast?_eq_getElem?]
  exact h

theorem approve_finish_iff {v current : RoleVersion} {s : ShadowDryRunSession}
    (hs : s.Of l.roleId v) (hcurrent : l.current = some current) (approver notes : String) :
    (∃ approval, (approveActivation (s.finish l).1 approver notes l).1 = .ok approval) ↔
      Py.lower (Py.strip approver) ∈ approvedActivationPrincipals ∧
        v.versionId = current.versionId ∧ v.contentHash = current.contentHash := by
  obtain ⟨hrole, rfl, hrefused⟩ := hs
  have hany : (s.finish l).1.recordedActions.any (fun a => !a.refused) = false :=
    List.any_eq_false.mpr fun a ha => by simp [hrefused a ha]
  unfold approveActivation
  rw [hcurrent]
  dsimp only
  rw [hany]
  simp only [ShadowDryRunSession.finish, hrole, Bool.true_eq_false, ne_eq, not_true_eq_false,
    false_or, Bool.false_eq_true, or_false]
  split_ifs with howner hid hhash
  · simp [howner, hid, hhash]
  · simp [hhash]
  · simp [hid]
  · simp [howner]

/-- **A dry run is good for an approval by the owner until the next version.** -/
theorem approve_iff_of_path {roleId : String} {l₀ l₁ : Ledger} {run : ℕ} {calls' : List Call}
    {session : ShadowDryRunSession} (p : Path (Step sha256) { roleId } calls l₀)
    (hstart : startDryRun run l₀ = (.ok session, l₁)) (q : Path (Step sha256) l₁ calls' l)
    (tries : List (MutatingSurface × String × String × Bool)) (approver notes : String) :
    (∃ approval,
      (approveActivation ((session.attempts tries).finish l).1 approver notes l).1 = .ok approval) ↔
      Py.lower (Py.strip approver) ∈ approvedActivationPrincipals ∧
        l.history.length = l₀.history.length := by
  obtain ⟨v, hv, hsession, rfl⟩ := startDryRun_ok hstart
  have hpath : Path (Step sha256) { roleId } (calls ++ .start run :: calls') l :=
    p.append (.cons (congrArg Prod.snd hstart).symm q)
  have hlineage : Lineage sha256 l :=
    hpath.invariant (fun _ _ _ hs hstep => hs.step hstep) (lineage_new sha256 roleId)
  have hrole : l.roleId = l₀.roleId :=
    (roleId_of_path q : l.roleId = l₀.enableActivationGate.roleId)
  -- the version of the session is still there
  have hext : Extends l₀ l :=
    q.invariant (fun _ _ _ hs hstep => hs.step hstep) (List.prefix_refl _)
  have hlast := getElem?_of_current hv
  obtain ⟨w, hw, hvw⟩ := hext.exists_getElem? hlast
  obtain ⟨hid, hhash, -⟩ := flagged_eq hvw
  have hpos := (List.getElem?_eq_some_iff.mp hlast).1
  have hlen := (List.getElem?_eq_some_iff.mp hw).1
  obtain ⟨current, hcurrent⟩ : ∃ current, l.current = some current :=
    Option.isSome_iff_exists.mp (List.getLast?_isSome.mpr (List.ne_nil_of_mem
      (List.mem_of_getElem? hw)))
  have hcurrent' := getElem?_of_current hcurrent
  rw [← hrole] at hsession
  rw [approve_finish_iff (hsession.attempts tries) hcurrent, ← hid, ← hhash]
  refine and_congr_right fun _ => ⟨fun h => ?_, fun h => ?_⟩
  · have hnumber := h.1
    rw [(hlineage.numbered _ w hw).2, (hlineage.numbered _ current hcurrent').2] at hnumber
    have := versionIdOf_seq hnumber
    omega
  · rw [h, hw] at hcurrent'
    rw [Option.some.inj hcurrent']
    exact ⟨rfl, rfl⟩

/-- A session of the published role is good for the approval of the owner. -/
theorem approve_published : ∃ approved,
    (approveActivation ((helperSession.attempts [(.boardPost, "Say hello", "", false)]).finish
      published.enableActivationGate).1 " Dieter " "" published.enableActivationGate).1
      = .ok approved := by
  have hstart : startDryRun 1 published = (.ok helperSession, published.enableActivationGate) := by
    decide +kernel
  exact (approve_iff_of_path (path_exec helperSha256 { roleId := "helper" }
    [.publish helperPolicy helper false "owner"]) hstart (.nil _) _ _ _).mpr
      ⟨by decide +kernel, rfl⟩

end BotBuilder
