import RunnerDashboard.Lib.Value
import RunnerDashboard.Staff.PersonaLease

/-!
# The relay leader

The node-leader lease of `staff/barb_node_leader.py`: the leader and the standby of a
configuration share the scope `barb:node-leader`, and `ensure_relay_lease` tells a node
whether it owns the relay.  It first looks at the lease, in one transaction, and then takes
or renews it, in another.

## Main definitions

* `NodeLeader.validatedEntries` — the check of a configuration.
* `NodeLeader.ensureRelayLook`, `NodeLeader.ensureRelayAct` — the two transactions.

## Main results

* `NodeLeader.validatedEntries_ok_iff` — **which configurations load**.
* `NodeLeader.currentLeader_eq_some_iff` — the leader is the holder of the live lease.
-/

namespace NodeLeader

open Sql Continuity
open Py (Value pyInt)

/-! ### Configurations -/

/-- `_VALID_ROLES`. -/
inductive NodeRole
  | leader
  | standby
  | forwarder
  deriving DecidableEq, Repr

def NodeRole.ofText : String → Option NodeRole
  | "leader" => some .leader
  | "standby" => some .standby
  | "forwarder" => some .forwarder
  | _ => none

structure NodeRoleEntry where
  name : String
  role : NodeRole
  priority : Int := 0
  deriving DecidableEq, Repr

/-- `NodeRoleConfigError`, and what `int` raises. -/
inductive NodeRoleConfigError
  /-- The configuration needs a non-empty list. -/
  | empty
  /-- Every entry needs a name. -/
  | unnamed
  | unknownRole (name role : String)
  | duplicate (name : String)
  /-- Exactly one leader is needed. -/
  | leaders (found : ℕ)
  /-- At most one standby is allowed. -/
  | standbys (found : ℕ)
  /-- `ValueError`, `TypeError` or `OverflowError`: the priority is no number. -/
  | priority (name : String)
  deriving DecidableEq, Repr

/-- The built-in functions that the check uses. -/
structure Builtins where
  /-- `str(v)` of a value that is no text. -/
  str : Value → String
  /-- `int(s)` of a text; `none` where it raises. -/
  intOf : String → Option Int

section Fields

variable (B : Builtins)

/-- `str(v)`. -/
def Builtins.text : Value → String
  | .str s => s
  | v => B.str v

/-- `str(raw.get(key) or "").strip()`. -/
def Builtins.field (raw : Value) (key : String) : String :=
  Py.strip (((raw.get key).filter Value.truthy).elim "" B.text)

/-- `int(raw.get("priority") or 0)`. -/
def Builtins.priority (raw : Value) : Option Int :=
  ((raw.get "priority").filter Value.truthy).elim (some 0) (pyInt B.intOf)

/-- One round of the loop of `_validated_entries`. -/
def addEntry (entries : List NodeRoleEntry) (raw : Value) :
    Except NodeRoleConfigError (List NodeRoleEntry) :=
  if raw.isDict = false ∨ B.field raw "name" = "" then .error .unnamed
  else
    match NodeRole.ofText (B.field raw "role") with
    | none => .error (.unknownRole (B.field raw "name") (B.field raw "role"))
    | some role =>
      if B.field raw "name" ∈ entries.map NodeRoleEntry.name then
        .error (.duplicate (B.field raw "name"))
      else
        match B.priority raw with
        | none => .error (.priority (B.field raw "name"))
        | some priority => .ok (entries ++ [⟨B.field raw "name", role, priority⟩])

def withRole (entries : List NodeRoleEntry) (role : NodeRole) : ℕ :=
  entries.countP fun n => n.role = role

/-- The `nodes` of a file; none where they are no list. -/
def nodesOf (data : Value) : List Value :=
  match data.get "nodes" with
  | some (.arr nodes) => nodes
  | _ => []

def validatedEntries (data : Value) : Except NodeRoleConfigError (List NodeRoleEntry) := do
  if (nodesOf data).isEmpty then .error .empty
  let entries ← (nodesOf data).foldlM (addEntry B) []
  if withRole entries .leader ≠ 1 then .error (.leaders (withRole entries .leader))
  if 1 < withRole entries .standby then .error (.standbys (withRole entries .standby))
  return entries

end Fields

structure NodeLeaderConfig where
  nodes : List NodeRoleEntry
  nodup : (nodes.map NodeRoleEntry.name).Nodup
  named : ∀ n ∈ nodes, Py.strip n.name ≠ ""
  leader : withRole nodes .leader = 1
  standby : withRole nodes .standby ≤ 1

def NodeLeaderConfig.roleOf (config : NodeLeaderConfig) (name : String) : Option NodeRole :=
  (config.nodes.find? fun n => n.name = name).map NodeRoleEntry.role

/-! ### The lease -/

def nodeLeaderScope : String := "barb:node-leader"

/-- What a call raises. -/
inductive RelayError
  /-- `RelayLeadershipError`: the node is not in the configuration. -/
  | unknownNode (node : String)
  /-- `RelayLeadershipError`: the node may never own the lease. -/
  | mayNotOwn (node : String) (role : NodeRole)
  /-- `ValueError`: the persona role is no slug. -/
  | personaRole (role : String)
  | store (e : ContinuityError)
  /-- `KeyError`: an answer of the store has no such field. -/
  | key (field : String)
  deriving DecidableEq, Repr

/-- `_normalize_persona_role`; `_ROLE_SLUG_RE` is `_ROLE_RE`. -/
def normalizePersonaRole (role : String) : Except RelayError String :=
  if Persona.roleRe (Py.strip role) then
    .ok (if Py.strip role = "barb" then "rd-barb" else Py.strip role)
  else .error (.personaRole role)

/-- The scope of a persona role that is normal. -/
def scopeOf (norm : String) : String :=
  if norm = "rd-barb" then nodeLeaderScope else nodeLeaderScope ++ ":" ++ norm

def leaderScopeFor (role : String) : Except RelayError String :=
  (normalizePersonaRole role).map scopeOf

/-- `claim_for`, in the scope of the role. -/
def claimFor (node : String) (epoch : Int) (scope : String) : BarbClaim where
  scope := scope
  epoch := epoch
  callerId := node

/-- `current_leader`, where `target` is the scope. -/
def currentLeader (target : String) (now : Int) (db : Db) : Option LeaseView :=
  (listLeases now db).find? fun lease => lease.scope = target

/-- The arguments of `ensure_relay_lease` other than the store and the configuration. -/
structure RelayArgs where
  node : String
  role : String := "rd-barb"
  ttlSeconds : Int := 1800
  now : Option Int := none

/-- The instant an operation uses: the caller's, or that of the clock. -/
def RelayArgs.reading (a : RelayArgs) (clock : Int) : Int := a.now.getD clock

/-- The checkout of `assume_leadership`. -/
def RelayArgs.checkout (a : RelayArgs) (norm : String) (now : Int) : CheckoutArgs where
  scope := scopeOf norm
  holder := a.node
  machine := a.node
  persona := norm
  ttlSeconds := a.ttlSeconds
  now := now

/-- The heartbeat of `renew_leadership`. -/
def RelayArgs.heartbeat (a : RelayArgs) (norm : String) (epoch now : Int) : HeartbeatArgs where
  scope := scopeOf norm
  holder := a.node
  epoch := epoch
  ttlSeconds := a.ttlSeconds
  now := now

/-- What `ensure_relay_lease` returns. -/
inductive RelayReply
  /-- `active` is true. -/
  | active (role : NodeRole) (promoted : Bool) (lease : LeaseView) (claim : BarbClaim)
  /-- `active` is false: another node holds the lease. -/
  | standingBy (role : NodeRole) (leader : String) (epoch : Int)
  deriving DecidableEq, Repr

/-- What a node found. -/
inductive Seen
  /-- No node has the lease. -/
  | vacant
  /-- The node itself has it, at an epoch. -/
  | own (epoch : Int)
  deriving DecidableEq, Repr

/-- Where `ensure_relay_lease` is after it looked at the lease. -/
inductive Looked
  | done (reply : RelayReply)
  | next (role : NodeRole) (norm : String) (seen : Seen)
  deriving DecidableEq, Repr

/-- `ensure_relay_lease` up to `current_leader`, and what follows without another
operation. -/
def ensureRelayLook (config : NodeLeaderConfig) (a : RelayArgs) (now : Int) (db : Db) :
    Except RelayError Looked :=
  match config.roleOf a.node with
  | none => .error (.unknownNode a.node)
  | some .forwarder => .error (.mayNotOwn a.node .forwarder)
  | some role => do
    let norm ← normalizePersonaRole a.role
    match currentLeader (scopeOf norm) now db with
    | none => return .next role norm .vacant
    | some active =>
      if active.lease.holder = a.node then return .next role norm (.own active.lease.epoch)
      else return .done (.standingBy role active.lease.holder active.lease.epoch)

/-- The rest of `ensure_relay_lease`: the answer of the store is not looked at but for its
lease. -/
def ensureRelayAct (a : RelayArgs) (role : NodeRole) (norm : String) (seen : Seen) (now : Int)
    (db : Db) : Except RelayError RelayReply × Db :=
  match seen with
  | .vacant =>
    match checkoutLease (a.checkout norm now) db with
    | (.error e, db) => (.error (.store e), db)
    | (.ok (.acquired v), db) | (.ok (.conflict v), db) =>
      (.ok (.active role (role = .standby) v (claimFor a.node v.lease.epoch (scopeOf norm))), db)
  | .own epoch =>
    match heartbeatLease (a.heartbeat norm epoch now) db with
    | (.error e, db) => (.error (.store e), db)
    | (.ok .notFound, db) => (.error (.key "lease"), db)
    | (.ok (.renewed v), db) | (.ok (.refused _ v), db) =>
      (.ok (.active role false v (claimFor a.node epoch (scopeOf norm))), db)

/-! ### Valid configurations -/

section Entries

variable {B : Builtins} {entries entries' : List NodeRoleEntry} {raw data : Value}
  {raws : List Value}

/-- The entry of a mapping of the file, if its role is known and its priority is a number. -/
def Builtins.entry? (B : Builtins) (raw : Value) : Option NodeRoleEntry :=
  if raw.isDict then
    (NodeRole.ofText (B.field raw "role")).bind fun role =>
      (B.priority raw).map fun priority => ⟨B.field raw "name", role, priority⟩
  else none

theorem addEntry_ok_iff : addEntry B entries raw = .ok entries' ↔
    ∃ n, B.entry? raw = some n ∧ n.name ≠ "" ∧ n.name ∉ entries.map NodeRoleEntry.name ∧
      entries' = entries ++ [n] := by
  unfold addEntry Builtins.entry?
  cases raw.isDict with
  | false => simp
  | true =>
    simp only [Bool.true_eq_false, false_or, if_true]
    cases NodeRole.ofText (B.field raw "role") with
    | none =>
      refine iff_of_false (fun h => ?_) (by simp)
      split at h
      · cases h
      · cases h
    | some role =>
      cases B.priority raw with
      | none =>
        -- the name is looked at first, and then the priority is no number
        refine iff_of_false (fun h => ?_) (by simp)
        dsimp only at h
        split_ifs at h
      | some priority =>
        simp only [Option.bind_some, Option.map_some, Option.some.injEq, exists_eq_left']
        split
        · next hname => exact iff_of_false nofun fun h => h.1 hname
        · next hname =>
          split
          · next hold => exact iff_of_false nofun fun h => h.2.1 hold
          · next hnew =>
            rw [Except.ok.injEq]
            exact ⟨fun h => ⟨hname, hnew, h.symm⟩, fun h => h.2.2.symm⟩

theorem foldlM_addEntry_ok_iff : raws.foldlM (addEntry B) entries = .ok entries' ↔
    ∃ new, raws.mapM B.entry? = some new ∧ entries' = entries ++ new ∧
      (∀ n ∈ new, n.name ≠ "" ∧ n.name ∉ entries.map NodeRoleEntry.name) ∧
        (new.map NodeRoleEntry.name).Nodup := by
  induction raws generalizing entries with
  | nil =>
    constructor
    · intro h
      obtain rfl := Except.ok.inj h
      exact ⟨[], rfl, by simp, by simp, by simp⟩
    · rintro ⟨new, hraws, rfl, -⟩
      obtain rfl := Option.some.inj (List.mapM_nil.symm.trans hraws)
      rw [List.append_nil]
      rfl
  | cons raw raws ih =>
    rw [List.foldlM_cons, bind_eq_ok_iff]
    constructor
    · rintro ⟨entries₁, hadd, hfold⟩
      obtain ⟨n, hn, hname, hnew, rfl⟩ := addEntry_ok_iff.mp hadd
      obtain ⟨new, hraws, rfl, hnews, hnodup⟩ := ih.mp hfold
      refine ⟨n :: new, by simp [hn, hraws], by simp, ?_, ?_⟩
      · refine List.forall_mem_cons.mpr ⟨⟨hname, hnew⟩, fun m hm => ⟨(hnews m hm).1, fun h => ?_⟩⟩
        exact (hnews m hm).2 (by rw [List.map_append]; exact List.mem_append_left _ h)
      · rw [List.map_cons, List.nodup_cons]
        refine ⟨fun h => ?_, hnodup⟩
        obtain ⟨m, hm, heq⟩ := List.mem_map.mp h
        exact (hnews m hm).2 (by simp [heq])
    · rintro ⟨new, hraws, rfl, hnews, hnodup⟩
      rw [List.mapM_cons] at hraws
      obtain ⟨n, hn, hraws⟩ := Option.bind_eq_some_iff.mp hraws
      obtain ⟨new, hnew, hraws⟩ := Option.bind_eq_some_iff.mp hraws
      obtain rfl := Option.some.inj hraws
      rw [List.map_cons, List.nodup_cons] at hnodup
      obtain ⟨⟨hname, hold⟩, hrest⟩ := List.forall_mem_cons.mp hnews
      refine ⟨_, addEntry_ok_iff.mpr ⟨n, hn, hname, hold, rfl⟩,
        ih.mpr ⟨new, hnew, by simp, fun m hm => ⟨(hrest m hm).1, fun h => ?_⟩, hnodup.2⟩⟩
      rw [List.map_append, List.mem_append] at h
      rcases h with h | h
      · exact (hrest m hm).2 h
      · exact hnodup.1 (List.mem_map.mpr ⟨m, hm, List.mem_singleton.mp h⟩)

/-- **What a configuration is that loads**: a list of mappings with known roles, priorities that are
numbers and different names that are not blank, of which one is the leader and at most one is a
standby. -/
theorem validatedEntries_ok_iff : validatedEntries B data = .ok entries ↔
    (nodesOf data).mapM B.entry? = some entries ∧ (∀ n ∈ entries, n.name ≠ "") ∧
      (entries.map NodeRoleEntry.name).Nodup ∧ withRole entries .leader = 1 ∧
        withRole entries .standby ≤ 1 := by
  unfold validatedEntries
  constructor
  · intro h
    split at h
    · cases h
    · obtain ⟨entries', hfold, h⟩ := bind_eq_ok_iff.mp h
      dsimp only at h
      split at h
      · cases h
      · next hleader =>
        split at h
        · cases h
        · next hstandby =>
          obtain rfl := Except.ok.inj h
          obtain ⟨new, hraws, rfl, hnames, hnodup⟩ := foldlM_addEntry_ok_iff.mp hfold
          exact ⟨hraws, fun n hn => (hnames n hn).1, hnodup, not_not.mp hleader,
            not_lt.mp hstandby⟩
  · rintro ⟨hraws, hnames, hnodup, hleader, hstandby⟩
    have hne : ¬(nodesOf data).isEmpty = true := by
      intro hnil
      rw [List.isEmpty_iff.mp hnil] at hraws
      obtain rfl := Option.some.inj (List.mapM_nil.symm.trans hraws)
      cases hleader
    have hfold : (nodesOf data).foldlM (addEntry B) [] = .ok entries :=
      foldlM_addEntry_ok_iff.mpr ⟨entries, hraws, rfl, fun n hn => ⟨hnames n hn, by simp⟩, hnodup⟩
    rw [if_neg hne]
    refine bind_eq_ok_iff.mpr ⟨entries, hfold, ?_⟩
    dsimp only
    rw [if_neg (not_not.mpr hleader), if_neg (not_lt.mpr hstandby)]
    rfl

end Entries

/-! ### What a node sees -/

theorem normalizeScope_scopeOf {role norm : String} (h : normalizePersonaRole role = .ok norm) :
    normalizeScope (scopeOf norm) = .ok (scopeOf norm) := by
  unfold scopeOf
  split
  · rfl
  · next hne =>
    unfold normalizePersonaRole at h
    split at h
    · next hslug =>
      have hnorm : norm = Py.strip role := by
        have := Except.ok.inj h
        split at this
        · exact absurd this.symm hne
        · exact this.symm
      subst hnorm
      have hchars := Persona.not_space_of_roleRe hslug
      have hnil : (Py.strip role).toList ≠ [] := by
        intro hnil
        rw [String.toList_inj.mp (hnil.trans (show [] = "".toList from rfl))] at hslug
        cases hslug
      have hscope := Py.strip_append (p := nodeLeaderScope ++ ":") rfl (by decide) hnil hchars
      have hstart : properPrefix (nodeLeaderScope ++ ":" ++ Py.strip role) "barb:" = true := by
        simp only [properPrefix, decide_eq_true_eq, Py.startsWith, String.toList_append,
          String.length_append]
        refine ⟨by simp [nodeLeaderScope], ?_⟩
        show 5 < 16 + 1 + (Py.strip role).length
        omega
      simp [normalizeScope, hscope, hstart]
    · cases h

theorem mem_listLeases_iff {now : Int} {db : Db} {v : LeaseView} :
    v ∈ listLeases now db ↔ ∃ r, db.lease v.scope = some r ∧ r.live (seconds now) = true ∧
      v = rowToLease v.scope r (seconds now) := by
  simp only [listLeases, List.mem_filter, List.mem_map, List.mem_mergeSort]
  constructor
  · rintro ⟨⟨⟨scope, r⟩, hmem, rfl⟩, hactive⟩
    refine ⟨r, Table.get?_eq_some_iff.mpr hmem, ?_, rfl⟩
    simp only [rowToLease, decide_eq_true_eq] at hactive
    exact Lease.live_iff.mpr ⟨hactive.2, hactive.1⟩
  · rintro ⟨r, hrow, hlive, hv⟩
    refine ⟨⟨(v.scope, r), Table.get?_eq_some_iff.mp hrow, hv.symm⟩, ?_⟩
    rw [hv]
    obtain ⟨hrel, hexp⟩ := Lease.live_iff.mp hlive
    simp [rowToLease, hrel, hexp]

/-- **The leader is the holder of the live lease.** -/
theorem currentLeader_eq_some_iff {target : String} {now : Int} {db : Db} {v : LeaseView} :
    currentLeader target now db = some v ↔ ∃ r, db.lease target = some r ∧
      r.live (seconds now) = true ∧ v = rowToLease target r (seconds now) := by
  have hof : ∀ v, currentLeader target now db = some v → ∃ r, db.lease target = some r ∧
      r.live (seconds now) = true ∧ v = rowToLease target r (seconds now) := by
    intro v h
    have hscope : v.scope = target := by simpa using List.find?_some h
    exact hscope ▸ mem_listLeases_iff.mp (List.mem_of_find?_eq_some h)
  constructor
  · exact hof v
  · rintro ⟨r, hrow, hlive, rfl⟩
    cases hfind : currentLeader target now db with
    | none =>
      have hmem : rowToLease target r (seconds now) ∈ listLeases now db :=
        mem_listLeases_iff.mpr ⟨r, hrow, hlive, rfl⟩
      exact absurd (by simp [rowToLease]) (List.find?_eq_none.mp hfind _ hmem)
    | some v =>
      obtain ⟨r', hrow', -, rfl⟩ := hof v hfind
      rw [Option.some.inj (hrow.symm.trans hrow')]

/-- A node that may own a free lease goes on to take it. -/
theorem ensureRelayLook_vacant {config : NodeLeaderConfig} {a : RelayArgs} {now : Int} {db : Db}
    {role : NodeRole} {norm : String} (hrole : config.roleOf a.node = some role)
    (hne : role ≠ .forwarder) (hnorm : normalizePersonaRole a.role = .ok norm)
    (hnone : currentLeader (scopeOf norm) now db = none) :
    ensureRelayLook config a now db = .ok (.next role norm .vacant) := by
  unfold ensureRelayLook
  rw [hrole]
  cases role with
  | leader => simp [hnorm, hnone, bind, Except.bind, pure, Except.pure]
  | standby => simp [hnorm, hnone, bind, Except.bind, pure, Except.pure]
  | forwarder => exact absurd rfl hne

end NodeLeader
