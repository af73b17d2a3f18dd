import RunnerDashboard.Lib.PyStr
import RunnerDashboard.RunnerLease.Store

/-!
# The lease guard of the autoscaler

The autoscaler reads the leases of `leases.yml` at each tick.  A lease pins a runner, by its own id
or by its metadata, and a runner that is pinned is not to be stopped; a lease that pins none, and
whose id is not that of a runner, lets nothing be stopped.

A runner is known by its unit, `actions.runner.<owner>.<name>.service`, and the autoscaler takes
what stands after the last dot for its name.

## Main results

* `mem_protected_iff`, `blockScaleDown_iff` — **the guard knows what the unexpired leases pin.**
-/

namespace Autoscaler

open RunnerLease

/-! ### The leases -/

/-- Conversions of values that the lease manager does not write: `float`, nothing where it raises,
and `str`. -/
structure Conversions where
  float : Json → Option ℤ
  str : Json → String

variable (py : Conversions)

structure LeaseScaleDownGuard where
  protectedRunnerNames : List String := []
  blockScaleDown : Bool := false

def isVirtualLeaseRunnerId (runnerId : String) : Bool :=
  ["virtual-", "github-claim-"].any (Py.startsWith runnerId)

def leasePinKeys : List String := ["runner_name", "pinned_runner", "runner"]

/-- The first pin key whose value is a text that is not blank. -/
def metadataPin (metadata : List (String × Json)) : Option String :=
  leasePinKeys.findSome? fun key =>
    match metadata.lookup key with
    | some (.str value) => if Py.strip value = "" then none else some (Py.strip value)
    | _ => none

/-- What the loop makes of a record. -/
inductive Entry
  | malformed
  | expired
  | unpinned
  | pins (name : String)
  deriving DecidableEq

/-- `float(expires_at) <= now`, for a value that is not `None`; nothing where it raises. -/
def hasExpired (now : ℤ) : Json → Option Bool
  | .num expiresAt => some (expiresAt ≤ now)
  | v => (py.float v).map fun expiresAt => expiresAt ≤ now

def runnerNameFromLeaseRecord (fields : List (String × Json)) : Entry :=
  match fields.lookup "runner_id" with
  | none => .malformed
  | some v =>
    let runnerId := match v with
      | .str s => s
      | v => py.str v
    if isVirtualLeaseRunnerId runnerId then
      match fields.lookup "metadata" with
      | some (.obj metadata) => ((metadataPin metadata).map Entry.pins).getD .unpinned
      | _ => .unpinned
    else .pins runnerId

def leaseEntry (now : ℤ) : Json → Entry
  | .obj fields =>
    match (fields.lookup "expires_at").getD .null with
    | .null => runnerNameFromLeaseRecord py fields
    | expiresAt =>
      match hasExpired py now expiresAt with
      | none => .malformed
      | some true => .expired
      | some false => runnerNameFromLeaseRecord py fields
  | _ => .malformed

/-- `_lease_scale_down_guard`, of the list under `leases`, if the file is there and has one. -/
def leaseScaleDownGuard (now : ℤ) (leases : Option (List Json)) : LeaseScaleDownGuard :=
  let entries := (leases.getD []).map (leaseEntry py now)
  { protectedRunnerNames := entries.filterMap fun
      | .pins name => some name
      | _ => none
    blockScaleDown := entries.any (· = .unpinned) }

/-! ### What the lease manager writes -/

/-- `lease.model_dump()`, as it is read again. -/
def modelDump (r : LeaseRecord) : List (String × Json) :=
  [("acquired_at", .num r.acquiredAt), ("expires_at", (r.expiresAt.map Json.num).getD .null),
    ("fencing_token", .num r.fencingToken), ("metadata", .obj r.metadata),
    ("principal_id", .str r.principalId), ("runner_id", .str r.runnerId),
    ("task_id", (r.taskId.map Json.str).getD .null)]

/-- The file has these records: it was written with them, or there is none, or an empty one. -/
inductive Written : Option (List Json) → List LeaseRecord → Prop
  | none : Written none []
  | some (records : List LeaseRecord) : 
    Written (some (records.map fun r => .obj (modelDump r))) records

/-- What a lease pins: the runner of its id, or a virtual one the runner of its metadata. -/
inductive Pins (r : LeaseRecord) : String → Prop
  | direct (h : isVirtualLeaseRunnerId r.runnerId = false) : Pins r r.runnerId
  | virtual {name : String} (h : isVirtualLeaseRunnerId r.runnerId = true)
      (hpin : metadataPin r.metadata = some name) : Pins r name

def Unresolved (r : LeaseRecord) : Prop :=
  isVirtualLeaseRunnerId r.runnerId = true ∧ metadataPin r.metadata = none

variable {py} {now : ℤ} {leases : Option (List Json)} {records : List LeaseRecord} {r : LeaseRecord}
  {name : String}

theorem lookup_expiresAt (r : LeaseRecord) :
    (modelDump r).lookup "expires_at" = some ((r.expiresAt.map Json.num).getD .null) := rfl

theorem runnerNameFromLeaseRecord_modelDump (py : Conversions) (r : LeaseRecord) :
    runnerNameFromLeaseRecord py (modelDump r) =
      if isVirtualLeaseRunnerId r.runnerId then
        ((metadataPin r.metadata).map Entry.pins).getD .unpinned
      else .pins r.runnerId := rfl

theorem leaseEntry_modelDump (py : Conversions) (now : ℤ) (r : LeaseRecord) :
    leaseEntry py now (.obj (modelDump r)) =
      if r.unexpired now then
        if isVirtualLeaseRunnerId r.runnerId then
          ((metadataPin r.metadata).map Entry.pins).getD .unpinned
        else .pins r.runnerId
      else .expired := by
  rw [leaseEntry, lookup_expiresAt, ← runnerNameFromLeaseRecord_modelDump py,
    LeaseRecord.unexpired]
  cases r.expiresAt with
  | none => rfl
  | some e =>
    simp only [Option.map_some, Option.getD_some, hasExpired]
    by_cases hle : e ≤ now
    · simp [hle, not_lt.mpr hle]
    · simp [hle, not_le.mp hle]

theorem leaseEntry_eq_pins_iff :
    leaseEntry py now (.obj (modelDump r)) = .pins name ↔ r.unexpired now = true ∧ Pins r name := by
  rw [leaseEntry_modelDump]
  split_ifs with hun hvirtual
  · constructor
    · intro h
      refine ⟨hun, .virtual hvirtual ?_⟩
      cases hpin : metadataPin r.metadata with
      | none => simp [hpin] at h
      | some pinned =>
        simp only [hpin, Option.map_some, Option.getD_some, Entry.pins.injEq] at h
        rw [h]
    · rintro ⟨-, hpins⟩
      cases hpins with
      | direct h => rw [hvirtual] at h; cases h
      | virtual _ hpin => simp [hpin]
  · constructor
    · intro h
      obtain rfl := Entry.pins.inj h
      exact ⟨hun, .direct (Bool.eq_false_iff.mpr hvirtual)⟩
    · rintro ⟨-, hpins⟩
      cases hpins with
      | direct => rfl
      | virtual h => exact absurd h hvirtual
  · simp [hun]

theorem leaseEntry_eq_unpinned_iff :
    leaseEntry py now (.obj (modelDump r)) = .unpinned ↔ r.unexpired now = true ∧ Unresolved r := by
  rw [leaseEntry_modelDump, Unresolved]
  split_ifs with hun hvirtual
  · cases hpin : metadataPin r.metadata <;> simp [hun, hvirtual]
  · simp [hvirtual]
  · simp [hun]

/-- **A name is protected if an unexpired lease pins it.** -/
theorem mem_protected_iff (h : Written leases records) :
    name ∈ (leaseScaleDownGuard py now leases).protectedRunnerNames ↔
      ∃ r ∈ records, r.unexpired now = true ∧ Pins r name := by
  cases h with
  | none => simp [leaseScaleDownGuard]
  | some =>
    simp only [leaseScaleDownGuard, Option.getD_some, List.map_map, List.mem_filterMap,
      List.mem_map, Function.comp_apply]
    constructor
    · rintro ⟨entry, ⟨r, hr, rfl⟩, hname⟩
      split at hname
      · next pinned hentry =>
        obtain rfl := Option.some.inj hname
        exact ⟨r, hr, leaseEntry_eq_pins_iff.mp hentry⟩
      · cases hname
    · rintro ⟨r, hr, hpins⟩
      refine ⟨_, ⟨r, hr, rfl⟩, ?_⟩
      rw [leaseEntry_eq_pins_iff.mpr hpins]

/-- **Nothing is stopped if an unexpired lease cannot be resolved.** -/
theorem blockScaleDown_iff (h : Written leases records) :
    (leaseScaleDownGuard py now leases).blockScaleDown = true ↔
      ∃ r ∈ records, r.unexpired now = true ∧ Unresolved r := by
  cases h with
  | none => simp [leaseScaleDownGuard]
  | some => simp [leaseScaleDownGuard, leaseEntry_eq_unpinned_iff]

/-! ### Units -/

/-- `stem.rpartition(".")[2]`. -/
def afterLastDot (stem : List Char) : List Char := (stem.reverse.takeWhile (· ≠ '.')).reverse

def serviceSuffix : List Char := ".service".toList

def runnerNameForUnit (unit : String) : String :=
  if serviceSuffix.isSuffixOf unit.toList then
    let stem := unit.toList.take (unit.toList.length - serviceSuffix.length)
    String.ofList (if afterLastDot stem = [] then stem else afterLastDot stem)
  else unit

/-- The unit of a runner, `actions.runner.<owner>.<name>.service`. -/
def unitName (owner name : String) : String :=
  String.ofList ("actions.runner.".toList ++ owner.toList ++ '.' :: name.toList ++ serviceSuffix)

/-- A name of letters, digits, dots, dashes and underscores. -/
def IsRunnerName (name : String) : Prop :=
  name ≠ "" ∧ ∀ c ∈ name.toList, c.isAlphanum = true ∨ c ∈ ['.', '-', '_']

theorem afterLastDot_append_dot {a b : List Char} (h : '.' ∉ b) :
    afterLastDot (a ++ '.' :: b) = b := by
  have hfree : ∀ c ∈ b.reverse, decide (c ≠ '.') = true := by
    intro c hc
    rw [decide_eq_true_iff]
    rintro rfl
    exact h (List.mem_reverse.mp hc)
  rw [afterLastDot, List.reverse_append, List.reverse_cons, List.append_assoc,
    List.takeWhile_append_of_pos hfree]
  simp

theorem runnerNameForUnit_service (stem : List Char) :
    runnerNameForUnit (String.ofList (stem ++ serviceSuffix)) =
      String.ofList (if afterLastDot stem = [] then stem else afterLastDot stem) := by
  have hsuffix : serviceSuffix.isSuffixOf (stem ++ serviceSuffix) = true := by
    rw [List.isSuffixOf_iff_suffix]
    exact List.suffix_append _ _
  have hstem : (stem ++ serviceSuffix).take
      ((stem ++ serviceSuffix).length - serviceSuffix.length) = stem := by
    rw [List.length_append, Nat.add_sub_cancel, List.take_left]
  rw [runnerNameForUnit, String.toList_ofList, if_pos hsuffix]
  dsimp only
  rw [hstem]

theorem runnerNameForUnit_unitName {owner : String} (hdot : '.' ∉ name.toList) (hne : name ≠ "") :
    runnerNameForUnit (unitName owner name) = name := by
  have hnil : name.toList ≠ [] := fun h => hne (String.toList_eq_nil_iff.mp h)
  unfold unitName
  generalize "actions.runner.".toList ++ owner.toList = before
  rw [runnerNameForUnit_service, afterLastDot_append_dot hdot, if_neg hnil]
  exact String.ofList_toList

end Autoscaler
