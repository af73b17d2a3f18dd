import Mathlib.Data.Finset.Card
import Mathlib.Data.Finset.Dedup
import RunnerDashboard.Lib.PyStr
import RunnerDashboard.Lib.Table

/-!
# The cap on armed pull requests

A pull request that is to be armed first gets a reservation; when it is armed, the reservation is
confirmed, and a later reconcile finds the pull request among the armed ones and puts it in the
inventory.  The load is the healthy rows of the inventory and the pending reservations.

`lower` is `str.lower`, and `le x y` says that the text of the instant `x` is not after that of
`y`.  Instants are in microseconds.

## Main results

* `tryReserve_cases` — what a request for a slot can do.
-/

namespace ArmCap

open Sql

/-! ### Policy and snapshots -/

/-- A repository and the number of a pull request. -/
abbrev Pr := String × Int

/-- `ArmTier`. -/
inductive Tier
  | user
  | repair
  | agent
  deriving DecidableEq, Repr

structure AdmitContext where
  tier : Tier := .agent
  dispatchKind : String := ""
  deriving DecidableEq, Repr

/-- `ArmCapPolicy`, as far as admission and reconcile read it. -/
structure Policy where
  enabled : Bool
  shadowMode : Bool
  maxHealthyArmed : Int
  reservationTtlSeconds : Int
  reconcileIntervalSeconds : Int
  scopeRepositories : Option (List String)

/-- The repository is in the scope of the policy; an empty scope is every repository. -/
def Policy.inScope (P : Policy) (repo : String) : Bool :=
  match P.scopeRepositories with
  | none => true
  | some [] => true
  | some repos => repo ∈ repos

inductive Lifecycle
  | awaitingChecks
  | queued
  | building
  | evicted
  | unarmed
  deriving DecidableEq, Repr

/-- `HealthVerdict`. -/
structure Verdict where
  healthy : Bool
  lifecycle : Lifecycle
  reasons : List String
  deriving DecidableEq, Repr

/-- `PrArmSnapshot`. -/
structure Snapshot where
  repo : String
  number : Int
  armed : Bool
  draft : Bool := false
  mergeableState : String := ""
  labels : List String := []
  inMergeQueue : Bool := false
  mergeQueueState : String := ""
  checkRuns : List (String × String) := []

def Snapshot.pr (snap : Snapshot) : Pr := (snap.repo, snap.number)

def failingConclusions : List String := ["failure", "cancelled", "timed_out", "action_required"]

def conflictDisarmedLabel : String := "conflict:disarmed"

section Lower

variable (lower : String → String)

def AdmitContext.bypassCap (ctx : AdmitContext) : Bool :=
  match ctx.tier with
  | .user => true
  | .repair =>
    let kind := lower (Py.strip ctx.dispatchKind)
    Py.startsWith kind "ci_fix" || Py.startsWith kind "conflict"
  | .agent => false

/-- The required checks that fail; of two runs of one name the last counts. -/
def failingChecks (snap : Snapshot) (required : List String) : List String :=
  if required = [] ∨ snap.checkRuns = [] then []
  else required.filterMap fun ctx =>
    let conclusion := (snap.checkRuns.reverse.lookup ctx).getD ""
    if conclusion ∈ failingConclusions then
      some ("required check " ++ ctx ++ "=" ++ conclusion)
    else none

def classifyArmHealth (snap : Snapshot) (required : List String) : Verdict :=
  if snap.armed = false ∨ snap.draft = true then ⟨false, .unarmed, ["not armed"]⟩
  else if conflictDisarmedLabel ∈ snap.labels.map lower then
    ⟨false, .evicted, ["`" ++ conflictDisarmedLabel ++ "` label"]⟩
  else if snap.mergeableState = "dirty" then
    ⟨false, .evicted, ["mergeable_state=dirty (CONFLICTING)"]⟩
  else if failingChecks snap required ≠ [] then ⟨false, .evicted, failingChecks snap required⟩
  else if snap.inMergeQueue then
    ⟨true, if snap.mergeQueueState ∈ ["merging", "merged"] then .building else .queued, []⟩
  else if snap.mergeableState = "clean" then ⟨true, .queued, []⟩
  else ⟨true, .awaitingChecks, []⟩

end Lower

/-! ### The store -/

inductive ReservationStatus
  | pending
  | confirmed
  | released
  | expired
  deriving DecidableEq, Repr

/-- A row of `arm_reservations`, but for its token. -/
structure ReservationRow where
  pr : Pr
  status : ReservationStatus
  tier : Tier
  dispatchKind : String
  reservedAt : Int
  expiresAt : Int
  confirmedAt : Option Int := none
  deriving DecidableEq, Repr

def ReservationRow.pending (r : ReservationRow) : Bool := r.status = .pending

/-- A row of `armed_inventory`, but for its pull request. -/
structure InventoryRow where
  healthy : Bool
  lifecycle : Lifecycle
  reasons : List String
  updatedAt : Int
  deriving DecidableEq, Repr

/-- `ArmCapStore`: the reservations by token, and the inventory. -/
structure Store where
  reservations : Table String ReservationRow
  inventory : Table Pr InventoryRow

/-- `AdmitDecision`. -/
structure Decision where
  allowed : Bool
  shadowWouldBlock : Bool := false
  reservationToken : Option String := none
  reason : String := ""
  healthyArmed : Int := 0
  cap : Int := 0
  deriving DecidableEq, Repr

def second : Int := 1000000

/-- `_effective_load_in_conn`: in shadow mode a row that is stale does not count. -/
def Store.load (s : Store) (staleAfter : Option Int) (now : Int) : ℕ :=
  (s.inventory.count fun _ r =>
    r.healthy && staleAfter.all fun seconds => now - seconds * second < r.updatedAt) +
  s.reservations.count fun _ r => r.pending

/-- The reservations that satisfy `p` are not pending any more. -/
def Store.retire (s : Store) (p : String → ReservationRow → Bool)
    (f : ReservationRow → ReservationRow) : Store :=
  { s with reservations := s.reservations.update (fun k r => r.pending && p k r) fun _ r => f r }

section Order

variable (le : Int → Int → Bool)

/-- `_expire_in_conn`. -/
def expireStale (now : Int) (s : Store) : Store :=
  s.retire (fun _ r => le r.expiresAt now) fun r => { r with status := .expired }

/-- `expire_stale_reservations`, with the number of rows. -/
def expireStaleReservations (now : Int) (s : Store) : ℕ × Store :=
  (s.reservations.count fun _ r => r.pending && le r.expiresAt now, expireStale le now s)

/-- The token of a pending reservation of the pull request. -/
def pendingSame (s : Store) (pr : Pr) : Option String :=
  (s.reservations.rows.find? fun x => x.2.pr = pr && x.2.pending).map Prod.fst

/-- `try_reserve`, with the token that it drew. -/
def tryReserve (pr : Pr) (ctx : AdmitContext) (cap ttl now : Int) (token : String)
    (staleAfter : Option Int) (s : Store) : Decision × Store :=
  let s' := expireStale le now s
  match pendingSame s' pr with
  | some token' =>
    ({ allowed := true
       reservationToken := some token'
       reason := "existing pending reservation" }, s')
  | none =>
    let load : Int := s'.load staleAfter now
    if cap ≤ load then
      ({ allowed := false
         reason := "healthy armed cap reached (" ++ toString load ++ "/" ++ toString cap ++ ")"
         healthyArmed := load
         cap := cap }, s')
    else
      match s'.reservations.get? token with
      | some _ => ({ allowed := false, reason := "reservation race lost" }, s)
      | none =>
        ({ allowed := true
           reservationToken := some token
           healthyArmed := load + 1
           cap := cap },
          { s' with
            reservations := s'.reservations.insertNew token
              { pr := pr
                status := .pending
                tier := ctx.tier
                dispatchKind := ctx.dispatchKind
                reservedAt := now
                expiresAt := now + ttl * second } })

/-- `confirm_reservation`, and whether a row was pending. -/
def confirmReservation (token : String) (now : Int) (s : Store) : Bool × Store :=
  ((s.reservations.count fun k r => r.pending && k = token) = 1,
    s.retire (fun k _ => k = token) fun r =>
      { r with status := .confirmed, confirmedAt := some now })

def releaseReservation (token : String) (s : Store) : Store :=
  s.retire (fun k _ => k = token) fun r => { r with status := .released }

/-- The request that `admit_for_arm` makes; an enforced cap counts stale rows. -/
def requestSlot (P : Policy) (pr : Pr) (ctx : AdmitContext) (now : Int) (token : String)
    (s : Store) : Decision × Store :=
  tryReserve le pr ctx P.maxHealthyArmed P.reservationTtlSeconds now token
    (if P.shadowMode then some P.reconcileIntervalSeconds else none) s

variable (lower : String → String)

/-- `admit_for_arm`, with its two readings of the clock. -/
def admitForArm (P : Policy) (pr : Pr) (ctx : AdmitContext) (expireNow now : Int) (token : String)
    (s : Store) : Decision × Store :=
  if P.enabled = false then
    ({ allowed := true, reason := "dispatch_limits.enabled=false" }, s)
  else if P.inScope pr.1 = false then ({ allowed := true, reason := "repo out of scope" }, s)
  else if ctx.bypassCap lower then
    ({ allowed := true
       reason := "bypass tier=" ++ (match ctx.tier with
         | .user => "user"
         | .repair => "repair"
         | .agent => "agent") ++ " kind=" ++ ctx.dispatchKind }, s)
  else
    let (decision, s') :=
      requestSlot le P pr ctx now token (expireStaleReservations le expireNow s).2
    if decision.allowed || !P.shadowMode then (decision, s')
    else
      ({ allowed := true
         shadowWouldBlock := true
         reason := decision.reason
         healthyArmed := decision.healthyArmed
         cap := decision.cap }, s')

/-- `reconcile_snapshots`, one snapshot. -/
def reconcileSnapshot (P : Policy) (required : List String) (now : Int) (snap : Snapshot)
    (s : Store) : Store :=
  if P.inScope snap.repo = false then s
  else if snap.armed = false then
    { s with inventory := s.inventory.delete fun k _ => k = snap.pr }
  else
    let verdict := classifyArmHealth lower snap required
    { s with
      inventory := s.inventory.put snap.pr
        ⟨verdict.healthy, verdict.lifecycle, verdict.reasons, now⟩ }

/-- What `reconcile_snapshots` counts. -/
structure Counts where
  healthy : ℕ := 0
  unhealthy : ℕ := 0
  unarmed : ℕ := 0
  deriving DecidableEq, Repr

def Counts.add (P : Policy) (required : List String) (c : Counts) (snap : Snapshot) : Counts :=
  if P.inScope snap.repo = false then c
  else if snap.armed = false then { c with unarmed := c.unarmed + 1 }
  else if (classifyArmHealth lower snap required).healthy then { c with healthy := c.healthy + 1 }
  else { c with unhealthy := c.unhealthy + 1 }

/-- `reconcile_snapshots`; every snapshot is written at its own time. -/
def reconcileSnapshots (P : Policy) (required : List String) (snaps : List (Snapshot × Int))
    (s : Store) : Counts × Store :=
  snaps.foldl (fun x snap => (x.1.add lower P required snap.1,
    reconcileSnapshot lower P required snap.2 snap.1 x.2)) ({}, s)

end Order

section Load

variable {le : Int → Int → Bool} {s : Store} {pr : Pr} {ctx : AdmitContext} {cap ttl now : Int}
  {token : String} {staleAfter : Option Int} {r : ReservationRow}
  {p : String → ReservationRow → Bool} {f : ReservationRow → ReservationRow}

/-! ### The load -/

def pendingPrs (s : Store) : Finset Pr :=
  ((s.reservations.matching fun _ r => r.pending).map fun x => x.2.pr).toFinset

def healthyPrs (s : Store) : Finset Pr :=
  ((s.inventory.matching fun _ r => r.healthy).map Prod.fst).toFinset

theorem mem_pendingPrs_iff : pr ∈ pendingPrs s ↔
    ∃ token r, s.reservations.get? token = some r ∧ r.pending = true ∧ r.pr = pr := by
  unfold pendingPrs Table.matching
  rw [List.mem_toFinset, List.mem_map]
  constructor
  · rintro ⟨⟨token, r⟩, hmem, rfl⟩
    obtain ⟨hrow, hpending⟩ := List.mem_filter.mp hmem
    exact ⟨token, r, Table.get?_eq_some_iff.mpr hrow, hpending, rfl⟩
  · rintro ⟨token, r, hrow, hpending, rfl⟩
    exact ⟨(token, r), List.mem_filter.mpr ⟨Table.get?_eq_some_iff.mp hrow, hpending⟩, rfl⟩

theorem mem_healthyPrs_iff :
    pr ∈ healthyPrs s ↔ ∃ r, s.inventory.get? pr = some r ∧ r.healthy = true := by
  unfold healthyPrs
  rw [List.mem_toFinset]
  cases hrow : s.inventory.get? pr with
  | none =>
    refine iff_of_false (fun hmem => ?_) nofun
    obtain ⟨⟨k, r⟩, hx, rfl⟩ := List.mem_map.mp hmem
    cases hrow.symm.trans (Table.get?_eq_some_iff.mpr (List.mem_filter.mp hx).1)
  | some r =>
    rw [Table.mem_keys_matching hrow]
    constructor
    · exact fun h => ⟨r, rfl, h⟩
    · rintro ⟨r', hr', h⟩
      rwa [Option.some.inj hr']

/-- **The pull requests that are pending or healthy are not more than the load.** -/
theorem card_le_load (s : Store) (now : Int) :
    (pendingPrs s ∪ healthyPrs s).card ≤ s.load none now := by
  have hpending : (pendingPrs s).card ≤ s.reservations.count fun _ r => r.pending := by
    refine (List.toFinset_card_le _).trans ?_
    rw [List.length_map, Table.matching, Table.count, ← List.countP_eq_length_filter]
  have hhealthy : (healthyPrs s).card ≤ s.inventory.count fun _ r => r.healthy := by
    refine (List.toFinset_card_le _).trans ?_
    rw [List.length_map, Table.matching, Table.count, ← List.countP_eq_length_filter]
  have hunion := Finset.card_union_le (pendingPrs s) (healthyPrs s)
  unfold Store.load
  simp only [Option.all_none, Bool.and_true]
  omega

/-! ### What the methods do -/

theorem mem_pendingPrs_retire (h : pr ∈ pendingPrs s) :
    pr ∈ pendingPrs (s.retire p f) ∨
      ∃ token r, s.reservations.get? token = some r ∧ r.pending = true ∧ p token r = true ∧
        r.pr = pr := by
  obtain ⟨token, r, hrow, hpending, hpr⟩ := mem_pendingPrs_iff.mp h
  by_cases hp : p token r = true
  · exact .inr ⟨token, r, hrow, hpending, hp, hpr⟩
  · refine .inl (mem_pendingPrs_iff.mpr ⟨token, r, ?_, hpending, hpr⟩)
    change (s.reservations.update _ _).get? token = some r
    rw [Table.get?_update, hrow, Option.map_some,
      if_neg fun h => hp (Bool.and_eq_true_iff.mp h).2]

theorem pendingSame_eq_none (h : pendingSame s pr = none) : pr ∉ pendingPrs s := by
  intro hmem
  obtain ⟨token, r, hrow, hpending, hpr⟩ := mem_pendingPrs_iff.mp hmem
  unfold pendingSame at h
  rw [Option.map_eq_none_iff, List.find?_eq_none] at h
  refine h (token, r) (Table.get?_eq_some_iff.mp hrow) ?_
  rw [hpending, decide_eq_true hpr]
  rfl

theorem mem_pendingPrs_of_pendingSame (h : pendingSame s pr = some token) :
    pr ∈ pendingPrs s := by
  unfold pendingSame at h
  obtain ⟨⟨token', r⟩, hfind, -⟩ := Option.map_eq_some_iff.mp h
  have hboth := List.find?_some hfind
  obtain ⟨hpr, hpending⟩ := Bool.and_eq_true_iff.mp hboth
  exact mem_pendingPrs_iff.mpr ⟨token', r,
    Table.get?_eq_some_iff.mpr (List.mem_of_find?_eq_some hfind), hpending, of_decide_eq_true hpr⟩

def newRow (pr : Pr) (ctx : AdmitContext) (ttl now : Int) : ReservationRow where
  pr := pr
  status := .pending
  tier := ctx.tier
  dispatchKind := ctx.dispatchKind
  reservedAt := now
  expiresAt := now + ttl * second

/-- **What a request for a slot can do**: find the pull request pending, be refused, or get a slot
below the cap. -/
theorem tryReserve_cases (le : Int → Int → Bool) (pr : Pr) (ctx : AdmitContext) (cap ttl now : Int)
    (token : String) (staleAfter : Option Int) (s : Store) :
    (pr ∈ pendingPrs (expireStale le now s) ∧
      (tryReserve le pr ctx cap ttl now token staleAfter s).2 = expireStale le now s) ∨
    ((tryReserve le pr ctx cap ttl now token staleAfter s).1.allowed = false ∧
      ((tryReserve le pr ctx cap ttl now token staleAfter s).2 = expireStale le now s ∨
        (tryReserve le pr ctx cap ttl now token staleAfter s).2 = s)) ∨
    (pr ∉ pendingPrs (expireStale le now s) ∧
      ((expireStale le now s).load staleAfter now : Int) < cap ∧
      (expireStale le now s).reservations.get? token = none ∧
      (tryReserve le pr ctx cap ttl now token staleAfter s).2 = { expireStale le now s with
        reservations :=
          (expireStale le now s).reservations.insertNew token (newRow pr ctx ttl now) }) := by
  unfold tryReserve
  dsimp only
  cases hsame : pendingSame (expireStale le now s) pr with
  | some token' => exact .inl ⟨mem_pendingPrs_of_pendingSame hsame, rfl⟩
  | none =>
    dsimp only
    by_cases hcap : cap ≤ ((expireStale le now s).load staleAfter now : Int)
    · rw [if_pos hcap]
      exact .inr (.inl ⟨rfl, .inl rfl⟩)
    · rw [if_neg hcap]
      cases htoken : (expireStale le now s).reservations.get? token with
      | some r => exact .inr (.inl ⟨rfl, .inr rfl⟩)
      | none =>
        exact .inr (.inr ⟨pendingSame_eq_none hsame, by omega, rfl, rfl⟩)

end Load

end ArmCap
