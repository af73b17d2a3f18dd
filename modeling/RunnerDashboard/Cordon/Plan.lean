import RunnerDashboard.Lib.PyFloat
import Mathlib.Data.List.Basic

/-!
# The disk-full cordon

When the disk of a host fills up, its runners are drained and stopped, the disk is cleaned, and the
host is taken back once there is space again.  Before that a cleanup may run to avoid it.

## Main results

* `outcome` — **what a tick can do.**
-/

namespace Cordon

open PyFloat

/-! ### The policy -/

structure DiskGuardThresholds where
  tripMinFreeGb : PyFloat
  readmitMinFreeGb : PyFloat
  tripUsedPercent : PyFloat
  readmitUsedPercent : PyFloat

/-- `RunnerDiskGuardConfig`, as far as it is used. -/
structure RunnerDiskGuardConfig where
  thresholds : DiskGuardThresholds
  timeoutSeconds : ℤ
  finishRunningJobs : Bool
  minOnlineAfterDrain : ℤ

/-- The checks of `validate_runner_disk_guard` on these. -/
structure RunnerDiskGuardConfig.Validated (c : RunnerDiskGuardConfig) : Prop where
  tripFree : le c.thresholds.tripMinFreeGb (fin 0) = false
  readmitFree : le c.thresholds.readmitMinFreeGb c.thresholds.tripMinFreeGb = false
  tripUsed : le c.thresholds.tripUsedPercent (fin 0) = false
  tripUsedMax : lt (fin 100) c.thresholds.tripUsedPercent = false
  readmitUsed : le c.thresholds.tripUsedPercent c.thresholds.readmitUsedPercent = false
  readmitUsedMin : le c.thresholds.readmitUsedPercent (fin 0) = false
  timeout : 0 < c.timeoutSeconds ∧ c.timeoutSeconds ≤ 86400
  finish : c.finishRunningJobs = true
  minOnline : c.minOnlineAfterDrain = 0

def proactiveCleanupUsedPercent : PyFloat := fin 75

def proactiveCleanupMinFreeGb : PyFloat := fin 80

def proactiveCleanupCooldownS : PyFloat := fin 3600

def proactiveCleanupNeeded (freeGb usedPercent : PyFloat) : Bool :=
  le proactiveCleanupUsedPercent usedPercent || lt freeGb proactiveCleanupMinFreeGb

def diskPressureTrips (freeGb usedPercent : PyFloat) (t : DiskGuardThresholds) : Bool :=
  lt freeGb t.tripMinFreeGb || le t.tripUsedPercent usedPercent

def diskPressureAllowsReadmit (freeGb usedPercent : PyFloat) (t : DiskGuardThresholds) : Bool :=
  le t.readmitMinFreeGb freeGb && le usedPercent t.readmitUsedPercent

/-! ### The state -/

inductive CordonPhase
  | normal
  | tripping
  | cordoned
  deriving DecidableEq

structure DiskFullCordonState where
  phase : CordonPhase := .normal
  trippedAt : Option PyFloat := none
  cleanupDone : Bool := false
  lastProactiveCleanupAt : Option PyFloat := none
  deriving DecidableEq

/-- How a value of the file is read. -/
structure Values (V : Type*) where
  isNone : V → Bool
  /-- The text, if it is one. -/
  text : V → Option String
  /-- `bool(value)`. -/
  truthy : V → Bool
  /-- `float(value)`, nothing where it raises. -/
  float : V → Option PyFloat

/-- The content of the file: an object, another value, nothing that can be read as JSON, or an error
that is not expected. -/
inductive FileContent (V : Type*)
  | object (field : String → Option V)
  | otherValue
  | unreadable
  | raises

/-- The phase of a text; any other value is `normal`. -/
def phaseOf : Option String → CordonPhase
  | some "tripping" => .tripping
  | some "cordoned" => .cordoned
  | _ => .normal

/-- `float(v) if v is not None else None`; nothing where it raises. -/
def optionalFloat {V : Type*} (py : Values V) : Option V → Option (Option PyFloat)
  | none => some none
  | some v => if py.isNone v then some none else (py.float v).map some

/-- `load_cordon_state`; nothing where it raises. -/
def loadCordonState {V : Type*} (py : Values V) : FileContent V → Option DiskFullCordonState
  | .raises => none
  | .unreadable => some {}
  | .otherValue => some {}
  | .object field => do
    let trippedAt ← optionalFloat py (field "tripped_at")
    let lastProactiveCleanupAt ← optionalFloat py (field "last_proactive_cleanup_at")
    pure
      { phase := phaseOf ((field "phase").bind py.text)
        trippedAt
        cleanupDone := (field "cleanup_done").any py.truthy
        lastProactiveCleanupAt }

/-! ### A tick -/

inductive CordonActionKind
  | setMaintenanceOn
  | setMaintenanceOff
  | stopRunner
  | runDiskCleanup
  deriving DecidableEq

structure CordonAction where
  kind : CordonActionKind
  unit : Option String := none
  force : Bool := false
  deriving DecidableEq

structure RunnerSnapshot where
  unit : String
  active : Bool
  busy : Bool

structure CordonTickResult where
  state : DiskFullCordonState
  actions : List CordonAction
  schedulingInhibited : Bool
  effectiveMinOnline : Option ℤ
  cordonActive : Bool

/-- The arguments of a tick, but for the state. -/
structure TickInput where
  freeGb : PyFloat
  usedPercent : PyFloat
  config : RunnerDiskGuardConfig
  runners : List RunnerSnapshot
  now : ℚ

def activeRunners (runners : List RunnerSnapshot) : List RunnerSnapshot := runners.filter (·.active)

/-- The actions without a second stop of a unit. -/
def dedupeStops : List String → List CordonAction → List CordonAction
  | _, [] => []
  | seen, a :: actions =>
    match a.kind, a.unit.filter (· ≠ "") with
    | .stopRunner, some unit =>
      if unit ∈ seen then dedupeStops seen actions else a :: dedupeStops (unit :: seen) actions
    | _, _ => a :: dedupeStops seen actions

def finishTick (state : DiskFullCordonState) (actions : List CordonAction)
    (config : RunnerDiskGuardConfig) : CordonTickResult where
  state
  actions := dedupeStops [] actions
  schedulingInhibited := state.phase ≠ .normal
  effectiveMinOnline := if state.phase ≠ .normal then some config.minOnlineAfterDrain else none
  cordonActive := state.phase ≠ .normal

variable (R : Rounding)

/-- The part of a tick in the phase `tripping`, for the time of the trip. -/
def drainTick (next : DiskFullCordonState) (trippedAt : PyFloat) (actions : List CordonAction)
    (i : TickInput) : CordonTickResult :=
  let forceStop := !i.config.finishRunningJobs ||
    le (fin i.config.timeoutSeconds) (sub R (fin i.now) trippedAt)
  let stops := ((activeRunners i.runners).filter fun r => !r.busy || forceStop).map fun r =>
    ({ kind := .stopRunner, unit := some r.unit, force := forceStop && r.busy } : CordonAction)
  finishTick
    (if (activeRunners i.runners).isEmpty then { next with phase := .cordoned } else next)
    (actions ++ stops) i.config

/-- `plan_cordon_tick`; nothing where the assertion fails. -/
def planCordonTick (s : DiskFullCordonState) (i : TickInput) : Option CordonTickResult :=
  match s.phase with
  | .normal =>
    if diskPressureTrips i.freeGb i.usedPercent i.config.thresholds then
      some (drainTick R { s with phase := .tripping, trippedAt := some (fin i.now) } (fin i.now)
        [{ kind := .setMaintenanceOn }] i)
    else if proactiveCleanupNeeded i.freeGb i.usedPercent &&
        s.lastProactiveCleanupAt.all fun last =>
          le proactiveCleanupCooldownS (sub R (fin i.now) last) then
      some (finishTick { s with lastProactiveCleanupAt := some (fin i.now) }
        [{ kind := .runDiskCleanup }] i.config)
    else some (finishTick s [] i.config)
  | .tripping =>
    match s.trippedAt with
    -- the assertion
    | none => none
    | some trippedAt => some (drainTick R s trippedAt [] i)
  | .cordoned =>
    if !s.cleanupDone then
      some (finishTick { s with cleanupDone := true } [{ kind := .runDiskCleanup }] i.config)
    else if diskPressureAllowsReadmit i.freeGb i.usedPercent i.config.thresholds then
      some (finishTick {} [{ kind := .setMaintenanceOff }] i.config)
    else some (finishTick s [] i.config)

/-! ### What a tick can do -/

inductive Outcome (s : DiskFullCordonState) (i : TickInput) : Option CordonTickResult → Prop
  | trips (phase : s.phase = .normal)
    (pressure : diskPressureTrips i.freeGb i.usedPercent i.config.thresholds = true) :
    Outcome s i (some (drainTick R
      { s with phase := .tripping, trippedAt := some (fin i.now) } (fin i.now)
      [{ kind := .setMaintenanceOn }] i))
  | proactive (phase : s.phase = .normal)
    (pressure : diskPressureTrips i.freeGb i.usedPercent i.config.thresholds = false)
    (needed : proactiveCleanupNeeded i.freeGb i.usedPercent = true)
    (cooled : ∀ last, s.lastProactiveCleanupAt = some last →
      le proactiveCleanupCooldownS (sub R (fin i.now) last)) :
    Outcome s i (some (finishTick { s with lastProactiveCleanupAt := some (fin i.now) }
      [{ kind := .runDiskCleanup }] i.config))
  | idle (phase : s.phase = .normal) : Outcome s i (some (finishTick s [] i.config))
  | fails (phase : s.phase = .tripping) (trippedAt : s.trippedAt = none) : Outcome s i none
  | drains (t : PyFloat) (phase : s.phase = .tripping) (trippedAt : s.trippedAt = some t) :
    Outcome s i (some (drainTick R s t [] i))
  | cleans (phase : s.phase = .cordoned) (cleanupDone : s.cleanupDone = false) :
    Outcome s i (some (finishTick { s with cleanupDone := true } [{ kind := .runDiskCleanup }]
      i.config))
  | readmits (phase : s.phase = .cordoned) (cleanupDone : s.cleanupDone = true)
    (pressure : diskPressureAllowsReadmit i.freeGb i.usedPercent i.config.thresholds = true) :
    Outcome s i (some (finishTick {} [{ kind := .setMaintenanceOff }] i.config))
  | waits (phase : s.phase = .cordoned) (cleanupDone : s.cleanupDone = true) :
    Outcome s i (some (finishTick s [] i.config))

/-- **A tick goes in one of these ways.** -/
theorem outcome (s : DiskFullCordonState) (i : TickInput) :
    Outcome R s i (planCordonTick R s i) := by
  unfold planCordonTick
  split
  · next hphase =>
    by_cases htrips : diskPressureTrips i.freeGb i.usedPercent i.config.thresholds = true
    · rw [if_pos htrips]
      exact .trips hphase htrips
    · rw [if_neg htrips]
      split
      · next h =>
        rw [Bool.and_eq_true] at h
        refine .proactive hphase (Bool.not_eq_true _ ▸ htrips) h.1 ?_
        intro last hlast
        simpa [hlast] using h.2
      · exact .idle hphase
  · next hphase =>
    split
    · next htripped => exact .fails hphase htripped
    · next t htripped => exact .drains t hphase htripped
  · next hphase =>
    by_cases hdone : s.cleanupDone = true
    · rw [if_neg (by simp [hdone])]
      split
      · next h => exact .readmits hphase hdone h
      · exact .waits hphase hdone
    · rw [Bool.not_eq_true] at hdone
      rw [if_pos (by simp [hdone])]
      exact .cleans hphase hdone

/-! ### Actions -/

section Actions

variable {a : CordonAction} {actions : List CordonAction}

theorem mem_of_mem_dedupeStops {seen : List String} (h : a ∈ dedupeStops seen actions) :
    a ∈ actions := by
  induction actions generalizing seen with
  | nil => cases h
  | cons b actions ih =>
    unfold dedupeStops at h
    split at h
    · split at h
      · exact List.mem_cons_of_mem b (ih h)
      · rcases List.mem_cons.mp h with rfl | h
        · exact List.mem_cons_self
        · exact List.mem_cons_of_mem b (ih h)
    · rcases List.mem_cons.mp h with rfl | h
      · exact List.mem_cons_self
      · exact List.mem_cons_of_mem b (ih h)

theorem mem_dedupeStops {seen : List String} (h : a ∈ actions) (hkind : a.kind ≠ .stopRunner) :
    a ∈ dedupeStops seen actions := by
  induction actions generalizing seen with
  | nil => cases h
  | cons b actions ih =>
    unfold dedupeStops
    rcases List.mem_cons.mp h with rfl | h
    · split
      · next hstop _ => exact absurd hstop hkind
      · exact List.mem_cons_self
    · split
      · split
        · exact ih h
        · exact List.mem_cons_of_mem b (ih h)
      · exact List.mem_cons_of_mem b (ih h)

variable {R} {next : DiskFullCordonState} {t : PyFloat} {i : TickInput}

theorem mem_drainTick (h : a ∈ (drainTick R next t actions i).actions) :
    a ∈ actions ∨ a.kind = .stopRunner ∧ ∃ r ∈ i.runners, r.active = true ∧ a.unit = some r.unit ∧
      (r.busy = false ∨ i.config.finishRunningJobs = false ∨
        le (fin i.config.timeoutSeconds) (sub R (fin i.now) t) = true) := by
  rcases List.mem_append.mp (mem_of_mem_dedupeStops h) with h | h
  · exact .inl h
  · right
    obtain ⟨r, hr, rfl⟩ := List.mem_map.mp h
    obtain ⟨hactive, hstop⟩ := List.mem_filter.mp hr
    obtain ⟨hrunner, hactive⟩ := List.mem_filter.mp hactive
    rw [Bool.or_eq_true, Bool.or_eq_true, Bool.not_eq_true', Bool.not_eq_true'] at hstop
    exact ⟨rfl, r, hrunner, hactive, rfl, hstop⟩

theorem drainTick_state (R : Rounding) (next : DiskFullCordonState) (t : PyFloat)
    (actions : List CordonAction) (i : TickInput) :
    (drainTick R next t actions i).state = next ∧ activeRunners i.runners ≠ [] ∨
      (drainTick R next t actions i).state = { next with phase := .cordoned } ∧
        activeRunners i.runners = [] := by
  unfold drainTick finishTick
  by_cases h : (activeRunners i.runners).isEmpty = true
  · exact .inr ⟨if_pos h, List.isEmpty_iff.mp h⟩
  · exact .inl ⟨if_neg h, fun hnil => h (List.isEmpty_iff.mpr hnil)⟩

end Actions

end Cordon
