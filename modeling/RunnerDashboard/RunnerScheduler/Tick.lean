import Mathlib.Data.List.Dedup
import Mathlib.Data.List.Perm.Subperm
import RunnerDashboard.RunnerScheduler.StopSafely

/-!
# A tick of the runner scheduler

The scheduler looks at the units once, starts and stops some of them to reach a number of active
ones, and then polls those that are left over until they are idle for some time.  What the probes
answer is up to the host, and a stop is a run of `stop_runner_safely`.

## Main definitions

* `StopRun`, `Env` — what a stop and the other calls do to the units.
* `LeavesActive`, `CarefulEnv` — a stop that answers `False` leaves its unit active.
* `applyCapacity`, `drainSurplus`, `schedulerTick` — the two parts, and the tick.
-/

namespace RunnerScheduler

open Asking Lts

/-! ### Units -/

structure RunnerUnit where
  num : ℤ
  unit : String
  workdir : String
  active : Bool
  busy : Bool
  deriving DecidableEq

/-- What `list_units` finds: no unit is there twice. -/
structure Units where
  list : List RunnerUnit
  nodup : (list.map (·.unit)).Nodup

/-- The settings of the environment, in seconds. -/
structure Settings where
  stopRecheckDelaySeconds : ℚ := 3
  drainMaxSeconds : ℚ := 240
  drainSettleSeconds : ℚ := 30

/-- The actions that are reported. -/
inductive Action
  | start (runner : ℤ) (unit : String)
  | stop (runner : ℤ) (unit : String) (drain : Bool)
  deriving DecidableEq

def Action.stopped : Action → Option String
  | .start _ _ => none
  | .stop _ unit _ => some unit

/-! ### Calls -/

/-- A call that the scheduler makes. -/
inductive Query
  /-- `runner_busy`. -/
  | runnerBusy (unit : String)
  /-- `runner_busy_via_process or runner_busy_via_lock`. -/
  | workerBusy (unit : String)
  /-- `systemctl start`. -/
  | start (unit : String)
  /-- `stop_runner_safely`, of `apply_capacity` or of `drain_surplus`. -/
  | stopRunnerSafely (unit : String) (drain : Bool)
  | monotonic

/-- How `stop_runner_safely` ends, and whether the unit is down after it, which its caller does not
see. -/
structure StopReply where
  result : Except RunnerStop.Failure Bool
  down : Bool

/-- Whether a unit is busy, whether a start succeeds, how a stop ends, and a time. -/
def Answer : Query → Type
  | .runnerBusy _ => Bool
  | .workerBusy _ => Bool
  | .start _ => Bool
  | .stopRunnerSafely _ _ => StopReply
  | .monotonic => ℚ

abbrev Active := String → Bool

def Active.set (s : Active) (unit : String) (active : Bool) : Active :=
  fun other => if other = unit then active else s other

/-- A run of `stop_runner_safely` on a unit.  The unit does not go down unless the run sends it a
signal or queues a stop. -/
inductive StopRun (active : Bool) : StopReply → Prop
  | intro {wait : ℚ} {fuel : ℕ} {w w' : RunnerStop.RunnerUnit}
    {tr : List (Call RunnerStop.Answer)} {result : Except RunnerStop.Failure Bool}
    (run : Path (Step RunnerStop.Env) (RunnerStop.stopRunnerSafely wait fuel, w) tr
      (.ret result, w'))
    (ended : result ≠ .error .outOfFuel) (before : w.inactive = !active)
    (own : w'.inactive = true → w.inactive = true ∨ ∃ e ∈ tr, e.1.Ends) :
    StopRun active ⟨result, w'.inactive⟩

/-- Units change by starts and stops only.  A start that fails may have started the unit.  A probe
or a start that raises ends the tick, and no call follows it: this is not modelled. -/
inductive Env : Active → (q : Query) → Answer q → Active → Prop
  | runnerBusy (s : Active) (unit : String) (busy : Bool) : Env s (.runnerBusy unit) busy s
  | workerBusy (s : Active) (unit : String) (busy : Bool) : Env s (.workerBusy unit) busy s
  | monotonic (s : Active) (now : ℚ) : Env s .monotonic now s
  | started (s : Active) (unit : String) (ok : Bool) : Env s (.start unit) ok (s.set unit true)
  | startFailed (s : Active) (unit : String) : Env s (.start unit) false s
  | stop (s : Active) (unit : String) (drain : Bool) {reply : StopReply}
    (run : StopRun (s unit) reply) :
    Env s (.stopRunnerSafely unit drain) reply (s.set unit (!reply.down))

/-- **A stop that answers `False` leaves its unit active.** -/
def LeavesActive : (q : Query) → Answer q → Prop
  | .stopRunnerSafely _ _, reply => reply.result = .ok false → reply.down = false
  | .runnerBusy _, _ => True
  | .workerBusy _, _ => True
  | .start _, _ => True
  | .monotonic, _ => True

/-- The calls of a host whose stops do so. -/
def CarefulEnv (s : Active) (q : Query) (answer : Answer q) (s' : Active) : Prop :=
  Env s q answer s' ∧ LeavesActive q answer

abbrev Program := Prog Query Answer

def runnerBusy (u : RunnerUnit) : Program Bool := Prog.call (Query.runnerBusy u.unit)

/-- `runner_busy_via_process or runner_busy_via_lock`. -/
def workerBusy (u : RunnerUnit) : Program Bool := Prog.call (Query.workerBusy u.unit)

/-- `systemctl start`: whether it returns zero. -/
def systemctlStart (u : RunnerUnit) : Program Bool := Prog.call (Query.start u.unit)

def stopRunnerSafely (u : RunnerUnit) (drain : Bool) : Program StopReply :=
  Prog.call (Query.stopRunnerSafely u.unit drain)

def monotonic : Program ℚ := Prog.call Query.monotonic

/-- What ends a tick early; the last is the end of what a model of the loop runs. -/
inductive Stopped
  | valueError
  | assertionError
  | raised
  | outOfFuel
  deriving DecidableEq

/-! ### Capacity -/

variable (cfg : Settings)

def confirmedIdle (unit : RunnerUnit) (settle : Bool) : Program Bool := do
  let busy ← runnerBusy unit
  if busy then pure false
  else if settle && decide (0 < cfg.stopRecheckDelaySeconds) then do
    let busy ← runnerBusy unit
    pure (!busy)
  else pure true

def startMissing (dryRun : Bool) : List RunnerUnit → List Action → Program (List Action)
  | [], actions => pure actions
  | u :: us, actions => do
    if dryRun then startMissing dryRun us (actions ++ [.start u.num u.unit])
    else do
      let _ ← systemctlStart u
      startMissing dryRun us (actions ++ [.start u.num u.unit])

/-- The units that are too many are stopped, if they are idle. -/
def stopSurplus (dryRun : Bool) (needed : ℕ) :
    List RunnerUnit → ℕ → List Action → Program (Except Stopped (List Action))
  | [], _, actions => pure (.ok actions)
  | u :: us, stopped, actions => do
    if needed ≤ stopped then pure (.ok actions)
    else do
      let idle ← confirmedIdle cfg u (!dryRun)
      if !idle then stopSurplus dryRun needed us stopped actions
      else if dryRun then
        stopSurplus dryRun needed us (stopped + 1) (actions ++ [.stop u.num u.unit false])
      else do
        let reply ← stopRunnerSafely u false
        match reply.result with
        | .error _ => pure (.error .raised)
        | .ok false => stopSurplus dryRun needed us stopped actions
        | .ok true =>
          stopSurplus dryRun needed us (stopped + 1) (actions ++ [.stop u.num u.unit false])

/-- A unit beyond the first ones is exchanged for a missing one of them. -/
def swap (dryRun : Bool) (missing surplus : RunnerUnit) (actions : List Action) :
    Program (Except Stopped (List Action)) := do
  let idle ← confirmedIdle cfg surplus (!dryRun)
  if !idle then pure (.ok actions)
  else if dryRun then
    pure (.ok (actions ++ [.start missing.num missing.unit, .stop surplus.num surplus.unit false]))
  else do
    let started ← systemctlStart missing
    if !started then pure (.ok actions)
    else do
      let actions := actions ++ [.start missing.num missing.unit]
      let reply ← stopRunnerSafely surplus false
      match reply.result with
      | .error _ => pure (.error .raised)
      | .ok false => pure (.ok actions)
      | .ok true => pure (.ok (actions ++ [.stop surplus.num surplus.unit false]))

def descending (units : List RunnerUnit) : List RunnerUnit :=
  units.mergeSort fun u v => v.num ≤ u.num

/-- `max(0, min(desired, len(units)))`. -/
def clamped (units : List RunnerUnit) (desired : ℤ) : ℕ := (min desired units.length).toNat

def applyCapacity (units : List RunnerUnit) (desired : ℤ) (dryRun : Bool) :
    Program (Except Stopped (List Action)) :=
  if ¬ (units.map (·.num)).Pairwise (· ≤ ·) then pure (.error .valueError)
  else do
    let count := clamped units desired
    let active := units.filter (·.active)
    if active.length < count then do
      let actions ← startMissing dryRun
        ((units.filter fun u => !u.active && !u.busy).take (count - active.length)) []
      pure (.ok actions)
    else if count < active.length then
      stopSurplus cfg dryRun (active.length - count)
        (descending (active.filter fun u => !u.busy)) 0 []
    else
      let first := units.take count
      match first.find? (fun u => !u.active && !u.busy),
        active.reverse.find? fun u => u ∉ first && !u.busy with
      | some missing, some surplus => swap cfg dryRun missing surplus []
      | _, _ => pure (.ok [])

/-! ### Drain -/

def betweenJobs (unit : RunnerUnit) : Program Bool := do
  let busy ← workerBusy unit
  if busy then pure false
  else do
    let busy ← workerBusy unit
    pure (!busy)

/-- The variables of the loop of `drain_surplus`. -/
structure Drain where
  remaining : List RunnerUnit
  idleSince : String → Option ℚ := fun _ => none
  actions : List Action := []

/-- `idle_since.pop(unit, None)`, and `idle_since.setdefault(unit, now)`. -/
def Drain.setIdle (d : Drain) (unit : String) (since : Option ℚ) : Drain :=
  { d with idleSince := fun other => if other = unit then since else d.idleSince other }

def Drain.stop (d : Drain) (u : RunnerUnit) : Drain :=
  { d with
    remaining := d.remaining.erase u
    actions := d.actions ++ [.stop u.num u.unit true] }

def drainPoll (desired : ℕ) : List RunnerUnit → Drain → Program (Except Stopped Drain)
  | [], d => pure (.ok d)
  | u :: us, d => do
    if d.remaining.length ≤ desired then pure (.ok d)
    else do
      let idle ← betweenJobs u
      if !idle then drainPoll desired us (d.setIdle u.unit none)
      else do
        let now ← monotonic
        let since := (d.idleSince u.unit).getD now
        if now - since < cfg.drainSettleSeconds then
          drainPoll desired us (d.setIdle u.unit (some since))
        else if ¬ desired < d.remaining.length then pure (.error .assertionError)
        else do
          let reply ← stopRunnerSafely u true
          match reply.result with
          | .error _ => pure (.error .raised)
          | .ok false => drainPoll desired us (d.setIdle u.unit (some since))
          | .ok true => drainPoll desired us ((d.setIdle u.unit (some since)).stop u)

/-- The loop of `drain_surplus`. -/
def drainLoop (desired : ℕ) (deadline : ℚ) : ℕ → Drain → Program (Except Stopped (List Action))
  | 0, _ => pure (.error .outOfFuel)
  | fuel + 1, d => do
    if ¬ desired < d.remaining.length then pure (.ok d.actions)
    else do
      let now ← monotonic
      if ¬ now < deadline then pure (.ok d.actions)
      else do
        let polled ← drainPoll cfg desired d.remaining d
        match polled with
        | .error e => pure (.error e)
        | .ok d => drainLoop desired deadline fuel d

def drainSurplus (fuel : ℕ) (units : List RunnerUnit) (desired : ℤ) (dryRun : Bool)
    (maxSeconds : Option ℚ) : Program (Except Stopped (List Action)) := do
  let budget := maxSeconds.getD cfg.drainMaxSeconds
  if dryRun || decide (budget ≤ 0) then pure (.ok [])
  else do
    let start ← monotonic
    drainLoop cfg desired.toNat (start + budget) fuel
      { remaining := descending (units.filter (·.active)) }

/-- The units that are told to be inactive as they were stopped. -/
def patched (units : List RunnerUnit) (actions : List Action) : List RunnerUnit :=
  units.map fun u =>
    if u.unit ∈ actions.filterMap (·.stopped) then { u with active := false } else u

/-- The part of `main` that applies the capacity and drains what is left over. -/
def schedulerTick (fuel : ℕ) (units : List RunnerUnit) (desired : ℤ) (dryRun : Bool) :
    Program (Except Stopped (List Action)) := do
  let applied ← applyCapacity cfg units desired dryRun
  match applied with
  | .error e => pure (.error e)
  | .ok actions => do
    let drained ← drainSurplus cfg fuel (patched units actions) desired dryRun none
    match drained with
    | .error e => pure (.error e)
    | .ok more => pure (.ok (actions ++ more))

end RunnerScheduler
