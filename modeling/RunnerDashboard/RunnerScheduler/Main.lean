import RunnerDashboard.Lib.PyFloat
import RunnerDashboard.Lib.PyStr
import RunnerDashboard.RunnerScheduler.Tick

/-!
# A run of the runner scheduler

`main` reads its options and the configuration, lists the units, computes how many of them are to be
active, and has a tick bring that about.  Without `--apply`, or with `--dry-run`, it shows what it
would do.
-/

namespace SchedulerMain

open Asking
open RunnerScheduler (RunnerUnit Settings Stopped Action Active StopReply)

/-! ### Configuration -/

/-- An entry of the schedule; times are in microseconds, days are counted from Monday. -/
structure Entry where
  start : ℕ
  stop : ℕ
  days : List ℕ
  runners : ℤ

/-- `resource_floor`. -/
structure Floor where
  diskPath : String := "/"
  minDiskFreeGb : Option PyFloat := none
  readmitDiskFreeGb : Option PyFloat := none
  minMemAvailableGb : Option PyFloat := none
  maxMemoryPressureAvg60 : Option PyFloat := none
  runners : ℤ := 1

/-- What `load_config` returns. -/
structure Config where
  enabled : Bool := true
  defaultCount : ℤ := 1
  maxCount : Option ℤ := none
  schedules : List Entry := []
  floor : Option Floor := none

/-- The options. -/
structure Args where
  apply : Bool := false
  dryRun : Bool := false
  target : Option ℤ := none
  drain : Bool := false
  reboot : Bool := false
  resume : Bool := false
  drainTimeout : ℚ := 3600
  stopUnit : Option String := none

/-- `args.dry_run or not args.apply`. -/
def Args.preview (args : Args) : Bool := args.dryRun || !args.apply

/-- `args.stop_unit`, if it is not empty. -/
def Args.unit? (args : Args) : Option String := args.stopUnit.filter fun unit => unit ≠ ""

/-! ### The host -/

/-- A lock of a job: whether it is young enough to count, whether its text can be read, whether the
worker that the text names is gone, and whether the file can be removed. -/
structure Lock where
  fresh : Bool := true
  readable : Bool := true
  workerPidStale : Bool := false
  removable : Bool := true
  deriving DecidableEq

/-- What the probes of the host say. -/
structure Readings where
  workdir : String → Option String
  agentName : String → Option String
  pickup : String → Bool
  weekday : ℕ
  time : ℕ
  diskFreeGb : String → Option PyFloat
  memAvailableGb : Option PyFloat
  memoryPressureAvg60 : Option PyFloat
  latchOpens : Bool
  latchRemovable : Bool
  maintenanceWritable : Bool

structure State where
  desired : ℤ
  units : List RunnerUnit
  actions : List Action
  maintenance : Option (Bool × Bool × Bool)

/-- The units, and the files of the scheduler. -/
structure Files where
  active : Active
  maintenance : Bool
  latch : Bool
  locks : String → Option Lock
  state : Option State

structure Host where
  readings : Readings
  files : Files

/-! ### Calls -/

/-- A call that `main` makes. -/
inductive Query
  /-- `systemctl list-unit-files`: the lines. -/
  | unitFiles
  | unitWorkdir (unit : String)
  | unitActive (unit : String)
  | agentName (workdir : String)
  | pickup (workdir : String)
  | diag (workdir : String)
  | process (workdir : String)
  | lock (name : String)
  | unlinkLock (name : String)
  | now
  | diskFreeGb (path : String)
  | memAvailableGb
  | memoryPressureAvg60
  | latchExists
  | writeLatch
  | unlinkLatch
  | maintenanceActive
  | setMaintenance (active : Bool)
  | start (unit : String)
  | stopRunnerSafely (unit : String)
  | monotonic
  | writeState (state : State)
  | reboot

/-- What is answered; a call that may raise says whether it did not. -/
def Answer : Query → Type
  | .unitFiles => List String
  | .unitWorkdir _ => Option String
  | .unitActive _ => Bool
  | .agentName _ => Option String
  | .pickup _ => Bool
  | .diag _ => Bool
  | .process _ => Bool
  | .lock _ => Option Lock
  | .unlinkLock _ => Bool
  | .now => ℕ × ℕ
  | .diskFreeGb _ => Option PyFloat
  | .memAvailableGb => Option PyFloat
  | .memoryPressureAvg60 => Option PyFloat
  | .latchExists => Bool
  | .writeLatch => Unit
  | .unlinkLatch => Bool
  | .maintenanceActive => Bool
  | .setMaintenance _ => Bool
  | .start _ => Bool
  | .stopRunnerSafely _ => StopReply
  | .monotonic => ℚ
  | .writeState _ => Bool
  | .reboot => Unit

/-- Time passes: the probes say something else, jobs begin and end, and units start and stop. -/
def Passes (h h' : Host) : Prop := ∃ active locks, h'.files = { h.files with active, locks }

/-- Whether the flag of the maintenance can be set or removed; one that is not there is. -/
def Host.canSet (h : Host) (active : Bool) : Bool :=
  h.readings.maintenanceWritable || (!active && !h.files.maintenance)

/-- What a call answers and does.  The listing of the units and the looks at their processes may say
anything, the other ones say what is.  A listing or a probe that raises is not modelled: it ends the
run. -/
inductive Env : Host → (q : Query) → Answer q → Host → Prop
  | unitFiles (h : Host) (lines : List String) : Env h .unitFiles lines h
  | unitWorkdir (h : Host) (unit : String) : Env h (.unitWorkdir unit) (h.readings.workdir unit) h
  | unitActive (h : Host) (unit : String) (active : Bool) : Env h (.unitActive unit) active h
  | agentName (h : Host) (workdir : String) :
    Env h (.agentName workdir) (h.readings.agentName workdir) h
  | pickup (h : Host) (workdir : String) : Env h (.pickup workdir) (h.readings.pickup workdir) h
  | diag (h : Host) (workdir : String) (busy : Bool) : Env h (.diag workdir) busy h
  | process (h : Host) (workdir : String) (busy : Bool) : Env h (.process workdir) busy h
  | lock (h : Host) (name : String) : Env h (.lock name) (h.files.locks name) h
  | unlinkLock (h : Host) (name : String) :
    Env h (.unlinkLock name) ((h.files.locks name).all (·.removable))
      (if (h.files.locks name).all (·.removable) then
        { h with files := { h.files with
            locks := fun other => if other = name then none else h.files.locks other } }
      else h)
  | now (h : Host) : Env h .now (h.readings.weekday, h.readings.time) h
  | diskFreeGb (h : Host) (path : String) :
    Env h (.diskFreeGb path) (h.readings.diskFreeGb path) h
  | memAvailableGb (h : Host) : Env h .memAvailableGb h.readings.memAvailableGb h
  | memoryPressureAvg60 (h : Host) : Env h .memoryPressureAvg60 h.readings.memoryPressureAvg60 h
  | latchExists (h : Host) : Env h .latchExists h.files.latch h
  | writeLatch (h : Host) :
    Env h .writeLatch ()
      { h with files := { h.files with latch := h.files.latch || h.readings.latchOpens } }
  | unlinkLatch (h : Host) :
    Env h .unlinkLatch h.readings.latchRemovable
      { h with files := { h.files with latch := h.files.latch && !h.readings.latchRemovable } }
  | maintenanceActive (h : Host) : Env h .maintenanceActive h.files.maintenance h
  | setMaintenance (h : Host) (active : Bool) :
    Env h (.setMaintenance active) (h.canSet active)
      (if h.canSet active then { h with files := { h.files with maintenance := active } } else h)
  | start (h h' : Host) (unit : String) (ok : Bool) (hpasses : Passes h h') :
    Env h (.start unit) ok h'
  | stopRunnerSafely (h h' : Host) (unit : String) (reply : StopReply) (hpasses : Passes h h') :
    Env h (.stopRunnerSafely unit) reply h'
  | monotonic (h h' : Host) (now : ℚ) (hpasses : Passes h h') : Env h .monotonic now h'
  | writeState (h : Host) (state : State) (ok : Bool) :
    Env h (.writeState state) ok
      (if ok then { h with files := { h.files with state := some state } } else h)
  | reboot (h : Host) : Env h .reboot () h

/-- A program of `main`. -/
abbrev Program := Prog Query Answer

section Calls

variable (unit workdir name path : String) (active : Bool)

def unitFiles : Program (List String) := Prog.call Query.unitFiles

def unitWorkdir : Program (Option String) := Prog.call (Query.unitWorkdir unit)

def unitActive : Program Bool := Prog.call (Query.unitActive unit)

def agentName : Program (Option String) := Prog.call (Query.agentName workdir)

def runnerBusyViaPickup : Program Bool := Prog.call (Query.pickup workdir)

def runnerBusyViaDiag : Program Bool := Prog.call (Query.diag workdir)

def runnerBusyViaProcess : Program Bool := Prog.call (Query.process workdir)

def readLock : Program (Option Lock) := Prog.call (Query.lock name)

def unlinkLock : Program Bool := Prog.call (Query.unlinkLock name)

/-- `datetime.now(tz)`: the day and the time. -/
def now : Program (ℕ × ℕ) := Prog.call Query.now

def diskFreeGb : Program (Option PyFloat) := Prog.call (Query.diskFreeGb path)

def memAvailableGb : Program (Option PyFloat) := Prog.call Query.memAvailableGb

/-- `pressure_avg60("memory")`. -/
def memoryPressureAvg60 : Program (Option PyFloat) := Prog.call Query.memoryPressureAvg60

def latchExists : Program Bool := Prog.call Query.latchExists

def writeLatch : Program Unit := Prog.call Query.writeLatch

def unlinkLatch : Program Bool := Prog.call Query.unlinkLatch

def maintenanceActive : Program Bool := Prog.call Query.maintenanceActive

def setMaintenance : Program Bool := Prog.call (Query.setMaintenance active)

def systemctlStart : Program Bool := Prog.call (Query.start unit)

def stopRunnerSafely : Program StopReply := Prog.call (Query.stopRunnerSafely unit)

def monotonic : Program ℚ := Prog.call Query.monotonic

def writeState (state : State) : Program Bool := Prog.call (Query.writeState state)

def systemctlReboot : Program Unit := Prog.call Query.reboot

end Calls

/-! ### What is seen of the units -/

/-- `Path(workdir).name`. -/
def pathName (workdir : String) : String :=
  let parts := (workdir.toList.splitOnP (· = '/')).filter fun part => part ≠ [] ∧ part ≠ ['.']
  String.ofList (parts.getLast?.getD [])

/-- The number that a text ends with, after a mark. -/
def trailingNumber (mark s : List Char) : Option ℤ :=
  let digits := s.rtakeWhile Char.isDigit
  if digits = [] ∨ ¬ mark <:+ s.rdropWhile Char.isDigit then none
  else some (Nat.ofDigitChars 10 digits 0)

def runnerNum (unit : String) (workdir : Option String) : Option ℤ :=
  (workdir.bind fun path => trailingNumber "runner-".toList path.toList).orElse fun _ =>
    if ".service".toList <:+ unit.toList then
      trailingNumber "-".toList (unit.toList.take (unit.length - ".service".length))
    else none

/-- The last part of the name of a unit, without `.service`. -/
def unitSuffix (unit : String) : String :=
  let name := if ".service".toList <:+ unit.toList
    then unit.toList.take (unit.length - ".service".length) else unit.toList
  String.ofList (name.rtakeWhile (· ≠ '.'))

def runnerNames (workdir unit : String) : Program (List String) := do
  let agent ← agentName workdir
  let names := [pathName workdir] ++ (agent.filter (· ≠ "")).toList ++
    [unitSuffix unit].filter (· ≠ "")
  pure names.eraseDups

def busyViaLocks (cleanupStale : Bool) : List String → Program Bool
  | [] => pure false
  | name :: names => do
    let lock ← readLock name
    match lock with
    | none => busyViaLocks cleanupStale names
    | some lock =>
      if !lock.fresh then busyViaLocks cleanupStale names
      else if !lock.readable || !lock.workerPidStale then pure true
      else if !cleanupStale then busyViaLocks cleanupStale names
      else do
        let ok ← unlinkLock name
        if ok then busyViaLocks cleanupStale names else pure true

def runnerBusyViaLock (workdir unit : String) (cleanupStale : Bool) : Program Bool := do
  let names ← runnerNames workdir unit
  busyViaLocks cleanupStale names

def runnerBusy (workdir unit : String) (cleanupStale : Bool) : Program Bool := do
  let pickup ← runnerBusyViaPickup workdir
  if pickup then pure true
  else do
    let lock ← runnerBusyViaLock workdir unit cleanupStale
    if lock then pure true
    else do
      let diag ← runnerBusyViaDiag workdir
      if diag then pure true else runnerBusyViaProcess workdir

def lookupUnit (unit : String) (cleanupStale : Bool) : Program (Option RunnerUnit) := do
  let workdir ← unitWorkdir unit
  match workdir with
  | none => pure none
  | some workdir => do
    let active ← unitActive unit
    let busy ← runnerBusy workdir unit cleanupStale
    pure (some ⟨(runnerNum unit (some workdir)).getD 0, unit, workdir, active, busy⟩)

/-- The loop of `list_units`. -/
def listUnitsFrom (root : String) (cleanupStale : Bool) :
    List String → Program (List RunnerUnit)
  | [] => pure []
  | line :: lines => do
    let name := String.ofList ((Py.splitSpaces line.toList).headD [])
    if !Py.startsWith name "actions.runner." || !decide (".service".toList <:+ name.toList) then
      listUnitsFrom root cleanupStale lines
    else do
      let workdir ← unitWorkdir name
      match workdir, runnerNum name workdir with
      | some workdir, some num =>
        if !Py.startsWith workdir (root ++ "/runner-") then listUnitsFrom root cleanupStale lines
        else do
          let active ← unitActive name
          let busy ← runnerBusy workdir name cleanupStale
          let units ← listUnitsFrom root cleanupStale lines
          pure (⟨num, name, workdir, active, busy⟩ :: units)
      | _, _ => listUnitsFrom root cleanupStale lines

/-- `list_units`; the sort is stable. -/
def listUnits (root : String) (cleanupStale : Bool) : Program (List RunnerUnit) := do
  let lines ← unitFiles
  let units ← listUnitsFrom root cleanupStale lines
  pure (units.mergeSort fun u v => u.num ≤ v.num)

/-! ### Capacity -/

def Config.capped (config : Config) (count : ℤ) : ℤ :=
  match config.maxCount with
  | none => count
  | some maximum => min count maximum

/-- `schedule_matches`. -/
def Entry.matches (entry : Entry) (weekday time : ℕ) : Bool :=
  let today := entry.days.contains weekday
  let yesterday := entry.days.contains ((weekday + 6) % 7)
  if entry.start ≤ entry.stop then today && entry.start ≤ time && time < entry.stop
  else (today && entry.start ≤ time) || (yesterday && time < entry.stop)

def desiredCapacity (config : Config) (target : Option ℤ) (weekday time : ℕ) : ℤ :=
  match target with
  | some count => config.capped count
  | none =>
    if !config.enabled then config.capped config.defaultCount
    else match config.schedules.find? fun entry => entry.matches weekday time with
      | some entry => config.capped entry.runners
      | none => config.capped config.defaultCount

/-- `disk_floor_breach`, where the floor of the disk is set: whether it is breached; `none` where
the latch cannot be removed. -/
def diskFloorBreach (floor : Floor) (minimum : PyFloat) : Program (Option Bool) := do
  let free ← diskFreeGb floor.diskPath
  match free with
  | none => pure (some false)
  | some free =>
    if free.lt minimum then
      match floor.readmitDiskFreeGb with
      | none => pure (some true)
      | some _ => do
        let latched ← latchExists
        if latched then pure (some true)
        else do
          let _ ← writeLatch
          pure (some true)
    else
      match floor.readmitDiskFreeGb with
      | none => pure (some false)
      | some readmit => do
        let latched ← latchExists
        if !latched then pure (some false)
        else if free.lt readmit then pure (some true)
        else do
          let ok ← unlinkLatch
          if ok then pure (some false) else pure none

def diskBreached (floor : Floor) : Program (Option Bool) :=
  match floor.minDiskFreeGb with
  | none => pure (some false)
  | some minimum => diskFloorBreach floor minimum

/-- Whether the floor of the memory is breached, if it is set. -/
def memBreached (floor : Floor) : Program Bool :=
  match floor.minMemAvailableGb with
  | none => pure false
  | some minimum => do
    let available ← memAvailableGb
    pure (available.any fun available => available.lt minimum)

/-- Whether the bound of the memory pressure is exceeded, if it is set. -/
def pressureBreached (floor : Floor) : Program Bool :=
  match floor.maxMemoryPressureAvg60 with
  | none => pure false
  | some maximum => do
    let psi ← memoryPressureAvg60
    pure (psi.any fun psi => maximum.lt psi)

/-- `resource_floor_breaches`: whether there are some; `none` where it raises. -/
def resourceFloorBreaches (floor : Floor) : Program (Option Bool) := do
  let disk ← diskBreached floor
  match disk with
  | none => pure none
  | some disk => do
    let mem ← memBreached floor
    let pressure ← pressureBreached floor
    pure (some (disk || mem || pressure))

def applyResourceFloor (config : Config) (desired : ℤ) : Program (Option ℤ) :=
  match config.floor with
  | none => pure (some desired)
  | some floor => do
    let breached ← resourceFloorBreaches floor
    pure (breached.map fun breached => if breached then min desired floor.runners else desired)

/-- `effective_capacity`; `none` where it raises. -/
def effectiveCapacity (config : Config) (target : Option ℤ) : Program (Option ℤ) := do
  let maintenance ← maintenanceActive
  if maintenance then pure (some 0)
  else do
    let (weekday, time) ← now
    applyResourceFloor config (desiredCapacity config target weekday time)

/-! ### The run -/

/-- What becomes of a run: the exit code, or none where it raises; the capacity, if it was computed;
and whether the host is rebooted. -/
structure Result where
  code : Option ℤ
  desired : Option ℤ := none
  rebooting : Bool := false
  deriving DecidableEq

def tickCall (units : List RunnerUnit) (cleanupStale : Bool) :
    (q : RunnerScheduler.Query) → Program (RunnerScheduler.Answer q)
  | .runnerBusy unit => runnerBusy (workdirOf units unit) unit cleanupStale
  | .workerBusy unit => do
    let busy ← runnerBusyViaProcess (workdirOf units unit)
    if busy then pure true else runnerBusyViaLock (workdirOf units unit) unit true
  | .start unit => systemctlStart unit
  | .stopRunnerSafely unit _ => stopRunnerSafely unit
  | .monotonic => monotonic
where
  workdirOf (units : List RunnerUnit) (unit : String) : String :=
    ((units.find? fun u => u.unit = unit).map (·.workdir)).getD ""

variable (cfg : Settings) (root : String) (fuel : ℕ)

def stopUnitByName (unit : String) : Program (Except RunnerStop.Failure Bool) := do
  let found ← lookupUnit unit true
  match found with
  | none => pure (.ok false)
  | some u => do
    let reply ← stopRunnerSafely u.unit
    pure reply.result

/-- The end of `main`: the state is built, and written by an applied run. -/
def finish (args : Args) (desired : ℤ) (actions : List Action) (report : Option Bool) :
    Program Result := do
  let units ← listUnits root false
  let maintenance ← maintenanceActive
  let rebooting := report.getD false
  let online := units.filter fun u => u.active || u.busy
  let state : State := ⟨desired, units, actions,
    if report.isSome || maintenance then
      some (maintenance || rebooting, online.isEmpty, rebooting) else none⟩
  if args.preview then pure ⟨some 0, some desired, rebooting⟩
  else do
    let ok ← writeState state
    pure ⟨if ok then some 0 else none, some desired, rebooting⟩

/-- `reboot_if_drained`; `none` where it raises. -/
def rebootIfDrained (drained : Bool) : Program (Option Bool) :=
  if !drained then pure (some false)
  else do
    let ok ← setMaintenance false
    if !ok then pure none
    else do
      let _ ← systemctlReboot
      pure (some true)

/-- `run_maintenance_drain` and the reboot after it. -/
def maintenanceRun (args : Args) (units : List RunnerUnit) : Program Result := do
  let ok ← setMaintenance true
  if !ok then pure ⟨none, none, false⟩
  else do
    let active := units.filter (·.active)
    let drained ← (RunnerScheduler.drainSurplus cfg fuel active 0 false
      (some args.drainTimeout)).handle (tickCall units true)
    match drained with
    | .error _ => pure ⟨none, some 0, false⟩
    | .ok actions => do
      let remaining := active.filter fun u => u.unit ∉ actions.filterMap (·.stopped)
      if !args.reboot then finish root args 0 actions (some false)
      else do
        let rebooted ← rebootIfDrained remaining.isEmpty
        match rebooted with
        | none => pure ⟨none, some 0, false⟩
        | some rebooted => finish root args 0 actions (some rebooted)

def tickRun (args : Args) (config : Config) (units : List RunnerUnit) : Program Result := do
  let capacity ← effectiveCapacity config args.target
  match capacity with
  | none => pure ⟨none, none, false⟩
  | some desired => do
    let ticked ← (RunnerScheduler.schedulerTick cfg fuel units desired args.preview).handle
      (tickCall units (!args.preview))
    match ticked with
    | .error _ => pure ⟨none, some desired, false⟩
    | .ok actions => finish root args desired actions none

/-- The maintenance hold is removed by an applied `--resume`. -/
def clearHold (args : Args) : Program Bool :=
  if args.resume && !args.preview then setMaintenance false else pure true

/-- The part of `main` for the schedule. -/
def scheduleRun (args : Args) (config : Config) : Program Result := do
  let resumed ← clearHold args
  if !resumed then pure ⟨none, none, false⟩
  else do
    let units ← listUnits root (!args.preview)
    if args.drain && !args.preview then maintenanceRun cfg root fuel args units
    else tickRun cfg root fuel args config units

def stopCode : Except RunnerStop.Failure Bool → Option ℤ
  | .error _ => none
  | .ok ok => some (if ok then 0 else 1)

/-- The part of `main` for one unit. -/
def stopRun (args : Args) (unit : String) : Program Result := do
  let found ← lookupUnit unit (!args.dryRun)
  match found with
  | none => pure ⟨some 2, none, false⟩
  | some _ =>
    if args.preview then pure ⟨some 0, none, false⟩
    else do
      let stopped ← stopUnitByName unit
      pure ⟨stopCode stopped, none, false⟩

/-- `main`; the configuration is `none` where `load_config` raises. -/
def main (args : Args) (config : Option Config) : Program Result :=
  if args.reboot && !args.drain then pure ⟨some 2, none, false⟩
  else if args.drain && args.resume then pure ⟨some 2, none, false⟩
  else match args.unit? with
    | some unit =>
      if args.drain || args.resume || args.target.isSome then pure ⟨some 2, none, false⟩
      else stopRun args unit
    | none =>
      match config with
      | none => pure ⟨none, none, false⟩
      | some config => scheduleRun cfg root fuel args config

end SchedulerMain
