import RunnerDashboard.Autoscaler.LeaseGuard

/-!
# The poll loop of the autoscaler

At each tick the host is sampled, the units of the runners are sorted into pools, and in each pool
idle runners are stopped, if there are more than the schedule asks for or the host is overloaded, or
runners are started, if it has recovered.

Instants and durations are integers in one unit, those of the leases included.

## Main results

* `length_stops_le` — **no more than are active above the minimum.**
-/

namespace Autoscaler

/-! ### Settings -/

inductive Pool
  | default
  | nvme
  | hdd
  deriving DecidableEq, Repr

/-- What `_get_pool_config` returns, as far as the loop reads it. -/
structure PoolConfig where
  minOnline : ℤ
  maxOnline : ℤ
  defaultOnline : ℤ
  labels : List String := []
  startEnabled : Bool := true
  stopEnabled : Bool := true

structure Thresholds where
  cpuHigh : Float
  cpuLow : Float
  memHigh : Float
  diskHigh : Float
  diskMinFreeGb : Float
  loadPerCore : Float
  ioPressureFullHigh : Float
  ioPressureFullLow : Float
  nvmeCacheHigh : Float
  nvmeDiskHigh : Float
  nvmeMinFreeGb : Float
  hddIoHigh : Float
  hddDiskHigh : Float
  hddMinFreeGb : Float

structure Config where
  py : Conversions
  thresholds : Thresholds
  /-- `sum(xs) / len(xs)`. -/
  mean : List Float → Float
  sustainSecs : ℕ
  pollSeconds : ℕ
  /-- `MIN_ONLINE`. -/
  minOnline : ℕ
  nvme : PoolConfig
  hdd : PoolConfig
  maxStep : ℕ
  actionCooldown : ℕ
  cooldown : ℤ
  filterStartLabels : List String := []
  filterStopLabels : List String := []
  /-- Whether the name of a runner matches the pattern of the pool. -/
  matchesNvme : String → Bool
  matchesHdd : String → Bool

/-! ### Samples -/

structure DefaultSample where
  ioFull : Float
  cpu : Float
  mem : Float
  load : Float
  disk : Float
  diskFree : Float

structure NvmeSample where
  cachePressure : Float
  disk : Float
  diskFree : Float

structure HddSample where
  ioPressure : Float
  disk : Float
  diskFree : Float

/-- What `_sample_all_pools` returns. -/
structure Sample where
  default : DefaultSample
  nvme : NvmeSample
  hdd : HddSample

/-- `min` of a list, which is zero where there is none. -/
def minOf : List Float → Float
  | [] => 0
  | x :: xs => xs.foldl (fun least y => if y < least then y else least) x

namespace Config

variable (c : Config)

def historyLen : ℕ := max 3 (c.sustainSecs / max c.pollSeconds 1)

def getPoolConfig : Pool → PoolConfig
  | .default => { minOnline := c.minOnline, maxOnline := 999, defaultOnline := c.minOnline }
  | .nvme => c.nvme
  | .hdd => c.hdd

def classifyUnit (unit : String) : Pool :=
  let name := Py.lower (runnerNameForUnit unit)
  if c.matchesNvme name then .nvme
  else if c.matchesHdd name then .hdd
  else .default

def ioPressureOverloaded (ioFull : Float) (wasOverloaded : Bool) : Bool :=
  (if wasOverloaded then c.thresholds.ioPressureFullLow
    else c.thresholds.ioPressureFullHigh) ≤ ioFull

def defaultPoolOverloaded (hist : List DefaultSample) (ioFull : Float) (ioWasOverloaded : Bool) :
    Bool :=
  let t := c.thresholds
  t.cpuHigh ≤ c.mean (hist.map DefaultSample.cpu) ||
    t.memHigh ≤ c.mean (hist.map DefaultSample.mem) ||
    t.loadPerCore ≤ c.mean (hist.map DefaultSample.load) ||
    t.diskHigh ≤ c.mean (hist.map DefaultSample.disk) ||
    minOf (hist.map DefaultSample.diskFree) ≤ t.diskMinFreeGb ||
    c.ioPressureOverloaded ioFull ioWasOverloaded

def defaultPoolRecovered (hist : List DefaultSample) (ioFull : Float) : Bool :=
  let t := c.thresholds
  c.mean (hist.map DefaultSample.cpu) ≤ t.cpuLow &&
    c.mean (hist.map DefaultSample.mem) < t.memHigh - 10 &&
    c.mean (hist.map DefaultSample.load) < t.loadPerCore * 0.7 &&
    c.mean (hist.map DefaultSample.disk) < t.diskHigh - 5 &&
    t.diskMinFreeGb < minOf (hist.map DefaultSample.diskFree) &&
    ioFull < t.ioPressureFullLow

def nvmePoolOverloaded (hist : List NvmeSample) : Bool :=
  let t := c.thresholds
  t.nvmeCacheHigh ≤ c.mean (hist.map NvmeSample.cachePressure) ||
    t.nvmeDiskHigh ≤ c.mean (hist.map NvmeSample.disk) ||
    minOf (hist.map NvmeSample.diskFree) ≤ t.nvmeMinFreeGb

def nvmePoolRecovered (hist : List NvmeSample) : Bool :=
  let t := c.thresholds
  c.mean (hist.map NvmeSample.cachePressure) < t.nvmeCacheHigh - 10 &&
    c.mean (hist.map NvmeSample.disk) < t.nvmeDiskHigh - 5 &&
    t.nvmeMinFreeGb < minOf (hist.map NvmeSample.diskFree)

def hddPoolOverloaded (hist : List HddSample) : Bool :=
  let t := c.thresholds
  t.hddIoHigh ≤ c.mean (hist.map HddSample.ioPressure) ||
    t.hddDiskHigh ≤ c.mean (hist.map HddSample.disk) ||
    minOf (hist.map HddSample.diskFree) ≤ t.hddMinFreeGb

def hddPoolRecovered (hist : List HddSample) : Bool :=
  let t := c.thresholds
  c.mean (hist.map HddSample.ioPressure) < t.hddIoHigh - 10 &&
    c.mean (hist.map HddSample.disk) < t.hddDiskHigh - 5 &&
    t.hddMinFreeGb < minOf (hist.map HddSample.diskFree)

def poolPassesLabelFilter (poolLabels filterLabels : List String) : Bool :=
  filterLabels = [] || poolLabels = [] || poolLabels.any (· ∈ filterLabels)

def isStartAllowed (p : Pool) : Bool :=
  (c.getPoolConfig p).startEnabled &&
    poolPassesLabelFilter (c.getPoolConfig p).labels c.filterStartLabels

def isStopAllowed (p : Pool) : Bool :=
  (c.getPoolConfig p).stopEnabled &&
    poolPassesLabelFilter (c.getPoolConfig p).labels c.filterStopLabels

/-- `_get_scheduled_pool_desired`, from the count that the schedule has for the pool. -/
def getScheduledPoolDesired (p : Pool) (scheduled : Option ℤ) (poolUnits : ℕ) : ℤ :=
  let cfg := c.getPoolConfig p
  max cfg.minOnline (min (min cfg.maxOnline poolUnits) (scheduled.getD cfg.defaultOnline))

/-- `_stop_in_cooldown`, at an instant. -/
def stopInCooldown (last now : ℤ) : Bool :=
  c.actionCooldown ≠ 0 && 0 < last && now - last < c.actionCooldown

end Config

/-! ### Ticks -/

/-- What the calls of a tick return, and the instants that it reads from the clock. -/
structure Tick where
  /-- Nothing where `_sample_all_pools` raises. -/
  sample : Option Sample
  units : List String
  /-- What `process_disk_full_cordon_tick` returns. -/
  cordonActive : Bool := false
  /-- The list of `leases.yml`. -/
  leases : Option (List Json)
  now : ℤ
  isActive : String → Bool
  isBusy : String → Bool
  scheduled : Pool → Option ℤ := fun _ => none
  /-- The instants of the overload, of the time that has passed since, of the check of the action
  cooldown and of the record of a stop. -/
  overloadedAt : Pool → ℤ
  elapsedAt : Pool → ℤ
  checkedAt : Pool → ℤ
  recordedAt : Pool → ℤ
  /-- The clock counts from 1970. -/
  recordedAt_pos : ∀ p, 0 < recordedAt p

/-- What the loop and the module keep. -/
structure State where
  ioPressureOverloaded : Bool := false
  defaultSamples : List DefaultSample := []
  nvmeSamples : List NvmeSample := []
  hddSamples : List HddSample := []
  /-- `pool_last_overloaded` and `pool_last_stop_action`. -/
  lastOverloaded : Pool → ℤ := fun _ => 0
  lastStopAction : Pool → ℤ := fun _ => 0

/-- What is passed to `_stop_unit` and `_start_unit`. -/
structure Actions where
  stops : List String := []
  starts : List String := []

/-- A deque that keeps the newest `n`. -/
def push {α : Type*} (n : ℕ) (xs : List α) (x : α) : List α :=
  (xs ++ [x]).drop (xs.length + 1 - n)

section Loop

variable (c : Config) (s : State) (t : Tick) (guard : LeaseScaleDownGuard) (p : Pool)

def overloaded : Bool :=
  match p with
  | .default => c.defaultPoolOverloaded s.defaultSamples
      ((t.sample.map fun x => x.default.ioFull).getD 0) s.ioPressureOverloaded
  | .nvme => c.nvmePoolOverloaded s.nvmeSamples
  | .hdd => c.hddPoolOverloaded s.hddSamples

def recovered : Bool :=
  match p with
  | .default => c.defaultPoolRecovered s.defaultSamples
      ((t.sample.map fun x => x.default.ioFull).getD 0)
  | .nvme => c.nvmePoolRecovered s.nvmeSamples
  | .hdd => c.hddPoolRecovered s.hddSamples

def poolUnits : List String := t.units.filter fun u => c.classifyUnit u = p

def poolActive : List String := (poolUnits c t p).filter t.isActive

def poolIdleActive : List String :=
  (poolActive c t p).filter fun u => !t.isBusy u &&
    runnerNameForUnit u ∉ guard.protectedRunnerNames && !guard.blockScaleDown

/-- Up to `n` idle units, unless stopping is not allowed or was done lately. -/
def stopIdle (n : ℤ) : Actions :=
  if !c.isStopAllowed p || c.stopInCooldown (s.lastStopAction p) (t.checkedAt p) then {}
  else { stops := (poolIdleActive c t guard p).take (min (c.maxStep : ℤ) n).toNat }

def poolActions : Actions :=
  let units := poolUnits c t p
  let active := poolActive c t p
  let inactive := units.filter (· ∉ active)
  let minOnline := (c.getPoolConfig p).minOnline
  let desired := c.getScheduledPoolDesired p (t.scheduled p) units.length
  let surplus := max 0 ((active.length : ℤ) - desired)
  let elapsed := t.elapsedAt p - s.lastOverloaded p
  let pending := !overloaded c s t p && 0 < s.lastOverloaded p
  let inCooldown := pending && elapsed < c.cooldown
  let inSoftRecovery := pending && !inCooldown && elapsed < 2 * c.cooldown
  if units = [] then {}
  else if surplus ≠ 0 ∧ poolIdleActive c t guard p ≠ [] then stopIdle c s t guard p surplus
  else if overloaded c s t p ∧ minOnline < active.length then
    stopIdle c s t guard p (active.length - minOnline)
  else if recovered c s t p ∧ inactive ≠ [] ∧ active.length < desired then
    if inCooldown || !c.isStartAllowed p then {}
    else
      let step : ℤ := if inSoftRecovery then 1 else c.maxStep
      { starts := inactive.take (min step (desired - active.length)).toNat }
  else {}

def State.sampled (x : Sample) : State :=
  { s with
    ioPressureOverloaded := c.ioPressureOverloaded x.default.ioFull s.ioPressureOverloaded
    defaultSamples := push c.historyLen s.defaultSamples x.default
    nvmeSamples := push c.historyLen s.nvmeSamples x.nvme
    hddSamples := push c.historyLen s.hddSamples x.hdd }

/-- The pools are gone through; none looks at what is kept of another. -/
def scalePools : State × (Pool → Actions) :=
  let guard := leaseScaleDownGuard c.py t.now t.leases
  let actions := poolActions c s t guard
  ({ s with
      lastOverloaded := fun p =>
        if overloaded c s t p && poolUnits c t p ≠ [] then t.overloadedAt p
        else s.lastOverloaded p
      lastStopAction := fun p =>
        if (actions p).stops ≠ [] then t.recordedAt p else s.lastStopAction p }, actions)

/-- A tick of `_run_poll_loop`. -/
def pollTick : State × (Pool → Actions) :=
  match t.sample with
  | none => (s, fun _ => {})
  | some x =>
    let s := s.sampled c x
    if s.defaultSamples.length < c.historyLen ∨ t.units = [] ∨ t.cordonActive then
      (s, fun _ => {})
    else scalePools c s t

def runTicks : State → List Tick → List (Tick × (Pool → Actions))
  | _, [] => []
  | s, t :: ts => (t, (pollTick c s t).2) :: runTicks (pollTick c s t).1 ts

end Loop

/-! ### What a tick stops -/

variable {c : Config} {s : State} {t : Tick} {guard : LeaseScaleDownGuard} {p : Pool} {u : String}
  {n : ℤ}

theorem mem_poolUnits_iff : u ∈ poolUnits c t p ↔ u ∈ t.units ∧ c.classifyUnit u = p := by
  rw [poolUnits, List.mem_filter, decide_eq_true_iff]

theorem mem_poolIdleActive_iff : u ∈ poolIdleActive c t guard p ↔
    u ∈ poolActive c t p ∧ t.isBusy u = false ∧
      runnerNameForUnit u ∉ guard.protectedRunnerNames ∧ guard.blockScaleDown = false := by
  rw [poolIdleActive, List.mem_filter]
  simp only [Bool.and_eq_true, Bool.not_eq_true', decide_eq_true_iff, and_assoc]

theorem minOnline_le_desired (c : Config) (p : Pool) (scheduled : Option ℤ) (n : ℕ) :
    (c.getPoolConfig p).minOnline ≤ c.getScheduledPoolDesired p scheduled n :=
  le_max_left _ _

theorem mem_stopIdle (h : u ∈ (stopIdle c s t guard p n).stops) :
    u ∈ poolIdleActive c t guard p ∧
      c.stopInCooldown (s.lastStopAction p) (t.checkedAt p) = false := by
  unfold stopIdle at h
  split at h
  · cases h
  · next hallowed =>
    simp only [Bool.or_eq_true, not_or, Bool.not_eq_true] at hallowed
    exact ⟨List.mem_of_mem_take h, hallowed.2⟩

theorem length_stopIdle_le (hn : 0 ≤ n) : ((stopIdle c s t guard p n).stops.length : ℤ) ≤ n := by
  unfold stopIdle
  split
  · exact hn
  · have htake := List.length_take_le (min (c.maxStep : ℤ) n).toNat (poolIdleActive c t guard p)
    dsimp only
    omega

/-- Either branch that stops units leaves the minimum. -/
theorem poolActions_cases (c : Config) (s : State) (t : Tick) (guard : LeaseScaleDownGuard)
    (p : Pool) : (poolActions c s t guard p).stops = [] ∨
      ∃ n : ℤ, 0 ≤ n ∧ n ≤ (poolActive c t p).length - (c.getPoolConfig p).minOnline ∧
        poolActions c s t guard p = stopIdle c s t guard p n := by
  have hdesired := minOnline_le_desired c p (t.scheduled p) (poolUnits c t p).length
  unfold poolActions
  dsimp only
  split_ifs with hunits hsurplus hover hstart hheld
  · exact .inl rfl
  · refine .inr ⟨_, le_max_left _ _, ?_, rfl⟩
    have := hsurplus.1
    omega
  · refine .inr ⟨_, ?_, le_rfl, rfl⟩
    have := hover.2
    omega
  · exact .inl rfl
  · exact .inl rfl
  · exact .inl rfl
  · exact .inl rfl

/-- **Only idle units are stopped that the guard does not protect**, and not in the cooldown. -/
theorem mem_stops (h : u ∈ (poolActions c s t guard p).stops) :
    u ∈ poolIdleActive c t guard p ∧
      c.stopInCooldown (s.lastStopAction p) (t.checkedAt p) = false := by
  rcases poolActions_cases c s t guard p with hnil | ⟨n, -, -, hstop⟩
  · rw [hnil] at h
    cases h
  · rw [hstop] at h
    exact mem_stopIdle h

/-- **No more are stopped than are active above the minimum.** -/
theorem length_stops_le (h : (poolActions c s t guard p).stops ≠ []) :
    ((poolActions c s t guard p).stops.length : ℤ) ≤
      (poolActive c t p).length - (c.getPoolConfig p).minOnline := by
  rcases poolActions_cases c s t guard p with hnil | ⟨n, hn, hle, hstop⟩
  · exact absurd hnil h
  · rw [hstop]
    exact (length_stopIdle_le hn).trans hle

theorem pollTick_cases (c : Config) (s : State) (t : Tick) :
    ((∀ p, ((pollTick c s t).2 p).stops = []) ∧
      (pollTick c s t).1.lastStopAction = s.lastStopAction) ∨
      ∃ s' : State, s'.lastStopAction = s.lastStopAction ∧ pollTick c s t = scalePools c s' t := by
  unfold pollTick
  cases t.sample with
  | none => exact .inl ⟨fun _ => rfl, rfl⟩
  | some x =>
    dsimp only
    split
    · exact .inl ⟨fun _ => rfl, rfl⟩
    · exact .inr ⟨s.sampled c x, rfl, rfl⟩

theorem lastStopAction_pollTick (c : Config) (s : State) (t : Tick) (p : Pool) :
    (pollTick c s t).1.lastStopAction p =
      if ((pollTick c s t).2 p).stops ≠ [] then t.recordedAt p else s.lastStopAction p := by
  rcases pollTick_cases c s t with ⟨hnone, hlast⟩ | ⟨s', hlast, htick⟩
  · rw [hlast, if_neg (not_not.mpr (hnone p))]
  · rw [htick, ← hlast]
    rfl

end Autoscaler
