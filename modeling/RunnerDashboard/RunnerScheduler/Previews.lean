import RunnerDashboard.RunnerScheduler.Main

/-!
# Previews of the runner scheduler

A preview is a run with `--dry-run`, or without `--apply`.  It starts and stops nothing.  It may
still set or remove the latch of the disk floor, and one of `--stop-unit` may remove a lock.

## Main results

* `preview_unchanged_iff` — **when a preview leaves everything as it was.**
-/

namespace SchedulerMain

open Asking Lts
open RunnerScheduler (RunnerUnit Settings Stopped Action Active)

variable {cfg : Settings} {root : String} {fuel : ℕ} {h h' : Host} {q : Query} {a : Answer q}
  {α : Type} {p : Program α}

/-! ### Calls that only read -/

/-- A call that leaves the host as it is. -/
def Query.Reads : Query → Prop
  | .unlinkLock _ | .writeLatch | .unlinkLatch | .setMaintenance _ | .start _
  | .stopRunnerSafely _ | .monotonic | .writeState _ => False
  | _ => True

theorem eq_of_reads (hq : q.Reads) (henv : Env h q a h') : h' = h := by
  cases henv <;> first | rfl | exact hq.elim

theorem ends_of_reads (honly : p.Only Query.Reads) : Ends Env p h fun _ h' => h' = h :=
  honly.ends (I := fun h' => h' = h) (fun _ _ _ _ hq hI henv => (eq_of_reads hq henv).trans hI) rfl

/-- A program that only reads does not change what holds. -/
theorem ends_const {Post : Host → Prop} (honly : p.Only Query.Reads) (hpost : Post h) :
    Ends Env p h fun _ => Post :=
  (ends_of_reads honly).imp fun _ _ hs => hs ▸ hpost

theorem reads_runnerNames (workdir unit : String) :
    (runnerNames workdir unit).Only Query.Reads :=
  only_bind (only_call.mpr trivial) fun _ => only_pure

theorem reads_busyViaLocks (names : List String) :
    (busyViaLocks false names).Only Query.Reads := by
  induction names with
  | nil => exact only_pure
  | cons name names ih =>
    refine only_bind (only_call.mpr trivial) fun lock => ?_
    cases lock with
    | none => exact ih
    | some lock =>
      simp only [Bool.not_false, if_true]
      split_ifs
      · exact ih
      · exact only_pure
      · exact ih

theorem reads_runnerBusyViaLock (workdir unit : String) :
    (runnerBusyViaLock workdir unit false).Only Query.Reads :=
  only_bind (reads_runnerNames workdir unit) reads_busyViaLocks

theorem only_runnerBusy {P : Query → Prop} {workdir unit : String} {cleanupStale : Bool}
    (hreads : ∀ q, q.Reads → P q)
    (hlock : (runnerBusyViaLock workdir unit cleanupStale).Only P) :
    (runnerBusy workdir unit cleanupStale).Only P := by
  refine only_bind (only_call.mpr (hreads _ trivial)) fun pickup => ?_
  split_ifs
  · exact only_pure
  · refine only_bind hlock fun lock => ?_
    split_ifs
    · exact only_pure
    · refine only_bind (only_call.mpr (hreads _ trivial)) fun diag => ?_
      split_ifs
      · exact only_pure
      · exact only_call.mpr (hreads _ trivial)

theorem only_lookupUnit {P : Query → Prop} {unit : String} {cleanupStale : Bool}
    (hreads : ∀ q, q.Reads → P q)
    (hlock : ∀ workdir, (runnerBusyViaLock workdir unit cleanupStale).Only P) :
    (lookupUnit unit cleanupStale).Only P := by
  refine only_bind (only_call.mpr (hreads _ trivial)) fun workdir => ?_
  cases workdir with
  | none => exact only_pure
  | some workdir =>
    refine only_bind (only_call.mpr (hreads _ trivial)) fun active => ?_
    exact only_bind (only_runnerBusy hreads (hlock workdir)) fun _ => only_pure

theorem only_listUnitsFrom {P : Query → Prop} {cleanupStale : Bool}
    (hreads : ∀ q, q.Reads → P q)
    (hlock : ∀ workdir unit, (runnerBusyViaLock workdir unit cleanupStale).Only P)
    (lines : List String) : (listUnitsFrom root cleanupStale lines).Only P := by
  induction lines with
  | nil => exact only_pure
  | cons line lines ih =>
    rw [listUnitsFrom]
    generalize String.ofList ((Py.splitSpaces line.toList).headD []) = name
    refine only_ite ih (only_bind (only_call.mpr (hreads _ trivial)) fun workdir => ?_)
    split
    · refine only_ite ih (only_bind (only_call.mpr (hreads _ trivial)) fun active => ?_)
      refine only_bind (only_runnerBusy hreads (hlock _ _)) fun busy => ?_
      exact only_bind ih fun _ => only_pure
    · exact ih

theorem only_listUnits {P : Query → Prop} {cleanupStale : Bool}
    (hreads : ∀ q, q.Reads → P q)
    (hlock : ∀ workdir unit, (runnerBusyViaLock workdir unit cleanupStale).Only P) :
    (listUnits root cleanupStale).Only P :=
  only_bind (only_call.mpr (hreads _ trivial)) fun lines =>
    only_bind (only_listUnitsFrom hreads hlock lines) fun _ => only_pure

theorem reads_listUnits : (listUnits root false).Only Query.Reads :=
  only_listUnits (fun _ h => h) reads_runnerBusyViaLock

theorem reads_finish {args : Args} (hpreview : args.preview = true) (desired : ℤ)
    (actions : List Action) (report : Option Bool) :
    (finish root args desired actions report).Only Query.Reads := by
  refine only_bind reads_listUnits fun units => ?_
  refine only_bind (only_call.mpr trivial) fun maintenance => ?_
  rw [hpreview]
  exact only_pure

/-! ### A tick that is not applied -/

def IsLook : RunnerScheduler.Query → Prop
  | .runnerBusy _ => True
  | _ => False

theorem only_confirmedIdle (unit : RunnerUnit) (settle : Bool) :
    (RunnerScheduler.confirmedIdle cfg unit settle).Only IsLook := by
  refine only_bind (only_call.mpr trivial) fun busy => ?_
  split_ifs
  · exact only_pure
  · exact only_bind (only_call.mpr trivial) fun _ => only_pure
  · exact only_pure

theorem only_startMissing_dryRun (todo : List RunnerUnit) (actions : List Action) :
    (RunnerScheduler.startMissing true todo actions).Only IsLook := by
  induction todo generalizing actions with
  | nil => exact only_pure
  | cons u us ih => exact ih _

theorem only_stopSurplus_dryRun (needed : ℕ) (todo : List RunnerUnit) (stopped : ℕ)
    (actions : List Action) :
    (RunnerScheduler.stopSurplus cfg true needed todo stopped actions).Only IsLook := by
  induction todo generalizing stopped actions with
  | nil => exact only_pure
  | cons u us ih =>
    rw [RunnerScheduler.stopSurplus]
    simp only [↓reduceIte]
    split_ifs
    · exact only_pure
    · refine only_bind (only_confirmedIdle u _) fun idle => ?_
      split_ifs
      · exact ih _ _
      · exact ih _ _

theorem only_swap_dryRun (missing surplus : RunnerUnit) (actions : List Action) :
    (RunnerScheduler.swap cfg true missing surplus actions).Only IsLook := by
  refine only_bind (only_confirmedIdle surplus _) fun idle => ?_
  simp only [if_true]
  split_ifs
  · exact only_pure
  · exact only_pure

theorem only_applyCapacity_dryRun (units : List RunnerUnit) (desired : ℤ) :
    (RunnerScheduler.applyCapacity cfg units desired true).Only IsLook := by
  rw [RunnerScheduler.applyCapacity]
  by_cases hsorted : ¬ (units.map (·.num)).Pairwise (· ≤ ·)
  · rw [if_pos hsorted]
    exact only_pure
  · rw [if_neg hsorted]
    dsimp only
    split_ifs
    · exact only_bind (only_startMissing_dryRun _ _) fun _ => only_pure
    · exact only_stopSurplus_dryRun _ _ _ _
    · split
      · exact only_swap_dryRun _ _ _
      · exact only_pure

/-- **A tick that is not applied looks at units and does nothing else.** -/
theorem only_schedulerTick_dryRun (units : List RunnerUnit) (desired : ℤ) :
    (RunnerScheduler.schedulerTick cfg fuel units desired true).Only IsLook := by
  refine only_bind (only_applyCapacity_dryRun units desired) fun applied => ?_
  cases applied with
  | error e => exact only_pure
  | ok actions =>
    -- without `--apply` there is no drain
    exact only_pure

theorem reads_tick (units : List RunnerUnit) (desired : ℤ) :
    ((RunnerScheduler.schedulerTick cfg fuel units desired true).handle
      (tickCall units false)).Only Query.Reads := by
  refine only_handle (only_schedulerTick_dryRun units desired) fun q hq => ?_
  cases q with
  | runnerBusy unit => exact only_runnerBusy (fun _ h => h) (reads_runnerBusyViaLock _ _)
  | _ => exact hq.elim

/-! ### Locks -/

/-- The first lock under the names of a unit that is young enough to count. -/
def FirstFresh (names : List String) (locks : String → Option Lock) (lock : Lock) : Prop :=
  ∃ name ∈ names.find? (fun name => (locks name).any (·.fresh)), locks name = some lock

structure Lock.Removed (lock : Lock) : Prop where
  readable : lock.readable = true
  stale : lock.workerPidStale = true
  removable : lock.removable = true

/-- The locks after those that are stale are removed. -/
def cleaned : List String → (String → Option Lock) → String → Option Lock
  | [], locks => locks
  | name :: names, locks =>
    match locks name with
    | none => cleaned names locks
    | some lock =>
      if !lock.fresh then cleaned names locks
      else if !lock.readable || !lock.workerPidStale || !lock.removable then locks
      else cleaned names fun other => if other = name then none else locks other

def Host.withLocks (h : Host) (locks : String → Option Lock) : Host :=
  { h with files := { h.files with locks } }

theorem ends_known (q : Query) (a : Answer q) (h₁ : Host) {f : Answer q → Program α}
    {Post : α → Host → Prop} (hknown : ∀ answer s, Env h q answer s → answer = a ∧ s = h₁)
    (hf : Ends Env (f a) h₁ Post) :
    Ends Env (Prog.call q >>= f) h Post := by
  refine ends_bind (ends_call hknown) ?_
  rintro _ _ ⟨rfl, rfl⟩
  exact hf

theorem ends_busyViaLocks (names : List String) (h : Host) :
    Ends Env (busyViaLocks true names) h
      fun _ h' => h' = h.withLocks (cleaned names h.files.locks) := by
  induction names generalizing h with
  | nil => exact ends_pure rfl
  | cons name names ih =>
    refine ends_known (.lock name) (h.files.locks name) h (by rintro _ _ ⟨⟩; exact ⟨rfl, rfl⟩) ?_
    rw [cleaned]
    cases hlock : h.files.locks name with
    | none => exact ih h
    | some lock =>
      simp only [Bool.not_true, Bool.false_eq_true, if_false]
      by_cases hfresh : lock.fresh = true
      · by_cases hbusy : (!lock.readable || !lock.workerPidStale) = true
        · simp only [hfresh, hbusy, Bool.not_true, Bool.false_eq_true, if_false, if_true,
            Bool.true_or]
          exact ends_pure rfl
        · simp only [hfresh, hbusy, Bool.not_true, Bool.false_eq_true, if_false, Bool.false_or]
          cases hremovable : lock.removable with
          | true =>
            refine ends_known (.unlinkLock name) true (h.withLocks fun other =>
              if other = name then none else h.files.locks other) ?_ ?_
            · rintro _ _ ⟨⟩
              simp only [hlock, Option.all_some, hremovable, if_true]
              exact ⟨rfl, rfl⟩
            · exact ih _
          | false =>
            refine ends_known (.unlinkLock name) false h ?_ ?_
            · rintro _ _ ⟨⟩
              simp only [hlock, Option.all_some, hremovable, Bool.false_eq_true, if_false, and_true]
              rfl
            · exact ends_pure rfl
      · simp only [hfresh, Bool.not_false, if_true]
        exact ih h

theorem cleaned_eq_none {names : List String} {locks : String → Option Lock} {other : String}
    (hother : locks other = none) : cleaned names locks other = none := by
  induction names generalizing locks with
  | nil => exact hother
  | cons name names ih =>
    rw [cleaned]
    cases locks name with
    | none => exact ih hother
    | some lock =>
      dsimp only
      split_ifs
      · exact ih hother
      · exact hother
      · exact ih (by simp [hother])

/-- **The first young lock decides whether one is removed.** -/
theorem cleaned_eq_iff {names : List String} {locks : String → Option Lock} :
    cleaned names locks = locks ↔ ∀ lock, FirstFresh names locks lock → ¬ lock.Removed := by
  induction names with
  | nil => simp [cleaned, FirstFresh]
  | cons name names ih =>
    rw [cleaned]
    cases hlock : locks name with
    | none => simpa [FirstFresh, hlock] using ih
    | some lock =>
      by_cases hfresh : lock.fresh = true
      · have hfirst : ∀ other, FirstFresh (name :: names) locks other ↔ other = lock := by
          intro other
          simp [FirstFresh, hlock, hfresh, eq_comm]
        simp only [hfresh, Bool.not_true, Bool.false_eq_true, if_false, hfirst, forall_eq]
        split_ifs with hkept
        · refine iff_of_true rfl fun hremoved => ?_
          simp [hremoved.readable, hremoved.stale, hremoved.removable] at hkept
        · simp only [Bool.not_eq_true, Bool.or_eq_false_iff, Bool.not_eq_false'] at hkept
          refine iff_of_false (fun heq => ?_) (not_not_intro ⟨hkept.1.1, hkept.1.2, hkept.2⟩)
          have hnone : cleaned names (fun other => if other = name then none else locks other)
              name = none := cleaned_eq_none (by simp)
          simp [heq, hlock] at hnone
      · simpa [FirstFresh, hlock, hfresh] using ih

/-! ### The capacity -/

/-- What the capacity of a later tick depends on. -/
structure Flags where
  maintenance : Bool
  latch : Bool
  deriving DecidableEq

def Files.flags (f : Files) : Flags := ⟨f.maintenance, f.latch⟩

def Host.withLatch (h : Host) (latch : Bool) : Host :=
  { h with files := { h.files with latch } }

/-- Whether the floor of the disk is breached, and the latch after the look. -/
def diskStep (r : Readings) (floor : Floor) (minimum : PyFloat) (latch : Bool) :
    Option Bool × Bool :=
  match r.diskFreeGb floor.diskPath with
  | none => (some false, latch)
  | some free =>
    if free.lt minimum then
      (some true, latch || (floor.readmitDiskFreeGb.isSome && r.latchOpens))
    else
      match floor.readmitDiskFreeGb with
      | none => (some false, latch)
      | some readmit =>
        if !latch then (some false, latch)
        else if free.lt readmit then (some true, latch)
        else if r.latchRemovable then (some false, false)
        else (none, latch)

theorem ends_diskFloorBreach (floor : Floor) (minimum : PyFloat) (h : Host) :
    Ends Env (diskFloorBreach floor minimum) h fun breach h' =>
      breach = (diskStep h.readings floor minimum h.files.latch).1 ∧
        h' = h.withLatch (diskStep h.readings floor minimum h.files.latch).2 := by
  obtain ⟨r, active, maintenance, latch, locks, state⟩ := h
  refine ends_known (.diskFreeGb floor.diskPath) (r.diskFreeGb floor.diskPath) _
    (by rintro _ _ ⟨⟩; exact ⟨rfl, rfl⟩) ?_
  simp only [diskStep]
  cases r.diskFreeGb floor.diskPath with
  | none => exact ends_pure ⟨rfl, rfl⟩
  | some free =>
    cases floor.readmitDiskFreeGb with
    | none =>
      by_cases hfree : free.lt minimum = true
      · simp only [hfree, if_true, Option.isSome_none, Bool.false_and, Bool.or_false]
        exact ends_pure ⟨rfl, rfl⟩
      · simp only [hfree, Bool.false_eq_true, if_false]
        exact ends_pure ⟨rfl, rfl⟩
    | some readmit =>
      by_cases hfree : free.lt minimum = true
      · simp only [hfree, if_true, Option.isSome_some, Bool.true_and]
        refine ends_known .latchExists latch _ (by rintro _ _ ⟨⟩; exact ⟨rfl, rfl⟩) ?_
        cases latch with
        | true => exact ends_pure ⟨rfl, rfl⟩
        | false =>
          exact ends_known .writeLatch () _ (by rintro _ _ ⟨⟩; exact ⟨rfl, rfl⟩)
            (ends_pure ⟨rfl, rfl⟩)
      · simp only [hfree, Bool.false_eq_true, if_false]
        refine ends_known .latchExists latch _ (by rintro _ _ ⟨⟩; exact ⟨rfl, rfl⟩) ?_
        cases latch with
        | false => exact ends_pure ⟨rfl, rfl⟩
        | true =>
          by_cases hmark : free.lt readmit = true
          · simp only [hmark, Bool.not_true, Bool.false_eq_true, if_false, if_true]
            exact ends_pure ⟨rfl, rfl⟩
          · simp only [hmark, Bool.not_true, Bool.false_eq_true, if_false]
            refine ends_known .unlinkLatch r.latchRemovable _
              (by rintro _ _ ⟨⟩; exact ⟨rfl, rfl⟩) ?_
            cases r.latchRemovable with
            | true => exact ends_pure ⟨rfl, rfl⟩
            | false => exact ends_pure ⟨rfl, rfl⟩

/-- The part of the capacity for the floor, and the latch after it. -/
def floorStep (r : Readings) (floor : Floor) (latch : Bool) : Option Bool × Bool :=
  let disk := match floor.minDiskFreeGb with
    | none => (some false, latch)
    | some minimum => diskStep r floor minimum latch
  let mem := floor.minMemAvailableGb.any fun minimum =>
    r.memAvailableGb.any fun available => available.lt minimum
  let pressure := floor.maxMemoryPressureAvg60.any fun maximum =>
    r.memoryPressureAvg60.any fun psi => maximum.lt psi
  (disk.1.map fun disk => disk || mem || pressure, disk.2)

theorem ends_diskBreached (floor : Floor) (h : Host) :
    Ends Env (diskBreached floor) h fun breach h' =>
      let disk := match floor.minDiskFreeGb with
        | none => (some false, h.files.latch)
        | some minimum => diskStep h.readings floor minimum h.files.latch
      breach = disk.1 ∧ h' = h.withLatch disk.2 := by
  rw [diskBreached]
  cases floor.minDiskFreeGb with
  | none => exact ends_pure ⟨rfl, rfl⟩
  | some minimum => exact ends_diskFloorBreach floor minimum h

theorem ends_memBreached (floor : Floor) (h : Host) :
    Ends Env (memBreached floor) h fun mem h' =>
      mem = (floor.minMemAvailableGb.any fun minimum =>
        h.readings.memAvailableGb.any fun available => available.lt minimum) ∧ h' = h := by
  rw [memBreached]
  cases floor.minMemAvailableGb with
  | none => exact ends_pure ⟨rfl, rfl⟩
  | some minimum =>
    exact ends_known .memAvailableGb h.readings.memAvailableGb _
      (by rintro _ _ ⟨⟩; exact ⟨rfl, rfl⟩) (ends_pure ⟨rfl, rfl⟩)

theorem ends_pressureBreached (floor : Floor) (h : Host) :
    Ends Env (pressureBreached floor) h fun pressure h' =>
      pressure = (floor.maxMemoryPressureAvg60.any fun maximum =>
        h.readings.memoryPressureAvg60.any fun psi => maximum.lt psi) ∧ h' = h := by
  rw [pressureBreached]
  cases floor.maxMemoryPressureAvg60 with
  | none => exact ends_pure ⟨rfl, rfl⟩
  | some maximum =>
    exact ends_known .memoryPressureAvg60 h.readings.memoryPressureAvg60 _
      (by rintro _ _ ⟨⟩; exact ⟨rfl, rfl⟩) (ends_pure ⟨rfl, rfl⟩)

theorem ends_resourceFloorBreaches (floor : Floor) (h : Host) :
    Ends Env (resourceFloorBreaches floor) h fun breached h' =>
      breached = (floorStep h.readings floor h.files.latch).1 ∧
        h' = h.withLatch (floorStep h.readings floor h.files.latch).2 := by
  refine ends_bind (ends_diskBreached floor h) ?_
  rintro _ _ ⟨rfl, rfl⟩
  rw [floorStep]
  generalize (match floor.minDiskFreeGb with
    | none => (some false, h.files.latch)
    | some minimum => diskStep h.readings floor minimum h.files.latch) = disk
  obtain ⟨disk, latch⟩ := disk
  cases disk with
  | none => exact ends_pure ⟨rfl, rfl⟩
  | some disk =>
    refine ends_bind (ends_memBreached floor _) ?_
    rintro _ _ ⟨rfl, rfl⟩
    refine ends_bind (ends_pressureBreached floor _) ?_
    rintro _ _ ⟨rfl, rfl⟩
    exact ends_pure ⟨rfl, rfl⟩

/-- The capacity, if nothing raises, and the latch after it was computed. -/
def capacityStep (r : Readings) (config : Config) (target : Option ℤ) (s : Flags) :
    Option ℤ × Bool :=
  let desired := desiredCapacity config target r.weekday r.time
  if s.maintenance then (some 0, s.latch)
  else match config.floor with
    | none => (some desired, s.latch)
    | some floor =>
      let breached := floorStep r floor s.latch
      (breached.1.map fun breached => if breached then min desired floor.runners else desired,
        breached.2)

/-- **What the capacity is, and what its computation does.** -/
theorem ends_effectiveCapacity (config : Config) (target : Option ℤ) (h : Host) :
    Ends Env (effectiveCapacity config target) h fun capacity h' =>
      capacity = (capacityStep h.readings config target h.files.flags).1 ∧
        h' = h.withLatch (capacityStep h.readings config target h.files.flags).2 := by
  refine ends_known .maintenanceActive h.files.maintenance h
    (by rintro _ _ ⟨⟩; exact ⟨rfl, rfl⟩) ?_
  simp only [capacityStep, Files.flags]
  by_cases hmaintenance : h.files.maintenance = true
  · simp only [hmaintenance, if_true]
    exact ends_pure ⟨rfl, rfl⟩
  · simp only [hmaintenance, Bool.false_eq_true, if_false]
    refine ends_known .now (h.readings.weekday, h.readings.time) h
      (by rintro _ _ ⟨⟩; exact ⟨rfl, rfl⟩) ?_
    simp only [applyResourceFloor]
    cases config.floor with
    | none => exact ends_pure ⟨rfl, rfl⟩
    | some floor =>
      refine ends_bind (ends_resourceFloorBreaches floor h) ?_
      rintro _ _ ⟨rfl, rfl⟩
      exact ends_pure ⟨rfl, rfl⟩

/-! ### When a preview writes nothing -/

/-- A call of `main`: the options, what `load_config` returns, and what the probes say. -/
structure Invocation where
  args : Args
  config : Option Config
  readings : Readings

def Args.Refused (args : Args) : Prop :=
  (args.reboot = true ∧ args.drain = false) ∨ (args.drain = true ∧ args.resume = true) ∨
    (args.unit?.isSome = true ∧
      (args.drain = true ∨ args.resume = true ∨ args.target.isSome = true))

instance (args : Args) : Decidable args.Refused := inferInstanceAs (Decidable (_ ∨ _ ∨ _))

def lockNames (r : Readings) (workdir unit : String) : List String :=
  ([pathName workdir] ++ ((r.agentName workdir).filter (· ≠ "")).toList ++
    [unitSuffix unit].filter (· ≠ "")).eraseDups

/-- The latch stays as it is: it is not looked at; or the space is below the minimum where it is set
or cannot be; or above where it is not set, or from the minimum to the mark, or where it cannot be
removed. -/
def Quiet (inv : Invocation) (f : Files) : Prop :=
  f.maintenance = true ∨ ∀ config ∈ inv.config, ∀ floor ∈ config.floor,
    ∀ minimum ∈ floor.minDiskFreeGb, ∀ readmit ∈ floor.readmitDiskFreeGb,
      ∀ free ∈ inv.readings.diskFreeGb floor.diskPath,
        if free.lt minimum = true then f.latch = true ∨ inv.readings.latchOpens = false
        else f.latch = true → free.lt readmit = true ∨ inv.readings.latchRemovable = false

/-- The first young lock of the unit is not removed, if one is looked at. -/
def LockStays (inv : Invocation) (f : Files) (unit : String) : Prop :=
  ∀ workdir ∈ inv.readings.workdir unit, inv.readings.pickup workdir = true ∨
    ∀ lock, FirstFresh (lockNames inv.readings workdir unit) f.locks lock → ¬ lock.Removed

/-- A preview that writes nothing. -/
def Harmless (inv : Invocation) (f : Files) : Prop :=
  inv.args.Refused ∨
    match inv.args.unit? with
    | some unit => inv.args.dryRun = true ∨ LockStays inv f unit
    | none => Quiet inv f

theorem capacityStep_snd_eq_iff {inv : Invocation} {config : Config} (f : Files)
    (hconfig : inv.config = some config) (target : Option ℤ) :
    (capacityStep inv.readings config target f.flags).2 = f.latch ↔ Quiet inv f := by
  simp only [capacityStep, Quiet, Files.flags, hconfig, Option.mem_def, Option.some.injEq,
    forall_eq']
  by_cases hmaintenance : f.maintenance = true
  · simp [hmaintenance]
  · simp only [hmaintenance, Bool.false_eq_true, if_false, false_or]
    cases config.floor with
    | none => simp
    | some floor =>
      simp only [floorStep, Option.some.injEq, forall_eq']
      cases floor.minDiskFreeGb with
      | none => simp
      | some minimum =>
        simp only [diskStep, Option.some.injEq, forall_eq']
        cases inv.readings.diskFreeGb floor.diskPath with
        | none => simp
        | some free =>
          cases floor.readmitDiskFreeGb with
          | none => by_cases hfree : free.lt minimum = true <;> simp [hfree]
          | some readmit =>
            by_cases hfree : free.lt minimum = true
            · cases f.latch <;> simp [hfree]
            · by_cases hmark : free.lt readmit = true
              · cases f.latch <;> simp [hfree, hmark]
              · cases f.latch <;> cases inv.readings.latchRemovable <;> simp [hfree, hmark]

theorem ends_runnerNames (workdir unit : String) (h : Host) :
    Ends Env (runnerNames workdir unit) h fun names h' =>
      names = lockNames h.readings workdir unit ∧ h' = h :=
  ends_known (.agentName workdir) (h.readings.agentName workdir) h
    (by rintro _ _ ⟨⟩; exact ⟨rfl, rfl⟩) (ends_pure ⟨rfl, rfl⟩)

theorem ends_runnerBusyViaLock (workdir unit : String) (h : Host) :
    Ends Env (runnerBusyViaLock workdir unit true) h fun _ h' =>
      h' = h.withLocks (cleaned (lockNames h.readings workdir unit) h.files.locks) := by
  refine ends_bind (ends_runnerNames workdir unit h) ?_
  rintro _ _ ⟨rfl, rfl⟩
  exact ends_busyViaLocks _ _

/-- **What a look at a unit does that removes stale locks.** -/
theorem ends_lookupUnit (unit : String) (h : Host) :
    Ends Env (lookupUnit unit true) h fun _ h' => h' =
      match h.readings.workdir unit with
      | none => h
      | some workdir =>
        if h.readings.pickup workdir then h
        else h.withLocks (cleaned (lockNames h.readings workdir unit) h.files.locks) := by
  refine ends_known (.unitWorkdir unit) (h.readings.workdir unit) h
    (by rintro _ _ ⟨⟩; exact ⟨rfl, rfl⟩) ?_
  cases h.readings.workdir unit with
  | none => exact ends_pure rfl
  | some workdir =>
    refine ends_bind (ends_of_reads (only_call.mpr trivial)) fun active s hs => ?_
    rw [hs]
    refine ends_bind ?_ fun _ s hs => ends_pure hs
    refine ends_known (.pickup workdir) (h.readings.pickup workdir) h
      (by rintro _ _ ⟨⟩; exact ⟨rfl, rfl⟩) ?_
    by_cases hpickup : h.readings.pickup workdir = true
    · simp only [hpickup, if_true]
      exact ends_pure rfl
    · simp only [hpickup, Bool.false_eq_true, if_false]
      refine ends_bind (ends_runnerBusyViaLock workdir unit h) fun busy s hs => ?_
      rw [← hs]
      -- what is looked at after the locks changes nothing
      refine ends_of_reads ?_
      split_ifs
      · exact only_pure
      · refine only_bind (only_call.mpr trivial) fun diag => ?_
        split_ifs
        · exact only_pure
        · exact only_call.mpr trivial

theorem withLatch_files_eq_iff {latch : Bool} :
    (h.withLatch latch).files = h.files ↔ latch = h.files.latch := by
  constructor
  · intro heq
    exact congrArg Files.latch heq
  · rintro rfl
    rfl

theorem withLocks_files_eq_iff {locks : String → Option Lock} :
    (h.withLocks locks).files = h.files ↔ locks = h.files.locks := by
  constructor
  · intro heq
    exact congrArg Files.locks heq
  · rintro rfl
    rfl

variable {inv : Invocation} {f f' : Files}

/-- **What a preview of the schedule does.** -/
theorem ends_scheduleRun_preview {config : Config} (hpreview : inv.args.preview = true) :
    Ends Env (scheduleRun cfg root fuel inv.args config) h fun _ h' => h' =
      h.withLatch (capacityStep h.readings config inv.args.target h.files.flags).2 := by
  have hresumed : clearHold inv.args = pure true := by simp [clearHold, hpreview]
  have hrun : scheduleRun cfg root fuel inv.args config =
      listUnits root false >>= tickRun cfg root fuel inv.args config := by
    simp only [scheduleRun, hresumed, hpreview, Bool.not_true, Bool.and_false, Bool.false_eq_true,
      if_false]
    rfl
  rw [hrun]
  refine ends_bind (ends_of_reads reads_listUnits) fun units s hs => ?_
  rw [hs]
  refine ends_bind (ends_effectiveCapacity config inv.args.target _) ?_
  rintro _ _ ⟨rfl, rfl⟩
  cases (capacityStep h.readings config inv.args.target h.files.flags).1 with
  | none => exact ends_pure rfl
  | some desired =>
    simp only [hpreview, Bool.not_true]
    -- the tick and the state that is shown only read
    refine ends_of_reads (only_bind (reads_tick units desired) fun ticked => ?_)
    cases ticked with
    | error e => exact only_pure
    | ok actions => exact reads_finish hpreview desired actions none

private theorem only_stopFound (unit : String) (hpreview : inv.args.preview = true)
    (found : Option RunnerUnit) : (match found with
      | none => pure ⟨some 2, none, false⟩
      | some _ =>
        if inv.args.preview then pure ⟨some 0, none, false⟩
        else do
          let stopped ← stopUnitByName unit
          pure ⟨stopCode stopped, none, false⟩ : Program Result).Only
            Query.Reads := by
  cases found with
  | none => exact only_pure
  | some u =>
    simp only [hpreview, if_true]
    exact only_pure

theorem ends_stopRun_preview {unit : String} (hpreview : inv.args.preview = true) :
    Ends Env (stopRun inv.args unit) ⟨inv.readings, f⟩
      fun _ h' => h'.files = f ↔ inv.args.dryRun = true ∨ LockStays inv f unit := by
  have hend := only_stopFound unit hpreview
  by_cases hdry : inv.args.dryRun = true
  · have hlook : (lookupUnit unit (!inv.args.dryRun)).Only Query.Reads := by
      rw [hdry]
      exact only_lookupUnit (fun _ h => h) fun workdir => reads_runnerBusyViaLock workdir unit
    exact ends_const (only_bind hlook hend) (iff_of_true rfl (.inl hdry))
  · simp only [hdry, Bool.false_eq_true, false_or]
    have hlook : lookupUnit unit (!inv.args.dryRun) = lookupUnit unit true := by simp [hdry]
    rw [stopRun, hlook]
    refine ends_bind (ends_lookupUnit unit _) fun found s hs => ends_const (hend found) ?_
    rw [hs, LockStays]
    cases inv.readings.workdir unit with
    | none => simp
    | some workdir =>
      simp only [Option.mem_def, Option.some.injEq, forall_eq']
      by_cases hpickup : inv.readings.pickup workdir = true
      · simp [hpickup]
      · simp only [hpickup, Bool.false_eq_true, if_false, false_or]
        exact withLocks_files_eq_iff.trans cleaned_eq_iff

theorem main_eq (cfg : Settings) (root : String) (fuel : ℕ) (args : Args)
    (config : Option Config) :
    (args.Refused ∧ main cfg root fuel args config = pure ⟨some 2, none, false⟩) ∨
      (¬ args.Refused ∧ main cfg root fuel args config =
        match args.unit?, config with
        | some unit, _ => stopRun args unit
        | none, none => pure ⟨none, none, false⟩
        | none, some config => scheduleRun cfg root fuel args config) := by
  unfold main Args.Refused
  cases args.unit? <;> cases config <;> cases args.reboot <;> cases args.drain <;>
    cases args.resume <;> cases args.target <;> simp

theorem ends_main_preview (hpreview : inv.args.preview = true) :
    Ends Env (main cfg root fuel inv.args inv.config) ⟨inv.readings, f⟩
      fun _ h' => h'.files = f ↔ Harmless inv f := by
  rcases main_eq cfg root fuel inv.args inv.config with
    ⟨hrefused, heq⟩ | ⟨hrefused, heq⟩
  · rw [heq]
    exact ends_pure (iff_of_true rfl (.inl hrefused))
  · rw [heq]
    simp only [Harmless, hrefused, false_or]
    cases inv.args.unit? with
    | some unit => exact ends_stopRun_preview hpreview
    | none =>
      cases hconfig : inv.config with
      | none => exact ends_pure (iff_of_true rfl (.inr (by simp [hconfig])))
      | some config =>
        refine (ends_scheduleRun_preview hpreview).imp fun _ s hs => ?_
        rw [hs, ← capacityStep_snd_eq_iff f hconfig inv.args.target]
        exact withLatch_files_eq_iff

/-- A run of `main`: what the probes say while it waits and what is left of the host are up to the
host. -/
def Runs (cfg : Settings) (root : String) (fuel : ℕ) (inv : Invocation) (f : Files)
    (result : Result) (f' : Files) : Prop :=
  ∃ tr r, Path (Step Env) (main cfg root fuel inv.args inv.config, ⟨inv.readings, f⟩) tr
    (.ret result, ⟨r, f'⟩)

theorem exists_env (h : Host) (q : Query) : ∃ answer h', Env h q answer h' := by
  have hpasses : Passes h h := ⟨h.files.active, h.files.locks, rfl⟩
  cases q with
  | unitFiles => exact ⟨_, _, .unitFiles h []⟩
  | unitWorkdir unit => exact ⟨_, _, .unitWorkdir h unit⟩
  | unitActive unit => exact ⟨_, _, .unitActive h unit false⟩
  | agentName workdir => exact ⟨_, _, .agentName h workdir⟩
  | pickup workdir => exact ⟨_, _, .pickup h workdir⟩
  | diag workdir => exact ⟨_, _, .diag h workdir false⟩
  | process workdir => exact ⟨_, _, .process h workdir false⟩
  | lock name => exact ⟨_, _, .lock h name⟩
  | unlinkLock name => exact ⟨_, _, .unlinkLock h name⟩
  | now => exact ⟨_, _, .now h⟩
  | diskFreeGb path => exact ⟨_, _, .diskFreeGb h path⟩
  | memAvailableGb => exact ⟨_, _, .memAvailableGb h⟩
  | memoryPressureAvg60 => exact ⟨_, _, .memoryPressureAvg60 h⟩
  | latchExists => exact ⟨_, _, .latchExists h⟩
  | writeLatch => exact ⟨_, _, .writeLatch h⟩
  | unlinkLatch => exact ⟨_, _, .unlinkLatch h⟩
  | maintenanceActive => exact ⟨_, _, .maintenanceActive h⟩
  | setMaintenance active => exact ⟨_, _, .setMaintenance h active⟩
  | start unit => exact ⟨_, _, .start h h unit false hpasses⟩
  | stopRunnerSafely unit => exact ⟨_, _, .stopRunnerSafely h h unit ⟨.ok false, false⟩ hpasses⟩
  | monotonic => exact ⟨_, _, .monotonic h h 0 hpasses⟩
  | writeState state => exact ⟨_, _, .writeState h state true⟩
  | reboot => exact ⟨_, _, .reboot h⟩

theorem exists_runs (cfg : Settings) (root : String) (fuel : ℕ) (inv : Invocation) (f : Files) :
    ∃ result f', Runs cfg root fuel inv f result f' := by
  obtain ⟨tr, result, ⟨r, f'⟩, path⟩ :=
    exists_path_ret exists_env (main cfg root fuel inv.args inv.config) ⟨inv.readings, f⟩
  exact ⟨result, f', tr, r, path⟩

/-- **When a preview leaves everything as it was.** -/
theorem preview_unchanged_iff {result : Result} (hpreview : inv.args.preview = true)
    (hrun : Runs cfg root fuel inv f result f') : f' = f ↔ Harmless inv f := by
  obtain ⟨tr, r, path⟩ := hrun
  exact (ends_main_preview hpreview).of_path path

end SchedulerMain
