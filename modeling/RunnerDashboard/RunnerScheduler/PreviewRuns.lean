import RunnerDashboard.RunnerScheduler.Previews

/-!
# Previews between ticks

The capacity of an applied run depends on the maintenance hold and on the latch of the disk floor.
Harmless previews leave both as they are, so that the ticks of a history compute what they would
without them.

## Main results

* `desired_of_path` — the capacities of a history.
* `preview_unchanged` — **harmless previews change nothing, now or later.**
-/

namespace SchedulerMain

open Asking Lts
open RunnerScheduler (RunnerUnit Settings Stopped Action Active)

variable {cfg : Settings} {root : String} {fuel : ℕ} {h h' : Host} {q : Query} {a : Answer q}
  {α : Type} {p : Program α} {inv : Invocation} {f f' : Files}

/-! ### Applied runs -/

/-- A call that leaves the flags as they are. -/
def Query.KeepsFlags : Query → Prop
  | .setMaintenance _ | .writeLatch | .unlinkLatch => False
  | _ => True

/-- A call of an applied look at the units. -/
def Query.Looks (q : Query) : Prop := q.Reads ∨ ∃ name, q = .unlinkLock name

theorem flags_of_env (hq : q.KeepsFlags) (henv : Env h q a h') :
    h'.files.flags = h.files.flags := by
  have hpasses : ∀ h', Passes h h' → h'.files.flags = h.files.flags := by
    rintro h' ⟨active, locks, hfiles⟩
    rw [hfiles]
    rfl
  cases henv with
  | unlinkLock name => split_ifs <;> rfl
  | start _ unit ok hp => exact hpasses h' hp
  | stopRunnerSafely _ unit ok hp => exact hpasses h' hp
  | monotonic _ now hp => exact hpasses h' hp
  | writeState state ok => split_ifs <;> rfl
  | _ => first | rfl | exact hq.elim

theorem keepsFlags_of_reads (hq : q.Reads) : q.KeepsFlags := by
  cases q <;> trivial

theorem looks_of_env (hq : q.Looks) (henv : Env h q a h') :
    h'.readings = h.readings ∧ h'.files.flags = h.files.flags := by
  rcases hq with hq | ⟨name, rfl⟩
  · rw [eq_of_reads hq henv]
    exact ⟨rfl, rfl⟩
  · refine ⟨?_, flags_of_env (q := .unlinkLock name) trivial henv⟩
    cases henv
    split_ifs <;> rfl

theorem ends_of_keepsFlags (honly : p.Only Query.KeepsFlags) :
    Ends Env p h fun _ h' => h'.files.flags = h.files.flags :=
  honly.ends (I := fun h' : Host => h'.files.flags = h.files.flags)
    (fun _ _ _ _ hq hI henv => (flags_of_env hq henv).trans hI) rfl

theorem only_runnerBusyViaLock {P : Query → Prop} (hreads : ∀ q, q.Reads → P q)
    (hunlink : ∀ name, P (.unlinkLock name)) (workdir unit : String) (cleanupStale : Bool) :
    (runnerBusyViaLock workdir unit cleanupStale).Only P := by
  refine only_bind ((reads_runnerNames workdir unit).imp hreads) fun names => ?_
  induction names with
  | nil => exact only_pure
  | cons name names ih =>
    refine only_bind (only_call.mpr (hreads _ trivial)) fun lock => ?_
    cases lock with
    | none => exact ih
    | some lock =>
      dsimp only
      split_ifs
      · exact ih
      · exact only_pure
      · exact ih
      · refine only_bind (only_call.mpr (hunlink name)) fun ok => ?_
        split_ifs
        · exact ih
        · exact only_pure

theorem ends_listUnits (cleanupStale : Bool) :
    Ends Env (listUnits root cleanupStale) h fun _ h' =>
      h'.readings = h.readings ∧ h'.files.flags = h.files.flags := by
  have hlooks : (listUnits root cleanupStale).Only Query.Looks :=
    only_listUnits (fun _ => .inl) fun workdir unit =>
      only_runnerBusyViaLock (fun _ => .inl) (fun name => .inr ⟨name, rfl⟩) workdir unit _
  refine hlooks.ends
    (I := fun h' : Host => h'.readings = h.readings ∧ h'.files.flags = h.files.flags)
    (fun s q a s' hq hI henv => ?_) ⟨rfl, rfl⟩
  obtain ⟨hreadings, hflags⟩ := looks_of_env hq henv
  exact ⟨hreadings.trans hI.1, hflags.trans hI.2⟩

theorem keepsFlags_runnerBusyViaLock (workdir unit : String) (cleanupStale : Bool) :
    (runnerBusyViaLock workdir unit cleanupStale).Only Query.KeepsFlags :=
  only_runnerBusyViaLock (fun _ => keepsFlags_of_reads) (fun _ => trivial) workdir unit _

/-- **A tick leaves the flags as they are.** -/
theorem keepsFlags_handle {α : Type} (units : List RunnerUnit) (cleanupStale : Bool)
    (p : RunnerScheduler.Program α) :
    (p.handle (tickCall units cleanupStale)).Only Query.KeepsFlags := by
  refine only_handle (only_true p) fun q _ => ?_
  cases q with
  | runnerBusy unit =>
    exact only_runnerBusy (fun _ => keepsFlags_of_reads) (keepsFlags_runnerBusyViaLock _ _ _)
  | workerBusy unit =>
    exact only_bind (only_call.mpr trivial) fun busy =>
      only_ite only_pure (keepsFlags_runnerBusyViaLock _ _ _)
  | _ => exact only_call.mpr trivial

theorem keepsFlags_lookupUnit (unit : String) (cleanupStale : Bool) :
    (lookupUnit unit cleanupStale).Only Query.KeepsFlags :=
  only_lookupUnit (fun _ => keepsFlags_of_reads) fun workdir =>
    keepsFlags_runnerBusyViaLock workdir unit cleanupStale

theorem ends_stopRun (args : Args) (unit : String) :
    Ends Env (stopRun args unit) h fun result h' =>
      result.desired = none ∧ h'.files.flags = h.files.flags := by
  refine ends_bind (ends_of_keepsFlags (keepsFlags_lookupUnit unit _)) fun found s hs => ?_
  cases found with
  | none => exact ends_pure ⟨rfl, hs⟩
  | some u =>
    by_cases hpreview : args.preview = true
    · simp only [hpreview, if_true]
      exact ends_pure ⟨rfl, hs⟩
    · simp only [hpreview, Bool.false_eq_true, if_false]
      have hstop : (stopUnitByName unit).Only Query.KeepsFlags := by
        refine only_bind (keepsFlags_lookupUnit unit true) fun found => ?_
        cases found with
        | none => exact only_pure
        | some u => exact only_bind (only_call.mpr trivial) fun _ => only_pure
      refine ends_bind (ends_of_keepsFlags hstop) fun stopped s' hs' => ?_
      exact ends_pure ⟨rfl, hs'.trans hs⟩

theorem ends_finish (args : Args) (desired : ℤ) (actions : List Action) (report : Option Bool) :
    Ends Env (finish root args desired actions report) h fun result h' =>
      result.desired = some desired ∧ result.rebooting = report.getD false ∧
        h'.files.flags = h.files.flags := by
  refine ends_bind (ends_listUnits false) fun units s hs => ?_
  refine ends_bind (ends_of_reads (only_call.mpr trivial)) fun maintenance s' hs' => ?_
  rw [hs', ← hs.2]
  by_cases hpreview : args.preview = true
  · simp only [hpreview, if_true]
    exact ends_pure ⟨rfl, rfl, rfl⟩
  · simp only [hpreview, Bool.false_eq_true, if_false]
    refine ends_bind (ends_of_keepsFlags (only_call.mpr trivial)) fun ok s' hs' => ?_
    exact ends_pure ⟨rfl, rfl, hs'⟩

/-- The flags after an applied `--resume`, if it does not raise. -/
def clearedFlags (inv : Invocation) (s : Flags) : Option Flags :=
  if inv.args.resume then
    if inv.readings.maintenanceWritable || !s.maintenance then some { s with maintenance := false }
    else none
  else some s

/-- The capacity of an applied run, and the flags after it. -/
def appliedStep (inv : Invocation) (s : Flags) (rebooting : Bool) : Option ℤ × Flags :=
  match inv.args.unit?, inv.config, clearedFlags inv s with
  | none, some config, some s =>
    if inv.args.drain then
      if inv.readings.maintenanceWritable then (some 0, ⟨!rebooting, s.latch⟩) else (none, s)
    else
      let capacity := capacityStep inv.readings config inv.args.target s
      (capacity.1, ⟨s.maintenance, capacity.2⟩)
  | _, _, _ => (none, s)

/-- The hold is removed before a reboot, and only then. -/
theorem ends_rebootIfDrained (drained : Bool) :
    Ends Env (rebootIfDrained drained) h fun rebooted h' =>
      h'.files.flags = ⟨h.files.maintenance && rebooted != some true, h.files.latch⟩ := by
  cases drained with
  | false => exact ends_pure (by simp [Files.flags])
  | true =>
    refine ends_known (.setMaintenance false) (h.canSet false)
      (if h.canSet false then { h with files := { h.files with maintenance := false } } else h)
      (by rintro _ _ ⟨⟩; exact ⟨rfl, rfl⟩) ?_
    cases hset : h.canSet false with
    | false => exact ends_pure (by simp [Files.flags])
    | true =>
      refine ends_bind (ends_of_reads (only_call.mpr trivial)) fun _ s hs => ?_
      rw [hs]
      exact ends_pure (by simp [Files.flags])

/-- **A drain of the maintenance** holds the units at none, unless the host is rebooted. -/
theorem ends_maintenanceRun (args : Args) (units : List RunnerUnit) :
    Ends Env (maintenanceRun cfg root fuel args units) h fun result h' =>
      (result.desired, h'.files.flags) =
        if h.readings.maintenanceWritable then
          (some 0, ⟨!result.rebooting, h.files.latch⟩)
        else (none, h.files.flags) := by
  refine ends_known (.setMaintenance true) h.readings.maintenanceWritable
    (if h.readings.maintenanceWritable then
      { h with files := { h.files with maintenance := true } } else h) ?_ ?_
  · rintro _ _ ⟨⟩
    simp only [Host.canSet, Bool.not_true, Bool.false_and, Bool.or_false, and_true]
    rfl
  by_cases hwritable : h.readings.maintenanceWritable = true
  · simp only [hwritable, if_true, Bool.not_true, Bool.false_eq_true, if_false]
    refine ends_bind (ends_of_keepsFlags (keepsFlags_handle units true _)) fun drained s hs => ?_
    have hflags : s.files.flags = ⟨true, h.files.latch⟩ := hs
    cases drained with
    | error e => exact ends_pure (by rw [hflags]; rfl)
    | ok actions =>
      dsimp only
      by_cases hreboot : args.reboot = true
      · simp only [hreboot, Bool.not_true, Bool.false_eq_true, if_false]
        refine ends_bind (ends_rebootIfDrained _) fun rebooted s' hs' => ?_
        have hmaintenance : s.files.maintenance = true := congrArg Flags.maintenance hflags
        have hlatch : s.files.latch = h.files.latch := congrArg Flags.latch hflags
        rw [hmaintenance, hlatch] at hs'
        cases rebooted with
        | none => exact ends_pure (by rw [hs']; rfl)
        | some rebooted =>
          refine (ends_finish args 0 actions (some rebooted)).imp ?_
          rintro result s'' ⟨hdesired, hrebooting, hs''⟩
          rw [hdesired, hrebooting, hs'', hs']
          cases rebooted <;> rfl
      · simp only [hreboot, Bool.not_false, if_true]
        refine (ends_finish args 0 actions (some false)).imp ?_
        rintro result s' ⟨hdesired, hrebooting, hs'⟩
        rw [hdesired, hrebooting, hs', hflags]
        rfl
  · simp only [hwritable, Bool.not_false, Bool.false_eq_true, if_true, if_false]
    exact ends_pure rfl

theorem ends_tickRun (args : Args) (config : Config) (units : List RunnerUnit) :
    Ends Env (tickRun cfg root fuel args config units) h fun result h' =>
      (result.desired, h'.files.flags) =
        ((capacityStep h.readings config args.target h.files.flags).1,
          ⟨h.files.maintenance, (capacityStep h.readings config args.target h.files.flags).2⟩) := by
  refine ends_bind (ends_effectiveCapacity config args.target h) ?_
  rintro _ _ ⟨rfl, rfl⟩
  generalize capacityStep h.readings config args.target h.files.flags = capacity
  obtain ⟨capacity, latch⟩ := capacity
  cases capacity with
  | none => exact ends_pure rfl
  | some desired =>
    refine ends_bind (ends_of_keepsFlags (keepsFlags_handle units _ _)) fun ticked s hs => ?_
    cases ticked with
    | error e => exact ends_pure (by rw [hs]; rfl)
    | ok actions =>
      refine (ends_finish args desired actions none).imp ?_
      rintro result s' ⟨hdesired, -, hs'⟩
      rw [hdesired, hs', hs]
      rfl

theorem ends_clearHold (happlied : inv.args.preview = false) :
    Ends Env (clearHold inv.args) ⟨inv.readings, f⟩ fun resumed h' =>
      h'.readings = inv.readings ∧
        if resumed then clearedFlags inv f.flags = some h'.files.flags
        else clearedFlags inv f.flags = none ∧ h'.files.flags = f.flags := by
  rw [clearHold, clearedFlags]
  by_cases hresume : inv.args.resume = true
  · simp only [hresume, happlied, Bool.not_false, Bool.and_self, if_true]
    refine ends_call fun resumed s henv => ?_
    cases henv
    cases hwritable : inv.readings.maintenanceWritable <;> cases hmaintenance : f.maintenance <;>
      simp [Host.canSet, Files.flags, hwritable, hmaintenance]
  · simp only [hresume, Bool.false_and, Bool.false_eq_true, if_false]
    exact ends_pure ⟨rfl, by simp⟩

theorem ends_scheduleRun {config : Config} (happlied : inv.args.preview = false)
    (hunit : inv.args.unit? = none) (hconfig : inv.config = some config) :
    Ends Env (scheduleRun cfg root fuel inv.args config) ⟨inv.readings, f⟩ fun result h' =>
      (result.desired, h'.files.flags) = appliedStep inv f.flags result.rebooting := by
  simp only [appliedStep, hunit, hconfig]
  refine ends_bind (ends_clearHold happlied) ?_
  rintro resumed s ⟨hreadings, hs⟩
  cases resumed with
  | false =>
    obtain ⟨hcleared, hflags⟩ := hs
    exact ends_pure (by rw [hcleared, hflags])
  | true =>
    rw [if_pos rfl] at hs
    simp only [hs, Bool.not_true, Bool.false_eq_true, if_false]
    refine ends_bind (ends_listUnits _) fun units s' hs' => ?_
    rw [← hs'.2, ← hreadings, ← hs'.1]
    by_cases hdrain : inv.args.drain = true
    · simp only [hdrain, happlied, Bool.not_false, Bool.and_self, if_true]
      exact ends_maintenanceRun inv.args units
    · simp only [hdrain, Bool.false_and, Bool.false_eq_true, if_false]
      exact ends_tickRun inv.args config units

/-- **What an applied run computes,** and what becomes of the flags. -/
theorem ends_main_applied (happlied : inv.args.preview = false) :
    Ends Env (main cfg root fuel inv.args inv.config) ⟨inv.readings, f⟩ fun result h' =>
      (result.desired, h'.files.flags) =
        if inv.args.Refused then (none, f.flags)
        else appliedStep inv f.flags result.rebooting := by
  rcases main_eq cfg root fuel inv.args inv.config with
    ⟨hrefused, heq⟩ | ⟨hrefused, heq⟩
  · rw [heq]
    exact ends_pure (if_pos hrefused).symm
  · rw [heq]
    simp only [if_neg hrefused]
    cases hunit : inv.args.unit? with
    | some unit =>
      refine (ends_stopRun inv.args unit).imp ?_
      rintro result s ⟨hdesired, hflags⟩
      rw [hdesired, hflags, appliedStep, hunit]
    | none =>
      cases hconfig : inv.config with
      | none => exact ends_pure (by rw [appliedStep, hunit, hconfig])
      | some config => exact ends_scheduleRun happlied hunit hconfig

/-! ### Histories -/

/-- A run of a history. -/
structure Event where
  inv : Invocation
  result : Result

/-- A run from some files with the flags, where a preview is harmless. -/
def Happens (cfg : Settings) (root : String) (fuel : ℕ) (s : Flags) (e : Event) (s' : Flags) :
    Prop :=
  ∃ f f', f.flags = s ∧ f'.flags = s' ∧ Runs cfg root fuel e.inv f e.result f' ∧
    (e.inv.args.preview = true → Harmless e.inv f)

/-- The applied runs of a history. -/
def ticks (es : List Event) : List Event := es.filter fun e => !e.inv.args.preview

/-- What an applied run gets from outside: how it is called, and whether it reboots the host. -/
def Event.input (e : Event) : Invocation × Bool := (e.inv, e.result.rebooting)

/-- The capacities of some applied runs, one after the other. -/
def capacities : Flags → List (Invocation × Bool) → List (Option ℤ)
  | _, [] => []
  | s, (inv, rebooting) :: inputs =>
    let step := if inv.args.Refused then (none, s) else appliedStep inv s rebooting
    step.1 :: capacities step.2 inputs

variable {s s' t t' : Flags} {e : Event} {es es' : List Event}

theorem flags_of_preview (hpreview : e.inv.args.preview = true)
    (h : Happens cfg root fuel s e s') : s' = s := by
  obtain ⟨f, f', rfl, rfl, hrun, hharmless⟩ := h
  rw [(preview_unchanged_iff hpreview hrun).mpr (hharmless hpreview)]

/-- An applied run computes its capacity from the flags. -/
theorem step_of_applied (happlied : e.inv.args.preview = false)
    (h : Happens cfg root fuel s e s') :
    (e.result.desired, s') = if e.inv.args.Refused then (none, s)
      else appliedStep e.inv s e.result.rebooting := by
  obtain ⟨f, f', rfl, rfl, ⟨tr, r, path⟩, -⟩ := h
  exact (ends_main_applied happlied).of_path path

/-- **The capacities of a history are those of its applied runs alone.** -/
theorem desired_of_path (path : Path (Happens cfg root fuel) s es t) :
    (ticks es).map (·.result.desired) = capacities s ((ticks es).map Event.input) := by
  induction path with
  | nil s => rfl
  | @cons s s₁ t e es hstep path ih =>
    cases hpreview : e.inv.args.preview with
    | true =>
      have hticks : ticks (e :: es) = ticks es := by simp [ticks, hpreview]
      rw [hticks, ih, flags_of_preview hpreview hstep]
    | false =>
      have hticks : ticks (e :: es) = e :: ticks es := by simp [ticks, hpreview]
      have happlied := step_of_applied hpreview hstep
      rw [hticks, List.map_cons, List.map_cons, ih, Event.input, capacities, ← happlied]

/-- **A preview changes nothing exactly if it is harmless, and harmless previews do not change the
capacities of ticks.** -/
theorem preview_unchanged (cfg : Settings) (root : String) (fuel : ℕ) :
    (∀ inv f result f', inv.args.preview = true → Runs cfg root fuel inv f result f' →
        (f' = f ↔ Harmless inv f)) ∧
      ∀ s es t es' t', Path (Happens cfg root fuel) s es t →
        Path (Happens cfg root fuel) s es' t' →
        (ticks es).map Event.input = (ticks es').map Event.input →
        (ticks es).map (·.result.desired) = (ticks es').map (·.result.desired) := by
  refine ⟨fun _ _ _ _ => preview_unchanged_iff, fun s es t es' t' path path' hinputs => ?_⟩
  rw [desired_of_path path, desired_of_path path', hinputs]

def hostWith (free : ℚ) : Readings where
  workdir _ := some "/srv/runner-1"
  agentName _ := none
  pickup _ := false
  weekday := 0
  time := 0
  diskFreeGb _ := some (.fin free)
  memAvailableGb := none
  memoryPressureAvg60 := none
  latchOpens := true
  latchRemovable := true
  maintenanceWritable := true

/-- Four runners, and one while the space is below 40 and until it is back at 45. -/
def floorConfig : Config where
  defaultCount := 4
  floor := some { minDiskFreeGb := some (.fin 40), readmitDiskFreeGb := some (.fin 45) }

/-- No latch, and the lock of a worker that is gone. -/
def idleFiles : Files where
  active _ := false
  maintenance := false
  latch := false
  locks name := if name = "runner-1" then some { workerPidStale := true } else none
  state := none

theorem desired_tick {f f' : Files} {result : Result} (latch : Bool)
    (hflags : f.flags = ⟨false, latch⟩)
    (hrun : Runs {} "" 0 ⟨{ apply := true }, some floorConfig, hostWith 42⟩ f result f') :
    result.desired = some (if latch then 1 else 4) := by
  obtain ⟨tr, r, path⟩ := hrun
  have happlied : (⟨{ apply := true }, some floorConfig, hostWith 42⟩ :
      Invocation).args.preview = false := rfl
  have hstep := (ends_main_applied happlied).of_path path
  rw [hflags, if_neg (by decide)] at hstep
  have hdesired : result.desired = _ := congrArg Prod.fst hstep
  rw [hdesired]
  generalize result.rebooting = rebooting
  cases latch <;> cases rebooting <;> decide +kernel

/-- A preview sets the latch, so that the next tick is for one runner where it would be for four;
and one of `--stop-unit` removes a lock. -/
theorem not_preview_unchanged :
    (∃ result f', Runs {} "" 0 ⟨{ dryRun := true }, some floorConfig, hostWith 38⟩ idleFiles
        result f' ∧ f' ≠ idleFiles ∧
        ∀ result' f'', Runs {} "" 0 ⟨{ apply := true }, some floorConfig, hostWith 42⟩ f'
          result' f'' → result'.desired = some 1) ∧
      (∀ result f', Runs {} "" 0 ⟨{ apply := true }, some floorConfig, hostWith 42⟩ idleFiles
        result f' → result.desired = some 4) ∧
      ∃ result f', Runs {} "" 0 ⟨{ stopUnit := some "runner-1.service" }, none, hostWith 42⟩
        idleFiles result f' ∧ f' ≠ idleFiles := by
  refine ⟨?_, fun result f' => desired_tick false rfl, ?_⟩
  · obtain ⟨result, f', hrun⟩ := exists_runs {} "" 0
      ⟨{ dryRun := true }, some floorConfig, hostWith 38⟩ idleFiles
    have hlatch : f'.flags = ⟨false, true⟩ := by
      obtain ⟨tr, r, path⟩ := hrun
      have hfiles := (ends_scheduleRun_preview rfl).of_path path
      rw [congrArg (fun h => h.files.flags) hfiles]
      decide +kernel
    refine ⟨result, f', hrun, fun heq => ?_, fun result' f'' => desired_tick true hlatch⟩
    rw [heq] at hlatch
    exact absurd hlatch (by decide)
  · obtain ⟨result, f', hrun⟩ := exists_runs {} "" 0
      ⟨{ stopUnit := some "runner-1.service" }, none, hostWith 42⟩ idleFiles
    refine ⟨result, f', hrun, fun heq => ?_⟩
    rcases (preview_unchanged_iff rfl hrun).mp heq with hrefused | hdry | hstays
    · exact absurd hrefused (by decide)
    · cases hdry
    · rcases hstays "/srv/runner-1" rfl with hpickup | hlock
      · cases hpickup
      · exact hlock { workerPidStale := true } ⟨"runner-1", by decide +kernel, rfl⟩ ⟨rfl, rfl, rfl⟩

end SchedulerMain
