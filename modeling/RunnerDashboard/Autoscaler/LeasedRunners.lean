import Mathlib.Data.List.Chain
import RunnerDashboard.Autoscaler.PollLoop

/-!
# Leased runners are not stopped

Along a run of the autoscaler: no unit of a runner is stopped that an unexpired lease pins, nothing
is stopped while an unexpired lease cannot be resolved, two stops of one pool are the action
cooldown apart, and no pool falls below its minimum.

All but the first hold without any condition.  The first fails for a runner with a dot in its name:
what is protected is the whole name, and what is looked up is what stands after the dot.

## Main results

* `stopsSafely_of_namesRead` — **a run is safe if the names are read in each of its ticks.**
-/

namespace Autoscaler

open RunnerLease

variable {c : Config} {s : State} {t : Tick} {ts : List Tick} {p : Pool} {u : String}
  {records : List LeaseRecord}

/-! ### Safe runs -/

def Pinned (now : ℤ) (records : List LeaseRecord) (name : String) : Prop :=
  ∃ r ∈ records, r.unexpired now = true ∧ Pins r name

/-- An unexpired virtual lease cannot be resolved. -/
def Blocked (now : ℤ) (records : List LeaseRecord) : Prop :=
  ∃ r ∈ records, r.unexpired now = true ∧ Unresolved r

/-- The ticks of a run that stop units of the pool, with what they read from the clock. -/
def stopTicks (p : Pool) (log : List (Tick × (Pool → Actions))) : List Tick :=
  (log.filter fun x => (x.2 p).stops ≠ []).map Prod.fst

/-- What is asked of a run, from the files that the lease manager wrote. -/
structure StopsSafely (c : Config) (log : List (Tick × (Pool → Actions))) : Prop where
  pinned : ∀ t acts, (t, acts) ∈ log → ∀ records, Written t.leases records →
    ∀ owner name, '.' ∉ owner.toList → IsRunnerName name → Pinned t.now records name →
      ∀ p, unitName owner name ∉ (acts p).stops
  blocked : ∀ t acts, (t, acts) ∈ log → ∀ records, Written t.leases records →
    Blocked t.now records → ∀ p, (acts p).stops = []
  /-- A cooldown of zero asks for nothing. -/
  spaced : c.actionCooldown ≠ 0 → ∀ p,
    (stopTicks p log).IsChain fun t t' => t.recordedAt p + (c.actionCooldown : ℤ) ≤ t'.checkedAt p
  minOnline : ∀ t acts, (t, acts) ∈ log → ∀ p, (acts p).stops ≠ [] →
    (c.getPoolConfig p).minOnline ≤ ((poolActive c t p).length : ℤ) - (acts p).stops.length

/-- The names that the autoscaler reads from the units of pinned runners are pinned: so it is for
names without a dot. -/
def NamesRead (t : Tick) : Prop :=
  ∀ records, Written t.leases records → Blocked t.now records ∨
    ∀ owner name, '.' ∉ owner.toList → IsRunnerName name → unitName owner name ∈ t.units →
      Pinned t.now records name →
        '.' ∉ name.toList ∨ Pinned t.now records (runnerNameForUnit (unitName owner name))

/-! ### One tick -/

theorem mem_stops_pollTick (h : u ∈ ((pollTick c s t).2 p).stops) :
    u ∈ poolIdleActive c t (leaseScaleDownGuard c.py t.now t.leases) p ∧
      c.stopInCooldown (s.lastStopAction p) (t.checkedAt p) = false := by
  rcases pollTick_cases c s t with ⟨hnone, -⟩ | ⟨s', hlast, htick⟩
  · rw [hnone p] at h
    cases h
  · rw [htick] at h
    rw [← hlast]
    exact mem_stops h

theorem minOnline_pollTick (h : ((pollTick c s t).2 p).stops ≠ []) :
    (c.getPoolConfig p).minOnline ≤
      ((poolActive c t p).length : ℤ) - ((pollTick c s t).2 p).stops.length := by
  rcases pollTick_cases c s t with ⟨hnone, -⟩ | ⟨s', -, htick⟩
  · exact absurd (hnone p) h
  · rw [htick] at h ⊢
    have hle := length_stops_le h
    change _ ≤ ((poolActive c t p).length : ℤ) -
      ((poolActions c s' t (leaseScaleDownGuard c.py t.now t.leases) p).stops.length : ℤ)
    omega

theorem stops_of_blocked (hw : Written t.leases records) (h : Blocked t.now records) :
    ((pollTick c s t).2 p).stops = [] := by
  rw [List.eq_nil_iff_forall_not_mem]
  intro u hu
  obtain ⟨hidle, -⟩ := mem_stops_pollTick hu
  obtain ⟨-, -, -, hblock⟩ := mem_poolIdleActive_iff.mp hidle
  rw [(blockScaleDown_iff hw).mpr h] at hblock
  cases hblock

theorem notMem_stops_of_pinned (hw : Written t.leases records)
    (h : Pinned t.now records (runnerNameForUnit u)) : u ∉ ((pollTick c s t).2 p).stops := by
  intro hu
  obtain ⟨hidle, -⟩ := mem_stops_pollTick hu
  obtain ⟨-, -, hfree, -⟩ := mem_poolIdleActive_iff.mp hidle
  exact hfree ((mem_protected_iff hw).mpr h)

theorem mem_units_of_mem_stops (h : u ∈ ((pollTick c s t).2 p).stops) : u ∈ t.units := by
  obtain ⟨hidle, -⟩ := mem_stops_pollTick h
  obtain ⟨hactive, -⟩ := mem_poolIdleActive_iff.mp hidle
  exact (mem_poolUnits_iff.mp (List.mem_of_mem_filter hactive)).1

theorem pinned_pollTick (h : NamesRead t) (hw : Written t.leases records) {owner name : String}
    (howner : '.' ∉ owner.toList) (hname : IsRunnerName name)
    (hpinned : Pinned t.now records name) :
    unitName owner name ∉ ((pollTick c s t).2 p).stops := by
  intro hu
  rcases h records hw with hblock | hread
  · rw [stops_of_blocked hw hblock] at hu
    cases hu
  · rcases hread owner name howner hname (mem_units_of_mem_stops hu) hpinned with hdot | hlast
    · have hsame : runnerNameForUnit (unitName owner name) = name :=
        runnerNameForUnit_unitName hdot hname.1
      exact notMem_stops_of_pinned hw (hsame.symm ▸ hpinned) hu
    · exact notMem_stops_of_pinned hw hlast hu

/-! ### Runs -/

theorem of_mem_runTicks {acts : Pool → Actions} (h : (t, acts) ∈ runTicks c s ts) :
    t ∈ ts ∧ ∃ s', acts = (pollTick c s' t).2 := by
  induction ts generalizing s with
  | nil => cases h
  | cons t₀ ts ih =>
    rw [runTicks, List.mem_cons, Prod.mk.injEq] at h
    rcases h with ⟨rfl, rfl⟩ | h
    · exact ⟨List.mem_cons_self, s, rfl⟩
    · obtain ⟨hmem, hacts⟩ := ih h
      exact ⟨List.mem_cons_of_mem _ hmem, hacts⟩

theorem le_checkedAt (hcooldown : c.actionCooldown ≠ 0)
    (h : ((pollTick c s t).2 p).stops ≠ []) (hlast : 0 < s.lastStopAction p) :
    s.lastStopAction p + (c.actionCooldown : ℤ) ≤ t.checkedAt p := by
  obtain ⟨u, hu⟩ := List.exists_mem_of_ne_nil _ h
  obtain ⟨-, hfree⟩ := mem_stops_pollTick hu
  simp [Config.stopInCooldown, hcooldown, hlast] at hfree
  omega

theorem isChain_stopTicks (hcooldown : c.actionCooldown ≠ 0) (p : Pool) (s : State)
    (ts : List Tick) :
    (0 < s.lastStopAction p → ∀ t ∈ (stopTicks p (runTicks c s ts)).head?,
      s.lastStopAction p + (c.actionCooldown : ℤ) ≤ t.checkedAt p) ∧
    (stopTicks p (runTicks c s ts)).IsChain fun t t' =>
      t.recordedAt p + (c.actionCooldown : ℤ) ≤ t'.checkedAt p := by
  induction ts generalizing s with
  | nil => exact ⟨by simp [stopTicks, runTicks], .nil⟩
  | cons t ts ih =>
    obtain ⟨hfirst, hchain⟩ := ih (pollTick c s t).1
    rw [lastStopAction_pollTick] at hfirst
    by_cases hstop : ((pollTick c s t).2 p).stops = []
    · have hlog : stopTicks p (runTicks c s (t :: ts)) =
          stopTicks p (runTicks c (pollTick c s t).1 ts) := by
        simp [stopTicks, runTicks, hstop]
      rw [if_neg (not_not.mpr hstop)] at hfirst
      rw [hlog]
      exact ⟨hfirst, hchain⟩
    · have hlog : stopTicks p (runTicks c s (t :: ts)) =
          t :: stopTicks p (runTicks c (pollTick c s t).1 ts) := by
        simp [stopTicks, runTicks, hstop]
      rw [if_pos hstop] at hfirst
      rw [hlog]
      constructor
      · intro hlast t' ht'
        obtain rfl := Option.some.inj ht'
        exact le_checkedAt hcooldown hstop hlast
      · exact List.isChain_cons.mpr ⟨hfirst (t.recordedAt_pos p), hchain⟩

/-- **A run is safe if the names are read in each of its ticks.** -/
theorem stopsSafely_of_namesRead (c : Config) (s : State) (ts : List Tick)
    (h : ∀ t ∈ ts, NamesRead t) : StopsSafely c (runTicks c s ts) where
  pinned := by
    intro t acts hmem records hw owner name howner hname hpinned p
    obtain ⟨ht, s', rfl⟩ := of_mem_runTicks hmem
    exact pinned_pollTick (h t ht) hw howner hname hpinned
  blocked := by
    intro t acts hmem records hw hblock p
    obtain ⟨-, s', rfl⟩ := of_mem_runTicks hmem
    exact stops_of_blocked hw hblock
  spaced := fun hcooldown p => (isChain_stopTicks hcooldown p s ts).2
  minOnline := by
    intro t acts hmem p hstop
    obtain ⟨-, s', rfl⟩ := of_mem_runTicks hmem
    exact minOnline_pollTick hstop

/-! ### Two runners and a lease -/

def sampleConfig : Config where
  py := ⟨fun _ => none, fun _ => ""⟩
  thresholds :=
    { cpuHigh := 85, cpuLow := 40, memHigh := 85, diskHigh := 92, diskMinFreeGb := 25,
      loadPerCore := 1.2, ioPressureFullHigh := 35, ioPressureFullLow := 10,
      nvmeCacheHigh := 85, nvmeDiskHigh := 90, nvmeMinFreeGb := 25,
      hddIoHigh := 85, hddDiskHigh := 90, hddMinFreeGb := 25 }
  mean xs := xs.foldl (· + ·) 0 / xs.length.toFloat
  sustainSecs := 45
  pollSeconds := 15
  minOnline := 1
  nvme := { minOnline := 1, maxOnline := 16, defaultOnline := 4 }
  hdd := { minOnline := 1, maxOnline := 16, defaultOnline := 4 }
  maxStep := 2
  actionCooldown := 120
  cooldown := 180
  matchesNvme := fun _ => false
  matchesHdd := fun _ => false

def sampleLease (runner : String) : LeaseRecord where
  principalId := "agent:codex"
  runnerId := runner
  acquiredAt := 1000
  expiresAt := some 4600

/-- Two idle runners, and a lease of the first. -/
def sampleTick (first second : String) : Tick where
  sample := some
    { default := { ioFull := 0, cpu := 5, mem := 10, load := 0.1, disk := 50, diskFree := 500 }
      nvme := { cachePressure := 10, disk := 50, diskFree := 500 }
      hdd := { ioPressure := 0, disk := 50, diskFree := 500 } }
  units := [unitName "org" first, unitName "org" second]
  leases := some [.obj (modelDump (sampleLease first))]
  now := 2000
  isActive := fun _ => true
  isBusy := fun _ => false
  overloadedAt := fun _ => 2000
  elapsedAt := fun _ => 2000
  checkedAt := fun _ => 2001
  recordedAt := fun _ => 2002
  recordedAt_pos := fun _ => by decide

/-- Three ticks fill the history, and the last one stops a unit. -/
def sampleRun (first second : String) : List (Tick × (Pool → Actions)) :=
  runTicks sampleConfig {} (List.replicate 3 (sampleTick first second))

theorem stops_sampleRun_dash :
    (sampleRun "node-1" "node-2").map (fun x => (x.2 .default).stops) =
      [[], [], [unitName "org" "node-2"]] := by
  decide +kernel

theorem stops_sampleRun_dot :
    (sampleRun "node.1" "node.2").map (fun x => (x.2 .default).stops) =
      [[], [], [unitName "org" "node.1"]] := by
  decide +kernel

theorem eq_of_pinned_sampleTick {first second name : String}
    (hdirect : isVirtualLeaseRunnerId first = false)
    (hw : Written (sampleTick first second).leases records)
    (h : Pinned (sampleTick first second).now records name) : name = first := by
  have hmem : name ∈ (leaseScaleDownGuard sampleConfig.py (sampleTick first second).now
      (sampleTick first second).leases).protectedRunnerNames := (mem_protected_iff hw).mpr h
  have hentry : leaseEntry sampleConfig.py 2000 (.obj (modelDump (sampleLease first))) =
      .pins first := leaseEntry_eq_pins_iff.mpr ⟨rfl, .direct hdirect⟩
  simpa [leaseScaleDownGuard, sampleTick, hentry] using hmem

/-- The runner without a lease is stopped, and the other one is not. -/
theorem stopsSafely_sampleRun :
    StopsSafely sampleConfig (sampleRun "node-1" "node-2") ∧
      (sampleRun "node-1" "node-2").map (fun x => (x.2 .default).stops) =
        [[], [], [unitName "org" "node-2"]] := by
  refine ⟨stopsSafely_of_namesRead _ _ _ fun t ht records hw => .inr ?_, stops_sampleRun_dash⟩
  intro owner name _ _ _ hpinned
  obtain rfl := List.eq_of_mem_replicate ht
  obtain rfl := eq_of_pinned_sampleTick (by decide) hw hpinned
  exact .inl (by decide)

/-- A runner with a dot in its name is stopped, although it is leased. -/
theorem not_stopsSafely_dot : ¬StopsSafely sampleConfig (sampleRun "node.1" "node.2") := by
  intro h
  obtain ⟨x, hx, hstops⟩ : ∃ x ∈ sampleRun "node.1" "node.2",
      (x.2 .default).stops = [unitName "org" "node.1"] := by
    have hmem : [unitName "org" "node.1"] ∈
        (sampleRun "node.1" "node.2").map (fun x => (x.2 .default).stops) := by
      rw [stops_sampleRun_dot]
      simp
    exact List.mem_map.mp hmem
  have ht : x.1 = sampleTick "node.1" "node.2" :=
    List.eq_of_mem_replicate (of_mem_runTicks hx).1
  have hw : Written x.1.leases [sampleLease "node.1"] := by
    rw [ht]
    exact .some [sampleLease "node.1"]
  have hname : IsRunnerName "node.1" := ⟨by decide, by simp⟩
  have hpinned : Pinned x.1.now [sampleLease "node.1"] "node.1" := by
    rw [ht]
    exact ⟨sampleLease "node.1", List.mem_singleton_self _, by decide, .direct (by decide)⟩
  refine h.pinned x.1 x.2 hx _ hw "org" "node.1" (by decide) hname hpinned .default ?_
  rw [hstops]
  exact List.mem_singleton_self _

end Autoscaler
