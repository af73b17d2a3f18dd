import RunnerDashboard.Cordon.Plan
import RunnerDashboard.Lib.Json
import RunnerDashboard.Lib.Path

/-!
# Runs of the cordon

Tick after tick the cordon follows its policy, but for three gaps: a state file may have a trip
without a time or a cleanup that was done before its trip, and with the end of a cordon it is
forgotten when the last proactive cleanup was.

## Main results

* `follows_policy` — **a run from a consistent state that keeps the cooldown follows the policy.**
* `not_follows` — three runs that do not.
-/

namespace Cordon

open PyFloat Lts

/-! ### Ticks -/

/-- A tick, with the state before it and what comes of it. -/
structure TickEvent where
  before : DiskFullCordonState
  input : TickInput
  result : Option CordonTickResult

/-- A tick; one that fails leaves the state as it is. -/
def CordonStep (R : Rounding) (s : DiskFullCordonState) (e : TickEvent) (s' : DiskFullCordonState) :
    Prop :=
  e.before = s ∧ e.result = planCordonTick R s e.input ∧
    s' = (e.result.map (·.state)).getD s

namespace TickEvent

def count (e : TickEvent) (kind : CordonActionKind) : ℕ :=
  (e.result.map fun r => r.actions.countP (·.kind = kind)).getD 0

def trips (e : TickEvent) : Bool := 0 < e.count .setMaintenanceOn

/-- A tick that goes back to `normal`. -/
def reenters (e : TickEvent) : Bool :=
  e.before.phase ≠ .normal && e.result.any fun r => r.state.phase = .normal

def proactive (e : TickEvent) : Bool :=
  e.before.phase = .normal && 0 < e.count .runDiskCleanup

def clears (e : TickEvent) : Bool :=
  e.before.phase = .cordoned && e.before.cleanupDone &&
    diskPressureAllowsReadmit e.input.freeGb e.input.usedPercent e.input.config.thresholds

/-- A tick that finds no cordon, no reason for one, and a need for a cleanup. -/
def soft (e : TickEvent) : Bool :=
  e.before.phase = .normal &&
    !diskPressureTrips e.input.freeGb e.input.usedPercent e.input.config.thresholds &&
    proactiveCleanupNeeded e.input.freeGb e.input.usedPercent

end TickEvent

def lastTrip (s : DiskFullCordonState) (ls : List TickEvent) : Option PyFloat :=
  ls.foldl (fun t e => if e.trips then some (fin e.input.now) else t) s.trippedAt

/-- How many cleanups are planned. -/
def cleanups (ls : List TickEvent) : ℕ := (ls.map (·.count .runDiskCleanup)).sum

def proactiveTimes (s : DiskFullCordonState) (ls : List TickEvent) : List PyFloat :=
  s.lastProactiveCleanupAt.toList ++ (ls.filter (·.proactive)).map fun e => fin e.input.now

/-! ### The policy -/

structure Follows (R : Rounding) (s : DiskFullCordonState) (ls : List TickEvent) : Prop where
  neverFails : ∀ e ∈ ls, e.result.isSome
  /-- A busy runner is stopped only if running jobs need not finish, or the drain times out. -/
  busyStops : ∀ before e after r, ls = before ++ e :: after → e.result = some r →
    ∀ a ∈ r.actions, a.kind = .stopRunner → ∀ x ∈ e.input.runners, a.unit = some x.unit →
      (∀ y ∈ e.input.runners, y.unit = x.unit → y.busy = true) →
      e.input.config.finishRunningJobs = false ∨ ∃ t, lastTrip s (before ++ [e]) = some t ∧
        le (fin e.input.config.timeoutSeconds) (sub R (fin e.input.now) t)
  cordoned : ∀ e ∈ ls, ∀ r, e.result = some r → e.before.phase ≠ .cordoned →
    r.state.phase = .cordoned → ∀ x ∈ e.input.runners, x.active = false
  /-- From a trip on there is one cleanup at most, and one when the cordon ends. -/
  cleansOnce : ∀ before e mid after, ls = before ++ e :: (mid ++ after) → e.trips →
    (∀ x ∈ mid, x.reenters = false) → cleanups (e :: mid) ≤ 1 ∧
      ∀ e' rest, after = e' :: rest → e'.reenters → cleanups (e :: mid ++ [e']) = 1
  /-- The same for a trip before the run, but for a cleanup that was before the run as well. -/
  cleansOnceLoaded : s.phase ≠ .normal → ∀ mid after, ls = mid ++ after →
    (∀ x ∈ mid, x.reenters = false) → cleanups mid ≤ 1 ∧
      ∀ e' rest, after = e' :: rest → e'.reenters →
        cleanups (mid ++ [e']) = if s.phase = .cordoned ∧ s.cleanupDone = true then 0 else 1
  readmits : ∀ e ∈ ls, e.reenters →
    le e.input.config.thresholds.readmitMinFreeGb e.input.freeGb ∧
      le e.input.usedPercent e.input.config.thresholds.readmitUsedPercent
  /-- Proactive cleanups are apart. -/
  cooldown : ∀ before e after, ls = before ++ e :: after → e.proactive →
    ∀ τ ∈ proactiveTimes s before, le proactiveCleanupCooldownS (sub R (fin e.input.now) τ)

/-- A trip has its time, and only a cordon has its cleanup. -/
structure Consistent (s : DiskFullCordonState) : Prop where
  tripped : s.phase = .tripping → s.trippedAt.isSome
  fresh : s.phase ≠ .cordoned → s.cleanupDone = false

/-- A state file whose trip has a time, and whose cleanup is one of a cordon. -/
def ConsistentFile {V : Type*} (py : Values V) : FileContent V → Prop
  | .object field =>
    (phaseOf ((field "phase").bind py.text) = .tripping →
      (field "tripped_at").any (fun v => !py.isNone v) = true) ∧
    (phaseOf ((field "phase").bind py.text) ≠ .cordoned →
      (field "cleanup_done").any py.truthy = false)
  | _ => True

/-- **Where a cordon ends, a tick that needs a proactive cleanup later is one cooldown after the one
that is forgotten.** -/
def KeepsCooldown (R : Rounding) (ls : List TickEvent) : Prop :=
  ∀ before e mid e' after t, ls = before ++ e :: mid ++ e' :: after → e.clears →
    e.before.lastProactiveCleanupAt = some t → e'.soft →
    le proactiveCleanupCooldownS (sub R (fin e'.input.now) t)

/-! ### What one tick does -/

variable {R : Rounding} {s s' : DiskFullCordonState} {e : TickEvent} {ls : List TickEvent}
  {i : TickInput}

@[simp] theorem finishTick_state (s : DiskFullCordonState) (actions : List CordonAction)
    (config : RunnerDiskGuardConfig) : (finishTick s actions config).state = s := rfl

theorem mem_finishTick {a : CordonAction} {actions : List CordonAction}
    {config : RunnerDiskGuardConfig} (h : a ∈ (finishTick s actions config).actions) :
    a ∈ actions := mem_of_mem_dedupeStops h

theorem CordonStep.outcome (h : CordonStep R s e s') :
    e = ⟨s, e.input, e.result⟩ ∧ Outcome R s e.input e.result ∧
      s' = (e.result.map (·.state)).getD s := by
  obtain ⟨rfl, hresult, hs'⟩ := h
  exact ⟨rfl, hresult ▸ Cordon.outcome R e.before e.input, hs'⟩

/-- A drain plans no cleanup, and begins no maintenance that was not begun before it. -/
theorem count_drainTick (R : Rounding) (s next : DiskFullCordonState) (t : PyFloat)
    (actions : List CordonAction) (i : TickInput) {kind : CordonActionKind}
    (hkind : kind ≠ .stopRunner) (h : ∀ a ∈ actions, a.kind ≠ kind) :
    (TickEvent.mk s i (some (drainTick R next t actions i))).count kind = 0 := by
  simp only [TickEvent.count, Option.map_some, Option.getD_some, List.countP_eq_zero,
    decide_eq_true_eq]
  intro a ha hk
  rcases mem_drainTick ha with ha | ⟨hstop, -⟩
  · exact h a ha hk
  · exact hkind (hk.symm.trans hstop)

theorem count_trip (next : DiskFullCordonState) (t : PyFloat) :
    0 < (TickEvent.mk s i (some (drainTick R next t [{ kind := .setMaintenanceOn }] i))).count
      .setMaintenanceOn := by
  simp only [TickEvent.count, Option.map_some, Option.getD_some, List.countP_pos_iff,
    decide_eq_true_eq]
  refine ⟨{ kind := .setMaintenanceOn }, ?_, rfl⟩
  exact mem_dedupeStops (List.mem_append_left _ (List.mem_singleton_self _)) nofun

theorem count_finishTick_nil {next : DiskFullCordonState} {config : RunnerDiskGuardConfig}
    (kind : CordonActionKind) :
    (TickEvent.mk s i (some (finishTick next [] config))).count kind = 0 := rfl

theorem count_finishTick_singleton {next : DiskFullCordonState} {config : RunnerDiskGuardConfig}
    (kind kind' : CordonActionKind) :
    (TickEvent.mk s i (some (finishTick next [{ kind := kind }] config))).count kind' =
      if kind = kind' then 1 else 0 := by
  cases kind <;> cases kind' <;> rfl

theorem drainTick_facts (R : Rounding) {next : DiskFullCordonState} (t : PyFloat)
    (actions : List CordonAction) (i : TickInput) (hphase : next.phase = .tripping) :
    (drainTick R next t actions i).state.phase ≠ .normal ∧
      (drainTick R next t actions i).state.trippedAt = next.trippedAt ∧
      (drainTick R next t actions i).state.cleanupDone = next.cleanupDone ∧
      (drainTick R next t actions i).state.lastProactiveCleanupAt =
        next.lastProactiveCleanupAt := by
  rcases drainTick_state R next t actions i with ⟨h, -⟩ | ⟨h, -⟩
  · rw [h, hphase]
    exact ⟨nofun, rfl, rfl, rfl⟩
  · rw [h]
    exact ⟨nofun, rfl, rfl, rfl⟩

/-- What is needed of a tick for what follows: whether it trips, how many cleanups it plans, and
what becomes of the state. -/
structure StepFacts (R : Rounding) (s : DiskFullCordonState) (e : TickEvent)
    (s' : DiskFullCordonState) : Prop where
  trips : e.trips = true → s.phase = .normal ∧ s'.phase ≠ .normal ∧
    s'.trippedAt = some (fin e.input.now) ∧ s'.cleanupDone = s.cleanupDone ∧
    e.count .runDiskCleanup = 0
  tripped : e.trips = false → s'.phase = .tripping → s.phase = .tripping ∧
    s'.trippedAt = s.trippedAt
  cleans : s.phase ≠ .normal → e.reenters = false → s'.phase ≠ .normal ∧
    e.count .runDiskCleanup + (if s.cleanupDone then 1 else 0) = if s'.cleanupDone then 1 else 0
  reenters : e.reenters = true → s.cleanupDone = true ∧ e.count .runDiskCleanup = 0 ∧
    diskPressureAllowsReadmit e.input.freeGb e.input.usedPercent e.input.config.thresholds = true
  proactive : e.proactive = true → e.soft = true ∧
    (∀ last, s.lastProactiveCleanupAt = some last →
      le proactiveCleanupCooldownS (sub R (fin e.input.now) last)) ∧
    s'.lastProactiveCleanupAt = some (fin e.input.now)
  kept : e.proactive = false → s'.lastProactiveCleanupAt = s.lastProactiveCleanupAt ∨
    e.clears = true

/-- **What a tick does.** -/
theorem stepFacts (h : CordonStep R s e s') : StepFacts R s e s' := by
  obtain ⟨he, ho, rfl⟩ := h.outcome
  clear h
  rw [he]
  generalize e.input = i at ho ⊢
  generalize e.result = result at ho ⊢
  cases ho with
  | trips phase pressure =>
    set next : DiskFullCordonState := { s with phase := .tripping, trippedAt := some (fin i.now) }
    have htrips := count_trip (R := R) (s := s) (i := i) next (fin i.now)
    have hcleans : (TickEvent.mk s i (some (drainTick R next (fin i.now)
        [{ kind := .setMaintenanceOn }] i))).count .runDiskCleanup = 0 :=
      count_drainTick R s next _ _ i nofun (by simp)
    obtain ⟨hphase, htripped, hdone, hlast⟩ := drainTick_facts R (fin i.now)
      [{ kind := .setMaintenanceOn }] i (rfl : next.phase = .tripping)
    constructor <;> simp_all [TickEvent.trips, TickEvent.reenters, TickEvent.proactive, next]
  | proactive phase pressure needed cooled =>
    constructor <;> simp_all [TickEvent.trips, TickEvent.reenters, TickEvent.proactive,
      TickEvent.soft, count_finishTick_singleton]
  | idle phase =>
    constructor <;> simp_all [TickEvent.trips, TickEvent.reenters, TickEvent.proactive,
      count_finishTick_nil]
  | fails phase trippedAt =>
    constructor <;> simp_all [TickEvent.trips, TickEvent.reenters, TickEvent.proactive,
      TickEvent.count]
  | drains t phase trippedAt =>
    have htrips : (TickEvent.mk s i (some (drainTick R s t [] i))).count .setMaintenanceOn = 0 :=
      count_drainTick R s s t [] i nofun (by simp)
    have hcleans : (TickEvent.mk s i (some (drainTick R s t [] i))).count .runDiskCleanup = 0 :=
      count_drainTick R s s t [] i nofun (by simp)
    obtain ⟨hphase, htripped, hdone, hlast⟩ := drainTick_facts R t [] i phase
    constructor <;> simp_all [TickEvent.trips, TickEvent.reenters, TickEvent.proactive]
  | cleans phase cleanupDone =>
    constructor <;> simp_all [TickEvent.trips, TickEvent.reenters, TickEvent.proactive,
      count_finishTick_singleton]
  | readmits phase cleanupDone pressure =>
    constructor <;> simp_all [TickEvent.trips, TickEvent.reenters, TickEvent.proactive,
      TickEvent.clears, count_finishTick_singleton]
  | waits phase cleanupDone =>
    constructor <;> simp_all [TickEvent.trips, TickEvent.reenters, TickEvent.proactive,
      count_finishTick_nil]

/-! ### What ticks keep -/

/-- **A tick from a consistent state does not fail, and leaves one.** -/
theorem consistent_step (hs : Consistent s) (h : CordonStep R s e s') :
    e.result.isSome ∧ Consistent s' := by
  obtain ⟨he, ho, rfl⟩ := h.outcome
  generalize e.input = i at ho ⊢
  generalize e.result = result at ho ⊢
  cases ho with
  | trips phase pressure =>
    refine ⟨rfl, ?_⟩
    obtain ⟨hphase, htripped, hdone, -⟩ := drainTick_facts R (fin i.now)
      [{ kind := .setMaintenanceOn }] i
      (rfl : ({ s with phase := .tripping, trippedAt := some (fin i.now) } :
        DiskFullCordonState).phase = .tripping)
    have hfresh := hs.fresh (by simp [phase])
    exact ⟨fun _ => by simp [htripped], fun _ => hdone.trans hfresh⟩
  | proactive phase pressure needed cooled =>
    exact ⟨rfl, by simp [phase], fun _ => hs.fresh (by simp [phase])⟩
  | idle phase => exact ⟨rfl, hs⟩
  | fails phase trippedAt =>
    have htripped := hs.tripped phase
    rw [trippedAt] at htripped
    cases htripped
  | drains t phase trippedAt =>
    refine ⟨rfl, ?_⟩
    obtain ⟨-, htripped, hdone, -⟩ := drainTick_facts R t [] i phase
    have hfresh := hs.fresh (by simp [phase])
    exact ⟨fun _ => by simp [htripped, trippedAt], fun _ => hdone.trans hfresh⟩
  | cleans phase cleanupDone => exact ⟨rfl, by simp [phase], by simp [phase]⟩
  | readmits phase cleanupDone pressure => exact ⟨rfl, nofun, fun _ => rfl⟩
  | waits phase cleanupDone => exact ⟨rfl, hs⟩

theorem consistent_of_path (path : Path (CordonStep R) s ls s') (hs : Consistent s) :
    Consistent s' :=
  path.invariant (fun _ _ _ hs h => (consistent_step hs h).2) hs

/-- **While runners are drained, the time of the trip is that of the last one.** -/
theorem lastTrip_of_path (path : Path (CordonStep R) s ls s') (hphase : s'.phase = .tripping) :
    s'.trippedAt = lastTrip s ls := by
  refine path.history (I := fun past t => t.phase = .tripping → t.trippedAt = lastTrip s past)
    ?_ (fun _ => rfl) hphase
  intro past t e t' hinv h ht'
  have facts := stepFacts h
  unfold lastTrip at hinv ⊢
  rw [List.foldl_append, List.foldl_cons, List.foldl_nil]
  cases htrips : e.trips with
  | true => exact (facts.trips htrips).2.2.1
  | false =>
    obtain ⟨hphase, hkept⟩ := facts.tripped htrips ht'
    rw [hkept, hinv hphase]
    rfl

theorem cleanups_append (ls ls' : List TickEvent) :
    cleanups (ls ++ ls') = cleanups ls + cleanups ls' := by
  simp [cleanups]

theorem cleanups_cons (e : TickEvent) (ls : List TickEvent) :
    cleanups (e :: ls) = e.count .runDiskCleanup + cleanups ls := by
  simp [cleanups]

/-- **Until a cordon ends there is one cleanup, if it is done.** -/
theorem cleanups_of_path (path : Path (CordonStep R) s ls s') (hphase : s.phase ≠ .normal)
    (hend : ∀ e ∈ ls, e.reenters = false) :
    s'.phase ≠ .normal ∧
      cleanups ls + (if s.cleanupDone then 1 else 0) = if s'.cleanupDone then 1 else 0 := by
  induction path with
  | nil s => exact ⟨hphase, by simp [cleanups]⟩
  | @cons s t u e ls h path ih =>
    obtain ⟨hnormal, hcount⟩ := (stepFacts h).cleans hphase (hend e List.mem_cons_self)
    obtain ⟨hlast, hrest⟩ := ih hnormal fun e he => hend e (List.mem_cons_of_mem _ he)
    refine ⟨hlast, ?_⟩
    rw [cleanups_cons]
    omega

/-- The time of a proactive cleanup is no later than another one. -/
def Covers (t τ : PyFloat) : Prop := τ = t ∨ le τ t

theorem Covers.cooldown {t τ : PyFloat} {v : PyFloat} {now : ℚ} (h : Covers t τ)
    (hv : le v (sub R (fin now) t)) : le v (sub R (fin now) τ) := by
  rcases h with rfl | h
  · exact hv
  · exact le_sub_of_le h hv

/-- A proactive cleanup, one that was forgotten where a cordon ended. -/
def Forgotten (ls : List TickEvent) (t : PyFloat) : Prop :=
  ∃ before e mid, ls = before ++ e :: mid ∧ e.clears ∧ e.before.lastProactiveCleanupAt = some t

theorem Forgotten.snoc {t : PyFloat} (h : Forgotten ls t) (e : TickEvent) :
    Forgotten (ls ++ [e]) t := by
  obtain ⟨before, e', mid, rfl, hclears, hlast⟩ := h
  exact ⟨before, e', mid ++ [e], by simp, hclears, hlast⟩

/-- Each proactive cleanup is no later than one that is known, or was forgotten. -/
def Known (s₀ : DiskFullCordonState) (past : List TickEvent) (s : DiskFullCordonState) : Prop :=
  ∀ τ ∈ proactiveTimes s₀ past,
    (∃ t, s.lastProactiveCleanupAt = some t ∧ Covers t τ) ∨ ∃ t, Forgotten past t ∧ Covers t τ

theorem proactiveTimes_snoc (s₀ : DiskFullCordonState) (past : List TickEvent) (e : TickEvent) :
    proactiveTimes s₀ (past ++ [e]) =
      proactiveTimes s₀ past ++ if e.proactive then [fin e.input.now] else [] := by
  simp only [proactiveTimes, List.filter_append, List.map_append, List.append_assoc]
  cases he : e.proactive <;> simp [he]

theorem KeepsCooldown.of_append {ls' : List TickEvent} (h : KeepsCooldown R (ls ++ ls')) :
    KeepsCooldown R ls := by
  rintro before e mid e' after t rfl
  exact h before e mid e' (after ++ ls') t (by simp)

theorem KeepsCooldown.soft {past after : List TickEvent} {t : PyFloat}
    (h : KeepsCooldown R (past ++ e :: after)) (ht : Forgotten past t) (hsoft : e.soft) :
    le proactiveCleanupCooldownS (sub R (fin e.input.now) t) := by
  obtain ⟨before, e', mid, rfl, hclears, hlast⟩ := ht
  exact h before e' mid e after t (by simp) hclears hlast hsoft

section Cooldown

variable {s₀ : DiskFullCordonState} {past after : List TickEvent}

/-- **A proactive cleanup is one cooldown after each that is known or was forgotten.** -/
theorem Known.cooldown (hknown : Known s₀ past s) (h : CordonStep R s e s')
    (hkeep : KeepsCooldown R (past ++ e :: after)) (hproactive : e.proactive) :
    ∀ τ ∈ proactiveTimes s₀ past, le proactiveCleanupCooldownS (sub R (fin e.input.now) τ) := by
  obtain ⟨hsoft, hcooled, -⟩ := (stepFacts h).proactive hproactive
  intro τ hτ
  rcases hknown τ hτ with ⟨t, ht, hcovers⟩ | ⟨t, ht, hcovers⟩
  · exact hcovers.cooldown (hcooled t ht)
  · exact hcovers.cooldown (hkeep.soft ht hsoft)

theorem known_step (hknown : Known s₀ past s) (h : CordonStep R s e s')
    (hkeep : KeepsCooldown R (past ++ [e])) : Known s₀ (past ++ [e]) s' := by
  have facts := stepFacts h
  intro τ hτ
  rw [proactiveTimes_snoc] at hτ
  cases hproactive : e.proactive with
  | true =>
    obtain ⟨-, -, hlast⟩ := facts.proactive hproactive
    refine .inl ⟨fin e.input.now, hlast, ?_⟩
    rw [hproactive, if_pos rfl] at hτ
    rcases List.mem_append.mp hτ with hτ | hτ
    · -- it is one cooldown ago, so it is no later
      have hcooled := hknown.cooldown h hkeep hproactive τ hτ
      exact .inr (le_of_le_sub (v := 3600) (by decide) hcooled)
    · exact .inl (List.mem_singleton.mp hτ)
  | false =>
    rw [hproactive, if_neg Bool.false_ne_true, List.append_nil] at hτ
    rcases hknown τ hτ with ⟨t, ht, hcovers⟩ | ⟨t, ht, hcovers⟩
    · rcases facts.kept hproactive with hkept | hclears
      · exact .inl ⟨t, hkept.trans ht, hcovers⟩
      · exact .inr ⟨t, ⟨past, e, [], rfl, hclears, by rw [h.1, ht]⟩, hcovers⟩
    · exact .inr ⟨t, ht.snoc e, hcovers⟩

theorem covers_of_path (path : Path (CordonStep R) s₀ ls s) (hkeep : KeepsCooldown R ls) :
    Known s₀ ls s := by
  refine path.history (I := fun past t => KeepsCooldown R past → Known s₀ past t) ?_ ?_ hkeep
  · intro past t e t' hinv h hkeep
    exact known_step (hinv hkeep.of_append) h hkeep
  · intro _ τ hτ
    left
    simp only [proactiveTimes, List.filter_nil, List.map_nil, List.append_nil,
      Option.mem_toList] at hτ
    exact ⟨τ, hτ, .inl rfl⟩

end Cooldown

/-! ### Runs -/

theorem exists_step_of_mem (path : Path (CordonStep R) s ls s') (he : e ∈ ls) :
    ∃ before t t', Path (CordonStep R) s before t ∧ CordonStep R t e t' := by
  obtain ⟨before, after, rfl⟩ := List.append_of_mem he
  obtain ⟨t, t', hbefore, h, -⟩ := path_middle_iff.mp path
  exact ⟨before, t, t', hbefore, h⟩

theorem CordonStep.stops (h : CordonStep R s e s') {r : CordonTickResult} (hr : e.result = some r)
    {a : CordonAction} (ha : a ∈ r.actions) (hkind : a.kind = .stopRunner) :
    ∃ x ∈ e.input.runners, a.unit = some x.unit ∧
      (x.busy = false ∨ e.input.config.finishRunningJobs = false ∨
        ∃ t, (e.trips = true ∧ t = fin e.input.now ∨
            e.trips = false ∧ s.phase = .tripping ∧ s.trippedAt = some t) ∧
          le (fin e.input.config.timeoutSeconds) (sub R (fin e.input.now) t) = true) := by
  obtain ⟨he, ho, -⟩ := h.outcome
  rw [he]
  rw [hr] at ho ⊢
  generalize e.input = i at ho ⊢
  generalize hresult : some r = result at ho
  cases ho with
  | trips phase pressure =>
    obtain rfl := Option.some.inj hresult
    rcases mem_drainTick ha with ha | ⟨-, x, hx, -, hunit, hstop⟩
    · rw [List.mem_singleton.mp ha] at hkind
      cases hkind
    · refine ⟨x, hx, hunit, hstop.imp_right fun h => h.imp_right fun h => ⟨_, .inl ⟨?_, rfl⟩, h⟩⟩
      exact decide_eq_true (count_trip _ _)
  | drains t phase trippedAt =>
    obtain rfl := Option.some.inj hresult
    rcases mem_drainTick ha with ha | ⟨-, x, hx, -, hunit, hstop⟩
    · cases ha
    · refine ⟨x, hx, hunit, hstop.imp_right fun h => h.imp_right fun h =>
        ⟨t, .inr ⟨?_, phase, trippedAt⟩, h⟩⟩
      have hzero : (TickEvent.mk s i (some (drainTick R s t [] i))).count .setMaintenanceOn = 0 :=
        count_drainTick R s s t [] i nofun (by simp)
      simp [TickEvent.trips, hzero]
  | fails phase trippedAt => cases hresult
  | proactive phase pressure needed cooled =>
    obtain rfl := Option.some.inj hresult
    rw [List.mem_singleton.mp (mem_finishTick ha)] at hkind
    cases hkind
  | cleans phase cleanupDone =>
    obtain rfl := Option.some.inj hresult
    rw [List.mem_singleton.mp (mem_finishTick ha)] at hkind
    cases hkind
  | readmits phase cleanupDone pressure =>
    obtain rfl := Option.some.inj hresult
    rw [List.mem_singleton.mp (mem_finishTick ha)] at hkind
    cases hkind
  | idle phase =>
    obtain rfl := Option.some.inj hresult
    cases ha
  | waits phase cleanupDone =>
    obtain rfl := Option.some.inj hresult
    cases ha

theorem CordonStep.cordoned (h : CordonStep R s e s') {r : CordonTickResult}
    (hr : e.result = some r) (hs : s.phase ≠ .cordoned) (hphase : r.state.phase = .cordoned) :
    activeRunners e.input.runners = [] := by
  obtain ⟨he, ho, -⟩ := h.outcome
  rw [hr] at ho
  generalize e.input = i at ho ⊢
  generalize hresult : some r = result at ho
  cases ho with
  | trips phase pressure =>
    obtain rfl := Option.some.inj hresult
    rcases drainTick_state R { s with phase := .tripping, trippedAt := some (fin i.now) }
      (fin i.now) [{ kind := .setMaintenanceOn }] i with ⟨hstate, -⟩ | ⟨-, hnone⟩
    · rw [hstate] at hphase
      cases hphase
    · exact hnone
  | drains t phase trippedAt =>
    obtain rfl := Option.some.inj hresult
    rcases drainTick_state R s t [] i with ⟨hstate, -⟩ | ⟨-, hnone⟩
    · rw [hstate] at hphase
      exact absurd hphase hs
    · exact hnone
  | proactive phase pressure needed cooled =>
    obtain rfl := Option.some.inj hresult
    exact absurd hphase hs
  | idle phase =>
    obtain rfl := Option.some.inj hresult
    exact absurd hphase hs
  | fails phase trippedAt => cases hresult
  | cleans phase cleanupDone => exact absurd phase hs
  | readmits phase cleanupDone pressure => exact absurd phase hs
  | waits phase cleanupDone => exact absurd phase hs

theorem cleansOnce_of_path {mid after : List TickEvent} (hphase : s.phase ≠ .normal)
    (path : Path (CordonStep R) s (mid ++ after) s') (hend : ∀ x ∈ mid, x.reenters = false) :
    cleanups mid ≤ 1 ∧ ∀ e' rest, after = e' :: rest → e'.reenters = true →
      cleanups (mid ++ [e']) = if s.cleanupDone then 0 else 1 := by
  obtain ⟨t, hmid, hafter⟩ := path_append_iff.mp path
  obtain ⟨-, hcount⟩ := cleanups_of_path hmid hphase hend
  refine ⟨?_, ?_⟩
  · split at hcount <;> split at hcount <;> omega
  · rintro e' rest rfl hreenters
    obtain ⟨t', h, -⟩ := path_cons_iff.mp hafter
    obtain ⟨hdone, hzero, -⟩ := (stepFacts h).reenters hreenters
    rw [cleanups_append, cleanups_cons, hzero]
    rw [hdone] at hcount
    simp only [cleanups, List.map_nil, List.sum_nil] at hcount ⊢
    split at hcount <;> split <;> simp_all

theorem consistent_of_load {V : Type*} {py : Values V} {content : FileContent V}
    (hload : loadCordonState py content = some s) (hfile : ConsistentFile py content) :
    Consistent s := by
  cases content with
  | raises => cases hload
  | unreadable =>
    obtain rfl := Option.some.inj hload
    exact ⟨nofun, fun _ => rfl⟩
  | otherValue =>
    obtain rfl := Option.some.inj hload
    exact ⟨nofun, fun _ => rfl⟩
  | object field =>
    obtain ⟨hfiletrip, hfiledone⟩ := hfile
    simp only [loadCordonState, Option.bind_eq_bind, Option.bind_eq_some_iff, Option.pure_def,
      Option.some.injEq] at hload
    obtain ⟨trippedAt, htripped, last, -, rfl⟩ := hload
    refine ⟨?_, hfiledone⟩
    intro hphase
    have hgiven := hfiletrip hphase
    dsimp only
    cases hfield : field "tripped_at" with
    | none =>
      rw [hfield] at hgiven
      cases hgiven
    | some v =>
      rw [hfield, Option.any_some, Bool.not_eq_true'] at hgiven
      rw [hfield, optionalFloat, hgiven, if_neg Bool.false_ne_true, Option.map_eq_some_iff]
        at htripped
      obtain ⟨t, -, rfl⟩ := htripped
      rfl

/-- **A run from a consistent state that keeps the cooldown follows the policy.** -/
theorem follows_of_consistent (hs : Consistent s) (path : Path (CordonStep R) s ls s')
    (hkeep : KeepsCooldown R ls) : Follows R s ls where
  neverFails e he := by
    obtain ⟨before, t, t', hbefore, h⟩ := exists_step_of_mem path he
    exact (consistent_step (consistent_of_path hbefore hs) h).1
  busyStops := by
    rintro before e after r rfl hr a ha hkind x hx hunit hbusy
    obtain ⟨t, t', hbefore, h, -⟩ := path_middle_iff.mp path
    obtain ⟨y, hy, hunit', hstop⟩ := h.stops hr ha hkind
    have hxy : y.unit = x.unit := Option.some.inj (hunit'.symm.trans hunit)
    rcases hstop with hidle | hfinish | ⟨tripped, htripped, htimeout⟩
    · rw [hbusy y hy hxy] at hidle
      cases hidle
    · exact .inl hfinish
    · refine .inr ⟨tripped, ?_, htimeout⟩
      -- the time of the trip is that of this tick, or the one in the state
      unfold lastTrip
      rw [List.foldl_append, List.foldl_cons, List.foldl_nil]
      rcases htripped with ⟨htrips, rfl⟩ | ⟨htrips, hphase, htripped⟩
      · rw [htrips, if_pos rfl]
      · rw [htrips, if_neg Bool.false_ne_true, ← htripped]
        exact (lastTrip_of_path hbefore hphase).symm
  cordoned := by
    intro e he r hr hphase hcordoned x hx
    obtain ⟨before, t, t', -, h⟩ := exists_step_of_mem path he
    have hnone := h.cordoned hr (h.1 ▸ hphase) hcordoned
    by_contra hactive
    have hmem : x ∈ activeRunners e.input.runners :=
      List.mem_filter.mpr ⟨hx, Bool.not_eq_false _ ▸ hactive⟩
    rw [hnone] at hmem
    cases hmem
  cleansOnce := by
    rintro before e mid after rfl htrips hend
    obtain ⟨t, t', hbefore, h, hrest⟩ := path_middle_iff.mp path
    obtain ⟨hnormal, hphase, -, hdone, hzero⟩ := (stepFacts h).trips htrips
    have hfresh := (consistent_of_path hbefore hs).fresh (by simp [hnormal])
    obtain ⟨hle, hone⟩ := cleansOnce_of_path hphase hrest hend
    rw [cleanups_cons, hzero, Nat.zero_add]
    refine ⟨hle, ?_⟩
    intro e' rest hafter hreenters
    have hcount := hone e' rest hafter hreenters
    rw [hdone, hfresh, if_neg Bool.false_ne_true] at hcount
    rw [List.cons_append, cleanups_cons, hzero, Nat.zero_add, hcount]
  cleansOnceLoaded := by
    rintro hphase mid after rfl hend
    obtain ⟨hle, hone⟩ := cleansOnce_of_path hphase path hend
    refine ⟨hle, ?_⟩
    intro e' rest hafter hreenters
    rw [hone e' rest hafter hreenters]
    by_cases hcordoned : s.phase = .cordoned
    · simp [hcordoned]
    · simp [hcordoned, hs.fresh hcordoned]
  readmits e he hreenters := by
    obtain ⟨before, t, t', -, h⟩ := exists_step_of_mem path he
    have hsample := ((stepFacts h).reenters hreenters).2.2
    unfold diskPressureAllowsReadmit at hsample
    rwa [Bool.and_eq_true] at hsample
  cooldown := by
    rintro before e after rfl hproactive
    obtain ⟨t, t', hbefore, h, -⟩ := path_middle_iff.mp path
    exact (covers_of_path hbefore hkeep.of_append).cooldown h hkeep hproactive

/-- **A run from a consistent state file that keeps the cooldown follows the policy.** -/
theorem follows_policy {V : Type*} {py : Values V} {content : FileContent V}
    (hload : loadCordonState py content = some s) (hfile : ConsistentFile py content)
    (path : Path (CordonStep R) s ls s') (hkeep : KeepsCooldown R ls) : Follows R s ls :=
  follows_of_consistent (consistent_of_load hload hfile) path hkeep

/-! ### Some runs -/

def events (R : Rounding) : DiskFullCordonState → List TickInput → List TickEvent
  | _, [] => []
  | s, i :: is =>
    ⟨s, i, planCordonTick R s i⟩ ::
      events R (((planCordonTick R s i).map (·.state)).getD s) is

theorem exists_path_events (R : Rounding) (s : DiskFullCordonState) (is : List TickInput) :
    ∃ s', Path (CordonStep R) s (events R s is) s' := by
  induction is generalizing s with
  | nil => exact ⟨s, .nil s⟩
  | cons i is ih => exact Path.exists_cons ⟨rfl, rfl, rfl⟩ (ih _)

theorem Follows.cooldown_getElem? (h : Follows R s ls) (j : ℕ) :
    (ls[j]?).all (fun e => !e.proactive || (proactiveTimes s (ls.take j)).all fun τ =>
      le proactiveCleanupCooldownS (sub R (fin e.input.now) τ)) = true := by
  rw [Option.all_eq_true]
  intro e he
  obtain ⟨hj, rfl⟩ := List.getElem?_eq_some_iff.mp he
  cases hproactive : ls[j].proactive with
  | false => rfl
  | true =>
    rw [Bool.not_true, Bool.false_or, List.all_eq_true]
    refine h.cooldown (ls.take j) ls[j] (ls.drop (j + 1)) ?_ hproactive
    rw [← List.drop_eq_getElem_cons hj, List.take_append_drop]

theorem keepsCooldown_of_not_clears (h : ∀ e ∈ ls, e.clears = false) : KeepsCooldown R ls := by
  rintro before e mid e' after t rfl hclears
  rw [h e (by simp)] at hclears
  cases hclears

/-- How the values of JSON are read, where a text is no number. -/
def jsonValues : Values Json where
  isNone
    | .null => true
    | _ => false
  text
    | .str text => some text
    | _ => none
  truthy := Json.truthy
  float
    | .num n => some (fin n)
    | .bool b => some (fin (if b then 1 else 0))
    | _ => none

def cordonFile (phase : String) (trippedAt : Json) (cleanupDone : Bool) : FileContent Json :=
  .object fun k => [("phase", .str phase), ("tripped_at", trippedAt),
    ("cleanup_done", .bool cleanupDone), ("last_proactive_cleanup_at", .null)].lookup k

def somePolicy : RunnerDiskGuardConfig where
  thresholds := ⟨fin 25, fin 40, fin 90, fin 85⟩
  timeoutSeconds := 1800
  finishRunningJobs := true
  minOnlineAfterDrain := 0

def tickAt (now usedPercent : ℚ) (runners : List RunnerSnapshot) : TickInput :=
  ⟨fin 100, fin usedPercent, somePolicy, runners, now⟩

/-- A proactive cleanup, and a trip with a busy runner that is stopped after half an hour. -/
def drainTicks : List TickInput :=
  [tickAt 0 78 [⟨"u1", true, true⟩], tickAt 60 95 [⟨"u1", true, true⟩],
    tickAt 120 95 [⟨"u1", true, true⟩], tickAt 1860 95 [⟨"u1", true, true⟩],
    tickAt 1920 95 [⟨"u1", false, false⟩], tickAt 1980 95 []]

/-- The runner is stopped, and the policy followed. -/
theorem follows_drainTicks :
    Follows Rounding.exact {} (events Rounding.exact {} drainTicks) ∧
      ((events Rounding.exact {} drainTicks).map (·.count .stopRunner)) = [0, 0, 0, 1, 0, 0] := by
  obtain ⟨s', path⟩ := exists_path_events Rounding.exact {} drainTicks
  have hload : loadCordonState jsonValues (cordonFile "normal" .null false) = some {} := by decide
  refine ⟨follows_policy hload ⟨by decide, by decide⟩ path (keepsCooldown_of_not_clears ?_), ?_⟩
  · decide +kernel
  · decide +kernel

def cordonTicks : List TickInput :=
  [tickAt 0 78 [], tickAt 60 95 [], tickAt 120 95 [], tickAt 180 80 [], tickAt 240 78 []]

/-- **A state file without the time of the trip, one with a cleanup before its trip, and a proactive
cleanup four minutes after another one.** -/
theorem not_follows :
    somePolicy.Validated ∧
    (∃ s s', loadCordonState jsonValues (cordonFile "tripping" .null false) = some s ∧
      Path (CordonStep Rounding.exact) s (events Rounding.exact s [tickAt 0 95 []]) s' ∧
      ¬ Follows Rounding.exact s (events Rounding.exact s [tickAt 0 95 []])) ∧
    (∃ s s', loadCordonState jsonValues (cordonFile "normal" .null true) = some s ∧
      Path (CordonStep Rounding.exact) s
        (events Rounding.exact s [tickAt 0 95 [], tickAt 60 80 []]) s' ∧
      ¬ Follows Rounding.exact s (events Rounding.exact s [tickAt 0 95 [], tickAt 60 80 []])) ∧
    ∃ s s', loadCordonState jsonValues (cordonFile "normal" .null false) = some s ∧
      Path (CordonStep Rounding.exact) s (events Rounding.exact s cordonTicks) s' ∧
      ¬ Follows Rounding.exact s (events Rounding.exact s cordonTicks) := by
  refine ⟨?_, ?_, ?_, ?_⟩
  · constructor <;> decide
  · obtain ⟨s', path⟩ := exists_path_events Rounding.exact
      { phase := .tripping } [tickAt 0 95 []]
    refine ⟨{ phase := .tripping }, s', by decide, path, fun h => ?_⟩
    exact absurd (h.neverFails _ List.mem_cons_self) (by decide)
  · obtain ⟨s', path⟩ := exists_path_events Rounding.exact
      { cleanupDone := true } [tickAt 0 95 [], tickAt 60 80 []]
    refine ⟨{ cleanupDone := true }, s', by decide, path, fun h => ?_⟩
    have hnone : ∀ x ∈ ([] : List TickEvent), x.reenters = false := by simp
    have hone := (h.cleansOnce [] _ [] _ rfl (by decide +kernel) hnone).2 _ [] rfl
      (by decide +kernel)
    revert hone
    decide +kernel
  · obtain ⟨s', path⟩ := exists_path_events Rounding.exact {} cordonTicks
    refine ⟨{}, s', by decide, path, fun h => ?_⟩
    have hcooled := h.cooldown_getElem? 4
    revert hcooled
    decide +kernel

end Cordon
