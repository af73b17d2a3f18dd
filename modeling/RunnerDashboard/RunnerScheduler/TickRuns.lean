import RunnerDashboard.RunnerScheduler.Tick

/-!
# A tick does not undershoot

Whatever the probes answer, there are as many active units at every point of a tick as there were at
its start or as are wanted, if a stop that answers `False` leaves its unit active.  A unit is
stopped after a probe that said idle, and a unit that is drained after it was idle for some time.

## Main results

* `safe_applyCapacity`, `safe_drainSurplus` — the two parts.
* `never_undershoots` — **at every point of every tick there are enough active units, and only calls
  that are allowed are made**, if the stops are careful.
* `undershoots` — a stop that answers `False` after it has sent the signal.
-/

namespace RunnerScheduler

open Asking Lts

/-! ### What has to hold -/

/-- What was seen of the units is what they are. -/
def initial (units : Units) : Active := fun unit =>
  units.list.any fun u => u.unit = unit && u.active

def activeCount (units : Units) (s : Active) : ℕ := (units.list.filter fun u => s u.unit).length

def bound (units : Units) (desired : ℤ) : ℕ :=
  min (units.list.filter (·.active)).length (clamped units.list desired)

def probe? (unit : String) : Call Answer → Option Bool
  | ⟨.runnerBusy other, busy⟩ => if other = unit then some busy else none
  | ⟨.workerBusy other, busy⟩ => if other = unit then some busy else none
  | _ => none

def lastProbe (unit : String) (past : List (Call Answer)) : Option Bool :=
  (past.filterMap (probe? unit)).getLast?

/-- A poll of a unit at a time said idle, and no probe said otherwise since. -/
def IdleSince (unit : String) (t : ℚ) (past : List (Call Answer)) : Prop :=
  ∃ before after, past = before ++ ⟨.workerBusy unit, false⟩ :: ⟨.monotonic, t⟩ :: after ∧
    ∀ e ∈ after, probe? unit e ≠ some true

/-- **A unit was idle at every poll for the time that it has to be.** -/
def Settled (cfg : Settings) (unit : String) (past : List (Call Answer)) : Prop :=
  ∃ t now before, IdleSince unit t past ∧ past = before ++ [⟨.monotonic, now⟩] ∧
    cfg.drainSettleSeconds ≤ now - t

section

variable (cfg : Settings) (units : Units) (desired : ℤ)

/-- What has to hold when a call is made after some others. -/
def Allowed (past : List (Call Answer)) (s : Active) (q : Query) : Prop :=
  bound units desired ≤ activeCount units s ∧
    match q with
    | .start unit => s unit = false ∧
        ∃ u ∈ units.list, u.unit = unit ∧ u.active = false ∧ u.busy = false
    | .stopRunnerSafely unit drain => lastProbe unit past = some false ∧
        (drain = true → Settled cfg unit past)
    | _ => True

end

/-! ### Counting -/

variable {cfg : Settings} {units : Units} {desired : ℤ} {s : Active}
  {past more : List (Call Answer)} {u : RunnerUnit}

theorem length_le_activeCount {names : List String} (hnodup : names.Nodup)
    (h : ∀ name ∈ names, name ∈ units.list.map (·.unit) ∧ s name = true) :
    names.length ≤ activeCount units s := by
  have hsub : names ⊆ (units.list.filter fun u => s u.unit).map (·.unit) := by
    intro name hname
    obtain ⟨hmem, hs⟩ := h name hname
    obtain ⟨u, hu, rfl⟩ := List.mem_map.mp hmem
    exact List.mem_map_of_mem (List.mem_filter.mpr ⟨hu, hs⟩)
  have hle := (hnodup.subperm hsub).length_le
  rwa [List.length_map] at hle

theorem eq_of_unit_eq {u v : RunnerUnit} (hu : u ∈ units.list) (hv : v ∈ units.list)
    (h : u.unit = v.unit) : u = v :=
  List.inj_on_of_nodup_map units.nodup hu hv h

theorem initial_eq (hu : u ∈ units.list) : initial units u.unit = u.active := by
  unfold initial
  cases hactive : u.active with
  | true =>
    rw [List.any_eq_true]
    exact ⟨u, hu, by simp [hactive]⟩
  | false =>
    rw [List.any_eq_false]
    intro v hv hand
    rw [Bool.and_eq_true, decide_eq_true_eq] at hand
    rw [eq_of_unit_eq hv hu hand.1, hactive] at hand
    exact absurd hand.2 (by simp)

@[simp] theorem set_self (s : Active) (unit : String) (active : Bool) :
    s.set unit active unit = active := if_pos rfl

theorem set_of_ne (s : Active) {unit other : String} (h : other ≠ unit) (active : Bool) :
    s.set unit active other = s other := if_neg h

theorem set_eq_self {unit : String} {active : Bool} (h : s unit = active) :
    s.set unit active = s := by
  funext other
  unfold Active.set
  split_ifs with hother
  · rw [hother, h]
  · rfl

theorem activeCount_set_true (units : Units) (s : Active) (unit : String) :
    activeCount units s ≤ activeCount units (s.set unit true) := by
  unfold activeCount
  rw [← List.countP_eq_length_filter, ← List.countP_eq_length_filter]
  refine List.countP_mono_left ?_
  intro u _ hu
  by_cases h : u.unit = unit
  · simp [h]
  · rwa [set_of_ne s h]

/-! ### Probes -/

theorem lastProbe_snoc_of_none {e : Call Answer} {unit : String} (h : probe? unit e = none) :
    lastProbe unit (past ++ [e]) = lastProbe unit past := by
  simp [lastProbe, h]

theorem lastProbe_snoc_of_some {e : Call Answer} {unit : String} {busy : Bool}
    (h : probe? unit e = some busy) : lastProbe unit (past ++ [e]) = some busy := by
  simp [lastProbe, h]

theorem IdleSince.append {unit : String} {t : ℚ} (h : IdleSince unit t past)
    (hmore : ∀ e ∈ more, probe? unit e ≠ some true) : IdleSince unit t (past ++ more) := by
  obtain ⟨before, after, rfl, hafter⟩ := h
  refine ⟨before, after ++ more, by simp, ?_⟩
  intro e he
  rcases List.mem_append.mp he with he | he
  · exact hafter e he
  · exact hmore e he

theorem IdleSince.now (past : List (Call Answer)) (unit : String) (t : ℚ) :
    IdleSince unit t (past ++ [⟨.workerBusy unit, false⟩] ++ [⟨.monotonic, t⟩]) :=
  ⟨past, [], by simp, nofun⟩

theorem IdleSince.lastProbe {unit : String} {t : ℚ} (h : IdleSince unit t past) :
    lastProbe unit past = some false := by
  obtain ⟨before, after, rfl, hafter⟩ := h
  have hfirst : probe? unit ⟨.workerBusy unit, false⟩ = some false := if_pos rfl
  have hclock : probe? unit ⟨.monotonic, t⟩ = none := rfl
  have hfalse : ∀ busy ∈ after.filterMap (probe? unit), busy = false := by
    intro busy hbusy
    obtain ⟨e, he, hprobe⟩ := List.mem_filterMap.mp hbusy
    cases busy with
    | false => rfl
    | true => exact absurd hprobe (hafter e he)
  rw [RunnerScheduler.lastProbe, List.filterMap_append, List.filterMap_cons_some hfirst,
    List.filterMap_cons_none hclock, List.eq_replicate_of_mem hfalse, ← List.replicate_succ,
    List.getLast?_append, List.getLast?_replicate]
  rfl

/-! ### Calls -/

section Calls

variable {Post : Bool → List (Call Answer) → Active → Prop}

theorem safe_runnerBusy (hcount : bound units desired ≤ activeCount units s)
    (h : ∀ busy, Post busy (past ++ [⟨.runnerBusy u.unit, busy⟩]) s) :
    Safe CarefulEnv (Allowed cfg units desired) Post (runnerBusy u) past s := by
  refine ⟨⟨hcount, trivial⟩, ?_⟩
  intro busy s' henv
  cases henv.1
  exact h busy

theorem safe_workerBusy (hcount : bound units desired ≤ activeCount units s)
    (h : ∀ busy, Post busy (past ++ [⟨.workerBusy u.unit, busy⟩]) s) :
    Safe CarefulEnv (Allowed cfg units desired) Post (workerBusy u) past s := by
  refine ⟨⟨hcount, trivial⟩, ?_⟩
  intro busy s' henv
  cases henv.1
  exact h busy

theorem safe_monotonic {Post : ℚ → List (Call Answer) → Active → Prop}
    (hcount : bound units desired ≤ activeCount units s)
    (h : ∀ now, Post now (past ++ [⟨.monotonic, now⟩]) s) :
    Safe CarefulEnv (Allowed cfg units desired) Post monotonic past s := by
  refine ⟨⟨hcount, trivial⟩, ?_⟩
  intro now s' henv
  cases henv.1
  exact h now

theorem safe_systemctlStart (hallowed : Allowed cfg units desired past s (.start u.unit))
    (hstarted : ∀ ok, Post ok (past ++ [⟨.start u.unit, ok⟩]) (s.set u.unit true))
    (hfailed : Post false (past ++ [⟨.start u.unit, false⟩]) s) :
    Safe CarefulEnv (Allowed cfg units desired) Post (systemctlStart u) past s := by
  refine ⟨hallowed, ?_⟩
  intro ok s' henv
  cases henv.1 with
  | started => exact hstarted ok
  | startFailed => exact hfailed

/-- A stop that fails leaves the unit as it is; one that ends otherwise may leave it active. -/
theorem safe_stopRunnerSafely {Post : StopReply → List (Call Answer) → Active → Prop} {drain : Bool}
    (hallowed : Allowed cfg units desired past s (.stopRunnerSafely u.unit drain))
    (hs : s u.unit = true)
    (hfailed : ∀ reply : StopReply, reply.result = .ok false →
      Post reply (past ++ [⟨.stopRunnerSafely u.unit drain, reply⟩]) s)
    (hended : ∀ (reply : StopReply) (active : Bool), reply.result ≠ .ok false →
      Post reply (past ++ [⟨.stopRunnerSafely u.unit drain, reply⟩]) (s.set u.unit active)) :
    Safe CarefulEnv (Allowed cfg units desired) Post (stopRunnerSafely u drain) past s := by
  refine ⟨hallowed, ?_⟩
  rintro reply s' ⟨henv, hleaves⟩
  cases henv with
  | stop =>
    by_cases hresult : reply.result = .ok false
    · rw [hleaves hresult, @set_eq_self s u.unit (!false) hs]
      exact hfailed reply hresult
    · exact hended reply (!reply.down) hresult

theorem probe?_runnerBusy (unit : String) (busy : Bool) :
    probe? unit ⟨.runnerBusy unit, busy⟩ = some busy := if_pos rfl

theorem probe?_workerBusy (unit : String) (busy : Bool) :
    probe? unit ⟨.workerBusy unit, busy⟩ = some busy := if_pos rfl

theorem safe_confirmedIdle {settle : Bool} (hcount : bound units desired ≤ activeCount units s)
    (h : ∀ idle more, (idle = true → lastProbe u.unit (past ++ more) = some false) →
      Post idle (past ++ more) s) :
    Safe CarefulEnv (Allowed cfg units desired) Post (confirmedIdle cfg u settle) past s := by
  unfold confirmedIdle
  rw [safe_bind]
  refine safe_runnerBusy hcount fun busy => ?_
  have hprobe : lastProbe u.unit (past ++ [⟨.runnerBusy u.unit, busy⟩]) = some busy :=
    lastProbe_snoc_of_some (probe?_runnerBusy _ _)
  cases busy with
  | true => exact h false _ nofun
  | false =>
    rw [if_neg Bool.false_ne_true]
    split
    · rw [safe_bind]
      refine safe_runnerBusy hcount fun busy => ?_
      rw [safe_pure, List.append_assoc]
      refine h (!busy) _ fun hidle => ?_
      rw [Bool.not_eq_true'] at hidle
      rw [← List.append_assoc, hidle]
      exact lastProbe_snoc_of_some (probe?_runnerBusy _ _)
    · exact h true _ fun _ => hprobe

theorem safe_betweenJobs (hcount : bound units desired ≤ activeCount units s)
    (h : ∀ idle more, (∀ e ∈ more, ∀ other ≠ u.unit, probe? other e = none) →
      (idle = true → (∀ e ∈ more, probe? u.unit e ≠ some true) ∧
        ∃ front, past ++ more = front ++ [⟨.workerBusy u.unit, false⟩]) →
      Post idle (past ++ more) s) :
    Safe CarefulEnv (Allowed cfg units desired) Post (betweenJobs u) past s := by
  have hother (busy : Bool) (other : String) (hne : other ≠ u.unit) :
      probe? other ⟨.workerBusy u.unit, busy⟩ = none := if_neg fun heq => hne heq.symm
  unfold betweenJobs
  rw [safe_bind]
  refine safe_workerBusy hcount fun busy => ?_
  cases busy with
  | true =>
    refine h false _ ?_ nofun
    intro e he
    rw [List.mem_singleton.mp he]
    exact hother true
  | false =>
    rw [if_neg Bool.false_ne_true, safe_bind]
    refine safe_workerBusy hcount fun busy => ?_
    rw [safe_pure, List.append_assoc]
    refine h (!busy) _ ?_ ?_
    · intro e he
      rcases List.mem_cons.mp he with rfl | he
      · exact hother false
      · rw [List.mem_singleton.mp he]
        exact hother busy
    · intro hidle
      rw [Bool.not_eq_true'] at hidle
      subst hidle
      refine ⟨?_, past ++ [⟨.workerBusy u.unit, false⟩], by simp⟩
      intro e he
      rcases List.mem_cons.mp he with rfl | he
      · simp [probe?_workerBusy]
      · rw [List.mem_singleton.mp he]
        simp [probe?_workerBusy]

end Calls

/-! ### Capacity -/

def stops (actions : List Action) : List String := actions.filterMap (·.stopped)

def kept (units : Units) (actions : List Action) : List RunnerUnit :=
  units.list.filter fun u => u.active && u.unit ∉ stops actions

/-- What `apply_capacity` keeps: there are enough active units, and a unit that was active is so
unless it is stopped. -/
structure Applied (units : Units) (desired : ℤ) (actions : List Action) (s : Active) : Prop where
  count : bound units desired ≤ activeCount units s
  active : ∀ u ∈ kept units actions, s u.unit = true

/-- What the parts of a tick promise: an early end is none by the assertion. -/
def Promised (units : Units) (desired : ℤ) (r : Except Stopped (List Action)) (s : Active) : Prop :=
  bound units desired ≤ activeCount units s ∧ r ≠ .error .assertionError

/-- What `apply_capacity` promises. -/
def Outcome (units : Units) (desired : ℤ) (r : Except Stopped (List Action)) (s : Active) : Prop :=
  Promised units desired r s ∧ ∀ actions, r = .ok actions → Applied units desired actions s

theorem Applied.outcome {actions : List Action} (h : Applied units desired actions s) :
    Outcome units desired (.ok actions) s := by
  refine ⟨⟨h.count, nofun⟩, ?_⟩
  intro actions' heq
  rwa [← Except.ok.inj heq]

theorem outcome_error {e : Stopped} (hcount : bound units desired ≤ activeCount units s)
    (he : e ≠ .assertionError) : Outcome units desired (.error e) s :=
  ⟨⟨hcount, fun h => he (Except.error.inj h)⟩, nofun⟩

theorem mem_kept_iff {actions : List Action} :
    u ∈ kept units actions ↔ u ∈ units.list ∧ u.active = true ∧ u.unit ∉ stops actions := by
  simp [kept]

theorem nodup_kept (actions : List Action) : ((kept units actions).map (·.unit)).Nodup :=
  units.nodup.sublist (List.filter_sublist.map _)

theorem length_kept_le {actions : List Action} (h : ∀ u ∈ kept units actions, s u.unit = true) :
    (kept units actions).length ≤ activeCount units s := by
  rw [← List.length_map (·.unit)]
  refine length_le_activeCount (nodup_kept actions) fun name hname => ?_
  obtain ⟨u, hu, rfl⟩ := List.mem_map.mp hname
  exact ⟨List.mem_map_of_mem (mem_kept_iff.mp hu).1, h u hu⟩

theorem kept_nil : kept units [] = units.list.filter (·.active) := by
  simp [kept, stops]

theorem kept_start (actions : List Action) (u : RunnerUnit) :
    kept units (actions ++ [.start u.num u.unit]) = kept units actions := by
  simp [kept, stops, Action.stopped]

theorem kept_stop (actions : List Action) (drain : Bool) (hu : u ∈ units.list) :
    kept units (actions ++ [.stop u.num u.unit drain]) = (kept units actions).erase u := by
  have hnodup : (kept units actions).Nodup := (nodup_kept actions).of_map
  rw [hnodup.erase_eq_filter]
  simp only [kept, List.filter_filter]
  refine List.filter_congr fun v hv => ?_
  have hne : v.unit = u.unit ↔ v = u := ⟨eq_of_unit_eq hv hu, fun h => h ▸ rfl⟩
  have hstops : stops (actions ++ [.stop u.num u.unit drain]) = stops actions ++ [u.unit] := by
    simp [stops, Action.stopped]
  rw [hstops, Bool.eq_iff_iff]
  simp [hne]
  tauto

theorem kept_erase_active {actions : List Action} (hu : u ∈ units.list)
    (h : ∀ v ∈ kept units actions, s v.unit = true) (active : Bool) :
    ∀ v ∈ (kept units actions).erase u, s.set u.unit active v.unit = true := by
  intro v hv
  have hnodup : (kept units actions).Nodup := (nodup_kept actions).of_map
  obtain ⟨hne, hmem⟩ := (hnodup.mem_erase_iff).mp hv
  have hunit : v.unit ≠ u.unit := fun heq =>
    hne (eq_of_unit_eq (mem_kept_iff.mp hmem).1 hu heq)
  rw [set_of_ne s hunit]
  exact h v hmem

theorem safe_startMissing (dryRun : Bool) (todo : List RunnerUnit) {actions : List Action}
    (happlied : Applied units desired actions s) (hnodup : (todo.map (·.unit)).Nodup)
    (htodo : ∀ u ∈ todo, u ∈ units.list ∧ u.active = false ∧ u.busy = false ∧ s u.unit = false) :
    Safe CarefulEnv (Allowed cfg units desired) (fun actions _ s => Applied units desired actions s)
      (startMissing dryRun todo actions) past s := by
  induction todo generalizing actions past s with
  | nil => exact happlied
  | cons u us ih =>
    rw [List.map_cons, List.nodup_cons] at hnodup
    obtain ⟨hu, hactive, hbusy, hs⟩ := htodo u List.mem_cons_self
    have hus := fun v hv => htodo v (List.mem_cons_of_mem u hv)
    unfold startMissing
    split
    · exact ih ⟨happlied.count, kept_start actions u ▸ happlied.active⟩ hnodup.2 hus
    · rw [safe_bind]
      refine safe_systemctlStart ⟨happlied.count, hs, u, hu, rfl, hactive, hbusy⟩ ?_ ?_
      · intro ok
        refine ih ⟨?_, ?_⟩ hnodup.2 ?_
        · exact happlied.count.trans (activeCount_set_true units s u.unit)
        · rw [kept_start]
          intro v hv
          by_cases hunit : v.unit = u.unit
          · rw [hunit, set_self]
          · rw [set_of_ne s hunit]
            exact happlied.active v hv
        · intro v hv
          have hunit : v.unit ≠ u.unit := fun heq => hnodup.1 (heq ▸ List.mem_map_of_mem hv)
          rw [set_of_ne s hunit]
          exact hus v hv
      · exact ih ⟨happlied.count, kept_start actions u ▸ happlied.active⟩ hnodup.2 hus

theorem safe_stopSurplus (dryRun : Bool) {needed : ℕ} (todo : List RunnerUnit) {stopped : ℕ}
    {actions : List Action} (hkept : ∀ u ∈ kept units actions, s u.unit = true)
    (hlength : (kept units actions).length + stopped = needed + clamped units.list desired)
    (hstopped : stopped ≤ needed) (hnodup : (todo.map (·.unit)).Nodup)
    (htodo : ∀ u ∈ todo, u ∈ kept units actions) :
    Safe CarefulEnv (Allowed cfg units desired) (fun r _ s => Outcome units desired r s)
      (stopSurplus cfg dryRun needed todo stopped actions) past s := by
  have hbound : bound units desired ≤ clamped units.list desired := min_le_right _ _
  induction todo generalizing actions stopped past s with
  | nil =>
    have hle := length_kept_le hkept
    exact Applied.outcome ⟨by omega, hkept⟩
  | cons u us ih =>
    have hle := length_kept_le hkept
    have hcount : bound units desired ≤ activeCount units s := by omega
    rw [List.map_cons, List.nodup_cons] at hnodup
    have hu := htodo u List.mem_cons_self
    have hus := fun v hv => htodo v (List.mem_cons_of_mem u hv)
    have hunits := (mem_kept_iff.mp hu).1
    unfold stopSurplus
    split
    · exact Applied.outcome ⟨hcount, hkept⟩
    · next hneeded =>
      -- what is kept after a stop
      have hstop := kept_stop actions false hunits
      have herase := List.length_erase_of_mem hu
      have hpos := List.length_pos_of_mem hu
      have hrest : ∀ v ∈ us, v ∈ kept units (actions ++ [.stop u.num u.unit false]) := by
        intro v hv
        rw [hstop]
        refine (List.mem_erase_of_ne ?_).mpr (hus v hv)
        rintro rfl
        exact hnodup.1 (List.mem_map_of_mem hv)
      rw [safe_bind]
      refine safe_confirmedIdle hcount fun idle more hidle => ?_
      cases idle with
      | false => exact ih hkept hlength hstopped hnodup.2 hus
      | true =>
        rw [if_neg (by simp)]
        split
        · refine ih ?_ ?_ (by omega) hnodup.2 hrest
          · intro v hv
            rw [hstop] at hv
            exact hkept v (List.mem_of_mem_erase hv)
          · rw [hstop, herase]
            omega
        · rw [safe_bind]
          refine safe_stopRunnerSafely ⟨hcount, hidle rfl, nofun⟩ (hkept u hu) ?_ ?_
          · intro reply hresult
            rw [hresult]
            exact ih hkept hlength hstopped hnodup.2 hus
          · intro reply active hresult
            have hkept' : ∀ v ∈ kept units (actions ++ [.stop u.num u.unit false]),
                s.set u.unit active v.unit = true := by
              rw [hstop]
              exact kept_erase_active hunits hkept active
            have hle' := length_kept_le hkept'
            rw [hstop, herase] at hle'
            cases h : reply.result with
            | error e => exact outcome_error (by omega) nofun
            | ok ok =>
              cases ok with
              | false => exact absurd h hresult
              | true =>
                refine ih hkept' ?_ (by omega) hnodup.2 hrest
                rw [hstop, herase]
                omega

/-- After an exchange the unit that was started is active, and so are the others that are kept. -/
theorem length_kept_le_of_swap {missing surplus : RunnerUnit} {active : Bool}
    (hmissing : missing ∈ units.list) (hne : ∀ u ∈ kept units [], u.unit ≠ missing.unit)
    (hsurplus : surplus ∈ kept units [])
    (herase : ∀ v ∈ (kept units []).erase surplus,
      (s.set missing.unit true).set surplus.unit active v.unit = true) :
    (kept units []).length ≤
      activeCount units ((s.set missing.unit true).set surplus.unit active) := by
  have hnames : (missing.unit :: ((kept units []).erase surplus).map (·.unit)).Nodup := by
    refine List.nodup_cons.mpr ⟨?_, (nodup_kept []).sublist (List.erase_sublist.map _)⟩
    intro hmem
    obtain ⟨v, hv, heq⟩ := List.mem_map.mp hmem
    exact hne v (List.mem_of_mem_erase hv) heq
  have hle : (missing.unit :: ((kept units []).erase surplus).map (·.unit)).length ≤
      activeCount units ((s.set missing.unit true).set surplus.unit active) := by
    refine length_le_activeCount hnames ?_
    intro name hname
    rcases List.mem_cons.mp hname with rfl | hname
    · refine ⟨List.mem_map_of_mem hmissing, ?_⟩
      rw [set_of_ne _ (hne surplus hsurplus).symm, set_self]
    · obtain ⟨v, hv, rfl⟩ := List.mem_map.mp hname
      have hmem := (mem_kept_iff.mp (List.mem_of_mem_erase hv)).1
      exact ⟨List.mem_map_of_mem hmem, herase v hv⟩
  have hpos := List.length_pos_of_mem hsurplus
  rw [List.length_cons, List.length_map, List.length_erase_of_mem hsurplus] at hle
  omega

/-- **The exchange starts a unit before it stops another one.** -/
theorem safe_swap (dryRun : Bool) {missing surplus : RunnerUnit}
    (hkept : ∀ u ∈ kept units [], s u.unit = true)
    (hbound : bound units desired ≤ (kept units []).length)
    (hmissing : missing ∈ units.list ∧ missing.active = false ∧ missing.busy = false ∧
      s missing.unit = false) (hsurplus : surplus ∈ kept units []) :
    Safe CarefulEnv (Allowed cfg units desired) (fun r _ s => Outcome units desired r s)
      (swap cfg dryRun missing surplus []) past s := by
  obtain ⟨hunits, hactive, hbusy, hs⟩ := hmissing
  have hne : ∀ u ∈ kept units [], u.unit ≠ missing.unit := by
    intro u hu heq
    have hu := mem_kept_iff.mp hu
    rw [eq_of_unit_eq hu.1 hunits heq, hactive] at hu
    exact absurd hu.2.1 (by simp)
  have hcount := hbound.trans (length_kept_le hkept)
  have hstarted : kept units [.start missing.num missing.unit] = kept units [] :=
    kept_start [] missing
  have hstop : ∀ drain, kept units
      ([.start missing.num missing.unit] ++ [.stop surplus.num surplus.unit drain]) =
        (kept units []).erase surplus := by
    intro drain
    rw [kept_stop _ drain (mem_kept_iff.mp hsurplus).1, hstarted]
  unfold swap
  rw [safe_bind]
  refine safe_confirmedIdle hcount fun idle more hidle => ?_
  cases idle with
  | false => exact Applied.outcome ⟨hcount, hkept⟩
  | true =>
    rw [if_neg (by simp)]
    split
    · refine Applied.outcome ⟨hcount, ?_⟩
      intro v hv
      rw [List.nil_append, ← List.singleton_append, hstop] at hv
      exact hkept v (List.mem_of_mem_erase hv)
    · rw [safe_bind]
      refine safe_systemctlStart ⟨hcount, hs, missing, hunits, rfl, hactive, hbusy⟩ ?_ ?_
      · intro ok
        have hkept' : ∀ u ∈ kept units [], s.set missing.unit true u.unit = true := by
          intro u hu
          rw [set_of_ne s (hne u hu)]
          exact hkept u hu
        have hcount' := hcount.trans (activeCount_set_true units s missing.unit)
        split
        · exact Applied.outcome ⟨hcount', hkept'⟩
        · dsimp only
          rw [safe_bind]
          refine safe_stopRunnerSafely ⟨hcount', ?_, nofun⟩ (hkept' surplus hsurplus) ?_ ?_
          · rw [lastProbe_snoc_of_none rfl]
            exact hidle rfl
          · intro reply hresult
            rw [hresult]
            exact Applied.outcome ⟨hcount', hstarted ▸ hkept'⟩
          · intro reply active hresult
            have herase := kept_erase_active (mem_kept_iff.mp hsurplus).1 hkept' active
            have hle := hbound.trans (length_kept_le_of_swap hunits hne hsurplus herase)
            cases h : reply.result with
            | error e => exact outcome_error hle nofun
            | ok ok =>
              cases ok with
              | false => exact absurd h hresult
              | true => exact Applied.outcome ⟨hle, hstop false ▸ herase⟩
      · exact Applied.outcome ⟨hcount, hkept⟩

theorem perm_descending (l : List RunnerUnit) : (descending l).Perm l := List.mergeSort_perm l _

/-- **`apply_capacity` keeps enough units active.** -/
theorem safe_applyCapacity (dryRun : Bool) :
    Safe CarefulEnv (Allowed cfg units desired)
      (fun r _ s => Outcome units desired r s)
      (applyCapacity cfg units.list desired dryRun) past (initial units) := by
  have hkept : ∀ u ∈ kept units [], initial units u.unit = true := by
    intro u hu
    have hu := mem_kept_iff.mp hu
    rw [initial_eq hu.1, hu.2.1]
  have hlength : bound units desired ≤ (kept units []).length := by
    rw [kept_nil]
    exact min_le_left _ _
  have hstart : Applied units desired [] (initial units) :=
    ⟨hlength.trans (length_kept_le hkept), hkept⟩
  unfold applyCapacity
  split
  · exact outcome_error hstart.count nofun
  · dsimp only
    split
    · rw [safe_bind]
      refine (safe_startMissing dryRun _ hstart ?_ ?_).imp fun _ _ _ happlied => happlied.outcome
      · exact units.nodup.sublist (((List.take_sublist _ _).trans List.filter_sublist).map _)
      · intro u hu
        have hu := List.mem_of_mem_take hu
        simp only [List.mem_filter, Bool.and_eq_true, Bool.not_eq_true'] at hu
        exact ⟨hu.1, hu.2.1, hu.2.2, by rw [initial_eq hu.1, hu.2.1]⟩
    · next hfew =>
      split
      · next hmany =>
        refine safe_stopSurplus dryRun _ hkept ?_ (Nat.zero_le _) ?_ ?_
        · rw [kept_nil]
          omega
        · refine ((perm_descending _).map _).nodup_iff.mpr ?_
          exact units.nodup.sublist ((List.filter_sublist.trans List.filter_sublist).map _)
        · intro u hu
          have hu := List.mem_of_mem_filter ((perm_descending _).mem_iff.mp hu)
          rwa [kept_nil]
      · split
        · next missing surplus hmissing hsurplus =>
          refine safe_swap dryRun hkept hlength ?_ ?_
          · have hmem := List.mem_of_mem_take (List.mem_of_find?_eq_some hmissing)
            have hprop := List.find?_some hmissing
            simp only [Bool.and_eq_true, Bool.not_eq_true'] at hprop
            exact ⟨hmem, hprop.1, hprop.2, by rw [initial_eq hmem, hprop.1]⟩
          · have hmem := List.mem_reverse.mp (List.mem_of_find?_eq_some hsurplus)
            rwa [kept_nil]
        · exact hstart.outcome

/-! ### Drain -/

/-- What the loop of `drain_surplus` keeps. -/
structure DrainInv (units : Units) (desired : ℤ) (past : List (Call Answer)) (s : Active)
    (d : Drain) : Prop where
  count : bound units desired ≤ activeCount units s
  nodup : (d.remaining.map (·.unit)).Nodup
  mem : ∀ u ∈ d.remaining, u.unit ∈ units.list.map (·.unit)
  active : ∀ u ∈ d.remaining, s u.unit = true
  idle : ∀ unit t, d.idleSince unit = some t → IdleSince unit t past

variable {d : Drain}

theorem DrainInv.busy (h : DrainInv units desired past s d)
    (hother : ∀ e ∈ more, ∀ other ≠ u.unit, probe? other e = none) :
    DrainInv units desired (past ++ more) s (d.setIdle u.unit none) := by
  refine ⟨h.count, h.nodup, h.mem, h.active, ?_⟩
  intro unit t ht
  unfold Drain.setIdle at ht
  by_cases hunit : unit = u.unit
  · simp [hunit] at ht
  · simp only [if_neg hunit] at ht
    refine (h.idle unit t ht).append fun e he => ?_
    rw [hother e he unit hunit]
    exact nofun

/-- **A unit that is idle now is so since it was first seen idle.** -/
theorem DrainInv.since (h : DrainInv units desired past s d) (now : ℚ)
    (hother : ∀ e ∈ more, ∀ other ≠ u.unit, probe? other e = none)
    (hidle : ∀ e ∈ more, probe? u.unit e ≠ some true) {front : List (Call Answer)}
    (hfront : past ++ more = front ++ [⟨.workerBusy u.unit, false⟩]) :
    DrainInv units desired (past ++ more ++ [⟨.monotonic, now⟩]) s
        (d.setIdle u.unit (some ((d.idleSince u.unit).getD now))) ∧
      IdleSince u.unit ((d.idleSince u.unit).getD now)
        (past ++ more ++ [⟨.monotonic, now⟩]) := by
  have hclock : ∀ unit, ∀ e ∈ ([⟨.monotonic, now⟩] : List (Call Answer)),
      probe? unit e ≠ some true := by
    intro unit e he
    rw [List.mem_singleton.mp he]
    exact nofun
  have hsince : IdleSince u.unit ((d.idleSince u.unit).getD now)
      (past ++ more ++ [⟨.monotonic, now⟩]) := by
    cases hlast : d.idleSince u.unit with
    | none =>
      rw [hfront]
      exact IdleSince.now front u.unit now
    | some t => exact ((h.idle u.unit t hlast).append hidle).append (hclock _)
  refine ⟨⟨h.count, h.nodup, h.mem, h.active, ?_⟩, hsince⟩
  intro unit t ht
  unfold Drain.setIdle at ht
  by_cases hunit : unit = u.unit
  · subst hunit
    simp only [if_true, Option.some.injEq] at ht
    exact ht ▸ hsince
  · simp only [if_neg hunit] at ht
    refine ((h.idle unit t ht).append fun e he => ?_).append (hclock _)
    rw [hother e he unit hunit]
    exact nofun

/-- A stop, whether it succeeds or not, says nothing of who is idle. -/
theorem DrainInv.snoc_stop (h : DrainInv units desired past s d) (unit : String)
    (drain : Bool) (reply : StopReply) :
    DrainInv units desired (past ++ [⟨.stopRunnerSafely unit drain, reply⟩]) s d := by
  refine ⟨h.count, h.nodup, h.mem, h.active, ?_⟩
  intro other t ht
  refine (h.idle other t ht).append fun e he => ?_
  rw [List.mem_singleton.mp he]
  exact nofun

/-- **A unit is stopped while there are more than are wanted.** -/
theorem DrainInv.stop (h : DrainInv units desired past s d) (hu : u ∈ d.remaining)
    (hmore : bound units desired < d.remaining.length) (active : Bool) :
    DrainInv units desired past (s.set u.unit active) (d.stop u) := by
  have hnodup : d.remaining.Nodup := h.nodup.of_map
  have herase : ∀ v ∈ d.remaining.erase u, v ∈ d.remaining ∧ v.unit ≠ u.unit := by
    intro v hv
    obtain ⟨hne, hmem⟩ := (hnodup.mem_erase_iff).mp hv
    exact ⟨hmem, fun heq => hne (List.inj_on_of_nodup_map h.nodup hmem hu heq)⟩
  have hnames : ((d.remaining.erase u).map (·.unit)).Nodup :=
    h.nodup.sublist (List.erase_sublist.map _)
  have hactive : ∀ v ∈ d.remaining.erase u, s.set u.unit active v.unit = true := by
    intro v hv
    obtain ⟨hmem, hunit⟩ := herase v hv
    rw [set_of_ne s hunit]
    exact h.active v hmem
  refine ⟨?_, hnames, fun v hv => h.mem v (herase v hv).1, hactive, h.idle⟩
  have hle : ((d.remaining.erase u).map (·.unit)).length ≤
      activeCount units (s.set u.unit active) := by
    refine length_le_activeCount hnames fun name hname => ?_
    obtain ⟨v, hv, rfl⟩ := List.mem_map.mp hname
    exact ⟨h.mem v (herase v hv).1, hactive v hv⟩
  rw [List.length_map, List.length_erase_of_mem hu] at hle
  omega

/-- What the parts of the loop promise. -/
def Drained (units : Units) (desired : ℤ) (r : Except Stopped Drain) (past : List (Call Answer))
    (s : Active) : Prop :=
  match r with
  | .error e => bound units desired ≤ activeCount units s ∧ e ≠ .assertionError
  | .ok d => DrainInv units desired past s d

theorem safe_drainPoll {count : ℕ} (hcount : bound units desired ≤ count) (todo : List RunnerUnit)
    (hinv : DrainInv units desired past s d) (hnodup : todo.Nodup) (htodo : todo ⊆ d.remaining) :
    Safe CarefulEnv (Allowed cfg units desired) (Drained units desired) (drainPoll cfg count todo d)
      past s := by
  induction todo generalizing d past s with
  | nil => exact hinv
  | cons u us ih =>
    obtain ⟨hnot, hnodup⟩ := List.nodup_cons.mp hnodup
    have hu := htodo List.mem_cons_self
    have hus : us ⊆ d.remaining := fun v hv => htodo (List.mem_cons_of_mem u hv)
    unfold drainPoll
    split
    · exact hinv
    · next hmany =>
      rw [safe_bind]
      refine safe_betweenJobs hinv.count fun idle more hother hidle => ?_
      cases idle with
      | false => exact ih (hinv.busy hother) hnodup hus
      | true =>
        rw [if_neg (by simp), safe_bind]
        obtain ⟨hquiet, front, hfront⟩ := hidle rfl
        refine safe_monotonic hinv.count fun now => ?_
        obtain ⟨hinv', hsince⟩ := hinv.since now hother hquiet hfront
        dsimp only
        split
        · exact ih hinv' hnodup hus
        · next hsettled =>
          rw [if_neg (by omega), safe_bind]
          refine safe_stopRunnerSafely ⟨hinv.count, hsince.lastProbe, fun _ => ?_⟩
            (hinv.active u hu) ?_ ?_
          · exact ⟨_, now, _, hsince, rfl, not_lt.mp hsettled⟩
          · intro reply hresult
            rw [hresult]
            exact ih (hinv'.snoc_stop u.unit true reply) hnodup hus
          · intro reply active hresult
            have hstop := (hinv'.stop hu (hcount.trans_lt (not_le.mp hmany)) active).snoc_stop
              u.unit true reply
            cases h : reply.result with
            | error e => exact ⟨hstop.count, nofun⟩
            | ok ok =>
              cases ok with
              | false => exact absurd h hresult
              | true =>
                refine ih hstop hnodup ?_
                intro v hv
                refine (List.mem_erase_of_ne ?_).mpr (hus hv)
                rintro rfl
                exact hnot hv

theorem safe_drainLoop {count : ℕ} (hcount : bound units desired ≤ count) (deadline : ℚ) (fuel : ℕ)
    (hinv : DrainInv units desired past s d) :
    Safe CarefulEnv (Allowed cfg units desired) (fun r _ s => Promised units desired r s)
      (drainLoop cfg count deadline fuel d) past s := by
  induction fuel generalizing d past s with
  | zero => exact ⟨hinv.count, nofun⟩
  | succ fuel ih =>
    unfold drainLoop
    split
    · exact ⟨hinv.count, nofun⟩
    · rw [safe_bind]
      refine safe_monotonic hinv.count fun now => ?_
      split
      · exact ⟨hinv.count, nofun⟩
      · rw [safe_bind]
        have hclock : DrainInv units desired (past ++ [⟨.monotonic, now⟩]) s d := by
          refine ⟨hinv.count, hinv.nodup, hinv.mem, hinv.active, ?_⟩
          intro unit t ht
          refine (hinv.idle unit t ht).append fun e he => ?_
          rw [List.mem_singleton.mp he]
          exact nofun
        refine (safe_drainPoll hcount d.remaining hclock hclock.nodup.of_map
          (List.Subset.refl _)).imp ?_
        intro r past s hdrained
        cases r with
        | error e => exact ⟨hdrained.1, fun h => hdrained.2 (Except.error.inj h)⟩
        | ok d => exact ih hdrained

/-- **`drain_surplus` keeps enough units active.** -/
theorem safe_drainSurplus (dryRun : Bool) (fuel : ℕ) (maxSeconds : Option ℚ)
    {actions : List Action} (happlied : Applied units desired actions s) :
    Safe CarefulEnv (Allowed cfg units desired) (fun r _ s => Promised units desired r s)
      (drainSurplus cfg fuel (patched units.list actions) desired dryRun maxSeconds) past s := by
  have hbound : bound units desired ≤ desired.toNat := by
    refine (min_le_right _ _).trans ?_
    unfold clamped
    omega
  -- what is left over is what was active and is not stopped
  have hkept : (patched units.list actions).filter (·.active) = kept units actions := by
    have hpatch : ∀ u ∈ units.list.filter (fun u => u.active && u.unit ∉ stops actions),
        (if u.unit ∈ stops actions then { u with active := false } else u) = id u := by
      intro u hu
      have hout := (mem_kept_iff.mp hu).2.2
      exact if_neg hout
    unfold patched
    rw [List.filter_map]
    have hactive : ∀ u ∈ units.list, ((fun u : RunnerUnit => u.active) ∘ fun u =>
        if u.unit ∈ stops actions then { u with active := false } else u) u =
          (u.active && u.unit ∉ stops actions) := by
      intro u _
      by_cases hout : u.unit ∈ stops actions
      · simp [hout]
      · simp [hout]
    exact (congrArg _ (List.filter_congr hactive)).trans
      ((List.map_congr_left hpatch).trans (List.map_id _))
  unfold drainSurplus
  dsimp only
  split
  · exact ⟨happlied.count, nofun⟩
  · rw [safe_bind]
    refine safe_monotonic happlied.count fun now => ?_
    refine safe_drainLoop hbound _ fuel ⟨happlied.count, ?_, ?_, ?_, nofun⟩
    · refine ((perm_descending _).map _).nodup_iff.mpr ?_
      rw [hkept]
      exact nodup_kept actions
    · intro u hu
      have hu := (perm_descending _).mem_iff.mp hu
      rw [hkept] at hu
      exact List.mem_map_of_mem (mem_kept_iff.mp hu).1
    · intro u hu
      have hu := (perm_descending _).mem_iff.mp hu
      rw [hkept] at hu
      exact happlied.active u hu

/-! ### The tick -/

/-- What holds at a point of a tick. -/
structure NeverUndershoots (cfg : Settings) (units : Units) (desired : ℤ)
    (past : List (Call Answer)) (p : Program (Except Stopped (List Action))) (s : Active) :
    Prop where
  count : bound units desired ≤ activeCount units s
  allowed : ∀ q k, p = .ask q k → Allowed cfg units desired past s q
  returned : p ≠ .ret (.error .assertionError)

/-- **At every point of every tick there are enough active units, and only calls that are allowed
are made**, if a stop that answers `False` leaves its unit active. -/
theorem never_undershoots {fuel : ℕ} {dryRun : Bool} {tr : List (Call Answer)}
    {p : Program (Except Stopped (List Action))}
    (path : Path (Step CarefulEnv)
      (schedulerTick cfg fuel units.list desired dryRun, initial units) tr (p, s)) :
    NeverUndershoots cfg units desired tr p s := by
  have hsafe : Safe CarefulEnv (Allowed cfg units desired)
      (fun r _ s => Promised units desired r s)
      (schedulerTick cfg fuel units.list desired dryRun) [] (initial units) := by
    unfold schedulerTick
    rw [safe_bind]
    refine (safe_applyCapacity dryRun).imp ?_
    rintro r past s ⟨hpromised, happlied⟩
    cases r with
    | error e => exact hpromised
    | ok actions =>
      dsimp only
      rw [safe_bind]
      refine (safe_drainSurplus dryRun fuel none (happlied actions rfl)).imp ?_
      intro r past s hpromised
      cases r with
      | error e => exact ⟨hpromised.1, fun h => hpromised.2 (Except.error.inj h ▸ rfl)⟩
      | ok more => exact ⟨hpromised.1, nofun⟩
  have hpoint := hsafe.of_path path
  rw [List.nil_append] at hpoint
  cases p with
  | ret r => exact ⟨hpoint.1, nofun, fun h => hpoint.2 (Prog.ret.inj h)⟩
  | ask q k =>
    refine ⟨hpoint.1.1, ?_, nofun⟩
    intro q' k' heq
    obtain ⟨rfl, -⟩ := Prog.ask.inj heq
    exact hpoint.1

/-! ### Two units -/

def listener (frozen termPending stopQueued : Bool) : RunnerStop.RunnerUnit :=
  { procs := [{ pid := 1, kind := .listener, frozen, termPending }], stopQueued }

def downUnit (stopQueued : Bool) : RunnerStop.RunnerUnit :=
  { procs := [], stopQueued, inactive := true }

/-- An effect that nothing precedes or follows. -/
theorem env_of_effect {w w' : RunnerStop.RunnerUnit} {q : RunnerStop.Query}
    {answer : RunnerStop.Answer q} (h : RunnerStop.Effect w q answer w') :
    RunnerStop.Env w q answer w' := ⟨w, w', .refl, h, .refl⟩

theorem freezes_listener : RunnerStop.Env (listener false false false) (.kill .stop) ⟨.zero, true⟩
    (listener true false false) :=
  env_of_effect (.kill .stop .zero true (.cons (.inl rfl) .nil))

theorem check_listener : RunnerStop.Env (listener true false false) .workerAbsent (.absent, false)
    (listener true false false) :=
  env_of_effect (.workerAbsent .absent nofun)

theorem terminates_listener : RunnerStop.Env (listener true false false) (.kill .term)
    ⟨.zero, true⟩ (listener true true false) :=
  env_of_effect (.kill .term .zero true (.cons (.inl rfl) .nil))

/-- The signal is sent, the stop is not queued, and the listener ends when it is resumed. -/
theorem stopRun_signalled : StopRun true ⟨.ok false, true⟩ := by
  have hstop : RunnerStop.Env (listener true true false) (.stop false) .nonzero
      (listener true true false) :=
    env_of_effect (.stop false false .nonzero nofun)
  have hcont : RunnerStop.Env (listener true true false) (.kill .cont) ⟨.zero, true⟩
      (downUnit false) :=
    ⟨_, listener false true false, .refl, .kill .cont .zero true (.cons (.inl rfl) .nil),
      .single (.stops [] (List.nil_sublist _))⟩
  have run : Path (Step RunnerStop.Env)
      (RunnerStop.stopRunnerSafely 10 0, listener false false false)
      [⟨.kill .stop, ⟨.zero, true⟩⟩, ⟨.workerAbsent, (.absent, false)⟩,
        ⟨.kill .term, ⟨.zero, true⟩⟩, ⟨.stop false, .nonzero⟩, ⟨.kill .cont, ⟨.zero, true⟩⟩]
      (.ret (.ok false), downUnit false) := by
    refine .cons (t := (_, listener true false false)) ⟨_, rfl, freezes_listener, rfl⟩ ?_
    refine .cons (t := (_, listener true false false)) ⟨_, rfl, check_listener, rfl⟩ ?_
    refine .cons (t := (_, listener true true false)) ⟨_, rfl, terminates_listener, rfl⟩ ?_
    refine .cons (t := (_, listener true true false)) ⟨_, rfl, hstop, rfl⟩ ?_
    refine .cons (t := (_, downUnit false)) ⟨_, rfl, hcont, rfl⟩ ?_
    exact .nil _
  exact .intro run nofun rfl fun _ => .inr ⟨⟨.kill .term, ⟨.zero, true⟩⟩, by simp, trivial⟩

theorem stopRun_stopped : StopRun true ⟨.ok true, true⟩ := by
  have hqueue : RunnerStop.Env (listener true true false) (.stop false) .zero
      (listener true true true) :=
    env_of_effect (.stop false true .zero nofun)
  have hcont : RunnerStop.Env (listener true true true) (.kill .cont) ⟨.zero, true⟩
      (listener false true true) :=
    env_of_effect (.kill .cont .zero true (.cons (.inl rfl) .nil))
  have hstop : RunnerStop.Env (listener false true true) (.stop true) .zero (downUnit true) :=
    ⟨_, listener false true true, .refl, .stop true true .zero fun _ => rfl,
      .single (.stops [] (List.nil_sublist _))⟩
  have hpids : RunnerStop.Env (downUnit true) .unitCgroupPids (some []) (downUnit true) :=
    env_of_effect (.unitCgroupPids _)
  have hreset : RunnerStop.Env (downUnit true) .resetFailed .zero (downUnit true) :=
    env_of_effect (.resetFailed _)
  have run : Path (Step RunnerStop.Env)
      (RunnerStop.stopRunnerSafely 10 0, listener false false false)
      [⟨.kill .stop, ⟨.zero, true⟩⟩, ⟨.workerAbsent, (.absent, false)⟩,
        ⟨.kill .term, ⟨.zero, true⟩⟩, ⟨.stop false, .zero⟩, ⟨.kill .cont, ⟨.zero, true⟩⟩,
        ⟨.stop true, .zero⟩, ⟨.unitCgroupPids, some []⟩, ⟨.resetFailed, .zero⟩]
      (.ret (.ok true), downUnit true) := by
    refine .cons (t := (_, listener true false false)) ⟨_, rfl, freezes_listener, rfl⟩ ?_
    refine .cons (t := (_, listener true false false)) ⟨_, rfl, check_listener, rfl⟩ ?_
    refine .cons (t := (_, listener true true false)) ⟨_, rfl, terminates_listener, rfl⟩ ?_
    refine .cons (t := (_, listener true true true)) ⟨_, rfl, hqueue, rfl⟩ ?_
    refine .cons (t := (_, listener false true true)) ⟨_, rfl, hcont, rfl⟩ ?_
    refine .cons (t := (_, downUnit true)) ⟨_, rfl, hstop, rfl⟩ ?_
    refine .cons (t := (_, downUnit true)) ⟨_, rfl, hpids, rfl⟩ ?_
    refine .cons (t := (_, downUnit true)) ⟨_, rfl, hreset, rfl⟩ ?_
    exact .nil _
  exact .intro run nofun rfl fun _ => .inr ⟨⟨.kill .term, ⟨.zero, true⟩⟩, by simp, trivial⟩

def twoUnits : Units where
  list := [⟨1, "r1", "/w/runner-1", false, false⟩, ⟨2, "r2", "/w/runner-2", true, false⟩]
  nodup := by decide

/-- The first one is started and the second one is stopped. -/
def swapCalls : List (Call Answer) :=
  [⟨.runnerBusy "r2", false⟩, ⟨.runnerBusy "r2", false⟩, ⟨.start "r1", true⟩,
    ⟨.stopRunnerSafely "r2" false, ⟨.ok true, true⟩⟩]

/-- A tick that wants one unit exchanges the second for the first. -/
theorem never_undershoots_swap :
    ∃ p s, Path (Step CarefulEnv) (schedulerTick {} 1 twoUnits.list 1 false, initial twoUnits)
        swapCalls (p, s) ∧
      NeverUndershoots {} twoUnits 1 swapCalls p s ∧ s "r1" = true ∧ s "r2" = false := by
  have path : ∃ p, Path (Step CarefulEnv) (schedulerTick {} 1 twoUnits.list 1 false,
      initial twoUnits) swapCalls (p, ((initial twoUnits).set "r1" true).set "r2" false) := by
    refine exists_path_ask ⟨.runnerBusy _ _ _, trivial⟩ ?_
    refine exists_path_ask ⟨.runnerBusy _ _ _, trivial⟩ ?_
    refine exists_path_ask ⟨.started _ _ _, trivial⟩ ?_
    exact exists_path_ask ⟨.stop _ _ _ stopRun_stopped, nofun⟩ ⟨_, .nil _⟩
  obtain ⟨p, path⟩ := path
  exact ⟨p, _, path, never_undershoots path, by decide, by decide⟩

def bothActive : Units where
  list := [⟨1, "r1", "/w/runner-1", true, false⟩, ⟨2, "r2", "/w/runner-2", true, false⟩]
  nodup := by decide

theorem descending_bothActive :
    descending ((bothActive.list.filter (·.active)).filter fun u => !u.busy) =
      bothActive.list.reverse := by
  simp [descending, bothActive, List.mergeSort, List.MergeSort.Internal.splitInTwo]

/-- The stop of the second unit answers `False`, but the unit goes down, and the first one is
stopped in its place. -/
def undershootCalls : List (Call Answer) :=
  [⟨.runnerBusy "r2", false⟩, ⟨.runnerBusy "r2", false⟩,
    ⟨.stopRunnerSafely "r2" false, ⟨.ok false, true⟩⟩,
    ⟨.runnerBusy "r1", false⟩, ⟨.runnerBusy "r1", false⟩,
    ⟨.stopRunnerSafely "r1" false, ⟨.ok true, true⟩⟩]

/-- **A tick that wants one unit leaves none.** -/
theorem undershoots :
    ¬ ∀ (cfg : Settings) (units : Units) (desired : ℤ) (fuel : ℕ) (dryRun : Bool)
      (tr : List (Call Answer)) (p : Program (Except Stopped (List Action))) (s : Active),
      Path (Step Env) (schedulerTick cfg fuel units.list desired dryRun, initial units) tr (p, s) →
        NeverUndershoots cfg units desired tr p s := by
  intro hall
  have path : ∃ p, Path (Step Env) (schedulerTick {} 1 bothActive.list 1 false, initial bothActive)
      undershootCalls (p, ((initial bothActive).set "r2" false).set "r1" false) := by
    have hcapacity : applyCapacity {} bothActive.list 1 false =
        stopSurplus {} false 1 bothActive.list.reverse 0 [] := by
      rw [← descending_bothActive]
      rfl
    unfold schedulerTick
    rw [hcapacity]
    refine exists_path_ask (.runnerBusy _ _ _) (exists_path_ask (.runnerBusy _ _ _) ?_)
    refine exists_path_ask (.stop _ _ _ stopRun_signalled) ?_
    refine exists_path_ask (q := Query.runnerBusy "r1") (.runnerBusy _ _ _) ?_
    refine exists_path_ask (q := Query.runnerBusy "r1") (.runnerBusy _ _ _) ?_
    exact exists_path_ask (.stop _ _ _ stopRun_stopped) ⟨_, .nil _⟩
  obtain ⟨p, path⟩ := path
  have hcount := (hall _ _ _ _ _ _ _ _ path).count
  exact absurd hcount (by decide)

end RunnerScheduler
