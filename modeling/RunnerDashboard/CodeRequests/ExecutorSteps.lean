import RunnerDashboard.CodeRequests.ExecutorStage

/-!
# Calls of the executor stage

What each method of the pipeline can do to its children, said once.  A walk over the dependents of a
child blocks only children that are not merged, and each of them depends on one that was reached
before it.

## Main results

* `walked_of_pauseDependentBranches` — **a walk does no more than this.**
* `effect_of_step` — **nor does a call.**
-/

namespace Executor

open Pipeline

inductive Call
  | dispatchChild (key : String) (env : DispatchEnv)
  | reportPrOpened (key : String) (pr : PullRequest)
  | reportCiStatus (key status : String)
  | reportFailed (key reason updatedHandoff : String)
  | reportMerged (key : String)
  /-- A snapshot is taken, and the pipeline is built from it again. -/
  | resume

def Call.key? : Call → Option String
  | .dispatchChild key _ => some key
  | .reportPrOpened key _ => some key
  | .reportCiStatus key _ => some key
  | .reportFailed key _ _ => some key
  | .reportMerged key => some key
  | .resume => none

/-- What the pipeline is after a call, `none` where a walk is not done after `fuel` rounds. -/
def Pipeline.call (fuel : ℕ) (p : Pipeline) : Call → Option (Except ValueError Pipeline)
  | .dispatchChild key env => some (.ok (p.dispatchChild key env).2)
  | .reportPrOpened key pr => some ((p.reportPrOpened key pr).map Prod.snd)
  | .reportCiStatus key status => some (.ok (p.reportCiStatus key status))
  | .reportFailed key reason updatedHandoff =>
    (p.reportFailed fuel key reason updatedHandoff).map .ok
  | .reportMerged key => some (.ok (p.reportMerged key))
  | .resume => some (.ok (fromSnapshot p.snapshot))

def Step (p : Pipeline) (call : Call) (p' : Pipeline) : Prop :=
  ∃ fuel, (p.call fuel call).map (fun ended => ended.toOption.getD p) = some p'

theorem step_reportFailed_iff {p p' : Pipeline} {key reason updatedHandoff : String} :
    Step p (.reportFailed key reason updatedHandoff) p' ↔
      ∃ fuel, p.reportFailed fuel key reason updatedHandoff = some p' := by
  refine exists_congr fun fuel => ?_
  simp only [Pipeline.call]
  cases p.reportFailed fuel key reason updatedHandoff <;> rfl

def Returns (p : Pipeline) (call : Call) : Prop := ∃ fuel p', p.call fuel call = some (.ok p')

variable {p p' q : Pipeline} {key k curr repository : String} {visit : List String} {fuel : ℕ}
  {c child : ChildExecutionRecord} {f g : ChildExecutionRecord → ChildExecutionRecord} {call : Call}

/-! ### Lookups -/

namespace Pipeline

@[simp] theorem child?_modify :
    (p.modify key f).child? k = (p.child? k).map fun c => if k = key then f c else c := by
  unfold modify child?
  rw [Sql.Table.get?_update]
  simp only [decide_eq_true_eq]

theorem child?_modify_self (h : p.child? key = some c) :
    (p.modify key f).child? key = some (f c) := by
  rw [child?_modify, h, Option.map_some, if_pos rfl]

theorem child?_modify_of_ne (h : k ≠ key) : (p.modify key f).child? k = p.child? k := by
  rw [child?_modify]
  simp only [if_neg h, Option.map_id']

@[simp] theorem child?_blockDependents :
    (p.blockDependents curr).child? k =
      (p.child? k).map fun c => if downstream curr c then { c with state := .blocked } else c :=
  Sql.Table.get?_update _ _ _ _

theorem modify_of_none (h : p.child? key = none) : p.modify key f = p := by
  have hsame : p.children.update (fun k _ => k = key) (fun _ c => f c) = p.children := by
    refine Sql.Table.update_eq_self fun k c hc => decide_eq_false ?_
    rintro rfl
    exact absurd (hc.symm.trans h) (by simp)
  unfold modify
  rw [hsame]

theorem modify_modify : (p.modify key f).modify key g = p.modify key fun c => g (f c) := by
  unfold modify
  simp only [Sql.Table.update_key_update_key]

theorem isMerged_iff : p.isMerged key = true ↔ ∃ c, p.child? key = some c ∧ c.state = .merged := by
  unfold isMerged
  rw [Option.any_eq_true]
  simp only [decide_eq_true_eq]

theorem unmerged_iff : p.unmerged key = true ↔ ∃ c, p.child? key = some c ∧ c.state ≠ .merged := by
  unfold unmerged
  rw [Option.any_eq_true]
  simp only [decide_eq_true_eq]

/-- **When a child is ready.** -/
theorem isChildReady_iff : p.isChildReady key = true ↔ ∃ c, p.child? key = some c ∧
    c.state = .queued ∧ key ∉ p.pausedBranches ∧ ∀ d ∈ c.dependencies, p.unmerged d = false := by
  unfold isChildReady
  cases h : p.child? key with
  | none => simp
  | some c => simp [and_assoc]

theorem mem_dependents : k ∈ p.dependents curr ↔ ∃ c, p.child? k = some c ∧
    downstream curr c = true := Sql.Table.mem_keys_matching_iff

theorem downstream_iff :
    downstream curr c = true ↔ curr ∈ c.dependencies ∧ c.state ≠ .merged := by
  unfold downstream
  simp

theorem mem_keysIn {state : ChildExecutionState} :
    k ∈ p.keysIn state ↔ ∃ c, p.child? k = some c ∧ c.state = state := by
  unfold keysIn
  rw [Sql.Table.mem_keys_matching_iff]
  simp only [decide_eq_true_eq]
  rfl

end Pipeline

/-! ### Walks -/

/-- A child that a walk blocks: it depends on one to visit, or on one that was reached. -/
def Hit (visit : List String) (p p' : Pipeline) (k : String) : Prop :=
  ∃ c, p.child? k = some c ∧ c.state ≠ .merged ∧ p'.child? k = some { c with state := .blocked } ∧
    k ∈ p'.pausedBranches ∧
    ∃ d ∈ c.dependencies, d ∈ visit ∨ d ∈ p'.pausedBranches ∧ p.unmerged d = true

structure Walked (visit : List String) (p p' : Pipeline) : Prop where
  config : p'.config = p.config
  waves : p'.waves = p.waves
  currentWaveIdx : p'.currentWaveIdx = p.currentWaveIdx
  subset : p.pausedBranches ⊆ p'.pausedBranches
  child : ∀ k, (p'.child? k = p.child? k ∧ (k ∈ p'.pausedBranches → k ∈ p.pausedBranches)) ∨
    Hit visit p p' k

theorem unmerged_blockDependents :
    (p.blockDependents curr).unmerged k = p.unmerged k := by
  rw [Bool.eq_iff_iff, unmerged_iff, unmerged_iff]
  simp only [child?_blockDependents, Option.map_eq_some_iff]
  constructor
  · rintro ⟨_, ⟨c, hc, rfl⟩, hstate⟩
    refine ⟨c, hc, ?_⟩
    split at hstate
    · next h => exact (downstream_iff.mp h).2
    · exact hstate
  · rintro ⟨c, hc, hstate⟩
    refine ⟨_, ⟨c, hc, rfl⟩, ?_⟩
    split
    · exact ChildExecutionState.noConfusion
    · exact hstate

theorem Walked.blockDependents
    (h : Walked (visit ++ p.dependents curr) (p.blockDependents curr) p') :
    Walked (curr :: visit) p p' := by
  refine ⟨h.config, h.waves, h.currentWaveIdx, Finset.subset_union_left.trans h.subset, ?_⟩
  intro k
  rcases h.child k with ⟨hchild, hpaused⟩ | ⟨c', hc', hstate, hafter, hk, d, hd, hreached⟩
  · by_cases hk : k ∈ p.dependents curr
    · -- the child is blocked in this round, and not touched after it
      obtain ⟨c, hc, hdown⟩ := mem_dependents.mp hk
      refine .inr ⟨c, hc, (downstream_iff.mp hdown).2, ?_, ?_, curr, (downstream_iff.mp hdown).1,
        .inl List.mem_cons_self⟩
      · rw [hchild, child?_blockDependents, hc, Option.map_some, if_pos hdown]
      · exact h.subset (Finset.mem_union_right _ (List.mem_toFinset.mpr hk))
    · refine .inl ⟨?_, fun hk' => ?_⟩
      · rw [hchild, child?_blockDependents]
        cases hc : p.child? k with
        | none => rfl
        | some c =>
          have hdown : ¬ downstream curr c = true := fun hdown =>
            hk (mem_dependents.mpr ⟨c, hc, hdown⟩)
          rw [Option.map_some, if_neg hdown]
      · exact (Finset.mem_union.mp (hpaused hk')).resolve_right
          fun hmem => hk (List.mem_toFinset.mp hmem)
  · -- the child is blocked in a later round
    rw [child?_blockDependents, Option.map_eq_some_iff] at hc'
    obtain ⟨c, hc, rfl⟩ := hc'
    have hunmerged : c.state ≠ .merged := by
      split at hstate
      · next h => exact (downstream_iff.mp h).2
      · exact hstate
    have hdeps : d ∈ c.dependencies := by
      split at hd
      · exact hd
      · exact hd
    refine .inr ⟨c, hc, hunmerged, ?_, hk, d, hdeps, ?_⟩
    · rw [hafter]
      split
      · rfl
      · rfl
    · rcases hreached with hmem | ⟨hpaused, hun⟩
      · rcases List.mem_append.mp hmem with hmem | hmem
        · exact .inl (List.mem_cons_of_mem _ hmem)
        · obtain ⟨cd, hcd, hdown⟩ := mem_dependents.mp hmem
          refine .inr ⟨h.subset (Finset.mem_union_right _ (List.mem_toFinset.mpr hmem)), ?_⟩
          exact unmerged_iff.mpr ⟨cd, hcd, (downstream_iff.mp hdown).2⟩
      · exact .inr ⟨hpaused, unmerged_blockDependents ▸ hun⟩

/-- **A walk does no more than this.** -/
theorem walked_of_pauseDependentBranches
    (h : pauseDependentBranches fuel visit p = some p') : Walked visit p p' := by
  induction fuel generalizing visit p with
  | zero =>
    cases visit with
    | nil =>
      obtain rfl := Option.some.inj h
      exact ⟨rfl, rfl, rfl, Finset.Subset.refl _, fun k => .inl ⟨rfl, id⟩⟩
    | cons curr visit => cases h
  | succ fuel ih =>
    cases visit with
    | nil =>
      obtain rfl := Option.some.inj h
      exact ⟨rfl, rfl, rfl, Finset.Subset.refl _, fun k => .inl ⟨rfl, id⟩⟩
    | cons curr visit => exact (ih h).blockDependents

theorem activeCount_le_of_walk (h : pauseDependentBranches fuel visit p = some p') :
    p'.activeCount repository ≤ p.activeCount repository := by
  induction fuel generalizing visit p with
  | zero =>
    cases visit with
    | nil =>
      obtain rfl := Option.some.inj h
      exact le_rfl
    | cons curr visit => cases h
  | succ fuel ih =>
    cases visit with
    | nil =>
      obtain rfl := Option.some.inj h
      exact le_rfl
    | cons curr visit =>
      refine (ih h).trans ?_
      show (p.children.update (fun _ c => downstream curr c)
        fun _ c => { c with state := .blocked }).count _ ≤ p.children.count _
      apply Sql.Table.count_update_le
      intro k c _ hactive
      exact absurd hactive (by simp [ChildExecutionState.active])

/-! ### Effects -/

/-- The change leaves the repository and the dependencies of a child. -/
structure Static (f : ChildExecutionRecord → ChildExecutionRecord) : Prop where
  repository : ∀ c, (f c).repository = c.repository
  dependencies : ∀ c, (f c).dependencies = c.dependencies

structure MovesTo (state : ChildExecutionState) (f : ChildExecutionRecord → ChildExecutionRecord) :
    Prop extends Static f where
  state : ∀ c, (f c).state = state

/-- The change leaves the tier and the attempts of a child. -/
structure KeepsTier (f : ChildExecutionRecord → ChildExecutionRecord) : Prop where
  tier : ∀ c, (f c).tier = c.tier
  attempts : ∀ c, (f c).attempts = c.attempts

def Pipeline.pauseKey (p : Pipeline) (key : String)
    (f : ChildExecutionRecord → ChildExecutionRecord) : Pipeline :=
  { p.modify key f with pausedBranches := insert key p.pausedBranches }

inductive Effect (p : Pipeline) : Call → Pipeline → Prop
  | missing {call : Call} {key : String} (hkey : call.key? = some key) (h : p.child? key = none) :
      Effect p call p
  | notReady {key : String} {env : DispatchEnv} (h : p.isChildReady key = false) :
      Effect p (.dispatchChild key env) p
  /-- The claim check or the lease fails. -/
  | refused {key : String} {env : DispatchEnv} {f : ChildExecutionRecord → ChildExecutionRecord}
      (ready : p.isChildReady key = true) (static : Static f)
      (hstate : ∀ c, (f c).state = c.state) : Effect p (.dispatchChild key env) (p.modify key f)
  | dispatched {key : String} {env : DispatchEnv} {f : ChildExecutionRecord → ChildExecutionRecord}
      (ready : p.isChildReady key = true) (moves : MovesTo .claimed f) :
      Effect p (.dispatchChild key env) (p.modify key f)
  | opened {key : String} {pr : PullRequest} {c : ChildExecutionRecord}
      {f : ChildExecutionRecord → ChildExecutionRecord} (h : p.child? key = some c)
      (moves : MovesTo .prOpen f) (keeps : KeepsTier f) :
      Effect p (.reportPrOpened key pr) (p.modify key f)
  /-- A number in the body is too long. -/
  | raised {key : String} {pr : PullRequest} : Effect p (.reportPrOpened key pr) p
  /-- A check does not run. -/
  | noted {key status : String} {f : ChildExecutionRecord → ChildExecutionRecord}
      (static : Static f)
      (hstate : ∀ c, (f c).state = c.state) (keeps : KeepsTier f) :
      Effect p (.reportCiStatus key status) (p.modify key f)
  | running {key status : String} {c : ChildExecutionRecord}
      {f : ChildExecutionRecord → ChildExecutionRecord} (h : p.child? key = some c)
      (pending : pendingStatus status = true) (moves : MovesTo .ci f) (keeps : KeepsTier f) :
      Effect p (.reportCiStatus key status) (p.modify key f)
  /-- A failed child is tried again, on its tier or the next. -/
  | requeued {key reason updatedHandoff : String} {c : ChildExecutionRecord}
      {f : ChildExecutionRecord → ChildExecutionRecord} (h : p.child? key = some c)
      (moves : MovesTo .queued f)
      (retry : c.tier ≠ .strong ∨ c.attempts + 1 < p.config.maxTierAttempts) :
      Effect p (.reportFailed key reason updatedHandoff) (p.modify key f)
  | paused {key reason updatedHandoff : String} {c : ChildExecutionRecord} {fuel : ℕ}
      {p' : Pipeline} {f : ChildExecutionRecord → ChildExecutionRecord}
      (h : p.child? key = some c) (moves : MovesTo .pausedForHuman f) (htier : (f c).tier = .strong)
      (hattempts : p.config.maxTierAttempts ≤ (f c).attempts)
      (walk : pauseDependentBranches fuel [key] (p.pauseKey key f) = some p') :
      Effect p (.reportFailed key reason updatedHandoff) p'
  | merged {key : String} {c : ChildExecutionRecord}
      {f : ChildExecutionRecord → ChildExecutionRecord} (h : p.child? key = some c)
      (moves : MovesTo .merged f) :
      Effect p (.reportMerged key) (p.modify key f).checkAndAdvanceWave
  | resumed : Effect p .resume p

theorem effect_of_dispatchChild {env : DispatchEnv} :
    Effect p (.dispatchChild key env) (p.dispatchChild key env).2 := by
  unfold dispatchChild
  cases h : p.child? key with
  | none => exact .missing rfl h
  | some child =>
    by_cases hready : p.isChildReady key = true
    · simp only [hready, Bool.not_true, Bool.false_eq_true, if_false]
      split
      · exact .refused hready ⟨fun _ => rfl, fun _ => rfl⟩ fun _ => rfl
      · split
        · exact .refused hready ⟨fun _ => rfl, fun _ => rfl⟩ fun _ => rfl
        · rw [modify_modify]
          exact .dispatched hready ⟨⟨fun _ => rfl, fun _ => rfl⟩, fun _ => rfl⟩
    · simp only [Bool.eq_false_iff.mpr hready, Bool.not_false, if_true]
      exact .notReady (Bool.eq_false_iff.mpr hready)

theorem effect_of_reportPrOpened {pr : PullRequest} :
    Effect p (.reportPrOpened key pr)
      (((p.reportPrOpened key pr).map Prod.snd).toOption.getD p) := by
  unfold reportPrOpened
  cases hc : p.child? key with
  | none => exact .missing rfl hc
  | some c =>
    have hopened : Effect p (.reportPrOpened key pr) (p.modify key fun c =>
        { c with prNumber := some pr.number, state := .prOpen }) :=
      .opened hc ⟨⟨fun _ => rfl, fun _ => rfl⟩, fun _ => rfl⟩ ⟨fun _ => rfl, fun _ => rfl⟩
    dsimp only
    cases c.agent.filter (· ≠ "") with
    | none => exact hopened
    | some agent =>
      dsimp only
      split_ifs
      · exact hopened
      · cases validatePrSubmission pr c.issueNumber agent with
        | some result => exact hopened
        | none => exact .raised

theorem effect_of_reportCiStatus {status : String} :
    Effect p (.reportCiStatus key status) (p.reportCiStatus key status) := by
  unfold reportCiStatus
  by_cases hpending : pendingStatus status = true
  · simp only [if_pos hpending]
    cases h : p.child? key with
    | none =>
      rw [modify_of_none h]
      exact .missing rfl h
    | some c =>
      exact .running h hpending ⟨⟨fun _ => rfl, fun _ => rfl⟩, fun _ => rfl⟩
        ⟨fun _ => rfl, fun _ => rfl⟩
  · simp only [if_neg hpending]
    exact .noted ⟨fun _ => rfl, fun _ => rfl⟩ (fun _ => rfl) ⟨fun _ => rfl, fun _ => rfl⟩

theorem effect_of_reportFailed {reason updatedHandoff : String}
    (h : p.reportFailed fuel key reason updatedHandoff = some p') :
    Effect p (.reportFailed key reason updatedHandoff) p' := by
  unfold reportFailed at h
  cases hc : p.child? key with
  | none =>
    rw [hc] at h
    obtain rfl := Option.some.inj h
    exact .missing rfl hc
  | some c =>
    simp only [hc] at h
    by_cases hattempts : p.config.maxTierAttempts ≤ c.attempts + 1
    · rw [if_pos hattempts] at h
      cases htier : escalateTier c.tier with
      | some next =>
        rw [htier] at h
        obtain rfl := Option.some.inj h
        have hnot : c.tier ≠ .strong := fun hstrong => by
          rw [hstrong] at htier
          cases htier
        rw [modify_modify]
        exact .requeued hc ⟨⟨fun _ => rfl, fun _ => rfl⟩, fun _ => rfl⟩ (.inl hnot)
      | none =>
        have hstrong : c.tier = .strong := by
          cases htier' : c.tier with
          | ollama => rw [htier'] at htier; cases htier
          | cli => rw [htier'] at htier; cases htier
          | strong => rfl
        simp only [htier, modify_modify] at h
        exact .paused (f := fun c =>
            { countFailure reason updatedHandoff c with state := .pausedForHuman })
          hc ⟨⟨fun _ => rfl, fun _ => rfl⟩, fun _ => rfl⟩ hstrong hattempts h
    · rw [if_neg hattempts, modify_modify] at h
      obtain rfl := Option.some.inj h
      exact .requeued hc ⟨⟨fun _ => rfl, fun _ => rfl⟩, fun _ => rfl⟩ (.inr (not_le.mp hattempts))

/-- **A call does no more than this.** -/
theorem effect_of_step (h : Step p call p') : Effect p call p' := by
  obtain ⟨fuel, h⟩ := h
  cases call with
  | dispatchChild key env =>
    obtain rfl := Option.some.inj h
    exact effect_of_dispatchChild
  | reportPrOpened key pr =>
    obtain rfl := Option.some.inj h
    exact effect_of_reportPrOpened
  | reportCiStatus key status =>
    obtain rfl := Option.some.inj h
    exact effect_of_reportCiStatus
  | reportFailed key reason updatedHandoff =>
    obtain ⟨fuel, h⟩ := step_reportFailed_iff.mp ⟨fuel, h⟩
    exact effect_of_reportFailed h
  | reportMerged key =>
    obtain rfl := Option.some.inj h
    unfold reportMerged
    cases hc : p.child? key with
    | none => exact .missing rfl hc
    | some c => exact .merged hc ⟨⟨fun _ => rfl, fun _ => rfl⟩, fun _ => rfl⟩
  | resume =>
    obtain rfl := Option.some.inj h
    rw [fromSnapshot_snapshot]
    exact .resumed

end Executor
