import RunnerDashboard.CodeRequests.ExecutorSteps
import RunnerDashboard.Lib.Path

/-!
# Caps and merges of the executor

The cap of a repository is kept by the list of ready children, and by nothing else: a dispatch and a
report make a child active without looking at the cap, or at the state of the child.

## Main results

* `withinCaps_effect` — a call that finds this respects the caps.
* `isMerged_effect`, `not_isMerged_effect` — which calls change what is merged.
* `caps_and_merges` — **in every such run the caps and the merges are respected.**
* `overrun` — two dispatches over the cap, and a late failure of a merged child.
-/

namespace Executor

open Lts Pipeline

variable {p p' p₀ : Pipeline} {key k repository : String} {c : ChildExecutionRecord}
  {f : ChildExecutionRecord → ChildExecutionRecord} {call : Call} {calls : List Call}
  {config : ExecutionConfig} {payloads : List ChildIssuePayload}

/-! ### Runs -/

/-- There is room for one more active child in the repository of a child. -/
def Pipeline.HasRoom (p : Pipeline) (c : ChildExecutionRecord) : Prop :=
  p.activeCount c.repository < p.config.maxConcurrentPerRepo

/-- A report is not about a child that is merged. -/
def NotLate (p : Pipeline) : Call → Prop
  | .reportPrOpened key _ => p.isMerged key = false
  | .reportCiStatus key status => pendingStatus status = true → p.isMerged key = false
  | .reportFailed key _ _ => p.isMerged key = false
  | _ => True

def Fits (p : Pipeline) : Call → Prop
  | .dispatchChild key _ => p.isChildReady key = true → ∀ c, p.child? key = some c → p.HasRoom c
  | .reportPrOpened key _ => ∀ c, p.child? key = some c → c.state.active = true ∨ p.HasRoom c
  | .reportCiStatus key status =>
    pendingStatus status = true → ∀ c, p.child? key = some c → c.state.active = true ∨ p.HasRoom c
  | _ => True

/-- **A child that becomes active has room, and no report is late.** -/
def Orderly (p : Pipeline) (call : Call) : Prop := NotLate p call ∧ Fits p call

def OrderlyStep (p : Pipeline) (call : Call) (p' : Pipeline) : Prop :=
  Step p call p' ∧ Orderly p call

def WithinCaps (p : Pipeline) : Prop :=
  ∀ repository, p.activeCount repository ≤ p.config.maxConcurrentPerRepo

/-- What is promised of a state that is reached by some calls. -/
structure Respects (R : Pipeline → Call → Pipeline → Prop) (calls : List Call) (p : Pipeline) :
    Prop where
  cap : WithinCaps p
  /-- A child leaves the queue by a dispatch only when what it depends on is merged. -/
  gate : ∀ key env p', R p (.dispatchChild key env) p' → ∀ k c c', p.child? k = some c →
    c.state = .queued → p'.child? k = some c' → c'.state ≠ .queued →
    ∀ d ∈ c.dependencies, p.unmerged d = false
  merged : ∀ calls' p', Path R p calls' p' → ∀ key, p.isMerged key = true → p'.isMerged key = true
  /-- A child that failed is completed only if it is merged afterwards. -/
  failed : ∀ before key reason updatedHandoff after,
    calls = before ++ .reportFailed key reason updatedHandoff :: after →
    .reportMerged key ∉ after → key ∉ p.completed

/-! ### The cap -/

theorem activeCount_modify (f : ChildExecutionRecord → ChildExecutionRecord) (repository : String)
    (h : p.child? key = some c) :
    (p.modify key f).activeCount repository +
        (if c.state.active && c.repository = repository then 1 else 0) =
      p.activeCount repository +
        if (f c).state.active && (f c).repository = repository then 1 else 0 :=
  Sql.Table.count_update_key h f fun _ c => c.state.active && c.repository = repository

theorem withinCaps_modify (hinv : WithinCaps p) (static : Static f)
    (hf : ∀ c, p.child? key = some c → (f c).state.active = true →
      c.state.active = true ∨ p.HasRoom c) : WithinCaps (p.modify key f) := by
  intro repository
  cases h : p.child? key with
  | none =>
    rw [modify_of_none h]
    exact hinv repository
  | some c =>
    have hcount := activeCount_modify f repository h
    have hcap := hinv repository
    show (p.modify key f).activeCount repository ≤ p.config.maxConcurrentPerRepo
    rw [static.repository] at hcount
    by_cases hrepo : c.repository = repository
    · simp only [hrepo, decide_true, Bool.and_true] at hcount
      by_cases hafter : (f c).state.active = true
      · rcases hf c h hafter with hbefore | hroom
        · rw [if_pos hbefore, if_pos hafter] at hcount
          omega
        · -- the child takes the free place
          unfold HasRoom at hroom
          rw [hrepo] at hroom
          rw [if_pos hafter] at hcount
          omega
      · rw [if_neg hafter] at hcount
        omega
    · simp only [hrepo, decide_false, Bool.and_false, Bool.false_eq_true, if_false] at hcount
      omega

theorem checkAndAdvanceWave_eq :
    p.checkAndAdvanceWave =
      { p with currentWaveIdx := p.checkAndAdvanceWave.currentWaveIdx } := by
  unfold checkAndAdvanceWave
  split
  · rfl
  · split
    · rfl
    · rfl

theorem children_checkAndAdvanceWave : p.checkAndAdvanceWave.children = p.children := by
  rw [checkAndAdvanceWave_eq]

theorem config_checkAndAdvanceWave : p.checkAndAdvanceWave.config = p.config := by
  rw [checkAndAdvanceWave_eq]

@[simp] theorem child?_checkAndAdvanceWave : p.checkAndAdvanceWave.child? k = p.child? k := by
  unfold child?
  rw [children_checkAndAdvanceWave]

/-- **A call that finds room respects the caps.** -/
theorem withinCaps_effect (hinv : WithinCaps p) (h : Effect p call p') (hfits : Fits p call) :
    WithinCaps p' := by
  cases h with
  | missing hkey h => exact hinv
  | raised => exact hinv
  | notReady h => exact hinv
  | resumed => exact hinv
  | refused ready static hstate =>
    exact withinCaps_modify hinv static fun c _ hactive => .inl (hstate c ▸ hactive)
  | dispatched ready moves =>
    exact withinCaps_modify hinv moves.toStatic fun c hc _ => .inr (hfits ready c hc)
  | opened h moves keeps =>
    exact withinCaps_modify hinv moves.toStatic fun c hc _ => hfits c hc
  | noted static hstate keeps =>
    exact withinCaps_modify hinv static fun c _ hactive => .inl (hstate c ▸ hactive)
  | running h pending moves keeps =>
    exact withinCaps_modify hinv moves.toStatic fun c hc _ => hfits pending c hc
  | requeued h moves retry =>
    refine withinCaps_modify hinv moves.toStatic fun c _ hactive => ?_
    rw [moves.state] at hactive
    cases hactive
  | @paused key reason updatedHandoff c fuel p' f h moves htier hattempts walk =>
    have hpaused : WithinCaps (p.modify key f) := by
      refine withinCaps_modify hinv moves.toStatic fun c _ hactive => ?_
      rw [moves.state] at hactive
      cases hactive
    intro repository
    rw [(walked_of_pauseDependentBranches walk).config]
    exact (activeCount_le_of_walk walk).trans (hpaused repository)
  | @merged key c f h moves =>
    have hmerged : WithinCaps (p.modify key f) := by
      refine withinCaps_modify hinv moves.toStatic fun c _ hactive => ?_
      rw [moves.state] at hactive
      cases hactive
    intro repository
    unfold activeCount
    rw [children_checkAndAdvanceWave, config_checkAndAdvanceWave]
    exact hmerged repository

/-! ### What is merged -/

theorem isMerged_modify
    (hf : ∀ c, p.child? key = some c → c.state = .merged → (f c).state = .merged)
    (h : p.isMerged k = true) : (p.modify key f).isMerged k = true := by
  obtain ⟨c, hc, hstate⟩ := isMerged_iff.mp h
  by_cases hk : k = key
  · subst hk
    exact isMerged_iff.mpr ⟨f c, child?_modify_self hc, hf c hc hstate⟩
  · exact isMerged_iff.mpr ⟨c, (child?_modify_of_ne hk).trans hc, hstate⟩

theorem not_isMerged_modify
    (hf : ∀ c, k = key → (f c).state = .merged → c.state = .merged)
    (h : ¬ p.isMerged k = true) : ¬ (p.modify key f).isMerged k = true := by
  intro hafter
  obtain ⟨c', hc', hstate⟩ := isMerged_iff.mp hafter
  rw [child?_modify, Option.map_eq_some_iff] at hc'
  obtain ⟨c, hc, rfl⟩ := hc'
  refine h (isMerged_iff.mpr ⟨c, hc, ?_⟩)
  by_cases hk : k = key
  · rw [if_pos hk] at hstate
    exact hf c hk hstate
  · rwa [if_neg hk] at hstate

theorem isMerged_walked {visit : List String} (h : Walked visit p p') :
    p'.isMerged k = p.isMerged k := by
  rcases h.child k with ⟨hsame, -⟩ | ⟨c, hc, hstate, hafter, -⟩
  · unfold isMerged
    rw [hsame]
  · unfold isMerged
    rw [hc, hafter]
    simp [hstate]

@[simp] theorem isMerged_checkAndAdvanceWave :
    p.checkAndAdvanceWave.isMerged k = p.isMerged k := by
  unfold isMerged
  rw [child?_checkAndAdvanceWave]

theorem not_merged_of_notLate {Q : ChildExecutionRecord → Prop} (h : p.isMerged key = false) :
    ∀ c, p.child? key = some c → c.state = .merged → Q c := by
  intro c hc hstate
  exact absurd (isMerged_iff.mpr ⟨c, hc, hstate⟩) (by simp [h])

theorem not_isMerged_of_moves {state : ChildExecutionState} (moves : MovesTo state f)
    (hstate : state ≠ .merged) (hc : p.child? key = some c) :
    ¬ (p.modify key f).isMerged key = true := by
  intro hmerged
  obtain ⟨c', hc', hc''⟩ := isMerged_iff.mp hmerged
  obtain rfl := Option.some.inj ((child?_modify_self hc).symm.trans hc')
  exact hstate ((moves.state c).symm.trans hc'')

/-- **What is merged stays merged**, if no late report is made. -/
theorem isMerged_effect (h : Effect p call p') (hlate : NotLate p call)
    (hmerged : p.isMerged k = true) : p'.isMerged k = true := by
  cases h with
  | missing hkey h => exact hmerged
  | raised => exact hmerged
  | notReady h => exact hmerged
  | resumed => exact hmerged
  | refused ready static hstate =>
    exact isMerged_modify (fun c _ hc => (hstate c).trans hc) hmerged
  | dispatched ready moves =>
    obtain ⟨c, hc, hqueued, -⟩ := isChildReady_iff.mp ready
    refine isMerged_modify (fun c' hc' hstate' => ?_) hmerged
    obtain rfl := Option.some.inj (hc.symm.trans hc')
    exact absurd (hqueued.symm.trans hstate') (by decide)
  | opened h moves keeps => exact isMerged_modify (not_merged_of_notLate hlate) hmerged
  | noted static hstate keeps =>
    exact isMerged_modify (fun c _ hc => (hstate c).trans hc) hmerged
  | running h pending moves keeps =>
    exact isMerged_modify (not_merged_of_notLate (hlate pending)) hmerged
  | requeued h moves retry => exact isMerged_modify (not_merged_of_notLate hlate) hmerged
  | @paused key reason updatedHandoff c fuel p' f h moves htier hattempts walk =>
    rw [isMerged_walked (walked_of_pauseDependentBranches walk)]
    exact isMerged_modify (p := p) (f := f) (not_merged_of_notLate hlate) hmerged
  | merged h moves =>
    rw [isMerged_checkAndAdvanceWave]
    exact isMerged_modify (fun c _ _ => moves.state c) hmerged

/-- **Only a report of the merge merges a child.** -/
theorem not_isMerged_effect (h : Effect p call p') (hcall : call ≠ .reportMerged k)
    (hmerged : ¬ p.isMerged k = true) : ¬ p'.isMerged k = true := by
  cases h with
  | missing hkey h => exact hmerged
  | raised => exact hmerged
  | notReady h => exact hmerged
  | resumed => exact hmerged
  | refused ready static hstate =>
    exact not_isMerged_modify (fun c _ hc => (hstate c).symm.trans hc) hmerged
  | dispatched ready moves =>
    exact not_isMerged_modify (fun c _ hc => absurd ((moves.state c).symm.trans hc) (by decide))
      hmerged
  | opened h moves keeps =>
    exact not_isMerged_modify (fun c _ hc => absurd ((moves.state c).symm.trans hc) (by decide))
      hmerged
  | noted static hstate keeps =>
    exact not_isMerged_modify (fun c _ hc => (hstate c).symm.trans hc) hmerged
  | running h pending moves keeps =>
    exact not_isMerged_modify (fun c _ hc => absurd ((moves.state c).symm.trans hc) (by decide))
      hmerged
  | requeued h moves retry =>
    exact not_isMerged_modify (fun c _ hc => absurd ((moves.state c).symm.trans hc) (by decide))
      hmerged
  | @paused key reason updatedHandoff c fuel p' f h moves htier hattempts walk =>
    rw [isMerged_walked (walked_of_pauseDependentBranches walk)]
    exact not_isMerged_modify (p := p) (f := f)
      (fun c _ hc => absurd ((moves.state c).symm.trans hc) (by decide)) hmerged
  | merged h moves =>
    rw [isMerged_checkAndAdvanceWave]
    refine not_isMerged_modify (fun c hk _ => ?_) hmerged
    exact absurd (congrArg Call.reportMerged hk.symm) hcall

theorem not_isMerged_reportFailed {reason updatedHandoff : String}
    (h : Effect p (.reportFailed key reason updatedHandoff) p') : ¬ p'.isMerged key = true := by
  cases h with
  | missing hkey h =>
    obtain rfl := Option.some.inj hkey
    intro hmerged
    obtain ⟨c, hc, -⟩ := isMerged_iff.mp hmerged
    exact absurd (h.symm.trans hc) (by simp)
  | requeued h moves retry => exact not_isMerged_of_moves moves (by decide) h
  | paused h moves htier hattempts walk =>
    rw [isMerged_walked (walked_of_pauseDependentBranches walk)]
    exact not_isMerged_of_moves moves (by decide) h

theorem mem_completed : k ∈ p.completed ↔ p.isMerged k = true :=
  mem_keysIn.trans isMerged_iff.symm

theorem ready_of_dispatch {env : DispatchEnv} {c' : ChildExecutionRecord}
    (h : Effect p (.dispatchChild key env) p') (hc : p.child? k = some c)
    (hqueued : c.state = .queued)
    (hc' : p'.child? k = some c') (hleft : c'.state ≠ .queued) : p.isChildReady k = true := by
  cases h with
  | missing hkey h => exact absurd (Option.some.inj (hc.symm.trans hc') ▸ hqueued) hleft
  | notReady h => exact absurd (Option.some.inj (hc.symm.trans hc') ▸ hqueued) hleft
  | refused ready static hstate =>
    rw [child?_modify, hc, Option.map_some] at hc'
    obtain rfl := Option.some.inj hc'
    split at hleft
    · exact absurd ((hstate c).trans hqueued) hleft
    · exact absurd hqueued hleft
  | dispatched ready moves =>
    rw [child?_modify, hc, Option.map_some] at hc'
    obtain rfl := Option.some.inj hc'
    split at hleft
    · next hk => exact hk ▸ ready
    · exact absurd hqueued hleft

/-! ### Runs from the start -/

theorem withinCaps_of_initializePipeline (h : initializePipeline config payloads = .ok p) :
    WithinCaps p := by
  intro repository
  have hzero : p.activeCount repository = 0 := by
    refine Sql.Table.count_eq_zero_iff.mpr fun k c hc => ?_
    rw [queued_of_initializePipeline h hc]
    rfl
  omega

theorem not_isMerged_of_failed {s : Pipeline} {R : Pipeline → Call → Pipeline → Prop}
    (hR : ∀ p call p', R p call p' → Step p call p') (path : Path R s calls p) :
    ∀ before key reason updatedHandoff after,
      calls = before ++ .reportFailed key reason updatedHandoff :: after →
      .reportMerged key ∉ after → ¬ p.isMerged key = true := by
  refine path.history (I := fun calls p => ∀ before key reason updatedHandoff after,
    calls = before ++ .reportFailed key reason updatedHandoff :: after →
    .reportMerged key ∉ after → ¬ p.isMerged key = true) ?_ ?_
  · intro past s call t ih hstep before key reason updatedHandoff after hcalls hafter
    have heffect := effect_of_step (hR _ _ _ hstep)
    rcases snoc_eq_append_cons_iff.mp hcalls with ⟨-, rfl, -⟩ | ⟨after', rfl, hpast⟩
    · exact not_isMerged_reportFailed heffect
    · -- an earlier report: the calls after it do not merge the child, this one included
      rw [List.mem_append, not_or, List.mem_singleton] at hafter
      exact not_isMerged_effect heffect (Ne.symm hafter.2)
        (ih before key reason updatedHandoff after' hpast hafter.1)
  · intro before key reason updatedHandoff after hcalls
    simp at hcalls

/-- **In every such run the caps and the merges are respected.** -/
theorem caps_and_merges (hinit : initializePipeline config payloads = .ok p₀)
    (path : Path OrderlyStep p₀ calls p) : Respects OrderlyStep calls p where
  cap := path.invariant (fun _ _ _ hinv hstep =>
    withinCaps_effect hinv (effect_of_step hstep.1) hstep.2.2)
      (withinCaps_of_initializePipeline hinit)
  gate := by
    intro key env p' hstep k c c' hc hqueued hc' hleft
    have hready := ready_of_dispatch (effect_of_step hstep.1) hc hqueued hc' hleft
    obtain ⟨c'', hc'', -, -, hdeps⟩ := isChildReady_iff.mp hready
    obtain rfl := Option.some.inj (hc.symm.trans hc'')
    exact hdeps
  merged := by
    intro calls' p' path' key
    refine path'.invariant (I := fun p => p.isMerged key = true) ?_
    intro s call t hmerged hstep
    exact isMerged_effect (effect_of_step hstep.1) hstep.2.1 hmerged
  failed := by
    intro before key reason updatedHandoff after hcalls hafter hmem
    exact not_isMerged_of_failed (fun _ _ _ hstep => hstep.1) path before key reason updatedHandoff
      after hcalls hafter (mem_completed.mp hmem)

/-- One active child in each repository, and two attempts on each tier. -/
def oneAtATime : ExecutionConfig where
  maxConcurrentPerRepo := 1
  maxTierAttempts := 2
  autoAdvanceWaves := true
  cap_pos := by decide
  cap_le := by decide
  attempts_pos := by decide
  attempts_le := by decide

def plainChild (key : String) (issueNumber : ℤ) (dependencies : List String) :
    ChildIssuePayload where
  key
  repository := "org/app"
  issueNumber := some issueNumber
  dependencies
  acceptanceCriteria := ["tests pass"]

def twoChildren : Pipeline :=
  newPipeline oneAtATime [["a", "b"]] [plainChild "a" 11 [], plainChild "b" 12 []]

theorem initialize_twoChildren :
    initializePipeline oneAtATime [plainChild "a" 11 [], plainChild "b" 12 []] =
      .ok twoChildren := initializePipeline_eq (by decide +kernel) (by decide)

/-- One child is dispatched, and its pull request is merged. -/
theorem caps_and_merges_one :
    ∃ p, Path OrderlyStep twoChildren [.dispatchChild "a" {}, .reportMerged "a"] p ∧
      Respects OrderlyStep [.dispatchChild "a" {}, .reportMerged "a"] p := by
  have path : Path OrderlyStep twoChildren [.dispatchChild "a" {}, .reportMerged "a"]
      ((twoChildren.dispatchChild "a" {}).2.reportMerged "a") := by
    refine .cons ⟨⟨0, rfl⟩, trivial, fun _ c hc => ?_⟩ (.single ⟨⟨0, rfl⟩, trivial, trivial⟩)
    have hnone : ∀ repository, twoChildren.activeCount repository = 0 := fun repository =>
      Sql.Table.count_eq_zero_iff.mpr fun k c hc => by
        rw [queued_of_initializePipeline initialize_twoChildren hc]
        rfl
    unfold HasRoom
    rw [hnone]
    decide
  exact ⟨_, path, caps_and_merges initialize_twoChildren path⟩

/-- **Both children are dispatched, and a merged child is queued again by a late failure.** -/
theorem overrun :
    initializePipeline oneAtATime [plainChild "a" 11 [], plainChild "b" 12 []] =
        .ok twoChildren ∧
      (∃ p, Path Step twoChildren [.dispatchChild "a" {}, .dispatchChild "b" {}] p ∧
        ¬ Respects Step [.dispatchChild "a" {}, .dispatchChild "b" {}] p) ∧
      ∃ p, Path Step twoChildren [.reportMerged "a"] p ∧
        ¬ Respects Step [.reportMerged "a"] p := by
  refine ⟨initialize_twoChildren, ⟨_, .cons ⟨0, rfl⟩ (.single ⟨0, rfl⟩), fun h => ?_⟩,
    _, .single ⟨0, rfl⟩, fun h => ?_⟩
  · have htwo : ((twoChildren.dispatchChild "a" {}).2.dispatchChild "b" {}).2.activeCount
        "org/app" = 2 := by decide +kernel
    have hcap := h.cap "org/app"
    exact absurd (htwo ▸ hcap) (by decide)
  · have hlate : Step (twoChildren.reportMerged "a") (.reportFailed "a" "late" "")
        (((twoChildren.reportMerged "a").modify "a" (countFailure "late" "")).modify "a"
          fun c => { c with state := .queued }) := ⟨0, rfl⟩
    have hmerged := h.merged _ _ (.single hlate) "a" (by decide +kernel)
    exact absurd hmerged (by decide +kernel)

end Executor
