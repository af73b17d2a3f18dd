import RunnerDashboard.CodeRequests.ExecutorProgress

/-!
# Tiers of a failing child

A child that is dispatched and fails, again and again, climbs the tiers and is paused for a human on
the last one.  Each dispatch takes the tier that the router answers, and a profile of the lowest
tier sends every child of a higher tier to the one above the profile, so such a child may fall.

## Main results

* `round_cases` — **what a round does.**
* `climbs_iff` — **a failing child reaches a human exactly if the profile is not of the lowest
  tier.**
-/

namespace Executor

open Lts Pipeline

/-! ### Rounds -/

structure RoundArgs where
  env : DispatchEnv
  reason : String
  updatedHandoff : String

/-- A dispatch under a pinned profile that succeeds, and a failure that is reported. -/
structure Round (key : String) (pinnedProfile : Option String) (p : Pipeline) (a : RoundArgs)
    (p' : Pipeline) : Prop where
  pinned : a.env.pinnedProfile = pinnedProfile
  dispatched : (p.dispatchChild key a.env).1.1 = true
  failed : Step (p.dispatchChild key a.env).2 (.reportFailed key a.reason a.updatedHandoff) p'

def resolvedTier (c : ChildExecutionRecord) (env : DispatchEnv) : ExecutorTier :=
  (resolveChildExecutor c env.pinnedProfile env.registry).2.1

def Pipeline.InState (p : Pipeline) (key : String) (state : ChildExecutionState) : Prop :=
  ∃ c, p.child? key = some c ∧ c.state = state

/-- How many rounds are left, for a child of a tier with some attempts. -/
def budgetOf (m : ℕ) (tier : ExecutorTier) (attempts : ℕ) : ℕ :=
  (2 - tierRank tier) * m + max 1 (m - attempts)

/-- How many rounds are left at most. -/
def budget (key : String) (p : Pipeline) : ℕ :=
  match p.child? key with
  | none => 0
  | some c =>
    if c.state = .queued then budgetOf p.config.maxTierAttempts c.tier c.attempts else 0

def Lowest (pinnedProfile : Option String) : Prop :=
  ∃ profile, pinnedProfile.filter (· ≠ "") = some profile ∧ profileTier profile = .ollama

/-- What is promised of the rounds of a child under a pinned profile. -/
structure Climbs (key : String) (pinnedProfile : Option String) (p : Pipeline) : Prop where
  /-- No round lowers the tier, and no dispatch runs below it. -/
  tier : ∀ rounds s a s', Path (Round key pinnedProfile) p rounds s →
    Round key pinnedProfile s a s' →
    ∃ c c', s.child? key = some c ∧ s'.child? key = some c' ∧
      tierRank c.tier ≤ tierRank (resolvedTier c a.env) ∧
      tierRank (resolvedTier c a.env) ≤ tierRank c'.tier
  human : ∀ rounds s, Path (Round key pinnedProfile) p rounds s →
    s.InState key .pausedForHuman ∧ rounds.length ≤ 3 * p.config.maxTierAttempts ∨
      s.isChildReady key = true ∧ rounds.length < 3 * p.config.maxTierAttempts

variable {p p' s : Pipeline} {key d : String} {c : ChildExecutionRecord} {env : DispatchEnv}
  {a : RoundArgs} {rounds : List RoundArgs} {pinnedProfile : Option String}
  {f : ChildExecutionRecord → ChildExecutionRecord}

/-! ### The router -/

theorem tierRank_le_two (tier : ExecutorTier) : tierRank tier ≤ 2 := by
  cases tier <;> simp [tierRank]

theorem tierRank_escalate {tier next : ExecutorTier} (h : escalateTier tier = some next) :
    tierRank next = tierRank tier + 1 := by
  cases tier <;> cases h <;> rfl

theorem eq_strong_of_escalate {tier : ExecutorTier} (h : escalateTier tier = none) :
    tier = .strong := by
  cases tier <;> first | rfl | cases h

theorem resolvedTier_pinned {profile : String}
    (h : env.pinnedProfile.filter (· ≠ "") = some profile) :
    resolvedTier c env =
      if tierRank (profileTier profile) < tierRank c.tier then
        (escalateTier (profileTier profile)).getD (profileTier profile)
      else profileTier profile := by
  unfold resolvedTier resolveChildExecutor
  rw [h]
  dsimp only
  split <;> rfl

theorem resolvedTier_unpinned (h : env.pinnedProfile.filter (· ≠ "") = none) :
    resolvedTier c env = c.tier := by
  unfold resolvedTier resolveChildExecutor
  rw [h]

theorem tierRank_le_resolvedTier (h : ¬ Lowest env.pinnedProfile) :
    tierRank c.tier ≤ tierRank (resolvedTier c env) := by
  cases hpin : env.pinnedProfile.filter (· ≠ "") with
  | none => rw [resolvedTier_unpinned hpin]
  | some profile =>
    have hnot : profileTier profile ≠ .ollama := fun hlow => h ⟨profile, hpin, hlow⟩
    have htwo := tierRank_le_two c.tier
    rw [resolvedTier_pinned hpin]
    cases hprofile : profileTier profile with
    | ollama => exact absurd hprofile hnot
    | cli =>
      have hone : tierRank .cli = 1 := rfl
      split
      · -- one above is the highest
        exact htwo
      · omega
    | strong =>
      have hhighest : tierRank .strong = 2 := rfl
      rw [if_neg (by omega)]
      omega

/-- A profile of the lowest tier keeps every child below the highest. -/
theorem resolvedTier_ne_strong (h : Lowest env.pinnedProfile) : resolvedTier c env ≠ .strong := by
  obtain ⟨profile, hpin, hlow⟩ := h
  rw [resolvedTier_pinned hpin, hlow]
  split <;> decide

/-! ### What a round does -/

def claim (env : DispatchEnv) (receipt : String) (c : ChildExecutionRecord)
    (c' : ChildExecutionRecord) : ChildExecutionRecord :=
  { c' with
    agent := some (resolveChildExecutor c env.pinnedProfile env.registry).1
    tier := resolvedTier c env
    leaseReceipt := some receipt
    state := .claimed }

/-- **A dispatch that succeeds.** -/
theorem dispatchChild_ok (h : (p.dispatchChild key env).1.1 = true) :
    p.isChildReady key = true ∧ ∃ c receipt, p.child? key = some c ∧
      (p.dispatchChild key env).2 = p.modify key (claim env receipt c) := by
  unfold dispatchChild at h ⊢
  cases hc : p.child? key with
  | none => simp [hc] at h
  | some c =>
    simp only [hc] at h
    by_cases hready : p.isChildReady key = true
    · simp only [hready, Bool.not_true, Bool.false_eq_true, if_false] at h ⊢
      split at h
      · exact absurd h (by simp)
      · rename_i hcan
        split at h
        · exact absurd h (by simp)
        · rename_i hlease
          rw [if_neg hcan, if_neg hlease, modify_modify]
          exact ⟨trivial, c, _, rfl, rfl⟩
    · simp [hready] at h

/-- What a round makes of a child that is dispatched on a tier. -/
inductive Outcome (p : Pipeline) (key : String) (c : ChildExecutionRecord) (tier : ExecutorTier) :
    Pipeline → Prop
  /-- The child is tried again on the tier. -/
  | retried {f : ChildExecutionRecord → ChildExecutionRecord} (moves : MovesTo .queued f)
      (hattempts : c.attempts + 1 < p.config.maxTierAttempts) (htier : (f c).tier = tier)
      (hcount : (f c).attempts = c.attempts + 1) : Outcome p key c tier (p.modify key f)
  | escalated {f : ChildExecutionRecord → ChildExecutionRecord} {next : ExecutorTier}
      (moves : MovesTo .queued f) (hnext : escalateTier tier = some next)
      (htier : (f c).tier = next) (hcount : (f c).attempts = 0) :
      Outcome p key c tier (p.modify key f)
  | paused {f : ChildExecutionRecord → ChildExecutionRecord} {fuel : ℕ} {p' : Pipeline}
      (moves : MovesTo .pausedForHuman f) (hstrong : tier = .strong) (htier : (f c).tier = tier)
      (walk : pauseDependentBranches fuel [key] (p.pauseKey key f) = some p') :
      Outcome p key c tier p'

/-- **What a round does.** -/
theorem round_cases (h : Round key pinnedProfile p a p') : p.isChildReady key = true ∧
    ∃ c, p.child? key = some c ∧ Outcome p key c (resolvedTier c a.env) p' := by
  obtain ⟨-, hok, hstep⟩ := h
  obtain ⟨fuel, hfailed⟩ := step_reportFailed_iff.mp hstep
  obtain ⟨hready, c, receipt, hc, hdispatch⟩ := dispatchChild_ok hok
  refine ⟨hready, c, hc, ?_⟩
  have hchild := child?_modify_self (f := claim a.env receipt c) hc
  rw [hdispatch] at hfailed
  simp only [reportFailed, hchild] at hfailed
  split at hfailed
  · rename_i hattempts
    split at hfailed
    · rename_i next hnext
      obtain rfl := Option.some.inj hfailed
      rw [modify_modify, modify_modify]
      exact .escalated ⟨⟨fun _ => rfl, fun _ => rfl⟩, fun _ => rfl⟩ hnext rfl rfl
    · rename_i hnext
      rw [modify_modify, modify_modify] at hfailed
      exact .paused (f := fun c' => { countFailure a.reason a.updatedHandoff
          (claim a.env receipt c c') with state := .pausedForHuman })
        ⟨⟨fun _ => rfl, fun _ => rfl⟩, fun _ => rfl⟩ (eq_strong_of_escalate hnext) rfl hfailed
  · rename_i hattempts
    obtain rfl := Option.some.inj hfailed
    rw [modify_modify, modify_modify]
    exact .retried ⟨⟨fun _ => rfl, fun _ => rfl⟩, fun _ => rfl⟩ (not_le.mp hattempts) rfl rfl

theorem isChildReady_modify (hready : p.isChildReady key = true) (moves : MovesTo .queued f) :
    (p.modify key f).isChildReady key = true := by
  obtain ⟨c, hc, hqueued, hpaused, hdeps⟩ := isChildReady_iff.mp hready
  refine isChildReady_iff.mpr
    ⟨f c, child?_modify_self hc, moves.state c, hpaused, fun d hd => ?_⟩
  rw [moves.dependencies] at hd
  have hmerged := hdeps d hd
  have hne : d ≠ key := by
    rintro rfl
    rw [unmerged_iff.mpr ⟨c, hc, by simp [hqueued]⟩] at hmerged
    exact absurd hmerged (by simp)
  rw [unmerged, child?_modify_of_ne hne]
  exact hmerged

theorem child?_walk {fuel : ℕ} (hready : p.isChildReady key = true) (hc : p.child? key = some c)
    (static : Static f)
    (walk : pauseDependentBranches fuel [key] (p.pauseKey key f) = some p') :
    p'.child? key = some (f c) := by
  obtain ⟨c', hc', hqueued, -, hdeps⟩ := isChildReady_iff.mp hready
  obtain rfl := Option.some.inj (hc.symm.trans hc')
  have hself : (p.pauseKey key f).child? key = some (f c) := child?_modify_self hc
  have hkey : p.unmerged key = true := unmerged_iff.mpr ⟨c, hc, by simp [hqueued]⟩
  rcases (walked_of_pauseDependentBranches walk).child key with ⟨hsame, -⟩ | hhit
  · rw [hsame, hself]
  · -- it would depend on a child that is not merged
    obtain ⟨c'', hc'', -, -, -, d, hd, hreached⟩ := hhit
    obtain rfl := Option.some.inj (hself.symm.trans hc'')
    rw [static.dependencies] at hd
    have hmerged := hdeps d hd
    have hne : d ≠ key := by
      rintro rfl
      rw [hkey] at hmerged
      exact absurd hmerged (by simp)
    rcases hreached with hmem | ⟨-, hunmerged⟩
    · exact absurd (List.mem_singleton.mp hmem) hne
    · have hother : (p.pauseKey key f).unmerged d = p.unmerged d := by
        unfold unmerged
        rw [show (p.pauseKey key f).child? d = (p.modify key f).child? d from rfl,
          child?_modify_of_ne hne]
      rw [hother, hmerged] at hunmerged
      exact absurd hunmerged (by simp)

/-- What a round leaves, in numbers. -/
structure Left (p p' : Pipeline) (key : String) (tier : ExecutorTier)
    (c c' : ChildExecutionRecord) : Prop where
  child : p.child? key = some c
  child' : p'.child? key = some c'
  config : p'.config = p.config
  climbs : tierRank tier ≤ tierRank c'.tier
  next : p'.isChildReady key = true ∧
      (c'.tier = tier ∧ c'.attempts = c.attempts + 1 ∧
          c.attempts + 1 < p.config.maxTierAttempts ∨
        tierRank c'.tier = tierRank tier + 1 ∧ c'.attempts = 0) ∨
    c'.state = .pausedForHuman ∧ tier = .strong

/-- **What a round leaves.** -/
theorem exists_left (h : Round key pinnedProfile p a p') :
    ∃ c c', Left p p' key (resolvedTier c a.env) c c' := by
  obtain ⟨hready, c, hc, houtcome⟩ := round_cases h
  cases houtcome with
  | retried moves hattempts htier hcount =>
    exact ⟨c, _, hc, child?_modify_self hc, rfl, by rw [htier],
      .inl ⟨isChildReady_modify hready moves, .inl ⟨htier, hcount, hattempts⟩⟩⟩
  | escalated moves hnext htier hcount =>
    have hrank := tierRank_escalate hnext
    exact ⟨c, _, hc, child?_modify_self hc, rfl, by rw [htier]; omega,
      .inl ⟨isChildReady_modify hready moves, .inr ⟨by rw [htier, hrank], hcount⟩⟩⟩
  | paused moves hstrong htier walk =>
    exact ⟨c, _, hc, child?_walk hready hc moves.toStatic walk,
      (walked_of_pauseDependentBranches walk).config, by rw [htier],
      .inr ⟨moves.state c, hstrong⟩⟩

/-! ### The rounds end -/

/-- A child that is ready has a round left, and no more than three times the attempts. -/
theorem budget_of_ready (h : p.isChildReady key = true) :
    0 < budget key p ∧ budget key p ≤ 3 * p.config.maxTierAttempts := by
  obtain ⟨c, hc, hqueued, -, -⟩ := isChildReady_iff.mp h
  have hpos := p.config.attempts_pos
  unfold budget budgetOf
  simp only [hc, hqueued, if_true]
  cases c.tier <;> simp only [tierRank] <;> omega

/-- **A round on a tier that is no lower takes one from the budget.** -/
theorem budget_round (h : Round key pinnedProfile p a p') (hhigh : ¬ Lowest pinnedProfile) :
    budget key p' < budget key p := by
  obtain ⟨c, c', hleft⟩ := exists_left h
  obtain ⟨hready, -⟩ := round_cases h
  obtain ⟨c₀, hc₀, hqueued, -, -⟩ := isChildReady_iff.mp hready
  obtain rfl := Option.some.inj (hleft.child.symm.trans hc₀)
  have hle : tierRank c.tier ≤ tierRank (resolvedTier c a.env) := by
    refine tierRank_le_resolvedTier ?_
    rwa [h.pinned]
  have htwo := tierRank_le_two (resolvedTier c a.env)
  have htwo' := tierRank_le_two c'.tier
  have hpos := p.config.attempts_pos
  generalize hm : p.config.maxTierAttempts = m at hpos
  have hbefore : budget key p = (2 - tierRank c.tier) * m + max 1 (m - c.attempts) := by
    simp [budget, budgetOf, hleft.child, hqueued, hm]
  have hmono : (2 - tierRank (resolvedTier c a.env)) * m ≤ (2 - tierRank c.tier) * m :=
    Nat.mul_le_mul_right m (by omega)
  rcases hleft.next with ⟨hready', hnext⟩ | ⟨hpaused, -⟩
  · obtain ⟨c₁, hc₁, hqueued', -, -⟩ := isChildReady_iff.mp hready'
    obtain rfl := Option.some.inj (hleft.child'.symm.trans hc₁)
    have hafter : budget key p' = (2 - tierRank c'.tier) * m + max 1 (m - c'.attempts) := by
      simp [budget, budgetOf, hleft.child', hqueued', hleft.config, hm]
    rw [hbefore, hafter]
    rcases hnext with ⟨htier, hcount, hattempts⟩ | ⟨hrank, hcount⟩
    · -- one attempt less on the tier
      rw [htier, hcount]
      omega
    · -- all attempts of the next tier, for one tier less
      have htier : (2 - tierRank c'.tier) * m + m = (2 - tierRank (resolvedTier c a.env)) * m := by
        rw [← Nat.succ_mul]
        congr 1
        omega
      rw [hcount]
      omega
  · have hafter : budget key p' = 0 := by
      simp [budget, hleft.child', hpaused]
    omega

def Waiting (key : String) (p : Pipeline) : Prop :=
  p.isChildReady key = true ∨ p.InState key .pausedForHuman

theorem waiting_round (h : Round key pinnedProfile p a p') : Waiting key p' := by
  obtain ⟨c, c', hleft⟩ := exists_left h
  rcases hleft.next with ⟨hready, -⟩ | ⟨hpaused, -⟩
  · exact .inl hready
  · exact .inr ⟨c', hleft.child', hpaused⟩

theorem climbs_of_not_lowest (hready : p.isChildReady key = true)
    (hhigh : ¬ Lowest pinnedProfile) : Climbs key pinnedProfile p where
  tier := by
    intro rounds s a s' _ hround
    obtain ⟨c, c', hleft⟩ := exists_left hround
    refine ⟨c, c', hleft.child, hleft.child', tierRank_le_resolvedTier ?_, hleft.climbs⟩
    rwa [hround.pinned]
  human := by
    intro rounds s path
    have hbudget := budget_of_ready hready
    have hlength : rounds.length + budget key s ≤ budget key p :=
      path.length_add_le (I := fun _ => True) _ (fun _ _ _ _ _ => trivial)
        (fun _ _ _ _ h => budget_round h hhigh) trivial
    have hwaiting : Waiting key s :=
      path.invariant (I := Waiting key) (fun _ _ _ _ h => waiting_round h) (.inl hready)
    rcases hwaiting with hready' | hpaused
    · have hleft := budget_of_ready hready'
      exact .inr ⟨hready', by omega⟩
    · exact .inl ⟨hpaused, by omega⟩

/-! ### A profile of the lowest tier -/

/-- What a round is given where nothing stands in its way. -/
def freely (pinnedProfile : Option String) : RoundArgs := ⟨{ pinnedProfile }, "", ""⟩

theorem dispatchChild_freely (pinnedProfile : Option String) (hready : p.isChildReady key = true) :
    (p.dispatchChild key (freely pinnedProfile).env).1.1 = true := by
  obtain ⟨c, hc, -⟩ := isChildReady_iff.mp hready
  unfold dispatchChild
  simp only [hc, hready, Bool.not_true, Bool.false_eq_true, if_false]
  by_cases hunfiled : c.unfiled = true
  · simp [canDispatchChild, postChildLease, hunfiled]
  · simp [canDispatchChild, postChildLease, hunfiled, freely]

/-- **Under a profile of the lowest tier a child can always fail once more.** -/
theorem exists_round (hready : p.isChildReady key = true) (hlow : Lowest pinnedProfile) :
    ∃ p', Round key pinnedProfile p (freely pinnedProfile) p' ∧ p'.isChildReady key = true := by
  have hok := dispatchChild_freely pinnedProfile hready
  obtain ⟨-, c, receipt, hc, hdispatch⟩ := dispatchChild_ok hok
  have hne : resolvedTier c (freely pinnedProfile).env ≠ .strong := resolvedTier_ne_strong hlow
  have hstep : ∃ p', Step (p.dispatchChild key (freely pinnedProfile).env).2
      (.reportFailed key (freely pinnedProfile).reason
        (freely pinnedProfile).updatedHandoff) p' := by
    rw [hdispatch]
    have hchild := child?_modify_self (f := claim (freely pinnedProfile).env receipt c) hc
    simp only [Step, Pipeline.call, reportFailed, hchild]
    split
    · cases htier : escalateTier (claim (freely pinnedProfile).env receipt c c).tier with
      | none => exact absurd (eq_strong_of_escalate htier) hne
      | some next => exact ⟨_, 0, rfl⟩
    · exact ⟨_, 0, rfl⟩
  obtain ⟨p', hstep⟩ := hstep
  have hround : Round key pinnedProfile p (freely pinnedProfile) p' := ⟨rfl, hok, hstep⟩
  obtain ⟨c₀, c', hleft⟩ := exists_left hround
  obtain rfl := Option.some.inj (hc.symm.trans hleft.child)
  rcases hleft.next with ⟨hready', -⟩ | ⟨-, hstrong⟩
  · exact ⟨p', hround, hready'⟩
  · exact absurd hstrong hne

theorem exists_rounds (hready : p.isChildReady key = true) (hlow : Lowest pinnedProfile) (n : ℕ) :
    ∃ s, Path (Round key pinnedProfile) p (List.replicate n (freely pinnedProfile)) s ∧
      s.isChildReady key = true := by
  induction n generalizing p with
  | zero => exact ⟨p, .nil p, hready⟩
  | succ n ih =>
    obtain ⟨p', hround, hready'⟩ := exists_round hready hlow
    obtain ⟨s, path, hs⟩ := ih hready'
    exact ⟨s, .cons hround path, hs⟩

theorem not_climbs_of_lowest (hready : p.isChildReady key = true) (hlow : Lowest pinnedProfile) :
    ¬ Climbs key pinnedProfile p := by
  intro h
  obtain ⟨s, path, hs⟩ := exists_rounds hready hlow (3 * p.config.maxTierAttempts)
  rcases h.human _ _ path with ⟨⟨c, hc, hpaused⟩, -⟩ | ⟨-, hlength⟩
  · obtain ⟨c', hc', hqueued, -⟩ := isChildReady_iff.mp hs
    obtain rfl := Option.some.inj (hc.symm.trans hc')
    rw [hpaused] at hqueued
    exact absurd hqueued (by decide)
  · simp at hlength

/-- **A failing child reaches a human exactly if the profile is not of the lowest tier.** -/
theorem climbs_iff (hready : p.isChildReady key = true) :
    Climbs key pinnedProfile p ↔ ¬ Lowest pinnedProfile :=
  ⟨fun h hlow => not_climbs_of_lowest hready hlow h, climbs_of_not_lowest hready⟩

/-- Without a pinned profile a child reaches a human. -/
theorem climbs_unpinned : Climbs "a" none twoChildren :=
  (climbs_iff (by decide +kernel)).mpr (by simp [Lowest])

/-- **Under the profile `ollama` a child fails for ever**, and one of the highest tier falls. -/
theorem not_climbs :
    (∃ c, c.tier = .strong ∧ resolvedTier c { pinnedProfile := some "ollama" } = .cli) ∧
      (∀ n, ∃ s, Path (Round "a" (some "ollama")) twoChildren
        (List.replicate n (freely (some "ollama"))) s ∧ s.isChildReady "a" = true) ∧
      ¬ Climbs "a" (some "ollama") twoChildren := by
  have hready : twoChildren.isChildReady "a" = true := by decide +kernel
  have hlow : Lowest (some "ollama") := ⟨"ollama", by decide, by decide +kernel⟩
  refine ⟨⟨(plainChild "a" 11 []).record [] |> fun c => { c with tier := .strong }, rfl, ?_⟩,
    exists_rounds hready hlow, not_climbs_of_lowest hready hlow⟩
  decide +kernel

end Executor
