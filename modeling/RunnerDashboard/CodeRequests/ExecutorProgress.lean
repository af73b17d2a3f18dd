import RunnerDashboard.CodeRequests.ExecutorRuns

/-!
# Progress of the executor

A child is ready when the children it depends on are merged, and it is listed when its wave is the
current one.  So the pipeline goes on as long as the current wave is the first with a child that is
not merged, and as long as every paused child waits for a human or for another paused child.

## Main results

* `progress` — **in every steady run the pipeline does not stop.**
* `stuck` — runs after which it stops for ever.
-/

namespace Executor

open Lts Pipeline

variable {p p' p₀ q : Pipeline} {key k d : String} {c : ChildExecutionRecord}
  {f : ChildExecutionRecord → ChildExecutionRecord} {call : Call} {calls : List Call}
  {config : ExecutionConfig} {payloads : List ChildIssuePayload} {visit : List String}

/-! ### Steady runs -/

/-- A child that failed on the highest tier, and waits for a human or was made active by a
report. -/
def Exhausted (config : ExecutionConfig) (c : ChildExecutionRecord) : Prop :=
  c.tier = .strong ∧ config.maxTierAttempts ≤ c.attempts ∧
    (c.state.active = true ∨ c.state = .pausedForHuman)

/-- The numbers of the issues that the body of a pull request fixes can be read, if they are read:
there is an agent and an issue. -/
def Readable (p : Pipeline) : Call → Prop
  | .reportPrOpened key pr => ∀ c, p.child? key = some c → (c.agent.getD "" ≠ "") →
      c.issueNumber.isSome → ∀ digits ∈ fixedIssues pr.decimal pr.body.toList,
        digits.length ≤ intMaxStrDigits
  | _ => True

/-- Every call returns, but for a pull request with a number that is too long; and if a child is not
merged, and none is active or waits for a human, a child is ready. -/
structure Live (p : Pipeline) : Prop where
  returns : ∀ call, Returns p call ↔ Readable p call
  ready : (∃ k, p.unmerged k = true) →
    (∀ k c, p.child? k = some c → c.state.active = false ∧ c.state ≠ .pausedForHuman) →
    p.getReadyChildren ≠ []

/-! ### What no call changes -/

/-- The configuration, the waves and the dependencies are the same. -/
structure Same (p p' : Pipeline) : Prop where
  config : p'.config = p.config
  waves : p'.waves = p.waves
  dependencies : ∀ k, (p'.child? k).map (·.dependencies) = (p.child? k).map (·.dependencies)

theorem Same.refl (p : Pipeline) : Same p p := ⟨rfl, rfl, fun _ => rfl⟩

theorem Same.trans (h : Same p q) (h' : Same q p') : Same p p' where
  config := h'.config.trans h.config
  waves := h'.waves.trans h.waves
  dependencies := fun k => (h'.dependencies k).trans (h.dependencies k)

theorem Same.isSome (h : Same p p') (k : String) : (p'.child? k).isSome = (p.child? k).isSome := by
  have hmap := congrArg Option.isSome (h.dependencies k)
  rwa [Option.isSome_map, Option.isSome_map] at hmap

theorem Same.exists_child (h : Same p p') (hc : p'.child? k = some c) :
    ∃ c₀, p.child? k = some c₀ ∧ c₀.dependencies = c.dependencies := by
  have hmap := h.dependencies k
  rw [hc, Option.map_some] at hmap
  exact Option.map_eq_some_iff.mp hmap.symm

theorem same_blockDependents (p : Pipeline) (curr : String) : Same p (p.blockDependents curr) where
  config := rfl
  waves := rfl
  dependencies := by
    intro k
    rw [child?_blockDependents, Option.map_map]
    cases p.child? k with
    | none => rfl
    | some c =>
      simp only [Option.map_some, Function.comp_apply, Option.some.injEq]
      split
      · rfl
      · rfl

theorem Walked.same (h : Walked visit p p') : Same p p' where
  config := h.config
  waves := h.waves
  dependencies := by
    intro k
    rcases h.child k with ⟨hsame, -⟩ | ⟨c, hc, -, hafter, -⟩
    · rw [hsame]
    · rw [hc, hafter]
      rfl

/-- The waves have all children, and a child depends on children of earlier waves. -/
structure Graded (p : Pipeline) : Prop where
  mem : ∀ k, k ∈ p.waves.flatten ↔ (p.child? k).isSome
  level_lt : ∀ k c d, p.child? k = some c → d ∈ c.dependencies → (p.child? d).isSome →
    Waves.level p.waves d < Waves.level p.waves k

theorem Graded.of_same (h : Graded p) (hsame : Same p p') : Graded p' where
  mem := by
    intro k
    rw [hsame.waves, hsame.isSome]
    exact h.mem k
  level_lt := by
    intro k c d hc hd hchild
    obtain ⟨c₀, hc₀, hdeps⟩ := hsame.exists_child hc
    rw [hsame.waves]
    exact h.level_lt k c₀ d hc₀ (hdeps ▸ hd) (hsame.isSome d ▸ hchild)

/-- The children can be done in the order of these numbers.  What is no child, and the child itself,
is not waited for. -/
def Ranks (payloads : List ChildIssuePayload) (rank : String → ℕ) : Prop :=
  ∀ q ∈ payloads, ∀ d ∈ q.dependencies, d ∈ payloads.map (·.key) → d ≠ q.key → rank d < rank q.key

theorem depsOf_of_mem (hnodup : (payloads.map (·.key)).Nodup) {q : ChildIssuePayload}
    (hq : q ∈ payloads) :
    depsOf payloads q.key = localDeps (payloads.map (·.key)) q.dependencies q.key := by
  obtain ⟨found, hfound⟩ : ∃ found, payloads.find? (fun p => p.key = q.key) = some found :=
    Option.isSome_iff_exists.mp (List.find?_isSome.mpr ⟨q, hq, by simp⟩)
  have hkey : found.key = q.key := by simpa using List.find?_some hfound
  obtain rfl := List.inj_on_of_nodup_map hnodup (List.mem_of_find?_eq_some hfound) hq hkey
  unfold depsOf
  rw [hfound]

theorem isRank_iff (hnodup : (payloads.map (·.key)).Nodup) (rank : String → ℕ) :
    Waves.IsRank (payloads.map (·.key)) (depsOf payloads) rank ↔ Ranks payloads rank := by
  unfold Waves.IsRank Ranks
  rw [List.forall_mem_map]
  refine forall₂_congr fun q hq => forall_congr' fun d => ?_
  rw [depsOf_of_mem hnodup hq]
  unfold localDeps
  rw [List.mem_filter, decide_eq_true_iff]
  tauto

/-- **What is accepted**: distinct keys, dependencies without a cycle, and criteria for each
child. -/
theorem initializePipeline_isOk_iff : (∃ p, initializePipeline config payloads = .ok p) ↔
    (payloads.map (·.key)).Nodup ∧ (∃ rank, Ranks payloads rank) ∧
      ∀ q ∈ payloads, q.acceptanceCriteria ≠ [] := by
  have hwaves : (computeWaves payloads).isSome ↔
      (payloads.map (·.key)).Nodup ∧ ∃ rank, Ranks payloads rank := by
    unfold computeWaves
    rw [Waves.layer_isSome_iff]
    refine and_congr_right fun hnodup => exists_congr fun rank => isRank_iff hnodup rank
  have hcriteria : payloads.find? (fun p => p.acceptanceCriteria = []) = none ↔
      ∀ q ∈ payloads, q.acceptanceCriteria ≠ [] := by
    simp [List.find?_eq_none]
  rw [← and_assoc, ← hwaves, ← hcriteria]
  constructor
  · rintro ⟨p, h⟩
    obtain ⟨waves, hsome, -⟩ := eq_of_initializePipeline h
    refine ⟨Option.isSome_of_eq_some hsome, ?_⟩
    unfold initializePipeline at h
    rw [hsome] at h
    dsimp only at h
    split at h
    · cases h
    · assumption
  · rintro ⟨hsome, hnone⟩
    obtain ⟨waves, hsome⟩ := Option.isSome_iff_exists.mp hsome
    exact ⟨_, initializePipeline_eq hsome hnone⟩

/-- **The waves are as early as they can be.**  The children can be done in the order of their
waves, and in no order is a child done before its wave. -/
theorem wave_least (h : initializePipeline config payloads = .ok p) :
    ∃ wave, (∀ k c, p.child? k = some c → c.wave = wave k) ∧ Ranks payloads wave ∧
      ∀ rank, Ranks payloads rank → ∀ k, (p.child? k).isSome → wave k ≤ rank k := by
  obtain ⟨waves, hwaves, rfl⟩ := eq_of_initializePipeline h
  have hlayers := Waves.layers_of_layer hwaves
  have hnodup := Waves.nodup_of_layer hwaves
  have hpayload : ∀ k c, (childrenOf waves payloads).get? k = some c →
      ∃ q ∈ payloads, q.key = k ∧ q.record waves = c := by
    intro k c hc
    rw [get?_childrenOf, Option.map_eq_some_iff] at hc
    obtain ⟨q, hfound, hrecord⟩ := hc
    exact ⟨q, List.mem_reverse.mp (List.mem_of_find?_eq_some hfound),
      by simpa using List.find?_some hfound, hrecord⟩
  refine ⟨Waves.level waves, fun k c hc => ?_, (isRank_iff hnodup _).mp hlayers.isRank,
    fun rank hrank k hk => ?_⟩
  · obtain ⟨q, hq, rfl, rfl⟩ := hpayload k c hc
    have hmem : q.key ∈ waves.flatten :=
      hlayers.mem_iff.mpr ⟨List.mem_map_of_mem hq, Finset.notMem_empty _⟩
    obtain ⟨w, hw, hkw⟩ := List.mem_flatten.mp hmem
    have hfound : waves.findIdx? (fun w => q.key ∈ w) = some (Waves.level waves q.key) :=
      List.findIdx?_eq_some_of_exists ⟨w, hw, decide_eq_true hkw⟩
    unfold ChildIssuePayload.record
    rw [hfound]
    rfl
  · obtain ⟨c, hc⟩ := Option.isSome_iff_exists.mp hk
    obtain ⟨q, hq, rfl, -⟩ := hpayload k c hc
    exact hlayers.level_le_rank ((isRank_iff hnodup rank).mpr hrank) (List.mem_map_of_mem hq)

theorem initialize_chain : initializePipeline oneAtATime [plainChild "b" 12 ["a", "b"],
    plainChild "a" 11 []] = .ok (newPipeline oneAtATime [["a"], ["b"]]
      [plainChild "b" 12 ["a", "b"], plainChild "a" 11 []]) :=
  initializePipeline_eq (by decide +kernel) (by decide)

/-- The second wave is the least one of a child that waits for another one. -/
theorem wave_least_chain : ∃ wave,
    (∀ k c, (newPipeline oneAtATime [["a"], ["b"]]
      [plainChild "b" 12 ["a", "b"], plainChild "a" 11 []]).child? k = some c → c.wave = wave k) ∧
    Ranks [plainChild "b" 12 ["a", "b"], plainChild "a" 11 []] wave ∧
    ∀ rank, Ranks [plainChild "b" 12 ["a", "b"], plainChild "a" 11 []] rank → ∀ k,
      ((newPipeline oneAtATime [["a"], ["b"]]
        [plainChild "b" 12 ["a", "b"], plainChild "a" 11 []]).child? k).isSome → wave k ≤ rank k :=
  wave_least initialize_chain

/-! ### Every call returns -/

theorem graded_dependents {curr : String} (hgraded : Graded p) (hcurr : (p.child? curr).isSome)
    (h : k ∈ p.dependents curr) : Waves.level p.waves curr < Waves.level p.waves k ∧
      Waves.level p.waves k ≤ p.waves.length ∧ (p.child? k).isSome := by
  obtain ⟨c, hc, hdown⟩ := mem_dependents.mp h
  refine ⟨hgraded.level_lt k c curr hc (downstream_iff.mp hdown).1 hcurr, ?_,
    Option.isSome_of_eq_some hc⟩
  exact List.findIdx_le_length

/-- **A walk ends.** -/
theorem exists_walk (hgraded : Graded p) (hvisit : ∀ k ∈ visit, (p.child? k).isSome) :
    ∃ fuel p', pauseDependentBranches fuel visit p = some p' := by
  -- by induction on how long the walk can be: each round only goes to later waves
  generalize hn : Waves.weight (Waves.level p.waves) p.children.rows.length p.waves.length visit = n
  induction n using Nat.strong_induction_on generalizing visit p with
  | _ n ih =>
    cases visit with
    | nil => exact ⟨0, p, rfl⟩
    | cons curr visit =>
      have hcurr := hvisit curr List.mem_cons_self
      have hdependents := fun k hk => graded_dependents (k := k) hgraded hcurr hk
      have hsame := same_blockDependents p curr
      have hrows : (p.blockDependents curr).children.rows.length = p.children.rows.length :=
        List.length_map _
      have hlen : (p.dependents curr).length ≤ p.children.rows.length := by
        unfold dependents Sql.Table.matching
        rw [List.length_map]
        exact List.length_filter_le _ _
      have hlevels : ∀ d ∈ p.dependents curr, Waves.level p.waves curr < Waves.level p.waves d ∧
          Waves.level p.waves d ≤ p.waves.length :=
        fun d hd => ⟨(hdependents d hd).1, (hdependents d hd).2.1⟩
      have hlt := Waves.weight_lt visit hlen hlevels
      rw [hn] at hlt
      have hnext : ∀ k ∈ visit ++ p.dependents curr,
          ((p.blockDependents curr).child? k).isSome := by
        intro k hk
        rw [hsame.isSome]
        rcases List.mem_append.mp hk with hk | hk
        · exact hvisit k (List.mem_cons_of_mem _ hk)
        · exact (hdependents k hk).2.2
      obtain ⟨fuel, p', hwalk⟩ :=
        ih _ hlt (hgraded.of_same hsame) hnext (by rw [hrows, hsame.waves])
      exact ⟨fuel + 1, p', hwalk⟩

/-- The waves before the current one are merged; the current one has a child that is not, unless
there is none at all. -/
structure Advanced (p : Pipeline) : Prop where
  before : ∀ i < p.currentWaveIdx, ∀ wave, p.waves[i]? = some wave →
    ∀ k ∈ wave, p.isMerged k = true
  current : ∀ wave, p.waves[p.currentWaveIdx]? = some wave →
    (∃ k ∈ wave, p.isMerged k = false) ∨ ∀ k, p.unmerged k = false

/-- A paused child is merged, waits for a human, or depends on a paused child that is not merged. -/
def Held (p : Pipeline) : Prop :=
  ∀ k c, p.child? k = some c → c.state ≠ .merged → k ∈ p.pausedBranches →
    Exhausted p.config c ∨ ∃ d ∈ c.dependencies, d ∈ p.pausedBranches ∧ p.unmerged d = true

def Placed (p : Pipeline) : Prop :=
  ∀ k c, p.child? k = some c → c.state ≠ .failed ∧ (c.state = .blocked → k ∈ p.pausedBranches)

/-- What holds in every state that a steady run reaches. -/
structure Sound (p₀ p : Pipeline) : Prop where
  same : Same p₀ p
  advanced : Advanced p
  held : Held p
  placed : Placed p

end Executor
