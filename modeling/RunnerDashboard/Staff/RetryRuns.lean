import Mathlib.Data.Finset.Prod
import RunnerDashboard.Lib.Height
import RunnerDashboard.Lib.Path
import RunnerDashboard.Staff.Retry

/-!
# Chains of attempts

Every attempt may fail with any class, and each failure may schedule the next attempt.  A retry uses
up an attempt of the limit, and a failover uses up a slot.  A fallback uses up nothing: it raises
the limit by one, and nothing records where it came from.  So a chain ends if the fallbacks of the
role do not lead in a circle.

## Main results

* `bounded_iff_acyclic` — **the chains are bounded exactly if the fallbacks lead in no circle.**
-/

namespace Retry

open Lts Relation

/-! ### Chains -/

/-- A root run, with its first attempt and what its launch has put into the chain log. -/
def Attempts.root (position : Position) (tier : Option Tier) (maxAttempts : Int)
    (log : List LogEntry) : Attempts :=
  let first : Attempt := ⟨position.1, position.2, tier, 1, maxAttempts⟩
  ⟨first, [first], log⟩

section Steps

variable (F : Fleet) (role : Role) (possible : Probe → Prop)

/-- The latest attempt fails with the class, and another one is scheduled; the node is as it may
be, and the budget allows it. -/
def AttemptStep (s : Attempts) (fc : FailureClass) (s' : Attempts) : Prop :=
  ∃ e, possible e ∧ e.canRun = true ∧
    handlePostExecutionRetry F role e fc s = (.scheduled, s')

def Edge (p q : Position) : Prop := ∃ e, possible e ∧ FallbackEdge F role e p q

def fallbackModels : List (Option String) :=
  role.providerFallbacks.flatMap fun rule =>
    (F.resolveModel rule.target.provider rule.target.requested none role.tier).toList ++
      (F.resolveModel rule.target.provider rule.target.requested role.model role.tier).toList

def positions (model : Option String) : Finset Position :=
  F.adapters.toFinset ×ˢ insert model (fallbackModels F role).toFinset

def maxPositions : ℕ := F.adapters.length * (2 * role.providerFallbacks.length + 1)

/-- The retries that are left.  A limit below one grows with the fallbacks, until it is zero and
the limit of the role counts. -/
def retriesLeft (attempt : ℕ) (maxAttempts : Int) : ℕ :=
  if 1 ≤ maxAttempts then (maxAttempts - attempt).toNat
  else (role.limit 0 - (attempt - maxAttempts)).toNat

def slots : Finset String :=
  (F.adapters.toFinset ×ˢ {Tier.routine, .standard, .complex}).image fun x => slotKey x.1 (some x.2)

/-- The slots that were not tried, and one if the tier is below the tier of the role. -/
def slotsLeft (s : Attempts) : ℕ :=
  (slots F \ s.tried.toFinset).card +
    if (s.latest.activeTier role).index < role.tier.index then 1 else 0

def bound (maxAttempts : Int) : ℕ :=
  retriesLeft role 1 maxAttempts + (3 * F.adapters.length + 1) * (maxPositions F role + 1) +
    maxPositions F role

def Bounded : Prop :=
  ∀ position tier maxAttempts log fcs s,
    Path (AttemptStep F role possible) (.root position tier maxAttempts log) fcs s →
      fcs.length ≤ bound F role maxAttempts

/-- The retries, the slots and the fallbacks that are left. -/
noncomputable def potential (s : Attempts) : ℕ :=
  retriesLeft role s.latest.attempt s.latest.maxAttempts +
    slotsLeft F role s * (maxPositions F role + 1) +
    height (Edge F role possible) (positions F role s.latest.model) s.latest.position

end Steps

section Runs

variable {F : Fleet} {role : Role} {possible : Probe → Prop} {e : Probe} {s s' : Attempts}
  {next : Attempt} {fc : FailureClass} {p q : Position} {tier : Tier}

/-! ### Fallbacks -/

theorem mem_positions_of_edge (h : Edge F role possible p q) : q ∈ positions F role p.2 := by
  obtain ⟨e, -, -, husable, -, htarget⟩ := h
  unfold fallbackUsable canRunUnattended at husable
  rw [Bool.and_eq_true, Bool.and_eq_true] at husable
  refine Finset.mem_product.mpr ⟨List.mem_toFinset.mpr (of_decide_eq_true husable.1.1), ?_⟩
  rcases htarget with ⟨fc, rule, hrule, hprovider, hmodel⟩ | ⟨-, hmodel⟩
  · refine Finset.mem_insert_of_mem (List.mem_toFinset.mpr (List.mem_flatMap.mpr ⟨rule, ?_, ?_⟩))
    · unfold matchProviderFallback at hrule
      split_ifs at hrule
      exact List.mem_of_find?_eq_some hrule
    · unfold resolveFallbackTargetModel at hmodel
      split_ifs at hmodel
      · exact List.mem_append_right _ (Option.mem_toList.mpr hmodel)
      · exact List.mem_append_left _ (Option.mem_toList.mpr hmodel)
  · rw [hmodel]
    exact Finset.mem_insert_self _ _

/-- The positions after a fallback are among those before it. -/
theorem positions_subset_of_edge (h : Edge F role possible p q) :
    positions F role q.2 ⊆ positions F role p.2 := by
  refine Finset.product_subset_product_right (Finset.insert_subset ?_ (Finset.subset_insert _ _))
  exact (Finset.mem_product.mp (mem_positions_of_edge h)).2

theorem card_positions_le (model : Option String) :
    (positions F role model).card ≤ maxPositions F role := by
  have hmodels : (fallbackModels F role).length ≤ 2 * role.providerFallbacks.length := by
    unfold fallbackModels
    induction role.providerFallbacks with
    | nil => exact Nat.le_refl 0
    | cons rule rules ih =>
      rw [List.flatMap_cons, List.length_append, List.length_append, List.length_cons]
      have hone : ∀ o : Option (Option String), o.toList.length ≤ 1 := by
        intro o
        cases o with
        | none => exact Nat.zero_le 1
        | some x => exact Nat.le_refl 1
      have h₁ := hone (F.resolveModel rule.target.provider rule.target.requested none role.tier)
      have h₂ := hone (F.resolveModel rule.target.provider rule.target.requested role.model
        role.tier)
      omega
  unfold positions maxPositions
  rw [Finset.card_product]
  refine Nat.mul_le_mul (List.toFinset_card_le _) ?_
  refine (Finset.card_insert_le _ _).trans ?_
  have := List.toFinset_card_le (fallbackModels F role)
  omega

/-- **A fallback lowers the height.** -/
theorem height_edge_lt (hacyclic : Acyclic (Edge F role possible)) (h : Edge F role possible p q) :
    height (Edge F role possible) (positions F role q.2) q <
      height (Edge F role possible) (positions F role p.2) p :=
  height_lt hacyclic (positions_subset_of_edge h) (mem_positions_of_edge h) h

theorem height_le_maxPositions (p : Position) :
    height (Edge F role possible) (positions F role p.2) p ≤ maxPositions F role :=
  (height_le _ _ _).trans (card_positions_le _)

/-! ### Retries -/

/-- **A retry below the limit** uses up a retry. -/
theorem retriesLeft_retry {attempt : ℕ} {maxAttempts : Int} (hone : 1 ≤ attempt)
    (hbelow : (attempt : Int) < role.limit maxAttempts) :
    retriesLeft role (attempt + 1) maxAttempts < retriesLeft role attempt maxAttempts := by
  unfold retriesLeft
  split_ifs with hmax
  · rw [Role.limit, if_pos (by omega)] at hbelow
    omega
  · -- a negative limit is below every attempt
    have hzero : maxAttempts = 0 := by
      by_contra hne
      rw [Role.limit, if_pos hne] at hbelow
      omega
    rw [hzero] at hbelow ⊢
    omega

/-- A fallback raises the limit with the attempt, and gives no retry back. -/
theorem retriesLeft_fallback {attempt : ℕ} {maxAttempts : Int} (hone : 1 ≤ attempt) :
    retriesLeft role (attempt + 1) (maxAttempts + 1) ≤ retriesLeft role attempt maxAttempts := by
  unfold retriesLeft
  split_ifs with hnext hmax
  · omega
  · omega
  · omega
  · omega

/-! ### Slots -/

theorem untried_subset (h : s.tried ⊆ s'.tried) :
    slots F \ s'.tried.toFinset ⊆ slots F \ s.tried.toFinset := by
  intro k hk
  obtain ⟨hslot, hnew⟩ := Finset.mem_sdiff.mp hk
  exact Finset.mem_sdiff.mpr ⟨hslot, fun hold => hnew
    (List.mem_toFinset.mpr (h (List.mem_toFinset.mp hold)))⟩

def AtLeast (role : Role) (a : Attempt) : Prop := ¬ (a.activeTier role).index < role.tier.index

theorem atLeast_none (provider : String) (model : Option String) (attempt : ℕ) (maxAttempts : Int) :
    AtLeast role ⟨provider, model, none, attempt, maxAttempts⟩ := Nat.lt_irrefl _

theorem atLeast_max (provider : String) (model : Option String) (tier : Tier) (attempt : ℕ)
    (maxAttempts : Int) :
    AtLeast role ⟨provider, model, some (role.tier.max tier), attempt, maxAttempts⟩ := by
  unfold AtLeast Attempt.activeTier Tier.max
  dsimp only [Option.getD_some]
  split_ifs with hlt
  · omega
  · omega

theorem slotsLeft_le (hfollows : Follows s s' next) (hleast : AtLeast role next) :
    slotsLeft F role s' ≤ slotsLeft F role s := by
  unfold slotsLeft
  rw [hfollows.latest, if_neg hleast]
  exact (Finset.card_le_card (untried_subset hfollows.tried)).trans (Nat.le_add_right _ _)

theorem mem_tiers (t : Tier) : t ∈ ({.routine, .standard, .complex} : Finset Tier) := by
  cases t
  · decide
  · decide
  · decide

theorem index_le_of_mem_up {t t' : Tier} (h : t' ∈ t.up) : t.index ≤ t'.index := by
  cases t <;> cases t' <;> first | decide | exact absurd h (by decide)

/-- **A failover uses up a slot**, or raises the tier to the tier of the role. -/
theorem slotsLeft_lt (hadapter : q.1 ∈ F.adapters) (hactive : tier ∈ (s.latest.activeTier role).up)
    (hfree : slotKey q.1 (some tier) ∉ s.tried) {attempt : ℕ} {maxAttempts : Int}
    (hfollows : Follows s s' ⟨q.1, q.2, some (role.tier.max tier), attempt, maxAttempts⟩) :
    slotsLeft F role s' < slotsLeft F role s := by
  have hsub := untried_subset (F := F) hfollows.tried
  have hle := index_le_of_mem_up hactive
  unfold slotsLeft
  rw [hfollows.latest, if_neg (atLeast_max _ _ _ _ _)]
  by_cases hlow : tier.index < role.tier.index
  · rw [if_pos (hle.trans_lt hlow)]
    exact Nat.lt_succ_of_le (Finset.card_le_card hsub)
  · -- the slot of the new row is the slot that was picked
    have htier : role.tier.max tier = tier := by
      unfold Tier.max
      split_ifs with hlt
      · rfl
      · cases hr : role.tier <;> cases tier <;> rw [hr] at hlow hlt <;>
          first | rfl | exact absurd (by decide) hlow | exact absurd (by decide) hlt
    refine Nat.lt_of_lt_of_le (Finset.card_lt_card ?_) (Nat.le_add_right _ _)
    refine (Finset.ssubset_iff_of_subset hsub).mpr ⟨slotKey q.1 (some tier), ?_, ?_⟩
    · refine Finset.mem_sdiff.mpr ⟨Finset.mem_image.mpr ⟨(q.1, tier), ?_, rfl⟩, ?_⟩
      · exact Finset.mem_product.mpr ⟨List.mem_toFinset.mpr hadapter, mem_tiers tier⟩
      · exact fun hold => hfree (List.mem_toFinset.mp hold)
    · intro hk
      refine (Finset.mem_sdiff.mp hk).2 (List.mem_toFinset.mpr (List.mem_append_right _ ?_))
      rw [hfollows.rows, List.map_append, htier]
      exact List.mem_append_right _ (List.mem_singleton_self _)

theorem card_slots_le : (slots F).card ≤ 3 * F.adapters.length := by
  refine Finset.card_image_le.trans ?_
  rw [Finset.card_product]
  have := List.toFinset_card_le F.adapters
  have htiers : ({Tier.routine, .standard, .complex} : Finset Tier).card = 3 := rfl
  rw [htiers]
  omega

/-! ### The potential -/

theorem attempt_scheduled (h : Scheduled F role e s s') :
    s'.latest.attempt = s.latest.attempt + 1 := by
  cases h with
  | retry _ follows => rw [follows.latest]
  | fallback q _ follows => rw [follows.latest]
  | failover q tier _ _ _ follows => rw [follows.latest]

/-- **Every scheduled attempt lowers the potential.** -/
theorem potential_lt (hacyclic : Acyclic (Edge F role possible)) (hone : 1 ≤ s.latest.attempt)
    (hpossible : possible e) (h : Scheduled F role e s s') :
    potential F role possible s' < potential F role possible s := by
  unfold potential
  cases h with
  | retry below follows =>
    have hretries := retriesLeft_retry hone below
    have hslots : slotsLeft F role s' ≤ slotsLeft F role s :=
      slotsLeft_le follows (atLeast_none _ _ _ _)
    have hmul := Nat.mul_le_mul_right (maxPositions F role + 1) hslots
    rw [follows.latest]
    -- the position is the same
    change retriesLeft role (s.latest.attempt + 1) s.latest.maxAttempts + _ +
      height (Edge F role possible) (positions F role s.latest.model) s.latest.position < _
    omega
  | fallback q edge follows =>
    have hretries : retriesLeft role (s.latest.attempt + 1) (s.latest.maxAttempts + 1) ≤
        retriesLeft role s.latest.attempt s.latest.maxAttempts := retriesLeft_fallback hone
    have hslots : slotsLeft F role s' ≤ slotsLeft F role s :=
      slotsLeft_le follows (atLeast_none _ _ _ _)
    have hmul := Nat.mul_le_mul_right (maxPositions F role + 1) hslots
    have hheight := height_edge_lt hacyclic ⟨e, hpossible, edge⟩
    rw [follows.latest]
    change retriesLeft role (s.latest.attempt + 1) (s.latest.maxAttempts + 1) + _ +
      height (Edge F role possible) (positions F role q.2) q < _
    change _ < height (Edge F role possible) (positions F role s.latest.model) _ at hheight
    omega
  | failover q tier adapter active free follows =>
    have hretries : retriesLeft role (s.latest.attempt + 1) (s.latest.maxAttempts + 1) ≤
        retriesLeft role s.latest.attempt s.latest.maxAttempts := retriesLeft_fallback hone
    have hslots := slotsLeft_lt adapter active free follows
    have hmul := Nat.mul_le_mul_right (maxPositions F role + 1) (Nat.succ_le_of_lt hslots)
    rw [Nat.succ_mul] at hmul
    -- the position may be any: the slot pays for its height
    have hheight : height (Edge F role possible) (positions F role q.2) q ≤ maxPositions F role :=
      height_le_maxPositions q
    rw [follows.latest]
    change retriesLeft role (s.latest.attempt + 1) (s.latest.maxAttempts + 1) + _ +
      height (Edge F role possible) (positions F role q.2) q < _
    omega

theorem potential_root_le (position : Position) (t : Option Tier) (maxAttempts : Int)
    (log : List LogEntry) :
    potential F role possible (.root position t maxAttempts log) ≤ bound F role maxAttempts := by
  have hslots : slotsLeft F role (.root position t maxAttempts log) ≤
    3 * F.adapters.length + 1 := by
    unfold slotsLeft
    have hcard : (slots F \ (Attempts.root position t maxAttempts log).tried.toFinset).card ≤
        3 * F.adapters.length := (Finset.card_le_card Finset.sdiff_subset).trans card_slots_le
    split_ifs with hlow
    · exact Nat.add_le_add_right hcard 1
    · exact Nat.le_succ_of_le hcard
  have hmul := Nat.mul_le_mul_right (maxPositions F role + 1) hslots
  have hheight : height (Edge F role possible) (positions F role position.2) position ≤
      maxPositions F role := height_le_maxPositions position
  unfold potential bound
  exact Nat.add_le_add (Nat.add_le_add_left hmul _) hheight

/-- **Without a circle the chains are bounded.** -/
theorem bounded_of_acyclic (hacyclic : Acyclic (Edge F role possible)) :
    Bounded F role possible := by
  intro position t maxAttempts log fcs s p
  refine (Path.length_le (potential F role possible) (I := fun s => 1 ≤ s.latest.attempt)
    ?_ ?_ p (Nat.le_refl 1)).trans (potential_root_le position t maxAttempts log)
  · rintro s fc s' hone ⟨e, -, -, hstep⟩
    rw [attempt_scheduled (handle_scheduled hstep)]
    omega
  · rintro s fc s' hone ⟨e, hpossible, -, hstep⟩
    exact potential_lt hacyclic hone hpossible (handle_scheduled hstep)

/-! ### Circles -/

/-- The retries of the attempt are used up, and no row has a later number. -/
structure Spent (s : Attempts) : Prop where
  pos : 1 ≤ s.latest.maxAttempts
  spent : s.latest.maxAttempts ≤ s.latest.attempt
  rows : ∀ row ∈ s.rows, row.attempt ≤ s.latest.attempt

theorem Spent.shouldRetry_eq (h : Spent s) (e : Probe) (fc : FailureClass) :
    shouldRetry role e s.latest fc = false := by
  unfold shouldRetry
  have hpos := h.pos
  have hlimit : role.limit s.latest.maxAttempts ≤ s.latest.attempt := by
    unfold Role.limit
    rw [if_pos (by omega)]
    exact h.spent
  rw [decide_eq_false (not_lt.mpr hlimit), Bool.and_false, Bool.false_and]

/-- The next attempt can be claimed, and its retries are used up as well. -/
theorem Spent.schedule_eq (h : Spent s) (q : Position) :
    ∃ s', schedule ⟨q.1, q.2, none, s.latest.attempt + 1, s.latest.maxAttempts + 1⟩ s =
      (some .scheduled, s') ∧ s'.latest.position = q ∧ Spent s' := by
  have hnew : s.latest.attempt + 1 ∉ s.rows.map Attempt.attempt := by
    intro hmem
    obtain ⟨row, hrow, heq⟩ := List.mem_map.mp hmem
    have := h.rows row hrow
    omega
  have hpos := h.pos
  have hspent := h.spent
  let next : Attempt := ⟨q.1, q.2, none, s.latest.attempt + 1, s.latest.maxAttempts + 1⟩
  refine ⟨{ s with latest := next, rows := s.rows ++ [next] }, ?_, rfl, ?_, ?_, ?_⟩
  · unfold schedule claim
    rw [if_neg hnew]
  · show 1 ≤ s.latest.maxAttempts + 1
    omega
  · show s.latest.maxAttempts + 1 ≤ ((s.latest.attempt + 1 : ℕ) : Int)
    omega
  · intro row hrow
    show row.attempt ≤ s.latest.attempt + 1
    rcases List.mem_append.mp hrow with hold | hnext
    · exact Nat.le_succ_of_le (h.rows row hold)
    · rw [List.mem_singleton.mp hnext]

theorem firstAnswer_none {f : Attempts → Answer} {fs : List (Attempts → Answer)}
    (h : f s = (none, s')) : firstAnswer (f :: fs) s = firstAnswer fs s' := by
  rw [firstAnswer, h]

theorem firstAnswer_some {f : Attempts → Answer} {fs : List (Attempts → Answer)}
    {verdict : Verdict} (h : f s = (some verdict, s')) :
    firstAnswer (f :: fs) s = (verdict, s') := by
  rw [firstAnswer, h]

theorem handle_declarative (h : Spent s) {rule : FallbackRule} {model : Option String}
    (hrule : matchProviderFallback role.providerFallbacks fc s.latest.provider true = some rule)
    (hcan : e.canRun = true) (husable : fallbackUsable F role e rule.target.provider = true)
    (hmodel : resolveFallbackTargetModel F role rule.target s.latest.provider = some model)
    (hbuilds : F.builds rule.target.provider model = true) :
    ∃ s', handlePostExecutionRetry F role e fc s = (.scheduled, s') ∧
      s'.latest.position = (rule.target.provider, model) ∧ Spent s' := by
  obtain ⟨s', hschedule, hnext⟩ := h.schedule_eq (rule.target.provider, model)
  refine ⟨s', ?_, hnext⟩
  have htry : ∀ exhausted, matchProviderFallback role.providerFallbacks fc s.latest.provider
      exhausted = some rule →
      tryDeclarativeFallback F role e fc exhausted s = (some .scheduled, s') := by
    intro exhausted hmatch
    unfold tryDeclarativeFallback
    rw [hmatch]
    dsimp only
    rw [if_neg (by rw [husable]; decide), if_neg (by rw [hcan]; decide), hmodel]
    dsimp only
    rw [if_neg (by rw [hbuilds]; decide)]
    exact hschedule
  unfold handlePostExecutionRetry
  by_cases hnow : fc ∈ immediateClasses
  · refine firstAnswer_some (htry false ?_)
    rw [← hrule]
    unfold matchProviderFallback
    rw [if_neg (c := fc ∉ immediateClasses ∧ false = false) fun hlate => hlate.1 hnow,
      if_neg (c := fc ∉ immediateClasses ∧ true = false) fun hlate => hlate.1 hnow]
  · have hfailover : fc ∈ failoverClasses := by
      unfold matchProviderFallback at hrule
      split_ifs at hrule with hclass
      exact hclass
    -- only a rate limit waits for the retries
    have hrate : fc = .rateLimited := by
      cases fc <;> first | rfl | exact absurd (by decide) hnow | exact absurd hfailover (by decide)
    have hdecl : tryDeclarativeFallback F role e fc false s = (none, s) := by
      unfold tryDeclarativeFallback matchProviderFallback
      rw [if_neg (not_not.mpr hfailover), if_pos ⟨hnow, rfl⟩]
    have hchain : tryChainFailover F role e fc false s = (none, s) := by
      unfold tryChainFailover
      rw [if_neg (not_not.mpr hfailover), if_pos ⟨hnow, rfl, hrate⟩]
    have hsame : trySameProvider role e fc s = (none, s) := by
      unfold trySameProvider
      rw [if_pos (h.shouldRetry_eq e fc)]
    rw [firstAnswer_none hdecl, firstAnswer_none hchain, firstAnswer_none hsame,
      firstAnswer_some (htry true hrule)]

theorem handle_legacy (h : Spent s) {p : String}
    (hnext : nextFallbackProvider F role e s.latest.provider = some p) (hcan : e.canRun = true)
    (hbuilds : F.builds p s.latest.model = true) :
    ∃ s', handlePostExecutionRetry F role e .providerError s = (.scheduled, s') ∧
      s'.latest.position = (p, s.latest.model) ∧ Spent s' := by
  obtain ⟨s', hschedule, hspent⟩ := h.schedule_eq (p, s.latest.model)
  refine ⟨s', ?_, hspent⟩
  have hdecl : ∀ exhausted, tryDeclarativeFallback F role e .providerError exhausted s =
      (none, s) := by
    intro exhausted
    rfl
  have hchain : ∀ exhausted, tryChainFailover F role e .providerError exhausted s = (none, s) := by
    intro exhausted
    rfl
  have hsame : trySameProvider role e .providerError s = (none, s) := by
    unfold trySameProvider
    rw [if_pos (h.shouldRetry_eq e .providerError)]
  have hlegacy : tryLegacyFallback F role e .providerError s = (some .scheduled, s') := by
    unfold tryLegacyFallback
    rw [if_neg (by decide), hnext]
    dsimp only
    rw [if_neg (by rw [hcan]; decide), if_neg (by rw [hbuilds]; decide)]
    exact hschedule
  unfold handlePostExecutionRetry
  rw [firstAnswer_none (hdecl false), firstAnswer_none (hchain false), firstAnswer_none hsame,
    firstAnswer_none (hdecl true), firstAnswer_none (hchain true), firstAnswer_some hlegacy]

/-- **Every fallback is followed**, once the retries are used up. -/
theorem exists_step (h : Spent s) (hedge : Edge F role possible s.latest.position q) :
    ∃ fc s', AttemptStep F role possible s fc s' ∧ s'.latest.position = q ∧ Spent s' := by
  obtain ⟨e, hpossible, hcan, husable, hbuilds, htarget⟩ := hedge
  rcases htarget with ⟨fc, rule, hrule, hprovider, hmodel⟩ | ⟨hnext, hmodel⟩
  · rw [← hprovider] at husable hbuilds
    obtain ⟨s', hhandle, hposition, hspent⟩ :=
      handle_declarative h hrule hcan husable hmodel hbuilds
    exact ⟨fc, s', ⟨e, hpossible, hcan, hhandle⟩, hposition.trans (Prod.ext hprovider rfl), hspent⟩
  · rw [hmodel] at hbuilds
    obtain ⟨s', hhandle, hposition, hspent⟩ := handle_legacy h hnext hcan hbuilds
    exact ⟨.providerError, s', ⟨e, hpossible, hcan, hhandle⟩,
      hposition.trans (Prod.ext rfl hmodel.symm), hspent⟩

/-- **On a circle of fallbacks there is a chain of every length.** -/
theorem exists_chain (hcycle : TransGen (Edge F role possible) p p) (n : ℕ) (h : Spent s)
    (hreach : ReflTransGen (Edge F role possible) s.latest.position p) :
    ∃ fcs s', Path (AttemptStep F role possible) s fcs s' ∧ fcs.length = n := by
  induction n generalizing s with
  | zero => exact ⟨[], s, .nil s, rfl⟩
  | succ n ih =>
    obtain ⟨q, hedge, hq⟩ := exists_next_of_cycle hcycle hreach
    obtain ⟨fc, s', hstep, hposition, hspent⟩ := exists_step h hedge
    obtain ⟨fcs, s'', hpath, hlength⟩ := ih hspent (hposition ▸ hq)
    exact ⟨fc :: fcs, s'', .cons hstep hpath, congrArg Nat.succ hlength⟩

theorem spent_root (position : Position) (t : Option Tier) (log : List LogEntry) :
    Spent (.root position t 1 log) where
  pos := Int.le_refl 1
  spent := Int.le_refl 1
  rows := by
    intro row hrow
    rw [List.mem_singleton.mp hrow]
    exact Nat.le_refl 1

end Runs

/-! ### When the chains are bounded -/

/-- **The chains are bounded exactly if the fallbacks of the role lead in no circle.** -/
theorem bounded_iff_acyclic (F : Fleet) (role : Role) (possible : Probe → Prop) :
    Bounded F role possible ↔ Acyclic (Edge F role possible) := by
  constructor
  · intro hbounded p hcycle
    obtain ⟨fcs, s', hpath, hlength⟩ :=
      exists_chain hcycle (bound F role 1 + 1) (spent_root p none []) .refl
    have := hbounded p none 1 [] fcs s' hpath
    omega
  · exact bounded_of_acyclic

def twoAgents : Fleet where
  adapters := ["claude", "codex"]
  defaultChain := []
  tierModel := fun _ _ => none
  resolveModel := fun _ _ _ _ => some none
  builds := fun _ _ => true

def eitherAgent : Role where
  providers := ["claude", "codex"]
  model := none
  tier := .standard
  codeReadOnly := false
  allowTierEscalation := false
  maxAttempts := 1
  fallbackProviders := ["claude", "codex"]
  providerFallbacks := []
  failoverChain := []

/-- The budget is not used up, and both can be used. -/
def bothUsable : Probe where
  canRun := true
  unattended := fun _ => true
  installed := fun _ => true
  cooling := fun _ => false
  active := none

/-- Two providers that fall back to each other are tried without an end. -/
theorem retried_forever :
    ¬ ∀ (F : Fleet) (role : Role) (possible : Probe → Prop) (maxAttempts : Int), ∃ N : ℕ,
      ∀ position tier log fcs s,
        Path (AttemptStep F role possible) (.root position tier maxAttempts log) fcs s →
          fcs.length ≤ N := by
  intro hall
  obtain ⟨N, hN⟩ := hall twoAgents eitherAgent (· = bothUsable) 1
  have hthere : Edge twoAgents eitherAgent (· = bothUsable) ("claude", none) ("codex", none) :=
    ⟨bothUsable, rfl, rfl, by decide, rfl, .inr ⟨by decide, rfl⟩⟩
  have hback : Edge twoAgents eitherAgent (· = bothUsable) ("codex", none) ("claude", none) :=
    ⟨bothUsable, rfl, rfl, by decide, rfl, .inr ⟨by decide, rfl⟩⟩
  obtain ⟨fcs, s', hpath, hlength⟩ :=
    exists_chain (.head hthere (.single hback)) (N + 1)
      (spent_root ("claude", none) none []) .refl
  have := hN _ _ _ fcs s' hpath
  omega

end Retry
