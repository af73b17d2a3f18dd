import Mathlib.Algebra.Order.BigOperators.Group.List
import Mathlib.Algebra.Order.Group.Nat
import Mathlib.Algebra.Order.Ring.Nat
import Mathlib.Data.Finset.Card
import Mathlib.Data.Finset.Dedup
import Mathlib.Data.Finset.Max
import Mathlib.Data.List.Nodup

/-!
# Dependency waves

The keys of a list are layered into waves: a wave has the keys whose dependencies are all in the
waves before it.  Where a wave would be empty, the rest is on a cycle or depends on an unknown key.

## Main definitions

* `Waves.wave` — the keys that are ready after some keys are done.
* `Waves.layer` — all waves, `none` where a wave is empty.
* `Waves.Layers` — what the waves are, as a relation.
* `Waves.level` — the number of the wave of a key.
* `Waves.weight` — how long a walk that has some keys to visit can be.

## Main results

* `Waves.layers_of_layer` — the waves that are computed.
* `Waves.Layers.mem_iff` — **every key is in a wave**, if it was not done before.
* `Waves.Layers.deps_before` — **the dependencies of a key are in earlier waves.**
* `Waves.Layers.level_lt` — so they have a smaller level.
* `Waves.nodup_of_layer` — no key is there twice, where all waves are found.
* `Waves.layer_isSome_iff` — **the waves are found** exactly where the keys have a rank.
* `Waves.Layers.level_le_rank` — no key is in a wave too late.
* `Waves.weight_lt` — **a walk ends**: to visit a key makes it lighter.
-/

namespace Waves

variable {κ : Type*} [DecidableEq κ]

/-- The keys that are not done and depend only on keys that are. -/
def wave (order : List κ) (deps : κ → List κ) (done : Finset κ) : List κ :=
  order.filter fun k => k ∉ done ∧ ∀ d ∈ deps k, d ∈ done

/-- The waves after some keys are done, in at most `fuel` rounds. -/
def layerFrom (order : List κ) (deps : κ → List κ) : ℕ → Finset κ → Option (List (List κ))
  | 0, done => if done.card < order.length then none else some []
  | fuel + 1, done =>
    if done.card < order.length then
      if wave order deps done = [] then none
      else (layerFrom order deps fuel (done ∪ (wave order deps done).toFinset)).map
        (wave order deps done :: ·)
    else some []

/-- All waves. -/
def layer (order : List κ) (deps : κ → List κ) : Option (List (List κ)) :=
  layerFrom order deps order.length ∅

/-- The waves after some keys are done, as a relation. -/
inductive Layers (order : List κ) (deps : κ → List κ) : Finset κ → List (List κ) → Prop
  /-- All keys are done. -/
  | nil {done : Finset κ} (h : ∀ k ∈ order, k ∈ done) : Layers order deps done []
  | cons {done : Finset κ} {ws : List (List κ)} (hne : wave order deps done ≠ [])
      (h : Layers order deps (done ∪ (wave order deps done).toFinset) ws) :
      Layers order deps done (wave order deps done :: ws)

variable {order : List κ} {deps : κ → List κ} {done : Finset κ} {ws : List (List κ)} {w : List κ}
  {k d : κ} {fuel : ℕ}

theorem mem_wave : k ∈ wave order deps done ↔ k ∈ order ∧ k ∉ done ∧ ∀ d ∈ deps k, d ∈ done := by
  unfold wave
  rw [List.mem_filter, decide_eq_true_iff]

/-- A set of keys that is not smaller than the list of all keys is all of them. -/
theorem mem_of_card_le (hsub : done ⊆ order.toFinset) (hcard : order.length ≤ done.card)
    (hk : k ∈ order) : k ∈ done := by
  have hle : order.toFinset.card ≤ order.length := order.toFinset_card_le
  have heq : done = order.toFinset := Finset.eq_of_subset_of_card_le hsub (by omega)
  rw [heq]
  exact List.mem_toFinset.mpr hk

theorem union_wave_subset (hsub : done ⊆ order.toFinset) :
    done ∪ (wave order deps done).toFinset ⊆ order.toFinset := by
  refine Finset.union_subset hsub ?_
  intro k hk
  exact List.mem_toFinset.mpr (mem_wave.mp (List.mem_toFinset.mp hk)).1

theorem layers_of_layerFrom (hsub : done ⊆ order.toFinset)
    (h : layerFrom order deps fuel done = some ws) : Layers order deps done ws := by
  induction fuel generalizing done ws with
  | zero =>
    unfold layerFrom at h
    split_ifs at h with hcard
    obtain rfl := Option.some.inj h
    exact .nil fun k hk => mem_of_card_le hsub (not_lt.mp hcard) hk
  | succ fuel ih =>
    unfold layerFrom at h
    split_ifs at h with hcard hne
    · obtain ⟨ws', hws', rfl⟩ := Option.map_eq_some_iff.mp h
      exact .cons hne (ih (union_wave_subset hsub) hws')
    · obtain rfl := Option.some.inj h
      exact .nil fun k hk => mem_of_card_le hsub (not_lt.mp hcard) hk

/-- **The waves that are computed.** -/
theorem layers_of_layer (h : layer order deps = some ws) : Layers order deps ∅ ws :=
  layers_of_layerFrom (Finset.empty_subset _) h

/-- No key is there twice, where all keys are done in the end. -/
theorem nodup_of_layerFrom (hsub : done ⊆ order.toFinset)
    (h : layerFrom order deps fuel done = some ws) : order.Nodup := by
  have hfinish : ∀ {done : Finset κ}, done ⊆ order.toFinset → ¬ done.card < order.length →
      order.Nodup := by
    intro done hsub hcard
    have hle := Finset.card_le_card hsub
    rw [List.card_toFinset] at hle
    have heq : order.dedup = order := (List.dedup_sublist order).eq_of_length_le (by omega)
    exact heq ▸ List.nodup_dedup order
  induction fuel generalizing done ws with
  | zero =>
    unfold layerFrom at h
    split_ifs at h with hcard
    exact hfinish hsub hcard
  | succ fuel ih =>
    unfold layerFrom at h
    split_ifs at h with hcard hne
    · obtain ⟨ws', hws', -⟩ := Option.map_eq_some_iff.mp h
      exact ih (union_wave_subset hsub) hws'
    · exact hfinish hsub hcard

/-- **No key is there twice**, where all waves are found. -/
theorem nodup_of_layer (h : layer order deps = some ws) : order.Nodup :=
  nodup_of_layerFrom (Finset.empty_subset _) h

/-- The number of the wave of a key. -/
def level (ws : List (List κ)) (k : κ) : ℕ := ws.findIdx fun w => k ∈ w

theorem exists_of_mem_flatten (h : k ∈ ws.flatten) :
    ∃ w, ws[level ws k]? = some w ∧ k ∈ w := by
  obtain ⟨w, hw, hk⟩ := List.mem_flatten.mp h
  have hlt : ws.findIdx (fun w => k ∈ w) < ws.length :=
    List.findIdx_lt_length_of_exists ⟨w, hw, by simpa using hk⟩
  have hmem := List.findIdx_getElem (w := hlt)
  exact ⟨_, List.getElem?_eq_getElem hlt, of_decide_eq_true hmem⟩

theorem level_le {i : ℕ} (hw : ws[i]? = some w) (hk : k ∈ w) : level ws k ≤ i := by
  obtain ⟨hi, rfl⟩ := List.getElem?_eq_some_iff.mp hw
  by_contra hlt
  have hnot := List.not_of_lt_findIdx (not_le.mp hlt)
  simp [hk] at hnot

namespace Layers

/-- **Every key is in a wave**, if it was not done before. -/
theorem mem_iff (h : Layers order deps done ws) : k ∈ ws.flatten ↔ k ∈ order ∧ k ∉ done := by
  induction h with
  | nil hall =>
    refine iff_of_false List.not_mem_nil ?_
    rintro ⟨hk, hnot⟩
    exact hnot (hall k hk)
  | cons hne h ih =>
    rw [List.flatten_cons, List.mem_append, ih, Finset.mem_union, List.mem_toFinset, mem_wave]
    tauto

theorem ne_nil (h : Layers order deps done ws) (hw : w ∈ ws) : w ≠ [] := by
  induction h with
  | nil => cases hw
  | cons hne h ih =>
    rcases List.mem_cons.mp hw with rfl | hw
    · exact hne
    · exact ih hw

/-- **The dependencies of a key are in earlier waves**, or were done before. -/
theorem deps_before (h : Layers order deps done ws) {before after : List (List κ)}
    (hws : ws = before ++ w :: after) (hk : k ∈ w) (hd : d ∈ deps k) :
    d ∈ done ∨ d ∈ before.flatten := by
  induction h generalizing before with
  | nil => exact absurd hws.symm (by simp)
  | @cons done ws hne h ih =>
    cases before with
    | nil =>
      obtain ⟨rfl, -⟩ := List.cons.inj hws
      exact .inl ((mem_wave.mp hk).2.2 d hd)
    | cons w' before =>
      rw [List.cons_append] at hws
      obtain ⟨rfl, hrest⟩ := List.cons.inj hws
      rw [List.flatten_cons, List.mem_append]
      rcases ih hrest with hdone | hbefore
      · rcases Finset.mem_union.mp hdone with hdone | hwave
        · exact .inl hdone
        · exact .inr (.inl (List.mem_toFinset.mp hwave))
      · exact .inr (.inr hbefore)

/-- **The dependencies of a key have a smaller level.** -/
theorem level_lt (h : Layers order deps ∅ ws) (hk : k ∈ ws.flatten) (hd : d ∈ deps k) :
    level ws d < level ws k := by
  obtain ⟨w, hw, hkw⟩ := exists_of_mem_flatten hk
  obtain ⟨hlt, rfl⟩ := List.getElem?_eq_some_iff.mp hw
  have hsplit : ws = ws.take (level ws k) ++ ws[level ws k] :: ws.drop (level ws k + 1) := by
    rw [List.getElem_cons_drop, List.take_append_drop]
  rcases h.deps_before hsplit hkw hd with hempty | hbefore
  · cases Finset.notMem_empty _ hempty
  · obtain ⟨w', hw', hdw⟩ := List.mem_flatten.mp hbefore
    obtain ⟨i, hi, rfl⟩ := List.mem_take_iff_getElem.mp hw'
    have hle := level_le (List.getElem?_eq_getElem (by omega : i < ws.length)) hdw
    omega

end Layers

/-! ### Ranks -/

/-- A rank of the keys: what a key depends on is a key of a smaller rank. -/
def IsRank (order : List κ) (deps : κ → List κ) (rank : κ → ℕ) : Prop :=
  ∀ k ∈ order, ∀ d ∈ deps k, d ∈ order ∧ rank d < rank k

variable {rank : κ → ℕ}

/-- While keys are left, one of the least rank is ready. -/
theorem IsRank.wave_ne_nil (h : IsRank order deps rank) (horder : order.Nodup)
    (hcard : done.card < order.length) : wave order deps done ≠ [] := by
  have hleft : (order.toFinset \ done).Nonempty := by
    rw [Finset.sdiff_nonempty]
    intro hall
    have hle := Finset.card_le_card hall
    rw [List.toFinset_card_of_nodup horder] at hle
    omega
  obtain ⟨k, hk, hleast⟩ := Finset.exists_min_image _ rank hleft
  rw [Finset.mem_sdiff, List.mem_toFinset] at hk
  refine List.ne_nil_of_mem (mem_wave.mpr ⟨hk.1, hk.2, fun d hd => ?_⟩)
  obtain ⟨hd', hlt⟩ := h k hk.1 d hd
  by_contra hnot
  have hle := hleast d (Finset.mem_sdiff.mpr ⟨List.mem_toFinset.mpr hd', hnot⟩)
  omega

theorem card_lt_union_wave (hne : wave order deps done ≠ []) :
    done.card < (done ∪ (wave order deps done).toFinset).card := by
  obtain ⟨k, hk⟩ := List.exists_mem_of_ne_nil _ hne
  refine Finset.card_lt_card (Finset.ssubset_iff_of_subset Finset.subset_union_left |>.mpr
    ⟨k, Finset.mem_union_right _ (List.mem_toFinset.mpr hk), (mem_wave.mp hk).2.1⟩)

theorem IsRank.layerFrom_isSome (h : IsRank order deps rank) (horder : order.Nodup)
    (hfuel : order.length ≤ done.card + fuel) : (layerFrom order deps fuel done).isSome := by
  induction fuel generalizing done with
  | zero =>
    rw [layerFrom, if_neg (by omega)]
    rfl
  | succ fuel ih =>
    rw [layerFrom]
    split_ifs with hcard hempty
    · exact absurd hempty (h.wave_ne_nil horder hcard)
    · rw [Option.isSome_map]
      have hlt := card_lt_union_wave hempty
      exact ih (by omega)
    · rfl

theorem Layers.isRank (h : Layers order deps ∅ ws) : IsRank order deps (level ws) := by
  intro k hk d hd
  have hk' : k ∈ ws.flatten := h.mem_iff.mpr ⟨hk, Finset.notMem_empty k⟩
  refine ⟨?_, h.level_lt hk' hd⟩
  obtain ⟨w, hw, hkw⟩ := List.mem_flatten.mp hk'
  obtain ⟨before, after, hws⟩ := List.append_of_mem hw
  rcases h.deps_before hws hkw hd with hempty | hbefore
  · cases Finset.notMem_empty _ hempty
  · refine (h.mem_iff.mp ?_).1
    rw [hws, List.flatten_append]
    exact List.mem_append_left _ hbefore

/-- **The waves are found** exactly where no key is there twice and the keys have a rank. -/
theorem layer_isSome_iff :
    (layer order deps).isSome ↔ order.Nodup ∧ ∃ rank, IsRank order deps rank := by
  constructor
  · intro h
    obtain ⟨ws, hws⟩ := Option.isSome_iff_exists.mp h
    exact ⟨nodup_of_layer hws, level ws, (layers_of_layer hws).isRank⟩
  · rintro ⟨horder, rank, h⟩
    exact h.layerFrom_isSome horder (by simp)

/-- No key is in a wave too late, where the keys of a rank below `n` are done. -/
theorem Layers.level_add_le_rank {n : ℕ} (h : Layers order deps done ws)
    (hrank : IsRank order deps rank) (hn : ∀ k ∈ order, rank k < n → k ∈ done) (hk : k ∈ order)
    (hdone : k ∉ done) : level ws k + n ≤ rank k := by
  induction h generalizing n with
  | nil hall => exact absurd (hall k hk) hdone
  | @cons done ws hne h ih =>
    have hle : n ≤ rank k := by
      by_contra hlt
      exact hdone (hn k hk (by omega))
    unfold level at ih ⊢
    rw [List.findIdx_cons]
    by_cases hwave : k ∈ wave order deps done
    · simpa [hwave] using hle
    · have hnext : ∀ k ∈ order, rank k < n + 1 → k ∈ done ∪ (wave order deps done).toFinset := by
        intro k hk hlt
        rw [Finset.mem_union, List.mem_toFinset, or_iff_not_imp_left]
        refine fun hleft => mem_wave.mpr ⟨hk, hleft, fun d hd => ?_⟩
        obtain ⟨hd', hlt'⟩ := hrank k hk d hd
        exact hn d hd' (by omega)
      have hlater := ih hnext (by simp [hdone, hwave])
      simp only [hwave, decide_false, cond_false]
      omega

/-- **No key is in a wave too late**: its level is the least rank that it can have. -/
theorem Layers.level_le_rank (h : Layers order deps ∅ ws) (hrank : IsRank order deps rank)
    (hk : k ∈ order) : level ws k ≤ rank k :=
  h.level_add_le_rank (n := 0) hrank (fun _ _ hlt => absurd hlt (Nat.not_lt_zero _)) hk
    (Finset.notMem_empty k)

/-! ### Walks -/

/-- How long a walk can be that has some keys to visit, where a key has at most `n` successors, of
higher levels up to `top`. -/
def weight (level : κ → ℕ) (n top : ℕ) (visit : List κ) : ℕ :=
  (visit.map fun k => (n + 1) ^ (top - level k)).sum

omit [DecidableEq κ] in
/-- **A walk ends**: it gets lighter where a key is replaced by its successors. -/
theorem weight_lt {level : κ → ℕ} {n top : ℕ} (visit : List κ) {next : List κ}
    (hlen : next.length ≤ n)
    (hlevel : ∀ d ∈ next, level k < level d ∧ level d ≤ top) :
    weight level n top (visit ++ next) < weight level n top (k :: visit) := by
  unfold weight
  rw [List.map_append, List.sum_append, List.map_cons, List.sum_cons, add_comm]
  apply Nat.add_lt_add_right
  by_cases hnext : next = []
  · subst hnext
    exact Nat.pow_pos n.succ_pos
  · obtain ⟨d, hd⟩ := List.exists_mem_of_ne_nil next hnext
    have htop : level k < top := (hlevel d hd).1.trans_le (hlevel d hd).2
    have heach : ∀ x ∈ next.map (fun d => (n + 1) ^ (top - level d)),
        x ≤ (n + 1) ^ (top - level k - 1) := by
      intro x hx
      obtain ⟨d, hd, rfl⟩ := List.mem_map.mp hx
      have hlt := (hlevel d hd).1
      exact Nat.pow_le_pow_right n.succ_pos (by omega)
    have hsum := List.sum_le_card_nsmul _ _ heach
    rw [List.length_map, nsmul_eq_mul, Nat.cast_id] at hsum
    calc (next.map fun d => (n + 1) ^ (top - level d)).sum
        ≤ next.length * (n + 1) ^ (top - level k - 1) := hsum
      _ ≤ n * (n + 1) ^ (top - level k - 1) := Nat.mul_le_mul_right _ hlen
      _ < (n + 1) * (n + 1) ^ (top - level k - 1) :=
        Nat.mul_lt_mul_of_pos_right n.lt_succ_self (Nat.pow_pos n.succ_pos)
      _ = (n + 1) ^ (top - level k) := by
        rw [← pow_succ']
        congr 1
        omega

end Waves
