import Mathlib.Algebra.Order.Group.Nat
import Mathlib.Data.List.Basic
import Mathlib.Data.List.Nodup
import Mathlib.Logic.Function.Iterate

/-!
# Sweeps in batches

A list that does not change is visited again and again, some elements at a time.  What is kept
between two batches is the key of the last element that was visited.  The batch that reaches the end
of the list closes the sweep, and the next one starts at the front.

## Main definitions

* `after` — what follows the element with a key.
* `batch` — the next elements, and whether they close the sweep.
* `step` — a batch is visited, and the sweep is closed.
* `sweepItems` — the elements that are visited until the sweep is closed.

## Main results

* `after_eq_some_iff` — the key cuts the list.
* `exists_close` — **after finitely many batches the sweep is closed.**
* `mem_sweepItems` — **a sweep from the front visits all elements.**
-/

namespace Sweep

variable {α κ σ : Type*} [DecidableEq κ]

/-- What follows the first element with a key. -/
def after (key : α → κ) (c : κ) : List α → Option (List α)
  | [] => none
  | x :: xs => if key x = c then some xs else after key c xs

/-- The next elements, at most `m` of them, and whether they close the sweep.  Where no element is
left, the sweep is closed with the first ones. -/
def batch (key : α → κ) (xs : List α) (m : ℕ) (cursor : Option κ) : List α × Bool :=
  match cursor with
  | none => (xs.take m, false)
  | some c =>
    match after key c xs with
    | none => (xs.take m, false)
    | some rest =>
      if (rest.take m).length < m then
        (if rest.take m = [] then xs.take m else rest.take m, true)
      else (rest.take m, false)

def step (key : α → κ) (visit : σ → α → σ) (close : σ → σ) (xs : List α) (m : ℕ)
    (p : σ × Option κ) : σ × Option κ :=
  let b := batch key xs m p.2
  let visited := b.1.foldl visit p.1
  if b.2 then (close visited, none) else (visited, (b.1.getLast?.map key).or p.2)

/-- The elements that are left, and the first ones where these fill their batches. -/
def tailItems (xs : List α) (m : ℕ) (rest : List α) : List α :=
  rest ++ if m ∣ rest.length then xs.take m else []

/-- The elements that are visited until the sweep is closed. -/
def sweepItems (key : α → κ) (xs : List α) (m : ℕ) (cursor : Option κ) : List α :=
  match cursor.bind fun c => after key c xs with
  | none => xs.take m ++ tailItems xs m (xs.drop m)
  | some rest => tailItems xs m rest

variable {key : α → κ} {visit : σ → α → σ} {close : σ → σ} {xs rest : List α} {m : ℕ} {c : κ}
  {cursor : Option κ} {s : σ} {x : α}

/-! ### The element with a key -/

theorem exists_of_after (h : after key c xs = some rest) :
    ∃ before x, xs = before ++ x :: rest ∧ key x = c := by
  induction xs with
  | nil => cases h
  | cons y ys ih =>
    unfold after at h
    split at h
    · next hy => exact ⟨[], y, by rw [Option.some.inj h, List.nil_append], hy⟩
    · obtain ⟨before, x, rfl, hx⟩ := ih h
      exact ⟨y :: before, x, rfl, hx⟩

theorem after_append {before : List α} (h : ∀ y ∈ before, key y ≠ c) (hx : key x = c) :
    after key c (before ++ x :: rest) = some rest := by
  induction before with
  | nil =>
    show (if key x = c then some rest else after key c rest) = some rest
    rw [if_pos hx]
  | cons y ys ih =>
    show (if key y = c then _ else after key c (ys ++ x :: rest)) = some rest
    rw [if_neg (h y List.mem_cons_self)]
    exact ih fun z hz => h z (List.mem_cons_of_mem _ hz)

/-- **The key of an element cuts the list there.** -/
theorem after_eq_some_iff (hnodup : (xs.map key).Nodup) :
    after key c xs = some rest ↔ ∃ before x, xs = before ++ x :: rest ∧ key x = c := by
  constructor
  · exact exists_of_after
  · rintro ⟨before, x, rfl, rfl⟩
    refine after_append (fun y hy heq => ?_) rfl
    rw [List.map_append, List.map_cons, List.nodup_append] at hnodup
    exact hnodup.2.2 _ (List.mem_map_of_mem hy) _ List.mem_cons_self heq

theorem subset_of_after (h : after key c xs = some rest) : rest ⊆ xs := by
  obtain ⟨before, x, rfl, -⟩ := exists_of_after h
  exact fun y hy => List.mem_append_right _ (List.mem_cons_of_mem _ hy)

theorem batch_subset : (batch key xs m cursor).1 ⊆ xs := by
  have htake : xs.take m ⊆ xs := fun _ => List.mem_of_mem_take
  cases cursor with
  | none => exact htake
  | some c =>
    unfold batch
    dsimp only
    cases hafter : after key c xs with
    | none => exact htake
    | some rest =>
      have hrest : rest.take m ⊆ xs := fun y hy => subset_of_after hafter (List.mem_of_mem_take hy)
      dsimp only
      split
      · split
        · exact htake
        · exact hrest
      · exact hrest

/-! ### Closing a sweep -/

theorem tailItems_drop (h : m ≤ rest.length) :
    rest.take m ++ tailItems xs m (rest.drop m) = tailItems xs m rest := by
  have hdvd : m ∣ (rest.drop m).length ↔ m ∣ rest.length := by
    rw [List.length_drop]
    exact Nat.dvd_sub_iff_left h (Nat.dvd_refl m)
  unfold tailItems
  rw [← List.append_assoc, List.take_append_drop]
  simp only [hdvd]

theorem exists_take_eq (hm : 0 < m) (hxs : xs ≠ []) : ∃ before x, xs.take m = before ++ [x] := by
  rcases List.eq_nil_or_concat (xs.take m) with hnil | ⟨before, x, h⟩
  · rcases List.take_eq_nil_iff.mp hnil with h | h
    · exact absurd h hm.ne'
    · exact absurd h hxs
  · exact ⟨before, x, h.trans (List.concat_eq_append)⟩

/-- A batch that is full leaves the cursor at its last element. -/
theorem step_take {before : List α} {t : List α} (hbatch : batch key xs m cursor = (t, false))
    (ht : t = before ++ [x]) :
    step key visit close xs m (s, cursor) = (t.foldl visit s, some (key x)) := by
  unfold step
  simp only [hbatch, Bool.false_eq_true, if_false, ht, List.getLast?_append,
    List.getLast?_singleton,
    Option.some_or, Option.map_some]

/-- The rest of a sweep: the induction is on how many elements are left. -/
theorem exists_close_tail (close : σ → σ) (hm : 0 < m) (hnodup : (xs.map key).Nodup) :
    ∀ (n : ℕ) (before rest : List α) (x : α) (s : σ), rest.length ≤ n → xs = before ++ x :: rest →
      ∃ k, (step key visit close xs m)^[k + 1] (s, some (key x)) =
        (close ((tailItems xs m rest).foldl visit s), none) := by
  -- by induction on a bound of what is left, as a batch takes several items
  intro n
  induction n with
  | zero =>
    intro before rest x s hlen hxs
    obtain rfl := List.length_eq_zero_iff.mp (Nat.le_zero.mp hlen)
    have hafter : after key (key x) xs = some [] :=
      (after_eq_some_iff hnodup).mpr ⟨before, x, hxs, rfl⟩
    refine ⟨0, ?_⟩
    unfold step batch tailItems
    simp [hafter, hm]
  | succ n ih =>
    intro before rest x s hlen hxs
    have hafter : after key (key x) xs = some rest :=
      (after_eq_some_iff hnodup).mpr ⟨before, x, hxs, rfl⟩
    rcases Nat.lt_or_ge rest.length m with hlt | hge
    · -- the batch reaches the end
      refine ⟨0, ?_⟩
      have htake : rest.take m = rest := List.take_of_length_le hlt.le
      have hitems : tailItems xs m rest = if rest = [] then xs.take m else rest := by
        unfold tailItems
        cases rest with
        | nil => simp
        | cons y ys =>
          have hdvd : ¬ m ∣ (y :: ys).length := Nat.not_dvd_of_pos_of_lt (Nat.succ_pos _) hlt
          rw [if_neg hdvd, if_neg (List.cons_ne_nil y ys), List.append_nil]
      have hbatch : batch key xs m (some (key x)) = (tailItems xs m rest, true) := by
        unfold batch
        simp only [hafter, htake, if_pos hlt, hitems]
      rw [Nat.zero_add, Function.iterate_one]
      unfold step
      simp only [hbatch, if_true]
    · -- the batch is full
      have hrest : rest ≠ [] := by
        rintro rfl
        exact absurd hge (Nat.not_le.mpr hm)
      obtain ⟨front, y, hfront⟩ := exists_take_eq hm hrest
      have hbatch : batch key xs m (some (key x)) = (rest.take m, false) := by
        have hfull : ¬ (rest.take m).length < m := by
          rw [List.length_take, Nat.min_eq_left hge]
          exact Nat.lt_irrefl m
        unfold batch
        simp only [hafter, if_neg hfull]
      have hcut : xs = (before ++ x :: front) ++ y :: rest.drop m := by
        have hsplit := List.take_append_drop m rest
        rw [hfront, List.append_assoc] at hsplit
        have hjoin : front ++ y :: rest.drop m = rest := hsplit
        rw [List.append_assoc, List.cons_append, hjoin]
        exact hxs
      have hleft : (rest.drop m).length ≤ n := by
        rw [List.length_drop]
        omega
      obtain ⟨k, hk⟩ := ih _ _ y ((rest.take m).foldl visit s) hleft hcut
      refine ⟨k + 1, ?_⟩
      rw [Function.iterate_succ_apply, step_take hbatch hfront, hk, ← List.foldl_append,
        tailItems_drop hge]

/-- **After finitely many batches the sweep is closed.** -/
theorem exists_close (hm : 0 < m) (hnodup : (xs.map key).Nodup) (hxs : xs ≠ []) (s : σ)
    (cursor : Option κ) : ∃ k, (step key visit close xs m)^[k + 1] (s, cursor) =
      (close ((sweepItems key xs m cursor).foldl visit s), none) := by
  unfold sweepItems
  cases hcursor : cursor.bind fun c => after key c xs with
  | some rest =>
    obtain ⟨c, rfl, hafter⟩ := Option.bind_eq_some_iff.mp hcursor
    obtain ⟨before, x, hcut, rfl⟩ := exists_of_after hafter
    exact exists_close_tail close hm hnodup _ before rest x s le_rfl hcut
  | none =>
    -- the sweep starts at the front
    have hbatch : batch key xs m cursor = (xs.take m, false) := by
      cases cursor with
      | none => rfl
      | some c =>
        unfold batch
        rw [Option.bind_some] at hcursor
        simp only [hcursor]
    obtain ⟨front, y, hfront⟩ := exists_take_eq hm hxs
    have hcut : xs = front ++ y :: xs.drop m := by
      have hsplit := List.take_append_drop m xs
      rw [hfront, List.append_assoc] at hsplit
      exact hsplit.symm
    obtain ⟨k, hk⟩ := exists_close_tail close hm hnodup _ front (xs.drop m) y
      ((xs.take m).foldl visit s) le_rfl hcut
    refine ⟨k + 1, ?_⟩
    rw [Function.iterate_succ_apply, step_take hbatch hfront, hk, ← List.foldl_append]

theorem sweepItems_subset : sweepItems key xs m cursor ⊆ xs := by
  have htail : ∀ rest, rest ⊆ xs → tailItems xs m rest ⊆ xs := by
    intro rest hrest x hx
    unfold tailItems at hx
    rcases List.mem_append.mp hx with h | h
    · exact hrest h
    · split at h
      · exact List.mem_of_mem_take h
      · cases h
  unfold sweepItems
  cases hcursor : cursor.bind fun c => after key c xs with
  | some rest =>
    obtain ⟨c, rfl, hafter⟩ := Option.bind_eq_some_iff.mp hcursor
    exact htail rest (subset_of_after hafter)
  | none =>
    intro x hx
    rcases List.mem_append.mp hx with h | h
    · exact List.mem_of_mem_take h
    · exact htail _ (fun _ => List.mem_of_mem_drop) h

/-- **A sweep from the front visits all elements.** -/
theorem mem_sweepItems (hx : x ∈ xs) : x ∈ sweepItems key xs m none := by
  show x ∈ xs.take m ++ tailItems xs m (xs.drop m)
  rw [← List.take_append_drop m xs] at hx
  rcases List.mem_append.mp hx with h | h
  · exact List.mem_append_left _ h
  · exact List.mem_append_right _ (List.mem_append_left _ h)

end Sweep
