import Mathlib.Data.List.Basic
import Mathlib.Data.List.Sort
import Mathlib.Order.Lattice

/-!
# Reading a growing list by its numbers

The items have numbers.  A reader asks for the items with numbers above the largest one that it has
seen, in ascending order and at most some of them.

## Main definitions

* `Tail.largest` — the largest number, `0` where there is no item.
* `Tail.readAfter` — the items with larger numbers.

## Main results

* `Tail.readAfter_largest` — where the numbers ascend the next items are read.
-/

namespace Tail

variable {α : Type*} {num : α → ℕ} {items done rest : List α} {x : α} {n c : ℕ}

/-- The largest number, `0` where there is no item. -/
def largest (num : α → ℕ) (items : List α) : ℕ := (items.map num).foldr max 0

/-- The items with numbers above `c`, in ascending order and at most `limit`. -/
def readAfter (num : α → ℕ) (items : List α) (c limit : ℕ) : List α :=
  ((items.filter fun x => c < num x).mergeSort fun x y => num x ≤ num y).take limit

/-- The numbers ascend, and all of them are positive. -/
structure Ascending (num : α → ℕ) (items : List α) : Prop where
  lt : items.Pairwise fun x y => num x < num y
  pos : ∀ x ∈ items, 0 < num x

theorem largest_le_iff : largest num items ≤ n ↔ ∀ x ∈ items, num x ≤ n := by
  induction items with
  | nil => simp [largest]
  | cons y items ih =>
    have hcons : largest num (y :: items) = max (num y) (largest num items) := rfl
    rw [hcons, Nat.max_le, ih, List.forall_mem_cons]

theorem le_largest (h : x ∈ items) : num x ≤ largest num items := largest_le_iff.mp le_rfl x h

theorem largest_lt_iff (hn : 0 < n) : largest num items < n ↔ ∀ x ∈ items, num x < n := by
  rw [← Nat.le_sub_one_iff_lt hn, largest_le_iff]
  exact forall₂_congr fun x _ => Nat.le_sub_one_iff_lt hn

theorem ascending_nil : Ascending num [] := ⟨List.Pairwise.nil, by simp⟩

/-- **A list still ascends where an item with a larger number is added.** -/
theorem ascending_concat_iff :
    Ascending num (items ++ [x]) ↔ Ascending num items ∧ largest num items < num x := by
  constructor
  · rintro ⟨hlt, hpos⟩
    obtain ⟨hitems, -, hx⟩ := List.pairwise_append.mp hlt
    have hx0 : 0 < num x := hpos x (List.mem_append_right _ (List.mem_singleton_self x))
    refine ⟨⟨hitems, fun y hy => hpos y (List.mem_append_left _ hy)⟩, ?_⟩
    exact (largest_lt_iff hx0).mpr fun y hy => hx y hy x (List.mem_singleton_self x)
  · rintro ⟨⟨hlt, hpos⟩, hx⟩
    have hx0 : 0 < num x := Nat.zero_lt_of_lt hx
    refine ⟨List.pairwise_append.mpr ⟨hlt, List.pairwise_singleton _ x, ?_⟩, ?_⟩
    · intro y hy z hz
      rw [List.mem_singleton.mp hz]
      exact (largest_lt_iff hx0).mp hx y hy
    · intro y hy
      rcases List.mem_append.mp hy with hy | hy
      · exact hpos y hy
      · rwa [List.mem_singleton.mp hy]

theorem Ascending.nodup (h : Ascending num items) : (items.map num).Nodup := by
  rw [List.Nodup, List.pairwise_map]
  exact h.lt.imp fun hxy => hxy.ne

/-- **Where the numbers ascend the next items are read.** -/
theorem readAfter_largest (h : Ascending num (done ++ rest)) (limit : ℕ) :
    readAfter num (done ++ rest) (largest num done) limit = rest.take limit := by
  obtain ⟨-, hrest, hlt⟩ := List.pairwise_append.mp h.lt
  have hdone : done.filter (fun x => largest num done < num x) = [] := by
    refine List.filter_eq_nil_iff.mpr fun x hx => ?_
    rw [decide_eq_true_eq, not_lt]
    exact le_largest hx
  have hnew : rest.filter (fun x => largest num done < num x) = rest := by
    refine List.filter_eq_self.mpr fun x hx => ?_
    have hpos := h.pos x (List.mem_append_right _ hx)
    rw [decide_eq_true_eq, largest_lt_iff hpos]
    exact fun y hy => hlt y hy x hx
  have hsort : rest.mergeSort (fun x y => num x ≤ num y) = rest := by
    refine List.mergeSort_of_pairwise (hrest.imp fun hxy => ?_)
    exact decide_eq_true hxy.le
  rw [readAfter, List.filter_append, hdone, hnew, List.nil_append, hsort]

end Tail
