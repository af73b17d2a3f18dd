import Mathlib.Data.List.Sort
import RunnerDashboard.Lib.Table

/-!
# The newest of each group

The items of a list are put into groups by a key, in the order in which the keys come, and of each
group the one with the highest rank is taken.

## Main definitions

* `Groups.group` — the groups.
* `Groups.newest` — the item with the highest rank, and of several the last one.
* `Groups.newestOfEach` — the two together.

## Main results

* `Groups.get?_group` — a group has the items with its key.
* `Groups.mem_newestOfEach`, `Groups.exists_mem_newestOfEach`, `Groups.nodup_newestOfEach` — **one
  item for each key, and no other item of the key has a higher rank.**
-/

namespace Groups

open Sql

variable {α κ R : Type*} [DecidableEq κ] [LinearOrder R] {key : α → κ} {rank : α → R}
  {xs : List α} {x y : α} {k : κ}

/-- `groups.setdefault(key, []).append(x)`. -/
def add (key : α → κ) (groups : Table κ (List α)) (x : α) : Table κ (List α) :=
  groups.put (key x) ((groups.get? (key x)).getD [] ++ [x])

def group (key : α → κ) (xs : List α) : Table κ (List α) := xs.foldl (add key) .empty

def newest (rank : α → R) (xs : List α) : Option α :=
  (xs.insertionSort fun x y => rank x ≤ rank y).getLast?

def newestOfEach (key : α → κ) (rank : α → R) (xs : List α) : List α :=
  (group key xs).rows.filterMap fun row => newest rank row.2

/-- **A group has the items with its key.** -/
theorem get?_group (key : α → κ) (xs : List α) (k : κ) :
    (group key xs).get? k =
      if (xs.filter (key · = k)) = [] then none else some (xs.filter (key · = k)) := by
  induction xs using List.reverseRecOn with
  | nil => rfl
  | append_singleton xs x ih =>
    have hgroup : group key (xs ++ [x]) = add key (group key xs) x := by simp [group]
    rw [hgroup, add, Table.get?_put, List.filter_append]
    by_cases hk : k = key x
    · subst hk
      rw [if_pos rfl, ih]
      by_cases hnil : xs.filter (key · = key x) = []
      · simp [hnil]
      · simp [hnil]
    · rw [if_neg hk, ih]
      simp [Ne.symm hk]

/-- **No item has a higher rank than the newest.** -/
theorem newest_spec (h : newest rank xs = some y) : y ∈ xs ∧ ∀ x ∈ xs, rank x ≤ rank y := by
  have hperm := List.perm_insertionSort (fun x y => rank x ≤ rank y) xs
  have hsorted : (xs.insertionSort fun x y => rank x ≤ rank y).Pairwise
      fun x y => rank x ≤ rank y := by
    have : Std.Total fun x y : α => rank x ≤ rank y := ⟨fun x y => le_total (rank x) (rank y)⟩
    have : IsTrans α fun x y => rank x ≤ rank y := ⟨fun _ _ _ => le_trans⟩
    exact List.pairwise_insertionSort _ xs
  obtain ⟨init, hinit⟩ := List.getLast?_eq_some_iff.mp h
  rw [hinit] at hperm hsorted
  refine ⟨hperm.mem_iff.mp (by simp), fun x hx => ?_⟩
  rcases List.mem_append.mp (hperm.mem_iff.mpr hx) with hx | hx
  · exact (List.pairwise_append.mp hsorted).2.2 x hx y (List.mem_singleton_self y)
  · rw [List.mem_singleton.mp hx]

theorem exists_newest (h : xs ≠ []) : ∃ y, newest rank xs = some y := by
  have hne : (xs.insertionSort fun x y => rank x ≤ rank y) ≠ [] := by
    intro hnil
    exact h (List.perm_nil.mp (hnil ▸ (List.perm_insertionSort _ xs).symm))
  exact ⟨_, List.getLast?_eq_some_getLast hne⟩

theorem mem_newestOfEach_iff : y ∈ newestOfEach key rank xs ↔
    ∃ k, newest rank (xs.filter (key · = k)) = some y := by
  unfold newestOfEach
  rw [List.mem_filterMap]
  constructor
  · rintro ⟨⟨k, attempts⟩, hrow, hy⟩
    refine ⟨k, ?_⟩
    have hget := get?_group key xs k
    rw [Table.get?_eq_some_iff.mpr hrow] at hget
    split_ifs at hget with hnil
    exact Option.some.inj hget ▸ hy
  · rintro ⟨k, hy⟩
    have hne : xs.filter (key · = k) ≠ [] := List.ne_nil_of_mem (newest_spec hy).1
    have hget := get?_group key xs k
    rw [if_neg hne] at hget
    exact ⟨(k, _), Table.get?_eq_some_iff.mp hget, hy⟩

theorem mem_newestOfEach (h : y ∈ newestOfEach key rank xs) :
    y ∈ xs ∧ ∀ x ∈ xs, key x = key y → rank x ≤ rank y := by
  obtain ⟨k, hk⟩ := mem_newestOfEach_iff.mp h
  obtain ⟨hmem, hle⟩ := newest_spec hk
  obtain ⟨hy, hkey⟩ := List.mem_filter.mp hmem
  obtain rfl := of_decide_eq_true hkey
  exact ⟨hy, fun x hx hkey => hle x (List.mem_filter.mpr ⟨hx, decide_eq_true hkey⟩)⟩

theorem exists_mem_newestOfEach (hx : x ∈ xs) :
    ∃ y ∈ newestOfEach key rank xs, key y = key x := by
  have hmem : x ∈ xs.filter (key · = key x) := List.mem_filter.mpr ⟨hx, decide_eq_true rfl⟩
  obtain ⟨y, hy⟩ : ∃ y, newest rank (xs.filter (key · = key x)) = some y :=
    exists_newest (List.ne_nil_of_mem hmem)
  obtain ⟨-, hkey⟩ := List.mem_filter.mp (newest_spec hy).1
  exact ⟨y, mem_newestOfEach_iff.mpr ⟨key x, hy⟩, of_decide_eq_true hkey⟩

omit [DecidableEq κ] in
theorem map_filterMap_sublist {rows : List (κ × List α)}
    (h : ∀ row ∈ rows, ∀ y, newest rank row.2 = some y → key y = row.1) :
    ((rows.filterMap fun row => newest rank row.2).map key).Sublist (rows.map Prod.fst) := by
  induction rows with
  | nil => exact List.nil_sublist _
  | cons row rows ih =>
    have hrest := ih fun r hr => h r (List.mem_cons_of_mem _ hr)
    rw [List.filterMap_cons, List.map_cons]
    cases hy : newest rank row.2 with
    | none => exact hrest.cons _
    | some y =>
      have hkey := h row (List.mem_cons_self ..) y hy
      rw [List.map_cons, hkey]
      exact hrest.cons_cons _

theorem nodup_newestOfEach (key : α → κ) (rank : α → R) (xs : List α) :
    ((newestOfEach key rank xs).map key).Nodup := by
  refine (group key xs).nodupKeys.sublist (map_filterMap_sublist ?_)
  rintro ⟨k, attempts⟩ hrow y hy
  have hget := get?_group key xs k
  rw [Table.get?_eq_some_iff.mpr hrow] at hget
  split_ifs at hget with hnil
  obtain rfl := Option.some.inj hget
  exact of_decide_eq_true (List.mem_filter.mp (newest_spec hy).1).2

end Groups
