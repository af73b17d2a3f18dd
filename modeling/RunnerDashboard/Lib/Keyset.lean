import Mathlib.Data.List.Nodup
import Mathlib.Order.Lattice

/-!
# Keyset pages of a list

A page starts at the first item whose key is below the cursor, and the cursor of the next page is
the key of the last item.  The items of a walk are meant to be in descending order of their keys,
but nothing about it needs that.  The items of a scan are in ascending order.

## Main definitions

* `Keyset.start`, `Keyset.slice` — where a page starts, and the page.
* `Keyset.next`, `Keyset.prev` — the cursors of the pages after and before.
* `Keyset.Walk` — the pages from a cursor on, up to one without a next cursor.
* `Keyset.CleanCut` — the item after a cut is the first below the item before it.
* `Keyset.Scan` — the pages up to an empty one, in ascending order, with a cursor that may lie above
  the key of the item it is made from.
* `Keyset.ClearEnds` — what follows the end of a page is above the cursor that is made there.

## Main results

* `Keyset.exists_walk` — with clean cuts, the walk is the list cut into pages.
* `Keyset.walk_perm_iff` — **a walk visits every item once exactly if the list has a clean cut at
  the end of every page**.
* `Keyset.cleanCut_of_sorted` — a list in strictly descending order has clean cuts only.
* `Keyset.exists_scan` — a scan ends.
* `Keyset.scan_perm_iff` — **a scan has every item once exactly if the ends of the pages are
  clear**.
-/

namespace Keyset

variable {α κ : Type*} [LinearOrder κ] (key : α → κ) (items : List α) (limit : ℕ)

/-- The index of the first item below the cursor. -/
def start : Option κ → ℕ
  | none => 0
  | some k => items.findIdx fun x => key x < k

/-- The page of a cursor. -/
def slice (c : Option κ) : List α := (items.drop (start key items c)).take limit

/-- The cursor of the page after. -/
def next (c : Option κ) : Option κ :=
  if start key items c + limit < items.length then (slice key items limit c).getLast?.map key
  else none

/-- The cursor that is given for the page before. -/
def prev (c : Option κ) : Option κ :=
  if 0 < start key items c then (slice key items limit c).head?.map key else none

/-- The pages from a cursor on. -/
inductive Walk : Option κ → List (List α) → Prop
  | last {c : Option κ} (h : next key items limit c = none) : Walk c [slice key items limit c]
  | more {c : Option κ} {k : κ} {pages : List (List α)} (h : next key items limit c = some k)
      (w : Walk (some k) pages) : Walk c (slice key items limit c :: pages)

/-- No item up to the cut is below the last one before it, and the one after it is. -/
structure CleanCut (j : ℕ) : Prop where
  before : ∀ i x last, i < j → items[i]? = some x → items[j - 1]? = some last → ¬ key x < key last
  after : ∀ x last, items[j]? = some x → items[j - 1]? = some last → key x < key last

variable {key items limit} {c : Option κ} {k : κ} {pages : List (List α)} {i j m : ℕ}

/-- A cursor starts at an item that is below it, and none before is. -/
theorem start_eq_iff (hj : j < items.length) :
    start key items (some k) = j ↔ key items[j] < k ∧ ∀ i (h : i < j), ¬ key items[i] < k := by
  unfold start
  rw [List.findIdx_eq hj, decide_eq_true_eq]
  simp only [decide_eq_false_iff_not]

/-- **A cut is clean exactly if the key of the last item starts the page after it.** -/
theorem cleanCut_iff (h0 : 0 < j) (hj : j < items.length) :
    CleanCut key items j ↔ start key items (some (key items[j - 1])) = j := by
  rw [start_eq_iff hj]
  have hlast : items[j - 1]? = some items[j - 1] := List.getElem?_eq_getElem (by omega)
  constructor
  · intro h
    refine ⟨h.after _ _ (List.getElem?_eq_getElem hj) hlast, fun i hi => ?_⟩
    exact h.before i _ _ hi (List.getElem?_eq_getElem (by omega)) hlast
  · rintro ⟨hafter, hbefore⟩
    refine ⟨fun i x last hi hx hl => ?_, fun x last hx hl => ?_⟩
    · rw [hlast] at hl
      rw [List.getElem?_eq_getElem (by omega)] at hx
      obtain rfl := Option.some.inj hl
      obtain rfl := Option.some.inj hx
      exact hbefore i hi
    · rw [hlast] at hl
      rw [List.getElem?_eq_getElem hj] at hx
      obtain rfl := Option.some.inj hl
      obtain rfl := Option.some.inj hx
      exact hafter

/-! ### One page -/

theorem length_slice (h : start key items c + limit ≤ items.length) :
    (slice key items limit c).length = limit := by
  rw [slice, List.length_take, List.length_drop]
  omega

theorem next_eq_some (hlimit : 0 < limit) (h : start key items c + limit < items.length) :
    next key items limit c = some (key items[start key items c + limit - 1]) := by
  have hlast : (slice key items limit c).getLast? =
      some items[start key items c + limit - 1] := by
    rw [List.getLast?_eq_getElem?, length_slice (Nat.le_of_lt h), slice, List.getElem?_take,
      if_pos (by omega), List.getElem?_drop,
      List.getElem?_eq_getElem (by omega : start key items c + (limit - 1) < items.length)]
    congr 2
    omega
  rw [next, if_pos h, hlast]
  rfl

theorem next_eq_none_iff (hlimit : 0 < limit) :
    next key items limit c = none ↔ items.length ≤ start key items c + limit := by
  by_cases h : start key items c + limit < items.length
  · rw [next_eq_some hlimit h]
    exact iff_of_false nofun (by omega)
  · rw [next, if_neg h]
    exact iff_of_true rfl (by omega)

variable (key items limit) in
theorem slice_append_drop (c : Option κ) :
    slice key items limit c ++ items.drop (start key items c + limit) =
      items.drop (start key items c) := by
  rw [slice, ← List.drop_drop, List.take_append_drop]

/-! ### The walk -/

/-- **With clean cuts, the walk is the rest of the list cut into pages.** -/
theorem exists_walk (hlimit : 0 < limit)
    (hclean : ∀ m, 0 < m → m * limit < items.length → CleanCut key items (m * limit))
    (hc : start key items c = m * limit) :
    ∃ pages, Walk key items limit c pages ∧ pages.flatten = items.drop (m * limit) := by
  -- induction on what is left of the list
  generalize hn : items.length - m * limit = n
  induction n using Nat.strongRecOn generalizing c m with
  | ind n ih =>
    have hcut := slice_append_drop key items limit c
    have hnext : m * limit + limit = (m + 1) * limit := (Nat.succ_mul m limit).symm
    rw [hc, hnext] at hcut
    by_cases h : (m + 1) * limit < items.length
    · have hc' : start key items c + limit < items.length := by omega
      have hstart : start key items (next key items limit c) = (m + 1) * limit := by
        have hcut := (cleanCut_iff (Nat.mul_pos (Nat.succ_pos m) hlimit) h).mp
          (hclean (m + 1) (Nat.succ_pos m) h)
        rw [next_eq_some hlimit hc']
        simp only [hc, hnext]
        exact hcut
      rw [next_eq_some hlimit hc'] at hstart
      obtain ⟨pages, hw, hflat⟩ := ih (items.length - (m + 1) * limit) (by omega) hstart rfl
      refine ⟨_, .more (next_eq_some hlimit hc') hw, ?_⟩
      rw [List.flatten_cons, hflat, hcut]
    · refine ⟨_, .last ((next_eq_none_iff hlimit).mpr (by omega)), ?_⟩
      rw [List.flatten_singleton, ← hcut, List.drop_eq_nil_of_le (by omega), List.append_nil]

theorem Walk.exists_slice (w : Walk key items limit (some k) pages) :
    ∀ page ∈ pages, ∃ k', page = slice key items limit (some k') := by
  generalize hc : some k = c at w
  induction w generalizing k with
  | last h =>
    intro page hpage
    obtain rfl := List.mem_singleton.mp hpage
    exact ⟨k, by rw [hc]⟩
  | more h w ih =>
    intro page hpage
    rcases List.mem_cons.mp hpage with rfl | hpage
    · exact ⟨k, by rw [hc]⟩
    · exact ih rfl page hpage

theorem exists_of_mem_slice {x : α} (h : x ∈ slice key items limit c) :
    ∃ i, start key items c ≤ i ∧ items[i]? = some x := by
  obtain ⟨i, hi, hx⟩ := List.mem_iff_getElem.mp (List.mem_of_mem_take h)
  rw [List.getElem_drop] at hx
  exact ⟨_, Nat.le_add_right _ i, by rw [← hx]; exact List.getElem?_eq_getElem _⟩

theorem index_unique (hnodup : items.Nodup) {x : α} (hi : items[i]? = some x)
    (hj : items[j]? = some x) : i = j := by
  obtain ⟨hi, hx⟩ := List.getElem?_eq_some_iff.mp hi
  obtain ⟨hj, hy⟩ := List.getElem?_eq_some_iff.mp hj
  exact (hnodup.getElem_inj_iff).mp (hx.trans hy.symm)

/-- **A walk over exactly what follows a cut starts there.** -/
theorem start_eq_of_walk (hlimit : 0 < limit) (hnodup : items.Nodup) (h0 : 0 < j)
    (hj : j < items.length) (hk : k = key items[j - 1])
    (w : Walk key items limit (some k) pages) (hperm : pages.flatten.Perm (items.drop j)) :
    start key items (some k) = j := by
  have hmem : ∀ x, x ∈ pages.flatten ↔ ∃ i, j ≤ i ∧ items[i]? = some x := by
    intro x
    rw [hperm.mem_iff, List.mem_drop_iff_getElem]
    constructor
    · rintro ⟨i, hi, rfl⟩
      exact ⟨j + i, Nat.le_add_right j i, List.getElem?_eq_getElem _⟩
    · rintro ⟨i, hi, hx⟩
      obtain ⟨hlt, hx⟩ := List.getElem?_eq_some_iff.mp hx
      exact ⟨i - j, by omega, by rw [← hx]; congr 1; omega⟩
  -- no page starts before the cut
  have hge : ∀ k', slice key items limit (some k') ∈ pages →
      start key items (some k') < items.length → j ≤ start key items (some k') := by
    intro k' hpage hlt
    have hfirst : items[start key items (some k')] ∈ slice key items limit (some k') := by
      rw [slice, List.drop_eq_getElem_cons hlt]
      obtain ⟨n, rfl⟩ : ∃ n, limit = n + 1 := ⟨limit - 1, by omega⟩
      exact List.mem_cons_self
    obtain ⟨i, hi, hx⟩ := (hmem _).mp (List.mem_flatten.mpr ⟨_, hpage, hfirst⟩)
    exact index_unique hnodup hx (List.getElem?_eq_getElem hlt) ▸ hi
  -- the page with the item after the cut starts there, so that item is below the cursor
  obtain ⟨page, hpage, hx⟩ :=
    List.mem_flatten.mp ((hmem items[j]).mpr ⟨j, Nat.le_refl j, List.getElem?_eq_getElem hj⟩)
  obtain ⟨k', rfl⟩ := w.exists_slice page hpage
  obtain ⟨i, hi, hx⟩ := exists_of_mem_slice hx
  obtain rfl := index_unique hnodup hx (List.getElem?_eq_getElem hj)
  have hstart : start key items (some k') = i := Nat.le_antisymm hi (hge k' hpage (by omega))
  obtain ⟨hbelow, hbefore⟩ := (start_eq_iff hj).mp hstart
  have hkk : k' ≤ k := hk ▸ Std.not_lt.mp (hbefore (i - 1) (by omega))
  have hle : start key items (some k) ≤ i := by
    by_contra hgt
    have hnot := List.not_of_lt_findIdx (Nat.lt_of_not_le hgt)
    exact absurd (hbelow.trans_le hkk) (of_decide_eq_false hnot)
  refine Nat.le_antisymm hle (hge k ?_ (by omega))
  cases w with
  | last h => exact List.mem_cons_self
  | more h w => exact List.mem_cons_self

theorem cleanCut_of_walk (hlimit : 0 < limit) (hnodup : items.Nodup)
    (w : Walk key items limit c pages) (hc : start key items c = m * limit)
    (hperm : pages.flatten.Perm (items.drop (m * limit))) {n : ℕ} (hmn : m < n)
    (hn : n * limit < items.length) : CleanCut key items (n * limit) := by
  have hle : (m + 1) * limit ≤ n * limit := Nat.mul_le_mul_right limit hmn
  have hnext : m * limit + limit = (m + 1) * limit := (Nat.succ_mul m limit).symm
  induction w generalizing m with
  | last h =>
    have hlen := (next_eq_none_iff hlimit).mp h
    omega
  | @more c k pages h w ih =>
    have hc' : start key items c + limit < items.length := by omega
    have hk := h.symm.trans (next_eq_some hlimit hc')
    simp only [hc, hnext] at hk
    have hk := Option.some.inj hk
    have hcut := slice_append_drop key items limit c
    rw [hc, hnext] at hcut
    rw [List.flatten_cons, ← hcut, List.perm_append_left_iff] at hperm
    have hlen : (m + 1) * limit < items.length := by omega
    have hpos : 0 < (m + 1) * limit := Nat.mul_pos (Nat.succ_pos m) hlimit
    have hstart := start_eq_of_walk hlimit hnodup hpos hlen hk w hperm
    rcases Nat.eq_or_lt_of_le hmn with rfl | hlt
    · exact (cleanCut_iff hpos hlen).mpr (hk ▸ hstart)
    · exact ih hstart hperm hlt (Nat.mul_le_mul_right limit hlt) (Nat.succ_mul _ limit).symm

/-- **A walk visits every item once exactly if the list has a clean cut at the end of every
page.** -/
theorem walk_perm_iff (hlimit : 0 < limit) (hnodup : items.Nodup) :
    (∃ pages, Walk key items limit none pages ∧ pages.flatten.Perm items) ↔
      ∀ m, 0 < m → m * limit < items.length → CleanCut key items (m * limit) := by
  have hzero : start key items none = 0 * limit := (Nat.zero_mul limit).symm
  constructor
  · rintro ⟨pages, w, hperm⟩ n hpos hn
    rw [← List.drop_zero (l := items), ← Nat.zero_mul limit] at hperm
    exact cleanCut_of_walk hlimit hnodup w hzero hperm hpos hn
  · intro h
    obtain ⟨pages, w, hflat⟩ := exists_walk hlimit h hzero
    rw [Nat.zero_mul, List.drop_zero] at hflat
    exact ⟨pages, w, hflat ▸ List.Perm.refl _⟩

/-- A list in strictly descending order has clean cuts only. -/
theorem cleanCut_of_sorted (h : items.Pairwise fun x y => key y < key x) (h0 : 0 < j) :
    CleanCut key items j := by
  have hlt : ∀ (a b : ℕ) (x y : α), a < b → items[a]? = some x → items[b]? = some y →
      key y < key x := by
    intro a b x y hab hx hy
    obtain ⟨ha, rfl⟩ := List.getElem?_eq_some_iff.mp hx
    obtain ⟨hb, rfl⟩ := List.getElem?_eq_some_iff.mp hy
    exact List.pairwise_iff_getElem.mp h a b ha hb hab
  constructor
  · intro i x last hi hx hl hbelow
    rcases Nat.eq_or_lt_of_le (Nat.le_sub_one_of_lt hi) with heq | hlt'
    · rw [← heq, hx] at hl
      obtain rfl := Option.some.inj hl
      exact lt_irrefl _ hbelow
    · exact lt_asymm hbelow (hlt i (j - 1) x last hlt' hx hl)
  · intro x last hx hl
    exact hlt (j - 1) j last x (by omega) hl hx

/-! ### Sorting by the key -/

section Sorting

variable {α κ : Type*} [LinearOrder κ] {key : α → κ} {items : List α}

variable (key) in
/-- Lists with the same items in strictly ascending order are equal. -/
theorem eq_of_perm {l l' : List α} (hperm : l.Perm l')
    (hl : l.Pairwise fun x y => key x < key y) (hl' : l'.Pairwise fun x y => key x < key y) :
    l = l' :=
  hperm.eq_of_pairwise (fun _ _ _ _ hlt hgt => absurd hgt hlt.asymm) hl hl'

theorem pairwise_mergeSort (hne : items.Pairwise fun x y => key x ≠ key y) :
    (items.mergeSort fun x y => key x ≤ key y).Pairwise fun x y => key x < key y := by
  have htrans : ∀ x y z : α, decide (key x ≤ key y) = true → decide (key y ≤ key z) = true →
      decide (key x ≤ key z) = true := by
    intro x y z hxy hyz
    exact decide_eq_true ((of_decide_eq_true hxy).trans (of_decide_eq_true hyz))
  have htotal : ∀ x y : α, (decide (key x ≤ key y) || decide (key y ≤ key x)) = true := by
    intro x y
    rw [Bool.or_eq_true, decide_eq_true_eq, decide_eq_true_eq]
    exact le_total _ _
  have hsorted := List.pairwise_mergeSort htrans htotal items
  have hdistinct : (items.mergeSort fun x y => key x ≤ key y).Pairwise fun x y => key x ≠ key y :=
    (List.Perm.pairwise_iff (fun h => h.symm) (List.mergeSort_perm items _)).mpr hne
  exact (hsorted.and hdistinct).imp fun ⟨hle, hne⟩ => lt_of_le_of_ne (of_decide_eq_true hle) hne

theorem mergeSort_filter (hne : items.Pairwise fun x y => key x ≠ key y) (p : α → Bool) :
    (items.filter p).mergeSort (fun x y => key x ≤ key y) =
      (items.mergeSort fun x y => key x ≤ key y).filter p := by
  have hsort := List.mergeSort_perm items fun x y => key x ≤ key y
  apply eq_of_perm key ((List.mergeSort_perm _ _).trans (hsort.filter p).symm)
  · exact pairwise_mergeSort (hne.sublist List.filter_sublist)
  · exact (pairwise_mergeSort hne).sublist List.filter_sublist

end Sorting

/-! ### Cursors that lie above the key -/

section Scan

variable {α κ : Type*} [LinearOrder κ] (key cur : α → κ) (items : List α) (limit : ℕ)

def above : Option κ → List α
  | none => items
  | some k => items.filter fun x => k < key x

/-- The pages from a cursor on, up to an empty one.  The cursor of the next page is made from the
last item of a page. -/
inductive Scan : Option κ → List (List α) → Prop
  | done {c : Option κ} (h : (above key items c).take limit = []) : Scan c []
  | more {c : Option κ} {x : α} {pages : List (List α)}
      (h : ((above key items c).take limit).getLast? = some x) (w : Scan (some (cur x)) pages) :
      Scan c ((above key items c).take limit :: pages)

/-- What follows the end of a page is above the cursor that is made there. -/
def ClearEnds (items : List α) : Prop :=
  ∀ front x back, items = front ++ x :: back → limit ∣ front.length + 1 → ∀ y ∈ back, cur x < key y

variable {key cur items limit} {c : Option κ} {x : α} {pages : List (List α)}

theorem above_sublist : (above key items c).Sublist items := by
  cases c with
  | none => exact List.Sublist.refl items
  | some k => exact List.filter_sublist

theorem exists_eq_append (h : (items.take limit).getLast? = some x) (hlen : limit ≤ items.length) :
    ∃ front, front.length + 1 = limit ∧ items = front ++ x :: items.drop limit := by
  obtain ⟨front, hfront⟩ := List.getLast?_eq_some_iff.mp h
  have hcount := congrArg List.length hfront
  rw [List.length_take, List.length_append, List.length_singleton] at hcount
  refine ⟨front, by omega, ?_⟩
  calc items = items.take limit ++ items.drop limit := (List.take_append_drop limit items).symm
    _ = front ++ x :: items.drop limit := by rw [hfront, List.append_assoc]; rfl

/-- **The ends are clear if the first is, and the ends of what follows are.** -/
theorem clearEnds_iff (h : (items.take limit).getLast? = some x) :
    ClearEnds key cur limit items ↔
      (∀ y ∈ items.drop limit, cur x < key y) ∧ ClearEnds key cur limit (items.drop limit) := by
  by_cases hlen : limit ≤ items.length
  · obtain ⟨front, hfront, heq⟩ := exists_eq_append h hlen
    constructor
    · intro hclear
      refine ⟨hclear front x _ heq (hfront ▸ Nat.dvd_refl _), ?_⟩
      intro front' x' back hback hdvd
      apply hclear (front ++ x :: front') x' back
      · rw [heq, hback, List.append_assoc, List.cons_append]
      · rw [List.length_append, List.length_cons,
          show front.length + (front'.length + 1) + 1 = limit + (front'.length + 1) by omega]
        exact (Nat.dvd_add_right (Nat.dvd_refl _)).mpr hdvd
    · rintro ⟨hfirst, hrest⟩ front' x' back hback hdvd
      -- the end is that of the first page or of a later one
      rw [heq] at hback
      rcases List.append_eq_append_iff.mp hback with ⟨l, rfl, hl⟩ | ⟨l, rfl, hl⟩
      · cases l with
        | nil =>
          obtain ⟨rfl, rfl⟩ := List.cons.inj hl
          exact hfirst
        | cons z l =>
          obtain ⟨rfl, htail⟩ := List.cons.inj hl
          refine hrest l x' back htail ?_
          rw [List.length_append, List.length_cons,
            show front.length + (l.length + 1) + 1 = limit + (l.length + 1) by omega] at hdvd
          exact (Nat.dvd_add_right (Nat.dvd_refl _)).mp hdvd
      · have hle := Nat.le_of_dvd (Nat.succ_pos _) hdvd
        rw [List.length_append] at hfront
        have hnil : l = [] := List.length_eq_zero_iff.mp (by omega)
        subst hnil
        obtain ⟨rfl, rfl⟩ := List.cons.inj hl
        exact hfirst
  · have hdrop : items.drop limit = [] := List.drop_eq_nil_of_le (by omega)
    rw [hdrop]
    refine iff_of_true ?_ ⟨nofun, ?_⟩
    · intro front x' back heq hdvd
      have hle := Nat.le_of_dvd (Nat.succ_pos _) hdvd
      rw [heq, List.length_append, List.length_cons] at hlen
      omega
    · intro front x' back heq
      exact absurd heq (by simp)

variable (hsorted : items.Pairwise fun x y => key x < key y) (hcur : ∀ x, key x ≤ cur x)
include hsorted hcur

/-- The items above the cursor of a page are among those after it. -/
theorem above_cur (h : ((above key items c).take limit).getLast? = some x) :
    above key items (some (cur x)) =
      ((above key items c).drop limit).filter fun y => cur x < key y := by
  obtain ⟨front, hfront⟩ := List.getLast?_eq_some_iff.mp h
  have hx : x ∈ above key items c :=
    List.mem_of_mem_take (hfront ▸ List.mem_append_right front (List.mem_singleton_self x))
  have hpage : ((above key items c).take limit).filter (fun y => cur x < key y) = [] := by
    rw [List.filter_eq_nil_iff]
    intro y hy
    rw [decide_eq_true_eq, not_lt]
    refine le_trans ?_ (hcur x)
    have hpair := (hsorted.sublist above_sublist).sublist ((above key items c).take_sublist limit)
    rw [hfront] at hy hpair
    rcases List.mem_append.mp hy with hy | hy
    · exact ((List.pairwise_append.mp hpair).2.2 y hy x (List.mem_singleton_self x)).le
    · exact (List.mem_singleton.mp hy ▸ le_rfl)
  have hsplit : (above key items c).filter (fun y => cur x < key y) =
      ((above key items c).drop limit).filter fun y => cur x < key y := by
    conv_lhs => rw [← List.take_append_drop limit (above key items c), List.filter_append, hpage]
    rfl
  rw [← hsplit]
  cases c with
  | none => rfl
  | some k =>
    unfold above
    rw [List.filter_filter]
    refine List.filter_congr fun y _ => ?_
    have hk : k < key x := of_decide_eq_true (List.mem_filter.mp hx).2
    rw [Bool.eq_iff_iff, Bool.and_eq_true, decide_eq_true_eq, decide_eq_true_eq]
    exact ⟨fun hy => ⟨hy, hk.trans_le ((hcur x).trans hy.le)⟩, And.left⟩

theorem exists_scan (c : Option κ) : ∃ pages, Scan key cur items limit c pages := by
  generalize hn : (above key items c).length = n
  induction n using Nat.strongRecOn generalizing c with
  | ind n ih =>
    cases h : ((above key items c).take limit).getLast? with
    | none => exact ⟨[], .done (List.getLast?_eq_none_iff.mp h)⟩
    | some x =>
      have hlt : (above key items (some (cur x))).length < n := by
        have hpos : 0 < ((above key items c).take limit).length := by
          rw [List.length_pos_iff]
          rintro hnil
          rw [hnil] at h
          cases h
        have hle := List.length_filter_le (fun y => decide (cur x < key y))
          ((above key items c).drop limit)
        rw [above_cur hsorted hcur h, ← hn]
        rw [List.length_take] at hpos
        rw [List.length_drop] at hle
        omega
      obtain ⟨pages, w⟩ := ih _ hlt _ rfl
      exact ⟨_, .more h w⟩

theorem Scan.flatten_sublist (w : Scan key cur items limit c pages) :
    pages.flatten.Sublist (above key items c) := by
  induction w with
  | done h => exact List.nil_sublist _
  | @more c x pages h w ih =>
    rw [List.flatten_cons]
    rw [above_cur hsorted hcur h] at ih
    have hrest := ih.trans List.filter_sublist
    conv_rhs => rw [← List.take_append_drop limit (above key items c)]
    exact (List.Sublist.refl _).append hrest

/-- **A scan has every item above its cursor exactly if the ends of the pages are clear.** -/
theorem Scan.perm_iff (hlimit : 0 < limit) (w : Scan key cur items limit c pages) :
    pages.flatten.Perm (above key items c) ↔ ClearEnds key cur limit (above key items c) := by
  induction w with
  | @done c h =>
    have hnil : above key items c = [] := by
      rcases List.take_eq_nil_iff.mp h with h0 | hnil
      · omega
      · exact hnil
    rw [hnil]
    refine iff_of_true (List.Perm.refl _) ?_
    intro front x back heq
    exact absurd heq (by simp)
  | @more c x pages h w ih =>
    have hcut := List.take_append_drop limit (above key items c)
    have habove := above_cur hsorted hcur h
    rw [clearEnds_iff h, List.flatten_cons]
    constructor
    · intro hperm
      conv_rhs at hperm => rw [← hcut]
      have hrest := (List.perm_append_left_iff _).mp hperm
      -- nothing of the rest is below the cursor, as the pages to come have it all
      have hsub := w.flatten_sublist hsorted hcur
      have hlen := hsub.length_le
      rw [hrest.length_eq, habove] at hlen
      have hall : ((above key items c).drop limit).filter (fun y => cur x < key y) =
          (above key items c).drop limit :=
        List.filter_sublist.eq_of_length_le hlen
      rw [habove, hall] at ih
      refine ⟨?_, ih.mp hrest⟩
      intro y hy
      exact of_decide_eq_true (List.filter_eq_self.mp hall y hy)
    · rintro ⟨hfirst, hclear⟩
      have hall : ((above key items c).drop limit).filter (fun y => cur x < key y) =
          (above key items c).drop limit :=
        List.filter_eq_self.mpr fun y hy => decide_eq_true (hfirst y hy)
      rw [habove, hall] at ih
      conv_rhs => rw [← hcut]
      exact (List.perm_append_left_iff _).mpr (ih.mpr hclear)

/-- **A scan from the start has every item once exactly if the ends of the pages are clear.** -/
theorem scan_perm_iff (hlimit : 0 < limit) :
    (∃ pages, Scan key cur items limit none pages ∧ pages.flatten.Perm items) ↔
      ClearEnds key cur limit items := by
  constructor
  · rintro ⟨pages, w, hperm⟩
    exact (w.perm_iff hsorted hcur hlimit).mp hperm
  · intro h
    obtain ⟨pages, w⟩ := exists_scan hsorted hcur none
    exact ⟨pages, w, (w.perm_iff hsorted hcur hlimit).mpr h⟩

end Scan

end Keyset
