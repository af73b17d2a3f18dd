import Mathlib.Order.OrderDual
import RunnerDashboard.Lib.Keyset

/-!
# Pages that are looked up by their keys

Each page is a query of its own: the items that match now and are below the cursor, in descending
order of their keys, and one more than the page has, to know whether there are more.  Which items
match may change from page to page.

## Main definitions

* `Keyset.belowCursor`, `Keyset.seek` — the items below a cursor, and the page of a cursor.
* `Keyset.Seeks` — the pages from a cursor on, up to one without a next cursor.

## Main results

* `Keyset.seek_none`, `Keyset.seek_some` — what a page leaves out is below its next cursor.
* `Keyset.exists_seeks` — there is a last page.
* `Keyset.Seeks.pairwise`, `Keyset.Seeks.mem` — **no item is on two pages, and one that matches each
  time is on some page.**
-/

namespace Keyset

variable {α κ : Type*} [LinearOrder κ] (key : α → κ) (limit : ℕ)

/-- The items that a cursor lets through. -/
def belowCursor : Option κ → α → Bool
  | none, _ => true
  | some k, x => key x < k

def descending (items : List α) : List α := items.mergeSort fun x y => key y ≤ key x

/-- The page of a cursor, with the cursor of the next one. -/
def seek (items : List α) (c : Option κ) : List α × Option κ :=
  let rows := (descending key (items.filter (belowCursor key c))).take (limit + 1)
  (rows.take limit, if limit < rows.length then (rows.take limit).getLast?.map key else none)

/-- The pages from a cursor on, where `items n` match at page `n`. -/
inductive Seeks (items : ℕ → List α) : ℕ → Option κ → List (List α) → Prop
  | last {n : ℕ} {c : Option κ} (h : (seek key limit (items n) c).2 = none) :
    Seeks items n c [(seek key limit (items n) c).1]
  | more {n : ℕ} {c : Option κ} {k : κ} {pages : List (List α)}
    (h : (seek key limit (items n) c).2 = some k) (w : Seeks items (n + 1) (some k) pages) :
    Seeks items n c ((seek key limit (items n) c).1 :: pages)

variable {key limit} {items : List α} {c : Option κ} {k : κ} {x : α}

/-! ### Descending lists -/

theorem mem_descending : x ∈ descending key items ↔ x ∈ items := List.mem_mergeSort

theorem pairwise_descending (h : items.Pairwise fun x y => key x ≠ key y) :
    (descending key items).Pairwise fun x y => key y < key x :=
  @pairwise_mergeSort α κᵒᵈ _ (fun x => OrderDual.toDual (key x)) items
    (h.imp fun hne heq => hne (OrderDual.toDual.injective heq))

/-- The last item of a part at the front is above what follows. -/
theorem lt_of_getLast? {front back : List α} (h : (front ++ back).Pairwise fun x y => key y < key x)
    {last : α} (hlast : front.getLast? = some last) (hx : x ∈ back) : key x < key last :=
  (List.pairwise_append.mp h).2.2 last (List.mem_of_getLast? hlast) x hx

/-! ### One page -/

theorem seek_eq (items : List α) (c : Option κ) :
    seek key limit items c =
      ((descending key (items.filter (belowCursor key c))).take limit,
        if limit < (descending key (items.filter (belowCursor key c))).length then
          ((descending key (items.filter (belowCursor key c))).take limit).getLast?.map key
        else none) := by
  unfold seek
  have hlen (l : List α) : limit < (l.take (limit + 1)).length ↔ limit < l.length := by
    rw [List.length_take]
    omega
  simp only [List.take_take, Nat.min_eq_left (Nat.le_succ limit), hlen]

theorem of_mem_seek (h : x ∈ (seek key limit items c).1) : x ∈ items ∧ belowCursor key c x := by
  rw [seek_eq] at h
  exact List.mem_filter.mp (mem_descending.mp (List.mem_of_mem_take h))

theorem pairwise_seek (h : items.Pairwise fun x y => key x ≠ key y) :
    (seek key limit items c).1.Pairwise fun x y => key y < key x := by
  rw [seek_eq]
  exact (pairwise_descending (h.sublist List.filter_sublist)).sublist (List.take_sublist _ _)

/-- **A page without a next cursor has everything that is left.** -/
theorem seek_none (hlimit : 0 < limit) (h : (seek key limit items c).2 = none) (hx : x ∈ items)
    (hc : belowCursor key c x) : x ∈ (seek key limit items c).1 := by
  have hmem : x ∈ descending key (items.filter (belowCursor key c)) :=
    mem_descending.mpr (List.mem_filter.mpr ⟨hx, hc⟩)
  rw [seek_eq] at h ⊢
  generalize descending key (items.filter (belowCursor key c)) = rows at h hmem
  by_cases hlen : limit < rows.length
  · simp only [if_pos hlen, Option.map_eq_none_iff, List.getLast?_eq_none_iff,
      List.take_eq_nil_iff] at h
    rcases h with rfl | rfl
    · omega
    · cases hmem
  · rwa [List.take_of_length_le (Nat.not_lt.mp hlen)]

/-- **What a page leaves out is below its next cursor**, and that is the key of one of its items. -/
theorem seek_some (hkey : items.Pairwise fun x y => key x ≠ key y)
    (h : (seek key limit items c).2 = some k) :
    (∃ last ∈ (seek key limit items c).1, key last = k) ∧
      (∀ x ∈ (seek key limit items c).1, k ≤ key x) ∧
      ∀ x ∈ items, belowCursor key c x → x ∉ (seek key limit items c).1 → key x < k := by
  have hsorted := pairwise_descending (hkey.sublist (List.filter_sublist (p := belowCursor key c)))
  have hmem (x : α) : x ∈ descending key (items.filter (belowCursor key c)) ↔
      x ∈ items ∧ belowCursor key c x := by
    rw [mem_descending, List.mem_filter]
  rw [seek_eq] at h ⊢
  generalize descending key (items.filter (belowCursor key c)) = rows at h hmem hsorted
  have hlen : limit < rows.length := by
    by_contra hlen
    simp [if_neg hlen] at h
  simp only [if_pos hlen] at h
  obtain ⟨last, hlast, rfl⟩ := Option.map_eq_some_iff.mp h
  refine ⟨⟨last, List.mem_of_getLast? hlast, rfl⟩, ?_, ?_⟩
  · intro x hx
    obtain ⟨front, hfront⟩ := List.getLast?_eq_some_iff.mp hlast
    have hpair := hsorted.sublist (List.take_sublist limit rows)
    rw [hfront] at hx hpair
    rcases List.mem_append.mp hx with hx | hx
    · exact ((List.pairwise_append.mp hpair).2.2 x hx last (List.mem_singleton_self last)).le
    · rw [List.mem_singleton.mp hx]
  · intro x hx hc hout
    rw [← List.take_append_drop limit rows] at hsorted
    refine lt_of_getLast? hsorted hlast ?_
    have hin := (hmem x).mpr ⟨hx, hc⟩
    rw [← List.take_append_drop limit rows] at hin
    exact (List.mem_append.mp hin).resolve_left hout

/-- A cursor lets less through than the one before it. -/
theorem belowCursor_of_lt {last : α} (hlast : belowCursor key c last) (h : key x < key last) :
    belowCursor key c x := by
  cases c with
  | none => rfl
  | some k =>
    simp only [belowCursor, decide_eq_true_eq] at hlast ⊢
    exact h.trans hlast

/-! ### All pages -/

section Pages

variable {items : ℕ → List α} {n : ℕ} {pages : List (List α)}
  (hkey : ∀ n, (items n).Pairwise fun x y => key x ≠ key y)
include hkey

theorem belowCursor_of_next (h : (seek key limit (items n) c).2 = some k)
    (hx : belowCursor key (some k) x) : belowCursor key c x := by
  obtain ⟨⟨last, hlast, rfl⟩, -⟩ := seek_some (hkey n) h
  exact belowCursor_of_lt (of_mem_seek hlast).2 (of_decide_eq_true hx)

theorem countP_belowCursor_lt {all : List α} (hsub : items n ⊆ all)
    (h : (seek key limit (items n) c).2 = some k) :
    all.countP (belowCursor key (some k)) < all.countP (belowCursor key c) := by
  obtain ⟨⟨last, hlast, rfl⟩, -⟩ := seek_some (hkey n) h
  obtain ⟨hmem, hbelow⟩ := of_mem_seek hlast
  obtain ⟨front, back, hsplit⟩ := List.append_of_mem (hsub hmem)
  have hle (l : List α) :
      l.countP (belowCursor key (some (key last))) ≤ l.countP (belowCursor key c) :=
    List.countP_mono_left fun x _ hx => belowCursor_of_lt hbelow (of_decide_eq_true hx)
  have hlast' : belowCursor key (some (key last)) last = false := decide_eq_false (lt_irrefl _)
  have hfront := hle front
  have hback := hle back
  rw [hsplit, List.countP_append, List.countP_append, List.countP_cons, List.countP_cons, hlast',
    hbelow]
  simp only [Bool.false_eq_true, if_false, if_true]
  omega

/-- **There is a last page.** -/
theorem exists_seeks {all : List α} (hsub : ∀ n, items n ⊆ all) (n : ℕ) (c : Option κ) :
    ∃ pages, Seeks key limit items n c pages := by
  -- induction on how many items are below the cursor
  generalize hm : all.countP (belowCursor key c) = m
  induction m using Nat.strongRecOn generalizing n c with
  | ind m ih =>
    cases h : (seek key limit (items n) c).2 with
    | none => exact ⟨_, .last h⟩
    | some k =>
      have hlt := countP_belowCursor_lt hkey (hsub n) h
      obtain ⟨pages, w⟩ := ih _ (hm ▸ hlt) (n + 1) (some k) rfl
      exact ⟨_, .more h w⟩

omit hkey in
theorem Seeks.exists_mem {r : ℕ} (w : Seeks key limit items n c pages)
    (hx : x ∈ (pages.take r).flatten) : ∃ m < r, x ∈ items (n + m) := by
  induction w generalizing r with
  | @last n c h =>
    cases r with
    | zero => cases hx
    | succ r =>
      simp only [List.take_succ_cons, List.take_nil, List.flatten_singleton] at hx
      exact ⟨0, Nat.succ_pos r, (of_mem_seek hx).1⟩
  | @more n c k pages h w ih =>
    cases r with
    | zero => cases hx
    | succ r =>
      rw [List.take_succ_cons, List.flatten_cons] at hx
      rcases List.mem_append.mp hx with hx | hx
      · exact ⟨0, Nat.succ_pos r, (of_mem_seek hx).1⟩
      · obtain ⟨m, hm, hx⟩ := ih hx
        exact ⟨m + 1, Nat.succ_lt_succ hm, by rwa [Nat.add_right_comm, Nat.add_assoc] at hx⟩

theorem Seeks.length_le (w : Seeks key limit items n c pages) :
    pages.length ≤ pages.flatten.length + 1 := by
  induction w with
  | last h =>
    rw [List.length_singleton]
    omega
  | more h w ih =>
    obtain ⟨⟨last, hlast, -⟩, -⟩ := seek_some (hkey _) h
    have hpos := List.length_pos_of_mem hlast
    rw [List.length_cons, List.flatten_cons, List.length_append]
    omega

theorem Seeks.belowCursor (w : Seeks key limit items n c pages) (hx : x ∈ pages.flatten) :
    belowCursor key c x := by
  induction w with
  | last h =>
    rw [List.flatten_singleton] at hx
    exact (of_mem_seek hx).2
  | more h w ih =>
    rcases List.mem_append.mp (List.flatten_cons ▸ hx) with hx | hx
    · exact (of_mem_seek hx).2
    · exact belowCursor_of_next hkey h (ih hx)

/-- **The pages together are in descending order**, so no item is there twice. -/
theorem Seeks.pairwise (w : Seeks key limit items n c pages) :
    pages.flatten.Pairwise fun x y => key y < key x := by
  induction w with
  | @last n c h =>
    rw [List.flatten_singleton]
    exact pairwise_seek (hkey n)
  | @more n c k pages h w ih =>
    rw [List.flatten_cons]
    refine List.pairwise_append.mpr ⟨pairwise_seek (hkey n), ih, ?_⟩
    intro x hx y hy
    have hbelow : key y < k := of_decide_eq_true (w.belowCursor hkey hy)
    exact hbelow.trans_le ((seek_some (hkey n) h).2.1 x hx)

/-- **An item that matches each time is on some page.** -/
theorem Seeks.mem (hlimit : 0 < limit) (w : Seeks key limit items n c pages)
    (hc : Keyset.belowCursor key c x) (hx : ∀ m < pages.length, x ∈ items (n + m)) :
    x ∈ pages.flatten := by
  induction w with
  | last h =>
    rw [List.flatten_singleton]
    exact seek_none hlimit h (hx 0 Nat.zero_lt_one) hc
  | @more n c k pages h w ih =>
    rw [List.flatten_cons, List.mem_append]
    by_cases hpage : x ∈ (seek key limit (items n) c).1
    · exact .inl hpage
    · right
      -- it is below the next cursor, so the rest of the pages has it
      have hnext := (seek_some (hkey n) h).2.2 x (hx 0 (Nat.succ_pos _)) hc hpage
      refine ih (decide_eq_true hnext) ?_
      intro m hm
      have hlater := hx (m + 1) (Nat.succ_lt_succ hm)
      rwa [Nat.add_comm m 1, ← Nat.add_assoc] at hlater

end Pages

end Keyset
