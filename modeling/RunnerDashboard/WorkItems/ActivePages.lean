import RunnerDashboard.Lib.Keyset
import RunnerDashboard.WorkItems.Store

/-!
# Walking the active work items

The pages of the items that are not terminal, from the first on, with the cursor of the last item of
each page.  A missing deadline stands for `~` in the order of the rows and in the cursor; an empty
one does so in the cursor only, and the items between the empty text and `~` are then passed over.

## Main results

* `complete_iff` — **the walk has every item once exactly if no page passes over any**.
-/

namespace WorkItems

def nonTerminal (s : Store) : List Row := s.matching fun _ w => !w.state.terminal

/-- The items that are not terminal, earliest deadline first. -/
def active (s : Store) : List Row := (nonTerminal s).mergeSort fun x y => sortKey x ≤ sortKey y

/-- The pages from a cursor on until one is empty. -/
inductive Walk (s : Store) (limit : ℤ) : Option Cursor → List (List Row) → Prop
  | empty {after : Option Cursor} (h : listActivePage s after limit = []) : Walk s limit after []
  | page {after : Option Cursor} {x : Row} {pages : List (List Row)}
      (h : (listActivePage s after limit).getLast? = some x)
      (w : Walk s limit (some (activeCursor x)) pages) :
      Walk s limit after (listActivePage s after limit :: pages)

/-- The walk from the start ends, and its pages have every item that is not terminal once. -/
def Complete (s : Store) (limit : ℤ) : Prop :=
  ∃ pages, Walk s limit none pages ∧ pages.flatten.Perm (nonTerminal s)

/-- A page ends on an empty deadline, and an item after it does not sort after
`('~', created_at, id)`. -/
def PassesOver (s : Store) (limit : ℤ) : Prop :=
  ∃ front x back y, active s = front ++ x :: back ∧ limit.toNat ∣ front.length + 1 ∧
    x.2.expectedBy = some "" ∧ y ∈ back ∧ sortKey y ≤ Cursor.toKey ("~", x.2.createdAt, x.1)

variable {s : Store} {limit : ℤ} {after : Option Cursor}

/-! ### The order of the rows -/

theorem sortKey_inj {x y : Row} (h : sortKey x = sortKey y) : x.1 = y.1 := by
  have hrest := congrArg Prod.snd (toLex.injective h)
  exact congrArg Prod.snd (toLex.injective hrest)

def cursorKey (row : Row) : SortKey := (activeCursor row).toKey

theorem cursorKey_eq {row : Row} (h : row.2.expectedBy ≠ some "") :
    cursorKey row = sortKey row := by
  unfold cursorKey activeCursor sortKey
  cases hby : row.2.expectedBy with
  | none => rfl
  | some text =>
    have hne : text ≠ "" := by
      rintro rfl
      exact h hby
    dsimp only [Option.getD_some]
    rw [if_neg hne]

theorem cursorKey_of_empty {row : Row} (h : row.2.expectedBy = some "") :
    cursorKey row = Cursor.toKey ("~", row.2.createdAt, row.1) := by
  unfold cursorKey activeCursor
  rw [h]
  rfl

theorem sortKey_le_cursorKey (row : Row) : sortKey row ≤ cursorKey row := by
  by_cases h : row.2.expectedBy = some ""
  · rw [cursorKey_of_empty h]
    apply le_of_lt
    unfold sortKey Cursor.toKey
    rw [h]
    exact Prod.Lex.toLex_lt_toLex.mpr (.inl (show "" < "~" by decide))
  · exact (cursorKey_eq h).ge

theorem nodup_nonTerminal (s : Store) : ((nonTerminal s).map Prod.fst).Nodup :=
  s.nodupKeys.sublist (List.filter_sublist.map Prod.fst)

theorem pairwise_ne_nonTerminal (s : Store) :
    (nonTerminal s).Pairwise fun x y => sortKey x ≠ sortKey y :=
  (List.pairwise_map.mp (nodup_nonTerminal s)).imp fun hne heq => hne (sortKey_inj heq)

theorem pairwise_active (s : Store) : (active s).Pairwise fun x y => sortKey x < sortKey y :=
  Keyset.pairwise_mergeSort (pairwise_ne_nonTerminal s)

/-- **A page is cut from the items above its cursor.** -/
theorem listActivePage_eq (s : Store) (after : Option Cursor) (limit : ℤ) :
    listActivePage s after limit =
      limitRows limit (Keyset.above sortKey (active s) (after.map Cursor.toKey)) := by
  unfold listActivePage
  dsimp only
  congr 1
  cases after with
  | none =>
    simp only [Bool.and_true]
    rfl
  | some c =>
    have hrows : (s.matching fun id w => !w.state.terminal && decide (c.toKey < sortKey (id, w))) =
        (nonTerminal s).filter fun row => c.toKey < sortKey row := by
      unfold nonTerminal Sql.Table.matching
      rw [List.filter_filter]
      refine List.filter_congr fun row _ => ?_
      rw [Bool.and_comm]
    dsimp only
    rw [hrows, Keyset.mergeSort_filter (pairwise_ne_nonTerminal s)]
    rfl

/-! ### The walk as a scan of the keys -/

/-- A page size cuts like the number of items it lets through. -/
theorem limitRows_eq {α : Type*} {limit : ℤ} {n : ℕ} {l : List α}
    (h : limit = n ∨ limit < 0 ∧ l.length ≤ n) : limitRows limit l = l.take n := by
  rcases h with rfl | ⟨hneg, hlen⟩
  · rfl
  · rw [List.take_of_length_le hlen]
    cases limit with
    | ofNat m => exact absurd hneg (Int.not_lt.mpr (Int.natCast_nonneg m))
    | negSucc m => rfl

theorem listActivePage_eq_take {n : ℕ} (h : limit = n ∨ limit < 0 ∧ (active s).length ≤ n)
    (after : Option Cursor) : listActivePage s after limit =
      (Keyset.above sortKey (active s) (after.map Cursor.toKey)).take n := by
  rw [listActivePage_eq]
  apply limitRows_eq
  exact h.imp_right fun ⟨hneg, hlen⟩ => ⟨hneg, Keyset.above_sublist.length_le.trans hlen⟩

/-- **The walk is the scan of the keys.** -/
theorem walk_iff {n : ℕ} (h : limit = n ∨ limit < 0 ∧ (active s).length ≤ n)
    {pages : List (List Row)} : Walk s limit after pages ↔
      Keyset.Scan sortKey cursorKey (active s) n (after.map Cursor.toKey) pages := by
  have hpage := listActivePage_eq_take h
  constructor
  · intro w
    induction w with
    | empty hnil => exact .done (hpage _ ▸ hnil)
    | page hlast w ih =>
      rw [hpage] at hlast ⊢
      exact .more hlast ih
  · intro w
    generalize hc : after.map Cursor.toKey = c at w
    induction w generalizing after with
    | done hnil =>
      subst hc
      exact .empty ((hpage after).trans hnil)
    | more hlast w ih =>
      subst hc
      rw [← hpage] at hlast ⊢
      exact .page hlast (ih rfl)

theorem exists_walk (s : Store) (limit : ℤ) : ∃ pages, Walk s limit none pages := by
  have hscan (n : ℕ) : ∃ pages, Keyset.Scan sortKey cursorKey (active s) n none pages :=
    Keyset.exists_scan (pairwise_active s) sortKey_le_cursorKey none
  rcases lt_or_ge limit 0 with hneg | hpos
  · obtain ⟨pages, w⟩ := hscan (active s).length
    exact ⟨pages, (walk_iff (.inr ⟨hneg, le_rfl⟩)).mpr w⟩
  · obtain ⟨pages, w⟩ := hscan limit.toNat
    exact ⟨pages, (walk_iff (.inl (Int.toNat_of_nonneg hpos).symm)).mpr w⟩

/-! ### Items that are passed over -/

theorem perm_active (s : Store) : (active s).Perm (nonTerminal s) := List.mergeSort_perm _ _

/-- The rows in strict order are those in the order of the pages. -/
theorem active_eq {l : List Row} (hrows : nonTerminal s = l)
    (hl : l.Pairwise fun x y => sortKey x < sortKey y) : active s = l :=
  Keyset.eq_of_perm sortKey (hrows ▸ perm_active s) (pairwise_active s) hl

theorem clearEnds_iff_not_passesOver : Keyset.ClearEnds sortKey cursorKey limit.toNat (active s) ↔
    ¬ PassesOver s limit := by
  constructor
  · rintro h ⟨front, x, back, y, hsplit, hdvd, hempty, hy, hle⟩
    rw [← cursorKey_of_empty hempty] at hle
    exact absurd (h front x back hsplit hdvd y hy) hle.not_gt
  · intro h front x back hsplit hdvd y hy
    by_cases hempty : x.2.expectedBy = some ""
    · by_contra hle
      rw [cursorKey_of_empty hempty, not_lt] at hle
      exact h ⟨front, x, back, y, hsplit, hdvd, hempty, hy, hle⟩
    · -- the cursor is the key, and the rows are in order
      rw [cursorKey_eq hempty]
      have hpair := pairwise_active s
      rw [hsplit] at hpair
      exact (List.pairwise_cons.mp (List.pairwise_append.mp hpair).2.1).1 y hy

/-- A page of `n` items at most. -/
theorem complete_iff_clearEnds {n : ℕ} (h : limit = n ∨ limit < 0 ∧ (active s).length ≤ n)
    (hpos : 0 < n) : Complete s limit ↔ Keyset.ClearEnds sortKey cursorKey n (active s) := by
  rw [← Keyset.scan_perm_iff (pairwise_active s) sortKey_le_cursorKey hpos]
  refine exists_congr fun pages => and_congr (walk_iff h) ?_
  exact ⟨fun hp => hp.trans (perm_active s).symm, fun hp => hp.trans (perm_active s)⟩

theorem complete_zero_iff : Complete s 0 ↔ nonTerminal s = [] := by
  constructor
  · rintro ⟨pages, w, hperm⟩
    cases w with
    | empty h => exact List.nil_perm.mp hperm
    | page h w =>
      exact absurd h (by simp [listActivePage_eq_take (.inl rfl : (0 : ℤ) = (0 : ℕ) ∨ _)])
  · intro h
    refine ⟨[], .empty ?_, h ▸ List.Perm.refl _⟩
    rw [listActivePage_eq_take (.inl rfl : (0 : ℤ) = (0 : ℕ) ∨ _), List.take_zero]

/-- **The walk has every item once exactly if no page passes over any.** -/
theorem complete_iff (s : Store) (limit : ℤ) :
    Complete s limit ↔ (limit = 0 → nonTerminal s = []) ∧ ¬ PassesOver s limit := by
  rcases lt_trichotomy limit 0 with hneg | rfl | hpos
  · -- all items are on one page
    rw [complete_iff_clearEnds (.inr ⟨hneg, Nat.le_succ _⟩) (Nat.succ_pos _)]
    refine iff_of_true ?_ ⟨fun h => absurd h hneg.ne, ?_⟩
    · intro front x back hsplit hdvd
      have hle := Nat.le_of_dvd (Nat.succ_pos _) hdvd
      rw [hsplit, List.length_append, List.length_cons] at hle
      omega
    · rintro ⟨front, x, back, y, -, hdvd, -⟩
      rw [Int.toNat_of_nonpos hneg.le] at hdvd
      exact absurd (Nat.eq_zero_of_zero_dvd hdvd) (Nat.succ_ne_zero _)
  · rw [complete_zero_iff]
    refine ⟨fun h => ⟨fun _ => h, ?_⟩, fun h => h.1 rfl⟩
    rintro ⟨front, x, back, y, -, hdvd, -⟩
    exact absurd (Nat.eq_zero_of_zero_dvd hdvd) (Nat.succ_ne_zero _)
  · rw [complete_iff_clearEnds (.inl (Int.toNat_of_nonneg hpos.le).symm) (by omega),
      clearEnds_iff_not_passesOver]
    exact ⟨fun h => ⟨fun h0 => absurd h0 hpos.ne', h⟩, And.right⟩

def emptyDeadline : CreateWorkItem := { title := "a", requestedBy := "u", expectedBy := some "" }

def juneDeadline : CreateWorkItem :=
  { title := "b", requestedBy := "u", expectedBy := some "2026-06-01" }

/-- With pages of one item, the item with a deadline is passed over. -/
theorem not_complete_one : ∃ s₁ s₂,
    createWorkItem Sql.Table.empty emptyDeadline "wi-1" "2026-05-01" = .ok s₁ ∧
      createWorkItem s₁ juneDeadline "wi-2" "2026-05-01" = .ok s₂ ∧ ¬ Complete s₂ 1 := by
  refine ⟨_, _, rfl, rfl, ?_⟩
  rw [complete_iff_clearEnds (.inl rfl : (1 : ℤ) = (1 : ℕ) ∨ _) one_pos]
  intro h
  refine absurd
    (h [] _ _ ((active_eq rfl ?_).trans rfl) (one_dvd _) _ (List.mem_singleton_self _)) ?_
  · apply List.pairwise_pair.mpr
    exact Prod.Lex.toLex_lt_toLex.mpr (.inl (show "" < "2026-06-01" by decide))
  · apply not_lt_of_ge
    exact Prod.Lex.toLex_le_toLex.mpr (.inl (show "2026-06-01" < "~" by decide))

end WorkItems
