import Mathlib.Data.Prod.Lex
import RunnerDashboard.Lib.Seek
import RunnerDashboard.Memory.AppendRuns

/-!
# Lists, pages and prompt lessons

Three calls read entries of the store by a filter.  The pages and the prompt lessons leave every
filter to the query, or read on until there are enough entries; `list_entries` looks at the tag only
after the query has cut the list at its limit.

## Main results

* `visitsOnce` — **the pages visit every entry once.**
* `fillsUp` — **there are as many prompt lessons as asked for, if there are so many.**
-/

namespace Memory

open Sql MemoryStore

variable {β : Type*}

/-! ### Filters -/

/-- What `datetime.fromisoformat` reads: the instant, as far as there is an offset. -/
inductive IsoInstant
  | aware (microseconds : ℤ)
  | naive
  deriving DecidableEq

/-- `datetime.fromisoformat`, nothing where it raises. -/
abbrev IsoReader := String → Option IsoInstant

def expiryIsFuture (fromisoformat : IsoReader) (expiresAt : Option String) (nowIso : String) :
    Bool :=
  match expiresAt with
  | none => true
  | some text =>
    match fromisoformat text, fromisoformat nowIso with
    | some (.aware expiry), some (.aware now) => now < expiry
    -- without an offset, or refused
    | _, _ => false

/-- An entry that all may see, or the members of one group as well. -/
def visibleTo (includeBarbOnly : Bool) (visibility : Option String) : Bool :=
  fleetVisible visibility || includeBarbOnly && visibility = some "barb-only"

/-- The filters of `list_entries_page`. -/
structure PageFilter where
  entryType : Option String := none
  repo : Option String := none
  reviewStatus : Option String := none
  includeSuperseded : Bool := false
  includeBarbOnly : Bool := false
  activeOnly : Bool := false

/-- The `WHERE` clause of a filter; `now` is the time of the call. -/
def PageFilter.clause (f : PageFilter) (fromisoformat : IsoReader) (now : String) (_ : String)
    (r : Row β) : Bool :=
  filterBy f.entryType (some r.entry.entryType) && filterBy f.repo r.entry.repo &&
    filterBy f.reviewStatus r.entry.reviewStatus &&
    (f.includeSuperseded || r.entry.supersededBy.isNone) &&
    visibleTo f.includeBarbOnly r.entry.visibility &&
    (!f.activeOnly || expiryIsFuture fromisoformat r.entry.expiresAt now)

/-- The filters of `list_entries`. -/
structure EntryFilter extends PageFilter where
  since : Option String := none
  author : Option String := none
  tag : Option String := none

/-- The `WHERE` clause of `list_entries`, which does not look at the tag. -/
def EntryFilter.clause (f : EntryFilter) (fromisoformat : IsoReader) (now : String) (k : String)
    (r : Row β) : Bool :=
  ((f.since.filter (· ≠ "")).all fun since => decide (since ≤ r.entry.createdAt)) &&
    filterBy f.author (some r.entry.authorPrincipal) && f.toPageFilter.clause fromisoformat now k r

/-- Whether an entry has the tag that is asked for; an empty tag is none. -/
def EntryFilter.tagged (f : EntryFilter) (_ : String) (r : Row β) : Bool :=
  (f.tag.filter (· ≠ "")).all fun tag => tag ∈ r.entry.tags

/-! ### Lists -/

/-- The answers of a `SELECT … ORDER BY created_at DESC`: rows of one time stand in any order. -/
structure Arranged (s : MemoryStore β) (clause : String → Row β → Bool)
    (order : List (String × Row β)) : Prop where
  perm : order.Perm (s.entries.matching clause)
  sorted : order.Pairwise fun x y => y.2.entry.createdAt ≤ x.2.entry.createdAt

/-- `list_entries`, where the query orders the rows so: the limit is that of the query, and the tag
is looked at after it. -/
def listTagged (f : EntryFilter) (order : List (String × Row β)) (limit : ℕ) :
    List (String × Row β) :=
  (order.take limit).filter fun x => f.tagged x.1 x.2

/-- The newest of some rows, in the order of their times. -/
structure Newest (limit : ℕ) (rows result : List (String × Row β)) : Prop where
  nodup : result.Nodup
  sub : result ⊆ rows
  length : result.length = min limit rows.length
  sorted : result.Pairwise fun x y => y.2.entry.createdAt ≤ x.2.entry.createdAt
  newest : ∀ x ∈ result, ∀ y ∈ rows, y ∉ result → y.2.entry.createdAt ≤ x.2.entry.createdAt

/-! ### Pages -/

def pageKey (x : String × Row β) : Lex (String × String) := toLex (x.2.entry.createdAt, x.1)

/-- `list_entries_page`, with the clause of its filter. -/
def listEntriesPage (s : MemoryStore β) (clause : String → Row β → Bool) (limit : ℕ)
    (cursor : Option (String × String)) :
    List (String × Row β) × Option (String × String) :=
  let below (k : String) (r : Row β) : Bool :=
    match cursor with
    | none => true
    | some (createdAt, id) =>
      r.entry.createdAt < createdAt || r.entry.createdAt = createdAt && k < id
  let rows := ((s.entries.matching fun k r => clause k r && below k r).mergeSort
    fun x y => pageKey y ≤ pageKey x).take (limit + 1)
  let entries := rows.take limit
  (entries,
    if limit < rows.length then entries.getLast?.map fun x => (x.2.entry.createdAt, x.1) else none)

/-- The pages from a cursor on, up to one without a next cursor.  Each page reads the clock. -/
inductive Pages (s : MemoryStore β) (clause : ℕ → String → Row β → Bool) (limit : ℕ) :
    ℕ → Option (String × String) → List (List (String × Row β)) → Prop
  | last {n : ℕ} {c : Option (String × String)}
    (h : (listEntriesPage s (clause n) limit c).2 = none) :
    Pages s clause limit n c [(listEntriesPage s (clause n) limit c).1]
  | more {n : ℕ} {c : Option (String × String)} {next : String × String}
    {pages : List (List (String × Row β))}
    (h : (listEntriesPage s (clause n) limit c).2 = some next)
    (w : Pages s clause limit (n + 1) (some next) pages) :
    Pages s clause limit n c ((listEntriesPage s (clause n) limit c).1 :: pages)

/-- **The pages end, have no entry twice, and have each one that satisfies the filter whenever a
page is read**, and no other than those that did when their page was read. -/
def VisitsOnce (s : MemoryStore β) (clause : ℕ → String → Row β → Bool) (limit : ℕ) : Prop :=
  ∃ pages, Pages s clause limit 0 none pages ∧ (pages.flatten.map Prod.fst).Nodup ∧
    (∀ x ∈ s.entries.rows, (∀ n < pages.length, clause n x.1 x.2) → x ∈ pages.flatten) ∧
    ∀ x ∈ pages.flatten, x ∈ s.entries.rows ∧ ∃ n < pages.length, clause n x.1 x.2

/-! ### Prompt lessons -/

/-- The filter of `get_prompt_lessons`. -/
def lessonFilter (repo : Option String) (isBarbPrincipal : Bool) : PageFilter where
  entryType := some "lesson"
  repo
  reviewStatus := some "accepted"
  includeBarbOnly := isBarbPrincipal
  activeOnly := true

/-- `_lesson_evidence_still_verifies`: `verify_lesson_evidence` looks for the text of the lesson
in the run it comes from. -/
def lessonEvidenceStillVerifies (verifyLessonEvidence : String → String → String → Json → Bool)
    (e : MemoryEntry Json) : Bool :=
  match e.body.field? "locator", e.sourceRun.filter (· ≠ "") with
  | none, _ => true
  | some .null, _ => true
  | _, none => true
  | some locator, some sourceRun =>
    match e.body.field? "text" with
    | some (.str text) => verifyLessonEvidence sourceRun (e.repo.getD "") text locator
    | _ => false

/-- The loop of `get_prompt_lessons`, with the number of pages that are read. -/
def promptLessons (s : MemoryStore β) (clause : ℕ → String → Row β → Bool)
    (verifies : Row β → Bool) (limit : ℕ) :
    ℕ → ℕ → Option (String × String) → List (String × Row β) → Option (List (String × Row β) × ℕ)
  | 0, _, _, _ => none
  | fuel + 1, n, cursor, results =>
    if results.length < limit then
      let page := listEntriesPage s (clause n) limit cursor
      let results := results ++ page.1.filter fun x => verifies x.2
      match page.2 with
      | none => some (results.take limit, n + 1)
      | some next => promptLessons s clause verifies limit fuel (n + 1) (some next) results
    else some (results.take limit, n)

/-- **The loop ends, and gives `limit` lessons if there are as many that verify and are selected
whenever a page is read.** -/
def FillsUp (s : MemoryStore β) (clause : ℕ → String → Row β → Bool) (verifies : Row β → Bool)
    (limit : ℕ) : Prop :=
  ∃ results reads, (∀ fuel, s.entries.rows.length < fuel →
      promptLessons s clause verifies limit fuel 0 none [] = some (results, reads)) ∧
    (results.map Prod.fst).Nodup ∧
    (∀ x ∈ results, x ∈ s.entries.rows ∧ verifies x.2 ∧ ∃ n < reads, clause n x.1 x.2) ∧
    (limit ≤ (s.entries.rows.countP fun x =>
        decide (∀ n < reads, clause n x.1 x.2) && verifies x.2) →
      results.length = limit)

/-! ### A list that is cut before its last filter -/

section List

variable {s : MemoryStore β} {order rows : List (String × Row β)} {limit : ℕ}

/-- A part of a list in descending order that is cut at some place has its newest items. -/
theorem newest_iff_length {front back : List (String × Row β)} (hperm : (front ++ back).Perm rows)
    (hnodup : rows.Nodup)
    (hsorted : (front ++ back).Pairwise fun x y => y.2.entry.createdAt ≤ x.2.entry.createdAt) :
    Newest limit rows front ↔ front.length = min limit rows.length := by
  constructor
  · exact fun h => h.length
  · intro hlength
    have hpair := List.pairwise_append.mp hsorted
    refine ⟨?_, ?_, hlength, hpair.1, ?_⟩
    · exact (hperm.nodup_iff.mpr hnodup).sublist (List.sublist_append_left front back)
    · intro x hx
      exact hperm.mem_iff.mp (List.mem_append_left back hx)
    · intro x hx y hy hout
      have hy := (List.mem_append.mp (hperm.mem_iff.mpr hy)).resolve_left hout
      exact hpair.2.2 x hx y hy

/-- How much of a list passes before a cut: as much as there can be, if nothing that does not pass
stands before something that does. -/
theorem length_filter_take_iff {α : Type*} {p : α → Bool} {order : List α} :
    ((order.take limit).filter p).length = min limit (order.filter p).length ↔
      ∀ x ∈ order.take limit, ∀ y ∈ order.drop limit, p y → p x := by
  have hsplit : (order.filter p).length =
      ((order.take limit).filter p).length + ((order.drop limit).filter p).length := by
    rw [← List.length_append, ← List.filter_append, List.take_append_drop]
  have hle : ((order.take limit).filter p).length ≤ (order.take limit).length :=
    List.length_filter_le p _
  rw [hsplit]
  constructor
  · intro h x hx y hy hp
    have hpos : 0 < ((order.drop limit).filter p).length :=
      List.length_pos_of_mem (List.mem_filter.mpr ⟨hy, hp⟩)
    rw [List.length_take] at hle
    have hfull : ((order.take limit).filter p).length = (order.take limit).length := by
      rw [List.length_take]
      omega
    exact List.length_filter_eq_length_iff.mp hfull x hx
  · intro h
    by_cases hback : ∃ y ∈ order.drop limit, p y
    · obtain ⟨y, hy, hp⟩ := hback
      have hfull := List.length_filter_eq_length_iff.mpr fun x hx => h x hx y hy hp
      have hlen := List.length_pos_of_mem hy
      rw [List.length_drop] at hlen
      rw [hfull, List.length_take]
      omega
    · -- nothing behind the cut passes
      have hnil : (order.drop limit).filter p = [] := by
        rw [List.filter_eq_nil_iff]
        intro y hy hp
        exact hback ⟨y, hy, hp⟩
      rw [hnil, List.length_nil, Nat.add_zero, Nat.min_eq_right]
      exact hle.trans (List.length_take_le limit order)

theorem nodup_matching (s : MemoryStore β) (clause : String → Row β → Bool) :
    ((s.entries.matching clause).map Prod.fst).Nodup :=
  s.entries.nodupKeys.sublist (List.filter_sublist.map Prod.fst)

/-- **A list is the newest entries of its filter exactly if no entry without the tag is among the
newest of the other filters while one with it is behind them.** -/
theorem newest_iff {f : EntryFilter} {clause : String → Row β → Bool}
    (h : Arranged s clause order) :
    Newest limit (s.entries.matching fun k r => clause k r && f.tagged k r)
        (listTagged f order limit) ↔
      ∀ x ∈ order.take limit, ∀ y ∈ order.drop limit, f.tagged y.1 y.2 → f.tagged x.1 x.2 := by
  have hsplit : listTagged f order limit ++ (order.drop limit).filter (fun x => f.tagged x.1 x.2) =
      order.filter fun x => f.tagged x.1 x.2 := by
    rw [listTagged, ← List.filter_append, List.take_append_drop]
  have hrows : (order.filter fun x => f.tagged x.1 x.2).Perm
      (s.entries.matching fun k r => clause k r && f.tagged k r) := by
    refine (h.perm.filter _).trans ?_
    simp only [Table.matching, List.filter_filter, Bool.and_comm]
    exact List.Perm.refl _
  rw [newest_iff_length (hsplit ▸ hrows) (nodup_matching s _).of_map
    (hsplit ▸ h.sorted.sublist List.filter_sublist), ← hrows.length_eq]
  exact length_filter_take_iff

end List

/-! ### The pages of a store -/

section Pages

variable {s : MemoryStore β} {limit : ℕ} {c : Option (String × String)}

theorem pageKey_lt_iff {x : String × Row β} {createdAt id : String} :
    pageKey x < toLex (createdAt, id) ↔
      x.2.entry.createdAt < createdAt ∨ x.2.entry.createdAt = createdAt ∧ x.1 < id :=
  Prod.Lex.toLex_lt_toLex

theorem pairwise_pageKey (s : MemoryStore β) (clause : String → Row β → Bool) :
    (s.entries.matching clause).Pairwise fun x y => pageKey x ≠ pageKey y := by
  have hkeys := List.pairwise_map.mp (nodup_matching s clause)
  refine hkeys.imp ?_
  intro x y hne heq
  exact hne (Prod.mk.inj (toLex.injective heq)).2

theorem listEntriesPage_eq (s : MemoryStore β) (clause : String → Row β → Bool) (limit : ℕ)
    (c : Option (String × String)) :
    (listEntriesPage s clause limit c).1 =
        (Keyset.seek pageKey limit (s.entries.matching clause) (c.map toLex)).1 ∧
      (listEntriesPage s clause limit c).2.map toLex =
        (Keyset.seek pageKey limit (s.entries.matching clause) (c.map toLex)).2 := by
  have hrows : (s.entries.matching fun k r => clause k r && match c with
        | none => true
        | some (createdAt, id) =>
          decide (r.entry.createdAt < createdAt) || decide (r.entry.createdAt = createdAt) &&
            decide (k < id)) =
      (s.entries.matching clause).filter (Keyset.belowCursor pageKey (c.map toLex)) := by
    simp only [Table.matching, List.filter_filter]
    refine List.filter_congr fun x _ => ?_
    rw [Bool.and_comm]
    congr 1
    cases c with
    | none => rfl
    | some c =>
      simp only [Option.map_some, Keyset.belowCursor, ← Bool.decide_and, ← Bool.decide_or]
      exact decide_eq_decide.mpr pageKey_lt_iff.symm
  constructor
  · simp only [listEntriesPage, hrows, Keyset.seek, Keyset.descending]
  · simp only [listEntriesPage, hrows, Keyset.seek, Keyset.descending]
    rw [apply_ite (Option.map toLex), Option.map_map]
    rfl

variable {clause : ℕ → String → Row β → Bool} {n : ℕ} {pages : List (List (String × Row β))}

/-- The pages of a store from a cursor on are those that are looked up by their keys. -/
theorem exists_pages_of_seeks {c' : Option (Lex (String × String))} (hc : c' = c.map toLex)
    (w : Keyset.Seeks pageKey limit (fun n => s.entries.matching (clause n)) n c' pages) :
    Pages s clause limit n c pages := by
  induction w generalizing c with
  | @last n c' h =>
    obtain ⟨hpage, hnext⟩ := listEntriesPage_eq s (clause n) limit c
    subst hc
    rw [← hpage]
    rw [← hnext, Option.map_eq_none_iff] at h
    exact .last h
  | @more n c' k pages h w ih =>
    obtain ⟨hpage, hnext⟩ := listEntriesPage_eq s (clause n) limit c
    subst hc
    rw [← hpage]
    rw [← hnext] at h
    obtain ⟨next, hk, rfl⟩ := Option.map_eq_some_iff.mp h
    exact .more hk (ih rfl)

theorem mem_matching_iff {p : String → Row β → Bool} {x : String × Row β} :
    x ∈ s.entries.matching p ↔ x ∈ s.entries.rows ∧ p x.1 x.2 := List.mem_filter

theorem nodup_keys_of_pairwise {l : List (String × Row β)} (hrows : l ⊆ s.entries.rows)
    (h : l.Pairwise fun x y => pageKey y < pageKey x) : (l.map Prod.fst).Nodup := by
  have hkeys : ∀ x ∈ s.entries.rows, ∀ y ∈ s.entries.rows, x.1 = y.1 → x = y := by
    intro x hx y hy heq
    have hx' := Table.get?_eq_some_iff.mpr hx
    have hy' := Table.get?_eq_some_iff.mpr hy
    rw [heq, hy'] at hx'
    exact Prod.ext heq (Option.some.inj hx').symm
  refine List.pairwise_map.mpr (h.imp_of_mem ?_)
  intro x y hx hy hlt heq
  rw [hkeys x (hrows hx) y (hrows hy) heq] at hlt
  exact lt_irrefl _ hlt

variable (s clause limit) in
/-- The pages of a store, with what the first of them have. -/
theorem exists_pages (hlimit : 0 < limit) :
    ∃ pages, Pages s clause limit 0 none pages ∧
      (pages.flatten.map Prod.fst).Nodup ∧ pages.length ≤ s.entries.rows.length + 1 ∧
      (∀ x ∈ s.entries.rows, (∀ n < pages.length, clause n x.1 x.2) → x ∈ pages.flatten) ∧
      ∀ r, ∀ x ∈ (pages.take r).flatten,
        x ∈ s.entries.rows ∧ ∃ n < r, clause n x.1 x.2 := by
  have hkey := fun n => pairwise_pageKey s (clause n)
  have hsub : ∀ n, s.entries.matching (clause n) ⊆ s.entries.rows :=
    fun n x hx => (mem_matching_iff.mp hx).1
  obtain ⟨pages, w⟩ : ∃ pages, Keyset.Seeks pageKey limit
      (fun n => s.entries.matching (clause n)) 0 none pages := Keyset.exists_seeks hkey hsub 0 none
  have hmem : ∀ r, ∀ x ∈ (pages.take r).flatten,
      x ∈ s.entries.rows ∧ ∃ n < r, clause n x.1 x.2 := by
    intro r x hx
    obtain ⟨n, hn, hx⟩ := w.exists_mem hx
    rw [Nat.zero_add, mem_matching_iff] at hx
    exact ⟨hx.1, n, hn, hx.2⟩
  have hrows : pages.flatten ⊆ s.entries.rows := by
    intro x hx
    rw [← List.take_length (l := pages)] at hx
    exact (hmem _ x hx).1
  have hnodup := nodup_keys_of_pairwise hrows (w.pairwise hkey)
  refine ⟨pages, exists_pages_of_seeks rfl w, hnodup, ?_, ?_, hmem⟩
  · have hle := (hnodup.of_map.subperm hrows).length_le
    have hpages := w.length_le hkey
    omega
  · intro x hx hclause
    refine w.mem hkey hlimit rfl fun n hn => ?_
    rw [Nat.zero_add, mem_matching_iff]
    exact ⟨hx, hclause n hn⟩

variable (s clause limit) in
/-- **The pages of a store visit every entry of the filter once.** -/
theorem visitsOnce (hlimit : 0 < limit) : VisitsOnce s clause limit := by
  obtain ⟨pages, w, hnodup, -, hall, hmem⟩ := exists_pages s limit clause hlimit
  refine ⟨pages, w, hnodup, hall, ?_⟩
  intro x hx
  rw [← List.take_length (l := pages)] at hx
  exact hmem _ x hx

end Pages

/-! ### The prompt lessons of a store -/

section Prompt

variable {s : MemoryStore β} {limit : ℕ} {clause : ℕ → String → Row β → Bool}
  {verifies : Row β → Bool} {n : ℕ} {c : Option (String × String)}
  {pages : List (List (String × Row β))}

variable (verifies) in
/-- **The loop reads the pages one by one, until there are enough lessons or no pages.** -/
theorem exists_promptLessons (w : Pages s clause limit n c pages)
    (results : List (String × Row β)) :
    ∃ r ≤ pages.length,
      (∀ fuel, pages.length ≤ fuel → promptLessons s clause verifies limit fuel n c results =
        some ((results ++ (pages.take r).flatten.filter fun x => verifies x.2).take limit,
          n + r)) ∧
      (r < pages.length →
        limit ≤ (results ++ (pages.take r).flatten.filter fun x => verifies x.2).length) := by
  induction w generalizing results with
  | @last n c h =>
    by_cases hfull : results.length < limit
    · refine ⟨1, le_rfl, ?_, fun hlt => absurd hlt (lt_irrefl _)⟩
      intro fuel hfuel
      obtain ⟨fuel, rfl⟩ := Nat.exists_eq_succ_of_ne_zero (Nat.ne_of_gt hfuel)
      simp [promptLessons, hfull, h]
    · refine ⟨0, Nat.zero_le _, ?_, ?_⟩
      · intro fuel hfuel
        obtain ⟨fuel, rfl⟩ := Nat.exists_eq_succ_of_ne_zero (Nat.ne_of_gt hfuel)
        simp [promptLessons, hfull]
      · simpa using hfull
  | @more n c next pages h w ih =>
    by_cases hfull : results.length < limit
    · obtain ⟨r, hr, hloop, henough⟩ := ih
        (results ++ (listEntriesPage s (clause n) limit c).1.filter fun x => verifies x.2)
      refine ⟨r + 1, Nat.succ_le_succ hr, ?_, ?_⟩
      · intro fuel hfuel
        obtain ⟨fuel, rfl⟩ := Nat.exists_eq_succ_of_ne_zero (Nat.ne_of_gt (Nat.zero_lt_of_lt hfuel))
        have hloop := hloop fuel (Nat.le_of_succ_le_succ hfuel)
        simp only [promptLessons, if_pos hfull, h, hloop, List.take_succ_cons, List.flatten_cons,
          List.filter_append, List.append_assoc]
        congr 2
        omega
      · intro hlt
        have henough := henough (Nat.lt_of_succ_lt_succ hlt)
        simpa only [List.take_succ_cons, List.flatten_cons, List.filter_append,
          List.append_assoc] using henough
    · refine ⟨0, Nat.zero_le _, ?_, ?_⟩
      · intro fuel hfuel
        obtain ⟨fuel, rfl⟩ := Nat.exists_eq_succ_of_ne_zero (Nat.ne_of_gt (Nat.zero_lt_of_lt hfuel))
        simp [promptLessons, hfull]
      · simpa using hfull

variable (s clause verifies limit) in
/-- **There are as many prompt lessons as asked for, if there are so many that verify.** -/
theorem fillsUp (hlimit : 0 < limit) : FillsUp s clause verifies limit := by
  obtain ⟨pages, w, hnodup, hlen, hall, hmem⟩ := exists_pages s limit clause hlimit
  obtain ⟨r, hr, hloop, henough⟩ := exists_promptLessons verifies w []
  simp only [List.nil_append, Nat.zero_add] at hloop henough
  set found := (pages.take r).flatten.filter fun x => verifies x.2 with hfound
  have hsub : (found.take limit).Sublist pages.flatten := by
    have hpages : (pages.take r).flatten.Sublist pages.flatten := by
      conv_rhs => rw [← List.take_append_drop r pages, List.flatten_append]
      exact List.sublist_append_left _ _
    exact (List.take_sublist limit found).trans (List.filter_sublist.trans hpages)
  refine ⟨found.take limit, r, fun fuel hfuel => hloop fuel (by omega), ?_, ?_, ?_⟩
  · exact hnodup.sublist (hsub.map Prod.fst)
  · intro x hx
    obtain ⟨hin, hverifies⟩ := List.mem_filter.mp (List.mem_of_mem_take hx)
    obtain ⟨hrow, hclause⟩ := hmem r x hin
    exact ⟨hrow, hverifies, hclause⟩
  · intro hcount
    rw [List.length_take, Nat.min_eq_left]
    by_cases hlast : r < pages.length
    · exact henough hlast
    · -- all pages are read, so every lesson that counts is found
      obtain rfl : r = pages.length := by omega
      rw [List.take_length] at hfound
      refine hcount.trans ?_
      rw [List.countP_eq_length_filter]
      refine (List.Nodup.subperm (s.entries.nodupKeys.of_map.filter _) ?_).length_le
      intro x hx
      obtain ⟨hrow, hx⟩ := List.mem_filter.mp hx
      rw [Bool.and_eq_true, decide_eq_true_eq] at hx
      rw [hfound]
      exact List.mem_filter.mpr ⟨hall x hrow hx.1, hx.2⟩

end Prompt

/-! ### The three calls -/

/-- What is promised of the three calls: `order` is what the query of `list_entries` answers, and
`clock n` is the time that is read for page `n`. -/
structure LosesNothing (fromisoformat : IsoReader)
    (verifyLessonEvidence : String → String → String → Json → Bool) (s : MemoryStore Json)
    (f : EntryFilter) (now : String) (order : List (String × Row Json)) (clock : ℕ → String)
    (repo : Option String) (isBarbPrincipal : Bool) (limit : ℕ) : Prop where
  list : Newest limit
    (s.entries.matching fun k r => f.clause fromisoformat now k r && f.tagged k r)
    (listTagged f order limit)
  prompt : FillsUp s
    (fun n => (lessonFilter repo isBarbPrincipal).clause fromisoformat (clock n))
    (fun r => lessonEvidenceStillVerifies verifyLessonEvidence r.entry) limit
  pages : VisitsOnce s (fun n => f.toPageFilter.clause fromisoformat (clock n)) limit

variable {fromisoformat : IsoReader}
  {verifyLessonEvidence : String → String → String → Json → Bool} {s : MemoryStore Json}
  {f : EntryFilter} {now : String} {order : List (String × Row Json)}

/-- **Reads lose nothing exactly if no entry without the tag is among the newest `limit` of the
other filters while one with it is behind them.** -/
theorem reads_iff (clock : ℕ → String) (repo : Option String) (isBarbPrincipal : Bool) {limit : ℕ}
    (hlimit : 0 < limit) (h : Arranged s (f.clause fromisoformat now) order) :
    LosesNothing fromisoformat verifyLessonEvidence s f now order clock repo isBarbPrincipal
        limit ↔
      ∀ x ∈ order.take limit, ∀ y ∈ order.drop limit, f.tagged y.1 y.2 → f.tagged x.1 x.2 := by
  constructor
  · intro hreads
    exact (newest_iff h).mp hreads.list
  · intro htag
    refine ⟨(newest_iff h).mpr htag, ?_, ?_⟩
    · exact fillsUp s limit _ _ hlimit
    · exact visitsOnce s limit _ hlimit

def note (tags : List String) (createdAt : String) : MemoryEntry Json where
  entryType := "decision"
  tags
  body := .obj []
  createdAt

def notes (newTags : List String) : MemoryStore Json :=
  let old := (append jsonEncodings 4096 .empty "old" (note ["keep"] "2026-01-01T00:00:00Z")).2
  (old.append jsonEncodings 4096 "new" (note newTags "2026-01-02T00:00:00Z")).2

def notesOrder (newTags : List String) : List (String × Row Json) :=
  [("new", ⟨note newTags "2026-01-02T00:00:00Z", 2⟩),
    ("old", ⟨note ["keep"] "2026-01-01T00:00:00Z", 2⟩)]

def keepFilter : EntryFilter := { tag := some "keep" }

theorem arranged_notes (newTags : List String) :
    Arranged (notes newTags) (keepFilter.clause fromisoformat now) (notesOrder newTags) := by
  refine ⟨?_, ?_⟩
  · exact List.Perm.swap _ _ _
  · simp [notesOrder, note]

/-- Both have the tag, and the newer one is returned. -/
theorem reads_notes :
    LosesNothing (fun _ => none) (fun _ _ _ _ => true) (notes ["keep"]) keepFilter
      "2026-01-03T00:00:00Z" (notesOrder ["keep"]) (fun _ => "2026-01-03T00:00:00Z") none false 1 :=
  (reads_iff _ _ _ Nat.zero_lt_one (arranged_notes ["keep"])).mpr (by decide)

/-- **Only the older one has the tag, and nothing is returned.** -/
theorem not_reads :
    Arranged (notes []) (keepFilter.clause (fun _ => none) "2026-01-03T00:00:00Z")
        (notesOrder []) ∧
      listTagged keepFilter (notesOrder []) 1 = [] ∧
      ¬ LosesNothing (fun _ => none) (fun _ _ _ _ => true) (notes []) keepFilter
        "2026-01-03T00:00:00Z" (notesOrder []) (fun _ => "2026-01-03T00:00:00Z") none false 1 := by
  refine ⟨arranged_notes [], by decide, ?_⟩
  intro h
  have hlength := h.list.length
  revert hlength
  decide

end Memory
