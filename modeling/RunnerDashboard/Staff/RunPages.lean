import Mathlib.Data.List.Sort
import RunnerDashboard.Staff.Pagination

/-!
# The pages of the runs

The runs of the newest `MAX_LIMIT` that match are listed by the store in the order of `created_at`
alone, and cut into pages by the pair of `created_at` and `id`.

## Main definitions

* `Arrangement`, `listRuns`, `listRunsV1` — the order of the rows, the query and the endpoint.
* `Visits` — following `next_cursor` returns every matching run once.

## Main results

* `visits_iff` — it does exactly if few enough runs match and every page ends at a clean cut.
-/

namespace Pagination

/-- The columns of a run that the query reads. -/
structure Run where
  id : String
  createdAt : String
  role : String
  status : String
  retryOf : String
  deriving DecidableEq

/-- The `runs` table. -/
structure RunTable where
  rows : List Run
  /-- The id is the primary key. -/
  nodup : (rows.map Run.id).Nodup

def maxLimit : ℕ := 500

/-- The limit of a page, between 1 and `MAX_LIMIT`. -/
structure PageLimit where
  val : ℕ
  pos : 0 < val
  le : val ≤ maxLimit

/-- The filters of a request. -/
structure RunFilter where
  role : Option String
  status : Option String
  since : Option String
  logicalOnly : Bool

/-- A filter that is absent or empty lets every run through. -/
def passes (filter : Option String) (p : String → Bool) : Bool :=
  match filter with
  | none => true
  | some v => v = "" || p v

/-- The `WHERE` clause. -/
def RunFilter.matches (f : RunFilter) (r : Run) : Bool :=
  (!f.logicalOnly || r.retryOf = "") && passes f.role (r.role = ·) &&
    passes f.status (r.status = ·) && passes f.since (· ≤ r.createdAt)

def RunTable.matching (t : RunTable) (f : RunFilter) : List Run := t.rows.filter f.matches

/-- An order of rows that `ORDER BY created_at DESC` allows: nothing is said about ties. -/
structure Arrangement where
  arrange : List Run → List Run
  perm : ∀ rows, (arrange rows).Perm rows
  sorted : ∀ rows, (arrange rows).Pairwise fun r r' => r'.createdAt ≤ r.createdAt

def listRuns (A : Arrangement) (t : RunTable) (limit : ℕ) (f : RunFilter) : List Run :=
  (A.arrange (t.matching f)).take limit

def runKey (r : Run) : String × String := (r.createdAt, r.id)

def listRunsV1 (other : Json → String) (A : Arrangement) (t : RunTable) (f : RunFilter)
    (limit : PageLimit) (cursor : Option String) : Except PageError (CursorPage Run) :=
  paginateItems other runKey (listRuns A t maxLimit f) limit.val cursor

/-- Following `next_cursor` from the start ends, and returns every matching run once. -/
def Visits (other : Json → String) (A : Arrangement) (t : RunTable) (f : RunFilter)
    (limit : PageLimit) : Prop :=
  ∃ ps, Follow (listRunsV1 other A t f limit) none ps ∧
    (ps.map CursorPage.items).flatten.Perm (t.matching f)

variable {other : Json → String} {A : Arrangement} {t : RunTable} {f : RunFilter}
  {limit : PageLimit}

theorem nodup_matching (t : RunTable) (f : RunFilter) : (t.matching f).Nodup :=
  (List.Nodup.of_map _ t.nodup).filter _

theorem nodup_arrange : (A.arrange (t.matching f)).Nodup :=
  (A.perm _).nodup_iff.mpr (nodup_matching t f)

theorem mem_listRuns_of_follow {c : Option String} {ps : List (CursorPage Run)}
    (w : Follow (listRunsV1 other A t f limit) c ps) {r : Run}
    (h : r ∈ (ps.map CursorPage.items).flatten) : r ∈ listRuns A t maxLimit f := by
  -- a page is a part of the list it is cut from
  have hpage : ∀ {c p}, listRunsV1 other A t f limit c = .ok p → ∀ r ∈ p.items,
      r ∈ listRuns A t maxLimit f := by
    intro c p hp r hr
    unfold listRunsV1 paginateItems at hp
    rw [if_neg (Nat.pos_iff_ne_zero.mp limit.pos)] at hp
    split at hp
    · cases hp
    · obtain rfl := Except.ok.inj hp
      exact List.mem_of_mem_drop (List.mem_of_mem_take hr)
  induction w with
  | last hp => exact hpage hp r (by simpa using h)
  | more hp _ w ih =>
    rw [List.map_cons, List.flatten_cons, List.mem_append] at h
    rcases h with h | h
    · exact hpage hp r h
    · exact ih h

theorem length_le_of_visits (h : Visits other A t f limit) : (t.matching f).length ≤ maxLimit := by
  obtain ⟨ps, w, hperm⟩ := h
  have hsub : t.matching f ⊆ listRuns A t maxLimit f := fun r hr =>
    mem_listRuns_of_follow w (hperm.mem_iff.mpr hr)
  have hlen := (List.subperm_of_subset (nodup_matching t f) hsub).length_le
  exact hlen.trans (List.length_take_le _ _)

theorem visits_iff_walk (hlen : (t.matching f).length ≤ maxLimit) : Visits other A t f limit ↔
    ∃ qs, Keyset.Walk (lexKey runKey) (A.arrange (t.matching f)) limit.val none qs ∧
      qs.flatten.Perm (A.arrange (t.matching f)) := by
  have hlist : listRuns A t maxLimit f = A.arrange (t.matching f) :=
    List.take_of_length_le ((A.perm _).length_eq.trans_le hlen)
  unfold Visits listRunsV1
  rw [hlist]
  constructor
  · rintro ⟨ps, w, hperm⟩
    exact ⟨_, (follow_iff_walk other limit.pos).mp ⟨ps, w, rfl⟩, hperm.trans (A.perm _).symm⟩
  · rintro ⟨qs, w, hperm⟩
    obtain ⟨ps, hps, rfl⟩ := (follow_iff_walk other limit.pos).mpr w
    exact ⟨ps, hps, hperm.trans (A.perm _)⟩

/-- **Following `next_cursor` returns every matching run once exactly if no more than `MAX_LIMIT`
match and the order of the store has a clean cut at the end of every page.** -/
theorem visits_iff : Visits other A t f limit ↔ (t.matching f).length ≤ maxLimit ∧
    ∀ m, 0 < m → m * limit.val < (t.matching f).length →
      Keyset.CleanCut (lexKey runKey) (A.arrange (t.matching f)) (m * limit.val) := by
  have hsame : (A.arrange (t.matching f)).length = (t.matching f).length := (A.perm _).length_eq
  constructor
  · intro h
    have hlen := length_le_of_visits h
    have hclean := (Keyset.walk_perm_iff limit.pos nodup_arrange).mp ((visits_iff_walk hlen).mp h)
    exact ⟨hlen, fun m hm hlt => hclean m hm (hsame ▸ hlt)⟩
  · rintro ⟨hlen, hclean⟩
    refine (visits_iff_walk hlen).mpr ((Keyset.walk_perm_iff limit.pos nodup_arrange).mpr ?_)
    exact fun m hm hlt => hclean m hm (hsame ▸ hlt)

/-! ### A tie -/

/-- The order of a query without a status: SQLite walks `runs_created_idx` backwards, so of the rows
of one time the last stored comes first. -/
def indexOrder : Arrangement where
  arrange rows := rows.reverse.insertionSort fun r r' => r'.createdAt ≤ r.createdAt
  perm rows := (List.perm_insertionSort _ _).trans (List.reverse_perm rows)
  sorted rows := by
    have : Std.Total fun r r' : Run => r'.createdAt ≤ r.createdAt := ⟨fun _ _ => le_total _ _⟩
    have : IsTrans Run fun r r' => r'.createdAt ≤ r.createdAt := ⟨fun _ _ _ h h' => h'.trans h⟩
    exact List.pairwise_insertionSort _ _

/-- Two runs that were created at one time, `b` stored first. -/
def twins : RunTable where
  rows := [⟨"b", "2026-08-01T00:00:00+00:00", "", "", ""⟩,
    ⟨"a", "2026-08-01T00:00:00+00:00", "", "", ""⟩]
  nodup := by decide

def onePerPage : PageLimit := ⟨1, by decide, by decide⟩

/-- After the first of two runs of one time the other one is never returned. -/
theorem not_visits_twins : ¬ ∀ (A : Arrangement) (t : RunTable) (f : RunFilter) (limit : PageLimit),
    Visits (fun _ => "") A t f limit := by
  intro h
  have hvisits := h indexOrder twins ⟨none, none, none, true⟩ onePerPage
  have hwalk := (visits_iff_walk (by decide)).mp hvisits
  have hclean := (Keyset.walk_perm_iff onePerPage.pos nodup_arrange).mp hwalk 1 one_pos (by decide)
  have hcut := hclean.after ⟨"b", "2026-08-01T00:00:00+00:00", "", "", ""⟩
    ⟨"a", "2026-08-01T00:00:00+00:00", "", "", ""⟩ (by decide) (by decide)
  exact absurd hcut (by decide)

end Pagination
