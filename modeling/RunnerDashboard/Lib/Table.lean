import Mathlib.Algebra.GroupWithZero.Nat
import Mathlib.Algebra.Order.BigOperators.Group.List
import Mathlib.Algebra.Order.Group.Nat
import Mathlib.Data.Fintype.EquivFin
import Mathlib.Data.List.Nodup
import Mathlib.Data.List.Sublists

/-!
# Keyed tables

A table with a primary key, and the statements a program runs on it: `INSERT …
ON CONFLICT DO NOTHING`, `UPDATE … WHERE`, `DELETE … WHERE`, the row count of a
`WHERE` clause, and the upsert.  The rows are kept in insertion order; that no
two of them share a key is a field of the structure, so a statement is a function
from tables to tables and the point lookup `get?` is all a reader of one row needs.

## Main definitions

* `Table κ ρ` — rows `(k, r)` with pairwise distinct keys.
* `get?`, `insertNew`, `update`, `delete`, `put` — the statements.
* `immediateTxn` — a transaction: its writes commit together or not at all.
* `fitsInteger` — the numbers an `INTEGER` column holds.
* `count`, `sum` — the aggregates `COUNT(*)` and `SUM` over a `WHERE` clause.
* `total`, `matching` — the sum of any amounts, and the rows of a `WHERE` clause.
* `select` — the keys of a `SELECT … ORDER BY … LIMIT`.

## Main results

* `get?_eq_some_iff` — the lookup finds exactly the rows of the table.
* `get?_insertNew`, `get?_update`, `get?_delete`, `get?_put` — the lookup after
  each statement.
* `update_eq_self`, `delete_eq_self` — a statement whose clause selects nothing
  changes nothing.
* `count_update_le`, `count_update_key`, `sum_update_le`, `sum_delete_le`, `sum_insertNew`,
  `total_update`, `total_insertNew` — an aggregate after each statement.
* `count_keys_le`, `le_count_keys`, `length_delete` — how many rows a `DELETE … WHERE key IN` drops.
* `exists_behind_select` — the rows behind those that a `SELECT … ORDER BY … LIMIT` takes.
* `length_put_of_some`, `length_put_of_none`, `length_delete_le` — the number of rows after a
  statement.
-/

namespace Sql

/-- A transaction around a body that may fail: the error rolls its writes back. -/
def immediateTxn {ε α σ : Type*} (body : σ → Except ε (α × σ)) (s : σ) : Except ε α × σ :=
  match body s with
  | .ok (a, s') => (.ok a, s')
  | .error e => (.error e, s)

theorem immediateTxn_error {ε α σ : Type*} {body : σ → Except ε (α × σ)} {s : σ} {e : ε}
    (h : (immediateTxn body s).1 = .error e) : (immediateTxn body s).2 = s := by
  unfold immediateTxn at h ⊢
  split
  · next heq =>
    rw [heq] at h
    exact absurd h (by simp)
  · rfl

theorem immediateTxn_ok {ε α σ : Type*} {body : σ → Except ε (α × σ)} {s s' : σ} {a : α} :
    immediateTxn body s = (.ok a, s') ↔ body s = .ok (a, s') := by
  unfold immediateTxn
  split
  · next heq =>
    rw [heq]
    simp
  · next heq =>
    rw [heq]
    simp

/-- A body that reaches its end went through each of its parts. -/
theorem bind_eq_ok_iff.{u, v} {ε : Type u} {α β : Type v} {x : Except ε α}
    {f : α → Except ε β} {b : β} :
    (x >>= f) = .ok b ↔ ∃ a, x = .ok a ∧ f a = .ok b := by
  constructor
  · intro h
    cases x with
    | error e => cases h
    | ok a => exact ⟨a, rfl, h⟩
  · rintro ⟨a, rfl, h⟩
    exact h

/-- Whether an `INTEGER` column holds the number. -/
def fitsInteger (n : Int) : Bool := -(2 ^ 63) ≤ n ∧ n < 2 ^ 63

/-- A table whose rows have pairwise distinct keys. -/
structure Table (κ ρ : Type*) where
  /-- The rows, in insertion order. -/
  rows : List (κ × ρ)
  /-- The primary key constraint. -/
  nodupKeys : (rows.map Prod.fst).Nodup

namespace Table

variable {κ ρ : Type*}

def empty : Table κ ρ := ⟨[], List.nodup_nil⟩

instance : Inhabited (Table κ ρ) := ⟨empty⟩

@[ext] theorem ext {t t' : Table κ ρ} (h : t.rows = t'.rows) : t = t' := by
  cases t; cases t'; cases h; rfl

/-- The keys of the rows selected by a clause are still distinct. -/
private theorem nodup_filter (t : Table κ ρ) (p : κ × ρ → Bool) :
    ((t.rows.filter p).map Prod.fst).Nodup :=
  t.nodupKeys.sublist (List.filter_sublist.map Prod.fst)

/-- `DELETE WHERE p`. -/
def delete (t : Table κ ρ) (p : κ → ρ → Bool) : Table κ ρ :=
  ⟨t.rows.filter fun x => !p x.1 x.2, t.nodup_filter _⟩

/-- `UPDATE SET f WHERE p`; the key is never assigned. -/
def update (t : Table κ ρ) (p : κ → ρ → Bool) (f : κ → ρ → ρ) : Table κ ρ :=
  ⟨t.rows.map fun x => (x.1, if p x.1 x.2 then f x.1 x.2 else x.2), by
    rw [List.map_map]; exact t.nodupKeys⟩

/-- How many rows satisfy a clause: the row count of its statement. -/
def count (t : Table κ ρ) (p : κ → ρ → Bool) : ℕ := t.rows.countP fun x => p x.1 x.2

/-- `SELECT COALESCE(SUM(w), 0) WHERE p`. -/
def sum (t : Table κ ρ) (p : κ → ρ → Bool) (w : ρ → ℕ) : ℕ :=
  (t.rows.map fun x => if p x.1 x.2 then w x.2 else 0).sum

/-- `SELECT COALESCE(SUM(v), 0)`, for amounts of any kind. -/
def total {M : Type*} [AddMonoid M] (t : Table κ ρ) (v : κ → ρ → M) : M :=
  (t.rows.map fun x => v x.1 x.2).sum

/-- `SELECT * WHERE p`. -/
def matching (t : Table κ ρ) (p : κ → ρ → Bool) : List (κ × ρ) := t.rows.filter fun x => p x.1 x.2

/-- `SELECT key WHERE p ORDER BY f LIMIT n`. -/
def select {α : Type*} [LinearOrder α] (t : Table κ ρ) (p : κ → ρ → Bool) (f : ρ → α) (n : ℕ) :
    List κ :=
  (((t.rows.filter fun x => p x.1 x.2).mergeSort fun x y => f x.2 ≤ f y.2).take n).map Prod.fst

variable [DecidableEq κ]

/-- The row with key `k`. -/
def get? (t : Table κ ρ) (k : κ) : Option ρ := t.rows.lookup k

/-- `INSERT ON CONFLICT DO NOTHING`. -/
def insertNew (t : Table κ ρ) (k : κ) (r : ρ) : Table κ ρ :=
  if h : k ∈ t.rows.map Prod.fst then t
  else ⟨t.rows ++ [(k, r)], by
    rw [List.map_append, List.nodup_append]
    refine ⟨t.nodupKeys, by simp, ?_⟩
    rintro a ha b hb rfl
    have hk : a = k := by simpa using hb
    exact h (hk ▸ ha)⟩

/-- The upsert: overwrite the row with key `k`, or append it. -/
def put (t : Table κ ρ) (k : κ) (r : ρ) : Table κ ρ :=
  (t.update (fun k' _ => k' = k) fun _ _ => r).insertNew k r

/-! ### Lookups -/

private theorem lookup_eq_some_iff {l : List (κ × ρ)} (hl : (l.map Prod.fst).Nodup) {k : κ}
    {r : ρ} : l.lookup k = some r ↔ (k, r) ∈ l := by
  induction l with
  | nil => simp
  | cons x l ih =>
    obtain ⟨k', r'⟩ := x
    simp only [List.map_cons, List.nodup_cons] at hl
    by_cases hk : k = k'
    · subst hk
      have hnot : (k, r) ∉ l := fun h => hl.1 (List.mem_map.mpr ⟨_, h, rfl⟩)
      simp [hnot, eq_comm]
    · have hb : (k == k') = false := by simpa using hk
      simp [List.lookup_cons, hb, hk, ih hl.2]

theorem get?_eq_some_iff {t : Table κ ρ} {k : κ} {r : ρ} :
    t.get? k = some r ↔ (k, r) ∈ t.rows := lookup_eq_some_iff t.nodupKeys

theorem get?_eq_none_iff {t : Table κ ρ} {k : κ} :
    t.get? k = none ↔ k ∉ t.rows.map Prod.fst := by
  rw [Option.eq_none_iff_forall_ne_some]
  simp only [ne_eq, get?_eq_some_iff, List.mem_map, not_exists, not_and]
  constructor
  · rintro h ⟨k', r⟩ hx rfl
    exact h r hx
  · intro h r hr
    exact h _ hr rfl

@[simp] theorem get?_empty (k : κ) : (empty : Table κ ρ).get? k = none := rfl

theorem exists_get?_eq_none [Infinite κ] (t : Table κ ρ) : ∃ k, t.get? k = none := by
  obtain ⟨k, hk⟩ := Infinite.exists_notMem_finset (t.rows.map Prod.fst).toFinset
  exact ⟨k, get?_eq_none_iff.mpr fun hmem => hk (List.mem_toFinset.mpr hmem)⟩

theorem get?_delete (t : Table κ ρ) (p : κ → ρ → Bool) (k : κ) :
    (t.delete p).get? k = (t.get? k).filter fun r => !p k r := by
  ext r
  rw [get?_eq_some_iff, Option.filter_eq_some_iff, get?_eq_some_iff]
  simp [delete, List.mem_filter]

theorem get?_update (t : Table κ ρ) (p : κ → ρ → Bool) (f : κ → ρ → ρ) (k : κ) :
    (t.update p f).get? k = (t.get? k).map fun r => if p k r then f k r else r := by
  ext r
  rw [get?_eq_some_iff, Option.map_eq_some_iff]
  simp only [update, List.mem_map, get?_eq_some_iff, Prod.mk.injEq]
  constructor
  · rintro ⟨⟨k', r'⟩, hx, rfl, rfl⟩
    exact ⟨r', hx, rfl⟩
  · rintro ⟨r', hx, rfl⟩
    exact ⟨(k, r'), hx, rfl, rfl⟩

/-- An insert that meets a row with its key changes nothing. -/
theorem insertNew_of_some {t : Table κ ρ} {k : κ} {r : ρ} (h : t.get? k = some r) (r' : ρ) :
    t.insertNew k r' = t :=
  dif_pos (List.mem_map.mpr ⟨_, get?_eq_some_iff.mp h, rfl⟩)

theorem rows_insertNew_of_none {t : Table κ ρ} {k : κ} (h : t.get? k = none) (r : ρ) :
    (t.insertNew k r).rows = t.rows ++ [(k, r)] := by
  rw [insertNew, dif_neg (get?_eq_none_iff.mp h)]

theorem get?_insertNew (t : Table κ ρ) (k : κ) (r : ρ) (k' : κ) :
    (t.insertNew k r).get? k' = if k' = k then some ((t.get? k).getD r) else t.get? k' := by
  cases h : t.get? k with
  | some r₀ =>
    rw [insertNew_of_some h]
    split
    · next hk => rw [hk, h, Option.getD_some]
    · rfl
  | none =>
    ext r'
    rw [get?_eq_some_iff, rows_insertNew_of_none h]
    split
    · next hk =>
      have hno : (k, r') ∉ t.rows := fun hm => by
        rw [get?_eq_some_iff.mpr hm] at h; exact absurd h (by simp)
      subst hk
      simp [hno, eq_comm]
    · next hk => simp [hk, get?_eq_some_iff]

theorem get?_insertNew_of_some {t : Table κ ρ} {k k' : κ} {r r' : ρ} (h : t.get? k' = some r') :
    (t.insertNew k r).get? k' = some r' := by
  rw [get?_insertNew]
  split
  · next hk => rw [← hk, h, Option.getD_some]
  · exact h

theorem get?_put (t : Table κ ρ) (k : κ) (r : ρ) (k' : κ) :
    (t.put k r).get? k' = if k' = k then some r else t.get? k' := by
  rw [put, get?_insertNew, get?_update, get?_update]
  split
  · cases t.get? k <;> simp
  · next hk => cases t.get? k' <;> simp [hk]

@[simp] theorem get?_put_self (t : Table κ ρ) (k : κ) (r : ρ) :
    (t.put k r).get? k = some r := by rw [get?_put, if_pos rfl]

theorem get?_put_of_ne (t : Table κ ρ) {k k' : κ} (h : k' ≠ k) (r : ρ) :
    (t.put k r).get? k' = t.get? k' := by rw [get?_put, if_neg h]

/-! ### The number of rows -/

/-- An upsert of a row that is there keeps the places of the rows. -/
theorem keys_put_of_some {t : Table κ ρ} {k : κ} {r : ρ} (h : t.get? k = some r) (r' : ρ) :
    (t.put k r').rows.map Prod.fst = t.rows.map Prod.fst := by
  have hupd : (t.update (fun k' _ => k' = k) fun _ _ => r').get? k = some r' := by
    rw [get?_update, h, Option.map_some, if_pos (decide_eq_true rfl)]
  rw [put, insertNew_of_some hupd, update, List.map_map]
  rfl

theorem keys_put_of_none {t : Table κ ρ} {k : κ} (h : t.get? k = none) (r : ρ) :
    (t.put k r).rows.map Prod.fst = t.rows.map Prod.fst ++ [k] := by
  have hupd : (t.update (fun k' _ => k' = k) fun _ _ => r).get? k = none := by
    rw [get?_update, h, Option.map_none]
  rw [put, rows_insertNew_of_none hupd, List.map_append, update, List.map_map]
  rfl

theorem length_put_of_some {t : Table κ ρ} {k : κ} {r : ρ} (h : t.get? k = some r) (r' : ρ) :
    (t.put k r').rows.length = t.rows.length := by
  simpa using congrArg List.length (keys_put_of_some h r')

theorem length_put_of_none {t : Table κ ρ} {k : κ} (h : t.get? k = none) (r : ρ) :
    (t.put k r).rows.length = t.rows.length + 1 := by
  simpa using congrArg List.length (keys_put_of_none h r)

omit [DecidableEq κ] in
theorem length_delete_le (t : Table κ ρ) (p : κ → ρ → Bool) :
    (t.delete p).rows.length ≤ t.rows.length :=
  List.length_filter_le _ _

/-! ### Row counts and clauses that select nothing -/

/-- A statement counts no row exactly when its clause selects none. -/
theorem count_eq_zero_iff {t : Table κ ρ} {p : κ → ρ → Bool} :
    t.count p = 0 ↔ ∀ k r, t.get? k = some r → p k r = false := by
  simp [count, List.countP_eq_zero, get?_eq_some_iff]

theorem delete_eq_self {t : Table κ ρ} {p : κ → ρ → Bool}
    (h : ∀ k r, t.get? k = some r → p k r = false) : t.delete p = t := by
  apply ext
  refine List.filter_eq_self.mpr ?_
  rintro ⟨k, r⟩ hx
  simp [h k r (get?_eq_some_iff.mpr hx)]

theorem update_eq_self {t : Table κ ρ} {p : κ → ρ → Bool} {f : κ → ρ → ρ}
    (h : ∀ k r, t.get? k = some r → p k r = false) : t.update p f = t := by
  apply ext
  have hid : ∀ x ∈ t.rows, (x.1, if p x.1 x.2 then f x.1 x.2 else x.2) = id x := by
    rintro ⟨k, r⟩ hx
    simp [h k r (get?_eq_some_iff.mpr hx)]
  exact (List.map_congr_left hid).trans (List.map_id _)

/-- An insert that meets no row with its key is the upsert. -/
theorem insertNew_eq_put {t : Table κ ρ} {k : κ} (h : t.get? k = none) (r : ρ) :
    t.insertNew k r = t.put k r := by
  rw [put, update_eq_self]
  intro k' r' hr'
  simp only [decide_eq_false_iff_not]
  rintro rfl
  exact absurd (hr'.symm.trans h) (by simp)

theorem update_congr {t : Table κ ρ} {p q : κ → ρ → Bool} {f g : κ → ρ → ρ}
    (h : ∀ k r, t.get? k = some r → (if p k r then f k r else r) = if q k r then g k r else r) :
    t.update p f = t.update q g := by
  apply ext
  refine List.map_congr_left ?_
  rintro ⟨k, r⟩ hx
  exact congrArg (Prod.mk k) (h k r (get?_eq_some_iff.mpr hx))

/-- Which keys a `WHERE` clause selects. -/
theorem mem_keys_matching {t : Table κ ρ} {p : κ → ρ → Bool} {k : κ} {r : ρ}
    (h : t.get? k = some r) : k ∈ (t.matching p).map Prod.fst ↔ p k r = true := by
  constructor
  · intro hk
    obtain ⟨⟨k', r'⟩, hx, rfl⟩ := List.mem_map.mp hk
    obtain ⟨hmem, hp⟩ := List.mem_filter.mp hx
    rwa [Option.some.inj (h.symm.trans (get?_eq_some_iff.mpr hmem))]
  · intro hp
    exact List.mem_map.mpr ⟨(k, r), List.mem_filter.mpr ⟨get?_eq_some_iff.mp h, hp⟩, rfl⟩

/-- The keys of the rows that a `WHERE` clause selects. -/
theorem mem_keys_matching_iff {t : Table κ ρ} {p : κ → ρ → Bool} {k : κ} :
    k ∈ (t.matching p).map Prod.fst ↔ ∃ r, t.get? k = some r ∧ p k r = true := by
  cases h : t.get? k with
  | none =>
    refine iff_of_false ?_ (by simp)
    intro hk
    obtain ⟨⟨k', r⟩, hx, rfl⟩ := List.mem_map.mp hk
    have hr := get?_eq_some_iff.mpr (List.mem_filter.mp hx).1
    exact absurd (hr.symm.trans h) (by simp)
  | some r =>
    rw [mem_keys_matching h]
    simp

theorem update_key_update_key {t : Table κ ρ} {k : κ} {f g : ρ → ρ} :
    (t.update (fun k' _ => k' = k) fun _ r => f r).update (fun k' _ => k' = k) (fun _ r => g r) =
      t.update (fun k' _ => k' = k) fun _ r => g (f r) := by
  apply ext
  simp only [update, List.map_map]
  refine List.map_congr_left fun x _ => ?_
  simp only [Function.comp_apply]
  by_cases hx : x.1 = k
  · simp only [if_pos (decide_eq_true hx)]
  · simp only [if_neg (show ¬ decide (x.1 = k) = true by simpa using hx)]

theorem exists_rows_eq {t : Table κ ρ} {k : κ} {r : ρ} (h : t.get? k = some r) :
    ∃ l l', t.rows = l ++ (k, r) :: l' ∧ ∀ x ∈ l ++ l', x.1 ≠ k := by
  obtain ⟨l, l', hl⟩ := List.append_of_mem (get?_eq_some_iff.mp h)
  have hnodup := t.nodupKeys
  rw [hl, List.map_append, List.map_cons, List.nodup_middle, List.nodup_cons, ← List.map_append]
    at hnodup
  exact ⟨l, l', hl, fun x hx hk => hnodup.1 (List.mem_map.mpr ⟨x, hx, hk⟩)⟩

theorem matching_key {t : Table κ ρ} {k : κ} {r : ρ} (h : t.get? k = some r) :
    t.matching (fun k' _ => k' = k) = [(k, r)] := by
  obtain ⟨l, l', hl, hother⟩ := exists_rows_eq h
  have hnone : ∀ l'' ⊆ l ++ l', l''.filter (fun x => decide (x.1 = k)) = [] := fun l'' hsub =>
    List.filter_eq_nil_iff.mpr fun x hx => by simpa using hother x (hsub hx)
  unfold matching
  rw [hl, List.filter_append, List.filter_cons, if_pos (decide_eq_true rfl),
    hnone l (List.subset_append_left _ _), hnone l' (List.subset_append_right _ _)]
  rfl

omit [DecidableEq κ] in
theorem delete_delete (t : Table κ ρ) (p q : κ → ρ → Bool) :
    (t.delete p).delete q = t.delete fun k r => p k r || q k r := by
  apply ext
  simp only [delete, List.filter_filter]
  refine List.filter_congr fun x _ => ?_
  rw [Bool.not_or, Bool.and_comm]

/-! ### Aggregates -/

omit [DecidableEq κ] in
theorem count_eq_sum (t : Table κ ρ) (p : κ → ρ → Bool) : t.count p = t.sum p fun _ => 1 := by
  unfold count sum
  induction t.rows with
  | nil => rfl
  | cons x l ih =>
    simp only [List.countP_cons, List.map_cons, List.sum_cons, ih]
    omega

omit [DecidableEq κ] in
/-- An update that adds nothing to the clause does not raise its count. -/
theorem count_update_le {t : Table κ ρ} {q p : κ → ρ → Bool} {f : κ → ρ → ρ}
    (h : ∀ k r, q k r → p k (f k r) → p k r) : (t.update q f).count p ≤ t.count p := by
  unfold count update
  rw [List.countP_map]
  refine List.countP_mono_left ?_
  rintro ⟨k, r⟩ - hp
  simp only [Function.comp_apply] at hp ⊢
  split at hp
  · next hq => exact h k r hq hp
  · exact hp

theorem count_update_key {t : Table κ ρ} {k : κ} {r : ρ} (h : t.get? k = some r) (f : ρ → ρ)
    (p : κ → ρ → Bool) :
    (t.update (fun k' _ => k' = k) fun _ r => f r).count p + (if p k r then 1 else 0) =
      t.count p + if p k (f r) then 1 else 0 := by
  obtain ⟨l, l', hl, hother⟩ := exists_rows_eq h
  have hsame : ∀ l'' ⊆ l ++ l', (l''.map fun x : κ × ρ =>
      (x.1, if decide (x.1 = k) = true then f x.2 else x.2)) = l'' := by
    intro l'' hsub
    refine (List.map_congr_left fun x hx => ?_).trans l''.map_id
    rw [if_neg (by simpa using hother x (hsub hx))]
    rfl
  unfold count update
  simp only [hl, List.map_append, List.map_cons, hsame l (List.subset_append_left _ _),
    hsame l' (List.subset_append_right _ _), List.countP_append, List.countP_cons, decide_true,
    if_true]
  omega

/-- An update that adds nothing to the clause does not raise the sum. -/
theorem sum_update_le {t : Table κ ρ} {q p : κ → ρ → Bool} {f : κ → ρ → ρ} {w : ρ → ℕ}
    (h : ∀ k r, t.get? k = some r → q k r → p k (f k r) → p k r ∧ w (f k r) ≤ w r) :
    (t.update q f).sum p w ≤ t.sum p w := by
  unfold sum update
  rw [List.map_map]
  apply List.sum_le_sum
  rintro ⟨k, r⟩ hx
  have hr := get?_eq_some_iff.mpr hx
  simp only [Function.comp_apply]
  by_cases hq : q k r
  · rw [if_pos hq]
    by_cases hp : p k (f k r)
    · obtain ⟨hpr, hw⟩ := h k r hr hq hp
      rwa [if_pos hp, if_pos hpr]
    · rw [if_neg hp]
      exact Nat.zero_le _
  · rw [if_neg hq]

omit [DecidableEq κ] in
theorem sum_delete_le (t : Table κ ρ) (q p : κ → ρ → Bool) (w : ρ → ℕ) :
    (t.delete q).sum p w ≤ t.sum p w := by
  change ((t.rows.filter fun x => !q x.1 x.2).map fun x => if p x.1 x.2 then w x.2 else 0).sum ≤
    (t.rows.map fun x => if p x.1 x.2 then w x.2 else 0).sum
  induction t.rows with
  | nil => exact le_rfl
  | cons x l ih =>
    rw [List.filter_cons, List.map_cons, List.sum_cons]
    split
    · rw [List.map_cons, List.sum_cons]
      omega
    · omega

theorem sum_insertNew {t : Table κ ρ} {k : κ} (h : t.get? k = none) (r : ρ)
    (p : κ → ρ → Bool) (w : ρ → ℕ) :
    (t.insertNew k r).sum p w = t.sum p w + if p k r then w r else 0 := by
  unfold sum
  rw [rows_insertNew_of_none h, List.map_append, List.sum_append]
  simp

section Total

variable {M : Type*} [AddMonoid M]

omit [DecidableEq κ] in
theorem total_update (t : Table κ ρ) (q : κ → ρ → Bool) (f : κ → ρ → ρ) (v : κ → ρ → M) :
    (t.update q f).total v = t.total fun k r => v k (if q k r then f k r else r) := by
  unfold total update
  rw [List.map_map]
  rfl

theorem total_insertNew {t : Table κ ρ} {k : κ} (h : t.get? k = none) (r : ρ) (v : κ → ρ → M) :
    (t.insertNew k r).total v = t.total v + v k r := by
  unfold total
  rw [rows_insertNew_of_none h, List.map_append, List.sum_append]
  simp

omit [DecidableEq κ] in
theorem sum_matching (t : Table κ ρ) (p : κ → ρ → Bool) (w : ρ → M) :
    ((t.matching p).map fun x => w x.2).sum = t.total fun k r => if p k r then w r else 0 := by
  unfold matching total
  induction t.rows with
  | nil => rfl
  | cons x l ih =>
    rw [List.filter_cons, List.map_cons, List.sum_cons, ← ih]
    dsimp only
    by_cases hx : p x.1 x.2 = true
    · rw [if_pos hx, if_pos hx, List.map_cons, List.sum_cons]
    · rw [if_neg hx, if_neg hx, zero_add]

theorem total_congr {t : Table κ ρ} {v v' : κ → ρ → M}
    (h : ∀ k r, t.get? k = some r → v k r = v' k r) : t.total v = t.total v' := by
  unfold total
  refine congrArg List.sum (List.map_congr_left ?_)
  rintro ⟨k, r⟩ hx
  exact h k r (get?_eq_some_iff.mpr hx)

theorem total_le [PartialOrder M] [AddLeftMono M] [AddRightMono M] {t : Table κ ρ}
    {v v' : κ → ρ → M} (h : ∀ k r, t.get? k = some r → v k r ≤ v' k r) :
    t.total v ≤ t.total v' := by
  unfold total
  apply List.sum_le_sum
  rintro ⟨k, r⟩ hx
  exact h k r (get?_eq_some_iff.mpr hx)

omit [DecidableEq κ] in
theorem total_add {M : Type*} [AddCommMonoid M] (t : Table κ ρ) (v v' : κ → ρ → M) :
    (t.total fun k r => v k r + v' k r) = t.total v + t.total v' := by
  unfold total
  exact List.sum_map_add

end Total

/-! ### Selected keys -/

section Select

variable {α : Type*} [LinearOrder α]

omit [DecidableEq κ] in
theorem length_select_le (t : Table κ ρ) (p : κ → ρ → Bool) (f : ρ → α) (n : ℕ) :
    (t.select p f n).length ≤ n := by
  simp only [select, List.length_map, List.length_take]
  omega

/-- Only keys of rows that satisfy the clause are selected. -/
theorem of_mem_select {t : Table κ ρ} {p : κ → ρ → Bool} {f : ρ → α} {n : ℕ} {k : κ}
    (h : k ∈ t.select p f n) {r : ρ} (hr : t.get? k = some r) : p k r = true := by
  obtain ⟨⟨k', r'⟩, hx, rfl⟩ := List.mem_map.mp h
  have hmem := List.mem_mergeSort.mp (List.mem_of_mem_take hx)
  obtain ⟨hin, hp⟩ := List.mem_filter.mp hmem
  rw [get?_eq_some_iff.mpr hin] at hr
  rwa [← Option.some.inj hr]

/-- A page that is not full has all rows that satisfy the clause. -/
theorem mem_select {t : Table κ ρ} {p : κ → ρ → Bool} {f : ρ → α} {n : ℕ} {k : κ} {r : ρ}
    (hr : t.get? k = some r) (hp : p k r = true) (hcount : t.count p ≤ n) : k ∈ t.select p f n := by
  have hlen :
    ((t.rows.filter fun x => p x.1 x.2).mergeSort fun x y => f x.2 ≤ f y.2).length ≤ n := by
    rw [List.length_mergeSort, ← List.countP_eq_length_filter]
    exact hcount
  unfold select
  rw [List.take_of_length_le hlen]
  refine List.mem_map.mpr ⟨(k, r), List.mem_mergeSort.mpr ?_, rfl⟩
  exact List.mem_filter.mpr ⟨get?_eq_some_iff.mp hr, hp⟩

/-- What comes before and after one another both ways is not there twice. -/
private theorem not_pair_sublist_swap {l : List κ} (hl : l.Nodup) {a b : κ}
    (hab : [a, b].Sublist l) : ¬ [b, a].Sublist l := by
  have hlt : ∀ {x y : κ}, [x, y].Sublist l → l.idxOf x < l.idxOf y := by
    intro x y h
    obtain ⟨r, r', rfl, hx, hy⟩ := List.cons_sublist_iff.mp h
    have hy' : y ∉ r := fun hmem =>
      (List.nodup_append.mp hl).2.2 y hmem y (List.singleton_sublist.mp hy) rfl
    rw [List.idxOf_append_of_mem hx, List.idxOf_append_of_notMem hy']
    have := List.idxOf_lt_length_of_mem hx
    omega
  intro hba
  have := hlt hab
  have := hlt hba
  omega

omit [DecidableEq κ] in
/-- Of two different items one comes before the other. -/
private theorem pair_sublist_or {l : List κ} {a b : κ} (ha : a ∈ l) (hb : b ∈ l) (hne : a ≠ b) :
    [a, b].Sublist l ∨ [b, a].Sublist l := by
  obtain ⟨r, r', rfl⟩ := List.append_of_mem ha
  rcases List.mem_append.mp hb with hb | hb
  · exact .inr ((List.singleton_sublist.mpr hb).append (List.singleton_sublist.mpr (by simp)))
  · rcases List.mem_cons.mp hb with rfl | hb
    · exact absurd rfl hne
    · exact .inl
        (.trans ((List.singleton_sublist.mpr hb).cons_cons a) (List.sublist_append_right r _))

/-- **The rows that a selection of `n` rows leaves behind those it takes**: they are larger, or
equal and later in the table. -/
theorem exists_behind_select {t : Table κ ρ} {f : ρ → α} {n : ℕ} {k : κ} {r : ρ}
    (h : k ∈ t.select (fun _ _ => true) f n) (hr : t.get? k = some r) :
    ∃ behind : List (κ × ρ), t.rows.length ≤ behind.length + n ∧ (behind.map Prod.fst).Nodup ∧
      ∀ y ∈ behind, y ∈ t.rows ∧ y.1 ≠ k ∧ f r ≤ f y.2 ∧
        (f y.2 = f r → [k, y.1].Sublist (t.rows.map Prod.fst)) := by
  set sorted := t.rows.mergeSort fun x y => f x.2 ≤ f y.2 with hsorted
  have hperm : sorted.Perm t.rows := List.mergeSort_perm _ _
  have hle : sorted.Pairwise fun x y => f x.2 ≤ f y.2 := by
    have := @List.pairwise_mergeSort _ (fun x y : κ × ρ => decide (f x.2 ≤ f y.2))
      (fun a b c hab hbc => decide_eq_true ((of_decide_eq_true hab).trans (of_decide_eq_true hbc)))
      (fun a b => by simpa using le_total (f a.2) (f b.2)) t.rows
    exact this.imp fun h => of_decide_eq_true h
  have hnodup : (sorted.map Prod.fst).Nodup := (hperm.map Prod.fst).nodup_iff.mpr t.nodupKeys
  obtain ⟨x, hx, rfl⟩ : ∃ x ∈ sorted.take n, x.1 = k := by
    have hmap : k ∈ (sorted.take n).map Prod.fst := by simpa only [select, List.filter_true] using h
    exact List.mem_map.mp hmap
  obtain rfl : x.2 = r := by
    have hmem : x ∈ t.rows := hperm.mem_iff.mp (List.mem_of_mem_take hx)
    exact Option.some.inj ((get?_eq_some_iff.mpr hmem).symm.trans hr)
  have hsplit : sorted.take n ++ sorted.drop n = sorted := List.take_append_drop n sorted
  refine ⟨sorted.drop n, ?_, ?_, fun y hy => ?_⟩
  · rw [List.length_drop, hperm.length_eq]
    omega
  · exact hnodup.sublist ((List.drop_sublist n sorted).map Prod.fst)
  have hpair : [x, y].Sublist sorted := by
    rw [← hsplit]
    exact (List.singleton_sublist.mpr hx).append (List.singleton_sublist.mpr hy)
  have hkeys : [x.1, y.1].Sublist (sorted.map Prod.fst) := hpair.map Prod.fst
  have hne : y.1 ≠ x.1 := by
    intro heq
    have := hnodup.sublist hkeys
    simp [heq] at this
  have hxmem : x ∈ t.rows := hperm.mem_iff.mp (List.mem_of_mem_take hx)
  have hymem : y ∈ t.rows := hperm.mem_iff.mp (List.mem_of_mem_drop hy)
  refine ⟨hymem, hne, ?_, fun heq => ?_⟩
  · exact List.pairwise_iff_forall_sublist.mp hle hpair
  · -- the sort is stable, so two equal rows stand as in the table
    rcases pair_sublist_or hxmem hymem (fun h => hne (h ▸ rfl)) with hord | hord
    · exact hord.map Prod.fst
    · have hswap : [y, x].Sublist sorted := List.pair_sublist_mergeSort
        (fun a b c hab hbc =>
          decide_eq_true ((of_decide_eq_true hab).trans (of_decide_eq_true hbc)))
        (fun a b => by simpa using le_total (f a.2) (f b.2)) (decide_eq_true heq.le) hord
      exact absurd (hswap.map Prod.fst) (not_pair_sublist_swap hnodup hkeys)

omit [DecidableEq κ] in
/-- A selection without a clause is full if there are enough rows. -/
theorem length_select {t : Table κ ρ} {f : ρ → α} {n : ℕ} (h : n ≤ t.rows.length) :
    (t.select (fun _ _ => true) f n).length = n := by
  simp [select, List.length_mergeSort, h]

omit [DecidableEq κ] in
theorem nodup_select (t : Table κ ρ) (p : κ → ρ → Bool) (f : ρ → α) (n : ℕ) :
    (t.select p f n).Nodup := by
  have hperm := List.mergeSort_perm (t.rows.filter fun x => p x.1 x.2) fun x y => f x.2 ≤ f y.2
  have hkeys : ((t.rows.filter fun x => p x.1 x.2).map Prod.fst).Nodup := t.nodup_filter _
  exact ((hperm.map Prod.fst).nodup_iff.mpr hkeys).sublist ((List.take_sublist n _).map Prod.fst)

omit [DecidableEq κ] in
theorem mem_keys_of_mem_select {t : Table κ ρ} {p : κ → ρ → Bool} {f : ρ → α} {n : ℕ} {k : κ}
    (h : k ∈ t.select p f n) : k ∈ t.rows.map Prod.fst := by
  obtain ⟨x, hx, rfl⟩ := List.mem_map.mp h
  have hmem := List.mem_mergeSort.mp (List.mem_of_mem_take hx)
  exact List.mem_map_of_mem (List.mem_filter.mp hmem).1

end Select

omit [DecidableEq κ] in
theorem rows_delete (t : Table κ ρ) (p : κ → ρ → Bool) :
    (t.delete p).rows = t.rows.filter fun x => !p x.1 x.2 := rfl

omit [DecidableEq κ] in
theorem length_delete (t : Table κ ρ) (p : κ → ρ → Bool) :
    (t.delete p).rows.length + t.count p = t.rows.length := by
  simp only [delete, count, ← List.countP_eq_length_filter]
  rw [Nat.add_comm, List.length_eq_countP_add_countP (fun x : κ × ρ => p x.1 x.2)]
  simp

theorem count_keys_le (t : Table κ ρ) (ks : List κ) :
    t.count (fun k _ => k ∈ ks) ≤ ks.length := by
  have hsub : (t.rows.map Prod.fst).filter (· ∈ ks) ⊆ ks := fun k hk => by
    simpa using (List.mem_filter.mp hk).2
  calc t.count (fun k _ => k ∈ ks)
      = ((t.rows.map Prod.fst).filter (· ∈ ks)).length := by
        rw [count, ← List.countP_eq_length_filter, List.countP_map]
        rfl
    _ ≤ ks.length := ((t.nodupKeys.filter _).subperm hsub).length_le

theorem le_count_keys {t : Table κ ρ} {ks : List κ} (hnodup : ks.Nodup)
    (hsub : ks ⊆ t.rows.map Prod.fst) : ks.length ≤ t.count fun k _ => k ∈ ks := by
  have hkeys : ks ⊆ (t.rows.map Prod.fst).filter (· ∈ ks) := fun k hk =>
    List.mem_filter.mpr ⟨hsub hk, decide_eq_true hk⟩
  calc ks.length ≤ ((t.rows.map Prod.fst).filter (· ∈ ks)).length :=
        (hnodup.subperm hkeys).length_le
    _ = t.count fun k _ => k ∈ ks := by
        rw [count, ← List.countP_eq_length_filter, List.countP_map]
        rfl

end Table

end Sql
