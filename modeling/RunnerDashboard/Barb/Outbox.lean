import RunnerDashboard.Lib.Json
import RunnerDashboard.Lib.Table

/-!
# The outbox

The bounded, ordered outbox of `staff/barb_outbox.py`.  A producer enqueues
versioned deliveries under a `(kind, thread, run)` key; the drainer claims the
lowest pending version of each key and then marks it delivered, dead or to be
retried.  For the coalescing kinds a new version replaces the pending lower ones
that are not terminal, and it does so before the bounds are checked.

Instants are integers in microseconds; the jitter of the backoff is drawn from
outside.

## Main results

* `enqueue_error` — a refused `enqueue` leaves the table as it was.
* `of_mem_claimed` — what `claim_due` hands out.
-/

namespace Outbox

open Sql

/-! ### Data -/

/-- What deliveries are ordered by. -/
structure Key where
  kind : String
  threadId : String
  runId : String
  deriving DecidableEq, Repr

/-- The columns `enqueue` writes once and for all. -/
structure Entry where
  key : Key
  version : Int
  terminal : Bool
  payload : String
  sizeBytes : ℕ
  createdAt : Int
  deriving DecidableEq, Repr

/-- The column `status`. -/
inductive Status
  | pending
  | delivering
  | delivered
  | dead
  deriving DecidableEq, Repr

/-- A row of `barb_outbox`, keyed by `outbox_id`. -/
structure Row where
  entry : Entry
  status : Status := .pending
  attempts : ℕ := 0
  nextAttemptAt : Int := 0
  lastError : String := ""
  deliveredAt : Option Int := none
  deriving DecidableEq, Repr

/-- The table `barb_outbox`. -/
abbrev Store := Table String Row

/-- The arguments of `OutboxStore`. -/
structure Bounds where
  maxEntries : ℕ
  maxBytes : ℕ
  maxEntryBytes : ℕ
  /-- The constructor refuses a bound below 1. -/
  pos : 1 ≤ maxEntries ∧ 1 ≤ maxBytes ∧ 1 ≤ maxEntryBytes

/-- The exceptions of `enqueue`. -/
inductive OutboxError
  /-- `ValueError`. -/
  | value (message : String)
  /-- `OutboxEntryTooLarge`. -/
  | tooLarge (message : String)
  /-- `OutboxConflictError`. -/
  | conflict (message : String)
  /-- `OutboxFullError`. -/
  | full (message : String)
  deriving DecidableEq, Repr

/-! ### Operations -/

def coalescingKinds : List String := ["run_card"]

/-- The row counts towards the bounds. -/
def undelivered (_ : String) (r : Row) : Bool := r.status ≠ .delivered

/-- The rows that count: `SELECT COUNT(*) … WHERE status != 'delivered'`. -/
def depth (t : Store) : ℕ := t.count undelivered

/-- Their bytes: `SELECT SUM(size_bytes) … WHERE status != 'delivered'`. -/
def bytes (t : Store) : ℕ := t.sum undelivered fun r => r.entry.sizeBytes

/-- The arguments of `enqueue`, with the reading of the clock. -/
structure EnqueueArgs where
  key : Key
  version : Int
  payload : Json
  terminal : Bool := false
  now : Int

def EnqueueArgs.data (a : EnqueueArgs) : String := a.payload.sortKeys.dumpsCompact

def EnqueueArgs.size (a : EnqueueArgs) : ℕ := a.data.utf8ByteSize

/-- The row `enqueue` inserts. -/
def EnqueueArgs.row (a : EnqueueArgs) : Row where
  entry := ⟨a.key, a.version, a.terminal, a.data, a.size, a.now⟩

def findVersion (t : Store) (key : Key) (version : Int) : Option (String × Row) :=
  t.rows.find? fun x => x.2.entry.key = key ∧ x.2.entry.version = version

/-- The clause of the coalescing `DELETE`. -/
def superseded (key : Key) (version : Int) (_ : String) (r : Row) : Bool :=
  r.entry.key = key ∧ r.status = .pending ∧ r.entry.terminal = false ∧ r.entry.version < version

/-- The coalescing `DELETE`, for the kinds that coalesce. -/
def coalesce (t : Store) (key : Key) (version : Int) : Store :=
  if key.kind ∈ coalescingKinds then t.delete (superseded key version) else t

/-- The text of `OutboxConflictError`. -/
def conflictMessage (key : Key) (version : Int) : String :=
  key.kind ++ "/" ++ key.threadId ++ "/" ++ key.runId ++ " v" ++ toString version ++
    " already enqueued with a different payload"

/-- The text of `OutboxFullError`. -/
def fullMessage (b : Bounds) (n bytes : ℕ) : String :=
  "outbox full: " ++ toString n ++ "/" ++ toString b.maxEntries ++ " entries, " ++
    toString bytes ++ "/" ++ toString b.maxBytes ++ " bytes"

/-- The transaction of `enqueue`; `id` is the fresh outbox id. -/
def enqueueBody (b : Bounds) (a : EnqueueArgs) (id : String) (t : Store) :
    Except OutboxError (String × Store) :=
  match findVersion t a.key a.version with
  | some (existing, row) =>
    if row.entry.payload ≠ a.data then .error (.conflict (conflictMessage a.key a.version))
    else .ok (existing, t)
  | none =>
    let t₁ := coalesce t a.key a.version
    if b.maxEntries < depth t₁ + 1 ∨ b.maxBytes < bytes t₁ + a.size then
      .error (.full (fullMessage b (depth t₁) (bytes t₁)))
    else .ok (id, t₁.insertNew id a.row)

def enqueue (b : Bounds) (a : EnqueueArgs) (id : String) (t : Store) :
    Except OutboxError String × Store :=
  if a.key.kind = "" ∨ a.key.threadId = "" ∨ a.version < 1 then
    (.error (.value "kind, thread_id and version >= 1 are required"), t)
  else if b.maxEntryBytes < a.size then
    (.error (.tooLarge ("payload " ++ toString a.size ++ " bytes > max_entry_bytes " ++
      toString b.maxEntryBytes)), t)
  else immediateTxn (enqueueBody b a id) t

/-- The `WHERE` clause of `claim_due`: due, nothing of its key in flight, and no lower
version of its key pending. -/
def due (t : Store) (at' : Int) (o : Row) : Bool :=
  o.status = .pending ∧ o.nextAttemptAt ≤ at' ∧
    ¬ (t.rows.any fun d => d.2.entry.key = o.entry.key ∧ d.2.status = .delivering) ∧
    ¬ (t.rows.any fun p => p.2.entry.key = o.entry.key ∧ p.2.status = .pending ∧
      p.2.entry.version < o.entry.version)

/-- `ORDER BY created_at, version`. -/
def handOutOrder (x y : String × Row) : Bool :=
  x.2.entry.createdAt < y.2.entry.createdAt ∨
    (x.2.entry.createdAt = y.2.entry.createdAt ∧ x.2.entry.version ≤ y.2.entry.version)

/-- `LIMIT n`; a negative limit is none. -/
def limitRows {α : Type*} (limit : Int) (l : List α) : List α :=
  if limit < 0 then l else l.take limit.toNat

/-- The rows `claim_due` selects. -/
def claimed (t : Store) (limit : Int) (at' : Int) : List (String × Row) :=
  limitRows limit ((t.rows.filter fun x => due t at' x.2).mergeSort handOutOrder)

/-- The `UPDATE … WHERE outbox_id = ?` of each id in turn. -/
def setStatus (t : Store) (ids : List String) (f : Row → Row) : Store :=
  t.update (fun id _ => id ∈ ids) fun _ r => f r

/-- `claim_due`: the entries handed out, and the table with them `delivering`. -/
def claimDue (t : Store) (limit : Int) (at' : Int) : List (String × Row) × Store :=
  let rows := claimed t limit at'
  (rows.map fun x => (x.1, { x.2 with status := .delivering }),
    setStatus t (rows.map Prod.fst) fun r => { r with status := .delivering })

def markDelivered (t : Store) (id : String) (now : Int) : Store :=
  setStatus t [id] fun r => { r with status := .delivered, deliveredAt := some now }

/-- `backoff_seconds`, in microseconds; `jitter` is the random part of a second, below
half a second. -/
def backoff (attempts jitter : ℕ) : Int :=
  (min 300 (2 * 2 ^ min attempts 20) : ℕ) * (500000 + jitter : ℕ)

/-- `error[:500]`. -/
def clip (error : String) : String := String.ofList (error.toList.take 500)

def markRetry (t : Store) (id error : String) (now : Int) (jitter : ℕ) : Store :=
  setStatus t [id] fun r =>
    { r with
      status := .pending
      attempts := r.attempts + 1
      nextAttemptAt := now + backoff r.attempts jitter
      lastError := clip error }

def markDead (t : Store) (id error : String) : Store :=
  setStatus t [id] fun r => { r with status := .dead, lastError := clip error }

def release (t : Store) (ids : List String) : Store :=
  setStatus t ids fun r => { r with status := .pending }

def recoverInFlight (t : Store) : ℕ × Store :=
  (t.count fun _ r => r.status = .delivering,
    t.update (fun _ r => r.status = .delivering) fun _ r => { r with status := .pending })

/-- The clause of `prune_delivered`. -/
def prunable (olderThan : Int) (_ : String) (r : Row) : Bool :=
  r.status = .delivered ∧ ∃ at' ∈ r.deliveredAt, at' < olderThan

def pruneDelivered (t : Store) (olderThan : Int) : ℕ × Store :=
  (t.count (prunable olderThan), t.delete (prunable olderThan))

/-! ### What the operations do -/

/-- **A refused `enqueue` leaves the table as it was**, the rows it would have
coalesced included. -/
theorem enqueue_error {b : Bounds} {a : EnqueueArgs} {id : String} {t : Store} {e : OutboxError}
    (h : (enqueue b a id t).1 = .error e) : (enqueue b a id t).2 = t := by
  unfold enqueue at h ⊢
  split
  · rfl
  · next hv =>
    rw [if_neg hv] at h
    split
    · rfl
    · next hs =>
      rw [if_neg hs] at h
      exact immediateTxn_error h

/-- **An accepted `enqueue`** finds its entry, or inserts it within the bounds. -/
theorem enqueue_ok_cases {b : Bounds} {a : EnqueueArgs} {id id' : String} {t : Store}
    (h : (enqueue b a id t).1 = .ok id') :
    (∃ row, findVersion t a.key a.version = some (id', row) ∧ row.entry.payload = a.data ∧
      (enqueue b a id t).2 = t) ∨
    (id' = id ∧ findVersion t a.key a.version = none ∧
      depth (coalesce t a.key a.version) + 1 ≤ b.maxEntries ∧
      bytes (coalesce t a.key a.version) + a.size ≤ b.maxBytes ∧
      (enqueue b a id t).2 = (coalesce t a.key a.version).insertNew id a.row) := by
  unfold enqueue at h ⊢
  split at h
  · exact absurd h (by simp)
  · next hv =>
    rw [if_neg hv]
    split at h
    · exact absurd h (by simp)
    · next hs =>
      rw [if_neg hs]
      obtain ⟨t', ht'⟩ : ∃ t', immediateTxn (enqueueBody b a id) t = (.ok id', t') :=
        ⟨_, Prod.ext h rfl⟩
      rw [ht']
      have hbody := immediateTxn_ok.mp ht'
      unfold enqueueBody at hbody
      split at hbody
      · next existing row hfind =>
        split at hbody
        · exact absurd hbody (by simp)
        · next hpay =>
          obtain ⟨rfl, rfl⟩ := Prod.ext_iff.mp (Except.ok.inj hbody)
          exact .inl ⟨row, hfind, not_not.mp hpay, rfl⟩
      · next hfind =>
        simp only at hbody
        split at hbody
        · exact absurd hbody (by simp)
        · next hroom =>
          obtain ⟨rfl, rfl⟩ := Prod.ext_iff.mp (Except.ok.inj hbody)
          rw [not_or, not_lt, not_lt] at hroom
          exact .inr ⟨rfl, hfind, hroom.1, hroom.2, rfl⟩

theorem one_le_of_enqueue_ok {b : Bounds} {a : EnqueueArgs} {id id' : String} {t : Store}
    (h : (enqueue b a id t).1 = .ok id') : 1 ≤ a.version := by
  unfold enqueue at h
  split at h
  · cases h
  · next hv =>
    rw [not_or, not_or, not_lt] at hv
    exact hv.2.2

theorem findVersion_some {t : Store} {key : Key} {version : Int} {id : String} {row : Row}
    (h : findVersion t key version = some (id, row)) :
    t.get? id = some row ∧ row.entry.key = key ∧ row.entry.version = version := by
  have hmem := List.mem_of_find?_eq_some h
  have hp := List.find?_some h
  simp only [decide_eq_true_eq] at hp
  exact ⟨Table.get?_eq_some_iff.mpr hmem, hp⟩

theorem findVersion_none {t : Store} {key : Key} {version : Int}
    (h : findVersion t key version = none) {id : String} {row : Row} (hr : t.get? id = some row) :
    ¬ (row.entry.key = key ∧ row.entry.version = version) := by
  have := List.find?_eq_none.mp h _ (Table.get?_eq_some_iff.mp hr)
  simpa using this

/-- The lookup after the coalescing `DELETE`: a row stays, or it was superseded. -/
theorem get?_coalesce (t : Store) (key : Key) (version : Int) (id : String) :
    (coalesce t key version).get? id = t.get? id ∨
      ((coalesce t key version).get? id = none ∧
        ∃ r, t.get? id = some r ∧ superseded key version id r = true) := by
  unfold coalesce
  split
  · rw [Table.get?_delete]
    cases h : t.get? id with
    | none => exact .inl rfl
    | some r =>
      cases hs : superseded key version id r with
      | false => exact .inl (by simp [hs])
      | true => exact .inr ⟨by simp [hs], r, rfl, hs⟩
  · exact .inl rfl

/-- The lookup after an `UPDATE … WHERE outbox_id = ?`. -/
theorem get?_setStatus (t : Store) (ids : List String) (f : Row → Row) (id : String) :
    (setStatus t ids f).get? id =
      if id ∈ ids then (t.get? id).map f else t.get? id := by
  rw [setStatus, Table.get?_update]
  by_cases h : id ∈ ids
  · simp [h]
  · cases t.get? id <;> simp [h]

theorem mem_of_mem_limitRows {α : Type*} {limit : Int} {l : List α} {x : α}
    (h : x ∈ limitRows limit l) : x ∈ l := by
  unfold limitRows at h
  split at h
  · exact h
  · exact List.mem_of_mem_take h

/-- **What `claim_due` hands out**: pending rows, nothing of whose key is in flight,
and no lower version of whose key is pending. -/
theorem of_mem_claimed {t : Store} {limit : Int} {at' : Int} {id : String} {o : Row}
    (h : (id, o) ∈ claimed t limit at') :
    t.get? id = some o ∧ o.status = .pending ∧
      (∀ id' d, t.get? id' = some d → d.entry.key = o.entry.key → d.status ≠ .delivering) ∧
      (∀ id' p, t.get? id' = some p → p.entry.key = o.entry.key → p.status = .pending →
        o.entry.version ≤ p.entry.version) := by
  have hmem := List.mem_mergeSort.mp (mem_of_mem_limitRows h)
  obtain ⟨hrow, hdue⟩ := List.mem_filter.mp hmem
  simp only [due, decide_eq_true_eq, List.any_eq_true, not_exists, not_and] at hdue
  obtain ⟨hp, -, hd, hv⟩ := hdue
  refine ⟨Table.get?_eq_some_iff.mpr hrow, hp, ?_, ?_⟩
  · intro id' d hd' hkey
    exact hd (id', d) (Table.get?_eq_some_iff.mp hd') hkey
  · intro id' p hp' hkey hpend
    exact not_lt.mp (hv (id', p) (Table.get?_eq_some_iff.mp hp') hkey hpend)

end Outbox
