import RunnerDashboard.Lib.Json
import RunnerDashboard.Lib.PyStr
import RunnerDashboard.Lib.Table

/-!
# The idempotency store

The ledger of `staff/idempotency.py`: a mutating request first *reserves* its
`(key, endpoint, principal)`, then *completes* the reservation with a receipt or
*releases* it.  A reservation carries an operation id, which is what later calls
must present, and a lease, after which its outcome counts as unknown.

Instants are integers in microseconds, so the ISO timestamps of the table compare
as they do.  `reserve` reads the clock once before its transaction (`nowIso`) and
again inside it (`clock`, `takeoverClock`), and draws its operation ids from
outside; these arrive as arguments.

## Main results

* `get?_reserveLocked_of_ne` — and nothing on any other row.
* `complete_of_blank`, `release_of_blank` — a blank operation id is refused.
-/

namespace Idempotency

open Sql

/-! ### Data -/

/-- The primary key of the ledger. -/
structure Ident where
  key : String
  endpoint : String
  principal : String
  deriving DecidableEq, Repr

/-- The column `state`. -/
inductive RowState
  | pending
  | done
  deriving DecidableEq, Repr

/-- The other columns of `idempotency_keys`. -/
structure Row where
  statusCode : Int
  responseHeaders : String
  responseBody : String
  createdAt : Int
  expiresAt : Int
  state : RowState
  payloadHash : String
  operationId : String
  leaseExpiresAt : Int
  deriving DecidableEq, Repr

/-- The table `idempotency_keys`. -/
abbrev Store := Table Ident Row

/-- `IdempotencyRecord`: the receipt of a finished operation. -/
structure IdempotencyRecord where
  ident : Ident
  statusCode : Int
  responseHeaders : Json
  responseBody : String
  createdAt : Int
  expiresAt : Int

/-- The field `state` of a `Reservation`. -/
inductive ReservationState
  | acquired
  | replay
  | inProgress
  | mismatch
  | unknownOutcome
  deriving DecidableEq, Repr

/-- `Reservation`: what `reserve` returns. -/
structure Reservation where
  state : ReservationState
  operationId : String
  record : Option IdempotencyRecord := none
  recovered : Bool := false

inductive MutationResult
  | ok
  | notOwner
  deriving DecidableEq, Repr

/-- The exceptions of the store: `ValueError` for a blank operation id, and
`IdempotencyStoreError` around whatever fails inside a transaction. -/
inductive StoreError
  | value (message : String)
  | store
  deriving DecidableEq, Repr

/-! ### Operations -/

/-- `timedelta(seconds=…)`. -/
def seconds (n : Int) : Int := n * 1000000

def defaultTtlHours : Int := 24

def defaultLeaseSeconds : Int := 600

/-- `_record_from_row`; `none` where the headers column is no JSON. -/
def recordFromRow (i : Ident) (row : Row) : Option IdempotencyRecord :=
  let headers := if row.responseHeaders = "" then some (.obj [])
    else Json.loads row.responseHeaders
  headers.map fun headers => ⟨i, row.statusCode, headers, row.responseBody, row.createdAt,
    row.expiresAt⟩

/-- The arguments of `reserve` after the identity, with what it draws from outside:
the clock readings and the two fresh operation ids. -/
structure ReserveArgs where
  payloadHash : String
  /-- `lease_seconds`, in microseconds. -/
  lease : Int := seconds defaultLeaseSeconds
  takeoverSafe : Bool := false
  /-- `_now()`, read before the transaction begins. -/
  nowIso : Int
  /-- The reading of the two `_iso_in` calls of the `INSERT`. -/
  clock : Int
  /-- The reading of the `_iso_in` call of the takeover. -/
  takeoverClock : Int
  operationId : String
  newOperationId : String

def ReserveArgs.pendingRow (a : ReserveArgs) : Row where
  statusCode := 0
  responseHeaders := "{}"
  responseBody := ""
  createdAt := a.nowIso
  expiresAt := a.clock + seconds (defaultTtlHours * 3600)
  state := .pending
  payloadHash := a.payloadHash
  operationId := a.operationId
  leaseExpiresAt := a.clock + a.lease

def ReserveArgs.takenOver (a : ReserveArgs) (row : Row) : Row :=
  { row with leaseExpiresAt := a.takeoverClock + a.lease, operationId := a.newOperationId }

/-- The `DELETE` at the start of `_reserve_locked`: the row of `i` when it has expired. -/
def deleteExpired (t : Store) (i : Ident) (nowIso : Int) : Store :=
  t.delete fun k r => k = i ∧ r.expiresAt ≤ nowIso

/-- `_reserve_locked`, in its `BEGIN IMMEDIATE` transaction; an error rolls back. -/
def reserveLocked (t : Store) (i : Ident) (a : ReserveArgs) :
    Except StoreError Reservation × Store :=
  let t₁ := deleteExpired t i a.nowIso
  match t₁.get? i with
  | none =>
    -- no conflict: the insert counts one row
    (.ok { state := .acquired, operationId := a.operationId }, t₁.insertNew i a.pendingRow)
  | some row =>
    if row.payloadHash ≠ "" ∧ a.payloadHash ≠ "" ∧ row.payloadHash ≠ a.payloadHash then
      (.ok { state := .mismatch, operationId := row.operationId }, t₁)
    else if row.state = .done then
      match recordFromRow i row with
      | some record =>
        (.ok { state := .replay, operationId := row.operationId, record := some record }, t₁)
      | none => (.error .store, t)
    else if a.nowIso < row.leaseExpiresAt then
      (.ok { state := .inProgress, operationId := row.operationId }, t₁)
    else if a.takeoverSafe then
      (.ok { state := .acquired, operationId := a.newOperationId, recovered := true },
        t₁.update (fun k _ => k = i) fun _ r => a.takenOver r)
    else (.ok { state := .unknownOutcome, operationId := row.operationId }, t₁)

/-- The guard of `complete` and `release`. -/
def blankOperationId (operationId : String) : Bool := Py.strip operationId = ""

def blankError : StoreError := .value "operation_id must identify the reserved operation"

/-- The `WHERE` clause of `complete` and `release`. -/
def owns (i : Ident) (operationId : String) (k : Ident) (r : Row) : Bool :=
  k = i ∧ r.state = .pending ∧ r.operationId = operationId

/-- `k.lower()`, for the comparison with the two skipped names. -/
def lowerName (name : String) : String := name.map Char.toLower

def cleanHeaders (headers : List (String × String)) : List (String × String) :=
  headers.filter fun h => lowerName h.1 ∉ ["content-length", "transfer-encoding"]

/-- A `dict[str, str]` as a JSON object. -/
def headersJson (headers : List (String × String)) : Json :=
  .obj (headers.map fun h => (h.1, .str h.2))

/-- The arguments of `complete` after the identity, with its clock reading. -/
structure CompleteArgs where
  statusCode : Int
  responseHeaders : List (String × String)
  responseBody : String
  /-- `ttl_seconds`. -/
  ttlSeconds : Option Int := none
  clock : Int
  operationId : String

def CompleteArgs.doneRow (a : CompleteArgs) (row : Row) : Row :=
  { row with
    state := .done
    statusCode := a.statusCode
    responseHeaders := (headersJson (cleanHeaders a.responseHeaders)).dumps
    responseBody := a.responseBody
    expiresAt := a.clock + seconds (a.ttlSeconds.getD (defaultTtlHours * 3600)) }

def complete (t : Store) (i : Ident) (a : CompleteArgs) :
    Except StoreError MutationResult × Store :=
  if blankOperationId a.operationId then (.error blankError, t)
  else
    let changed := t.count (owns i a.operationId)
    (.ok (if changed ≠ 0 then .ok else .notOwner),
      t.update (owns i a.operationId) fun _ r => a.doneRow r)

def release (t : Store) (i : Ident) (operationId : String) :
    Except StoreError MutationResult × Store :=
  if blankOperationId operationId then (.error blankError, t)
  else
    let changed := t.count (owns i operationId)
    (.ok (if changed ≠ 0 then .ok else .notOwner), t.delete (owns i operationId))

/-- `get`: the unexpired receipt. -/
def get (t : Store) (i : Ident) (nowIso : Int) : Except StoreError (Option IdempotencyRecord) :=
  match (t.get? i).filter fun r => nowIso < r.expiresAt ∧ r.state = .done with
  | none => .ok none
  | some row => match recordFromRow i row with
    | some record => .ok (some record)
    | none => .error .store

def purgeExpired (t : Store) (nowIso : Int) : ℕ × Store :=
  (t.count fun _ r => r.expiresAt ≤ nowIso, t.delete fun _ r => r.expiresAt ≤ nowIso)

/-! ### What a reservation does -/

/-- The row of `i` after the expired one is deleted. -/
def unexpired (t : Store) (i : Ident) (nowIso : Int) : Option Row :=
  (t.get? i).filter fun r => nowIso < r.expiresAt

theorem unexpired_eq_some_iff {t : Store} {i : Ident} {nowIso : Int} {row : Row} :
    unexpired t i nowIso = some row ↔ t.get? i = some row ∧ nowIso < row.expiresAt := by
  simp [unexpired, Option.filter_eq_some_iff]

theorem get?_deleteExpired (t : Store) (i k : Ident) (nowIso : Int) :
    (deleteExpired t i nowIso).get? k = if k = i then unexpired t i nowIso else t.get? k := by
  rw [deleteExpired, Table.get?_delete]
  split
  · next h =>
    subst h
    simp only [unexpired, true_and, ← not_le, decide_not]
  · next h => cases t.get? k <;> simp [h]

/-- The reply of a reservation and the row it leaves, as a function of the row it
meets.  The reply `.error .store` is the rollback. -/
def reserveRow (i : Ident) (a : ReserveArgs) : Option Row →
    Except StoreError Reservation × Option Row
  | none => (.ok { state := .acquired, operationId := a.operationId }, some a.pendingRow)
  | some row =>
    if row.payloadHash ≠ "" ∧ a.payloadHash ≠ "" ∧ row.payloadHash ≠ a.payloadHash then
      (.ok { state := .mismatch, operationId := row.operationId }, some row)
    else if row.state = .done then
      match recordFromRow i row with
      | some record =>
        (.ok { state := .replay, operationId := row.operationId, record := some record },
          some row)
      | none => (.error .store, some row)
    else if a.nowIso < row.leaseExpiresAt then
      (.ok { state := .inProgress, operationId := row.operationId }, some row)
    else if a.takeoverSafe then
      (.ok { state := .acquired, operationId := a.newOperationId, recovered := true },
        some (a.takenOver row))
    else (.ok { state := .unknownOutcome, operationId := row.operationId }, some row)

/-- **A reservation works on the row of its identity alone.** -/
theorem reserveLocked_spec (t : Store) (i : Ident) (a : ReserveArgs) :
    (reserveLocked t i a).1 = (reserveRow i a (unexpired t i a.nowIso)).1 ∧
      (reserveLocked t i a).2.get? i = (reserveRow i a (unexpired t i a.nowIso)).2 := by
  have hget := get?_deleteExpired t i i a.nowIso
  rw [if_pos rfl] at hget
  unfold reserveLocked
  simp only [hget]
  cases h : unexpired t i a.nowIso with
  | none => simp [reserveRow, Table.get?_insertNew, hget, h]
  | some row =>
    rw [h] at hget
    simp only [reserveRow]
    split_ifs
    · exact ⟨rfl, hget⟩
    · cases recordFromRow i row with
      | some record => exact ⟨rfl, hget⟩
      | none => exact ⟨rfl, (unexpired_eq_some_iff.mp h).1⟩
    · exact ⟨rfl, hget⟩
    · exact ⟨rfl, by simp [Table.get?_update, hget]⟩
    · exact ⟨rfl, hget⟩

/-- **The two ways to meet an unexpired row**: it stays and nothing is acquired, or
it is pending, has lapsed, and is taken over. -/
theorem reserveRow_some (i : Ident) (a : ReserveArgs) (row : Row) :
    ((reserveRow i a (some row)).2 = some row ∧
      ∀ res, (reserveRow i a (some row)).1 = .ok res → res.state ≠ .acquired) ∨
    (row.state = .pending ∧ row.leaseExpiresAt ≤ a.nowIso ∧ a.takeoverSafe = true ∧
      reserveRow i a (some row) =
        (.ok { state := .acquired, operationId := a.newOperationId, recovered := true },
          some (a.takenOver row))) := by
  simp only [reserveRow]
  split_ifs with hm hd hl hs
  · left; simp
  · left
    cases recordFromRow i row <;> simp
  · left; simp
  · have hp : row.state = .pending := by
      cases h : row.state with
      | pending => rfl
      | done => exact absurd h hd
    exact .inr ⟨hp, not_lt.mp hl, hs, rfl⟩
  · left; simp

theorem deleteExpired_eq_self {t : Store} {i : Ident} {nowIso : Int} {row : Row}
    (h : t.get? i = some row) (hx : nowIso < row.expiresAt) : deleteExpired t i nowIso = t := by
  apply Table.delete_eq_self
  intro k r hr
  by_cases hk : k = i
  · subst hk
    rw [h] at hr
    cases hr
    simp [hx]
  · simp [hk]

/-- The receipt in a finished row that a completion wrote. -/
def CompleteArgs.receipt (a : CompleteArgs) (i : Ident) (createdAt : Int) :
    IdempotencyRecord where
  ident := i
  statusCode := a.statusCode
  responseHeaders := headersJson (cleanHeaders a.responseHeaders)
  responseBody := a.responseBody
  createdAt := createdAt
  expiresAt := a.clock + seconds (a.ttlSeconds.getD (defaultTtlHours * 3600))

/-- The headers column reads back as the headers that were kept. -/
theorem recordFromRow_doneRow (i : Ident) (a : CompleteArgs) (row : Row) :
    recordFromRow i (a.doneRow row) = some (a.receipt i row.createdAt) := by
  simp [recordFromRow, CompleteArgs.doneRow, CompleteArgs.receipt, Json.dumps_ne_empty]

/-- **A receipt answers a reservation** with the same or an empty hash: it is
replayed and the table stays. -/
theorem reserveLocked_replay {t : Store} {i : Ident} {a : CompleteArgs} {row : Row}
    {b : ReserveArgs} (h : t.get? i = some (a.doneRow row))
    (hx : b.nowIso < (a.doneRow row).expiresAt)
    (hb : b.payloadHash = "" ∨ b.payloadHash = row.payloadHash) :
    reserveLocked t i b = (.ok
      { state := .replay, operationId := row.operationId,
        record := some (a.receipt i row.createdAt) }, t) := by
  have hmatch : ¬ (row.payloadHash ≠ "" ∧ b.payloadHash ≠ "" ∧
      row.payloadHash ≠ b.payloadHash) := by
    rintro ⟨-, hne, hdiff⟩
    rcases hb with hb | hb
    · exact hne hb
    · exact hdiff hb.symm
  have hhash : (a.doneRow row).payloadHash = row.payloadHash := rfl
  have hstate : (a.doneRow row).state = .done := rfl
  unfold reserveLocked
  simp only [deleteExpired_eq_self h hx, h, hhash, hstate, if_neg hmatch, if_true,
    recordFromRow_doneRow]
  rfl

/-- A reservation with another hash is refused and the table stays. -/
theorem reserveLocked_mismatch {t : Store} {i : Ident} {row : Row} {b : ReserveArgs}
    (h : t.get? i = some row) (hx : b.nowIso < row.expiresAt) (hrow : row.payloadHash ≠ "")
    (hb : b.payloadHash ≠ "") (hne : row.payloadHash ≠ b.payloadHash) :
    reserveLocked t i b = (.ok { state := .mismatch, operationId := row.operationId }, t) := by
  unfold reserveLocked
  simp only [deleteExpired_eq_self h hx, h, if_pos (And.intro hrow (And.intro hb hne))]

theorem get?_reserveLocked_of_ne (t : Store) {i k : Ident} (h : k ≠ i) (a : ReserveArgs) :
    (reserveLocked t i a).2.get? k = t.get? k := by
  have hget := get?_deleteExpired t i k a.nowIso
  rw [if_neg h] at hget
  unfold reserveLocked
  simp only
  split
  · simp [Table.get?_insertNew, h, hget]
  · split_ifs
    · exact hget
    · split
      · exact hget
      · rfl
    · exact hget
    · simp [Table.get?_update, hget, h]
    · exact hget

/-! ### What a completion and a release do -/

theorem complete_of_blank {a : CompleteArgs} (h : blankOperationId a.operationId = true)
    (t : Store) (i : Ident) : complete t i a = (.error blankError, t) := if_pos h

theorem release_of_blank {op : String} (h : blankOperationId op = true) (t : Store) (i : Ident) :
    release t i op = (.error blankError, t) := if_pos h

/-- No row satisfies the clause when the row of the identity is not the caller's. -/
theorem owns_eq_false {t : Store} {i : Ident} {op : String}
    (h : ∀ r, t.get? i = some r → r.state = .pending → r.operationId ≠ op) :
    ∀ k r, t.get? k = some r → owns i op k r = false := by
  intro k r hr
  by_cases hk : k = i
  · subst hk
    have := h r hr
    simpa [owns] using this
  · simp [owns, hk]

/-- A caller that does not own the pending row is told so, and nothing changes. -/
theorem complete_of_not_owner {t : Store} {i : Ident} {a : CompleteArgs}
    (hb : blankOperationId a.operationId = false)
    (h : ∀ r, t.get? i = some r → r.state = .pending → r.operationId ≠ a.operationId) :
    complete t i a = (.ok .notOwner, t) := by
  have hnone := owns_eq_false h
  have hcount : t.count (owns i a.operationId) = 0 := Table.count_eq_zero_iff.mpr hnone
  rw [complete, if_neg (by simp [hb]), Table.update_eq_self hnone]
  simp [hcount]

theorem release_of_not_owner {t : Store} {i : Ident} {op : String}
    (hb : blankOperationId op = false)
    (h : ∀ r, t.get? i = some r → r.state = .pending → r.operationId ≠ op) :
    release t i op = (.ok .notOwner, t) := by
  have hnone := owns_eq_false h
  have hcount : t.count (owns i op) = 0 := Table.count_eq_zero_iff.mpr hnone
  rw [release, if_neg (by simp [hb]), Table.delete_eq_self hnone]
  simp [hcount]

/-- The owner's completion answers `ok` and records the receipt. -/
theorem complete_of_owner {t : Store} {i : Ident} {a : CompleteArgs} {r : Row}
    (hb : blankOperationId a.operationId = false) (hr : t.get? i = some r)
    (hp : r.state = .pending) (ho : r.operationId = a.operationId) :
    (complete t i a).1 = .ok .ok ∧ (complete t i a).2.get? i = some (a.doneRow r) := by
  have howns : owns i a.operationId i r = true := by simp [owns, hp, ho]
  have hcount : t.count (owns i a.operationId) ≠ 0 := by
    intro h
    rw [Table.count_eq_zero_iff.mp h i r hr] at howns
    exact absurd howns (by decide)
  rw [complete, if_neg (by simp [hb])]
  simp only [if_pos hcount, Table.get?_update, hr, Option.map_some, howns, if_true, and_self]

/-- The owner's release answers `ok` and deletes the row. -/
theorem release_of_owner {t : Store} {i : Ident} {op : String} {r : Row}
    (hb : blankOperationId op = false) (hr : t.get? i = some r) (hp : r.state = .pending)
    (ho : r.operationId = op) :
    (release t i op).1 = .ok .ok ∧ (release t i op).2.get? i = none := by
  have howns : owns i op i r = true := by simp [owns, hp, ho]
  have hcount : t.count (owns i op) ≠ 0 := by
    intro h
    rw [Table.count_eq_zero_iff.mp h i r hr] at howns
    exact absurd howns (by decide)
  rw [release, if_neg (by simp [hb])]
  simp [hcount, Table.get?_delete, hr, howns]

/-- **The three ways of a completion**: a blank operation id, an owner, or neither. -/
theorem complete_cases (t : Store) (i : Ident) (a : CompleteArgs) :
    (complete t i a = (.error blankError, t)) ∨ (complete t i a = (.ok .notOwner, t)) ∨
    (∃ r, t.get? i = some r ∧ r.state = .pending ∧ r.operationId = a.operationId ∧
      (complete t i a).1 = .ok .ok ∧ (complete t i a).2.get? i = some (a.doneRow r)) := by
  cases hb : blankOperationId a.operationId with
  | true => exact .inl (complete_of_blank hb t i)
  | false =>
    by_cases h : ∃ r, t.get? i = some r ∧ r.state = .pending ∧ r.operationId = a.operationId
    · obtain ⟨r, hr, hp, ho⟩ := h
      exact .inr (.inr ⟨r, hr, hp, ho, complete_of_owner hb hr hp ho⟩)
    · exact .inr (.inl (complete_of_not_owner hb fun r hr hp ho => h ⟨r, hr, hp, ho⟩))

/-- **The three ways of a release.** -/
theorem release_cases (t : Store) (i : Ident) (op : String) :
    (release t i op = (.error blankError, t)) ∨ (release t i op = (.ok .notOwner, t)) ∨
    (∃ r, t.get? i = some r ∧ r.state = .pending ∧ r.operationId = op ∧
      (release t i op).1 = .ok .ok ∧ (release t i op).2.get? i = none) := by
  cases hb : blankOperationId op with
  | true => exact .inl (release_of_blank hb t i)
  | false =>
    by_cases h : ∃ r, t.get? i = some r ∧ r.state = .pending ∧ r.operationId = op
    · obtain ⟨r, hr, hp, ho⟩ := h
      exact .inr (.inr ⟨r, hr, hp, ho, release_of_owner hb hr hp ho⟩)
    · exact .inr (.inl (release_of_not_owner hb fun r hr hp ho => h ⟨r, hr, hp, ho⟩))

theorem get?_complete_of_ne (t : Store) {i k : Ident} (h : k ≠ i) (a : CompleteArgs) :
    (complete t i a).2.get? k = t.get? k := by
  unfold complete
  split_ifs
  · rfl
  · cases hk : t.get? k <;> simp [Table.get?_update, hk, owns, h]

theorem get?_release_of_ne (t : Store) {i k : Ident} (h : k ≠ i) (op : String) :
    (release t i op).2.get? k = t.get? k := by
  unfold release
  split_ifs
  · rfl
  · cases hk : t.get? k <;> simp [Table.get?_delete, hk, owns, h]

end Idempotency
