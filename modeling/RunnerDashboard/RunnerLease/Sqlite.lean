import RunnerDashboard.Lib.Table
import RunnerDashboard.RunnerLease.Store

/-!
# The runner leases in SQLite

`SqliteLeaseStore` of `runner_lease_sqlite.py`: one row a runner, with the metadata as a JSON
text and a fencing token that counts the renewals of the row.  Each operation is one
transaction, which a refusal rolls back.
-/

namespace RunnerLease

namespace Sqlite

open Sql

/-! ### Rows -/

/-- A text that `json.dumps` wrote of a dictionary. -/
structure MetadataText where
  text : String
  written : ∃ fields, text = (Json.obj fields).dumps

/-- `json.dumps(metadata)`. -/
def MetadataText.ofFields (fields : List (String × Json)) : MetadataText :=
  ⟨(Json.obj fields).dumps, fields, rfl⟩

/-- `json.loads(metadata_json)`; a text that was written is read. -/
def MetadataText.fields (m : MetadataText) : List (String × Json) :=
  match Json.loads m.text with
  | some (.obj fields) => fields
  | _ => []

@[simp] theorem MetadataText.fields_ofFields (fields : List (String × Json)) :
    (MetadataText.ofFields fields).fields = fields := by
  simp [MetadataText.fields, MetadataText.ofFields]

/-- A row of `leases`, keyed by its runner id. -/
structure Row where
  principalId : String
  acquiredAt : Int
  expiresAt : Option Int
  taskId : Option String
  metadata : MetadataText
  fencingToken : ℕ

/-- The table `leases`. -/
abbrev Rows := Table String Row

/-- `_row_to_record`. -/
def Row.record (runnerId : String) (row : Row) : LeaseRecord where
  principalId := row.principalId
  runnerId := runnerId
  acquiredAt := row.acquiredAt
  expiresAt := row.expiresAt
  taskId := row.taskId
  metadata := row.metadata.fields
  fencingToken := row.fencingToken

/-- `expires_at IS NOT NULL AND expires_at <= now`. -/
def Row.expired (row : Row) (now : Int) : Bool :=
  match row.expiresAt with
  | none => false
  | some e => e ≤ now

def deleteExpired (now : Int) (rows : Rows) : Rows := rows.delete fun _ row => row.expired now

/-! ### Acquiring -/

def renewRow (a : AcquireArgs) (now : Int) (row : Row) : Row :=
  { row with
    expiresAt := some (now + a.duration)
    taskId := orTask a.taskId row.taskId
    metadata := .ofFields (mergeMetadata row.metadata.fields a.metadata)
    fencingToken := row.fencingToken + 1 }

def newRow (a : AcquireArgs) (now : Int) : Row where
  principalId := a.principalId
  acquiredAt := now
  expiresAt := some (now + a.duration)
  taskId := a.taskId
  metadata := .ofFields a.metadata
  fencingToken := 0

/-- The transaction of `acquire`. -/
def acquireBody (a : AcquireArgs) (now : Int) (rows : Rows) :
    Except LeaseError (LeaseRecord × Rows) :=
  let rows := deleteExpired now rows
  match rows.get? a.runnerId with
  | some row =>
    if row.principalId ≠ a.principalId then
      .error (.value ("Runner " ++ a.runnerId ++ " is already leased by " ++ row.principalId))
    else .ok ((renewRow a now row).record a.runnerId, rows.put a.runnerId (renewRow a now row))
  | none =>
    if a.maxRunners ≤ rows.count fun _ row => row.principalId = a.principalId then
      .error (.permission ("Principal " ++ a.principalId ++ " has reached runner quota (" ++
        toString a.maxRunners ++ ")"))
    else .ok ((newRow a now).record a.runnerId, rows.insertNew a.runnerId (newRow a now))

def acquire (a : AcquireArgs) (now : Int) (rows : Rows) : Except LeaseError LeaseRecord × Rows :=
  immediateTxn (acquireBody a now) rows

/-! ### Releasing -/

/-- `StaleFencingTokenError`. -/
structure StaleFencingToken where
  runnerId : String
  token : ℕ
  current : ℕ
  deriving DecidableEq, Repr

def release (runnerId : String) (principalId : Option String) (fencingToken : Option ℕ)
    (rows : Rows) : Except StaleFencingToken Bool × Rows :=
  match rows.get? runnerId with
  | none => (.ok false, rows)
  | some row =>
    if fencingToken.any fun token => token ≠ row.fencingToken then
      (.error ⟨runnerId, fencingToken.getD 0, row.fencingToken⟩, rows)
    else if principalId.any fun p => p ≠ row.principalId then (.ok false, rows)
    else (.ok true, rows.delete fun k _ => k = runnerId)

/-! ### The whole table -/

/-- `prune_expired`, with the number of rows removed. -/
def pruneExpired (now : Int) (rows : Rows) : ℕ × Rows :=
  (rows.count fun _ row => row.expired now, deleteExpired now rows)

def records (rows : Rows) : List LeaseRecord := rows.rows.map fun x => x.2.record x.1

def readAll (now : Int) (rows : Rows) : List LeaseRecord × Rows :=
  (records (deleteExpired now rows), deleteExpired now rows)

/-- The row of a record that is written, with a new fencing-token sequence. -/
def rowOf (r : LeaseRecord) : Row where
  principalId := r.principalId
  acquiredAt := r.acquiredAt
  expiresAt := r.expiresAt
  taskId := r.taskId
  metadata := .ofFields r.metadata
  fencingToken := 0

/-- `sqlite3.IntegrityError`: two rows of one runner. -/
structure IntegrityError where
  runnerId : String
  deriving DecidableEq, Repr

/-- The inserts of `write_all`. -/
def insertAll : List LeaseRecord → Rows → Except IntegrityError Rows
  | [], rows => .ok rows
  | r :: rs, rows =>
    match rows.get? r.runnerId with
    | some _ => .error ⟨r.runnerId⟩
    | none => insertAll rs (rows.insertNew r.runnerId (rowOf r))

def writeAll (records : List LeaseRecord) (rows : Rows) : Except IntegrityError Unit × Rows :=
  immediateTxn (fun _ => (insertAll records .empty).map fun rows => ((), rows)) rows

/-! ### What the operations do -/

section Spec

variable {a : AcquireArgs} {now : Int} {rows rows' : Rows} {k runnerId : String} {row : Row}

theorem Row.unexpired_record (row : Row) (runnerId : String) (now : Int) :
    (row.record runnerId).unexpired now = !row.expired now := by
  unfold LeaseRecord.unexpired Row.expired Row.record
  dsimp only
  cases row.expiresAt with
  | none => rfl
  | some e =>
    rw [Bool.eq_iff_iff]
    simp

theorem get?_deleteExpired (now : Int) (rows : Rows) (k : String) :
    (deleteExpired now rows).get? k = (rows.get? k).filter fun row => !row.expired now :=
  Table.get?_delete _ _ _

/-- What `acquire` returns and writes. -/
inductive Acquired (a : AcquireArgs) (now : Int) (rows : Rows) :
    Except LeaseError LeaseRecord → Rows → Prop
  /-- Another principal has the runner. -/
  | leased {row : Row} (found : (deleteExpired now rows).get? a.runnerId = some row)
      (other : row.principalId ≠ a.principalId) :
      Acquired a now rows
        (.error (.value ("Runner " ++ a.runnerId ++ " is already leased by " ++ row.principalId)))
        rows
  /-- The quota is reached. -/
  | full (free : (deleteExpired now rows).get? a.runnerId = none)
      (reached : a.maxRunners ≤
        (deleteExpired now rows).count fun _ row => row.principalId = a.principalId) :
      Acquired a now rows
        (.error (.permission ("Principal " ++ a.principalId ++ " has reached runner quota (" ++
          toString a.maxRunners ++ ")")))
        rows
  | renewed {row : Row} (found : (deleteExpired now rows).get? a.runnerId = some row)
      (own : row.principalId = a.principalId) :
      Acquired a now rows (.ok ((renewRow a now row).record a.runnerId))
        ((deleteExpired now rows).put a.runnerId (renewRow a now row))
  | inserted (free : (deleteExpired now rows).get? a.runnerId = none)
      (room : (deleteExpired now rows).count (fun _ row => row.principalId = a.principalId) <
        a.maxRunners) :
      Acquired a now rows (.ok ((newRow a now).record a.runnerId))
        ((deleteExpired now rows).insertNew a.runnerId (newRow a now))

/-- **What an acquisition does.** -/
theorem acquire_cases (a : AcquireArgs) (now : Int) (rows : Rows) :
    Acquired a now rows (acquire a now rows).1 (acquire a now rows).2 := by
  unfold acquire immediateTxn acquireBody
  dsimp only
  cases hfound : (deleteExpired now rows).get? a.runnerId with
  | some row =>
    by_cases hp : row.principalId = a.principalId
    · simp only [hp, ne_eq, not_true_eq_false, if_false]
      exact .renewed hfound hp
    · simp only [ne_eq, hp, not_false_eq_true, if_true]
      exact .leased hfound hp
  | none =>
    by_cases hq : a.maxRunners ≤
        (deleteExpired now rows).count fun _ row => row.principalId = a.principalId
    · simp only [if_pos hq]
      exact .full hfound hq
    · simp only [if_neg hq]
      exact .inserted hfound (not_le.mp hq)

/-- What `release` returns and writes. -/
inductive ReleasedRow (runnerId : String) (principalId : Option String) (fencingToken : Option ℕ)
    (rows : Rows) : Except StaleFencingToken Bool → Rows → Prop
  | missing (free : rows.get? runnerId = none) :
      ReleasedRow runnerId principalId fencingToken rows (.ok false) rows
  | stale {row : Row} {token : ℕ} (found : rows.get? runnerId = some row)
      (given : fencingToken = some token) (other : token ≠ row.fencingToken) :
      ReleasedRow runnerId principalId fencingToken rows
        (.error ⟨runnerId, token, row.fencingToken⟩) rows
  | other {row : Row} {p : String} (found : rows.get? runnerId = some row)
      (given : principalId = some p) (other : p ≠ row.principalId) :
      ReleasedRow runnerId principalId fencingToken rows (.ok false) rows
  | deleted {row : Row} (found : rows.get? runnerId = some row)
      (token : ∀ token, fencingToken = some token → token = row.fencingToken)
      (own : ∀ p, principalId = some p → p = row.principalId) :
      ReleasedRow runnerId principalId fencingToken rows (.ok true)
        (rows.delete fun k _ => k = runnerId)

/-- **What a release does.** -/
theorem release_cases (runnerId : String) (principalId : Option String) (fencingToken : Option ℕ)
    (rows : Rows) : ReleasedRow runnerId principalId fencingToken rows
      (release runnerId principalId fencingToken rows).1
      (release runnerId principalId fencingToken rows).2 := by
  unfold release
  cases hfound : rows.get? runnerId with
  | none => exact .missing hfound
  | some row =>
    dsimp only
    by_cases htoken : (fencingToken.any fun token => token ≠ row.fencingToken) = true
    · rw [if_pos htoken]
      cases fencingToken with
      | none => cases htoken
      | some token => exact .stale hfound rfl (by simpa using htoken)
    · rw [if_neg htoken]
      have htoken' : ∀ token, fencingToken = some token → token = row.fencingToken := by
        rintro token rfl
        simpa using htoken
      by_cases hother : (principalId.any fun p => p ≠ row.principalId) = true
      · rw [if_pos hother]
        cases principalId with
        | none => cases hother
        | some p => exact .other hfound rfl (by simpa using hother)
      · rw [if_neg hother]
        refine .deleted hfound htoken' ?_
        rintro p rfl
        simpa using hother

theorem insertAll_ok {rs : List LeaseRecord} (h : insertAll rs rows = .ok rows') (k : String) :
    rows'.get? k = (rows.get? k).or ((rs.find? fun r => r.runnerId = k).map rowOf) := by
  induction rs generalizing rows with
  | nil =>
    obtain rfl := Except.ok.inj h
    simp
  | cons r rs ih =>
    unfold insertAll at h
    split at h
    · cases h
    · next hnone =>
      rw [ih h, Table.get?_insertNew, List.find?_cons]
      by_cases hk : k = r.runnerId
      · subst hk
        simp [hnone]
      · simp [hk, Ne.symm hk]

/-- **What `write_all` does**, when it returns. -/
theorem writeAll_ok {rs : List LeaseRecord} (h : writeAll rs rows = (.ok (), rows')) (k : String) :
    rows'.get? k = (rs.find? fun r => r.runnerId = k).map rowOf := by
  have hbody := immediateTxn_ok.mp h
  cases hins : insertAll rs .empty with
  | error e =>
    rw [hins] at hbody
    cases hbody
  | ok rows₁ =>
    rw [hins] at hbody
    obtain ⟨-, rfl⟩ := Prod.ext_iff.mp (Except.ok.inj hbody)
    rw [insertAll_ok hins]
    simp

theorem writeAll_error {rs : List LeaseRecord} {e : IntegrityError}
    (h : writeAll rs rows = (.error e, rows')) : rows' = rows := by
  have := immediateTxn_error (congrArg Prod.fst h)
  rwa [show immediateTxn _ rows = _ from h] at this

end Spec

end Sqlite

end RunnerLease
