import RunnerDashboard.Lib.Table
import Mathlib.Data.String.Basic

/-!
# The memory store

The memory entries of the assistants, in a table of SQLite.  Entries are only added: an entry is
replaced by one that supersedes it, and a lesson is moved by its review.  The size of the store is
the size of the texts of the bodies.

## Main results

* `append_error`, `appendIdempotent_error` — **a call that raises changes nothing.**
-/

namespace Memory

open Sql

/-! ### Tables -/

/-- `MemoryEntry`, without its id. -/
structure MemoryEntry (β : Type*) where
  entryType : String
  authorPrincipal : String := ""
  sourceProduct : String := ""
  tags : List String := []
  body : β
  createdAt : String
  expiresAt : Option String := none
  supersedesId : Option String := none
  supersededBy : Option String := none
  repo : Option String := none
  reviewStatus : Option String := none
  sourceRun : Option String := none
  visibility : Option String := none
  reviewedBy : Option String := none
  acceptedAt : Option String := none

def MemoryEntry.target {β : Type*} (e : MemoryEntry β) : Option String :=
  e.supersedesId.filter (· ≠ "")

/-- A row of `memory_entries`.  The column `body_json` has the body, in a text of some bytes. -/
structure Row (β : Type*) where
  entry : MemoryEntry β
  bytes : ℕ

/-- How many bytes the texts of a body have. -/
structure Encodings (β : Type*) where
  /-- `json.dumps(body, separators=(",", ":"))`. -/
  compact : β → ℕ
  /-- `json.dumps(body)`. -/
  spaced : β → ℕ
  /-- `json.dumps(body, separators=(",", ":"), ensure_ascii=False)`, `none` where its text is not
  encoded. -/
  unicode : β → Option ℕ

/-- The tables `memory_entries` and `memory_idempotency`. -/
structure MemoryStore (β : Type*) where
  entries : Table String (Row β)
  idempotency : Table String (String × String)

/-- What the calls raise. -/
inductive StoreError
  | unicodeEncodeError
  | integrityError
  | storeSizeCapExceeded
  | notFound (id : String)
  | staleSupersessionConflict
  | staleReviewConflict
  | idempotencyKeyReused
  | entryMissing
  deriving DecidableEq, Repr

namespace MemoryStore

variable {β : Type*}

def empty : MemoryStore β := ⟨.empty, .empty⟩

def totalPayloadBytes (s : MemoryStore β) : ℕ := s.entries.sum (fun _ _ => true) (·.bytes)

def get (s : MemoryStore β) (id : String) : Option (MemoryEntry β) :=
  (s.entries.get? id).map (·.entry)

/-! ### Adding entries -/

def current (id k : String) (r : Row β) : Bool := k = id && r.entry.supersededBy.isNone

def supersedeRow (id : String) (r : Row β) : Row β :=
  { r with entry := { r.entry with supersededBy := some id } }

/-- `UPDATE memory_entries SET superseded_by`: the entry that is superseded is told so. -/
def supersede (s : MemoryStore β) (id : String) : Option String → Except StoreError (MemoryStore β)
  | none => .ok s
  | some target =>
    if s.entries.count (current target) = 0 then
      match s.get target with
      | none => .error (.notFound target)
      | some _ => .error .staleSupersessionConflict
    else .ok { s with entries := s.entries.update (current target) fun _ => supersedeRow id }

/-- `INSERT INTO memory_entries`. -/
def insert (s : MemoryStore β) (id : String) (e : MemoryEntry β) (bytes : ℕ) :
    Except StoreError (MemoryStore β) :=
  if (s.entries.get? id).isSome then .error .integrityError
  else .ok { s with entries := s.entries.insertNew id ⟨e, bytes⟩ }

/-- The transaction of `append`. -/
def appendBody (enc : Encodings β) (maxStoreBytes : ℕ) (id : String) (e : MemoryEntry β)
    (s : MemoryStore β) : Except StoreError (MemoryEntry β × MemoryStore β) :=
  if maxStoreBytes < s.totalPayloadBytes + enc.compact e.body then .error .storeSizeCapExceeded
  else do
    let superseded ← s.supersede id e.target
    let inserted ← superseded.insert id e (enc.spaced e.body)
    pure (e, inserted)

def append (enc : Encodings β) (maxStoreBytes : ℕ) (s : MemoryStore β) (id : String)
    (e : MemoryEntry β) : Except StoreError (MemoryEntry β) × MemoryStore β :=
  immediateTxn (appendBody enc maxStoreBytes id e) s

/-- `INSERT INTO memory_idempotency`. -/
def insertKey (s : MemoryStore β) (key fingerprint id : String) :
    Except StoreError (MemoryStore β) :=
  if s.idempotency.count (fun _ r => r.2 = id) = 0 then
    .ok { s with idempotency := s.idempotency.insertNew key (fingerprint, id) }
  else .error .integrityError

/-- The transaction of `append_idempotent`. -/
def appendIdempotentBody (maxStoreBytes payload : ℕ) (id : String) (e : MemoryEntry β)
    (key fingerprint : String) (s : MemoryStore β) :
    Except StoreError ((String × MemoryEntry β × Bool) × MemoryStore β) :=
  match s.idempotency.get? key with
  | some (prior, entryId) =>
    if prior ≠ fingerprint then .error .idempotencyKeyReused
    else
      match s.get entryId with
      | none => .error .entryMissing
      | some first => .ok ((entryId, first, true), s)
  | none =>
    if maxStoreBytes < s.totalPayloadBytes + payload then .error .storeSizeCapExceeded
    else do
      let inserted ← s.insert id e payload
      let keyed ← inserted.insertKey key fingerprint id
      pure ((id, e, false), keyed)

/-- `append_idempotent`: the id, the entry, and whether it was there before. -/
def appendIdempotent (enc : Encodings β) (maxStoreBytes : ℕ) (s : MemoryStore β) (id : String)
    (e : MemoryEntry β) (key fingerprint : String) :
    Except StoreError (String × MemoryEntry β × Bool) × MemoryStore β :=
  match enc.unicode e.body with
  | none => (.error .unicodeEncodeError, s)
  | some payload => immediateTxn (appendIdempotentBody maxStoreBytes payload id e key fingerprint) s

/-! ### Reviews and lists -/

def reviewRow (reviewStatus reviewedBy : String) (acceptedAt expiresAt : Option String)
    (r : Row β) : Row β :=
  { r with
    entry :=
      { r.entry with
        reviewStatus := some reviewStatus
        reviewedBy := some reviewedBy
        acceptedAt
        expiresAt := if (expiresAt.filter (· ≠ "")).isSome then expiresAt else r.entry.expiresAt } }

def updateReview (s : MemoryStore β) (id expected reviewStatus reviewedBy : String)
    (acceptedAt expiresAt : Option String) : Except StoreError (MemoryEntry β) × MemoryStore β :=
  let clause := fun k (r : Row β) => decide (k = id ∧ r.entry.reviewStatus = some expected)
  let updated : MemoryStore β :=
    { s with
      entries := s.entries.update clause fun _ =>
        reviewRow reviewStatus reviewedBy acceptedAt expiresAt }
  if s.entries.count clause = 0 then
    match s.get id with
    | none => (.error (.notFound id), s)
    | some _ => (.error .staleReviewConflict, s)
  else
    match updated.get id with
    | none => (.error (.notFound id), updated)
    | some e => (.ok e, updated)

/-- A filter of `list_entries`; an empty text is none. -/
def filterBy (wanted : Option String) (column : Option String) : Bool :=
  match wanted.filter (· ≠ "") with
  | none => true
  | some value => column = some value

/-- An entry that all may see. -/
def fleetVisible (visibility : Option String) : Bool :=
  visibility = none || visibility = some "" || visibility = some "fleet"

/-- What `list_entries` selects by type, repository and review. -/
def listed (entryType repo reviewStatus : Option String) (_ : String) (r : Row β) : Bool :=
  filterBy entryType (some r.entry.entryType) && filterBy repo r.entry.repo &&
    filterBy reviewStatus r.entry.reviewStatus && r.entry.supersededBy.isNone &&
    fleetVisible r.entry.visibility

/-- The ids of `list_entries`, the newest first.  Entries of one time are in the order in which they
were added. -/
def listEntries (s : MemoryStore β) (entryType repo reviewStatus : Option String) (limit : ℕ) :
    List String :=
  s.entries.select (listed entryType repo reviewStatus)
    (fun r => OrderDual.toDual r.entry.createdAt) limit

/-! ### Calls that raise -/

variable {enc : Encodings β} {maxStoreBytes : ℕ} {s s' : MemoryStore β}
  {id key fingerprint k : String} {e : MemoryEntry β} {err : StoreError} {bytes : ℕ}

/-- **A call of `append` that raises changes nothing.** -/
theorem append_error (h : (s.append enc maxStoreBytes id e).1 = .error err) :
    (s.append enc maxStoreBytes id e).2 = s := immediateTxn_error h

/-- **A call of `append_idempotent` that raises changes nothing.** -/
theorem appendIdempotent_error
    (h : (s.appendIdempotent enc maxStoreBytes id e key fingerprint).1 = .error err) :
    (s.appendIdempotent enc maxStoreBytes id e key fingerprint).2 = s := by
  unfold appendIdempotent at h ⊢
  cases hpayload : enc.unicode e.body with
  | none => rfl
  | some payload =>
    rw [hpayload] at h
    exact immediateTxn_error h

/-! ### Calls that return -/

theorem insert_ok (h : s.insert id e bytes = .ok s') :
    s.entries.get? id = none ∧
      s' = { s with entries := s.entries.insertNew id ⟨e, bytes⟩ } := by
  unfold insert at h
  by_cases hid : (s.entries.get? id).isSome
  · rw [if_pos hid] at h
    cases h
  · rw [if_neg hid] at h
    exact ⟨Option.not_isSome_iff_eq_none.mp hid, (Except.ok.inj h).symm⟩

theorem insertKey_ok (h : s.insertKey key fingerprint id = .ok s') :
    s' = { s with idempotency := s.idempotency.insertNew key (fingerprint, id) } := by
  unfold insertKey at h
  split at h
  · exact (Except.ok.inj h).symm
  · cases h

theorem supersede_ok {target : String} (h : s.supersede id (some target) = .ok s') :
    (∃ r, s.entries.get? target = some r ∧ r.entry.supersededBy = none) ∧
      s' = { s with entries := s.entries.update (current target) fun _ => supersedeRow id } := by
  unfold supersede at h
  dsimp only at h
  by_cases hcount : s.entries.count (current target) = 0
  · rw [if_pos hcount] at h
    split at h
    · cases h
    · cases h
  · rw [if_neg hcount] at h
    refine ⟨?_, (Except.ok.inj h).symm⟩
    rw [Table.count_eq_zero_iff] at hcount
    simp only [not_forall, Bool.not_eq_false] at hcount
    obtain ⟨k, r, hr, hcurrent⟩ := hcount
    unfold current at hcurrent
    rw [Bool.and_eq_true, decide_eq_true_iff, Option.isNone_iff_eq_none] at hcurrent
    obtain ⟨rfl, hnone⟩ := hcurrent
    exact ⟨r, hr, hnone⟩

/-- **A call of `append` that returns has added the entry.** -/
theorem append_ok {result : MemoryEntry β}
    (h : s.append enc maxStoreBytes id e = (.ok result, s')) :
    result = e ∧ s.totalPayloadBytes + enc.compact e.body ≤ maxStoreBytes ∧
      ∃ superseded, s.supersede id e.target = .ok superseded ∧
        superseded.insert id e (enc.spaced e.body) = .ok s' := by
  have hbody := immediateTxn_ok.mp h
  unfold appendBody at hbody
  by_cases hsize : maxStoreBytes < s.totalPayloadBytes + enc.compact e.body
  · rw [if_pos hsize] at hbody
    cases hbody
  · rw [if_neg hsize] at hbody
    obtain ⟨superseded, hsupersede, hbody⟩ := bind_eq_ok_iff.mp hbody
    obtain ⟨inserted, hinsert, hbody⟩ := bind_eq_ok_iff.mp hbody
    obtain ⟨rfl, rfl⟩ := Prod.mk.inj (Except.ok.inj hbody)
    exact ⟨rfl, not_lt.mp hsize, superseded, hsupersede, hinsert⟩

/-- **A call of `append_idempotent` that returns has found the key, or added the entry.** -/
theorem appendIdempotent_ok {result : String × MemoryEntry β × Bool}
    (h : s.appendIdempotent enc maxStoreBytes id e key fingerprint = (.ok result, s')) :
    (∃ entryId first, s.idempotency.get? key = some (fingerprint, entryId) ∧
      s.get entryId = some first ∧ result = (entryId, first, true) ∧ s' = s) ∨
    ∃ payload inserted, enc.unicode e.body = some payload ∧ s.idempotency.get? key = none ∧
      s.totalPayloadBytes + payload ≤ maxStoreBytes ∧ result = (id, e, false) ∧
      s.insert id e payload = .ok inserted ∧ inserted.insertKey key fingerprint id = .ok s' := by
  unfold appendIdempotent at h
  cases hpayload : enc.unicode e.body with
  | none =>
    rw [hpayload] at h
    cases h
  | some payload =>
    rw [hpayload] at h
    have hbody := immediateTxn_ok.mp h
    unfold appendIdempotentBody at hbody
    cases hkey : s.idempotency.get? key with
    | some prior =>
      obtain ⟨prior, entryId⟩ := prior
      simp only [hkey] at hbody
      by_cases hprior : prior ≠ fingerprint
      · rw [if_pos hprior] at hbody
        cases hbody
      · rw [if_neg hprior] at hbody
        obtain rfl := not_ne_iff.mp hprior
        cases hfirst : s.get entryId with
        | none =>
          rw [hfirst] at hbody
          cases hbody
        | some first =>
          rw [hfirst] at hbody
          obtain ⟨rfl, rfl⟩ := Prod.mk.inj (Except.ok.inj hbody)
          exact .inl ⟨entryId, first, rfl, hfirst, rfl, rfl⟩
    | none =>
      simp only [hkey] at hbody
      by_cases hsize : maxStoreBytes < s.totalPayloadBytes + payload
      · rw [if_pos hsize] at hbody
        cases hbody
      · rw [if_neg hsize] at hbody
        obtain ⟨inserted, hinsert, hbody⟩ := bind_eq_ok_iff.mp hbody
        obtain ⟨keyed, hkeyed, hbody⟩ := bind_eq_ok_iff.mp hbody
        obtain ⟨rfl, rfl⟩ := Prod.mk.inj (Except.ok.inj hbody)
        exact .inr ⟨payload, inserted, rfl, rfl, not_lt.mp hsize, rfl, hinsert, hkeyed⟩

end MemoryStore

end Memory
