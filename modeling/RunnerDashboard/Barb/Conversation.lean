import RunnerDashboard.Lib.Json
import RunnerDashboard.Lib.Table

/-!
# The conversation database

The tables of the conversation store that the run-card upsert reads and writes:
messages, the version and the receipts of each run's card, and the fence of the
authority's epoch; and the message operations of `staff/conversations.py`.

A message is redacted before it is stored, and its two writers do it differently:
`add_message` redacts every string of the meta and writes the result as JSON,
`update_message` writes the meta as JSON and redacts the text.  The redactor is a
parameter, as no result depends on what it removes.

## Main results

* `updateMessage_of_row`, `addMessage_ok_iff` — the two ways a card is written.
-/

namespace Barb

open Sql

/-! ### Data -/

/-- A row of `messages`, keyed by `id`. -/
structure Message where
  threadId : String
  seq : ℕ
  authorKind : String
  author : String
  kind : String
  bodyMd : String
  metaText : String
  runId : String
  idempotencyKey : Option String := none
  createdAt : String
  delivery : String
  deriving DecidableEq, Repr

/-- `MessageRecord`: a message with its meta read. -/
structure MessageRecord where
  id : String
  threadId : String
  seq : ℕ
  authorKind : String
  author : String
  kind : String
  bodyMd : String
  metaDict : List (String × Json)
  runId : String
  idempotencyKey : Option String
  createdAt : String
  delivery : String

/-- A row of `run_card_versions`, keyed by `run_id`. -/
structure VersionRow where
  version : Int
  status : String
  messageId : String
  threadId : String
  epoch : Int
  updatedAt : String
  deriving DecidableEq, Repr

/-- A row of `barb_receipts`, keyed by `receipt_id`. -/
structure Receipt where
  kind : String
  refId : String
  threadId : String
  seq : ℕ
  epoch : Int
  committedAt : String
  deriving DecidableEq, Repr

/-- The row of `barb_epoch_fence`. -/
structure EpochFence where
  epoch : Int
  node : String
  reason : String
  updatedAt : String
  deriving DecidableEq, Repr

/-- The tables. -/
structure Db where
  messages : Table String Message
  versions : Table String VersionRow
  receipts : Table String Receipt
  fence : Option EpochFence

def Db.empty : Db := ⟨.empty, .empty, .empty, none⟩

/-- `UPDATE messages … WHERE id = ?`. -/
def Db.setMessage (db : Db) (id : String) (m : Message) : Db :=
  { db with messages := db.messages.update (fun k _ => k = id) fun _ _ => m }

/-- `INSERT INTO messages`. -/
def Db.insertMessage (db : Db) (id : String) (m : Message) : Db :=
  { db with messages := db.messages.insertNew id m }

/-- What a call of the store raises. -/
inductive BarbError
  /-- `ValueError`, `json.JSONDecodeError` included. -/
  | value (message : String)
  /-- `AssertionError` of `add_message`. -/
  | assertion (message : String)
  /-- `StaleEpochError`. -/
  | staleEpoch (message : String)
  /-- `FencedAuthorityError`. -/
  | fenced (message : String)
  /-- `InvariantViolation`. -/
  | invariant (message : String)
  /-- `sqlite3.IntegrityError`. -/
  | integrity
  /-- `OverflowError`: an integer no `INTEGER` column holds, or an instant no `datetime` has. -/
  | overflow
  /-- `BarbConfigError` of a variable with its text. -/
  | config (name raw reason : String)
  deriving DecidableEq, Repr

/-! ### Redaction -/

section Redaction

variable (redact : String → String)

mutual

/-- `redact_value`: every string inside a value, its shape and its keys kept. -/
def redactValue : Json → Json
  | .str s => .str (redact s)
  | .arr vs => .arr (redactItems vs)
  | .obj fs => .obj (redactFields fs)
  | v => v

/-- `redact_value` on the items of a list. -/
def redactItems : List Json → List Json
  | [] => []
  | v :: vs => redactValue v :: redactItems vs

/-- `redact_value` on the values of a dictionary. -/
def redactFields : List (String × Json) → List (String × Json)
  | [] => []
  | (k, v) :: fs => (k, redactValue v) :: redactFields fs

end

end Redaction

/-! ### Message operations -/

/-- `dict(json.loads(meta))`; `none` where either raises. -/
def decodeMeta (text : String) : Option (List (String × Json)) :=
  match Json.loads text with
  | some (.obj fields) => some fields
  | _ => none

def Message.record (m : Message) (id : String) (metaDict : List (String × Json)) :
    MessageRecord where
  id := id
  threadId := m.threadId
  seq := m.seq
  authorKind := m.authorKind
  author := m.author
  kind := m.kind
  bodyMd := m.bodyMd
  metaDict := metaDict
  runId := m.runId
  idempotencyKey := m.idempotencyKey
  createdAt := m.createdAt
  delivery := m.delivery

def fromRow (id : String) (m : Message) : Except BarbError MessageRecord :=
  match decodeMeta m.metaText with
  | some metaDict => .ok (m.record id metaDict)
  | none => .error (.value "the meta column is not a JSON object")

def getMessage (db : Db) (id : String) : Except BarbError (Option MessageRecord) :=
  match db.messages.get? id with
  | none => .ok none
  | some m => (fromRow id m).map some

/-- The columns `update_message` writes for a body and a meta: the text of the meta is
redacted as a text. -/
def Message.rewritten (redact : String → String) (m : Message) (bodyMd : String)
    (metaDict : List (String × Json)) : Message :=
  { m with bodyMd := redact bodyMd, metaText := redact (Json.obj metaDict).dumps }

/-- `update_message(message_id, body_md=…, meta=…)`; `none` where the message is missing. -/
def updateMessage (redact : String → String) (db : Db) (id bodyMd : String)
    (metaDict : List (String × Json)) : Except BarbError (Option MessageRecord × Db) :=
  match db.messages.get? id with
  | none => .ok (none, db)
  | some m => do
    let _ ← fromRow id m
    let m' := m.rewritten redact bodyMd metaDict
    let record ← fromRow id m'
    return (some record, db.setMessage id m')

def messageAuthorKinds : List String := ["user", "bot", "role", "system"]

theorem role_mem_messageAuthorKinds : "role" ∈ messageAuthorKinds := by decide

/-- The arguments of `add_message` the run card passes, and its clock reading. -/
structure AddArgs where
  threadId : String
  authorKind : String
  author : String
  kind : String
  bodyMd : String
  metaDict : List (String × Json)
  runId : String
  delivery : String
  now : String

/-- `SELECT COALESCE(MAX(seq), 0) FROM messages WHERE thread_id = ?`, plus one. -/
def nextSeq (db : Db) (threadId : String) : ℕ :=
  ((db.messages.rows.filter fun x => x.2.threadId = threadId).map fun x => x.2.seq).foldl max 0 + 1

/-- The row `add_message` inserts: every string of the meta is redacted. -/
def AddArgs.message (redact : String → String) (a : AddArgs) (seq : ℕ) : Message where
  threadId := a.threadId
  seq := seq
  authorKind := a.authorKind
  author := a.author
  kind := a.kind
  bodyMd := redact a.bodyMd
  metaText := (Json.obj (redactFields redact a.metaDict)).dumps
  runId := a.runId
  createdAt := a.now
  delivery := a.delivery

/-- `add_message`, for the kinds and deliveries the run card uses. -/
def addMessage (redact : String → String) (db : Db) (id : String) (a : AddArgs) :
    Except BarbError (MessageRecord × Db) :=
  if a.authorKind ∉ messageAuthorKinds then
    .error (.assertion ("Invalid author_kind: " ++ a.authorKind))
  else
    let m := a.message redact (nextSeq db a.threadId)
    match db.messages.get? id with
    | some _ => .error .integrity
    | none => do
      let record ← fromRow id m
      return (record, db.insertMessage id m)

/-! ### What the message operations do -/

/-- The meta of an added message reads back as the redacted meta. -/
@[simp] theorem decodeMeta_dumps (fields : List (String × Json)) :
    decodeMeta (Json.obj fields).dumps = some fields := by
  simp [decodeMeta]

theorem fromRow_of_decode {id : String} {m : Message} {fields : List (String × Json)}
    (h : decodeMeta m.metaText = some fields) : fromRow id m = .ok (m.record id fields) := by
  simp [fromRow, h]

theorem fromRow_of_decode_none {id : String} {m : Message} (h : decodeMeta m.metaText = none) :
    fromRow id m = .error (.value "the meta column is not a JSON object") := by
  simp [fromRow, h]

theorem fromRow_ok_iff {id : String} {m : Message} {r : MessageRecord} :
    fromRow id m = .ok r ↔ ∃ fields, decodeMeta m.metaText = some fields ∧
      r = m.record id fields := by
  constructor
  · intro h
    cases hd : decodeMeta m.metaText with
    | none =>
      rw [fromRow_of_decode_none hd] at h
      cases h
    | some fields =>
      rw [fromRow_of_decode hd] at h
      exact ⟨fields, rfl, (Except.ok.inj h).symm⟩
  · rintro ⟨fields, hd, rfl⟩
    exact fromRow_of_decode hd

theorem updateMessage_of_none {redact : String → String} {db : Db} {id bodyMd : String}
    {metaDict : List (String × Json)} (h : db.messages.get? id = none) :
    updateMessage redact db id bodyMd metaDict = .ok (none, db) := by
  simp [updateMessage, h]

/-- **An update of a stored message** reads it, rewrites it, and reads it again. -/
theorem updateMessage_of_row {redact : String → String} {db db' : Db} {id bodyMd : String}
    {metaDict : List (String × Json)} {m : Message} {card : Option MessageRecord}
    (h : db.messages.get? id = some m) :
    updateMessage redact db id bodyMd metaDict = .ok (card, db') ↔
      ∃ fields fields', decodeMeta m.metaText = some fields ∧
        decodeMeta (redact (Json.obj metaDict).dumps) = some fields' ∧
        card = some ((m.rewritten redact bodyMd metaDict).record id fields') ∧
        db' = db.setMessage id (m.rewritten redact bodyMd metaDict) := by
  unfold updateMessage
  rw [h]
  constructor
  · intro hok
    obtain ⟨r, hr, hok⟩ := bind_eq_ok_iff.mp hok
    obtain ⟨r', hr', hok⟩ := bind_eq_ok_iff.mp hok
    obtain ⟨fields, hd, -⟩ := fromRow_ok_iff.mp hr
    obtain ⟨fields', hd', rfl⟩ := fromRow_ok_iff.mp hr'
    obtain ⟨rfl, rfl⟩ := Prod.mk.inj (Except.ok.inj hok)
    exact ⟨fields, fields', hd, hd', rfl, rfl⟩
  · rintro ⟨fields, fields', hd, hd', rfl, rfl⟩
    refine bind_eq_ok_iff.mpr ⟨_, fromRow_of_decode hd, ?_⟩
    exact bind_eq_ok_iff.mpr ⟨_, fromRow_of_decode hd', rfl⟩

/-- **An added message** has a new id and is stored with its redacted meta. -/
theorem addMessage_ok_iff {redact : String → String} {db db' : Db} {id : String} {a : AddArgs}
    {card : MessageRecord} :
    addMessage redact db id a = .ok (card, db') ↔
      a.authorKind ∈ messageAuthorKinds ∧ db.messages.get? id = none ∧
      card = (a.message redact (nextSeq db a.threadId)).record id (redactFields redact a.metaDict) ∧
      db' = db.insertMessage id (a.message redact (nextSeq db a.threadId)) := by
  have hd : decodeMeta (a.message redact (nextSeq db a.threadId)).metaText =
      some (redactFields redact a.metaDict) := decodeMeta_dumps _
  unfold addMessage
  by_cases hk : a.authorKind ∈ messageAuthorKinds
  · rw [if_neg (not_not.mpr hk)]
    dsimp only
    cases h : db.messages.get? id with
    | some m =>
      constructor
      · intro hok
        cases hok
      · rintro ⟨-, hnone, -⟩
        cases hnone
    | none =>
      constructor
      · intro hok
        obtain ⟨r, hr, hok⟩ := bind_eq_ok_iff.mp hok
        obtain ⟨fields, hd', rfl⟩ := fromRow_ok_iff.mp hr
        obtain rfl := Option.some.inj (hd.symm.trans hd')
        obtain ⟨rfl, rfl⟩ := Prod.mk.inj (Except.ok.inj hok)
        exact ⟨hk, rfl, rfl, rfl⟩
      · rintro ⟨-, -, rfl, rfl⟩
        exact bind_eq_ok_iff.mpr ⟨_, fromRow_of_decode hd, rfl⟩
  · rw [if_pos hk]
    constructor
    · intro hok
      cases hok
    · intro h
      exact absurd h.1 hk

end Barb
