import RunnerDashboard.Barb.Fence

/-!
# The run card upsert

`apply_run_card_update` of `staff/barb_store.py`: in one transaction, raise the fence,
classify the update, write the card, record its version and receipt, and, every so many
applied updates, prune the receipts.  The prune is inside the transaction: where it fails the
update is rolled back.

## Main definitions

* `applyRunCardUpdate`, `pruneBarbReceipts` — the two calls.
* `Upserted`, `LimitsHold` — what a transaction did, and the settings no prune fails with.

## Main results

* `applyRunCardUpdate_ok_iff`, `applyRunCardUpdate_error` — what a call does.
* `countApplied_pruned`, `LimitsHold.countApplied_isOk` — what the automatic prune does, and that it
  does not fail if the limits hold.
-/

namespace Barb

open Sql

/-! ### Calls -/

def runStatuses : List String :=
  ["queued", "preparing", "running", "succeeded", "failed", "cancelled", "blocked",
    "needs_input"]

def receiptPruneEvery : ℕ := 64

/-- What the store runs with: the redactor, `str.lower`, the settings of its prunes, and the
earliest instant its clock shows. -/
structure Env where
  redact : String → String
  lower : String → String
  receipts : ReceiptSettings
  since : ℕ

/-- `int()` of plain decimal digits. -/
def plainInt (text : String) : Option Int :=
  if text.toList.all Char.isDigit ∧ text ≠ "" then
    some (text.toList.foldl (fun n c => 10 * n + (c.toNat - 48)) 0 : ℕ)
  else none

/-- The environment without settings, with the given redactor, in 2026. -/
def Env.default (redact : String → String) : Env where
  redact := redact
  lower := fun s => String.ofList (s.toList.map Char.toLower)
  receipts := ⟨"", "", plainInt⟩
  since := 739616 * 86400 * 1000000

/-- The arguments of `apply_run_card_update`. -/
structure CardUpdate where
  threadId : String
  runId : String
  messageId : String
  status : String
  version : Option Int
  bodyMd : String
  metaDict : List (String × Json)
  author : String
  epoch : Option Int := none
  authorityEpoch : Int := 0
  authorityNode : String := ""
  authorKind : String := "role"

/-- What a call draws from outside: the fresh ids, its clock readings, and `_applied_since_prune`,
the updates the store object has applied since its last prune.  Those of every run count, and
nothing rolls the count back. -/
structure Draw where
  receiptId : String
  newMessageId : String
  fenceAt : String
  messageAt : String
  recordAt : String
  pruneAt : ℕ
  applied : ℕ
  deriving DecidableEq, Repr

/-- The card and the result a call returns. -/
abbrev Reply := Option MessageRecord × ApplyResult

/-- `version if version is not None else current_version(conn, run_id) + 1`. -/
def CardUpdate.resolved (u : CardUpdate) (db : Db) : Int :=
  u.version.getD (currentVersion db u.runId + 1)

/-- The message `add_message` is asked for. -/
def CardUpdate.addArgs (u : CardUpdate) (d : Draw) : AddArgs where
  threadId := u.threadId
  authorKind := u.authorKind
  author := u.author
  kind := "run_card"
  bodyMd := u.bodyMd
  metaDict := u.metaDict
  runId := u.runId
  delivery := "complete"
  now := d.messageAt

/-- `message_id or f"msg_…"`. -/
def CardUpdate.cardId (u : CardUpdate) (d : Draw) : String :=
  if u.messageId = "" then d.newMessageId else u.messageId

def CardUpdate.record (u : CardUpdate) (d : Draw) (version : Int) (seq : ℕ) : Record where
  receiptId := d.receiptId
  now := d.recordAt
  runId := u.runId
  version := version
  status := u.status
  messageId := u.messageId
  threadId := u.threadId
  seq := seq
  epoch := u.authorityEpoch

section Call

variable (env : Env) (d : Draw) (u : CardUpdate)

/-- `if authority_epoch >= 1: advance_fence(…)`. -/
def raiseFence (db : Db) : Except BarbError Db :=
  if 1 ≤ u.authorityEpoch then
    (advanceFence env.lower db u.authorityEpoch u.authorityNode "" d.fenceAt).map Prod.snd
  else .ok db

/-- `update_message(…) or add_message(…)`. -/
def writeCard (db : Db) : Except BarbError (MessageRecord × Db) := do
  match ← updateMessage env.redact db u.messageId u.bodyMd u.metaDict with
  | (some msg, db) => return (msg, db)
  | (none, db) => addMessage env.redact db (u.cardId d) (u.addArgs d)

/-- The transaction of `apply_run_card_update`, the automatic prune left out. -/
def upsertRunCard (db : Db) : Except BarbError (Reply × Db) := do
  let db ← raiseFence env d u db
  let ver := u.resolved db
  let result := db.decide u.runId ver u.status u.messageId
  if result.outcome ≠ .applied then
    let card ← getMessage db u.messageId
    return ((card, result), db)
  else
    let (msg, db) ← writeCard env d u db
    let (receipt, db) ← recordApplied db (u.record d ver msg.seq)
    return ((some msg, { outcome := .applied, version := ver, receiptId := some receipt }), db)

/-- `prune_barb_receipts`: the limits of the environment are read even if all are given. -/
def pruneBarbReceipts (maxRows maxAge batch : Option Int) (now : ℕ) (db : Db) :
    Except BarbError (ℕ × Db) := do
  let (envRows, envAge) ← receiptLimitsFromEnv env.receipts
  pruneReceipts
    ⟨maxRows.getD envRows, maxAge.getD envAge, batch.getD defaultReceiptPruneBatch, now⟩ db

/-- Count an applied update, and prune at every `RECEIPT_PRUNE_EVERY`-th. -/
def countApplied (db : Db) : Except BarbError Db :=
  if receiptPruneEvery ≤ d.applied + 1 then
    (pruneBarbReceipts env none none none d.pruneAt db).map Prod.snd
  else .ok db

/-- The transaction of `apply_run_card_update`. -/
def applyTxn (db : Db) : Except BarbError (Reply × Db) := do
  let (reply, db) ← upsertRunCard env d u db
  if reply.2.outcome = .applied then
    return (reply, ← countApplied env d db)
  else return (reply, db)

/-- The checks `apply_run_card_update` makes before its transaction. -/
def checkUpdate : Except BarbError Unit :=
  if u.status ∉ runStatuses then .error (.value ("invalid run status " ++ u.status))
  else if u.version.any (· < 1) then .error (.value "version must be >= 1")
  else checkEpoch u.epoch u.authorityEpoch

def applyRunCardUpdate (db : Db) : Except BarbError Reply × Db :=
  match checkUpdate u with
  | .error e => (.error e, db)
  | .ok () => immediateTxn (applyTxn env d u) db

/-- `_applied_since_prune` after the call: it is set before the prune, which may fail. -/
def appliedAfter (db : Db) : ℕ :=
  match checkUpdate u, upsertRunCard env d u db with
  | .ok (), .ok (reply, _) =>
    if reply.2.outcome = .applied then
      if receiptPruneEvery ≤ d.applied + 1 then 0 else d.applied + 1
    else d.applied
  | _, _ => d.applied

def advanceBarbEpochFence (epoch : Int) (node reason now : String) (db : Db) :
    Except BarbError EpochFence × Db :=
  immediateTxn (fun db => advanceFence env.lower db epoch node reason now) db

end Call

variable {env : Env} {d : Draw} {u : CardUpdate}

/-! ### What a call does -/

/-- A card written over the stored message, or as a new one. -/
inductive CardWrite (env : Env) (d : Draw) (u : CardUpdate) (db : Db) :
    MessageRecord → Db → Prop
  /-- `update_message`. -/
  | updated {m : Message} {fields fields' : List (String × Json)}
      (stored : db.messages.get? u.messageId = some m)
      (readable : decodeMeta m.metaText = some fields)
      (rewritable : decodeMeta (env.redact (Json.obj u.metaDict).dumps) = some fields') :
      CardWrite env d u db ((m.rewritten env.redact u.bodyMd u.metaDict).record u.messageId fields')
        (db.setMessage u.messageId (m.rewritten env.redact u.bodyMd u.metaDict))
  /-- `add_message`. -/
  | added (missing : db.messages.get? u.messageId = none)
      (free : db.messages.get? (u.cardId d) = none)
      (kind : u.authorKind ∈ messageAuthorKinds) :
      CardWrite env d u db
        (((u.addArgs d).message env.redact (nextSeq db u.threadId)).record (u.cardId d)
          (redactFields env.redact u.metaDict))
        (db.insertMessage (u.cardId d)
          ((u.addArgs d).message env.redact (nextSeq db u.threadId)))

/-- **A card is written** in one of two ways. -/
theorem writeCard_ok_iff {db db' : Db} {msg : MessageRecord} :
    writeCard env d u db = .ok (msg, db') ↔ CardWrite env d u db msg db' := by
  constructor
  · intro h
    obtain ⟨⟨card, db₁⟩, hupd, h⟩ := bind_eq_ok_iff.mp h
    cases hm : db.messages.get? u.messageId with
    | none =>
      rw [updateMessage_of_none hm] at hupd
      obtain ⟨rfl, rfl⟩ := Prod.mk.inj (Except.ok.inj hupd)
      obtain ⟨hk, hfree, rfl, rfl⟩ := addMessage_ok_iff.mp h
      exact .added hm hfree hk
    | some m =>
      obtain ⟨fields, fields', hd, hd', rfl, rfl⟩ := (updateMessage_of_row hm).mp hupd
      obtain ⟨rfl, rfl⟩ := Prod.mk.inj (Except.ok.inj h)
      exact .updated hm hd hd'
  · intro h
    cases h with
    | updated hm hd hd' =>
      refine bind_eq_ok_iff.mpr ⟨_, (updateMessage_of_row hm).mpr ⟨_, _, hd, hd', rfl, rfl⟩, rfl⟩
    | added hm hfree hk =>
      refine bind_eq_ok_iff.mpr ⟨_, updateMessage_of_none hm, ?_⟩
      exact addMessage_ok_iff.mpr ⟨hk, hfree, rfl, rfl⟩

theorem CardWrite.frame {db db' : Db} {msg : MessageRecord} (h : CardWrite env d u db msg db') :
    db' = { db with messages := db'.messages } := by
  cases h with
  | updated => rfl
  | added => rfl

theorem raiseFence_ok {db db' : Db} (h : raiseFence env d u db = .ok db') :
    (u.authorityEpoch < 1 ∧ db' = db) ∨
      (1 ≤ u.authorityEpoch ∧ ∃ f, advanceFence env.lower db u.authorityEpoch u.authorityNode ""
        d.fenceAt = .ok (f, db')) := by
  unfold raiseFence at h
  split at h
  · next hepoch =>
    right
    cases hadv : advanceFence env.lower db u.authorityEpoch u.authorityNode "" d.fenceAt with
    | error e =>
      rw [hadv] at h
      cases h
    | ok r =>
      rw [hadv] at h
      obtain rfl := Except.ok.inj h
      exact ⟨hepoch, r.1, rfl⟩
  · next hepoch =>
    left
    exact ⟨by omega, (Except.ok.inj h).symm⟩

theorem raiseFence_frame {db db' : Db} (h : raiseFence env d u db = .ok db') :
    db' = { db with fence := db'.fence } := by
  rcases raiseFence_ok h with ⟨-, rfl⟩ | ⟨-, f, hadv⟩
  · rfl
  · rw [(advanceFence_ok hadv).1]

/-- What the transaction did below the fence: it read the card, or wrote and recorded it. -/
inductive Upserted (env : Env) (d : Draw) (u : CardUpdate) (db : Db) : Reply → Db → Prop
  /-- A duplicate or stale update. -/
  | rejected {card : Option MessageRecord}
      (outcome : (db.decide u.runId (u.resolved db) u.status u.messageId).outcome ≠ .applied)
      (read : getMessage db u.messageId = .ok card) :
      Upserted env d u db (card, db.decide u.runId (u.resolved db) u.status u.messageId) db
  | applied {msg : MessageRecord} {db₁ db' : Db}
      (outcome : (db.decide u.runId (u.resolved db) u.status u.messageId).outcome = .applied)
      (write : CardWrite env d u db msg db₁)
      (recorded : recordApplied db₁ (u.record d (u.resolved db) msg.seq) =
        .ok (d.receiptId, db')) :
      Upserted env d u db (some msg, ⟨.applied, u.resolved db, some d.receiptId⟩) db'

/-- **What a body that succeeds did.** -/
theorem upsertRunCard_ok_iff {db db' : Db} {reply : Reply} :
    upsertRunCard env d u db = .ok (reply, db') ↔
      ∃ db₁, raiseFence env d u db = .ok db₁ ∧ Upserted env d u db₁ reply db' := by
  unfold upsertRunCard
  rw [bind_eq_ok_iff]
  refine exists_congr fun db₁ => and_congr_right fun _ => ?_
  by_cases hout : (db₁.decide u.runId (u.resolved db₁) u.status u.messageId).outcome = .applied
  · simp only [hout, ne_eq, not_true_eq_false, if_false]
    constructor
    · intro h
      obtain ⟨⟨msg, db₂⟩, hw, h⟩ := bind_eq_ok_iff.mp h
      obtain ⟨⟨receipt, db₃⟩, hrec, h⟩ := bind_eq_ok_iff.mp h
      obtain ⟨rfl, rfl⟩ := Prod.mk.inj (Except.ok.inj h)
      obtain rfl := (recordApplied_ok_iff.mp hrec).2.2.2.2.1
      exact .applied hout (writeCard_ok_iff.mp hw) hrec
    · intro h
      cases h with
      | rejected hne => exact absurd hout hne
      | applied _ hw hrec =>
        refine bind_eq_ok_iff.mpr ⟨_, writeCard_ok_iff.mpr hw, ?_⟩
        exact bind_eq_ok_iff.mpr ⟨_, hrec, rfl⟩
  · simp only [hout, ne_eq, not_false_eq_true, if_true]
    constructor
    · intro h
      obtain ⟨card, hread, h⟩ := bind_eq_ok_iff.mp h
      obtain ⟨rfl, rfl⟩ := Prod.mk.inj (Except.ok.inj h)
      exact .rejected hout hread
    · intro h
      cases h with
      | rejected _ hread => exact bind_eq_ok_iff.mpr ⟨_, hread, rfl⟩
      | applied heq => exact absurd heq hout

/-! ### The automatic prune -/

/-- The limits of the environment can be read, and the age limit does not reach back before the
first year, whatever the clock shows. -/
def LimitsHold (env : Env) : Prop :=
  ∃ rows age, receiptLimitsFromEnv env.receipts = .ok (rows, age) ∧ age ≤ env.since

/-- **Counting an applied update** prunes at most. -/
theorem countApplied_pruned {db db' : Db} (h : countApplied env d db = .ok db') :
    Pruned db db' := by
  unfold countApplied at h
  split at h
  · cases hprune : pruneBarbReceipts env none none none d.pruneAt db with
    | error e =>
      rw [hprune] at h
      cases h
    | ok r =>
      rw [hprune] at h
      obtain rfl := Except.ok.inj h
      obtain ⟨limits, -, hok⟩ := bind_eq_ok_iff.mp hprune
      exact (pruneReceipts_spec hok).2.2
  · obtain rfl := Except.ok.inj h
    exact .refl _

/-- A prune with the limits of the environment fails unless they can be read and the age limit
leaves an instant. -/
theorem pruneBarbReceipts_isOk_iff (now : ℕ) (db : Db) :
    (∃ r, pruneBarbReceipts env none none none now db = .ok r) ↔
      ∃ rows age, receiptLimitsFromEnv env.receipts = .ok (rows, age) ∧ age ≤ now := by
  have hprune : ∀ rows age, receiptLimitsFromEnv env.receipts = .ok (rows, age) →
      ((∃ r, pruneReceipts ⟨rows, age, defaultReceiptPruneBatch, now⟩ db = .ok r) ↔ age ≤ now) := by
    intro rows age hlimits
    obtain ⟨hrows, hage⟩ := receiptLimitsFromEnv_proper hlimits
    refine pruneReceipts_isOk_iff ?_ hage ?_ ?_ db
    · exact Int.le_trans (by decide) hrows
    · exact (by decide : 1 ≤ defaultReceiptPruneBatch)
    · exact (by decide : fitsInteger defaultReceiptPruneBatch = true)
  unfold pruneBarbReceipts
  constructor
  · rintro ⟨r, h⟩
    obtain ⟨⟨rows, age⟩, hlimits, hok⟩ := bind_eq_ok_iff.mp h
    exact ⟨rows, age, hlimits, (hprune rows age hlimits).mp ⟨r, hok⟩⟩
  · rintro ⟨rows, age, hlimits, hle⟩
    obtain ⟨r, hok⟩ := (hprune rows age hlimits).mpr hle
    exact ⟨r, bind_eq_ok_iff.mpr ⟨_, hlimits, hok⟩⟩

theorem LimitsHold.countApplied_isOk (h : LimitsHold env) (hclock : env.since ≤ d.pruneAt)
    (db : Db) : ∃ db', countApplied env d db = .ok db' := by
  unfold countApplied
  split
  · obtain ⟨rows, age, hlimits, hle⟩ := h
    obtain ⟨r, hok⟩ := (pruneBarbReceipts_isOk_iff d.pruneAt db).mpr
      ⟨rows, age, hlimits, by omega⟩
    exact ⟨r.2, by rw [hok]; rfl⟩
  · exact ⟨db, rfl⟩

theorem LimitsHold.of_countApplied {db db' : Db} (happlied : receiptPruneEvery ≤ d.applied + 1)
    (hclock : d.pruneAt = env.since) (h : countApplied env d db = .ok db') : LimitsHold env := by
  rw [countApplied, if_pos happlied, hclock] at h
  refine (pruneBarbReceipts_isOk_iff env.since db).mp ?_
  cases hprune : pruneBarbReceipts env none none none env.since db with
  | error e =>
    rw [hprune] at h
    cases h
  | ok r => exact ⟨r, rfl⟩

/-- **A call that succeeds** passed its checks and is its body, then perhaps a prune. -/
theorem applyRunCardUpdate_ok_iff {db db' : Db} {reply : Reply} :
    applyRunCardUpdate env d u db = (.ok reply, db') ↔
      checkUpdate u = .ok () ∧ ∃ db₁, upsertRunCard env d u db = .ok (reply, db₁) ∧
        if reply.2.outcome = .applied then countApplied env d db₁ = .ok db' else db' = db₁ := by
  unfold applyRunCardUpdate
  cases hcheck : checkUpdate u with
  | error e => simp
  | ok x =>
    simp only [immediateTxn_ok, true_and, applyTxn]
    constructor
    · intro h
      obtain ⟨⟨reply', db₁⟩, hup, h⟩ := bind_eq_ok_iff.mp h
      dsimp only at h
      split at h
      · next hout =>
        obtain ⟨db₂, hcount, h⟩ := bind_eq_ok_iff.mp h
        obtain ⟨rfl, rfl⟩ := Prod.mk.inj (Except.ok.inj h)
        exact ⟨db₁, hup, by rw [if_pos hout]; exact hcount⟩
      · next hout =>
        obtain ⟨rfl, rfl⟩ := Prod.mk.inj (Except.ok.inj h)
        exact ⟨db₁, hup, by rw [if_neg hout]⟩
    · rintro ⟨db₁, hup, h⟩
      refine bind_eq_ok_iff.mpr ⟨_, hup, ?_⟩
      dsimp only
      split at h
      · next hout =>
        rw [if_pos hout]
        exact bind_eq_ok_iff.mpr ⟨_, h, rfl⟩
      · next hout =>
        rw [if_neg hout, h]
        rfl

/-- **A refused call changes nothing.** -/
theorem applyRunCardUpdate_error {db : Db} {e : BarbError}
    (h : (applyRunCardUpdate env d u db).1 = .error e) :
    (applyRunCardUpdate env d u db).2 = db := by
  unfold applyRunCardUpdate at h ⊢
  cases hcheck : checkUpdate u with
  | error e' => rfl
  | ok x =>
    rw [hcheck] at h
    exact immediateTxn_error h

end Barb
