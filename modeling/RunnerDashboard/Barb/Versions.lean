import Mathlib.Data.String.Basic
import RunnerDashboard.Barb.Conversation
import RunnerDashboard.Lib.IsoTime
import RunnerDashboard.Lib.PyStr

/-!
# Versions and receipts of run cards

`staff/barb_versions.py`: the decision that classifies an update of a run's card
against the stored version, the record of an applied update, and the pruning of
superseded receipts with its limits.

## Main definitions

* `Db.decide`, `recordApplied` — the version gate and the record of an applied update.
* `receiptLimitsFromEnv`, `pruneReceipts` — the limits of a prune and the prune.
* `Pruned` — what a prune may do.

## Main results

* `receiptRef_injective` — a reference names one run and one version.
* `Db.decide_cases`, `recordApplied_ok_iff` — the three outcomes, and when one is recorded.
* `pruneReceipts_spec`, `pruneReceipts_isOk_iff` — what a prune deletes, and when it does not fail.
-/

namespace Barb

open Sql

/-! ### Outcomes -/

def terminalStatuses : List String := ["succeeded", "failed", "cancelled"]

def receiptKindRunCard : String := "run_card"

def defaultReceiptPruneBatch : Int := 500

inductive ApplyOutcome
  | applied
  | duplicate
  | stale
  deriving DecidableEq, Repr

/-- `ApplyResult`: the version stored after the call, and the receipt if there is one. -/
structure ApplyResult where
  outcome : ApplyOutcome
  version : Int
  receiptId : Option String := none
  deriving DecidableEq, Repr

def checkEpoch (requestEpoch : Option Int) (authorityEpoch : Int) : Except BarbError Unit :=
  match requestEpoch with
  | none => .ok ()
  | some e =>
    if e = authorityEpoch then .ok ()
    else .error (.staleEpoch ("request epoch " ++ Json.intText e ++ " != authority epoch " ++
      Json.intText authorityEpoch))

/-! ### Stored versions -/

def receiptRef (runId : String) (version : Int) : String :=
  runId ++ ":" ++ Json.intText version

def currentVersion (db : Db) (runId : String) : Int :=
  ((db.versions.get? runId).map VersionRow.version).getD 0

/-- `_legacy_status`: the status in the meta of a card without a version row. -/
def legacyStatus (db : Db) (messageId : String) : Option String :=
  match db.messages.get? messageId with
  | none => none
  | some m =>
    match (decodeMeta m.metaText).bind fun fields => fields.lookup "status" with
    | some (.str status) => some status
    | _ => none

/-- The status `decide` takes for the stored one. -/
def storedStatus (db : Db) (runId messageId : String) : Option String :=
  match db.versions.get? runId with
  | none => legacyStatus db messageId
  | some row => some row.status

/-- `stored_status in TERMINAL_STATUSES`. -/
def isTerminal (status : Option String) : Bool := status.any (· ∈ terminalStatuses)

def Receipt.isFor (ref : String) (r : Receipt) : Bool :=
  r.kind = receiptKindRunCard && r.refId = ref

def findReceipt (db : Db) (runId : String) (version : Int) : Option String :=
  (db.receipts.rows.find? fun x => x.2.isFor (receiptRef runId version)).map Prod.fst

/-- `decide`: classify an update against the stored state. -/
def Db.decide (db : Db) (runId : String) (version : Int) (status messageId : String) :
    ApplyResult :=
  let storedVersion := currentVersion db runId
  let known := (db.versions.get? runId).isSome
  if known ∧ version = storedVersion then
    { outcome := .duplicate, version := storedVersion, receiptId := findReceipt db runId version }
  else if isTerminal (storedStatus db runId messageId) then
    if status ∈ terminalStatuses ∧ storedVersion < version then
      { outcome := .applied, version := version }
    else { outcome := .stale, version := storedVersion }
  else if storedVersion < version then { outcome := .applied, version := version }
  else { outcome := .stale, version := storedVersion }

/-! ### Records -/

/-- The arguments of `record_applied`, and the clock reading and receipt id it draws. -/
structure Record where
  receiptId : String
  now : String
  runId : String
  version : Int
  status : String
  messageId : String
  threadId : String
  seq : ℕ
  epoch : Int

def Record.row (a : Record) : VersionRow :=
  ⟨a.version, a.status, a.messageId, a.threadId, a.epoch, a.now⟩

def Record.receipt (a : Record) : Receipt :=
  ⟨receiptKindRunCard, receiptRef a.runId a.version, a.threadId, a.seq, a.epoch, a.now⟩

def Db.record (db : Db) (a : Record) : Db :=
  { db with
    versions := db.versions.put a.runId a.row
    receipts := db.receipts.insertNew a.receiptId a.receipt }

/-- `record_applied`: the upsert changes no row of an equal or higher version, and the
receipt has a primary key and a unique reference. -/
def recordApplied (db : Db) (a : Record) : Except BarbError (String × Db) :=
  if ¬ (fitsInteger a.version ∧ fitsInteger a.epoch) then .error .overflow
  else if (db.versions.get? a.runId).any fun row => a.version ≤ row.version then
    .error (.invariant ("run " ++ a.runId ++ ": version " ++ Json.intText a.version ++
      " did not advance the stored version"))
  else if (db.receipts.get? a.receiptId).isSome ∨
      db.receipts.rows.any (fun x => x.2.isFor (receiptRef a.runId a.version)) then
    .error .integrity
  else .ok (a.receiptId, db.record a)

/-! ### Limits -/

def defaultReceiptMaxRows : Int := 100000

def defaultReceiptMaxAgeDays : Int := 30

/-- The texts of `BARB_RECEIPT_MAX_ROWS` and `BARB_RECEIPT_MAX_AGE_DAYS`, empty where absent,
and `int()` of a text. -/
structure ReceiptSettings where
  maxRows : String
  maxAgeDays : String
  int : String → Option Int

def envPositiveInt (int : String → Option Int) (name text : String) (default : Int) :
    Except BarbError Int :=
  let raw := Py.strip text
  if raw = "" then .ok default
  else
    match int raw with
    | none => .error (.config name raw "is not an integer")
    | some value =>
      if value < 1 then .error (.config name raw "must be >= 1") else .ok value

/-- The least integer `days * 86400.0` refuses as too large for a float. -/
def floatOverflow : Int := 2 ^ 1024 - 2 ^ 970

/-- The days of `BARB_RECEIPT_MAX_AGE_DAYS`, where `0` is allowed. -/
def receiptAgeDays (s : ReceiptSettings) : Except BarbError Int :=
  if Py.strip s.maxAgeDays = "0" then .ok 0
  else envPositiveInt s.int "BARB_RECEIPT_MAX_AGE_DAYS" s.maxAgeDays defaultReceiptMaxAgeDays

/-- `receipt_limits_from_env`, with the age in microseconds. -/
def receiptLimitsFromEnv (s : ReceiptSettings) : Except BarbError (Int × Int) := do
  let days ← receiptAgeDays s
  let rows ← envPositiveInt s.int "BARB_RECEIPT_MAX_ROWS" s.maxRows defaultReceiptMaxRows
  if floatOverflow ≤ days then .error .overflow else .ok (rows, days * 86400 * 1000000)

/-! ### Pruning -/

/-- The arguments of `prune_receipts`: the age in microseconds, and the clock in UTC in
microseconds since the first year began. -/
structure PruneArgs where
  maxRows : Int
  maxAge : Int
  batch : Int
  now : ℕ
  deriving DecidableEq, Repr

/-- The text of the clock less the age; none if that is before the first year, where the
subtraction raises `OverflowError`. -/
def PruneArgs.cutoff? (a : PruneArgs) : Option String :=
  if (a.now : Int) < a.maxAge then none
  else some (String.ofList (IsoTime.isoText (a.now - a.maxAge).toNat))

/-- `_NOT_HEAD`: a run card receipt whose reference is no stored version. -/
def Db.notHead (db : Db) (r : Receipt) : Bool :=
  r.kind = receiptKindRunCard &&
    !(db.versions.rows.any fun x => r.refId = receiptRef x.1 x.2.version)

/-- `DELETE FROM barb_receipts WHERE receipt_id IN (SELECT … ORDER BY committed_at LIMIT ?)`,
with its row count. -/
def Db.dropOldest (db : Db) (p : Receipt → Bool) (limit : ℕ) : ℕ × Db :=
  let ids := db.receipts.select (fun _ r => db.notHead r && p r) Receipt.committedAt limit
  (db.receipts.count fun k _ => k ∈ ids,
    { db with receipts := db.receipts.delete fun k _ => k ∈ ids })

/-- `prune_receipts`, with how many rows it deletes. -/
def pruneReceipts (a : PruneArgs) (db : Db) : Except BarbError (ℕ × Db) :=
  if a.maxRows < 0 ∨ a.maxAge < 0 ∨ a.batch < 1 then
    .error (.value "max_rows and max_age_seconds must be >= 0 and batch >= 1")
  else
    match a.cutoff? with
    | none => .error .overflow
    | some cutoff =>
      if ¬ fitsInteger a.batch then .error .overflow
      else
        let (removed, db) := db.dropOldest (fun r => r.committedAt ≤ cutoff) a.batch.toNat
        let excess : Int := db.receipts.count (fun _ r => db.notHead r) - a.maxRows
        if 0 < excess ∧ (removed : Int) < a.batch then
          let (more, db) := db.dropOldest (fun _ => true) (min excess (a.batch - removed)).toNat
          .ok (removed + more, db)
        else .ok (removed, db)

/-! ### References -/

private theorem append_cons_inj {α : Type*} {l l' r r' : List α} {a : α} (hr : a ∉ r)
    (hr' : a ∉ r') (h : l ++ a :: r = l' ++ a :: r') : l = l' ∧ r = r' := by
  rcases List.append_eq_append_iff.mp h with ⟨c, hl, hc⟩ | ⟨c, hl, hc⟩
  · cases c with
    | nil => exact ⟨by simpa using hl.symm, (List.cons.inj hc).2⟩
    | cons b c =>
      refine absurd ?_ hr
      rw [(List.cons.inj hc).2]
      simp
  · cases c with
    | nil => exact ⟨by simpa using hl, (List.cons.inj hc).2.symm⟩
    | cons b c =>
      refine absurd ?_ hr'
      rw [(List.cons.inj hc).2]
      simp

private theorem colon_not_mem_renderInt (n : Int) : ':' ∉ Json.renderInt n := fun h => by
  rcases Json.mem_renderInt h with hd | hd
  · exact absurd hd (by decide)
  · exact absurd hd (by decide)

/-- **A reference names one run and one version**, whatever the run id: the text of a
version has no colon, so the last colon of a reference is the one written. -/
theorem receiptRef_injective {runId runId' : String} {v v' : Int}
    (h : receiptRef runId v = receiptRef runId' v') : runId = runId' ∧ v = v' := by
  have hl : runId.toList ++ ':' :: Json.renderInt v = runId'.toList ++ ':' ::
    Json.renderInt v' := by
    have := congrArg String.toList h
    simpa [receiptRef, Json.intText] using this
  obtain ⟨hrun, hv⟩ := append_cons_inj (colon_not_mem_renderInt v) (colon_not_mem_renderInt v') hl
  refine ⟨String.ext hrun, Json.intText_injective ?_⟩
  simp [Json.intText, hv]

/-! ### What a decision says -/

/-- **The three outcomes**: the stored version again, a version that advances the card,
and anything else. -/
theorem Db.decide_cases (db : Db) (runId : String) (version : Int) (status messageId : String) :
    (∃ row, db.versions.get? runId = some row ∧ row.version = version ∧
      db.decide runId version status messageId =
        ⟨.duplicate, version, findReceipt db runId version⟩) ∨
    (currentVersion db runId < version ∧
      (isTerminal (storedStatus db runId messageId) → status ∈ terminalStatuses) ∧
      db.decide runId version status messageId = ⟨.applied, version, none⟩) ∨
    ((∀ row, db.versions.get? runId = some row → row.version ≠ version) ∧
      ¬ (currentVersion db runId < version ∧
        (isTerminal (storedStatus db runId messageId) → status ∈ terminalStatuses)) ∧
      db.decide runId version status messageId = ⟨.stale, currentVersion db runId, none⟩) := by
  by_cases hdup : (db.versions.get? runId).isSome ∧ version = currentVersion db runId
  · left
    obtain ⟨row, hrow⟩ := Option.isSome_iff_exists.mp hdup.1
    have hcur : currentVersion db runId = row.version := by simp [currentVersion, hrow]
    refine ⟨row, hrow, hcur ▸ hdup.2.symm, ?_⟩
    simp only [Db.decide, if_pos hdup]
    rw [← hdup.2]
  · right
    by_cases happ : currentVersion db runId < version ∧
        (isTerminal (storedStatus db runId messageId) → status ∈ terminalStatuses)
    · left
      refine ⟨happ.1, happ.2, ?_⟩
      simp only [Db.decide, if_neg hdup]
      by_cases ht : isTerminal (storedStatus db runId messageId)
      · rw [if_pos ht, if_pos ⟨happ.2 ht, happ.1⟩]
      · rw [if_neg ht, if_pos happ.1]
    · right
      refine ⟨?_, happ, ?_⟩
      · intro row hrow hv
        exact hdup ⟨by simp [hrow], by simp [currentVersion, hrow, hv]⟩
      · simp only [Db.decide, if_neg hdup]
        by_cases ht : isTerminal (storedStatus db runId messageId)
        · rw [if_pos ht, if_neg fun h => happ ⟨h.2, fun _ => h.1⟩]
        · rw [if_neg ht, if_neg fun h => happ ⟨h, fun h' => absurd h' ht⟩]

/-- An update is applied when its version is higher and it does not leave a terminal status. -/
theorem Db.decide_applied_iff {db : Db} {runId : String} {version : Int}
    {status messageId : String} :
    (db.decide runId version status messageId).outcome = .applied ↔
      currentVersion db runId < version ∧
        (isTerminal (storedStatus db runId messageId) → status ∈ terminalStatuses) := by
  rcases db.decide_cases runId version status messageId with
    ⟨row, hrow, hv, h⟩ | ⟨hlt, ht, h⟩ | ⟨-, hno, h⟩
  · have hcur : currentVersion db runId = version := by simp [currentVersion, hrow, hv]
    rw [h, hcur]
    simp
  · rw [h]
    exact ⟨fun _ => ⟨hlt, ht⟩, fun _ => rfl⟩
  · rw [h]
    exact ⟨fun h => absurd h (by simp), fun h => absurd h hno⟩

/-! ### What a record leaves behind -/

def Db.receiptsFor (db : Db) (runId : String) (version : Int) : List (String × Receipt) :=
  db.receipts.rows.filter fun x => x.2.isFor (receiptRef runId version)

theorem findReceipt_eq (db : Db) (runId : String) (version : Int) :
    findReceipt db runId version = ((db.receiptsFor runId version).head?).map Prod.fst := by
  rw [findReceipt, Db.receiptsFor, List.head?_filter]

/-- **An update is recorded** exactly when its numbers fit, its version advances the stored
one, and neither its receipt's id nor its reference is taken. -/
theorem recordApplied_ok_iff {db db' : Db} {a : Record} {id : String} :
    recordApplied db a = .ok (id, db') ↔
      (fitsInteger a.version ∧ fitsInteger a.epoch) ∧
      (∀ row, db.versions.get? a.runId = some row → row.version < a.version) ∧
      db.receipts.get? a.receiptId = none ∧ db.receiptsFor a.runId a.version = [] ∧
      id = a.receiptId ∧ db' = db.record a := by
  unfold recordApplied
  by_cases hfit : fitsInteger a.version ∧ fitsInteger a.epoch
  · rw [if_neg (not_not.mpr hfit)]
    by_cases hver : (db.versions.get? a.runId).any fun row => a.version ≤ row.version
    · rw [if_pos hver]
      refine ⟨fun h => absurd h (by simp), ?_⟩
      rintro ⟨-, hlt, -⟩
      obtain ⟨row, hrow, hle⟩ := Option.any_eq_true _ _ |>.mp hver
      have := hlt row hrow
      simp only [decide_eq_true_eq] at hle
      omega
    · rw [if_neg hver]
      have hlt : ∀ row, db.versions.get? a.runId = some row → row.version < a.version := by
        intro row hrow
        simp only [hrow, Option.any_some, decide_eq_true_eq] at hver
        omega
      by_cases hdup : (db.receipts.get? a.receiptId).isSome ∨
          db.receipts.rows.any (fun x => x.2.isFor (receiptRef a.runId a.version))
      · rw [if_pos hdup]
        refine ⟨fun h => absurd h (by simp), ?_⟩
        rintro ⟨-, -, hnone, hfor, -⟩
        rcases hdup with h | h
        · simp [hnone] at h
        · obtain ⟨x, hx, hr⟩ := List.any_eq_true.mp h
          have hmem : x ∈ db.receiptsFor a.runId a.version := List.mem_filter.mpr ⟨hx, hr⟩
          rw [hfor] at hmem
          exact absurd hmem List.not_mem_nil
      · rw [if_neg hdup]
        obtain ⟨hnone, hfor⟩ := not_or.mp hdup
        have hnone' : db.receipts.get? a.receiptId = none := by simpa using hnone
        have hfor' : db.receiptsFor a.runId a.version = [] := by
          refine List.filter_eq_nil_iff.mpr fun x hx hr => ?_
          exact hfor (List.any_eq_true.mpr ⟨x, hx, hr⟩)
        simp only [Except.ok.injEq, Prod.mk.injEq]
        constructor
        · rintro ⟨rfl, rfl⟩
          exact ⟨hfit, hlt, hnone', hfor', rfl, rfl⟩
        · rintro ⟨-, -, -, -, rfl, rfl⟩
          exact ⟨rfl, rfl⟩
  · rw [if_pos hfit]
    exact ⟨fun h => absurd h (by simp), fun h => absurd h.1 hfit⟩

@[simp] theorem get?_versions_record (db : Db) (a : Record) (runId : String) :
    (db.record a).versions.get? runId =
      if runId = a.runId then some a.row else db.versions.get? runId := by
  simp [Db.record, Table.get?_put]

@[simp] theorem messages_record (db : Db) (a : Record) :
    (db.record a).messages = db.messages := rfl

@[simp] theorem fence_record (db : Db) (a : Record) : (db.record a).fence = db.fence := rfl

theorem receiptsFor_record {db : Db} {a : Record} (h : db.receipts.get? a.receiptId = none)
    (runId : String) (version : Int) :
    (db.record a).receiptsFor runId version = db.receiptsFor runId version ++
      if runId = a.runId ∧ version = a.version then [(a.receiptId, a.receipt)] else [] := by
  rw [Db.receiptsFor, Db.record, Table.rows_insertNew_of_none h, List.filter_append]
  congr 1
  by_cases hr : runId = a.runId ∧ version = a.version
  · obtain ⟨rfl, rfl⟩ := hr
    simp [Receipt.isFor, Record.receipt]
  · have hne : receiptRef a.runId a.version ≠ receiptRef runId version := fun h => by
      obtain ⟨h₁, h₂⟩ := receiptRef_injective h
      exact hr ⟨h₁.symm, h₂.symm⟩
    rw [if_neg hr]
    simp [Receipt.isFor, Record.receipt, hne]

theorem findReceipt_record_self {db : Db} {a : Record}
    (h : db.receipts.get? a.receiptId = none) (hfor : db.receiptsFor a.runId a.version = []) :
    findReceipt (db.record a) a.runId a.version = some a.receiptId := by
  rw [findReceipt_eq, receiptsFor_record h, hfor]
  simp

/-! ### Kept receipts -/

/-- The receipts have ids among `used`, and each names a run and a version no higher than
its stored one. -/
structure WellKept (used : List String) (db : Db) : Prop where
  past : ∀ x ∈ db.receipts.rows, ∃ runId v row, x.2.refId = receiptRef runId v ∧
    db.versions.get? runId = some row ∧ v ≤ row.version
  drawn : ∀ x ∈ db.receipts.rows, x.1 ∈ used

/-- A database before its first update: messages and a fence it may have. -/
def Db.new (messages : Table String Message) (fence : Option EpochFence) : Db :=
  ⟨messages, .empty, .empty, fence⟩

theorem WellKept.new (messages : Table String Message) (fence : Option EpochFence) :
    WellKept [] (.new messages fence) :=
  ⟨fun _ h => absurd h List.not_mem_nil, fun _ h => absurd h List.not_mem_nil⟩

theorem WellKept.mono {used : List String} {db : Db} (h : WellKept used db) (id : String) :
    WellKept (id :: used) db :=
  ⟨h.past, fun x hx => List.mem_cons_of_mem _ (h.drawn x hx)⟩

theorem WellKept.frame {used : List String} {db db' : Db} (h : WellKept used db)
    (hv : db'.versions = db.versions) (hr : ∀ x ∈ db'.receipts.rows, x ∈ db.receipts.rows) :
    WellKept used db' := by
  refine ⟨?_, fun x hx => h.drawn x (hr x hx)⟩
  rw [hv]
  exact fun x hx => h.past x (hr x hx)

theorem WellKept.receiptsFor_eq_nil {used : List String} {db : Db} (h : WellKept used db)
    {runId : String} {version : Int} (hlt : currentVersion db runId < version) :
    db.receiptsFor runId version = [] := by
  refine List.filter_eq_nil_iff.mpr fun x hx hr => ?_
  obtain ⟨runId', v, row, href, hrow, hle⟩ := h.past x hx
  simp only [Receipt.isFor, Bool.and_eq_true, decide_eq_true_eq] at hr
  obtain ⟨rfl, rfl⟩ := receiptRef_injective (href.symm.trans hr.2)
  have hcur : currentVersion db runId' = row.version := by simp [currentVersion, hrow]
  omega

theorem WellKept.get?_eq_none {used : List String} {db : Db} (h : WellKept used db) {id : String}
    (hfresh : id ∉ used) : db.receipts.get? id = none := by
  refine Table.get?_eq_none_iff.mpr fun hmem => ?_
  obtain ⟨x, hx, rfl⟩ := List.mem_map.mp hmem
  exact hfresh (h.drawn x hx)

/-- **A fresh update that advances its run is recorded**, if its numbers fit. -/
theorem WellKept.recordApplied {used : List String} {db : Db} (h : WellKept used db) {a : Record}
    (hfit : fitsInteger a.version ∧ fitsInteger a.epoch) (hfresh : a.receiptId ∉ used)
    (hlt : currentVersion db a.runId < a.version) :
    recordApplied db a = .ok (a.receiptId, db.record a) ∧
      WellKept (a.receiptId :: used) (db.record a) := by
  have hver : ∀ row, db.versions.get? a.runId = some row → row.version < a.version := by
    intro row hrow
    rwa [currentVersion, hrow] at hlt
  have hid := h.get?_eq_none hfresh
  refine ⟨recordApplied_ok_iff.mpr ⟨hfit, hver, hid, h.receiptsFor_eq_nil hlt, rfl, rfl⟩, ?_, ?_⟩
  · intro x hx
    rw [Db.record, Table.rows_insertNew_of_none hid] at hx
    rcases List.mem_append.mp hx with hx | hx
    · obtain ⟨runId, v, row, href, hrow, hle⟩ := h.past x hx
      by_cases heq : runId = a.runId
      · refine ⟨runId, v, a.row, href, by rw [get?_versions_record, if_pos heq], ?_⟩
        have := hver row (heq ▸ hrow)
        simp only [Record.row]
        omega
      · exact ⟨runId, v, row, href, by rw [get?_versions_record, if_neg heq, hrow], hle⟩
    · obtain rfl := List.mem_singleton.mp hx
      exact ⟨a.runId, a.version, a.row, rfl, by rw [get?_versions_record, if_pos rfl], le_rfl⟩
  · intro x hx
    rw [Db.record, Table.rows_insertNew_of_none hid] at hx
    rcases List.mem_append.mp hx with hx | hx
    · exact List.mem_cons_of_mem _ (h.drawn x hx)
    · obtain rfl := List.mem_singleton.mp hx
      exact List.mem_cons_self

/-! ### What a prune may do -/

/-- A deletion of receipts, none of them of a stored version. -/
structure Pruned (db db' : Db) : Prop where
  frame : db' = { db with receipts := db'.receipts }
  dropped : ∃ ids : List String,
    db'.receipts = db.receipts.delete (fun k _ => k ∈ ids) ∧
    ∀ k ∈ ids, ∀ r, db.receipts.get? k = some r → db.notHead r = true

theorem notHead_of_isFor {db : Db} {runId : String} {row : VersionRow} {r : Receipt}
    (hrow : db.versions.get? runId = some row)
    (hr : r.isFor (receiptRef runId row.version) = true) : db.notHead r = false := by
  simp only [Receipt.isFor, Bool.and_eq_true, decide_eq_true_eq] at hr
  have hany : db.versions.rows.any (fun x => r.refId = receiptRef x.1 x.2.version) = true :=
    List.any_eq_true.mpr ⟨_, Table.get?_eq_some_iff.mp hrow, by simp [hr.2]⟩
  simp [Db.notHead, hany]

theorem Pruned.refl (db : Db) : Pruned db db := by
  refine ⟨rfl, [], ?_, by simp⟩
  exact (Table.delete_eq_self (by simp)).symm

theorem Pruned.trans {db db' db'' : Db} (h : Pruned db db') (h' : Pruned db' db'') :
    Pruned db db'' := by
  obtain ⟨hf, ids, hrec, hids⟩ := h
  obtain ⟨hf', ids', hrec', hids'⟩ := h'
  have hheads : db'.notHead = db.notHead := by
    rw [hf]
    rfl
  refine ⟨by rw [hf', hf], ids ++ ids', ?_, ?_⟩
  · rw [hrec', hrec, Table.delete_delete]
    simp
  · intro k hk r hr
    by_cases hin : k ∈ ids
    · exact hids k hin r hr
    · rw [← hheads]
      refine hids' k ((List.mem_append.mp hk).resolve_left hin) r ?_
      rw [hrec, Table.get?_delete, hr]
      simp [hin]

theorem Pruned.receiptsFor_eq {db db' : Db} (h : Pruned db db') {runId : String}
    {row : VersionRow} (hrow : db.versions.get? runId = some row) :
    db'.receiptsFor runId row.version = db.receiptsFor runId row.version := by
  obtain ⟨-, ids, hrec, hids⟩ := h
  rw [Db.receiptsFor, Db.receiptsFor, hrec, Table.rows_delete, List.filter_filter]
  refine List.filter_congr fun x hx => ?_
  by_cases hr : x.2.isFor (receiptRef runId row.version)
  · have hnot : x.1 ∉ ids := fun hin => by
      have := hids x.1 hin x.2 (Table.get?_eq_some_iff.mpr hx)
      rw [notHead_of_isFor hrow hr] at this
      exact absurd this (by simp)
    simp [hr, hnot]
  · simp [hr]

theorem Pruned.subset {db db' : Db} (h : Pruned db db') :
    ∀ x ∈ db'.receipts.rows, x ∈ db.receipts.rows := by
  obtain ⟨-, ids, hrec, -⟩ := h
  intro x hx
  rw [hrec] at hx
  exact List.mem_of_mem_filter hx

private theorem dropOldest_pruned (db : Db) (p : Receipt → Bool) (limit : ℕ) :
    Pruned db (db.dropOldest p limit).2 := by
  refine ⟨rfl, _, rfl, ?_⟩
  intro k hk r hr
  have hsel := Table.of_mem_select hk hr
  exact (Bool.and_eq_true _ _ ▸ hsel).1

private theorem dropOldest_fst_le (db : Db) (p : Receipt → Bool) (limit : ℕ) :
    (db.dropOldest p limit).1 ≤ limit :=
  (Table.count_keys_le _ _).trans (Table.length_select_le _ _ _ _)

private theorem dropOldest_length (db : Db) (p : Receipt → Bool) (limit : ℕ) :
    (db.dropOldest p limit).2.receipts.rows.length + (db.dropOldest p limit).1 =
      db.receipts.rows.length := Table.length_delete _ _

/-- **A prune** deletes as many rows as it says, at most its batch of them, and none of a
stored version. -/
theorem pruneReceipts_spec {a : PruneArgs} {db db' : Db} {n : ℕ}
    (h : pruneReceipts a db = .ok (n, db')) :
    (n : Int) ≤ a.batch ∧ db'.receipts.rows.length + n = db.receipts.rows.length ∧
      Pruned db db' := by
  unfold pruneReceipts at h
  split at h
  · exact absurd h (by simp)
  next hargs =>
  split at h
  · exact absurd h (by simp)
  next cutoff _ =>
  split at h
  · exact absurd h (by simp)
  dsimp only at h
  set first := db.dropOldest (fun r => r.committedAt ≤ cutoff) a.batch.toNat with hfirst
  have hle : first.1 ≤ a.batch.toNat := dropOldest_fst_le _ _ _
  have hlen : first.2.receipts.rows.length + first.1 = db.receipts.rows.length :=
    dropOldest_length _ _ _
  have hpruned : Pruned db first.2 := dropOldest_pruned _ _ _
  split at h
  · next hmore =>
    set second := first.2.dropOldest (fun _ => true) (min _ (a.batch - (first.1 : Int))).toNat
      with hsecond
    have hle' : second.1 ≤ (min _ (a.batch - (first.1 : Int))).toNat := dropOldest_fst_le _ _ _
    have hlen' : second.2.receipts.rows.length + second.1 = first.2.receipts.rows.length :=
      dropOldest_length _ _ _
    simp only [Except.ok.injEq, Prod.mk.injEq] at h
    obtain ⟨rfl, rfl⟩ := h
    exact ⟨by push_cast; omega, by omega, hpruned.trans (dropOldest_pruned _ _ _)⟩
  · simp only [Except.ok.injEq, Prod.mk.injEq] at h
    obtain ⟨rfl, rfl⟩ := h
    exact ⟨by omega, hlen, hpruned⟩

/-- **A prune with proper limits** fails exactly if the age reaches back before the first
year. -/
theorem pruneReceipts_isOk_iff {a : PruneArgs} (hrows : 0 ≤ a.maxRows) (hage : 0 ≤ a.maxAge)
    (hbatch : 1 ≤ a.batch) (hfits : fitsInteger a.batch = true) (db : Db) :
    (∃ r, pruneReceipts a db = .ok r) ↔ a.maxAge ≤ a.now := by
  unfold pruneReceipts PruneArgs.cutoff?
  rw [if_neg (by omega)]
  by_cases hcut : (a.now : Int) < a.maxAge
  · rw [if_pos hcut]
    constructor
    · rintro ⟨r, h⟩
      cases h
    · intro h
      omega
  · rw [if_neg hcut]
    dsimp only
    rw [if_neg (by simp [hfits])]
    refine ⟨fun _ => by omega, fun _ => ?_⟩
    split
    · exact ⟨_, rfl⟩
    · exact ⟨_, rfl⟩

theorem envPositiveInt_pos {int : String → Option Int} {name text : String} {default n : Int}
    (hdefault : 1 ≤ default) (h : envPositiveInt int name text default = .ok n) : 1 ≤ n := by
  simp only [envPositiveInt] at h
  split at h
  · exact Except.ok.inj h ▸ hdefault
  split at h
  · cases h
  split at h
  · cases h
  · have := Except.ok.inj h
    omega

theorem receiptLimitsFromEnv_proper {s : ReceiptSettings} {rows age : Int}
    (h : receiptLimitsFromEnv s = .ok (rows, age)) : 1 ≤ rows ∧ 0 ≤ age := by
  unfold receiptLimitsFromEnv at h
  obtain ⟨days, hdays, h⟩ := bind_eq_ok_iff.mp h
  obtain ⟨rows', hrows, h⟩ := bind_eq_ok_iff.mp h
  have hrows' := envPositiveInt_pos (by decide) hrows
  have hdays' : 0 ≤ days := by
    unfold receiptAgeDays at hdays
    split at hdays
    · exact (Except.ok.inj hdays).le
    · have := envPositiveInt_pos (by decide) hdays
      omega
  split at h
  · cases h
  · simp only [Except.ok.injEq, Prod.mk.injEq] at h
    obtain ⟨rfl, rfl⟩ := h
    exact ⟨hrows', Int.mul_nonneg (Int.mul_nonneg hdays' (by decide)) (by decide)⟩

end Barb
