import RunnerDashboard.Barb.Store
import RunnerDashboard.Lib.Register

/-!
# The card of one run

To the senders of one run's updates the store is a versioned register whose terminal
statuses are final: it holds the update its card shows, and takes what the register
accepts.  This file relates the tables to that register, one call at a time.

## Main results

* `deliver` — every call is a `Delivery`.
* `deliver_isOk` — which calls do not fail.
-/

namespace Barb

open Sql Register

/-! ### Updates of a run -/

structure RunCard where
  threadId : String
  runId : String
  messageId : String
  author : String
  authorKind : String
  messageId_ne : messageId ≠ ""
  authorKind_mem : authorKind ∈ messageAuthorKinds

structure Update where
  version : Int
  status : String
  bodyMd : String
  metaDict : List (String × Json)

def Update.Final (x : Update) : Prop := x.status ∈ terminalStatuses

/-- The epochs and the node a call names. -/
structure Authority where
  requestEpoch : Option Int
  authorityEpoch : Int
  authorityNode : String

def Authority.unset : Authority := ⟨none, 0, ""⟩

def RunCard.call (c : RunCard) (au : Authority) (x : Update) : CardUpdate where
  threadId := c.threadId
  runId := c.runId
  messageId := c.messageId
  status := x.status
  version := some x.version
  bodyMd := x.bodyMd
  metaDict := x.metaDict
  author := c.author
  epoch := au.requestEpoch
  authorityEpoch := au.authorityEpoch
  authorityNode := au.authorityNode
  authorKind := c.authorKind

/-! ### The register of a database -/

/-- The message of a card is the one written for an update, in one of the two ways. -/
structure CardOf (env : Env) (x : Update) (m : Message) : Prop where
  body : m.bodyMd = env.redact x.bodyMd
  written : m.metaText = env.redact (Json.obj x.metaDict).dumps ∨
    m.metaText = (Json.obj (redactFields env.redact x.metaDict)).dumps
  readable : ∃ fields, decodeMeta m.metaText = some fields

/-- The card, the stored version and the stored status of a run are those of an update. -/
structure Holds (env : Env) (c : RunCard) (db : Db) (x : Update) : Prop where
  row : ∃ row, db.versions.get? c.runId = some row ∧ row.version = x.version ∧
    row.status = x.status
  card : ∃ m, db.messages.get? c.messageId = some m ∧ CardOf env x m

def Shows (env : Env) (c : RunCard) (db : Db) : Option Update → Prop
  | none => db.versions.get? c.runId = none ∧ db.messages.get? c.messageId = none
  | some x => Holds env c db x

/-- The register takes `x`: its version is higher and no terminal status is left. -/
abbrev Takes (held : Option Update) (x : Update) : Prop :=
  Accepts Update.version Update.Final held x

variable {env : Env} {c : RunCard} {d : Draw} {au : Authority} {x : Update} {db db' : Db}
  {held : Option Update} {used : List String}

theorem Shows.frame (h : Shows env c db held) (hv : db'.versions = db.versions)
    (hm : db'.messages = db.messages) : Shows env c db' held := by
  cases held with
  | none =>
    obtain ⟨h₁, h₂⟩ := h
    exact ⟨by rw [hv, h₁], by rw [hm, h₂]⟩
  | some x =>
    obtain ⟨⟨row, hrow, hx⟩, ⟨m, hmsg, hof⟩⟩ := h
    exact ⟨⟨row, by rw [hv, hrow], hx⟩, ⟨m, by rw [hm, hmsg], hof⟩⟩

theorem Holds.currentVersion_eq (h : Holds env c db x) :
    currentVersion db c.runId = x.version := by
  obtain ⟨row, hrow, hv, -⟩ := h.row
  rw [← hv, currentVersion, hrow]
  rfl

theorem Shows.currentVersion_eq (h : Shows env c db held) :
    currentVersion db c.runId = (held.map Update.version).getD 0 := by
  cases held with
  | none =>
    rw [currentVersion, h.1]
    rfl
  | some y => exact Holds.currentVersion_eq h

theorem Holds.storedStatus_eq (h : Holds env c db x) :
    storedStatus db c.runId c.messageId = some x.status := by
  obtain ⟨row, hrow, -, hs⟩ := h.row
  rw [← hs, storedStatus, hrow]

/-- **The decision is the register's.** -/
theorem Shows.decide_applied_iff (h : Shows env c db held) (hpos : 1 ≤ x.version) :
    (db.decide c.runId x.version x.status c.messageId).outcome = .applied ↔ Takes held x := by
  rw [Db.decide_applied_iff]
  cases held with
  | none =>
    obtain ⟨hrow, hmsg⟩ := h
    have hcur : currentVersion db c.runId = 0 := by rw [currentVersion, hrow]; rfl
    have hst : storedStatus db c.runId c.messageId = none := by
      rw [storedStatus, hrow]
      simp only [legacyStatus, hmsg]
    rw [hcur, hst]
    simp only [isTerminal, Option.any_none, Bool.false_eq_true, false_implies, and_true]
    exact ⟨fun _ => accepts_none, fun _ => by omega⟩
  | some y =>
    have h' : Holds env c db y := h
    rw [h'.currentVersion_eq, h'.storedStatus_eq, Takes, accepts_some_iff]
    simp [isTerminal, Update.Final]

theorem Shows.getMessage (h : Shows env c db held) :
    ∃ card, getMessage db c.messageId = .ok card := by
  unfold Barb.getMessage
  cases held with
  | none => exact ⟨none, by rw [h.2]⟩
  | some y =>
    obtain ⟨m, hm, hof⟩ := h.card
    obtain ⟨fields, hd⟩ := hof.readable
    rw [hm]
    dsimp only
    rw [fromRow_of_decode hd]
    exact ⟨_, rfl⟩

/-! ### One call -/

/-- An update can be written: as a new card, or since the redacted text of its meta reads
back. -/
def Writable (env : Env) (held : Option Update) (x : Update) : Prop :=
  held = none ∨ ∃ fields, decodeMeta (env.redact (Json.obj x.metaDict).dumps) = some fields

/-- The text of the meta of a card: a new card's meta is redacted value by value, a stored
card's new meta as a text. -/
def cardText (env : Env) (held : Option Update) (x : Update) : String :=
  match held with
  | none => (Json.obj (redactFields env.redact x.metaDict)).dumps
  | some _ => env.redact (Json.obj x.metaDict).dumps

theorem Shows.of_write {msg : MessageRecord} (h : Shows env c db held)
    (hw : CardWrite env d (c.call au x) db msg db') :
    Writable env held x ∧ ∃ m, db'.messages.get? c.messageId = some m ∧ CardOf env x m ∧
      m.metaText = cardText env held x := by
  cases hw with
  | @updated m fields fields' hm hd hd' =>
    have hm' : db.messages.get? c.messageId = some m := hm
    have hof : CardOf env x (m.rewritten env.redact x.bodyMd x.metaDict) :=
      ⟨rfl, .inl rfl, fields', hd'⟩
    refine ⟨.inr ⟨fields', hd'⟩, _, ?_, hof, ?_⟩
    · change ((db.messages.update (fun k _ => k = c.messageId) fun _ _ =>
        m.rewritten env.redact x.bodyMd x.metaDict).get? c.messageId) = _
      rw [Table.get?_update, hm']
      simp
    · cases held with
      | none => exact absurd (h.2.symm.trans hm') (by simp)
      | some y => rfl
  | added hm hfree hk =>
    have hid : (c.call au x).cardId d = c.messageId := if_neg c.messageId_ne
    have hm' : db.messages.get? c.messageId = none := hm
    have hof : CardOf env x (((c.call au x).addArgs d).message env.redact
        (nextSeq db (c.call au x).threadId)) := ⟨rfl, .inr rfl, _, decodeMeta_dumps _⟩
    have hnone : held = none := by
      cases held with
      | none => rfl
      | some y =>
        obtain ⟨m, hm, -⟩ := Holds.card h
        exact absurd (hm.symm.trans hm') (by simp)
    refine ⟨.inl hnone, _, ?_, hof, by rw [hnone]; rfl⟩
    rw [hid, Db.insertMessage, Table.get?_insertNew, if_pos rfl, hm', Option.getD_none]

theorem Shows.write (d : Draw) (au : Authority) (h : Shows env c db held)
    (hw : Writable env held x) :
    ∃ msg db', CardWrite env d (c.call au x) db msg db' := by
  cases held with
  | none =>
    have hid : (c.call au x).cardId d = c.messageId := if_neg c.messageId_ne
    exact ⟨_, _, .added h.2 (by rw [hid]; exact h.2) c.authorKind_mem⟩
  | some y =>
    obtain ⟨m, hm, hof⟩ := Holds.card h
    obtain ⟨fields, hd⟩ := hof.readable
    obtain ⟨fields', hd'⟩ := hw.resolve_left (by simp)
    exact ⟨_, _, .updated hm hd hd'⟩

/-- What a call does to the register. -/
inductive Delivery (env : Env) (c : RunCard) (d : Draw) (au : Authority) (x : Update) (db : Db)
    (held : Option Update) : Except BarbError Reply → Db → Option Update → Prop
  /-- It fails and changes nothing. -/
  | refused {e : BarbError} : Delivery env c d au x db held (.error e) db held
  /-- It is not applied, and changes at most the fence. -/
  | covered {card : Option MessageRecord} {db' : Db} (notTaken : ¬ Takes held x)
      (outcome : (db.decide c.runId x.version x.status c.messageId).outcome ≠ .applied)
      (frame : db' = { db with fence := db'.fence })
      (still : au.authorityEpoch < 1 → db' = db) :
      Delivery env c d au x db held
        (.ok (card, db.decide c.runId x.version x.status c.messageId)) db' held
  /-- It is applied: the register takes the update. -/
  | taken {card : Option MessageRecord} {db' : Db} (taken : Takes held x)
      (writable : Writable env held x) (fits : fitsInteger x.version)
      (text : ∃ m, db'.messages.get? c.messageId = some m ∧ m.metaText = cardText env held x)
      (receipt : findReceipt db' c.runId x.version = some d.receiptId) :
      Delivery env c d au x db held
        (.ok (card, ⟨.applied, x.version, some d.receiptId⟩)) db' (some x)

theorem Delivery.move {reply : Except BarbError Reply} {held' : Option Update}
    (h : Delivery env c d au x db held reply db' held') :
    Move Update.version Update.Final held held' := by
  cases h with
  | refused => exact .refl held
  | covered => exact .refl held
  | taken hacc => exact .take hacc

/-- After a call that succeeds the register covers its update. -/
theorem Delivery.not_takes {reply : Reply} {held' : Option Update}
    (h : Delivery env c d au x db held (.ok reply) db' held') : ¬ Takes held' x := by
  cases h with
  | covered hnot => exact hnot
  | taken => exact not_accepts_self

private theorem upserted_delivery {reply : Reply} (hkept : WellKept used db)
    (hshows : Shows env c db held) (hpos : 1 ≤ x.version) (hfresh : d.receiptId ∉ used)
    (h : Upserted env d (c.call au x) db reply db') :
    ∃ held', Delivery env c d au x db held (.ok reply) db' held' ∧ Shows env c db' held' ∧
      WellKept (d.receiptId :: used) db' := by
  cases h with
  | rejected hout hread =>
    refine ⟨held, .covered ?_ hout rfl fun _ => rfl, hshows, hkept.mono _⟩
    rw [← hshows.decide_applied_iff hpos]
    exact hout
  | @applied msg db₁ _ hout hwrite hrec =>
    have hacc := (hshows.decide_applied_iff hpos).mp hout
    obtain ⟨hw, m, hm, hof, htext⟩ := hshows.of_write hwrite
    have hframe := hwrite.frame
    have hkept₁ : WellKept used db₁ :=
      hkept.frame (by rw [hframe]) (by rw [hframe]; exact fun _ h => h)
    obtain ⟨hfit, hver, hid, hnil, -, rfl⟩ := recordApplied_ok_iff.mp hrec
    have hlt : currentVersion db₁ c.runId < x.version := by
      have hcur : currentVersion db₁ c.runId = currentVersion db c.runId := by
        rw [hframe]
        rfl
      rw [hcur]
      exact (Db.decide_applied_iff.mp hout).1
    refine ⟨some x, .taken hacc hw hfit.1 ⟨m, hm, htext⟩ (findReceipt_record_self hid hnil),
      ?_, ?_⟩
    · refine ⟨⟨((c.call au x).record d x.version msg.seq).row, ?_, rfl, rfl⟩, m, hm, hof⟩
      rw [get?_versions_record]
      exact if_pos rfl
    · exact (hkept₁.recordApplied hfit hfresh hlt).2

/-- A prune after a call leaves the register and the receipt of its version. -/
private theorem Delivery.prune {reply : Reply} {held' : Option Update} {db'' : Db}
    (h : Delivery env c d au x db held (.ok reply) db' held') (hshows : Shows env c db' held')
    (happ : reply.2.outcome = .applied)
    (hp : Pruned db' db'') :
    Delivery env c d au x db held (.ok reply) db'' held' := by
  cases h with
  | covered _ hout => exact absurd happ hout
  | taken hacc hw hfit htext hreceipt =>
    refine .taken hacc hw hfit (by rw [hp.frame]; exact htext) ?_
    obtain ⟨row, hrow, hv, -⟩ := Holds.row hshows
    have hfor := @Pruned.receiptsFor_eq _ _ hp c.runId _ hrow
    rw [hv] at hfor
    rw [findReceipt_eq, hfor, ← hreceipt, findReceipt_eq]

/-- What a call does below the fence it does to the register. -/
private theorem Delivery.of_raised {db₁ : Db} {reply : Reply} {held' : Option Update}
    (h : Delivery env c d au x db₁ held (.ok reply) db' held')
    (hraise : raiseFence env d (c.call au x) db = .ok db₁) :
    Delivery env c d au x db held (.ok reply) db' held' := by
  have hframe := raiseFence_frame hraise
  cases h with
  | covered hnot hout hdb hstill =>
    have hdecide : db₁.decide c.runId x.version x.status c.messageId =
        db.decide c.runId x.version x.status c.messageId := by
      rw [hframe]
      rfl
    rw [hdecide] at hout ⊢
    refine .covered hnot hout (by rw [hdb, hframe]) fun hlow => ?_
    rcases raiseFence_ok hraise with ⟨-, rfl⟩ | ⟨hle, -⟩
    · exact hstill hlow
    · exact absurd hle (not_le.mpr hlow)
  | taken hacc hw hfit htext hreceipt => exact .taken hacc hw hfit htext hreceipt

/-- **Every call is a delivery** to the register of its run. -/
theorem deliver {reply : Except BarbError Reply} (hkept : WellKept used db)
    (hshows : Shows env c db held) (hpos : 1 ≤ x.version) (hfresh : d.receiptId ∉ used)
    (h : applyRunCardUpdate env d (c.call au x) db = (reply, db')) :
    ∃ held', Delivery env c d au x db held reply db' held' ∧ Shows env c db' held' ∧
      WellKept (d.receiptId :: used) db' := by
  cases reply with
  | error e =>
    have hdb : db' = db := by
      have := applyRunCardUpdate_error (congrArg Prod.fst h)
      rwa [h] at this
    subst hdb
    exact ⟨held, .refused, hshows, hkept.mono _⟩
  | ok reply =>
    obtain ⟨-, db₂, hup, hcount⟩ := applyRunCardUpdate_ok_iff.mp h
    obtain ⟨db₁, hraise, hups⟩ := upsertRunCard_ok_iff.mp hup
    have hframe := raiseFence_frame hraise
    have hkept₁ : WellKept used db₁ :=
      hkept.frame (by rw [hframe]) (by rw [hframe]; exact fun _ h => h)
    have hshows₁ : Shows env c db₁ held := hshows.frame (by rw [hframe]) (by rw [hframe])
    obtain ⟨held', hdel, hshows', hkept'⟩ := upserted_delivery hkept₁ hshows₁ hpos hfresh hups
    refine ⟨held', ?_⟩
    split at hcount
    · next happ =>
      have hpruned := countApplied_pruned hcount
      refine ⟨(hdel.prune hshows' happ hpruned).of_raised hraise, ?_, ?_⟩
      · exact hshows'.frame (by rw [hpruned.frame]) (by rw [hpruned.frame])
      · exact hkept'.frame (by rw [hpruned.frame]) hpruned.subset
    · rw [hcount]
      exact ⟨hdel.of_raised hraise, hshows', hkept'⟩

/-- A call does not fail that passes its checks and the fence, if an update the register
takes can be written, its numbers fit, and the prune of its transaction does not fail. -/
theorem deliver_isOk (hkept : WellKept used db) (hshows : Shows env c db held)
    (hpos : 1 ≤ x.version) (hfresh : d.receiptId ∉ used)
    (hcheck : checkUpdate (c.call au x) = .ok ())
    (hraise : ∃ db₁, raiseFence env d (c.call au x) db = .ok db₁)
    (hfit : fitsInteger x.version ∧ fitsInteger au.authorityEpoch)
    (hw : Takes held x → Writable env held x)
    (hcount : Takes held x → ∀ db, ∃ db', countApplied env d db = .ok db') :
    ∃ reply, (applyRunCardUpdate env d (c.call au x) db).1 = .ok reply := by
  obtain ⟨db₁, hraise⟩ := hraise
  have hframe := raiseFence_frame hraise
  have hkept₁ : WellKept used db₁ :=
    hkept.frame (by rw [hframe]) (by rw [hframe]; exact fun _ h => h)
  have hshows₁ : Shows env c db₁ held := hshows.frame (by rw [hframe]) (by rw [hframe])
  have hup : ∃ reply db₂, upsertRunCard env d (c.call au x) db = .ok (reply, db₂) ∧
      (reply.2.outcome = .applied → Takes held x) := by
    by_cases hacc : Takes held x
    · obtain ⟨msg, db₂, hwrite⟩ := hshows₁.write d au (hw hacc)
      have hframe₂ := hwrite.frame
      have hkept₂ : WellKept used db₂ :=
        hkept₁.frame (by rw [hframe₂]) (by rw [hframe₂]; exact fun _ h => h)
      have hout := (hshows₁.decide_applied_iff hpos).mpr hacc
      have hlt : currentVersion db₂ c.runId < x.version := by
        have hcur : currentVersion db₂ c.runId = currentVersion db₁ c.runId := by
          rw [hframe₂]
          rfl
        rw [hcur]
        exact (Db.decide_applied_iff.mp hout).1
      have hrec := (hkept₂.recordApplied (a := (c.call au x).record d x.version msg.seq)
        hfit hfresh hlt).1
      exact ⟨_, _, upsertRunCard_ok_iff.mpr ⟨db₁, hraise, .applied hout hwrite hrec⟩, fun _ => hacc⟩
    · obtain ⟨card, hread⟩ := hshows₁.getMessage
      have hout : (db₁.decide c.runId x.version x.status c.messageId).outcome ≠ .applied :=
        fun h => hacc ((hshows₁.decide_applied_iff hpos).mp h)
      exact ⟨_, _, upsertRunCard_ok_iff.mpr ⟨db₁, hraise, .rejected hout hread⟩,
        fun happ => absurd happ hout⟩
  obtain ⟨reply, db₂, hup, htakes⟩ := hup
  by_cases happ : reply.2.outcome = .applied
  · obtain ⟨db₃, hc⟩ := hcount (htakes happ) db₂
    have h := applyRunCardUpdate_ok_iff.mpr
      ⟨hcheck, db₂, hup, by rw [if_pos happ]; exact hc⟩
    exact ⟨reply, by rw [h]⟩
  · have h : applyRunCardUpdate env d (c.call au x) db = (.ok reply, db₂) :=
      applyRunCardUpdate_ok_iff.mpr ⟨hcheck, db₂, hup, by rw [if_neg happ]⟩
    exact ⟨reply, by rw [h]⟩

end Barb
