import RunnerDashboard.Barb.Store

/-!
# Pruned and unpruned runs

A store whose receipts are pruned between any two calls, and by the calls themselves,
answers every update as a store that never prunes, as long as no prune of a call fails.  The two
are related by a simulation: they differ in their receipts only, and have the same receipts of
every stored version, the only ones an answer shows.

## Main definitions

* `run`, `runUnpruned` — the answers to a sequence of calls, with and without prunes.
* `PruningInvisible` — what the senders are promised.
* `Unseen` — the simulation.

## Main results

* `upsertRunCard_unseen`, `applyRunCardUpdate_unseen` — one call answers both alike.
* `run_newRuns_ne` — the first updates of 64 runs are not answered alike if a prune fails.
* `pruningInvisible_iff` — prunes are invisible exactly if the limits hold.
-/

namespace Barb

open Sql

/-! ### Sequences of calls -/

inductive StoreEvent
  /-- `apply_run_card_update`. -/
  | apply (d : Draw) (u : CardUpdate)
  /-- `prune_receipts`, in a transaction of its own. -/
  | prune (a : PruneArgs)

def StoreEvent.receiptId? : StoreEvent → Option String
  | apply d _ => some d.receiptId
  | prune _ => none

/-- The clock shows no instant before the earliest one. -/
def StoreEvent.Clocked (env : Env) : StoreEvent → Prop
  | apply d _ => env.since ≤ d.pruneAt
  | prune _ => True

/-- `apply_run_card_update` without its automatic prune. -/
def applyUnpruned (env : Env) (d : Draw) (u : CardUpdate) (db : Db) :
    Except BarbError Reply × Db :=
  match checkUpdate u with
  | .error e => (.error e, db)
  | .ok () => immediateTxn (upsertRunCard env d u) db

/-- The answers of the updates of a sequence to a store object that has counted `n` updates since
its last prune, and the database after it. -/
def run (env : Env) : List StoreEvent → ℕ → Db → List (Except BarbError Reply) × Db
  | [], _, db => ([], db)
  | .apply d u :: evs, n, db =>
    let d := { d with applied := n }
    let r := applyRunCardUpdate env d u db
    let rest := run env evs (appliedAfter env d u db) r.2
    (r.1 :: rest.1, rest.2)
  | .prune a :: evs, n, db => run env evs n (immediateTxn (pruneReceipts a) db).2

/-- The answers of the same updates without any pruning. -/
def runUnpruned (env : Env) : List StoreEvent → Db → List (Except BarbError Reply) × Db
  | [], db => ([], db)
  | .apply d u :: evs, db =>
    let r := applyUnpruned env d u db
    let rest := runUnpruned env evs r.2
    (r.1 :: rest.1, rest.2)
  | .prune _ :: evs, db => runUnpruned env evs db

/-- **What the senders are promised**: whatever prunes stand between the updates, and whatever the
updates prune themselves, every update is answered as without any pruning; and a prune removes at
most its batch of rows, and no receipt of a stored version.  The receipt ids drawn are distinct. -/
def PruningInvisible (env : Env) : Prop :=
  (∀ messages fence evs, (∀ ev ∈ evs, StoreEvent.Clocked env ev) →
    (evs.filterMap StoreEvent.receiptId?).Nodup →
    (run env evs 0 (.new messages fence)).1 = (runUnpruned env evs (.new messages fence)).1) ∧
  ∀ a db n db', pruneReceipts a db = .ok (n, db') →
    (n : Int) ≤ a.batch ∧ db'.receipts.rows.length + n = db.receipts.rows.length ∧
    ∀ runId row, db.versions.get? runId = some row →
      db'.receiptsFor runId row.version = db.receiptsFor runId row.version

/-! ### What an answer depends on -/

def Db.withReceipts (db : Db) (t : Table String Receipt) : Db := { db with receipts := t }

@[simp] theorem messages_withReceipts (db : Db) (t : Table String Receipt) :
    (db.withReceipts t).messages = db.messages := rfl

@[simp] theorem versions_withReceipts (db : Db) (t : Table String Receipt) :
    (db.withReceipts t).versions = db.versions := rfl

@[simp] theorem receipts_withReceipts (db : Db) (t : Table String Receipt) :
    (db.withReceipts t).receipts = t := rfl

@[simp] theorem nextSeq_withReceipts (db : Db) (t : Table String Receipt)
    (threadId : String) : nextSeq (db.withReceipts t) threadId = nextSeq db threadId := rfl

section Frame

variable (env : Env) (d : Draw) (u : CardUpdate) (db : Db) (t : Table String Receipt)

private theorem updateMessage_withReceipts (id bodyMd : String)
    (metaDict : List (String × Json)) :
    updateMessage env.redact (db.withReceipts t) id bodyMd metaDict =
      (updateMessage env.redact db id bodyMd metaDict).map
        fun r => (r.1, r.2.withReceipts t) := by
  unfold updateMessage
  rw [messages_withReceipts]
  cases db.messages.get? id with
  | none => rfl
  | some m =>
    dsimp only
    cases fromRow id m with
    | error e => rfl
    | ok r =>
      dsimp only [bind, Except.bind]
      cases fromRow id (m.rewritten env.redact bodyMd metaDict) with
      | error e => rfl
      | ok r' => rfl

private theorem addMessage_withReceipts (id : String) (a : AddArgs) :
    addMessage env.redact (db.withReceipts t) id a =
      (addMessage env.redact db id a).map fun r => (r.1, r.2.withReceipts t) := by
  unfold addMessage
  split
  · rfl
  · rw [nextSeq_withReceipts, messages_withReceipts]
    dsimp only
    cases db.messages.get? id with
    | some m => rfl
    | none =>
      dsimp only
      cases fromRow id (a.message env.redact (nextSeq db a.threadId)) with
      | error e => rfl
      | ok r => rfl

private theorem writeCard_withReceipts :
    writeCard env d u (db.withReceipts t) =
      (writeCard env d u db).map fun r => (r.1, r.2.withReceipts t) := by
  unfold writeCard
  rw [updateMessage_withReceipts]
  cases updateMessage env.redact db u.messageId u.bodyMd u.metaDict with
  | error e => rfl
  | ok r =>
    obtain ⟨card, db'⟩ := r
    cases card with
    | some msg => rfl
    | none => exact addMessage_withReceipts env db' t (u.cardId d) (u.addArgs d)

private theorem advanceFence_withReceipts (epoch : Int) (node reason now : String) :
    advanceFence env.lower (db.withReceipts t) epoch node reason now =
      (advanceFence env.lower db epoch node reason now).map
        fun r => (r.1, r.2.withReceipts t) := by
  unfold advanceFence
  rw [show (db.withReceipts t).fence = db.fence from rfl]
  cases checkFence env.lower db.fence epoch node with
  | error e => rfl
  | ok x =>
    dsimp only
    cases db.fence.filter fun f => epoch = f.epoch ∧ (f.node ≠ "" ∨ node = "") with
    | some f => rfl
    | none =>
      dsimp only
      split
      · rfl
      · rfl

private theorem raiseFence_withReceipts :
    raiseFence env d u (db.withReceipts t) =
      (raiseFence env d u db).map fun db => db.withReceipts t := by
  unfold raiseFence
  split
  · rw [advanceFence_withReceipts]
    cases advanceFence env.lower db u.authorityEpoch u.authorityNode "" d.fenceAt with
    | error e => rfl
    | ok r => rfl
  · rfl

end Frame

/-! ### The simulation -/

/-- A pruned database and the unpruned one of the same calls, whose receipts have the ids
`used`: they differ in receipts no answer shows. -/
structure Unseen (used : List String) (db full : Db) : Prop where
  same : db = full.withReceipts db.receipts
  subset : ∀ x ∈ db.receipts.rows, x ∈ full.receipts.rows
  heads : ∀ runId row, full.versions.get? runId = some row →
    db.receiptsFor runId row.version = full.receiptsFor runId row.version
  kept : WellKept used full

variable {env : Env} {d : Draw} {u : CardUpdate} {used : List String} {db full : Db}

theorem Unseen.new (messages : Table String Message) (fence : Option EpochFence) :
    Unseen [] (.new messages fence) (.new messages fence) :=
  ⟨rfl, fun _ h => h, fun _ _ _ => rfl, .new messages fence⟩

private theorem Unseen.versions (h : Unseen used db full) : db.versions = full.versions := by
  rw [h.same, versions_withReceipts]

private theorem Unseen.kept_pruned (h : Unseen used db full) : WellKept used db :=
  h.kept.frame h.versions h.subset

/-- What leaves versions and receipts alone keeps the relation. -/
private theorem Unseen.frame (h : Unseen used db full) {full' : Db}
    (hv : full'.versions = full.versions) (hr : full'.receipts = full.receipts) :
    Unseen used (full'.withReceipts db.receipts) full' := by
  refine ⟨rfl, ?_, ?_, h.kept.frame hv (by rw [hr]; exact fun _ h => h)⟩
  · rw [receipts_withReceipts, hr]
    exact h.subset
  · intro runId row hrow
    rw [hv] at hrow
    have := h.heads runId row hrow
    rwa [Db.receiptsFor, Db.receiptsFor, ← hr] at this

private theorem Unseen.prune (h : Unseen used db full) {db' : Db}
    (hp : Pruned db db') : Unseen used db' full := by
  have hsame : db' = full.withReceipts db'.receipts := by
    rw [hp.frame, h.same]
    rfl
  refine ⟨hsame, ?_, ?_, h.kept⟩
  · intro x hx
    exact h.subset x (hp.subset x hx)
  · intro runId row hrow
    have hrow' : db.versions.get? runId = some row := by rwa [h.versions]
    exact (hp.receiptsFor_eq hrow').trans (h.heads runId row hrow)

private theorem Unseen.decide_eq (h : Unseen used db full) (runId : String) (version : Int)
    (status messageId : String) :
    db.decide runId version status messageId = full.decide runId version status messageId := by
  have hcur : currentVersion db runId = currentVersion full runId := by
    rw [h.same]
    rfl
  have hstatus : storedStatus db runId messageId = storedStatus full runId messageId := by
    rw [h.same]
    rfl
  simp only [Db.decide, h.versions, hcur, hstatus]
  by_cases hdup : (full.versions.get? runId).isSome ∧ version = currentVersion full runId
  · -- only here is a receipt looked up, and it is that of the stored version
    obtain ⟨row, hrow⟩ := Option.isSome_iff_exists.mp hdup.1
    have hv : version = row.version := by rw [hdup.2, currentVersion, hrow]; rfl
    rw [if_pos hdup, if_pos hdup, hv, findReceipt_eq, findReceipt_eq, h.heads runId row hrow]
  · rw [if_neg hdup, if_neg hdup]

private theorem Unseen.record (h : Unseen used db full) {a : Record}
    (hfresh : a.receiptId ∉ used) (hlt : currentVersion full a.runId < a.version) :
    (recordApplied db a = .error .overflow ∧ recordApplied full a = .error .overflow) ∨
      (recordApplied db a = .ok (a.receiptId, db.record a) ∧
        recordApplied full a = .ok (a.receiptId, full.record a) ∧
        Unseen (a.receiptId :: used) (db.record a) (full.record a)) := by
  by_cases hfit : fitsInteger a.version ∧ fitsInteger a.epoch
  swap
  · left
    exact ⟨by rw [recordApplied, if_pos hfit], by rw [recordApplied, if_pos hfit]⟩
  right
  have hcur : currentVersion db a.runId = currentVersion full a.runId := by
    rw [h.same]
    rfl
  have hid := h.kept.get?_eq_none hfresh
  have hid' := h.kept_pruned.get?_eq_none hfresh
  obtain ⟨hrec, hkept⟩ := h.kept.recordApplied hfit hfresh hlt
  refine ⟨(h.kept_pruned.recordApplied hfit hfresh (hcur ▸ hlt)).1, hrec, ?_, ?_, ?_, hkept⟩
  · rw [h.same]
    rfl
  · intro x hx
    rw [Db.record, Table.rows_insertNew_of_none hid]
    rw [Db.record, Table.rows_insertNew_of_none hid'] at hx
    rcases List.mem_append.mp hx with hx | hx
    · exact List.mem_append_left _ (h.subset x hx)
    · exact List.mem_append_right _ hx
  · intro runId row hrow
    rw [receiptsFor_record hid, receiptsFor_record hid']
    congr 1
    rw [get?_versions_record] at hrow
    split at hrow
    · next heq =>
      obtain rfl := Option.some.inj hrow
      rw [heq]
      exact (h.kept_pruned.receiptsFor_eq_nil (hcur ▸ hlt)).trans
        (h.kept.receiptsFor_eq_nil hlt).symm
    · exact h.heads runId row hrow

private theorem Unseen.mono (h : Unseen used db full) (id : String) :
    Unseen (id :: used) db full :=
  ⟨h.same, h.subset, h.heads, h.kept.mono id⟩

/-- What two calls on related databases do: both fail alike, or both answer alike and stay
related. -/
def AnswerAlike (used : List String) (r r' : Except BarbError (Reply × Db)) : Prop :=
  (∃ e, r = .error e ∧ r' = .error e) ∨
    ∃ reply db full, r = .ok (reply, db) ∧ r' = .ok (reply, full) ∧ Unseen used db full

/-- **One update is answered alike** by a pruned store and by the unpruned one. -/
theorem upsertRunCard_unseen (h : Unseen used db full) (hfresh : d.receiptId ∉ used) :
    AnswerAlike (d.receiptId :: used) (upsertRunCard env d u db) (upsertRunCard env d u full) := by
  have hraise : raiseFence env d u db =
      (raiseFence env d u full).map fun f => f.withReceipts db.receipts := by
    conv_lhs => rw [h.same]
    exact raiseFence_withReceipts env d u full _
  unfold upsertRunCard
  rw [hraise]
  cases hfull : raiseFence env d u full with
  | error e => exact .inl ⟨e, rfl, rfl⟩
  | ok full₁ =>
    have h₁ : Unseen used (full₁.withReceipts db.receipts) full₁ := by
      apply h.frame
      · rw [raiseFence_frame hfull]
      · rw [raiseFence_frame hfull]
    generalize db.receipts = t at h₁ ⊢
    dsimp only [Except.map, bind, Except.bind]
    have hver : u.resolved (full₁.withReceipts t) = u.resolved full₁ := rfl
    have hread : getMessage (full₁.withReceipts t) u.messageId = getMessage full₁ u.messageId :=
      rfl
    -- the version decision reads receipts of the newest version only, which both have
    rw [hver, h₁.decide_eq, writeCard_withReceipts, hread]
    by_cases happ : (full₁.decide u.runId (u.resolved full₁) u.status u.messageId).outcome =
        .applied
    · rw [if_neg (not_not.mpr happ), if_neg (not_not.mpr happ)]
      cases hwrite : writeCard env d u full₁ with
      | error e => exact .inl ⟨e, rfl, rfl⟩
      | ok r =>
        obtain ⟨msg, full₂⟩ := r
        have hframe := (writeCard_ok_iff.mp hwrite).frame
        have h₂ : Unseen used (full₂.withReceipts t) full₂ := by
          apply h₁.frame
          · rw [hframe]
          · rw [hframe]
        have hlt : currentVersion full₂ u.runId < u.resolved full₁ := by
          have hcur : currentVersion full₂ u.runId = currentVersion full₁ u.runId := by
            rw [hframe]
            rfl
          rw [hcur]
          exact (Db.decide_applied_iff.mp happ).1
        rcases h₂.record (a := u.record d (u.resolved full₁) msg.seq) hfresh hlt with
          ⟨hover, hover'⟩ | ⟨hrec, hrec', h₃⟩
        · left
          refine ⟨.overflow, ?_, ?_⟩
          · simp only [Except.map, hover]
          · simp only [hover']
        · right
          refine ⟨(some msg, ⟨.applied, u.resolved full₁, some d.receiptId⟩), _, _, ?_, ?_, h₃⟩
          · simp only [Except.map, hrec]
            rfl
          · simp only [hrec']
            rfl
    · rw [if_pos happ, if_pos happ]
      cases getMessage full₁ u.messageId with
      | error e => exact .inl ⟨e, rfl, rfl⟩
      | ok card => exact .inr ⟨_, _, _, rfl, rfl, h₁.mono _⟩

/-- One call is answered alike, and the databases stay related, if its prune does not fail. -/
theorem applyRunCardUpdate_unseen (h : Unseen used db full) (hfresh : d.receiptId ∉ used)
    (hcount : ∀ db, ∃ db', countApplied env d db = .ok db') :
    (applyRunCardUpdate env d u db).1 = (applyUnpruned env d u full).1 ∧
      Unseen (d.receiptId :: used) (applyRunCardUpdate env d u db).2
        (applyUnpruned env d u full).2 := by
  unfold applyRunCardUpdate applyUnpruned
  cases checkUpdate u with
  | error e => exact ⟨rfl, h.mono _⟩
  | ok x =>
    simp only [immediateTxn, applyTxn]
    rcases @upsertRunCard_unseen env _ u _ _ _ h hfresh with
      ⟨e, he, he'⟩ | ⟨reply, db', full', hok, hok', h'⟩
    · rw [he, he']
      exact ⟨rfl, h.mono _⟩
    · rw [hok, hok']
      dsimp only [bind, Except.bind]
      by_cases happ : reply.2.outcome = .applied
      · obtain ⟨db'', hprune⟩ := hcount db'
        rw [if_pos happ, hprune]
        exact ⟨rfl, h'.prune (countApplied_pruned hprune)⟩
      · rw [if_neg happ]
        exact ⟨rfl, h'⟩

theorem run_unseen (hlimits : LimitsHold env) {evs : List StoreEvent} {n : ℕ}
    (h : Unseen used db full) (hclock : ∀ ev ∈ evs, StoreEvent.Clocked env ev)
    (hfresh : ∀ id ∈ evs.filterMap StoreEvent.receiptId?, id ∉ used)
    (hnodup : (evs.filterMap StoreEvent.receiptId?).Nodup) :
    (run env evs n db).1 = (runUnpruned env evs full).1 := by
  induction evs generalizing used n db full with
  | nil => rfl
  | cons ev evs ih =>
    obtain ⟨hev, hrest⟩ := List.forall_mem_cons.mp hclock
    cases ev with
    | apply d u =>
      simp only [List.filterMap_cons, StoreEvent.receiptId?, List.mem_cons, forall_eq_or_imp,
        List.nodup_cons] at hfresh hnodup
      obtain ⟨hrep, h'⟩ := @applyRunCardUpdate_unseen env { d with applied := n } u _ _ _ h
        hfresh.1 (hlimits.countApplied_isOk hev)
      have hsame : applyUnpruned env { d with applied := n } u full = applyUnpruned env d u full :=
        rfl
      rw [hsame] at hrep h'
      simp only [run, runUnpruned, hrep]
      congr 1
      refine ih h' hrest ?_ hnodup.2
      intro id hid hmem
      rcases List.mem_cons.mp hmem with rfl | hmem
      · exact hnodup.1 hid
      · exact hfresh.2 id hid hmem
    | prune a =>
      simp only [List.filterMap_cons, StoreEvent.receiptId?] at hfresh hnodup
      simp only [run, runUnpruned]
      refine ih ?_ hrest hfresh hnodup
      cases hp : pruneReceipts a db with
      | error e =>
        rw [immediateTxn, hp]
        exact h
      | ok r =>
        rw [immediateTxn, hp]
        exact h.prune (pruneReceipts_spec (n := r.1) hp).2.2

/-! ### When a prune fails -/

def AppliedReply (r : Except BarbError Reply) : Prop :=
  ∃ card res, r = .ok (card, res) ∧ res.outcome = .applied

/-- A store that applied so many updates that it pruned, at the earliest instant, has proper
limits. -/
theorem limitsHold_of_run {evs : List StoreEvent} {n : ℕ}
    (hevs : ∀ ev ∈ evs, ∃ d u, ev = .apply d u ∧ d.pruneAt = env.since)
    (happ : ∀ r ∈ (run env evs n db).1, AppliedReply r)
    (hn : n < receiptPruneEvery) (hlen : receiptPruneEvery ≤ n + evs.length) :
    LimitsHold env := by
  induction evs generalizing n db with
  | nil =>
    simp only [List.length_nil] at hlen
    omega
  | cons ev evs ih =>
    obtain ⟨⟨d, u, rfl, hclock⟩, hrest⟩ := List.forall_mem_cons.mp hevs
    simp only [run, List.mem_cons, forall_eq_or_imp] at happ
    obtain ⟨⟨card, res, hreply, hout⟩, happ⟩ := happ
    obtain ⟨hcheck, db₁, hup, hcount⟩ := applyRunCardUpdate_ok_iff.mp (Prod.ext hreply rfl)
    rw [if_pos hout] at hcount
    by_cases hlast : receiptPruneEvery ≤ n + 1
    · exact LimitsHold.of_countApplied (d := { d with applied := n }) hlast hclock hcount
    · have hafter : appliedAfter env { d with applied := n } u db = n + 1 := by
        simp only [appliedAfter, hcheck, hup]
        rw [if_pos hout, if_neg hlast]
      rw [hafter] at happ
      refine ih hrest happ (by omega) ?_
      simp only [List.length_cons] at hlen
      omega

/-- The draws of the first update of the run `i`, whose card and receipt have its name. -/
def newRunDraw (now i : ℕ) : Draw :=
  ⟨Json.intText i, Json.intText i, "", "", "", now, 0⟩

/-- The first update of the run `i`. -/
def newRunUpdate (i : ℕ) : CardUpdate where
  threadId := "thread"
  runId := Json.intText i
  messageId := Json.intText i
  status := "queued"
  version := some 1
  bodyMd := ""
  metaDict := []
  author := "role"

/-- The first updates of `n` runs from the run `i` on. -/
def newRuns (now : ℕ) : ℕ → ℕ → List StoreEvent
  | _, 0 => []
  | i, n + 1 => .apply (newRunDraw now i) (newRunUpdate i) :: newRuns now (i + 1) n

/-- The runs from `i` on are unknown to a database. -/
structure Unknown (i : ℕ) (used : List String) (db : Db) : Prop where
  kept : WellKept used db
  receipt : ∀ j ≥ i, Json.intText j ∉ used
  version : ∀ j ≥ i, db.versions.get? (Json.intText j) = none
  message : ∀ j ≥ i, db.messages.get? (Json.intText j) = none

private theorem intText_ne {i j : ℕ} (h : i < j) : Json.intText j ≠ Json.intText i := by
  intro heq
  have := Json.intText_injective heq
  omega

/-- The decision of the first update of a run. -/
private theorem Unknown.decide_applied {i : ℕ} (h : Unknown i used full) :
    (full.decide (newRunUpdate i).runId ((newRunUpdate i).resolved full)
      (newRunUpdate i).status (newRunUpdate i).messageId).outcome = .applied := by
  have hrow : full.versions.get? (newRunUpdate i).runId = none := h.version i le_rfl
  have hmsg : full.messages.get? (newRunUpdate i).messageId = none := h.message i le_rfl
  have hcur : currentVersion full (newRunUpdate i).runId = 0 := by
    rw [currentVersion, hrow]
    rfl
  have hstatus : storedStatus full (newRunUpdate i).runId (newRunUpdate i).messageId = none := by
    rw [storedStatus, hrow]
    simp only [legacyStatus, hmsg]
  rw [Db.decide_applied_iff, hcur, hstatus]
  exact ⟨Int.one_pos, fun h => absurd h (by simp [isTerminal])⟩

/-- **The first update of a run is applied**, and leaves the later runs unknown. -/
private theorem Unknown.apply {i : ℕ} (h : Unknown i used full) (now : ℕ) :
    ∃ reply full', applyUnpruned env (newRunDraw now i) (newRunUpdate i) full =
        (.ok reply, full') ∧ reply.2.outcome = .applied ∧
      Unknown (i + 1) (Json.intText i :: used) full' := by
  have hmsg : full.messages.get? (Json.intText i) = none := h.message i le_rfl
  have hid : (newRunUpdate i).cardId (newRunDraw now i) = Json.intText i := ite_self _
  let m := ((newRunUpdate i).addArgs (newRunDraw now i)).message env.redact (nextSeq full "thread")
  have hwrite := @CardWrite.added env (newRunDraw now i) (newRunUpdate i) full hmsg
    (by rw [hid, hmsg]) role_mem_messageAuthorKinds
  rw [hid] at hwrite
  have hkept : WellKept used (full.insertMessage (Json.intText i) m) :=
    h.kept.frame rfl fun _ hx => hx
  obtain ⟨hrec, hkept'⟩ := hkept.recordApplied
    (a := (newRunUpdate i).record (newRunDraw now i) 1 m.seq) ⟨rfl, rfl⟩ (h.receipt i le_rfl)
    (Db.decide_applied_iff.mp h.decide_applied).1
  have hup := upsertRunCard_ok_iff.mpr ⟨full, rfl, .applied h.decide_applied hwrite hrec⟩
  refine ⟨_, _, immediateTxn_ok.mpr hup, rfl, hkept', ?_, ?_, ?_⟩
  · intro j hj hmem
    rcases List.mem_cons.mp hmem with heq | hmem
    · exact intText_ne hj heq
    · exact h.receipt j (Nat.le_of_succ_le hj) hmem
  · intro j hj
    rw [get?_versions_record]
    exact (if_neg (intText_ne hj)).trans (h.version j (Nat.le_of_succ_le hj))
  · intro j hj
    rw [messages_record, Db.insertMessage, Table.get?_insertNew, if_neg (intText_ne hj)]
    exact h.message j (Nat.le_of_succ_le hj)

private theorem applied_of_newRuns (now n : ℕ) {i : ℕ} (h : Unknown i used full) :
    ∀ r ∈ (runUnpruned env (newRuns now i n) full).1, AppliedReply r := by
  induction n generalizing i used full with
  | zero => exact fun r hr => absurd hr List.not_mem_nil
  | succ n ih =>
    obtain ⟨reply, full', happly, hout, h'⟩ := @Unknown.apply env _ _ _ h now
    simp only [newRuns, runUnpruned, happly]
    exact List.forall_mem_cons.mpr ⟨⟨reply.1, reply.2, rfl, hout⟩, ih h'⟩

private theorem mem_newRuns {now n i : ℕ} {ev : StoreEvent} (h : ev ∈ newRuns now i n) :
    ∃ j ≥ i, ev = .apply (newRunDraw now j) (newRunUpdate j) := by
  induction n generalizing i with
  | zero => exact absurd h List.not_mem_nil
  | succ n ih =>
    rcases List.mem_cons.mp h with rfl | h
    · exact ⟨i, le_rfl, rfl⟩
    · obtain ⟨j, hj, rfl⟩ := ih h
      exact ⟨j, Nat.le_of_succ_le hj, rfl⟩

private theorem nodup_newRuns (now n i : ℕ) :
    ((newRuns now i n).filterMap StoreEvent.receiptId?).Nodup := by
  induction n generalizing i with
  | zero => exact List.nodup_nil
  | succ n ih =>
    refine List.nodup_cons.mpr ⟨fun hmem => ?_, ih (i + 1)⟩
    obtain ⟨ev, hev, hid⟩ := List.mem_filterMap.mp hmem
    obtain ⟨j, hj, rfl⟩ := mem_newRuns hev
    exact intText_ne hj (Option.some.inj hid)

private theorem length_newRuns (now n i : ℕ) : (newRuns now i n).length = n := by
  induction n generalizing i with
  | zero => rfl
  | succ n ih => exact congrArg Nat.succ (ih (i + 1))

/-- **64 runs are not answered alike if a prune fails**: each first update is applied by the store
that never prunes, and the last of them is refused by the one that does. -/
theorem run_newRuns_ne (hno : ¬ LimitsHold env) :
    (run env (newRuns env.since 0 receiptPruneEvery) 0 (.new .empty none)).1 ≠
      (runUnpruned env (newRuns env.since 0 receiptPruneEvery) (.new .empty none)).1 := by
  intro heq
  have hnew : Unknown 0 [] (.new .empty none) :=
    ⟨.new _ _, fun _ _ => List.not_mem_nil, fun _ _ => rfl, fun _ _ => rfl⟩
  have happ := @applied_of_newRuns env _ _ env.since receiptPruneEvery _ hnew
  rw [← heq] at happ
  refine hno (limitsHold_of_run ?_ happ (by decide) (by rw [length_newRuns]; decide))
  intro ev hev
  obtain ⟨j, -, rfl⟩ := mem_newRuns hev
  exact ⟨_, _, rfl, rfl⟩

/-- **When pruning is invisible**: exactly if the limits of the environment can be read, and the
age limit does not reach back before the first year. -/
theorem pruningInvisible_iff (env : Env) : PruningInvisible env ↔ LimitsHold env := by
  constructor
  · intro h
    by_contra hno
    refine run_newRuns_ne hno (h.1 .empty none _ ?_ (nodup_newRuns _ _ _))
    intro ev hev
    obtain ⟨j, -, rfl⟩ := mem_newRuns hev
    exact le_rfl
  · intro hlimits
    refine ⟨fun messages fence evs hclock hnodup =>
      run_unseen hlimits (.new messages fence) hclock (by simp) hnodup, ?_⟩
    intro a db n db' h
    obtain ⟨hbatch, hlen, hpruned⟩ := pruneReceipts_spec h
    exact ⟨hbatch, hlen, fun runId row hrow => hpruned.receiptsFor_eq hrow⟩

/-- The environment with `BARB_RECEIPT_MAX_AGE_DAYS=800000`. -/
def longAgeEnv : Env := { Env.default id with receipts := ⟨"", "800000", plainInt⟩ }

/-- **The first updates of 64 runs are not answered alike** with a receipt age of 800000 days: the
prune in the last one subtracts more days than the calendar has. -/
theorem run_longAge_ne :
    (run longAgeEnv (newRuns longAgeEnv.since 0 64) 0 (.new .empty none)).1 ≠
      (runUnpruned longAgeEnv (newRuns longAgeEnv.since 0 64) (.new .empty none)).1 := by
  refine run_newRuns_ne ?_
  rintro ⟨rows, age, hlimits, hle⟩
  have hread : receiptLimitsFromEnv longAgeEnv.receipts =
      .ok (100000, 800000 * 86400 * 1000000) := by decide +kernel
  obtain ⟨-, rfl⟩ := Prod.mk.inj (Except.ok.inj (hread.symm.trans hlimits))
  exact absurd hle (by decide)

end Barb
