import RunnerDashboard.AgentBus.Store
import RunnerDashboard.Threads.Store

/-!
# One `add_message`

`add_message` is modelled with the unread counters and the epochs of the threads, with a key alone,
and without one.  All three are the same on the columns of `messages`.

## Main definitions

* `Threads.Message.row` — the columns of a message.
* `Threads.OfStore` — the rows of a database are those of a store.

## Main results

* `Threads.addKeyed_of_addMessage` — **a call on the store is a call on its rows.**
* `AgentBus.addMessage_empty` — an empty key is none.
-/

namespace AgentBus

open Barb

/-- An empty key is none. -/
theorem addMessage_empty (redact : String → String) (db : Db) (id : String) (a : Barb.AddArgs) :
    addMessage redact db id a "" = Barb.addMessage redact db id a := by
  unfold addMessage Barb.addMessage
  by_cases hkind : a.authorKind ∈ messageAuthorKinds
  · rw [if_neg (not_not.mpr hkind), if_neg (not_not.mpr hkind), if_pos rfl]
    unfold insertKeyed
    dsimp only
    cases db.messages.get? id with
    | some m => rfl
    | none =>
      have hd : decodeMeta (a.message redact (nextSeq db a.threadId)).metaText =
          some (redactFields redact a.metaDict) := decodeMeta_dumps _
      rw [fromRow_of_decode hd]
      rfl
  · rw [if_pos hkind, if_pos hkind]

end AgentBus

namespace Threads

open Sql

/-! ### Columns -/

def AuthorKind.value : AuthorKind → String
  | .user => "user"
  | .bot => "bot"
  | .role => "role"
  | .system => "system"

def MessageKind.value : MessageKind → String
  | .text => "text"
  | .actionProposal => "action_proposal"
  | .actionResult => "action_result"
  | .runCard => "run_card"
  | .handoff => "handoff"
  | .status => "status"
  | .error => "error"

def Delivery.value : Delivery → String
  | .pending => "pending"
  | .streaming => "streaming"
  | .complete => "complete"
  | .failed => "failed"

def Message.row (m : Message) : Barb.Message where
  threadId := m.threadId
  seq := m.seq
  authorKind := m.authorKind.value
  author := m.author
  kind := m.kind.value
  bodyMd := m.bodyMd
  metaText := (Json.obj m.metaDict).dumps
  runId := m.runId
  idempotencyKey := m.idempotencyKey
  createdAt := m.createdAt
  delivery := m.delivery.value

def AddArgs.columns (a : AddArgs) : Barb.AddArgs where
  threadId := a.threadId
  authorKind := a.authorKind.value
  author := a.author
  kind := a.kind.value
  bodyMd := a.bodyMd
  metaDict := a.metaDict
  runId := a.runId
  delivery := a.delivery.value
  now := a.now

/-- The rows of a database are those of a store. -/
def OfStore (db : Barb.Db) (s : Store) : Prop :=
  db.messages.rows = s.messages.rows.map fun x => (x.1, x.2.row)

section Columns

variable {redact : String → String} {db : Barb.Db} {s s' : Store} {a : AddArgs}
  {threadId k : String} {x : String × Message}

theorem authorKind_mem (kind : AuthorKind) : kind.value ∈ Barb.messageAuthorKinds := by
  cases kind <;> decide

theorem OfStore.get? (h : OfStore db s) (id : String) :
    db.messages.get? id = (s.messages.get? id).map Message.row := by
  unfold Table.get?
  rw [h]
  induction s.messages.rows with
  | nil => rfl
  | cons x rows ih =>
    rw [List.map_cons, List.lookup_cons, List.lookup_cons, ih]
    split <;> rfl

theorem OfStore.nextSeq (h : OfStore db s) (threadId : String) :
    Barb.nextSeq db threadId = maxSeq s threadId + 1 := by
  have hmax (l : List ℕ) : l.foldl max 0 = l.max?.getD 0 := by
    cases l with
    | nil => rfl
    | cons n l => rw [List.max?_cons', Option.getD_some, List.foldl_cons, Nat.zero_max]
  unfold Barb.nextSeq maxSeq Table.matching
  rw [hmax, h, List.filter_map, List.map_map]
  rfl

theorem OfStore.findKeyed (h : OfStore db s) (threadId k : String) :
    AgentBus.findKeyed db threadId k =
      (findKey s threadId k).map fun x => (x.1, x.2.row) := by
  unfold AgentBus.findKeyed findKey
  rw [h, List.find?_map]
  congr 2
  funext x
  simp [Message.row]

theorem OfStore.insertMessage (h : OfStore db s) {id : String} {m : Message}
    (hnew : s.messages.get? id = none) (hs : s'.messages = s.messages.insertNew id m) :
    OfStore (db.insertMessage id m.row) s' := by
  have hnone : db.messages.get? id = none := by rw [h.get?, hnew, Option.map_none]
  unfold OfStore Barb.Db.insertMessage
  rw [hs, Table.rows_insertNew_of_none hnone, Table.rows_insertNew_of_none hnew, h, List.map_append]
  rfl

theorem OfStore.keyedMessage (h : OfStore db s) (redact : String → String) (a : AddArgs) :
    AgentBus.keyedMessage redact db a.columns (a.key.getD "") =
      (a.message redact (Barb.redactFields redact) (maxSeq s a.threadId + 1)).row := by
  have hkey : (if a.key.getD "" = "" then none else some (a.key.getD "")) = a.key := by
    cases hk : a.key with
    | none => rfl
    | some k => exact if_neg (of_decide_eq_true (Option.filter_eq_some_iff.mp hk).2)
  unfold AgentBus.keyedMessage
  rw [hkey, show Barb.nextSeq db a.columns.threadId = _ from h.nextSeq a.threadId]
  rfl

/-- **A call on the store is a call on its rows**: it answers with the same message, and leaves the
rows of the store that it leaves. -/
theorem addKeyed_of_addMessage (h : OfStore db s)
    (hadd : addMessage redact (Barb.redactFields redact) s a = .ok (x, s')) :
    ∃ db', AgentBus.addMessage redact db a.id a.columns (a.key.getD "") =
      .ok (x.2.row.record x.1 x.2.metaDict, db') ∧ OfStore db' s' := by
  have hkind : ¬ a.columns.authorKind ∉ Barb.messageAuthorKinds :=
    not_not.mpr (authorKind_mem a.authorKind)
  obtain ⟨-, hcases⟩ := addMessage_eq_ok_iff.mp hadd
  unfold AgentBus.addMessage
  rw [if_neg hkind]
  rcases hcases with ⟨hfound, rfl⟩ | ⟨hnone, hnew, rfl, hmessages, -⟩
  · -- the message that has the key
    obtain ⟨k, hk, hfind⟩ := Option.bind_eq_some_iff.mp hfound
    have hne : k ≠ "" := of_decide_eq_true (Option.filter_eq_some_iff.mp hk).2
    rw [hk, Option.getD_some, if_neg hne,
      show AgentBus.findKeyed db a.columns.threadId k = _ from h.findKeyed a.threadId k, hfind]
    have hd : Barb.decodeMeta x.2.row.metaText = some x.2.metaDict := Barb.decodeMeta_dumps _
    refine ⟨db, ?_, h⟩
    rw [Option.map_some]
    dsimp only
    rw [Barb.fromRow_of_decode hd]
    rfl
  · have hinsert : AgentBus.insertKeyed redact db a.id a.columns (a.key.getD "") =
        .ok ((a.message redact (Barb.redactFields redact) (maxSeq s a.threadId + 1)).row.record a.id
          (Barb.redactFields redact a.metaDict), db.insertMessage a.id
            (a.message redact (Barb.redactFields redact) (maxSeq s a.threadId + 1)).row) := by
      unfold AgentBus.insertKeyed
      rw [h.get?, hnew, h.keyedMessage redact a]
      rfl
    refine ⟨_, ?_, h.insertMessage hnew hmessages⟩
    cases hk : a.key with
    | none =>
      rw [hk] at hinsert
      rw [Option.getD_none] at hinsert ⊢
      rw [if_pos rfl]
      exact hinsert
    | some k =>
      have hne : k ≠ "" := of_decide_eq_true (Option.filter_eq_some_iff.mp hk).2
      rw [hk] at hnone hinsert
      rw [Option.getD_some, if_neg hne, show AgentBus.findKeyed db a.columns.threadId k = _ from
        h.findKeyed a.threadId k, show findKey s a.threadId k = none from hnone]
      exact hinsert

end Columns

end Threads
