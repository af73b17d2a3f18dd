import Mathlib.Data.List.Sort
import RunnerDashboard.Lib.Json
import RunnerDashboard.Lib.Table

/-!
# The conversation store

Threads and messages, and the calls of `staff/conversations.py` that write them.  Every call holds
the lock of the store, so a call is one step.  The tables carry the constraints of their schema: a
primary key each, and the two unique indexes of the messages.

## Main results

* `addMessage_eq_ok_iff` — a message is added with the next number, or was there with its key.
* `inThread_sorted` — the messages of a thread.
-/

namespace Threads

open Sql

/-! ### Rows -/

/-- `THREAD_KINDS`. -/
inductive ThreadKind
  | direct | group | auto | panel
  deriving DecidableEq, Repr

/-- `THREAD_STATUSES`. -/
inductive ThreadStatus
  | «open» | archived
  deriving DecidableEq, Repr

/-- `MESSAGE_AUTHOR_KINDS`. -/
inductive AuthorKind
  | user | bot | role | system
  deriving DecidableEq, Repr

/-- `MESSAGE_KINDS`. -/
inductive MessageKind
  | text | actionProposal | actionResult | runCard | handoff | status | error
  deriving DecidableEq, Repr

/-- `MESSAGE_DELIVERIES`. -/
inductive Delivery
  | pending | streaming | complete | failed
  deriving DecidableEq, Repr

/-- `ThreadRecord`, without its key. -/
structure Thread where
  title : String
  kind : ThreadKind
  participants : List String
  createdBy : String
  status : ThreadStatus
  lastMessageAt : Option String
  unreadCounters : Table String ℕ
  metaDict : List (String × Json)
  createdAt : String
  updatedAt : String
  epoch : ℕ

/-- `MessageRecord`, without its key. -/
structure Message where
  threadId : String
  seq : ℕ
  authorKind : AuthorKind
  author : String
  kind : MessageKind
  bodyMd : String
  metaDict : List (String × Json)
  runId : String
  idempotencyKey : Option String
  createdAt : String
  delivery : Delivery

/-- Two rows of one thread have two numbers. -/
def SeqDistinct (x y : String × Message) : Prop := x.2.threadId = y.2.threadId → x.2.seq ≠ y.2.seq

/-- Two rows of one thread have two keys, unless they have none. -/
def KeyDistinct (x y : String × Message) : Prop :=
  x.2.threadId = y.2.threadId → ∀ k, x.2.idempotencyKey = some k → y.2.idempotencyKey ≠ some k

instance (x y : String × Message) : Decidable (SeqDistinct x y) := by
  unfold SeqDistinct
  infer_instance

instance (x y : String × Message) : Decidable (KeyDistinct x y) :=
  decidable_of_iff (x.2.threadId = y.2.threadId → x.2.idempotencyKey = y.2.idempotencyKey →
    x.2.idempotencyKey = none) <| by
    unfold KeyDistinct
    cases x.2.idempotencyKey with
    | none => simp
    | some k => simp [eq_comm]

/-- The tables of the conversations, with their unique indexes. -/
structure Store where
  threads : Table String Thread
  messages : Table String Message
  /-- `messages_thread_seq_idx`. -/
  seqs : messages.rows.Pairwise SeqDistinct
  /-- `messages_thread_idempotency_idx`. -/
  keys : messages.rows.Pairwise KeyDistinct

def Store.empty : Store := ⟨.empty, .empty, .nil, .nil⟩

/-- The constraint that a statement violates. -/
inductive Constraint
  /-- `messages.id`. -/
  | messageId
  /-- `messages.thread_id, messages.seq`. -/
  | threadSeq
  /-- `messages.thread_id, messages.idempotency_key`. -/
  | threadKey
  /-- `threads.id`. -/
  | threadId
  deriving DecidableEq, Repr

inductive StoreError
  /-- `sqlite3.IntegrityError`. -/
  | integrity (constraint : Constraint)
  /-- `KeyError`: the turn names a thread that does not exist. -/
  | unknownThread
  /-- `StaleThreadEpochError`. -/
  | staleEpoch
  deriving DecidableEq, Repr

/-- `INSERT INTO messages`. -/
def Store.insertMessage (s : Store) (id : String) (m : Message) : Except StoreError Store :=
  if hid : s.messages.get? id = none then
    if hseq : ∀ x ∈ s.messages.rows, SeqDistinct x (id, m) then
      if hkey : ∀ x ∈ s.messages.rows, KeyDistinct x (id, m) then
        .ok { s with
          messages := s.messages.insertNew id m
          seqs := by
            rw [Table.rows_insertNew_of_none hid, List.pairwise_append]
            exact ⟨s.seqs, List.pairwise_singleton _ _,
              fun x hx y hy => List.mem_singleton.mp hy ▸ hseq x hx⟩
          keys := by
            rw [Table.rows_insertNew_of_none hid, List.pairwise_append]
            exact ⟨s.keys, List.pairwise_singleton _ _,
              fun x hx y hy => List.mem_singleton.mp hy ▸ hkey x hx⟩ }
      else .error (.integrity .threadKey)
    else .error (.integrity .threadSeq)
  else .error (.integrity .messageId)

/-- `UPDATE threads SET … WHERE id = ?`. -/
def Store.setThread (s : Store) (id : String) (f : Thread → Thread) : Store :=
  { s with threads := s.threads.update (fun k _ => k = id) fun _ th => f th }

/-! ### The calls -/

/-- The arguments of `create_thread`, with the identifier and the clock that it reads. -/
structure CreateArgs where
  id : String
  title : String
  kind : ThreadKind
  participants : List String
  createdBy : String
  metaDict : List (String × Json)
  role : Option String
  now : String

/-- The participants of a new thread: those that are given, and the role. -/
def CreateArgs.parts (a : CreateArgs) : List String :=
  match a.role with
  | none => a.participants
  | some role => if role = "" ∨ role ∈ a.participants then a.participants
    else a.participants ++ [role]

/-- `{p: 0 for p in parts}`. -/
def zeroCounters (parts : List String) : Table String ℕ :=
  parts.foldl (fun counters p => counters.put p 0) .empty

section Calls

variable (redact : String → String) (redactMeta : List (String × Json) → List (String × Json))

def CreateArgs.thread (a : CreateArgs) : Thread where
  title := redact a.title
  kind := a.kind
  participants := a.parts
  createdBy := a.createdBy
  status := .open
  lastMessageAt := none
  unreadCounters := zeroCounters a.parts
  metaDict := redactMeta a.metaDict
  createdAt := a.now
  updatedAt := a.now
  epoch := 0

def createThread (s : Store) (a : CreateArgs) : Except StoreError Store :=
  match s.threads.get? a.id with
  | some _ => .error (.integrity .threadId)
  | none => .ok { s with threads := s.threads.insertNew a.id (a.thread redact redactMeta) }

def markThreadRead (s : Store) (threadId principal : String) : Store :=
  match s.threads.get? threadId with
  | none => s
  | some th => s.setThread threadId fun row =>
    { row with unreadCounters := th.unreadCounters.put principal 0 }

/-- The arguments of `add_message`, with the identifier and the clock that it reads. -/
structure AddArgs where
  id : String
  threadId : String
  authorKind : AuthorKind := .user
  author : String := ""
  kind : MessageKind := .text
  bodyMd : String := ""
  metaDict : List (String × Json) := []
  runId : String := ""
  idempotencyKey : Option String := none
  delivery : Delivery := .complete
  turnEpoch : Option ℕ := none
  now : String := ""

/-- The key that is stored: an empty one is none. -/
def AddArgs.key (a : AddArgs) : Option String := a.idempotencyKey.filter (· ≠ "")

/-- `SELECT COALESCE(MAX(seq), 0) FROM messages WHERE thread_id = ?`. -/
def maxSeq (s : Store) (threadId : String) : ℕ :=
  (((s.messages.matching fun _ m => m.threadId = threadId).map fun x => x.2.seq).max?).getD 0

/-- `SELECT * FROM messages WHERE thread_id = ? AND idempotency_key = ?`. -/
def findKey (s : Store) (threadId key : String) : Option (String × Message) :=
  s.messages.rows.find? fun x => x.2.threadId = threadId ∧ x.2.idempotencyKey = some key

/-- The row that is inserted. -/
def AddArgs.message (a : AddArgs) (seq : ℕ) : Message where
  threadId := a.threadId
  seq := seq
  authorKind := a.authorKind
  author := a.author
  kind := a.kind
  bodyMd := redact a.bodyMd
  metaDict := redactMeta a.metaDict
  runId := a.runId
  idempotencyKey := a.key
  createdAt := a.now
  delivery := a.delivery

/-- The counters after a message of an author: one more for every other participant. -/
def countUnread (author : String) (participants : List String) (counters : Table String ℕ) :
    Table String ℕ :=
  participants.foldl (fun counters p =>
    if p ≠ author then counters.put p ((counters.get? p).getD 0 + 1) else counters) counters

def Thread.afterMessage (th : Thread) (author now : String) : Thread :=
  { th with
    lastMessageAt := some now
    updatedAt := now
    unreadCounters := countUnread author th.participants th.unreadCounters }

/-- One attempt of `add_message`: the message that has the key, or a new one. -/
def addAttempt (s : Store) (a : AddArgs) : Except StoreError ((String × Message) × Store) :=
  match a.key.bind (findKey s a.threadId) with
  | some existing => .ok (existing, s)
  | none =>
    let m := a.message redact redactMeta (maxSeq s a.threadId + 1)
    match s.insertMessage a.id m with
    | .error e => .error e
    | .ok s' => .ok ((a.id, m), s'.setThread a.threadId fun th => th.afterMessage a.author a.now)

/-- The attempts; only a number that is taken is tried again. -/
def addLoop (s : Store) (a : AddArgs) : ℕ → Except StoreError ((String × Message) × Store)
  | 0 => addAttempt redact redactMeta s a
  | retries + 1 =>
    match addAttempt redact redactMeta s a with
    | .error (.integrity .threadSeq) => addLoop s a retries
    | result => result

def validateTurnEpoch (s : Store) (threadId : String) (turnEpoch : ℕ) : Except StoreError Unit :=
  match s.threads.get? threadId with
  | none => .error .unknownThread
  | some th => if th.epoch = turnEpoch then .ok () else .error .staleEpoch

def addMessage (s : Store) (a : AddArgs) : Except StoreError ((String × Message) × Store) :=
  match a.turnEpoch.map (validateTurnEpoch s a.threadId) with
  | some (.error e) => .error e
  | _ => addLoop redact redactMeta s a 9

/-- The fields that `update_message` may set. -/
structure MessageUpdate where
  bodyMd : Option String := none
  kind : Option MessageKind := none
  metaDict : Option (List (String × Json)) := none
  delivery : Option Delivery := none
  runId : Option String := none
  turnEpoch : Option ℕ := none

/-- The row with the fields that are given. -/
def Message.updated (m : Message) (u : MessageUpdate) : Message :=
  { m with
    bodyMd := (u.bodyMd.map redact).getD m.bodyMd
    kind := u.kind.getD m.kind
    metaDict := (u.metaDict.map redactMeta).getD m.metaDict
    delivery := u.delivery.getD m.delivery
    runId := u.runId.getD m.runId }

/-- `UPDATE messages SET … WHERE id = ?`, with fields that no index has. -/
def Store.setMessage (s : Store) (id : String) (u : MessageUpdate) : Store :=
  { s with
    messages := s.messages.update (fun k _ => k = id) fun _ m => m.updated redact redactMeta u
    seqs := by
      refine List.pairwise_map.mpr (s.seqs.imp fun {x y} h => ?_)
      unfold SeqDistinct at h ⊢
      split_ifs <;> exact h
    keys := by
      refine List.pairwise_map.mpr (s.keys.imp fun {x y} h => ?_)
      unfold KeyDistinct at h ⊢
      split_ifs <;> exact h }

def isCurrentThreadEpoch (s : Store) (threadId : String) (epoch : ℕ) : Bool :=
  match s.threads.get? threadId with
  | none => false
  | some th => th.epoch = epoch

def updateMessage (s : Store) (id : String) (u : MessageUpdate) : Store :=
  match s.messages.get? id with
  | none => s
  | some m =>
    match u.turnEpoch with
    | none => s.setMessage redact redactMeta id u
    | some epoch =>
      if isCurrentThreadEpoch s m.threadId epoch then s.setMessage redact redactMeta id u else s

end Calls

def Store.inThread (s : Store) (threadId : String) : List (String × Message) :=
  (s.messages.matching fun _ m => m.threadId = threadId).insertionSort fun x y => x.2.seq ≤ y.2.seq

/-- `list_messages`: `seq > since_seq`, ascending, at most `limit`. -/
def listMessages (s : Store) (threadId : String) (limit : ℕ) (sinceSeq : ℕ) :
    List (String × Message) :=
  ((s.messages.matching fun _ m => m.threadId = threadId ∧ sinceSeq < m.seq).insertionSort
    fun x y => x.2.seq ≤ y.2.seq).take limit

/-! ### What the calls do -/

section Lemmas

variable {redact : String → String} {redactMeta : List (String × Json) → List (String × Json)}
  {s s' : Store} {a : AddArgs} {id threadId k : String} {m : Message} {x : String × Message}

theorem insertMessage_eq_ok_iff : s.insertMessage id m = .ok s' ↔
    s.messages.get? id = none ∧ (∀ x ∈ s.messages.rows, SeqDistinct x (id, m)) ∧
      (∀ x ∈ s.messages.rows, KeyDistinct x (id, m)) ∧
      s'.messages = s.messages.insertNew id m ∧ s'.threads = s.threads := by
  unfold Store.insertMessage
  constructor
  · intro h
    split_ifs at h with hid hseq hkey
    obtain rfl := Except.ok.inj h
    exact ⟨hid, hseq, hkey, rfl, rfl⟩
  · rintro ⟨hid, hseq, hkey, hmessages, hthreads⟩
    rw [dif_pos hid, dif_pos hseq, dif_pos hkey]
    obtain ⟨threads, messages, seqs, keys⟩ := s'
    obtain rfl := hmessages
    obtain rfl := hthreads
    rfl

theorem seq_le_maxSeq (hx : x ∈ s.messages.rows) (ht : x.2.threadId = threadId) :
    x.2.seq ≤ maxSeq s threadId := by
  have hmem : x.2.seq ∈ (s.messages.matching fun _ m => m.threadId = threadId).map fun y
    => y.2.seq :=
    List.mem_map.mpr ⟨x, List.mem_filter.mpr ⟨hx, decide_eq_true ht⟩, rfl⟩
  exact List.le_max?_getD_of_mem hmem

theorem seqDistinct_next (hx : x ∈ s.messages.rows) :
    SeqDistinct x (a.id, a.message redact redactMeta (maxSeq s a.threadId + 1)) := by
  intro ht
  have hle : x.2.seq ≤ maxSeq s a.threadId := seq_le_maxSeq hx ht
  show x.2.seq ≠ maxSeq s a.threadId + 1
  omega

theorem findKey_eq_none_iff : findKey s threadId k = none ↔
    ∀ x ∈ s.messages.rows, x.2.threadId = threadId → x.2.idempotencyKey ≠ some k := by
  simp [findKey]

theorem of_findKey (h : findKey s threadId k = some x) :
    x ∈ s.messages.rows ∧ x.2.threadId = threadId ∧ x.2.idempotencyKey = some k := by
  unfold findKey at h
  have hp := List.find?_some h
  exact ⟨List.mem_of_find?_eq_some h, of_decide_eq_true hp⟩

theorem eq_of_key {y : String × Message} (hx : x ∈ s.messages.rows) (hy : y ∈ s.messages.rows)
    (ht : x.2.threadId = y.2.threadId) (hkx : x.2.idempotencyKey = some k)
    (hky : y.2.idempotencyKey = some k) : x = y := by
  by_contra hne
  obtain ⟨before, after, hl⟩ := List.append_of_mem hx
  have hpair := s.keys
  rw [hl] at hpair hy
  obtain ⟨-, hcons, hcross⟩ := List.pairwise_append.mp hpair
  rcases List.mem_append.mp hy with hy | hy
  · exact hcross y hy x List.mem_cons_self ht.symm k hky hkx
  · rcases List.mem_cons.mp hy with rfl | hy
    · exact hne rfl
    · exact List.rel_of_pairwise_cons hcons hy ht k hkx hky

theorem eq_of_seq {y : String × Message} (hx : x ∈ s.messages.rows) (hy : y ∈ s.messages.rows)
    (ht : x.2.threadId = y.2.threadId) (hseq : x.2.seq = y.2.seq) : x = y := by
  by_contra hne
  obtain ⟨before, after, hl⟩ := List.append_of_mem hx
  have hpair := s.seqs
  rw [hl] at hpair hy
  obtain ⟨-, hcons, hcross⟩ := List.pairwise_append.mp hpair
  rcases List.mem_append.mp hy with hy | hy
  · exact hcross y hy x List.mem_cons_self ht.symm hseq.symm
  · rcases List.mem_cons.mp hy with rfl | hy
    · exact hne rfl
    · exact List.rel_of_pairwise_cons hcons hy ht hseq

theorem findKey_eq_some_iff : findKey s threadId k = some x ↔
    x ∈ s.messages.rows ∧ x.2.threadId = threadId ∧ x.2.idempotencyKey = some k := by
  constructor
  · exact of_findKey
  · rintro ⟨hx, ht, hk⟩
    cases hfind : findKey s threadId k with
    | none => exact absurd hk (findKey_eq_none_iff.mp hfind x hx ht)
    | some y =>
      obtain ⟨hy, hty, hky⟩ := of_findKey hfind
      rw [eq_of_key hx hy (ht.trans hty.symm) hk hky]

theorem keyDistinct_of_none (h : a.key.bind (findKey s a.threadId) = none)
    (hx : x ∈ s.messages.rows) (n : ℕ) : KeyDistinct x (a.id, a.message redact redactMeta n) := by
  intro ht k hk hkey
  have hkey : a.key = some k := hkey
  rw [hkey] at h
  exact findKey_eq_none_iff.mp h x hx ht hk

def Store.Added (redact : String → String)
    (redactMeta : List (String × Json) → List (String × Json)) (s : Store) (a : AddArgs)
    (s' : Store) : Prop :=
  s'.messages = s.messages.insertNew a.id (a.message redact redactMeta (maxSeq s a.threadId + 1)) ∧
    s'.threads = s.threads.update (fun k _ => k = a.threadId) fun _ th =>
      th.afterMessage a.author a.now

/-- **One attempt** finds the message with the key, or adds one with the next number. -/
theorem addAttempt_eq_ok_iff : addAttempt redact redactMeta s a = .ok (x, s') ↔
    (a.key.bind (findKey s a.threadId) = some x ∧ s' = s) ∨
    (a.key.bind (findKey s a.threadId) = none ∧ s.messages.get? a.id = none ∧
      x = (a.id, a.message redact redactMeta (maxSeq s a.threadId + 1)) ∧
      s.Added redact redactMeta a s') := by
  unfold addAttempt
  cases hkey : a.key.bind (findKey s a.threadId) with
  | some existing =>
    constructor
    · intro h
      obtain ⟨rfl, rfl⟩ := Prod.mk.inj (Except.ok.inj h)
      exact .inl ⟨rfl, rfl⟩
    · rintro (⟨h, rfl⟩ | ⟨h, -⟩)
      · rw [Option.some.inj h]
      · cases h
  | none =>
    dsimp only
    constructor
    · intro h
      split at h
      · cases h
      · rename_i s₁ hinsert
        obtain ⟨hid, -, -, hmessages, hthreads⟩ := insertMessage_eq_ok_iff.mp hinsert
        obtain ⟨rfl, rfl⟩ := Prod.mk.inj (Except.ok.inj h)
        refine .inr ⟨rfl, hid, rfl, hmessages, ?_⟩
        rw [← hthreads]
        rfl
    · rintro (⟨h, -⟩ | ⟨-, hid, rfl, hmessages, hthreads⟩)
      · cases h
      · have hinsert :
          s.insertMessage a.id (a.message redact redactMeta (maxSeq s a.threadId + 1)) =
            .ok { s' with threads := s.threads } :=
          insertMessage_eq_ok_iff.mpr ⟨hid, fun y hy => seqDistinct_next hy,
            fun y hy => keyDistinct_of_none hkey hy _, hmessages, rfl⟩
        rw [hinsert]
        obtain ⟨threads, messages, seqs, keys⟩ := s'
        obtain rfl := hthreads
        rfl

/-- No attempt meets a number that is taken, so none is made twice. -/
theorem addAttempt_ne_threadSeq :
    addAttempt redact redactMeta s a ≠ .error (.integrity .threadSeq) := by
  have hfree : ∀ x ∈ s.messages.rows,
      SeqDistinct x (a.id, a.message redact redactMeta (maxSeq s a.threadId + 1)) :=
    fun x hx => seqDistinct_next hx
  unfold addAttempt
  cases a.key.bind (findKey s a.threadId) with
  | some existing =>
    intro h
    cases h
  | none =>
    dsimp only
    unfold Store.insertMessage
    by_cases hid : s.messages.get? a.id = none
    · rw [dif_pos hid, dif_pos hfree]
      split_ifs <;> simp
    · simp [hid]

theorem addLoop_eq (n : ℕ) :
    addLoop redact redactMeta s a n = addAttempt redact redactMeta s a := by
  induction n with
  | zero => rfl
  | succ n ih =>
    unfold addLoop
    split
    · exact absurd ‹_› addAttempt_ne_threadSeq
    · rfl

def Store.EpochValid (s : Store) (a : AddArgs) : Prop :=
  ∀ epoch, a.turnEpoch = some epoch → validateTurnEpoch s a.threadId epoch = .ok ()

/-- **`add_message`** finds the message with the key, or adds one with the next number. -/
theorem addMessage_eq_ok_iff : addMessage redact redactMeta s a = .ok (x, s') ↔
    s.EpochValid a ∧ ((a.key.bind (findKey s a.threadId) = some x ∧ s' = s) ∨
    (a.key.bind (findKey s a.threadId) = none ∧ s.messages.get? a.id = none ∧
      x = (a.id, a.message redact redactMeta (maxSeq s a.threadId + 1)) ∧
      s.Added redact redactMeta a s')) := by
  rw [← addAttempt_eq_ok_iff, ← addLoop_eq 9]
  unfold addMessage Store.EpochValid
  cases a.turnEpoch with
  | none => simp
  | some epoch =>
    cases hvalid : validateTurnEpoch s a.threadId epoch with
    | error e => simp [hvalid]
    | ok u => simp [hvalid]

/-! ### The messages of a thread -/

theorem inThread_sorted (s : Store) (threadId : String) :
    (s.inThread threadId).Pairwise fun x y => x.2.seq < y.2.seq := by
  have hle : (s.inThread threadId).Pairwise fun x y => x.2.seq ≤ y.2.seq :=
    List.pairwise_insertionSort _ _
  have hne : (s.inThread threadId).Pairwise fun x y => x.2.seq ≠ y.2.seq := by
    have hrows : (s.messages.matching fun _ m => m.threadId = threadId).Pairwise
        fun x y => x.2.seq ≠ y.2.seq := by
      refine (s.seqs.sublist List.filter_sublist).imp_of_mem ?_
      intro x y hx hy hxy
      have htx := of_decide_eq_true (List.mem_filter.mp hx).2
      have hty := of_decide_eq_true (List.mem_filter.mp hy).2
      exact hxy (htx.trans hty.symm)
    exact (List.perm_insertionSort _ _).symm.pairwise hrows fun h => h.symm
  exact (hle.and hne).imp fun h => lt_of_le_of_ne h.1 h.2

end Lemmas

end Threads
