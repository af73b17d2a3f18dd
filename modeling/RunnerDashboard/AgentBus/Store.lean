import RunnerDashboard.Barb.Conversation
import RunnerDashboard.Lib.PyStr

/-!
# The agent bus

`AgentBusStore.send` puts a message into the inbox of an address and into the conversation thread
of its work item.  A blocked report to someone else is mirrored to Barb under a derived key.

The inbox is keyed by the session and its idempotency key, the thread by the thread and the key.

## Main results

* `post_ok` — what a message in a thread is: the one with its key, or a new one.
* `Grows` — rows and messages are never lost.
-/

namespace AgentBus

open Sql Barb

/-! ### Requests -/

/-- The types of a message, `MSG_TYPES`. -/
inductive MsgType
  | request
  | status
  | handoff
  | blocked
  deriving DecidableEq, Repr

def MsgType.text : MsgType → String
  | .request => "request"
  | .status => "status"
  | .handoff => "handoff"
  | .blocked => "blocked"

/-- `WORK_KINDS`. -/
inductive WorkKind
  | issue
  | pr
  deriving DecidableEq, Repr

def WorkKind.text : WorkKind → String
  | .issue => "issue"
  | .pr => "pr"

/-- `SendBody`, validated. -/
structure SendBody where
  session : String
  to_ : String
  type : MsgType
  repo : String
  workKind : WorkKind
  workNumber : ℕ
  body : String
  idempotencyKey : String
  eight_le_key : 8 ≤ idempotencyKey.length

def SendBody.key (body : SendBody) : String × String := (body.session, body.idempotencyKey)

def SendBody.barbKey (body : SendBody) : String := body.idempotencyKey ++ "-barb"

def maxBody : ℕ := 4000

def barbRole : String := "barb"

/-- What a send reads from outside: the redactor, `datetime.fromisoformat` of the text of a lease,
and the number that a text of digits is. -/
structure Env where
  redact : String → String
  instant : String → Option Int
  digits : String → Option ℕ

def bareRepo (value : String) : Option String :=
  if ['.', '.'] <:+: value.toList then none
  else some (String.ofList (value.toList.reverse.takeWhile (· ≠ '/')).reverse)

/-- `normalize_to_address`; `none` where it raises. -/
def normalizeToAddress (digits : String → Option ℕ) (raw : String) : Option String :=
  let text := Py.strip raw
  if '#' ∈ text.toList then
    let repo := String.ofList (text.toList.takeWhile (· ≠ '#'))
    let num := String.ofList ((text.toList.dropWhile (· ≠ '#')).drop 1)
    if repo = "" then none
    else match digits num, bareRepo repo with
      | some n, some bare => some (bare ++ "#" ++ toString n)
      | _, _ => none
  else if text = "" ∨ 128 < text.length then none
  else some text

/-! ### The tables -/

/-- `PrincipalRow`, as far as a send reads it. -/
structure PrincipalRow where
  role : String
  leaseExpiresAt : String
  deriving DecidableEq, Repr

def PrincipalRow.live (instant : String → Option Int) (now : Int) (row : PrincipalRow) : Bool :=
  match instant row.leaseExpiresAt with
  | some exp => now < exp
  | none => false

/-- A row of `agent_bus_inbox`, but for its session and key. -/
structure InboxRow where
  messageId : String
  cursor : ℕ
  toAddress : String
  msgType : MsgType
  repo : String
  workKind : WorkKind
  workNumber : ℕ
  bodyMd : String
  threadId : String
  threadMessageId : String
  createdAt : String
  ackedAt : Option String := none
  deriving DecidableEq, Repr

/-- A row of `threads`, as far as a send reads and writes it. -/
structure Thread where
  title : String
  kind : String
  participants : List String
  createdBy : String
  metaText : String
  deriving DecidableEq, Repr

/-- The sessions, the inbox, and the conversation store. -/
structure Bus where
  principals : Table String PrincipalRow
  inbox : Table (String × String) InboxRow
  threads : Table String Thread
  db : Db

def Bus.empty : Bus := ⟨.empty, .empty, .empty, .empty⟩

inductive SendError
  /-- `ValueError`. -/
  | value
  /-- `RuntimeError` of `require_live`. -/
  | notLive
  /-- What the conversation store raises. -/
  | conversation (e : BarbError)
  /-- `sqlite3.IntegrityError`. -/
  | integrity
  /-- `OverflowError`: an integer that no `INTEGER` column holds. -/
  | overflow
  deriving DecidableEq, Repr

/-- What a call draws: the ids of the thread message and of the inbox row, and its clock. -/
structure Ids where
  threadMessageId : String
  messageId : String
  threadAt : String
  storedAt : String

/-! ### Threads -/

def workThreadId (repo : String) (number : ℕ) : String :=
  "wi-" ++ String.ofList (repo.toList.map fun c => if c = '/' then '-' else c) ++ "-" ++
    toString number

def SendBody.threadId (body : SendBody) : String := workThreadId body.repo body.workNumber

def newWorkItemThreadMeta (body : SendBody) : List (String × Json) :=
  [("agent_bus_work_item", .bool true), ("repo", .str body.repo), ("number", .num body.workNumber),
    ("work_kind", .str body.workKind.text), ("handoff_document", .null)]

def ensureHandoffDocumentSlot (fields : List (String × Json)) : List (String × Json) :=
  if (fields.lookup "agent_bus_work_item").any Json.truthy = false then fields
  else if (fields.lookup "handoff_document").isSome then fields
  else fields ++ [("handoff_document", .null)]

section Redact

variable (redact : String → String)

/-- The thread that `ensure_work_thread` makes. -/
def newThread (body : SendBody) : Thread where
  title := redact (body.repo ++ "#" ++ toString body.workNumber ++ " (" ++
    body.workKind.text ++ ")")
  kind := "auto"
  participants := ["barb"]
  createdBy := "agent-bus"
  metaText := (Json.obj (redactFields redact (newWorkItemThreadMeta body))).dumps

/-- `ensure_work_thread`; a thread that has its slot is not written. -/
def ensureWorkThread (body : SendBody) (w : Bus) : Except SendError String × Bus :=
  match w.threads.get? body.threadId with
  | some thread =>
    match decodeMeta thread.metaText with
    | none => (.error (.conversation (.value "the meta column is not a JSON object")), w)
    | some fields =>
      if (ensureHandoffDocumentSlot fields).length = fields.length then (.ok body.threadId, w)
      else
        let metaText := redact (Json.obj (ensureHandoffDocumentSlot fields)).dumps
        let w' := { w with
          threads := w.threads.put body.threadId { thread with metaText := metaText } }
        match decodeMeta metaText with
        | none => (.error (.conversation (.value "the meta column is not a JSON object")), w')
        | some _ => (.ok body.threadId, w')
  | none =>
    (.ok body.threadId,
      { w with threads := w.threads.insertNew body.threadId (newThread redact body) })

/-! ### Messages -/

def findKeyed (db : Db) (threadId key : String) : Option (String × Message) :=
  db.messages.rows.find? fun x => x.2.threadId = threadId && x.2.idempotencyKey = some key

/-- The row that `add_message` inserts. -/
def keyedMessage (db : Db) (a : AddArgs) (key : String) : Message :=
  { a.message redact (nextSeq db a.threadId) with
    idempotencyKey := if key = "" then none else some key }

/-- `INSERT INTO messages`, and the record of the row. -/
def insertKeyed (db : Db) (id : String) (a : AddArgs) (key : String) :
    Except BarbError (MessageRecord × Db) :=
  match db.messages.get? id with
  | some _ => .error .integrity
  | none =>
    .ok ((keyedMessage redact db a key).record id (redactFields redact a.metaDict),
      db.insertMessage id (keyedMessage redact db a key))

/-- `add_message` with an idempotency key: the message that has the key, or a new one. -/
def addMessage (db : Db) (id : String) (a : AddArgs) (key : String) :
    Except BarbError (MessageRecord × Db) :=
  if a.authorKind ∉ messageAuthorKinds then
    .error (.assertion ("Invalid author_kind: " ++ a.authorKind))
  else if key = "" then insertKeyed redact db id a key
  else match findKeyed db a.threadId key with
    | some (id', m) => (fromRow id' m).map fun record => (record, db)
    | none => insertKeyed redact db id a key

def SendBody.addArgs (body : SendBody) (d : Ids) (sender : PrincipalRow) (toAddress kind : String) :
    AddArgs where
  threadId := body.threadId
  authorKind := "role"
  author := sender.role
  kind := kind
  bodyMd := body.body
  metaDict :=
    [("agent_bus", .bool true), ("type", .str body.type.text), ("repo", .str body.repo),
      ("work_kind", .str body.workKind.text), ("work_number", .num body.workNumber),
        ("to", .str toAddress),
      ("from_session", .str body.session), ("from_role", .str sender.role)]
  runId := ""
  delivery := "complete"
  now := d.threadAt

theorem SendBody.addArgs_threadId (body : SendBody) (d : Ids) (sender : PrincipalRow)
    (toAddress kind : String) :
      (body.addArgs d sender toAddress kind).threadId = body.threadId := rfl

/-- The message is put into the thread of its work item; the id of the message in the thread. -/
def post (d : Ids) (sender : PrincipalRow) (toAddress kind key : String)
    (body : SendBody) (w : Bus) :
    Except SendError String × Bus :=
  match ensureWorkThread redact body w with
  | (.error e, w') => (.error e, w')
  | (.ok _, w') =>
    match addMessage redact w'.db d.threadMessageId (body.addArgs d sender toAddress kind) key with
    | .error e => (.error (.conversation e), w')
    | .ok (record, db) => (.ok record.id, { w' with db := db })

end Redact

/-! ### Sends -/

/-- `INSERT INTO agent_bus_inbox`. -/
def insertInbox (key : String × String) (row : InboxRow) (w : Bus) : Except SendError Bus :=
  if 2 ^ 63 ≤ row.workNumber then .error .overflow
  else if (w.inbox.get? key).isSome ∨ row.messageId ∈ w.inbox.rows.map (fun x => x.2.messageId) then
    .error .integrity
  else .ok { w with inbox := w.inbox.insertNew key row }

def SendBody.row (body : SendBody) (d : Ids) (toAddress : String) (type : MsgType)
    (threadMessageId : String) (w : Bus) : InboxRow where
  messageId := d.messageId
  cursor := w.inbox.rows.length + 1
  toAddress := toAddress
  msgType := type
  repo := body.repo
  workKind := body.workKind
  workNumber := body.workNumber
  bodyMd := body.body
  threadId := body.threadId
  threadMessageId := threadMessageId
  createdAt := d.storedAt

/-- What a send answers: the message, and whether it was there. -/
structure Reply where
  message : InboxRow
  replayed : Bool
  deriving DecidableEq, Repr

def SendBody.msgKind (body : SendBody) : String :=
  if body.type = .handoff ∨ body.type = .status then body.type.text else "text"

section Send

variable (E : Env)

/-- The critical section of `send`. -/
def accept (d : Ids) (sender : PrincipalRow) (toAddress : String) (body : SendBody) (w : Bus) :
    Except SendError Reply × Bus :=
  match w.inbox.get? body.key with
  | some row => (.ok ⟨row, true⟩, w)
  | none =>
    match post E.redact d sender toAddress body.msgKind body.idempotencyKey body w with
    | (.error e, w') => (.error e, w')
    | (.ok threadMessageId, w') =>
      match insertInbox body.key (body.row d toAddress body.type threadMessageId w') w' with
      | .ok w'' => (.ok ⟨body.row d toAddress body.type threadMessageId w', false⟩, w'')
      | .error .integrity =>
        match w'.inbox.get? body.key with
        | some row => (.ok ⟨row, true⟩, w')
        | none => (.error .integrity, w')
      | .error e => (.error e, w')

def mirrorBlockedToBarb (d : Ids) (sender : PrincipalRow) (body : SendBody) (w : Bus) :
    Except SendError Unit × Bus :=
  match w.inbox.get? (body.session, body.barbKey) with
  | some _ => (.ok (), w)
  | none =>
    match post E.redact d sender barbRole "text" body.barbKey body w with
    | (.error e, w') => (.error e, w')
    | (.ok _, w') =>
      match insertInbox (body.session, body.barbKey) (body.row d barbRole .blocked "" w') w' with
      | .ok w'' => (.ok (), w'')
      | .error e => (.error e, w')

def requireLive (now : Int) (session : String) (w : Bus) : Except SendError PrincipalRow :=
  match w.principals.get? session with
  | none => .error .notLive
  | some row => if row.live E.instant now then .ok row else .error .notLive

/-- What is checked before the critical section: the sender, and the address. -/
def receive (now : Int) (body : SendBody) (w : Bus) : Except SendError (PrincipalRow × String) :=
  if maxBody < body.body.utf8ByteSize then .error .value
  else match requireLive E now body.session w with
    | .error e => .error e
    | .ok sender =>
      match normalizeToAddress E.digits body.to_ with
      | none => .error .value
      | some toAddress => .ok (sender, toAddress)

def SendBody.mirrors (body : SendBody) (toAddress : String) : Bool :=
  body.type = .blocked ∧ toAddress ≠ barbRole

/-- `send`, with the ids of the message and of its mirror. -/
def send (now : Int) (d m : Ids) (body : SendBody) (w : Bus) : Except SendError Reply × Bus :=
  match receive E now body w with
  | .error e => (.error e, w)
  | .ok (sender, toAddress) =>
    match accept E d sender toAddress body w with
    | (.error e, w') => (.error e, w')
    | (.ok reply, w') =>
      if reply.replayed = false ∧ body.mirrors toAddress = true then
        match mirrorBlockedToBarb E m sender body w' with
        | (.error e, w'') => (.error e, w'')
        | (.ok (), w'') => (.ok reply, w'')
      else (.ok reply, w')

end Send

/-! ### Rows and messages are kept -/

/-- Every row of the inbox and every message is still there. -/
structure Grows (w w' : Bus) : Prop where
  inbox : ∀ k row, w.inbox.get? k = some row → w'.inbox.get? k = some row
  messages : ∀ id m, w.db.messages.get? id = some m → w'.db.messages.get? id = some m

section Spec

variable {redact : String → String} {E : Env} {d m : Ids} {sender : PrincipalRow}
  {toAddress kind key : String} {body : SendBody} {w w' w'' : Bus} {reply : Reply} {now : Int}

theorem Grows.refl (w : Bus) : Grows w w := ⟨fun _ _ h => h, fun _ _ h => h⟩

theorem Grows.trans (h : Grows w w') (h' : Grows w' w'') : Grows w w'' :=
  ⟨fun k row hrow => h'.inbox k row (h.inbox k row hrow),
    fun id m hm => h'.messages id m (h.messages id m hm)⟩

/-- The statement about threads touches nothing else. -/
theorem ensureWorkThread_frame (redact : String → String) (body : SendBody) (w : Bus) :
    (ensureWorkThread redact body w).2.inbox = w.inbox ∧
      (ensureWorkThread redact body w).2.db = w.db := by
  unfold ensureWorkThread
  cases w.threads.get? body.threadId with
  | none => exact ⟨rfl, rfl⟩
  | some thread =>
    dsimp only
    cases decodeMeta thread.metaText with
    | none => exact ⟨rfl, rfl⟩
    | some fields =>
      dsimp only
      split_ifs
      · exact ⟨rfl, rfl⟩
      · cases decodeMeta (redact (Json.obj (ensureHandoffDocumentSlot fields)).dumps) with
        | none => exact ⟨rfl, rfl⟩
        | some fields' => exact ⟨rfl, rfl⟩

theorem insertKeyed_ok {db db' : Db} {id : String} {a : AddArgs} {record : MessageRecord}
    (h : insertKeyed redact db id a key = .ok (record, db')) :
    record.id = id ∧ db.messages.get? id = none ∧
      db' = db.insertMessage id (keyedMessage redact db a key) := by
  unfold insertKeyed at h
  cases hid : db.messages.get? id with
  | some m =>
    rw [hid] at h
    cases h
  | none =>
    rw [hid] at h
    obtain ⟨rfl, rfl⟩ := Prod.mk.inj (Except.ok.inj h)
    exact ⟨rfl, rfl, rfl⟩

/-- **An added message** is the message that has the key, or a new one. -/
theorem addMessage_ok {db db' : Db} {id : String} {a : AddArgs} {record : MessageRecord}
    (hkey : key ≠ "") (h : addMessage redact db id a key = .ok (record, db')) :
    (∃ m, findKeyed db a.threadId key = some (record.id, m) ∧ db' = db) ∨
      (findKeyed db a.threadId key = none ∧ record.id = id ∧ db.messages.get? id = none ∧
        db' = db.insertMessage id (keyedMessage redact db a key)) := by
  unfold addMessage at h
  split_ifs at h
  cases hfound : findKeyed db a.threadId key with
  | none =>
    rw [hfound] at h
    exact .inr ⟨rfl, insertKeyed_ok h⟩
  | some x =>
    obtain ⟨id', m⟩ := x
    rw [hfound] at h
    dsimp only at h
    cases hrow : fromRow id' m with
    | error e =>
      rw [hrow] at h
      cases h
    | ok r =>
      rw [hrow] at h
      obtain ⟨rfl, rfl⟩ := Prod.mk.inj (Except.ok.inj h)
      obtain ⟨fields, -, rfl⟩ := fromRow_ok_iff.mp hrow
      exact .inl ⟨m, rfl, rfl⟩

/-- The message of a send is the message of its thread that has the key, or a new one. -/
theorem post_ok {id : String} (hkey : key ≠ "")
    (h : post redact d sender toAddress kind key body w = (.ok id, w')) :
    w'.inbox = w.inbox ∧
      ((∃ m, findKeyed w.db body.threadId key = some (id, m) ∧ w'.db = w.db) ∨
        (findKeyed w.db body.threadId key = none ∧ id = d.threadMessageId ∧
          w.db.messages.get? id = none ∧
          w'.db = w.db.insertMessage id
            (keyedMessage redact w.db (body.addArgs d sender toAddress kind) key))) := by
  obtain ⟨hinbox, hdb⟩ := ensureWorkThread_frame redact body w
  unfold post at h
  cases hthread : ensureWorkThread redact body w with
  | mk r w₁ =>
    rw [hthread] at h hinbox hdb
    dsimp only at h hinbox hdb
    cases r with
    | error e => cases h
    | ok _ =>
      dsimp only at h
      rw [hdb] at h
      cases hadd : addMessage redact w.db d.threadMessageId
          (body.addArgs d sender toAddress kind) key with
      | error e =>
        rw [hadd] at h
        cases h
      | ok x =>
        obtain ⟨record, db⟩ := x
        rw [hadd] at h
        obtain ⟨hid, rfl⟩ := Prod.mk.inj h
        obtain rfl := Except.ok.inj hid
        refine ⟨hinbox, ?_⟩
        rcases addMessage_ok hkey hadd with hold | ⟨hnone, hrec, hfresh, rfl⟩
        · exact .inl hold
        · rw [hrec]
          exact .inr ⟨hnone, rfl, hfresh, rfl⟩

theorem SendBody.idempotencyKey_ne_empty (body : SendBody) : body.idempotencyKey ≠ "" := by
  intro h
  have hlen := body.eight_le_key
  rw [h] at hlen
  exact absurd hlen (by decide)

theorem SendBody.barbKey_ne_empty (body : SendBody) : body.barbKey ≠ "" := by
  intro h
  have hlen : body.idempotencyKey.length + 5 = 0 := by
    have := congrArg String.length h
    rwa [SendBody.barbKey, String.length_append] at this
  omega

/-- A message that was not put into its thread left the inbox and the messages as they were. -/
theorem post_error {e : SendError}
    (h : post redact d sender toAddress kind key body w = (.error e, w')) :
    w'.inbox = w.inbox ∧ w'.db = w.db := by
  have hframe := ensureWorkThread_frame redact body w
  unfold post at h
  cases hthread : ensureWorkThread redact body w with
  | mk r w₁ =>
    rw [hthread] at h hframe
    cases r with
    | error e' =>
      obtain ⟨-, rfl⟩ := Prod.mk.inj h
      exact hframe
    | ok _ =>
      dsimp only at h
      cases hadd : addMessage redact w₁.db d.threadMessageId
          (body.addArgs d sender toAddress kind) key with
      | error e' =>
        rw [hadd] at h
        obtain ⟨-, rfl⟩ := Prod.mk.inj h
        exact hframe
      | ok x =>
        rw [hadd] at h
        cases h

/-- The inbox is left as it was by what is put into a thread, and no message is lost. -/
theorem post_frame (redact : String → String) (d : Ids) (sender : PrincipalRow)
    (toAddress kind : String) (hkey : key ≠ "") (body : SendBody) (w : Bus) :
    (post redact d sender toAddress kind key body w).2.inbox = w.inbox ∧
      Grows w (post redact d sender toAddress kind key body w).2 := by
  cases hpost : post redact d sender toAddress kind key body w with
  | mk r w' =>
    cases r with
    | error e =>
      obtain ⟨hinbox, hdb⟩ := post_error hpost
      refine ⟨hinbox, ⟨fun k row hrow => ?_, fun id m hm => ?_⟩⟩
      · rwa [hinbox]
      · rwa [hdb]
    | ok id =>
      obtain ⟨hinbox, hcases⟩ := post_ok hkey hpost
      refine ⟨hinbox, ⟨fun k row hrow => ?_, fun id' m hm => ?_⟩⟩
      · rwa [hinbox]
      · rcases hcases with ⟨-, -, hdb⟩ | ⟨-, -, -, hdb⟩
        · rwa [hdb]
        · rw [hdb]
          exact Table.get?_insertNew_of_some hm

theorem insertInbox_ok {k : String × String} {row : InboxRow} (h : insertInbox k row w = .ok w') :
    w.inbox.get? k = none ∧ w' = { w with inbox := w.inbox.insertNew k row } := by
  unfold insertInbox at h
  split_ifs at h with hfits hold
  refine ⟨?_, (Except.ok.inj h).symm⟩
  exact Option.not_isSome_iff_eq_none.mp fun hsome => hold (.inl hsome)

theorem workNumber_of_insertInbox {k : String × String} {row : InboxRow}
    (h : insertInbox k row w = .ok w') : row.workNumber < 2 ^ 63 := by
  unfold insertInbox at h
  split_ifs at h with hbig
  exact Nat.lt_of_not_le hbig

theorem insertInbox_grows {k : String × String} {row : InboxRow}
    (h : insertInbox k row w = .ok w') : Grows w w' := by
  obtain ⟨-, rfl⟩ := insertInbox_ok h
  exact ⟨fun k' row' hrow => Table.get?_insertNew_of_some hrow, fun id m hm => hm⟩

theorem insertInbox_of_new {k : String × String} (row : InboxRow) (hnone : w.inbox.get? k = none)
    (hid : row.messageId ∉ w.inbox.rows.map fun x => x.2.messageId)
    (hnumber : row.workNumber < 2 ^ 63) :
    insertInbox k row w = .ok { w with inbox := w.inbox.insertNew k row } := by
  unfold insertInbox
  rw [if_neg (Nat.not_le.mpr hnumber), hnone, if_neg]
  rintro (hsome | hmem)
  · cases hsome
  · exact hid hmem

theorem get?_insertInbox {k : String × String} {row : InboxRow} (h : insertInbox k row w = .ok w') :
    w'.inbox.get? k = some row := by
  obtain ⟨hnone, rfl⟩ := insertInbox_ok h
  change (w.inbox.insertNew k row).get? k = some row
  rw [Table.get?_insertNew, if_pos rfl, hnone, Option.getD_none]

/-- **What the critical section does**: answer with the row that has the key, or put the message
into its thread and then into the inbox. -/
theorem accept_ok (h : accept E d sender toAddress body w = (.ok reply, w')) :
    (w.inbox.get? body.key = some reply.message ∧ reply.replayed = true ∧ w' = w) ∨
      (w.inbox.get? body.key = none ∧ reply.replayed = false ∧ ∃ id w₁,
        post E.redact d sender toAddress body.msgKind body.idempotencyKey body w = (.ok id, w₁) ∧
        reply.message = body.row d toAddress body.type id w₁ ∧
        insertInbox body.key reply.message w₁ = .ok w') := by
  unfold accept at h
  cases hrow : w.inbox.get? body.key with
  | some row =>
    rw [hrow] at h
    obtain ⟨hreply, rfl⟩ := Prod.mk.inj h
    obtain rfl := Except.ok.inj hreply
    exact .inl ⟨rfl, rfl, rfl⟩
  | none =>
    rw [hrow] at h
    dsimp only at h
    have hinbox := (post_frame E.redact d sender toAddress body.msgKind
      body.idempotencyKey_ne_empty body w).1
    cases hpost : post E.redact d sender toAddress body.msgKind body.idempotencyKey body w with
    | mk r w₁ =>
      rw [hpost] at h hinbox
      cases r with
      | error e => cases h
      | ok id =>
        dsimp only at h hinbox
        cases hins : insertInbox body.key (body.row d toAddress body.type id w₁) w₁ with
        | ok w₂ =>
          rw [hins] at h
          obtain ⟨hreply, rfl⟩ := Prod.mk.inj h
          obtain rfl := Except.ok.inj hreply
          exact .inr ⟨rfl, rfl, id, w₁, rfl, rfl, hins⟩
        | error e =>
          -- no row has the key, so an integrity error is no replay
          rw [hins, hinbox, hrow] at h
          cases e <;> cases h

theorem get?_of_accept (h : accept E d sender toAddress body w = (.ok reply, w')) :
    w'.inbox.get? body.key = some reply.message := by
  rcases accept_ok h with ⟨hrow, -, rfl⟩ | ⟨-, -, id, w₁, -, -, hins⟩
  · exact hrow
  · exact get?_insertInbox hins

/-- A critical section that fails leaves the inbox as it was. -/
theorem accept_error {e : SendError} (h : accept E d sender toAddress body w = (.error e, w')) :
    w'.inbox = w.inbox := by
  have hinbox := (post_frame E.redact d sender toAddress body.msgKind
    body.idempotencyKey_ne_empty body w).1
  unfold accept at h
  cases hrow : w.inbox.get? body.key with
  | some row =>
    rw [hrow] at h
    cases h
  | none =>
    rw [hrow] at h
    dsimp only at h
    cases hpost : post E.redact d sender toAddress body.msgKind body.idempotencyKey body w with
    | mk r w₁ =>
      rw [hpost] at h hinbox
      cases r with
      | error e' =>
        obtain ⟨-, rfl⟩ := Prod.mk.inj h
        exact hinbox
      | ok id =>
        dsimp only at h hinbox
        cases hins : insertInbox body.key (body.row d toAddress body.type id w₁) w₁ with
        | ok w₂ =>
          rw [hins] at h
          cases h
        | error e' =>
          rw [hins, hinbox, hrow] at h
          cases e' <;> exact (Prod.mk.inj h).2 ▸ hinbox

theorem accept_grows (E : Env) (d : Ids) (sender : PrincipalRow) (toAddress : String)
    (body : SendBody) (w : Bus) : Grows w (accept E d sender toAddress body w).2 := by
  have hframe := (post_frame E.redact d sender toAddress body.msgKind
    body.idempotencyKey_ne_empty body w).2
  unfold accept
  cases w.inbox.get? body.key with
  | some row => exact .refl w
  | none =>
    dsimp only
    cases hpost : post E.redact d sender toAddress body.msgKind body.idempotencyKey body w with
    | mk r w₁ =>
      rw [hpost] at hframe
      cases r with
      | error e => exact hframe
      | ok id =>
        dsimp only
        cases hins : insertInbox body.key (body.row d toAddress body.type id w₁) w₁ with
        | ok w₂ => exact hframe.trans (insertInbox_grows hins)
        | error e =>
          cases e with
          | integrity =>
            dsimp only
            cases w₁.inbox.get? body.key with
            | some row => exact hframe
            | none => exact hframe
          | value => exact hframe
          | notLive => exact hframe
          | conversation e => exact hframe
          | overflow => exact hframe

theorem grows_of_accept {r : Except SendError Reply}
    (h : accept E d sender toAddress body w = (r, w')) : Grows w w' := by
  have hgrows := accept_grows E d sender toAddress body w
  rwa [h] at hgrows

/-- **What the mirror does**: nothing, if its key is taken, or a row to Barb. -/
theorem mirror_ok (h : mirrorBlockedToBarb E m sender body w = (.ok (), w')) :
    ((w.inbox.get? (body.session, body.barbKey)).isSome = true ∧ w' = w) ∨
      ∃ row, row.toAddress = barbRole ∧ row.bodyMd = body.body ∧ row.msgType = .blocked ∧
        w'.inbox = w.inbox.insertNew (body.session, body.barbKey) row ∧
        w.inbox.get? (body.session, body.barbKey) = none := by
  unfold mirrorBlockedToBarb at h
  cases hrow : w.inbox.get? (body.session, body.barbKey) with
  | some row =>
    rw [hrow] at h
    exact .inl ⟨rfl, (Prod.mk.inj h).2.symm⟩
  | none =>
    rw [hrow] at h
    dsimp only at h
    have hinbox := (post_frame E.redact m sender barbRole "text" body.barbKey_ne_empty body w).1
    cases hpost : post E.redact m sender barbRole "text" body.barbKey body w with
    | mk r w₁ =>
      rw [hpost] at h hinbox
      cases r with
      | error e => cases h
      | ok id =>
        dsimp only at h hinbox
        cases hins : insertInbox (body.session, body.barbKey) (body.row m barbRole .blocked "" w₁)
            w₁ with
        | error e =>
          rw [hins] at h
          cases h
        | ok w₂ =>
          rw [hins] at h
          obtain ⟨-, rfl⟩ := Prod.mk.inj h
          obtain ⟨-, rfl⟩ := insertInbox_ok hins
          refine .inr ⟨body.row m barbRole .blocked "" w₁, rfl, rfl, rfl, ?_, rfl⟩
          rw [hinbox]

theorem mirror_grows (E : Env) (m : Ids) (sender : PrincipalRow) (body : SendBody) (w : Bus) :
    Grows w (mirrorBlockedToBarb E m sender body w).2 := by
  have hframe := (post_frame E.redact m sender barbRole "text" body.barbKey_ne_empty body w).2
  unfold mirrorBlockedToBarb
  cases w.inbox.get? (body.session, body.barbKey) with
  | some row => exact .refl w
  | none =>
    dsimp only
    cases hpost : post E.redact m sender barbRole "text" body.barbKey body w with
    | mk r w₁ =>
      rw [hpost] at hframe
      cases r with
      | error e => exact hframe
      | ok id =>
        dsimp only
        cases hins : insertInbox (body.session, body.barbKey) (body.row m barbRole .blocked "" w₁)
            w₁ with
        | error e => exact hframe
        | ok w₂ => exact hframe.trans (insertInbox_grows hins)

theorem grows_of_mirror {r : Except SendError Unit}
    (h : mirrorBlockedToBarb E m sender body w = (r, w')) : Grows w w' := by
  have hgrows := mirror_grows E m sender body w
  rwa [h] at hgrows

/-- A send is its critical section, and then perhaps the mirror. -/
theorem send_ok (h : send E now d m body w = (.ok reply, w')) :
    ∃ sender toAddress w₁, receive E now body w = .ok (sender, toAddress) ∧
      accept E d sender toAddress body w = (.ok reply, w₁) ∧
      (reply.replayed = false ∧ body.mirrors toAddress = true ∧
          mirrorBlockedToBarb E m sender body w₁ = (.ok (), w') ∨
        ¬ (reply.replayed = false ∧ body.mirrors toAddress = true) ∧ w' = w₁) := by
  unfold send at h
  cases hreceive : receive E now body w with
  | error e =>
    rw [hreceive] at h
    cases h
  | ok x =>
    obtain ⟨sender, toAddress⟩ := x
    rw [hreceive] at h
    dsimp only at h
    cases haccept : accept E d sender toAddress body w with
    | mk r w₁ =>
      rw [haccept] at h
      cases r with
      | error e => cases h
      | ok reply₁ =>
        dsimp only at h
        by_cases hmirror : reply₁.replayed = false ∧ body.mirrors toAddress = true
        · rw [if_pos hmirror] at h
          cases hbarb : mirrorBlockedToBarb E m sender body w₁ with
          | mk r' w₂ =>
            rw [hbarb] at h
            cases r' with
            | error e => cases h
            | ok u =>
              obtain ⟨hreply, rfl⟩ := Prod.mk.inj h
              obtain rfl := Except.ok.inj hreply
              exact ⟨sender, toAddress, w₁, rfl, haccept, .inl ⟨hmirror.1, hmirror.2, hbarb⟩⟩
        · rw [if_neg hmirror] at h
          obtain ⟨hreply, rfl⟩ := Prod.mk.inj h
          obtain rfl := Except.ok.inj hreply
          exact ⟨sender, toAddress, w₁, rfl, haccept, .inr ⟨hmirror, rfl⟩⟩

theorem send_grows (E : Env) (now : Int) (d m : Ids) (body : SendBody) (w : Bus) :
    Grows w (send E now d m body w).2 := by
  unfold send
  cases receive E now body w with
  | error e => exact .refl w
  | ok x =>
    obtain ⟨sender, toAddress⟩ := x
    dsimp only
    have haccept := accept_grows E d sender toAddress body w
    cases hr : accept E d sender toAddress body w with
    | mk r w₁ =>
      rw [hr] at haccept
      cases r with
      | error e => exact haccept
      | ok reply =>
        dsimp only
        split_ifs
        · have hmirror := mirror_grows E m sender body w₁
          cases hr' : mirrorBlockedToBarb E m sender body w₁ with
          | mk r' w₂ =>
            rw [hr'] at hmirror
            cases r' with
            | error e => exact haccept.trans hmirror
            | ok u => exact haccept.trans hmirror
        · exact haccept

/-! ### What was written reads back -/

/-- The meta of every message and thread reads back, and no thread lacks its slot. -/
structure Readable (w : Bus) : Prop where
  messages : ∀ id m, w.db.messages.get? id = some m → ∃ fields, decodeMeta m.metaText = some fields
  threads : ∀ id thread, w.threads.get? id = some thread → ∃ fields,
    decodeMeta thread.metaText = some fields ∧ ensureHandoffDocumentSlot fields = fields

theorem readable_empty : Readable .empty := by
  constructor
  · intro id m hm
    cases hm
  · intro id thread hthread
    cases hthread

theorem readable_roster (h : Readable w) (principals : Table String PrincipalRow) :
    Readable { w with principals := principals } := ⟨h.messages, h.threads⟩

theorem Readable.insertInbox {k : String × String} {row : InboxRow} (h : Readable w)
    (hins : insertInbox k row w = .ok w') : Readable w' := by
  obtain ⟨-, rfl⟩ := insertInbox_ok hins
  exact ⟨h.messages, h.threads⟩

theorem Readable.ensureWorkThread (h : Readable w) (redact : String → String) (body : SendBody) :
    ∃ w', ensureWorkThread redact body w = (.ok body.threadId, w') ∧ Readable w' := by
  unfold AgentBus.ensureWorkThread
  cases hthread : w.threads.get? body.threadId with
  | some thread =>
    obtain ⟨fields, hdecode, hslot⟩ := h.threads _ _ hthread
    dsimp only
    rw [hdecode]
    dsimp only
    rw [hslot, if_pos rfl]
    exact ⟨w, rfl, h⟩
  | none =>
    refine ⟨_, rfl, h.messages, fun id thread hget => ?_⟩
    change (w.threads.insertNew body.threadId (newThread redact body)).get? id = some thread at hget
    rw [Table.get?_insertNew, hthread] at hget
    split_ifs at hget
    · obtain rfl := Option.some.inj hget
      exact ⟨_, decodeMeta_dumps _, rfl⟩
    · exact h.threads id thread hget

theorem addMessage_role (db : Db) (id : String) (a : AddArgs) (ha : a.authorKind = "role")
    (hkey : key ≠ "") : addMessage redact db id a key =
      match findKeyed db a.threadId key with
      | some (id', m) => (fromRow id' m).map fun record => (record, db)
      | none => insertKeyed redact db id a key := by
  have hrole : ¬ a.authorKind ∉ messageAuthorKinds := by
    rw [ha]
    decide
  rw [addMessage, if_neg hrole, if_neg hkey]

/-- **A message is put into its thread**, if what was written reads back and its id is new. -/
theorem Readable.post (h : Readable w) (redact : String → String) (sender : PrincipalRow)
    (toAddress kind : String) (hkey : key ≠ "") (body : SendBody)
    (hid : w.db.messages.get? d.threadMessageId = none) :
    ∃ id w', post redact d sender toAddress kind key body w = (.ok id, w') ∧ Readable w' := by
  obtain ⟨w₁, hthread, hw₁⟩ := h.ensureWorkThread redact body
  have hdb : w₁.db = w.db := by
    have := (ensureWorkThread_frame redact body w).2
    rwa [hthread] at this
  unfold AgentBus.post
  rw [hthread]
  dsimp only
  rw [hdb, addMessage_role w.db _ _ rfl hkey, SendBody.addArgs_threadId]
  cases hfound : findKeyed w.db body.threadId key with
  | some x =>
    obtain ⟨id, m⟩ := x
    have hm : w.db.messages.get? id = some m :=
      Table.get?_eq_some_iff.mpr (List.mem_of_find?_eq_some hfound)
    obtain ⟨fields, hdecode⟩ := h.messages id m hm
    dsimp only
    rw [fromRow_of_decode hdecode]
    refine ⟨_, _, rfl, ⟨h.messages, hw₁.threads⟩⟩
  | none =>
    dsimp only [insertKeyed]
    rw [hid]
    refine ⟨_, _, rfl, fun id m hm => ?_, hw₁.threads⟩
    change (w.db.messages.insertNew _ _).get? id = some m at hm
    rw [Table.get?_insertNew, hid] at hm
    split_ifs at hm
    · obtain rfl := Option.some.inj hm
      exact ⟨_, decodeMeta_dumps _⟩
    · exact h.messages id m hm

theorem Readable.accept (h : Readable w) (E : Env) (sender : PrincipalRow) (toAddress : String)
    (body : SendBody) (hnone : w.inbox.get? body.key = none)
    (hid : w.db.messages.get? d.threadMessageId = none)
    (hrow : d.messageId ∉ w.inbox.rows.map fun x => x.2.messageId)
    (hnumber : body.workNumber < 2 ^ 63) :
    ∃ row w', accept E d sender toAddress body w = (.ok ⟨row, false⟩, w') ∧ Readable w' := by
  obtain ⟨id, w₁, hpost, hw₁⟩ := h.post E.redact sender toAddress body.msgKind
    body.idempotencyKey_ne_empty body hid
  have hinbox := (post_ok body.idempotencyKey_ne_empty hpost).1
  have hins := insertInbox_of_new (body.row d toAddress body.type id w₁) (hinbox ▸ hnone)
    (hinbox ▸ hrow) hnumber
  refine ⟨body.row d toAddress body.type id w₁, _, ?_, hw₁.insertInbox hins⟩
  unfold AgentBus.accept
  rw [hnone]
  dsimp only
  rw [hpost]
  dsimp only
  rw [hins]

theorem Readable.accepted {r : Except SendError Reply} (h : Readable w)
    (hid : w.db.messages.get? d.threadMessageId = none)
    (haccept : AgentBus.accept E d sender toAddress body w = (r, w')) : Readable w' := by
  obtain ⟨id, w₁, hpost, hw₁⟩ := h.post E.redact sender toAddress body.msgKind
    body.idempotencyKey_ne_empty body hid
  unfold AgentBus.accept at haccept
  cases hrow : w.inbox.get? body.key with
  | some row =>
    rw [hrow] at haccept
    exact (Prod.mk.inj haccept).2 ▸ h
  | none =>
    rw [hrow] at haccept
    dsimp only at haccept
    rw [hpost] at haccept
    dsimp only at haccept
    cases hins : AgentBus.insertInbox body.key (body.row d toAddress body.type id w₁) w₁ with
    | ok w₂ =>
      rw [hins] at haccept
      exact (Prod.mk.inj haccept).2 ▸ hw₁.insertInbox hins
    | error e =>
      rw [hins, (post_ok body.idempotencyKey_ne_empty hpost).1, hrow] at haccept
      cases e <;> exact (Prod.mk.inj haccept).2 ▸ hw₁

end Spec

end AgentBus
