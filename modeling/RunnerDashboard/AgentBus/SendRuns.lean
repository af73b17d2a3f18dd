import RunnerDashboard.AgentBus.Store
import RunnerDashboard.Lib.Path

/-!
# Runs of sends

The inbox tells sends apart by session and key, the thread of a work item by the key alone.  So a
send that is new in the inbox may be old in its thread.

## Main results

* `send_of_some` — a repeat answers with the row of the first send.
* `keepsContent_of_separate` — **every accepted send keeps its content**, if the sends are separate.
* `content_shared` — two sessions that choose the same key share a thread message.
-/

namespace AgentBus

open Sql Lts Barb

/-! ### What can happen -/

/-- What a step shows. -/
inductive Event
  /-- Sessions register, beat and expire. -/
  | roster (principals : Table String PrincipalRow)
  | sent (body : SendBody) (role toAddress : String) (reply : Reply)
  | raised (body : SendBody)

section Steps

variable (E : Env)

inductive SendStep : Bus → Event → Bus → Prop
  | roster {w : Bus} {principals : Table String PrincipalRow} :
      SendStep w (.roster principals) { w with principals := principals }
  | sent {w w' : Bus} {now : Int} {d m : Ids} {body : SendBody} {sender : PrincipalRow}
      {toAddress : String} {reply : Reply}
      (admitted : receive E now body w = .ok (sender, toAddress))
      (answered : send E now d m body w = (.ok reply, w')) :
      SendStep w (.sent body sender.role toAddress reply) w'
  | raised {w w' : Bus} {now : Int} {d m : Ids} {body : SendBody} {e : SendError}
      (answered : send E now d m body w = (.error e, w')) : SendStep w (.raised body) w'

/-- A send that is new in the inbox is new in its thread. -/
def Separate (w : Bus) : Event → Prop
  | .sent body _ _ _ => w.inbox.get? body.key = none →
      findKeyed w.db body.threadId body.idempotencyKey = none
  | _ => True

def SeparateStep (w : Bus) (ev : Event) (w' : Bus) : Prop := SendStep E w ev w' ∧ Separate w ev

end Steps

/-- A send that was answered as new: its body, its role, its address, and its row. -/
abbrev Accepted := SendBody × String × String × InboxRow

/-- The send that was answered as new. -/
def Event.accepted? : Event → Option Accepted
  | .sent body role toAddress ⟨row, false⟩ => some (body, role, toAddress, row)
  | _ => none

/-- The sends that were answered as new. -/
def accepted (evs : List Event) : List Accepted := evs.filterMap Event.accepted?

/-- The inbox has one row for the send, and its thread a message with its author and its body. -/
structure Represents (E : Env) (w : Bus) (x : Accepted) : Prop where
  inbox : w.inbox.matching (fun k _ => k = x.1.key) = [(x.1.key, x.2.2.2)]
  row : x.2.2.2.toAddress = x.2.2.1 ∧ x.2.2.2.msgType = x.1.type ∧ x.2.2.2.repo = x.1.repo ∧
    x.2.2.2.workKind = x.1.workKind ∧ x.2.2.2.workNumber = x.1.workNumber ∧
    x.2.2.2.bodyMd = x.1.body
  message : ∃ msg, w.db.messages.get? x.2.2.2.threadMessageId = some msg ∧
    msg.threadId = x.1.threadId ∧ msg.authorKind = "role" ∧ msg.author = x.2.1 ∧
    msg.bodyMd = E.redact x.1.body

/-- Every accepted send is represented, and no two of them by one message. -/
structure KeepsContent (E : Env) (evs : List Event) (w : Bus) : Prop where
  represents : ∀ x ∈ accepted evs, Represents E w x
  distinct : (accepted evs).Pairwise fun x y =>
    x.2.2.2.threadMessageId ≠ y.2.2.2.threadMessageId

/-- The rows of the sends that were answered are there. -/
def AnswersKept (evs : List Event) (w : Bus) : Prop :=
  ∀ body role toAddress reply, .sent body role toAddress reply ∈ evs →
    w.inbox.get? body.key = some reply.message

section Runs

variable {E : Env} {w w' w₁ : Bus} {now : Int} {d m : Ids} {body : SendBody} {x : Accepted}
  {sender : PrincipalRow} {role toAddress : String} {reply : Reply} {row : InboxRow} {ev : Event}
  {evs : List Event}

/-! ### Repeats -/

/-- **A repeat answers with the row of the first send**, and does nothing. -/
theorem send_of_some (h : w.inbox.get? body.key = some row) :
    (send E now d m body w).2 = w ∧
      ∀ reply, (send E now d m body w).1 = .ok reply → reply = ⟨row, true⟩ := by
  have haccept : ∀ sender toAddress, accept E d sender toAddress body w = (.ok ⟨row, true⟩, w) := by
    intro sender toAddress
    unfold accept
    rw [h]
  unfold send
  cases receive E now body w with
  | error e =>
    refine ⟨rfl, fun reply hreply => ?_⟩
    cases hreply
  | ok x =>
    obtain ⟨sender, toAddress⟩ := x
    dsimp only
    rw [haccept]
    dsimp only
    rw [if_neg fun hnew : true = false ∧ _ => Bool.noConfusion hnew.1]
    exact ⟨rfl, fun reply hreply => (Except.ok.inj hreply).symm⟩

/-! ### One send -/

theorem get?_of_send (h : send E now d m body w = (.ok reply, w')) :
    w'.inbox.get? body.key = some reply.message := by
  obtain ⟨sender, toAddress, w₁, -, haccept, htail⟩ := send_ok h
  have hrow := get?_of_accept haccept
  rcases htail with ⟨-, -, hmirror⟩ | ⟨-, rfl⟩
  · exact (grows_of_mirror hmirror).inbox _ _ hrow
  · exact hrow

theorem Represents.grows (h : Represents E w x) (hgrows : Grows w w') : Represents E w' x := by
  have hrow : w.inbox.get? x.1.key = some x.2.2.2 :=
    Table.get?_eq_some_iff.mpr (List.mem_of_mem_filter (h.inbox ▸ List.mem_singleton_self _))
  refine ⟨Table.matching_key (hgrows.inbox _ _ hrow), h.row, ?_⟩
  obtain ⟨msg, hmsg, hcontent⟩ := h.message
  exact ⟨msg, hgrows.messages _ _ hmsg, hcontent⟩

/-- **A separate send that is accepted** is represented, and its message is new. -/
theorem represents_of_send (hreceive : receive E now body w = .ok (sender, toAddress))
    (h : send E now d m body w = (.ok ⟨row, false⟩, w'))
    (hseparate : w.inbox.get? body.key = none →
      findKeyed w.db body.threadId body.idempotencyKey = none) :
    Represents E w' (body, sender.role, toAddress, row) ∧
      w.db.messages.get? row.threadMessageId = none := by
  obtain ⟨sender', toAddress', w₁, hreceive', haccept, htail⟩ := send_ok h
  obtain ⟨rfl, rfl⟩ := Prod.mk.inj (Except.ok.inj (hreceive.symm.trans hreceive'))
  rcases accept_ok haccept with ⟨-, hreplayed, -⟩ | ⟨hnone, -, id, w₂, hpost, hrow, hins⟩
  · cases hreplayed
  · dsimp only at hrow hins
    rcases (post_ok body.idempotencyKey_ne_empty hpost).2 with ⟨msg, hfound, -⟩ |
      ⟨-, -, hfresh, hdb⟩
    · rw [hseparate hnone] at hfound
      cases hfound
    · have hid : row.threadMessageId = id := by
        rw [hrow]
        rfl
      have hmsg : w₂.db.messages.get? id = some
          (keyedMessage E.redact w.db (body.addArgs d sender toAddress body.msgKind)
            body.idempotencyKey) := by
        rw [hdb]
        change (w.db.messages.insertNew id _).get? id = _
        rw [Table.get?_insertNew, if_pos rfl, hfresh, Option.getD_none]
      have hcontent : Represents E w₁ (body, sender.role, toAddress, row) := by
        refine ⟨Table.matching_key (get?_insertInbox hins), ?_, ?_⟩
        · rw [hrow]
          exact ⟨rfl, rfl, rfl, rfl, rfl, rfl⟩
        · refine ⟨_, (insertInbox_grows hins).messages _ _ (hid ▸ hmsg), ?_⟩
          exact ⟨rfl, rfl, rfl, rfl⟩
      refine ⟨?_, hid ▸ hfresh⟩
      rcases htail with ⟨-, -, hmirror⟩ | ⟨-, rfl⟩
      · exact hcontent.grows (grows_of_mirror hmirror)
      · exact hcontent

theorem grows_of_send {r : Except SendError Reply} (h : send E now d m body w = (r, w')) :
    Grows w w' := by
  have hgrows := send_grows E now d m body w
  rwa [h] at hgrows

theorem SendStep.grows (hs : SendStep E w ev w') : Grows w w' := by
  cases hs with
  | roster => exact ⟨fun _ _ h => h, fun _ _ h => h⟩
  | sent admitted answered => exact grows_of_send answered
  | raised answered => exact grows_of_send answered

/-! ### Runs -/

theorem AnswersKept.step (h : AnswersKept evs w) (hs : SendStep E w ev w') :
    AnswersKept (evs ++ [ev]) w' := by
  intro body role toAddress reply hmem
  rcases List.mem_append.mp hmem with hold | hnew
  · exact hs.grows.inbox _ _ (h body role toAddress reply hold)
  · obtain rfl := List.mem_singleton.mp hnew
    cases hs with
    | sent admitted answered => exact get?_of_send answered

/-- **A separate step keeps the content of the sends.** -/
theorem KeepsContent.step (h : KeepsContent E evs w) (hs : SeparateStep E w ev w') :
    KeepsContent E (evs ++ [ev]) w' := by
  obtain ⟨hs, hseparate⟩ := hs
  have hold : ∀ x ∈ accepted evs, Represents E w' x :=
    fun x hx => (h.represents x hx).grows hs.grows
  have happend : accepted (evs ++ [ev]) = accepted evs ++ ev.accepted?.toList := by
    unfold accepted
    rw [List.filterMap_append]
    cases hev : ev.accepted? with
    | none => rw [List.filterMap_cons_none hev]; rfl
    | some x => rw [List.filterMap_cons_some hev]; rfl
  cases hev : ev.accepted? with
  | none =>
    rw [hev, Option.toList_none, List.append_nil] at happend
    exact ⟨happend ▸ hold, happend ▸ h.distinct⟩
  | some x =>
    rw [hev, Option.toList_some] at happend
    cases hs with
    | roster => cases hev
    | raised answered => cases hev
    | @sent _ _ _ _ _ sender toAddress reply admitted answered =>
      obtain ⟨row, replayed⟩ := reply
      cases replayed with
      | true => cases hev
      | false =>
        obtain rfl := Option.some.inj hev
        obtain ⟨hnew, hfresh⟩ := represents_of_send admitted answered hseparate
        constructor
        · rw [happend]
          intro y hy
          rcases List.mem_append.mp hy with hy | hy
          · exact hold y hy
          · rw [List.mem_singleton.mp hy]
            exact hnew
        · rw [happend, List.pairwise_append]
          refine ⟨h.distinct, List.pairwise_singleton _ _, fun y hy z hz heq => ?_⟩
          -- the message of an earlier send was there, and the new one was not
          obtain ⟨msg, hmsg, -⟩ := (h.represents y hy).message
          rw [List.mem_singleton.mp hz] at heq
          rw [heq, hfresh] at hmsg
          cases hmsg

/-- **Every accepted send keeps its content**, in every run whose sends are separate; and every
repeat of a send that was answered gives its message and does nothing. -/
theorem keepsContent_of_separate (path : Path (SeparateStep E) .empty evs w) :
    KeepsContent E evs w ∧
      ∀ body role toAddress reply, .sent body role toAddress reply ∈ evs →
        ∀ now d m body', body'.key = body.key →
          (send E now d m body' w).2 = w ∧ ∀ reply', (send E now d m body' w).1 = .ok reply' →
            reply' = ⟨reply.message, true⟩ := by
  have hkept : KeepsContent E evs w ∧ AnswersKept evs w := by
    refine path.history (I := fun past w => KeepsContent E past w ∧ AnswersKept past w)
      (fun past s l t h hs => ⟨h.1.step hs, h.2.step hs.1⟩) ⟨⟨?_, .nil⟩, ?_⟩
    · intro x hx
      cases hx
    · intro body role toAddress reply hmem
      cases hmem
  refine ⟨hkept.1, fun body role toAddress reply hmem now d m body' hkey => ?_⟩
  refine send_of_some ?_
  rw [hkey]
  exact hkept.2 body role toAddress reply hmem

/-! ### Two sessions and one key -/

/-- An environment in which nothing is redacted and every lease is live at zero. -/
def plainEnv : Env := ⟨id, fun _ => some 1, fun _ => none⟩

def twoSessions : Table String PrincipalRow :=
  (Table.empty.insertNew "a" ⟨"worker", "later"⟩).insertNew "b" ⟨"reviewer", "later"⟩

/-- A report about the first issue. -/
def report (session text : String) : SendBody where
  session := session
  to_ := "lead"
  type := .status
  repo := "repo"
  workKind := .issue
  workNumber := 1
  body := text
  idempotencyKey := "report-1"
  eight_le_key := by decide

def callIds (n : String) : Ids := ⟨"msg_" ++ n, "abm_" ++ n, "t", "t"⟩

def registered : Bus := { Bus.empty with principals := twoSessions }

def firstRow : InboxRow := (report "a" "done").row (callIds "1") "lead" .status "msg_1" .empty

def firstSent : Bus :=
  (send plainEnv 0 (callIds "1") (callIds "2") (report "a" "done") registered).2

theorem step_registered : SendStep plainEnv .empty (.roster twoSessions) registered := .roster

theorem step_firstSent : SendStep plainEnv registered
    (.sent (report "a" "done") "worker" "lead" ⟨firstRow, false⟩) firstSent :=
  @SendStep.sent _ _ _ 0 (callIds "1") (callIds "2") _ ⟨"worker", "later"⟩ _ _ rfl rfl

/-- The first report is represented, and to send it again gives its message. -/
theorem keepsContent_of_separate_first :
    KeepsContent plainEnv [.roster twoSessions,
        .sent (report "a" "done") "worker" "lead" ⟨firstRow, false⟩] firstSent ∧
      ∀ now d m, (send plainEnv now d m (report "a" "done again") firstSent).2 = firstSent := by
  have hpath : Path (SeparateStep plainEnv) .empty [.roster twoSessions,
      .sent (report "a" "done") "worker" "lead" ⟨firstRow, false⟩] firstSent :=
    .cons ⟨step_registered, trivial⟩ (.single ⟨step_firstSent, fun _ => rfl⟩)
  obtain ⟨hkept, hrepeat⟩ := keepsContent_of_separate hpath
  refine ⟨hkept, fun now d m => ?_⟩
  exact (hrepeat (report "a" "done") "worker" "lead" ⟨firstRow, false⟩
    (List.mem_cons_of_mem _ List.mem_cons_self) now d m (report "a" "done again") rfl).1

theorem send_of_accept (hreceive : receive E now body w = .ok (sender, toAddress))
    (haccept : accept E d sender toAddress body w = (.ok reply, w'))
    (hmirror : body.mirrors toAddress = false) : send E now d m body w = (.ok reply, w') := by
  unfold send
  rw [hreceive]
  dsimp only
  rw [haccept]
  dsimp only
  rw [hmirror, if_neg]
  rintro ⟨-, h⟩
  cases h

/-- Two sessions report about one issue under the same key.  Both reports are accepted, and the
thread has the first one only. -/
theorem content_shared :
    ¬ ∀ (E : Env) (evs : List Event) (w : Bus), Path (SendStep E) .empty evs w →
      KeepsContent E evs w := by
  intro h
  have hreadable : Readable firstSent := by
    obtain ⟨row, w', haccept, hw'⟩ := (readable_roster readable_empty twoSessions).accept plainEnv
      ⟨"worker", "later"⟩ "lead" (report "a" "done") (d := callIds "1") rfl rfl List.not_mem_nil
      (by decide)
    have hsent : accept plainEnv (callIds "1") ⟨"worker", "later"⟩ "lead" (report "a" "done")
        registered = (.ok ⟨firstRow, false⟩, firstSent) := rfl
    rw [← (Prod.mk.inj (hsent.symm.trans haccept)).2] at hw'
    exact hw'
  obtain ⟨row, w', haccept, -⟩ := hreadable.accept plainEnv ⟨"reviewer", "later"⟩ "lead"
    (report "b" "failed") (d := callIds "3") (by decide) rfl (by decide) (by decide)
  have hfirst : (findKeyed firstSent.db (report "b" "failed").threadId
      (report "b" "failed").idempotencyKey).map Prod.fst = some "msg_1" := rfl
  have hstep : SendStep plainEnv firstSent
      (.sent (report "b" "failed") "reviewer" "lead" ⟨row, false⟩) w' :=
    @SendStep.sent _ _ _ 0 (callIds "3") (callIds "4") _ ⟨"reviewer", "later"⟩ _ _ rfl
      (send_of_accept rfl haccept rfl)
  have hkept := h plainEnv _ _ (.cons step_registered (.cons step_firstSent (.single hstep)))
  refine (List.pairwise_cons.mp hkept.distinct).1 _ List.mem_cons_self ?_
  -- the message of the second report is the one that has its key in the thread
  rcases accept_ok haccept with ⟨-, hreplayed, -⟩ | ⟨-, -, id, w₁, hpost, hrow, -⟩
  · cases hreplayed
  · have hid : id = "msg_1" := by
      rcases (post_ok (report "b" "failed").idempotencyKey_ne_empty hpost).2 with
        ⟨msg, hfound, -⟩ | ⟨hnone, -⟩
      · rw [hfound] at hfirst
        exact Option.some.inj hfirst
      · rw [hnone] at hfirst
        cases hfirst
    change "msg_1" = row.threadMessageId
    rw [show row.threadMessageId = id from congrArg InboxRow.threadMessageId hrow, hid]

end Runs

end AgentBus
