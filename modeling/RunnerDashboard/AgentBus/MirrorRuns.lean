import RunnerDashboard.AgentBus.SendRuns

/-!
# Blocked reports

A blocked report is put into the inbox and then mirrored to Barb.  A call may be cut anywhere in
between, and the retry finds the row and answers without the mirror.

## Main results

* `Readable.mirror` — a mirror does not fail.
* `reached_of_guarded` — **every answered blocked report reaches Barb**, if the steps are guarded.
-/

namespace AgentBus

open Sql Lts Barb

/-! ### What can happen -/

inductive Cut
  /-- The message is in its thread. -/
  | posted
  /-- The row is in the inbox. -/
  | accepted
  /-- The message of the mirror is in the thread. -/
  | mirrorPosted
  /-- The mirror is in the inbox. -/
  | mirrored
  deriving DecidableEq, Repr

/-- What a step shows. -/
inductive MirrorEvent
  | roster (principals : Table String PrincipalRow)
  /-- The call is refused before its critical section. -/
  | refused (body : SendBody)
  | sent (body : SendBody) (toAddress : String) (answer : Except SendError Reply)
  | cut (body : SendBody) (toAddress : String) (at_ : Cut)

structure Fresh (w : Bus) (d m : Ids) : Prop where
  thread : w.db.messages.get? d.threadMessageId = none
  mirrorThread : w.db.messages.get? m.threadMessageId = none
  threads_ne : m.threadMessageId ≠ d.threadMessageId
  row : d.messageId ∉ w.inbox.rows.map fun x => x.2.messageId
  mirrorRow : m.messageId ∉ w.inbox.rows.map fun x => x.2.messageId
  rows_ne : m.messageId ≠ d.messageId

section Steps

variable (E : Env)

inductive CutAt (d m : Ids) (sender : PrincipalRow) (toAddress : String) (body : SendBody)
    (w : Bus) : Cut → Bus → Prop
  | posted (new : w.inbox.get? body.key = none) : CutAt d m sender toAddress body w .posted
      (post E.redact d sender toAddress body.msgKind body.idempotencyKey body w).2
  | accepted {row : InboxRow} {w' : Bus}
      (new : accept E d sender toAddress body w = (.ok ⟨row, false⟩, w')) :
      CutAt d m sender toAddress body w .accepted w'
  | mirrorPosted {row : InboxRow} {w' : Bus}
      (new : accept E d sender toAddress body w = (.ok ⟨row, false⟩, w'))
      (mirrors : body.mirrors toAddress = true)
      (free : w'.inbox.get? (body.session, body.barbKey) = none) :
      CutAt d m sender toAddress body w .mirrorPosted
        (post E.redact m sender barbRole "text" body.barbKey body w').2
  | mirrored {row : InboxRow} {w' w'' : Bus}
      (new : accept E d sender toAddress body w = (.ok ⟨row, false⟩, w'))
      (mirrors : body.mirrors toAddress = true)
      (mirror : mirrorBlockedToBarb E m sender body w' = (.ok (), w'')) :
      CutAt d m sender toAddress body w .mirrored w''

inductive MirrorStep : Bus → MirrorEvent → Bus → Prop
  | roster {w : Bus} {principals : Table String PrincipalRow} :
      MirrorStep w (.roster principals) { w with principals := principals }
  | refused {w : Bus} {now : Int} {body : SendBody} {e : SendError}
      (refused : receive E now body w = .error e) : MirrorStep w (.refused body) w
  | sent {w : Bus} {now : Int} {d m : Ids} {body : SendBody} {sender : PrincipalRow}
      {toAddress : String} (admitted : receive E now body w = .ok (sender, toAddress))
      (fresh : Fresh w d m) :
      MirrorStep w (.sent body toAddress (send E now d m body w).1) (send E now d m body w).2
  | cut {w w' : Bus} {now : Int} {d m : Ids} {body : SendBody} {sender : PrincipalRow}
      {toAddress : String} {at_ : Cut} (admitted : receive E now body w = .ok (sender, toAddress))
      (fresh : Fresh w d m) (cut : CutAt E d m sender toAddress body w at_ w') :
      MirrorStep w (.cut body toAddress at_) w'

end Steps

/-- The row is of a blocked report to someone else. -/
def InboxRow.blockedElsewhere (row : InboxRow) : Prop :=
  row.msgType = .blocked ∧ row.toAddress ≠ barbRole

/-- The key of a report is new and the key of its mirror is free, or the key is the report's. -/
def OwnKey (w : Bus) (body : SendBody) : Prop :=
  match w.inbox.get? body.key with
  | some row => row.blockedElsewhere ∧ row.bodyMd = body.body
  | none => w.inbox.get? (body.session, body.barbKey) = none

/-- A blocked report has its own key, and is not cut between its row and the mirror. -/
def Guarded (w : Bus) : MirrorEvent → Prop
  | .sent body toAddress _ => body.mirrors toAddress = true → OwnKey w body
  | .cut body toAddress at_ => body.mirrors toAddress = true →
      at_ = .posted ∨ at_ = .mirrored ∧ OwnKey w body
  | _ => True

def GuardedStep (E : Env) (w : Bus) (ev : MirrorEvent) (w' : Bus) : Prop :=
  MirrorStep E w ev w' ∧ Guarded w ev

def Reached (w : Bus) (body : SendBody) : Prop :=
  ∃ key row, w.inbox.get? (body.session, key) = some row ∧ row.toAddress = barbRole ∧
    row.bodyMd = body.body

/-- Every blocked row to someone else has its mirror. -/
def Mirrored (w : Bus) : Prop :=
  ∀ session key row, w.inbox.get? (session, key) = some row → row.blockedElsewhere →
    ∃ row', w.inbox.get? (session, key ++ "-barb") = some row' ∧ row'.toAddress = barbRole ∧
      row'.bodyMd = row.bodyMd

section Runs

variable {E : Env} {w w' w₁ : Bus} {now : Int} {d m : Ids} {body : SendBody}
  {sender : PrincipalRow} {toAddress : String} {reply : Reply} {row : InboxRow} {ev : MirrorEvent}
  {evs : List MirrorEvent} {at_ : Cut}

/-! ### A mirror does not fail -/

/-- The ids of the mirror are new after the message was accepted. -/
theorem Fresh.accept (h : Fresh w d m)
    (haccept : accept E d sender toAddress body w = (.ok ⟨row, false⟩, w')) :
    w'.db.messages.get? m.threadMessageId = none ∧
      m.messageId ∉ w'.inbox.rows.map fun x => x.2.messageId := by
  rcases accept_ok haccept with ⟨-, hreplayed, -⟩ | ⟨hnone, -, id, w₁, hpost, hrow, hins⟩
  · cases hreplayed
  · obtain ⟨hinbox, hcases⟩ := post_ok body.idempotencyKey_ne_empty hpost
    obtain ⟨hfree, rfl⟩ := insertInbox_ok hins
    constructor
    · rcases hcases with ⟨-, -, hdb⟩ | ⟨-, rfl, -, hdb⟩
      · change w₁.db.messages.get? _ = none
        rw [hdb]
        exact h.mirrorThread
      · change w₁.db.messages.get? _ = none
        rw [hdb]
        change (w.db.messages.insertNew _ _).get? _ = none
        rw [Table.get?_insertNew, if_neg h.threads_ne]
        exact h.mirrorThread
    · change m.messageId ∉ (w₁.inbox.insertNew body.key row).rows.map _
      rw [Table.rows_insertNew_of_none hfree, List.map_append, List.mem_append]
      rintro (hold | hnew)
      · rw [hinbox] at hold
        exact h.mirrorRow hold
      · have hid : m.messageId = row.messageId := List.mem_singleton.mp hnew
        dsimp only at hrow
        rw [hrow] at hid
        exact h.rows_ne hid

/-- **A mirror does not fail**, if what was written reads back and its ids are new. -/
theorem Readable.mirror (h : Readable w) (E : Env) (sender : PrincipalRow) (body : SendBody)
    (hid : w.db.messages.get? m.threadMessageId = none)
    (hrow : m.messageId ∉ w.inbox.rows.map fun x => x.2.messageId)
    (hnumber : body.workNumber < 2 ^ 63) :
    ∃ w', mirrorBlockedToBarb E m sender body w = (.ok (), w') ∧ Readable w' := by
  unfold mirrorBlockedToBarb
  cases hfree : w.inbox.get? (body.session, body.barbKey) with
  | some row => exact ⟨w, rfl, h⟩
  | none =>
    obtain ⟨id, w₁, hpost, hw₁⟩ := h.post E.redact sender barbRole "text" body.barbKey_ne_empty
      body hid
    have hinbox := (post_ok body.barbKey_ne_empty hpost).1
    have hins := insertInbox_of_new (body.row m barbRole .blocked "" w₁) (hinbox ▸ hfree)
      (hinbox ▸ hrow) hnumber
    dsimp only
    rw [hpost]
    dsimp only
    rw [hins]
    exact ⟨_, rfl, hw₁.insertInbox hins⟩

/-! ### No blocked row without its mirror -/

theorem inbox_of_accept (haccept : accept E d sender toAddress body w = (.ok ⟨row, false⟩, w')) :
    w.inbox.get? body.key = none ∧ w'.inbox = w.inbox.insertNew body.key row ∧
      row.toAddress = toAddress ∧ row.msgType = body.type ∧ row.bodyMd = body.body ∧
      body.workNumber < 2 ^ 63 := by
  rcases accept_ok haccept with ⟨-, hreplayed, -⟩ | ⟨hnone, -, id, w₁, hpost, hrow, hins⟩
  · cases hreplayed
  · have hinbox := (post_ok body.idempotencyKey_ne_empty hpost).1
    have hnumber := workNumber_of_insertInbox hins
    obtain ⟨-, rfl⟩ := insertInbox_ok hins
    dsimp only at hrow hnumber
    subst hrow
    refine ⟨hnone, ?_, rfl, rfl, rfl, hnumber⟩
    rw [hinbox]

/-- A row that is no blocked report to someone else needs no mirror. -/
theorem Mirrored.insert {k : String × String} (h : Mirrored w)
    (hinbox : w'.inbox = w.inbox.insertNew k row) (hfree : w.inbox.get? k = none)
    (hrow : ¬ row.blockedElsewhere) : Mirrored w' := by
  intro session key row' hget helsewhere
  rw [hinbox, Table.get?_insertNew, hfree] at hget
  split_ifs at hget
  · obtain rfl := Option.some.inj hget
    exact absurd helsewhere hrow
  · obtain ⟨mirror, hmirror, hto⟩ := h session key row' hget helsewhere
    refine ⟨mirror, ?_, hto⟩
    rw [hinbox]
    exact Table.get?_insertNew_of_some hmirror

theorem Mirrored.insert_pair {mirror : InboxRow} (h : Mirrored w)
    (hinbox : w'.inbox = (w.inbox.insertNew body.key row).insertNew (body.session, body.barbKey)
      mirror)
    (hfree : w.inbox.get? body.key = none)
    (hfree' : (w.inbox.insertNew body.key row).get? (body.session, body.barbKey) = none)
    (hto : mirror.toAddress = barbRole) (hbody : mirror.bodyMd = row.bodyMd) : Mirrored w' := by
  intro session key row' hget helsewhere
  rw [hinbox, Table.get?_insertNew, hfree', Table.get?_insertNew, hfree] at hget
  split_ifs at hget with hmirror hkey
  · obtain rfl := Option.some.inj hget
    exact absurd hto helsewhere.2
  · obtain rfl := Option.some.inj hget
    obtain ⟨rfl, rfl⟩ := Prod.mk.inj hkey
    refine ⟨mirror, ?_, hto, hbody⟩
    change w'.inbox.get? (body.session, body.barbKey) = some mirror
    rw [hinbox, Table.get?_insertNew, if_pos rfl, hfree', Option.getD_none]
  · obtain ⟨mirror', hmirror', hto'⟩ := h session key row' hget helsewhere
    refine ⟨mirror', ?_, hto'⟩
    rw [hinbox]
    exact Table.get?_insertNew_of_some (Table.get?_insertNew_of_some hmirror')

theorem barbKey_ne (body : SendBody) : (body.session, body.barbKey) ≠ body.key := by
  intro h
  have hlen : body.idempotencyKey.length + 5 = body.idempotencyKey.length := by
    have := congrArg String.length (Prod.mk.inj h).2
    rwa [SendBody.barbKey, String.length_append] at this
  omega

/-- **A report with its mirror** leaves no blocked row without one. -/
theorem Mirrored.report (h : Mirrored w)
    (haccept : accept E d sender toAddress body w = (.ok ⟨row, false⟩, w₁))
    (hmirror : mirrorBlockedToBarb E m sender body w₁ = (.ok (), w'))
    (hown : OwnKey w body) : Mirrored w' := by
  obtain ⟨hnone, hinbox, -, -, hbody, -⟩ := inbox_of_accept haccept
  have hfree : w₁.inbox.get? (body.session, body.barbKey) = none := by
    unfold OwnKey at hown
    rw [hnone] at hown
    rw [hinbox, Table.get?_insertNew, if_neg (barbKey_ne body)]
    exact hown
  rcases mirror_ok hmirror with ⟨hsome, -⟩ | ⟨mirror, hto, hmirrorBody, -, hinbox', -⟩
  · rw [hfree] at hsome
    cases hsome
  · rw [hinbox] at hinbox' hfree
    exact h.insert_pair hinbox' hnone hfree hto (hmirrorBody.trans hbody.symm)

theorem Mirrored.congr (h : Mirrored w) (hinbox : w'.inbox = w.inbox) : Mirrored w' := by
  intro session key row hget helsewhere
  rw [hinbox] at hget ⊢
  exact h session key row hget helsewhere

/-- A message that is not to be mirrored leaves no blocked row without its mirror. -/
theorem Mirrored.other (h : Mirrored w)
    (haccept : accept E d sender toAddress body w = (.ok ⟨row, false⟩, w'))
    (hmirror : ¬ body.mirrors toAddress = true) : Mirrored w' := by
  obtain ⟨hnone, hinbox, hto, htype, -, -⟩ := inbox_of_accept haccept
  refine h.insert hinbox hnone fun helsewhere => hmirror ?_
  rw [InboxRow.blockedElsewhere, hto, htype] at helsewhere
  exact decide_eq_true helsewhere

/-! ### Runs -/

theorem Mirrored.reached (h : Mirrored w) (hrow : w.inbox.get? body.key = some row)
    (helsewhere : row.blockedElsewhere) (hbody : row.bodyMd = body.body) : Reached w body := by
  obtain ⟨mirror, hmirror, hto, hbody'⟩ := h _ _ row hrow helsewhere
  exact ⟨_, mirror, hmirror, hto, hbody'.trans hbody⟩

theorem Reached.grows (h : Reached w body) (hgrows : Grows w w') : Reached w' body := by
  obtain ⟨key, row, hrow, hto⟩ := h
  exact ⟨key, row, hgrows.inbox _ _ hrow, hto⟩

/-- What was written reads back, and every blocked row is mirrored. -/
structure Sound (w : Bus) : Prop where
  readable : Readable w
  mirrored : Mirrored w

theorem sound_empty : Sound .empty := by
  refine ⟨readable_empty, fun session key row hget => ?_⟩
  cases hget

theorem Sound.post (h : Sound w) (redact : String → String) (sender : PrincipalRow)
    (toAddress kind : String) {key : String} (hkey : key ≠ "") (body : SendBody)
    (hid : w.db.messages.get? d.threadMessageId = none) :
    Sound (post redact d sender toAddress kind key body w).2 := by
  obtain ⟨id, w', hpost, hw'⟩ := h.readable.post redact sender toAddress kind hkey body hid
  rw [hpost]
  exact ⟨hw', h.mirrored.congr (post_ok hkey hpost).1⟩

/-- **A report with its mirror** keeps the store sound, and reaches Barb. -/
theorem Sound.report (h : Sound w) (hfresh : Fresh w d m)
    (haccept : accept E d sender toAddress body w = (.ok ⟨row, false⟩, w₁))
    (hmirrors : body.mirrors toAddress = true) (hown : OwnKey w body) :
    ∃ w', mirrorBlockedToBarb E m sender body w₁ = (.ok (), w') ∧ Sound w' ∧ Reached w' body := by
  obtain ⟨-, hinbox, hto, htype, hbody, hnumber⟩ := inbox_of_accept haccept
  obtain ⟨hid, hrow⟩ := hfresh.accept haccept
  obtain ⟨w', hmirror, hw'⟩ := (h.readable.accepted hfresh.thread haccept).mirror E sender body
    hid hrow hnumber
  have hmirrored : Mirrored w' := h.mirrored.report haccept hmirror hown
  refine ⟨w', hmirror, ⟨hw', hmirrored⟩, ?_⟩
  refine hmirrored.reached ((grows_of_mirror hmirror).inbox _ _ (get?_of_accept haccept)) ?_ hbody
  rw [InboxRow.blockedElsewhere, hto, htype]
  exact of_decide_eq_true hmirrors

/-- **A guarded send** keeps the store sound, and if it is answered and blocked, it reaches Barb. -/
theorem Sound.send (h : Sound w) (hreceive : receive E now body w = .ok (sender, toAddress))
    (hfresh : Fresh w d m) (hguard : body.mirrors toAddress = true → OwnKey w body) :
    Sound (send E now d m body w).2 ∧
      ∀ reply, (send E now d m body w).1 = .ok reply → body.mirrors toAddress = true →
        Reached (send E now d m body w).2 body := by
  unfold AgentBus.send
  rw [hreceive]
  dsimp only
  have hreadable : ∀ {r w'}, accept E d sender toAddress body w = (r, w') → Readable w' :=
    fun haccept => h.readable.accepted hfresh.thread haccept
  cases haccept : accept E d sender toAddress body w with
  | mk r w₁ =>
    cases r with
    | error e =>
      refine ⟨⟨hreadable haccept, h.mirrored.congr (accept_error haccept)⟩, fun reply hreply => ?_⟩
      cases hreply
    | ok reply =>
      obtain ⟨row, replayed⟩ := reply
      dsimp only
      cases replayed with
      | true =>
        rcases accept_ok haccept with ⟨hrow, -, rfl⟩ | ⟨-, hnew, -⟩
        · rw [if_neg fun hnew => Bool.noConfusion hnew.1]
          refine ⟨h, fun _ _ hmirrors => ?_⟩
          -- the row is the report's own
          have hown := hguard hmirrors
          unfold OwnKey at hown
          rw [hrow] at hown
          exact h.mirrored.reached hrow hown.1 hown.2
        · cases hnew
      | false =>
        by_cases hmirrors : body.mirrors toAddress = true
        · obtain ⟨w', hmirror, hsound, hreached⟩ :=
            h.report hfresh haccept hmirrors (hguard hmirrors)
          rw [if_pos ⟨rfl, hmirrors⟩, hmirror]
          exact ⟨hsound, fun _ _ _ => hreached⟩
        · rw [if_neg fun hnew => hmirrors hnew.2]
          exact ⟨⟨hreadable haccept, h.mirrored.other haccept hmirrors⟩,
            fun _ _ hblocked => absurd hblocked hmirrors⟩

/-- **A guarded cut** keeps the store sound. -/
theorem Sound.cut (h : Sound w) (hfresh : Fresh w d m)
    (hcut : CutAt E d m sender toAddress body w at_ w')
    (hguard : body.mirrors toAddress = true → at_ = .posted ∨ at_ = .mirrored ∧ OwnKey w body) :
    Sound w' := by
  cases hcut with
  | posted =>
    exact h.post E.redact sender toAddress _ body.idempotencyKey_ne_empty body hfresh.thread
  | accepted new =>
    refine ⟨h.readable.accepted hfresh.thread new, h.mirrored.other new fun hmirrors => ?_⟩
    rcases hguard hmirrors with hat | ⟨hat, -⟩ <;> cases hat
  | mirrorPosted new mirrors =>
    rcases hguard mirrors with hat | ⟨hat, -⟩ <;> cases hat
  | mirrored new mirrors mirror =>
    rcases hguard mirrors with hat | ⟨-, hown⟩
    · cases hat
    · obtain ⟨w'', hmirror, hsound, -⟩ := h.report hfresh new mirrors hown
      rw [(Prod.mk.inj (mirror.symm.trans hmirror)).2]
      exact hsound

theorem Sound.step (h : Sound w) (hs : GuardedStep E w ev w') : Sound w' := by
  obtain ⟨hs, hguard⟩ := hs
  cases hs with
  | roster => exact ⟨readable_roster h.readable _, h.mirrored.congr rfl⟩
  | refused => exact h
  | sent admitted fresh => exact (h.send admitted fresh hguard).1
  | cut admitted fresh cut => exact h.cut fresh cut hguard

theorem MirrorStep.grows (hs : MirrorStep E w ev w') : Grows w w' := by
  cases hs with
  | roster => exact ⟨fun _ _ h => h, fun _ _ h => h⟩
  | refused => exact .refl w
  | sent => exact send_grows E _ _ _ _ w
  | cut _ _ cut =>
    cases cut with
    | posted => exact (post_frame E.redact _ _ _ _ (SendBody.idempotencyKey_ne_empty _) _ w).2
    | accepted new => exact grows_of_accept new
    | mirrorPosted new =>
      exact (grows_of_accept new).trans
        (post_frame E.redact _ _ _ _ (SendBody.barbKey_ne_empty _) _ _).2
    | mirrored new _ mirror => exact (grows_of_accept new).trans (grows_of_mirror mirror)

/-- Every blocked report that was answered has reached Barb. -/
def AllReached (evs : List MirrorEvent) (w : Bus) : Prop :=
  ∀ body toAddress reply, .sent body toAddress (.ok reply) ∈ evs →
    body.mirrors toAddress = true → Reached w body

theorem AllReached.step (h : AllReached evs w) (hsound : Sound w) (hs : GuardedStep E w ev w') :
    AllReached (evs ++ [ev]) w' := by
  intro body toAddress reply hmem hmirrors
  rcases List.mem_append.mp hmem with hold | hnew
  · exact (h body toAddress reply hold hmirrors).grows hs.1.grows
  · have hev := List.mem_singleton.mp hnew
    obtain ⟨hs, hguard⟩ := hs
    cases hs with
    | roster => cases hev
    | refused => cases hev
    | cut => cases hev
    | sent admitted fresh =>
      injection hev with hbody haddress hanswer
      subst hbody haddress
      exact (hsound.send admitted fresh hguard).2 reply hanswer.symm hmirrors

/-- **Every answered blocked report reaches Barb**, in every run in which such a report has its own
key and is not cut between its row and the mirror. -/
theorem reached_of_guarded (path : Path (GuardedStep E) .empty evs w) : AllReached evs w := by
  have hboth : Sound w ∧ AllReached evs w := by
    refine path.history (I := fun past w => Sound w ∧ AllReached past w)
      (fun past s l t h hs => ⟨h.1.step hs, h.2.step h.1 hs⟩) ⟨sound_empty, ?_⟩
    intro body toAddress reply hmem
    cases hmem
  exact hboth.2

/-! ### A report that is cut -/

def blockedReport : SendBody := { report "a" "stuck" with type := .blocked }

def blockedAccepted : Bus :=
  (accept plainEnv (callIds "1") ⟨"worker", "later"⟩ "lead" blockedReport registered).2

theorem fresh_registered : Fresh registered (callIds "1") (callIds "2") where
  thread := rfl
  mirrorThread := rfl
  threads_ne := by decide
  row := List.not_mem_nil
  mirrorRow := List.not_mem_nil
  rows_ne := by decide

/-- The report is sent and answered, and Barb has it. -/
theorem reached_of_guarded_sent :
    ∃ row w', send plainEnv 0 (callIds "1") (callIds "2") blockedReport registered =
      (.ok ⟨row, false⟩, w') ∧ Reached w' blockedReport := by
  have haccept : accept plainEnv (callIds "1") ⟨"worker", "later"⟩ "lead" blockedReport registered =
      (.ok ⟨blockedReport.row (callIds "1") "lead" .blocked "msg_1" .empty, false⟩,
        blockedAccepted) := rfl
  have hsound : Sound registered :=
    ⟨readable_roster readable_empty _, fun _ _ _ hget => nomatch hget⟩
  obtain ⟨w', hmirror, -, -⟩ := hsound.report fresh_registered haccept (by decide) rfl
  have hanswer : send plainEnv 0 (callIds "1") (callIds "2") blockedReport registered =
      (.ok ⟨blockedReport.row (callIds "1") "lead" .blocked "msg_1" .empty, false⟩, w') := by
    unfold send
    rw [show receive plainEnv 0 blockedReport registered = .ok (⟨"worker", "later"⟩, "lead")
      from rfl]
    dsimp only
    rw [haccept]
    dsimp only
    rw [if_pos ⟨rfl, by decide⟩, hmirror]
  have hroster : GuardedStep plainEnv .empty (.roster twoSessions) registered := ⟨.roster, trivial⟩
  have hsent : GuardedStep plainEnv registered (.sent blockedReport "lead"
      (send plainEnv 0 (callIds "1") (callIds "2") blockedReport registered).1)
      (send plainEnv 0 (callIds "1") (callIds "2") blockedReport registered).2 :=
    ⟨@MirrorStep.sent _ _ 0 _ _ _ ⟨"worker", "later"⟩ _ rfl fresh_registered, fun _ => rfl⟩
  rw [hanswer] at hsent
  exact ⟨_, w', hanswer, reached_of_guarded (.cons hroster (.single hsent)) blockedReport "lead" _
    (List.mem_cons_of_mem _ List.mem_cons_self) (by decide)⟩

/-- The call is cut between the row and its mirror; the retry is answered, and Barb has no
report. -/
theorem blocked_lost :
    ¬ ∀ (E : Env) (evs : List MirrorEvent) (w : Bus), Path (MirrorStep E) .empty evs w →
      AllReached evs w := by
  intro h
  have hroster : MirrorStep plainEnv .empty (.roster twoSessions) registered := .roster
  have hcut : MirrorStep plainEnv registered (.cut blockedReport "lead" .accepted)
      blockedAccepted :=
    @MirrorStep.cut _ _ _ 0 _ _ _ ⟨"worker", "later"⟩ _ _ rfl fresh_registered (.accepted rfl)
  have hfresh : Fresh blockedAccepted (callIds "3") (callIds "4") :=
    ⟨rfl, rfl, by decide, by decide, by decide, by decide⟩
  have hretry : MirrorStep plainEnv blockedAccepted (.sent blockedReport "lead"
      (.ok ⟨blockedReport.row (callIds "1") "lead" .blocked "msg_1" .empty, true⟩))
      blockedAccepted :=
    @MirrorStep.sent _ _ 0 (callIds "3") (callIds "4") _ ⟨"worker", "later"⟩ _ rfl hfresh
  obtain ⟨key, row, hget, hto, -⟩ := h plainEnv _ _
    (.cons hroster (.cons hcut (.single hretry))) blockedReport "lead" _
    (List.mem_cons_of_mem _ (List.mem_cons_of_mem _ List.mem_cons_self)) (by decide)
  have honly : ∀ x ∈ blockedAccepted.inbox.rows, x.2.toAddress ≠ barbRole := by decide
  exact honly _ (Table.get?_eq_some_iff.mp hget) hto

end Runs

end AgentBus
