import Mathlib.Logic.Function.Basic
import RunnerDashboard.Lib.PyStr
import RunnerDashboard.Threads.Runs

/-!
# Replays of a post

`post_message` of `routers/staff_threads.py` stores the message of the caller, then perhaps a card
and an acknowledgement, and then the slot of the reply; other messages may be added in between.  A
repeat of the post looks for the message by its key and for the reply by the next number.

## Main results

* `replays_iff` — **a repeat is answered with the reply exactly if the reply is in the thread, and
  no message of the thread is between the two.**
-/

namespace Threads

open Sql Lts

/-! ### The answer to a repeat -/

/-- `reply_placeholder`: a stored message, or the stub for a reply that is not there. -/
inductive Placeholder
  | message (x : String × Message)
  /-- `{"id": "pending_…", "delivery": "pending", …}`. -/
  | stub (userId threadId : String)

/-- `SELECT * FROM messages WHERE thread_id = ? AND seq = ?`. -/
def findSeq (s : Store) (threadId : String) (seq : ℕ) : Option (String × Message) :=
  s.messages.rows.find? fun x => x.2.threadId = threadId ∧ x.2.seq = seq

def findIdempotentReply (s : Store) (threadId idempotencyKey : String) :
    Option ((String × Message) × Placeholder) :=
  match findKey s threadId (Py.strip idempotencyKey) with
  | none => none
  | some existing =>
    match findSeq s threadId (existing.2.seq + 1) with
    | some row => some (existing, .message row)
    | none => some (existing, .stub existing.1 threadId)

/-! ### Posts -/

/-- `(thread.meta or {}).get("no_auto_reply")`. -/
def noAutoReply (th : Thread) : Bool := (th.metaDict.lookup "no_auto_reply").any Json.truthy

def isGroupThread (th : Thread) : Bool :=
  th.kind = .group || (th.metaDict.lookup "is_group").any Json.truthy ||
    (th.metaDict.lookup "group").any Json.truthy

/-- A post whose message is stored, and whose reply is not. -/
structure Post where
  threadId : String
  /-- The thread has several seats: there is no acknowledgement. -/
  group : Bool
  /-- The message may be handed to a specialist. -/
  auto : Bool
  acknowledged : Bool
  /-- The thread of the specialist that takes the turn. -/
  route : Option String

/-- The store, and the posts under way by their number. -/
structure System where
  store : Store
  posts : ℕ → Option Post

def System.initial : System := ⟨.empty, fun _ => none⟩

/-- What a step of the system shows. -/
inductive Label
  /-- A post stored its message. -/
  | posted (i : ℕ) (threadId key : String) (x : String × Message)
  /-- A post to a thread without replies stored its message. -/
  | noted (threadId key : String) (x : String × Message)
  /-- The card of a hand-off was added to the thread of the post. -/
  | handedOff (i : ℕ) (x : String × Message)
  | acknowledged (i : ℕ) (x : String × Message)
  /-- The slot of the reply was added, and the post returned. -/
  | replied (i : ℕ) (x : String × Message)
  /-- Any other call of the store. -/
  | other (e : Event)

def Outcome.added? : Outcome → Option (String × Message)
  | .added x => some x
  | _ => none

def Label.added? : Label → Option (String × Message)
  | .posted _ _ _ x => some x
  | .noted _ _ x => some x
  | .handedOff _ x => some x
  | .acknowledged _ x => some x
  | .replied _ x => some x
  | .other e => e.2.added?

/-- The message of a caller that `post_message` stores. -/
def callerArgs (a : AddArgs) (threadId key : String) : AddArgs :=
  { a with
    threadId
    idempotencyKey := some (Py.strip key)
    runId := ""
    delivery := .complete
    turnEpoch := none }

/-- A message that the service adds: without a key, run or epoch. -/
def serviceArgs (a : AddArgs) (threadId : String) (authorKind : AuthorKind) (kind : MessageKind)
    (delivery : Delivery) : AddArgs :=
  { a with
    threadId, authorKind, kind, delivery, idempotencyKey := none, runId := "", turnEpoch := none }

section Steps

variable (redact : String → String) (redactMeta : List (String × Json) → List (String × Json))

def Adds (s : Store) (a : AddArgs) (x : String × Message) (s' : Store) : Prop :=
  Step redact redactMeta s (.add a, .added x) s'

/-- A post may store its message: the key is new, and the thread takes messages. -/
def Accepts (s : Store) (threadId key : String) (th : Thread) : Prop :=
  Py.strip key ≠ "" ∧ s.threads.get? threadId = some th ∧
    findIdempotentReply s threadId key = none ∧ th.kind ≠ .panel

inductive PostStep : System → Label → System → Prop
  | posted {y : System} {i : ℕ} {threadId key : String} {th : Thread} {a : AddArgs}
      {x : String × Message} {s' : Store} (hfree : y.posts i = none)
      (haccepts : Accepts y.store threadId key th) (hreply : noAutoReply th = false)
      (hadds : Adds redact redactMeta y.store (callerArgs a threadId key) x s') :
      PostStep y (.posted i threadId key x)
        ⟨s', Function.update y.posts i
          (some ⟨threadId, isGroupThread th, th.kind = .auto, false, none⟩)⟩
  | noted {y : System} {threadId key : String} {th : Thread} {a : AddArgs}
      {x : String × Message} {s' : Store} (haccepts : Accepts y.store threadId key th)
      (hreply : noAutoReply th = true)
      (hadds : Adds redact redactMeta y.store (callerArgs a threadId key) x s') :
      PostStep y (.noted threadId key x) ⟨s', y.posts⟩
  | handedOff {y : System} {i : ℕ} {q : Post} {target : String} {a : AddArgs}
      {x : String × Message} {s' : Store} (hpost : y.posts i = some q) (hgroup : q.group = false)
      (hauto : q.auto = true) (hstage : q.acknowledged = false) (hroute : q.route = none)
      (hadds : Adds redact redactMeta y.store
        (serviceArgs a q.threadId .role .handoff .complete) x s') :
      PostStep y (.handedOff i x)
        ⟨s', Function.update y.posts i (some { q with route := some target })⟩
  | acknowledged {y : System} {i : ℕ} {q : Post} {a : AddArgs} {x : String × Message} {s' : Store}
      (hpost : y.posts i = some q) (hgroup : q.group = false) (hstage : q.acknowledged = false)
      (hadds : Adds redact redactMeta y.store
        (serviceArgs a q.threadId .system .text .complete) x s') :
      PostStep y (.acknowledged i x)
        ⟨s', Function.update y.posts i (some { q with acknowledged := true })⟩
  /-- The slot of a turn that may run: in the thread of the specialist, if there is one. -/
  | replied {y : System} {i : ℕ} {q : Post} {a : AddArgs} {x : String × Message} {s' : Store}
      (hpost : y.posts i = some q) (hstage : q.acknowledged = !q.group)
      (hadds : Adds redact redactMeta y.store
        (serviceArgs a (q.route.getD q.threadId) .role .text .pending) x s') :
      PostStep y (.replied i x) ⟨s', Function.update y.posts i none⟩
  /-- The daily budget is reached: a message of the system, and no acknowledgement. -/
  | exhausted {y : System} {i : ℕ} {q : Post} {a : AddArgs} {x : String × Message} {s' : Store}
      (hpost : y.posts i = some q) (hgroup : q.group = false) (hstage : q.acknowledged = false)
      (hadds : Adds redact redactMeta y.store
        (serviceArgs a q.threadId .system .text .complete) x s') :
      PostStep y (.replied i x) ⟨s', Function.update y.posts i none⟩
  | other {y : System} {e : Event} {s' : Store} (h : Step redact redactMeta y.store e s') :
      PostStep y (.other e) ⟨s', y.posts⟩

end Steps

variable {redact : String → String} {redactMeta : List (String × Json) → List (String × Json)}
  {s s' : Store} {y y' : System} {l : Label} {ls : List Label} {x u r : String × Message}
  {t key : String} {i : ℕ}

/-! ### The store under the posts -/

theorem step_of_postStep (h : PostStep redact redactMeta y l y') :
    ∃ e, Step redact redactMeta y.store e y'.store ∧ l.added? = e.2.added? := by
  cases h with
  | posted _ _ _ hadds => exact ⟨_, hadds, rfl⟩
  | noted _ _ hadds => exact ⟨_, hadds, rfl⟩
  | handedOff _ _ _ _ _ hadds => exact ⟨_, hadds, rfl⟩
  | acknowledged _ _ _ hadds => exact ⟨_, hadds, rfl⟩
  | replied _ _ hadds => exact ⟨_, hadds, rfl⟩
  | exhausted _ _ _ hadds => exact ⟨_, hadds, rfl⟩
  | other h => exact ⟨_, h, rfl⟩

/-- The number of messages of a thread that some steps added. -/
def addedIn (t : String) (ls : List Label) : ℕ :=
  (ls.filterMap Label.added?).countP fun x => x.2.threadId = t

theorem addedIn_cons (t : String) (l : Label) (ls : List Label) :
    addedIn t (l :: ls) = (l.added?.toList.countP fun x => x.2.threadId = t) + addedIn t ls := by
  unfold addedIn
  rw [List.filterMap_cons]
  cases l.added? with
  | none => simp
  | some x => rw [Option.toList_some, ← List.countP_append, List.singleton_append]

theorem addedIn_eq_zero_iff : addedIn t ls = 0 ↔
    ∀ l ∈ ls, ∀ x, l.added? = some x → x.2.threadId ≠ t := by
  unfold addedIn
  rw [List.countP_eq_zero]
  simp only [List.mem_filterMap, decide_eq_true_eq]
  exact ⟨fun h l hl x hx => h x ⟨l, hl, hx⟩, fun h x ⟨l, hl, hx⟩ => h l hl x hx⟩

theorem rows_postStep (h : PostStep redact redactMeta y l y') :
    ∃ rows, List.Forall₂ SameMessage y.store.messages.rows rows ∧
      y'.store.messages.rows = rows ++ l.added?.toList := by
  obtain ⟨e, hstep, hl⟩ := step_of_postStep h
  obtain ⟨rows, hsame, hrows⟩ := grows_step hstep
  refine ⟨rows, hsame, hrows.trans ?_⟩
  rw [hl]
  cases e.2 with
  | _ => rfl

theorem numbered_postPath (p : Path (PostStep redact redactMeta) y ls y')
    (h : Numbered y.store) : Numbered y'.store := by
  refine p.invariant (I := fun y => Numbered y.store) ?_ h
  intro y l y' hy hstep
  obtain ⟨e, hstep, -⟩ := step_of_postStep hstep
  exact numbered_step hy hstep

theorem length_postPath (p : Path (PostStep redact redactMeta) y ls y') (t : String) :
    (seqsOf y'.store.messages.rows t).length =
      (seqsOf y.store.messages.rows t).length + addedIn t ls := by
  induction p with
  | nil => rfl
  | @cons y y₁ y' l ls h _ ih =>
    obtain ⟨rows, hsame, hrows⟩ := rows_postStep h
    rw [ih, addedIn_cons, hrows, seqsOf_append, seqsOf_congr hsame, List.length_append,
      Nat.add_assoc]
    congr 2
    unfold seqsOf
    rw [List.length_map, List.countP_eq_length_filter]

theorem kept_postPath (p : Path (PostStep redact redactMeta) y ls y')
    (hx : x ∈ y.store.messages.rows) : ∃ x' ∈ y'.store.messages.rows, SameMessage x x' := by
  induction p generalizing x with
  | nil => exact ⟨x, hx, .refl x⟩
  | cons h _ ih =>
    obtain ⟨rows, hsame, hrows⟩ := rows_postStep h
    obtain ⟨n, hn, rfl⟩ := List.mem_iff_getElem.mp hx
    have hn' : n < rows.length := hsame.length_eq ▸ hn
    obtain ⟨x', hx', hsame'⟩ := ih (hrows ▸ List.mem_append_left _ (List.getElem_mem hn'))
    exact ⟨x', hx', ((List.forall₂_iff_get.mp hsame).2 n hn hn').trans hsame'⟩

theorem of_added (hnum : Numbered y.store) (h : PostStep redact redactMeta y l y')
    (hl : l.added? = some x) :
    x ∈ y'.store.messages.rows ∧
      x.2.seq = (seqsOf y.store.messages.rows x.2.threadId).length + 1 := by
  obtain ⟨e, hstep, he⟩ := step_of_postStep h
  obtain ⟨rows, -, hrows⟩ := rows_postStep h
  have hadded : e.2 = .added x := by
    rw [hl] at he
    cases ho : e.2 with
    | added z =>
      rw [ho] at he
      rw [Option.some.inj he]
    | _ =>
      rw [ho] at he
      cases he
  refine ⟨?_, ?_⟩
  · rw [hrows, hl]
    exact List.mem_append_right _ List.mem_cons_self
  · rw [of_step_added hstep hadded, maxSeq_eq hnum]

/-! ### The answer -/

theorem key_callerArgs {a : AddArgs} (h : Py.strip key ≠ "") :
    (callerArgs a t key).key = some (Py.strip key) := by
  unfold AddArgs.key callerArgs
  rw [Option.filter_some, if_pos (decide_eq_true h)]

theorem findSeq_eq_some_iff {n : ℕ} : findSeq s t n = some x ↔
    x ∈ s.messages.rows ∧ x.2.threadId = t ∧ x.2.seq = n := by
  constructor
  · intro h
    unfold findSeq at h
    have hp := List.find?_some h
    exact ⟨List.mem_of_find?_eq_some h, of_decide_eq_true hp⟩
  · rintro ⟨hx, ht, hn⟩
    cases hfind : findSeq s t n with
    | none =>
      unfold findSeq at hfind
      have hnot := List.find?_eq_none.mp hfind x hx
      exact absurd (decide_eq_true ⟨ht, hn⟩) hnot
    | some z =>
      unfold findSeq at hfind
      have hz := List.mem_of_find?_eq_some hfind
      have hp := List.find?_some hfind
      obtain ⟨htz, hnz⟩ := of_decide_eq_true hp
      rw [eq_of_seq hx hz (ht.trans htz.symm) (hn.trans hnz.symm)]

/-- The answer to a repeat is the message and the reply of the first call. -/
def Replays (s : Store) (t key : String) (u r : String × Message) : Prop :=
  ∃ u' r', findIdempotentReply s t key = some (u', .message r') ∧ SameMessage u u' ∧
    SameMessage r r'

/-- The answer is the reply if that has the next number in the thread. -/
theorem replays_iff_next {u' r' : String × Message} (hu' : u' ∈ s.messages.rows)
    (hu : SameMessage u u') (hr' : r' ∈ s.messages.rows) (hr : SameMessage r r')
    (ht : u.2.threadId = t) (hkey : u.2.idempotencyKey = some (Py.strip key)) :
    Replays s t key u r ↔ r.2.threadId = t ∧ r.2.seq = u.2.seq + 1 := by
  have hfind : findKey s t (Py.strip key) = some u' :=
    findKey_eq_some_iff.mpr ⟨hu', hu.2.1.symm.trans ht, hu.2.2.2.2.symm.trans hkey⟩
  unfold Replays findIdempotentReply
  rw [hfind]
  dsimp only
  constructor
  · rintro ⟨u'', r'', h, -, hsame⟩
    cases hseq : findSeq s t (u'.2.seq + 1) with
    | none =>
      rw [hseq] at h
      cases h
    | some z =>
      rw [hseq] at h
      obtain ⟨-, hz⟩ := Prod.mk.inj (Option.some.inj h)
      obtain rfl := Placeholder.message.inj hz
      obtain ⟨-, htz, hnz⟩ := findSeq_eq_some_iff.mp hseq
      exact ⟨hsame.2.1.trans htz, hsame.2.2.1.trans (hnz.trans (by rw [hu.2.2.1]))⟩
  · rintro ⟨htr, hnr⟩
    have hseq : findSeq s t (u'.2.seq + 1) = some r' := by
      refine findSeq_eq_some_iff.mpr ⟨hr', hr.2.1.symm.trans htr, ?_⟩
      rw [← hr.2.2.1, hnr, hu.2.2.1]
    rw [hseq]
    exact ⟨u', r', rfl, hu, hr⟩

/-- **A repeat is answered with the reply of the first call exactly if that reply is in the thread
of the post, and no message was added to the thread between the message and the reply.** -/
theorem replays_iff {before middle after : List Label}
    (p : Path (PostStep redact redactMeta) .initial
      (before ++ .posted i t key u :: (middle ++ .replied i r :: after)) y) :
    Replays y.store t key u r ↔
      r.2.threadId = t ∧ ∀ l ∈ middle, ∀ x, l.added? = some x → x.2.threadId ≠ t := by
  obtain ⟨y₀, y₁, p₀, hposted, p₁⟩ := path_middle_iff.mp p
  obtain ⟨y₂, y₃, p₂, hreplied, p₃⟩ := path_middle_iff.mp p₁
  have hnum₀ : Numbered y₀.store := numbered_postPath p₀ fun _ => rfl
  obtain ⟨hu₁, huseq⟩ := of_added hnum₀ hposted rfl
  have hlen₁ := length_postPath (.single hposted) t
  have hnum₂ : Numbered y₂.store :=
    numbered_postPath p₂ (numbered_postPath (.single hposted) hnum₀)
  obtain ⟨hr₃, hrseq⟩ := of_added hnum₂ hreplied rfl
  have hlen₂ := length_postPath p₂ t
  -- the message of the caller has the thread and the key of the post
  have huser : u.2.threadId = t ∧ u.2.idempotencyKey = some (Py.strip key) := by
    cases hposted with
    | @posted _ _ _ _ a _ _ _ haccepts _ hadds =>
      rcases cases_of_step_add hadds with ⟨z, hz, -⟩ | ⟨hz, -⟩ | ⟨e, he, -⟩
      · cases hz
      · rw [Outcome.added.inj hz]
        exact ⟨rfl, key_callerArgs (a := a) (t := t) haccepts.1⟩
      · cases he
  have hone : addedIn t [Label.posted i t key u] = 1 := by
    rw [addedIn_cons]
    simp [Label.added?, huser.1, addedIn]
  rw [hone] at hlen₁
  rw [huser.1] at huseq
  obtain ⟨u', hu', husame⟩ := kept_postPath (p₂.append (.cons hreplied p₃)) hu₁
  obtain ⟨r', hr', hrsame⟩ := kept_postPath p₃ hr₃
  rw [replays_iff_next hu' husame hr' hrsame huser.1 huser.2, ← addedIn_eq_zero_iff]
  refine and_congr_right fun htr => ?_
  rw [htr] at hrseq
  omega

/-! ### Two posts -/

def newThread (kind : ThreadKind) : CreateArgs where
  id := "th"
  title := ""
  kind := kind
  participants := ["barb", "ann"]
  createdBy := "ann"
  metaDict := []
  role := none
  now := ""

def storeOf (kind : ThreadKind) (adds : List AddArgs) : Store :=
  (trace id id .empty (.create (newThread kind) :: adds.map .add)).2

/-- The message of a caller, before the post fills in the rest. -/
def askBase : AddArgs := { id := "ask", threadId := "", author := "ann" }

def askArgs : AddArgs := callerArgs askBase "th" "k"

/-- Its acknowledgement, before the service fills in the rest. -/
def ackBase : AddArgs := { id := "ack", threadId := "", author := "system" }

def ackArgs : AddArgs := serviceArgs ackBase "th" .system .text .complete

/-- The slot of the reply, before the service fills in the rest. -/
def slotBase : AddArgs := { id := "slot", threadId := "", author := "barb" }

def slotArgs : AddArgs := serviceArgs slotBase "th" .role .text .pending

def rowOf (a : AddArgs) (seq : ℕ) : String × Message := (a.id, a.message id id seq)

/-- The posts when the only one has the message stored, and perhaps the acknowledgement. -/
def onePost (group acknowledged : Bool) : ℕ → Option Post :=
  Function.update (fun _ => none) 0 (some ⟨"th", group, false, acknowledged, none⟩)

theorem onePost_zero (group acknowledged : Bool) :
    onePost group acknowledged 0 = some ⟨"th", group, false, acknowledged, none⟩ :=
  Function.update_self _ _ _

theorem noPost (group acknowledged : Bool) :
    Function.update (onePost group acknowledged) 0 none = fun _ => none := by
  unfold onePost
  rw [Function.update_idem, Function.update_eq_self_iff]

theorem path_created (kind : ThreadKind) : PostStep id id .initial
    (.other (.create (newThread kind), .created)) ⟨storeOf kind [], fun _ => none⟩ := .other rfl

theorem path_posted_direct :
    PostStep id id ⟨storeOf .direct [], fun _ => none⟩ (.posted 0 "th" "k" (rowOf askArgs 1))
      ⟨storeOf .direct [askArgs], onePost false false⟩ := by
  have haccepts : Accepts (storeOf .direct []) "th" "k" ((newThread .direct).thread id id) :=
    ⟨by decide, rfl, rfl, by decide⟩
  have hadds : Adds id id (storeOf .direct []) (callerArgs askBase "th" "k") (rowOf askArgs 1)
      (storeOf .direct [askArgs]) := by with_unfolding_all rfl
  exact PostStep.posted (y := ⟨storeOf .direct [], fun _ => none⟩) rfl haccepts rfl hadds

theorem path_posted_group :
    PostStep id id ⟨storeOf .group [], fun _ => none⟩ (.posted 0 "th" "k" (rowOf askArgs 1))
      ⟨storeOf .group [askArgs], onePost true false⟩ := by
  have haccepts : Accepts (storeOf .group []) "th" "k" ((newThread .group).thread id id) :=
    ⟨by decide, rfl, rfl, by decide⟩
  have hadds : Adds id id (storeOf .group []) (callerArgs askBase "th" "k") (rowOf askArgs 1)
      (storeOf .group [askArgs]) := by with_unfolding_all rfl
  exact PostStep.posted (y := ⟨storeOf .group [], fun _ => none⟩) rfl haccepts rfl hadds

theorem path_direct : Path (PostStep id id) .initial
    ([.other (.create (newThread .direct), .created)] ++ .posted 0 "th" "k" (rowOf askArgs 1) ::
      ([.acknowledged 0 (rowOf ackArgs 2)] ++ .replied 0 (rowOf slotArgs 3) :: []))
    ⟨storeOf .direct [askArgs, ackArgs, slotArgs], fun _ => none⟩ := by
  have hadds : Adds id id (storeOf .direct [askArgs])
      (serviceArgs ackBase "th" .system .text .complete) (rowOf ackArgs 2)
      (storeOf .direct [askArgs, ackArgs]) := by with_unfolding_all rfl
  have hack : PostStep id id ⟨storeOf .direct [askArgs], onePost false false⟩
      (.acknowledged 0 (rowOf ackArgs 2))
      ⟨storeOf .direct [askArgs, ackArgs], onePost false true⟩ := by
    have hpost : onePost false true = Function.update (onePost false false) 0
        (some ⟨"th", false, false, true, none⟩) := (Function.update_idem _ _ _).symm
    rw [hpost]
    exact PostStep.acknowledged (y := ⟨storeOf .direct [askArgs], onePost false false⟩)
      (q := ⟨"th", false, false, false, none⟩) (onePost_zero false false) rfl rfl hadds
  have hadds' : Adds id id (storeOf .direct [askArgs, ackArgs])
      (serviceArgs slotBase "th" .role .text .pending) (rowOf slotArgs 3)
      (storeOf .direct [askArgs, ackArgs, slotArgs]) := by with_unfolding_all rfl
  refine .cons (path_created .direct) (.cons path_posted_direct (.cons hack ?_))
  rw [← noPost false true]
  apply Path.single
  exact PostStep.replied (y := ⟨storeOf .direct [askArgs, ackArgs], onePost false true⟩)
    (q := ⟨"th", false, false, true, none⟩) (onePost_zero false true) rfl hadds'

theorem path_group : Path (PostStep id id) .initial
    ([.other (.create (newThread .group), .created)] ++ .posted 0 "th" "k" (rowOf askArgs 1) ::
      ([] ++ .replied 0 (rowOf slotArgs 2) :: []))
    ⟨storeOf .group [askArgs, slotArgs], fun _ => none⟩ := by
  have hadds : Adds id id (storeOf .group [askArgs])
      (serviceArgs slotBase "th" .role .text .pending) (rowOf slotArgs 2)
      (storeOf .group [askArgs, slotArgs]) := by with_unfolding_all rfl
  refine .cons (path_created .group) (.cons path_posted_group ?_)
  rw [← noPost true false]
  apply Path.single
  exact PostStep.replied (y := ⟨storeOf .group [askArgs], onePost true false⟩)
    (q := ⟨"th", true, false, false, none⟩) (onePost_zero true false) rfl hadds

/-- The repeat of a direct post is answered with the acknowledgement. -/
theorem not_replays_direct : ¬ ∀ (before middle after : List Label) (i : ℕ) (t key : String)
    (u r : String × Message) (y : System), Path (PostStep id id) .initial
      (before ++ .posted i t key u :: (middle ++ .replied i r :: after)) y →
    Replays y.store t key u r := by
  intro h
  obtain ⟨u', r', hfind, -, hsame⟩ := h _ _ _ _ _ _ _ _ _ path_direct
  have hack : findIdempotentReply (storeOf .direct [askArgs, ackArgs, slotArgs]) "th" "k" =
      some (rowOf askArgs 1, .message (rowOf ackArgs 2)) := by with_unfolding_all rfl
  obtain ⟨-, hmessage⟩ := Prod.mk.inj (Option.some.inj (hack.symm.trans hfind))
  rw [← Placeholder.message.inj hmessage] at hsame
  exact absurd hsame.1 (by decide)

/-- The repeat of a post to a group is answered with its reply. -/
theorem replays_group : Replays (storeOf .group [askArgs, slotArgs]) "th" "k" (rowOf askArgs 1)
    (rowOf slotArgs 2) :=
  (replays_iff path_group).mpr ⟨rfl, fun _ hl => absurd hl List.not_mem_nil⟩

end Threads
