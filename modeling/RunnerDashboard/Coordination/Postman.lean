import Mathlib.Data.List.Nodup
import Mathlib.Data.String.Basic
import RunnerDashboard.Lib.PyStr

/-!
# The postman

The postman copies the messages of the board into the inboxes of the bus.  In a cycle it reads the
inbox of every session, plans a delivery for every message and recipient, and alerts and rejections
beside them, and sends what it has not delivered before.  It remembers the last 5000 keys it
delivered.

## Main results

* `countP_plan` — and it is planned once.
* `isPair_of_keyText` — no other planned delivery has its key text.
-/

namespace Postman

/-! ### Deliveries -/

inductive Kind
  | message
  | alert
  | rejection
  deriving DecidableEq, Repr

def Kind.value : Kind → String
  | .message => "message"
  | .alert => "alert"
  | .rejection => "rejection"

/-- `Delivery.type`. -/
inductive BusType
  | request
  | status
  deriving DecidableEq, Repr

structure Delivery where
  to_ : String
  kind : Kind
  type : BusType
  body : String
  boardMessageId : String
  idempotencyKey : String
  workNumber : Int
  deriving DecidableEq, Repr

def maxBody : ℕ := 4000

/-- `Delivery.__post_init__` lets the delivery be. -/
def Delivery.wellFormed (d : Delivery) : Bool :=
  Py.strip d.to_ ≠ "" && (Py.strip d.body ≠ "" && d.body.length ≤ maxBody) &&
    8 ≤ d.idempotencyKey.length

structure Message where
  id : String
  recipient : String
  text : String
  session : String
  senderAgent : String
  deriving DecidableEq, Repr

/-- The expiry of a session, as `_parse_time` reads it: the instant, if there is an offset. -/
inductive Stamp
  | aware (instant : Int)
  | naive
  deriving DecidableEq

structure SessionRow where
  session : String
  agent : String
  repo : String
  expires : Option Stamp

structure BoardRef where
  issue : Int
  closed : Bool := false
  full : Bool := false
  successor : Option Int := none

/-- What a postman is built with, and what it computes with the standard library. -/
structure Env where
  roster : List String
  /-- `hashlib.sha256(text).hexdigest()[:32]`. -/
  digest : String → String
  /-- `refuse_secrets` of the guard raises. -/
  refuses : String → Bool
  /-- `CLAIM_RE` is found. -/
  claims : String → Bool
  /-- The pattern of `_mentions` for a name is found, with `@` or bare. -/
  mentioned : Bool → String → String → Bool
  /-- `REJECT_RE`: the sender and the reason. -/
  rejected : String → Option (String × String)
  lower : String → String

structure Reads where
  inspect : Int → BoardRef
  sessions : List SessionRow
  /-- `read_inbox`: the messages and the warnings. -/
  inbox : String → String → List Message × List String
  now : Int

structure PostmanState where
  boardIssue : Int
  delivered : List String := []

def maxDelivered : ℕ := 5000

def PostmanState.has (st : PostmanState) (key : String) : Bool := key ∈ st.delivered

/-- `PostmanState.mark`: `del self.delivered[:-MAX_DELIVERED]` keeps the last ones. -/
def PostmanState.mark (st : PostmanState) (key : String) : PostmanState :=
  if key ∈ st.delivered then st
  else
    let delivered := st.delivered ++ [key]
    { st with delivered := delivered.drop (delivered.length - maxDelivered) }

def keyText (kind : Kind) (to_ messageId : String) : String :=
  kind.value ++ "|" ++ to_ ++ "|" ++ messageId

section Code

variable (E : Env)

def deliveryKey (kind : Kind) (to_ messageId : String) : String :=
  "pm-" ++ E.digest (keyText kind to_ messageId)

def pair (kind : Kind) (type : BusType) (to_ mid body : String) (issue : Int) : Delivery where
  to_ := to_
  kind := kind
  type := type
  body := String.ofList (body.toList.take maxBody)
  boardMessageId := mid
  idempotencyKey := deliveryKey E kind to_ mid
  workNumber := issue

/-! ### Planning -/

def followRollover (r : Reads) (issue : Int) : Int :=
  let ref := r.inspect issue
  if ref.issue = issue ∧ (ref.closed = true ∨ ref.full = true) then
    match ref.successor with
    | none => issue
    | some successor => successor
  else issue

def barb : String := "barb"

/-- `RENEW_MARGIN` in microseconds. -/
def renewMargin : Int := 1800000000

/-- The session of `pm-agent`, the last one if there are more. -/
def liveSession (r : Reads) (agent : String) : Option SessionRow :=
  r.sessions.reverse.find? fun s => s.session = "pm-" ++ agent

/-- `_plan_presence`: the agents to register, `none` where a `TypeError` is raised. -/
def planPresence (r : Reads) : Option (List String) :=
  if E.roster.any fun agent => ((liveSession r agent).bind SessionRow.expires) = some .naive then
    none
  else some (E.roster.filter fun agent =>
    match (liveSession r agent).bind SessionRow.expires with
    | some (.aware expires) => expires - r.now ≤ renewMargin
    | _ => true)

def recipients (m : Message) (reader readerSession sender : String) : List String :=
  if m.recipient = "*" then
    let fanout := E.roster.filter fun a => a ≠ "user" && a ≠ sender
    if fanout.isEmpty then [if reader ∈ E.roster then reader else readerSession] else fanout
  else [if m.recipient ∈ E.roster then m.recipient else readerSession]

/-- The agent of a session, the last one if there are more. -/
def agentOf (r : Reads) (session : String) : String :=
  ((r.sessions.reverse.find? fun s => s.session = session).map SessionRow.agent).getD ""

/-- The messages of all inboxes with their recipients, and what they are filed under. -/
def listings (r : Reads) : List (String × Message × String) :=
  r.sessions.flatMap fun s => (r.inbox s.session s.repo).1.flatMap fun m =>
    (recipients E m s.agent s.session (agentOf r m.session)).map fun target =>
      (m.id ++ "|" ++ target, m, target)

/-- `dict.setdefault` for one item after the other. -/
def setdefaults {α : Type*} : List (String × α) → List (String × α) → List (String × α)
  | d, [] => d
  | d, (k, x) :: items => setdefaults (if (d.lookup k).isSome then d else d ++ [(k, x)]) items

/-- `_read_inboxes`: the messages. -/
def readInboxes (r : Reads) : List (Message × String) :=
  (setdefaults [] (listings E r)).map Prod.snd

/-- `_read_inboxes`: the warnings. -/
def readWarnings (r : Reads) : List String :=
  r.sessions.flatMap fun s => (r.inbox s.session s.repo).2

def mentions (text : String) (names : List String) (bare : Bool) : List String :=
  (names.filter fun n => E.mentioned bare n text).map E.lower

/-- `sorted(_alert_targets(m))`. -/
def alertTargets (m : Message) : List String :=
  let targets := mentions E m.text (E.roster ++ [barb]) false ++
    (if m.recipient ∈ E.roster then [m.recipient] else []) ++
    (if E.claims m.text then barb :: mentions E m.text E.roster true else []) ++
    (if m.recipient = barb then [barb] else [])
  (targets.dedup.filter (· ≠ m.senderAgent)).mergeSort fun a b => a ≤ b

/-- The text that both a message and its alerts carry. -/
def headOf (m : Message) (issue : Int) : String :=
  "[board #" ++ toString issue ++ "] " ++ m.session ++ " -> " ++ m.recipient ++ ": "

/-- `_plan_messages`, with the alerts that were planned before. -/
def planMessages (issue : Int) : List String → List (Message × String) → List Delivery
  | _, [] => []
  | alerted, (m, to_) :: inboxes =>
    let head := headOf m issue
    let targets := (alertTargets E m).filter fun t => m.id ++ "|" ++ t ∉ alerted
    let label := if E.claims m.text then "claim/checkout" else "addressed to you"
    pair E .message .request to_ m.id (head ++ m.text) issue ::
      (targets.map fun t => pair E .alert .status t m.id
        ("[postman alert: " ++ label ++ "] " ++ head ++ m.text) issue) ++
      planMessages issue (alerted ++ targets.map fun t => m.id ++ "|" ++ t) inboxes

def planRejections (warnings : List String) (issue : Int) : List Delivery :=
  warnings.reverse.dedup.reverse.map fun w =>
    let (sender, reason) := (E.rejected w).getD ("unknown", String.ofList (w.toList.take 120))
    pair E .rejection .status barb (reason ++ ":" ++ sender)
      ("[postman: board reader rejected a message] sender=" ++ sender ++ " reason=" ++ reason ++
        " board=https://github.com/D-sorganization/Repository_Management/issues/" ++ toString issue)
      issue

/-- The deliveries that a cycle plans; `none` where a `ContractError` or a `TypeError` ends it
before anything is written. -/
def plan (r : Reads) (issue : Int) : Option (List Delivery) :=
  let planned := planMessages E issue [] (readInboxes E r) ++
    planRejections E (readWarnings r) issue
  if (planPresence E r).isSome && planned.all Delivery.wellFormed then some planned else none

/-! ### Cycles -/

/-- `_deliver` through `_apply`: what the guard refuses is not sent. -/
def deliver (x : PostmanState × List Delivery) (d : Delivery) : PostmanState × List Delivery :=
  if E.refuses d.body then x else (x.1.mark d.idempotencyKey, x.2 ++ [d])

/-- `cycle`, with what was sent. -/
def cycle (st : PostmanState) (r : Reads) : PostmanState × List Delivery :=
  let issue := followRollover r st.boardIssue
  match plan E r issue with
  | none => (st, [])
  | some planned =>
    (planned.filter fun d => !st.has d.idempotencyKey).foldl (deliver E)
      ({ st with boardIssue := issue }, [])

def run (st : PostmanState) (cycles : List Reads) : PostmanState × List Delivery :=
  cycles.foldl (fun x r => ((cycle E x.1 r).1, x.2 ++ (cycle E x.1 r).2)) (st, [])

end Code

/-! ### Keys -/

theorem Kind.bar_not_mem_value (k : Kind) : '|' ∉ k.value.toList := by
  cases k <;> decide

theorem Kind.value_injective : Function.Injective Kind.value := by
  intro k k' h
  cases k <;> cases k' <;> first | rfl | exact absurd h (by decide)

/-- Different texts before the first bar, or different texts after it, make different texts. -/
theorem bar_append_inj {a b a' b' : String} (ha : '|' ∉ a.toList) (ha' : '|' ∉ a'.toList)
    (h : a ++ "|" ++ b = a' ++ "|" ++ b') : a = a' ∧ b = b' := by
  have hchars : a.toList ++ '|' :: b.toList = a'.toList ++ '|' :: b'.toList := by
    simpa using congrArg String.toList h
  have hsplit := @Py.splitOnce_append _ _ b.toList ha
  rw [hchars, Py.splitOnce_append ha'] at hsplit
  simp only [Option.some.injEq, Prod.mk.injEq] at hsplit
  exact ⟨(String.toList_injective hsplit.1).symm, (String.toList_injective hsplit.2).symm⟩

/-- Different texts before the last bar, or different texts after it, make different texts. -/
theorem append_bar_inj {a b a' b' : String} (hb : '|' ∉ b.toList) (hb' : '|' ∉ b'.toList)
    (h : a ++ "|" ++ b = a' ++ "|" ++ b') : a = a' ∧ b = b' := by
  have hchars : b.toList.reverse ++ '|' :: a.toList.reverse
      = b'.toList.reverse ++ '|' :: a'.toList.reverse := by
    have hrev := congrArg (fun s => s.toList.reverse) h
    simpa using hrev
  have hsplit := @Py.splitOnce_append _ _ a.toList.reverse (List.mem_reverse.not.mpr hb)
  rw [hchars, Py.splitOnce_append (List.mem_reverse.not.mpr hb')] at hsplit
  simp only [Option.some.injEq, Prod.mk.injEq, List.reverse_inj] at hsplit
  exact ⟨(String.toList_injective hsplit.2).symm, (String.toList_injective hsplit.1).symm⟩

theorem keyText_inj_kind {k k' : Kind} {to_ to' mid mid' : String}
    (h : keyText k to_ mid = keyText k' to' mid') :
    k = k' ∧ to_ ++ "|" ++ mid = to' ++ "|" ++ mid' := by
  have hassoc : k.value ++ "|" ++ (to_ ++ "|" ++ mid)
      = k'.value ++ "|" ++ (to' ++ "|" ++ mid') := by
    simpa [keyText, String.append_assoc] using h
  obtain ⟨hk, hrest⟩ := bar_append_inj k.bar_not_mem_value k'.bar_not_mem_value hassoc
  exact ⟨Kind.value_injective hk, hrest⟩

/-! ### The inboxes -/

section SetDefaults

variable {α : Type*}

theorem of_mem_setdefaults {items d : List (String × α)} {x : String × α}
    (h : x ∈ setdefaults d items) : x ∈ d ∨ x ∈ items := by
  induction items generalizing d with
  | nil => exact .inl h
  | cons item items ih =>
    obtain ⟨k, y⟩ := item
    rcases ih h with hd | hitems
    · split at hd
      · exact .inl hd
      · rcases List.mem_append.mp hd with hd | hd
        · exact .inl hd
        · exact .inr (by simp_all)
    · exact .inr (List.mem_cons_of_mem _ hitems)

theorem isSome_lookup_iff {d : List (String × α)} {k : String} :
    (d.lookup k).isSome = true ↔ k ∈ d.map Prod.fst := by
  simp [List.lookup_isSome_iff]

theorem key_mem_setdefaults {items d : List (String × α)} {k : String}
    (h : k ∈ d.map Prod.fst ∨ k ∈ items.map Prod.fst) :
    k ∈ (setdefaults d items).map Prod.fst := by
  induction items generalizing d with
  | nil => simpa [setdefaults] using h
  | cons item items ih =>
    obtain ⟨k', y⟩ := item
    apply ih
    by_cases hk : (d.lookup k').isSome = true
    · have := isSome_lookup_iff.mp hk
      rw [if_pos hk]
      simp only [List.map_cons, List.mem_cons] at h
      rcases h with h | h | h
      · exact .inl h
      · exact .inl (h ▸ this)
      · exact .inr h
    · rw [if_neg hk]
      simp only [List.map_cons, List.mem_cons] at h
      rcases h with h | h | h
      · exact .inl (by simp [h])
      · exact .inl (by simp [h])
      · exact .inr h

theorem nodup_setdefaults {items d : List (String × α)} (hd : (d.map Prod.fst).Nodup) :
    ((setdefaults d items).map Prod.fst).Nodup := by
  induction items generalizing d with
  | nil => exact hd
  | cons item items ih =>
    obtain ⟨k, y⟩ := item
    apply ih
    split
    · exact hd
    · rename_i hk
      rw [isSome_lookup_iff] at hk
      rw [List.map_append]
      exact hd.append (by simp) (by simpa using hk)

end SetDefaults

section Code

variable (E : Env) {mid to_ : String}

/-- A session inbox lists the message `mid` for `to_`. -/
def Listed (r : Reads) (mid to_ : String) : Prop :=
  ∃ x ∈ listings E r, x.2.1.id = mid ∧ x.2.2 = to_

theorem key_of_mem_listings {r : Reads} {x : String × Message × String} (h : x ∈ listings E r) :
    x.1 = x.2.1.id ++ "|" ++ x.2.2 := by
  simp only [listings, List.mem_flatMap, List.mem_map] at h
  obtain ⟨s, -, m, -, target, -, rfl⟩ := h
  rfl

def BarFree (r : Reads) : Prop := ∀ x ∈ listings E r, '|' ∉ x.2.2.toList

/-- The message and the recipient are read once if some inbox lists them, and else never. -/
theorem countP_readInboxes {r : Reads} (hbar : BarFree E r) [Decidable (Listed E r mid to_)] :
    (readInboxes E r).countP (fun x => x.1.id = mid && x.2 = to_)
      = if Listed E r mid to_ then 1 else 0 := by
  have hnodup : ((setdefaults [] (listings E r)).map Prod.fst).Nodup := nodup_setdefaults (by simp)
  have hkept : ∀ x ∈ setdefaults [] (listings E r), x ∈ listings E r := fun x hx =>
    (of_mem_setdefaults hx).resolve_left (by simp)
  rw [readInboxes, List.countP_map]
  split
  · rename_i hlisted
    obtain ⟨x, hx, hxmid, hxto⟩ := hlisted
    have hbart : '|' ∉ to_.toList := hxto ▸ hbar x hx
    have hkey : x.1 = mid ++ "|" ++ to_ := by rw [key_of_mem_listings E hx, hxmid, hxto]
    -- the pair is read where its key is kept
    have hiff : ∀ y ∈ setdefaults [] (listings E r),
        ((fun x : Message × String => decide (x.1.id = mid) && decide (x.2 = to_)) ∘ Prod.snd) y
          = true ↔ (y.1 == mid ++ "|" ++ to_) = true := by
      intro y hy
      have hykey := key_of_mem_listings E (hkept y hy)
      simp only [Function.comp_apply, Bool.and_eq_true, decide_eq_true_eq, beq_iff_eq]
      constructor
      · rintro ⟨h, h'⟩
        rw [hykey, h, h']
      · intro h
        exact append_bar_inj (hbar y (hkept y hy)) hbart (hykey ▸ h)
    rw [List.countP_congr hiff]
    have hmem : mid ++ "|" ++ to_ ∈ (setdefaults [] (listings E r)).map Prod.fst :=
      key_mem_setdefaults (.inr (hkey ▸ List.mem_map_of_mem hx))
    have hcount := List.count_eq_one_of_mem hnodup hmem
    rw [List.count, List.countP_map] at hcount
    exact hcount
  · rename_i hnone
    rw [List.countP_eq_zero]
    intro x hx hpair
    simp only [Function.comp_apply, Bool.and_eq_true, decide_eq_true_eq] at hpair
    exact hnone ⟨x, hkept x hx, hpair⟩

/-! ### The deliveries of a pair -/

/-- The delivery copies the message `mid` to `to_`. -/
def isPair (mid to_ : String) (d : Delivery) : Bool :=
  d.kind = .message && (d.boardMessageId = mid && d.to_ = to_)

theorem countP_planMessages (issue : Int) (alerted : List String)
    (inboxes : List (Message × String)) :
    (planMessages E issue alerted inboxes).countP (isPair mid to_)
      = inboxes.countP fun x => x.1.id = mid && x.2 = to_ := by
  induction inboxes generalizing alerted with
  | nil => rfl
  | cons x inboxes ih =>
    obtain ⟨m, target⟩ := x
    have halerts : ∀ (l : List String) (f : String → String),
        (l.map fun t => pair E .alert .status t m.id (f t) issue).countP (isPair mid to_) = 0 := by
      intro l f
      rw [List.countP_eq_zero]
      intro d hd
      obtain ⟨t, -, rfl⟩ := List.mem_map.mp hd
      simp [isPair, pair]
    simp only [planMessages, List.cons_append, List.countP_cons, List.countP_append]
    rw [halerts _ fun _ => _, ih]
    simp [isPair, pair]

theorem mem_of_planMessages {issue : Int} {alerted : List String}
    {inboxes : List (Message × String)} {d : Delivery}
    (h : d ∈ planMessages E issue alerted inboxes) (hd : d.kind = .message) :
    ∃ x ∈ inboxes, d.boardMessageId = x.1.id ∧ d.to_ = x.2 := by
  induction inboxes generalizing alerted with
  | nil => exact absurd h (by simp [planMessages])
  | cons x inboxes ih =>
    obtain ⟨m, target⟩ := x
    simp only [planMessages, List.cons_append, List.mem_cons, List.mem_append, List.mem_map] at h
    rcases h with rfl | ⟨t, -, rfl⟩ | h
    · exact ⟨(m, target), by simp, rfl, rfl⟩
    · exact absurd hd (by simp [pair])
    · obtain ⟨y, hy, hyd⟩ := ih h
      exact ⟨y, by simp [hy], hyd⟩

theorem countP_planRejections (warnings : List String) (issue : Int) :
    (planRejections E warnings issue).countP (isPair mid to_) = 0 := by
  rw [List.countP_eq_zero]
  intro d hd
  simp only [planRejections, List.mem_map] at hd
  obtain ⟨w, -, rfl⟩ := hd
  simp [isPair, pair]

variable (mid to_) in
theorem countP_plan {r : Reads} {issue : Int} {planned : List Delivery}
    (h : plan E r issue = some planned) (hbar : BarFree E r) [Decidable (Listed E r mid to_)] :
    planned.countP (isPair mid to_) = if Listed E r mid to_ then 1 else 0 := by
  rw [plan] at h
  split at h
  · rw [← Option.some.inj h, List.countP_append, countP_planMessages, countP_planRejections,
      Nat.add_zero, countP_readInboxes E hbar]
  · exact absurd h (by simp)

theorem idempotencyKey_planMessages {issue : Int} {alerted : List String}
    {inboxes : List (Message × String)} {d : Delivery}
    (h : d ∈ planMessages E issue alerted inboxes) :
    d.idempotencyKey = deliveryKey E d.kind d.to_ d.boardMessageId := by
  induction inboxes generalizing alerted with
  | nil => exact absurd h (by simp [planMessages])
  | cons x inboxes ih =>
    obtain ⟨m, target⟩ := x
    simp only [planMessages, List.cons_append, List.mem_cons, List.mem_append, List.mem_map] at h
    rcases h with rfl | ⟨t, -, rfl⟩ | h
    · rfl
    · rfl
    · exact ih h

theorem idempotencyKey_plan {r : Reads} {issue : Int} {planned : List Delivery} {d : Delivery}
    (h : plan E r issue = some planned) (hd : d ∈ planned) :
    d.idempotencyKey = deliveryKey E d.kind d.to_ d.boardMessageId := by
  rw [plan] at h
  split at h
  · rw [← Option.some.inj h, List.mem_append] at hd
    rcases hd with hd | hd
    · exact idempotencyKey_planMessages E hd
    · simp only [planRejections, List.mem_map] at hd
      obtain ⟨w, -, rfl⟩ := hd
      rfl
  · exact absurd h (by simp)

theorem isPair_of_keyText {r : Reads} {issue : Int} {planned : List Delivery} {d : Delivery}
    (h : plan E r issue = some planned) (hd : d ∈ planned) (hbar : BarFree E r)
    (hto : '|' ∉ to_.toList)
    (heq : keyText d.kind d.to_ d.boardMessageId = keyText .message to_ mid) :
    isPair mid to_ d = true := by
  obtain ⟨hkind, hrest⟩ := keyText_inj_kind heq
  rw [plan] at h
  split at h
  · rw [← Option.some.inj h, List.mem_append] at hd
    rcases hd with hd | hd
    · obtain ⟨x, hx, -, hxto⟩ := mem_of_planMessages E hd hkind
      obtain ⟨y, hy, rfl⟩ := List.mem_map.mp hx
      have hbarx : '|' ∉ d.to_.toList :=
        hxto ▸ hbar y ((of_mem_setdefaults hy).resolve_left (by simp))
      obtain ⟨hto', hmid⟩ := bar_append_inj hbarx hto hrest
      simp [isPair, hkind, hto', hmid]
    · simp only [planRejections, List.mem_map] at hd
      obtain ⟨w, -, rfl⟩ := hd
      exact absurd hkind (by simp [pair])
  · exact absurd h (by simp)

end Code

end Postman
