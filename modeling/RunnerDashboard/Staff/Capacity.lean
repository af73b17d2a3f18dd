import Mathlib.Data.Rat.Defs
import Mathlib.Algebra.Order.Ring.Rat
import Mathlib.Data.String.Basic
import RunnerDashboard.Lib.Table

/-!
# Capacity reservations

One row for each admitted operation: reserved with a lease, then settled, released or expired.
The store compares the texts of its timestamps; here a timestamp is the instant of its text, in
microseconds, and how two texts compare is a parameter.  Spend is rational.

## Main results

* `reserve_cases` — what a reserve can do.
-/

namespace Capacity

open Sql

/-! ### Timestamps -/

/-- How the texts of two instants compare. -/
structure Stamps where
  /-- `datetime` can represent the instant. -/
  holds : Int → Bool
  /-- `x > y`. -/
  later : Int → Int → Bool
  /-- `x >= y[:10] + "T00:00:00Z"`. -/
  sinceMidnight : Int → Int → Bool

def second : Int := 1000000

def day : Int := 86400 * second

def midnight (t : Int) : Int := t / day * day

def Stamps.exact : Stamps where
  holds _ := true
  later x y := y < x
  sinceMidnight x y := midnight y ≤ x

/-- `_add_seconds`, which may overflow. -/
def Stamps.addSeconds (S : Stamps) (t seconds : Int) : Option Int :=
  if S.holds (t + seconds * second) then some (t + seconds * second) else none

/-! ### Rows -/

/-- `ReservationStatus`. -/
inductive Status
  | reserved
  | settled
  | released
  | expired
  deriving DecidableEq, Repr

def Status.text : Status → String
  | .reserved => "reserved"
  | .settled => "settled"
  | .released => "released"
  | .expired => "expired"

/-- `UnknownQuotaPolicy`. -/
inductive QuotaPolicy
  | refuse
  | allow
  | degraded
  deriving DecidableEq, Repr

/-- `CapacityLimits`; the slots are counts. -/
structure Limits where
  maxConcurrentSlots : ℕ := 10
  maxDailyBudgetUsd : ℚ := 100
  repairReservedSlots : ℕ := 2
  defaultLeaseTtlSeconds : Int := 600
  unknownQuotaPolicy : QuotaPolicy := .refuse

/-- `CapacityReservation`, but for the operation. -/
structure Reservation where
  role : String
  provider : String
  slots : Int
  estimatedSpendUsd : ℚ
  actualSpendUsd : Option ℚ
  priority : Int
  node : String
  isSubscription : Bool
  reservedAt : Int
  leaseExpiresAt : Int
  settledAt : Option Int
  status : Status
  deriving DecidableEq

/-- The rows by operation. -/
abbrev Reservations := Table String Reservation

/-- The arguments of `reserve`. -/
structure Request where
  operationId : String
  role : String
  provider : String
  slots : Int := 1
  estimatedSpendUsd : ℚ := 0
  priority : Int := 0
  node : String := "local"
  isSubscription : Bool := false
  quotaKnown : Bool := true
  ttlSeconds : Option Int := none

/-- What `explanation` says. -/
inductive Explanation
  | alreadyReserved (slots : Int) (operationId : String)
  | alreadySettled (operationId : String)
  | terminal (operationId : String) (status : Status)
  | quotaUnknown (provider : String)
  | exhausted (active allowed position next : Int)
  | budget (spent limit : ℚ) (reset : Int)
  | admitted (slots : Int) (node operationId : String) (expiresAt : Int)
  deriving DecidableEq

/-- The text of `explanation`, with the texts of instants and of amounts. -/
def Explanation.text (iso : Int → String) (usd : ℚ → String) : Explanation → String
  | .alreadyReserved slots op =>
    "Already reserved " ++ toString slots ++ " slot(s) for operation " ++ op ++ "."
  | .alreadySettled op => "Operation " ++ op ++ " was already settled."
  | .terminal op status => "Operation " ++ op ++ " is already terminal (" ++ status.text ++ ")."
  | .quotaUnknown provider =>
    "Refused: Quota for provider '" ++ provider ++ "' is unknown. Policy requires refusal."
  | .exhausted active allowed position next =>
    "Refused: Fleet capacity exhausted (" ++ toString active ++ "/" ++ toString allowed ++
      " slots active). Queue position ~#" ++ toString position ++ ". Next capacity expected by " ++
      iso next ++ "."
  | .budget spent limit reset =>
    "Refused: Daily billed budget exhausted ($" ++ usd spent ++ "/$" ++ usd limit ++
      "). Resets at " ++ iso reset ++ "."
  | .admitted slots node op expiresAt =>
    "Admitted: Reserved " ++ toString slots ++ " slot(s) on node '" ++ node ++ "' for operation " ++
      op ++ " until " ++ iso expiresAt ++ "."

/-- `ReservationDecision`. -/
structure Decision where
  admitted : Bool
  reservation : Option Reservation := none
  refusalReason : String := ""
  queuePosition : Option Int := none
  nextEligibleTime : Option Int := none
  explanation : Explanation
  deriving DecidableEq

/-! ### The methods -/

def Reservation.lapsed (S : Stamps) (now : Int) (r : Reservation) : Bool :=
  r.status = .reserved && !S.later r.leaseExpiresAt now

def Reservation.live (S : Stamps) (now : Int) (r : Reservation) : Bool :=
  r.status = .reserved && S.later r.leaseExpiresAt now

def sweepExpired (S : Stamps) (now : Int) (t : Reservations) : List String × Reservations :=
  let expiredIds := (t.matching fun _ r => r.lapsed S now).map Prod.fst
  (expiredIds, t.update (fun k _ => k ∈ expiredIds) fun _ r => { r with status := .expired })

/-- The decision about an operation that has a row. -/
def existing (op : String) (r : Reservation) : Decision :=
  match r.status with
  | .reserved =>
    { admitted := true, reservation := some r, explanation := .alreadyReserved r.slots op }
  | .settled => { admitted := true, reservation := some r, explanation := .alreadySettled op }
  | status =>
    { admitted := false
      refusalReason := "operation_already_" ++ status.text
      explanation := .terminal op status }

def activeRows (S : Stamps) (now : Int) (t : Reservations) : List (String × Reservation) :=
  t.matching fun _ r => r.live S now

def activeSlots (S : Stamps) (now : Int) (t : Reservations) : Int :=
  ((activeRows S now t).map fun x => x.2.slots).sum

def Limits.allowedSlots (L : Limits) (priority : Int) : Int :=
  if priority ≤ 0 then L.maxConcurrentSlots - L.repairReservedSlots else L.maxConcurrentSlots

/-- The first of the expiries in the order of their texts. -/
def firstExpiry (S : Stamps) : List Int → Option Int
  | [] => none
  | t :: ts => some (ts.foldl (fun first u => if S.later first u then u else first) t)

def activeSpend (S : Stamps) (now : Int) (t : Reservations) : ℚ :=
  (((activeRows S now t).filter fun x => !x.2.isSubscription).map fun x =>
    x.2.estimatedSpendUsd).sum

def settledSpend (S : Stamps) (now : Int) (t : Reservations) : ℚ :=
  t.total fun _ r =>
    if r.status = .settled ∧ r.isSubscription = false ∧ S.sinceMidnight r.reservedAt now then
      r.actualSpendUsd.getD 0
    else 0

def quotaRefusal (L : Limits) (q : Request) : Option Decision :=
  if q.quotaKnown = false ∧ L.unknownQuotaPolicy = .refuse then
    some
      { admitted := false
        refusalReason := "quota_unknown: explicit policy refuses reservation when provider " ++
          "quota is unknown"
        explanation := .quotaUnknown q.provider }
  else none

/-- There are not enough slots; the next instant may overflow. -/
def slotRefusal (S : Stamps) (L : Limits) (q : Request) (now : Int) (t : Reservations) :
    Option (Option Decision) :=
  let active := activeSlots S now t
  let allowed := L.allowedSlots q.priority
  if allowed < active + q.slots then
    let expiries := (activeRows S now t).map fun x => x.2.leaseExpiresAt
    let next := (firstExpiry S (expiries.filter fun u => S.later u now)).or (S.addSeconds now 60)
    let position := max 1 (active + q.slots - allowed)
    some (next.map fun next =>
      { admitted := false
        refusalReason := "capacity_exhausted"
        queuePosition := some position
        nextEligibleTime := some next
        explanation := .exhausted active allowed position next })
  else none

/-- A billed estimate is over the daily budget; the next day may overflow. -/
def budgetRefusal (S : Stamps) (L : Limits) (q : Request) (now : Int) (t : Reservations) :
    Option (Option Decision) :=
  let spent := activeSpend S now t + settledSpend S now t
  if q.isSubscription = false ∧ 0 < q.estimatedSpendUsd ∧
      L.maxDailyBudgetUsd < spent + q.estimatedSpendUsd then
    some ((S.addSeconds now 86400).map fun tomorrow =>
      { admitted := false
        refusalReason := "daily_budget_exhausted"
        nextEligibleTime := some (midnight tomorrow)
        explanation := .budget spent L.maxDailyBudgetUsd (midnight tomorrow) })
  else none

def Request.row (q : Request) (now expiresAt : Int) : Reservation where
  role := q.role
  provider := q.provider
  slots := q.slots
  estimatedSpendUsd := q.estimatedSpendUsd
  actualSpendUsd := none
  priority := q.priority
  node := q.node
  isSubscription := q.isSubscription
  reservedAt := now
  leaseExpiresAt := expiresAt
  settledAt := none
  status := .reserved

/-- `ttl_seconds or default_lease_ttl_seconds`. -/
def Request.ttl (L : Limits) (q : Request) : Int :=
  match q.ttlSeconds with
  | some 0 => L.defaultLeaseTtlSeconds
  | some n => n
  | none => L.defaultLeaseTtlSeconds

/-- The checks of a new operation, in their order: the first that refuses it. -/
def refusal (S : Stamps) (L : Limits) (q : Request) (now : Int) (t : Reservations) :
    Option (Option Decision) :=
  ((quotaRefusal L q).map some).or ((slotRefusal S L q now t).or (budgetRefusal S L q now t))

/-- `reserve`; the sweep reads a later clock.  No decision: an instant was out of range. -/
def reserve (S : Stamps) (L : Limits) (q : Request) (now sweepNow : Int) (t : Reservations) :
    Option Decision × Reservations :=
  match S.addSeconds now (q.ttl L) with
  | none => (none, t)
  | some expiresAt =>
    let t' := (sweepExpired S sweepNow t).2
    match t'.get? q.operationId with
    | some r => (some (existing q.operationId r), t')
    | none =>
      match refusal S L q now t' with
      | some decision => (decision, t')
      | none =>
        (some
          { admitted := true
            reservation := some (q.row now expiresAt)
            explanation := .admitted q.slots q.node q.operationId expiresAt },
          t'.insertNew q.operationId (q.row now expiresAt))

def charge (amount : Option ℚ) (r : Reservation) : ℚ := amount.getD r.estimatedSpendUsd

/-- The row as a settlement leaves it. -/
def Reservation.settle (r : Reservation) (amount : Option ℚ) (now : Int) : Reservation :=
  { r with
    actualSpendUsd := some (charge amount r)
    settledAt := some now
    status := .settled }

/-- `settle`, whatever the status of the row. -/
def settle (op : String) (amount : Option ℚ) (now : Int) (t : Reservations) :
    Option Reservation × Reservations :=
  match t.get? op with
  | none => (none, t)
  | some r =>
    (some (r.settle amount now), t.update (fun k _ => k = op) fun _ r => r.settle amount now)

def release (op : String) (t : Reservations) : Bool × Reservations :=
  (t.count (fun k r => k = op ∧ r.status = .reserved) > 0,
    t.update (fun k r => k = op ∧ r.status = .reserved) fun _ r => { r with status := .released })

def reconcileNodeLoss (node : String) (active : List String) (now : Int) (t : Reservations) :
    List String × Reservations :=
  let orphaned := ((t.matching fun _ r => r.node = node ∧ r.status = .reserved).map
    Prod.fst).filter fun k => k ∉ active
  (orphaned, t.update (fun k _ => k ∈ orphaned) fun _ r =>
    { r with status := .released, settledAt := some now })

section Methods

variable {S : Stamps} {L : Limits} {q : Request} {t t' : Reservations} {now sweepNow u : Int}
  {op node : String} {amount : Option ℚ} {active : List String} {r : Reservation}
  {p : String → Reservation → Bool} {f : String → Reservation → Reservation}

/-! ### A row after each method -/

theorem status_of_lapsed (h : r.lapsed S now = true) : r.status = .reserved :=
  of_decide_eq_true (Bool.and_eq_true_iff.mp h).1

theorem status_of_live (h : r.live S now = true) : r.status = .reserved :=
  of_decide_eq_true (Bool.and_eq_true_iff.mp h).1

theorem sweepExpired_eq (S : Stamps) (now : Int) (t : Reservations) :
    (sweepExpired S now t).2 =
      t.update (fun _ r => r.lapsed S now) fun _ r => { r with status := .expired } := by
  change t.update (fun k _ => k ∈ (sweepExpired S now t).1)
    (fun _ r => { r with status := .expired }) = _
  apply Table.update_congr
  intro k r hr
  have hmem : decide (k ∈ (sweepExpired S now t).1) = r.lapsed S now := by
    rw [Bool.eq_iff_iff, decide_eq_true_iff]
    exact Table.mem_keys_matching hr
  rw [hmem]

theorem settle_eq (op : String) (amount : Option ℚ) (now : Int) (t : Reservations) :
    (settle op amount now t).2 =
      t.update (fun k _ => k = op) fun _ r => r.settle amount now := by
  unfold settle
  cases hop : t.get? op with
  | none =>
    dsimp only
    refine (Table.update_eq_self fun k r hr => ?_).symm
    rw [decide_eq_false_iff_not]
    rintro rfl
    rw [hop] at hr
    cases hr
  | some r => rfl

theorem release_eq (op : String) (t : Reservations) :
    (release op t).2 = t.update (fun k r => k = op ∧ r.status = .reserved) fun _ r =>
      { r with status := .released } := rfl

theorem reconcileNodeLoss_eq (node : String) (active : List String) (now : Int)
    (t : Reservations) :
    (reconcileNodeLoss node active now t).2 =
      t.update (fun k r => r.node = node ∧ r.status = .reserved ∧ k ∉ active) fun _ r =>
        { r with status := .released, settledAt := some now } := by
  change t.update (fun k _ => k ∈ (reconcileNodeLoss node active now t).1)
    (fun _ r => { r with status := .released, settledAt := some now }) = _
  apply Table.update_congr
  intro k r hr
  have hmem : decide (k ∈ (reconcileNodeLoss node active now t).1) =
      decide (r.node = node ∧ r.status = .reserved ∧ k ∉ active) := by
    rw [decide_eq_decide]
    change k ∈ List.filter _ _ ↔ _
    rw [List.mem_filter, Table.mem_keys_matching hr, decide_eq_true_iff, decide_eq_true_iff,
      and_assoc]
  rw [hmem]

theorem get?_sweepExpired (S : Stamps) (now : Int) (t : Reservations) (k : String) :
    (sweepExpired S now t).2.get? k =
      (t.get? k).map fun r => if r.lapsed S now then { r with status := .expired } else r := by
  rw [sweepExpired_eq, Table.get?_update]

/-! ### The slots that are held -/

theorem activeSlots_eq (S : Stamps) (now : Int) (t : Reservations) :
    activeSlots S now t = t.total fun _ r => if r.live S now then r.slots else 0 :=
  Table.sum_matching t (fun _ r => r.live S now) Reservation.slots

/-- No row has a negative number of slots. -/
def Counted (t : Reservations) : Prop := ∀ k r, t.get? k = some r → 0 ≤ r.slots

theorem Counted.update (h : Counted t) (hf : ∀ k r, (f k r).slots = r.slots) :
    Counted (t.update p f) := by
  intro k r hr
  rw [Table.get?_update] at hr
  obtain ⟨r', hr', rfl⟩ := Option.map_eq_some_iff.mp hr
  split
  · rw [hf]
    exact h k r' hr'
  · exact h k r' hr'

/-- **An update that reserves nothing holds no more slots.** -/
theorem activeSlots_update_le (h : Counted t) (hf : ∀ k r, (f k r).status ≠ .reserved) :
    activeSlots S now (t.update p f) ≤ activeSlots S now t := by
  rw [activeSlots_eq, activeSlots_eq, Table.total_update]
  apply Table.total_le
  intro k r hr
  by_cases hp : p k r = true
  · have hdead : ¬ (f k r).live S now = true := fun hlive =>
      hf k r (of_decide_eq_true (Bool.and_eq_true_iff.mp hlive).1)
    rw [if_pos hp, if_neg hdead]
    split
    · exact h k r hr
    · exact le_rfl
  · rw [if_neg hp]

/-! ### What a reserve can do -/

/-- A new operation is admitted with its slots in the limit, and in the budget if it is billed. -/
theorem refusal_eq_none_iff :
    refusal S L q now t = none ↔
      ¬ (q.quotaKnown = false ∧ L.unknownQuotaPolicy = .refuse) ∧
      activeSlots S now t + q.slots ≤ L.allowedSlots q.priority ∧
      (q.isSubscription = false → 0 < q.estimatedSpendUsd →
        activeSpend S now t + settledSpend S now t + q.estimatedSpendUsd ≤
          L.maxDailyBudgetUsd) := by
  unfold refusal quotaRefusal slotRefusal budgetRefusal
  rw [Option.or_eq_none_iff, Option.or_eq_none_iff, Option.map_eq_none_iff]
  dsimp only
  rw [ite_eq_right_iff, ite_eq_right_iff, ite_eq_right_iff]
  simp only [reduceCtorEq, imp_false, not_lt, not_and]

/-- **What a reserve can do**: fail on an instant that is out of range, answer from the row that
is there, refuse, or insert a new row. -/
theorem reserve_cases (S : Stamps) (L : Limits) (q : Request) (now sweepNow : Int)
    (t : Reservations) :
    (S.addSeconds now (q.ttl L) = none ∧ reserve S L q now sweepNow t = (none, t)) ∨
    (∃ r, (sweepExpired S sweepNow t).2.get? q.operationId = some r ∧
      reserve S L q now sweepNow t =
        (some (existing q.operationId r), (sweepExpired S sweepNow t).2)) ∨
    (∃ d, (sweepExpired S sweepNow t).2.get? q.operationId = none ∧
      refusal S L q now (sweepExpired S sweepNow t).2 = some d ∧
      reserve S L q now sweepNow t = (d, (sweepExpired S sweepNow t).2)) ∨
    ∃ expiresAt d, S.addSeconds now (q.ttl L) = some expiresAt ∧
      (sweepExpired S sweepNow t).2.get? q.operationId = none ∧
      refusal S L q now (sweepExpired S sweepNow t).2 = none ∧ d.admitted = true ∧
      reserve S L q now sweepNow t =
        (some d, (sweepExpired S sweepNow t).2.insertNew q.operationId (q.row now expiresAt)) := by
  unfold reserve
  cases hexpires : S.addSeconds now (q.ttl L) with
  | none => exact .inl ⟨rfl, rfl⟩
  | some expiresAt =>
    dsimp only
    cases hrow : (sweepExpired S sweepNow t).2.get? q.operationId with
    | some r => exact .inr (.inl ⟨r, rfl, rfl⟩)
    | none =>
      cases hrefusal : refusal S L q now (sweepExpired S sweepNow t).2 with
      | some d => exact .inr (.inr (.inl ⟨d, rfl, rfl, rfl⟩))
      | none => exact .inr (.inr (.inr ⟨expiresAt, _, rfl, rfl, rfl, rfl, rfl⟩))

theorem reserve_eq_insertNew {expiresAt : Int}
    (hexpires : S.addSeconds now (q.ttl L) = some expiresAt)
    (hnone : (sweepExpired S sweepNow t).2.get? q.operationId = none)
    (hchecks : refusal S L q now (sweepExpired S sweepNow t).2 = none) :
    (reserve S L q now sweepNow t).2 =
      (sweepExpired S sweepNow t).2.insertNew q.operationId (q.row now expiresAt) := by
  unfold reserve
  rw [hexpires]
  dsimp only
  rw [hnone]
  dsimp only
  rw [hchecks]

end Methods

end Capacity
