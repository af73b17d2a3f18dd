import Mathlib.Tactic.Linarith
import RunnerDashboard.Lib.IsoTime
import RunnerDashboard.Staff.CapacityRuns

/-!
# The daily budget

The store compares the texts of its timestamps.  Two texts of one second, of which only one has a
fraction, are in the wrong order: a lease is taken for lapsed or for live, and a reservation of the
first second of a day is not found in that day.

## Main results

* `budget_exact_iff` — **the budget is exact if and only if the rows are well stamped**.
-/

namespace Capacity

open Sql Lts IsoTime

/-! ### The texts of the store -/

/-- The texts of `datetime.isoformat`, compared as strings. -/
def Stamps.iso : Stamps where
  holds t := 0 ≤ t ∧ t < maxInstant
  later x y := isoText y.toNat < isoText x.toNat
  sinceMidnight x y := !decide (isoText x.toNat < (isoText y.toNat).take 10 ++ "T00:00:00Z".toList)

/-- Two instants of one second, of which only one is whole. -/
def Blurred (x y : Int) : Prop :=
  x / second = y / second ∧ ¬ (x % second = 0 ↔ y % second = 0)

def Call.readings : Call → List Int
  | .reserve _ now sweepNow => [now, sweepNow]
  | .settle _ _ now => [now]
  | .release _ => []
  | .sweep now => [now]
  | .reconcile _ _ now => [now]

/-- A call after the calls before it; the clock reads what `datetime` can represent. -/
def SequentialStep (S : Stamps) (L : Limits) (w : Fleet) (c : Call) (w' : Fleet) : Prop :=
  FleetStep S L w c w' ∧ ∀ u ∈ c.readings, w.clock ≤ u ∧ S.holds u = true

def liveBilled (u : Int) (t : Reservations) : ℚ :=
  t.total fun _ r =>
    if r.status = .reserved ∧ r.isSubscription = false ∧ u < r.leaseExpiresAt then
      r.estimatedSpendUsd
    else 0

/-- What was spent for the billed reservations of the day. -/
def settledOn (u : Int) (t : Reservations) : ℚ :=
  t.total fun _ r =>
    if r.status = .settled ∧ r.isSubscription = false ∧ midnight r.reservedAt = midnight u then
      r.actualSpendUsd.getD 0
    else 0

/-- What was spent for those of the first second of the day, but for the midnight itself. -/
def firstSecondSpend (u : Int) (t : Reservations) : ℚ :=
  t.total fun _ r =>
    if r.status = .settled ∧ r.isSubscription = false ∧ midnight u < r.reservedAt ∧
        r.reservedAt < midnight u + second then
      r.actualSpendUsd.getD 0
    else 0

/-- **The budget is exact**: the tests for a live lease agree with the instants, and a new billed
reservation is stored only within the budget. -/
structure ExactBudget (S : Stamps) (t : Reservations) (now sweepNow : Int) : Prop where
  agrees : ∀ k r, t.get? k = some r → r.status = .reserved →
    ∀ u, u = now ∨ u = sweepNow → (S.later r.leaseExpiresAt u = true ↔ u < r.leaseExpiresAt)
  admits : ∀ (L : Limits) (q : Request), q.isSubscription = false → 0 < q.estimatedSpendUsd →
    t.get? q.operationId = none →
    ((reserve S L q now sweepNow t).2.get? q.operationId).isSome = true →
      liveBilled sweepNow t + settledOn now t + q.estimatedSpendUsd ≤ L.maxDailyBudgetUsd

/-- No reserved row has a lease that is blurred with a clock reading, and the first second of the
day has no spend. -/
structure WellStamped (t : Reservations) (now sweepNow : Int) : Prop where
  leases : ∀ k r, t.get? k = some r → r.status = .reserved →
    ∀ u, u = now ∨ u = sweepNow → ¬ Blurred r.leaseExpiresAt u
  firstSecond : firstSecondSpend now t ≤ 0

/-- The timestamps of the rows are in the range, and none was reserved later. -/
def Dated (S : Stamps) (clock : Int) (t : Reservations) : Prop :=
  ∀ k r, t.get? k = some r → S.holds r.reservedAt = true ∧ S.holds r.leaseExpiresAt = true ∧
    r.reservedAt ≤ clock

section Budget

variable {L : Limits} {q : Request} {t : Reservations} {now sweepNow u x y : Int} {k : String}
  {r : Reservation} {w w' : Fleet} {c : Call} {cs : List Call} {start : Int} {S : Stamps}

/-! ### How the texts compare -/

theorem iso_holds_iff : Stamps.iso.holds x = true ↔ 0 ≤ x ∧ x < maxInstant := decide_eq_true_iff

theorem toNat_lt_of_holds (hx : Stamps.iso.holds x = true) : x.toNat < maxInstant := by
  obtain ⟨hpos, hlt⟩ := iso_holds_iff.mp hx
  omega

theorem oneWhole_iff (hx : 0 ≤ x) (hy : 0 ≤ y) : OneWhole x.toNat y.toNat ↔ Blurred x y := by
  obtain ⟨a, rfl⟩ := Int.eq_ofNat_of_zero_le hx
  obtain ⟨b, rfl⟩ := Int.eq_ofNat_of_zero_le hy
  unfold OneWhole Blurred second
  rw [Int.toNat_natCast, Int.toNat_natCast]
  omega

/-- **The liveness test agrees with the instants, unless they are blurred.** -/
theorem iso_later_iff (hx : Stamps.iso.holds x = true) (hy : Stamps.iso.holds y = true) :
    (Stamps.iso.later x y = true ↔ y < x) ↔ ¬ Blurred x y := by
  have hx0 := (iso_holds_iff.mp hx).1
  have hy0 := (iso_holds_iff.mp hy).1
  have htext := isoText_lt_iff_lt_iff (toNat_lt_of_holds hy) (toNat_lt_of_holds hx)
  have hlater : Stamps.iso.later x y = true ↔ isoText y.toNat < isoText x.toNat :=
    decide_eq_true_iff
  have hblur : OneWhole y.toNat x.toNat ↔ Blurred x y :=
    ⟨fun h => (oneWhole_iff hx0 hy0).mp h.symm, fun h => ((oneWhole_iff hx0 hy0).mpr h).symm⟩
  rw [hlater, ← hblur, ← htext, show (y < x ↔ y.toNat < x.toNat) by omega]

/-- **The test for the day leaves out the first second, but for the midnight itself.** -/
theorem iso_sinceMidnight (hx : Stamps.iso.holds x = true) (hy : Stamps.iso.holds y = true) :
    Stamps.iso.sinceMidnight x y = true ↔
      midnight y ≤ x ∧ ¬ (midnight y < x ∧ x < midnight y + second) := by
  obtain ⟨hy0, hymax⟩ := iso_holds_iff.mp hy
  have hx0 := (iso_holds_iff.mp hx).1
  obtain ⟨b, rfl⟩ := Int.eq_ofNat_of_zero_le hy0
  obtain ⟨a, rfl⟩ := Int.eq_ofNat_of_zero_le hx0
  have hb : b < maxInstant := by omega
  have ha : a < maxInstant := toNat_lt_of_holds hx
  have hmid : midnight (b : Int) = ((b / 86400000000 * 86400000000 : ℕ) : Int) := by
    unfold midnight day second
    omega
  unfold Stamps.iso
  dsimp only
  rw [Int.toNat_natCast, Int.toNat_natCast, ← isoText_midnight hb, Bool.not_eq_true',
    decide_eq_false_iff_not,
    isoText_lt_iff ha (show b / 86400000000 * 86400000000 < maxInstant by omega), hmid]
  unfold second
  by_cases hwhole : OneWhole a (b / 86400000000 * 86400000000)
  · rw [if_pos hwhole]
    obtain ⟨hsec, hmod⟩ := hwhole
    omega
  · rw [if_neg hwhole]
    unfold OneWhole at hwhole
    omega

/-! ### The dates of the rows -/

theorem Dated.update (h : Dated S x t) {p : String → Reservation → Bool}
    {f : String → Reservation → Reservation} (hxy : x ≤ y)
    (hf : ∀ k r, (f k r).reservedAt = r.reservedAt ∧ (f k r).leaseExpiresAt = r.leaseExpiresAt) :
    Dated S y (t.update p f) := by
  intro k r hr
  rw [Table.get?_update] at hr
  obtain ⟨r', hr', rfl⟩ := Option.map_eq_some_iff.mp hr
  obtain ⟨hreserved, hlease, hle⟩ := h k r' hr'
  split
  · rw [(hf k r').1, (hf k r').2]
    exact ⟨hreserved, hlease, hle.trans hxy⟩
  · exact ⟨hreserved, hlease, hle.trans hxy⟩

theorem Dated.sweep (h : Dated S x t) (hxy : x ≤ y) (now : Int) :
    Dated S y (sweepExpired S now t).2 := by
  rw [sweepExpired_eq]
  exact h.update hxy fun _ _ => ⟨rfl, rfl⟩

theorem holds_addSeconds {seconds : Int} (h : S.addSeconds x seconds = some y) :
    S.holds y = true := by
  unfold Stamps.addSeconds at h
  split_ifs at h with hholds
  rw [← Option.some.inj h]
  exact hholds

theorem Dated.reserve (h : Dated S x t) (hx : x ≤ sweepNow) (hnow : now ≤ sweepNow)
    (hholds : S.holds now = true) : Dated S sweepNow (reserve S L q now sweepNow t).2 := by
  rcases reserve_cases S L q now sweepNow t with
    ⟨-, heq⟩ | ⟨r, -, heq⟩ | ⟨d, -, -, heq⟩ | ⟨expiresAt, d, hexpires, hnone, -, -, heq⟩
  · rw [heq]
    exact fun k r hr => ⟨(h k r hr).1, (h k r hr).2.1, (h k r hr).2.2.trans hx⟩
  · rw [heq]
    exact h.sweep hx _
  · rw [heq]
    exact h.sweep hx _
  · rw [heq]
    intro k r hr
    rw [Table.get?_insertNew, hnone] at hr
    split_ifs at hr
    · rw [← Option.some.inj hr]
      exact ⟨hholds, holds_addSeconds hexpires, hnow⟩
    · exact h.sweep hx _ k r hr

theorem Dated.step (h : Dated S w.clock w.table) (hs : SequentialStep S L w c w') :
    Dated S w'.clock w'.table := by
  obtain ⟨⟨hforward, htimely, htable, hclock⟩, hread⟩ := hs
  rw [htable, hclock]
  cases c with
  | reserve q now sweepNow =>
    exact h.reserve hforward htimely (hread now List.mem_cons_self).2
  | settle op amount now =>
    dsimp only [Call.after]
    rw [settle_eq]
    exact h.update hforward fun _ _ => ⟨rfl, rfl⟩
  | release op =>
    dsimp only [Call.after]
    rw [release_eq]
    exact h.update hforward fun _ _ => ⟨rfl, rfl⟩
  | sweep now => exact h.sweep hforward _
  | reconcile node active now =>
    dsimp only [Call.after]
    rw [reconcileNodeLoss_eq]
    exact h.update hforward fun _ _ => ⟨rfl, rfl⟩

theorem dated_boot : Dated S start (Fleet.boot start).table := by
  intro k r hr
  rw [show (Fleet.boot start).table.get? k = none from Table.get?_empty k] at hr
  cases hr

/-! ### The sums of the code -/

theorem activeSpend_eq (S : Stamps) (now : Int) (t : Reservations) :
    activeSpend S now t = t.total fun _ r =>
      if (r.live S now && !r.isSubscription) = true then r.estimatedSpendUsd else 0 := by
  rw [← Table.sum_matching t (fun _ r => r.live S now && !r.isSubscription)
    Reservation.estimatedSpendUsd]
  unfold activeSpend activeRows Table.matching
  rw [List.filter_filter]
  simp only [Bool.and_comm]

/-- After the sweep, the active rows are those whose leases are live at its instant. -/
theorem activeSpend_sweep (hagrees : ∀ k r, t.get? k = some r → r.status = .reserved →
      ∀ u, u = now ∨ u = sweepNow → (S.later r.leaseExpiresAt u = true ↔ u < r.leaseExpiresAt))
    (hsweep : now ≤ sweepNow) :
    activeSpend S now (sweepExpired S sweepNow t).2 = liveBilled sweepNow t := by
  rw [activeSpend_eq, sweepExpired_eq, Table.total_update]
  unfold liveBilled
  apply Table.total_congr
  intro k r hr
  by_cases hstatus : r.status = .reserved
  · have hnow := hagrees k r hr hstatus now (.inl rfl)
    have hlater := hagrees k r hr hstatus sweepNow (.inr rfl)
    by_cases hlive : sweepNow < r.leaseExpiresAt
    · have hkept : ¬ r.lapsed S sweepNow = true := by
        unfold Reservation.lapsed
        rw [hlater.mpr hlive]
        simp
      have hactive : r.live S now = true :=
        Bool.and_eq_true_iff.mpr ⟨decide_eq_true hstatus, hnow.mpr (by omega)⟩
      rw [if_neg hkept, hactive, Bool.true_and]
      simp [hstatus, hlive]
    · have hlapsed : r.lapsed S sweepNow = true := by
        unfold Reservation.lapsed
        rw [decide_eq_true hstatus, Bool.true_and, Bool.not_eq_true']
        exact Bool.eq_false_iff.mpr fun h => hlive (hlater.mp h)
      have hdead : ¬ (({ r with status := .expired } : Reservation).live S now &&
          !r.isSubscription) = true := fun h =>
        nomatch status_of_live (Bool.and_eq_true_iff.mp h).1
      rw [if_pos hlapsed, if_neg hdead, if_neg fun h => hlive h.2.2]
  · rw [if_neg fun h => hstatus (status_of_lapsed h),
      if_neg fun h => hstatus (status_of_live (Bool.and_eq_true_iff.mp h).1),
      if_neg fun h => hstatus h.1]

theorem settledSpend_sweep (S : Stamps) (now sweepNow : Int) (t : Reservations) :
    settledSpend S now (sweepExpired S sweepNow t).2 = settledSpend S now t := by
  unfold settledSpend
  rw [sweepExpired_eq, Table.total_update]
  apply Table.total_congr
  intro k r hr
  by_cases hlapsed : r.lapsed S sweepNow = true
  · have hreserved := status_of_lapsed hlapsed
    rw [if_pos hlapsed]
    simp [hreserved]
  · rw [if_neg hlapsed]

/-- **The day's spend is what the code finds and what the first second hides.** -/
theorem settledOn_eq (hdated : Dated .iso u t) (hu : u ≤ now)
    (hholds : Stamps.iso.holds now = true) :
    settledOn now t = settledSpend .iso now t + firstSecondSpend now t := by
  unfold settledOn settledSpend firstSecondSpend
  rw [← Table.total_add]
  apply Table.total_congr
  intro k r hr
  obtain ⟨hreserved, -, hle⟩ := hdated k r hr
  have hsince := iso_sinceMidnight hreserved hholds
  have hday : midnight r.reservedAt = midnight now ↔ midnight now ≤ r.reservedAt := by
    unfold midnight day second
    omega
  by_cases hbilled : r.status = .settled ∧ r.isSubscription = false
  · simp only [hbilled.1, hbilled.2, true_and, hsince, hday]
    by_cases hfirst : midnight now < r.reservedAt ∧ r.reservedAt < midnight now + second
    · rw [if_pos hfirst.1.le, if_neg fun h => h.2 hfirst, if_pos hfirst, zero_add]
    · rw [if_neg hfirst, add_zero]
      simp only [hfirst, not_false_eq_true, and_true]
  · rw [if_neg fun h => hbilled ⟨h.1, h.2.1⟩, if_neg fun h => hbilled ⟨h.1, h.2.1⟩,
      if_neg fun h => hbilled ⟨h.1, h.2.1⟩, add_zero]

/-! ### When the budget is exact -/

def oneDollar (op : String) : Request :=
  { operationId := op, role := "", provider := "", estimatedSpendUsd := 1, priority := 1 }

def justEnough (S : Stamps) (now : Int) (t : Reservations) : Limits where
  maxConcurrentSlots := (activeSlots S now t + 1).toNat
  maxDailyBudgetUsd := activeSpend S now t + settledSpend S now t + 1
  defaultLeaseTtlSeconds := 0

theorem settledOn_le_of_exact (h : ExactBudget S t now sweepNow) (hnow : now ≤ sweepNow)
    (hholds : S.holds now = true) : settledOn now t ≤ settledSpend S now t := by
  obtain ⟨op, hop⟩ := t.exists_get?_eq_none
  have hnew : (sweepExpired S sweepNow t).2.get? op = none := by
    rw [get?_sweepExpired, hop]
    rfl
  have hexpires : S.addSeconds now ((oneDollar op).ttl (justEnough S now
      (sweepExpired S sweepNow t).2)) = some now := by
    change (if S.holds (now + 0 * second) = true then some (now + 0 * second) else none) = some now
    rw [Int.zero_mul, Int.add_zero, if_pos hholds]
  have hchecks : refusal S (justEnough S now (sweepExpired S sweepNow t).2) (oneDollar op) now
      (sweepExpired S sweepNow t).2 = none := by
    rw [refusal_eq_none_iff]
    refine ⟨fun hquota => (nomatch hquota.1), ?_, fun _ _ => le_rfl⟩
    change activeSlots S now (sweepExpired S sweepNow t).2 + 1 ≤
      ((activeSlots S now (sweepExpired S sweepNow t).2 + 1).toNat : Int)
    omega
  have hfits := h.admits (justEnough S now (sweepExpired S sweepNow t).2) (oneDollar op) rfl
    one_pos hop (by
      rw [reserve_eq_insertNew (q := oneDollar op) hexpires hnew hchecks, Table.get?_insertNew,
        if_pos rfl]
      rfl)
  have hactive := activeSpend_sweep h.agrees hnow
  have hsettled := settledSpend_sweep S now sweepNow t
  change liveBilled sweepNow t + settledOn now t + 1 ≤
    activeSpend S now (sweepExpired S sweepNow t).2 +
      settledSpend S now (sweepExpired S sweepNow t).2 + 1 at hfits
  rw [hactive, hsettled] at hfits
  linarith

/-- If the tests agree and the code finds all that was spent, the budget is exact. -/
theorem admits_of_settledOn_le (hagrees : ∀ k r, t.get? k = some r → r.status = .reserved →
      ∀ u, u = now ∨ u = sweepNow → (S.later r.leaseExpiresAt u = true ↔ u < r.leaseExpiresAt))
    (hnow : now ≤ sweepNow) (hle : settledOn now t ≤ settledSpend S now t) (L : Limits)
    (hbilled : q.isSubscription = false) (hspend : 0 < q.estimatedSpendUsd)
    (hnew : t.get? q.operationId = none)
    (hstored : ((reserve S L q now sweepNow t).2.get? q.operationId).isSome = true) :
    liveBilled sweepNow t + settledOn now t + q.estimatedSpendUsd ≤ L.maxDailyBudgetUsd := by
  have hswept : (sweepExpired S sweepNow t).2.get? q.operationId = none := by
    rw [get?_sweepExpired, hnew]
    rfl
  rcases reserve_cases S L q now sweepNow t with
    ⟨-, heq⟩ | ⟨r, hrow, -⟩ | ⟨d, -, -, heq⟩ | ⟨expiresAt, d, -, -, hchecks, -, -⟩
  · rw [heq, hnew] at hstored
    cases hstored
  · rw [hswept] at hrow
    cases hrow
  · rw [heq, hswept] at hstored
    cases hstored
  · have hfits := (refusal_eq_none_iff.mp hchecks).2.2 hbilled hspend
    rw [activeSpend_sweep hagrees hnow, settledSpend_sweep] at hfits
    linarith

/-- **The daily budget is exact if and only if the rows are well stamped**, in every state of every
run of calls, for every pair of readings with which a reserve looks at it. -/
theorem budget_exact_iff (p : Path (SequentialStep .iso L) (.boot start) cs w)
    (hclock : w.clock ≤ now) (hnow : now ≤ sweepNow) (hholds : Stamps.iso.holds now = true)
    (hsweep : Stamps.iso.holds sweepNow = true) :
    ExactBudget .iso w.table now sweepNow ↔ WellStamped w.table now sweepNow := by
  have hdated : Dated .iso w.clock w.table :=
    p.invariant (I := fun w => Dated .iso w.clock w.table) (fun _ _ _ h hs => h.step hs) dated_boot
  have hday := settledOn_eq hdated hclock hholds
  have hlater : ∀ k r, w.table.get? k = some r → ∀ u, u = now ∨ u = sweepNow →
      ((Stamps.iso.later r.leaseExpiresAt u = true ↔ u < r.leaseExpiresAt) ↔
        ¬ Blurred r.leaseExpiresAt u) := by
    rintro k r hr u (rfl | rfl)
    · exact iso_later_iff (hdated k r hr).2.1 hholds
    · exact iso_later_iff (hdated k r hr).2.1 hsweep
  constructor
  · intro hexact
    refine ⟨fun k r hr hstatus u hu => (hlater k r hr u hu).mp (hexact.agrees k r hr hstatus u hu),
      ?_⟩
    have hle := settledOn_le_of_exact hexact hnow hholds
    linarith
  · intro hstamped
    have hagrees := fun k r hr hstatus u hu =>
      (hlater k r hr u hu).mpr (hstamped.leases k r hr hstatus u hu)
    refine ⟨hagrees, fun L q hbilled hspend hnew hstored => ?_⟩
    have hfirst := hstamped.firstSecond
    exact admits_of_settledOn_le hagrees hnow (by linarith) L hbilled hspend hnew hstored

def summerDay : Int := 739826 * day

def sixtyDollars : Request :=
  { operationId := "op", role := "role", provider := "provider", estimatedSpendUsd := 60 }

def sixtyRow (now : Int) : Reservation := sixtyDollars.row now (now + 600 * second)

def sixtyFleet (now : Int) : Fleet :=
  ⟨(settle "op" none (now + second) (Table.empty.insertNew "op" (sixtyRow now))).2, now + second⟩

theorem path_sixtyFleet (now : Int) (hholds : Stamps.iso.holds now = true)
    (hlater : Stamps.iso.holds (now + second) = true)
    (hexpires : Stamps.iso.holds (now + 600 * second) = true) :
    Path (SequentialStep .iso {}) (.boot now)
      [.reserve sixtyDollars now now, .settle "op" none (now + second)] (sixtyFleet now) := by
  have hrow : (reserve .iso {} sixtyDollars now now Table.empty).2 =
      Table.empty.insertNew "op" (sixtyRow now) := by
    refine reserve_eq_insertNew (q := sixtyDollars) (if_pos hexpires) rfl ?_
    rw [refusal_eq_none_iff]
    refine ⟨fun hquota => (nomatch hquota.1), show (0 : Int) + 1 ≤ 10 - 2 by decide,
      fun _ _ => ?_⟩
    change (0 : ℚ) + 0 + 60 ≤ 100
    norm_num
  refine .cons (t := ⟨Table.empty.insertNew "op" (sixtyRow now), now⟩)
    ⟨⟨le_refl now, le_refl now, hrow.symm, rfl⟩, fun u hu => ?_⟩
    (.single ⟨⟨?_, trivial, rfl, rfl⟩, fun u hu => ?_⟩)
  · simp only [Call.readings, List.mem_cons, List.not_mem_nil, or_false, or_self] at hu
    rw [hu]
    exact ⟨le_refl now, hholds⟩
  · change now ≤ now + second
    unfold second
    omega
  · rw [List.mem_singleton.mp hu]
    refine ⟨?_, hlater⟩
    change now ≤ now + second
    unfold second
    omega

theorem get?_sixtyFleet (h : (sixtyFleet now).table.get? k = some r) :
    r = (sixtyRow now).settle none (now + second) := by
  change (settle "op" none (now + second) (Table.empty.insertNew "op" (sixtyRow now))).2.get? k =
    some r at h
  rw [settle_eq, Table.get?_update, Table.get?_insertNew] at h
  obtain ⟨r', hr', rfl⟩ := Option.map_eq_some_iff.mp h
  split_ifs at hr' with hk
  · rw [if_pos (decide_eq_true hk), ← Option.some.inj hr']
    rfl
  · cases hr'

theorem firstSecondSpend_sixtyFleet (now u : Int) :
    firstSecondSpend u (sixtyFleet now).table =
      if midnight u < now ∧ now < midnight u + second then 60 else 0 := by
  have hnew : (Table.empty : Reservations).get? "op" = none := rfl
  unfold firstSecondSpend
  change (settle "op" none (now + second) (Table.empty.insertNew "op" (sixtyRow now))).2.total _ = _
  rw [settle_eq, Table.total_update, Table.total_insertNew hnew]
  change (0 : ℚ) + (if Status.settled = Status.settled ∧ false = false ∧ midnight u < now ∧
    now < midnight u + second then 60 else 0) = _
  simp

/-- A reservation at midnight is found at noon. -/
theorem budget_exact_iff_midnight :
    ExactBudget .iso (sixtyFleet summerDay).table (summerDay + 43200 * second)
      (summerDay + 43200 * second) := by
  refine (budget_exact_iff (path_sixtyFleet _ (by decide) (by decide) (by decide)) (by decide)
    le_rfl (by decide) (by decide)).mpr ⟨fun k r hr hstatus => ?_, ?_⟩
  · rw [get?_sixtyFleet hr] at hstatus
    cases hstatus
  · rw [firstSecondSpend_sixtyFleet, if_neg (by decide)]

/-- A reservation half a second after midnight is not found at noon. -/
theorem first_second_uncounted :
    ¬ ∀ (L : Limits) (start : Int) (cs : List Call) (w : Fleet) (now sweepNow : Int),
      Path (SequentialStep .iso L) (.boot start) cs w → w.clock ≤ now → now ≤ sweepNow →
      Stamps.iso.holds now = true → Stamps.iso.holds sweepNow = true →
      ExactBudget .iso w.table now sweepNow := by
  intro h
  have hpath := path_sixtyFleet (summerDay + 500000) (by decide) (by decide) (by decide)
  have hexact := h {} _ _ _ (summerDay + 43200 * second) (summerDay + 43200 * second) hpath
    (by decide) le_rfl (by decide) (by decide)
  have hdated : Dated .iso _ _ :=
    hpath.invariant (I := fun w => Dated .iso w.clock w.table)
      (fun _ _ _ h hs => h.step hs) dated_boot
  have hday : settledOn (summerDay + 43200 * second) _ = _ :=
    settledOn_eq hdated (by decide) (by decide)
  have hle := settledOn_le_of_exact hexact le_rfl (by decide)
  rw [firstSecondSpend_sixtyFleet, if_pos (by decide)] at hday
  linarith

end Budget

end Capacity
