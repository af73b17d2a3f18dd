import RunnerDashboard.Lib.Path
import RunnerDashboard.Staff.Capacity

/-!
# Runs of the capacity store

Calls of the five methods in any order, with clocks that do not go back.  A reserve reads its
clock before it takes the lock, and its sweep reads a later one.

## Main results

* `capacity_bounded` — **the slots of live leases stay within the limit**, in every run.
* `settled_after_release` — a released row is charged.
-/

namespace Capacity

open Sql Lts

/-! ### Calls -/

inductive Call
  | reserve (q : Request) (now sweepNow : Int)
  | settle (op : String) (amount : Option ℚ) (now : Int)
  | release (op : String)
  | sweep (now : Int)
  | reconcile (node : String) (active : List String) (now : Int)

def Call.after (S : Stamps) (L : Limits) (t : Reservations) : Call → Reservations
  | .reserve q now sweepNow => (Capacity.reserve S L q now sweepNow t).2
  | .settle op amount now => (Capacity.settle op amount now t).2
  | .release op => (Capacity.release op t).2
  | .sweep now => (sweepExpired S now t).2
  | .reconcile node active now => (reconcileNodeLoss node active now t).2

def Call.last (clock : Int) : Call → Int
  | .reserve _ _ sweepNow => sweepNow
  | .settle _ _ now => now
  | .release _ => clock
  | .sweep now => now
  | .reconcile _ _ now => now

/-- A reserve's own reading is not later than its sweep's. -/
def Call.Timely : Call → Prop
  | .reserve _ now sweepNow => now ≤ sweepNow
  | _ => True

def Call.Slotted : Call → Prop
  | .reserve q _ _ => 1 ≤ q.slots
  | _ => True

/-- The store, and the last reading of the clock. -/
structure Fleet where
  table : Reservations
  clock : Int

/-- The store without rows. -/
def Fleet.boot (clock : Int) : Fleet := ⟨Table.empty, clock⟩

structure FleetStep (S : Stamps) (L : Limits) (w : Fleet) (c : Call) (w' : Fleet) : Prop where
  forward : w.clock ≤ c.last w.clock
  timely : c.Timely
  table : w'.table = c.after S L w.table
  clock : w'.clock = c.last w.clock

def SlottedStep (S : Stamps) (L : Limits) (w : Fleet) (c : Call) (w' : Fleet) : Prop :=
  FleetStep S L w c w' ∧ c.Slotted

/-- The texts are ordered like their instants. -/
def Stamps.Ordered (S : Stamps) : Prop := ∀ x y, S.later x y = true ↔ y < x

/-- What a reserve keeps: the headroom for repairs, the row that is there but for the sweep's mark,
one row for each operation, and the rows if it refuses. -/
structure ReserveLaw (S : Stamps) (L : Limits) (t : Reservations) (q : Request)
    (now sweepNow : Int) : Prop where
  headroom : q.priority ≤ 0 → t.get? q.operationId = none →
    ((reserve S L q now sweepNow t).2.get? q.operationId).isSome = true →
      ∀ u, now ≤ u → activeSlots S u (reserve S L q now sweepNow t).2 ≤
        L.maxConcurrentSlots - L.repairReservedSlots
  kept : ∀ r, t.get? q.operationId = some r →
    (reserve S L q now sweepNow t).2.get? q.operationId = some r ∨
      r.lapsed S sweepNow = true ∧ (reserve S L q now sweepNow t).2.get? q.operationId =
        some { r with status := .expired }
  unique : ((reserve S L q now sweepNow t).2.rows.map Prod.fst).Nodup
  refused : (reserve S L q now sweepNow t).1.any Decision.admitted = false →
    (reserve S L q now sweepNow t).2.rows.map Prod.fst = t.rows.map Prod.fst

/-- The settlement finds its row reserved, or charges what was charged. -/
def SettlesOnce (t : Reservations) : Call → Prop
  | .settle op amount _ => ∀ r, t.get? op = some r → r.status = .reserved ∨
      r.status = .settled ∧ r.actualSpendUsd = some (charge amount r)
  | _ => True

def OnceStep (S : Stamps) (L : Limits) (w : Fleet) (c : Call) (w' : Fleet) : Prop :=
  FleetStep S L w c w' ∧ SettlesOnce w.table c

section Runs

variable {S : Stamps} {L : Limits} {q : Request} {t : Reservations} {now sweepNow u v : Int}
  {op k : String} {amount : Option ℚ} {r : Reservation} {w w' w'' : Fleet} {c : Call}
  {cs cs' : List Call} {start : Int}

/-! ### The slots of live leases -/

theorem live_of_le (hS : S.Ordered) (huv : u ≤ v) (h : r.live S v = true) :
    r.live S u = true := by
  obtain ⟨hstatus, hlater⟩ := Bool.and_eq_true_iff.mp h
  have hlease := (hS _ _).mp hlater
  exact Bool.and_eq_true_iff.mpr ⟨hstatus, (hS _ _).mpr (by omega)⟩

/-- **As time passes, no more slots are held.** -/
theorem activeSlots_anti (hS : S.Ordered) (ht : Counted t) (huv : u ≤ v) :
    activeSlots S v t ≤ activeSlots S u t := by
  rw [activeSlots_eq, activeSlots_eq]
  apply Table.total_le
  intro k r hr
  by_cases hlive : r.live S v = true
  · rw [if_pos hlive, if_pos (live_of_le hS huv hlive)]
  · rw [if_neg hlive]
    split
    · exact ht k r hr
    · exact le_rfl

theorem activeSlots_insertNew_le (hnone : t.get? k = none) (hslots : 0 ≤ r.slots) :
    activeSlots S u (t.insertNew k r) ≤ activeSlots S u t + r.slots := by
  rw [activeSlots_eq, activeSlots_eq, Table.total_insertNew hnone]
  split
  · exact le_rfl
  · omega

theorem Counted.insertNew (h : Counted t) (hslots : 0 ≤ r.slots) : Counted (t.insertNew k r) := by
  intro k' r' hr'
  rw [Table.get?_insertNew] at hr'
  split_ifs at hr' with hk
  · cases hrow : t.get? k with
    | none =>
      rw [hrow] at hr'
      obtain rfl := Option.some.inj hr'
      exact hslots
    | some r₀ =>
      rw [hrow] at hr'
      obtain rfl := Option.some.inj hr'
      exact h k r₀ hrow
  · exact h k' r' hr'

theorem Counted.sweep (h : Counted t) : Counted (sweepExpired S now t).2 := by
  rw [sweepExpired_eq]
  exact h.update fun _ _ => rfl

theorem allowedSlots_le (L : Limits) (priority : Int) :
    L.allowedSlots priority ≤ L.maxConcurrentSlots := by
  unfold Limits.allowedSlots
  split_ifs
  · omega
  · exact le_rfl

/-- **A row that is inserted fits in the allowed slots**, from the reserve's own instant on. -/
theorem activeSlots_admitted (hS : S.Ordered) (ht : Counted t) (hslots : 0 ≤ q.slots)
    (hnone : t.get? q.operationId = none) (hchecks : refusal S L q now t = none) (expiresAt : Int)
    (hu : now ≤ u) :
    activeSlots S u (t.insertNew q.operationId (q.row now expiresAt)) ≤
      L.allowedSlots q.priority :=
  calc activeSlots S u (t.insertNew q.operationId (q.row now expiresAt))
      ≤ activeSlots S u t + q.slots :=
        activeSlots_insertNew_le (r := q.row now expiresAt) hnone hslots
    _ ≤ activeSlots S now t + q.slots := by
        have hanti := activeSlots_anti hS ht hu
        omega
    _ ≤ L.allowedSlots q.priority := (refusal_eq_none_iff.mp hchecks).2.1

/-- What holds of the store in every run. -/
structure Within (S : Stamps) (L : Limits) (w : Fleet) : Prop where
  counted : Counted w.table
  bounded : ∀ u, w.clock ≤ u → activeSlots S u w.table ≤ L.maxConcurrentSlots

theorem Within.update (h : Within S L w) {p : String → Reservation → Bool}
    {f : String → Reservation → Reservation} (hslots : ∀ k r, (f k r).slots = r.slots)
    (hstatus : ∀ k r, (f k r).status ≠ .reserved) (hv : w.clock ≤ v) :
    Within S L ⟨w.table.update p f, v⟩ where
  counted := h.counted.update hslots
  bounded u hu := (activeSlots_update_le h.counted hstatus).trans (h.bounded u (hv.trans hu))

theorem Within.sweep (h : Within S L w) (hv : w.clock ≤ v) :
    Within S L ⟨(sweepExpired S now w.table).2, v⟩ := by
  rw [sweepExpired_eq]
  exact h.update (fun _ _ => rfl) (fun _ _ => nofun) hv

theorem Within.reserve (hS : S.Ordered) (h : Within S L w) (hslots : 1 ≤ q.slots)
    (hnow : now ≤ sweepNow) (hv : w.clock ≤ sweepNow) :
    Within S L ⟨(reserve S L q now sweepNow w.table).2, sweepNow⟩ := by
  have hswept : Within S L ⟨(sweepExpired S sweepNow w.table).2, sweepNow⟩ := h.sweep hv
  rcases reserve_cases S L q now sweepNow w.table with
    ⟨-, heq⟩ | ⟨r, -, heq⟩ | ⟨d, -, -, heq⟩ | ⟨expiresAt, d, -, hnone, hchecks, -, heq⟩
  · rw [heq]
    exact ⟨h.counted, fun u hu => h.bounded u (hv.trans hu)⟩
  · rw [heq]
    exact hswept
  · rw [heq]
    exact hswept
  · rw [heq]
    have hzero : 0 ≤ q.slots := by omega
    refine ⟨hswept.counted.insertNew hzero, fun u hu => ?_⟩
    exact (activeSlots_admitted hS hswept.counted hzero hnone hchecks expiresAt
      (hnow.trans hu)).trans
      (allowedSlots_le L q.priority)

/-- **Every call keeps the store within the limit.** -/
theorem Within.step (hS : S.Ordered) (h : Within S L w) (hs : SlottedStep S L w c w') :
    Within S L w' := by
  obtain ⟨⟨hforward, htimely, htable, hclock⟩, hslots⟩ := hs
  obtain ⟨table, clock⟩ := w'
  dsimp only at htable hclock
  subst htable hclock
  cases c with
  | reserve q now sweepNow => exact h.reserve hS hslots htimely hforward
  | settle op amount now =>
    dsimp only [Call.after]
    rw [settle_eq]
    exact h.update (fun _ _ => rfl) (fun _ _ => nofun) hforward
  | release op =>
    dsimp only [Call.after]
    rw [release_eq]
    exact h.update (fun _ _ => rfl) (fun _ _ => nofun) hforward
  | sweep now => exact h.sweep hforward
  | reconcile node active now =>
    dsimp only [Call.after]
    rw [reconcileNodeLoss_eq]
    exact h.update (fun _ _ => rfl) (fun _ _ => nofun) hforward

theorem within_boot : Within S L (.boot start) where
  counted k r hr := by
    rw [show (Fleet.boot start).table.get? k = none from Table.get?_empty k] at hr
    cases hr
  bounded u _ := by
    rw [activeSlots_eq]
    exact Int.natCast_nonneg _

/-! ### What a reserve keeps -/

theorem get?_reserve_of_some (h : t.get? k = some r) (S : Stamps) (L : Limits) (q : Request)
    (now sweepNow : Int) :
    (reserve S L q now sweepNow t).2.get? k = some r ∨
      r.lapsed S sweepNow = true ∧
        (reserve S L q now sweepNow t).2.get? k = some { r with status := .expired } := by
  have hswept : ∀ t' : Reservations, t'.get? k = (sweepExpired S sweepNow t).2.get? k →
    t'.get? k = some r ∨
      r.lapsed S sweepNow = true ∧ t'.get? k = some { r with status := .expired } := by
    intro t' ht'
    rw [ht', get?_sweepExpired, h, Option.map_some]
    by_cases hlapsed : r.lapsed S sweepNow = true
    · rw [if_pos hlapsed]
      exact .inr ⟨hlapsed, rfl⟩
    · rw [if_neg hlapsed]
      exact .inl rfl
  rcases reserve_cases S L q now sweepNow t with
    ⟨-, heq⟩ | ⟨r', -, heq⟩ | ⟨d, -, -, heq⟩ | ⟨expiresAt, d, -, hnone, -, -, heq⟩
  · rw [heq]
    exact .inl h
  · rw [heq]
    exact hswept _ rfl
  · rw [heq]
    exact hswept _ rfl
  · rw [heq]
    apply hswept
    rw [Table.get?_insertNew]
    split_ifs with hk
    · -- the swept table has no row of the operation, and it has one of this
      rw [get?_sweepExpired, ← hk, h] at hnone
      cases hnone
    · rfl

theorem keys_sweepExpired (S : Stamps) (now : Int) (t : Reservations) :
    (sweepExpired S now t).2.rows.map Prod.fst = t.rows.map Prod.fst := by
  unfold sweepExpired Table.update
  rw [List.map_map]
  rfl

theorem reserveLaw (hS : S.Ordered) (h : Counted t) (hslots : 1 ≤ q.slots) :
    ReserveLaw S L t q now sweepNow where
  headroom hpriority hnone hsome u hu := by
    rcases reserve_cases S L q now sweepNow t with
      ⟨-, heq⟩ | ⟨r, hrow, heq⟩ | ⟨d, hnew, -, heq⟩ | ⟨expiresAt, d, -, hnew, hchecks, -, heq⟩
    · rw [heq, hnone] at hsome
      cases hsome
    · rw [get?_sweepExpired, hnone] at hrow
      cases hrow
    · rw [heq, hnew] at hsome
      cases hsome
    · rw [heq]
      have hfit := activeSlots_admitted hS h.sweep (by omega) hnew hchecks expiresAt hu
      unfold Limits.allowedSlots at hfit
      rwa [if_pos hpriority] at hfit
  kept r hr := get?_reserve_of_some hr S L q now sweepNow
  unique := (reserve S L q now sweepNow t).2.nodupKeys
  refused hrefused := by
    rcases reserve_cases S L q now sweepNow t with
      ⟨-, heq⟩ | ⟨r, -, heq⟩ | ⟨d, -, -, heq⟩ | ⟨expiresAt, d, -, -, -, hadmitted, heq⟩
    · rw [heq]
    · rw [heq]
      exact keys_sweepExpired S sweepNow t
    · rw [heq]
      exact keys_sweepExpired S sweepNow t
    · rw [heq, Option.any_some, hadmitted] at hrefused
      cases hrefused

/-- **Reserved capacity never exceeds the limit**, and every reserve keeps the headroom for
repairs, the rows that are there and one row for each operation: in every run of the five methods,
at every instant from the last reading of the clock on. -/
theorem capacity_bounded (hS : S.Ordered) (p : Path (SlottedStep S L) (.boot start) cs w) :
    (∀ u, w.clock ≤ u → activeSlots S u w.table ≤ L.maxConcurrentSlots) ∧
      ∀ q now sweepNow, 1 ≤ q.slots → ReserveLaw S L w.table q now sweepNow := by
  have hrun : Within S L w := p.invariant (fun _ _ _ h hs => h.step hS hs) within_boot
  exact ⟨hrun.bounded, fun _ _ _ hslots => reserveLaw hS hrun.counted hslots⟩

def oneSlot : Request := { operationId := "op", role := "role", provider := "provider" }

/-- The row of the request, reserved for ten minutes. -/
def oneRow : Reservation := oneSlot.row 0 (600 * second)

def oneFleet : Fleet := ⟨(reserve .exact {} oneSlot 0 0 Table.empty).2, 0⟩

theorem get?_oneFleet : oneFleet.table.get? "op" = some oneRow := by
  decide

theorem path_oneFleet :
    Path (SlottedStep .exact {}) (.boot 0) [.reserve oneSlot 0 0] oneFleet :=
  .single ⟨⟨by decide, le_refl (0 : Int), rfl, rfl⟩, le_refl (1 : Int)⟩

theorem ordered_exact : Stamps.exact.Ordered := fun _ _ => decide_eq_true_iff

def singleSlot : Limits := { maxConcurrentSlots := 1, repairReservedSlots := 0 }

def otherSlot : Request := { oneSlot with operationId := "other" }

def takenFleet : Fleet := ⟨(reserve .exact singleSlot oneSlot 0 0 Table.empty).2, 0⟩

def contendedFleet : Fleet :=
  ⟨(reserve .exact singleSlot otherSlot second second takenFleet.table).2, second⟩

/-- Two callers ask for the single slot: the first one has it, and the second one is refused. -/
theorem capacity_bounded_contended :
    contendedFleet.table.get? "op" = some oneRow ∧ contendedFleet.table.get? "other" = none ∧
      ∀ u, second ≤ u → activeSlots .exact u contendedFleet.table ≤ 1 := by
  refine ⟨by decide, by decide, ?_⟩
  have hpath : Path (SlottedStep .exact singleSlot) (.boot 0)
      [.reserve oneSlot 0 0, .reserve otherSlot second second] contendedFleet := by
    have hfirst : SlottedStep .exact singleSlot (.boot 0) (.reserve oneSlot 0 0) takenFleet :=
      ⟨⟨le_refl (0 : Int), le_refl (0 : Int), rfl, rfl⟩, le_refl (1 : Int)⟩
    refine .cons hfirst (.single ?_)
    exact ⟨⟨show (0 : Int) ≤ second by decide, le_refl second, rfl, rfl⟩, le_refl (1 : Int)⟩
  exact (capacity_bounded ordered_exact hpath).1

/-- The lease has lapsed when the reserve is repeated, and the row is marked. -/
theorem repeat_expires :
    ¬ ∀ (S : Stamps) (L : Limits) (start : Int) (cs : List Call) (w : Fleet) (q : Request)
      (now sweepNow : Int) (r : Reservation), S.Ordered →
      Path (SlottedStep S L) (.boot start) cs w → w.clock ≤ now → now ≤ sweepNow →
      w.table.get? q.operationId = some r →
      (reserve S L q now sweepNow w.table).2.get? q.operationId = some r := by
  intro h
  have hkept := h .exact {} 0 _ oneFleet oneSlot (700 * second) (700 * second) oneRow
    ordered_exact path_oneFleet (by decide) le_rfl get?_oneFleet
  revert hkept
  decide

/-! ### What is final -/

/-- A row that is not reserved is left by every method, but for a settlement. -/
theorem kept_of_final (h : w.table.get? k = some r) (hfinal : r.status ≠ .reserved)
    (hs : OnceStep S L w c w') :
    ∃ r', w'.table.get? k = some r' ∧ r'.status = r.status ∧
      r'.actualSpendUsd = r.actualSpendUsd := by
  obtain ⟨⟨-, -, htable, -⟩, honce⟩ := hs
  rw [htable]
  cases c with
  | reserve q now sweepNow =>
    refine ⟨r, ?_, rfl, rfl⟩
    rcases get?_reserve_of_some h S L q now sweepNow with hsame | ⟨hlapsed, -⟩
    · exact hsame
    · exact absurd (status_of_lapsed hlapsed) hfinal
  | settle op amount now =>
    dsimp only [Call.after]
    rw [settle_eq, Table.get?_update, h, Option.map_some]
    by_cases hk : k = op
    · rw [if_pos (decide_eq_true hk)]
      refine ⟨r.settle amount now, rfl, ?_⟩
      rcases honce r (hk ▸ h) with hres | ⟨hstatus, hactual⟩
      · exact absurd hres hfinal
      · exact ⟨hstatus.symm, hactual.symm⟩
    · rw [if_neg fun hd => hk (of_decide_eq_true hd)]
      exact ⟨r, rfl, rfl, rfl⟩
  | release op =>
    refine ⟨r, ?_, rfl, rfl⟩
    dsimp only [Call.after]
    rw [release_eq, Table.get?_update, h, Option.map_some,
      if_neg fun hd => hfinal (of_decide_eq_true hd).2]
  | sweep now =>
    refine ⟨r, ?_, rfl, rfl⟩
    dsimp only [Call.after]
    rw [get?_sweepExpired, h, Option.map_some, if_neg fun hd => hfinal (status_of_lapsed hd)]
  | reconcile node active now =>
    refine ⟨r, ?_, rfl, rfl⟩
    dsimp only [Call.after]
    rw [reconcileNodeLoss_eq, Table.get?_update, h, Option.map_some,
      if_neg fun hd => hfinal (of_decide_eq_true hd).2.1]

def Uncharged (t : Reservations) : Prop :=
  ∀ k r, t.get? k = some r → r.status ≠ .settled → r.actualSpendUsd = none

theorem Uncharged.update (h : Uncharged t) {p : String → Reservation → Bool}
    {f : String → Reservation → Reservation} (hp : ∀ k r, p k r = true → r.status = .reserved)
    (hf : ∀ k r, (f k r).actualSpendUsd = r.actualSpendUsd) : Uncharged (t.update p f) := by
  intro k r hr hstatus
  rw [Table.get?_update] at hr
  obtain ⟨r', hr', rfl⟩ := Option.map_eq_some_iff.mp hr
  by_cases hsel : p k r' = true
  · rw [if_pos hsel, hf]
    refine h k r' hr' ?_
    rw [hp k r' hsel]
    exact nofun
  · rw [if_neg hsel] at hstatus ⊢
    exact h k r' hr' hstatus

theorem Uncharged.sweep (h : Uncharged t) : Uncharged (sweepExpired S now t).2 := by
  rw [sweepExpired_eq]
  exact h.update (fun _ _ => status_of_lapsed) fun _ _ => rfl

theorem Uncharged.settle (h : Uncharged t) : Uncharged (settle op amount now t).2 := by
  rw [settle_eq]
  intro k r hr hstatus
  rw [Table.get?_update] at hr
  obtain ⟨r', hr', rfl⟩ := Option.map_eq_some_iff.mp hr
  by_cases hk : k = op
  · rw [if_pos (decide_eq_true hk)] at hstatus
    exact absurd rfl hstatus
  · rw [if_neg fun hd => hk (of_decide_eq_true hd)] at hstatus ⊢
    exact h k r' hr' hstatus

theorem Uncharged.reserve (h : Uncharged t) : Uncharged (reserve S L q now sweepNow t).2 := by
  rcases reserve_cases S L q now sweepNow t with
    ⟨-, heq⟩ | ⟨r, -, heq⟩ | ⟨d, -, -, heq⟩ | ⟨expiresAt, d, -, hnone, -, -, heq⟩
  · rw [heq]
    exact h
  · rw [heq]
    exact h.sweep
  · rw [heq]
    exact h.sweep
  · rw [heq]
    intro k r hr hstatus
    rw [Table.get?_insertNew, hnone] at hr
    split_ifs at hr
    · rw [← Option.some.inj hr]
      rfl
    · exact h.sweep k r hr hstatus

theorem Uncharged.step (h : Uncharged w.table) (hs : FleetStep S L w c w') :
    Uncharged w'.table := by
  rw [hs.table]
  cases c with
  | reserve q now sweepNow => exact h.reserve
  | settle op amount now => exact h.settle
  | release op => exact h.update (fun _ _ hp => (of_decide_eq_true hp).2) fun _ _ => rfl
  | sweep now => exact h.sweep
  | reconcile node active now =>
    dsimp only [Call.after]
    rw [reconcileNodeLoss_eq]
    exact h.update (fun _ _ hp => (of_decide_eq_true hp).2.1) fun _ _ => rfl

theorem uncharged_boot : Uncharged (Fleet.boot start).table := by
  intro k r hr
  rw [show (Fleet.boot start).table.get? k = none from Table.get?_empty k] at hr
  cases hr

/-- **What is released, expired or settled is final, and nothing is charged for what was released
or has expired**, in every run whose settlements find their rows reserved or charge the same. -/
theorem final_of_settlesOnce (p : Path (OnceStep S L) (.boot start) cs w)
    (p' : Path (OnceStep S L) w cs' w') (h : w.table.get? k = some r)
    (hfinal : r.status ≠ .reserved) :
    ∃ r', w'.table.get? k = some r' ∧ r'.status = r.status ∧
      r'.actualSpendUsd = r.actualSpendUsd ∧ (r'.status ≠ .settled → r'.actualSpendUsd = none) := by
  have huncharged : Uncharged w'.table :=
    (p.append p').invariant (I := fun w => Uncharged w.table)
      (fun _ _ _ hi hs => hi.step hs.1) uncharged_boot
  obtain ⟨r', hr', hstatus, hactual⟩ : ∃ r', w'.table.get? k = some r' ∧ r'.status = r.status ∧
      r'.actualSpendUsd = r.actualSpendUsd := by
    refine p'.invariant (I := fun w => ∃ r', w.table.get? k = some r' ∧ r'.status = r.status ∧
      r'.actualSpendUsd = r.actualSpendUsd) (fun _ _ _ hi hs => ?_) ⟨r, h, rfl, rfl⟩
    obtain ⟨r₁, hr₁, hstatus₁, hactual₁⟩ := hi
    obtain ⟨r₂, hr₂, hstatus₂, hactual₂⟩ := kept_of_final hr₁ (hstatus₁ ▸ hfinal) hs
    exact ⟨r₂, hr₂, hstatus₂.trans hstatus₁, hactual₂.trans hactual₁⟩
  exact ⟨r', hr', hstatus, hactual, huncharged k r' hr'⟩

/-- The slot is released, and the store is left alone. -/
def releasedFleet : Fleet := ⟨(release "op" oneFleet.table).2, 0⟩

theorem path_releasedFleet :
    Path (OnceStep .exact {}) (.boot 0) [.reserve oneSlot 0 0, .release "op"] releasedFleet :=
  .cons (t := oneFleet) ⟨⟨by decide, le_refl (0 : Int), rfl, rfl⟩, trivial⟩
    (.single ⟨⟨by decide, trivial, rfl, rfl⟩, trivial⟩)

/-- A slot is released, another operation is settled, and the released row is as it was. -/
theorem final_of_settlesOnce_released :
    ∃ w' : Fleet, w'.clock = 1 ∧ ∃ r', w'.table.get? "op" = some r' ∧ r'.status = .released ∧
      r'.actualSpendUsd = none := by
  have hstep : OnceStep .exact {} releasedFleet (.settle "other" (some 5) 1)
      ⟨(settle "other" (some 5) 1 releasedFleet.table).2, 1⟩ :=
    ⟨⟨by decide, trivial, rfl, rfl⟩, fun r hr =>
      nomatch (show releasedFleet.table.get? "other" = none by decide).symm.trans hr⟩
  refine ⟨⟨(settle "other" (some 5) 1 releasedFleet.table).2, 1⟩, rfl, ?_⟩
  obtain ⟨r', hr', hstatus, hactual, -⟩ := final_of_settlesOnce path_releasedFleet (.single hstep)
    (show releasedFleet.table.get? "op" = some { oneRow with status := .released } by decide)
    (by decide)
  exact ⟨r', hr', hstatus, hactual⟩

/-- The slot is released, the run settles with five dollars, and the row is settled. -/
theorem settled_after_release :
    ¬ ∀ (S : Stamps) (L : Limits) (start : Int) (cs cs' : List Call) (w w' : Fleet) (k : String)
      (r : Reservation), Path (FleetStep S L) (.boot start) cs w → Path (FleetStep S L) w cs' w' →
      w.table.get? k = some r → r.status ≠ .reserved →
      ∃ r', w'.table.get? k = some r' ∧ r'.status = r.status ∧
        r'.actualSpendUsd = r.actualSpendUsd := by
  intro h
  have hpath : Path (FleetStep .exact {}) (.boot 0) [.reserve oneSlot 0 0, .release "op"]
      releasedFleet :=
    path_releasedFleet.imp (I := fun _ => True) (fun _ _ _ _ hs => ⟨hs.1, trivial⟩) trivial
  have hstep : FleetStep .exact {} releasedFleet (.settle "op" (some 5) 1)
      ⟨(settle "op" (some 5) 1 releasedFleet.table).2, 1⟩ := ⟨by decide, trivial, rfl, rfl⟩
  obtain ⟨r', hr', hstatus, -⟩ := h .exact {} 0 _ _ releasedFleet _ "op"
    { oneRow with status := .released } hpath (.single hstep) (by decide) (by decide)
  have hsettled : (settle "op" (some 5) 1 releasedFleet.table).2.get? "op" =
      some { oneRow with status := .settled, settledAt := some 1, actualSpendUsd := some 5 } := by
    decide
  rw [← Option.some.inj (hsettled.symm.trans hr')] at hstatus
  cases hstatus

end Runs

end Capacity
