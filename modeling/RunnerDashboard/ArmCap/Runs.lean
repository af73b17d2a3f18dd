import RunnerDashboard.Lib.Path
import RunnerDashboard.ArmCap.Store

/-!
# Runs of the armed-PR cap

Admissions, the arming and merging of pull requests, confirmations, releases, expiries and
snapshots, in any order.  An armed pull request is in the load while its reservation is pending and
once its row is in the inventory.  Between the confirmation and the row it is not.

## Main results

* `card_counted_le_of_covers` — **the cap holds at every admission**, if reservations are given up
  so.
-/

namespace ArmCap

open Sql Lts

/-! ### What can happen -/

/-- The store, the pull requests that are armed, and those that have merged. -/
structure World where
  store : Store
  armed : Finset Pr
  merged : Finset Pr

/-- What a step shows. -/
inductive Event
  | expire (now : Int)
  | reserve (pr : Pr) (ctx : AdmitContext) (now : Int) (token : String)
  | arm (pr : Pr)
  | merge (pr : Pr)
  | confirm (token : String) (now : Int)
  | release (token : String)
  | snapshot (snap : Snapshot) (now : Int)

section Steps

variable (le : Int → Int → Bool) (lower : String → String) (P : Policy) (required : List String)

/-- One step.  Expiry and request are the two transactions of an admission. -/
inductive ArmStep : World → Event → World → Prop
  | expire {w : World} {now : Int} :
      ArmStep w (.expire now) { w with store := (expireStaleReservations le now w.store).2 }
  /-- The cap is enforced for the pull request. -/
  | reserve {w : World} {pr : Pr} {ctx : AdmitContext} {now : Int} {token : String}
      (enabled : P.enabled = true) (enforced : P.shadowMode = false)
      (scope : P.inScope pr.1 = true) (bound : ctx.bypassCap lower = false) :
      ArmStep w (.reserve pr ctx now token)
        { w with store := (requestSlot le P pr ctx now token w.store).2 }
  /-- A pull request that was admitted is armed. -/
  | arm {w : World} {pr : Pr}
      (admitted : ∃ token r, w.store.reservations.get? token = some r ∧ r.pr = pr)
      (new : pr ∉ w.armed ∧ pr ∉ w.merged) :
      ArmStep w (.arm pr) { w with armed := insert pr w.armed }
  | merge {w : World} {pr : Pr} (armed : pr ∈ w.armed) :
      ArmStep w (.merge pr)
        { w with armed := w.armed.erase pr, merged := insert pr w.merged }
  /-- The pull request was armed, and may have merged since. -/
  | confirm {w : World} {token : String} {now : Int}
      (armed : ∀ r, w.store.reservations.get? token = some r → r.pr ∈ w.armed ∨ r.pr ∈ w.merged) :
      ArmStep w (.confirm token now)
        { w with store := (confirmReservation token now w.store).2 }
  | release {w : World} {token : String} :
      ArmStep w (.release token) { w with store := releaseReservation token w.store }
  /-- A snapshot shows if its pull request is armed. -/
  | snapshot {w : World} {snap : Snapshot} {now : Int}
      (accurate : snap.armed = true ↔ snap.pr ∈ w.armed) :
      ArmStep w (.snapshot snap now)
        { w with store := reconcileSnapshot lower P required now snap w.store }

/-- A reservation of an armed pull request is given up once its row is in the inventory. -/
def GivesUp (w : World) (p : String → ReservationRow → Bool) : Prop :=
  ∀ token r, w.store.reservations.get? token = some r → r.pending = true → p token r = true →
    r.pr ∈ w.armed → (w.store.inventory.get? r.pr).isSome = true

/-- A reservation is given up late enough, and a pull request is armed while it is pending. -/
def Covers (w : World) : Event → Prop
  | .expire now => GivesUp w fun _ r => le r.expiresAt now
  | .reserve _ _ now _ => GivesUp w fun _ r => le r.expiresAt now
  | .arm pr => pr ∈ pendingPrs w.store
  | .confirm token _ => GivesUp w fun k _ => k = token
  | .release token => GivesUp w fun k _ => k = token
  | _ => True

def CoveredStep (w : World) (ev : Event) (w' : World) : Prop :=
  ArmStep le lower P required w ev w' ∧ Covers le w ev

end Steps

/-- The pull requests that are pending, or armed and not found unhealthy. -/
def counted (w : World) : Finset Pr :=
  pendingPrs w.store ∪ w.armed.filter fun pr =>
    (w.store.inventory.get? pr).all InventoryRow.healthy = true

/-- No reservation, and a row for each armed pull request. -/
def World.start (armed : Finset Pr) (inventory : Table Pr InventoryRow) : World :=
  ⟨⟨Table.empty, inventory⟩, armed, ∅⟩

/-- The inventory has the armed pull requests. -/
def Accurate (armed : Finset Pr) (inventory : Table Pr InventoryRow) : Prop :=
  ∀ pr, (inventory.get? pr).isSome = true ↔ pr ∈ armed

/-- An armed pull request is pending or has a row. -/
def Covered (w : World) : Prop :=
  ∀ pr ∈ w.armed, pr ∈ pendingPrs w.store ∨ (w.store.inventory.get? pr).isSome = true

section Runs

variable {le : Int → Int → Bool} {lower : String → String} {P : Policy} {required : List String}
  {w w' : World} {ev : Event} {evs : List Event} {pr : Pr} {ctx : AdmitContext} {now : Int}
  {token : String} {snap : Snapshot} {armed : Finset Pr} {inventory : Table Pr InventoryRow}
  {p : String → ReservationRow → Bool} {f : ReservationRow → ReservationRow} {s : Store}

/-! ### Every armed pull request is in the load -/

theorem Covered.retire (h : Covered w) (hgives : GivesUp w p) :
    Covered { w with store := w.store.retire p f } := by
  intro pr hpr
  rcases h pr hpr with hpending | hrow
  · rcases mem_pendingPrs_retire hpending with hkept | ⟨token, r, hrow, hr, hp, rfl⟩
    · exact .inl hkept
    · exact .inr (hgives token r hrow hr hp hpr)
  · exact .inr hrow

theorem Covered.reserve (h : Covered w) (hgives : GivesUp w fun _ r => le r.expiresAt now) :
    Covered { w with store := (requestSlot le P pr ctx now token w.store).2 } := by
  have hexpired : Covered { w with store := expireStale le now w.store } := h.retire hgives
  unfold requestSlot
  rcases tryReserve_cases le pr ctx P.maxHealthyArmed P.reservationTtlSeconds now token
      (if P.shadowMode then some P.reconcileIntervalSeconds else none) w.store with
    ⟨-, heq⟩ | ⟨-, heq | heq⟩ | ⟨-, -, hnew, heq⟩
  · rw [heq]
    exact hexpired
  · rw [heq]
    exact hexpired
  · rw [heq]
    exact h
  · rw [heq]
    intro pr' hpr'
    rcases hexpired pr' hpr' with hpending | hrow
    · refine .inl ?_
      obtain ⟨token', r, hr, hpend, hpr⟩ := mem_pendingPrs_iff.mp hpending
      refine mem_pendingPrs_iff.mpr ⟨token', r, ?_, hpend, hpr⟩
      have hne : token' ≠ token := by
        rintro rfl
        cases hnew.symm.trans hr
      change ((expireStale le now w.store).reservations.insertNew token _).get? token' = some r
      rw [Table.get?_insertNew, if_neg hne]
      exact hr
    · exact .inr hrow

theorem Covered.snapshot (h : Covered w) (haccurate : snap.armed = true ↔ snap.pr ∈ w.armed) :
    Covered { w with store := reconcileSnapshot lower P required now snap w.store } := by
  intro pr hpr
  refine (h pr hpr).imp (fun hpending => ?_) fun hrow => ?_
  · unfold reconcileSnapshot
    split_ifs
    · exact hpending
    · exact hpending
    · exact hpending
  · unfold reconcileSnapshot
    split_ifs with hscope harmed
    · exact hrow
    · -- the row that is removed is of a pull request that is not armed
      have hne : pr ≠ snap.pr := by
        rintro rfl
        rw [haccurate.mpr hpr] at harmed
        cases harmed
      change ((w.store.inventory.delete _).get? pr).isSome = true
      rw [Table.get?_delete]
      obtain ⟨r, hr⟩ := Option.isSome_iff_exists.mp hrow
      rw [hr]
      simp [hne]
    · change ((w.store.inventory.put _ _).get? pr).isSome = true
      rw [Table.get?_put]
      split_ifs
      · rfl
      · exact hrow

/-- **A covered step keeps the armed pull requests in the load.** -/
theorem Covered.step (h : Covered w) (hs : CoveredStep le lower P required w ev w') :
    Covered w' := by
  obtain ⟨hs, hcovers⟩ := hs
  cases hs with
  | expire => exact h.retire hcovers
  | reserve => exact h.reserve hcovers
  | arm =>
    intro pr hpr
    rcases Finset.mem_insert.mp hpr with rfl | hold
    · exact .inl hcovers
    · exact h pr hold
  | merge => exact fun pr hpr => h pr (Finset.mem_of_mem_erase hpr)
  | confirm => exact h.retire hcovers
  | release => exact h.retire hcovers
  | snapshot accurate => exact h.snapshot accurate

theorem covered_start (h : Accurate armed inventory) : Covered (.start armed inventory) :=
  fun pr hpr => .inr ((h pr).mpr hpr)

theorem Covered.card_le (h : Covered w) (now : Int) : (counted w).card ≤ w.store.load none now := by
  refine (Finset.card_le_card fun pr hpr => ?_).trans (card_le_load w.store now)
  rcases Finset.mem_union.mp hpr with hpending | harmed
  · exact Finset.mem_union_left _ hpending
  · obtain ⟨harmed, hall⟩ := Finset.mem_filter.mp harmed
    rcases h pr harmed with hpending | hrow
    · exact Finset.mem_union_left _ hpending
    · obtain ⟨r, hr⟩ := Option.isSome_iff_exists.mp hrow
      rw [hr] at hall
      exact Finset.mem_union_right _ (mem_healthyPrs_iff.mpr ⟨r, hr, hall⟩)

theorem counted_admission (w : World) (pr : Pr) (ctx : AdmitContext) (ttl now : Int)
    (hnew : s.reservations.get? token = none) :
    counted { w with store := { s with
      reservations := s.reservations.insertNew token (newRow pr ctx ttl now) } } ⊆
        insert pr (counted { w with store := s }) := by
  intro pr' hpr'
  rcases Finset.mem_union.mp hpr' with hpending | harmed
  · obtain ⟨token', r, hr, hpend, rfl⟩ := mem_pendingPrs_iff.mp hpending
    change (s.reservations.insertNew token _).get? token' = some r at hr
    rw [Table.get?_insertNew, hnew] at hr
    split_ifs at hr
    · rw [← Option.some.inj hr]
      exact Finset.mem_insert_self _ _
    · exact Finset.mem_insert_of_mem (Finset.mem_union_left _
        (mem_pendingPrs_iff.mpr ⟨token', r, hr, hpend, rfl⟩))
  · exact Finset.mem_insert_of_mem (Finset.mem_union_right _ harmed)

/-- **The armed-PR cap holds at every admission** of a pull request that is not pending, in every
run that gives up a reservation of an armed pull request once its row is in the inventory. -/
theorem card_counted_le_of_covers (haccurate : Accurate armed inventory)
    (path : Path (CoveredStep le lower P required) (.start armed inventory) evs w)
    (hs : CoveredStep le lower P required w (.reserve pr ctx now token) w')
    (hallowed : (requestSlot le P pr ctx now token w.store).1.allowed = true)
    (hnew : pr ∉ pendingPrs (expireStale le now w.store)) :
    ((counted w').card : Int) ≤ P.maxHealthyArmed := by
  have hrun : Covered w := path.invariant (fun _ _ _ h hs => h.step hs) (covered_start haccurate)
  obtain ⟨hs, hcovers⟩ := hs
  cases hs with
  | reserve enabled enforced scope bound =>
    unfold requestSlot at hallowed ⊢
    rw [enforced] at hallowed ⊢
    have hexpired : Covered { w with store := expireStale le now w.store } := hrun.retire hcovers
    rcases tryReserve_cases le pr ctx P.maxHealthyArmed P.reservationTtlSeconds now token
        (if false = true then some P.reconcileIntervalSeconds else none) w.store with
      ⟨hsame, -⟩ | ⟨hrefused, -⟩ | ⟨-, hload, htoken, heq⟩
    · exact absurd hsame hnew
    · rw [hrefused] at hallowed
      cases hallowed
    · rw [heq]
      have hfree : ((expireStale le now w.store).load none now : Int) < P.maxHealthyArmed := hload
      have hcount : (counted { w with store := expireStale le now w.store }).card ≤
        (expireStale le now w.store).load none now := hexpired.card_le now
      have hcard := (Finset.card_le_card (counted_admission w pr ctx P.reservationTtlSeconds now
        htoken)).trans (Finset.card_insert_le pr _)
      exact le_trans (Int.ofNat_le.mpr hcard) (by omega)

def capPolicy (cap : Int) : Policy where
  enabled := true
  shadowMode := false
  maxHealthyArmed := cap
  reservationTtlSeconds := 300
  reconcileIntervalSeconds := 900
  scopeRepositories := none

def nothingArmed : World := .start ∅ Table.empty

def firstAdmitted (cap : Int) : World :=
  { nothingArmed with
    store := (requestSlot (· ≤ ·) (capPolicy cap) ("repo", 1) {} 0 "t1" nothingArmed.store).2 }

def firstArmed (cap : Int) : World := { firstAdmitted cap with armed := {("repo", 1)} }

theorem firstAdmitted_row (cap : Int) (h : cap = 1 ∨ cap = 2) :
    (firstAdmitted cap).store.reservations.get? "t1" = some (newRow ("repo", 1) {} 300 0) := by
  rcases h with rfl | rfl
  · decide
  · decide

theorem firstArmed_pr (cap : Int) (h : cap = 1 ∨ cap = 2) (r : ReservationRow)
    (hr : (firstArmed cap).store.reservations.get? "t1" = some r) : r.pr = ("repo", 1) := by
  rw [← Option.some.inj ((firstAdmitted_row cap h).symm.trans hr)]
  rfl

theorem path_firstArmed (cap : Int) (h : cap = 1 ∨ cap = 2) :
    Path (CoveredStep (· ≤ ·) id (capPolicy cap) []) (.start ∅ Table.empty)
      [.reserve ("repo", 1) {} 0 "t1", .arm ("repo", 1)] (firstArmed cap) := by
  have hrow := firstAdmitted_row cap h
  have hreserve : CoveredStep (· ≤ ·) id (capPolicy cap) [] nothingArmed
      (.reserve ("repo", 1) {} 0 "t1") (firstAdmitted cap) :=
    ⟨.reserve rfl rfl rfl rfl, fun token r hr => nomatch hr⟩
  have harm : CoveredStep (· ≤ ·) id (capPolicy cap) [] (firstAdmitted cap) (.arm ("repo", 1))
      (firstArmed cap) :=
    ⟨.arm ⟨"t1", _, hrow, rfl⟩ ⟨Finset.notMem_empty _, Finset.notMem_empty _⟩,
      mem_pendingPrs_iff.mpr ⟨"t1", _, hrow, rfl, rfl⟩⟩
  exact .cons hreserve (.single harm)

theorem accurate_empty : Accurate ∅ Table.empty := by
  intro pr
  constructor
  · intro h
    cases h
  · exact fun h => absurd h (Finset.notMem_empty pr)

def firstSnapshot : Snapshot := { repo := "repo", number := 1, armed := true }

/-- The first pull request is in the inventory. -/
def firstListed : World :=
  { firstArmed 2 with
    store := reconcileSnapshot id (capPolicy 2) [] 1 firstSnapshot (firstArmed 2).store }

/-- The reservation of the first pull request was confirmed. -/
def World.confirmed (w : World) : World :=
  { w with store := (confirmReservation "t1" 2 w.store).2 }

theorem confirm_first (w : World) (harmed : w.armed = {("repo", 1)})
    (hrow : ∀ r, w.store.reservations.get? "t1" = some r → r.pr = ("repo", 1)) :
    ArmStep (· ≤ ·) id P [] w (.confirm "t1" 2) w.confirmed := by
  refine .confirm fun r hr => .inl ?_
  rw [hrow r hr, harmed]
  exact Finset.mem_singleton_self _

/-- The second pull request is admitted when the first is in the inventory. -/
theorem card_counted_le_of_covers_second :
    ∃ w' : World, ("repo", 2) ∈ counted w' ∧ ((counted w').card : Int) ≤ 2 := by
  have hgives : ∀ p, GivesUp firstListed p := by
    intro p token r _ _ _ hr
    rw [Finset.mem_singleton.mp hr]
    decide
  have hlisted : CoveredStep (· ≤ ·) id (capPolicy 2) [] (firstArmed 2)
      (.snapshot firstSnapshot 1) firstListed :=
    ⟨.snapshot (iff_of_true rfl (Finset.mem_singleton_self _)), trivial⟩
  have hconfirmed : CoveredStep (· ≤ ·) id (capPolicy 2) [] firstListed (.confirm "t1" 2)
      firstListed.confirmed :=
        ⟨confirm_first firstListed rfl (firstArmed_pr 2 (.inr rfl)), hgives _⟩
  have hreserve : CoveredStep (· ≤ ·) id (capPolicy 2) [] firstListed.confirmed
      (.reserve ("repo", 2) {} 3 "t2") { firstListed.confirmed with
        store := (requestSlot (· ≤ ·) (capPolicy 2) ("repo", 2) {} 3 "t2"
          firstListed.confirmed.store).2 } := by
    refine ⟨.reserve rfl rfl rfl rfl, fun token r _ _ _ hr => ?_⟩
    rw [Finset.mem_singleton.mp hr]
    decide
  refine ⟨_, ?_, card_counted_le_of_covers accurate_empty
    (((path_firstArmed 2 (.inr rfl)).snoc hlisted).snoc hconfirmed) hreserve
      (by decide) (by decide)⟩
  exact Finset.mem_union_left _ (by decide)

/-- One pull request may be armed.  The first is armed and confirmed, and the second is admitted
before the next reconcile. -/
theorem confirmed_uncounted :
    ¬ ∀ (le : Int → Int → Bool) (lower : String → String) (P : Policy) (required : List String)
      (armed : Finset Pr) (inventory : Table Pr InventoryRow) (evs : List Event) (w w' : World)
      (pr : Pr) (ctx : AdmitContext) (now : Int) (token : String), Accurate armed inventory →
      Path (ArmStep le lower P required) (.start armed inventory) evs w →
      ArmStep le lower P required w (.reserve pr ctx now token) w' →
      (requestSlot le P pr ctx now token w.store).1.allowed = true →
      pr ∉ pendingPrs (expireStale le now w.store) →
      ((counted w').card : Int) ≤ P.maxHealthyArmed := by
  intro h
  have hpath : Path (ArmStep (· ≤ ·) id (capPolicy 1) []) (.start ∅ Table.empty)
      [.reserve ("repo", 1) {} 0 "t1", .arm ("repo", 1)] (firstArmed 1) :=
    (path_firstArmed 1 (.inl rfl)).imp (I := fun _ => True) (fun _ _ _ _ hs => ⟨hs.1, trivial⟩)
      trivial
  have hcap := h (· ≤ ·) id (capPolicy 1) [] ∅ Table.empty _ _ _ ("repo", 2) {} 3 "t2"
    accurate_empty (hpath.snoc (confirm_first _ rfl (firstArmed_pr 1 (.inl rfl))))
      (.reserve rfl rfl rfl rfl)
    (by decide) (by decide)
  exact absurd hcap (by decide)

end Runs

end ArmCap
