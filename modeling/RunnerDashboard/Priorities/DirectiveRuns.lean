import RunnerDashboard.Lib.Path
import RunnerDashboard.Priorities.Directives

/-!
# Interleaved edits of the directives

Any number of `DirectivesList` objects share one file, each with a lock of its own.  A replace
holds the lock of its object from its load to its write; a reconcile holds it while it loads and
while it writes, and not in between.

The lists that the file has had are numbered: each write that changes the list begins a new
*epoch*.

## Main definitions

* `EditStep` — the steps of the replaces and the reconciles.
* `Safe`, `Undisturbed` — nothing is lost with a write, and the condition on the calls.

## Main results

* `base_eq_epoch` — the lock of an object keeps its replaces apart.
* `safe_and_inv` — an undisturbed step loses nothing and keeps the invariant.
* `edits_kept` — in a run of undisturbed writes no edit is lost.
-/

namespace Directives

open Lts

/-! ### Runs -/

inductive Call
  /-- `replace` at a moment, where the caller edited the list of the epoch `seen`. -/
  | replace (t : ℕ) (author : Option String) (items : List Item) (seen : ℕ)
  | reconcile

/-- A call that has loaded the list and is going to write. -/
structure Pending where
  /-- The `DirectivesList` that the call uses. -/
  object : ℕ
  call : Call
  /-- The epoch in which the call loaded the list. -/
  base : ℕ
  rows : List Directive

/-- The call holds the lock of its object until it has written. -/
def Call.holdsLock : Call → Bool
  | replace _ _ _ _ => true
  | reconcile => false

/-- The file and the calls.  The epochs, the writers and the stamps are there to speak about runs
only. -/
structure System where
  content : Content
  epoch : ℕ
  /-- The file at the beginning of each epoch. -/
  history : ℕ → Content
  /-- The object whose write began the epoch, and whether it was a replace. -/
  writer : ℕ → ℕ × Bool
  /-- The epoch of the last replace that stored the directive, while none has dropped it. -/
  stamp : Directive → Option ℕ
  ops : ℕ → Option Pending

/-- Before the first call. -/
def System.start (content : Content) : System where
  content
  epoch := 0
  history _ := content
  writer _ := (0, false)
  stamp _ := none
  ops _ := none

def System.Free (s : System) (object : ℕ) : Prop :=
  ∀ i p, s.ops i = some p → p.object = object → p.call.holdsLock = false

/-- The call goes on, or has ended. -/
def System.setOp (s : System) (i : ℕ) (p : Option Pending) : System :=
  { s with ops := Function.update s.ops i p }

theorem ops_setOp (s : System) (i : ℕ) (p : Option Pending) :
    (s.setOp i p).ops = Function.update s.ops i p := rfl

def Pending.stamps (p : Pending) (stamp : Directive → Option ℕ) (epoch : ℕ) :
    Directive → Option ℕ :=
  match p.call with
  | .replace _ _ _ _ => fun d => if d ∈ p.rows ∧ d.managed = false then some epoch else none
  | .reconcile => stamp

variable (E : Env)

/-- The file after a write that changes the list. -/
def System.write (s : System) (t : ℕ) (p : Pending) : System :=
  { s with
    content := E.write t p.rows
    epoch := s.epoch + 1
    history := Function.update s.history (s.epoch + 1) (E.write t p.rows)
    writer := Function.update s.writer (s.epoch + 1) (p.object, p.call.holdsLock)
    stamp := p.stamps s.stamp (s.epoch + 1) }

/-- The file after a write of the list that it has. -/
def System.rewrite (s : System) (t : ℕ) (p : Pending) : System :=
  { s with content := E.write t p.rows, stamp := p.stamps s.stamp s.epoch }

/-- The steps of the calls; a step that writes shows the call. -/
inductive EditStep : System → Option Pending → System → Prop
  | replaceLoad {s : System} (i object seen seenAt t : ℕ) {author : Option String}
      {items : List Item} {seenRows stored rows : List Directive}
      (hidle : s.ops i = none) (hfree : s.Free object) (hseen : seen ≤ s.epoch)
      (hcaller : E.load seenAt (s.history seen) = .ok seenRows)
      (hload : E.load t s.content = .ok stored)
      (hrows : E.replaceRows t author (some (E.versionOf seenRows)) items stored = .ok rows) :
      EditStep s none (s.setOp i (some ⟨object, .replace t author items seen, s.epoch, rows⟩))
  | reconcileLoad {s : System} (i object t moment : ℕ) {yaml : List Item}
      {desired stored : List Directive}
      (hidle : s.ops i = none) (hfree : s.Free object)
      (hdesired : yaml.mapM (E.directiveFromYaml moment) = .ok desired)
      (hload : E.load t s.content = .ok stored)
      (hchanged : (reconcileRows desired stored).1.changed = true) :
      EditStep s none
        (s.setOp i (some ⟨object, .reconcile, s.epoch, (reconcileRows desired stored).2⟩))
  /-- The call raises, has nothing to write, or its process ends. -/
  | ended (s : System) (i : ℕ) : EditStep s none (s.setOp i none)
  | write {s : System} {p : Pending} (i t : ℕ) (hp : s.ops i = some p)
      (hfree : p.call = .reconcile → s.Free p.object)
      (hnew : s.content.items ≠ p.rows.map Directive.toJson) :
      EditStep s (some p) ((s.write E t p).setOp i none)
  | rewrite {s : System} {p : Pending} (i t : ℕ) (hp : s.ops i = some p)
      (hfree : p.call = .reconcile → s.Free p.object)
      (hsame : s.content.items = p.rows.map Directive.toJson) :
      EditStep s (some p) ((s.rewrite E t p).setOp i none)

/-! ### No lost edit -/

/-- `load` skips the entry. -/
def Skipped (item : Json) : Prop := ∃ t, E.valid t item = .ok none

/-- `load` finds the directive in the file. -/
def Stored (content : Content) (d : Directive) : Prop :=
  ∀ t, ∃ rows, E.load t content = .ok rows ∧ d ∈ rows

/-- The call drops the directive that a replace of the epoch `r` stored: it is a replace by a
caller who has seen this epoch, and who omits the directive or changes it. -/
def Call.Drops (call : Call) (d : Directive) (r : ℕ) : Prop :=
  match call with
  | replace t author items seen => r ≤ seen ∧ ∀ item ∈ items, ¬ Restates E t author item d
  | reconcile => False

/-- Nothing is lost with this write. -/
structure Safe (s : System) (p : Pending) (s' : System) : Prop where
  /-- The call loaded the list that the file has. -/
  base : p.base = s.epoch
  seen : ∀ t author items seen, p.call = .replace t author items seen → seen = s.epoch
  kept : ∀ d r, s.stamp d = some r → Stored E s'.content d ∨ p.call.Drops E d r
  skipped : ∀ item ∈ s.content.items, Skipped E item → item ∈ s'.content.items

/-- The calls do not disturb each other before a write. -/
structure Undisturbed (s : System) (p : Pending) : Prop where
  /-- Since the call loaded the list, no other object has changed it; nor has the same object,
  unless by a replace while the call is a replace too. -/
  alone : ∀ e, p.base < e → e ≤ s.epoch → p.call.holdsLock = true ∧ s.writer e = (p.object, true)
  /-- The list that a caller edited and a later one that the call loaded differ in version. -/
  changed : ∀ t author items seen, p.call = .replace t author items seen → seen < p.base →
    ∀ t₁ t₂ old new, E.load t₁ (s.history seen) = .ok old → E.load t₂ (s.history p.base) = .ok new →
      E.versionOf old ≠ E.versionOf new
  named : ∀ t author items seen, p.call = .replace t author items seen → author ≠ none →
    ∀ stored, E.load t (s.history p.base) = .ok stored → ∀ item ∈ items, ∀ d r,
      s.stamp d = some r → Restates E t author item d → Named stored item d

def CarefulStep (s : System) (l : Option Pending) (s' : System) : Prop :=
  EditStep E s l s' ∧ ∀ p, l = some p → Undisturbed E s p

/-- A step whose write loses nothing. -/
def SafeStep (s : System) (l : Option Pending) (s' : System) : Prop :=
  EditStep E s l s' ∧ ∀ p, l = some p → Safe E s p s'

/-! ### The invariant -/

def Call.Derived (history : ℕ → Content) (base : ℕ) (rows : List Directive) : Call → Prop
  | replace t author items seen => seen ≤ base ∧ ∃ seenAt seenRows stored,
      E.load seenAt (history seen) = .ok seenRows ∧ E.load t (history base) = .ok stored ∧
      E.replaceRows t author (some (E.versionOf seenRows)) items stored = .ok rows
  | reconcile => ∃ t desired stored, (∀ d ∈ desired, Valid E d) ∧
      E.load t (history base) = .ok stored ∧ rows = (reconcileRows desired stored).2

/-- A directive with a stamp is the first of its identifier in a file that the code wrote. -/
def Stamped (content : Content) (d : Directive) : Prop :=
  d.managed = false ∧ ∃ rows : List Directive, (∀ x ∈ rows, Valid E x) ∧
    content.items = rows.map Directive.toJson ∧ rows.find? (fun x => x.id = d.id) = some d

/-- What holds while the writes are undisturbed. -/
structure Inv (s : System) : Prop where
  latest : (s.history s.epoch).items = s.content.items
  readable : ∀ item ∈ s.content.items, ¬ Skipped E item
  /-- One replace at a time goes through an object. -/
  locked : ∀ i j p q, s.ops i = some p → s.ops j = some q → p.call.holdsLock = true →
    q.call.holdsLock = true → p.object = q.object → i = j
  /-- While it has the lock, no other replace of its object writes. -/
  excluded : ∀ i p, s.ops i = some p → p.call.holdsLock = true → ∀ e, p.base < e → e ≤ s.epoch →
    s.writer e ≠ (p.object, true)
  pending : ∀ i p, s.ops i = some p → p.base ≤ s.epoch ∧ p.call.Derived E s.history p.base p.rows
  stamped : ∀ d r, s.stamp d = some r → r ≤ s.epoch ∧ Stamped E s.content d

variable {E} {s s' : System} {p : Pending} {t i : ℕ} {d : Directive}

theorem inv_start {content : Content} (hread : ∀ item ∈ content.items, ¬ Skipped E item) :
    Inv E (.start content) where
  latest := rfl
  readable := hread
  locked i j p q h := by cases h
  excluded i p h := by cases h
  pending i p h := by cases h
  stamped d r h := by cases h

theorem load_congr {c c' : Content} (h : c.items = c'.items) (t : ℕ) :
    E.load t c = E.load t c' := by
  unfold Env.load
  rw [h]

/-- Only the epochs that have begun matter to a call. -/
theorem Call.Derived.congr {history history' : ℕ → Content} {base : ℕ} {rows : List Directive}
    {call : Call} (h : call.Derived E history base rows)
    (heq : ∀ e ≤ base, history' e = history e) : call.Derived E history' base rows := by
  cases call with
  | replace t author items seen =>
    obtain ⟨hseen, seenAt, seenRows, stored, hcaller, hload, hrows⟩ := h
    refine ⟨hseen, seenAt, seenRows, stored, ?_, ?_, hrows⟩
    · rw [heq seen hseen]
      exact hcaller
    · rw [heq base Nat.le.refl]
      exact hload
  | reconcile =>
    obtain ⟨t, desired, stored, hdesired, hload, hrows⟩ := h
    refine ⟨t, desired, stored, hdesired, ?_, hrows⟩
    rw [heq base Nat.le.refl]
    exact hload

/-- The rows that a call writes pass the check of `load`. -/
theorem Call.Derived.valid {history : ℕ → Content} {base : ℕ} {rows : List Directive} {call : Call}
    (h : call.Derived E history base rows) : ∀ d ∈ rows, Valid E d := by
  cases call with
  | replace t author items seen =>
    obtain ⟨-, _, _, _, -, -, hrows⟩ := h
    exact valid_of_replaceRows hrows
  | reconcile =>
    obtain ⟨t, desired, stored, hdesired, hload, rfl⟩ := h
    exact valid_reconcileRows hdesired (valid_of_load hload)

theorem stored_write (hvalid : ∀ d ∈ p.rows, Valid E d) (hd : d ∈ p.rows) (t : ℕ) :
    Stored E (E.write t p.rows) d := fun t' =>
  ⟨p.rows, load_of_items hvalid (items_write t p.rows) t', hd⟩

/-! ### One write -/

/-- **The lock keeps the replaces of an object apart**: a call that is not disturbed loaded the list
that the file has. -/
theorem base_eq_epoch (hinv : Inv E s) (hp : s.ops i = some p) (h : Undisturbed E s p) :
    p.base = s.epoch := by
  have hle := (hinv.pending i p hp).1
  by_contra hne
  have hlt : p.base < s.epoch := by omega
  obtain ⟨hlock, hwriter⟩ := h.alone s.epoch hlt Nat.le.refl
  exact hinv.excluded i p hp hlock s.epoch hlt Nat.le.refl hwriter

/-- The version check sees that the caller has the list of the file. -/
theorem seen_eq_epoch (hinv : Inv E s) (hp : s.ops i = some p) (h : Undisturbed E s p)
    {author : Option String} {items : List Item} {seen : ℕ}
    (hcall : p.call = .replace t author items seen) : seen = s.epoch := by
  have halone := base_eq_epoch hinv hp h
  have hchanged := h.changed t author items seen hcall
  obtain ⟨-, hderived⟩ := hinv.pending i p hp
  rw [hcall] at hderived
  obtain ⟨hseen, seenAt, seenRows, stored, hcaller, hload, hrows⟩ := hderived
  have hversion := (replaceRows_eq_ok_iff.mp hrows).1 _ rfl
  by_contra hne
  exact hchanged (by omega) _ _ _ _ hcaller hload hversion

/-- A directive with a stamp is the first of its identifier among the rows that the call loaded. -/
theorem find?_of_stamped (hinv : Inv E s) {r : ℕ} (hstamp : s.stamp d = some r)
    {stored : List Directive} (hload : E.load t (s.history s.epoch) = .ok stored) :
    stored.find? (fun x => x.id = d.id) = some d := by
  obtain ⟨-, -, rows, hvalid, hitems, hfirst⟩ := hinv.stamped d r hstamp
  rw [load_congr hinv.latest, load_of_items hvalid hitems] at hload
  obtain rfl := Except.ok.inj hload
  exact hfirst

theorem find?_of_reconcile (hinv : Inv E s) (hp : s.ops i = some p) (halone : p.base = s.epoch)
    (hcall : p.call = .reconcile) {r : ℕ} (hstamp : s.stamp d = some r) :
    p.rows.find? (fun x => x.id = d.id) = some d := by
  obtain ⟨-, hderived⟩ := hinv.pending i p hp
  rw [hcall, halone] at hderived
  obtain ⟨t, desired, stored, -, hload, hrows⟩ := hderived
  rw [hrows]
  exact find?_reconcileRows (find?_of_stamped hinv hstamp hload) (hinv.stamped d r hstamp).2.1

theorem safe_of_undisturbed (hinv : Inv E s) (hp : s.ops i = some p) (h : Undisturbed E s p)
    (hcontent : s'.content = E.write t p.rows) : Safe E s p s' := by
  obtain ⟨-, hderived⟩ := hinv.pending i p hp
  have halone := base_eq_epoch hinv hp h
  refine ⟨halone, fun _ _ _ _ hcall => seen_eq_epoch hinv hp h hcall, ?_,
    fun item hitem hskip => absurd hskip (hinv.readable item hitem)⟩
  intro d r hstamp
  rw [hcontent]
  cases hcall : p.call with
  | reconcile =>
    have hfirst := find?_of_reconcile hinv hp halone hcall hstamp
    exact .inl (stored_write hderived.valid (List.mem_of_find?_eq_some hfirst) t)
  | replace t₀ author items seen =>
    by_cases hitem : ∃ item ∈ items, Restates E t₀ author item d
    · -- the caller sends the row as it is stored
      obtain ⟨item, hmem, hrestates⟩ := hitem
      left
      have hvalid := hderived.valid
      have hnamed := h.named t₀ author items seen hcall
      rw [hcall, halone] at hderived
      rw [halone] at hnamed
      obtain ⟨-, seenAt, seenRows, stored, -, hload, hrows⟩ := hderived
      have hfirst := find?_of_stamped hinv hstamp hload
      exact stored_write hvalid (mem_of_replaceRows hrows hfirst hmem hrestates fun hauthor =>
        hnamed hauthor stored hload item hmem d r hstamp hrestates) t
    · right
      have hseen := seen_eq_epoch hinv hp h hcall
      refine ⟨?_, fun item hmem hrestates => hitem ⟨item, hmem, hrestates⟩⟩
      rw [hseen]
      exact (hinv.stamped d r hstamp).1

theorem stamped_write (hinv : Inv E s) (hp : s.ops i = some p) (halone : p.base = s.epoch)
    {epoch : ℕ} (hepoch : s.epoch ≤ epoch) {r : ℕ} (h : p.stamps s.stamp epoch d = some r) :
    r ≤ epoch ∧ Stamped E (E.write t p.rows) d := by
  obtain ⟨-, hderived⟩ := hinv.pending i p hp
  have hvalid := hderived.valid
  unfold Pending.stamps at h
  cases hcall : p.call with
  | reconcile =>
    rw [hcall] at h
    obtain ⟨hle, hmanaged, -⟩ := hinv.stamped d r h
    exact ⟨Nat.le_trans hle hepoch, hmanaged, p.rows, hvalid, items_write t p.rows,
      find?_of_reconcile hinv hp halone hcall h⟩
  | replace t₀ author items seen =>
    rw [hcall] at h hderived
    dsimp only at h
    split_ifs at h with hmem
    obtain rfl := Option.some.inj h
    obtain ⟨-, seenAt, seenRows, stored, -, -, hrows⟩ := hderived
    obtain ⟨-, -, hnodup⟩ := replaceRows_eq_ok_iff.mp hrows
    exact ⟨Nat.le.refl, hmem.2, p.rows, hvalid, items_write t p.rows,
      find?_of_nodup hnodup hmem.1⟩

theorem pending_setOp_none {j : ℕ} {q : Pending}
    (h : (s.setOp i none).ops j = some q) : s.ops j = some q := by
  have hne : j ≠ i := by
    rintro rfl
    rw [ops_setOp, Function.update_self] at h
    cases h
  rwa [ops_setOp, Function.update_of_ne hne] at h

/-! ### The invariant along a run -/

theorem inv_ended (hinv : Inv E s) (i : ℕ) : Inv E (s.setOp i none) where
  latest := hinv.latest
  readable := hinv.readable
  locked j k p q hp hq := hinv.locked j k p q (pending_setOp_none hp) (pending_setOp_none hq)
  excluded j p hp := hinv.excluded j p (pending_setOp_none hp)
  pending j q hq := hinv.pending j q (pending_setOp_none hq)
  stamped := hinv.stamped

theorem inv_loaded (hinv : Inv E s) (i : ℕ) (hfree : s.Free p.object) (hbase : p.base = s.epoch)
    (h : p.call.Derived E s.history s.epoch p.rows) : Inv E (s.setOp i (some p)) where
  latest := hinv.latest
  readable := hinv.readable
  locked j k q q' hq hq' hlock hlock' hobject := by
    rw [ops_setOp, Function.update_apply] at hq hq'
    split_ifs at hq hq' with hj hk hk
    · rw [hj, hk]
    · obtain rfl := Option.some.inj hq
      rw [hfree k q' hq' hobject.symm] at hlock'
      cases hlock'
    · obtain rfl := Option.some.inj hq'
      rw [hfree j q hq hobject] at hlock
      cases hlock
    · exact hinv.locked j k q q' hq hq' hlock hlock' hobject
  excluded j q hq hlock e hlt hle := by
    rw [ops_setOp, Function.update_apply] at hq
    split_ifs at hq
    · obtain rfl := Option.some.inj hq
      have hle : e ≤ s.epoch := hle
      omega
    · exact hinv.excluded j q hq hlock e hlt hle
  stamped := hinv.stamped
  pending j q hq := by
    rw [ops_setOp, Function.update_apply] at hq
    split_ifs at hq
    · obtain rfl := Option.some.inj hq
      refine ⟨Nat.le_of_eq hbase, ?_⟩
      rw [hbase]
      exact h
    · exact hinv.pending j q hq

/-- What a call writes can be read. -/
theorem readable_write (hinv : Inv E s) (hp : s.ops i = some p) (t : ℕ) :
    ∀ item ∈ (E.write t p.rows).items, ¬ Skipped E item := by
  rintro item hitem ⟨t', hskip⟩
  rw [items_write] at hitem
  obtain ⟨d, hd, rfl⟩ := List.mem_map.mp hitem
  rw [valid_toJson ((hinv.pending i p hp).2.valid d hd)] at hskip
  cases hskip

theorem inv_rewrite (hinv : Inv E s) (hp : s.ops i = some p) (h : Undisturbed E s p)
    (hsame : s.content.items = p.rows.map Directive.toJson) (t : ℕ) : Inv E (s.rewrite E t p) where
  latest := by
    show (s.history s.epoch).items = (E.write t p.rows).items
    rw [hinv.latest, hsame, items_write]
  readable := readable_write hinv hp t
  locked := hinv.locked
  excluded := hinv.excluded
  pending := hinv.pending
  stamped d r hstamp := stamped_write hinv hp (base_eq_epoch hinv hp h) Nat.le.refl hstamp

theorem inv_write (hinv : Inv E s) (hp : s.ops i = some p) (h : Undisturbed E s p) (t : ℕ) :
    Inv E ((s.write E t p).setOp i none) where
  latest := by
    show (Function.update s.history (s.epoch + 1) (E.write t p.rows) (s.epoch + 1)).items = _
    rw [Function.update_self]
    rfl
  readable := readable_write hinv hp t
  locked j k q q' hq hq' :=
    hinv.locked j k q q' (pending_setOp_none hq) (pending_setOp_none hq')
  excluded j q hq hlock e hlt hle hwriter := by
    have hne : j ≠ i := by
      rintro rfl
      rw [ops_setOp, Function.update_self] at hq
      cases hq
    have hq : s.ops j = some q := pending_setOp_none hq
    have hle : e ≤ s.epoch + 1 := hle
    have hwriter : Function.update s.writer (s.epoch + 1) (p.object, p.call.holdsLock) e =
      (q.object, true) := hwriter
    rw [Function.update_apply] at hwriter
    split_ifs at hwriter with he
    · -- two replaces with the lock of one object
      obtain ⟨hobject, hlock'⟩ := Prod.mk.inj hwriter
      exact hne (hinv.locked j i q p hq hp hlock hlock' hobject.symm)
    · exact hinv.excluded j q hq hlock e hlt (by omega) hwriter
  pending j q hq := by
    obtain ⟨hle, hderived⟩ := hinv.pending j q (pending_setOp_none hq)
    refine ⟨Nat.le_succ_of_le hle, hderived.congr fun e he => ?_⟩
    exact Function.update_of_ne (by omega) _ _
  stamped d r hstamp := stamped_write hinv hp (base_eq_epoch hinv hp h) (Nat.le_succ _) hstamp

/-- A careful step loses nothing and keeps the invariant. -/
theorem safe_and_inv {l : Option Pending} (hinv : Inv E s) (h : CarefulStep E s l s') :
    SafeStep E s l s' ∧ Inv E s' := by
  obtain ⟨hstep, hcareful⟩ := h
  cases hstep with
  | replaceLoad i object seen seenAt t hidle hfree hseen hcaller hload hrows =>
    refine ⟨⟨.replaceLoad i object seen seenAt t hidle hfree hseen hcaller hload hrows, fun p hp =>
      by cases hp⟩, ?_⟩
    apply inv_loaded hinv _ hfree rfl
    exact ⟨hseen, _, _, _, hcaller, (load_congr hinv.latest _).trans hload, hrows⟩
  | reconcileLoad i object t moment hidle hfree hdesired hload hchanged =>
    refine ⟨⟨.reconcileLoad i object t moment hidle hfree hdesired hload hchanged, fun p hp => by
      cases hp⟩, ?_⟩
    apply inv_loaded hinv _ hfree rfl
    refine ⟨_, _, _, fun d hd => ?_, (load_congr hinv.latest _).trans hload, rfl⟩
    obtain ⟨item, -, hitem⟩ := exists_of_mem_mapM_result hdesired hd
    exact valid_directiveFromYaml hitem
  | ended i => exact ⟨⟨.ended s i, fun p hp => by cases hp⟩, inv_ended hinv i⟩
  | write i t hp hfree hnew =>
    have hund := hcareful _ rfl
    refine ⟨⟨.write i t hp hfree hnew, fun q hq => ?_⟩, inv_write hinv hp hund t⟩
    obtain rfl := Option.some.inj hq
    exact safe_of_undisturbed hinv hp hund rfl
  | rewrite i t hp hfree hsame =>
    have hund := hcareful _ rfl
    refine ⟨⟨.rewrite i t hp hfree hsame, fun q hq => ?_⟩,
      inv_ended (inv_rewrite hinv hp hund hsame t) _⟩
    obtain rfl := Option.some.inj hq
    exact safe_of_undisturbed hinv hp hund rfl

/-- **No edit is lost.**  In a run that starts with a file without entries that `load` skips, and
whose calls do not disturb each other, every write is based on the list that the file has, keeps
what the replaces before stored, unless a caller who has seen it drops it, and removes no entry
that `load` skips. -/
theorem edits_kept {content : Content} {ls : List (Option Pending)}
    (hread : ∀ item ∈ content.items, ¬ Skipped E item)
    (h : Path (CarefulStep E) (.start content) ls s) (hstep : CarefulStep E s (some p) s') :
    Safe E s p s' := by
  have hinv : Inv E s := h.invariant (fun _ _ _ hinv hs => (safe_and_inv hinv hs).2)
    (inv_start hread)
  exact (safe_and_inv hinv hstep).1.2 p rfl

/-! ### A reconcile around a replace -/

/-- An interpreter; no directive of the runs below expires. -/
def plainEnv : Env where
  str
    | .str s => s
    | .null => "None"
    | .bool true => "True"
    | .bool false => "False"
    | v => v.dumps
  str_text _ := rfl
  str_ne v hv := by
    cases v with
    | null => cases hv
    | bool b => cases b <;> decide
    | str s => exact of_decide_eq_true hv
    | num n => exact Json.dumps_ne_empty _
    | arr items => exact Json.dumps_ne_empty _
    | obj fields => exact Json.dumps_ne_empty _
  lower := Py.lower
  hexdigest s :=
    let h := s.toList.foldl (fun h c => (131 * h + c.toNat) % 2 ^ 64) 7
    String.ofList (Json.hex4 (h / 2 ^ 48) ++ Json.hex4 (h / 2 ^ 32) ++ Json.hex4 (h / 2 ^ 16) ++
      Json.hex4 h)
  now _ := "2026-07-01T08:00:00Z"
  now_ne _ := by decide
  instant _ := none
  instant_idem s z h := by cases h
  after _ _ := false

def operatorItem : Item := fun k =>
  [("id", Json.str "dir-api"), ("text", .str "finish the API")].lookup k

def operatorRow : Directive :=
  ⟨"dir-api", "finish the API", "ana", "*", 3, "", "2026-07-01T08:00:00Z", true, false⟩

def managedItem : Item := fun k =>
  [("id", Json.str "dir-green"), ("text", .str "keep main green"), ("set_by", .str "rm")].lookup k

def managedRow : Directive :=
  ⟨"dir-green", "keep main green", "rm", "*", 3, "", "2026-07-01T08:00:00Z", true, true⟩

theorem fromYaml_managedItem : [managedItem].mapM (plainEnv.directiveFromYaml 0) =
    .ok [managedRow] := by
  decide +kernel

theorem replaceRows_operatorItem :
    plainEnv.replaceRows 0 (some "ana") (some (plainEnv.versionOf []))
    [operatorItem] [] = .ok [operatorRow] := by
  refine replaceRows_eq_ok_iff.mpr ⟨fun v hv => (Option.some.inj hv).symm, ?_, by decide⟩
  decide +kernel

theorem valid_operatorRow : Valid plainEnv operatorRow :=
  valid_of_replaceRows replaceRows_operatorItem operatorRow List.mem_cons_self

theorem valid_managedRow : Valid plainEnv managedRow := by
  obtain ⟨item, -, hitem⟩ := exists_of_mem_mapM_result fromYaml_managedItem List.mem_cons_self
  exact valid_directiveFromYaml hitem

def operatorCall : Pending := ⟨0, .replace 0 (some "ana") [operatorItem] 0, 0, [operatorRow]⟩

def staleReconcile : Pending := ⟨1, .reconcile, 0, [managedRow]⟩

/-- A reconcile that loaded the operator's list. -/
def nextReconcile : Pending := ⟨1, .reconcile, 1, [operatorRow, managedRow]⟩

/-- The replace has written, and the reconcile that loaded before it has not. -/
def overtaken : System :=
  (((((System.start .missing).setOp 1 (some staleReconcile)).setOp 0 (some operatorCall)).write
    plainEnv 0 operatorCall).setOp 0 none)

def replaced : System :=
  ((((System.start .missing).setOp 0 (some operatorCall)).write plainEnv 0
    operatorCall).setOp 0 none)

theorem free_start (content : Content) (object : ℕ) : (System.start content).Free object :=
  fun i p hp => by cases hp

theorem free_setOp {object : ℕ} (h : s.Free object) (i : ℕ)
    (hp : p.object = object → p.call.holdsLock = false) : (s.setOp i (some p)).Free object := by
  intro j q hq hobject
  rw [ops_setOp] at hq
  by_cases hj : j = i
  · subst hj
    rw [Function.update_self] at hq
    obtain rfl := Option.some.inj hq
    exact hp hobject
  · rw [Function.update_of_ne hj] at hq
    exact h j q hq hobject

theorem free_ended {object : ℕ} (h : s.Free object) (i : ℕ) : (s.setOp i none).Free object :=
  fun j q hq hobject => h j q (pending_setOp_none hq) hobject

theorem path_overtaken :
    Path (EditStep plainEnv) (.start .missing) [none, none, some operatorCall] overtaken := by
  refine .cons (.reconcileLoad 1 1 0 0 rfl (free_start _ 1) fromYaml_managedItem rfl rfl) ?_
  refine .cons (.replaceLoad 0 0 0 0 0 rfl ?_ Nat.le.refl rfl rfl
    replaceRows_operatorItem) ?_
  · exact free_setOp (free_start _ 0) 1 fun _ => rfl
  · exact .single (.write 0 0 rfl (fun h => by cases h) fun h => by cases h)

/-- A reconcile that loaded before a replace drops what the replace stored. -/
theorem not_edits_kept : ¬ ∀ (E : Env) (content : Content) (ls : List (Option Pending))
    (s s' : System) (p : Pending), Path (EditStep E) (.start content) ls s →
      EditStep E s (some p) s' → Safe E s p s' := by
  intro h
  have hfree : overtaken.Free 1 :=
    free_ended (free_setOp (free_setOp (free_start _ 1) 1 fun _ => rfl) 0 fun h => by cases h) 0
  have hnew : overtaken.content.items ≠ staleReconcile.rows.map Directive.toJson := by
    intro he
    have hid : some (Json.str "dir-api") = some (.str "dir-green") :=
      congrArg (fun items : List Json => items.head?.bind (Json.field? · "id")) he
    simp at hid
  have hsafe := h plainEnv .missing _ overtaken _ staleReconcile path_overtaken
    (.write 1 0 rfl (fun _ => hfree) hnew)
  have hstamp : overtaken.stamp operatorRow = some 1 := by
    show (if operatorRow ∈ [operatorRow] ∧ operatorRow.managed =
      false then some 1 else none) = some 1
    exact if_pos ⟨List.mem_cons_self, rfl⟩
  rcases hsafe.kept operatorRow 1 hstamp with hstored | hdrops
  · obtain ⟨rows, hload, hmem⟩ := hstored 0
    have hvalid : ∀ d ∈ [managedRow], Valid plainEnv d :=
      List.forall_mem_singleton.mpr valid_managedRow
    have hrows : plainEnv.load 0 (plainEnv.write 0 [managedRow]) = .ok [managedRow] :=
      load_of_items hvalid rfl 0
    obtain rfl := Except.ok.inj (hrows.symm.trans hload)
    exact absurd (List.mem_singleton.mp hmem) (by decide)
  · exact hdrops

theorem undisturbed_operatorCall :
    Undisturbed plainEnv ((System.start .missing).setOp 0 (some operatorCall)) operatorCall where
  alone e hlt hle := absurd (Nat.lt_of_lt_of_le hlt hle) (Nat.lt_irrefl 0)
  changed t author items seen hcall hlt := absurd hlt (Nat.not_lt_zero seen)
  named _ _ _ _ _ _ _ _ _ _ _ _ hstamp := by cases hstamp

theorem path_replaced : Path (CarefulStep plainEnv) (.start .missing)
    [none, some operatorCall, none] (replaced.setOp 1 (some nextReconcile)) := by
  have hvalid : ∀ d ∈ [operatorRow], Valid plainEnv d :=
    List.forall_mem_singleton.mpr valid_operatorRow
  refine .cons ⟨.replaceLoad 0 0 0 0 0 rfl (free_start _ 0) Nat.le.refl rfl rfl
    replaceRows_operatorItem, fun p hp => by cases hp⟩ ?_
  refine .cons ⟨.write 0 0 rfl (fun h => by cases h) (fun h => by cases h), fun p hp => ?_⟩ ?_
  · obtain rfl := Option.some.inj hp
    exact undisturbed_operatorCall
  · refine .single ⟨.reconcileLoad 1 1 0 0 rfl ?_ fromYaml_managedItem (load_of_items hvalid rfl 0)
      rfl, fun p hp => by cases hp⟩
    exact free_ended (free_setOp (free_start _ 1) 0 fun h => by cases h) 0

/-- The reconcile loads after the replace has written, and keeps the operator's directive. -/
theorem edits_kept_replaced :
    Safe plainEnv (replaced.setOp 1 (some nextReconcile)) nextReconcile
      (((replaced.setOp 1 (some nextReconcile)).write plainEnv 0 nextReconcile).setOp 1 none) := by
  have hfree : (replaced.setOp 1 (some nextReconcile)).Free 1 :=
    free_setOp (free_ended (free_setOp (free_start _ 1) 0 fun h => by cases h) 0) 1 fun _ => rfl
  have hnew : (replaced.setOp 1 (some nextReconcile)).content.items ≠
      nextReconcile.rows.map Directive.toJson := fun h => by cases h
  refine edits_kept (fun item hitem => absurd hitem List.not_mem_nil) path_replaced
    ⟨.write 1 0 rfl (fun _ => hfree) hnew, fun p hp => ?_⟩
  obtain rfl := Option.some.inj hp
  refine ⟨fun e hlt hle => absurd (Nat.lt_of_lt_of_le hlt hle) (Nat.lt_irrefl 1), ?_, ?_⟩
  · intro _ _ _ _ hcall
    cases hcall
  · intro _ _ _ _ hcall
    cases hcall

end Directives
