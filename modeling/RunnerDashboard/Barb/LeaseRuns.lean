import Mathlib.Data.Int.ConditionallyCompleteOrder
import RunnerDashboard.Barb.Lease
import RunnerDashboard.Lib.Path
import RunnerDashboard.Lib.Tenure

/-!
# Runs of the leases

Any sequence of checkouts, heartbeats, releases and turnovers on any scopes, with clock
readings that do not decrease.  At a second a scope's row is a seat: its epoch, and its
holder while the lease is live.  Time and every operation lead to a later seat, so an epoch
belongs to one tenure.

## Main results

* `Step.change` — every step is a change of every row.
* `seat_le_of_path` — the seat of a scope at the end of a run is a later one.
* `epoch_names_tenure` — an epoch names one tenure of one holder.
-/

namespace Continuity

open Sql Lts Tenure

/-! ### Steps -/

/-- An operation with its arguments. -/
inductive Call
  | checkout (a : CheckoutArgs)
  | heartbeat (a : HeartbeatArgs)
  | release (a : ReleaseArgs)
  | append (a : TurnoverArgs) (scope author : String) (now : Int)

/-- The reading of the clock. -/
def Call.now : Call → Int
  | .checkout a => a.now
  | .heartbeat a => a.now
  | .release a => a.now
  | .append _ _ _ now => now

/-- What an operation returns or raises. -/
inductive Reply
  | checkedOut (r : Except ContinuityError CheckoutReply)
  | beaten (r : Except ContinuityError HeartbeatReply)
  | released (r : Except ContinuityError ReleaseReply)
  | appended (r : Except ContinuityError String)

/-- An operation on the store. -/
def exec (redact : String → String) (db : Db) : Call → Reply × Db
  | .checkout a => (.checkedOut (checkoutLease a db).1, (checkoutLease a db).2)
  | .heartbeat a => (.beaten (heartbeatLease a db).1, (heartbeatLease a db).2)
  | .release a => (.released (releaseLease redact a db).1, (releaseLease redact a db).2)
  | .append a scope author now =>
    (.appended (appendTurnover redact a scope author now db).1,
      (appendTurnover redact a scope author now db).2)

/-- An operation and its answer. -/
structure Event where
  call : Call
  reply : Reply

def Event.at' (e : Event) : Int := seconds e.call.now

/-- The store, and the last reading of the clock. -/
structure State where
  db : Db
  clock : Int

def State.lease (s : State) (scope : String) : Option Lease := s.db.lease scope

/-- One operation. -/
structure Step (redact : String → String) (s : State) (e : Event) (t : State) : Prop where
  clock_le : s.clock ≤ e.call.now
  exec_eq : exec redact s.db e.call = (e.reply, t.db)
  clock_eq : t.clock = e.call.now

def State.new (clock : Int) : State := ⟨.empty, clock⟩

/-- The event is a checkout of the scope that returned `acquired`. -/
def Event.Acquires (e : Event) (scope holder : String) (epoch : Int) : Prop :=
  ∃ a v, e.call = .checkout a ∧ normalizeScope a.scope = .ok scope ∧ a.holder = holder ∧
    e.reply = .checkedOut (.ok (.acquired v)) ∧ v.lease.epoch = epoch

/-- The event is a release of the scope that returned `released`. -/
def Event.Releases (e : Event) (scope : String) : Prop :=
  ∃ holder compliant, e.reply = .released (.ok (.released scope holder compliant))

/-! ### What a step can do to one row -/

/-- The row of a scope before and after a step. -/
inductive Change (e : Event) (scope : String) : Option Lease → Option Lease → Prop
  | same {r : Option Lease} (unacquired : ∀ h n, ¬ e.Acquires scope h n)
      (unreleased : ¬ e.Releases scope) : Change e scope r r
  /-- Checked out over a row. -/
  | taken {cur : Lease} (a : CheckoutArgs) (call : e.call = .checkout a)
      (norm : normalizeScope a.scope = .ok scope)
      (reply : e.reply = .checkedOut (.ok (.acquired (rowToLease scope (a.over cur) a.at'))))
      (free : cur.live a.at' = true → cur.holder ≠ a.holder → a.force = true) :
      Change e scope (some cur) (some (a.over cur))
  /-- Checked out without a row. -/
  | fresh (a : CheckoutArgs) (call : e.call = .checkout a)
      (norm : normalizeScope a.scope = .ok scope)
      (reply : e.reply = .checkedOut (.ok (.acquired (rowToLease scope a.fresh a.at')))) :
      Change e scope none (some a.fresh)
  | extended {cur : Lease} (a : HeartbeatArgs) (call : e.call = .heartbeat a)
      (reply : e.reply = .beaten (.ok (.renewed (rowToLease scope (a.over cur) e.at'))))
      (live : cur.live e.at' = true) : Change e scope (some cur) (some (a.over cur))
  /-- Named in a turnover of its holder. -/
  | noted {cur : Lease} (a : TurnoverArgs) (now : Int)
      (call : e.call = .append a scope cur.holder now) (reply : e.reply = .appended (.ok a.id))
      (unreleased : cur.isReleased = false) :
      Change e scope (some cur) (some (cur.noted a.id e.at'))
  | released {cur cur' : Lease} (a : ReleaseArgs) (call : e.call = .release a)
      (reply : e.reply = .released (.ok (.released scope a.holder (a.hasTurnover cur))))
      (unreleased : cur.isReleased = false) (holder : cur.holder = a.holder)
      (turnover : a.requireTurnover = true → a.hasTurnover cur = true)
      (after : cur' = cur ∨ ∃ t, a.turnover = some t ∧ cur' = cur.noted t.id e.at') :
      Change e scope (some cur) (some (cur'.released e.at'))

/-- The row that a release marks has the epoch it had, with or without a turnover. -/
theorem epoch_noted {cur cur' : Lease} {turnover : Option TurnoverArgs} {at' : Int}
    (after : cur' = cur ∨ ∃ t, turnover = some t ∧ cur' = cur.noted t.id at') :
    cur'.epoch = cur.epoch := by
  rcases after with rfl | ⟨t, -, rfl⟩
  · rfl
  · rfl

section Change

variable {redact : String → String} {db db' : Db} {e : Event} {scope : String}

/-- The event is of another kind than a checkout and a release. -/
private theorem Change.ofSame {r : Option Lease}
    (hc : ∀ v, e.reply ≠ .checkedOut (.ok (.acquired v)))
    (hr : ∀ h c, e.reply ≠ .released (.ok (.released scope h c))) : Change e scope r r :=
  .same (fun _ _ ⟨_, v, _, _, _, hreply, _⟩ => hc v hreply) fun ⟨h, c, hreply⟩ => hr h c hreply

theorem exists_reply {α β : Type*} {p : α × β} {b : β} (h : b = p.2) : ∃ a, p = (a, b) :=
  ⟨p.1, Prod.ext rfl h.symm⟩

private theorem change_checkout {a : CheckoutArgs} (hcall : e.call = .checkout a)
    (hreply : e.reply = .checkedOut (checkoutLease a db).1) (hdb : db' = (checkoutLease a db).2) :
    Change e scope (db.lease scope) (db'.lease scope) := by
  obtain ⟨reply, hres⟩ := exists_reply hdb
  rw [hres] at hreply
  cases reply with
  | error x =>
    rw [checkoutLease_error hres]
    exact .ofSame (by simp [hreply]) (by simp [hreply])
  | ok reply =>
    obtain ⟨scope₀, hnorm, -, hout⟩ := checkoutLease_ok_cases hres
    by_cases hscope : scope = scope₀
    · subst hscope
      cases hout with
      | conflict => exact .ofSame (by simp [hreply]) (by simp [hreply])
      | taken hrow hfree _ =>
        rw [hrow, lease_putLease, if_pos rfl]
        exact .taken a hcall hnorm hreply hfree
      | fresh hrow =>
        rw [hrow, lease_putLease, if_pos rfl]
        exact .fresh a hcall hnorm hreply
    · -- the checkout was one of another scope
      have hsame : db'.lease scope = db.lease scope := by
        cases hout with
        | conflict => rfl
        | taken => rw [lease_putLease, if_neg hscope]
        | fresh => rw [lease_putLease, if_neg hscope]
      rw [hsame]
      refine .same ?_ ?_
      · rintro h n ⟨a', v, hcall', hnorm', -⟩
        obtain rfl := Call.checkout.inj (hcall.symm.trans hcall')
        exact hscope (Except.ok.inj (hnorm'.symm.trans hnorm))
      · rintro ⟨h, c, hreply'⟩
        exact absurd (hreply.symm.trans hreply') (by simp)

private theorem change_heartbeat {a : HeartbeatArgs} (hcall : e.call = .heartbeat a)
    (hreply : e.reply = .beaten (heartbeatLease a db).1) (hdb : db' = (heartbeatLease a db).2) :
    Change e scope (db.lease scope) (db'.lease scope) := by
  have hsame : ∀ r, Change e scope r r := fun r => .ofSame (by simp [hreply]) (by simp [hreply])
  have hat : e.at' = seconds a.now := by rw [Event.at', hcall]; rfl
  obtain ⟨reply, hres⟩ := exists_reply hdb
  rw [hres] at hreply
  cases reply with
  | error x =>
    rw [heartbeatLease_error hres]
    exact hsame _
  | ok reply =>
    obtain ⟨scope₀, -, hbeat⟩ := heartbeatLease_ok_cases hres
    cases hbeat with
    | renewed hrow hlive _ _ =>
      rw [lease_putLease]
      split
      · next hs =>
        rw [hs, hrow]
        exact .extended a hcall (hat ▸ hs ▸ hreply) (hat ▸ hlive)
      · exact hsame _
    | notFound => exact hsame _
    | refused => exact hsame _

private theorem notedLease_cases (r : Option Lease) (author id : String) (at' : Int) :
    notedLease r author id at' = r ∨
      ∃ cur, r = some cur ∧ cur.isReleased = false ∧ cur.holder = author ∧
        notedLease r author id at' = some (cur.noted id at') := by
  cases r with
  | none => exact .inl rfl
  | some cur =>
    by_cases h : ¬ cur.isReleased ∧ cur.holder = author
    · exact .inr ⟨cur, rfl, by simpa using h.1, h.2, by simp [notedLease, h]⟩
    · exact .inl (by simp only [notedLease, Option.map_some, if_neg h])

private theorem change_append {a : TurnoverArgs} {scope₀ author : String} {now : Int}
    (hcall : e.call = .append a scope₀ author now)
    (hreply : e.reply = .appended (appendTurnover redact a scope₀ author now db).1)
    (hdb : db' = (appendTurnover redact a scope₀ author now db).2) :
    Change e scope (db.lease scope) (db'.lease scope) := by
  have hsame : ∀ r, Change e scope r r := fun r => .ofSame (by simp [hreply]) (by simp [hreply])
  have hat : e.at' = seconds now := by rw [Event.at', hcall]; rfl
  obtain ⟨reply, hres⟩ := exists_reply hdb
  rw [hres] at hreply
  cases reply with
  | error x =>
    rw [appendTurnover_error hres]
    exact hsame _
  | ok id =>
    obtain ⟨rfl, hins⟩ := appendTurnover_ok hres
    obtain ⟨-, -, -, hlease⟩ := insertTurnover_ok hins
    rw [hlease]
    split
    · next hs =>
      subst hs
      rcases notedLease_cases (db.lease scope) author a.id (seconds now) with
        heq | ⟨cur, hrow, hrel, rfl, heq⟩
      · rw [heq]
        exact hsame _
      · rw [heq, hrow, ← hat]
        exact .noted a now hcall hreply hrel
    · exact hsame _

private theorem change_release {a : ReleaseArgs} (hcall : e.call = .release a)
    (hreply : e.reply = .released (releaseLease redact a db).1)
    (hdb : db' = (releaseLease redact a db).2) :
    Change e scope (db.lease scope) (db'.lease scope) := by
  have hat : e.at' = seconds a.now := by rw [Event.at', hcall]; rfl
  obtain ⟨reply, hres⟩ := exists_reply hdb
  rw [hres] at hreply
  cases reply with
  | error x =>
    rw [releaseLease_error hres]
    exact .ofSame (by simp [hreply]) (by simp [hreply])
  | ok reply =>
    obtain ⟨scope₀, hnorm, hout⟩ := releaseLease_ok_cases hres
    cases hout with
    | notFound => exact .ofSame (by simp [hreply]) (by simp [hreply])
    | refused => exact .ofSame (by simp [hreply]) (by simp [hreply])
    | @released cur db₁ hrow hrel hholder hins hturn =>
      have hlease : ∃ cur', (cur' = cur ∨ ∃ t, a.turnover = some t ∧
          cur' = cur.noted t.id e.at') ∧ db₁.lease scope₀ = some cur' ∧
          ∀ scope', scope' ≠ scope₀ → db₁.lease scope' = db.lease scope' := by
        unfold ReleaseArgs.insert at hins
        split at hins
        · next t ht =>
          rw [← hrow] at hins
          obtain ⟨-, -, -, hlease⟩ := insertTurnover_ok hins
          refine ⟨cur.noted t.id e.at', .inr ⟨t, ht, rfl⟩, ?_, ?_⟩
          · rw [hlease, if_pos rfl, hrow, hat]
            simp [notedLease, hrel, hholder]
          · intro scope' hs
            rw [hlease, if_neg hs]
        · obtain rfl := Except.ok.inj hins
          exact ⟨cur, .inl rfl, hrow, fun _ _ => rfl⟩
      obtain ⟨cur', hcur', hrow', hother⟩ := hlease
      rw [lease_release]
      split
      · next hs =>
        subst hs
        rw [hrow, hrow', Option.map_some, ← hat]
        exact .released a hcall hreply hrel hholder hturn hcur'
      · next hs =>
        rw [hother scope hs]
        refine .ofSame (by simp [hreply]) ?_
        intro h c hreply'
        rw [hreply] at hreply'
        simp only [Reply.released.injEq, Except.ok.injEq, ReleaseReply.released.injEq] at hreply'
        exact hs hreply'.1.symm

/-- **Every step is a change of every row.** -/
theorem Step.change {s t : State} (h : Step redact s e t) (scope : String) :
    Change e scope (s.lease scope) (t.lease scope) := by
  have hreply : e.reply = (exec redact s.db e.call).1 := by rw [h.exec_eq]
  have hdb : t.db = (exec redact s.db e.call).2 := by rw [h.exec_eq]
  cases hc : e.call with
  | checkout a =>
    rw [hc, exec] at hreply hdb
    exact change_checkout hc hreply hdb
  | heartbeat a =>
    rw [hc, exec] at hreply hdb
    exact change_heartbeat hc hreply hdb
  | release a =>
    rw [hc, exec] at hreply hdb
    exact change_release hc hreply hdb
  | append a scope₀ author now =>
    rw [hc, exec] at hreply hdb
    exact change_append hc hreply hdb

end Change

theorem Step.checkedOut {redact : String → String} {s t : State} {e : Event} {a : CheckoutArgs}
    {reply : CheckoutReply} (hs : Step redact s e t) (hcall : e.call = .checkout a)
    (hreply : e.reply = .checkedOut (.ok reply)) :
    ∃ scope, normalizeScope a.scope = .ok scope ∧ Py.strip a.holder ≠ "" ∧
      CheckedOut a scope s.db reply t.db := by
  have h := hs.exec_eq
  rw [hcall, hreply, exec] at h
  obtain ⟨hfst, hsnd⟩ := Prod.mk.inj h
  exact checkoutLease_ok_cases (Prod.ext (Reply.checkedOut.inj hfst) hsnd)

/-! ### Seats -/

/-- The seat of a row at a second: it is held while the lease is live. -/
def seatAt (r : Option Lease) (at' : Int) : Seat Int String where
  epoch := (r.map Lease.epoch).getD 0
  holder := (r.filter fun r => r.live at').map Lease.holder

theorem seatAt_some (r : Lease) (at' : Int) :
    seatAt (some r) at' = ⟨r.epoch, if r.live at' then some r.holder else none⟩ := by
  unfold seatAt
  cases h : r.live at' <;> simp [Option.filter, h]

theorem seatAt_mono (r : Option Lease) {at' at'' : Int} (h : at' ≤ at'') :
    seatAt r at' ≤ seatAt r at'' := by
  cases r with
  | none => exact le_rfl
  | some r =>
    rw [seatAt_some, seatAt_some]
    by_cases hlive : r.live at'' = true
    · obtain ⟨hrel, hexp⟩ := Lease.live_iff.mp hlive
      have hlive' : r.live at' = true := Lease.live_iff.mpr ⟨hrel, by omega⟩
      rw [hlive, hlive']
    · rw [if_neg hlive]
      exact .inr ⟨rfl, .inr rfl⟩

theorem CheckoutArgs.live_over (a : CheckoutArgs) (cur : Lease) : (a.over cur).live a.at' = true :=
  Lease.live_iff.mpr ⟨rfl, lt_expiry _ _⟩

theorem CheckoutArgs.live_fresh (a : CheckoutArgs) : a.fresh.live a.at' = true :=
  Lease.live_iff.mpr ⟨rfl, lt_expiry _ _⟩

variable {redact : String → String} {s t u : State} {e : Event} {scope : String}
  {past ls : List Event} {h : String} {n : Int} {r r' : Option Lease}

theorem CheckoutArgs.at'_eq {a : CheckoutArgs} (hc : e.call = .checkout a) : a.at' = e.at' := by
  rw [Event.at', hc]
  rfl

theorem Change.seat_le (hch : Change e scope r r') : seatAt r e.at' ≤ seatAt r' e.at' := by
  cases hch with
  | same => exact le_rfl
  | @taken cur a call norm reply free =>
    rw [seatAt_some, seatAt_some, ← a.at'_eq call, a.live_over cur]
    by_cases hrenews : a.renews cur = true
    · obtain ⟨hholder, hlive⟩ := CheckoutArgs.renews_iff.mp hrenews
      refine .inr ⟨by simp [CheckoutArgs.over, hrenews], .inl ?_⟩
      rw [hlive]
      simp [CheckoutArgs.over, hholder]
    · refine Seat.le_of_epoch_lt ?_
      simp only [CheckoutArgs.over, if_neg hrenews]
      omega
  | fresh a call norm reply =>
    refine Seat.le_of_epoch_lt ?_
    simp [seatAt, CheckoutArgs.fresh]
  | @extended cur a call reply live =>
    have hat : e.at' = seconds a.now := by rw [Event.at', call]; rfl
    have hlive' : (a.over cur).live e.at' = true := by
      refine Lease.live_iff.mpr ⟨(Lease.live_iff.mp live).1, ?_⟩
      rw [hat]
      exact lt_expiry _ _
    rw [seatAt_some, seatAt_some, live, hlive']
    exact le_rfl
  | noted =>
    rw [seatAt_some, seatAt_some]
    exact .inr ⟨rfl, .inl rfl⟩
  | @released cur cur' a call reply unreleased holder turnover after =>
    rw [seatAt_some, seatAt_some]
    have hepoch : cur'.epoch = cur.epoch := epoch_noted after
    refine .inr ⟨hepoch.symm, .inr ?_⟩
    simp [Lease.live, Lease.released, Lease.isReleased]

theorem Change.of_acquires (hch : Change e scope r r') (hacq : e.Acquires scope h n) :
    ∃ row, r' = some row ∧ row.holder = h ∧ row.epoch = n ∧ row.live e.at' = true := by
  obtain ⟨a, v, hcall, hnorm, rfl, hreply, rfl⟩ := id hacq
  cases hch with
  | same unacquired => exact absurd hacq (unacquired _ _)
  | taken a' call norm reply =>
    obtain rfl := Call.checkout.inj (hcall.symm.trans call)
    rw [hreply] at reply
    simp only [Reply.checkedOut.injEq, Except.ok.injEq, CheckoutReply.acquired.injEq] at reply
    exact ⟨_, rfl, rfl, by rw [reply]; rfl, a.at'_eq call ▸ a.live_over _⟩
  | fresh a' call norm reply =>
    obtain rfl := Call.checkout.inj (hcall.symm.trans call)
    rw [hreply] at reply
    simp only [Reply.checkedOut.injEq, Except.ok.injEq, CheckoutReply.acquired.injEq] at reply
    exact ⟨_, rfl, rfl, by rw [reply]; rfl, a.at'_eq call ▸ a.live_fresh⟩
  | extended a' call => rw [hcall] at call; cases call
  | noted a' now call => rw [hcall] at call; cases call
  | released a' call => rw [hcall] at call; cases call

theorem Change.of_releases (hch : Change e scope r r') (hrel : e.Releases scope) :
    ∃ row, r' = some row ∧ row.holder = "" ∧ row.releasedAt = some e.at' ∧
      row.expiresAt = e.at' := by
  obtain ⟨holder, compliant, hreply⟩ := id hrel
  cases hch with
  | same _ unreleased => exact absurd hrel unreleased
  | taken a call norm reply => rw [hreply] at reply; cases reply
  | fresh a call norm reply => rw [hreply] at reply; cases reply
  | extended a call reply => rw [hreply] at reply; cases reply
  | noted a now call reply => rw [hreply] at reply; cases reply
  | released a call reply unreleased holder turnover after => exact ⟨_, rfl, rfl, rfl, rfl⟩

/-! ### Runs -/

def State.seat (s : State) (scope : String) : Seat Int String :=
  seatAt (s.lease scope) (seconds s.clock)

theorem Step.at'_eq (hs : Step redact s e t) : e.at' = seconds t.clock := by
  rw [hs.clock_eq]
  rfl

theorem Step.seconds_le (hs : Step redact s e t) : seconds s.clock ≤ e.at' :=
  Int.ediv_le_ediv (by decide) hs.clock_le

/-- The seat at the time of an operation is not earlier. -/
theorem Step.seat_le_before (hs : Step redact s e t) (scope : String) :
    s.seat scope ≤ seatAt (s.lease scope) e.at' := seatAt_mono _ hs.seconds_le

theorem Step.seat_before_le (hs : Step redact s e t) (scope : String) :
    seatAt (s.lease scope) e.at' ≤ t.seat scope := by
  have := (hs.change scope).seat_le
  rwa [hs.at'_eq] at this ⊢

/-- **Seats only get later.** -/
theorem seat_le_of_path (p : Path (Step redact) s ls t) (scope : String) :
    s.seat scope ≤ t.seat scope :=
  p.monotone (I := fun _ => True) (fun s => s.seat scope) (fun _ _ _ _ _ => trivial)
    (fun _ _ _ _ hs => (hs.seat_le_before scope).trans (hs.seat_before_le scope)) trivial

theorem Step.seat_acquired (hs : Step redact s e t) (hacq : e.Acquires scope h n) :
    t.seat scope = ⟨n, some h⟩ := by
  obtain ⟨row, hrow, rfl, rfl, hlive⟩ := (hs.change scope).of_acquires hacq
  rw [hs.at'_eq] at hlive
  rw [State.seat, hrow, seatAt_some, hlive]
  rfl

theorem Step.seat_released (hs : Step redact s e t) (hrel : e.Releases scope) :
    (t.seat scope).holder = none := by
  obtain ⟨row, hrow, -, hrel, -⟩ := (hs.change scope).of_releases hrel
  rw [State.seat, hrow, seatAt_some]
  simp [Lease.live, Lease.isReleased, hrel]

theorem exists_live_of_holder {at' : Int} (hh : (seatAt r at').holder ≠ none) :
    ∃ row, r = some row ∧ row.live at' = true := by
  cases r with
  | none => exact absurd rfl hh
  | some row =>
    refine ⟨row, rfl, ?_⟩
    by_contra hlive
    rw [seatAt_some, if_neg hlive] at hh
    exact hh rfl

/-- Between two checkouts of one epoch the seat is the same. -/
theorem seat_between {s₁ t₁ s₂ t₂ : State} {e₁ e₂ : Event} {h₁ h₂ : String}
    (hs₁ : Step redact s₁ e₁ t₁) (hacq₁ : e₁.Acquires scope h₁ n) (hs₂ : Step redact s₂ e₂ t₂)
    (hacq₂ : e₂.Acquires scope h₂ n) {x : Seat Int String} (hle : t₁.seat scope ≤ x)
    (hle' : x ≤ t₂.seat scope) : x = ⟨n, some h₁⟩ ∧ h₂ = h₁ := by
  have hseat₁ := hs₁.seat_acquired hacq₁
  have hseat₂ := hs₂.seat_acquired hacq₂
  rw [hseat₁] at hle
  rw [hseat₂] at hle'
  obtain ⟨hx, heq⟩ := Seat.eq_between hle hle' rfl (by simp)
  exact ⟨hx, Option.some.inj (Seat.ext_iff.mp heq).2⟩

/-- The next operation of a run, and what is later than it. -/
private theorem exists_next {mid after rest : List Event} {e₂ : Event}
    (hnext : mid ++ e₂ :: after = e :: rest) (p : Path (Step redact) u (mid ++ [e₂]) t) :
    ∃ u', Step redact u e u' ∧ ∀ scope, u'.seat scope ≤ t.seat scope := by
  cases mid with
  | nil =>
    obtain ⟨rfl, -⟩ := List.cons.inj hnext
    obtain ⟨u', hu, q⟩ := path_cons_iff.mp p
    exact ⟨u', hu, seat_le_of_path q⟩
  | cons x mid =>
    obtain ⟨rfl, -⟩ := List.cons.inj hnext
    obtain ⟨u', hu, q⟩ := path_cons_iff.mp p
    exact ⟨u', hu, seat_le_of_path q⟩

/-! ### Where a row comes from -/

/-- A row of the epoch that the last acquired checkout of the scope returned; it is that
checkout's holder's, and there was no release since, or it was released and is vacant. -/
def Tenured (past : List Event) (s : State) (scope : String) (r : Lease) : Prop :=
  ∃ before e after h, past = before ++ e :: after ∧ e.Acquires scope h r.epoch ∧
    (∀ e' ∈ after, ∀ h' n', ¬ e'.Acquires scope h' n') ∧
    ((r.releasedAt = none ∧ r.holder = h ∧ ∀ e' ∈ after, ¬ e'.Releases scope) ∨
      (r.releasedAt ≠ none ∧ r.expiresAt ≤ seconds s.clock))

/-- A step that is no acquired checkout, and no release of an unreleased row. -/
private theorem Tenured.snoc {r r' : Lease} (ht : Tenured past s scope r)
    (hs : Step redact s e t) (hacq : ∀ h n, ¬ e.Acquires scope h n)
    (hepoch : r'.epoch = r.epoch)
    (hrow : (r'.releasedAt = r.releasedAt ∧ r'.holder = r.holder ∧
        (r.releasedAt ≠ none → r'.expiresAt = r.expiresAt) ∧ ¬ e.Releases scope) ∨
      (r'.releasedAt ≠ none ∧ r'.expiresAt = e.at')) :
    Tenured (past ++ [e]) t scope r' := by
  obtain ⟨before, e₀, after, h, rfl, hacq₀, hno, hcase⟩ := ht
  have hclock := hs.seconds_le
  rw [hs.at'_eq] at hclock
  refine ⟨before, e₀, after ++ [e], h, by simp, hepoch ▸ hacq₀, ?_, ?_⟩
  · intro e' he'
    rcases List.mem_append.mp he' with he' | he'
    · exact hno e' he'
    · rw [List.mem_singleton.mp he']
      exact hacq
  · rcases hrow with ⟨hrel, hholder, hexp, hnorel⟩ | ⟨hrel, hexp⟩
    · rcases hcase with ⟨hnone, hh, hnoafter⟩ | ⟨hsome, hle⟩
      · refine .inl ⟨hrel.trans hnone, hholder.trans hh, ?_⟩
        intro e' he'
        rcases List.mem_append.mp he' with he' | he'
        · exact hnoafter e' he'
        · rwa [List.mem_singleton.mp he']
      · exact .inr ⟨by rwa [hrel], by rw [hexp hsome]; exact hle.trans hclock⟩
    · exact .inr ⟨hrel, by rw [hexp, hs.at'_eq]⟩

private theorem Tenured.new (hacq : e.Acquires scope h n) {r : Lease} (hholder : r.holder = h)
    (hepoch : r.epoch = n) (hrel : r.releasedAt = none) : Tenured (past ++ [e]) t scope r :=
  ⟨past, e, [], h, rfl, hepoch ▸ hacq, by simp, .inl ⟨hrel, hholder, by simp⟩⟩

theorem Tenured.step (ht : ∀ r, s.lease scope = some r → Tenured past s scope r)
    (hs : Step redact s e t) :
    ∀ r, t.lease scope = some r → Tenured (past ++ [e]) t scope r := by
  intro r' hr'
  have hch := hs.change scope
  rw [hr'] at hch
  generalize hr : s.lease scope = r₀ at hch ht
  cases hch with
  | same hacq hrel =>
    exact (ht r' rfl).snoc hs hacq rfl (.inl ⟨rfl, rfl, fun _ => rfl, hrel⟩)
  | taken a call norm reply =>
    exact Tenured.new ⟨a, _, call, norm, rfl, reply, rfl⟩ rfl rfl rfl
  | fresh a call norm reply =>
    exact Tenured.new ⟨a, _, call, norm, rfl, reply, rfl⟩ rfl rfl rfl
  | @extended cur a call reply live =>
    refine (ht cur rfl).snoc hs ?_ rfl (.inl ⟨rfl, rfl, ?_, ?_⟩)
    · rintro h n ⟨a', v, hcall, -⟩
      rw [hcall] at call
      cases call
    · exact fun hrel => absurd (Lease.live_iff.mp live).1 hrel
    · rintro ⟨h, c, hreply⟩
      rw [hreply] at reply
      cases reply
  | @noted cur a now call reply unreleased =>
    refine (ht cur rfl).snoc hs ?_ rfl (.inl ⟨rfl, rfl, fun _ => rfl, ?_⟩)
    · rintro h n ⟨a', v, hcall, -⟩
      rw [hcall] at call
      cases call
    · rintro ⟨h, c, hreply⟩
      rw [hreply] at reply
      cases reply
  | @released cur cur' a call reply unreleased holder turnover after =>
    have hepoch : cur'.epoch = cur.epoch := epoch_noted after
    refine (ht cur rfl).snoc hs ?_ hepoch (.inr ⟨by simp [Lease.released], rfl⟩)
    rintro h n ⟨a', v, hcall, -⟩
    rw [hcall] at call
    cases call

theorem tenured_of_path {clock : Int} (p : Path (Step redact) (.new clock) past s)
    (scope : String) : ∀ r, s.lease scope = some r → Tenured past s scope r :=
  p.history (I := fun past s => ∀ r, s.lease scope = some r → Tenured past s scope r)
    (fun _ _ _ _ ht hs => Tenured.step ht hs) (fun _ hr => nomatch hr)

/-! ### Epochs name tenures -/

/-- **An epoch names one tenure of one holder.**  In every run of the leases: the epoch of a
scope does not decrease; two acquired checkouts of one epoch have the same holder, and
between them there was no release, the lease was not expired at any time, and no other
holder acquired it; and a claim passes the fence only at the epoch of the last acquired
checkout, for its holder's seat, while that lease is neither released nor expired. -/
theorem epoch_names_tenure {clock : Int} (p : Path (Step redact) (.new clock) past s) :
    (∀ scope e t, Step redact s e t →
      ((s.lease scope).map Lease.epoch).getD 0 ≤ ((t.lease scope).map Lease.epoch).getD 0) ∧
    (∀ scope before e₁ mid e₂ after h₁ h₂ n, past = before ++ e₁ :: (mid ++ e₂ :: after) →
      e₁.Acquires scope h₁ n → e₂.Acquires scope h₂ n →
        h₁ = h₂ ∧ (∀ e ∈ mid, ¬ e.Releases scope ∧ ∀ h n', e.Acquires scope h n' → h = h₁) ∧
        ∀ mid₁ mid₂ u e rest, mid = mid₁ ++ mid₂ → mid₂ ++ e₂ :: after = e :: rest →
          Path (Step redact) (.new clock) (before ++ e₁ :: mid₁) u →
          Path (Step redact) u (e :: rest) s →
          ∀ at' ≤ e.at', ∃ r, u.lease scope = some r ∧ at' < r.expiresAt) ∧
    (∀ claim now result, s.clock ≤ now → assertLeaseClaim s.db claim now = .ok result →
      ∃ before e after h, past = before ++ e :: after ∧ e.Acquires claim.scope h claim.epoch ∧
        (∀ e' ∈ after, ∀ h' n', ¬ e'.Acquires claim.scope h' n') ∧
        claim.seatOk h = true ∧ (∀ e' ∈ after, ¬ e'.Releases claim.scope) ∧
        ∃ r, s.lease claim.scope = some r ∧ r.releasedAt = none ∧ seconds now < r.expiresAt) := by
  refine ⟨?_, ?_, ?_⟩
  · intro scope e t hs
    exact Seat.epoch_le ((hs.change scope).seat_le)
  · intro scope before e₁ mid e₂ after h₁ h₂ n hpast hacq₁ hacq₂
    rw [hpast] at p
    obtain ⟨s₁, t₁, -, hs₁, q⟩ := path_middle_iff.mp p
    obtain ⟨s₂, t₂, q₁, hs₂, q₂⟩ := path_middle_iff.mp q
    -- seats only move up, so between the two checkouts the seat stands still
    have hbetween : ∀ {x}, t₁.seat scope ≤ x → x ≤ t₂.seat scope →
        x = ⟨n, some h₁⟩ ∧ h₂ = h₁ := fun hle hle' =>
      seat_between hs₁ hacq₁ hs₂ hacq₂ hle hle'
    have hle₂ : t₁.seat scope ≤ t₂.seat scope := seat_le_of_path (q₁.snoc hs₂) scope
    refine ⟨(hbetween hle₂ le_rfl).2.symm, ?_, ?_⟩
    · intro e he
      obtain ⟨mid₁, mid₂, rfl⟩ := List.append_of_mem he
      obtain ⟨v, v', r₁, hv, r₂⟩ := path_middle_iff.mp q₁
      have hv' := (hbetween (seat_le_of_path (r₁.snoc hv) scope)
        (seat_le_of_path (r₂.snoc hs₂) scope)).1
      constructor
      · intro hrel
        have := hv.seat_released hrel
        rw [hv'] at this
        exact absurd this (by simp)
      · intro h n' hacq
        have := hv.seat_acquired hacq
        rw [hv'] at this
        exact (Option.some.inj (Seat.ext_iff.mp this).2).symm
    · intro mid₁ mid₂ u e rest hmid hnext pu qu at' hat'
      rw [← hnext] at qu
      obtain ⟨v₁, w₁, -, hv₁, r₁⟩ := path_middle_iff.mp pu
      obtain ⟨v₂, w₂, r₂, hv₂, -⟩ := path_middle_iff.mp qu
      obtain ⟨u', hu, hlater⟩ := exists_next hnext (r₂.snoc hv₂)
      obtain ⟨hseat, -⟩ := seat_between hv₁ hacq₁ hv₂ hacq₂
        ((seat_le_of_path r₁ scope).trans (hu.seat_le_before scope))
        ((hu.seat_before_le scope).trans (hlater scope))
      obtain ⟨r, hr, hlive⟩ := @exists_live_of_holder (u.lease scope) e.at'
        (by rw [hseat]; simp)
      exact ⟨r, hr, hat'.trans_lt (Lease.live_iff.mp hlive).2⟩
  · intro claim now result hnow hok
    obtain ⟨r, hr, hseat, hexp, hepoch, -⟩ := assertLeaseClaim_ok_iff.mp hok
    obtain ⟨before, e, after, h, hpast, hacq, hno, hcase⟩ := tenured_of_path p claim.scope r hr
    rcases hcase with ⟨hrel, hholder, hnorel⟩ | ⟨-, hle⟩
    · exact ⟨before, e, after, h, hpast, hepoch ▸ hacq, hno, hholder ▸ hseat, hnorel, r, hr, hrel,
        hexp⟩
    · -- a released lease is expired from its release on
      have : seconds s.clock ≤ seconds now := Int.ediv_le_ediv (by decide) hnow
      omega

/-! ### A renewal -/

def State.after (redact : String → String) (s : State) (c : Call) : State :=
  ⟨(exec redact s.db c).2, c.now⟩

def State.event (redact : String → String) (s : State) (c : Call) : Event :=
  ⟨c, (exec redact s.db c).1⟩

theorem step_after {c : Call} (hclock : s.clock ≤ c.now) :
    Step redact s (s.event redact c) (s.after redact c) := ⟨hclock, rfl, rfl⟩

def sampleCheckout (now : Int) : Call :=
  .checkout { scope := "barb:front-door", holder := "agent-codex-barb", now := now }

def sampleHeld : State := (State.new 0).after id (sampleCheckout 0)

/-- The lease is renewed after ten seconds, and was not expired before. -/
theorem epoch_names_tenure_renewed :
    ∃ r, sampleHeld.lease "barb:front-door" = some r ∧ 10 < r.expiresAt := by
  have h₁ : Step id (.new 0) ((State.new 0).event id (sampleCheckout 0)) sampleHeld :=
    step_after (by decide)
  have h₂ : Step id sampleHeld (sampleHeld.event id (sampleCheckout 10000000))
      (sampleHeld.after id (sampleCheckout 10000000)) := step_after (by decide)
  have hmain := (epoch_names_tenure (.cons h₁ (.single h₂))).2.1 "barb:front-door" [] _ [] _ []
    "agent-codex-barb" "agent-codex-barb" 1 rfl ⟨_, _, rfl, rfl, rfl, rfl, rfl⟩
    ⟨_, _, rfl, rfl, rfl, rfl, rfl⟩
  exact hmain.2.2 [] [] sampleHeld _ [] rfl rfl (.single h₁) (.single h₂) 10 le_rfl

end Continuity
