import RunnerDashboard.Barb.LeaseRuns

/-!
# Turnovers and tenures

A release that requires a turnover looks at one column of the lease, the id of its last
turnover.  A checkout that opens a tenure clears the column, unless it is forced: then the
column is inherited, so that the new holder sees the old one's notes, and a release that
follows passes on the old holder's turnover.

## Main results

* `Opened.step` — every row keeps track of its tenure.
* `complied_of_unforced` — no shift turnover is skipped, but by force.
-/

namespace Continuity

open Sql Lts Tenure

/-! ### Entries of the log -/

def Event.Writes (e : Event) (scope author id : String) : Prop :=
  (∃ a now, e.call = .append a scope author now ∧ a.id = id ∧ e.reply = .appended (.ok id)) ∨
    ∃ a t c, e.call = .release a ∧ normalizeScope a.scope = .ok scope ∧ a.holder = author ∧
      a.turnover = some t ∧ t.id = id ∧ e.reply = .released (.ok (.released scope author c))

/-- The log has an entry of an author for a scope, no earlier than a second. -/
def Db.Logged (db : Db) (scope author id : String) (since : Int) : Prop :=
  ∃ row, db.turnovers.get? id = some row ∧ row.scope = scope ∧ row.author = author ∧
    since ≤ row.createdAt

def Noted (events : List Event) (db : Db) (scope author : String) (since : Int) : Prop :=
  ∃ w ∈ events, ∃ id, w.Writes scope author id ∧ db.Logged scope author id since

/-- **A release complies**: since the checkout that opened the tenure of the released lease,
its holder wrote a turnover for the scope. -/
def Complied (past : List Event) (s : State) (e : Event) (t : State) (scope holder : String) :
    Prop :=
  ∃ cur before o after, s.lease scope = some cur ∧ past = before ++ o :: after ∧
    o.Acquires scope holder cur.epoch ∧ (∀ e' ∈ before, ∀ h, ¬ e'.Acquires scope h cur.epoch) ∧
    o.at' = cur.acquiredAt ∧ Noted (after ++ [e]) t.db scope holder cur.acquiredAt

/-- A checkout that opens a tenure by force finds no turnover it would inherit. -/
def Unforced (s : State) (e : Event) : Prop :=
  ∀ a scope cur, e.call = .checkout a → normalizeScope a.scope = .ok scope →
    s.lease scope = some cur → a.renews cur = false → a.force = true →
      Py.strip cur.lastTurnoverId = ""

section Log

variable {redact : String → String} {s t : State} {e : Event} {scope author id : String}
  {since : Int} {db db' : Db}

def KeepsLog (db db' : Db) : Prop :=
  ∀ id row, db.turnovers.get? id = some row → db'.turnovers.get? id = some row

theorem KeepsLog.refl (db : Db) : KeepsLog db db := fun _ _ h => h

theorem Db.Logged.mono (h : db.Logged scope author id since) (hk : KeepsLog db db') :
    db'.Logged scope author id since := by
  obtain ⟨row, hrow, h⟩ := h
  exact ⟨row, hk id row hrow, h⟩

theorem Noted.mono {events events' : List Event} (h : Noted events db scope author since)
    (hsub : ∀ e ∈ events, e ∈ events') (hk : KeepsLog db db') :
    Noted events' db' scope author since := by
  obtain ⟨w, hw, id, hwrites, hlogged⟩ := h
  exact ⟨w, hsub w hw, id, hwrites, hlogged.mono hk⟩

private theorem insertTurnover_log {a : TurnoverArgs} {cur : Option Lease} {at' : Int}
    (hcur : cur = db.lease scope)
    (h : insertTurnover redact a cur scope author at' db = .ok db') :
    KeepsLog db db' ∧ db'.Logged scope author a.id at' := by
  subst hcur
  obtain ⟨-, hnew, hlog, -⟩ := insertTurnover_ok h
  have hget : ∀ id, db'.turnovers.get? id =
      if id = a.id then some (a.row redact scope author at'
        ((db.lease scope).filter fun r => ¬ r.isReleased)) else db.turnovers.get? id := by
    intro id
    rw [hlog, Table.get?_insertNew]
    split
    · next hid => rw [hnew]; rfl
    · rfl
  refine ⟨fun id row hrow => ?_, _, (hget _).trans (if_pos rfl), rfl, rfl, le_rfl⟩
  rw [hget]
  split
  · next hid =>
    rw [hid, hnew] at hrow
    cases hrow
  · exact hrow

private theorem turnovers_checkedOut {a : CheckoutArgs} {reply : CheckoutReply}
    (h : CheckedOut a scope db reply db') : db'.turnovers = db.turnovers := by
  cases h with
  | conflict => rfl
  | taken => rfl
  | fresh => rfl

private theorem turnovers_beaten {a : HeartbeatArgs} {reply : HeartbeatReply}
    (h : Beaten a scope db reply db') : db'.turnovers = db.turnovers := by
  cases h with
  | renewed => rfl
  | notFound => rfl
  | refused => rfl

private theorem log_released {a : ReleaseArgs} {reply : ReleaseReply}
    (h : Released redact a scope db reply db') :
    KeepsLog db db' ∧ ∀ holder c u, reply = .released scope holder c → a.turnover = some u →
      db'.Logged scope a.holder u.id (seconds a.now) := by
  cases h with
  | notFound => exact ⟨.refl _, by simp⟩
  | refused => exact ⟨.refl _, by simp⟩
  | @released cur db₁ hrow _ _ hins =>
    have hlog : KeepsLog db db₁ ∧ ∀ u, a.turnover = some u →
        db₁.Logged scope a.holder u.id (seconds a.now) := by
      unfold ReleaseArgs.insert at hins
      split at hins
      · next u hu =>
        obtain ⟨hk, hlogged⟩ := insertTurnover_log hrow.symm hins
        refine ⟨hk, fun u' hu' => ?_⟩
        obtain rfl := Option.some.inj (hu.symm.trans hu')
        exact hlogged
      · next hnone =>
        obtain rfl := Except.ok.inj hins
        refine ⟨.refl _, fun u hu => ?_⟩
        rw [hnone] at hu
        cases hu
    exact ⟨hlog.1, fun _ _ u _ hu => hlog.2 u hu⟩

private theorem KeepsLog.of_eq (h : db'.turnovers = db.turnovers) : KeepsLog db db' :=
  fun id row hrow => by rwa [h]

private theorem Event.Writes.call (h : e.Writes scope author id) :
    (∃ a scope author now, e.call = .append a scope author now) ∨ ∃ a, e.call = .release a := by
  rcases h with ⟨a, now, hcall, -⟩ | ⟨a, u, c, hcall, -⟩
  · exact .inl ⟨a, _, _, now, hcall⟩
  · exact .inr ⟨a, hcall⟩

private theorem log_checkout {a : CheckoutArgs} (hdb : db' = (checkoutLease a db).2) :
    KeepsLog db db' := by
  obtain ⟨reply, hres⟩ := exists_reply hdb
  cases reply with
  | error x =>
    rw [checkoutLease_error hres]
    exact .refl _
  | ok reply =>
    obtain ⟨_, -, -, hout⟩ := checkoutLease_ok_cases hres
    exact .of_eq (turnovers_checkedOut hout)

private theorem log_heartbeat {a : HeartbeatArgs} (hdb : db' = (heartbeatLease a db).2) :
    KeepsLog db db' := by
  obtain ⟨reply, hres⟩ := exists_reply hdb
  cases reply with
  | error x =>
    rw [heartbeatLease_error hres]
    exact .refl _
  | ok reply =>
    obtain ⟨_, -, hout⟩ := heartbeatLease_ok_cases hres
    exact .of_eq (turnovers_beaten hout)

private theorem log_append {a : TurnoverArgs} {scope₀ author₀ : String} {now : Int}
    (hcall : e.call = .append a scope₀ author₀ now)
    (hreply : e.reply = .appended (appendTurnover redact a scope₀ author₀ now db).1)
    (hdb : db' = (appendTurnover redact a scope₀ author₀ now db).2) :
    KeepsLog db db' ∧
      ∀ scope author id, e.Writes scope author id → db'.Logged scope author id e.at' := by
  have hat : e.at' = seconds now := by rw [Event.at', hcall]; rfl
  obtain ⟨reply, hres⟩ := exists_reply hdb
  rw [hres] at hreply
  cases reply with
  | error x =>
    rw [appendTurnover_error hres]
    refine ⟨.refl _, ?_⟩
    rintro scope author id (⟨a', now', -, -, hok⟩ | ⟨a', u, c, hcall', -⟩)
    · cases hreply.symm.trans hok
    · cases hcall.symm.trans hcall'
  | ok id₀ =>
    obtain ⟨rfl, hins⟩ := appendTurnover_ok hres
    obtain ⟨hk, hlogged⟩ := insertTurnover_log rfl hins
    refine ⟨hk, ?_⟩
    rintro scope author id (⟨a', now', hcall', rfl, -⟩ | ⟨a', u, c, hcall', -⟩)
    · obtain ⟨rfl, rfl, rfl, rfl⟩ := Call.append.inj (hcall.symm.trans hcall')
      rwa [hat]
    · cases hcall.symm.trans hcall'

private theorem log_release {a : ReleaseArgs} (hcall : e.call = .release a)
    (hreply : e.reply = .released (releaseLease redact a db).1)
    (hdb : db' = (releaseLease redact a db).2) :
    KeepsLog db db' ∧
      ∀ scope author id, e.Writes scope author id → db'.Logged scope author id e.at' := by
  have hat : e.at' = seconds a.now := by rw [Event.at', hcall]; rfl
  obtain ⟨reply, hres⟩ := exists_reply hdb
  rw [hres] at hreply
  cases reply with
  | error x =>
    rw [releaseLease_error hres]
    refine ⟨.refl _, ?_⟩
    rintro scope author id (⟨a', now', hcall', -⟩ | ⟨a', u, c, -, -, -, -, -, hok⟩)
    · cases hcall.symm.trans hcall'
    · cases hreply.symm.trans hok
  | ok reply =>
    obtain ⟨scope₀, hnorm, hout⟩ := releaseLease_ok_cases hres
    obtain ⟨hk, hlogged⟩ := log_released hout
    refine ⟨hk, ?_⟩
    rintro scope author id (⟨a', now', hcall', -⟩ | ⟨a', u, c, hcall', hnorm', rfl, hu, rfl, hok⟩)
    · cases hcall.symm.trans hcall'
    · obtain rfl := Call.release.inj (hcall.symm.trans hcall')
      obtain rfl := Except.ok.inj (hnorm.symm.trans hnorm')
      rw [hat]
      exact hlogged _ _ u (Except.ok.inj (Reply.released.inj (hreply.symm.trans hok))) hu

/-- **Every step keeps the log**, and what it wrote is in it. -/
theorem Step.log (hs : Step redact s e t) : KeepsLog s.db t.db ∧
    ∀ scope author id, e.Writes scope author id → t.db.Logged scope author id e.at' := by
  have hreply : e.reply = (exec redact s.db e.call).1 := by rw [hs.exec_eq]
  have hdb : t.db = (exec redact s.db e.call).2 := by rw [hs.exec_eq]
  have hnone : (∀ a sc au now, e.call ≠ .append a sc au now) → (∀ a, e.call ≠ .release a) →
      ∀ scope author id, e.Writes scope author id → t.db.Logged scope author id e.at' := by
    intro happend hrelease scope author id hw
    rcases hw.call with ⟨a, sc, au, now, hcall⟩ | ⟨a, hcall⟩
    · exact absurd hcall (happend a sc au now)
    · exact absurd hcall (hrelease a)
  cases hc : e.call with
  | checkout a =>
    rw [hc, exec] at hdb
    exact ⟨log_checkout hdb, hnone (by simp [hc]) (by simp [hc])⟩
  | heartbeat a =>
    rw [hc, exec] at hdb
    exact ⟨log_heartbeat hdb, hnone (by simp [hc]) (by simp [hc])⟩
  | append a scope₀ author₀ now =>
    rw [hc, exec] at hreply hdb
    exact log_append hc hreply hdb
  | release a =>
    rw [hc, exec] at hreply hdb
    exact log_release hc hreply hdb

end Log

/-! ### Tenures -/

section Tenures

variable {redact : String → String} {s t : State} {e : Event} {scope : String}
  {past : List Event} {r : Lease}

theorem Event.Acquires.unique {h h' : String} {n n' : Int} (hacq : e.Acquires scope h n)
    (hacq' : e.Acquires scope h' n') : h = h' ∧ n = n' := by
  obtain ⟨a, v, hcall, -, rfl, hreply, rfl⟩ := hacq
  obtain ⟨a', v', hcall', -, rfl, hreply', rfl⟩ := hacq'
  obtain rfl := Call.checkout.inj (hcall.symm.trans hcall')
  have := hreply.symm.trans hreply'
  simp only [Reply.checkedOut.injEq, Except.ok.injEq, CheckoutReply.acquired.injEq] at this
  exact ⟨rfl, by rw [this]⟩

theorem Step.released {a : ReleaseArgs} {reply : ReleaseReply} (hs : Step redact s e t)
    (hcall : e.call = .release a) (hreply : e.reply = .released (.ok reply)) :
    ∃ scope, normalizeScope a.scope = .ok scope ∧ Released redact a scope s.db reply t.db := by
  have h := hs.exec_eq
  rw [hcall, hreply, exec] at h
  obtain ⟨hfst, hsnd⟩ := Prod.mk.inj h
  exact releaseLease_ok_cases (Prod.ext (Reply.released.inj hfst) hsnd)

theorem Released.scope_eq {db db' : Db} {a : ReleaseArgs} {scope' holder : String} {c : Bool}
    (h : Released redact a scope db (.released scope' holder c) db') : scope' = scope := by
  cases h
  rfl

/-- Where the tenure of a row began: no earlier checkout had its epoch, no later one has
another, and its turnover, if it names one, was written since. -/
structure Opened (past : List Event) (s : State) (scope : String) (r : Lease)
    (before : List Event) (o : Event) (after : List Event) (holder : String) : Prop where
  past_eq : past = before ++ o :: after
  earlier : o.at' ≤ seconds s.clock
  opens : o.Acquires scope holder r.epoch
  first : ∀ e ∈ before, ∀ h n, e.Acquires scope h n → n < r.epoch
  same : ∀ e ∈ after, ∀ h n, e.Acquires scope h n → n = r.epoch
  held : r.releasedAt = none → r.holder = holder ∧ r.acquiredAt = o.at' ∧
    (Py.strip r.lastTurnoverId ≠ "" → Noted after s.db scope holder o.at')

/-- The row of a scope keeps track of its tenure. -/
def Tracked (past : List Event) (s : State) (scope : String) : Prop :=
  match s.lease scope with
  | none => ∀ e ∈ past, ∀ h n, ¬ e.Acquires scope h n
  | some r => ∃ before o after holder, Opened past s scope r before o after holder

theorem tracked_some (h : Tracked past s scope) (hr : s.lease scope = some r) :
    ∃ before o after holder, Opened past s scope r before o after holder := by
  unfold Tracked at h
  rwa [hr] at h

theorem Opened.le {before after : List Event} {o e' : Event} {holder h : String} {n : Int}
    (ho : Opened past s scope r before o after holder) (he : e' ∈ past)
    (hacq : e'.Acquires scope h n) : n ≤ r.epoch := by
  rw [ho.past_eq] at he
  rcases List.mem_append.mp he with he | he
  · exact (ho.first e' he h n hacq).le
  · rcases List.mem_cons.mp he with rfl | he
    · exact (hacq.unique ho.opens).2.le
    · exact (ho.same e' he h n hacq).le

theorem Opened.snoc {r' : Lease} {before after : List Event} {o : Event} {holder : String}
    (ho : Opened past s scope r before o after holder) (hs : Step redact s e t)
    (hepoch : r'.epoch = r.epoch) (hsame : ∀ h n, e.Acquires scope h n → n = r.epoch)
    (hheld : r'.releasedAt = none → r.releasedAt = none ∧ r'.holder = r.holder ∧
      r'.acquiredAt = r.acquiredAt ∧ (r'.lastTurnoverId = r.lastTurnoverId ∨
        ∃ id, e.Writes scope r.holder id)) :
    Opened (past ++ [e]) t scope r' before o (after ++ [e]) holder := by
  have hlater : o.at' ≤ e.at' := ho.earlier.trans hs.seconds_le
  refine ⟨by rw [ho.past_eq]; simp, hs.at'_eq ▸ hlater, hepoch ▸ ho.opens, hepoch ▸ ho.first, ?_,
    fun hrel => ?_⟩
  · intro e' he' h n hacq
    rw [hepoch]
    rcases List.mem_append.mp he' with he' | he'
    · exact ho.same e' he' h n hacq
    · rw [List.mem_singleton.mp he'] at hacq
      exact hsame h n hacq
  · obtain ⟨hrel', hholder, hacquired, hnote⟩ := hheld hrel
    obtain ⟨hholder', hacquired', hnoted⟩ := ho.held hrel'
    refine ⟨hholder.trans hholder', hacquired.trans hacquired', fun hlast => ?_⟩
    obtain ⟨hkeep, hlogged⟩ := hs.log
    rcases hnote with hnote | ⟨id, hwrites⟩
    · rw [hnote] at hlast
      exact (hnoted hlast).mono (fun _ he => List.mem_append_left _ he) hkeep
    · rw [hholder'] at hwrites
      refine ⟨e, by simp, id, hwrites, ?_⟩
      obtain ⟨row, hrow, hscope, hauthor, hle⟩ := hlogged _ _ _ hwrites
      exact ⟨row, hrow, hscope, hauthor, hlater.trans hle⟩

theorem Opened.new {holder : String} {n : Int} (hs : Step redact s e t)
    (hacq : e.Acquires scope holder n)
    (hfirst : ∀ e' ∈ past, ∀ h m, e'.Acquires scope h m → m < n) (hepoch : r.epoch = n)
    (hholder : r.holder = holder) (hacquired : r.acquiredAt = e.at')
    (hlast : Py.strip r.lastTurnoverId = "") :
    Opened (past ++ [e]) t scope r past e [] holder := by
  refine ⟨rfl, hs.at'_eq.le, hepoch ▸ hacq, hepoch ▸ hfirst, by simp, fun _ => ?_⟩
  exact ⟨hholder, hacquired, fun hne => absurd hlast hne⟩

/-- **Every row keeps track of its tenure**, if no forced checkout inherits a turnover. -/
theorem Tracked.step (h : Tracked past s scope) (hs : Step redact s e t) (hu : Unforced s e) :
    Tracked (past ++ [e]) t scope := by
  have hch := hs.change scope
  have hacq : ∀ h n, e.Acquires scope h n → ∃ row, t.lease scope = some row ∧ row.epoch = n := by
    intro h n hacq
    obtain ⟨row, hrow, -, hepoch, -⟩ := hch.of_acquires hacq
    exact ⟨row, hrow, hepoch⟩
  have hold : ∀ {r}, s.lease scope = some r → ∃ before o after holder,
      Opened past s scope r before o after holder := tracked_some h
  unfold Tracked at h ⊢
  generalize hr : s.lease scope = r₀ at hch h
  generalize hr' : t.lease scope = r₁ at hch hacq
  -- a step after which the row has the epoch it had
  have hsame : ∀ {r r' : Lease}, r₁ = some r' → r'.epoch = r.epoch →
      ∀ h n, e.Acquires scope h n → n = r.epoch := by
    intro r r' hr₁ hepoch h n ha
    obtain ⟨row, hrow, hn⟩ := hacq h n ha
    rw [hr₁] at hrow
    obtain rfl := Option.some.inj hrow
    exact hn.symm.trans hepoch
  cases hch with
  | same unacquired =>
    cases r₀ with
    | none =>
      intro e' he' h' n
      rcases List.mem_append.mp he' with he' | he'
      · exact h e' he' h' n
      · rw [List.mem_singleton.mp he']
        exact unacquired h' n
    | some r =>
      obtain ⟨before, o, after, holder, ho⟩ := hold hr
      exact ⟨_, _, _, _, ho.snoc hs rfl (hsame rfl rfl) fun hrel => ⟨hrel, rfl, rfl, .inl rfl⟩⟩
  | @taken cur a call norm reply =>
    obtain ⟨before, o, after, holder, ho⟩ := hold hr
    cases hrenews : a.renews cur with
    | true =>
      obtain ⟨hholder, hlive⟩ := CheckoutArgs.renews_iff.mp hrenews
      refine ⟨_, _, _, _, ho.snoc hs (by simp [CheckoutArgs.over, hrenews])
        (hsame rfl (by simp [CheckoutArgs.over, hrenews])) fun _ => ?_⟩
      exact ⟨(Lease.live_iff.mp hlive).1, hholder.symm, by simp [CheckoutArgs.over, hrenews],
        .inl (by simp [CheckoutArgs.over, hrenews])⟩
    | false =>
      have hepoch : (a.over cur).epoch = cur.epoch + 1 := by simp [CheckoutArgs.over, hrenews]
      refine ⟨_, _, _, _, Opened.new hs ⟨a, _, call, norm, rfl, reply, rfl⟩ ?_ rfl rfl ?_ ?_⟩
      · intro e' he' h n ha
        have := ho.le he' ha
        rw [show (rowToLease scope (a.over cur) a.at').lease = a.over cur from rfl, hepoch]
        omega
      · simp [CheckoutArgs.over, hrenews, a.at'_eq call]
      · -- the column was cleared, or it was blank
        cases hforce : a.force with
        | false => simp [CheckoutArgs.over, hrenews, hforce, Py.strip_eq_empty_iff]
        | true =>
          have := hu a scope cur call norm hr hrenews hforce
          simpa [CheckoutArgs.over, hrenews, hforce] using this
  | fresh a call norm reply =>
    refine ⟨_, _, _, _, Opened.new hs ⟨a, _, call, norm, rfl, reply, rfl⟩ ?_ rfl rfl ?_ ?_⟩
    · exact fun e' he' h' n ha => absurd ha (h e' he' h' n)
    · simp [CheckoutArgs.fresh, a.at'_eq call]
    · simp [CheckoutArgs.fresh, Py.strip_eq_empty_iff]
  | @extended cur a =>
    obtain ⟨before, o, after, holder, ho⟩ := hold hr
    exact ⟨_, _, _, _, ho.snoc hs rfl (hsame rfl rfl) fun hrel => ⟨hrel, rfl, rfl, .inl rfl⟩⟩
  | @noted cur a now call reply =>
    obtain ⟨before, o, after, holder, ho⟩ := hold hr
    exact ⟨_, _, _, _, ho.snoc hs rfl (hsame rfl rfl) fun hrel =>
      ⟨hrel, rfl, rfl, .inr ⟨a.id, .inl ⟨a, now, call, rfl, reply⟩⟩⟩⟩
  | @released cur cur' a call reply _ _ _ after' =>
    obtain ⟨before, o, after, holder, ho⟩ := hold hr
    have hepoch : (cur'.released e.at').epoch = cur.epoch := by
      rcases after' with rfl | ⟨u, -, rfl⟩
      · rfl
      · rfl
    exact ⟨_, _, _, _, ho.snoc hs hepoch (hsame rfl hepoch) fun hrel => by cases hrel⟩

theorem tracked_of_path {clock : Int}
    (p : Path (fun s e t => Step redact s e t ∧ Unforced s e) (.new clock) past s)
    (scope : String) : Tracked past s scope :=
  p.history (I := fun past s => Tracked past s scope)
    (fun _ _ _ _ h hs => h.step hs.1 hs.2) (fun _ h => nomatch h)

/-- **No shift turnover is skipped**, in a run in which no forced checkout inherits one: a
release that requires a turnover returns `released` only if its holder wrote one for the
scope since the checkout that opened its tenure, or with the release. -/
theorem complied_of_unforced {clock : Int} {a : ReleaseArgs} {holder : String} {c : Bool}
    (p : Path (fun s e t => Step redact s e t ∧ Unforced s e) (.new clock) past s)
    (hs : Step redact s e t) (hcall : e.call = .release a) (hreq : a.requireTurnover = true)
    (hreply : e.reply = .released (.ok (.released scope holder c))) :
    Complied past s e t scope holder := by
  have hch := hs.change scope
  have htracked := tracked_of_path p scope
  generalize hr : s.lease scope = r₀ at hch
  generalize hr' : t.lease scope = r₁ at hch
  cases hch with
  | same _ unreleased => exact absurd ⟨holder, c, hreply⟩ unreleased
  | taken a' call => rw [hcall] at call; cases call
  | fresh a' call => rw [hcall] at call; cases call
  | extended a' call => rw [hcall] at call; cases call
  | noted a' now call => rw [hcall] at call; cases call
  | @released cur cur' a' call reply unreleased hholder turnover after =>
    obtain rfl := Call.release.inj (hcall.symm.trans call)
    have hrep := hreply.symm.trans reply
    simp only [Reply.released.injEq, Except.ok.injEq, ReleaseReply.released.injEq] at hrep
    obtain ⟨-, rfl, -⟩ := hrep
    obtain ⟨before, o, after', h, ho⟩ := tracked_some htracked hr
    have hrel : cur.releasedAt = none := by simpa [Lease.isReleased] using unreleased
    obtain ⟨rfl, hacquired, hnoted⟩ := ho.held hrel
    obtain ⟨hkeep, hlogged⟩ := hs.log
    refine ⟨cur, before, o, after', hr, ho.past_eq, hholder ▸ ho.opens, ?_, hacquired.symm, ?_⟩
    · intro e' he' h ha
      exact absurd rfl (ho.first e' he' h _ ha).ne
    · rw [hacquired, ← hholder]
      have hhas := turnover hreq
      simp only [ReleaseArgs.hasTurnover, decide_eq_true_eq] at hhas
      rcases hhas with hgiven | hlast
      · -- the turnover comes with the release
        obtain ⟨u, hu⟩ := Option.isSome_iff_exists.mp hgiven
        obtain ⟨scope', hnorm, hout⟩ := hs.released hcall hreply
        obtain rfl := hout.scope_eq
        have hwrites : e.Writes scope cur.holder u.id :=
          .inr ⟨a, u, _, hcall, hnorm, hholder.symm, hu, rfl, hholder ▸ hreply⟩
        obtain ⟨row, hrow, hscope, hauthor, hle⟩ := hlogged _ _ _ hwrites
        exact ⟨e, by simp, u.id, hwrites, row, hrow, hscope, hauthor,
          (ho.earlier.trans hs.seconds_le).trans hle⟩
      · exact (hnoted hlast).mono (fun _ he => List.mem_append_left _ he) hkeep

end Tenures

/-! ### A takeover -/

def queueCheckout (holder : String) (force : Bool) (now : Int) : Call :=
  .checkout { scope := "barb:pr-queue", holder := holder, force := force, now := now }

def queueTurnover (author : String) (now : Int) : Call :=
  .append { id := "to-1", summary := "done" } "barb:pr-queue" author now

def queueRelease (holder : String) (now : Int) : Call :=
  .release { scope := "barb:pr-queue", holder := holder, now := now }

def queueNoted : State :=
  ((State.new 0).after id (queueCheckout "alpha" false 0)).after id (queueTurnover "alpha" 0)

def queueTaken : State := queueNoted.after id (queueCheckout "beta" true 0)

def queuePast : List Event :=
  [(State.new 0).event id (queueCheckout "alpha" false 0),
    ((State.new 0).after id (queueCheckout "alpha" false 0)).event id (queueTurnover "alpha" 0),
    queueNoted.event id (queueCheckout "beta" true 0)]

/-- Alpha checks the queue out and writes a turnover, and may release. -/
theorem complied_of_unforced_sample :
    Complied (queuePast.take 2) queueNoted (queueNoted.event id (queueRelease "alpha" 0))
      (queueNoted.after id (queueRelease "alpha" 0)) "barb:pr-queue" "alpha" := by
  have hpath : Path (fun s e t => Step id s e t ∧ Unforced s e) (.new 0) (queuePast.take 2)
      queueNoted := by
    refine .cons ⟨step_after le_rfl, ?_⟩ (.single ⟨step_after le_rfl, ?_⟩)
    · intro a scope cur _ _ hrow
      cases hrow
    · intro a scope cur hcall
      cases hcall
  exact complied_of_unforced (c := true) hpath (step_after le_rfl) rfl rfl rfl

/-- Beta takes the lease over from alpha, which wrote a turnover, and releases it without one
of its own. -/
theorem not_complied_of_takeover :
    Path (Step id) (.new 0) queuePast queueTaken ∧
      Step id queueTaken (queueTaken.event id (queueRelease "beta" 0))
        (queueTaken.after id (queueRelease "beta" 0)) ∧
      (queueTaken.event id (queueRelease "beta" 0)).reply =
        .released (.ok (.released "barb:pr-queue" "beta" true)) ∧
      ¬ Complied queuePast queueTaken (queueTaken.event id (queueRelease "beta" 0))
        (queueTaken.after id (queueRelease "beta" 0)) "barb:pr-queue" "beta" := by
  refine ⟨.cons (step_after le_rfl) (.cons (step_after le_rfl) (.single (step_after le_rfl))),
    step_after le_rfl, rfl, ?_⟩
  rintro ⟨cur, before, o, after, -, hpast, -, -, -, w, hw, id', hwrites, -⟩
  have hw' : w ∈ queuePast ++ [queueTaken.event id (queueRelease "beta" 0)] := by
    rw [hpast, List.append_assoc, List.cons_append]
    exact List.mem_append_right _ (List.mem_cons_of_mem _ hw)
  -- no event of the run is a turnover of beta's
  simp only [queuePast, List.cons_append, List.nil_append, List.mem_cons, List.not_mem_nil,
    or_false] at hw'
  have hcheckout : ∀ a, w.call ≠ .checkout a := by
    rintro a hcall
    rcases hwrites with ⟨a', now, hcall', -⟩ | ⟨a', u, c, hcall', -⟩
    · cases hcall.symm.trans hcall'
    · cases hcall.symm.trans hcall'
  rcases hw' with rfl | rfl | rfl | rfl
  · exact hcheckout _ rfl
  · rcases hwrites with ⟨a, now, hcall, -⟩ | ⟨a, u, c, hcall, -⟩
    · obtain ⟨-, -, hauthor, -⟩ := Call.append.inj hcall
      exact absurd hauthor (by decide)
    · cases hcall
  · exact hcheckout _ rfl
  · rcases hwrites with ⟨a, now, hcall, -⟩ | ⟨a, u, c, hcall, -, -, hu, -⟩
    · cases hcall
    · obtain rfl := Call.release.inj hcall
      cases hu

end Continuity
