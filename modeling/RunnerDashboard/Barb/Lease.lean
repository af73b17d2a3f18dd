import RunnerDashboard.Barb.Conversation
import RunnerDashboard.Lib.PyStr

/-!
# Scoped leases

The leases and the turnover log of `staff/barb_continuity.py`, and the fence of
`staff/barb_lease_fence.py`.  A scope has one row, which is kept when its lease is released,
so that its epoch is never reused; a renewal keeps the epoch, any other checkout raises it.

Instants are integers in microseconds.  The store compares the texts of whole seconds, which
are ordered like the seconds; a lease's columns hold seconds.

## Main results

* `assertLeaseClaim_ok_iff` — which claims pass.
-/

namespace Continuity

open Sql

/-! ### Data -/

/-- A row of `barb_scoped_leases`, keyed by its scope; `releasedAt` is the column
`released_at`, empty where it is `none`. -/
structure Lease where
  holder : String
  persona : String
  machine : String
  epoch : Int
  acquiredAt : Int
  heartbeatAt : Int
  expiresAt : Int
  summary : String
  lastTurnoverId : String
  releasedAt : Option Int
  deriving DecidableEq, Repr

/-- A row of `barb_turnover_log`, keyed by its id. -/
structure Turnover where
  scope : String
  author : String
  persona : String
  machine : String
  createdAt : Int
  summary : String
  completedJson : String
  inProgressJson : String
  blockersJson : String
  nextActionsJson : String
  leaseEpoch : Int
  deriving DecidableEq, Repr

/-- The tables of the store. -/
structure Db where
  leases : Table String Lease
  turnovers : Table String Turnover

def Db.empty : Db := ⟨.empty, .empty⟩

def Db.lease (db : Db) (scope : String) : Option Lease := db.leases.get? scope

/-- The row of a scope written, or inserted. -/
def Db.putLease (db : Db) (scope : String) (r : Lease) : Db :=
  { db with leases := db.leases.put scope r }

/-- What a call of the store raises. -/
inductive ContinuityError
  /-- `ValueError`. -/
  | value (message : String)
  /-- `sqlite3.IntegrityError`. -/
  | integrity
  /-- `OverflowError`: an integer no `INTEGER` column holds. -/
  | overflow
  deriving DecidableEq, Repr

def barbScopes : List String :=
  ["barb:front-door", "barb:ci-shepherd", "barb:pr-queue", "barb:dispatch-coordinator",
    "barb:issue-triage", "barb:night-watch"]

/-- `norm.startswith(p) and len(norm) > len(p)`. -/
def properPrefix (norm p : String) : Bool := Py.startsWith norm p ∧ p.length < norm.length

def normalizeScope (scope : String) : Except ContinuityError String :=
  let norm := Py.strip scope
  if norm ∉ barbScopes ∧ ¬ properPrefix norm "barb:" ∧ ¬ properPrefix norm "persona:" then
    .error (.value ("Invalid Barb scope '" ++ scope ++ "'. Expected one of (" ++
      ", ".intercalate (barbScopes.map fun s => "'" ++ s ++ "'") ++
      "), 'barb:<subrole>', or 'persona:<role>'."))
  else .ok norm

/-! ### Clocks -/

/-- The whole seconds of `_now_iso`. -/
def seconds (now : Int) : Int := now / 1000000

/-- `max(60, min(ttl_seconds, 14400))`. -/
def clampTtl (ttlSeconds : Int) : Int := max 60 (min ttlSeconds 14400)

/-- The `expires_at` of a lease taken or renewed at an instant. -/
def expiry (now ttlSeconds : Int) : Int := seconds (now + clampTtl ttlSeconds * 1000000)

/-! ### Leases -/

def Lease.isReleased (r : Lease) : Bool := r.releasedAt.isSome

/-- The lease is held at a second: it is neither released nor expired. -/
def Lease.live (r : Lease) (at' : Int) : Bool := ¬ r.isReleased ∧ at' < r.expiresAt

/-- `_row_to_lease`. -/
structure LeaseView where
  scope : String
  lease : Lease
  active : Bool
  turnoverCompliant : Bool
  deriving DecidableEq, Repr

def rowToLease (scope : String) (r : Lease) (at' : Int) : LeaseView where
  scope := scope
  lease := r
  active := at' < r.expiresAt ∧ r.releasedAt = none
  turnoverCompliant := r.lastTurnoverId ≠ ""

/-- The arguments of `checkout_lease`. -/
structure CheckoutArgs where
  scope : String
  holder : String
  persona : String := ""
  machine : String := ""
  summary : String := ""
  ttlSeconds : Int := 1800
  force : Bool := false
  now : Int

def CheckoutArgs.at' (a : CheckoutArgs) : Int := seconds a.now

def CheckoutArgs.renews (a : CheckoutArgs) (cur : Lease) : Bool :=
  cur.holder = a.holder ∧ cur.live a.at'

/-- The row `checkout_lease` writes over the current one. -/
def CheckoutArgs.over (a : CheckoutArgs) (cur : Lease) : Lease where
  holder := a.holder
  persona := a.persona
  machine := a.machine
  epoch := cur.epoch + if a.renews cur then 0 else 1
  acquiredAt := if a.renews cur then cur.acquiredAt else a.at'
  heartbeatAt := a.at'
  expiresAt := expiry a.now a.ttlSeconds
  summary := a.summary
  lastTurnoverId := if a.renews cur ∨ a.force then cur.lastTurnoverId else ""
  releasedAt := none

/-- The row `checkout_lease` inserts. -/
def CheckoutArgs.fresh (a : CheckoutArgs) : Lease where
  holder := a.holder
  persona := a.persona
  machine := a.machine
  epoch := 1
  acquiredAt := a.at'
  heartbeatAt := a.at'
  expiresAt := expiry a.now a.ttlSeconds
  summary := a.summary
  lastTurnoverId := ""
  releasedAt := none

/-- What `checkout_lease` returns. -/
inductive CheckoutReply
  /-- `acquired` is true. -/
  | acquired (lease : LeaseView)
  /-- `conflict` is true. -/
  | conflict (lease : LeaseView)
  deriving DecidableEq, Repr

/-- The transaction of `checkout_lease`. -/
def checkoutBody (a : CheckoutArgs) (scope : String) (db : Db) :
    Except ContinuityError (CheckoutReply × Db) :=
  match db.lease scope with
  | some cur =>
    if cur.live a.at' ∧ cur.holder ≠ a.holder ∧ ¬ a.force then
      .ok (.conflict (rowToLease scope cur a.at'), db)
    else if ¬ fitsInteger (a.over cur).epoch then .error .overflow
    else .ok (.acquired (rowToLease scope (a.over cur) a.at'), db.putLease scope (a.over cur))
  | none => .ok (.acquired (rowToLease scope a.fresh a.at'), db.putLease scope a.fresh)

def checkoutLease (a : CheckoutArgs) (db : Db) : Except ContinuityError CheckoutReply × Db :=
  match normalizeScope a.scope with
  | .error e => (.error e, db)
  | .ok scope =>
    if Py.strip a.holder = "" then (.error (.value "holder must not be empty"), db)
    else immediateTxn (checkoutBody a scope) db

/-- The arguments of `heartbeat_lease`. -/
structure HeartbeatArgs where
  scope : String
  holder : String
  epoch : Int
  ttlSeconds : Int := 1800
  now : Int

/-- The row `heartbeat_lease` writes. -/
def HeartbeatArgs.over (a : HeartbeatArgs) (cur : Lease) : Lease :=
  { cur with heartbeatAt := seconds a.now, expiresAt := expiry a.now a.ttlSeconds }

/-- What `heartbeat_lease` returns. -/
inductive HeartbeatReply
  /-- `renewed` is true. -/
  | renewed (lease : LeaseView)
  /-- `reason` is `not_found`; there is no lease in the answer. -/
  | notFound
  /-- `reason` is `holder_mismatch`, `expired` or `stale_epoch`. -/
  | refused (reason : String) (lease : LeaseView)
  deriving DecidableEq, Repr

/-- The transaction of `heartbeat_lease`. -/
def heartbeatBody (a : HeartbeatArgs) (scope : String) (db : Db) : HeartbeatReply × Db :=
  match db.lease scope with
  | none => (.notFound, db)
  | some cur =>
    let view := rowToLease scope cur (seconds a.now)
    if cur.isReleased then (.notFound, db)
    else if cur.holder ≠ a.holder then (.refused "holder_mismatch" view, db)
    else if cur.expiresAt ≤ seconds a.now then (.refused "expired" view, db)
    else if cur.epoch ≠ a.epoch then (.refused "stale_epoch" view, db)
    else (.renewed (rowToLease scope (a.over cur) (seconds a.now)), db.putLease scope (a.over cur))

def heartbeatLease (a : HeartbeatArgs) (db : Db) : Except ContinuityError HeartbeatReply × Db :=
  match normalizeScope a.scope with
  | .error e => (.error e, db)
  | .ok scope => ((.ok (heartbeatBody a scope db).1), (heartbeatBody a scope db).2)

/-! ### Turnovers -/

/-- The arguments of `append_turnover` other than its scope, author and time, with the id
that is drawn. -/
structure TurnoverArgs where
  id : String
  summary : String
  persona : String := ""
  machine : String := ""
  completed : List String := []
  inProgress : List String := []
  blockers : List String := []
  nextActions : List String := []

section Turnovers

/- `redact` is `redact_sensitive_content`. -/
variable (redact : String → String)

/-- `json.dumps(redact_value(items or []))`. -/
def itemsJson (items : List String) : String :=
  (Json.arr (Barb.redactItems redact (items.map .str))).dumps

/-- The row `_insert_turnover` inserts. -/
def TurnoverArgs.row (a : TurnoverArgs) (scope author : String) (at' : Int)
    (live : Option Lease) : Turnover where
  scope := scope
  author := author
  persona := a.persona
  machine := a.machine
  createdAt := at'
  summary := redact (Py.strip a.summary)
  completedJson := itemsJson redact a.completed
  inProgressJson := itemsJson redact a.inProgress
  blockersJson := itemsJson redact a.blockers
  nextActionsJson := itemsJson redact a.nextActions
  leaseEpoch := (live.map Lease.epoch).getD 0

/-- The lease row `_insert_turnover` writes for its holder. -/
def Lease.noted (r : Lease) (id : String) (at' : Int) : Lease :=
  { r with lastTurnoverId := id, heartbeatAt := at' }

/-- `_insert_turnover`, where `cur` is the row of the scope. -/
def insertTurnover (a : TurnoverArgs) (cur : Option Lease) (scope author : String) (at' : Int)
    (db : Db) : Except ContinuityError Db :=
  if Py.strip a.summary = "" then .error (.value "Turnover summary must not be empty")
  else
    let live := cur.filter fun r => ¬ r.isReleased
    match db.turnovers.get? a.id with
    | some _ => .error .integrity
    | none =>
      let db :=
        { db with turnovers := db.turnovers.insertNew a.id (a.row redact scope author at' live) }
      match live with
      | some r => .ok (if r.holder = author then db.putLease scope (r.noted a.id at') else db)
      | none => .ok db

/-- `append_turnover`; its scope is taken as it is. -/
def appendTurnover (a : TurnoverArgs) (scope author : String) (now : Int) (db : Db) :
    Except ContinuityError String × Db :=
  immediateTxn (fun db => (insertTurnover redact a (db.lease scope) scope author (seconds now)
    db).map fun db => (a.id, db)) db

/-- The arguments of `release_lease`. -/
structure ReleaseArgs where
  scope : String
  holder : String
  requireTurnover : Bool := true
  turnover : Option TurnoverArgs := none
  now : Int

/-- The row `release_lease` leaves. -/
def Lease.released (r : Lease) (at' : Int) : Lease :=
  { r with holder := "", releasedAt := some at', expiresAt := at' }

/-- What `release_lease` returns. -/
inductive ReleaseReply
  /-- `released` is true. -/
  | released (scope holder : String) (turnoverCompliant : Bool)
  /-- `reason` is `not_found`. -/
  | notFound
  /-- `reason` is `holder_mismatch` or `turnover_required_before_release`. -/
  | refused (reason : String) (lease : LeaseView)
  deriving DecidableEq, Repr

/-- The turnover has been written, with this release or before it. -/
def ReleaseArgs.hasTurnover (a : ReleaseArgs) (cur : Lease) : Bool :=
  a.turnover.isSome ∨ Py.strip cur.lastTurnoverId ≠ ""

/-- The turnover of the release, if there is one, is written first. -/
def ReleaseArgs.insert (a : ReleaseArgs) (cur : Lease) (scope : String) (db : Db) :
    Except ContinuityError Db :=
  match a.turnover with
  | some t => insertTurnover redact t (some cur) scope a.holder (seconds a.now) db
  | none => .ok db

/-- The `UPDATE` of `release_lease`. -/
def Db.release (db : Db) (scope : String) (at' : Int) : Db :=
  { db with leases := db.leases.update (fun k _ => k = scope) fun _ r => r.released at' }

/-- The transaction of `release_lease`. -/
def releaseBody (a : ReleaseArgs) (scope : String) (db : Db) :
    Except ContinuityError (ReleaseReply × Db) :=
  match db.lease scope with
  | none => .ok (.notFound, db)
  | some cur =>
    let view := rowToLease scope cur (seconds a.now)
    if cur.isReleased then .ok (.notFound, db)
    else if cur.holder ≠ a.holder then .ok (.refused "holder_mismatch" view, db)
    else
      match a.insert redact cur scope db with
      | .error e => .error e
      | .ok db =>
        if a.requireTurnover ∧ ¬ a.hasTurnover cur then
          .ok (.refused "turnover_required_before_release" view, db)
        else .ok (.released scope a.holder (a.hasTurnover cur), db.release scope (seconds a.now))

def releaseLease (a : ReleaseArgs) (db : Db) : Except ContinuityError ReleaseReply × Db :=
  match normalizeScope a.scope with
  | .error e => (.error e, db)
  | .ok scope => immediateTxn (releaseBody redact a scope) db

end Turnovers

/-- `list_leases`, without the expired ones. -/
def listLeases (now : Int) (db : Db) : List LeaseView :=
  ((db.leases.rows.mergeSort fun x y => x.1 ≤ y.1).map fun x =>
    rowToLease x.1 x.2 (seconds now)).filter LeaseView.active

/-! ### The fence -/

structure BarbClaim where
  scope : String
  epoch : Int
  callerId : String
  holder : String := ""
  deriving DecidableEq, Repr

def holderBoundTo (callerId holder : String) : Bool :=
  holder = callerId ∨ Py.startsWith holder (callerId ++ ":")

structure StaleBarbLease where
  reason : String
  scope : String
  currentEpoch : Int
  holder : String
  claimedEpoch : Int
  deriving DecidableEq, Repr

def BarbClaim.seatOk (claim : BarbClaim) (holder : String) : Bool :=
  if claim.holder ≠ "" then
    holder = claim.holder ∧ holderBoundTo claim.callerId claim.holder
  else holderBoundTo claim.callerId holder

/-- `assert_lease_claim`: the scope, epoch and holder it returns. -/
def assertLeaseClaim (db : Db) (claim : BarbClaim) (now : Int) :
    Except StaleBarbLease (String × Int × String) :=
  match db.lease claim.scope with
  | none => .error ⟨"no_lease", claim.scope, 0, "", claim.epoch⟩
  | some row =>
    let stale := fun reason => StaleBarbLease.mk reason claim.scope row.epoch row.holder claim.epoch
    if ¬ claim.seatOk row.holder then .error (stale "holder_mismatch")
    else if row.expiresAt ≤ seconds now then .error (stale "expired")
    else if row.epoch ≠ claim.epoch then .error (stale "stale_epoch")
    else .ok (claim.scope, row.epoch, row.holder)

/-! ### Rows -/

@[simp] theorem lease_putLease (db : Db) (scope scope' : String) (r : Lease) :
    (db.putLease scope r).lease scope' = if scope' = scope then some r else db.lease scope' :=
  Table.get?_put _ _ _ _

@[simp] theorem turnovers_putLease (db : Db) (scope : String) (r : Lease) :
    (db.putLease scope r).turnovers = db.turnovers := rfl

@[simp] theorem lease_release (db : Db) (scope scope' : String) (at' : Int) :
    (db.release scope at').lease scope' =
      if scope' = scope then (db.lease scope').map fun r => r.released at'
      else db.lease scope' := by
  simp only [Db.lease, Db.release, Table.get?_update]
  by_cases h : scope' = scope
  · simp [h]
  · cases db.leases.get? scope' <;> simp [h]

@[simp] theorem turnovers_release (db : Db) (scope : String) (at' : Int) :
    (db.release scope at').turnovers = db.turnovers := rfl

theorem Lease.live_iff {r : Lease} {at' : Int} :
    r.live at' = true ↔ r.releasedAt = none ∧ at' < r.expiresAt := by
  simp [live, isReleased]

theorem CheckoutArgs.renews_iff {a : CheckoutArgs} {cur : Lease} :
    a.renews cur = true ↔ cur.holder = a.holder ∧ cur.live a.at' = true := by
  simp [renews]

/-- A lease that is written expires later than it was written. -/
theorem lt_expiry (now ttlSeconds : Int) : seconds now < expiry now ttlSeconds := by
  have h : (60 : Int) ≤ clampTtl ttlSeconds := le_max_left _ _
  unfold expiry seconds
  omega

/-! ### What the operations do -/

/-- What `checkout_lease` returns and writes. -/
inductive CheckedOut (a : CheckoutArgs) (scope : String) (db : Db) : CheckoutReply → Db → Prop
  /-- Another holder's lease is live, and the call is not forced. -/
  | conflict {cur : Lease} (row : db.lease scope = some cur) (live : cur.live a.at' = true)
      (other : cur.holder ≠ a.holder) (unforced : a.force = false) :
      CheckedOut a scope db (.conflict (rowToLease scope cur a.at')) db
  | taken {cur : Lease} (row : db.lease scope = some cur)
      (free : cur.live a.at' = true → cur.holder ≠ a.holder → a.force = true)
      (fits : fitsInteger (a.over cur).epoch = true) :
      CheckedOut a scope db (.acquired (rowToLease scope (a.over cur) a.at'))
        (db.putLease scope (a.over cur))
  | fresh (row : db.lease scope = none) :
      CheckedOut a scope db (.acquired (rowToLease scope a.fresh a.at'))
        (db.putLease scope a.fresh)

/-- **What a checkout does.** -/
theorem checkoutLease_ok_cases {a : CheckoutArgs} {db db' : Db} {reply : CheckoutReply}
    (h : checkoutLease a db = (.ok reply, db')) :
    ∃ scope, normalizeScope a.scope = .ok scope ∧ Py.strip a.holder ≠ "" ∧
      CheckedOut a scope db reply db' := by
  unfold checkoutLease at h
  split at h
  · cases h
  · next scope hscope =>
    split at h
    · cases h
    · next hholder =>
      refine ⟨scope, hscope, hholder, ?_⟩
      have hbody := immediateTxn_ok.mp h
      unfold checkoutBody at hbody
      split at hbody
      · next cur hrow =>
        split at hbody
        · next hc =>
          obtain ⟨rfl, rfl⟩ := Prod.ext_iff.mp (Except.ok.inj hbody)
          exact .conflict hrow hc.1 hc.2.1 (by simpa using hc.2.2)
        · next hc =>
          split at hbody
          · cases hbody
          · next hfits =>
            obtain ⟨rfl, rfl⟩ := Prod.ext_iff.mp (Except.ok.inj hbody)
            refine .taken hrow (fun hlive hother => ?_) (by simpa using hfits)
            by_contra hforce
            exact hc ⟨hlive, hother, hforce⟩
      · next hrow =>
        obtain ⟨rfl, rfl⟩ := Prod.ext_iff.mp (Except.ok.inj hbody)
        exact .fresh hrow

theorem checkoutLease_error {a : CheckoutArgs} {db db' : Db} {e : ContinuityError}
    (h : checkoutLease a db = (.error e, db')) : db' = db := by
  unfold checkoutLease at h
  split at h
  · exact (Prod.ext_iff.mp h).2.symm
  · split at h
    · exact (Prod.ext_iff.mp h).2.symm
    · have := immediateTxn_error (congrArg Prod.fst h)
      rwa [h] at this

/-- What `heartbeat_lease` returns and writes. -/
inductive Beaten (a : HeartbeatArgs) (scope : String) (db : Db) : HeartbeatReply → Db → Prop
  /-- The lease is extended. -/
  | renewed {cur : Lease} (row : db.lease scope = some cur)
      (live : cur.live (seconds a.now) = true) (holder : cur.holder = a.holder)
      (epoch : cur.epoch = a.epoch) :
      Beaten a scope db (.renewed (rowToLease scope (a.over cur) (seconds a.now)))
        (db.putLease scope (a.over cur))
  | notFound (row : ∀ cur, db.lease scope = some cur → cur.isReleased = true) :
      Beaten a scope db .notFound db
  /-- It is not the caller's, at this epoch and now. -/
  | refused {cur : Lease} {reason : String} (row : db.lease scope = some cur)
      (unreleased : cur.isReleased = false)
      (why : ¬ (cur.live (seconds a.now) = true ∧ cur.holder = a.holder ∧ cur.epoch = a.epoch)) :
      Beaten a scope db (.refused reason (rowToLease scope cur (seconds a.now))) db

theorem heartbeatBody_beaten (a : HeartbeatArgs) (scope : String) (db : Db) :
    Beaten a scope db (heartbeatBody a scope db).1 (heartbeatBody a scope db).2 := by
  unfold heartbeatBody
  split
  · next hrow => exact .notFound fun cur hcur => by simp [hrow] at hcur
  · next cur hrow =>
    dsimp only
    split
    · next hrel =>
      refine .notFound fun cur' hcur' => ?_
      rwa [← Option.some.inj (hrow.symm.trans hcur')]
    · next hrel =>
      have hrel' : cur.isReleased = false := by simpa using hrel
      split
      · next hholder => exact .refused hrow hrel' fun h => hholder h.2.1
      · next hholder =>
        split
        · next hexp =>
          refine .refused hrow hrel' fun h => ?_
          exact absurd (Lease.live_iff.mp h.1).2 (not_lt.mpr hexp)
        · next hexp =>
          split
          · next hepoch => exact .refused hrow hrel' fun h => hepoch h.2.2
          · next hepoch =>
            refine .renewed hrow ?_ (not_not.mp hholder) (not_not.mp hepoch)
            simp only [Lease.live, decide_eq_true_eq]
            exact ⟨hrel, by omega⟩

/-- **What a heartbeat does.** -/
theorem heartbeatLease_ok_cases {a : HeartbeatArgs} {db db' : Db} {reply : HeartbeatReply}
    (h : heartbeatLease a db = (.ok reply, db')) :
    ∃ scope, normalizeScope a.scope = .ok scope ∧ Beaten a scope db reply db' := by
  unfold heartbeatLease at h
  split at h
  · cases h
  · next scope hscope =>
    obtain ⟨hreply, rfl⟩ := Prod.ext_iff.mp h
    obtain rfl := Except.ok.inj hreply
    exact ⟨scope, hscope, heartbeatBody_beaten a scope db⟩

theorem heartbeatLease_error {a : HeartbeatArgs} {db db' : Db} {e : ContinuityError}
    (h : heartbeatLease a db = (.error e, db')) : db' = db := by
  unfold heartbeatLease at h
  split at h
  · exact (Prod.ext_iff.mp h).2.symm
  · cases h

section Turnovers

variable {redact : String → String}

/-- What `_insert_turnover` writes to the lease row of its scope. -/
def notedLease (cur : Option Lease) (author id : String) (at' : Int) : Option Lease :=
  cur.map fun r => if ¬ r.isReleased ∧ r.holder = author then r.noted id at' else r

/-- **What a turnover does**: its row is new, and its holder's lease names it. -/
theorem insertTurnover_ok {a : TurnoverArgs} {scope author : String} {at' : Int} {db db' : Db}
    (h : insertTurnover redact a (db.lease scope) scope author at' db = .ok db') :
    Py.strip a.summary ≠ "" ∧ db.turnovers.get? a.id = none ∧
      db'.turnovers = db.turnovers.insertNew a.id (a.row redact scope author at'
        ((db.lease scope).filter fun r => ¬ r.isReleased)) ∧
      ∀ scope', db'.lease scope' =
        if scope' = scope then notedLease (db.lease scope) author a.id at'
        else db.lease scope' := by
  unfold insertTurnover at h
  split at h
  · cases h
  · next hsum =>
    dsimp only at h
    split at h
    · cases h
    · next hid =>
      refine ⟨hsum, hid, ?_⟩
      generalize hrow : db.lease scope = cur at h ⊢
      split at h
      · next r hlive =>
        obtain ⟨rfl, hrel⟩ := Option.filter_eq_some_iff.mp hlive
        have hrel' : r.isReleased = false := by simpa using hrel
        obtain rfl := Except.ok.inj h
        by_cases hauthor : r.holder = author
        · rw [if_pos hauthor]
          refine ⟨rfl, fun scope' => ?_⟩
          rw [lease_putLease]
          simp [notedLease, hauthor, hrel', Db.lease]
        · rw [if_neg hauthor]
          refine ⟨rfl, fun scope' => ?_⟩
          split
          · next hs =>
            subst hs
            simpa [notedLease, hauthor, Db.lease] using hrow
          · rfl
      · next hnone =>
        -- no live lease, so no row is updated
        obtain rfl := Except.ok.inj h
        refine ⟨rfl, fun scope' => ?_⟩
        split
        · next hs =>
          subst hs
          have : notedLease cur author a.id at' = cur := by
            cases cur with
            | none => rfl
            | some r =>
              have hrel : r.isReleased = true := by simpa using hnone
              simp [notedLease, hrel]
          rw [this]
          exact hrow
        · rfl

theorem appendTurnover_ok {a : TurnoverArgs} {scope author id : String} {now : Int}
    {db db' : Db} (h : appendTurnover redact a scope author now db = (.ok id, db')) :
    id = a.id ∧
      insertTurnover redact a (db.lease scope) scope author (seconds now) db = .ok db' := by
  have hbody := immediateTxn_ok.mp h
  cases hins : insertTurnover redact a (db.lease scope) scope author (seconds now) db with
  | error e =>
    rw [hins] at hbody
    cases hbody
  | ok db₁ =>
    rw [hins] at hbody
    obtain ⟨rfl, rfl⟩ := Prod.ext_iff.mp (Except.ok.inj hbody)
    exact ⟨rfl, rfl⟩

theorem appendTurnover_error {a : TurnoverArgs} {scope author : String} {now : Int}
    {db db' : Db} {e : ContinuityError}
    (h : appendTurnover redact a scope author now db = (.error e, db')) : db' = db := by
  have := immediateTxn_error (congrArg Prod.fst h)
  rwa [show immediateTxn _ db = _ from h] at this

/-- What `release_lease` returns and writes. -/
inductive Released (redact : String → String) (a : ReleaseArgs) (scope : String) (db : Db) :
    ReleaseReply → Db → Prop
  /-- There is no lease. -/
  | notFound (row : ∀ cur, db.lease scope = some cur → cur.isReleased = true) :
      Released redact a scope db .notFound db
  /-- It is not the caller's, or its turnover is missing. -/
  | refused {cur : Lease} {reason : String} (row : db.lease scope = some cur)
      (unreleased : cur.isReleased = false) :
      Released redact a scope db (.refused reason (rowToLease scope cur (seconds a.now))) db
  | released {cur : Lease} {db₁ : Db} (row : db.lease scope = some cur)
      (unreleased : cur.isReleased = false) (holder : cur.holder = a.holder)
      (inserted : a.insert redact cur scope db = .ok db₁)
      (turnover : a.requireTurnover = true → a.hasTurnover cur = true) :
      Released redact a scope db (.released scope a.holder (a.hasTurnover cur))
        (db₁.release scope (seconds a.now))

/-- **What a release does.** -/
theorem releaseLease_ok_cases {a : ReleaseArgs} {db db' : Db} {reply : ReleaseReply}
    (h : releaseLease redact a db = (.ok reply, db')) :
    ∃ scope, normalizeScope a.scope = .ok scope ∧ Released redact a scope db reply db' := by
  unfold releaseLease at h
  split at h
  · cases h
  · next scope hscope =>
    refine ⟨scope, hscope, ?_⟩
    have hbody := immediateTxn_ok.mp h
    unfold releaseBody at hbody
    split at hbody
    · next hrow =>
      obtain ⟨rfl, rfl⟩ := Prod.ext_iff.mp (Except.ok.inj hbody)
      exact .notFound fun cur hcur => by simp [hrow] at hcur
    · next cur hrow =>
      dsimp only at hbody
      split at hbody
      · next hrel =>
        obtain ⟨rfl, rfl⟩ := Prod.ext_iff.mp (Except.ok.inj hbody)
        refine .notFound fun cur' hcur' => ?_
        rwa [← Option.some.inj (hrow.symm.trans hcur')]
      · next hrel =>
        have hrel' : cur.isReleased = false := by simpa using hrel
        split at hbody
        · obtain ⟨rfl, rfl⟩ := Prod.ext_iff.mp (Except.ok.inj hbody)
          exact .refused hrow hrel'
        · next hholder =>
          split at hbody
          · cases hbody
          · next db₁ hins =>
            split at hbody
            · next hmissing =>
              obtain ⟨rfl, rfl⟩ := Prod.ext_iff.mp (Except.ok.inj hbody)
              -- without a turnover nothing was inserted
              have hnone : a.turnover = none := by
                have := hmissing.2
                simp only [ReleaseArgs.hasTurnover, decide_eq_true_eq, not_or] at this
                simpa using this.1
              rw [ReleaseArgs.insert, hnone] at hins
              obtain rfl := Except.ok.inj hins
              exact .refused hrow hrel'
            · next hmissing =>
              obtain ⟨rfl, rfl⟩ := Prod.ext_iff.mp (Except.ok.inj hbody)
              refine .released hrow hrel' (not_not.mp hholder) hins fun hreq => ?_
              by_contra hno
              exact hmissing ⟨hreq, hno⟩

theorem releaseLease_error {a : ReleaseArgs} {db db' : Db} {e : ContinuityError}
    (h : releaseLease redact a db = (.error e, db')) : db' = db := by
  unfold releaseLease at h
  split at h
  · exact (Prod.ext_iff.mp h).2.symm
  · have := immediateTxn_error (congrArg Prod.fst h)
    rwa [h] at this

end Turnovers

/-- **Which claims pass the fence.** -/
theorem assertLeaseClaim_ok_iff {db : Db} {claim : BarbClaim} {now : Int}
    {result : String × Int × String} :
    assertLeaseClaim db claim now = .ok result ↔
      ∃ row, db.lease claim.scope = some row ∧ claim.seatOk row.holder = true ∧
        seconds now < row.expiresAt ∧ row.epoch = claim.epoch ∧
        result = (claim.scope, row.epoch, row.holder) := by
  unfold assertLeaseClaim
  cases hrow : db.lease claim.scope with
  | none => simp
  | some row =>
    simp only [Option.some.injEq, exists_eq_left']
    by_cases hseat : claim.seatOk row.holder = true
    · by_cases hexp : row.expiresAt ≤ seconds now
      · simp [hseat, hexp]
      · by_cases hepoch : row.epoch = claim.epoch
        · simp [hseat, hexp, hepoch, not_le.mp hexp, eq_comm]
        · simp [hseat, hexp, hepoch]
    · simp [hseat]

end Continuity
