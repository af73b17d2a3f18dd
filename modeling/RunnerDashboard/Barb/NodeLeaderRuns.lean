import Mathlib.Data.Int.ConditionallyCompleteOrder
import RunnerDashboard.Barb.NodeLeader
import Mathlib.Logic.Function.Basic

/-!
# Runs of the relay leaders

Any number of nodes run `ensure_relay_lease`, and others use the store between its two
transactions.  A node that is told it is active holds the lease when the row has not changed
hands, nor lapsed, since it looked: the second transaction's refusals are not looked at, so a
node that lost the race is told it is active all the same.

## Main results

* `Acted.told`, `Acted.stands_of_told` — one answer.
* `told_of_undisturbed` — every answer is true, and no two nodes are told of one tenure.
-/

namespace NodeLeader

open Sql Lts Tenure Continuity

/-! ### Steps -/

/-- Where a call is. -/
inductive Phase
  | idle
  | acting (a : RelayArgs) (role : NodeRole) (norm : String) (seen : Seen)

def Phase.looked (a : RelayArgs) : Except RelayError Looked → Phase
  | .ok (.next role norm seen) => .acting a role norm seen
  | _ => .idle

/-- The store, the clock, and the calls under way. -/
structure System where
  db : Db
  clock : Int
  phase : ℕ → Phase

/-- No call is under way. -/
def System.new (db : Db) (clock : Int) : System := ⟨db, clock, fun _ => .idle⟩

/-- What happens in a step. -/
inductive Label
  | look (i : ℕ) (a : RelayArgs) (r : Except RelayError Looked)
  /-- The second transaction, at an instant, and what the call returns or raises. -/
  | act (i : ℕ) (a : RelayArgs) (clock : Int) (r : Except RelayError RelayReply)
  /-- An operation of another user of the store. -/
  | other (c : Call)

/-- One transaction. -/
inductive RelayStep (config : NodeLeaderConfig) (redact : String → String) :
    System → Label → System → Prop
  | look {s : System} {i : ℕ} {a : RelayArgs} {clock : Int} {r : Except RelayError Looked}
      (later : s.clock ≤ clock) (at' : s.phase i = .idle)
      (done : ensureRelayLook config a (a.reading clock) s.db = r) :
      RelayStep config redact s (.look i a r)
        ⟨s.db, clock, Function.update s.phase i (.looked a r)⟩
  | act {s : System} {i : ℕ} {a : RelayArgs} {role : NodeRole} {norm : String} {seen : Seen}
      {clock : Int} {r : Except RelayError RelayReply} {db : Db} (later : s.clock ≤ clock)
      (at' : s.phase i = .acting a role norm seen)
      (done : ensureRelayAct a role norm seen (a.reading clock) s.db = (r, db)) :
      RelayStep config redact s (.act i a clock r) ⟨db, clock, Function.update s.phase i .idle⟩
  | other {s : System} {c : Call} {clock : Int} (later : s.clock ≤ clock) :
      RelayStep config redact s (.other c) ⟨(exec redact s.db c).2, clock, s.phase⟩

/-- **An answer is true**: a node that is told it is active holds the lease, at the epoch of
its claim and now; and no call is lost to a missing field. -/
def Told (l : Label) (t : System) : Prop :=
  match l with
  | .act _ a _ (.ok (.active _ _ _ claim)) => ∃ r, t.db.lease claim.scope = some r ∧
      r.holder = a.node ∧ r.epoch = claim.epoch ∧ r.live (seconds t.clock) = true
  | .act _ _ _ (.error (.key _)) => False
  | _ => True

def Label.TellsActive (l : Label) (node : String) (claim : BarbClaim) : Prop :=
  ∃ i a clock role promoted lease,
    l = .act i a clock (.ok (.active role promoted lease claim)) ∧ a.node = node

/-- What a node saw still stands at a second: no other node's lease is live, or its own is. -/
def Seen.Stands (node : String) (row : Option Lease) (at' : Int) : Seen → Prop
  | .vacant => ∀ cur, row = some cur → cur.live at' = true → cur.holder = node
  | .own epoch => ∃ cur, row = some cur ∧ cur.live at' = true ∧ cur.holder = node ∧
      cur.epoch = epoch

/-- A lease taken at the instant the call uses has not expired yet; it always uses the clock's
if its caller gives it none. -/
def RelayArgs.Timely (a : RelayArgs) (clock : Int) : Prop :=
  seconds clock < expiry (a.reading clock) a.ttlSeconds

/-- A call whose second transaction runs finds the row as it saw it. -/
def Undisturbed (s : System) (l : Label) : Prop :=
  ∀ i a clock r role norm seen, l = .act i a clock r → s.phase i = .acting a role norm seen →
    seen.Stands a.node (s.db.lease (scopeOf norm)) (seconds (a.reading clock)) ∧ a.Timely clock

/-! ### One answer -/

section Answer

variable {config : NodeLeaderConfig} {redact : String → String} {a : RelayArgs}
  {role : NodeRole} {norm persona scope : String} {seen : Seen} {clock : Int} {i : ℕ} {db db' : Db}
  {r : Except RelayError RelayReply} {s t : System} {l : Label}

theorem RelayArgs.timely_of_now_eq_none (h : a.now = none) : a.Timely clock := by
  unfold RelayArgs.Timely RelayArgs.reading
  rw [h]
  exact lt_expiry _ _

/-- What the second transaction leads to. -/
inductive Acted (a : RelayArgs) (norm : String) (now : Int) (db : Db) (seen : Seen) :
    Except RelayError RelayReply → Db → Prop
  | raised (e : ContinuityError) : Acted a norm now db seen (.error (.store e)) db
  | held {role : NodeRole} {promoted : Bool} {v : LeaseView} {r : Lease} {n : Int} {db' : Db}
      (stands : seen.Stands a.node (db.lease (scopeOf norm)) (seconds now))
      (row : db'.lease (scopeOf norm) = some r) (holder : r.holder = a.node)
      (epoch : r.epoch = n) (unreleased : r.releasedAt = none)
      (expires : r.expiresAt = expiry now a.ttlSeconds) :
      Acted a norm now db seen (.ok (.active role promoted v (claimFor a.node n (scopeOf norm))))
        db'
  /-- The node lost the race, and is told it is active. -/
  | lost {role : NodeRole} {promoted : Bool} {v : LeaseView} {n : Int}
      (lost : ¬ seen.Stands a.node (db.lease (scopeOf norm)) (seconds now))
      (other : ∀ r, db.lease (scopeOf norm) = some r → r.live (seconds now) = true →
        r.holder = a.node → r.epoch ≠ n) :
      Acted a norm now db seen (.ok (.active role promoted v (claimFor a.node n (scopeOf norm))))
        db
  /-- The lease was released, and the answer of the heartbeat has none. -/
  | missing (lost : ¬ seen.Stands a.node (db.lease (scopeOf norm)) (seconds now)) :
      Acted a norm now db seen (.error (.key "lease")) db

private theorem acted_vacant {now : Int} (hnorm : normalizePersonaRole persona = .ok norm)
    (h : ensureRelayAct a role norm .vacant now db = (r, db')) :
    Acted a norm now db .vacant r db' := by
  unfold ensureRelayAct at h
  dsimp only at h
  cases hout : checkoutLease (a.checkout norm now) db with
  | mk reply db₁ =>
    rw [hout] at h
    cases reply with
    | error e =>
      obtain ⟨rfl, rfl⟩ := Prod.ext_iff.mp h
      obtain rfl := checkoutLease_error hout
      exact .raised e
    | ok reply =>
      obtain ⟨scope, hscope, -, hcases⟩ := checkoutLease_ok_cases hout
      obtain rfl := Except.ok.inj ((normalizeScope_scopeOf hnorm).symm.trans hscope)
      cases hcases with
      | conflict hrow hlive hother =>
        -- another node was first, and its lease is answered as if it were this node's
        obtain ⟨rfl, rfl⟩ := Prod.ext_iff.mp h
        refine .lost (fun hstands => hother (hstands _ hrow hlive)) fun r hr _ hholder => ?_
        obtain rfl := Option.some.inj (hrow.symm.trans hr)
        exact absurd hholder hother
      | taken hrow hfree =>
        obtain ⟨rfl, rfl⟩ := Prod.ext_iff.mp h
        refine .held (fun cur hcur hlive => ?_) ((lease_putLease ..).trans (if_pos rfl)) rfl rfl
          rfl rfl
        obtain rfl := Option.some.inj (hrow.symm.trans hcur)
        by_contra hother
        exact absurd (hfree hlive hother) (by simp [RelayArgs.checkout])
      | fresh hrow =>
        obtain ⟨rfl, rfl⟩ := Prod.ext_iff.mp h
        refine .held (fun cur hcur => ?_) ((lease_putLease ..).trans (if_pos rfl)) rfl rfl rfl rfl
        rw [hrow] at hcur
        cases hcur

private theorem acted_own {now epoch : Int} (hnorm : normalizePersonaRole persona = .ok norm)
    (h : ensureRelayAct a role norm (.own epoch) now db = (r, db')) :
    Acted a norm now db (.own epoch) r db' := by
  unfold ensureRelayAct at h
  dsimp only at h
  cases hout : heartbeatLease (a.heartbeat norm epoch now) db with
  | mk reply db₁ =>
    rw [hout] at h
    cases reply with
    | error e =>
      obtain ⟨rfl, rfl⟩ := Prod.ext_iff.mp h
      obtain rfl := heartbeatLease_error hout
      exact .raised e
    | ok reply =>
      obtain ⟨scope, hscope, hcases⟩ := heartbeatLease_ok_cases hout
      obtain rfl := Except.ok.inj ((normalizeScope_scopeOf hnorm).symm.trans hscope)
      cases hcases with
      | renewed hrow hlive hholder hepoch =>
        obtain ⟨rfl, rfl⟩ := Prod.ext_iff.mp h
        exact .held ⟨_, hrow, hlive, hholder, hepoch⟩ ((lease_putLease ..).trans (if_pos rfl))
          hholder hepoch (Lease.live_iff.mp hlive).1 rfl
      | notFound hrow =>
        -- the row was released in between
        obtain ⟨rfl, rfl⟩ := Prod.ext_iff.mp h
        refine .missing ?_
        rintro ⟨cur, hcur, hlive, -⟩
        have hrel := hrow cur hcur
        rw [Lease.isReleased, (Lease.live_iff.mp hlive).1] at hrel
        cases hrel
      | refused hrow _ hwhy =>
        obtain ⟨rfl, rfl⟩ := Prod.ext_iff.mp h
        refine .lost ?_ fun r hr hlive hholder hepoch => ?_
        · rintro ⟨cur, hcur, hlive, hholder, hepoch⟩
          obtain rfl := Option.some.inj (hrow.symm.trans hcur)
          exact hwhy ⟨hlive, hholder, hepoch⟩
        · obtain rfl := Option.some.inj (hrow.symm.trans hr)
          exact hwhy ⟨hlive, hholder, hepoch⟩

theorem acted {now : Int} (hnorm : normalizePersonaRole persona = .ok norm)
    (h : ensureRelayAct a role norm seen now db = (r, db')) : Acted a norm now db seen r db' := by
  cases seen with
  | vacant => exact acted_vacant hnorm h
  | own epoch => exact acted_own hnorm h

/-- **An answer is true** when the row is as the node saw it. -/
theorem Acted.told {phase : ℕ → Phase} (h : Acted a norm (a.reading clock) db seen r db')
    (hstands : seen.Stands a.node (db.lease (scopeOf norm)) (seconds (a.reading clock)))
    (htimely : a.Timely clock) : Told (.act i a clock r) ⟨db', clock, phase⟩ := by
  cases h with
  | raised e => trivial
  | held _ row holder epoch unreleased expires =>
    exact ⟨_, row, holder, epoch, Lease.live_iff.mpr ⟨unreleased, expires ▸ htimely⟩⟩
  | lost lost => exact absurd hstands lost
  | missing lost => exact absurd hstands lost

/-- **An answer is true only then**, for a call that uses no instant of the future, when the
store does not raise. -/
theorem Acted.stands_of_told {phase : ℕ → Phase}
    (h : Acted a norm (a.reading clock) db seen r db') (hpast : a.reading clock ≤ clock)
    (hok : ∀ e, r ≠ .error (.store e)) (htold : Told (.act i a clock r) ⟨db', clock, phase⟩) :
    seen.Stands a.node (db.lease (scopeOf norm)) (seconds (a.reading clock)) ∧
      a.Timely clock := by
  cases h with
  | raised e => exact absurd rfl (hok e)
  | held stands row _ _ _ expires =>
    refine ⟨stands, ?_⟩
    obtain ⟨r, hr, -, -, hlive⟩ := htold
    obtain rfl := Option.some.inj (row.symm.trans hr)
    exact lt_of_lt_of_eq (Lease.live_iff.mp hlive).2 expires
  | lost _ other =>
    obtain ⟨r, hr, hholder, hepoch, hlive⟩ := htold
    obtain ⟨hrel, hexp⟩ := Lease.live_iff.mp hlive
    have hle : seconds (a.reading clock) ≤ seconds clock := Int.ediv_le_ediv (by decide) hpast
    exact absurd hepoch (other r hr (Lease.live_iff.mpr ⟨hrel, hle.trans_lt hexp⟩) hholder)
  | missing => exact absurd htold id

end Answer

/-! ### Seats -/

/-- The seat of a row: it is held until the lease is released or taken over. -/
def rowSeat (r : Option Lease) : Seat Int String where
  epoch := (r.map Lease.epoch).getD 0
  holder := (r.filter fun r => ¬ r.isReleased).map Lease.holder

section Seats

variable {config : NodeLeaderConfig} {redact : String → String} {scope : String} {e : Event}
  {r r' : Option Lease} {s t : System} {l : Label} {ls : List Label} {db : Db} {clock : Int}

theorem rowSeat_some (r : Lease) :
    rowSeat (some r) = ⟨r.epoch, if r.isReleased then none else some r.holder⟩ := by
  unfold rowSeat
  cases h : r.isReleased <;> simp [Option.filter, h]

theorem rowSeat_le (h : Change e scope r r') : rowSeat r ≤ rowSeat r' := by
  cases h with
  | same => exact le_rfl
  | @taken cur a =>
    rw [rowSeat_some, rowSeat_some]
    by_cases hrenews : a.renews cur = true
    · obtain ⟨hholder, hlive⟩ := CheckoutArgs.renews_iff.mp hrenews
      refine .inr ⟨by simp [CheckoutArgs.over, hrenews], .inl ?_⟩
      simp [Lease.isReleased, (Lease.live_iff.mp hlive).1, CheckoutArgs.over, hholder]
    · refine Seat.le_of_epoch_lt ?_
      simp only [CheckoutArgs.over, if_neg hrenews]
      omega
  | fresh a =>
    refine Seat.le_of_epoch_lt ?_
    simp [rowSeat, CheckoutArgs.fresh]
  | extended a =>
    rw [rowSeat_some, rowSeat_some]
    exact .inr ⟨rfl, .inl rfl⟩
  | noted =>
    rw [rowSeat_some, rowSeat_some]
    exact .inr ⟨rfl, .inl rfl⟩
  | @released cur cur' a _ _ _ _ _ after =>
    have hepoch : cur'.epoch = cur.epoch := epoch_noted after
    rw [rowSeat_some, rowSeat_some]
    exact .inr ⟨hepoch.symm, .inr (by simp [Lease.isReleased, Lease.released])⟩

theorem rowSeat_exec (redact : String → String) (db : Db) (c : Call) (scope : String) :
    rowSeat (db.lease scope) ≤ rowSeat ((exec redact db c).2.lease scope) := by
  -- the readings of the clock play no part in the rows
  have h : Step redact ⟨db, c.now⟩ ⟨c, (exec redact db c).1⟩ ⟨(exec redact db c).2, c.now⟩ :=
    ⟨le_rfl, rfl, rfl⟩
  exact rowSeat_le (h.change scope)

/-- The operation of the second transaction. -/
def Seen.call (a : RelayArgs) (norm : String) (now : Int) : Seen → Call
  | .vacant => .checkout (a.checkout norm now)
  | .own epoch => .heartbeat (a.heartbeat norm epoch now)

theorem ensureRelayAct_vacant (a : RelayArgs) (role : NodeRole) (norm : String) (now : Int)
    (db : Db) : (ensureRelayAct a role norm .vacant now db).2 =
      (checkoutLease (a.checkout norm now) db).2 := by
  delta ensureRelayAct
  dsimp only
  generalize checkoutLease (a.checkout norm now) db = res
  obtain ⟨reply, db'⟩ := res
  cases reply with
  | error e => rfl
  | ok reply =>
    cases reply with
    | acquired v => rfl
    | conflict v => rfl

theorem ensureRelayAct_own (a : RelayArgs) (role : NodeRole) (norm : String) (epoch now : Int)
    (db : Db) : (ensureRelayAct a role norm (.own epoch) now db).2 =
      (heartbeatLease (a.heartbeat norm epoch now) db).2 := by
  delta ensureRelayAct
  dsimp only
  generalize heartbeatLease (a.heartbeat norm epoch now) db = res
  obtain ⟨reply, db'⟩ := res
  cases reply with
  | error e => rfl
  | ok reply =>
    cases reply with
    | notFound => rfl
    | renewed v => rfl
    | refused why v => rfl

theorem ensureRelayAct_snd (redact : String → String) (a : RelayArgs) (role : NodeRole)
    (norm : String) (seen : Seen) (now : Int) (db : Db) :
    (ensureRelayAct a role norm seen now db).2 = (exec redact db (seen.call a norm now)).2 := by
  cases seen with
  | vacant => rw [ensureRelayAct_vacant, Seen.call, exec]
  | own epoch => rw [ensureRelayAct_own, Seen.call, exec]

theorem RelayStep.rowSeat_le (h : RelayStep config redact s l t) (scope : String) :
    rowSeat (s.db.lease scope) ≤ rowSeat (t.db.lease scope) := by
  cases h with
  | look => exact le_rfl
  | @act i a role norm seen clock r db _ _ done =>
    obtain rfl : (ensureRelayAct a role norm seen (a.reading clock) s.db).2 = db := by rw [done]
    rw [ensureRelayAct_snd redact]
    exact rowSeat_exec ..
  | other => exact rowSeat_exec ..

theorem rowSeat_le_of_path (p : Path (RelayStep config redact) s ls t) (scope : String) :
    rowSeat (s.db.lease scope) ≤ rowSeat (t.db.lease scope) :=
  p.monotone (I := fun _ => True) (fun s => rowSeat (s.db.lease scope)) (fun _ _ _ _ _ => trivial)
    (fun _ _ _ _ hs => hs.rowSeat_le scope) trivial

theorem rowSeat_of_told {node : String} {claim : BarbClaim} (h : Told l t)
    (hl : l.TellsActive node claim) :
    rowSeat (t.db.lease claim.scope) = ⟨claim.epoch, some node⟩ := by
  obtain ⟨i, a, clock, role, promoted, lease, rfl, rfl⟩ := hl
  obtain ⟨r, hr, hholder, hepoch, hlive⟩ := h
  rw [hr, rowSeat_some, hepoch, hholder]
  simp [Lease.isReleased, (Lease.live_iff.mp hlive).1]

/-! ### Runs -/

def Normal (s : System) : Prop :=
  ∀ i a role norm seen, s.phase i = .acting a role norm seen →
    ∃ persona, normalizePersonaRole persona = .ok norm

theorem normal_of_look {a : RelayArgs} {now : Int} {role : NodeRole} {norm : String}
    {seen : Seen} (h : ensureRelayLook config a now db = .ok (.next role norm seen)) :
    normalizePersonaRole a.role = .ok norm := by
  unfold ensureRelayLook at h
  split at h
  · cases h
  · cases h
  · obtain ⟨norm', hnorm, h⟩ := bind_eq_ok_iff.mp h
    split at h
    · cases h
      exact hnorm
    · split at h
      · cases h
        exact hnorm
      · cases h

theorem Normal.step (h : Normal s) (hs : RelayStep config redact s l t) : Normal t := by
  intro i a role norm seen hphase
  cases hs with
  | @look j a' clock r _ _ done =>
    by_cases hij : i = j
    · subst hij
      simp only [Function.update_self] at hphase
      unfold Phase.looked at hphase
      split at hphase
      · next heq =>
        obtain ⟨rfl, rfl, rfl, rfl⟩ := Phase.acting.inj hphase
        exact ⟨_, normal_of_look done⟩
      · cases hphase
    · simp only [Function.update_of_ne hij] at hphase
      exact h i a role norm seen hphase
  | @act j =>
    by_cases hij : i = j
    · subst hij
      simp only [Function.update_self] at hphase
      cases hphase
    · simp only [Function.update_of_ne hij] at hphase
      exact h i a role norm seen hphase
  | other => exact h i a role norm seen hphase

theorem RelayStep.told (hs : RelayStep config redact s l t) (h : Normal s)
    (hu : Undisturbed s l) : Told l t := by
  cases hs with
  | look => trivial
  | @act i a role norm seen clock r db _ at' done =>
    obtain ⟨persona, hnorm⟩ := h i a role norm seen at'
    obtain ⟨hstands, htimely⟩ := hu i a clock r role norm seen rfl at'
    exact (acted hnorm done).told hstands htimely
  | other => trivial

/-- **An answer is true exactly if the row is as the call saw it**, at every step of every run: for
a call that uses no instant of the future, when the store does not raise. -/
theorem told_iff_undisturbed {a : RelayArgs} {i : ℕ} {now : Int} {r : Except RelayError RelayReply}
    (p : Path (RelayStep config redact) (.new db clock) ls s)
    (hs : RelayStep config redact s (.act i a now r) t) (hpast : a.reading now ≤ now)
    (hok : ∀ e, r ≠ .error (.store e)) :
    Told (.act i a now r) t ↔ Undisturbed s (.act i a now r) := by
  have hnew : Normal (.new db clock) := fun _ _ _ _ _ h => nomatch h
  have hnormal := p.invariant (fun _ _ _ h hs => h.step hs) hnew
  refine ⟨fun htold => ?_, hs.told hnormal⟩
  intro i' a' clock' r' role norm seen hl hphase
  obtain ⟨rfl, rfl, rfl, rfl⟩ := Label.act.inj hl
  obtain ⟨persona, hnorm⟩ := hnormal i a role norm seen hphase
  cases hs with
  | act later at' done =>
    obtain ⟨-, rfl, rfl, rfl⟩ := Phase.acting.inj (at'.symm.trans hphase)
    exact (acted hnorm done).stands_of_told hpast hok htold

/-- **Every answer is true**, in a run in which the row a call acts on is as the call saw it
and no lease it takes has lapsed; and two nodes that are told they are active are told so for
different tenures, the later of which has the higher epoch. -/
theorem told_of_undisturbed
    (p : Path (fun s l t => RelayStep config redact s l t ∧ Undisturbed s l) (.new db clock) ls s) :
    Path (fun s l t => RelayStep config redact s l t ∧ Told l t) (.new db clock) ls s ∧
    ∀ before l mid l' after node node' claim claim',
      ls = before ++ l :: (mid ++ l' :: after) → l.TellsActive node claim →
      l'.TellsActive node' claim' → claim.scope = claim'.scope → node ≠ node' →
        claim.epoch < claim'.epoch := by
  have hnew : Normal (.new db clock) := fun _ _ _ _ _ h => nomatch h
  have htold : Path (fun s l t => RelayStep config redact s l t ∧ Told l t) (.new db clock) ls s :=
    p.imp (I := Normal) (fun _ _ _ h hs => ⟨⟨hs.1, hs.1.told h hs.2⟩, h.step hs.1⟩) hnew
  refine ⟨htold, ?_⟩
  rintro before l mid l' after node node' claim claim' rfl hl hl' hscope hne
  obtain ⟨u, v, -, ⟨-, huv⟩, q⟩ := path_middle_iff.mp htold
  obtain ⟨u', v', q, hs', -⟩ := path_middle_iff.mp q
  have q' : Path (RelayStep config redact) v mid u' :=
    q.imp (I := fun _ => True) (fun _ _ _ _ hs => ⟨hs.1, trivial⟩) trivial
  have hle := (rowSeat_le_of_path q' claim.scope).trans (hs'.1.rowSeat_le claim.scope)
  have hseat' : rowSeat (v'.db.lease claim.scope) = ⟨claim'.epoch, some node'⟩ := by
    rw [hscope]
    exact rowSeat_of_told hs'.2 hl'
  rw [rowSeat_of_told huv hl, hseat'] at hle
  rcases lt_or_eq_of_le (Seat.epoch_le hle) with hlt | heq
  · exact hlt
  · -- one epoch has one holder
    have hsame := Seat.eq_of_le hle heq (by simp)
    exact absurd (Option.some.inj (Seat.ext_iff.mp hsame).2) hne

end Seats

/-! ### A lost race -/

def sampleConfig : NodeLeaderConfig where
  nodes := [⟨"hub-a", .leader, 0⟩, ⟨"node-a", .standby, 0⟩]
  nodup := by decide
  named := by decide
  leader := by decide
  standby := by decide

def sampleLease : Lease := ((RelayArgs.mk "hub-a" "rd-barb" 1800 none).checkout "rd-barb" 0).fresh

def sampleDb : Db := Db.empty.putLease nodeLeaderScope sampleLease

/-- The answer of a call that took, or did not take, the sample lease. -/
def sampleReply (node : String) (role : NodeRole) : Except RelayError RelayReply :=
  .ok (.active role (role = .standby) (rowToLease nodeLeaderScope sampleLease 0)
    (claimFor node 1 nodeLeaderScope))

def sampleActing (node : String) (role : NodeRole) : Phase :=
  .acting ⟨node, "rd-barb", 1800, none⟩ role "rd-barb" .vacant

private theorem look_free (s : System) (i : ℕ) (node : String) (role : NodeRole) (clock : Int)
    (hclock : s.clock ≤ clock) (hidle : s.phase i = .idle)
    (hrole : sampleConfig.roleOf node = some role) (hne : role ≠ .forwarder)
    (hfree : ∀ r, s.db.lease nodeLeaderScope = some r → r.live (seconds clock) = false) :
    RelayStep sampleConfig id s
      (.look i ⟨node, "rd-barb", 1800, none⟩ (.ok (.next role "rd-barb" .vacant)))
      ⟨s.db, clock, Function.update s.phase i (sampleActing node role)⟩ := by
  refine RelayStep.look hclock hidle ?_
  have hnone : currentLeader nodeLeaderScope clock s.db = none := by
    refine Option.eq_none_iff_forall_ne_some.mpr fun v hv => ?_
    obtain ⟨r, hr, hlive, -⟩ := currentLeader_eq_some_iff.mp hv
    exact Bool.false_ne_true ((hfree r hr).symm.trans hlive)
  have hnorm : normalizePersonaRole "rd-barb" = .ok "rd-barb" := rfl
  exact ensureRelayLook_vacant hrole hne hnorm hnone

private theorem look_sample (phase : ℕ → Phase) (i : ℕ) (node : String) (role : NodeRole)
    (hidle : phase i = .idle) (hrole : sampleConfig.roleOf node = some role)
    (hne : role ≠ .forwarder) :
    RelayStep sampleConfig id ⟨.empty, 0, phase⟩
      (.look i ⟨node, "rd-barb", 1800, none⟩ (.ok (.next role "rd-barb" .vacant)))
      ⟨.empty, 0, Function.update phase i (sampleActing node role)⟩ :=
  look_free _ i node role 0 le_rfl hidle hrole hne nofun

private theorem act_sample (phase : ℕ → Phase) (i : ℕ)
    (hphase : phase i = sampleActing "hub-a" .leader) :
    RelayStep sampleConfig id ⟨.empty, 0, phase⟩
      (.act i ⟨"hub-a", "rd-barb", 1800, none⟩ 0 (sampleReply "hub-a" .leader))
      ⟨sampleDb, 0, Function.update phase i .idle⟩ :=
  RelayStep.act le_rfl hphase rfl

/-- The lease the standby takes when that of the leader has lapsed. -/
def lateLease : Lease :=
  ((RelayArgs.mk "node-a" "rd-barb" 1800 none).checkout "rd-barb" 2000000000).over sampleLease

def lateReply : RelayReply :=
  .active .standby true (rowToLease nodeLeaderScope lateLease 2000)
    (claimFor "node-a" 2 nodeLeaderScope)

/-- The leader takes the free lease, and 2000 seconds later the standby takes the lapsed one. -/
def sampleTurns : List Label :=
  [.look 0 ⟨"hub-a", "rd-barb", 1800, none⟩ (.ok (.next .leader "rd-barb" .vacant)),
    .act 0 ⟨"hub-a", "rd-barb", 1800, none⟩ 0 (sampleReply "hub-a" .leader),
    .look 1 ⟨"node-a", "rd-barb", 1800, none⟩ (.ok (.next .standby "rd-barb" .vacant)),
    .act 1 ⟨"node-a", "rd-barb", 1800, none⟩ 2000000000 (.ok lateReply)]

private theorem act_late (phase : ℕ → Phase) (i : ℕ)
    (hphase : phase i = sampleActing "node-a" .standby) :
    RelayStep sampleConfig id ⟨sampleDb, 2000000000, phase⟩
      (.act i ⟨"node-a", "rd-barb", 1800, none⟩ 2000000000 (.ok lateReply))
      ⟨sampleDb.putLease nodeLeaderScope lateLease, 2000000000, Function.update phase i .idle⟩ :=
  RelayStep.act le_rfl hphase rfl

private theorem undisturbed_act (s : System) (i : ℕ) (node : String) (role : NodeRole)
    (clock : Int) (r : Except RelayError RelayReply) (hphase : s.phase i = sampleActing node role)
    (hfree : ∀ r, s.db.lease nodeLeaderScope = some r → r.live (seconds clock) = false) :
    Undisturbed s (.act i ⟨node, "rd-barb", 1800, none⟩ clock r) := by
  intro i' a clock' r' role' norm seen hl hphase'
  obtain ⟨rfl, rfl, rfl, rfl⟩ := Label.act.inj hl
  obtain ⟨-, rfl, rfl, rfl⟩ := Phase.acting.inj (hphase.symm.trans hphase')
  refine ⟨fun cur hcur hlive => ?_, RelayArgs.timely_of_now_eq_none rfl⟩
  exact absurd ((hfree cur hcur).symm.trans hlive) (by decide)

/-- Both are told the truth, and the epoch of the standby is the higher one. -/
theorem told_of_undisturbed_sample :
    (∃ s, Path (fun s l t => RelayStep sampleConfig id s l t ∧ Told l t) (.new .empty 0)
      sampleTurns s) ∧
    (claimFor "hub-a" 1 nodeLeaderScope).epoch < (claimFor "node-a" 2 nodeLeaderScope).epoch := by
  have hlook (i : ℕ) (a : RelayArgs) (r) (s : System) : Undisturbed s (.look i a r) :=
    fun _ _ _ _ _ _ _ h => nomatch h
  have hlapsed : ∀ r, sampleDb.lease nodeLeaderScope = some r →
      r.live (seconds 2000000000) = false := by
    intro r hr
    obtain rfl := Option.some.inj hr
    decide
  have hpath : ∃ s, Path (fun s l t => RelayStep sampleConfig id s l t ∧ Undisturbed s l)
      (.new .empty 0) sampleTurns s := ⟨_, .cons
    ⟨look_sample _ 0 "hub-a" .leader rfl rfl (by decide), hlook _ _ _ _⟩ (.cons
    ⟨act_sample _ 0 rfl, undisturbed_act _ 0 "hub-a" .leader 0 _ rfl nofun⟩ (.cons
    ⟨look_free ⟨sampleDb, 0, _⟩ 1 "node-a" .standby 2000000000 (by decide) rfl rfl (by decide)
      hlapsed, hlook _ _ _ _⟩ (.single
    ⟨act_late _ 1 rfl, undisturbed_act _ 1 "node-a" .standby 2000000000 _ rfl hlapsed⟩)))⟩
  obtain ⟨s, p⟩ := hpath
  have h := told_of_undisturbed p
  refine ⟨⟨s, h.1⟩, ?_⟩
  exact h.2 [_] _ [_] _ [] "hub-a" "node-a" _ _ rfl ⟨_, _, _, _, _, _, rfl, rfl⟩
    ⟨_, _, _, _, _, _, rfl, rfl⟩ rfl (by decide)

/-- The leader looks, and the lease is free when it takes it. -/
theorem undisturbed_sample :
    ∃ s, Undisturbed s
      (.act 0 ⟨"hub-a", "rd-barb", 1800, none⟩ 0 (sampleReply "hub-a" .leader)) := by
  refine ⟨_, (told_iff_undisturbed (.single (look_sample _ 0 "hub-a" .leader rfl rfl (by decide)))
    (act_sample _ 0 rfl) le_rfl nofun).mp ?_⟩
  exact ⟨sampleLease, rfl, rfl, rfl, rfl⟩

/-- Both nodes look at a free lease; the leader takes it, the standby's checkout is refused,
and both are told they are active, at the leader's epoch. -/
theorem not_told_of_lost_race :
    ∃ ls l l' s t claim claim',
      Path (RelayStep sampleConfig id) (.new .empty 0) (ls ++ [l]) s ∧
      RelayStep sampleConfig id s l' t ∧ l.TellsActive "hub-a" claim ∧
      l'.TellsActive "node-a" claim' ∧ claim.scope = claim'.scope ∧ claim.epoch = claim'.epoch ∧
      ¬ Told l' t := by
  have h₁ := look_sample (fun _ => .idle) 0 "hub-a" .leader rfl rfl (by decide)
  have h₂ := look_sample (Function.update (fun _ => .idle) 0 (sampleActing "hub-a" .leader)) 1
    "node-a" .standby rfl rfl (by decide)
  have h₃ := act_sample (Function.update (Function.update (fun _ => .idle) 0
    (sampleActing "hub-a" .leader)) 1 (sampleActing "node-a" .standby)) 0 rfl
  have h₄ := @RelayStep.act sampleConfig id ⟨sampleDb, 0, Function.update (Function.update
      (Function.update (fun _ => .idle) 0 (sampleActing "hub-a" .leader)) 1
      (sampleActing "node-a" .standby)) 0 .idle⟩ 1 ⟨"node-a", "rd-barb", 1800, none⟩ .standby
      "rd-barb" .vacant 0 (sampleReply "node-a" .standby) sampleDb le_rfl rfl rfl
  refine ⟨[_, _], _, _, _, _, claimFor "hub-a" 1 nodeLeaderScope,
    claimFor "node-a" 1 nodeLeaderScope, .cons h₁ (.cons h₂ (.single h₃)), h₄,
    ⟨0, _, 0, .leader, _, _, rfl, rfl⟩, ⟨1, _, 0, .standby, _, _, rfl, rfl⟩, rfl, rfl, ?_⟩
  rintro ⟨r, hr, hholder, -⟩
  obtain rfl := Option.some.inj hr
  exact absurd hholder (by decide)

end NodeLeader
