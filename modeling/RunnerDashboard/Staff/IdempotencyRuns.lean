import RunnerDashboard.Lib.Path
import RunnerDashboard.Staff.Idempotency

/-!
# Runs of the idempotency store

Any number of callers work on one database.  Every call is one transaction, so a
run is the sequence of their commits; between a caller's own steps the others may
do anything.  A call reads the clock no later than it commits, and the instants
of the commits do not decrease.

What a run does to the row of one identity is described by `RowChange`, which
says everything a single call can do to it.  The three laws of the store are
proved about row changes and hold of the store because each of its steps is one.

## Main results

* `receipt_stable` — a receipt stays until its expiry is reached.
* `executes_at_most_once` — the three laws together.
-/

namespace Idempotency

open Sql Lts

/-! ### Steps -/

inductive Call
  | reserve (i : Ident) (a : ReserveArgs)
  | complete (i : Ident) (a : CompleteArgs)
  | release (i : Ident) (operationId : String)
  | purgeExpired (nowIso : Int)

/-- What a call returns or raises. -/
inductive Reply
  | reservation (r : Except StoreError Reservation)
  | mutation (r : Except StoreError MutationResult)
  | purged (n : ℕ)

def exec (t : Store) : Call → Reply × Store
  | .reserve i a => (.reservation (reserveLocked t i a).1, (reserveLocked t i a).2)
  | .complete i a => (.mutation (complete t i a).1, (complete t i a).2)
  | .release i op => (.mutation (release t i op).1, (release t i op).2)
  | .purgeExpired now => (.purged (purgeExpired t now).1, (purgeExpired t now).2)

/-- The call read the clock in order, and not after the instant `t`. -/
def Call.ReadBy (t : Int) : Call → Prop
  | .reserve _ a => a.nowIso ≤ a.clock ∧ a.clock ≤ a.takeoverClock ∧ a.takeoverClock ≤ t
  | .complete _ a => a.clock ≤ t
  | .release _ _ => True
  | .purgeExpired now => now ≤ t

instance (t : Int) : (c : Call) → Decidable (c.ReadBy t)
  | .reserve _ _ => inferInstanceAs (Decidable (_ ∧ _ ∧ _))
  | .complete _ _ => inferInstanceAs (Decidable (_ ≤ _))
  | .release _ _ => inferInstanceAs (Decidable True)
  | .purgeExpired _ => inferInstanceAs (Decidable (_ ≤ _))

/-- A call that committed at the instant `time` with the answer `reply`. -/
structure Event where
  call : Call
  reply : Reply
  time : Int

/-- The table and the instant of the last commit. -/
structure State where
  table : Store
  clock : Int

def State.row (s : State) (i : Ident) : Option Row := s.table.get? i

/-- One commit. -/
structure Step (s : State) (e : Event) (t : State) : Prop where
  clock_le : s.clock ≤ e.time
  readBy : e.call.ReadBy e.time
  exec_eq : exec s.table e.call = (e.reply, t.table)
  clock_eq : t.clock = e.time

theorem Step.reply_eq {s t : State} {e : Event} (h : Step s e t) :
    e.reply = (exec s.table e.call).1 := by rw [h.exec_eq]

theorem Step.table_eq {s t : State} {e : Event} (h : Step s e t) :
    t.table = (exec s.table e.call).2 := by rw [h.exec_eq]

def State.event (s : State) (c : Call) (time : Int) : Event := ⟨c, (exec s.table c).1, time⟩

def State.after (s : State) (c : Call) (time : Int) : State := ⟨(exec s.table c).2, time⟩

theorem step_after {s : State} {c : Call} {time : Int} (h : s.clock ≤ time)
    (hr : c.ReadBy time) : Step s (s.event c time) (s.after c time) := ⟨h, hr, rfl, rfl⟩

/-- The operation id an event acquires for `i`. -/
def Event.acquired (i : Ident) (e : Event) : Option String :=
  match e.call, e.reply with
  | .reserve k _, .reservation (.ok r) =>
    if k = i ∧ r.state = .acquired then some r.operationId else none
  | _, _ => none

/-- The operation id of the latest acquired reservation of `i`. -/
def latestOperation (i : Ident) (past : List Event) : Option String :=
  past.reverse.findSome? (Event.acquired i)

@[simp] theorem latestOperation_nil (i : Ident) : latestOperation i [] = none := rfl

@[simp] theorem latestOperation_snoc (i : Ident) (past : List Event) (e : Event) :
    latestOperation i (past ++ [e]) = (e.acquired i).or (latestOperation i past) := by
  simp only [latestOperation, List.reverse_append, List.reverse_cons, List.reverse_nil,
    List.nil_append, List.singleton_append, List.findSome?_cons]
  cases e.acquired i <;> rfl

/-- The event is a release of `i` that answered `ok`. -/
def Event.ReleasedOk (i : Ident) (e : Event) : Prop :=
  (∃ op, e.call = .release i op) ∧ e.reply = .mutation (.ok .ok)

/-- The event is a completion or a release of `i` with the given operation id. -/
def Event.Presents (i : Ident) (op : String) (e : Event) : Prop :=
  e.call = .release i op ∨ ∃ a, e.call = .complete i a ∧ a.operationId = op

/-! ### What a call can do to one row -/

theorem Event.acquired_eq_none {i : Ident} {e : Event} (h : ∀ k a, e.call ≠ .reserve k a) :
    e.acquired i = none := by
  unfold Event.acquired
  split
  · next k a _ hc _ => exact absurd hc (h k a)
  · rfl

/-- The row of `i` before and after an event, with what the event was. -/
inductive RowChange (i : Ident) (e : Event) : Option Row → Option Row → Prop
  /-- The row is left alone and nothing is acquired. -/
  | same (r : Option Row) (h : e.acquired i = none) : RowChange i e r r
  | expired (row : Row) (now : Int) (hc : e.call = .purgeExpired now)
      (hx : row.expiresAt ≤ e.time) : RowChange i e (some row) none
  | granted (r : Option Row) (a : ReserveArgs) (hc : e.call = .reserve i a)
      (h : e.acquired i = some a.operationId)
      (hx : ∀ row, r = some row → row.expiresAt ≤ e.time) : RowChange i e r (some a.pendingRow)
  | takeover (row : Row) (a : ReserveArgs) (hc : e.call = .reserve i a)
      (h : e.acquired i = some a.newOperationId) (hs : a.takeoverSafe = true)
      (hp : row.state = .pending) (hl : row.leaseExpiresAt ≤ a.nowIso) (hn : a.nowIso ≤ e.time) :
      RowChange i e (some row) (some (a.takenOver row))
  /-- The receipt of the owner. -/
  | completed (row : Row) (a : CompleteArgs) (hc : e.call = .complete i a)
      (hp : row.state = .pending) (ho : row.operationId = a.operationId) :
      RowChange i e (some row) (some (a.doneRow row))
  | released (row : Row) (op : String) (hc : e.call = .release i op)
      (hok : e.reply = .mutation (.ok .ok)) (hp : row.state = .pending)
      (ho : row.operationId = op) : RowChange i e (some row) none

private theorem rowChange_reserve {t : Store} {i : Ident} {a : ReserveArgs} {e : Event}
    (hc : e.call = .reserve i a) (hr : e.reply = .reservation (reserveLocked t i a).1)
    (hn : a.nowIso ≤ e.time) :
    RowChange i e (t.get? i) ((reserveLocked t i a).2.get? i) := by
  obtain ⟨hfst, hsnd⟩ := reserveLocked_spec t i a
  rw [hfst] at hr
  rw [hsnd]
  cases h : unexpired t i a.nowIso with
  | none =>
    rw [h] at hr
    refine .granted _ a hc (by simp [Event.acquired, hc, hr, reserveRow]) ?_
    intro row hrow
    by_contra hlt
    have : unexpired t i a.nowIso = some row :=
      unexpired_eq_some_iff.mpr ⟨hrow, by omega⟩
    rw [h] at this
    exact absurd this (by simp)
  | some row =>
    obtain ⟨hrow, _⟩ := unexpired_eq_some_iff.mp h
    rw [h] at hr
    rw [hrow]
    rcases reserveRow_some i a row with ⟨hsame, hno⟩ | ⟨hp, hl, hs, heq⟩
    · rw [hsame]
      refine .same _ ?_
      cases hres : (reserveRow i a (some row)).1 with
      | error x => simp [Event.acquired, hc, hr, hres]
      | ok res => simp [Event.acquired, hc, hr, hres, hno res hres]
    · rw [heq] at hr ⊢
      exact .takeover row a hc (by simp [Event.acquired, hc, hr]) hs hp hl hn

private theorem rowChange_complete {t : Store} {i : Ident} {a : CompleteArgs} {e : Event}
    (hc : e.call = .complete i a) :
    RowChange i e (t.get? i) ((complete t i a).2.get? i) := by
  have hacq : e.acquired i = none := by simp [Event.acquired, hc]
  rcases complete_cases t i a with h | h | ⟨row, hrow, hp, ho, -, hafter⟩
  · rw [h]
    exact .same _ hacq
  · rw [h]
    exact .same _ hacq
  · rw [hafter, hrow]
    exact .completed row a hc hp ho

private theorem rowChange_release {t : Store} {i : Ident} {op : String} {e : Event}
    (hc : e.call = .release i op) (hr : e.reply = .mutation (release t i op).1) :
    RowChange i e (t.get? i) ((release t i op).2.get? i) := by
  have hacq : e.acquired i = none := by simp [Event.acquired, hc]
  rcases release_cases t i op with h | h | ⟨row, hrow, hp, ho, hok, hafter⟩
  · rw [h]
    exact .same _ hacq
  · rw [h]
    exact .same _ hacq
  · rw [hafter, hrow]
    exact .released row op hc (by rw [hr, hok]) hp ho

private theorem rowChange_purge {t : Store} {i : Ident} {now : Int} {e : Event}
    (hc : e.call = .purgeExpired now) (hn : now ≤ e.time) :
    RowChange i e (t.get? i) ((purgeExpired t now).2.get? i) := by
  have hacq : e.acquired i = none := by simp [Event.acquired, hc]
  rw [purgeExpired, Table.get?_delete]
  cases h : t.get? i with
  | none => exact .same none hacq
  | some row =>
    by_cases hx : row.expiresAt ≤ now
    · rw [Option.filter_some, if_neg (by simpa using hx)]
      exact .expired row now hc (hx.trans hn)
    · rw [Option.filter_some, if_pos (by simpa using hx)]
      exact .same _ hacq

/-- **Every step of the store is a row change of every identity.** -/
theorem Step.rowChange {s t : State} {e : Event} (h : Step s e t) (i : Ident) :
    RowChange i e (s.row i) (t.row i) := by
  have hr := h.reply_eq
  have ht := h.table_eq
  have hread := h.readBy
  unfold State.row
  rw [ht]
  cases hc : e.call with
  | reserve k a =>
    rw [hc] at hr hread
    simp only [exec] at hr ⊢
    by_cases hk : i = k
    · subst hk
      -- the call read its clock before the commit
      obtain ⟨hn₁, hn₂, hn₃⟩ := hread
      exact rowChange_reserve hc hr (by omega)
    · have hacq : e.acquired i = none := by
        simp only [Event.acquired, hc]
        split
        · next heq _ =>
          obtain ⟨rfl, -⟩ := Call.reserve.inj heq
          simp [Ne.symm hk]
        · rfl
      rw [get?_reserveLocked_of_ne _ hk]
      exact .same _ hacq
  | complete k a =>
    simp only [exec]
    by_cases hk : i = k
    · subst hk
      exact rowChange_complete hc
    · rw [get?_complete_of_ne _ hk]
      exact .same _ (by simp [Event.acquired, hc])
  | release k op =>
    rw [hc] at hr
    simp only [exec] at hr ⊢
    by_cases hk : i = k
    · subst hk
      exact rowChange_release hc hr
    · rw [get?_release_of_ne _ hk]
      exact .same _ (by simp [Event.acquired, hc])
  | purgeExpired now =>
    rw [hc] at hread
    simp only [exec]
    exact rowChange_purge hc hread

/-! ### The owner of a pending row -/

/-- No row of the table is pending: an empty ledger, or one of receipts only. -/
def State.Settled (s : State) : Prop := ∀ i row, s.row i = some row → row.state = .done

/-- The pending row of `i` carries the operation id of the latest acquired reservation. -/
def PendingIsLatest (i : Ident) (past : List Event) (s : State) : Prop :=
  ∀ row, s.row i = some row → row.state = .pending →
    latestOperation i past = some row.operationId

theorem PendingIsLatest.step {i : Ident} {past : List Event} {s t : State} {e : Event}
    (hs : PendingIsLatest i past s) (h : Step s e t) : PendingIsLatest i (past ++ [e]) t := by
  intro row hrow hp
  rw [latestOperation_snoc]
  have hchange := h.rowChange i
  rw [hrow] at hchange
  generalize hr : s.row i = r at hchange
  cases hchange with
  | same _ ha => rw [ha]; exact hs row hr hp
  | granted _ a _ ha _ => rw [ha]; rfl
  | takeover old a _ ha _ _ _ _ => rw [ha]; rfl
  | completed old a _ _ _ => exact absurd hp (by simp [CompleteArgs.doneRow])

/-- **A pending row belongs to the latest acquired reservation.** -/
theorem pending_is_latest {s₀ s : State} (h₀ : s₀.Settled) {past : List Event}
    (p : Path Step s₀ past s) (i : Ident) : PendingIsLatest i past s := by
  refine p.history (I := PendingIsLatest i) (fun _ _ _ _ hs h => hs.step h) ?_
  intro row hrow hp
  rw [h₀ i row hrow] at hp
  exact absurd hp (by decide)

/-! ### Between two acquired reservations -/

/-- On the path the row of `i` was met at or after its `expires_at`. -/
def ExpiryReached (i : Ident) (s : State) (ls : List Event) : Prop :=
  ∃ before e after t row, ls = before ++ e :: after ∧ Path Step s before t ∧
    t.row i = some row ∧ row.expiresAt ≤ e.time

/-- The row of `i` is a receipt, or a reservation whose lease is `lease` or ends
later than `lease`, which then has passed. -/
def HeldSince (i : Ident) (lease : Int) (s : State) : Prop :=
  ∃ row, s.row i = some row ∧
    (row.state = .done ∨ row.leaseExpiresAt = lease ∨ lease ≤ s.clock)

theorem HeldSince.step {i : Ident} {lease : Int} {s t : State} {e : Event}
    (hs : HeldSince i lease s) (h : Step s e t) :
    HeldSince i lease t ∨
      (e.ReleasedOk i ∨ ∃ row, s.row i = some row ∧ row.expiresAt ≤ e.time) := by
  obtain ⟨row, hrow, hheld⟩ := hs
  have hle : s.clock ≤ e.time := h.clock_le
  have hclock : t.clock = e.time := h.clock_eq
  have hchange := h.rowChange i
  rw [hrow] at hchange
  generalize ht : t.row i = r at hchange
  cases hchange with
  | same _ _ =>
    left
    refine ⟨row, ht, ?_⟩
    rcases hheld with hd | hl | hl
    · exact .inl hd
    · exact .inr (.inl hl)
    · exact .inr (.inr (by omega))
  | expired _ _ _ hx => exact .inr (.inr ⟨row, hrow, hx⟩)
  | granted _ a _ _ hx => exact .inr (.inr ⟨row, hrow, hx row rfl⟩)
  | takeover _ a _ _ _ hp hl hn =>
    left
    refine ⟨_, ht, .inr (.inr ?_)⟩
    rcases hheld with hd | hl' | hl'
    · rw [hd] at hp; exact absurd hp (by decide)
    · omega
    · omega
  | completed _ a _ _ _ => exact .inl ⟨_, ht, .inl rfl⟩
  | released _ op hc hok _ _ => exact .inr (.inl ⟨⟨op, hc⟩, hok⟩)

theorem Step.acquired_cases {i : Ident} {s t : State} {e : Event} {op : String}
    (h : Step s e t) (ha : e.acquired i = some op) :
    (∃ a, e.call = .reserve i a ∧ op = a.operationId ∧ t.row i = some a.pendingRow ∧
      ∀ row, s.row i = some row → row.expiresAt ≤ e.time) ∨
    (∃ a row, e.call = .reserve i a ∧ op = a.newOperationId ∧ s.row i = some row ∧
      t.row i = some (a.takenOver row) ∧ a.takeoverSafe = true ∧ row.state = .pending ∧
      row.leaseExpiresAt ≤ a.nowIso ∧ a.nowIso ≤ e.time) := by
  have hnone : (∀ k a, e.call ≠ .reserve k a) → False := by
    intro hno
    rw [Event.acquired_eq_none hno] at ha
    exact absurd ha (by simp)
  have hchange := h.rowChange i
  generalize s.row i = r at hchange
  generalize t.row i = r' at hchange
  cases hchange with
  | same _ hno => rw [hno] at ha; exact absurd ha (by simp)
  | expired _ _ hc _ => exact (hnone (by simp [hc])).elim
  | completed _ _ hc _ _ => exact (hnone (by simp [hc])).elim
  | released _ _ hc _ _ _ => exact (hnone (by simp [hc])).elim
  | granted _ a hc hop hx =>
    rw [hop] at ha
    exact .inl ⟨a, hc, (Option.some.inj ha).symm, rfl, hx⟩
  | takeover row a hc hop hs hp hl hn =>
    rw [hop] at ha
    exact .inr ⟨a, row, hc, (Option.some.inj ha).symm, rfl, rfl, hs, hp, hl, hn⟩

theorem HeldSince.acquire {i : Ident} {lease : Int} {s t : State} {e : Event} {op : String}
    (hs : HeldSince i lease s) (h : Step s e t) (ha : e.acquired i = some op) :
    (∃ row, s.row i = some row ∧ row.expiresAt ≤ e.time) ∨
      ((∃ a, e.call = .reserve i a ∧ a.takeoverSafe = true) ∧ lease ≤ e.time) := by
  obtain ⟨row, hrow, hheld⟩ := hs
  have hle : s.clock ≤ e.time := h.clock_le
  rcases h.acquired_cases ha with ⟨a, -, -, -, hx⟩ | ⟨a, row', hc, -, hrow', -, hsafe, hp, hl, hn⟩
  · exact .inl ⟨row, hrow, hx row hrow⟩
  · rw [hrow] at hrow'
    cases hrow'
    refine .inr ⟨⟨a, hc, hsafe⟩, ?_⟩
    rcases hheld with hd | hl' | hl'
    · rw [hd] at hp; exact absurd hp (by decide)
    · omega
    · omega

theorem Step.row_of_acquired {i : Ident} {s t : State} {e : Event} {op : String}
    (h : Step s e t) (ha : e.acquired i = some op) :
    ∃ row, t.row i = some row ∧ row.state = .pending ∧ row.operationId = op := by
  rcases h.acquired_cases ha with ⟨a, -, rfl, ht, -⟩ | ⟨a, row, -, rfl, -, ht, -, hp, -, -⟩
  · exact ⟨_, ht, rfl, rfl⟩
  · exact ⟨_, ht, hp, rfl⟩

/-- **Between two acquired reservations** there is a release, an expiry, or the
lapse of the earlier lease with a takeover. -/
theorem acquired_twice {i : Ident} {s s₁ s₂ t : State} {e₁ e₂ : Event} {mid : List Event}
    {op₁ op₂ : String} (h₁ : Step s e₁ s₁) (ha₁ : e₁.acquired i = some op₁)
    (p : Path Step s₁ mid s₂) (h₂ : Step s₂ e₂ t) (ha₂ : e₂.acquired i = some op₂) :
    (∃ e ∈ mid, e.ReleasedOk i) ∨ ExpiryReached i s₁ (mid ++ [e₂]) ∨
      ((∃ a, e₂.call = .reserve i a ∧ a.takeoverSafe = true) ∧
        ∃ row, s₁.row i = some row ∧ row.leaseExpiresAt ≤ e₂.time) := by
  obtain ⟨row, hrow, -, -⟩ := h₁.row_of_acquired ha₁
  have hheld : HeldSince i row.leaseExpiresAt s₁ := ⟨row, hrow, .inr (.inl rfl)⟩
  rcases p.unless (fun _ _ _ hs h => HeldSince.step hs h) hheld with
    hend | ⟨before, e, after, u, u', rfl, q, hu, -, -, hrel | ⟨old, hold, hx⟩⟩
  · rcases hend.acquire h₂ ha₂ with ⟨old, hold, hx⟩ | ⟨hsafe, hl⟩
    · exact .inr (.inl ⟨mid, e₂, [], s₂, old, rfl, p, hold, hx⟩)
    · exact .inr (.inr ⟨hsafe, row, hrow, hl⟩)
  · exact .inl ⟨e, by simp, hrel⟩
  · exact .inr (.inl ⟨before, e, after ++ [e₂], u, old, by simp, q, hold, hx⟩)

/-! ### Receipts -/

theorem clock_le_of_path {s t : State} {ls : List Event} (p : Path Step s ls t) :
    s.clock ≤ t.clock := by
  refine p.monotone (I := fun _ => True) State.clock (fun _ _ _ _ _ => trivial) ?_ trivial
  intro s e t _ h
  rw [h.clock_eq]
  exact h.clock_le

theorem receipt_step {i : Ident} {row : Row} {s t : State} {e : Event}
    (hs : s.row i = some row ∧ row.state = .done) (h : Step s e t) :
    (t.row i = some row ∧ row.state = .done) ∨ row.expiresAt ≤ e.time := by
  obtain ⟨hrow, hd⟩ := hs
  have hchange := h.rowChange i
  rw [hrow] at hchange
  generalize ht : t.row i = r at hchange
  cases hchange with
  | same _ _ => exact .inl ⟨rfl, hd⟩
  | expired _ _ _ hx => exact .inr hx
  | granted _ a _ _ hx => exact .inr (hx row rfl)
  | takeover _ a _ _ _ hp _ _ => rw [hd] at hp; exact absurd hp (by decide)
  | completed _ a _ hp _ => rw [hd] at hp; exact absurd hp (by decide)
  | released _ _ _ _ hp _ => rw [hd] at hp; exact absurd hp (by decide)

/-- **A receipt stays until its expiry is reached.** -/
theorem receipt_stable {i : Ident} {row : Row} {s t : State} {ls : List Event}
    (hrow : s.row i = some row) (hd : row.state = .done) (p : Path Step s ls t)
    (hx : t.clock < row.expiresAt) : t.row i = some row := by
  rcases p.unless (fun _ _ _ hs h => receipt_step hs h) ⟨hrow, hd⟩ with
    hend | ⟨before, e, after, u, u', -, -, hu, q, -, hexp⟩
  · exact hend.1
  · have hu' : u'.clock = e.time := hu.clock_eq
    have := clock_le_of_path q
    omega

/-! ### The three laws -/

theorem presents_other {s₀ s t : State} (h₀ : s₀.Settled) {past : List Event}
    (p : Path Step s₀ past s) {i : Ident} {e : Event} {op : String} (h : Step s e t)
    (hop : e.Presents i op) (hne : latestOperation i past ≠ some op) :
    e.reply = .mutation (if blankOperationId op then .error blankError else .ok .notOwner) ∧
      t.row i = s.row i := by
  have hnot : ∀ r, s.table.get? i = some r → r.state = .pending → r.operationId ≠ op := by
    intro r hr hp heq
    have := pending_is_latest h₀ p i r hr hp
    rw [heq] at this
    exact hne this
  have hr := h.reply_eq
  have ht := h.table_eq
  unfold State.row
  rw [hr, ht]
  cases hb : blankOperationId op with
  | true =>
    rcases hop with hc | ⟨a, hc, rfl⟩
    · rw [hc]
      simp [exec, release_of_blank hb]
    · rw [hc]
      simp [exec, complete_of_blank hb]
  | false =>
    rcases hop with hc | ⟨a, hc, rfl⟩
    · rw [hc]
      simp [exec, release_of_not_owner hb hnot]
    · rw [hc]
      simp [exec, complete_of_not_owner hb hnot]

/-- A completion that answered `ok` wrote its receipt on the row it met. -/
theorem completed_row {s t : State} {e : Event} {i : Ident} {a : CompleteArgs}
    (h : Step s e t) (hc : e.call = .complete i a) (hok : e.reply = .mutation (.ok .ok)) :
    ∃ row, row.operationId = a.operationId ∧ t.row i = some (a.doneRow row) := by
  have hr := h.reply_eq
  have ht := h.table_eq
  rw [hok, hc] at hr
  rw [hc] at ht
  simp only [exec] at hr ht
  have hres := Reply.mutation.inj hr
  rcases complete_cases s.table i a with heq | heq | ⟨row, -, -, ho, -, hafter⟩
  · rw [heq] at hres; exact absurd hres (by simp)
  · rw [heq] at hres; exact absurd hres (by simp)
  · refine ⟨row, ho, ?_⟩
    unfold State.row
    rw [ht]
    exact hafter

theorem reserve_over_receipt {s t : State} {e : Event} {i : Ident} {a : CompleteArgs}
    {b : ReserveArgs} {row : Row} (h : Step s e t) (hc : e.call = .reserve i b)
    (hrow : s.row i = some (a.doneRow row)) (hx : e.time < (a.doneRow row).expiresAt) :
    (b.payloadHash = "" ∨ b.payloadHash = row.payloadHash → e.reply = .reservation (.ok
      { state := .replay, operationId := row.operationId,
        record := some (a.receipt i row.createdAt) }) ∧ t.table = s.table) ∧
    (b.payloadHash ≠ "" → row.payloadHash ≠ "" → row.payloadHash ≠ b.payloadHash →
      e.reply = .reservation (.ok { state := .mismatch, operationId := row.operationId }) ∧
        t.table = s.table) := by
  have hr := h.reply_eq
  have ht := h.table_eq
  have hread := h.readBy
  rw [hc] at hr ht hread
  obtain ⟨hn₁, hn₂, hn₃⟩ := hread
  have hnow : b.nowIso < (a.doneRow row).expiresAt := by omega
  rw [hr, ht]
  constructor
  · intro hb
    simp only [exec, reserveLocked_replay hrow hnow hb, and_self]
  · intro hb hs hne
    simp only [exec, reserveLocked_mismatch hrow hnow hs hb hne]
    constructor
    · rfl
    · trivial

/-- **Each key is executed at most once.**  In every run from a ledger without
pending rows: between two acquired reservations of an identity lies a release, an
expiry, or the lapse of the earlier lease and a takeover; only the operation id of
the latest acquired reservation moves the row; and a receipt answers every
reservation until it expires. -/
theorem executes_at_most_once {s₀ s : State} (h₀ : s₀.Settled) {past : List Event}
    (p : Path Step s₀ past s) (i : Ident) :
    (∀ e₁ s₁ mid s₂ e₂ t op₁ op₂, Step s e₁ s₁ → e₁.acquired i = some op₁ →
      Path Step s₁ mid s₂ → Step s₂ e₂ t → e₂.acquired i = some op₂ →
        (∃ e ∈ mid, e.ReleasedOk i) ∨ ExpiryReached i s₁ (mid ++ [e₂]) ∨
          ((∃ a, e₂.call = .reserve i a ∧ a.takeoverSafe = true) ∧
            ∃ row, s₁.row i = some row ∧ row.leaseExpiresAt ≤ e₂.time)) ∧
    (∀ e t op, Step s e t → e.Presents i op → latestOperation i past ≠ some op →
      e.reply = .mutation (if blankOperationId op then .error blankError else .ok .notOwner) ∧
        t.row i = s.row i) ∧
    (∀ e s₁ a, Step s e s₁ → e.call = .complete i a → e.reply = .mutation (.ok .ok) →
      ∃ row, s₁.row i = some (a.doneRow row) ∧
        ∀ mid s₂ e₂ t b, Path Step s₁ mid s₂ → Step s₂ e₂ t → e₂.call = .reserve i b →
          e₂.time < (a.receipt i row.createdAt).expiresAt →
          (b.payloadHash = "" ∨ b.payloadHash = row.payloadHash → e₂.reply = .reservation (.ok
            { state := .replay, operationId := a.operationId,
              record := some (a.receipt i row.createdAt) }) ∧ t.table = s₂.table) ∧
          (b.payloadHash ≠ "" → row.payloadHash ≠ "" → row.payloadHash ≠ b.payloadHash →
            e₂.reply = .reservation (.ok
              { state := .mismatch, operationId := a.operationId }) ∧ t.table = s₂.table)) := by
  refine ⟨?_, ?_, ?_⟩
  · intro e₁ s₁ mid s₂ e₂ t op₁ op₂ h₁ ha₁ q h₂ ha₂
    exact acquired_twice h₁ ha₁ q h₂ ha₂
  · intro e t op h hop hne
    exact presents_other h₀ p h hop hne
  · intro e s₁ a h hc hok
    obtain ⟨row, hop, hrow⟩ := completed_row h hc hok
    refine ⟨row, hrow, ?_⟩
    intro mid s₂ e₂ t b q h₂ hcall hlt
    have hclock : s₂.clock ≤ e₂.time := h₂.clock_le
    have hexp : (a.doneRow row).expiresAt = (a.receipt i row.createdAt).expiresAt := rfl
    have hstay := receipt_stable hrow rfl q (by omega)
    rw [← hop]
    exact reserve_over_receipt h₂ hcall hstay (by omega)

/-! ### A run -/

def emptyLedger : State := ⟨.empty, 0⟩

theorem emptyLedger_settled : emptyLedger.Settled := by
  intro i row h
  exact absurd h (by simp [emptyLedger, State.row])

def runIdent : Ident := ⟨"key-1", "/v1/dispatch", "operator"⟩

def runReserve : ReserveArgs where
  payloadHash := "abc"
  nowIso := 0
  clock := 0
  takeoverClock := 0
  operationId := "op-1"
  newOperationId := "op-2"

def runRetry : ReserveArgs where
  payloadHash := ""
  nowIso := 2
  clock := 2
  takeoverClock := 2
  operationId := "op-3"
  newOperationId := "op-4"

def runComplete : CompleteArgs where
  statusCode := 200
  responseHeaders := [("Content-Length", "2"), ("etag", "x")]
  responseBody := "ok"
  clock := 1
  operationId := "op-1"

def reservedLedger : State := emptyLedger.after (.reserve runIdent runReserve) 0

def completedLedger : State := reservedLedger.after (.complete runIdent runComplete) 1

theorem reservedLedger_path :
    Path Step emptyLedger [emptyLedger.event (.reserve runIdent runReserve) 0] reservedLedger :=
  .single (step_after (by decide) (by decide))

/-- A retry of the completed request is answered with its receipt. -/
theorem executes_at_most_once_retry :
    ∃ createdAt, (completedLedger.event (.reserve runIdent runRetry) 2).reply =
      .reservation (.ok
        { state := .replay, operationId := "op-1",
          record := some (runComplete.receipt runIdent createdAt) }) := by
  obtain ⟨row, -, h⟩ := (executes_at_most_once emptyLedger_settled reservedLedger_path
    runIdent).2.2 _ completedLedger runComplete (step_after (by decide) (by decide)) rfl
    (by rfl)
  have hstep : Step completedLedger _ _ :=
    @step_after _ (.reserve runIdent runRetry) 2 (by decide) (by decide)
  have hlt : (2 : Int) < 1 + seconds (defaultTtlHours * 3600) := by decide
  have hreplay := (h [] completedLedger _ _ _ (.nil _) hstep rfl hlt).1 (.inl rfl)
  exact ⟨row.createdAt, hreplay.1⟩

/-- A blank operation id is not answered `not-owner`: the release raises. -/
theorem blank_operation_not_owner : ¬ ∀ (s₀ s t : State) (past : List Event) (i : Ident)
    (e : Event) (op : String), s₀.Settled → Path Step s₀ past s → Step s e t →
      e.Presents i op → latestOperation i past ≠ some op →
        e.reply = .mutation (.ok .notOwner) ∧ t.row i = s.row i := by
  intro h
  have hstep : Step reservedLedger _ _ :=
    @step_after _ (.release runIdent " ") 1 (by decide) trivial
  have := (h _ _ _ _ runIdent _ " " emptyLedger_settled reservedLedger_path hstep (.inl rfl)
    (by decide)).1
  have hreply : (reservedLedger.event (.release runIdent " ") 1).reply =
      .mutation (.error blankError) := rfl
  rw [hreply] at this
  exact absurd (Reply.mutation.inj this) (by simp)

end Idempotency
