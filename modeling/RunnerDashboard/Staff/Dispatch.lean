import Mathlib.Logic.Function.Basic
import RunnerDashboard.Staff.IdempotencyRuns

/-!
# Dispatching a staff run under an idempotency key

`dispatch_v1` of `routers/staff_v1.py`: a request reserves its key with
`takeover_safe=True`, hands the operation id of the reservation to the dispatcher,
which admits the run named after that id, and then records its receipt.  A request
whose action raises releases the key; one that is killed does nothing more.

The system below runs any number of requests with one key, endpoint, caller and
body against the idempotency store of `Idempotency`, each request stopping
anywhere.  A run row is created once per run id, as `runner.admit` does.

## Main results

* `second_run_admitted` — a killed dispatch, retried after the lease, admits a second run.
-/

namespace Dispatch

open Idempotency Lts

/-! ### The run id -/

/-- `DispatchCommand.run_id`; `fresh` is the hexadecimal part of a new uuid. -/
def runId (operationId fresh : String) : String :=
  if operationId = "" then "run-" ++ fresh
  else if Py.startsWith operationId "run-" then operationId
  else "run-" ++ Py.removePrefix operationId "op-"

/-- What all requests of a run of the system share. -/
structure Request where
  ident : Ident
  payloadHash : String
  /-- `is_fleet_peer(caller)`. -/
  isPeer : Bool
  /-- `body.operation_id`. -/
  bodyOperationId : String

/-- The operation id `run_dispatch` puts into the command. -/
def effectiveOperation (q : Request) (operationId : String) : String :=
  if q.isPeer ∧ q.bodyOperationId ≠ "" then q.bodyOperationId else operationId

def runOf (q : Request) (operationId fresh : String) : String :=
  runId (effectiveOperation q operationId) fresh

/-- `runner.admit`: a run row is created once per run id. -/
def admitRun (runs : List String) (id : String) : List String :=
  if id ∈ runs then runs else runs ++ [id]

/-! ### Answers -/

/-- The detail of a 409. -/
structure Conflict where
  code : String
  message : String
  retryable : Bool
  hint : String
  operationId : Option String := none
  retryAfter : Option String := none
  deriving DecidableEq, Repr

def reservationConflict (state : ReservationState) (operationId : String) : Conflict :=
  match state with
  | .mismatch =>
    { code := "idempotency_key_reused"
      message := "This Idempotency-Key was already used with a different request body."
      retryable := false
      hint := "Use a new Idempotency-Key for a different request." }
  | .inProgress =>
    { code := "idempotency_in_progress"
      message := "A request with this Idempotency-Key is still being processed."
      retryable := true
      hint := "Retry the same request shortly to receive its result."
      retryAfter := some "1" }
  | _ =>
    { code := "idempotency_outcome_unknown"
      message := "An earlier request with this Idempotency-Key (operation " ++ operationId ++
        ") never recorded its result."
      retryable := false
      hint := "Check GET /api/v1/staff/runs before sending a new request with a new key."
      operationId := some operationId }

/-- How a request ended. -/
inductive Outcome
  /-- The receipt of an earlier request, with `Idempotent-Replay: true`. -/
  | replayed (record : IdempotencyRecord)
  | conflict (c : Conflict)
  /-- 503, `idempotency_store_failure`. -/
  | storeFailure
  /-- The action raised. -/
  | raised
  /-- The action's answer, and whether its receipt was recorded. -/
  | answered (recorded : Bool)
  | killed

/-- Where a request stands. -/
inductive Phase
  | idle
  /-- It owns the reservation with this operation id and has admitted no run. -/
  | acting (operationId : String)
  /-- `runner.admit` has returned. -/
  | admitted (operationId : String)
  | over (outcome : Outcome)

/-- The operation id a request works under. -/
def Phase.operation : Phase → Option String
  | .acting op => some op
  | .admitted op => some op
  | _ => none

/-- What a request does with the answer of its `reserve`. -/
def afterReserve : Reply → Phase
  | .reservation (.ok r) =>
    match r.state, r.record with
    | .acquired, _ => .acting r.operationId
    | .replay, some record => .over (.replayed record)
    | state, _ => .over (.conflict (reservationConflict state r.operationId))
  | _ => .over .storeFailure

/-- Whether `store.complete` recorded the answer; otherwise the response says
`Idempotency-Receipt: unrecorded`. -/
def recorded : Reply → Bool
  | .mutation (.ok .ok) => true
  | _ => false

/-! ### The system -/

/-- The ledger, the requests, and the run rows in the order of their admission. -/
structure System where
  ledger : Idempotency.State
  phase : ℕ → Phase
  runs : List String

/-- What a step shows. -/
inductive Label
  /-- Request `r` reserves; `hex` and `newHex` are the fresh parts of its two ids. -/
  | reserve (r : ℕ) (hex newHex : String) (e : Event)
  | admitRun (r : ℕ) (fresh : String)
  | fail (r : ℕ) (e : Event)
  | complete (r : ℕ) (e : Event)
  | kill (r : ℕ)

/-- The arguments of the `reserve` call of `_handle_idempotent_post`. -/
structure IsReserve (q : Request) (hex newHex : String) (a : ReserveArgs) : Prop where
  payloadHash : a.payloadHash = q.payloadHash
  lease : a.lease = seconds defaultLeaseSeconds
  takeoverSafe : a.takeoverSafe = true
  operationId : a.operationId = "op-" ++ hex
  newOperationId : a.newOperationId = "op-" ++ newHex

/-- The steps of the system.  No time passes beyond the expiry of the key's row:
`reserve` never meets an expired one. -/
inductive Step (q : Request) : System → Label → System → Prop
  /-- `store.reserve`. -/
  | reserve {s : System} {r : ℕ} {hex newHex : String} {e : Event} {l : Idempotency.State}
      {a : ReserveArgs} (hr : s.phase r = .idle) (hl : Idempotency.Step s.ledger e l)
      (hc : e.call = .reserve q.ident a) (ha : IsReserve q hex newHex a)
      (hx : ∀ row, s.ledger.row q.ident = some row → e.time < row.expiresAt) :
      Step q s (.reserve r hex newHex e)
        ⟨l, Function.update s.phase r (afterReserve e.reply), s.runs⟩
  /-- `runner.admit` in the action. -/
  | admitRun {s : System} {r : ℕ} {op fresh : String} (hr : s.phase r = .acting op) :
      Step q s (.admitRun r fresh)
        ⟨s.ledger, Function.update s.phase r (.admitted op), admitRun s.runs (runOf q op fresh)⟩
  /-- The action raises, and `store.release` frees the key. -/
  | fail {s : System} {r : ℕ} {op : String} {e : Event} {l : Idempotency.State}
      (hr : (s.phase r).operation = some op) (hl : Idempotency.Step s.ledger e l)
      (hc : e.call = .release q.ident op) :
      Step q s (.fail r e) ⟨l, Function.update s.phase r (.over .raised), s.runs⟩
  /-- The action returns, and `store.complete` records its answer. -/
  | complete {s : System} {r : ℕ} {op : String} {e : Event} {l : Idempotency.State}
      {a : CompleteArgs} (hr : (s.phase r).operation = some op)
      (hl : Idempotency.Step s.ledger e l) (hc : e.call = .complete q.ident a)
      (ha : a.operationId = op) :
      Step q s (.complete r e)
        ⟨l, Function.update s.phase r (.over (.answered (recorded e.reply))), s.runs⟩
  /-- The process dies. -/
  | kill {s : System} {r : ℕ} :
      Step q s (.kill r) ⟨s.ledger, Function.update s.phase r (.over .killed), s.runs⟩

/-- No request has started and no row of the ledger is pending. -/
structure Started (s : System) : Prop where
  settled : s.ledger.Settled
  idle : ∀ r, s.phase r = .idle
  runs : s.runs = []

/-- A fleet peer's body carries its own operation id. -/
def Forwarded (q : Request) : Prop := q.isPeer = true ∧ q.bodyOperationId ≠ ""

/-- The condition on a step: a lapsed reservation is not taken over, and a
reservation not released, once its operation has admitted its run; and a request
admits only while the reservation it acquired is the pending one. -/
def Meets (q : Request) (s : System) : Label → Prop
  | .reserve _ _ _ e => ∀ a row, e.call = .reserve q.ident a →
      s.ledger.row q.ident = some row → row.state = .pending → row.leaseExpiresAt ≤ a.nowIso →
        ∀ fresh, runOf q row.operationId fresh ∉ s.runs
  | .admitRun r _ => ∀ op, s.phase r = .acting op →
      ∃ row, s.ledger.row q.ident = some row ∧ row.state = .pending ∧ row.operationId = op
  | .fail r _ => ∀ op, (s.phase r).operation = some op → ∀ fresh, runOf q op fresh ∉ s.runs
  | _ => True

/-- A step that meets the condition, or any step of a forwarded request. -/
def GuardedStep (q : Request) (s : System) (l : Label) (t : System) : Prop :=
  Step q s l t ∧ (Forwarded q ∨ Meets q s l)

/-! ### Run ids -/

theorem runOf_eq_of_ne {q : Request} {op : String} (h : op ≠ "") (fresh fresh' : String) :
    runOf q op fresh = runOf q op fresh' := by
  have heff : effectiveOperation q op ≠ "" := by
    unfold effectiveOperation
    split
    · next hq => exact hq.2
    · exact h
  rw [runOf, runOf, runId, runId, if_neg heff, if_neg heff]

theorem runOf_of_forwarded {q : Request} (h : Forwarded q) (op fresh : String) :
    runOf q op fresh = runId q.bodyOperationId "" := by
  have heff : effectiveOperation q op = q.bodyOperationId := if_pos h
  rw [runOf, heff, runId, runId, if_neg h.2, if_neg h.2]

theorem mem_admitRun {runs : List String} {id x : String} :
    x ∈ admitRun runs id ↔ x ∈ runs ∨ x = id := by
  unfold admitRun
  split
  · next h =>
    constructor
    · exact .inl
    · rintro (hx | rfl)
      · exact hx
      · exact h
  · simp

theorem nodup_admitRun {runs : List String} (h : runs.Nodup) (id : String) :
    (admitRun runs id).Nodup := by
  unfold admitRun
  split
  · exact h
  · next hid =>
    rw [List.nodup_append]
    refine ⟨h, by simp, ?_⟩
    intro a ha b hb hab
    have : b = id := by simpa using hb
    exact hid (this ▸ hab ▸ ha)

/-- A list without duplicates whose members are equal has at most one. -/
theorem length_le_one {runs : List String} (h : runs.Nodup) (heq : ∀ x ∈ runs, ∀ y ∈ runs, x = y) :
    runs.length ≤ 1 := by
  match runs, h, heq with
  | [], _, _ => exact Nat.zero_le 1
  | [x], _, _ => exact le_rfl
  | x :: y :: l, h, heq =>
    have hxy : x = y := heq x (by simp) y (by simp)
    simp [hxy] at h

/-! ### The owner of the admitted run -/

/-- The row of the key is a receipt, or pending under the operation whose run is `x`. -/
def Owns (q : Request) (x : String) (l : Idempotency.State) : Prop :=
  ∃ row, l.row q.ident = some row ∧
    (row.state = .done ∨ ∀ fresh, runOf q row.operationId fresh = x)

theorem Owns.rowChange {q : Request} {x : String} {l l' : Idempotency.State} {e : Event}
    (ho : Owns q x l) (hl : Idempotency.Step l e l') :
    ∃ row, (row.state = .done ∨ ∀ fresh, runOf q row.operationId fresh = x) ∧
      l.row q.ident = some row ∧ Idempotency.RowChange q.ident e (some row) (l'.row q.ident) := by
  obtain ⟨row, hrow, hown⟩ := ho
  have hchange := hl.rowChange q.ident
  rw [hrow] at hchange
  exact ⟨row, hown, hrow, hchange⟩

theorem Owns.reserve {q : Request} {x : String} {l l' : Idempotency.State} {e : Event}
    (ho : Owns q x l) (hl : Idempotency.Step l e l')
    (hx : ∀ row, l.row q.ident = some row → e.time < row.expiresAt)
    (hm : ∀ a row, e.call = .reserve q.ident a → l.row q.ident = some row →
      row.state = .pending → row.leaseExpiresAt ≤ a.nowIso →
        ∀ fresh, runOf q row.operationId fresh ≠ x)
    {a : ReserveArgs} (hc : e.call = .reserve q.ident a) : Owns q x l' := by
  obtain ⟨row, hown, hrow, hchange⟩ := ho.rowChange hl
  have hlt := hx row hrow
  generalize ht : l'.row q.ident = r at hchange
  cases hchange with
  | same _ _ => exact ⟨row, ht, hown⟩
  | expired _ _ hc' _ => rw [hc] at hc'; exact absurd hc' (by simp)
  | granted _ _ _ _ hexp =>
    have := hexp row rfl
    omega
  | takeover _ b hc' _ _ hp hlapsed _ =>
    -- the lapsed reservation admitted no run, so it does not own `x`
    rcases hown with hd | hop
    · rw [hd] at hp; exact absurd hp (by decide)
    · exact absurd (hop "") (hm b row hc' hrow hp hlapsed "")
  | completed _ _ hc' _ _ => rw [hc] at hc'; exact absurd hc' (by simp)
  | released _ _ hc' _ _ _ => rw [hc] at hc'; exact absurd hc' (by simp)

theorem Owns.release {q : Request} {x op : String} {l l' : Idempotency.State} {e : Event}
    (ho : Owns q x l) (hl : Idempotency.Step l e l') (hc : e.call = .release q.ident op)
    (hm : ∀ fresh, runOf q op fresh ≠ x) : Owns q x l' := by
  obtain ⟨row, hown, -, hchange⟩ := ho.rowChange hl
  generalize ht : l'.row q.ident = r at hchange
  cases hchange with
  | same _ _ => exact ⟨row, ht, hown⟩
  | expired _ _ hc' _ => rw [hc] at hc'; exact absurd hc' (by simp)
  | granted _ _ hc' _ _ => rw [hc] at hc'; exact absurd hc' (by simp)
  | takeover _ _ hc' _ _ _ _ _ => rw [hc] at hc'; exact absurd hc' (by simp)
  | completed _ _ hc' _ _ => rw [hc] at hc'; exact absurd hc' (by simp)
  | released _ op' hc' _ hp hop =>
    rw [hc] at hc'
    obtain ⟨-, rfl⟩ := Call.release.inj hc'
    rcases hown with hd | hown
    · rw [hd] at hp; exact absurd hp (by decide)
    · rw [hop] at hown
      exact absurd (hown "") (hm "")

theorem Owns.complete {q : Request} {x : String} {l l' : Idempotency.State} {e : Event}
    {a : CompleteArgs} (ho : Owns q x l) (hl : Idempotency.Step l e l')
    (hc : e.call = .complete q.ident a) : Owns q x l' := by
  obtain ⟨row, hown, -, hchange⟩ := ho.rowChange hl
  generalize ht : l'.row q.ident = r at hchange
  cases hchange with
  | same _ _ => exact ⟨row, ht, hown⟩
  | expired _ _ hc' _ => rw [hc] at hc'; exact absurd hc' (by simp)
  | granted _ _ hc' _ _ => rw [hc] at hc'; exact absurd hc' (by simp)
  | takeover _ _ hc' _ _ _ _ _ => rw [hc] at hc'; exact absurd hc' (by simp)
  | completed _ b _ _ _ => exact ⟨_, ht, .inl rfl⟩
  | released _ _ hc' _ _ _ => rw [hc] at hc'; exact absurd hc' (by simp)

/-! ### Runs of the system -/

/-- What every guarded run keeps: operation ids in use are not blank, and the run
that was admitted, if any, is owned by the row of the key. -/
structure Inv (q : Request) (s : System) : Prop where
  operation_ne : ∀ r op, (s.phase r).operation = some op → op ≠ ""
  runs : s.runs = [] ∨ ∃ x, s.runs = [x] ∧ Owns q x s.ledger

theorem Started.inv {q : Request} {s : System} (h : Started s) : Inv q s where
  operation_ne := by
    intro r op hop
    rw [h.idle r] at hop
    exact absurd hop (by simp [Phase.operation])
  runs := .inl h.runs

theorem operation_afterReserve {q : Request} {e : Event} {a : ReserveArgs} {op : String}
    (hc : e.call = .reserve q.ident a) (h : (afterReserve e.reply).operation = some op) :
    e.acquired q.ident = some op := by
  unfold Event.acquired
  rw [hc]
  unfold afterReserve at h
  split at h
  · next res hres =>
    rw [hres]
    split at h
    · next hst =>
      simp only [Phase.operation, Option.some.injEq] at h
      simp [hst, h]
    · exact absurd h (by simp [Phase.operation])
    · exact absurd h (by simp [Phase.operation])
  · exact absurd h (by simp [Phase.operation])

/-- An acquired operation id is one of the two drawn for the call. -/
theorem acquired_ne_empty {q : Request} {hex newHex op : String} {a : ReserveArgs} {e : Event}
    {l l' : Idempotency.State} (hl : Idempotency.Step l e l') (hc : e.call = .reserve q.ident a)
    (ha : IsReserve q hex newHex a) (h : e.acquired q.ident = some op) : op ≠ "" := by
  have hne : ∀ hex : String, "op-" ++ hex ≠ "" := by
    intro hex hcon
    have := congrArg String.length hcon
    rw [String.length_append] at this
    exact absurd this (by simp)
  rcases hl.acquired_cases h with ⟨b, hb, rfl, -⟩ | ⟨b, _, hb, rfl, -⟩
  · obtain rfl : a = b := (Call.reserve.inj (hc.symm.trans hb)).2
    rw [ha.operationId]
    exact hne hex
  · obtain rfl : a = b := (Call.reserve.inj (hc.symm.trans hb)).2
    rw [ha.newOperationId]
    exact hne newHex

private theorem operation_update {phase : ℕ → Phase} {r k : ℕ} {p : Phase} {op : String}
    (h : (Function.update phase r p k).operation = some op) :
    (k = r ∧ p.operation = some op) ∨ (phase k).operation = some op := by
  by_cases hk : k = r
  · subst hk
    rw [Function.update_self] at h
    exact .inl ⟨rfl, h⟩
  · rw [Function.update_of_ne hk] at h
    exact .inr h

/-- Every request acts under a drawn operation id, if the one whose phase is set does. -/
private theorem Inv.operation_ne_update {q : Request} {s : System} (hi : Inv q s) {r : ℕ}
    {p : Phase} (hp : ∀ op, p.operation = some op → op ≠ "") (k : ℕ) (op : String)
    (h : (Function.update s.phase r p k).operation = some op) : op ≠ "" := by
  rcases operation_update h with ⟨-, h⟩ | h
  · exact hp op h
  · exact hi.operation_ne k op h

/-- **A step that meets the condition keeps the invariant.** -/
theorem Inv.step {q : Request} {s t : System} {l : Label} (hi : Inv q s) (h : Step q s l t)
    (hm : Meets q s l) : Inv q t := by
  cases h with
  | @reserve r hex newHex e l' a hr hl hc ha hx =>
    constructor
    · exact hi.operation_ne_update fun op hop =>
        acquired_ne_empty hl hc ha (operation_afterReserve hc hop)
    · rcases hi.runs with hnil | ⟨x, hruns, hown⟩
      · exact .inl hnil
      · -- a lapsed reservation that is taken over has admitted no run
        refine .inr ⟨x, hruns, hown.reserve hl hx ?_ hc⟩
        intro b row hb hrow hp hlapsed fresh heq
        have := hm b row hb hrow hp hlapsed fresh
        rw [hruns, heq] at this
        exact this (by simp)
  | @admitRun r op fresh hr =>
    obtain ⟨row, hrow, hp, hop⟩ := hm op hr
    have hne : op ≠ "" := hi.operation_ne r op (by rw [hr]; rfl)
    constructor
    · exact hi.operation_ne_update fun op' hop' => Option.some.inj hop' ▸ hne
    · right
      have hown : Owns q (runOf q op fresh) s.ledger :=
        ⟨row, hrow, .inr fun f => by rw [hop, runOf_eq_of_ne hne f fresh]⟩
      rcases hi.runs with hnil | ⟨x, hruns, row', hrow', hstate⟩
      · exact ⟨_, by simp [admitRun, hnil], hown⟩
      · -- the pending row of this request is the row that owns `x`
        rw [hrow] at hrow'
        cases hrow'
        have hx : runOf q op fresh = x := by
          rcases hstate with hd | hx
          · rw [hd] at hp; exact absurd hp (by decide)
          · rw [← hop]; exact hx fresh
        exact ⟨x, by simp [admitRun, hruns, hx], hx ▸ hown⟩
  | @fail r op e l' hr hl hc =>
    constructor
    · exact hi.operation_ne_update fun op' hop' => by cases hop'
    · rcases hi.runs with hnil | ⟨x, hruns, hown⟩
      · exact .inl hnil
      · refine .inr ⟨x, hruns, hown.release hl hc ?_⟩
        intro fresh heq
        have := hm op hr fresh
        rw [hruns, heq] at this
        exact this (by simp)
  | @complete r op e l' a hr hl hc ha =>
    constructor
    · exact hi.operation_ne_update fun op' hop' => by cases hop'
    · rcases hi.runs with hnil | ⟨x, hruns, hown⟩
      · exact .inl hnil
      · exact .inr ⟨x, hruns, hown.complete hl hc⟩
  | @kill r =>
    constructor
    · exact hi.operation_ne_update fun op' hop' => by cases hop'
    · exact hi.runs

/-- The runs of forwarded requests are all the one the peer named. -/
structure ForwardedInv (q : Request) (s : System) : Prop where
  nodup : s.runs.Nodup
  named : ∀ x ∈ s.runs, x = runId q.bodyOperationId ""

theorem ForwardedInv.step {q : Request} {s t : System} {l : Label} (hq : Forwarded q)
    (hi : ForwardedInv q s) (h : Step q s l t) : ForwardedInv q t := by
  cases h with
  | admitRun hr =>
    refine ⟨nodup_admitRun hi.nodup _, ?_⟩
    intro x hx
    rcases mem_admitRun.mp hx with hx | rfl
    · exact hi.named x hx
    · exact runOf_of_forwarded hq _ _
  | reserve => exact ⟨hi.nodup, hi.named⟩
  | fail => exact ⟨hi.nodup, hi.named⟩
  | complete => exact ⟨hi.nodup, hi.named⟩
  | kill => exact ⟨hi.nodup, hi.named⟩

/-- **At most one run is admitted** in every run of the system whose steps all meet
the condition. -/
theorem admitted_at_most_one {q : Request} {s₀ s : System} {ls : List Label}
    (h₀ : Started s₀) (p : Path (GuardedStep q) s₀ ls s) : s.runs.length ≤ 1 := by
  by_cases hq : Forwarded q
  · have hi : ForwardedInv q s := by
      refine p.invariant (I := ForwardedInv q) (fun s l t hi h => hi.step hq h.1) ?_
      constructor
      · rw [h₀.runs]; exact List.nodup_nil
      · rw [h₀.runs]; simp
    refine length_le_one hi.nodup ?_
    intro x hx y hy
    rw [hi.named x hx, hi.named y hy]
  · have hi : Inv q s := by
      refine p.invariant (I := Inv q) ?_ h₀.inv
      intro s l t hi h
      rcases h.2 with hf | hm
      · exact absurd hf hq
      · exact hi.step h.1 hm
    rcases hi.runs with hnil | ⟨x, hruns, -⟩
    · simp [hnil]
    · simp [hruns]

/-! ### Two requests -/

def consoleRequest : Request := ⟨runIdent, "abc", false, ""⟩

/-- The `reserve` call of a request at an instant. -/
def reserveAt (hex newHex : String) (now : Int) : ReserveArgs where
  payloadHash := "abc"
  takeoverSafe := true
  nowIso := now
  clock := now
  takeoverClock := now
  operationId := "op-" ++ hex
  newOperationId := "op-" ++ newHex

theorem isReserve_reserveAt (hex newHex : String) (now : Int) :
    IsReserve consoleRequest hex newHex (reserveAt hex newHex now) := ⟨rfl, rfl, rfl, rfl, rfl⟩

def noRequests : System := ⟨emptyLedger, fun _ => .idle, []⟩

theorem noRequests_started : Started noRequests := ⟨emptyLedger_settled, fun _ => rfl, rfl⟩

def firstReserve : Call := .reserve runIdent (reserveAt "a" "b" 0)

def firstLedger : Idempotency.State := emptyLedger.after firstReserve 0

/-- Request 0 holds the reservation `op-a`. -/
def reservedSystem : System :=
  ⟨firstLedger, Function.update noRequests.phase 0 (.acting "op-a"), []⟩

def admittedSystem : System :=
  ⟨firstLedger, Function.update reservedSystem.phase 0 (.admitted "op-a"), ["run-a"]⟩

theorem step_reservedSystem : Step consoleRequest noRequests
    (.reserve 0 "a" "b" (emptyLedger.event firstReserve 0)) reservedSystem := by
  refine .reserve rfl (step_after (by decide) (by decide)) rfl (isReserve_reserveAt "a" "b" 0) ?_
  intro row hrow
  exact absurd hrow (by simp [noRequests, emptyLedger, State.row, consoleRequest])

theorem step_admittedSystem :
    Step consoleRequest reservedSystem (.admitRun 0 "c") admittedSystem :=
  @Step.admitRun _ _ 0 "op-a" "c" rfl

/-- A dispatch that was not disturbed admitted one run. -/
theorem admitted_at_most_one_undisturbed : admittedSystem.runs.length ≤ 1 := by
  refine admitted_at_most_one noRequests_started
    (.cons ⟨step_reservedSystem, .inr ?_⟩ (.single ⟨step_admittedSystem, .inr ?_⟩))
  · intro a row _ hrow
    exact absurd hrow (by simp [noRequests, emptyLedger, State.row, consoleRequest])
  · intro op hop
    cases hop
    exact ⟨(reserveAt "a" "b" 0).pendingRow, rfl, rfl, rfl⟩

/-- The retry reserves when the lease of the first request has lapsed. -/
def retryReserve : Call := .reserve runIdent (reserveAt "c" "d" (seconds 600))

def killedSystem : System :=
  ⟨firstLedger, Function.update admittedSystem.phase 0 (.over .killed), ["run-a"]⟩

def takenOverSystem : System :=
  ⟨firstLedger.after retryReserve (seconds 600),
    Function.update killedSystem.phase 1 (.acting "op-d"), ["run-a"]⟩

theorem step_takenOverSystem : Step consoleRequest killedSystem
    (.reserve 1 "c" "d" (firstLedger.event retryReserve (seconds 600))) takenOverSystem := by
  refine .reserve rfl (step_after (by decide) (by decide)) rfl
    (isReserve_reserveAt "c" "d" (seconds 600)) ?_
  intro row hrow
  have hpending : firstLedger.row runIdent = some (reserveAt "a" "b" 0).pendingRow := rfl
  obtain rfl := Option.some.inj (hpending.symm.trans hrow)
  decide

/-- A dispatch is killed after its run was admitted; its retry takes the lapsed
reservation over, with a fresh operation id, and admits a second run. -/
theorem second_run_admitted : ¬ ∀ (q : Request) (s₀ s : System) (ls : List Label),
    Started s₀ → Path (Step q) s₀ ls s → ∀ x ∈ s.runs, ∀ y ∈ s.runs, x = y := by
  intro h
  have hpath : Path (Step consoleRequest) noRequests _
      ⟨takenOverSystem.ledger, Function.update takenOverSystem.phase 1 (.admitted "op-d"),
        ["run-a", "run-d"]⟩ :=
    .cons step_reservedSystem (.cons step_admittedSystem (.cons (.kill (r := 0))
      (.cons step_takenOverSystem (.single (@Step.admitRun _ _ 1 "op-d" "e" rfl)))))
  have := h _ _ _ _ noRequests_started hpath "run-a" (by simp) "run-d" (by simp)
  exact absurd this (by decide)

end Dispatch
