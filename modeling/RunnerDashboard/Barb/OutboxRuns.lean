import RunnerDashboard.Barb.Outbox
import RunnerDashboard.Lib.Path

/-!
# Runs of the outbox

Any sequence of the eight operations, each one transaction, from an empty table.
The marks and `release` are applied to entries that `claim_due` handed out and
that were not marked since; this is tracked in `handed`, which a crash does not
clear, so an entry may be handed out again while an old claim on it is still held.
An outbox id is drawn fresh.

## Main results

* `Inv.step` — every step keeps the invariant.
* `outbox_contract` — the four clauses of the contract.
-/

namespace Outbox

open Sql Lts

/-! ### Steps -/

/-- An operation with its arguments. -/
inductive Call
  | enqueue (a : EnqueueArgs) (id : String)
  | claimDue (limit now : Int)
  | markDelivered (id : String) (now : Int)
  | markRetry (id error : String) (now : Int) (jitter : ℕ)
  | markDead (id error : String)
  | release (ids : List String)
  | recoverInFlight
  | pruneDelivered (olderThan : Int)

/-- What an operation returns or raises. -/
inductive Reply
  | enqueued (r : Except OutboxError String)
  | claimed (entries : List (String × Row))
  | count (n : ℕ)
  | none

/-- An operation on the table. -/
def exec (b : Bounds) (t : Store) : Call → Reply × Store
  | .enqueue a id => (.enqueued (enqueue b a id t).1, (enqueue b a id t).2)
  | .claimDue limit now => (.claimed (claimDue t limit now).1, (claimDue t limit now).2)
  | .markDelivered id now => (.none, markDelivered t id now)
  | .markRetry id error now jitter => (.none, markRetry t id error now jitter)
  | .markDead id error => (.none, markDead t id error)
  | .release ids => (.none, release t ids)
  | .recoverInFlight => (.count (recoverInFlight t).1, (recoverInFlight t).2)
  | .pruneDelivered olderThan => (.count (pruneDelivered t olderThan).1,
      (pruneDelivered t olderThan).2)

/-- The ids a mark or a release names. -/
def Call.marks : Call → List String
  | .markDelivered id _ => [id]
  | .markRetry id _ _ _ => [id]
  | .markDead id _ => [id]
  | .release ids => ids
  | _ => []

/-- The id an `enqueue` draws. -/
def Call.draws : Call → List String
  | .enqueue _ id => [id]
  | _ => []

def Reply.hands : Reply → List String
  | .claimed entries => entries.map Prod.fst
  | _ => []

/-- An operation and its answer. -/
structure Event where
  call : Call
  reply : Reply

/-- The table, the ids handed out and not marked since, and the ids drawn so far. -/
structure State where
  table : Store
  handed : List String
  issued : List String

def State.row (s : State) (id : String) : Option Row := s.table.get? id

/-- One operation. -/
structure Step (b : Bounds) (s : State) (e : Event) (t : State) : Prop where
  marks_handed : ∀ id ∈ e.call.marks, id ∈ s.handed
  draws_fresh : ∀ id ∈ e.call.draws, id ∉ s.issued
  exec_eq : exec b s.table e.call = (e.reply, t.table)
  handed_eq : t.handed = s.handed.filter (· ∉ e.call.marks) ++ e.reply.hands
  issued_eq : t.issued = e.call.draws ++ s.issued

theorem Step.reply_eq {b : Bounds} {s t : State} {e : Event} (h : Step b s e t) :
    e.reply = (exec b s.table e.call).1 := by rw [h.exec_eq]

theorem Step.table_eq {b : Bounds} {s t : State} {e : Event} (h : Step b s e t) :
    t.table = (exec b s.table e.call).2 := by rw [h.exec_eq]

/-- The event is an `enqueue` that returned the id. -/
def Event.Accepts (e : Event) (a : EnqueueArgs) (id : String) : Prop :=
  (∃ fresh, e.call = .enqueue a fresh) ∧ e.reply = .enqueued (.ok id)

def emptyOutbox : State := ⟨.empty, [], []⟩

/-! ### What a step can do to one row -/

/-- The row of `id` before and after a step. -/
inductive RowChange (s : State) (e : Event) (id : String) : Option Row → Option Row → Prop
  | same (r : Option Row) : RowChange s e id r r
  /-- A new entry. -/
  | inserted (a : EnqueueArgs) (hc : e.call = .enqueue a id) (hr : e.reply = .enqueued (.ok id))
      (hv : findVersion s.table a.key a.version = none) : RowChange s e id none (some a.row)
  /-- Replaced by an accepted higher version. -/
  | coalesced (r : Row) (a : EnqueueArgs) (id' : String) (ha : e.Accepts a id')
      (hs : superseded a.key a.version id r = true) : RowChange s e id (some r) none
  /-- Handed out. -/
  | claimed (r : Row) (limit now : Int) (hc : e.call = .claimDue limit now)
      (hm : (id, r) ∈ claimed s.table limit now) :
      RowChange s e id (some r) (some { r with status := .delivering })
  | marked (r r' : Row) (hm : id ∈ e.call.marks) (he : r'.entry = r.entry)
      (hs : r'.status ≠ .delivering)
      (hd : r'.status = .delivered → ∃ now, e.call = .markDelivered id now) :
      RowChange s e id (some r) (some r')
  /-- Back from a crash. -/
  | recovered (r : Row) (hs : r.status = .delivering) :
      RowChange s e id (some r) (some { r with status := .pending })
  /-- Pruned. -/
  | pruned (r : Row) (hs : r.status = .delivered) : RowChange s e id (some r) none

private theorem rowChange_setStatus {s : State} {e : Event} {id : String} {ids : List String}
    {f : Row → Row} (hids : ∀ i ∈ ids, i ∈ e.call.marks) (he : ∀ r, (f r).entry = r.entry)
    (hs : ∀ r, (f r).status ≠ .delivering)
    (hd : ∀ r, id ∈ ids → (f r).status = .delivered → ∃ now, e.call = .markDelivered id now) :
    RowChange s e id (s.table.get? id) ((setStatus s.table ids f).get? id) := by
  rw [get?_setStatus]
  split
  · next hid =>
    cases h : s.table.get? id with
    | none => exact .same none
    | some r => exact .marked r (f r) (hids id hid) (he r) (hs r) (hd r hid)
  · exact .same _

private theorem rowChange_enqueue {b : Bounds} {s : State} {e : Event} {id fresh : String}
    {a : EnqueueArgs} (hc : e.call = .enqueue a fresh)
    (hr : e.reply = .enqueued (enqueue b a fresh s.table).1)
    (hnew : s.table.get? fresh = none) :
    RowChange s e id (s.table.get? id) ((enqueue b a fresh s.table).2.get? id) := by
  cases hres : (enqueue b a fresh s.table).1 with
  | error x =>
    rw [enqueue_error hres]
    exact .same _
  | ok id' =>
    rw [hres] at hr
    rcases enqueue_ok_cases hres with ⟨row, -, -, ht⟩ | ⟨hid', hv, -, -, ht⟩
    · rw [ht]
      exact .same _
    · rw [hid'] at hr
      have hnone : (coalesce s.table a.key a.version).get? fresh = none := by
        rcases get?_coalesce s.table a.key a.version fresh with h | ⟨h, -⟩
        · rw [h, hnew]
        · exact h
      rw [ht, Table.get?_insertNew, hnone]
      by_cases hid : id = fresh
      · subst hid
        rw [if_pos rfl, hnew]
        exact .inserted a hc hr hv
      · rw [if_neg hid]
        rcases get?_coalesce s.table a.key a.version id with h | ⟨h, r, hrow, hsup⟩
        · rw [h]
          exact .same _
        · rw [h, hrow]
          exact .coalesced r a fresh ⟨⟨fresh, hc⟩, hr⟩ hsup

private theorem rowChange_claimDue {s : State} {e : Event} {id : String} {limit now : Int}
    (hc : e.call = .claimDue limit now) :
    RowChange s e id (s.table.get? id) ((claimDue s.table limit now).2.get? id) := by
  rw [claimDue, get?_setStatus]
  split
  · next hid =>
    obtain ⟨⟨id', r⟩, hmem, rfl⟩ := List.mem_map.mp hid
    rw [(of_mem_claimed hmem).1]
    exact .claimed r limit now hc hmem
  · exact .same _

private theorem rowChange_recoverInFlight (s : State) (e : Event) (id : String) :
    RowChange s e id (s.table.get? id) ((recoverInFlight s.table).2.get? id) := by
  rw [recoverInFlight, Table.get?_update]
  cases h : s.table.get? id with
  | none => exact .same none
  | some r =>
    by_cases hs : r.status = .delivering
    · rw [Option.map_some, if_pos (by simpa using hs)]
      exact .recovered r hs
    · rw [Option.map_some, if_neg (by simpa using hs)]
      exact .same _

private theorem rowChange_pruneDelivered (s : State) (e : Event) (id : String)
    (olderThan : Int) :
    RowChange s e id (s.table.get? id) ((pruneDelivered s.table olderThan).2.get? id) := by
  rw [pruneDelivered, Table.get?_delete]
  cases h : s.table.get? id with
  | none => exact .same none
  | some r =>
    cases hp : prunable olderThan id r with
    | false =>
      rw [Option.filter_some, if_pos (by simp [hp])]
      exact .same _
    | true =>
      rw [Option.filter_some, if_neg (by simp [hp])]
      simp only [prunable, decide_eq_true_eq] at hp
      exact .pruned r hp.1

/-- **Every step is a row change of every id.** -/
theorem Step.rowChange {b : Bounds} {s t : State} {e : Event} (h : Step b s e t)
    (hissued : ∀ id r, s.row id = some r → id ∈ s.issued) (id : String) :
    RowChange s e id (s.row id) (t.row id) := by
  have hr := h.reply_eq
  have ht := h.table_eq
  unfold State.row
  rw [ht]
  cases hc : e.call with
  | enqueue a fresh =>
    rw [hc] at hr
    simp only [exec] at hr ⊢
    refine rowChange_enqueue hc hr ?_
    have hfresh := h.draws_fresh fresh (by rw [hc]; simp [Call.draws])
    cases hrow : s.table.get? fresh with
    | none => rfl
    | some r => exact absurd (hissued fresh r hrow) hfresh
  | claimDue limit now => exact rowChange_claimDue hc
  | markDelivered id' now =>
    refine rowChange_setStatus (fun i hi => ?_) (fun _ => rfl) (fun _ => by simp) ?_
    · rw [hc]
      exact hi
    · intro r hid _
      obtain rfl : id = id' := by simpa using hid
      exact ⟨now, hc⟩
  | markRetry id' error now jitter =>
    refine rowChange_setStatus (fun i hi => ?_) (fun _ => rfl) (fun _ => by simp)
      (fun r _ hd => absurd hd (by simp))
    rw [hc]
    exact hi
  | markDead id' error =>
    refine rowChange_setStatus (fun i hi => ?_) (fun _ => rfl) (fun _ => by simp)
      (fun r _ hd => absurd hd (by simp))
    rw [hc]
    exact hi
  | release ids =>
    refine rowChange_setStatus (fun i hi => ?_) (fun _ => rfl) (fun _ => by simp)
      (fun r _ hd => absurd hd (by simp))
    rw [hc]
    exact hi
  | recoverInFlight => exact rowChange_recoverInFlight s e id
  | pruneDelivered olderThan => exact rowChange_pruneDelivered s e id olderThan

/-! ### The invariant -/

/-- The rows of the table among themselves, and the ids the environment holds. -/
structure Inv (b : Bounds) (s : State) : Prop where
  depth_le : depth s.table ≤ b.maxEntries
  bytes_le : bytes s.table ≤ b.maxBytes
  keyed : ∀ id id' r r', s.row id = some r → s.row id' = some r' →
    r.entry.key = r'.entry.key → r.entry.version = r'.entry.version → id = id'
  oneDelivering : ∀ id id' r r', s.row id = some r → s.row id' = some r' →
    r.status = .delivering → r'.status = .delivering → r.entry.key = r'.entry.key → id = id'
  undelivered_handed : ∀ id ∈ s.handed, ∀ r, s.row id = some r → r.status ≠ .delivered
  issued_row : ∀ id r, s.row id = some r → id ∈ s.issued

theorem emptyOutbox_inv (b : Bounds) : Inv b emptyOutbox where
  depth_le := Nat.zero_le _
  bytes_le := Nat.zero_le _
  keyed := by intro id id' r r' h; exact absurd h (by simp [emptyOutbox, State.row])
  oneDelivering := by intro id id' r r' h; exact absurd h (by simp [emptyOutbox, State.row])
  undelivered_handed := by intro id h; exact absurd h (by simp [emptyOutbox])
  issued_row := by intro id r h; exact absurd h (by simp [emptyOutbox, State.row])

/-! ### The bounds -/

/-- A weight of the undelivered rows, such as their number or their bytes. -/
private theorem sum_setStatus_le {b : Bounds} {s : State} {ids : List String} {f : Row → Row}
    {w : Row → ℕ} (hi : Inv b s) (hids : ∀ i ∈ ids, i ∈ s.handed) (hw : ∀ r, w (f r) = w r) :
    (setStatus s.table ids f).sum undelivered w ≤ s.table.sum undelivered w := by
  apply Table.sum_update_le
  intro id r hr hid _
  have hmem : id ∈ ids := by simpa using hid
  have hnot := hi.undelivered_handed id (hids id hmem) r hr
  exact ⟨by simp [undelivered, hnot], (hw r).le⟩

/-- A step other than an accepted `enqueue` raises no weight of the undelivered rows. -/
theorem Step.sum_le {b : Bounds} {s t : State} {e : Event} (h : Step b s e t) (hi : Inv b s)
    {w : Row → ℕ} (hw : ∀ r r' : Row, r'.entry = r.entry → w r' = w r)
    (hc : ∀ a id, e.call ≠ .enqueue a id) :
    t.table.sum undelivered w ≤ s.table.sum undelivered w := by
  have hm := h.marks_handed
  rw [h.table_eq]
  cases hcall : e.call with
  | enqueue a id => exact absurd hcall (hc a id)
  | claimDue limit now =>
    -- a claimed row was pending, so it counted before
    apply Table.sum_update_le
    intro id r hr hid _
    have hmem : id ∈ (claimed s.table limit now).map Prod.fst := by simpa using hid
    obtain ⟨⟨id', o⟩, ho, rfl⟩ := List.mem_map.mp hmem
    obtain ⟨hrow, hp, -, -⟩ := of_mem_claimed ho
    obtain rfl := Option.some.inj (hr.symm.trans hrow)
    exact ⟨by simp [undelivered, hp], (hw r { r with status := .delivering } rfl).le⟩
  | markDelivered id now =>
    rw [hcall] at hm
    exact sum_setStatus_le hi hm fun r => hw r _ rfl
  | markRetry id error now jitter =>
    rw [hcall] at hm
    exact sum_setStatus_le hi hm fun r => hw r _ rfl
  | markDead id error =>
    rw [hcall] at hm
    exact sum_setStatus_le hi hm fun r => hw r _ rfl
  | release ids =>
    rw [hcall] at hm
    exact sum_setStatus_le hi hm fun r => hw r _ rfl
  | recoverInFlight =>
    apply Table.sum_update_le
    intro id r hr hd _
    have hs : r.status = .delivering := by simpa using hd
    exact ⟨by simp [undelivered, hs], (hw r { r with status := .pending } rfl).le⟩
  | pruneDelivered olderThan => exact Table.sum_delete_le _ _ _ _

theorem Inv.get?_coalesce_fresh {b : Bounds} {s : State} {id : String} (hi : Inv b s)
    (hfresh : id ∉ s.issued) (key : Key) (version : Int) :
    (coalesce s.table key version).get? id = none := by
  rcases get?_coalesce s.table key version id with heq | ⟨heq, -⟩
  · rw [heq]
    cases hrow : s.table.get? id with
    | none => rfl
    | some r => exact absurd (hi.issued_row id r hrow) hfresh
  · exact heq

/-- **The bounds are kept.** -/
theorem Step.bounded {b : Bounds} {s t : State} {e : Event} (h : Step b s e t) (hi : Inv b s) :
    depth t.table ≤ b.maxEntries ∧ bytes t.table ≤ b.maxBytes := by
  by_cases hc : ∃ a id, e.call = .enqueue a id
  swap
  · have hc : ∀ a id, e.call ≠ .enqueue a id := fun a id heq => hc ⟨a, id, heq⟩
    have hd := h.sum_le hi (w := fun _ => 1) (fun _ _ _ => rfl) hc
    have hb := h.sum_le hi (w := fun r => r.entry.sizeBytes) (fun _ _ he => by rw [he]) hc
    have hdepth := hi.depth_le
    unfold depth at hdepth ⊢
    rw [Table.count_eq_sum] at hdepth ⊢
    exact ⟨hd.trans hdepth, hb.trans hi.bytes_le⟩
  · obtain ⟨a, id, hc⟩ := hc
    have ht := h.table_eq
    have hfresh := h.draws_fresh id (by rw [hc]; simp [Call.draws])
    rw [hc] at ht
    simp only [exec] at ht
    cases hres : (enqueue b a id s.table).1 with
    | error x =>
      rw [ht, enqueue_error hres]
      exact ⟨hi.depth_le, hi.bytes_le⟩
    | ok id' =>
      rcases enqueue_ok_cases hres with ⟨row, -, -, hsame⟩ | ⟨-, -, hn, hbytes, hins⟩
      · rw [ht, hsame]
        exact ⟨hi.depth_le, hi.bytes_le⟩
      · have hnone := hi.get?_coalesce_fresh hfresh a.key a.version
        have hund : undelivered id a.row = true := rfl
        rw [ht, hins]
        unfold depth bytes at *
        rw [Table.count_eq_sum] at hn ⊢
        rw [Table.sum_insertNew hnone, Table.sum_insertNew hnone, if_pos hund, if_pos hund]
        exact ⟨hn, hbytes⟩

/-! ### Rows after a step -/

theorem RowChange.origin {s : State} {e : Event} {id : String} {r : Option Row} {r' : Row}
    (h : RowChange s e id r (some r')) :
    (∃ r₀, r = some r₀ ∧ r'.entry = r₀.entry) ∨
      (∃ a, e.call = .enqueue a id ∧ r' = a.row ∧ findVersion s.table a.key a.version = none) := by
  cases h with
  | same _ => exact .inl ⟨r', rfl, rfl⟩
  | inserted a hc hr hv => exact .inr ⟨a, hc, rfl, hv⟩
  | claimed r₀ _ _ _ _ => exact .inl ⟨r₀, rfl, rfl⟩
  | marked r₀ _ _ he _ _ => exact .inl ⟨r₀, rfl, he⟩
  | recovered r₀ _ => exact .inl ⟨r₀, rfl, rfl⟩

/-- A row in flight after a step was in flight before, or has just been handed out. -/
theorem RowChange.delivering {s : State} {e : Event} {id : String} {r : Option Row} {r' : Row}
    (h : RowChange s e id r (some r')) (hd : r'.status = .delivering) :
    r = some r' ∨ ∃ r₀ limit now, (id, r₀) ∈ Outbox.claimed s.table limit now ∧
      e.call = .claimDue limit now ∧ r'.entry = r₀.entry := by
  cases h with
  | same _ => exact .inl rfl
  | inserted a _ _ _ => exact absurd hd (by simp [EnqueueArgs.row])
  | claimed r₀ limit now hc hm => exact .inr ⟨r₀, limit, now, hm, hc, rfl⟩
  | marked _ _ _ _ hs _ => exact absurd hd hs
  | recovered _ _ => exact absurd hd (by simp)

theorem RowChange.delivered {s : State} {e : Event} {id : String} {r : Option Row} {r' : Row}
    (h : RowChange s e id r (some r')) (hd : r'.status = .delivered) :
    r = some r' ∨ ∃ r₀ now, r = some r₀ ∧ e.call = .markDelivered id now ∧
      r'.entry = r₀.entry := by
  cases h with
  | same _ => exact .inl rfl
  | inserted a _ _ _ => exact absurd hd (by simp [EnqueueArgs.row])
  | claimed _ _ _ _ _ => exact absurd hd (by simp)
  | marked r₀ _ _ he _ hcall =>
    obtain ⟨now, hc⟩ := hcall hd
    exact .inr ⟨r₀, now, rfl, hc, he⟩
  | recovered _ _ => exact absurd hd (by simp)

theorem Step.entry_eq {b : Bounds} {s t : State} {e : Event} (h : Step b s e t) (hi : Inv b s)
    {id : String} (hid : id ∈ s.issued) {r' : Row} (hr' : t.row id = some r') :
    ∃ r, s.row id = some r ∧ r'.entry = r.entry := by
  have hch := h.rowChange hi.issued_row id
  rw [hr'] at hch
  rcases hch.origin with hold | ⟨a, hc, -, -⟩
  · exact hold
  · exact absurd hid (h.draws_fresh id (by rw [hc]; simp [Call.draws]))

theorem Step.hands_claimed {b : Bounds} {s t : State} {e : Event} (h : Step b s e t)
    {id : String} (hid : id ∈ e.reply.hands) :
    ∃ limit now o, e.call = .claimDue limit now ∧ (id, o) ∈ claimed s.table limit now := by
  rw [h.reply_eq] at hid
  cases hc : e.call with
  | claimDue limit now =>
    rw [hc] at hid
    simp only [exec, Reply.hands, claimDue, List.map_map] at hid
    obtain ⟨⟨id', o⟩, hm, rfl⟩ := List.mem_map.mp hid
    exact ⟨limit, now, o, rfl, hm⟩
  | _ => rw [hc] at hid; exact absurd hid (by simp [exec, Reply.hands])

/-- **Every step keeps the invariant.** -/
theorem Inv.step {b : Bounds} {s t : State} {e : Event} (hi : Inv b s) (h : Step b s e t) :
    Inv b t := by
  have hchange := h.rowChange hi.issued_row
  obtain ⟨hdepth, hbytes⟩ := h.bounded hi
  have horigin : ∀ id r', t.row id = some r' → (∃ r₀, s.row id = some r₀ ∧ r'.entry = r₀.entry) ∨
      (∃ a, e.call = .enqueue a id ∧ r' = a.row ∧
        findVersion s.table a.key a.version = none) := by
    intro id r' hr'
    have := hchange id
    rw [hr'] at this
    exact this.origin
  have hdeliv : ∀ id r', t.row id = some r' → r'.status = .delivering →
      s.row id = some r' ∨ ∃ r₀ limit now, (id, r₀) ∈ claimed s.table limit now ∧
        e.call = .claimDue limit now ∧ r'.entry = r₀.entry := by
    intro id r' hr' hd
    have := hchange id
    rw [hr'] at this
    exact this.delivering hd
  refine ⟨hdepth, hbytes, ?_, ?_, ?_, ?_⟩
  · intro id id' r r' hr hr' hkey hver
    rcases horigin id r hr with ⟨r₀, hr₀, he⟩ | ⟨a, hc, rfl, hv⟩
    · rcases horigin id' r' hr' with ⟨r₀', hr₀', he'⟩ | ⟨a', hc', rfl, hv'⟩
      · rw [he, he'] at hkey hver
        exact hi.keyed id id' r₀ r₀' hr₀ hr₀' hkey hver
      · -- the version of a new row was free
        rw [he] at hkey hver
        exact absurd ⟨hkey, hver⟩ (findVersion_none hv' hr₀)
    · rcases horigin id' r' hr' with ⟨r₀', hr₀', he'⟩ | ⟨a', hc', rfl, hv'⟩
      · rw [he'] at hkey hver
        exact absurd ⟨hkey.symm, hver.symm⟩ (findVersion_none hv hr₀')
      · rw [hc] at hc'
        exact (Call.enqueue.inj hc').2
  · intro id id' r r' hr hr' hd hd' hkey
    rcases hdeliv id r hr hd with hold | ⟨r₀, limit, now, hm, hc, he⟩
    · rcases hdeliv id' r' hr' hd' with hold' | ⟨r₀', limit', now', hm', hc', he'⟩
      · exact hi.oneDelivering id id' r r' hold hold' hd hd' hkey
      · -- nothing of the key of a claimed row was in flight
        obtain ⟨-, -, hno, -⟩ := of_mem_claimed hm'
        rw [he'] at hkey
        exact absurd hd (hno id r hold hkey)
    · rcases hdeliv id' r' hr' hd' with hold' | ⟨r₀', limit', now', hm', hc', he'⟩
      · obtain ⟨-, -, hno, -⟩ := of_mem_claimed hm
        rw [he] at hkey
        exact absurd hd' (hno id' r' hold' hkey.symm)
      · -- two claimed rows of one key are both of its lowest version
        obtain ⟨hrow, hp, -, hlow⟩ := of_mem_claimed hm
        obtain ⟨hrow', hp', -, hlow'⟩ := of_mem_claimed hm'
        rw [he, he'] at hkey
        have h₁ := hlow id' r₀' hrow' hkey.symm hp'
        have h₂ := hlow' id r₀ hrow hkey hp
        exact hi.keyed id id' r₀ r₀' hrow hrow' hkey (le_antisymm h₁ h₂)
  · intro id hid r' hr' hdel
    have hch := hchange id
    rw [hr'] at hch
    rw [h.handed_eq] at hid
    have hsame : s.row id ≠ some r' := by
      intro hrow
      rcases List.mem_append.mp hid with hid | hid
      · exact hi.undelivered_handed id (List.mem_of_mem_filter hid) r' hrow hdel
      · obtain ⟨limit, now, o, -, ho⟩ := h.hands_claimed hid
        obtain ⟨hrow', hp, -, -⟩ := of_mem_claimed ho
        obtain rfl := Option.some.inj (hrow.symm.trans hrow')
        rw [hp] at hdel
        exact absurd hdel (by decide)
    generalize hrow : s.row id = r at hch hsame
    cases hch with
    | same _ => exact hsame rfl
    | inserted a _ _ _ => exact absurd hdel (by simp [EnqueueArgs.row])
    | claimed _ _ _ _ _ => exact absurd hdel (by simp)
    | recovered _ _ => exact absurd hdel (by simp)
    | marked r₀ _ hm _ _ hd =>
      -- a marked id leaves the handed ones, and a mark hands nothing out
      obtain ⟨now, hcall⟩ := hd hdel
      rcases List.mem_append.mp hid with hid | hid
      · have := (List.mem_filter.mp hid).2
        simp [hm] at this
      · obtain ⟨limit, now', o, hcall', -⟩ := h.hands_claimed hid
        rw [hcall] at hcall'
        exact absurd hcall' (by simp)
  · intro id r' hr'
    rw [h.issued_eq]
    rcases horigin id r' hr' with ⟨r₀, hr₀, -⟩ | ⟨a, hc, -, -⟩
    · exact List.mem_append_right _ (hi.issued_row id r₀ hr₀)
    · rw [hc]
      exact List.mem_append_left _ (by simp [Call.draws])

theorem inv_of_path {b : Bounds} {s : State} {past : List Event}
    (p : Path (Step b) emptyOutbox past s) : Inv b s :=
  p.invariant (I := Inv b) (fun _ _ _ hi h => hi.step h) (emptyOutbox_inv b)

/-! ### What becomes of an entry -/

/-- The row of `id` is still there with its entry. -/
def Stands (b : Bounds) (id : String) (entry : Entry) (s : State) : Prop :=
  Inv b s ∧ ∃ r, s.row id = some r ∧ r.entry = entry

/-- The reasons for which a row goes: it was delivered, or a higher version of its key
was accepted and the entry is not terminal. -/
def Leaves (id : String) (entry : Entry) (s : State) (e : Event) : Prop :=
  (∃ r, s.row id = some r ∧ r.status = .delivered) ∨
    (entry.terminal = false ∧ ∃ a id', e.Accepts a id' ∧ a.key = entry.key ∧
      entry.version < a.version)

theorem Stands.step {b : Bounds} {id : String} {entry : Entry} {s t : State} {e : Event}
    (hs : Stands b id entry s) (h : Step b s e t) :
    Stands b id entry t ∨ Leaves id entry s e := by
  obtain ⟨hi, r, hr, rfl⟩ := hs
  have hit := hi.step h
  have hch := h.rowChange hi.issued_row id
  rw [hr] at hch
  generalize ht : t.row id = r' at hch
  cases hch with
  | same _ => exact .inl ⟨hit, r, ht, rfl⟩
  | claimed _ _ _ _ _ => exact .inl ⟨hit, _, ht, rfl⟩
  | marked _ r' _ he _ _ => exact .inl ⟨hit, r', ht, he⟩
  | recovered _ _ => exact .inl ⟨hit, _, ht, rfl⟩
  | pruned _ hd => exact .inr (.inl ⟨r, hr, hd⟩)
  | coalesced _ a id' ha hs =>
    simp only [superseded, decide_eq_true_eq] at hs
    exact .inr (.inr ⟨hs.2.2.1, a, id', ha, hs.1.symm, hs.2.2.2⟩)

/-- **What becomes of an entry**: its row stands, or it was delivered, or it was not
terminal and a strictly higher version of its key was accepted. -/
theorem entry_accounted {b : Bounds} {id : String} {r : Row} {s u : State} {ls : List Event}
    (hi : Inv b s) (hr : s.row id = some r) (p : Path (Step b) s ls u) :
    (∃ r', u.row id = some r' ∧ r'.entry = r.entry) ∨
    (∃ before e after v r', ls = before ++ e :: after ∧ Path (Step b) s before v ∧
      v.row id = some r' ∧ r'.status = .delivered) ∨
    (r.entry.terminal = false ∧ ∃ e ∈ ls, ∃ a id', e.Accepts a id' ∧ a.key = r.entry.key ∧
      r.entry.version < a.version) := by
  have hstart : Stands b id r.entry s := ⟨hi, r, hr, rfl⟩
  rcases p.unless (fun _ _ _ hs h => Stands.step hs h) hstart with
    ⟨-, hend⟩ | ⟨before, e, after, v, v', rfl, q, -, -, -, ⟨r', hr', hd⟩ | ⟨hterm, hex⟩⟩
  · exact .inl hend
  · exact .inr (.inl ⟨before, e, after, v, r', rfl, q, hr', hd⟩)
  · exact .inr (.inr ⟨hterm, e, by simp, hex⟩)

theorem row_of_accepts {b : Bounds} {s t : State} {e : Event} {a : EnqueueArgs} {id : String}
    (h : Step b s e t) (hi : Inv b s) (ha : e.Accepts a id) :
    ∃ r, t.row id = some r ∧ r.entry.key = a.key ∧ r.entry.version = a.version := by
  obtain ⟨⟨fresh, hc⟩, hr⟩ := ha
  have hreply := h.reply_eq
  have ht := h.table_eq
  have hfresh := h.draws_fresh fresh (by rw [hc]; simp [Call.draws])
  rw [hr, hc] at hreply
  rw [hc] at ht
  simp only [exec] at hreply ht
  have hres := (Reply.enqueued.inj hreply).symm
  unfold State.row
  rw [ht]
  rcases enqueue_ok_cases hres with ⟨row, hfind, -, hsame⟩ | ⟨rfl, -, -, -, hins⟩
  · obtain ⟨hrow, hkey, hver⟩ := findVersion_some hfind
    exact ⟨row, by rw [hsame, hrow], hkey, hver⟩
  · have hnone := hi.get?_coalesce_fresh hfresh a.key a.version
    exact ⟨a.row, by rw [hins, Table.get?_insertNew, if_pos rfl, hnone]; rfl, rfl, rfl⟩

/-! ### The contract -/

/-- **The contract of the outbox**, in every state of every run from the empty table:
the bounds; a refused `enqueue` changes nothing; one entry of a key in flight and
heads of line handed out; and no accepted entry lost. -/
theorem outbox_contract {b : Bounds} {s : State} {past : List Event}
    (p : Path (Step b) emptyOutbox past s) :
    (depth s.table ≤ b.maxEntries ∧ bytes s.table ≤ b.maxBytes) ∧
    (∀ e t x, Step b s e t → e.reply = .enqueued (.error x) → t.table = s.table) ∧
    (∀ id id' r r', s.row id = some r → s.row id' = some r' → r.status = .delivering →
      r'.status = .delivering → r.entry.key = r'.entry.key → id = id') ∧
    (∀ e t entries id o, Step b s e t → e.reply = .claimed entries → (id, o) ∈ entries →
      ∀ id' q, s.row id' = some q → q.entry.key = o.entry.key →
        q.entry.version < o.entry.version → q.status ≠ .pending ∧ q.status ≠ .delivering) ∧
    (∀ e t a id, Step b s e t → e.Accepts a id →
      ∃ r, t.row id = some r ∧ r.entry.key = a.key ∧ r.entry.version = a.version ∧
        ∀ ls u, Path (Step b) t ls u →
          (∃ r', u.row id = some r' ∧ r'.entry = r.entry) ∨
          (∃ before e' after v r', ls = before ++ e' :: after ∧ Path (Step b) t before v ∧
            v.row id = some r' ∧ r'.status = .delivered) ∨
          (r.entry.terminal = false ∧ ∃ e' ∈ ls, ∃ a' id', e'.Accepts a' id' ∧
            a'.key = a.key ∧ a.version < a'.version)) := by
  have hi := inv_of_path p
  refine ⟨⟨hi.depth_le, hi.bytes_le⟩, ?_, hi.oneDelivering, ?_, ?_⟩
  · -- a refused update
    intro e t x h hx
    have hreply := h.reply_eq
    have ht := h.table_eq
    cases hc : e.call with
    | enqueue a id =>
      rw [hx, hc] at hreply
      rw [hc] at ht
      simp only [exec] at hreply ht
      rw [ht]
      exact enqueue_error (Reply.enqueued.inj hreply).symm
    | _ => rw [hx, hc] at hreply; exact absurd hreply (by simp [exec])
  · -- what is handed out
    intro e t entries id o h hentries hmem id' q hq hkey hlt
    have hreply := h.reply_eq
    cases hc : e.call with
    | claimDue limit now =>
      rw [hentries, hc] at hreply
      simp only [exec, claimDue] at hreply
      rw [Reply.claimed.inj hreply] at hmem
      obtain ⟨⟨id₀, o₀⟩, hm, heq⟩ := List.mem_map.mp hmem
      obtain ⟨rfl, rfl⟩ := Prod.ext_iff.mp heq
      obtain ⟨-, -, hno, hlow⟩ := of_mem_claimed hm
      refine ⟨?_, hno id' q hq hkey⟩
      intro hp
      exact absurd (hlow id' q hq hkey hp) (not_le.mpr hlt)
    | _ => rw [hentries, hc] at hreply; exact absurd hreply (by simp [exec])
  · -- what is accepted
    intro e t a id h ha
    obtain ⟨r, hr, hkey, hver⟩ := row_of_accepts h hi ha
    refine ⟨r, hr, hkey, hver, ?_⟩
    intro ls u q
    rw [← hkey, ← hver]
    exact entry_accounted (hi.step h) hr q

/-! ### A run -/

def State.after (b : Bounds) (s : State) (c : Call) : State where
  table := (exec b s.table c).2
  handed := s.handed.filter (· ∉ c.marks) ++ (exec b s.table c).1.hands
  issued := c.draws ++ s.issued

theorem step_after {b : Bounds} {s : State} {c : Call} (hm : ∀ id ∈ c.marks, id ∈ s.handed)
    (hd : ∀ id ∈ c.draws, id ∉ s.issued) :
    Step b s ⟨c, (exec b s.table c).1⟩ (s.after b c) := ⟨hm, hd, rfl, rfl, rfl⟩

def smallBounds : Bounds := ⟨1, 64, 64, by decide⟩

def cardOne : EnqueueArgs where
  key := ⟨"run_card", "t-1", "run-1"⟩
  version := 1
  payload := .null
  now := 5

def cardTwo : EnqueueArgs := { cardOne with version := 2, now := 6 }

def contended : State :=
  (emptyOutbox.after smallBounds (.enqueue cardOne "obx_1")).after smallBounds
    (.enqueue cardTwo "obx_2")

/-- Two producers share an outbox of one entry, and the drainer claims it: the second entry takes
the place of the first, whose version is lower. -/
theorem outbox_contract_contended :
    (contended.row "obx_1" = none ∧ contended.row "obx_2" = some cardTwo.row) ∧
      depth (contended.after smallBounds (.claimDue 10 6)).table ≤ 1 := by
  refine ⟨by decide, ?_⟩
  have hone := @step_after smallBounds emptyOutbox (.enqueue cardOne "obx_1") (by decide)
    (by decide)
  have htwo := @step_after smallBounds
    (emptyOutbox.after smallBounds (.enqueue cardOne "obx_1")) (.enqueue cardTwo "obx_2") nofun
    (show ∀ id ∈ ["obx_2"], id ∉ ["obx_1"] by decide)
  have hclaim := @step_after smallBounds contended (.claimDue 10 6) nofun nofun
  exact (outbox_contract (.cons hone (.cons htwo (.single hclaim)))).1.1

end Outbox
