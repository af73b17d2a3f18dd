import RunnerDashboard.RunnerLease.Sqlite

/-!
# The lease migration harness

`runner_lease_migration.py`: two lease stores, the YAML file and the SQLite table, of which one
is the authority.  A drain copies the file into the table, a cutover makes the table the
authority, and a rollback the file.

Lease operations go to the authority of the moment: its own acquisitions and releases, or the
two calls `read_all` and `write_all`, between which anything may happen.  Drains read and write
in two calls too.

## Main results

* `Backends.acquire_spec`, `Backends.release_spec`, `put_grants` — each operation is of that form.
-/

namespace RunnerLease

namespace Migration

open Sql

/-! ### The stores -/

inductive Side
  | primary
  | secondary
  deriving DecidableEq, Repr

/-- The YAML file and the SQLite table. -/
structure Backends where
  file : List LeaseRecord
  rows : Sqlite.Rows

def Backends.records (b : Backends) : Side → List LeaseRecord
  | .primary => b.file
  | .secondary => Sqlite.records b.rows

/-- `prune_expired`. -/
def Backends.prune (b : Backends) (side : Side) (now : Int) : Backends :=
  match side with
  | .primary => { b with file := pruneExpired now b.file }
  | .secondary => { b with rows := Sqlite.deleteExpired now b.rows }

/-- `read_all`; that of the table is a query, and prunes in a call of its own before. -/
def Backends.readAll (b : Backends) (side : Side) (now : Int) : List LeaseRecord × Backends :=
  match side with
  | .primary => (pruneExpired now b.file, b.prune .primary now)
  | .secondary => (Sqlite.records b.rows, b)

/-- `write_all`; the table takes no two records of one runner. -/
def Backends.writeAll (b : Backends) (side : Side) (records : List LeaseRecord) :
    Option Backends :=
  match side with
  | .primary => some { b with file := records }
  | .secondary =>
    match Sqlite.writeAll records b.rows with
    | (.ok _, rows) => some { b with rows }
    | (.error _, _) => none

/-- The store's own acquisition: the lease, unless it is refused.  The file is swept at `now`
and reads the time again. -/
def Backends.acquire (b : Backends) (side : Side) (a : AcquireArgs) (now later : Int) :
    Option (LeaseRecord × Backends) :=
  match side with
  | .primary =>
    match acquireMutate a later (pruneExpired now b.file) with
    | .ok (r, new) => some (r, { b with file := new })
    | .error _ => none
  | .secondary =>
    match Sqlite.acquire a now b.rows with
    | (.ok r, rows) => some (r, { b with rows })
    | (.error _, _) => none

/-- The store's own release, and which leases it ends; only the table knows of tokens. -/
def Backends.release (b : Backends) (side : Side) (runnerId : String) (principalId : Option String)
    (fencingToken : Option ℕ) (now : Int) : (LeaseRecord → Bool) × Backends :=
  match side with
  | .primary =>
    (releases runnerId principalId,
      { b with file := releaseMutate runnerId principalId (pruneExpired now b.file) })
  | .secondary =>
    match Sqlite.release runnerId principalId fencingToken b.rows with
    | (.ok true, rows) =>
      (fun r => r.runnerId = runnerId ∧ principalId.all (· = r.principalId), { b with rows })
    | (_, rows) => (fun _ => false, { b with rows })

/-- The list with a lease granted or renewed in it; none if the runner is another
principal's. -/
def put (r : LeaseRecord) (records : List LeaseRecord) : Option (List LeaseRecord) :=
  if records.any fun x => x.runnerId = r.runnerId ∧ x.principalId ≠ r.principalId then none
  else some ((records.filter fun x => x.runnerId ≠ r.runnerId) ++ [r])

/-! ### The harness -/

/-- What a caller has read and not written back. -/
inductive Pending
  /-- A lease operation on a store. -/
  | client (side : Side) (records : List LeaseRecord)
  | drain (records : List LeaseRecord)

/-- The harness, its callers, and the leases the authority granted that are neither renewed
nor released. -/
structure World where
  stores : Backends
  authority : Side
  nextToken : ℕ
  lastDrainToken : Option ℕ
  pending : ℕ → Option Pending
  held : List LeaseRecord

def World.start (stores : Backends) : World where
  stores := stores
  authority := .primary
  nextToken := 1
  lastDrainToken := none
  pending := fun _ => none
  held := stores.file

/-- The operations. -/
inductive Op
  | acquire (a : AcquireArgs) (later : Int)
  | release (runnerId : String) (principalId : Option String) (fencingToken : Option ℕ)
  | prune
  | read (caller : ℕ)
  /-- `write_all` of what was read with a lease granted or renewed. -/
  | writeGrant (caller : ℕ) (r : LeaseRecord)
  /-- `write_all` of what was read without the leases released. -/
  | writeRelease (caller : ℕ) (runnerId : String) (principalId : Option String)
  | drainRead (caller : ℕ)
  | drainWrite (caller : ℕ)
  | cutover (fencingToken : ℕ)
  | rollback

/-- An operation and its time. -/
structure Event where
  now : Int
  op : Op

/-- The leases once a lease is granted; the holder's earlier one is renewed. -/
def hold (r : LeaseRecord) (held : List LeaseRecord) : List LeaseRecord :=
  (held.filter fun l => !(l.runnerId = r.runnerId ∧ l.principalId = r.principalId)) ++ [r]

def World.done (s : World) (caller : ℕ) : World :=
  { s with pending := Function.update s.pending caller none }

def World.expire (s : World) (now : Int) : World :=
  { s with held := s.held.filter fun l => l.unexpired now }

/-- A `write_all` to a store; `held` is what is held if the store is the authority. -/
def World.write (s : World) (side : Side) (records : List LeaseRecord)
    (held : List LeaseRecord) : Option World :=
  (s.stores.writeAll side records).map fun stores =>
    { s with stores, held := if side = s.authority then held else s.held }

/-- An operation; one that is refused changes nothing. -/
def World.act (s : World) (now : Int) : Op → World
  | .acquire a later =>
    match s.stores.acquire s.authority a now later with
    | some (r, stores) => { s with stores, held := hold r s.held }
    | none => s
  | .release runnerId p token =>
    { s with
      stores := (s.stores.release s.authority runnerId p token now).2
      held := s.held.filter fun l =>
        !(s.stores.release s.authority runnerId p token now).1 l }
  | .prune => { s with stores := s.stores.prune s.authority now }
  | .read caller =>
    { s with
      stores := (s.stores.readAll s.authority now).2
      pending := Function.update s.pending caller
        (some (.client s.authority (s.stores.readAll s.authority now).1)) }
  | .writeGrant caller r =>
    match s.pending caller with
    | some (.client side records) =>
      match put r records with
      | some new => ((s.done caller).write side new (hold r s.held)).getD (s.done caller)
      | none => s.done caller
    | _ => s
  | .writeRelease caller runnerId p =>
    match s.pending caller with
    | some (.client side records) =>
      ((s.done caller).write side (releaseMutate runnerId p records)
        (s.held.filter fun l => !releases runnerId p l)).getD (s.done caller)
    | _ => s
  | .drainRead caller =>
    if s.authority = .primary then
      { s with
        stores := (s.stores.readAll .primary now).2
        pending := Function.update s.pending caller
          (some (.drain (s.stores.readAll .primary now).1)) }
    else s
  | .drainWrite caller =>
    match s.pending caller with
    | some (.drain records) =>
      match (s.done caller).write .secondary records s.held with
      | some t => { t with nextToken := s.nextToken + 1, lastDrainToken := some s.nextToken }
      | none => s.done caller
    | _ => s
  | .cutover token =>
    if s.authority = .primary ∧ s.lastDrainToken = some token then
      { s with authority := .secondary, lastDrainToken := none }
    else s
  | .rollback => { s with authority := .primary, lastDrainToken := none }

/-- An operation at its time. -/
def World.perform (s : World) (ev : Event) : World := (s.expire ev.now).act ev.now ev.op

/-! ### What an operation does to the records -/

/-- A lease was granted: no other principal had the runner, and the other runners keep
theirs. -/
structure Grants (r : LeaseRecord) (now : Int) (before after : List LeaseRecord) : Prop where
  mem : r ∈ after
  free : ∀ x ∈ before, x.unexpired now = true → x.runnerId = r.runnerId →
    x.principalId = r.principalId
  keeps : ∀ x ∈ before, x.unexpired now = true → x.runnerId ≠ r.runnerId → x ∈ after

/-- Leases were dropped: those that a release names, or that expired. -/
def Drops (drops : LeaseRecord → Bool) (now : Int) (before after : List LeaseRecord) : Prop :=
  ∀ x ∈ before, x.unexpired now = true → drops x = false → x ∈ after

def Distinct (records : List LeaseRecord) : Prop := (records.map LeaseRecord.runnerId).Nodup

section Spec

variable {b b' : Backends} {side : Side} {a : AcquireArgs} {now later : Int} {r x : LeaseRecord}
  {records new : List LeaseRecord} {runnerId : String} {p : Option String} {token : Option ℕ}

theorem Distinct.eq (h : Distinct records) (hr : r ∈ records) (hx : x ∈ records)
    (heq : r.runnerId = x.runnerId) : r = x := List.inj_on_of_nodup_map h hr hx heq

theorem Distinct.sublist (h : Distinct records) (hs : new.Sublist records) : Distinct new :=
  List.Nodup.sublist (hs.map _) h

theorem mem_records {rows : Sqlite.Rows} :
    r ∈ Sqlite.records rows ↔ ∃ k row, rows.get? k = some row ∧ row.record k = r := by
  unfold Sqlite.records
  rw [List.mem_map]
  constructor
  · rintro ⟨⟨k, row⟩, hrow, rfl⟩
    exact ⟨k, row, Table.get?_eq_some_iff.mpr hrow, rfl⟩
  · rintro ⟨k, row, hrow, rfl⟩
    exact ⟨(k, row), Table.get?_eq_some_iff.mp hrow, rfl⟩

theorem distinct_records (rows : Sqlite.Rows) : Distinct (Sqlite.records rows) := by
  have hkeys : (Sqlite.records rows).map LeaseRecord.runnerId = rows.rows.map Prod.fst := by
    rw [Sqlite.records, List.map_map]
    rfl
  rw [Distinct, hkeys]
  exact rows.nodupKeys

theorem Backends.distinct (h : Distinct b.file) (side : Side) : Distinct (b.records side) := by
  cases side with
  | primary => exact h
  | secondary => exact distinct_records b.rows

theorem get?_swept {rows : Sqlite.Rows} {k : String} {row : Sqlite.Row}
    (h : rows.get? k = some row) (hlive : (row.record k).unexpired now = true) :
    (Sqlite.deleteExpired now rows).get? k = some row := by
  rw [Sqlite.get?_deleteExpired, h, Option.filter_some, ← Sqlite.Row.unexpired_record row k,
    if_pos hlive]

theorem Backends.prune_spec (b : Backends) (side : Side) (now : Int) :
    Drops (fun _ => false) now (b.records side) ((b.prune side now).records side) := by
  intro x hx hlive _
  cases side with
  | primary => exact List.mem_filter.mpr ⟨hx, hlive⟩
  | secondary =>
    obtain ⟨k, row, hrow, rfl⟩ := mem_records.mp hx
    exact mem_records.mpr ⟨k, row, get?_swept hrow hlive, rfl⟩

/-- A list without two records of a runner is written as it is. -/
theorem insertAll_distinct {rows : Sqlite.Rows} (h : Distinct records)
    (hfree : ∀ r ∈ records, rows.get? r.runnerId = none) :
    ∃ rows', Sqlite.insertAll records rows = .ok rows' := by
  induction records generalizing rows with
  | nil => exact ⟨rows, rfl⟩
  | cons r records ih =>
    obtain ⟨hnot, hrest⟩ := List.nodup_cons.mp h
    rw [Sqlite.insertAll, hfree r (by simp)]
    refine ih hrest fun r' hr' => ?_
    have hne : r'.runnerId ≠ r.runnerId := by
      intro heq
      exact hnot (List.mem_map.mpr ⟨r', hr', heq⟩)
    rw [Table.get?_insertNew, if_neg hne]
    exact hfree r' (List.mem_cons_of_mem _ hr')

/-- **`write_all` writes the list as it is**, if no runner has two records in it. -/
theorem Backends.writeAll_spec (b : Backends) (side : Side) (h : Distinct records) :
    ∃ b', b.writeAll side records = some b' ∧
      (∀ x ∈ records, ∃ x' ∈ b'.records side, x'.runnerId = x.runnerId ∧
        x'.principalId = x.principalId ∧ x'.expiresAt = x.expiresAt) ∧
      (∀ side', side' ≠ side → b'.records side' = b.records side') ∧
      (Distinct b.file → Distinct b'.file) := by
  cases side with
  | primary =>
    refine ⟨_, rfl, fun x hx => ⟨x, hx, rfl, rfl, rfl⟩, fun side' hne => ?_, fun _ => h⟩
    cases side' with
    | primary => exact absurd rfl hne
    | secondary => rfl
  | secondary =>
    obtain ⟨rows, hrows⟩ : ∃ rows, Sqlite.insertAll records .empty = .ok rows :=
      insertAll_distinct h fun _ _ => rfl
    have hwrite : Sqlite.writeAll records b.rows = (.ok (), rows) := by
      unfold Sqlite.writeAll immediateTxn
      rw [hrows]
      rfl
    refine ⟨{ b with rows }, by rw [Backends.writeAll, hwrite], fun x hx => ?_,
      fun side' hne => ?_, fun hfile => hfile⟩
    · have hget := Sqlite.writeAll_ok hwrite x.runnerId
      cases hfound : records.find? fun r => r.runnerId = x.runnerId with
      | none =>
        have := List.find?_eq_none.mp hfound x hx
        simp at this
      | some x' =>
        have hx' : x'.runnerId = x.runnerId := by simpa using List.find?_some hfound
        obtain rfl := h.eq (List.mem_of_find?_eq_some hfound) hx hx'
        rw [hfound] at hget
        exact ⟨_, mem_records.mpr ⟨_, _, hget, rfl⟩, rfl, rfl, rfl⟩
    · cases side' with
      | primary => rfl
      | secondary => exact absurd rfl hne

theorem put_grants (h : put r records = some new) (now : Int) : Grants r now records new := by
  unfold put at h
  split at h
  · cases h
  · next hfree =>
    obtain rfl := Option.some.inj h
    refine ⟨by simp, fun x hx _ hr => ?_, fun x hx _ hr => ?_⟩
    · by_contra hp
      exact hfree (List.any_eq_true.mpr ⟨x, hx, by simpa using ⟨hr, hp⟩⟩)
    · exact List.mem_append_left _ (List.mem_filter.mpr ⟨hx, by simpa using hr⟩)

theorem put_distinct (h : put r records = some new) (hd : Distinct records) : Distinct new := by
  unfold put at h
  split at h
  · cases h
  · obtain rfl := Option.some.inj h
    rw [Distinct, List.map_append, List.nodup_append]
    refine ⟨hd.sublist List.filter_sublist, by simp, ?_⟩
    rintro k hk k' hk' rfl
    obtain ⟨x, hx, rfl⟩ := List.mem_map.mp hk
    have hne : x.runnerId ≠ r.runnerId := by simpa using (List.mem_filter.mp hx).2
    exact hne (List.mem_singleton.mp hk')

private theorem acquireMutate_grants {swept : List LeaseRecord} (hd : Distinct swept)
    (h : acquireMutate a later swept = .ok (r, new)) :
    (r.runnerId = a.runnerId ∧ r.principalId = a.principalId) ∧ Grants r now swept new ∧
      Distinct new := by
  unfold acquireMutate at h
  rcases acquireLoop_cases a later swept with ⟨hnone, hno⟩ | ⟨e, he⟩ |
    ⟨l₁, lease, l₂, rfl, hr, hp, hup⟩
  · rw [hnone] at h
    simp only at h
    split at h
    · cases h
    · obtain ⟨rfl, rfl⟩ := Prod.ext_iff.mp (Except.ok.inj h)
      refine ⟨⟨rfl, rfl⟩, ⟨by simp, fun x hx _ heq => absurd heq (hno x hx),
        fun x hx _ _ => by simp [hx]⟩, ?_⟩
      rw [Distinct, List.map_append, List.nodup_append]
      refine ⟨hd, by simp, ?_⟩
      rintro k hk k' hk' rfl
      obtain ⟨x, hx, rfl⟩ := List.mem_map.mp hk
      exact hno x hx (List.mem_singleton.mp hk')
  · rw [he] at h
    cases h
  · rw [hup] at h
    obtain ⟨rfl, rfl⟩ := Prod.ext_iff.mp (Except.ok.inj h)
    refine ⟨⟨rfl, rfl⟩, ⟨by simp, fun x hx _ heq => ?_, fun x hx _ hne => ?_⟩, ?_⟩
    · have heq' : x.runnerId = lease.runnerId := heq.trans hr.symm
      rw [hd.eq hx (by simp) heq', hp]
      rfl
    · rcases List.mem_append.mp hx with hx | hx
      · exact List.mem_append_left _ hx
      · rcases List.mem_cons.mp hx with rfl | hx
        · exact absurd hr hne
        · exact List.mem_append_right _ (List.mem_cons_of_mem _ hx)
    · have hkeys : (l₁ ++ a.updated later lease :: l₂).map LeaseRecord.runnerId =
          (l₁ ++ lease :: l₂).map LeaseRecord.runnerId := by
        rw [List.map_append, List.map_append, List.map_cons, List.map_cons, hr]
        rfl
      rw [Distinct, hkeys]
      exact hd

theorem swept_grants {rows rows' : Sqlite.Rows} {k : String} {row : Sqlite.Row}
    (hself : rows'.get? k = some row)
    (hother : ∀ k', k' ≠ k → rows'.get? k' = (Sqlite.deleteExpired now rows).get? k')
    (hfree : ∀ row', (Sqlite.deleteExpired now rows).get? k = some row' →
      row'.principalId = row.principalId) :
    Grants (row.record k) now (Sqlite.records rows) (Sqlite.records rows') where
  mem := mem_records.mpr ⟨k, row, hself, rfl⟩
  free x hx hlive hr := by
    obtain ⟨k', row', hrow', rfl⟩ := mem_records.mp hx
    obtain rfl : k' = k := hr
    exact hfree row' (get?_swept hrow' hlive)
  keeps x hx hlive hr := by
    obtain ⟨k', row', hrow', rfl⟩ := mem_records.mp hx
    exact mem_records.mpr ⟨k', row', (hother k' hr).trans (get?_swept hrow' hlive), rfl⟩

/-- **An acquisition is a grant**, if it is not refused. -/
theorem Backends.acquire_spec (hd : Distinct b.file)
    (h : b.acquire side a now later = some (r, b')) :
    Grants r now (b.records side) (b'.records side) ∧ Distinct b'.file := by
  cases side with
  | primary =>
    unfold Backends.acquire at h
    simp only at h
    split at h
    · next hok =>
      obtain ⟨rfl, rfl⟩ := Prod.ext_iff.mp (Option.some.inj h)
      obtain ⟨-, hgrants, hdistinct⟩ : _ ∧ Grants _ now _ _ ∧ _ :=
        acquireMutate_grants (hd.sublist List.filter_sublist) hok
      exact ⟨⟨hgrants.mem,
        fun x hx hlive => hgrants.free x (List.mem_filter.mpr ⟨hx, hlive⟩) hlive,
        fun x hx hlive => hgrants.keeps x (List.mem_filter.mpr ⟨hx, hlive⟩) hlive⟩, hdistinct⟩
    · cases h
  | secondary =>
    unfold Backends.acquire at h
    simp only at h
    have hcases := Sqlite.acquire_cases a now b.rows
    generalize Sqlite.acquire a now b.rows = res at h hcases
    obtain ⟨answer, rows'⟩ := res
    cases hcases with
    | leased _ _ => cases h
    | full _ _ => cases h
    | @renewed row found own =>
      obtain ⟨rfl, rfl⟩ := Prod.ext_iff.mp (Option.some.inj h)
      refine ⟨swept_grants (Table.get?_put_self _ _ _)
        (fun k' hk => Table.get?_put_of_ne _ hk _) fun row' hrow' => ?_, hd⟩
      obtain rfl := Option.some.inj (hrow'.symm.trans found)
      rfl
    | inserted free room =>
      obtain ⟨rfl, rfl⟩ := Prod.ext_iff.mp (Option.some.inj h)
      refine ⟨swept_grants ?_ (fun k' hk => ?_) fun row' hrow' => ?_, hd⟩
      · change Table.get? (Table.insertNew _ _ _) _ = _
        rw [Table.get?_insertNew, if_pos rfl, free]
        rfl
      · change Table.get? (Table.insertNew _ _ _) _ = _
        rw [Table.get?_insertNew, if_neg hk]
      · rw [free] at hrow'
        cases hrow'

/-- **A release drops the leases it ends.** -/
theorem Backends.release_spec (b : Backends) (side : Side) (runnerId : String)
    (p : Option String) (token : Option ℕ) (now : Int) :
    Drops (b.release side runnerId p token now).1 now (b.records side)
        ((b.release side runnerId p token now).2.records side) ∧
      (Distinct b.file → Distinct (b.release side runnerId p token now).2.file) := by
  cases side with
  | primary =>
    refine ⟨fun x hx hlive hdrop => ?_, fun hd => ?_⟩
    · have hkept : releases runnerId p x = false := hdrop
      exact List.mem_filter.mpr ⟨List.mem_filter.mpr ⟨hx, hlive⟩, by simp [hkept]⟩
    · exact (hd.sublist List.filter_sublist).sublist List.filter_sublist
  | secondary =>
    have hcases := Sqlite.release_cases runnerId p token b.rows
    unfold Backends.release
    simp only
    generalize Sqlite.release runnerId p token b.rows = res at hcases ⊢
    obtain ⟨answer, rows'⟩ := res
    cases hcases with
    | missing _ => exact ⟨fun x hx _ _ => hx, fun hd => hd⟩
    | stale _ _ _ => exact ⟨fun x hx _ _ => hx, fun hd => hd⟩
    | other _ _ _ => exact ⟨fun x hx _ _ => hx, fun hd => hd⟩
    | @deleted row found _ own =>
      refine ⟨fun x hx hlive hdrop => ?_, fun hd => hd⟩
      obtain ⟨k, row', hrow', rfl⟩ := mem_records.mp hx
      refine mem_records.mpr ⟨k, row', ?_, rfl⟩
      change (b.rows.delete fun k _ => k = runnerId).get? k = some row'
      rw [Table.get?_delete, hrow', Option.filter_some, if_pos]
      -- a row of the runner is the one that the release ends
      by_contra hk
      have hk' : k = runnerId := by simpa using hk
      subst hk'
      obtain rfl := Option.some.inj (found.symm.trans hrow')
      have hended : (row.record k).runnerId = k ∧
          p.all (· = (row.record k).principalId) = true := by
        refine ⟨rfl, ?_⟩
        cases p with
        | none => rfl
        | some q =>
          have hq : q = (row.record k).principalId := own q rfl
          simpa using hq
      exact absurd hended (by simpa using hdrop)

end Spec

end Migration

end RunnerLease
