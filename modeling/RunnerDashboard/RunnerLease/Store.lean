import Mathlib.Data.List.Induction
import Mathlib.Data.List.Nodup
import Mathlib.Data.List.Perm.Subperm
import RunnerDashboard.Lib.Json
import RunnerDashboard.Lib.Path

/-!
# The runner-lease file as one atomic store

The mutations that `runner_lease.py` applies to the records of `leases.yml`, and
the store they would make if each call were one indivisible step.  Every call
first drops the expired records and then acquires, renews, releases or does
nothing more.

The log keeps the committed calls in order.  A lease is *live* in a log when a
call granted it and no later call renewed or released it; whether it has expired
is a separate matter.  Instants and durations are integers in one unit.

## Main results

* `readModify_spec` — what a successful call does to a well-formed file.
* `AtomicInv.step` — a call keeps the invariant.
-/

namespace RunnerLease

/-! ### Records -/

structure LeaseRecord where
  principalId : String
  runnerId : String
  acquiredAt : Int
  expiresAt : Option Int := none
  taskId : Option String := none
  metadata : List (String × Json) := []
  fencingToken : ℕ := 0

/-- `r.expires_at is None or r.expires_at > now`. -/
def LeaseRecord.unexpired (r : LeaseRecord) (now : Int) : Bool :=
  match r.expiresAt with
  | none => true
  | some e => now < e

theorem LeaseRecord.unexpired_mono {r : LeaseRecord} {now now' : Int} (h : r.unexpired now')
    (hle : now ≤ now') : r.unexpired now := by
  unfold LeaseRecord.unexpired at h ⊢
  cases hx : r.expiresAt with
  | none => rfl
  | some e =>
    simp only [hx, decide_eq_true_eq] at h ⊢
    omega

/-- The expiry sweep of `_atomic_read_modify_write`. -/
def pruneExpired (now : Int) (records : List LeaseRecord) : List LeaseRecord :=
  records.filter (·.unexpired now)

/-- The exceptions of the mutations. -/
inductive LeaseError
  /-- `ValueError`. -/
  | value (message : String)
  /-- `PermissionError`. -/
  | permission (message : String)
  deriving DecidableEq, Repr

/-! ### Mutations -/

/-- The arguments of `acquire_lease`; `maxRunners` is `principal.quotas.max_runners`. -/
structure AcquireArgs where
  principalId : String
  maxRunners : ℕ
  runnerId : String
  duration : Int := 3600
  taskId : Option String := none
  metadata : List (String × Json) := []

/-- `d[k] = v` on a dictionary kept as the list of its items. -/
def setItem (d : List (String × Json)) (k : String) (v : Json) : List (String × Json) :=
  if k ∈ d.map Prod.fst then d.map fun kv => if kv.1 = k then (k, v) else kv
  else d ++ [(k, v)]

/-- `{**old, **new}`. -/
def mergeMetadata (old new : List (String × Json)) : List (String × Json) :=
  new.foldl (fun d kv => setItem d kv.1 kv.2) old

/-- `task_id or lease.task_id`. -/
def orTask (taskId old : Option String) : Option String :=
  match taskId with
  | none | some "" => old
  | some t => some t

def AcquireArgs.updated (a : AcquireArgs) (now : Int) (lease : LeaseRecord) : LeaseRecord where
  principalId := a.principalId
  runnerId := a.runnerId
  acquiredAt := lease.acquiredAt
  expiresAt := some (now + a.duration)
  taskId := orTask a.taskId lease.taskId
  metadata := mergeMetadata lease.metadata a.metadata

def AcquireArgs.record (a : AcquireArgs) (now : Int) : LeaseRecord where
  principalId := a.principalId
  runnerId := a.runnerId
  acquiredAt := now
  expiresAt := some (now + a.duration)
  taskId := a.taskId
  metadata := a.metadata

/-- The loop over the records: the renewed record and the new list, the refusal of
another holder's runner, or `none` when no record has the runner id. -/
def acquireLoop (a : AcquireArgs) (now : Int) :
    List LeaseRecord → Option (Except LeaseError (LeaseRecord × List LeaseRecord))
  | [] => none
  | lease :: rest =>
    if lease.runnerId = a.runnerId then
      if lease.principalId = a.principalId then
        some (.ok (a.updated now lease, a.updated now lease :: rest))
      else some (.error (.value
        ("Runner " ++ a.runnerId ++ " is already leased by " ++ lease.principalId)))
    else (acquireLoop a now rest).map fun res => res.map fun x => (x.1, lease :: x.2)

/-- The mutation of `acquire_lease`. -/
def acquireMutate (a : AcquireArgs) (now : Int) (records : List LeaseRecord) :
    Except LeaseError (LeaseRecord × List LeaseRecord) :=
  match acquireLoop a now records with
  | some res => res
  | none =>
    if a.maxRunners ≤ records.countP (·.principalId = a.principalId) then
      .error (.permission ("Principal " ++ a.principalId ++ " has reached runner quota (" ++
        toString a.maxRunners ++ ")"))
    else .ok (a.record now, records ++ [a.record now])

/-- A release names this record; an empty principal id names every holder. -/
def releases (runnerId : String) (principalId : Option String) (r : LeaseRecord) : Bool :=
  match principalId with
  | none | some "" => r.runnerId = runnerId
  | some p => r.runnerId = runnerId ∧ r.principalId = p

/-- The mutation of `release_lease`. -/
def releaseMutate (runnerId : String) (principalId : Option String)
    (records : List LeaseRecord) : List LeaseRecord :=
  records.filter fun r => !releases runnerId principalId r

/-- The calls that go through `_atomic_read_modify_write`. -/
inductive Call
  | acquire (a : AcquireArgs)
  | release (runnerId : String) (principalId : Option String)
  | prune

/-- What they return. -/
inductive Result
  | acquired (r : LeaseRecord)
  | released (dropped : Bool)
  | pruned (removed : ℕ)

/-- From the records read to the records written: the sweep at `now₁` and the
mutation at `now₂`. -/
def readModify (c : Call) (now₁ now₂ : Int) (records : List LeaseRecord) :
    Except LeaseError (Result × List LeaseRecord) :=
  let swept := pruneExpired now₁ records
  match c with
  | .acquire a => (acquireMutate a now₂ swept).map fun x => (.acquired x.1, x.2)
  | .release runnerId principalId =>
    let new := releaseMutate runnerId principalId swept
    .ok (.released (new.length < swept.length), new)
  | .prune => .ok (.pruned (records.length - swept.length), swept)

/-! ### The log -/

abbrev Commit := Call × Result

def granted : Commit → List LeaseRecord
  | (_, .acquired r) => [r]
  | _ => []

def ends : Commit → LeaseRecord → Bool
  | (.acquire a, _), r => r.runnerId = a.runnerId ∧ r.principalId = a.principalId
  | (.release runnerId principalId, _), r => releases runnerId principalId r
  | (.prune, _), _ => false

/-- The leases that were granted and neither renewed nor released. -/
def live (log : List Commit) : List LeaseRecord :=
  log.foldl (fun rs c => (rs.filter fun r => !ends c r) ++ granted c) []

@[simp] theorem live_nil : live [] = [] := rfl

@[simp] theorem live_snoc (log : List Commit) (c : Commit) :
    live (log ++ [c]) = ((live log).filter fun r => !ends c r) ++ granted c := by
  simp [live, List.foldl_append]

theorem mem_live_or_ended (log : List Commit) {c₀ : Commit} {r : LeaseRecord}
    (h : c₀ ∈ log) (hr : r ∈ granted c₀) :
    r ∈ live log ∨ ∃ before after c, log = before ++ c₀ :: after ∧ c ∈ after ∧ ends c r := by
  induction log using List.reverseRecOn with
  | nil => simp at h
  | append_singleton log c ih =>
    rw [live_snoc]
    rcases List.mem_append.mp h with h | h
    · rcases ih h with hlive | ⟨before, after, c', rfl, hc', he⟩
      · cases hend : ends c r with
        | false => exact .inl (List.mem_append_left _ (by simp [hlive, hend]))
        | true =>
          obtain ⟨before, after, rfl⟩ := List.append_of_mem h
          exact .inr ⟨before, after ++ [c], c, by simp, by simp, hend⟩
      · exact .inr ⟨before, after ++ [c], c', by simp, by simp [hc'], he⟩
    · obtain rfl : c₀ = c := by simpa using h
      exact .inl (List.mem_append_right _ hr)

/-! ### What a call does to a well-formed file -/

/-- A file without two records of one runner, and with every quota respected. -/
structure WellFormed (quota : String → ℕ) (file : List LeaseRecord) : Prop where
  nodupRunners : (file.map LeaseRecord.runnerId).Nodup
  quota_le : ∀ p, file.countP (·.principalId = p) ≤ quota p

/-- A call that passes its principal's own quota. -/
def Call.Respects (quota : String → ℕ) : Call → Prop
  | .acquire a => a.maxRunners = quota a.principalId
  | _ => True

theorem WellFormed.sublist {quota : String → ℕ} {file new : List LeaseRecord}
    (h : WellFormed quota file) (hs : new.Sublist file) : WellFormed quota new where
  nodupRunners := h.nodupRunners.sublist (hs.map _)
  quota_le p := (hs.countP_le).trans (h.quota_le p)

theorem WellFormed.pruneExpired {quota : String → ℕ} {file : List LeaseRecord}
    (h : WellFormed quota file) (now : Int) : WellFormed quota (pruneExpired now file) :=
  h.sublist List.filter_sublist

theorem WellFormed.eq_of_runner {quota : String → ℕ} {file : List LeaseRecord}
    (h : WellFormed quota file) {r r' : LeaseRecord} (hr : r ∈ file) (hr' : r' ∈ file)
    (heq : r.runnerId = r'.runnerId) : r = r' :=
  List.inj_on_of_nodup_map h.nodupRunners hr hr' heq

/-- The loop finds no record of the runner, refuses, or renews the holder's record
in its place. -/
theorem acquireLoop_cases (a : AcquireArgs) (now : Int) (records : List LeaseRecord) :
    (acquireLoop a now records = none ∧ ∀ r ∈ records, r.runnerId ≠ a.runnerId) ∨
    (∃ e, acquireLoop a now records = some (.error e)) ∨
    (∃ l₁ lease l₂, records = l₁ ++ lease :: l₂ ∧ lease.runnerId = a.runnerId ∧
      lease.principalId = a.principalId ∧
      acquireLoop a now records =
        some (.ok (a.updated now lease, l₁ ++ a.updated now lease :: l₂))) := by
  induction records with
  | nil => exact .inl ⟨rfl, by simp⟩
  | cons lease rest ih =>
    rw [acquireLoop]
    by_cases hr : lease.runnerId = a.runnerId
    · rw [if_pos hr]
      by_cases hp : lease.principalId = a.principalId
      · rw [if_pos hp]
        exact .inr (.inr ⟨[], lease, rest, rfl, hr, hp, rfl⟩)
      · rw [if_neg hp]
        exact .inr (.inl ⟨_, rfl⟩)
    · rw [if_neg hr]
      rcases ih with ⟨hnone, hno⟩ | ⟨e, he⟩ | ⟨l₁, l, l₂, hrec, hlr, hlp, hok⟩
      · refine .inl ⟨by rw [hnone]; rfl, ?_⟩
        intro r hmem
        rcases List.mem_cons.mp hmem with rfl | hmem
        · exact hr
        · exact hno r hmem
      · exact .inr (.inl ⟨e, by rw [he]; rfl⟩)
      · refine .inr (.inr ⟨lease :: l₁, l, l₂, by rw [hrec]; rfl, hlr, hlp, ?_⟩)
        rw [hok]
        rfl

/-- What a successful call guarantees about the file it writes. -/
structure Writes (quota : String → ℕ) (c : Commit) (file new : List LeaseRecord) (now : Int) :
    Prop where
  wellFormed : WellFormed quota new
  keeps : ∀ r ∈ file, r.unexpired now → ends c r = false → r ∈ new
  grants : ∀ r ∈ granted c, r ∈ new

private theorem acquireMutate_spec {quota : String → ℕ} {a : AcquireArgs} {now : Int}
    {records new : List LeaseRecord} {r : LeaseRecord} (hq : a.maxRunners = quota a.principalId)
    (h : WellFormed quota records) (hok : acquireMutate a now records = .ok (r, new)) :
    WellFormed quota new ∧ r ∈ new ∧ r.runnerId = a.runnerId ∧ r.principalId = a.principalId ∧
      ∀ x ∈ records, ¬ (x.runnerId = a.runnerId ∧ x.principalId = a.principalId) → x ∈ new := by
  unfold acquireMutate at hok
  rcases acquireLoop_cases a now records with ⟨hnone, hno⟩ | ⟨e, he⟩ |
    ⟨l₁, lease, l₂, rfl, hr, hp, hup⟩
  · rw [hnone] at hok
    simp only at hok
    split at hok
    · exact absurd hok (by simp)
    · next hlt =>
      obtain ⟨rfl, rfl⟩ := Prod.ext_iff.mp (Except.ok.inj hok)
      refine ⟨⟨?_, ?_⟩, by simp, rfl, rfl, fun x hx _ => by simp [hx]⟩
      · rw [List.map_append, List.nodup_append]
        refine ⟨h.nodupRunners, by simp, ?_⟩
        rintro x hx y hy rfl
        obtain ⟨z, hz, hzx⟩ := List.mem_map.mp hx
        have hy' : x = a.runnerId := by simpa [AcquireArgs.record] using hy
        exact hno z hz (hzx.trans hy')
      · intro p
        rw [List.countP_append]
        by_cases hp : a.principalId = p
        · subst hp
          have : List.countP (fun r => decide (r.principalId = a.principalId)) [a.record now]
              = 1 := by simp [AcquireArgs.record]
          omega
        · have : List.countP (fun r => decide (r.principalId = p)) [a.record now] = 0 := by
            simp [AcquireArgs.record, hp]
          have := h.quota_le p
          omega
  · rw [he] at hok
    exact absurd hok (by simp)
  · rw [hup] at hok
    obtain ⟨rfl, rfl⟩ := Prod.ext_iff.mp (Except.ok.inj hok)
    -- the renewed record has the runner and the holder of the one it replaces
    refine ⟨⟨?_, ?_⟩, by simp, rfl, rfl, ?_⟩
    · have := h.nodupRunners
      rw [List.map_append, List.map_cons, hr] at this
      rw [List.map_append, List.map_cons]
      exact this
    · intro p
      have := h.quota_le p
      rw [List.countP_append, List.countP_cons, hp] at this
      rw [List.countP_append, List.countP_cons]
      exact this
    · intro x hx hne
      rcases List.mem_append.mp hx with hx | hx
      · simp [hx]
      · rcases List.mem_cons.mp hx with rfl | hx
        · exact absurd ⟨hr, hp⟩ hne
        · simp [hx]

/-- **What a successful call does to a well-formed file.** -/
theorem readModify_spec {quota : String → ℕ} {c : Call} {now₁ now₂ : Int}
    {file new : List LeaseRecord} {res : Result} (hq : c.Respects quota)
    (h : WellFormed quota file) (hok : readModify c now₁ now₂ file = .ok (res, new)) :
    Writes quota (c, res) file new now₁ := by
  have hswept := h.pruneExpired now₁
  have hmem : ∀ r ∈ file, r.unexpired now₁ → r ∈ pruneExpired now₁ file :=
    fun r hr hx => List.mem_filter.mpr ⟨hr, hx⟩
  cases c with
  | acquire a =>
    simp only [readModify] at hok
    cases hm : acquireMutate a now₂ (pruneExpired now₁ file) with
    | error e => rw [hm] at hok; exact absurd hok (by simp [Except.map])
    | ok x =>
      rw [hm] at hok
      obtain ⟨rfl, rfl⟩ := Prod.ext_iff.mp (Except.ok.inj hok)
      obtain ⟨hwf, hin, -, -, hkeep⟩ := acquireMutate_spec hq hswept hm
      refine ⟨hwf, ?_, ?_⟩
      · intro r hr hx hend
        exact hkeep r (hmem r hr hx) (by simpa [ends] using hend)
      · intro r hr
        obtain rfl : r = x.1 := by simpa [granted] using hr
        exact hin
  | release runnerId principalId =>
    obtain ⟨rfl, rfl⟩ := Prod.ext_iff.mp (Except.ok.inj hok)
    refine ⟨hswept.sublist List.filter_sublist, ?_, by simp [granted]⟩
    intro r hr hx hend
    refine List.mem_filter.mpr ⟨hmem r hr hx, ?_⟩
    simpa [ends] using hend
  | prune =>
    obtain ⟨rfl, rfl⟩ := Prod.ext_iff.mp (Except.ok.inj hok)
    exact ⟨hswept, fun r hr hx _ => hmem r hr hx, by simp [granted]⟩

/-! ### The atomic store -/

/-- The file, the log of the calls that made it, and the time of the last one. -/
structure Store where
  file : List LeaseRecord
  log : List Commit
  clock : Int

/-- One call as one step, committing at an instant `now` not before its two readings. -/
inductive AtomicStep (quota : String → ℕ) : Store → Commit → Store → Prop
  | commit {s : Store} {c : Call} {res : Result} {new : List LeaseRecord} {now₁ now₂ now : Int}
      (hq : c.Respects quota) (h₁ : now₁ ≤ now₂) (h₂ : now₂ ≤ now) (hc : s.clock ≤ now)
      (hok : readModify c now₁ now₂ s.file = .ok (res, new)) :
      AtomicStep quota s (c, res) ⟨new, s.log ++ [(c, res)], now⟩

/-- The key by which a later acquisition renews a lease. -/
def holding (r : LeaseRecord) : String × String := (r.runnerId, r.principalId)

/-- What a store keeps that runs its calls one after the other. -/
structure AtomicInv (quota : String → ℕ) (s : Store) : Prop where
  wellFormed : WellFormed quota s.file
  nodupLive : ((live s.log).map holding).Nodup
  live_mem : ∀ r ∈ live s.log, r.unexpired s.clock → r ∈ s.file

theorem holding_of_granted {c : Call} {now₁ now₂ : Int} {file new : List LeaseRecord}
    {res : Result} (hok : readModify c now₁ now₂ file = .ok (res, new)) :
    ∀ r ∈ granted (c, res), ∃ a, c = .acquire a ∧ holding r = (a.runnerId, a.principalId) := by
  intro r hr
  cases c with
  | acquire a =>
    refine ⟨a, rfl, ?_⟩
    simp only [readModify] at hok
    cases hm : acquireMutate a now₂ (pruneExpired now₁ file) with
    | error e => rw [hm] at hok; exact absurd hok (by simp [Except.map])
    | ok x =>
      rw [hm] at hok
      obtain ⟨rfl, rfl⟩ := Prod.ext_iff.mp (Except.ok.inj hok)
      obtain rfl : r = x.1 := by simpa [granted] using hr
      unfold acquireMutate at hm
      rcases acquireLoop_cases a now₂ (pruneExpired now₁ file) with ⟨hnone, -⟩ | ⟨e, he⟩ |
        ⟨l₁, lease, l₂, -, -, -, hup⟩
      · rw [hnone] at hm
        simp only at hm
        split at hm
        · exact absurd hm (by simp)
        · rw [← Except.ok.inj hm]
          rfl
      · rw [he] at hm
        exact absurd hm (by simp)
      · rw [hup] at hm
        rw [← Except.ok.inj hm]
        rfl
  | release runnerId principalId =>
    obtain ⟨rfl, rfl⟩ := Prod.ext_iff.mp (Except.ok.inj hok)
    exact absurd hr (by simp [granted])
  | prune =>
    obtain ⟨rfl, rfl⟩ := Prod.ext_iff.mp (Except.ok.inj hok)
    exact absurd hr (by simp [granted])

private theorem nodup_live_snoc {log : List Commit} {c : Call} {res : Result}
    (hn : ((live log).map holding).Nodup)
    (hg : ∀ r ∈ granted (c, res), ∃ a, c = .acquire a ∧
      holding r = (a.runnerId, a.principalId)) :
    ((live (log ++ [(c, res)])).map holding).Nodup := by
  rw [live_snoc, List.map_append, List.nodup_append]
  refine ⟨hn.sublist (List.filter_sublist.map _), ?_, ?_⟩
  · unfold granted
    split <;> simp
  · rintro x hx y hy rfl
    obtain ⟨r, hr, rfl⟩ := List.mem_map.mp hx
    obtain ⟨g, hgm, hgr⟩ := List.mem_map.mp hy
    obtain ⟨a, rfl, hold⟩ := hg g hgm
    have hnot := (List.mem_filter.mp hr).2
    rw [hold] at hgr
    obtain ⟨h₁, h₂⟩ := Prod.ext_iff.mp hgr
    simp only [holding] at h₁ h₂
    simp [ends, h₁, h₂] at hnot

/-- **A call keeps the invariant.** -/
theorem AtomicInv.step {quota : String → ℕ} {s t : Store} {c : Commit} (hi : AtomicInv quota s)
    (h : AtomicStep quota s c t) : AtomicInv quota t := by
  cases h with
  | @commit c res new now₁ now₂ now hq h₁ h₂ hc hok =>
    have hw := readModify_spec hq hi.wellFormed hok
    refine ⟨hw.wellFormed, nodup_live_snoc hi.nodupLive (holding_of_granted hok), ?_⟩
    intro r hr hx
    rw [live_snoc] at hr
    rcases List.mem_append.mp hr with hr | hr
    · -- unexpired now, so unexpired at the sweep and at the last commit
      obtain ⟨hlive, hend⟩ := List.mem_filter.mp hr
      have hfile := hi.live_mem r hlive (LeaseRecord.unexpired_mono hx hc)
      have hsweep : now₁ ≤ now := by omega
      exact hw.keeps r hfile (LeaseRecord.unexpired_mono hx hsweep) (by simpa using hend)
    · exact hw.grants r hr

theorem AtomicInv.live_le_quota {quota : String → ℕ} {s : Store} (hi : AtomicInv quota s)
    {now : Int} (hc : s.clock ≤ now) (p : String) :
    (live s.log).countP (fun r => r.principalId = p ∧ r.unexpired now) ≤ quota p := by
  have hnodup : (live s.log).Nodup := List.Nodup.of_map _ hi.nodupLive
  have hsub : ((live s.log).filter fun r => r.principalId = p ∧ r.unexpired now) ⊆
      s.file.filter fun r => r.principalId = p := by
    intro r hr
    obtain ⟨hlive, hpx⟩ := List.mem_filter.mp hr
    obtain ⟨hp, hx⟩ := of_decide_eq_true hpx
    have hfile := hi.live_mem r hlive (LeaseRecord.unexpired_mono hx hc)
    exact List.mem_filter.mpr ⟨hfile, by simp [hp]⟩
  have hlen := ((hnodup.filter _).subperm hsub).length_le
  rw [← List.countP_eq_length_filter, ← List.countP_eq_length_filter] at hlen
  exact hlen.trans (hi.wellFormed.quota_le p)

end RunnerLease
