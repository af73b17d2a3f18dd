import Mathlib.Data.List.Basic
import Mathlib.Data.List.Nodup
import Mathlib.Data.String.Basic

/-!
# The staff scheduler

What one tick does with one slot: the schedule is parsed, the cursor of the role or job is seeded
or reseeded, the first instant after the cursor is due or not, the gates queue the slot or skip
it, and the queued slot is fired or skipped.  Instants are integers.

The cron arithmetic, the gates that a slot meets and the leader lease's list of portable machines
are parameters.

## Main results

* `Roster.nodup_keys` — no two items of a roster share an entry.
* `look_look` — a look that is repeated at once finds the same.
-/

namespace Scheduler

/-! ### State -/

/-- What `last_reason` says of a slot. -/
inductive Reason
  | skipped (slot : Int) (reason : String)
  | fired (slot : Int) (runId : String)
  | ended (runId : String) (slot : Int) (outcome : String)
  deriving DecidableEq, Repr

/-- `last_reason` as it is stored. -/
def Reason.text (iso : Int → String) : Reason → String
  | .skipped slot reason => "skipped " ++ iso slot ++ ": " ++ reason
  | .fired slot runId => "fired " ++ iso slot ++ " as " ++ runId
  | .ended runId slot outcome => "run " ++ runId ++ " for " ++ iso slot ++ " ended " ++ outcome

structure PendingRun where
  runId : String
  slot : Int
  role : String
  job : Option String
  deriving DecidableEq, Repr

/-- The state of a role, or of one of its named jobs. -/
structure Entry where
  cursor : Option Int := none
  lastFired : Option Int := none
  lastReason : Option Reason := none
  consecutiveMissedRuns : ℕ := 0
  pendingRun : Option PendingRun := none
  enabled : Bool := true
  deriving DecidableEq, Repr

/-- The state by key.  A missing entry reads as an empty one. -/
abbrev State := String → Entry

def State.set (st : State) (key : String) (e : Entry) : State :=
  fun k => if k = key then e else st k

@[simp] theorem State.set_self (st : State) (key : String) (e : Entry) : st.set key e key = e :=
  if_pos rfl

theorem State.set_of_ne (st : State) {key k : String} (h : k ≠ key) (e : Entry) :
    st.set key e k = st k := if_neg h

/-! ### Missed runs -/

/-- `record_scheduled_skip`: the miss is counted. -/
def recordScheduledSkip (e : Entry) (slot : Int) (reason : String) : Entry :=
  { e with
    lastReason := some (.skipped slot reason)
    consecutiveMissedRuns := e.consecutiveMissedRuns + 1 }

def recordScheduledFire (e : Entry) (slot : Int) (runId : String) (firedAt : Int) (role : String)
    (job : Option String) : Entry :=
  { e with
    lastFired := some firedAt
    lastReason := some (.fired slot runId)
    pendingRun := some ⟨runId, slot, role, job⟩ }

/-- `RUN_STATUSES`. -/
inductive RunStatus
  | queued
  | preparing
  | running
  | succeeded
  | failed
  | cancelled
  | blocked
  | needsInput
  deriving DecidableEq, Repr

def RunStatus.text : RunStatus → String
  | .queued => "queued"
  | .preparing => "preparing"
  | .running => "running"
  | .succeeded => "succeeded"
  | .failed => "failed"
  | .cancelled => "cancelled"
  | .blocked => "blocked"
  | .needsInput => "needs_input"

def liveStatuses : List RunStatus := [.queued, .preparing, .running, .needsInput]

/-- What `reconcile_scheduled_runs` reads of a run. -/
structure RunRecord where
  status : RunStatus
  verification : String
  deriving DecidableEq, Repr

/-- `reconcile_scheduled_runs`, one entry. -/
def reconcileEntry (getRun : String → Option RunRecord) (e : Entry) : Entry :=
  match e.pendingRun with
  | none => e
  | some pending =>
    match getRun pending.runId with
    | some rec =>
      if rec.status ∈ liveStatuses then e
      else if rec.status = .succeeded ∧ rec.verification ≠ "failed" then
        { e with pendingRun := none, consecutiveMissedRuns := 0 }
      else
        { e with
          pendingRun := none
          lastReason := some (.ended pending.runId pending.slot rec.status.text)
          consecutiveMissedRuns := e.consecutiveMissedRuns + 1 }
    | none =>
      { e with
        pendingRun := none
        lastReason := some (.ended pending.runId pending.slot "missing")
        consecutiveMissedRuns := e.consecutiveMissedRuns + 1 }

def reconcileScheduledRuns (getRun : String → Option RunRecord) (st : State) : State :=
  fun key => reconcileEntry getRun (st key)

/-! ### Roles and their slots -/

/-- What the scheduler reads of a role; `namedJobs` is `named_jobs(role)`. -/
structure Role where
  name : String
  dispatchable : Bool := true
  schedule : Option String := none
  namedJobs : List (String × String) := []
  repos : List String := []
  deriving DecidableEq, Repr

/-- A slot's role and job, and the schedule that it follows. -/
structure Item where
  role : Role
  job : Option String
  cron : Option String
  deriving DecidableEq, Repr

/-- The key of a role or job: `f"{name}::{job}" if job else name`. -/
def stateKey (name : String) (job : Option String) : String :=
  if job.getD "" = "" then name else name ++ "::" ++ job.getD ""

def Item.key (i : Item) : String := stateKey i.role.name i.job

/-- The slots of a role.  A job without a name is evaluated as the role. -/
def Role.items (r : Role) : List Item :=
  if r.dispatchable = false then []
  else if r.namedJobs = [] then
    match r.schedule with
    | some cron => [⟨r, none, some cron⟩]
    | none => []
  else
    (r.namedJobs.mergeSort fun a b => decide (a.1 ≤ b.1)).map fun x =>
      ⟨r, some x.1, if x.1 = "" then r.schedule else some x.2⟩

/-- The roles by name.  The names are as the schema has them, without colons. -/
structure Roster where
  roles : List Role
  names : (roles.map Role.name).Nodup
  plain : ∀ r ∈ roles, ':' ∉ r.name.toList
  jobs : ∀ r ∈ roles, (r.namedJobs.map Prod.fst).Nodup

/-- The slots that a tick looks at, in its order. -/
def Roster.items (roster : Roster) : List Item :=
  (roster.roles.mergeSort fun a b => decide (a.name ≤ b.name)).flatMap Role.items

section Keys

variable {r r' : Role} {i : Item} {n n' : String} {j j' : Option String}

theorem toList_stateKey (n : String) (j : Option String) :
    (stateKey n j).toList =
      n.toList ++ if j.getD "" = "" then [] else ':' :: ':' :: (j.getD "").toList := by
  unfold stateKey
  split_ifs with h
  · exact (List.append_nil _).symm
  · rw [String.toList_append, String.toList_append, List.append_assoc]
    rfl

/-- Two lists without the separator, each followed by nothing or by the separator. -/
theorem append_sep_inj {α : Type*} {sep : α} {xs ys us vs : List α} (hx : sep ∉ xs) (hy : sep ∉ ys)
    (hu : us = [] ∨ us.head? = some sep) (hv : vs = [] ∨ vs.head? = some sep)
    (h : xs ++ us = ys ++ vs) : xs = ys ∧ us = vs := by
  induction xs generalizing ys with
  | nil =>
    cases ys with
    | nil => exact ⟨rfl, h⟩
    | cons y ys =>
      rw [List.nil_append, List.cons_append] at h
      rcases hu with rfl | hu
      · cases h
      · rw [h, List.head?_cons] at hu
        exact absurd (Option.some.inj hu ▸ List.mem_cons_self) hy
  | cons x xs ih =>
    cases ys with
    | nil =>
      rw [List.nil_append, List.cons_append] at h
      rcases hv with rfl | hv
      · cases h
      · rw [← h, List.head?_cons] at hv
        exact absurd (Option.some.inj hv ▸ List.mem_cons_self) hx
    | cons y ys =>
      obtain ⟨rfl, htail⟩ := List.cons.inj h
      obtain ⟨rfl, hrest⟩ := ih (fun hm => hx (List.mem_cons_of_mem _ hm))
        (fun hm => hy (List.mem_cons_of_mem _ hm)) htail
      exact ⟨rfl, hrest⟩

/-- A key tells the role and the job, if no role's name has a colon. -/
theorem stateKey_inj (hn : ':' ∉ n.toList) (hn' : ':' ∉ n'.toList)
    (h : stateKey n j = stateKey n' j') : n = n' ∧ j.getD "" = j'.getD "" := by
  have hlist := congrArg String.toList h
  rw [toList_stateKey, toList_stateKey] at hlist
  have hsep : ∀ k : Option String,
      (if k.getD "" = "" then [] else ':' :: ':' :: (k.getD "").toList) = [] ∨
        (if k.getD "" = "" then [] else ':' :: ':' :: (k.getD "").toList).head? = some ':' := by
    intro k
    split_ifs
    · exact .inl rfl
    · exact .inr rfl
  obtain ⟨hname, hjob⟩ := append_sep_inj hn hn' (hsep j) (hsep j') hlist
  refine ⟨String.toList_inj.mp hname, ?_⟩
  split_ifs at hjob with hj hj' hj'
  · rw [hj, hj']
  · exact String.toList_inj.mp (List.cons.inj (List.cons.inj hjob).2).2

theorem role_of_mem_items (h : i ∈ r.items) : i.role = r := by
  unfold Role.items at h
  split_ifs at h
  · cases h
  · split at h
    · rw [List.mem_singleton.mp h]
    · cases h
  · obtain ⟨x, -, rfl⟩ := List.mem_map.mp h
    rfl

theorem nodup_keys_items (hjobs : (r.namedJobs.map Prod.fst).Nodup) (hn : ':' ∉ r.name.toList) :
    (r.items.map Item.key).Nodup := by
  unfold Role.items
  split_ifs
  · exact List.nodup_nil
  · split
    · exact List.nodup_singleton _
    · exact List.nodup_nil
  · rw [List.map_map]
    have hperm := List.mergeSort_perm r.namedJobs fun a b => decide (a.1 ≤ b.1)
    have hsorted := ((hperm.map Prod.fst).nodup_iff).mpr hjobs
    refine List.Nodup.map_on (fun x hx y hy hkey => ?_) (hsorted.of_map _)
    exact List.inj_on_of_nodup_map hsorted hx hy (stateKey_inj hn hn hkey).2

/-- **No two items of a roster share an entry.** -/
theorem Roster.nodup_keys (roster : Roster) : (roster.items.map Item.key).Nodup := by
  have hperm := List.mergeSort_perm roster.roles fun a b => decide (a.name ≤ b.name)
  have hmem : ∀ r, r ∈ roster.roles.mergeSort (fun a b => decide (a.name ≤ b.name)) →
      r ∈ roster.roles := fun r hr => hperm.mem_iff.mp hr
  have hnames := ((hperm.map Role.name).nodup_iff).mpr roster.names
  rw [Roster.items, List.map_flatMap, List.nodup_flatMap]
  refine ⟨fun r hr => nodup_keys_items (roster.jobs r (hmem r hr)) (roster.plain r (hmem r hr)), ?_⟩
  rw [List.Nodup, List.pairwise_map] at hnames
  refine hnames.imp_of_mem fun {a b} ha hb hne => ?_
  intro key hka hkb
  obtain ⟨i, hi, rfl⟩ := List.mem_map.mp hka
  obtain ⟨i', hi', hkey⟩ := List.mem_map.mp hkb
  have hrole := role_of_mem_items hi
  have hrole' := role_of_mem_items hi'
  refine hne ?_
  rw [← hrole, ← hrole']
  rw [← hrole] at ha
  rw [← hrole'] at hb
  exact (stateKey_inj (roster.plain _ (hmem _ ha)) (roster.plain _ (hmem _ hb)) hkey.symm).1

end Keys

/-! ### Looking at a slot -/

/-- `parse_cron` and `next_fire`, with the texts of their errors. -/
structure Cron (σ : Type*) where
  parseCron : String → Except String σ
  nextFire : σ → Int → Except String Int

/-- `_is_stale`: two slots after the cursor have passed. -/
def isStale {σ : Type*} (C : Cron σ) (schedule : String) (cursor now : Int) : Bool :=
  match C.parseCron schedule with
  | .error _ => false
  | .ok spec =>
    match C.nextFire spec cursor with
    | .error _ => false
    | .ok first =>
      match C.nextFire spec first with
      | .error _ => false
      | .ok second => second ≤ now

/-- `_cursor` sets the cursor: there is none, or it is stale. -/
def reseeds {σ : Type*} (C : Cron σ) (schedule : String) (now : Int) (e : Entry) : Bool :=
  match e.cursor with
  | none => true
  | some cursor => isStale C schedule cursor now

/-- The entry that `_cursor` leaves. -/
def seeded {σ : Type*} (C : Cron σ) (schedule : String) (now : Int) (e : Entry) : Entry :=
  if reseeds C schedule now e then { e with cursor := some now } else e

def cursor {σ : Type*} (C : Cron σ) (schedule : String) (now : Int) (e : Entry) : Int :=
  ((seeded C schedule now e).cursor).getD now

/-- What a look at the schedule finds, what it leaves, and if it saves the state. -/
structure Look where
  entry : Entry
  saves : Bool := false
  nextFire : Option Int := none
  scheduleError : Option String := none

/-- The schedule's part of `_schedule_report`. -/
def look {σ : Type*} (C : Cron σ) (schedule : Option String) (now : Int) (e : Entry) : Look :=
  if schedule.getD "" = "" then { entry := e }
  else
    match C.parseCron (schedule.getD "") with
    | .error text => { entry := e, scheduleError := some text }
    | .ok spec =>
      let e' := seeded C (schedule.getD "") now e
      let saves := reseeds C (schedule.getD "") now e
      match C.nextFire spec (cursor C (schedule.getD "") now e) with
      | .error text => { entry := e', saves := saves, scheduleError := some text }
      | .ok fire => { entry := e', saves := saves, nextFire := some fire }

def Look.due (now : Int) (x : Look) : Option Int := x.nextFire.filter fun slot => slot ≤ now

/-- What the tick asks of others about one slot. -/
structure Gates where
  inWindow : Bool := true
  hold : Option String := none
  activeRun : Option String := none
  budgetOk : Bool := true
  budgetReason : String := ""
  /-- `in_startup_grace`. -/
  startupGrace : Bool := false
  /-- `schedule_host_skip_reason`. -/
  hostReason : String := ""
  /-- `now.toordinal()`. -/
  day : ℕ := 0
  /-- `pick_issue_target`. -/
  target : Option (String × ℕ) := none
  repoHold : String → Option String := fun _ => none
  /-- The owner and the reason of an exclusion. -/
  excluded : String → Option (String × String) := fun _ => none

/-- What `_blocker` reads of the gate report. -/
structure Report where
  scheduleError : Option String
  inWindow : Bool
  hold : Option String
  activeRun : Option String
  budgetOk : Bool
  budgetReason : String
  enabled : Bool

/-- `_schedule_report`, after the look at the schedule. -/
def scheduleReport (x : Look) (g : Gates) (enabled : Bool) : Report where
  scheduleError := x.scheduleError
  inWindow := g.inWindow
  hold := match g.hold with
    | some text => some text
    | none => if enabled then none else some "schedule disabled for role"
  activeRun := g.activeRun
  budgetOk := g.budgetOk
  budgetReason := g.budgetReason
  enabled := enabled

def blocker (report : Report) (hostReason : String) : String :=
  if report.enabled = false then "schedule disabled for role"
  else if report.scheduleError.getD "" ≠ "" then "bad schedule: " ++ report.scheduleError.getD ""
  else if hostReason ≠ "" then hostReason
  else if report.inWindow = false then "outside run window"
  else if report.hold.getD "" ≠ "" then "hold: " ++ report.hold.getD ""
  else if report.activeRun.getD "" ≠ "" then "run " ++ report.activeRun.getD "" ++ " still active"
  else if report.budgetOk = false then "budget: " ++ report.budgetReason
  else ""

def scheduledRepo (repos : List String) (day : ℕ) : String :=
  (repos[day % repos.length]?).getD ""

def issueRemediatorRole : String := "issue-remediator"

def skipDueSlotDuringStartup (name : String) (startupGrace : Bool) : Bool :=
  (name = "barb" ∨ name = "rd-barb") && startupGrace

/-- The holds and exclusions of the repository, the last of the gates. -/
def repoVerdict (g : Gates) (repo : String) (issue : Option ℕ) :
    Except String (String × Option ℕ) :=
  match g.repoHold repo with
  | some text => .error ("hold: " ++ text)
  | none =>
    match if repo = "" then none else g.excluded repo with
    | some (owner, reason) => .error ("excluded: " ++ owner ++ ": " ++ reason)
    | none => .ok (repo, issue)

/-- `queue_due_slot` once the slot is due: the reason of a skip, or what is queued. -/
def queueVerdict (i : Item) (report : Report) (g : Gates) : Except String (String × Option ℕ) :=
  if blocker report g.hostReason ≠ "" then .error (blocker report g.hostReason)
  else if i.job = none ∧ i.role.name = issueRemediatorRole then
    match g.target with
    | some (repo, issue) =>
      if repo = "" ∨ issue = 0 then .error "no eligible issues in scheduled repositories"
      else repoVerdict g repo (some issue)
    | none => .error "no eligible issues in scheduled repositories"
  else repoVerdict g (scheduledRepo i.role.repos g.day) none

/-! ### Firing a slot -/

/-- What the tick asks of others before it submits a run, and what the submit returns: an id, or
the text of a `ValueError`. -/
structure Checks where
  /-- `persona_fire_guard`. -/
  guard : String := ""
  /-- `claim_guard.scheduler_blocker`. -/
  claimed : String := ""
  submit : Except String String

/-- `_fire_pending_slot`: the reason of a skip, or the id of the run. -/
def fireOutcome (repo : String) (k : Checks) : Except String String :=
  if k.guard ≠ "" then .error k.guard
  else if repo ≠ "" ∧ k.claimed ≠ "" then .error k.claimed
  else k.submit

/-- What is noted of a slot that was handled. -/
def record (i : Item) (slot now : Int) (outcome : Except String String) (e : Entry) : Entry :=
  match outcome with
  | .error reason => recordScheduledSkip e slot reason
  | .ok runId => recordScheduledFire e slot runId now i.role.name i.job

section Look

variable {σ : Type*} {C : Cron σ} {schedule : Option String} {text : String} {now : Int}
  {e : Entry}

theorem seeded_seeded : seeded C text now (seeded C text now e) = seeded C text now e := by
  by_cases h : reseeds C text now e = true
  · have hseeded : seeded C text now e = { e with cursor := some now } := if_pos h
    rw [hseeded]
    unfold seeded
    split_ifs
    · rfl
    · rfl
  · have hseeded : seeded C text now e = e := if_neg h
    rw [hseeded, hseeded]

theorem cursor_seeded : cursor C text now (seeded C text now e) = cursor C text now e := by
  unfold cursor
  rw [seeded_seeded]

theorem look_of_not_saves (h : (look C schedule now e).saves = false) :
    (look C schedule now e).entry = e := by
  unfold look at h ⊢
  split_ifs at h ⊢
  · rfl
  · split at h
    · rfl
    · dsimp only at h ⊢
      split at h
      · exact if_neg (Bool.eq_false_iff.mp h)
      · exact if_neg (Bool.eq_false_iff.mp h)

/-- **A look that is repeated at once finds the same.** -/
theorem look_look : (look C schedule now (look C schedule now e).entry).entry =
      (look C schedule now e).entry ∧
    (look C schedule now (look C schedule now e).entry).nextFire =
      (look C schedule now e).nextFire := by
  by_cases hnone : schedule.getD "" = ""
  · have hlook : ∀ e', look C schedule now e' = { entry := e' } := fun e' => if_pos hnone
    rw [hlook, hlook]
    exact ⟨rfl, rfl⟩
  · cases hparse : C.parseCron (schedule.getD "") with
    | error msg =>
      have hlook : ∀ e', look C schedule now e' = { entry := e', scheduleError := some msg } := by
        intro e'
        rw [look, if_neg hnone, hparse]
      rw [hlook, hlook]
      exact ⟨rfl, rfl⟩
    | ok spec =>
      have hlook : ∀ e', (look C schedule now e').entry = seeded C (schedule.getD "") now e' ∧
          (look C schedule now e').nextFire =
            (C.nextFire spec (cursor C (schedule.getD "") now e')).toOption := by
        intro e'
        rw [look, if_neg hnone, hparse]
        dsimp only
        split
        · rename_i msg hnext
          rw [hnext]
          exact ⟨rfl, rfl⟩
        · rename_i fire hnext
          rw [hnext]
          exact ⟨rfl, rfl⟩
      obtain ⟨hentry, hnext⟩ := hlook e
      rw [hentry, (hlook _).1, (hlook _).2, seeded_seeded, cursor_seeded, hnext]
      exact ⟨rfl, rfl⟩

theorem due_look : (look C schedule now (look C schedule now e).entry).due now =
    (look C schedule now e).due now := by
  unfold Look.due
  rw [look_look.2]

end Look

/-! ### The leader lease -/

/-- `__leader_lease__` in the state of the authority. -/
structure Lease where
  holder : String := ""
  acquiredAt : Option Int := none
  renewedAt : Option Int := none
  expiresAt : Option Int := none
  ttlSeconds : Int := 0
  chain : List String := []
  deriving DecidableEq, Repr

/-- The answer to a request for the lease. -/
structure Decision where
  granted : Bool
  holder : String := ""
  reason : String
  expiresAt : Option Int := none
  chain : List String := []
  deriving DecidableEq, Repr

def Lease.active (lease : Lease) (now : Int) : Bool := lease.expiresAt.any fun t => now < t

/-- `ranks.get(name, 10_000)`: the last place of a name in the chain. -/
def rank (chain : List String) (name : String) : ℕ :=
  (chain.zipIdx.reverse.lookup name).getD 10000

/-- The lease as it is written for `machine`. -/
def Lease.grant (lease : Lease) (chain : List String) (machine : String) (now ttl : Int) :
    Lease where
  holder := machine
  acquiredAt := if lease.holder = machine then lease.acquiredAt.or (some now) else some now
  renewedAt := some now
  expiresAt := some (now + ttl)
  ttlSeconds := ttl
  chain := chain

def grantLeaderLease (chain : List String) (machine : String) (now ttl : Int) (lease : Lease)
    (reason : String) : Decision × Lease :=
  ({ granted := true
     holder := machine
     reason := reason
     expiresAt := some (now + ttl)
     chain := chain }, lease.grant chain machine now ttl)

def acquireLeaderLease (portable : String → Bool) (chain : List String) (machine : String)
    (now ttl : Int) (lease : Lease) : Decision × Lease :=
  if portable machine then
    ({ granted := false
       reason := machine ++ " is a portable node: no required or scheduled roles (#3323)"
       chain := chain }, lease)
  else if chain = [] then
    ({ granted := true, holder := machine, reason := "leader lease disabled" }, lease)
  else if machine ∉ chain then
    ({ granted := false, reason := machine ++ " not in leader chain", chain := chain }, lease)
  else if lease.holder = machine then grantLeaderLease chain machine now ttl lease "renewed"
  else if lease.active now = false ∨ lease.holder = "" then
    grantLeaderLease chain machine now ttl lease "acquired"
  else if rank chain machine < rank chain lease.holder then
    grantLeaderLease chain machine now ttl lease "preempted by higher-priority host"
  else
    ({ granted := false
       holder := lease.holder
       reason := "held by " ++ lease.holder
       expiresAt := lease.expiresAt
       chain := chain }, lease)

/-- `lease_allows_firing`, with what the authority answers. -/
def leaseAllowsFiring (portable : String → Bool) (chain : List String) (machine : String)
    (answer : Option Decision) : Bool :=
  if portable machine then false
  else if chain = [] then true
  else if machine ∉ chain then false
  else answer.any Decision.granted

end Scheduler
