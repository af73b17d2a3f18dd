import Mathlib.Data.List.TakeWhile
import RunnerDashboard.Staff.SchedulerLeader

/-!
# What becomes of scheduled runs

A slot that was fired leaves its run pending in the state of its role or job, and a later tick
settles it when the run has ended.  There is room for one pending run.  The gate report looks for
runs of the role that are queued, preparing or running; a run that needs input, or one that has
ended since the tick reconciled, does not block the next slot, and the fire of that slot
overwrites the pending run.

## Main results

* `Step.handled` — what a step of a tick does to an entry.
* `settledOnce_of_clear` — **every fired run is settled exactly once** in a clear run.
-/

namespace Scheduler

open Lts

/-! ### The run store -/

def activeStatuses : List RunStatus := [.queued, .preparing, .running]

/-- A run of the store, as the scheduler reads it. -/
structure StaffRun extends RunRecord where
  role : String
  deriving DecidableEq, Repr

abbrev RunStore := String → Option StaffRun

def RunStore.getRun (runs : RunStore) (id : String) : Option RunRecord :=
  (runs id).map StaffRun.toRunRecord

/-- `active_run` of the gate report: one of `active_runs` with the role. -/
def ActiveRun (runs : RunStore) (role : String) : Option String → Prop
  | some id => ∃ r, runs id = some r ∧ r.role = role ∧ r.status ∈ activeStatuses
  | none => ∀ id r, runs id = some r → r.role = role → r.status ∉ activeStatuses

/-! ### What happened -/

/-- What happened to a role or job. -/
inductive Note
  | fired (runId : String)
  /-- The run was settled; none if the store does not know it any more. -/
  | settled (runId : String) (run : Option RunRecord)
  | skipped
  deriving DecidableEq, Repr

def RunRecord.succeeded (r : RunRecord) : Bool :=
  r.status = .succeeded ∧ r.verification ≠ "failed"

/-- A settlement of the run. -/
def Note.settles (id : String) : Note → Bool
  | .settled id' _ => id' = id
  | _ => false

def Note.success : Note → Bool
  | .settled _ run => run.any RunRecord.succeeded
  | _ => false

/-- A skip, or a settlement without success. -/
def Note.miss : Note → Bool
  | .fired _ => false
  | .settled _ run => !run.any RunRecord.succeeded
  | .skipped => true

section Notes

variable (id id' : String) (run : Option RunRecord)

@[simp] theorem settles_settled : (Note.settled id' run).settles id = decide (id' = id) := rfl

@[simp] theorem success_settled :
    (Note.settled id run).success = run.any RunRecord.succeeded := rfl

@[simp] theorem miss_settled : (Note.settled id run).miss = !run.any RunRecord.succeeded := rfl

end Notes

/-- The skips and the settlements without success since the last success. -/
def misses (log : List Note) : ℕ :=
  (log.reverse.takeWhile fun n => !n.success).countP Note.miss

/-- The settlement of an entry by `reconcile_scheduled_runs`. -/
def settlement (getRun : String → Option RunRecord) (e : Entry) : List Note :=
  match e.pendingRun with
  | none => []
  | some p =>
    match getRun p.runId with
    | some rec => if rec.status ∈ liveStatuses then [] else [.settled p.runId (some rec)]
    | none => [.settled p.runId none]

def noteOf : Except String String → Note
  | .ok runId => .fired runId
  | .error _ => .skipped

/-! ### The scheduler beside its runs -/

/-- The slot that a step handles: one that is judged and skipped, or one that is fired. -/
def Process.handles (s : Process) : Label → Option (Item × Int × Except String String)
  | .judge =>
    match s.phase with
    | .judging i due x _ _ _ =>
      match verdict i x (s.ask i.key).gates with
      | .error reason => some (i, due, .error reason)
      | .ok _ => none
    | _ => none
  | .fire _ _ _ =>
    match s.phase with
    | .firing (p :: _) => some (p.item, p.due, fireOutcome p.repo (s.ask p.key).checks)
    | _ => none
  | _ => none

/-- A step of a tick, or a save beside it. -/
def Label.ofTick : Label → Bool
  | .start _ => true
  | .look => true
  | .judge => true
  | .save => true
  | .fire _ _ _ => true
  | .persist => true
  | .close => true
  | _ => false

/-- The scheduler and the run store.  `issued` and `log` are history. -/
structure Ledger where
  proc : Process
  runs : RunStore
  issued : List String := []
  log : String → List Note := fun _ => []

def Ledger.boot (st : State) (runs : RunStore) : Ledger := { proc := .boot st, runs := runs }

def Ledger.reconcile (w : Ledger) (saved : Bool) : Ledger :=
  { w with
    proc := w.proc.rewrite (reconcileScheduledRuns w.runs.getRun w.proc.mem) saved
    log := fun key => w.log key ++ settlement w.runs.getRun (w.proc.mem key) }

/-- A slot is handled; a submitted run is queued in the store. -/
def Ledger.handle (w : Ledger) (i : Item) (outcome : Except String String) (p : Process) :
    Ledger where
  proc := p
  runs := match outcome with
    | .ok runId => Function.update w.runs runId (some ⟨⟨.queued, ""⟩, i.role.name⟩)
    | .error _ => w.runs
  issued := match outcome with
    | .ok runId => runId :: w.issued
    | .error _ => w.issued
  log := Function.update w.log i.key (w.log i.key ++ [noteOf outcome])

/-- A step of the tick. -/
def Ledger.after (w : Ledger) (l : Label) (p : Process) : Ledger :=
  match w.proc.handles l with
  | some (i, _, outcome) => w.handle i outcome p
  | none => { w with proc := p }

/-- What a step of the two shows. -/
inductive LedgerEvent
  | runs
  | settings
  | reconcile
  | tick (l : Label)
  deriving DecidableEq, Repr

inductive LedgerStep {σ : Type*} (C : Cron σ) : Ledger → LedgerEvent → Ledger → Prop
  /-- Runs change their statuses; others are made or removed. -/
  | runs {w : Ledger} {runs : RunStore} : LedgerStep C w .runs { w with runs := runs }
  /-- A role is enabled or disabled, or its model is set. -/
  | settings {w : Ledger} {p : Process} (step : Step C w.proc .edit p)
      (pending : ∀ key, (p.mem key).pendingRun = (w.proc.mem key).pendingRun)
      (missed : ∀ key, (p.mem key).consecutiveMissedRuns =
        (w.proc.mem key).consecutiveMissedRuns) :
      LedgerStep C w .settings { w with proc := p }
  | reconcile {w : Ledger} {saved : Bool}
      (step : Step C w.proc .reconcile
        (w.proc.rewrite (reconcileScheduledRuns w.runs.getRun w.proc.mem) saved)) :
      LedgerStep C w .reconcile (w.reconcile saved)
  /-- The gate report has the runs of the store, and a submitted run is new. -/
  | tick {w : Ledger} {l : Label} {p : Process} (kind : l.ofTick = true)
      (step : Step C w.proc l p)
      (active : ∀ i due x todo pending decided,
        w.proc.phase = .judging i due x todo pending decided →
          ActiveRun w.runs i.role.name (w.proc.ask i.key).gates.activeRun)
      (fresh : ∀ i due id, w.proc.handles l = some (i, due, .ok id) →
        id ∉ w.issued ∧ w.runs id = none) :
      LedgerStep C w (.tick l) (w.after l p)

/-! ### The property -/

/-- **Every fired run is settled exactly once**, when it was no longer live, or it is pending; and
the misses since the last success are counted. -/
structure SettledOnce (w : Ledger) : Prop where
  once : ∀ key id, .fired id ∈ w.log key → (w.log key).countP (Note.settles id) = 1 ∨
    (w.log key).countP (Note.settles id) = 0 ∧
      (w.proc.mem key).pendingRun.map PendingRun.runId = some id
  known : ∀ key id r, .settled id r ∈ w.log key → .fired id ∈ w.log key
  ended : ∀ key id r, .settled id (some r) ∈ w.log key → r.status ∉ liveStatuses
  streak : ∀ key, (w.proc.mem key).consecutiveMissedRuns = misses (w.log key)

/-- The slot that is fired finds no run of its role or job pending. -/
def Clear (w : Ledger) : LedgerEvent → Prop
  | .tick l => ∀ i due id, w.proc.handles l = some (i, due, .ok id) →
      (w.proc.mem i.key).pendingRun = none
  | _ => True

def ClearStep {σ : Type*} (C : Cron σ) (w : Ledger) (ev : LedgerEvent) (w' : Ledger) : Prop :=
  LedgerStep C w ev w' ∧ Clear w ev

def Unrecorded (st : State) : Prop :=
  ∀ key, (st key).pendingRun = none ∧ (st key).consecutiveMissedRuns = 0

/-! ### What a step does to an entry -/

def Entry.tally (e : Entry) : Option String × ℕ :=
  (e.pendingRun.map PendingRun.runId, e.consecutiveMissedRuns)

section Steps

variable {σ : Type*} {C : Cron σ} {s t : Process} {l : Label} {w w' : Ledger} {ev : LedgerEvent}
  {evs : List LedgerEvent} {st : State} {runs : RunStore} {key id : String} {i : Item}
  {due now : Int} {e : Entry} {getRun : String → Option RunRecord}
  {outcome : Except String String} {log : List Note} {n : Note}

theorem tally_seeded {text : String} : (seeded C text now e).tally = e.tally := by
  unfold seeded
  split_ifs
  · rfl
  · rfl

theorem tally_look {schedule : Option String} :
    (look C schedule now e).entry.tally = e.tally := by
  unfold look
  split_ifs
  · rfl
  · split
    · rfl
    · dsimp only
      split
      · exact tally_seeded
      · exact tally_seeded

theorem tally_set (st : State) (h : e.tally = (st key).tally) (k : String) :
    (st.set key e k).tally = (st k).tally := by
  by_cases hk : k = key
  · rw [hk, State.set_self]
    exact h
  · rw [State.set_of_ne st hk]

theorem tally_looked (pending : List Pending) (k : String) :
    ((s.looked C i pending).mem k).tally = (s.mem k).tally := by
  have hlook : (look C i.cron s.now (s.mem i.key)).entry.tally = (s.mem i.key).tally := tally_look
  have hset := tally_set s.mem hlook k
  rcases looked_cases C s i pending with ⟨-, heq⟩ | ⟨-, heq⟩
  · rw [heq]
  · rw [heq]
    exact hset

/-- **What a step of a tick does to an entry**: the slot that is handled is recorded, and no other
entry has its pending run or its misses changed. -/
theorem Step.handled (hs : Step C s l t) (kind : l.ofTick = true) :
    (∃ i due outcome, s.handles l = some (i, due, outcome) ∧
      t.mem = s.mem.set i.key (record i due s.now outcome (s.mem i.key))) ∨
    (s.handles l = none ∧ ∀ k, (t.mem k).tally = (s.mem k).tally) := by
  cases hs with
  | reconcile => cases kind
  | edit => cases kind
  | start => exact .inr ⟨rfl, fun _ => rfl⟩
  | pass => exact .inr ⟨rfl, tally_looked _⟩
  | @find i todo pending decided due =>
    refine .inr ⟨rfl, fun k => ?_⟩
    refine (tally_set _ ?_ k).trans (tally_looked pending k)
    exact tally_look.trans (tally_looked pending i.key).symm
  | @skip i due x todo pending decided reason at' judged =>
    refine .inl ⟨i, due, .error reason, ?_, rfl⟩
    unfold Process.handles
    rw [at']
    dsimp only
    rw [judged]
  | queue at' judged =>
    refine .inr ⟨?_, fun _ => rfl⟩
    unfold Process.handles
    rw [at']
    dsimp only
    rw [judged]
  | @save pending decided =>
    refine .inr ⟨rfl, fun _ => ?_⟩
    cases decided with
    | true => rfl
    | false => rfl
  | @fire p todo outcome at' fired =>
    refine .inl ⟨p.item, p.due, outcome, ?_, rfl⟩
    unfold Process.handles
    rw [at']
    dsimp only
    rw [fired]
  | persist => exact .inr ⟨rfl, fun _ => rfl⟩
  | close => exact .inr ⟨rfl, fun _ => rfl⟩
  | raise => cases kind
  | crash => cases kind

theorem settlement_cases (getRun : String → Option RunRecord) (e : Entry) :
    (settlement getRun e = [] ∧ reconcileEntry getRun e = e ∧
      ∀ id, e.tally.1 = some id → ∃ r, getRun id = some r ∧ r.status ∈ liveStatuses) ∨
    ∃ id, e.tally.1 = some id ∧ settlement getRun e = [.settled id (getRun id)] ∧
      (∀ r, getRun id = some r → r.status ∉ liveStatuses) ∧
      (reconcileEntry getRun e).tally =
        (none, if (getRun id).any RunRecord.succeeded then 0 else e.tally.2 + 1) := by
  unfold settlement reconcileEntry
  cases hp : e.pendingRun with
  | none =>
    refine .inl ⟨rfl, rfl, fun id hid => ?_⟩
    unfold Entry.tally at hid
    rw [hp] at hid
    cases hid
  | some p =>
    have hid : e.tally.1 = some p.runId := congrArg (Option.map PendingRun.runId) hp
    dsimp only
    cases hrun : getRun p.runId with
    | none =>
      refine .inr ⟨p.runId, hid, ?_, fun r hr => ?_, ?_⟩
      · rw [hrun]
      · rw [hrun] at hr
        cases hr
      · rw [hrun]
        rfl
    | some r =>
      dsimp only
      by_cases hlive : r.status ∈ liveStatuses
      · rw [if_pos hlive, if_pos hlive]
        refine .inl ⟨rfl, rfl, fun id hid' => ⟨r, ?_, hlive⟩⟩
        rw [← Option.some.inj (hid.symm.trans hid'), hrun]
      · rw [if_neg hlive, if_neg hlive]
        refine .inr ⟨p.runId, hid, by rw [hrun], fun r' hr' => ?_, ?_⟩
        · rw [← Option.some.inj (hrun.symm.trans hr')]
          exact hlive
        · rw [hrun, Option.any_some, RunRecord.succeeded]
          split_ifs with hsucc hdec
          · rfl
          · exact absurd (decide_eq_true hsucc) hdec
          · exact absurd (of_decide_eq_true ‹_›) hsucc
          · rfl

/-! ### The record of one role or job -/

theorem misses_snoc :
    misses (log ++ [n]) = if n.success then 0 else misses log + if n.miss then 1 else 0 := by
  unfold misses
  rw [List.reverse_append, List.reverse_singleton, List.singleton_append, List.takeWhile_cons]
  cases n.success with
  | true => rfl
  | false => exact List.countP_cons

theorem mem_of_mem_snoc {x : Note} (h : x ∈ log ++ [n]) (hne : x ≠ n) : x ∈ log :=
  (List.mem_append.mp h).resolve_right fun hlast => hne (List.mem_singleton.mp hlast)

/-- The log of a role or job, its pending run and its misses agree. -/
structure Tallied (issued : List String) (log : List Note) (tally : Option String × ℕ) : Prop where
  once : ∀ id, .fired id ∈ log → log.countP (Note.settles id) = 1 ∨
    log.countP (Note.settles id) = 0 ∧ tally.1 = some id
  known : ∀ id r, .settled id r ∈ log → .fired id ∈ log
  ended : ∀ id r, .settled id (some r) ∈ log → r.status ∉ liveStatuses
  streak : tally.2 = misses log
  issued : ∀ id, .fired id ∈ log → id ∈ issued
  pending : ∀ id, tally.1 = some id →
    .fired id ∈ log ∧ log.countP (Note.settles id) = 0

variable {issued : List String} {tally : Option String × ℕ} {run : Option RunRecord}

theorem Tallied.mono (h : Tallied issued log tally) (id : String) :
    Tallied (id :: issued) log tally :=
  { h with issued := fun id' hid => List.mem_cons_of_mem _ (h.issued id' hid) }

theorem Tallied.unsettled (h : Tallied issued log tally) (hnew : id ∉ issued) :
    log.countP (Note.settles id) = 0 := by
  rw [List.countP_eq_zero]
  intro n hn hs
  cases n with
  | fired id' => cases hs
  | settled id' r =>
    obtain rfl : id' = id := of_decide_eq_true hs
    exact hnew (h.issued _ (h.known _ r hn))
  | skipped => cases hs

/-- **A pending run is settled.** -/
theorem Tallied.settle (h : Tallied issued log tally) (hid : tally.1 = some id)
    (hended : ∀ r, run = some r → r.status ∉ liveStatuses) :
    Tallied issued (log ++ [.settled id run])
      (none, if run.any RunRecord.succeeded then 0 else tally.2 + 1) where
  once id' hfired := by
    have hold : .fired id' ∈ log := mem_of_mem_snoc hfired nofun
    left
    rw [List.countP_append, List.countP_singleton, settles_settled]
    by_cases heq : id = id'
    · subst heq
      rw [(h.pending id hid).2, if_pos (decide_eq_true rfl)]
    · rw [if_neg fun hs => heq (of_decide_eq_true hs)]
      rcases h.once id' hold with hone | ⟨-, hpend⟩
      · exact hone
      · exact absurd (Option.some.inj (hid.symm.trans hpend)) heq
  known id' r hr := by
    refine List.mem_append_left _ ?_
    rcases List.mem_append.mp hr with hold | hlast
    · exact h.known id' r hold
    · obtain ⟨rfl, -⟩ := Note.settled.inj (List.mem_singleton.mp hlast)
      exact (h.pending _ hid).1
  ended id' r hr := by
    rcases List.mem_append.mp hr with hold | hlast
    · exact h.ended id' r hold
    · obtain ⟨-, hrun⟩ := Note.settled.inj (List.mem_singleton.mp hlast)
      exact hended r hrun.symm
  streak := by
    rw [misses_snoc, h.streak, success_settled, miss_settled]
    cases run.any RunRecord.succeeded with
    | true => rfl
    | false => rfl
  issued id' hfired := h.issued id' (mem_of_mem_snoc hfired nofun)
  pending id' hid' := nomatch hid'

theorem Tallied.skip (h : Tallied issued log tally) :
    Tallied issued (log ++ [.skipped]) (tally.1, tally.2 + 1) where
  once id' hfired := by
    rw [List.countP_append]
    exact h.once id' (mem_of_mem_snoc hfired nofun)
  known id' r hr := List.mem_append_left _ (h.known id' r (mem_of_mem_snoc hr nofun))
  ended id' r hr := h.ended id' r (mem_of_mem_snoc hr nofun)
  streak := by
    rw [misses_snoc, h.streak]
    rfl
  issued id' hfired := h.issued id' (mem_of_mem_snoc hfired nofun)
  pending id' hid' := by
    obtain ⟨hmem, hzero⟩ := h.pending id' hid'
    refine ⟨List.mem_append_left _ hmem, ?_⟩
    rw [List.countP_append, hzero]
    rfl

/-- **A slot is fired, with no run pending.** -/
theorem Tallied.fire (h : Tallied issued log tally) (hnone : tally.1 = none)
    (hnew : id ∉ issued) :
    Tallied (id :: issued) (log ++ [.fired id]) (some id, tally.2) where
  once id' hfired := by
    rw [List.countP_append]
    rcases List.mem_append.mp hfired with hold | hlast
    · rcases h.once id' hold with hone | ⟨-, hpend⟩
      · exact .inl hone
      · rw [hnone] at hpend
        cases hpend
    · obtain rfl := Note.fired.inj (List.mem_singleton.mp hlast)
      rw [h.unsettled hnew]
      exact .inr ⟨rfl, rfl⟩
  known id' r hr := List.mem_append_left _ (h.known id' r (mem_of_mem_snoc hr nofun))
  ended id' r hr := h.ended id' r (mem_of_mem_snoc hr nofun)
  streak := by
    rw [misses_snoc, h.streak]
    rfl
  issued id' hfired := by
    rcases List.mem_append.mp hfired with hold | hlast
    · exact List.mem_cons_of_mem _ (h.issued id' hold)
    · rw [Note.fired.inj (List.mem_singleton.mp hlast)]
      exact List.mem_cons_self
  pending id' hid' := by
    obtain rfl := Option.some.inj hid'
    refine ⟨List.mem_append_right _ List.mem_cons_self, ?_⟩
    rw [List.countP_append, h.unsettled hnew]
    rfl

/-! ### Runs -/

/-- Every role or job has a record that agrees. -/
def Ledger.Agrees (w : Ledger) : Prop :=
  ∀ key, Tallied w.issued (w.log key) (w.proc.mem key).tally

theorem Ledger.Agrees.reconcile (h : w.Agrees) (saved : Bool) : (w.reconcile saved).Agrees := by
  intro key
  have hkey := h key
  change Tallied w.issued (w.log key ++ settlement w.runs.getRun (w.proc.mem key))
    (reconcileEntry w.runs.getRun (w.proc.mem key)).tally
  rcases settlement_cases w.runs.getRun (w.proc.mem key) with
    ⟨hnone, hsame, -⟩ | ⟨id, hid, hsome, hended, htally⟩
  · rw [hnone, hsame, List.append_nil]
    exact hkey
  · rw [hsome, htally]
    exact hkey.settle hid hended

/-- The slot that is handled is noted in its own log. -/
theorem Ledger.Agrees.handle (h : w.Agrees) {p : Process}
    (hmem : p.mem = w.proc.mem.set i.key (record i due now outcome (w.proc.mem i.key)))
    (hclear : ∀ id, outcome = .ok id → (w.proc.mem i.key).pendingRun = none ∧ id ∉ w.issued) :
    (w.handle i outcome p).Agrees := by
  intro key
  change Tallied (w.handle i outcome p).issued
    (Function.update w.log i.key (w.log i.key ++ [noteOf outcome]) key) (p.mem key).tally
  have hkey := h key
  cases outcome with
  | error reason =>
    by_cases heq : key = i.key
    · rw [heq, hmem, State.set_self, Function.update_self]
      exact (h i.key).skip
    · rw [hmem, State.set_of_ne _ heq, Function.update_of_ne heq]
      exact hkey
  | ok id =>
    obtain ⟨hnone, hnew⟩ := hclear id rfl
    by_cases heq : key = i.key
    · rw [heq, hmem, State.set_self, Function.update_self]
      exact (h i.key).fire (congrArg (Option.map PendingRun.runId) hnone) hnew
    · rw [hmem, State.set_of_ne _ heq, Function.update_of_ne heq]
      exact hkey.mono id

/-- **A clear step keeps the records.** -/
theorem Ledger.Agrees.step (h : w.Agrees) (hs : ClearStep C w ev w') : w'.Agrees := by
  obtain ⟨hs, hclear⟩ := hs
  cases hs with
  | runs => exact h
  | @settings p step pending missed =>
    intro key
    have htally : (p.mem key).tally = (w.proc.mem key).tally :=
      Prod.ext (congrArg (Option.map PendingRun.runId) (pending key)) (missed key)
    change Tallied w.issued (w.log key) (p.mem key).tally
    rw [htally]
    exact h key
  | reconcile step => exact h.reconcile _
  | @tick l p kind step active fresh =>
    unfold Ledger.after
    rcases step.handled kind with ⟨i, due, outcome, hhandles, hmem⟩ | ⟨hhandles, htally⟩
    · rw [hhandles]
      refine h.handle hmem fun id hok => ?_
      subst hok
      exact ⟨hclear i due id hhandles, (fresh i due id hhandles).1⟩
    · rw [hhandles]
      intro key
      change Tallied w.issued (w.log key) (p.mem key).tally
      rw [htally key]
      exact h key

theorem agrees_boot (h : Unrecorded st) : (Ledger.boot st runs).Agrees := by
  intro key
  obtain ⟨hnone, hzero⟩ := h key
  have htally : (st key).tally = (none, 0) :=
    Prod.ext (congrArg (Option.map PendingRun.runId) hnone) hzero
  change Tallied [] [] (st key).tally
  rw [htally]
  exact ⟨nofun, nofun, nofun, rfl, nofun, nofun⟩

theorem Ledger.Agrees.settledOnce (h : w.Agrees) : SettledOnce w where
  once key := (h key).once
  known key := (h key).known
  ended key := (h key).ended
  streak key := (h key).streak

theorem Ledger.Agrees.live (h : w.Agrees) {saved : Bool}
    (hfired : .fired id ∈ (w.reconcile saved).log key) :
    ((w.reconcile saved).log key).countP (Note.settles id) = 1 ∨
      ∃ r, w.runs.getRun id = some r ∧ r.status ∈ liveStatuses := by
  rcases (h.reconcile saved key).once id hfired with hone | ⟨-, hpend⟩
  · exact .inl hone
  · change (reconcileEntry w.runs.getRun (w.proc.mem key)).tally.1 = some id at hpend
    rcases settlement_cases w.runs.getRun (w.proc.mem key) with
      ⟨-, hsame, hlive⟩ | ⟨id', -, -, -, htally⟩
    · rw [hsame] at hpend
      exact .inr (hlive id hpend)
    · rw [htally] at hpend
      cases hpend

/-- **Every fired slot is settled exactly once**, and the misses are counted, in every run of
ticks and of runs' statuses in which no slot is fired over a pending run: a run that is not
settled after a reconcile is live. -/
theorem settledOnce_of_clear (start : Unrecorded st)
    (p : Path (ClearStep C) (.boot st runs) evs w) :
    SettledOnce w ∧ ∀ saved key id, .fired id ∈ (w.reconcile saved).log key →
      ((w.reconcile saved).log key).countP (Note.settles id) = 1 ∨
        ∃ r, w.runs.getRun id = some r ∧ r.status ∈ liveStatuses := by
  have hrun : w.Agrees := p.invariant (fun _ _ _ h hs => h.step hs) (agrees_boot start)
  exact ⟨hrun.settledOnce, fun _ _ _ hfired => hrun.live hfired⟩

/-! ### Two runs of one role -/

theorem ClearStep.quiet {p : Process} (kind : l.ofTick = true) (step : Step C w.proc l p)
    (hnone : w.proc.handles l = none)
    (active : ∀ i due x todo pending decided,
      w.proc.phase = .judging i due x todo pending decided →
        ActiveRun w.runs i.role.name (w.proc.ask i.key).gates.activeRun) :
    ClearStep C w (.tick l) { w with proc := p } := by
  have hnever : ∀ i due id, w.proc.handles l ≠ some (i, due, .ok id) := by
    rw [hnone]
    exact nofun
  have hs := LedgerStep.tick kind step active fun _ _ _ h => absurd h (hnever _ _ _)
  unfold Ledger.after at hs
  rw [hnone] at hs
  exact ⟨hs, fun _ _ _ h => absurd h (hnever _ _ _)⟩

theorem LedgerStep.submit {q : Pending} {todo : List Pending} {p : Process}
    (at' : w.proc.phase = .firing (q :: todo))
    (step : Step C w.proc (.fire q.key q.due true) p)
    (hok : fireOutcome q.repo (w.proc.ask q.key).checks = .ok id) (hnew : id ∉ w.issued)
    (hfree : w.runs id = none) :
    LedgerStep C w (.tick (.fire q.key q.due true)) (w.handle q.item (.ok id) p) := by
  have hhandles : w.proc.handles (.fire q.key q.due true) = some (q.item, q.due, .ok id) := by
    unfold Process.handles
    rw [at']
    dsimp only
    rw [hok]
  have hs := LedgerStep.tick rfl step (fun _ _ _ _ _ _ h => nomatch at'.symm.trans h)
    fun _ _ id' h => by
      rw [hhandles] at h
      obtain ⟨-, h⟩ := Prod.mk.inj (Option.some.inj h)
      rw [← Except.ok.inj (Prod.mk.inj h).2]
      exact ⟨hnew, hfree⟩
  unfold Ledger.after at hs
  rw [hhandles] at hs
  exact hs

/-- Every slot passes the gates, and its run gets this id. -/
def submits (id : String) : String → Answers := fun _ => { checks := { submit := .ok id } }

def storeOf (ids : List String) (status : RunStatus) : RunStore :=
  fun id => if id ∈ ids then some ⟨⟨status, ""⟩, "r"⟩ else none

theorem storeOf_inactive {ids : List String} {status : RunStatus} (role : String)
    (h : status ∉ activeStatuses) : ActiveRun (storeOf ids status) role none := by
  intro id r hr _
  unfold storeOf at hr
  split_ifs at hr
  rw [← Option.some.inj hr]
  exact h

theorem tick_oneRole (w : Ledger) (now due : Int) (id : String) (ids : List String)
    (status : RunStatus) (idle : w.proc.phase = .ended .returned)
    (isDue : (look hourly hourlyItem.cron now (w.proc.mem hourlyItem.key)).due now = some due)
    (passes : verdict hourlyItem (look hourly hourlyItem.cron now (w.proc.mem hourlyItem.key)) {} =
      .ok ("", none))
    (hruns : w.runs = storeOf ids status) (hinactive : status ∉ activeStatuses) (hid : id ∉ ids)
    (hnew : id ∉ w.issued) :
    ∃ evs p, Path (fun w' ev w'' => LedgerStep hourly w' ev w'' ∧
        ((w.proc.mem hourlyItem.key).pendingRun = none → Clear w' ev)) w evs
        (w.handle hourlyItem (.ok id) p) ∧
      p.phase = .ended .returned ∧
      p.mem hourlyItem.key =
        recordScheduledFire { (look hourly hourlyItem.cron now (w.proc.mem hourlyItem.key)).entry
        with cursor := some now } due id now "r" none := by
  obtain ⟨proc, runs, issued, log⟩ := w
  dsimp only at *
  subst hruns
  -- the states of the tick: the slot is found and queued, and then it is fired
  let q : Pending := ⟨hourlyItem, due, "", none⟩
  let p₁ := proc.start now oneRole (submits id)
  have hx :
    p₁.lookAt hourly hourlyItem = look hourly hourlyItem.cron now (proc.mem hourlyItem.key) := rfl
  let p₂ :=
    ((p₁.looked hourly hourlyItem []).move hourlyItem due (p₁.lookAt hourly hourlyItem)).goto
    (.judging hourlyItem due (p₁.lookAt hourly hourlyItem) [] [] false)
  have hask : p₂.ask = submits id := (looked_spec hourly p₁ hourlyItem []).2.2.1
  have hnow : p₂.now = now := (looked_spec hourly p₁ hourlyItem []).2.1
  let p₃ := p₂.goto (.queueing [] [q] false)
  let p₄ := p₃.goto (.firing [q])
  let p₅ := (p₄.handle hourlyItem due (.ok id)).goto (.firing [])
  have hmem : p₄.mem hourlyItem.key =
      { (p₁.lookAt hourly hourlyItem).entry with cursor := some now } := by
    rw [← hnow]
    exact State.set_self (p₁.looked hourly hourlyItem []).mem hourlyItem.key _
  have s₁ : Step hourly proc (.start now) p₁ := .start idle
  have s₂ : Step hourly p₁ .look p₂ :=
    .find (congrArg (Phase.queueing · [] false) items_oneRole) isDue rfl
  have hverdict : verdict hourlyItem (p₁.lookAt hourly hourlyItem) (p₂.ask hourlyItem.key).gates =
      .ok ("", none) := by
    rw [hask]
    exact passes
  have s₃ : Step hourly p₂ .judge p₃ := .queue rfl hverdict
  have s₄ : Step hourly p₃ .save p₄ := @Step.save _ _ _ [q] false rfl
  have hfire : fireOutcome "" (p₄.ask hourlyItem.key).checks = .ok id := by
    rw [show p₄.ask = submits id from hask]
    rfl
  have s₅ : Step hourly p₄ (.fire hourlyItem.key due true) p₅ :=
    @Step.fire _ _ _ q [] (.ok id) rfl hfire
  have s₆ : Step hourly p₅ .close ((p₅.save false).goto (.ended .returned)) := .close rfl
  have hquiet : ∀ {l : Label} {p p' : Process}, l.ofTick = true → Step hourly p l p' →
      p.handles l = none →
      (∀ i due x todo pending decided, p.phase = .judging i due x todo pending decided →
        (p.ask i.key).gates.activeRun = none) →
      LedgerStep hourly ⟨p, storeOf ids status, issued, log⟩ (.tick l)
          ⟨p', storeOf ids status, issued, log⟩ ∧
        ((proc.mem hourlyItem.key).pendingRun = none →
          Clear ⟨p, storeOf ids status, issued, log⟩ (.tick l)) := by
    intro l p p' kind step hnone active
    obtain ⟨hs, hc⟩ := ClearStep.quiet (w := ⟨p, storeOf ids status, issued, log⟩) kind step hnone
      fun i due x todo pending decided h => by
        rw [active i due x todo pending decided h]
        exact storeOf_inactive _ hinactive
    exact ⟨hs, fun _ => hc⟩
  have at₁ : p₁.phase = .queueing oneRole.items [] false := rfl
  have at₂ : p₂.phase = .judging hourlyItem due (p₁.lookAt hourly hourlyItem) [] [] false := rfl
  have at₃ : p₃.phase = .queueing [] [q] false := rfl
  have at₄ : p₄.phase = .firing [q] := rfl
  have at₅ : p₅.phase = .firing [] := rfl
  have l₁ := hquiet rfl s₁ rfl fun _ _ _ _ _ _ h => nomatch idle.symm.trans h
  have l₂ := hquiet rfl s₂ rfl fun _ _ _ _ _ _ h => nomatch at₁.symm.trans h
  have hqueued : p₂.handles .judge = none := by
    unfold Process.handles
    rw [at₂]
    dsimp only
    rw [hverdict]
  have l₃ := hquiet rfl s₃ hqueued fun i due x todo pending decided h => by
    rw [hask]
    rfl
  have l₄ := hquiet rfl s₄ rfl fun _ _ _ _ _ _ h => nomatch at₃.symm.trans h
  have l₅ : LedgerStep hourly ⟨p₄, storeOf ids status, issued, log⟩
      (.tick (.fire hourlyItem.key due true))
      (Ledger.handle ⟨p₄, storeOf ids status, issued, log⟩ hourlyItem (.ok id) p₅) :=
    .submit (q := q) at₄ s₅ hfire hnew (if_neg hid)
  have l₆ := ClearStep.quiet
    (w := Ledger.handle ⟨p₄, storeOf ids status, issued, log⟩ hourlyItem (.ok id) p₅) rfl s₆ rfl
    fun _ _ _ _ _ _ h => nomatch at₅.symm.trans h
  refine ⟨_, (p₅.save false).goto (.ended .returned), .cons l₁ <| .cons l₂ <| .cons l₃ <|
    .cons l₄ <| .cons ⟨l₅, fun hnone i due id h => ?_⟩ <|
    .cons ⟨l₆.1, fun _ => l₆.2⟩ <| .nil _, rfl, ?_⟩
  · have hfired : p₄.handles (.fire hourlyItem.key q.due true) =
        some (hourlyItem, q.due, fireOutcome "" (p₄.ask hourlyItem.key).checks) := rfl
    obtain ⟨rfl, -⟩ := Prod.mk.inj (Option.some.inj (hfired.symm.trans h))
    change (p₄.mem hourlyItem.key).pendingRun = none
    rw [hmem]
    have htally := congrArg Prod.fst
      (@tally_look _ hourly now (proc.mem hourlyItem.key) hourlyItem.cron)
    unfold Entry.tally at htally
    rw [hnone] at htally
    exact Option.map_eq_none_iff.mp htally
  · change p₄.mem.set hourlyItem.key (record hourlyItem due p₄.now (.ok id)
      (p₄.mem hourlyItem.key)) hourlyItem.key = _
    rw [State.set_self, hmem, show p₄.now = now from hnow]
    rfl

def bootOne : Ledger := .boot (fun _ => { cursor := some 1000 }) (storeOf [] .succeeded)

/-- The run of the full hour succeeds, and is settled. -/
theorem settledOnce_of_clear_succeeded :
    ∃ w : Ledger, w.log "r" = [.fired "r1", .settled "r1" (some ⟨.succeeded, ""⟩)] ∧
      SettledOnce w := by
  obtain ⟨evs, p, hrun, hidle, hmem⟩ := tick_oneRole bootOne 3700 3600 "r1" [] .succeeded
    rfl rfl rfl rfl (by decide) List.not_mem_nil List.not_mem_nil
  have hclear : Path (ClearStep hourly) bootOne evs (bootOne.handle hourlyItem (.ok "r1") p) :=
    hrun.imp (I := fun _ => True) (fun _ _ _ _ hs => ⟨⟨hs.1, hs.2 rfl⟩, trivial⟩) trivial
  have hend := (hclear.snoc ⟨@LedgerStep.runs _ _ _ (storeOf ["r1"] .succeeded), trivial⟩).snoc
    ⟨@LedgerStep.reconcile _ _ _ true (.reconcile hidle), trivial⟩
  refine ⟨_, ?_, (settledOnce_of_clear (fun _ => ⟨rfl, rfl⟩) hend).1⟩
  change [.fired "r1"] ++ settlement (storeOf ["r1"] .succeeded).getRun (p.mem hourlyItem.key) = _
  rw [hmem]
  rfl

/-- The run of one hour needs input, and the slot of the next hour is fired over it; both runs
succeed, and the first is never settled. -/
theorem run_overwritten :
    ¬ ∀ (C : Cron Unit) (st : State) (runs : RunStore) (evs : List LedgerEvent) (w : Ledger),
      Unrecorded st → Path (LedgerStep C) (.boot st runs) evs w → SettledOnce w := by
  intro h
  obtain ⟨_, p, hrun, hidle, hmem⟩ := tick_oneRole bootOne 3700 3600 "r1" [] .succeeded
    rfl rfl rfl rfl (by decide) List.not_mem_nil List.not_mem_nil
  let w₁ := bootOne.handle hourlyItem (.ok "r1") p
  let w₂ : Ledger := { w₁ with runs := storeOf ["r1"] .needsInput }
  have hentry : w₂.proc.mem hourlyItem.key = recordScheduledFire { cursor := some 3700 } 3600 "r1"
    3700 "r" none := hmem
  obtain ⟨_, p', hrun', hidle', hmem'⟩ := tick_oneRole w₂ 7300 7200 "r2" ["r1"] .needsInput
    hidle (by rw [hentry]; rfl) (by rw [hentry]; rfl) rfl (by decide) (by decide)
    (show "r2" ∉ ["r1"] by decide)
  let w₃ := w₂.handle hourlyItem (.ok "r2") p'
  have hsteps : ∀ {quiet : Prop} {w evs w'},
      Path (fun w ev w' => LedgerStep hourly w ev w' ∧ (quiet → Clear w ev)) w evs w' →
        Path (LedgerStep hourly) w evs w' := fun p =>
    p.imp (I := fun _ => True) (fun _ _ _ _ hs => ⟨hs.1, trivial⟩) trivial
  have hend := ((((hsteps hrun).snoc (@LedgerStep.runs _ _ _ (storeOf ["r1"] .needsInput))).append
    (hsteps hrun')).snoc (@LedgerStep.runs _ _ _ (storeOf ["r1", "r2"] .succeeded))).snoc
    (@LedgerStep.reconcile _ _ _ true (.reconcile hidle'))
  have hsettled := h hourly _ _ _ _ (fun _ => ⟨rfl, rfl⟩) hend
  rw [hentry] at hmem'
  have hlog : (Ledger.reconcile { w₃ with runs := storeOf ["r1", "r2"] .succeeded } true).log "r" =
      [.fired "r1", .fired "r2", .settled "r2" (some ⟨.succeeded, ""⟩)] := by
    change [.fired "r1"] ++ [.fired "r2"] ++
      settlement (storeOf ["r1", "r2"] .succeeded).getRun (p'.mem hourlyItem.key) = _
    rw [hmem']
    rfl
  have honce := hsettled.once "r" "r1"
  rw [hlog] at honce
  rcases honce List.mem_cons_self with hone | ⟨-, hpend⟩
  · exact absurd hone (by decide)
  · change (reconcileEntry (storeOf ["r1", "r2"] .succeeded).getRun
      (p'.mem hourlyItem.key)).pendingRun.map PendingRun.runId = some "r1" at hpend
    rw [hmem'] at hpend
    cases hpend

end Steps

end Scheduler
