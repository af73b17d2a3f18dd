import Mathlib.Algebra.Order.Ring.Rat
import Mathlib.Data.List.Forall2
import RunnerDashboard.Lib.Asking

/-!
# The stop of a runner

A runner is frozen, looked at again, and only then told to stop; where the stop does not come about
its processes are resumed.  Only the freeze itself stands outside of what is cleaned up: where it
fails half way, what it has frozen stays frozen.

## Main results

* `harmless_iff` — **when a call is harmless.**
* `hasWorker_of_ends` — **no job is ended**, where the answers are right about the signals.
-/

namespace RunnerStop

open Asking Lts

/-! ### Units -/

inductive ProcessKind
  | listener
  | worker
  | other
  deriving DecidableEq

/-- A process of a unit; a signal that would end it is pending while it is frozen. -/
structure Process where
  pid : ℕ
  kind : ProcessKind
  frozen : Bool := false
  termPending : Bool := false
  killPending : Bool := false
  deriving DecidableEq

inductive Signal
  | stop
  | term
  | cont
  | kill
  deriving DecidableEq

def Process.signal (p : Process) : Signal → Process
  | .stop => { p with frozen := true }
  | .term => { p with termPending := true }
  | .cont => { p with frozen := false }
  | .kill => { p with killPending := true }

/-- A unit: its processes, whether a stop is queued, and whether it is stopped. -/
structure RunnerUnit where
  procs : List Process
  stopQueued : Bool := false
  inactive : Bool := false

def RunnerUnit.Thawed (s : RunnerUnit) : Prop := ∀ p ∈ s.procs, p.frozen = false

def RunnerUnit.hasWorker (s : RunnerUnit) : Bool := s.procs.any fun p => p.kind = .worker

/-- What may happen by itself. -/
inductive Drift : RunnerUnit → RunnerUnit → Prop
  /-- A job is picked up: the listener runs, and is not about to end. -/
  | pickUp {s : RunnerUnit} (p : Process) (pid : ℕ) (hp : p ∈ s.procs) (hkind : p.kind = .listener)
    (hfrozen : p.frozen = false) (hterm : p.termPending = false) :
    Drift s { s with procs := s.procs ++ [{ pid, kind := .worker }] }
  /-- A process ends: it runs, or it is killed. -/
  | exits {s : RunnerUnit} (p : Process) (hp : p ∈ s.procs)
    (h : p.frozen = false ∨ p.killPending = true) : Drift s { s with procs := s.procs.erase p }
  /-- The service manager resumes the processes that it is about to end. -/
  | resumes {s : RunnerUnit} (resumed : Process → Bool) (hqueued : s.stopQueued = true) :
    Drift s { s with procs := s.procs.map fun p => if resumed p then p.signal .cont else p }
  /-- The unit is stopped, by the stop that is queued or by another one; some of its processes may
  be left. -/
  | stops {s : RunnerUnit} (procs : List Process) (hsub : procs.Sublist s.procs) :
    Drift s { s with procs, inactive := true }

/-! ### Calls -/

/-- How a command ends. -/
inductive Status
  | zero
  | nonzero
  /-- `subprocess.TimeoutExpired`. -/
  | timeout
  /-- Another exception. -/
  | raises
  deriving DecidableEq

/-- How a command ends, and whether it had its full effect, which its caller does not see. -/
structure Reply where
  status : Status
  full : Bool

/-- What `_worker_absent` answers. -/
inductive Check
  | absent
  | present
  | raises
  deriving DecidableEq

inductive Query
  /-- `systemctl kill --kill-who=all`. -/
  | kill (signal : Signal)
  /-- `_worker_absent`. -/
  | workerAbsent
  /-- `systemctl show -p ActiveState --value`. -/
  | showActiveState
  /-- `systemctl stop`, with `--no-block` or without it. -/
  | stop (block : Bool)
  /-- `unit_active`. -/
  | unitActive
  /-- `_unit_cgroup_pids`. -/
  | unitCgroupPids
  /-- `_signal_pid`. -/
  | signalPid (pid : ℕ) (signal : Signal)
  | monotonic
  /-- `systemctl reset-failed`. -/
  | resetFailed

/-- An answer.  The second part of that of a check is whether there was a worker, which its caller
does not see. -/
def Answer : Query → Type
  | .kill _ => Reply
  | .workerAbsent => Check × Bool
  | .showActiveState => Option String
  | .stop _ => Status
  | .unitActive => Option Bool
  | .unitCgroupPids => Option (List ℕ)
  | .signalPid _ _ => PUnit
  | .monotonic => ℚ
  | .resetFailed => Status

/-- Some processes get a signal, and all of them if it has its full effect. -/
def Signalled (signal : Signal) (full : Bool) : List Process → List Process → Prop :=
  List.Forall₂ fun p p' => p' = p.signal signal ∨ full = false ∧ p' = p

inductive Effect : RunnerUnit → (q : Query) → Answer q → RunnerUnit → Prop
  | kill {s : RunnerUnit} {procs : List Process} (signal : Signal) (status : Status) (full : Bool)
    (h : Signalled signal full s.procs procs) :
    Effect s (.kill signal) ⟨status, full⟩ { s with procs }
  | workerAbsent {s : RunnerUnit} (check : Check) (h : s.hasWorker = true → check ≠ .absent) :
    Effect s .workerAbsent (check, s.hasWorker) s
  /-- The text is that of the unit, or nothing that it could be. -/
  | showActiveState {s : RunnerUnit} (text : Option String)
    (h : text = some "inactive" → s.inactive = true) : Effect s .showActiveState text s
  | stop {s : RunnerUnit} (block queued : Bool) (status : Status)
    (h : s.stopQueued = true → queued = true) :
    Effect s (.stop block) status { s with stopQueued := queued }
  | unitActive {s : RunnerUnit} (active : Option Bool) : Effect s .unitActive active s
  | unitCgroupPids {s : RunnerUnit} (pids : Option (List ℕ)) : Effect s .unitCgroupPids pids s
  | signalPid {s : RunnerUnit} (pid : ℕ) (signal : Signal) :
    Effect s (.signalPid pid signal) ⟨⟩
      { s with procs := s.procs.map fun p => if p.pid = pid then p.signal signal else p }
  | monotonic {s : RunnerUnit} (now : ℚ) : Effect s .monotonic now s
  | resetFailed {s : RunnerUnit} (status : Status) : Effect s .resetFailed status s

/-- Things happen before and after the effect of a call. -/
def Env (s : RunnerUnit) (q : Query) (answer : Answer q) (s' : RunnerUnit) : Prop :=
  ∃ t t', Relation.ReflTransGen Drift s t ∧ Effect t q answer t' ∧ Relation.ReflTransGen Drift t' s'

abbrev Program := Prog Query Answer

/-- What ends the function early; the last is the end of what a model of a loop runs. -/
inductive Failure
  | timeout
  | raises
  | outOfFuel
  deriving DecidableEq

def Status.failure? : Status → Option Failure
  | .zero => none
  | .nonzero => none
  | .timeout => some .timeout
  | .raises => some .raises

def systemctlKill (signal : Signal) : Program Reply := Prog.call (Query.kill signal)

def workerAbsent : Program (Check × Bool) := Prog.call Query.workerAbsent

def showActiveState : Program (Option String) := Prog.call Query.showActiveState

def systemctlStop (block : Bool) : Program Status := Prog.call (Query.stop block)

def unitActive : Program (Option Bool) := Prog.call Query.unitActive

def unitCgroupPids : Program (Option (List ℕ)) := Prog.call Query.unitCgroupPids

def signalPid (pid : ℕ) (signal : Signal) : Program PUnit := Prog.call (Query.signalPid pid signal)

def monotonic : Program ℚ := Prog.call Query.monotonic

def resetFailed : Program Status := Prog.call Query.resetFailed

/-! ### The function -/

/-- How the `try` block is left: by what it returns, if it does, or by an exception, with its
variables. -/
structure Exit where
  result : Except Failure (Option Bool)
  stopped : Bool := false
  resumed : Bool := false

/-- The part of the `try` block after the stop is queued. -/
def resumeAndStop : Program Exit := do
  let reply ← systemctlKill .cont
  match reply.status.failure? with
  | some e => pure { result := .error e }
  | none => do
    let resumed := decide (reply.status = .zero)
    let status ← systemctlStop true
    match status with
    | .raises => pure { result := .error .raises, resumed }
    | .timeout => do
      let active ← unitActive
      match active with
      | none => pure { result := .error .raises, resumed }
      | some active => pure { result := .ok none, stopped := !active, resumed }
    | status => pure { result := .ok none, stopped := decide (status = .zero), resumed }

/-- The part of the `try` block after the check. -/
def terminate : Program Exit := do
  let reply ← systemctlKill .term
  match reply.status with
  | .timeout => pure { result := .error .timeout }
  | .raises => pure { result := .error .raises }
  | .nonzero => do
    let text ← showActiveState
    match text with
    | none => pure { result := .error .raises }
    | some text =>
      let stopped := decide (text = "inactive")
      pure { result := .ok (some stopped), stopped }
  | .zero => do
    let status ← systemctlStop false
    match status with
    | .timeout => pure { result := .error .timeout }
    | .raises => pure { result := .error .raises }
    | .nonzero => pure { result := .ok (some false) }
    | .zero => resumeAndStop

/-- The `try` block. -/
def tryStop : Program Exit := do
  let check ← workerAbsent
  match check.1 with
  | .raises => pure { result := .error .raises }
  | .present => pure { result := .ok (some false) }
  | .absent => terminate

/-- The `finally` block; its exception is the one that is raised. -/
def thaw (e : Exit) : Program Exit := do
  if e.stopped || e.resumed then pure e
  else do
    let reply ← systemctlKill .cont
    match reply.status.failure? with
    | some failure => pure { e with result := .error failure }
    | none => pure e

def signalAll (signal : Signal) : List ℕ → Program PUnit
  | [] => pure ⟨⟩
  | pid :: pids => do
    let _ ← signalPid pid signal
    signalAll signal pids

/-- The wait of `_reap_leftover_processes`, with whether no process is left. -/
def awaitLeftovers (deadline : ℚ) : ℕ → Program (Except Failure Bool)
  | 0 => pure (.error .outOfFuel)
  | fuel + 1 => do
    let now ← monotonic
    if ¬ now < deadline then pure (.ok false)
    else do
      let pids ← unitCgroupPids
      match pids with
      | none => pure (.error .raises)
      | some [] => pure (.ok true)
      | some _ => awaitLeftovers deadline fuel

def reapLeftoverProcesses (leftoverTermWaitSeconds : ℚ) (fuel : ℕ) :
    Program (Except Failure PUnit) := do
  let pids ← unitCgroupPids
  match pids with
  | none => pure (.error .raises)
  | some [] => pure (.ok ⟨⟩)
  | some pids => do
    let _ ← signalAll .cont pids
    let _ ← signalAll .term pids
    let now ← monotonic
    let waited ← awaitLeftovers (now + leftoverTermWaitSeconds) fuel
    match waited with
    | .error e => pure (.error e)
    | .ok true => pure (.ok ⟨⟩)
    | .ok false => do
      let pids ← unitCgroupPids
      match pids with
      | none => pure (.error .raises)
      | some pids => do
        let _ ← signalAll .kill pids
        pure (.ok ⟨⟩)

/-- What follows the `finally` block where nothing is raised or returned. -/
def afterStop (leftoverTermWaitSeconds : ℚ) (fuel : ℕ) (stopped : Bool) :
    Program (Except Failure Bool) := do
  if !stopped then pure (.ok false)
  else do
    let reaped ← reapLeftoverProcesses leftoverTermWaitSeconds fuel
    match reaped with
    | .error e => pure (.error e)
    | .ok _ => do
      let status ← resetFailed
      match status.failure? with
      | some e => pure (.error e)
      | none => pure (.ok true)

/-- What is raised or returned after the `finally` block. -/
def leave (leftoverTermWaitSeconds : ℚ) (fuel : ℕ) (e : Exit) : Program (Except Failure Bool) :=
  match e.result with
  | .error failure => pure (.error failure)
  | .ok (some result) => pure (.ok result)
  | .ok none => afterStop leftoverTermWaitSeconds fuel e.stopped

def stopRunnerSafely (leftoverTermWaitSeconds : ℚ) (fuel : ℕ) : Program (Except Failure Bool) := do
  let reply ← systemctlKill .stop
  match reply.status with
  -- the freeze stands before the `try` block
  | .timeout => pure (.error .timeout)
  | .raises => pure (.error .raises)
  | .nonzero => pure (.ok false)
  | .zero => do
    let e ← tryStop
    let e ← thaw e
    leave leftoverTermWaitSeconds fuel e

/-! ### What is promised -/

def Query.Freezes : Query → Prop
  | .kill .stop | .signalPid _ .stop => True
  | _ => False

/-- A call that would end processes. -/
def Query.Ends : Query → Prop
  | .kill .term | .kill .kill | .signalPid _ .term | .signalPid _ .kill | .stop _ => True
  | _ => False

def thaw? : Call Answer → Option Reply
  | ⟨.kill .cont, reply⟩ => some reply
  | _ => none

/-- The replies to `SIGCONT`. -/
def thaws (tr : List (Call Answer)) : List Reply := tr.filterMap thaw?

/-- The last `SIGCONT` has its full effect. -/
def LastThawTakesEffect (tr : List (Call Answer)) : Prop :=
  ∀ reply, (thaws tr).getLast? = some reply → reply.full = true

/-- **The runner is stopped or not frozen, and a job that is found is not ended.** -/
structure Harmless (result : Except Failure Bool) (tr : List (Call Answer)) (s : RunnerUnit) :
    Prop where
  thawed : s.inactive = true ∨ s.Thawed
  vetoed : ∀ check, ⟨.workerAbsent, (check, true)⟩ ∈ tr →
    (∀ e ∈ tr, ¬ e.1.Ends) ∧ result = .ok false

/-- Where the freeze fails, what it leaves is stopped or not frozen. -/
def FreezeHarmless (freeze : Reply) (s : RunnerUnit) : Prop :=
  freeze.status = .zero ∨ s.inactive = true ∨ s.Thawed

/-- Where there is a worker, the check says so and the `SIGCONT` after it ends. -/
def VetoReturns (tr : List (Call Answer)) : Prop :=
  ∀ check, ⟨.workerAbsent, (check, true)⟩ ∈ tr →
    check = .present ∧ ∀ reply ∈ thaws tr, reply.status.failure? = none

/-! ### What is not frozen -/

variable {s t s' s₁ : RunnerUnit} {q : Query} {answer : Answer q} {tr past : List (Call Answer)}

theorem of_drifts {I : RunnerUnit → Prop} (hdrift : ∀ s t, Drift s t → I s → I t)
    (h : Relation.ReflTransGen Drift s t) (hs : I s) : I t := by
  induction h with
  | refl => exact hs
  | tail _ h ih => exact hdrift _ _ h ih

theorem of_env {I J : RunnerUnit → Prop} (hI : ∀ s t, Drift s t → I s → I t)
    (hJ : ∀ s t, Drift s t → J s → J t) (heffect : ∀ s t, Effect s q answer t → I s → J t)
    (h : Env s q answer s') (hs : I s) : J s' := by
  obtain ⟨t, t', hbefore, h, hafter⟩ := h
  exact of_drifts hJ hafter (heffect t t' h (of_drifts hI hbefore hs))

theorem thawed_of_drift (s t : RunnerUnit) (h : Drift s t) (hs : s.Thawed) : t.Thawed := by
  cases h with
  | pickUp p pid =>
    intro p hp
    rcases List.mem_append.mp hp with hp | hp
    · exact hs p hp
    · rw [List.mem_singleton.mp hp]
  | exits p => exact fun p hp => hs p (List.mem_of_mem_erase hp)
  | resumes resumed =>
    intro p hp
    obtain ⟨p, hmem, rfl⟩ := List.mem_map.mp hp
    split
    · rfl
    · exact hs p hmem
  | stops procs hsub => exact fun p hp => hs p (hsub.subset hp)

theorem signal_frozen {p : Process} {signal : Signal} (hne : signal ≠ .stop)
    (hp : p.frozen = false) : (p.signal signal).frozen = false := by
  cases signal with
  | stop => exact absurd rfl hne
  | term => exact hp
  | cont => rfl
  | kill => exact hp

theorem exists_of_signalled {signal : Signal} {full : Bool} {procs procs' : List Process}
    (h : Signalled signal full procs procs') {p' : Process} (hp' : p' ∈ procs') :
    ∃ p ∈ procs, p' = p.signal signal ∨ full = false ∧ p' = p := by
  induction h with
  | nil => exact absurd hp' List.not_mem_nil
  | cons hhead htail ih =>
    rcases List.mem_cons.mp hp' with rfl | hp'
    · exact ⟨_, List.mem_cons_self, hhead⟩
    · obtain ⟨p, hp, h⟩ := ih hp'
      exact ⟨p, List.mem_cons_of_mem _ hp, h⟩

theorem thawed_of_effect (hq : ¬ q.Freezes) (h : Effect s q answer t) (hs : s.Thawed) :
    t.Thawed := by
  cases h with
  | kill signal status full h =>
    intro p' hp'
    have hne : signal ≠ .stop := by
      rintro rfl
      exact hq trivial
    obtain ⟨p, hp, rfl | ⟨-, rfl⟩⟩ := exists_of_signalled h hp'
    · exact signal_frozen hne (hs p hp)
    · exact hs _ hp
  | signalPid pid signal =>
    intro p' hp'
    have hne : signal ≠ .stop := by
      rintro rfl
      exact hq trivial
    obtain ⟨p, hp, rfl⟩ := List.mem_map.mp hp'
    split
    · exact signal_frozen hne (hs p hp)
    · exact hs p hp
  | _ => exact hs

/-- A `SIGCONT` with its full effect leaves nothing frozen. -/
theorem thawed_of_cont {reply : Reply} (hfull : reply.full = true)
    (h : Effect s (.kill .cont) reply t) : t.Thawed := by
  cases h with
  | kill signal status full h =>
    intro p' hp'
    obtain ⟨p, hp, rfl | ⟨hpart, -⟩⟩ := exists_of_signalled h hp'
    · rfl
    · exact absurd (hfull.symm.trans hpart) (by simp)

theorem thawed_of_env (hq : ¬ q.Freezes) (h : Env s q answer s') (hs : s.Thawed) : s'.Thawed :=
  of_env thawed_of_drift thawed_of_drift (fun _ _ => thawed_of_effect hq) h hs

theorem thawed_of_env_cont {reply : Reply} (hfull : reply.full = true)
    (h : Env s (.kill .cont) reply s') : s'.Thawed :=
  of_env (I := fun _ => True) (fun _ _ _ h => h) thawed_of_drift
    (fun _ _ h _ => thawed_of_cont hfull h) h trivial

theorem thaw?_eq_some {e : Call Answer} {reply : Reply} (h : thaw? e = some reply) :
    e = ⟨.kill .cont, reply⟩ := by
  obtain ⟨q, answer⟩ := e
  unfold thaw? at h
  split at h
  · next heq =>
    rw [heq, Option.some.inj h]
  · cases h

/-- **Nothing is frozen after all the processes were resumed.** -/
theorem thawed_of_path {α : Type} {p p' : Program α} (honly : p.Only fun q => ¬ q.Freezes)
    (path : Path (Step Env) (p, s) tr (p', s')) {reply : Reply}
    (hlast : (thaws tr).getLast? = some reply) (hfull : reply.full = true) : s'.Thawed := by
  refine honly.history (I := fun past s => ∀ reply, (thaws past).getLast? = some reply →
    reply.full = true → s.Thawed) ?_ path nofun reply hlast hfull
  intro past s q answer s' hq hI henv reply hlast hfull
  rw [thaws, List.filterMap_append] at hlast
  cases hthaw : thaw? ⟨q, answer⟩ with
  | none =>
    rw [List.filterMap_cons_none hthaw, List.filterMap_nil, List.append_nil] at hlast
    exact thawed_of_env hq henv (hI reply hlast hfull)
  | some other =>
    rw [List.filterMap_cons_some hthaw, List.filterMap_nil, List.getLast?_append,
      List.getLast?_singleton, Option.some_or] at hlast
    cases thaw?_eq_some hthaw
    rw [Option.some.inj hlast] at henv
    exact thawed_of_env_cont hfull henv

/-! ### What is stopped -/

theorem inactive_of_drift (s t : RunnerUnit) (h : Drift s t) (hs : s.inactive = true) :
    t.inactive = true := by
  cases h with
  | stops => rfl
  | _ => exact hs

theorem inactive_of_effect (h : Effect s q answer t) (hs : s.inactive = true) :
    t.inactive = true := by
  cases h with
  | _ => exact hs

theorem inactive_of_env (h : Env s q answer s') (hs : s.inactive = true) : s'.inactive = true :=
  of_env inactive_of_drift inactive_of_drift (fun _ _ => inactive_of_effect) h hs

/-- The text of a unit that is stopped is that of one. -/
theorem inactive_of_showActiveState (h : Env s .showActiveState (some "inactive") s') :
    s'.inactive = true := by
  refine of_env (I := fun _ => True) (fun _ _ _ h => h) inactive_of_drift ?_ h trivial
  intro s t heffect _
  cases heffect with
  | showActiveState text h => exact h rfl

/-! ### The calls of the parts -/

def Query.AfterCheck : Query → Prop
  | .kill .stop | .signalPid _ .stop | .workerAbsent => False
  | _ => True

theorem not_freezes (h : q.AfterCheck) : ¬ q.Freezes := by
  intro hfreezes
  cases q with
  | kill signal => cases signal <;> first | exact h | exact hfreezes
  | signalPid pid signal => cases signal <;> first | exact h | exact hfreezes
  | _ => exact hfreezes

theorem ne_workerAbsent (h : q.AfterCheck) : q ≠ .workerAbsent := by
  rintro rfl
  exact h

theorem only_resumeAndStop : resumeAndStop.Only Query.AfterCheck := by
  refine only_bind (only_call.mpr trivial) fun reply => ?_
  split
  · exact only_pure
  · refine only_bind (only_call.mpr trivial) fun status => ?_
    cases status with
    | timeout =>
      refine only_bind (only_call.mpr trivial) fun active => ?_
      cases active with
      | none => exact only_pure
      | some active => exact only_pure
    | _ => exact only_pure

theorem only_terminate : terminate.Only Query.AfterCheck := by
  refine only_bind (only_call.mpr trivial) fun reply => ?_
  split
  · exact only_pure
  · exact only_pure
  · refine only_bind (only_call.mpr trivial) fun text => ?_
    cases text with
    | none => exact only_pure
    | some text => exact only_pure
  · refine only_bind (only_call.mpr trivial) fun status => ?_
    cases status with
    | zero => exact only_resumeAndStop
    | _ => exact only_pure

theorem only_thaw (e : Exit) : (thaw e).Only Query.AfterCheck := by
  unfold thaw
  split
  · exact only_pure
  · refine only_bind (only_call.mpr trivial) fun reply => ?_
    split
    · exact only_pure
    · exact only_pure

theorem only_signalAll {signal : Signal} (hne : signal ≠ .stop) (pids : List ℕ) :
    (signalAll signal pids).Only Query.AfterCheck := by
  induction pids with
  | nil => exact only_pure
  | cons pid pids ih =>
    refine only_bind (only_call.mpr ?_) fun _ => ih
    cases signal with
    | stop => exact absurd rfl hne
    | _ => trivial

theorem only_awaitLeftovers (deadline : ℚ) (fuel : ℕ) :
    (awaitLeftovers deadline fuel).Only Query.AfterCheck := by
  induction fuel with
  | zero => exact only_pure
  | succ fuel ih =>
    refine only_bind (only_call.mpr trivial) fun now => ?_
    split
    · exact only_pure
    · refine only_bind (only_call.mpr trivial) fun pids => ?_
      split
      · exact only_pure
      · exact only_pure
      · exact ih

theorem only_reapLeftoverProcesses (wait : ℚ) (fuel : ℕ) :
    (reapLeftoverProcesses wait fuel).Only Query.AfterCheck := by
  refine only_bind (only_call.mpr trivial) fun pids => ?_
  split
  · exact only_pure
  · exact only_pure
  · refine only_bind (only_signalAll (by simp) _) fun _ => ?_
    refine only_bind (only_signalAll (by simp) _) fun _ => ?_
    refine only_bind (only_call.mpr trivial) fun now => ?_
    refine only_bind (only_awaitLeftovers _ _) fun waited => ?_
    split
    · exact only_pure
    · exact only_pure
    · refine only_bind (only_call.mpr trivial) fun pids => ?_
      cases pids with
      | none => exact only_pure
      | some pids => exact only_bind (only_signalAll (by simp) _) fun _ => only_pure

theorem only_afterStop (wait : ℚ) (fuel : ℕ) (stopped : Bool) :
    (afterStop wait fuel stopped).Only Query.AfterCheck := by
  unfold afterStop
  split
  · exact only_pure
  · refine only_bind (only_reapLeftoverProcesses _ _) fun reaped => ?_
    cases reaped with
    | error e => exact only_pure
    | ok _ =>
      refine only_bind (only_call.mpr trivial) fun status => ?_
      split
      · exact only_pure
      · exact only_pure

theorem only_leave (wait : ℚ) (fuel : ℕ) (e : Exit) :
    (leave wait fuel e).Only Query.AfterCheck := by
  unfold leave
  split
  · exact only_pure
  · exact only_pure
  · exact only_afterStop wait fuel e.stopped

/-! ### How the function ends -/

/-- The function went on after the check, where there was no worker. -/
def Tried (freeze : Reply) (past : List (Call Answer)) : Prop :=
  ∃ rest, past = ⟨.kill .stop, freeze⟩ :: ⟨.workerAbsent, (.absent, false)⟩ :: rest ∧
    ∀ e ∈ rest, e.1 ≠ .workerAbsent

def ResumedOrStopped (past : List (Call Answer)) (s : RunnerUnit) : Prop :=
  thaws past ≠ [] ∨ s.inactive = true

/-- What is raised or returned where the check is not passed. -/
def vetoResult (check : Check) (reply : Reply) : Except Failure Bool :=
  match reply.status.failure? with
  | some e => .error e
  | none => if check = .present then .ok false else .error .raises

/-- How the function ends, with the calls after the freeze. -/
inductive Ending (freeze : Reply) (result : Except Failure Bool) :
    List (Call Answer) → RunnerUnit → Prop
  /-- The freeze fails, which ends the function. -/
  | unfrozen {s : RunnerUnit} (hfreeze : freeze.status ≠ .zero) : Ending freeze result [] s
  /-- The check is not passed, and the processes are resumed. -/
  | vetoed {s : RunnerUnit} (reply : Reply) (check : Check) (worker : Bool)
    (hfreeze : freeze.status = .zero) (hcheck : check ≠ .absent)
    (hresult : result = vetoResult check reply) :
    Ending freeze result [⟨.workerAbsent, (check, worker)⟩, ⟨.kill .cont, reply⟩] s
  /-- The check is passed, and at the end the processes were resumed or the unit is stopped. -/
  | tried {s : RunnerUnit} {rest : List (Call Answer)} (hfreeze : freeze.status = .zero)
    (hrest : ∀ e ∈ rest, e.1 ≠ .workerAbsent) (hend : ResumedOrStopped rest s) :
    Ending freeze result (⟨.workerAbsent, (.absent, false)⟩ :: rest) s

def Ended (result : Except Failure Bool) (past : List (Call Answer)) (s : RunnerUnit) : Prop :=
  ∃ freeze rest, past = ⟨.kill .stop, freeze⟩ :: rest ∧ Ending freeze result rest s

theorem Tried.snoc {freeze : Reply} {a : Answer q} (h : Tried freeze past)
    (hq : q ≠ .workerAbsent) : Tried freeze (past ++ [⟨q, a⟩]) := by
  obtain ⟨rest, rfl, hrest⟩ := h
  refine ⟨rest ++ [⟨q, a⟩], rfl, fun e he => ?_⟩
  rcases List.mem_append.mp he with he | he
  · exact hrest e he
  · rw [List.mem_singleton.mp he]
    exact hq

theorem ResumedOrStopped.snoc (h : ResumedOrStopped past s) (henv : Env s q answer s') :
    ResumedOrStopped (past ++ [⟨q, answer⟩]) s' := by
  rcases h with h | h
  · refine .inl fun hnil => h ?_
    rw [thaws, List.filterMap_append] at hnil
    exact (List.append_eq_nil_iff.mp hnil).1
  · exact .inr (inactive_of_env henv h)

theorem ResumedOrStopped.of_cont (past : List (Call Answer)) (reply : Reply) (s : RunnerUnit) :
    ResumedOrStopped (past ++ [⟨.kill .cont, reply⟩]) s := by
  refine .inl ?_
  simp [thaws, thaw?]

theorem safe_afterCheck {α : Type} {freeze : Reply} {p : Program α}
    (honly : p.Only Query.AfterCheck) (htried : Tried freeze past)
    (hend : ResumedOrStopped past s) :
    Safe Env (fun _ _ _ => True) (fun _ past s => Tried freeze past ∧ ResumedOrStopped past s) p
      past s := by
  refine honly.safe (fun past s q answer s' hq h henv => ?_) (fun _ _ _ _ _ => trivial)
    ⟨htried, hend⟩
  exact ⟨h.1.snoc (ne_workerAbsent hq), h.2.snoc henv⟩

/-- The `finally` block resumes the processes after this. -/
def Unresolved (e : Exit) (past : List (Call Answer)) (s : RunnerUnit) : Prop :=
  ResumedOrStopped past s ∨ e.stopped = false ∧ e.resumed = false

/-- The stop is resumed before anything else can go wrong. -/
theorem safe_resumeAndStop {freeze : Reply} (htried : Tried freeze past) :
    Safe Env (fun _ _ _ => True) (fun e past s => Tried freeze past ∧ Unresolved e past s)
      resumeAndStop past s := by
  refine safe_call_bind (q := Query.kill .cont) trivial fun reply s₁ _ => ?_
  have htried := htried.snoc (q := .kill .cont) (a := reply) nofun
  have honly : ∀ reply, _ := (only_resumeAndStop :).2
  refine (safe_afterCheck (honly reply) htried (.of_cont past reply s₁)).imp ?_
  intro e past s h
  exact ⟨h.1, .inl h.2⟩

theorem safe_terminate {freeze : Reply} (htried : Tried freeze past) :
    Safe Env (fun _ _ _ => True) (fun e past s => Tried freeze past ∧ Unresolved e past s)
      terminate past s := by
  refine safe_call_bind (q := Query.kill .term) trivial fun reply s₁ _ => ?_
  have htried := htried.snoc (q := .kill .term) (a := reply) nofun
  cases reply.status with
  | timeout => exact ⟨htried, .inr ⟨rfl, rfl⟩⟩
  | raises => exact ⟨htried, .inr ⟨rfl, rfl⟩⟩
  | nonzero =>
    refine safe_call_bind (q := Query.showActiveState) trivial fun text s₂ henv => ?_
    have htried := htried.snoc (q := .showActiveState) (a := text) nofun
    cases text with
    | none => exact ⟨htried, .inr ⟨rfl, rfl⟩⟩
    | some text =>
      refine ⟨htried, ?_⟩
      by_cases htext : text = "inactive"
      · exact .inl (.inr (inactive_of_showActiveState (htext ▸ henv)))
      · exact .inr ⟨decide_eq_false htext, rfl⟩
  | zero =>
    refine safe_call_bind (q := Query.stop false) trivial fun status s₂ _ => ?_
    have htried := htried.snoc (q := .stop false) (a := status) nofun
    cases status with
    | timeout => exact ⟨htried, .inr ⟨rfl, rfl⟩⟩
    | raises => exact ⟨htried, .inr ⟨rfl, rfl⟩⟩
    | nonzero => exact ⟨htried, .inr ⟨rfl, rfl⟩⟩
    | zero => exact safe_resumeAndStop htried

variable {wait : ℚ} {fuel : ℕ}

/-- What is not resumed in the `try` block is resumed in the `finally` block. -/
theorem safe_thaw {freeze : Reply} {e : Exit} (htried : Tried freeze past)
    (h : Unresolved e past s) :
    Safe Env (fun _ _ _ => True) (fun _ past s => Tried freeze past ∧ ResumedOrStopped past s)
      (thaw e >>= leave wait fuel) past s := by
  rcases h with hend | ⟨hstopped, hresumed⟩
  · exact safe_afterCheck (only_bind (only_thaw e) (only_leave wait fuel)) htried hend
  · have honly := only_bind (only_thaw e) (only_leave wait fuel)
    have hthaw : (e.stopped || e.resumed) = false := by simp [hstopped, hresumed]
    unfold thaw at honly ⊢
    rw [hthaw, if_neg Bool.false_ne_true] at honly ⊢
    have hrest : ∀ reply, _ := honly.2
    rw [safe_bind]
    refine safe_call_bind (q := Query.kill .cont) trivial fun reply s₁ _ => ?_
    have htried := htried.snoc (q := .kill .cont) (a := reply) nofun
    rw [← safe_bind]
    exact safe_afterCheck (hrest reply) htried (.of_cont past reply s₁)

/-- Where the check is not passed, all that is left is to resume the processes. -/
theorem safe_vetoed {freeze : Reply} {check : Check} {worker : Bool} {e : Exit}
    (hfreeze : freeze.status = .zero) (hcheck : check ≠ .absent)
    (he : e = { result := if check = .present then .ok (some false) else .error .raises }) :
    Safe Env (fun _ _ _ => True) Ended (thaw e >>= leave wait fuel)
      [⟨.kill .stop, freeze⟩, ⟨.workerAbsent, (check, worker)⟩] s := by
  subst he
  refine safe_call_bind (q := Query.kill .cont) trivial fun reply s₁ _ => ?_
  obtain ⟨status, full⟩ := reply
  cases check with
  | absent => exact absurd rfl hcheck
  | present =>
    cases status <;> exact ⟨freeze, _, rfl, .vetoed _ .present worker hfreeze nofun rfl⟩
  | raises => cases status <;> exact ⟨freeze, _, rfl, .vetoed _ .raises worker hfreeze nofun rfl⟩

theorem worker_of_absent {worker : Bool} (h : Env s .workerAbsent (.absent, worker) s') :
    worker = false := by
  obtain ⟨t, t', -, heffect, -⟩ := h
  cases heffect with
  | workerAbsent check h => exact Bool.eq_false_of_not_eq_true fun hworker => h hworker rfl

theorem safe_stopRunnerSafely :
    Safe Env (fun _ _ _ => True) Ended (stopRunnerSafely wait fuel) [] s := by
  refine safe_call_bind (q := Query.kill .stop) trivial fun freeze s₁ _ => ?_
  cases hfreeze : freeze.status with
  | timeout => exact ⟨freeze, [], rfl, .unfrozen (by simp [hfreeze])⟩
  | raises => exact ⟨freeze, [], rfl, .unfrozen (by simp [hfreeze])⟩
  | nonzero => exact ⟨freeze, [], rfl, .unfrozen (by simp [hfreeze])⟩
  | zero =>
    unfold tryStop
    rw [safe_bind]
    refine safe_call_bind (q := Query.workerAbsent) trivial fun answer s₂ henv => ?_
    obtain ⟨check, worker⟩ := answer
    cases check with
    | raises => exact safe_vetoed hfreeze nofun rfl
    | present => exact safe_vetoed hfreeze nofun rfl
    | absent =>
      have hworker := worker_of_absent henv
      subst hworker
      have htried : Tried freeze [⟨.kill .stop, freeze⟩, ⟨.workerAbsent, (.absent, false)⟩] :=
        ⟨[], rfl, nofun⟩
      refine (safe_terminate htried).imp fun e past s h => ?_
      refine (safe_thaw h.1 h.2).imp fun result past s h => ?_
      obtain ⟨⟨rest, rfl, hrest⟩, hend⟩ := h
      exact ⟨freeze, _, rfl, .tried hfreeze hrest hend⟩

/-- **How the function ends.** -/
theorem ending_of_path {result : Except Failure Bool}
    (path : Path (Step Env) (stopRunnerSafely wait fuel, s) tr (.ret result, s')) :
    Ended result tr s' :=
  safe_stopRunnerSafely.of_path path

/-! ### Harmless calls -/

theorem only_afterFreeze {p : Program (Except Failure Bool)} {freeze : Reply}
    (hstep : Step Env (stopRunnerSafely wait fuel, s) ⟨.kill .stop, freeze⟩ (p, s₁)) :
    p.Only fun q => ¬ q.Freezes := by
  obtain ⟨k, hk, -, rfl⟩ := hstep
  obtain ⟨-, hk⟩ := Prog.ask.inj (hk : Prog.ask (Query.kill .stop) _ = _)
  obtain rfl := eq_of_heq hk
  have hthaw (e : Exit) : (thaw e >>= leave wait fuel).Only fun q => ¬ q.Freezes :=
    (only_bind (only_thaw e) (only_leave wait fuel)).imp fun _ => not_freezes
  change (match freeze.status with | .timeout => _ | .raises => _ | .nonzero => _ | .zero => _ :
    Program (Except Failure Bool)).Only _
  split
  · exact only_pure
  · exact only_pure
  · exact only_pure
  · refine only_bind (only_bind (only_call.mpr nofun) fun check => ?_) hthaw
    split
    · exact only_pure
    · exact only_pure
    · exact only_terminate.imp fun _ => not_freezes

theorem vetoResult_eq_ok_false_iff {check : Check} {reply : Reply} :
    vetoResult check reply = .ok false ↔ check = .present ∧ reply.status.failure? = none := by
  unfold vetoResult
  cases hfailure : reply.status.failure? with
  | some e => simp
  | none => by_cases hcheck : check = .present <;> simp [hcheck]

/-- Processes that were resumed are not frozen at the end. -/
theorem inactive_or_thawed {α : Type} {p p' : Program α} (honly : p.Only fun q => ¬ q.Freezes)
    (path : Path (Step Env) (p, s) tr (p', s')) (hlast : LastThawTakesEffect tr)
    (h : ResumedOrStopped tr s') : s'.inactive = true ∨ s'.Thawed := by
  rcases h with hthaws | hinactive
  · have hreply := List.getLast?_eq_some_getLast hthaws
    exact .inr (thawed_of_path honly path hreply (hlast _ hreply))
  · exact .inl hinactive

/-- **A call is harmless if and only if** the freeze works or leaves nothing frozen, and where there
is a worker at the check, the check and the `SIGCONT` after it return. -/
theorem harmless_iff {freeze : Reply} {p : Program (Except Failure Bool)}
    {result : Except Failure Bool}
    (hfreeze : Step Env (stopRunnerSafely wait fuel, s) ⟨.kill .stop, freeze⟩ (p, s₁))
    (path : Path (Step Env) (p, s₁) tr (.ret result, s')) (hlast : LastThawTakesEffect tr) :
    Harmless result (⟨.kill .stop, freeze⟩ :: tr) s' ↔
      FreezeHarmless freeze s₁ ∧ VetoReturns tr := by
  have honly := only_afterFreeze hfreeze
  obtain ⟨freeze, rest, heq, hend⟩ := ending_of_path (.cons hfreeze path)
  cases heq
  cases hend with
  | unfrozen hstatus =>
    cases path with
    | nil =>
      constructor
      · intro h
        exact ⟨.inr h.thawed, nofun⟩
      · rintro ⟨hzero | hs, -⟩
        · exact absurd hzero hstatus
        · exact ⟨hs, fun check hmem => nomatch List.mem_singleton.mp hmem⟩
  | vetoed reply check worker hstatus hcheck hresult =>
    have hthawed := inactive_or_thawed honly path hlast (.of_cont [_] reply s')
    constructor
    · intro h
      refine ⟨.inl hstatus, fun other hmem => ?_⟩
      have hfalse := (h.vetoed other (List.mem_cons_of_mem _ hmem)).2
      rw [hresult, vetoResult_eq_ok_false_iff] at hfalse
      rcases List.mem_cons.mp hmem with heq | hmem
      · cases heq
        refine ⟨hfalse.1, fun other hother => ?_⟩
        rw [List.mem_singleton.mp hother]
        exact hfalse.2
      · cases List.mem_singleton.mp hmem
    · rintro ⟨-, hveto⟩
      refine ⟨hthawed, fun other hmem => ⟨by simp [Query.Ends], ?_⟩⟩
      rcases List.mem_cons.mp hmem with heq | hmem
      · cases heq
      · obtain ⟨hpresent, hreturns⟩ := hveto other hmem
        rcases List.mem_cons.mp hmem with heq | hmem
        · cases heq
          rw [hresult, vetoResult_eq_ok_false_iff]
          exact ⟨hpresent, hreturns reply List.mem_cons_self⟩
        · cases List.mem_singleton.mp hmem
  | @tried _ rest hstatus hrest hend =>
    have hthawed := inactive_or_thawed honly path hlast hend
    -- the check that was passed is the only one
    have hworker (check : Check) :
        ⟨.workerAbsent, (check, true)⟩ ∉
          (⟨.workerAbsent, (.absent, false)⟩ : Call Answer) :: rest := by
      intro hmem
      rcases List.mem_cons.mp hmem with heq | hmem
      · cases heq
      · exact hrest _ hmem rfl
    constructor
    · intro h
      exact ⟨.inl hstatus, fun check hmem => absurd hmem (hworker check)⟩
    · intro h
      refine ⟨hthawed, fun check hmem => ?_⟩
      rcases List.mem_cons.mp hmem with heq | hmem
      · cases heq
      · exact absurd hmem (hworker check)

def listening (frozen : Bool) : RunnerUnit := { procs := [{ pid := 1, kind := .listener, frozen }] }

def working (frozen : Bool) : RunnerUnit :=
  { procs := [{ pid := 1, kind := .listener, frozen }, { pid := 2, kind := .worker, frozen }] }

theorem freezes_listening (status : Status) :
    Env (listening false) (.kill .stop) ⟨status, true⟩ (listening true) :=
  ⟨_, _, .refl, .kill .stop status true (.cons (.inl rfl) .nil), .refl⟩

theorem freezes_working (status : Status) :
    Env (working false) (.kill .stop) ⟨status, true⟩ (working true) :=
  ⟨_, _, .refl, .kill .stop status true (.cons (.inl rfl) (.cons (.inl rfl) .nil)), .refl⟩

theorem thaws_working (status : Status) :
    Env (working true) (.kill .cont) ⟨status, true⟩ (working false) :=
  ⟨_, _, .refl, .kill .cont status true (.cons (.inl rfl) (.cons (.inl rfl) .nil)), .refl⟩

def vetoCalls (thaw : Status) : List (Call Answer) :=
  [⟨.workerAbsent, (.present, true)⟩, ⟨.kill .cont, ⟨thaw, true⟩⟩]

theorem path_working (thaw : Status) :
    ∃ p, Step Env (stopRunnerSafely 10 0, working false) ⟨.kill .stop, ⟨.zero, true⟩⟩
      (p, working true) ∧
      Path (Step Env) (p, working true) (vetoCalls thaw)
        (.ret (vetoResult .present ⟨thaw, true⟩), working false) := by
  refine ⟨_, ⟨_, rfl, freezes_working .zero, rfl⟩, ?_⟩
  have hcheck : Env (working true) .workerAbsent (.present, true) (working true) :=
    ⟨_, _, .refl, .workerAbsent .present nofun, .refl⟩
  refine .cons (t := (_, working true)) ⟨_, rfl, hcheck, rfl⟩ ?_
  refine .cons (t := (_, working false)) ⟨_, rfl, thaws_working thaw, rfl⟩ ?_
  cases thaw <;> exact .nil _

theorem lastThaw_vetoCalls (thaw : Status) : LastThawTakesEffect (vetoCalls thaw) := by
  intro reply hlast
  obtain rfl : ⟨thaw, true⟩ = reply := Option.some.inj hlast
  rfl

/-- A worker is found, and the processes are resumed. -/
theorem harmless_working :
    Harmless (.ok false) (⟨.kill .stop, ⟨.zero, true⟩⟩ :: vetoCalls .zero) (working false) := by
  obtain ⟨p, hfreeze, path⟩ := path_working .zero
  refine (harmless_iff hfreeze path (lastThaw_vetoCalls .zero)).mpr ⟨.inl rfl, ?_⟩
  intro check hmem
  rcases List.mem_cons.mp hmem with heq | hmem
  · cases heq
    refine ⟨rfl, fun reply hreply => ?_⟩
    rw [List.mem_singleton.mp hreply]
    rfl
  · cases List.mem_singleton.mp hmem

/-- **A freeze that times out leaves the runner frozen**, and where a worker is found and the
`SIGCONT` times out, that is raised. -/
theorem not_harmless :
    (∃ p, Step Env (stopRunnerSafely 10 0, listening false) ⟨.kill .stop, ⟨.timeout, true⟩⟩
        (p, listening true) ∧
      Path (Step Env) (p, listening true) [] (.ret (.error .timeout), listening true) ∧
      LastThawTakesEffect [] ∧
      ¬ Harmless (.error .timeout) [⟨.kill .stop, ⟨.timeout, true⟩⟩] (listening true)) ∧
    ∃ p, Step Env (stopRunnerSafely 10 0, working false) ⟨.kill .stop, ⟨.zero, true⟩⟩
        (p, working true) ∧
      Path (Step Env) (p, working true) (vetoCalls .timeout)
        (.ret (.error .timeout), working false) ∧
      LastThawTakesEffect (vetoCalls .timeout) ∧
      ¬ Harmless (.error .timeout) (⟨.kill .stop, ⟨.zero, true⟩⟩ :: vetoCalls .timeout)
        (working false) := by
  constructor
  · refine ⟨_, ⟨_, rfl, freezes_listening .timeout, rfl⟩, .nil _, nofun, fun h => ?_⟩
    rcases h.thawed with hinactive | hthawed
    · cases hinactive
    · cases hthawed _ List.mem_cons_self
  · obtain ⟨p, hfreeze, path⟩ := path_working .timeout
    refine ⟨p, hfreeze, path, lastThaw_vetoCalls .timeout, fun h => ?_⟩
    cases (h.vetoed .present (by simp [vetoCalls])).2

/-! ### Jobs -/

/-- A signal that is said to be sent is sent to every process. -/
def ZeroIsFull (s : RunnerUnit) (q : Query) (answer : Answer q) (s' : RunnerUnit) : Prop :=
  Env s q answer s' ∧ ∀ signal reply, (⟨q, answer⟩ : Call Answer) = ⟨.kill signal, reply⟩ →
    reply.status = .zero → reply.full = true

/-- Every process is frozen, and nothing is about to resume it. -/
structure Held (s : RunnerUnit) : Prop where
  unqueued : s.stopQueued = false
  frozen : ∀ p ∈ s.procs, p.frozen = true

/-- Every process is about to end. -/
def Doomed (s : RunnerUnit) : Prop := ∀ p ∈ s.procs, p.termPending = true

theorem hasWorker_eq_false_iff : s.hasWorker = false ↔ ∀ p ∈ s.procs, p.kind ≠ .worker := by
  simp [RunnerUnit.hasWorker]

@[simp] theorem signal_kind (p : Process) (signal : Signal) : (p.signal signal).kind = p.kind := by
  cases signal <;> rfl

theorem held_of_drift (s t : RunnerUnit) (h : Drift s t) (hs : Held s) : Held t := by
  cases h with
  | pickUp p pid hp hkind hfrozen hterm =>
    exact absurd (hfrozen.symm.trans (hs.frozen p hp)) (by simp)
  | exits p => exact ⟨hs.unqueued, fun p hp => hs.frozen p (List.mem_of_mem_erase hp)⟩
  | resumes resumed hqueued => exact absurd (hqueued.symm.trans hs.unqueued) (by simp)
  | stops procs hsub => exact ⟨hs.unqueued, fun p hp => hs.frozen p (hsub.subset hp)⟩

theorem doomed_of_drift (h : Drift s t) (hs : Doomed s) : Doomed t := by
  cases h with
  | pickUp p pid hp hkind hfrozen hterm => exact absurd (hterm.symm.trans (hs p hp)) (by simp)
  | exits p => exact fun p hp => hs p (List.mem_of_mem_erase hp)
  | resumes resumed =>
    intro p hp
    obtain ⟨p, hmem, rfl⟩ := List.mem_map.mp hp
    split
    · exact hs p hmem
    · exact hs p hmem
  | stops procs hsub => exact fun p hp => hs p (hsub.subset hp)

/-- No job is picked up while every process is frozen or about to end. -/
theorem hasWorker_of_drift (h : Drift s t) (hs : Held s ∨ Doomed s)
    (hworker : s.hasWorker = false) : t.hasWorker = false := by
  rw [hasWorker_eq_false_iff] at hworker ⊢
  cases h with
  | pickUp p pid hp hkind hfrozen hterm =>
    rcases hs with hs | hs
    · exact absurd (hfrozen.symm.trans (hs.frozen p hp)) (by simp)
    · exact absurd (hterm.symm.trans (hs p hp)) (by simp)
  | exits p => exact fun p hp => hworker p (List.mem_of_mem_erase hp)
  | resumes resumed =>
    intro p hp
    obtain ⟨p, hmem, rfl⟩ := List.mem_map.mp hp
    split
    · exact hworker p hmem
    · exact hworker p hmem
  | stops procs hsub => exact fun p hp => hworker p (hsub.subset hp)

/-- There is no job, and none is picked up as every process is frozen. -/
def HeldIdle (s : RunnerUnit) : Prop := Held s ∧ s.hasWorker = false

/-- There is no job, and none is picked up as every process is about to end. -/
def DoomedIdle (s : RunnerUnit) : Prop := Doomed s ∧ s.hasWorker = false

theorem heldIdle_of_drift (s t : RunnerUnit) (h : Drift s t) (hs : HeldIdle s) : HeldIdle t :=
  ⟨held_of_drift s t h hs.1, hasWorker_of_drift h (.inl hs.1) hs.2⟩

theorem doomedIdle_of_drift (s t : RunnerUnit) (h : Drift s t) (hs : DoomedIdle s) :
    DoomedIdle t :=
  ⟨doomed_of_drift h hs.1, hasWorker_of_drift h (.inr hs.1) hs.2⟩

theorem signal_termPending {p : Process} (signal : Signal) (hp : p.termPending = true) :
    (p.signal signal).termPending = true := by
  cases signal <;> first | exact hp | rfl

theorem hasWorker_of_signalled {signal : Signal} {full : Bool} {procs : List Process}
    (h : Signalled signal full s.procs procs) (hworker : s.hasWorker = false) :
    ({ s with procs } : RunnerUnit).hasWorker = false := by
  rw [hasWorker_eq_false_iff] at hworker ⊢
  intro p' hp'
  obtain ⟨p, hp, rfl | ⟨-, rfl⟩⟩ := exists_of_signalled h hp'
  · rw [signal_kind]
    exact hworker p hp
  · exact hworker _ hp

theorem doomedIdle_of_effect (h : Effect s q answer t) (hs : DoomedIdle s) : DoomedIdle t := by
  cases h with
  | kill signal status full h =>
    refine ⟨fun p' hp' => ?_, hasWorker_of_signalled h hs.2⟩
    obtain ⟨p, hp, rfl | ⟨-, rfl⟩⟩ := exists_of_signalled h hp'
    · exact signal_termPending signal (hs.1 p hp)
    · exact hs.1 _ hp
  | signalPid pid signal =>
    have hworker := hasWorker_eq_false_iff.mp hs.2
    refine ⟨fun p' hp' => ?_, hasWorker_eq_false_iff.mpr fun p' hp' => ?_⟩
    · obtain ⟨p, hp, rfl⟩ := List.mem_map.mp hp'
      split
      · exact signal_termPending signal (hs.1 p hp)
      · exact hs.1 p hp
    · obtain ⟨p, hp, rfl⟩ := List.mem_map.mp hp'
      split
      · rw [signal_kind]
        exact hworker p hp
      · exact hworker p hp
  | _ => exact hs

theorem doomedIdle_of_env (h : Env s q answer s') (hs : DoomedIdle s) : DoomedIdle s' :=
  of_env doomedIdle_of_drift doomedIdle_of_drift (fun _ _ => doomedIdle_of_effect) h hs

theorem held_of_effect {reply : Reply} (hfull : reply.full = true)
    (h : Effect s (.kill .stop) reply t) (hs : s.stopQueued = false) : Held t := by
  cases h with
  | kill signal status full h =>
    refine ⟨hs, fun p' hp' => ?_⟩
    obtain ⟨p, hp, rfl | ⟨hpart, -⟩⟩ := exists_of_signalled h hp'
    · rfl
    · exact absurd (hfull.symm.trans hpart) (by simp)

theorem held_of_env {reply : Reply} (hfull : reply.full = true) (h : Env s (.kill .stop) reply s')
    (hs : s.stopQueued = false) : Held s' := by
  refine of_env (I := fun s => s.stopQueued = false) ?_ held_of_drift
    (fun _ _ => held_of_effect hfull) h hs
  intro s t hdrift hs
  cases hdrift with
  | _ => exact hs

theorem heldIdle_of_env {check : Check} (h : Env s .workerAbsent (check, false) s') (hs : Held s) :
    HeldIdle s' := by
  refine of_env held_of_drift heldIdle_of_drift ?_ h hs
  intro s t heffect hs
  generalize hanswer : (check, false) = answer at heffect
  cases heffect with
  | workerAbsent check h => exact ⟨hs, (Prod.mk.inj hanswer).2.symm⟩

theorem doomedIdle_of_effect_term {reply : Reply} (hfull : reply.full = true)
    (h : Effect s (.kill .term) reply t) (hs : HeldIdle s) : DoomedIdle t := by
  cases h with
  | kill signal status full h =>
    refine ⟨fun p' hp' => ?_, hasWorker_of_signalled h hs.2⟩
    obtain ⟨p, hp, rfl | ⟨hpart, -⟩⟩ := exists_of_signalled h hp'
    · rfl
    · exact absurd (hfull.symm.trans hpart) (by simp)

/-- The `SIGTERM` that is pending while every process is frozen. -/
theorem doomedIdle_of_env_term {reply : Reply} (hfull : reply.full = true)
    (h : Env s (.kill .term) reply s') (hs : HeldIdle s) : DoomedIdle s' :=
  of_env heldIdle_of_drift doomedIdle_of_drift (fun _ _ => doomedIdle_of_effect_term hfull) h hs

def EndsNoJob (_ : List (Call Answer)) (s : RunnerUnit) (q : Query) : Prop :=
  q.Ends → s.hasWorker = false

theorem safe_doomedIdle {α : Type} (p : Program α) (hs : DoomedIdle s) :
    Safe ZeroIsFull EndsNoJob (fun _ _ s => DoomedIdle s) p past s := by
  refine (only_true p).safe (I := fun _ s => DoomedIdle s) ?_ ?_ hs
  · intro past s q answer s' _ hs henv
    exact doomedIdle_of_env henv.1 hs
  · intro past s q _ hs _
    exact hs.2

/-- What is returned or raised in the `try` block is so after a `SIGCONT`. -/
theorem safe_thaw_of_result {e : Exit} (he : e.result ≠ .ok none) :
    Safe ZeroIsFull EndsNoJob (fun _ _ _ => True) (thaw e >>= leave wait fuel) past s := by
  have hleave : ∀ e : Exit, e.result ≠ .ok none → (leave wait fuel e).Only fun q => ¬ q.Ends := by
    intro e he
    unfold leave
    split
    · exact only_pure
    · exact only_pure
    · next hresult => exact absurd hresult he
  have honly : (thaw e >>= leave wait fuel).Only fun q => ¬ q.Ends := by
    unfold thaw
    split
    · exact hleave e he
    · refine ⟨id, fun reply => ?_⟩
      obtain ⟨status, full⟩ := reply
      cases status with
      | zero => exact hleave e he
      | nonzero => exact hleave e he
      | timeout => exact only_pure
      | raises => exact only_pure
  exact honly.safe (fun _ _ _ _ _ _ _ _ => trivial) (fun _ _ _ hq _ hends => absurd hends hq)
    trivial

theorem safe_endsNoJob (hs : s.stopQueued = false) :
    Safe ZeroIsFull EndsNoJob (fun _ _ _ => True) (stopRunnerSafely wait fuel) [] s := by
  refine safe_call_bind (q := Query.kill .stop) nofun fun freeze s₁ hfreeze => ?_
  cases hstatus : freeze.status with
  | timeout => trivial
  | raises => trivial
  | nonzero => trivial
  | zero =>
    have hheld := held_of_env (hfreeze.2 .stop freeze rfl hstatus) hfreeze.1 hs
    unfold tryStop
    rw [safe_bind]
    refine safe_call_bind (q := Query.workerAbsent) nofun fun answer s₂ hcheck => ?_
    obtain ⟨check, worker⟩ := answer
    cases check with
    | raises => exact safe_thaw_of_result nofun
    | present => exact safe_thaw_of_result nofun
    | absent =>
      have hworker := worker_of_absent hcheck.1
      subst hworker
      have hidle := heldIdle_of_env hcheck.1 hheld
      refine safe_call_bind (q := Query.kill .term) (fun _ => hidle.2) fun reply s₃ hterm => ?_
      cases hstatus : reply.status with
      | timeout => exact safe_thaw_of_result nofun
      | raises => exact safe_thaw_of_result nofun
      | nonzero =>
        refine safe_call_bind (q := Query.showActiveState) nofun fun text s₄ _ => ?_
        cases text with
        | none => exact safe_thaw_of_result nofun
        | some text => exact safe_thaw_of_result nofun
      | zero =>
        have hdoomed := doomedIdle_of_env_term (hterm.2 .term reply rfl hstatus) hterm.1 hidle
        refine (safe_doomedIdle _ hdoomed).imp fun e past s hs => ?_
        exact (safe_doomedIdle _ hs).imp fun _ _ _ _ => trivial

/-- **No job is ended.**  Where the signals that are said to be sent are sent, every call that ends
processes is made where there is no worker. -/
theorem hasWorker_of_ends {k : Answer q → Program (Except Failure Bool)}
    (hs : s.stopQueued = false)
    (path : Path (Step ZeroIsFull) (stopRunnerSafely wait fuel, s) tr (.ask q k, s'))
    (hq : q.Ends) : s'.hasWorker = false :=
  ((safe_endsNoJob hs).of_path path).1 hq

/-- A listener that is frozen is about to be ended. -/
theorem hasWorker_of_ends_listening : (listening true).hasWorker = false := by
  have hfreeze : ZeroIsFull (listening false) (.kill .stop) ⟨.zero, true⟩ (listening true) :=
    ⟨freezes_listening .zero, fun signal reply heq _ => by cases heq; rfl⟩
  have hcheck : ZeroIsFull (listening true) .workerAbsent (.absent, false) (listening true) :=
    ⟨⟨_, _, .refl, .workerAbsent .absent nofun, .refl⟩, fun signal reply heq => by cases heq⟩
  have path : Path (Step ZeroIsFull) (stopRunnerSafely 10 0, listening false)
      [⟨.kill .stop, ⟨.zero, true⟩⟩, ⟨.workerAbsent, (.absent, false)⟩] (_, listening true) :=
    .cons (t := (_, listening true)) ⟨_, rfl, hfreeze, rfl⟩
      (.cons (t := (_, listening true)) ⟨_, rfl, hcheck, rfl⟩ (.nil _))
  exact hasWorker_of_ends (q := .kill .term) rfl path trivial

end RunnerStop
