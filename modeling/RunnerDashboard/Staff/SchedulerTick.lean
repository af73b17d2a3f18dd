import RunnerDashboard.Lib.Path
import RunnerDashboard.Staff.Scheduler

/-!
# Ticks of the scheduler

A tick moves the cursors of all the slots that are due before it fires the first of them, and
saves the state in up to three places.  An exception that it does not catch, and the death of the
process, may come anywhere between.  What the others answer for each slot of a tick is fixed when
the tick starts, and nothing is assumed of it.

## Main results

* `kept_of_careful` — **no slot is lost** and each has its own outcome, in a careful run.
-/

namespace Scheduler

open Lts

/-! ### A process -/

/-- An entry of `pending_fires`. -/
structure Pending where
  item : Item
  due : Int
  repo : String
  issueNumber : Option ℕ
  deriving DecidableEq, Repr

def Pending.key (p : Pending) : String := p.item.key

def Pending.slot (p : Pending) : String × Int := (p.key, p.due)

/-- What the others answer for one slot. -/
structure Answers where
  gates : Gates := {}
  checks : Checks := { submit := .error "" }

/-- A slot that a tick found due and whose cursor it moved. -/
structure Found where
  item : Item
  due : Int
  look : Look
  handled : Bool := false

/-- How a tick ended: at which slot, if it raised at one. -/
inductive Ending
  | returned
  | raised (key : Option String)
  | died
  deriving DecidableEq, Repr

/-- Where a tick stands. -/
inductive Phase
  | ended (how : Ending)
  | queueing (todo : List Item) (pending : List Pending) (decided : Bool)
  | judging (i : Item) (due : Int) (x : Look) (todo : List Item) (pending : List Pending)
      (decided : Bool)
  | firing (todo : List Pending)

def Phase.waiting : Phase → List (String × Int)
  | .ended _ => []
  | .queueing _ pending _ => pending.map Pending.slot
  | .judging i due _ _ pending _ => (i.key, due) :: pending.map Pending.slot
  | .firing todo => todo.map Pending.slot

/-- The scheduler of one host, and what its last tick has done. -/
structure Process where
  mem : State
  file : State
  now : Int := 0
  ask : String → Answers := fun _ => {}
  phase : Phase := .ended .returned
  items : List Item := []
  found : String → Option Found := fun _ => none
  /-- The slots and the ids of the runs, by key. -/
  submitted : String → List (Int × String) := fun _ => []
  /-- The state was saved, or a run was submitted, with a slot still queued; and since then the
  state was not saved with none. -/
  exposed : Bool := false

def Process.boot (st : State) : Process := { mem := st, file := st }

def Process.lookAt {σ : Type*} (s : Process) (C : Cron σ) (i : Item) : Look :=
  look C i.cron s.now (s.mem i.key)

def Process.defers (s : Process) (i : Item) : Bool :=
  skipDueSlotDuringStartup i.role.name (s.ask i.key).gates.startupGrace

def verdict (i : Item) (x : Look) (g : Gates) : Except String (String × Option ℕ) :=
  queueVerdict i (scheduleReport x g x.entry.enabled) g

/-- What becomes of a slot: a function of its own entry and of the answers for it. -/
def slotOutcome (i : Item) (x : Look) (a : Answers) : Except String String :=
  match verdict i x a.gates with
  | .error reason => .error reason
  | .ok (repo, _) => fireOutcome repo a.checks

def runsOf (due : Int) : Except String String → List (Int × String)
  | .ok runId => [(due, runId)]
  | .error _ => []

/-- `_save_state`. -/
def Process.save (s : Process) (waits : Bool) : Process :=
  { s with file := s.mem, exposed := waits }

/-- The look at an item leaves its entry, and saves the state if it set the cursor. -/
def Process.looked {σ : Type*} (s : Process) (C : Cron σ) (i : Item) (pending : List Pending) :
    Process :=
  let s' := { s with mem := s.mem.set i.key (s.lookAt C i).entry }
  if (s.lookAt C i).saves then s'.save (!pending.isEmpty) else s'

def Process.move (s : Process) (i : Item) (due : Int) (x : Look) : Process :=
  { s with
    mem := s.mem.set i.key { x.entry with cursor := some s.now }
    found := Function.update s.found i.key (some ⟨i, due, x, false⟩) }

/-- A slot is skipped, or its run is submitted. -/
def Process.handle (s : Process) (i : Item) (due : Int) (outcome : Except String String) :
    Process :=
  { s with
    mem := s.mem.set i.key (record i due s.now outcome (s.mem i.key))
    found := Function.update s.found i.key ((s.found i.key).map fun f => { f with handled := true })
    submitted := Function.update s.submitted i.key (s.submitted i.key ++ runsOf due outcome)
    exposed := s.exposed || outcome.isOk }

/-- Between ticks the state is changed, and saved unless the save fails. -/
def Process.rewrite (s : Process) (st : State) (saved : Bool) : Process :=
  { s with
    mem := st
    file := if saved then st else s.file
    phase := .ended .returned
    items := []
    found := fun _ => none
    submitted := fun _ => [] }

def Process.start (s : Process) (now : Int) (roster : Roster) (ask : String → Answers) : Process :=
  { s with
    now := now
    ask := ask
    phase := .queueing roster.items [] false
    items := roster.items
    found := fun _ => none
    submitted := fun _ => []
    exposed := false }

/-- The tick goes on. -/
def Process.goto (s : Process) (phase : Phase) : Process := { s with phase := phase }

/-- The process dies, and the next one loads the file. -/
def Process.crash (s : Process) : Process := { s with mem := s.file, phase := .ended .died }

/-- After the roles: the first fire, or the end. -/
def Phase.fires : List Pending → Phase
  | [] => .ended .returned
  | p :: pending => .firing (p :: pending)

/-! ### Its steps -/

/-- What a step shows. -/
inductive Label
  | reconcile
  | edit
  | start (now : Int)
  | look
  | judge
  | save
  | fire (key : String) (due : Int) (submitted : Bool)
  | persist
  | close
  | raise (run : Option (String × Int))
  | crash
  deriving DecidableEq, Repr

/-- What an exception leaves, at which slot it was raised, and the run that was submitted. -/
inductive Raises {σ : Type*} (C : Cron σ) :
    Process → Option String → Option (String × Int) → Process → Prop
  /-- At an item that was not looked at; its cursor may have been set, and the state saved. -/
  | look {s t : Process} {i : Item} {todo : List Item} {pending : List Pending} {decided : Bool}
      (at' : s.phase = .queueing (i :: todo) pending decided)
      (leaves : t = s ∨ t = { s with mem := s.mem.set i.key (s.lookAt C i).entry } ∨
        t = s.looked C i pending) : Raises C s (some i.key) none t
  /-- At a slot that is judged, also in the alert after its skip is noted. -/
  | judge {s t : Process} {i : Item} {due : Int} {x : Look} {todo : List Item}
      {pending : List Pending} {decided : Bool}
      (at' : s.phase = .judging i due x todo pending decided)
      (leaves : t = s ∨ ∃ reason, verdict i x (s.ask i.key).gates = .error reason ∧
        t = s.handle i due (.error reason)) :
      Raises C s (some i.key) none t
  | save {s : Process} {pending : List Pending} (at' : s.phase = .queueing [] pending true) :
      Raises C s none none s
  /-- At a slot that is fired, before its run is submitted or in the alert of its skip. -/
  | fire {s t : Process} {p : Pending} {todo : List Pending} (at' : s.phase = .firing (p :: todo))
      (leaves : t = s ∨ ∃ reason, fireOutcome p.repo (s.ask p.key).checks = .error reason ∧
        t = s.handle p.item p.due (.error reason)) :
      Raises C s (some p.key) none t
  | submit {s : Process} {p : Pending} {todo : List Pending} {runId : String}
      (at' : s.phase = .firing (p :: todo)) :
      Raises C s (some p.key) (some (p.key, p.due))
        { s with
          submitted := Function.update s.submitted p.key (s.submitted p.key ++ [(p.due, runId)])
          exposed := true }
  /-- In the last save. -/
  | close {s : Process} (at' : s.phase = .firing []) : Raises C s none none s

inductive Step {σ : Type*} (C : Cron σ) : Process → Label → Process → Prop
  | reconcile {s : Process} {how : Ending} {getRun : String → Option RunRecord} {saved : Bool}
      (idle : s.phase = .ended how) :
      Step C s .reconcile (s.rewrite (reconcileScheduledRuns getRun s.mem) saved)
  /-- Another call changes the state. -/
  | edit {s : Process} {how : Ending} {st : State} {saved : Bool} (idle : s.phase = .ended how) :
      Step C s .edit (s.rewrite st saved)
  | start {s : Process} {how : Ending} {now : Int} {roster : Roster} {ask : String → Answers}
      (idle : s.phase = .ended how) : Step C s (.start now) (s.start now roster ask)
  /-- An item is not due, or the startup grace defers it. -/
  | pass {s : Process} {i : Item} {todo : List Item} {pending : List Pending} {decided : Bool}
      (at' : s.phase = .queueing (i :: todo) pending decided)
      (quiet : (s.lookAt C i).due s.now = none ∨ s.defers i = true) :
      Step C s .look ((s.looked C i pending).goto (.queueing todo pending decided))
  | find {s : Process} {i : Item} {todo : List Item} {pending : List Pending} {decided : Bool}
      {due : Int} (at' : s.phase = .queueing (i :: todo) pending decided)
      (isDue : (s.lookAt C i).due s.now = some due) (undeferred : s.defers i = false) :
      Step C s .look (((s.looked C i pending).move i due (s.lookAt C i)).goto
        (.judging i due (s.lookAt C i) todo pending decided))
  | skip {s : Process} {i : Item} {due : Int} {x : Look} {todo : List Item}
      {pending : List Pending} {decided : Bool} {reason : String}
      (at' : s.phase = .judging i due x todo pending decided)
      (judged : verdict i x (s.ask i.key).gates = .error reason) :
      Step C s .judge ((s.handle i due (.error reason)).goto (.queueing todo pending true))
  | queue {s : Process} {i : Item} {due : Int} {x : Look} {todo : List Item}
      {pending : List Pending} {decided : Bool} {repo : String} {issue : Option ℕ}
      (at' : s.phase = .judging i due x todo pending decided)
      (judged : verdict i x (s.ask i.key).gates = .ok (repo, issue)) :
      Step C s .judge (s.goto (.queueing todo (pending ++ [⟨i, due, repo, issue⟩]) decided))
  /-- All items were looked at: the state is saved if a slot was skipped. -/
  | save {s : Process} {pending : List Pending} {decided : Bool}
      (at' : s.phase = .queueing [] pending decided) :
      Step C s .save ((if decided then s.save (!pending.isEmpty) else s).goto (.fires pending))
  | fire {s : Process} {p : Pending} {todo : List Pending} {outcome : Except String String}
      (at' : s.phase = .firing (p :: todo))
      (fired : fireOutcome p.repo (s.ask p.key).checks = outcome) :
      Step C s (.fire p.key p.due outcome.isOk)
        ((s.handle p.item p.due outcome).goto (.firing todo))
  /-- Another call saves the state. -/
  | persist {s : Process} (busy : ∀ how, s.phase ≠ .ended how) :
      Step C s .persist (s.save (!s.phase.waiting.isEmpty))
  | close {s : Process} (at' : s.phase = .firing []) :
      Step C s .close ((s.save false).goto (.ended .returned))
  | raise {s t : Process} {key : Option String} {run : Option (String × Int)}
      (raises : Raises C s key run t) : Step C s (.raise run) (t.goto (.ended (.raised key)))
  | crash {s : Process} : Step C s .crash s.crash

/-! ### What becomes of the slots -/

def Found.moved (f : Found) (now : Int) : Entry := { f.look.entry with cursor := some now }

def Found.outcome (f : Found) (a : Answers) : Except String String := slotOutcome f.item f.look a

/-- The slot has the outcome that its own answers give, in memory and in the file: its run was
submitted once, or its skip is noted. -/
inductive Recorded (s : Process) (key : String) (f : Found) : Prop
  | fired (runId : String) (own : f.outcome (s.ask key) = .ok runId)
      (once : s.submitted key = [(f.due, runId)])
      (saved : s.file key = recordScheduledFire (f.moved s.now) f.due runId s.now
        f.item.role.name f.item.job)
      (kept : s.mem key = s.file key)
  | skipped (reason : String) (own : f.outcome (s.ask key) = .error reason)
      (never : s.submitted key = [])
      (saved : s.file key = recordScheduledSkip (f.moved s.now) f.due reason)
      (kept : s.mem key = s.file key)

/-- No run was submitted for the slot, and it is found due again. -/
structure StillDue {σ : Type*} (C : Cron σ) (s : Process) (key : String) (f : Found) : Prop where
  never : s.submitted key = []
  again : (look C f.item.cron s.now (s.file key)).due s.now = some f.due
  kept : s.mem key = s.file key

def Quiet {σ : Type*} (C : Cron σ) (s : Process) (i : Item) : Prop :=
  (s.lookAt C i).due s.now = none ∨ s.defers i = true

/-- **No slot is lost**: when the process has died, every slot whose cursor was moved is recorded
or still due; when the tick has returned or raised, it is recorded, and no slot was due and left
but for the one at which it raised. -/
structure Kept {σ : Type*} (C : Cron σ) (s : Process) (how : Ending) : Prop where
  settled : ∀ key f, s.found key = some f → Recorded s key f ∨ how = .died ∧ StillDue C s key f
  apart : how ≠ .died → ∀ i ∈ s.items, (s.found i.key).isSome = true ∨ Quiet C s i ∨
    how = .raised (some i.key)

/-- What a step must find: the state file has the cursor with which a slot is found; an exception
comes when every slot whose cursor was moved is in the file as it is in memory, and no later item
is due; the process dies when no save and no submission has exposed a queued slot. -/
def Careful {σ : Type*} (C : Cron σ) (s : Process) : Label → Prop
  | .look => ∀ i todo pending decided due, s.phase = .queueing (i :: todo) pending decided →
      (s.lookAt C i).due s.now = some due → s.defers i = false →
      s.file i.key = s.mem i.key ∨ (s.lookAt C i).saves = true
  | .raise _ => (∀ key f, s.found key = some f → f.handled = true ∧ s.file key = s.mem key) ∧
      ∀ i todo pending decided, s.phase = .queueing (i :: todo) pending decided →
        ∀ j ∈ todo, Quiet C s j
  | .crash => s.exposed = false
  | _ => True

def CarefulStep {σ : Type*} (C : Cron σ) (s : Process) (l : Label) (t : Process) : Prop :=
  Step C s l t ∧ Careful C s l

/-! ### The invariant of a tick -/

def Found.entry (f : Found) (now : Int) (a : Answers) : Entry :=
  if f.handled then record f.item f.due now (f.outcome a) (f.moved now) else f.moved now

def Found.runs (f : Found) (a : Answers) : List (Int × String) :=
  if f.handled then runsOf f.due (f.outcome a) else []

/-- The memory has of a slot what the tick has done with it. -/
structure Tracked {σ : Type*} (C : Cron σ) (s : Process) (key : String) (f : Found) : Prop where
  owner : key = f.item.key
  looked : ∃ e, f.look = look C f.item.cron s.now e
  isDue : f.look.due s.now = some f.due
  mem : s.mem key = f.entry s.now (s.ask key)
  runs : s.submitted key = f.runs (s.ask key)

def waitingKeys (current : Option (Item × Int × Look)) (pending : List Pending) : List String :=
  (current.map fun c => c.1.key).toList ++ pending.map Pending.key

/-- A tick is under way: with `todo` to be looked at, with a slot that is judged and with the
slots that are queued. -/
structure Busy {σ : Type*} (C : Cron σ) (s : Process) (todo : List Item)
    (current : Option (Item × Int × Look)) (pending : List Pending) (decided : Bool) : Prop where
  nodup : (s.items.map Item.key).Nodup
  todo_nodup : (todo.map Item.key).Nodup
  todo_mem : ∀ i ∈ todo, i ∈ s.items
  todo_new : ∀ i ∈ todo, s.found i.key = none
  done : ∀ i ∈ s.items, i ∈ todo ∨ (s.found i.key).isSome = true ∨ Quiet C s i
  tracked : ∀ key f, s.found key = some f → Tracked C s key f
  unsubmitted : ∀ key, s.found key = none → s.submitted key = []
  waits : ∀ key f, s.found key = some f → f.handled = false → key ∈ waitingKeys current pending
  distinct : (waitingKeys current pending).Nodup
  current : ∀ i due x, current = some (i, due, x) → s.found i.key = some ⟨i, due, x, false⟩
  queued : ∀ p ∈ pending, ∃ x, s.found p.key = some ⟨p.item, p.due, x, false⟩ ∧
    verdict p.item x (s.ask p.key).gates = .ok (p.repo, p.issueNumber)
  undecided : decided = false → ∀ key f, s.found key = some f → f.handled = false
  safe : s.exposed = false → ∀ key f, s.found key = some f →
    (f.handled = true ∧ s.file key = s.mem key) ∨
      (s.file key = f.look.entry ∧ s.submitted key = [])

def InvAt {σ : Type*} (C : Cron σ) (s : Process) : Phase → Prop
  | .ended how => Kept C s how
  | .queueing todo pending decided => Busy C s todo none pending decided
  | .judging i due x todo pending decided => Busy C s todo (some (i, due, x)) pending decided
  | .firing todo => Busy C s [] none todo true

def Inv {σ : Type*} (C : Cron σ) (s : Process) : Prop := InvAt C s s.phase

section Runs

variable {σ : Type*} {C : Cron σ} {s t : Process} {l : Label} {ls : List Label} {how : Ending}
  {i j : Item} {due : Int} {x : Look} {todo : List Item} {pending pending' : List Pending}
  {p : Pending} {decided : Bool} {current : Option (Item × Int × Look)} {key : String} {f : Found}
  {outcome : Except String String} {reason repo : String} {issue : Option ℕ}

theorem Quiet.congr (h : Quiet C s i) (hmem : t.mem i.key = s.mem i.key) (hnow : t.now = s.now)
    (hask : t.ask = s.ask) : Quiet C t i := by
  unfold Quiet Process.lookAt Process.defers at h ⊢
  rw [hmem, hnow, hask]
  exact h

theorem Tracked.congr (h : Tracked C s key f) (hmem : t.mem key = s.mem key)
    (hruns : t.submitted key = s.submitted key) (hnow : t.now = s.now) (hask : t.ask = s.ask) :
    Tracked C t key f where
  owner := h.owner
  looked := by rw [hnow]; exact h.looked
  isDue := by rw [hnow]; exact h.isDue
  mem := by rw [hmem, hnow, hask]; exact h.mem
  runs := by rw [hruns, hask]; exact h.runs

theorem Tracked.recorded (h : Tracked C s key f) (hhandled : f.handled = true)
    (hsaved : s.file key = s.mem key) : Recorded s key f := by
  have hmem := h.mem
  have hruns := h.runs
  unfold Found.entry at hmem
  unfold Found.runs at hruns
  rw [if_pos hhandled] at hmem hruns
  cases hown : f.outcome (s.ask key) with
  | ok runId =>
    rw [hown] at hmem hruns
    exact .fired runId hown hruns (hsaved.trans hmem) hsaved.symm
  | error reason =>
    rw [hown] at hmem hruns
    exact .skipped reason hown hruns (hsaved.trans hmem) hsaved.symm

theorem Busy.item_eq (h : Busy C s todo current pending decided) (hi : i ∈ s.items)
    (hj : j ∈ s.items) (hkey : j.key = i.key) : j = i :=
  List.inj_on_of_nodup_map h.nodup hj hi hkey

/-! ### What the parts of a step preserve -/

theorem Busy.save (h : Busy C s todo current pending decided) {waits : Bool}
    (hwaits : waits = false → waitingKeys current pending = []) :
    Busy C (s.save waits) todo current pending decided := by
  refine { h with
    tracked := fun key f hf => (h.tracked key f hf).congr rfl rfl rfl rfl
    safe := fun hexposed key f hf => .inl ⟨?_, rfl⟩ }
  -- a slot that is not handled waits, and then the save leaves the tick exposed
  by_contra hopen
  have hmem := h.waits key f hf (Bool.eq_false_iff.mpr hopen)
  rw [hwaits hexposed] at hmem
  cases hmem

theorem Busy.handled (h : Busy C s todo none [] decided) (hf : s.found key = some f) :
    f.handled = true := by
  by_contra hopen
  cases h.waits key f hf (Bool.eq_false_iff.mpr hopen)

theorem Busy.goto (h : Busy C s todo current pending decided) (phase : Phase) :
    Busy C (s.goto phase) todo current pending decided :=
  { h with tracked := fun key f hf => (h.tracked key f hf).congr rfl rfl rfl rfl }

/-- A slot that was found is not of an item to be looked at. -/
theorem Busy.ne_of_found (h : Busy C s todo current pending decided) (hi : i ∈ todo)
    (hf : s.found key = some f) : key ≠ i.key := by
  rintro rfl
  rw [h.todo_new i hi] at hf
  cases hf

theorem Busy.seed (h : Busy C s (i :: todo) none pending decided) :
    Busy C { s with mem := s.mem.set i.key (s.lookAt C i).entry } (i :: todo) none pending
      decided := by
  have hmem : ∀ key f, s.found key = some f →
      s.mem.set i.key (s.lookAt C i).entry key = s.mem key := fun key f hf =>
    State.set_of_ne _ (h.ne_of_found List.mem_cons_self hf) _
  refine ⟨h.nodup, h.todo_nodup, h.todo_mem, h.todo_new, fun j hj => ?_, fun key f hf =>
    (h.tracked key f hf).congr (hmem key f hf) rfl rfl rfl, h.unsubmitted, h.waits, h.distinct,
    h.current, h.queued, h.undecided, fun hexposed key f hf => ?_⟩
  · rcases h.done j hj with hin | hfound | hquiet
    · exact .inl hin
    · exact .inr (.inl hfound)
    · by_cases hkey : j.key = i.key
      · rw [h.item_eq (h.todo_mem i List.mem_cons_self) hj hkey]
        exact .inl List.mem_cons_self
      · exact .inr (.inr (hquiet.congr (State.set_of_ne _ hkey _) rfl rfl))
  · rcases h.safe hexposed key f hf with ⟨hhandled, hfile⟩ | hold
    · exact .inl ⟨hhandled, hfile.trans (hmem key f hf).symm⟩
    · exact .inr hold

theorem looked_cases (C : Cron σ) (s : Process) (i : Item) (pending : List Pending) :
    ((s.lookAt C i).saves = false ∧ s.looked C i pending = s) ∨
      ((s.lookAt C i).saves = true ∧
        s.looked C i pending = Process.save
          { s with mem := s.mem.set i.key (s.lookAt C i).entry } (!pending.isEmpty)) := by
  cases hsaves : (s.lookAt C i).saves with
  | true =>
    refine .inr ⟨rfl, ?_⟩
    unfold Process.looked
    rw [hsaves]
    rfl
  | false =>
    refine .inl ⟨rfl, ?_⟩
    have hset : s.mem.set i.key (s.lookAt C i).entry = s.mem := by
      rw [show (s.lookAt C i).entry = s.mem i.key from look_of_not_saves hsaves]
      funext key
      by_cases hkey : key = i.key
      · rw [hkey, State.set_self]
      · rw [State.set_of_ne _ hkey]
    unfold Process.looked
    rw [hsaves, hset]
    rfl

/-- The memory has what the look left, and the file has it too. -/
theorem looked_spec (C : Cron σ) (s : Process) (i : Item) (pending : List Pending) :
    (s.looked C i pending).mem i.key = (s.lookAt C i).entry ∧
      (s.looked C i pending).now = s.now ∧ (s.looked C i pending).ask = s.ask ∧
      (s.file i.key = s.mem i.key ∨ (s.lookAt C i).saves = true →
        (s.looked C i pending).file i.key = (s.lookAt C i).entry) := by
  rcases looked_cases C s i pending with ⟨hsaves, heq⟩ | ⟨hsaves, heq⟩
  · have hentry : (s.lookAt C i).entry = s.mem i.key := look_of_not_saves hsaves
    rw [heq, hentry]
    refine ⟨rfl, rfl, rfl, fun hsame => ?_⟩
    rcases hsame with hsame | hsaves'
    · exact hsame
    · rw [hsaves] at hsaves'
      cases hsaves'
  · rw [heq]
    exact ⟨State.set_self _ _ _, rfl, rfl, fun _ => State.set_self _ _ _⟩

theorem waitingKeys_eq_nil (h : (!pending.isEmpty) = false) : waitingKeys none pending = [] := by
  cases pending with
  | nil => rfl
  | cons p pending => cases h

theorem Busy.looked (h : Busy C s (i :: todo) none pending decided) :
    Busy C (s.looked C i pending) (i :: todo) none pending decided := by
  rcases looked_cases C s i pending with ⟨-, heq⟩ | ⟨-, heq⟩
  · rw [heq]
    exact h
  · rw [heq]
    exact h.seed.save waitingKeys_eq_nil

theorem Busy.pass (h : Busy C s (i :: todo) none pending decided) (hquiet : Quiet C s i) :
    Busy C s todo none pending decided := by
  refine { h with
    todo_nodup := (List.nodup_cons.mp h.todo_nodup).2
    todo_mem := fun j hj => h.todo_mem j (List.mem_cons_of_mem _ hj)
    todo_new := fun j hj => h.todo_new j (List.mem_cons_of_mem _ hj)
    done := fun j hj => ?_ }
  rcases h.done j hj with hin | hdone
  · rcases List.mem_cons.mp hin with rfl | hin
    · exact .inr (.inr hquiet)
    · exact .inl hin
  · exact .inr hdone

theorem move_found_self : (s.move i due x).found i.key = some ⟨i, due, x, false⟩ :=
  Function.update_self i.key _ s.found

theorem move_found_of_ne (hne : key ≠ i.key) : (s.move i due x).found key = s.found key :=
  Function.update_of_ne hne _ s.found

theorem Busy.find (h : Busy C s (i :: todo) none pending decided)
    (hlook : ∃ e, x = look C i.cron s.now e) (hdue : x.due s.now = some due)
    (hfile : s.file i.key = x.entry) :
    Busy C (s.move i due x) todo (some (i, due, x)) pending decided := by
  have hnew : s.found i.key = none := h.todo_new i List.mem_cons_self
  have hkeys : i.key ∉ todo.map Item.key := (List.nodup_cons.mp h.todo_nodup).1
  have hcases : ∀ {key f}, (s.move i due x).found key = some f →
      (key = i.key ∧ f = ⟨i, due, x, false⟩) ∨ (key ≠ i.key ∧ s.found key = some f) := by
    intro key f hf
    by_cases hkey : key = i.key
    · subst hkey
      exact .inl ⟨rfl, (Option.some.inj (move_found_self.symm.trans hf)).symm⟩
    · exact .inr ⟨hkey, (move_found_of_ne hkey).symm.trans hf⟩
  -- what is queued was found, and this item was not
  have hqueued : ∀ p ∈ pending, p.key ≠ i.key := by
    rintro p hp hkey
    obtain ⟨y, hy, -⟩ := h.queued p hp
    rw [hkey, hnew] at hy
    cases hy
  refine ⟨h.nodup, (List.nodup_cons.mp h.todo_nodup).2,
    fun j hj => h.todo_mem j (List.mem_cons_of_mem _ hj), fun j hj => ?_, fun j hj => ?_,
    fun key f hf => ?_, fun key hf => ?_, fun key f hf hopen => ?_, ?_, fun j d y heq => ?_,
    fun p hp => ?_, fun hdecided key f hf => ?_, fun hexposed key f hf => ?_⟩
  · have hne : j.key ≠ i.key := fun heq => hkeys (heq ▸ List.mem_map_of_mem hj)
    exact (move_found_of_ne hne).trans (h.todo_new j (List.mem_cons_of_mem _ hj))
  · by_cases hkey : j.key = i.key
    · refine .inr (.inl ?_)
      rw [hkey, move_found_self]
      rfl
    · rcases h.done j hj with hin | hfound | hquiet
      · rcases List.mem_cons.mp hin with rfl | hin
        · exact absurd rfl hkey
        · exact .inl hin
      · refine .inr (.inl ?_)
        rw [move_found_of_ne hkey]
        exact hfound
      · exact .inr (.inr (hquiet.congr (State.set_of_ne _ hkey _) rfl rfl))
  · rcases hcases hf with ⟨rfl, rfl⟩ | ⟨hne, hold⟩
    · exact ⟨rfl, hlook, hdue, State.set_self _ _ _, h.unsubmitted _ hnew⟩
    · exact (h.tracked key f hold).congr (State.set_of_ne _ hne _) rfl rfl rfl
  · have hne : key ≠ i.key := by
      rintro rfl
      rw [move_found_self] at hf
      cases hf
    exact h.unsubmitted key ((move_found_of_ne hne).symm.trans hf)
  · rcases hcases hf with ⟨rfl, -⟩ | ⟨-, hold⟩
    · exact List.mem_cons_self
    · exact List.mem_cons_of_mem _ (h.waits key f hold hopen)
  · refine List.nodup_cons.mpr ⟨fun hmem => ?_, h.distinct⟩
    obtain ⟨p, hp, hkey⟩ := List.mem_map.mp hmem
    exact hqueued p hp hkey
  · obtain ⟨rfl, rfl, rfl⟩ := Option.some.inj heq
    exact move_found_self
  · obtain ⟨y, hy, hverdict⟩ := h.queued p hp
    exact ⟨y, (move_found_of_ne (hqueued p hp)).trans hy, hverdict⟩
  · rcases hcases hf with ⟨-, rfl⟩ | ⟨-, hold⟩
    · rfl
    · exact h.undecided hdecided key f hold
  · rcases hcases hf with ⟨rfl, rfl⟩ | ⟨hne, hold⟩
    · -- the file has the cursor from before the move
      exact .inr ⟨hfile, h.unsubmitted _ hnew⟩
    · rcases h.safe hexposed key f hold with ⟨hhandled, hsaved⟩ | hunsaved
      · exact .inl ⟨hhandled, hsaved.trans (State.set_of_ne _ hne _).symm⟩
      · exact .inr hunsaved

theorem Busy.queue (h : Busy C s todo (some (i, due, x)) pending decided)
    (judged : verdict i x (s.ask i.key).gates = .ok (repo, issue)) :
    Busy C s todo none (pending ++ [⟨i, due, repo, issue⟩]) decided := by
  have hkeys : waitingKeys none (pending ++ [⟨i, due, repo, issue⟩]) =
      pending.map Pending.key ++ [i.key] := List.map_append
  have hperm : (waitingKeys none (pending ++ [⟨i, due, repo, issue⟩])).Perm
      (waitingKeys (some (i, due, x)) pending) := by
    rw [hkeys]
    exact List.perm_append_singleton _ _
  refine { h with
    waits := fun key f hf hopen => hperm.mem_iff.mpr (h.waits key f hf hopen)
    distinct := hperm.nodup_iff.mpr h.distinct
    current := fun j d y heq => by cases heq
    queued := fun p hp => ?_ }
  rcases List.mem_append.mp hp with hp | hp
  · exact h.queued p hp
  · rw [List.mem_singleton.mp hp]
    exact ⟨x, h.current i due x rfl, judged⟩

theorem handle_found_self :
    (s.handle i due outcome).found i.key =
      (s.found i.key).map fun f => { f with handled := true } := Function.update_self _ _ _

theorem handle_found_of_ne (hne : key ≠ i.key) :
    (s.handle i due outcome).found key = s.found key := Function.update_of_ne hne _ _

theorem handle_submitted_self :
    (s.handle i due outcome).submitted i.key = s.submitted i.key ++ runsOf due outcome :=
  Function.update_self _ _ _

theorem handle_submitted_of_ne (hne : key ≠ i.key) :
    (s.handle i due outcome).submitted key = s.submitted key := Function.update_of_ne hne _ _

theorem Busy.handle (h : Busy C s todo current pending decided)
    (hf : s.found i.key = some ⟨i, due, x, false⟩)
    (hout : slotOutcome i x (s.ask i.key) = outcome)
    (hkeys : waitingKeys current pending = i.key :: waitingKeys none pending')
    (hsub : ∀ p ∈ pending', p ∈ pending) :
    Busy C (s.handle i due outcome) todo none pending' true := by
  have hself : (s.handle i due outcome).found i.key = some ⟨i, due, x, true⟩ := by
    rw [handle_found_self, hf]
    rfl
  have hcases : ∀ {key f}, (s.handle i due outcome).found key = some f →
      (key = i.key ∧ f = ⟨i, due, x, true⟩) ∨ (key ≠ i.key ∧ s.found key = some f) := by
    intro key f hfound
    by_cases hkey : key = i.key
    · subst hkey
      exact .inl ⟨rfl, (Option.some.inj (hself.symm.trans hfound)).symm⟩
    · exact .inr ⟨hkey, (handle_found_of_ne hkey).symm.trans hfound⟩
  have hdistinct : i.key ∉ waitingKeys none pending' ∧ (waitingKeys none pending').Nodup :=
    List.nodup_cons.mp (hkeys ▸ h.distinct)
  have htracked := h.tracked i.key _ hf
  have hmem : s.mem i.key = { x.entry with cursor := some s.now } := htracked.mem
  have hruns : s.submitted i.key = [] := htracked.runs
  refine ⟨h.nodup, h.todo_nodup, h.todo_mem, fun j hj => ?_, fun j hj => ?_, fun key f hfound => ?_,
    fun key hfound => ?_, fun key f hfound hopen => ?_, hdistinct.2, fun j d y heq => ?_,
    fun p hp => ?_, fun hdecided => ?_, fun hexposed key f hfound => ?_⟩
  · rw [handle_found_of_ne (h.ne_of_found hj hf).symm]
    exact h.todo_new j hj
  · by_cases hkey : j.key = i.key
    · refine .inr (.inl ?_)
      rw [hkey, hself]
      rfl
    · rw [handle_found_of_ne hkey]
      exact (h.done j hj).imp_right fun hdone =>
        hdone.imp_right fun hquiet => hquiet.congr (State.set_of_ne _ hkey _) rfl rfl
  · rcases hcases hfound with ⟨rfl, rfl⟩ | ⟨hne, hold⟩
    · refine ⟨rfl, htracked.looked, htracked.isDue, ?_, ?_⟩
      · refine (State.set_self _ _ _).trans ?_
        rw [hmem]
        exact congrArg (fun o => record i due s.now o _) hout.symm
      · rw [handle_submitted_self, hruns]
        exact congrArg (runsOf due) hout.symm
    · exact (h.tracked key f hold).congr (State.set_of_ne _ hne _) (handle_submitted_of_ne hne)
        rfl rfl
  · have hne : key ≠ i.key := by
      rintro rfl
      rw [hself] at hfound
      cases hfound
    rw [handle_submitted_of_ne hne]
    exact h.unsubmitted key ((handle_found_of_ne hne).symm.trans hfound)
  · rcases hcases hfound with ⟨-, rfl⟩ | ⟨hne, hold⟩
    · cases hopen
    · have hwaits := h.waits key f hold hopen
      rw [hkeys] at hwaits
      exact (List.mem_cons.mp hwaits).resolve_left hne
  · cases heq
  · obtain ⟨y, hy, hverdict⟩ := h.queued p (hsub p hp)
    have hne : p.key ≠ i.key := fun heq => hdistinct.1 (heq ▸ List.mem_map_of_mem hp)
    exact ⟨y, (handle_found_of_ne hne).trans hy, hverdict⟩
  · cases hdecided
  · have hexposed' : s.exposed = false ∧ outcome.isOk = false := Bool.or_eq_false_iff.mp hexposed
    rcases hcases hfound with ⟨rfl, rfl⟩ | ⟨hne, hold⟩
    · rcases h.safe hexposed'.1 _ _ hf with ⟨hhandled, -⟩ | ⟨hfile, -⟩
      · cases hhandled
      · refine .inr ⟨hfile, ?_⟩
        rw [handle_submitted_self, hruns]
        cases outcome with
        | ok runId =>
          -- a run that was submitted leaves the tick exposed
          cases hexposed'.2
        | error reason => rfl
    · rcases h.safe hexposed'.1 key f hold with ⟨hhandled, hsaved⟩ | ⟨hfile, hnever⟩
      · exact .inl ⟨hhandled, hsaved.trans (State.set_of_ne _ hne _).symm⟩
      · exact .inr ⟨hfile, (handle_submitted_of_ne hne).trans hnever⟩

/-! ### The end of a tick -/

theorem Busy.ended (h : Busy C s todo current pending decided)
    (hsaved : ∀ key f, s.found key = some f → f.handled = true ∧ s.file key = s.mem key)
    (hleft : ∀ j ∈ todo, Quiet C s j ∨ how = .raised (some j.key)) :
    Kept C (s.goto (.ended how)) how where
  settled key f hf := by
    obtain ⟨hhandled, hfile⟩ := hsaved key f hf
    exact .inl (((h.goto (.ended how)).tracked key f hf).recorded hhandled hfile)
  apart _ j hj := by
    rcases h.done j hj with hin | hdone
    · exact .inr (hleft j hin)
    · exact hdone.imp_right .inl

theorem Busy.close (h : Busy C s [] none [] decided) :
    Kept C ((s.save false).goto (.ended .returned)) .returned :=
  (h.save fun _ => rfl).ended (fun _ _ hf => ⟨h.handled hf, rfl⟩) fun _ hj => nomatch hj

/-- What the process that loads the file finds of a tick. -/
theorem Busy.crash (h : Busy C s todo current pending decided) (hexposed : s.exposed = false) :
    Kept C s.crash .died where
  settled key f hf := by
    have htracked := h.tracked key f hf
    rcases h.safe hexposed key f hf with ⟨hhandled, hfile⟩ | ⟨hfile, hnever⟩
    · exact .inl ((htracked.congr (t := s.crash) hfile rfl rfl rfl).recorded hhandled rfl)
    · refine .inr ⟨rfl, hnever, ?_, rfl⟩
      obtain ⟨e, he⟩ := htracked.looked
      change (look C f.item.cron s.now (s.file key)).due s.now = some f.due
      rw [hfile, he, due_look, ← he]
      exact htracked.isDue
  apart hne := absurd rfl hne

theorem Kept.crash (h : Kept C s how) : Kept C s.crash .died where
  settled key f hf := by
    rcases h.settled key f hf with hrecorded | ⟨-, hdue⟩
    · cases hrecorded with
      | fired runId own once saved kept => exact .inl (.fired runId own once saved rfl)
      | skipped reason own never saved kept => exact .inl (.skipped reason own never saved rfl)
    · exact .inr ⟨rfl, hdue.never, hdue.again, rfl⟩
  apart hne := absurd rfl hne

theorem busy_start (s : Process) (now : Int) (roster : Roster) (ask : String → Answers) :
    Busy C (s.start now roster ask) roster.items none [] false where
  nodup := roster.nodup_keys
  todo_nodup := roster.nodup_keys
  todo_mem _ hi := hi
  todo_new _ _ := rfl
  done _ hi := .inl hi
  tracked _ _ hf := nomatch hf
  unsubmitted _ _ := rfl
  waits _ _ hf := nomatch hf
  distinct := List.nodup_nil
  current _ _ _ heq := nomatch heq
  queued _ hp := nomatch hp
  undecided _ _ _ hf := nomatch hf
  safe _ _ _ hf := nomatch hf

/-! ### Runs -/

theorem kept_rewrite (s : Process) (st : State) (saved : Bool) :
    Kept C (s.rewrite st saved) .returned where
  settled _ _ hf := nomatch hf
  apart _ _ hj := nomatch hj

theorem Inv.at (h : Inv C s) {phase : Phase} (at' : s.phase = phase) : InvAt C s phase := at' ▸ h

theorem Inv.queueing (h : Inv C s) (at' : s.phase = .queueing todo pending decided) :
    Busy C s todo none pending decided := h.at at'

theorem Inv.judging (h : Inv C s) (at' : s.phase = .judging i due x todo pending decided) :
    Busy C s todo (some (i, due, x)) pending decided := h.at at'

theorem Inv.firing (h : Inv C s) (at' : s.phase = .firing pending) :
    Busy C s [] none pending true := h.at at'

theorem InvAt.save {phase : Phase} (h : InvAt C s phase) (busy : ∀ how, phase ≠ .ended how) :
    InvAt C (s.save (!phase.waiting.isEmpty)) phase := by
  cases phase with
  | ended how => exact absurd rfl (busy how)
  | queueing todo pending decided =>
    refine Busy.save h fun hnone => waitingKeys_eq_nil ?_
    cases pending with
    | nil => rfl
    | cons p pending => cases hnone
  | judging i due x todo pending decided => exact Busy.save h fun hnone => nomatch hnone
  | firing todo =>
    refine Busy.save h fun hnone => waitingKeys_eq_nil ?_
    cases todo with
    | nil => rfl
    | cons p todo => cases hnone

theorem InvAt.crash {phase : Phase} (h : InvAt C s phase) (hexposed : s.exposed = false) :
    Kept C s.crash .died := by
  cases phase with
  | ended how => exact Kept.crash h
  | queueing todo pending decided => exact Busy.crash h hexposed
  | judging i due x todo pending decided => exact Busy.crash h hexposed
  | firing todo => exact Busy.crash h hexposed

theorem Busy.judged (h : Busy C s todo (some (i, due, x)) pending decided) :
    s.found i.key = some ⟨i, due, x, false⟩ := h.current i due x rfl

theorem Busy.first (h : Busy C s todo none (p :: pending) decided) :
    ∃ x, s.found p.item.key = some ⟨p.item, p.due, x, false⟩ ∧
      ∀ a : Answers, a.gates = (s.ask p.item.key).gates →
        slotOutcome p.item x a = fireOutcome p.repo a.checks := by
  obtain ⟨x, hfound, hverdict⟩ := h.queued p List.mem_cons_self
  refine ⟨x, hfound, fun a ha => ?_⟩
  unfold slotOutcome
  rw [ha, show verdict p.item x (s.ask p.item.key).gates = .ok (p.repo, p.issueNumber) from
    hverdict]

theorem slotOutcome_of_error {a : Answers} (h : verdict i x a.gates = .error reason) :
    slotOutcome i x a = .error reason := by
  unfold slotOutcome
  rw [h]

/-- A careful exception leaves the slots of the tick as they are. -/
theorem Inv.raises (h : Inv C s) {at_ : Option String} {run : Option (String × Int)}
    (hr : Raises C s at_ run t) (hc : Careful C s (.raise run)) :
    Kept C (t.goto (.ended (.raised at_))) (.raised at_) := by
  obtain ⟨hsaved, hquiet⟩ := hc
  cases hr with
  | @look _ i todo pending decided at' leaves =>
    have hbusy := h.queueing at'
    have hmem : ∀ key f, s.found key = some f →
        s.mem.set i.key (s.lookAt C i).entry key = s.mem key := fun key f hf =>
      State.set_of_ne _ (hbusy.ne_of_found List.mem_cons_self hf) _
    -- the items that were not looked at have the entries they had
    have hleft : ∀ m : State, (∀ key, key ≠ i.key → m key = s.mem key) → ∀ r : Process,
        r.mem = m → r.now = s.now → r.ask = s.ask → ∀ j ∈ i :: todo,
        Quiet C r j ∨ Ending.raised (some i.key) = .raised (some j.key) := by
      rintro m hm r rfl hnow hask j hj
      rcases List.mem_cons.mp hj with rfl | hj
      · exact .inr rfl
      · refine .inl ((hquiet i todo pending decided at' j hj).congr (hm j.key ?_) hnow hask)
        exact fun heq => (List.nodup_cons.mp hbusy.todo_nodup).1 (heq ▸ List.mem_map_of_mem hj)
    have hset := fun key (hne : key ≠ i.key) =>
      State.set_of_ne s.mem hne (s.lookAt C i).entry
    have hseeded : ∀ key f, s.found key = some f →
        f.handled = true ∧ s.file key = s.mem.set i.key (s.lookAt C i).entry key := by
      intro key f hf
      exact ⟨(hsaved key f hf).1, (hsaved key f hf).2.trans (hmem key f hf).symm⟩
    rcases leaves with rfl | rfl | rfl
    · exact hbusy.ended hsaved (hleft _ (fun _ _ => rfl) _ rfl rfl rfl)
    · exact hbusy.seed.ended hseeded (hleft _ hset _ rfl rfl rfl)
    · rcases looked_cases C s i pending with ⟨-, heq⟩ | ⟨-, heq⟩
      · rw [heq]
        exact hbusy.ended hsaved (hleft _ (fun _ _ => rfl) _ rfl rfl rfl)
      · rw [heq]
        exact (hbusy.seed.save waitingKeys_eq_nil).ended
          (fun key f hf => ⟨(hsaved key f hf).1, rfl⟩) (hleft _ hset _ rfl rfl rfl)
  | judge at' leaves => cases (hsaved _ _ (h.judging at').judged).1
  | save at' => exact (h.queueing at').ended hsaved fun _ hj => nomatch hj
  | fire at' leaves =>
    obtain ⟨x, hfound, -⟩ := (h.firing at').first
    cases (hsaved _ _ hfound).1
  | submit at' =>
    obtain ⟨x, hfound, -⟩ := (h.firing at').first
    cases (hsaved _ _ hfound).1
  | close at' => exact (h.firing at').ended hsaved fun _ hj => nomatch hj

/-- **A careful step loses no slot.** -/
theorem Inv.step (h : Inv C s) (hs : Step C s l t) (hc : Careful C s l) : Inv C t := by
  cases hs with
  | reconcile => exact kept_rewrite _ _ _
  | edit => exact kept_rewrite _ _ _
  | start => exact busy_start _ _ _ _
  | @pass i todo pending decided at' quiet =>
    refine ((h.queueing at').looked.pass ?_).goto _
    obtain ⟨hmem, hnow, hask, -⟩ := looked_spec C s i pending
    rcases quiet with hnone | hdefers
    · refine .inl ?_
      unfold Process.lookAt
      rw [hmem, hnow]
      exact due_look.trans hnone
    · refine .inr ?_
      unfold Process.defers
      rw [hask]
      exact hdefers
  | @find i todo pending decided due at' isDue undeferred =>
    obtain ⟨-, hnow, -, hfile⟩ := looked_spec C s i pending
    refine ((h.queueing at').looked.find ⟨s.mem i.key, ?_⟩ ?_
      (hfile (hc i todo pending decided due at' isDue undeferred))).goto _
    · rw [hnow]
      rfl
    · rw [hnow]
      exact isDue
  | skip at' judged =>
    have hbusy := h.judging at'
    exact (hbusy.handle hbusy.judged (slotOutcome_of_error judged) rfl fun _ hp => hp).goto _
  | queue at' judged => exact ((h.judging at').queue judged).goto _
  | @save pending decided at' =>
    have hbusy := h.queueing at'
    cases decided with
    | true =>
      have hsaved := hbusy.save waitingKeys_eq_nil
      cases pending with
      | nil => exact hsaved.ended (fun _ _ hf => ⟨hbusy.handled hf, rfl⟩) fun _ hj => nomatch hj
      | cons p pending => exact hsaved.goto _
    | false =>
      cases pending with
      | nil =>
        -- nothing was skipped and nothing is queued: no slot was found
        refine hbusy.ended (fun key f hf => ?_) fun _ hj => nomatch hj
        have hopen := hbusy.undecided rfl key f hf
        rw [hbusy.handled hf] at hopen
        cases hopen
      | cons p pending => exact { hbusy.goto _ with undecided := fun hd => nomatch hd }
  | @fire p todo outcome at' fired =>
    have hbusy := h.firing at'
    obtain ⟨x, hfound, hout⟩ := hbusy.first
    exact (hbusy.handle hfound ((hout _ rfl).trans fired) rfl fun q hq =>
      List.mem_cons_of_mem _ hq).goto _
  | persist busy => exact InvAt.save h busy
  | close at' => exact (h.firing at').close
  | raise raises => exact h.raises raises hc
  | crash => exact InvAt.crash h hc

theorem inv_boot (st : State) : Inv C (.boot st) where
  settled _ _ hf := nomatch hf
  apart _ _ hj := nomatch hj

/-- **No due slot is silently lost**: in every run of ticks with any roles, answers, exceptions,
deaths and calls between them, if every step is careful. -/
theorem kept_of_careful {st : State} (p : Path (CarefulStep C) (.boot st) ls s)
    (ended : s.phase = .ended how) : Kept C s how := by
  have hrun : Inv C s := p.invariant (fun s l t hi hs => hi.step hs.1 hs.2) (inv_boot st)
  exact hrun.at ended

def hourly : Cron Unit where
  parseCron _ := .ok ()
  nextFire _ after := .ok ((after / 3600 + 1) * 3600)

def hourlyRole (name : String) : Role := { name := name, schedule := some "0 * * * *" }

def twoRoles : Roster where
  roles := [hourlyRole "a", hourlyRole "b"]
  names := by decide
  plain := by decide
  jobs := by decide

theorem items_twoRoles :
    twoRoles.items = [⟨hourlyRole "a", none, some "0 * * * *"⟩,
      ⟨hourlyRole "b", none, some "0 * * * *"⟩] := by
  unfold Roster.items
  rw [List.mergeSort_of_pairwise (by decide)]
  rfl

/-- Both slots of the full hour are queued; the consolidation of the first role raises, and the
slot of the second is neither fired nor skipped nor due again. -/
theorem slot_lost :
    ¬ ∀ (C : Cron Unit) (st : State) (ls : List Label) (s : Process) (how : Ending),
      Path (Step C) (.boot st) ls s → s.phase = .ended how → Kept C s how := by
  intro h
  have hkept := h hourly (fun _ => { cursor := some 1000 }) _ _ _ (
    .cons (@Step.start _ _ _ .returned 3700 twoRoles
      (fun _ => { checks := { submit := .ok "run" } }) rfl) <|
    .cons (@Step.find _ _ _ _ _ [] false 3600
      (congrArg (Phase.queueing · [] false) items_twoRoles) rfl rfl) <|
    .cons (@Step.queue _ _ _ _ _ _ _ _ _ "" none rfl rfl) <|
    .cons (@Step.find _ _ _ _ _ _ false 3600 rfl rfl rfl) <|
    .cons (@Step.queue _ _ _ _ _ _ _ _ _ "" none rfl rfl) <|
    .cons (@Step.save _ _ _ _ false rfl) <|
    .cons (.raise (.fire rfl (.inl rfl))) <| .nil _) rfl
  rcases hkept.settled "b" _ rfl with hrecorded | ⟨hdied, -⟩
  · cases hrecorded with
    | fired runId own once saved kept => cases once
    | skipped reason own never saved kept => cases own
  · cases hdied

/-- The two slots of the full hour are fired. -/
theorem kept_of_careful_fired :
    ∃ s : Process, s.submitted "b" = [(3600, "run")] ∧ Kept hourly s .returned := by
  obtain ⟨ls, s, hrun, hended, hsubmitted⟩ : ∃ (ls : List Label) (s : Process),
      Path (CarefulStep hourly) (.boot fun _ => { cursor := some 1000 }) ls s ∧
        s.phase = .ended .returned ∧ s.submitted "b" = [(3600, "run")] := by
    refine ⟨_, _, .cons ⟨@Step.start _ _ _ .returned 3700 twoRoles
        (fun _ => { checks := { submit := .ok "run" } }) rfl, trivial⟩ <|
      .cons ⟨@Step.find _ _ _ _ _ [] false 3600
        (congrArg (Phase.queueing · [] false) items_twoRoles) rfl rfl,
        fun _ _ _ _ _ _ _ _ => .inl rfl⟩ <|
      .cons ⟨@Step.queue _ _ _ _ _ _ _ _ _ "" none rfl rfl, trivial⟩ <|
      .cons ⟨@Step.find _ _ _ _ _ _ false 3600 rfl rfl rfl, fun i _ _ _ _ hi _ _ => ?_⟩ <|
      .cons ⟨@Step.queue _ _ _ _ _ _ _ _ _ "" none rfl rfl, trivial⟩ <|
      .cons ⟨@Step.save _ _ _ _ false rfl, trivial⟩ <|
      .cons ⟨.fire rfl rfl, trivial⟩ <|
      .cons ⟨.fire rfl rfl, trivial⟩ <|
      .cons ⟨.close rfl, trivial⟩ <| .nil _, rfl, rfl⟩
    obtain ⟨rfl, -⟩ := List.cons.inj (Phase.queueing.inj hi).1
    exact .inl rfl
  exact ⟨s, hsubmitted, kept_of_careful hrun hended⟩

end Runs

end Scheduler
