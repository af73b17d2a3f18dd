import RunnerDashboard.WorkItems.Store

/-!
# Runs and their work items

The status events of a run move the work item that is linked to it.  The module of the runs has its
own list of the states it moves an item from; the table of transitions is that of the work items,
and a transition that is not in it is logged and dropped.

## Main results

* `events_applied_iff` — **every event of a run is applied exactly if it meets the item in a state
  that accepts it, and the item follows every event exactly if the states before lead to those
  after**.
-/

namespace WorkItems

def workItemStateForSuccess (artifact : String) : WorkItemState :=
  if artifact = "pr_open" then .waitingOnCi
  else if artifact = "pr_merged" ∨ artifact = "deployed" then .done
  else .needsEvidence

structure LinkedRun where
  id : String
  workItemId : String

/-- A status event: the status of the run, its artifact then, and the time. -/
structure StatusEvent where
  status : String
  artifact : String := ""
  now : String

/-- The transition that `update_linked_work_item` requests for an item in a state. -/
def transitionRequest (e : StatusEvent) (state : WorkItemState) : Option WorkItemState :=
  if (e.status = "preparing" ∨ e.status = "running") ∧ (state = .open ∨ state = .waitingOnUser) then
    some .inProgress
  else if e.status = "needs_input" ∧ (state = .open ∨ state = .inProgress) then
    some .waitingOnUser
  else if e.status = "succeeded" ∧
      (state = .open ∨ state = .inProgress ∨ state = .waitingOnCi ∨ state = .needsEvidence) then
    let target := workItemStateForSuccess e.artifact
    if target ≠ state then some target else none
  else none

/-- `update_linked_work_item`, with the exception that is logged. -/
def updateLinkedWorkItem (s : Store) (run : LinkedRun) (e : StatusEvent) :
    Store × Option WorkItemError :=
  if run.workItemId = "" then (s, none)
  else
    match s.get? run.workItemId with
    | none => (s, none)
    | some wi =>
      match addLink s run.workItemId "runs" run.id e.now with
      | .error err => (s, some err)
      | .ok linked =>
        match transitionRequest e wi.state with
        | none => (linked, none)
        | some target =>
          match transitionState linked run.workItemId target.value e.now with
          | .error err => (linked, some err)
          | .ok moved => (moved, none)

def afterEvents (run : LinkedRun) (s : Store) (events : List StatusEvent) : Store :=
  events.foldl (fun s e => (updateLinkedWorkItem s run e).1) s

def stateOf (s : Store) (run : LinkedRun) : Option WorkItemState :=
  (s.get? run.workItemId).map WorkItem.state

/-- What an event requests is legal and becomes the state, and no exception is logged. -/
def Applied (run : LinkedRun) (s : Store) (e : StatusEvent) : Prop :=
  (updateLinkedWorkItem s run e).2 = none ∧ ∀ state target, stateOf s run = some state →
    transitionRequest e state = some target →
      target ∈ validTransitions state ∧ stateOf (updateLinkedWorkItem s run e).1 run = some target

def prescribed (e : StatusEvent) : Option WorkItemState :=
  if e.status = "preparing" ∨ e.status = "running" then some .inProgress
  else if e.status = "needs_input" then some .waitingOnUser
  else if e.status = "succeeded" then some (workItemStateForSuccess e.artifact)
  else none

def Prescribed (run : LinkedRun) (s : Store) (e : StatusEvent) : Prop :=
  ∀ state target, stateOf s run = some state → state.terminal = false → prescribed e = some target →
    stateOf (updateLinkedWorkItem s run e).1 run = some target

/-- The states in which the request of an event is legal. -/
def Accepts (e : StatusEvent) (state : WorkItemState) : Prop :=
  (e.status = "needs_input" → state ≠ .open) ∧
    (e.status = "succeeded" → state ≠ .open ∧
      (state = .waitingOnCi → workItemStateForSuccess e.artifact ≠ .needsEvidence))

/-- The states that are not terminal and lead to the state of an event. -/
def Follows (e : StatusEvent) (state : WorkItemState) : Prop :=
  (e.status = "preparing" ∨ e.status = "running" →
      state = .open ∨ state = .waitingOnUser ∨ state = .inProgress) ∧
    (e.status = "needs_input" → state = .inProgress ∨ state = .waitingOnUser) ∧
    (e.status = "succeeded" → state = .inProgress ∨ state = .needsEvidence ∨
      state = .waitingOnCi ∧ workItemStateForSuccess e.artifact ≠ .needsEvidence)

/-- The state after an event: a request that is not legal is dropped. -/
def nextState (e : StatusEvent) (state : WorkItemState) : WorkItemState :=
  match transitionRequest e state with
  | none => state
  | some target => if target ∈ validTransitions state then target else state

instance (e : StatusEvent) (state : WorkItemState) : Decidable (Accepts e state) :=
  inferInstanceAs (Decidable (_ ∧ _))

instance (e : StatusEvent) (state : WorkItemState) : Decidable (Follows e state) :=
  inferInstanceAs (Decidable (_ ∧ _))

/-! ### What an event asks for -/

variable {run : LinkedRun} {s : Store} {e : StatusEvent} {w : WorkItem}
  {state target : WorkItemState}

/-- The four kinds of events that say something about the item, and the others. -/
theorem status_cases (e : StatusEvent) :
    (e.status = "preparing" ∨ e.status = "running") ∨ e.status = "needs_input" ∨
      e.status = "succeeded" ∨ prescribed e = none ∧ (∀ state, transitionRequest e state = none) ∧
        e.status ≠ "needs_input" ∧ e.status ≠ "succeeded" ∧
          ¬ (e.status = "preparing" ∨ e.status = "running") := by
  by_cases h1 : e.status = "preparing" ∨ e.status = "running"
  · exact .inl h1
  by_cases h2 : e.status = "needs_input"
  · exact .inr (.inl h2)
  by_cases h3 : e.status = "succeeded"
  · exact .inr (.inr (.inl h3))
  refine .inr (.inr (.inr ⟨?_, fun state => ?_, h2, h3, h1⟩))
  · unfold prescribed
    rw [if_neg h1, if_neg h2, if_neg h3]
  · unfold transitionRequest
    rw [if_neg (fun h => h1 h.1), if_neg (fun h => h2 h.1), if_neg (fun h => h3 h.1)]

theorem workItemStateForSuccess_cases (artifact : String) :
    workItemStateForSuccess artifact = .waitingOnCi ∨ workItemStateForSuccess artifact = .done ∨
      workItemStateForSuccess artifact = .needsEvidence := by
  unfold workItemStateForSuccess
  split_ifs
  · exact .inl rfl
  · exact .inr (.inl rfl)
  · exact .inr (.inr rfl)

/-- **A request is legal exactly in the states that accept the event.** -/
theorem legal_iff (e : StatusEvent) (state : WorkItemState) :
    (∀ target, transitionRequest e state = some target → target ∈ validTransitions state) ↔
      Accepts e state := by
  unfold Accepts
  rcases status_cases e with h | h | h | ⟨-, hnone, h2, h3, -⟩
  · have h2 : e.status ≠ "needs_input" := by rcases h with h | h <;> rw [h] <;> decide
    have h3 : e.status ≠ "succeeded" := by rcases h with h | h <;> rw [h] <;> decide
    unfold transitionRequest
    cases state <;> simp [h, h2, h3, validTransitions]
  · unfold transitionRequest
    cases state <;> simp [h, validTransitions]
  · unfold transitionRequest
    rcases workItemStateForSuccess_cases e.artifact with ha | ha | ha <;>
      cases state <;> simp [h, ha, validTransitions]
  · simp [hnone, h2, h3]

/-- An event leads to its state, as it asks for it or the item is in it. -/
theorem leads_iff (hterminal : state.terminal = false) :
    (∀ target, prescribed e = some target → nextState e state = target) ↔ Follows e state := by
  unfold Follows nextState
  rcases status_cases e with h | h | h | ⟨hno, hnone, h2, h3, h1⟩
  · have h2 : e.status ≠ "needs_input" := by rcases h with h | h <;> rw [h] <;> decide
    have h3 : e.status ≠ "succeeded" := by rcases h with h | h <;> rw [h] <;> decide
    unfold transitionRequest prescribed
    cases state <;> simp_all [validTransitions, WorkItemState.terminal]
  · unfold transitionRequest prescribed
    cases state <;> simp_all [validTransitions, WorkItemState.terminal]
  · unfold transitionRequest prescribed
    rcases workItemStateForSuccess_cases e.artifact with ha | ha | ha <;>
      cases state <;> simp_all [validTransitions, WorkItemState.terminal]
  · simp [hno, h1, h2, h3]

/-! ### One event -/

/-- **The state of the item and the logged exception after an event.** -/
theorem updateLinkedWorkItem_spec (hlink : run.workItemId ≠ "")
    (h : s.get? run.workItemId = some w) :
    stateOf (updateLinkedWorkItem s run e).1 run = some (nextState e w.state) ∧
      ((updateLinkedWorkItem s run e).2 = none ↔
        ∀ target, transitionRequest e w.state = some target → target ∈
          validTransitions w.state) := by
  obtain ⟨linked, hadd, hlinked⟩ := get?_addLink "runs" run.id e.now h
  unfold updateLinkedWorkItem nextState stateOf
  rw [if_neg hlink, h]
  dsimp only
  rw [hadd]
  dsimp only
  cases hreq : transitionRequest e w.state with
  | none =>
    dsimp only
    rw [hlinked]
    exact ⟨rfl, iff_of_true rfl (by simp)⟩
  | some target =>
    dsimp only
    by_cases hvalid : target ∈ validTransitions w.state
    · obtain ⟨moved, hmove, hmoved⟩ := get?_transitionState e.now hlinked hvalid
      rw [hmove, if_pos hvalid]
      dsimp only
      rw [hmoved]
      exact ⟨rfl, iff_of_true rfl (by rintro _ ⟨⟩; exact hvalid)⟩
    · have hfail : transitionState linked run.workItemId target.value e.now =
          .error (.invalidStateTransition w.state.value target.value) := by
        unfold transitionState
        rw [WorkItemState.ofValue?_value, hlinked]
        exact if_neg hvalid
      rw [hfail, if_neg hvalid]
      dsimp only
      rw [hlinked]
      exact ⟨rfl, iff_of_false (by simp) fun hall => hvalid (hall target rfl)⟩

theorem stateOf_eq (h : s.get? run.workItemId = some w) : stateOf s run = some w.state := by
  rw [stateOf, h]
  rfl

/-- **An event is applied exactly if the state accepts it.** -/
theorem applied_iff (hlink : run.workItemId ≠ "") (h : s.get? run.workItemId = some w) :
    Applied run s e ↔ Accepts e w.state := by
  obtain ⟨hstate, herr⟩ := updateLinkedWorkItem_spec (e := e) hlink h
  rw [← legal_iff, ← herr]
  constructor
  · exact And.left
  · intro hnone
    refine ⟨hnone, fun state target hs hreq => ?_⟩
    obtain rfl := Option.some.inj ((stateOf_eq h).symm.trans hs)
    have hvalid := herr.mp hnone target hreq
    refine ⟨hvalid, ?_⟩
    rw [hstate, nextState, hreq]
    exact congrArg some (if_pos hvalid)

/-- **The item is in the state of an event after it exactly if the state before leads there.** -/
theorem prescribed_iff (hlink : run.workItemId ≠ "") (h : s.get? run.workItemId = some w) :
    Prescribed run s e ↔ (w.state.terminal = false → Follows e w.state) := by
  obtain ⟨hstate, -⟩ := updateLinkedWorkItem_spec (e := e) hlink h
  unfold Prescribed
  rw [stateOf_eq h, hstate]
  constructor
  · intro hall hterminal
    refine (leads_iff hterminal).mp fun target hp => ?_
    exact Option.some.inj (hall w.state target rfl hterminal hp)
  · rintro hfollows state target ⟨⟩ hterminal hp
    exact congrArg some ((leads_iff hterminal).mpr (hfollows hterminal) target hp)

theorem exists_get?_afterEvents (hlink : run.workItemId ≠ "") (events : List StatusEvent)
    (h : s.get? run.workItemId = some w) :
    ∃ w', (afterEvents run s events).get? run.workItemId = some w' := by
  induction events generalizing s w with
  | nil => exact ⟨w, h⟩
  | cons e events ih =>
    obtain ⟨hstate, -⟩ := updateLinkedWorkItem_spec (e := e) hlink h
    obtain ⟨w', hw', -⟩ := Option.map_eq_some_iff.mp hstate
    exact ih hw'

/-! ### Sequences of events -/

/-- Something holds at every event of a sequence, of the store before it. -/
def AtEveryEvent (run : LinkedRun) (s : Store) (events : List StatusEvent)
    (p : Store → StatusEvent → Prop) : Prop :=
  ∀ front e back, events = front ++ e :: back → p (afterEvents run s front) e

theorem atEveryEvent_nil {p : Store → StatusEvent → Prop} : AtEveryEvent run s [] p := by
  intro front e back h
  exact absurd h (by simp)

theorem atEveryEvent_cons {events : List StatusEvent} {p : Store → StatusEvent → Prop} :
    AtEveryEvent run s (e :: events) p ↔
      p s e ∧ AtEveryEvent run (updateLinkedWorkItem s run e).1 events p := by
  constructor
  · intro h
    refine ⟨h [] e events rfl, fun front e' back heq => ?_⟩
    exact h (e :: front) e' back (congrArg (e :: ·) heq)
  · rintro ⟨hfirst, hrest⟩ front e' back heq
    cases front with
    | nil =>
      obtain ⟨rfl, -⟩ := List.cons.inj heq
      exact hfirst
    | cons e'' front =>
      obtain ⟨rfl, hrest'⟩ := List.cons.inj heq
      exact hrest front e' back hrest'

def InState (run : LinkedRun) (p : WorkItemState → Prop) (s : Store) : Prop :=
  ∀ state, stateOf s run = some state → p state

theorem inState_iff {p : WorkItemState → Prop} (h : s.get? run.workItemId = some w) :
    InState run p s ↔ p w.state := by
  unfold InState
  rw [stateOf_eq h]
  exact ⟨fun hall => hall _ rfl, by rintro hp _ ⟨⟩; exact hp⟩

theorem atEveryEvent_congr {events : List StatusEvent} {p q : Store → StatusEvent → Prop}
    (hlink : run.workItemId ≠ "") (h : s.get? run.workItemId = some w)
    (hpq : ∀ s w e, s.get? run.workItemId = some w → (p s e ↔ q s e)) :
    AtEveryEvent run s events p ↔ AtEveryEvent run s events q := by
  unfold AtEveryEvent
  refine forall_congr' fun front => forall_congr' fun e => forall₂_congr fun back _ => ?_
  obtain ⟨w', hw'⟩ := exists_get?_afterEvents hlink front h
  exact hpq _ w' e hw'

/-- **Every event of a run is applied exactly if it meets the item in a state that accepts it, and
the item follows every event exactly if the states before lead to those after.** -/
theorem events_applied_iff (run : LinkedRun) (s : Store) (w : WorkItem) (events : List StatusEvent)
    (hlink : run.workItemId ≠ "") (h : s.get? run.workItemId = some w) :
    (AtEveryEvent run s events (Applied run) ↔
        AtEveryEvent run s events fun s e => InState run (Accepts e) s) ∧
      (AtEveryEvent run s events (fun s e => Applied run s e ∧ Prescribed run s e) ↔
        AtEveryEvent run s events fun s e => InState run
          (fun state => Accepts e state ∧ (state.terminal = false → Follows e state)) s) := by
  constructor
  · refine atEveryEvent_congr hlink h fun s w e hw => ?_
    rw [applied_iff hlink hw, inState_iff hw]
  · refine atEveryEvent_congr hlink h fun s w e hw => ?_
    rw [applied_iff hlink hw, prescribed_iff hlink hw, inState_iff hw]

def openItem : WorkItem :=
  { title := "a", requestedBy := "u", links := defaultLinks, lastProgressAt := "t0",
    createdAt := "t0", updatedAt := "t0" }

def openStore : Store := Sql.Table.empty.insertNew "wi-1" openItem

def linkedRun : LinkedRun := { id := "run-1", workItemId := "wi-1" }

/-- A question, and then the end of the run with a pull request. -/
def laterEvents : List StatusEvent :=
  [{ status := "running", now := "t1" },
    { status := "succeeded", artifact := "pr_open", now := "t2" }]

theorem events_applied_later : AtEveryEvent linkedRun openStore laterEvents
    fun s e => Applied linkedRun s e ∧ Prescribed linkedRun s e := by
  refine (events_applied_iff linkedRun openStore openItem laterEvents (by decide) rfl).2.mpr ?_
  refine atEveryEvent_cons.mpr ⟨(inState_iff rfl).mpr (by decide), ?_⟩
  exact atEveryEvent_cons.mpr ⟨(inState_iff rfl).mpr (by decide), atEveryEvent_nil⟩

/-- A question of a run that has not moved its open item is dropped. -/
theorem not_applied_open : createWorkItem Sql.Table.empty { title := "a", requestedBy := "u" }
      "wi-1" "t0" = .ok openStore ∧
    stateOf openStore linkedRun = some .open ∧
      (updateLinkedWorkItem openStore linkedRun { status := "needs_input", now := "t1" }).2 =
          some (.invalidStateTransition "open" "waiting_on_user") ∧
        ¬ AtEveryEvent linkedRun openStore [{ status := "needs_input", now := "t1" }]
          (Applied linkedRun) := by
  refine ⟨rfl, rfl, rfl, ?_⟩
  intro h
  have happlied := (h [] _ [] rfl).1
  cases happlied

end WorkItems
