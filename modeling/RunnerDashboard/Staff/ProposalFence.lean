import RunnerDashboard.Staff.ProposalRuns

/-!
# Seat handoffs and proposals

A handoff advances the epoch of a thread, and what was proposed for an earlier epoch is refused:
`execute_proposal` compares the epochs when it checks the proposal, and `decide_proposal` when
it approves it.  The transition to `executing` does not, so a handoff between the last of these
and the transition is not noticed.

## Main results

* `fresh_of_unhurried` — **no executor is started for a stale proposal** in an unhurried run.
* `started_stale` — one that is, in another run.
-/

namespace Proposals

open Sql Lts

/-- The thread is not handed over while a call has compared the epochs of a proposal of it for
the last time and has yet to move it. -/
def Unhurried (s : World) : Label → Prop
  | .advance threadId => ∀ c call x, s.calls c = some call → call.phase = .entering →
      s.store.origin call.id = some x → x.1 ≠ threadId
  | _ => True

def UnhurriedStep (redact : String → String) (s : World) (l : Label) (t : World) : Prop :=
  Step redact s l t ∧ Unhurried s l

/-- No call past its last comparison, and no start, is of a stale proposal. -/
structure Fresh (s : World) : Prop where
  fetched : ∀ c call p, s.calls c = some call → call.phase = .fetched p →
    s.store.origin call.id = some (p.threadId, p.epoch)
  entering : ∀ c call, s.calls c = some call → call.phase = .entering →
    (s.store.origin call.id).isSome = true ∧ s.store.stale call.id = false
  entered : ∀ c call stale, s.calls c = some call → call.phase = .entered stale → stale = false
  started : ∀ id stale, .started stale ∈ s.log id → stale = false

section Fence

variable {redact : String → String} {s t : World} {l : Label} {ls : List Label} {c : ℕ}
  {x : Option Call} {id : String} {st : Store} {old new : ProposalState} {e : Entry}

theorem Fresh.setCall (h : Fresh s)
    (hfetched : ∀ call p, x = some call → call.phase = .fetched p →
      s.store.origin call.id = some (p.threadId, p.epoch))
    (hentering : ∀ call, x = some call → call.phase = .entering →
      (s.store.origin call.id).isSome = true ∧ s.store.stale call.id = false)
    (hentered : ∀ call stale, x = some call → call.phase = .entered stale → stale = false) :
    Fresh (s.setCall c x) where
  fetched d call p hcall hphase := by
    rcases setCall_cases hcall with ⟨-, hx⟩ | ⟨-, hold⟩
    · exact hfetched call p hx hphase
    · exact h.fetched d call p hold hphase
  entering d call hcall hphase := by
    rcases setCall_cases hcall with ⟨-, hx⟩ | ⟨-, hold⟩
    · exact hentering call hx hphase
    · exact h.entering d call hold hphase
  entered d call stale hcall hphase := by
    rcases setCall_cases hcall with ⟨-, hx⟩ | ⟨-, hold⟩
    · exact hentered call stale hx hphase
    · exact h.entered d call stale hold hphase
  started := h.started

theorem Fresh.close (h : Fresh s) (c : ℕ) : Fresh (s.setCall c none) :=
  h.setCall (fun _ _ hx => by cases hx) (fun _ hx => by cases hx) fun _ _ hx => by cases hx

/-- Something happens to a proposal; an executor is started for one that is not stale. -/
theorem Fresh.record (h : Fresh s) (id : String)
    (he : ∀ stale, e = .started stale → stale = false) : Fresh (s.record id e) where
  fetched := h.fetched
  entering := h.entering
  entered := h.entered
  started k stale hmem := by
    rcases mem_record_log hmem with hold | ⟨-, hstarted⟩
    · exact h.started k stale hold
    · exact he stale hstarted.symm

theorem Fresh.commit (h : Fresh s) (hm : Moved s.store id old new st)
    (he : ∀ stale, e ≠ .started stale) : Fresh (s.commit st id e) where
  fetched c call p hcall hphase := (hm.origin call.id).trans (h.fetched c call p hcall hphase)
  entering c call hcall hphase := by
    obtain ⟨horigin, hstale⟩ := h.entering c call hcall hphase
    exact ⟨(congrArg Option.isSome (hm.origin call.id)).trans horigin,
      (hm.stale call.id).trans hstale⟩
  entered := h.entered
  started := (h.record id fun stale heq => absurd heq (he stale)).started

theorem Fresh.transition (h : Fresh s) {now : Int} {by_ reason : String} {p : Proposal}
    (done : transitionProposalState redact now id new by_ reason s.store = .ok (p, st)) :
    Fresh (s.commit st id (.moved new)) := by
  obtain ⟨old, -, hm⟩ := transitionProposalState_ok done
  exact h.commit hm fun stale heq => by cases heq

theorem Fresh.create (h : Fresh s) (id threadId action : String) (epoch : ℕ) :
    Fresh { s with store := createProposal id threadId action epoch s.store } := by
  have hthreads : (createProposal id threadId action epoch s.store).threads = s.store.threads := by
    unfold createProposal
    split
    · rfl
    · rfl
  rcases create_cases id threadId action epoch s.store with heq | ⟨hnone, p, -, hget⟩
  · rw [heq]
    exact h
  generalize createProposal id threadId action epoch s.store = st at hget hthreads
  have horigin : ∀ k x, s.store.origin k = some x → st.origin k = some x := by
    intro k x hx
    have hne : k ≠ id := by
      rintro rfl
      rw [Store.origin, hnone] at hx
      cases hx
    rwa [Store.origin, hget, if_neg hne]
  refine ⟨fun c call p hcall hphase => horigin _ _ (h.fetched c call p hcall hphase),
    fun c call hcall hphase => ?_, h.entered, h.started⟩
  obtain ⟨hsome, hstale⟩ := h.entering c call hcall hphase
  obtain ⟨x, hx⟩ := Option.isSome_iff_exists.mp hsome
  have hx' : st.origin call.id = some x := horigin _ _ hx
  refine ⟨by rw [hx']; rfl, ?_⟩
  have hepoch : st.threadEpoch x.1 = s.store.threadEpoch x.1 := by
    unfold Store.threadEpoch
    rw [hthreads]
  rw [Store.stale, hx, Option.any_some] at hstale
  rw [Store.stale, hx', Option.any_some, hepoch]
  exact hstale

/-- **An unhurried step starts no executor for a stale proposal.** -/
theorem Fresh.step (h : Fresh s) (hs : Step redact s l t) (hu : Unhurried s l) : Fresh t := by
  cases hs with
  | create => exact h.create _ _ _ _
  | @advance threadId =>
    -- an unhurried advance meets no call that has compared the epochs
    refine ⟨h.fetched, fun c call hcall hphase => ?_, h.entered, h.started⟩
    obtain ⟨hsome, hstale⟩ := h.entering c call hcall hphase
    exact ⟨hsome, (stale_advance fun x hx => hu c call x hcall hphase hx).trans hstale⟩
  | @fetch c id approver approve p free read =>
    refine h.setCall (fun call q hx hphase => ?_) (fun call hx hphase => ?_)
      fun call b hx hphase => ?_
    · obtain rfl := Option.some.inj hx
      obtain rfl := Phase.fetched.inj hphase
      rw [Store.origin, read]
      rfl
    · obtain rfl := Option.some.inj hx
      cases hphase
    · obtain rfl := Option.some.inj hx
      cases hphase
  | @check c call p k at' phase =>
    have horigin := h.fetched c call p at' phase
    refine h.setCall (fun call' q hx hphase => ?_) (fun call' hx hphase => ?_)
      fun call' b hx hphase => ?_
    · exact absurd hphase ((next_cases hx).2.2.1 q)
    · obtain ⟨hid, -, -, henters⟩ := next_cases hx
      obtain ⟨-, hfresh⟩ := checkProposal_enters (henters hphase)
      rw [hid, Store.stale, horigin]
      exact ⟨rfl, hfresh⟩
    · have hexecutes := (next_cases hx).2.1
      rw [Call.executes, hphase] at hexecutes
      cases hexecutes
  | lapse _ _ done => exact (h.transition done).close _
  | fail _ _ done => exact (h.transition done).close _
  | @decide c call now p st ok at' phase done =>
    obtain ⟨old, -, hm, hstale⟩ := decideProposal_ok done
    have hdecided := h.commit (e := .decided .approved) hm fun stale heq => by cases heq
    refine hdecided.setCall (fun call' q hx hphase => ?_) (fun call' hx hphase => ?_)
      fun call' b hx hphase => ?_
    · rw [audited_eq_some hx] at hphase
      cases hphase
    · -- the decision has compared the epochs again
      rw [audited_eq_some hx]
      refine ⟨?_, (hm.stale call.id).trans hstale⟩
      obtain ⟨q, hq, -⟩ := Option.map_eq_some_iff.mp hm.before
      change (st.origin call.id).isSome = true
      rw [hm.origin, Store.origin, hq]
      rfl
    · rw [audited_eq_some hx] at hphase
      cases hphase
  | @enter c call now p st ok at' phase done =>
    obtain ⟨-, hstale⟩ := h.entering c call at' phase
    refine (h.transition done).setCall (fun call' q hx hphase => ?_) (fun call' hx hphase => ?_)
      fun call' b hx hphase => ?_
    · rw [audited_eq_some hx] at hphase
      cases hphase
    · rw [audited_eq_some hx] at hphase
      cases hphase
    · rw [audited_eq_some hx] at hphase
      rw [← Phase.entered.inj hphase, hstale]
  | @launch c call stale at' phase =>
    have hfresh := h.entered c call stale at' phase
    refine (h.record call.id fun b heq => ?_).setCall (fun call' q hx hphase => ?_)
      (fun call' hx hphase => ?_) fun call' b hx hphase => ?_
    · rw [← Entry.started.inj heq, hfresh]
    · obtain rfl := Option.some.inj hx
      cases hphase
    · obtain rfl := Option.some.inj hx
      cases hphase
    · obtain rfl := Option.some.inj hx
      cases hphase
  | @finish c call new reason at' phase ends =>
    refine h.setCall (fun call' q hx hphase => ?_) (fun call' hx hphase => ?_)
      fun call' b hx hphase => ?_
    · obtain rfl := Option.some.inj hx
      cases hphase
    · obtain rfl := Option.some.inj hx
      cases hphase
    · obtain rfl := Option.some.inj hx
      cases hphase
  | settle _ _ done => exact (h.transition done).close _
  | drop => exact h.close _
  | decideBy _ done =>
    obtain ⟨old, -, hm, -⟩ := decideProposal_ok done
    exact h.commit hm fun stale heq => by cases heq
  | expire done => exact h.transition done
  | restart =>
    -- no call survives, and no start is recorded
    refine ⟨fun c call p hcall => (by cases hcall), fun c call hcall => (by cases hcall),
      fun c call stale hcall => (by cases hcall), fun id stale hmem => ?_⟩
    dsimp only at hmem
    split at hmem
    · rcases List.mem_append.mp hmem with hmem | hmem
      · exact h.started id stale hmem
      · cases List.mem_singleton.mp hmem
    · exact h.started id stale hmem
  | find => exact ⟨h.fetched, h.entering, h.entered, h.started⟩
  | recover _ done => exact h.transition done

/-- **A seat handoff fences pending proposals**: in every run of handoffs and executions on any
threads and proposals, beside decisions, expiries and restarts, if every step is unhurried then
no executor is started for a proposal whose epoch was not its thread's when it was moved to
`executing`. -/
theorem fresh_of_unhurried {threads : Table String ℕ}
    (p : Path (UnhurriedStep redact) (.start threads) ls s) (id : String) :
    .started true ∉ s.log id := by
  have hrun := p.invariant (I := Fresh) (fun s l t hi hs => hi.step hs.1 hs.2)
    ⟨fun c call p hcall => (by cases hcall), fun c call hcall => (by cases hcall),
      fun c call stale hcall => (by cases hcall), fun id stale hmem => by cases hmem⟩
  intro hmem
  cases hrun.started id true hmem

def oneThread : Table String ℕ := Table.empty.insertNew "t" 0

/-- The thread is handed over between the check and the transition. -/
theorem started_stale :
    ¬ ∀ (redact : String → String) (threads : Table String ℕ) (ls : List Label) (s : World)
      (id : String), Path (Step redact) (.start threads) ls s → .started true ∉ s.log id := by
  intro h
  refine h id oneThread _ _ "p" (
    .cons (@Step.create _ _ "p" "t" "deploy" 0) <|
    .cons (@Step.decideBy _ _ "p" "owner" "" .approved 0 _ _ (.inl rfl) rfl) <|
    .cons (@Step.fetch _ _ 0 "p" "owner" false _ rfl rfl) <|
    .cons (@Step.check _ _ 0 _ _ passing rfl rfl) <|
    .cons (@Step.advance _ _ "t") <|
    .cons (@Step.enter _ _ 0 _ 0 _ _ true rfl rfl rfl) <|
    .cons (@Step.launch _ _ 0 _ _ rfl rfl) <| .nil _) ?_
  decide

/-- A handoff before the check refuses the proposal. -/
theorem fresh_of_unhurried_refused :
    ∃ s : World, s.store.stale "p" = true ∧ .started true ∉ s.log "p" := by
  obtain ⟨ls, s, hrun, hstale⟩ : ∃ (ls : List Label) (s : World),
      Path (UnhurriedStep id) (.start oneThread) ls s ∧ s.store.stale "p" = true := by
    refine ⟨_, _, .cons ⟨@Step.create _ _ "p" "t" "deploy" 0, trivial⟩ <|
      .cons ⟨@Step.decideBy _ _ "p" "owner" "" .approved 0 _ _ (.inl rfl) rfl, trivial⟩ <|
      .cons ⟨@Step.fetch _ _ 0 "p" "owner" false _ rfl rfl, trivial⟩ <|
      .cons ⟨@Step.advance _ _ "t", fun c call x hcall hphase => ?_⟩ <|
      .cons ⟨@Step.check _ _ 0 _ _ passing rfl rfl, trivial⟩ <| .nil _, by decide⟩
    rcases setCall_cases hcall with ⟨-, hx⟩ | ⟨-, hold⟩
    · obtain rfl := Option.some.inj hx
      cases hphase
    · cases hold
  exact ⟨s, hstale, fresh_of_unhurried hrun "p"⟩

end Fence

end Proposals
