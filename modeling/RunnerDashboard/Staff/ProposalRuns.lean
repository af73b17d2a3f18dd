import Mathlib.Logic.Function.Basic
import RunnerDashboard.Lib.Path
import RunnerDashboard.Staff.Proposals

/-!
# Executions of proposals

Any number of calls of `execute_proposal` run at once, beside other decisions, expiries, seat
handoffs and the reconciliation after a restart.  A call reads the proposal, checks it, decides
if it is to approve, moves the proposal to `executing`, starts the executor, and moves it to
`done` or `failed`.  It may end at any point, by an exception or because the process dies.

Between its check and its move a call holds nothing: the proposal may have been executed by
another call and have failed, and the table of transitions lets it be executed again.

## Main results

* `oneExecution_of_orderly` — **an approval buys at most one execution** in an orderly run.
-/

namespace Proposals

open Sql Lts

/-! ### Steps -/

/-- What a call does next. -/
inductive Phase
  /-- To read the thread and check the row it has read. -/
  | fetched (p : Proposal)
  /-- To move the proposal to `expired`. -/
  | expiring
  /-- To move the proposal to `failed`, without running it. -/
  | failing (reason : String)
  | deciding
  /-- To move the proposal to `executing`. -/
  | entering
  /-- To start the executor; whether the thread had moved on when the proposal was moved. -/
  | entered (stale : Bool)
  | running
  /-- To move the proposal to `done` or `failed`. -/
  | settling (new : ProposalState) (reason : String)

/-- A call of `execute_proposal`. -/
structure Call where
  id : String
  approve : Bool
  approver : String
  phase : Phase

/-- The call has moved the proposal to `executing` and has yet to move it on. -/
def Call.executes (call : Call) : Bool :=
  match call.phase with
  | .entered _ | .running | .settling _ _ => true
  | _ => false

/-- What happens to a proposal. -/
inductive Entry
  /-- A decision. -/
  | decided (new : ProposalState)
  | moved (new : ProposalState)
  /-- The executor is started; whether the proposal was moved for a stale thread. -/
  | started (stale : Bool)
  /-- The process dies while the proposal is `executing`. -/
  | interrupted
  deriving DecidableEq, Repr

/-- The store, the calls under way, the proposals that reconciliation found, and what happened
to each proposal. -/
structure World where
  store : Store
  calls : ℕ → Option Call
  found : List String
  log : String → List Entry

/-- No proposal has been made. -/
def World.start (threads : Table String ℕ) : World where
  store := ⟨.empty, threads⟩
  calls := fun _ => none
  found := []
  log := fun _ => []

def World.setCall (s : World) (c : ℕ) (x : Option Call) : World :=
  { s with calls := Function.update s.calls c x }

/-- Something happened to a proposal. -/
def World.record (s : World) (id : String) (e : Entry) : World :=
  { s with log := Function.update s.log id (s.log id ++ [e]) }

def World.commit (s : World) (st : Store) (id : String) (e : Entry) : World :=
  { s.record id e with store := st }

def Verdict.next (call : Call) : Verdict → Option Call
  | .raises => none
  | .expires => some { call with phase := .expiring }
  | .fails reason => some { call with phase := .failing reason }
  | .decides => some { call with phase := .deciding }
  | .enters => some { call with phase := .entering }

/-- What happens in a step. -/
inductive Label
  | create (id : String)
  | advance (threadId : String)
  | fetch (c : ℕ)
  | check (c : ℕ)
  | lapse (c : ℕ)
  | fail (c : ℕ)
  | decide (c : ℕ)
  | enter (c : ℕ)
  | launch (c : ℕ)
  | finish (c : ℕ)
  | settle (c : ℕ)
  | drop (c : ℕ)
  | decideBy (id : String)
  | expire (id : String)
  | restart
  | find
  | recover (id : String)

/-- The audit of a move may fail, and then the call ends. -/
def audited (ok : Bool) (call : Call) (phase : Phase) : Option Call :=
  if ok then some { call with phase := phase } else none

/-- One step.  A call whose store call is refused ends. -/
inductive Step (redact : String → String) : World → Label → World → Prop
  | create {s : World} {id threadId action : String} {epoch : ℕ} :
      Step redact s (.create id)
        { s with store := createProposal id threadId action epoch s.store }
  | advance {s : World} {threadId : String} :
      Step redact s (.advance threadId) { s with store := advanceThreadEpoch threadId s.store }
  | fetch {s : World} {c : ℕ} {id approver : String} {approve : Bool} {p : Proposal}
      (free : s.calls c = none) (read : s.store.proposals.get? id = some p) :
      Step redact s (.fetch c) (s.setCall c (some ⟨id, approve, approver, .fetched p⟩))
  | check {s : World} {c : ℕ} {call : Call} {p : Proposal} (k : Checks)
      (at' : s.calls c = some call) (phase : call.phase = .fetched p) :
      Step redact s (.check c) (s.setCall c
        ((checkProposal call.approve p (s.store.threadEpoch p.threadId) k).next call))
  | lapse {s : World} {c : ℕ} {call : Call} {now : Int} {p : Proposal} {st : Store}
      (at' : s.calls c = some call) (phase : call.phase = .expiring)
      (done : transitionProposalState redact now call.id .expired "" "Expired after 24h" s.store =
        .ok (p, st)) :
      Step redact s (.lapse c) ((s.setCall c none).commit st call.id (.moved .expired))
  | fail {s : World} {c : ℕ} {call : Call} {reason : String} {now : Int} {p : Proposal}
      {st : Store} (at' : s.calls c = some call) (phase : call.phase = .failing reason)
      (done : transitionProposalState redact now call.id .failed "" reason s.store =
        .ok (p, st)) :
      Step redact s (.fail c) ((s.setCall c none).commit st call.id (.moved .failed))
  | decide {s : World} {c : ℕ} {call : Call} {now : Int} {p : Proposal} {st : Store} {ok : Bool}
      (at' : s.calls c = some call) (phase : call.phase = .deciding)
      (done : decideProposal redact now call.id .approved call.approver "" s.store =
        .ok (p, st)) :
      Step redact s (.decide c)
        ((s.setCall c (audited ok call .entering)).commit st call.id (.decided .approved))
  | enter {s : World} {c : ℕ} {call : Call} {now : Int} {p : Proposal} {st : Store} {ok : Bool}
      (at' : s.calls c = some call) (phase : call.phase = .entering)
      (done : transitionProposalState redact now call.id .executing call.approver "" s.store =
        .ok (p, st)) :
      Step redact s (.enter c)
        ((s.setCall c (audited ok call (.entered (s.store.stale call.id)))).commit st call.id
          (.moved .executing))
  | launch {s : World} {c : ℕ} {call : Call} {stale : Bool} (at' : s.calls c = some call)
      (phase : call.phase = .entered stale) :
      Step redact s (.launch c)
        ((s.setCall c (some { call with phase := .running })).record call.id (.started stale))
  /-- The executor and the verifier are done, or raised. -/
  | finish {s : World} {c : ℕ} {call : Call} {new : ProposalState} {reason : String}
      (at' : s.calls c = some call) (phase : call.phase = .running)
      (ends : new = .done ∨ new = .failed) :
      Step redact s (.finish c)
        (s.setCall c (some { call with phase := .settling new reason }))
  | settle {s : World} {c : ℕ} {call : Call} {new : ProposalState} {reason : String} {now : Int}
      {p : Proposal} {st : Store} (at' : s.calls c = some call)
      (phase : call.phase = .settling new reason)
      (done : transitionProposalState redact now call.id new "" reason s.store = .ok (p, st)) :
      Step redact s (.settle c) ((s.setCall c none).commit st call.id (.moved new))
  /-- A call returns or raises, or its thread dies. -/
  | drop {s : World} {c : ℕ} : Step redact s (.drop c) (s.setCall c none)
  | decideBy {s : World} {id by_ reason : String} {new : ProposalState} {now : Int} {p : Proposal}
      {st : Store} (decision : new = .approved ∨ new = .denied)
      (done : decideProposal redact now id new by_ reason s.store = .ok (p, st)) :
      Step redact s (.decideBy id) (s.commit st id (.decided new))
  | expire {s : World} {id by_ reason : String} {now : Int} {p : Proposal} {st : Store}
      (done : transitionProposalState redact now id .expired by_ reason s.store = .ok (p, st)) :
      Step redact s (.expire id) (s.commit st id (.moved .expired))
  /-- The process dies. -/
  | restart {s : World} :
      Step redact s .restart
        { s with
          calls := fun _ => none
          found := []
          log := fun id => if s.store.stateOf id = some .executing then s.log id ++ [.interrupted]
            else s.log id }
  /-- The query of `reconcile_executing_proposals`. -/
  | find {s : World} {ids : List String}
      (query : ∀ id, id ∈ ids ↔ s.store.stateOf id = some .executing) :
      Step redact s .find { s with found := ids }
  | recover {s : World} {id reason : String} {now : Int} {p : Proposal} {st : Store}
      (found : id ∈ s.found)
      (done : transitionProposalState redact now id .failed "" reason s.store = .ok (p, st)) :
      Step redact s (.recover id) (s.commit st id (.moved .failed))

/-! ### What an approval buys -/

/-- A decision approved the proposal after the last start. -/
def Armed (log : List Entry) : Prop :=
  ∃ l₁ l₂, log = l₁ ++ .decided .approved :: l₂ ∧ ∀ stale, .started stale ∉ l₂

/-- The proposal was denied, has expired or is done. -/
def Entry.ends : Entry → Bool
  | .decided new | .moved new => new.terminal
  | _ => false

def Entry.starts : Entry → Bool
  | .started _ => true
  | _ => false

/-- **An approval buys at most one execution.** -/
structure OneExecution (log : List Entry) (state : Option ProposalState) : Prop where
  /-- There are no more starts than approvals. -/
  count : log.countP Entry.starts ≤ log.count (.decided .approved)
  /-- Each start comes after an approval that no other start came after. -/
  armed : ∀ before stale after, log = before ++ .started stale :: after → Armed before
  /-- Nothing is started after the end. -/
  final : ∀ before e after, log = before ++ e :: after → e.ends = true →
    ∀ stale, .started stale ∉ after
  /-- A proposal that was `executing` when the process died is moved to `failed` next. -/
  interrupted : ∀ before e after, log = before ++ .interrupted :: e :: after →
    e = .interrupted ∨ e = .moved .failed
  waiting : log.getLast? = some .interrupted → state = some .executing

/-! ### The conditions -/

def World.Executing (s : World) (id : String) : Prop :=
  ∃ c call, s.calls c = some call ∧ call.id = id ∧ call.executes = true

/-- A call that moves the proposal to `executing` does not find it `failed`, and one that moves
it to `failed` without having executed it finds no call that does. -/
def Orderly (s : World) : Label → Prop
  | .enter c => ∀ call, s.calls c = some call → s.store.stateOf call.id ≠ some .failed
  | .fail c => ∀ call, s.calls c = some call → ¬ s.Executing call.id
  | .recover id => ¬ s.Executing id
  | _ => True

/-! ### Histories -/

section Histories

variable {log : List Entry} {e : Entry} {state state' : Option ProposalState}

theorem armed_snoc_approved (log : List Entry) : Armed (log ++ [.decided .approved]) :=
  ⟨log, [], rfl, by simp⟩

theorem Armed.snoc (h : Armed log) (he : e.starts = false) : Armed (log ++ [e]) := by
  obtain ⟨l₁, l₂, rfl, hno⟩ := h
  refine ⟨l₁, l₂ ++ [e], by simp, fun stale hmem => ?_⟩
  rcases List.mem_append.mp hmem with hmem | hmem
  · exact hno stale hmem
  · rw [← List.mem_singleton.mp hmem] at he
    cases he

/-- An approval that was the last entry, or came before it. -/
theorem armed_snoc_iff : Armed (log ++ [e]) ↔
    e = .decided .approved ∨ (Armed log ∧ e.starts = false) := by
  constructor
  · rintro ⟨l₁, l₂, heq, hno⟩
    rcases snoc_eq_append_cons_iff.mp heq with ⟨-, hlast, -⟩ | ⟨l₂', rfl, hlog⟩
    · exact .inl hlast.symm
    · refine .inr ⟨⟨l₁, l₂', hlog, fun stale hmem => hno stale (by simp [hmem])⟩, ?_⟩
      cases e with
      | started stale => exact absurd (by simp) (hno stale)
      | decided _ => rfl
      | moved _ => rfl
      | interrupted => rfl
  · rintro (rfl | ⟨harmed, he⟩)
    · exact armed_snoc_approved log
    · exact harmed.snoc he

theorem count_le_of_armed
    (h : ∀ before stale after, log = before ++ .started stale :: after → Armed before) :
    log.countP Entry.starts ≤ log.count (.decided .approved) := by
  suffices hboth : log.countP Entry.starts ≤ log.count (.decided .approved) ∧
      (Armed log → log.countP Entry.starts + 1 ≤ log.count (.decided .approved)) from hboth.1
  induction log using List.reverseRecOn with
  | nil =>
    refine ⟨le_refl _, ?_⟩
    rintro ⟨l₁, l₂, heq, -⟩
    simp at heq
  | append_singleton log e ih =>
    obtain ⟨hle, harmed⟩ := ih fun before stale after heq =>
      h before stale (after ++ [e]) (by rw [heq]; simp)
    rw [List.countP_append, List.count_append, armed_snoc_iff]
    cases e with
    | started stale =>
      have hlt := harmed (h log stale [] rfl)
      refine ⟨by simpa [Entry.starts] using hlt, ?_⟩
      rintro (heq | ⟨-, heq⟩)
      · cases heq
      · cases heq
    | decided new =>
      cases new with
      | approved => exact ⟨by simp [Entry.starts]; omega, fun _ => by simp [Entry.starts]; omega⟩
      | _ =>
        refine ⟨by simpa [Entry.starts] using hle, ?_⟩
        rintro (heq | ⟨ha, -⟩)
        · cases heq
        · simpa [Entry.starts] using harmed ha
    | moved new =>
      refine ⟨by simpa [Entry.starts] using hle, ?_⟩
      rintro (heq | ⟨ha, -⟩)
      · cases heq
      · simpa [Entry.starts] using harmed ha
    | interrupted =>
      refine ⟨by simpa [Entry.starts] using hle, ?_⟩
      rintro (heq | ⟨ha, -⟩)
      · cases heq
      · simpa [Entry.starts] using harmed ha

theorem OneExecution.nil (state : Option ProposalState) : OneExecution [] state where
  count := le_refl _
  armed before stale after h := by simp at h
  final before e after h := by simp at h
  interrupted before e after h := by simp at h
  waiting h := by cases h

private theorem interrupted_snoc (h : OneExecution log state)
    (hwait : log.getLast? = some .interrupted → e = .interrupted ∨ e = .moved .failed) :
    ∀ before x after, log ++ [e] = before ++ .interrupted :: x :: after →
      x = .interrupted ∨ x = .moved .failed := by
  intro before x after heq
  rcases snoc_eq_append_cons_iff.mp heq with ⟨-, -, hnil⟩ | ⟨after', hafter, hlog⟩
  · cases hnil
  · cases after' with
    | nil =>
      obtain ⟨rfl, rfl⟩ := List.cons.inj hafter
      exact hwait (by rw [hlog]; simp)
    | cons y after' =>
      obtain ⟨rfl, -⟩ := List.cons.inj hafter
      exact h.interrupted before x after' hlog

theorem OneExecution.snoc (h : OneExecution log state) (he : e.starts = false)
    (hwait : log.getLast? = some .interrupted → e = .interrupted ∨ e = .moved .failed)
    (hlast : e = .interrupted → state' = some .executing) : OneExecution (log ++ [e]) state' := by
  have harmed : ∀ before stale after, log ++ [e] = before ++ .started stale :: after →
      Armed before := by
    intro before stale after heq
    rcases snoc_eq_append_cons_iff.mp heq with ⟨-, rfl, -⟩ | ⟨after', -, hlog⟩
    · cases he
    · exact h.armed before stale after' hlog
  refine ⟨count_le_of_armed harmed, harmed, fun before x after heq hx stale hmem => ?_,
    interrupted_snoc h hwait, fun hl => hlast (by simpa using hl)⟩
  rcases snoc_eq_append_cons_iff.mp heq with ⟨-, -, rfl⟩ | ⟨after', rfl, hlog⟩
  · cases hmem
  · rcases List.mem_append.mp hmem with hmem | hmem
    · exact h.final before x after' hlog hx stale hmem
    · rw [← List.mem_singleton.mp hmem] at he
      cases he

theorem OneExecution.start (h : OneExecution log state) (ha : Armed log)
    (hends : ∀ e ∈ log, e.ends = false) (hwait : log.getLast? ≠ some .interrupted) (stale : Bool) :
    OneExecution (log ++ [.started stale]) state' := by
  have harmed : ∀ before b after, log ++ [.started stale] = before ++ .started b :: after →
      Armed before := by
    intro before b after heq
    rcases snoc_eq_append_cons_iff.mp heq with ⟨rfl, -, -⟩ | ⟨after', -, hlog⟩
    · exact ha
    · exact h.armed before b after' hlog
  refine ⟨count_le_of_armed harmed, harmed, fun before x after heq hx b _ => ?_,
    interrupted_snoc h fun hlast => absurd hlast hwait, fun hlast => ?_⟩
  · rcases snoc_eq_append_cons_iff.mp heq with ⟨-, rfl, -⟩ | ⟨after', -, hlog⟩
    · cases hx
    · rw [hends x (by rw [hlog]; simp)] at hx
      cases hx
  · simp at hlast

end Histories

/-! ### The invariant -/

/-- What holds between the calls, the store and the histories. -/
structure Inv (s : World) : Prop where
  /-- A proposal that a call executes is `executing`, and was not interrupted. -/
  owner : ∀ c call, s.calls c = some call → call.executes = true →
    s.store.stateOf call.id = some .executing ∧ (s.log call.id).getLast? ≠ some .interrupted
  alone : ∀ c d call call', s.calls c = some call → s.calls d = some call' →
    call.executes = true → call'.executes = true → call.id = call'.id → c = d
  fetched : ∀ c call p, s.calls c = some call → call.phase = .fetched p →
    ∃ st, s.store.stateOf call.id = some st ∧ (st = .proposed → p.state = .proposed)
  entering : ∀ c call, s.calls c = some call → call.phase = .entering →
    ∃ st, s.store.stateOf call.id = some st ∧ st ≠ .proposed
  approved : ∀ id, s.store.stateOf id = some .approved → Armed (s.log id)
  entered : ∀ c call stale, s.calls c = some call → call.phase = .entered stale →
    Armed (s.log call.id)
  ended : ∀ id e, e ∈ s.log id → e.ends = true →
    ∃ st, s.store.stateOf id = some st ∧ st.terminal = true
  lawful : ∀ id, OneExecution (s.log id) (s.store.stateOf id)

section Runs

variable {redact : String → String} {s t : World} {l : Label} {ls : List Label} {c : ℕ}
  {call : Call} {x : Option Call} {id : String} {st : Store} {old new : ProposalState} {e : Entry}

@[simp] theorem setCall_self (s : World) (c : ℕ) (x : Option Call) :
    (s.setCall c x).calls c = x := Function.update_self ..

theorem setCall_of_ne {d : ℕ} (h : d ≠ c) : (s.setCall c x).calls d = s.calls d :=
  Function.update_of_ne h ..

theorem setCall_cases {d : ℕ} (h : (s.setCall c x).calls d = some call) :
    (d = c ∧ x = some call) ∨ (d ≠ c ∧ s.calls d = some call) := by
  by_cases hd : d = c
  · subst hd
    rw [setCall_self] at h
    exact .inl ⟨rfl, h⟩
  · rw [setCall_of_ne hd] at h
    exact .inr ⟨hd, h⟩

@[simp] theorem record_log_self (s : World) (id : String) (e : Entry) :
    (s.record id e).log id = s.log id ++ [e] := Function.update_self ..

theorem record_log_of_ne {k : String} (h : k ≠ id) : (s.record id e).log k = s.log k :=
  Function.update_of_ne h ..

theorem mem_record_log {k : String} {x : Entry} (h : x ∈ (s.record id e).log k) :
    x ∈ s.log k ∨ (k = id ∧ x = e) := by
  by_cases hk : k = id
  · subst hk
    rw [record_log_self] at h
    exact (List.mem_append.mp h).imp_right fun hx => ⟨rfl, List.mem_singleton.mp hx⟩
  · rw [record_log_of_ne hk] at h
    exact .inl h

/-- A proposal that reached its end is moved no more. -/
theorem not_terminal (h : new ∈ validTransitions old) : old.terminal = false := by
  by_contra hterminal
  rw [validTransitions_terminal (by simpa using hterminal)] at h
  cases h

/-- A proposal that is moved was waiting for nothing but its failure. -/
private theorem ended_false (h : Inv s) (hold : s.store.stateOf id = some old)
    (hterminal : old.terminal = false) : ∀ e ∈ s.log id, e.ends = false := by
  intro e he
  by_contra hends
  obtain ⟨st, hst, hend⟩ := h.ended id e he (by simpa using hends)
  obtain rfl := Option.some.inj (hold.symm.trans hst)
  rw [hterminal] at hend
  cases hend

/-- **A call that executes nothing goes on or ends.** -/
theorem Inv.setCall (h : Inv s) (hidle : ∀ call, x = some call → call.executes = false)
    (hfetched : ∀ call p, x = some call → call.phase = .fetched p →
      ∃ st, s.store.stateOf call.id = some st ∧ (st = .proposed → p.state = .proposed))
    (hentering : ∀ call, x = some call → call.phase = .entering →
      ∃ st, s.store.stateOf call.id = some st ∧ st ≠ .proposed) : Inv (s.setCall c x) where
  owner d call hcall hex := by
    rcases setCall_cases hcall with ⟨-, hx⟩ | ⟨-, hold⟩
    · rw [hidle call hx] at hex
      cases hex
    · exact h.owner d call hold hex
  alone d d' call call' hcall hcall' hex hex' := by
    rcases setCall_cases hcall with ⟨-, hx⟩ | ⟨-, hold⟩
    · rw [hidle call hx] at hex
      cases hex
    rcases setCall_cases hcall' with ⟨-, hx⟩ | ⟨-, hold'⟩
    · rw [hidle call' hx] at hex'
      cases hex'
    exact h.alone d d' call call' hold hold' hex hex'
  fetched d call p hcall hphase := by
    rcases setCall_cases hcall with ⟨-, hx⟩ | ⟨-, hold⟩
    · exact hfetched call p hx hphase
    · exact h.fetched d call p hold hphase
  entering d call hcall hphase := by
    rcases setCall_cases hcall with ⟨-, hx⟩ | ⟨-, hold⟩
    · exact hentering call hx hphase
    · exact h.entering d call hold hphase
  approved := h.approved
  entered d call stale hcall hphase := by
    rcases setCall_cases hcall with ⟨-, hx⟩ | ⟨-, hold⟩
    · have hexecutes : call.executes = true := by rw [Call.executes, hphase]
      rw [hidle call hx] at hexecutes
      cases hexecutes
    · exact h.entered d call stale hold hphase
  ended := h.ended
  lawful := h.lawful

theorem Inv.close (h : Inv s) (c : ℕ) : Inv (s.setCall c none) :=
  h.setCall (fun _ hx => by cases hx) (fun _ _ hx => by cases hx) fun _ hx => by cases hx

/-- **A proposal that no call executes is moved or decided.** -/
theorem Inv.commit (h : Inv s) (hm : Moved s.store id old new st) (hidle : ¬ s.Executing id)
    (hterminal : old.terminal = false) (hnew : new ≠ .proposed)
    (he : e = .decided new ∨ e = .moved new)
    (happroved : new = .approved → e = .decided .approved)
    (hwait : (s.log id).getLast? = some .interrupted → e = .moved .failed) :
    Inv (s.commit st id e) := by
  have hstarts : e.starts = false := by
    rcases he with rfl | rfl
    · rfl
    · rfl
  have hends : e.ends = true → new.terminal = true := by
    rcases he with rfl | rfl
    · exact fun hend => hend
    · exact fun hend => hend
  -- a call that executes is at another proposal, whose state and history are kept
  have hother : ∀ c call, s.calls c = some call → call.executes = true → call.id ≠ id :=
    fun c call hcall hex heq => hidle ⟨c, call, hcall, heq, hex⟩
  have hstate : ∀ k, k ≠ id → st.stateOf k = s.store.stateOf k := fun k hk => by
    rw [hm.after, if_neg hk]
  have hself : st.stateOf id = some new := by rw [hm.after, if_pos rfl]
  refine ⟨fun c call hcall hex => ?_, h.alone, fun c call p hcall hphase => ?_,
    fun c call hcall hphase => ?_, fun k hk => ?_, fun c call stale hcall hphase => ?_,
    fun k x hx hend => ?_, fun k => ?_⟩
  · have hne := hother c call hcall hex
    obtain ⟨hst, hlast⟩ := h.owner c call hcall hex
    refine ⟨(hstate _ hne).trans hst, ?_⟩
    change ((s.record id e).log call.id).getLast? ≠ _
    rwa [record_log_of_ne hne]
  · obtain ⟨st₀, hst₀, hp⟩ := h.fetched c call p hcall hphase
    by_cases hk : call.id = id
    · exact ⟨new, hk ▸ hself, fun heq => absurd heq hnew⟩
    · exact ⟨st₀, (hstate _ hk).trans hst₀, hp⟩
  · obtain ⟨st₀, hst₀, hp⟩ := h.entering c call hcall hphase
    by_cases hk : call.id = id
    · exact ⟨new, hk ▸ hself, hnew⟩
    · exact ⟨st₀, (hstate _ hk).trans hst₀, hp⟩
  · change Armed ((s.record id e).log k)
    by_cases hkid : k = id
    · subst hkid
      have heq := Option.some.inj (hself.symm.trans hk)
      rw [record_log_self, happroved heq]
      exact armed_snoc_approved _
    · rw [record_log_of_ne hkid]
      exact h.approved k ((hstate k hkid).symm.trans hk)
  · have hexecutes : call.executes = true := by rw [Call.executes, hphase]
    change Armed ((s.record id e).log call.id)
    rw [record_log_of_ne (hother c call hcall hexecutes)]
    exact h.entered c call stale hcall hphase
  · have hx' : x ∈ (s.record id e).log k := hx
    rcases mem_record_log hx' with hold | ⟨rfl, rfl⟩
    · have hkid : k ≠ id := by
        -- the history of a proposal that is moved has no end
        rintro rfl
        rw [ended_false h hm.before hterminal x hold] at hend
        cases hend
      obtain ⟨st₀, hst₀, hend₀⟩ := h.ended k x hold hend
      exact ⟨st₀, (hstate k hkid).trans hst₀, hend₀⟩
    · exact ⟨new, hself, hends hend⟩
  · change OneExecution ((s.record id e).log k) (st.stateOf k)
    by_cases hkid : k = id
    · subst hkid
      rw [record_log_self]
      refine (h.lawful k).snoc hstarts (fun hlast => .inr (hwait hlast)) fun heq => ?_
      rw [heq] at he
      rcases he with he | he
      · cases he
      · cases he
    · rw [record_log_of_ne hkid, hstate k hkid]
      exact h.lawful k

theorem setCall_setCall (s : World) (c : ℕ) (x y : Option Call) :
    (s.setCall c x).setCall c y = s.setCall c y := by
  unfold World.setCall
  rw [Function.update_idem]

theorem Inv.idle (h : Inv s) (hst : s.store.stateOf id = some old) (hold : old ≠ .executing) :
    ¬ s.Executing id := by
  rintro ⟨c, call, hcall, rfl, hex⟩
  exact hold (Option.some.inj (hst.symm.trans (h.owner c call hcall hex).1))

theorem Inv.idle_expired (h : Inv s) {now : Int} {by_ reason : String} {p : Proposal}
    (done : transitionProposalState redact now id .expired by_ reason s.store = .ok (p, st)) :
    ¬ s.Executing id := by
  obtain ⟨old, hvalid, hm⟩ := transitionProposalState_ok done
  refine h.idle hm.before ?_
  rintro rfl
  simp [validTransitions] at hvalid

theorem Inv.idle_close (h : Inv s) (hcall : s.calls c = some call) (hex : call.executes = true) :
    ¬ (s.setCall c none).Executing call.id := by
  rintro ⟨d, call', hcall', heq, hex'⟩
  rcases setCall_cases hcall' with ⟨-, hx⟩ | ⟨hne, hold⟩
  · cases hx
  · exact hne (h.alone d c call' call hold hcall hex' hex heq)

/-- **A call takes up an execution** that no call is at. -/
theorem Inv.takeUp (h : Inv s) (hex : call.executes = true)
    (hst : s.store.stateOf call.id = some .executing)
    (hlast : (s.log call.id).getLast? ≠ some .interrupted) (hidle : ¬ s.Executing call.id)
    (hentered : ∀ stale, call.phase = .entered stale → Armed (s.log call.id)) :
    Inv (s.setCall c (some call)) where
  owner d call' hcall' hex' := by
    rcases setCall_cases hcall' with ⟨-, hx⟩ | ⟨-, hold⟩
    · obtain rfl := Option.some.inj hx
      exact ⟨hst, hlast⟩
    · exact h.owner d call' hold hex'
  alone d d' call₁ call₂ h₁ h₂ hex₁ hex₂ heq := by
    rcases setCall_cases h₁ with ⟨rfl, hx₁⟩ | ⟨-, hold₁⟩
    · rcases setCall_cases h₂ with ⟨rfl, -⟩ | ⟨-, hold₂⟩
      · rfl
      · obtain rfl := Option.some.inj hx₁
        exact absurd ⟨d', call₂, hold₂, heq.symm, hex₂⟩ hidle
    · rcases setCall_cases h₂ with ⟨-, hx₂⟩ | ⟨-, hold₂⟩
      · obtain rfl := Option.some.inj hx₂
        exact absurd ⟨d, call₁, hold₁, heq, hex₁⟩ hidle
      · exact h.alone d d' call₁ call₂ hold₁ hold₂ hex₁ hex₂ heq
  fetched d call' p hcall' hphase := by
    rcases setCall_cases hcall' with ⟨-, hx⟩ | ⟨-, hold⟩
    · obtain rfl := Option.some.inj hx
      rw [Call.executes, hphase] at hex
      cases hex
    · exact h.fetched d call' p hold hphase
  entering d call' hcall' hphase := by
    rcases setCall_cases hcall' with ⟨-, hx⟩ | ⟨-, hold⟩
    · obtain rfl := Option.some.inj hx
      rw [Call.executes, hphase] at hex
      cases hex
    · exact h.entering d call' hold hphase
  approved := h.approved
  entered d call' stale hcall' hphase := by
    rcases setCall_cases hcall' with ⟨-, hx⟩ | ⟨-, hold⟩
    · obtain rfl := Option.some.inj hx
      exact hentered stale hphase
    · exact h.entered d call' stale hold hphase
  ended := h.ended
  lawful := h.lawful

/-- **An executor is started** for a proposal that was approved since the last start. -/
theorem Inv.start (h : Inv s) (hst : s.store.stateOf id = some .executing)
    (hlast : (s.log id).getLast? ≠ some .interrupted) (hidle : ¬ s.Executing id)
    (harmed : Armed (s.log id)) (stale : Bool) : Inv (s.record id (.started stale)) where
  owner d call hcall hex := by
    have hne : call.id ≠ id := fun heq => hidle ⟨d, call, hcall, heq, hex⟩
    rw [record_log_of_ne hne]
    exact h.owner d call hcall hex
  alone := h.alone
  fetched := h.fetched
  entering := h.entering
  approved k hk := by
    have hne : k ≠ id := by
      rintro rfl
      cases Option.some.inj (hst.symm.trans hk)
    rw [record_log_of_ne hne]
    exact h.approved k hk
  entered d call b hcall hphase := by
    have hexecutes : call.executes = true := by rw [Call.executes, hphase]
    have hne : call.id ≠ id := fun heq => hidle ⟨d, call, hcall, heq, hexecutes⟩
    rw [record_log_of_ne hne]
    exact h.entered d call b hcall hphase
  ended k x hx hend := by
    rcases mem_record_log hx with hold | ⟨-, rfl⟩
    · exact h.ended k x hold hend
    · cases hend
  lawful k := by
    by_cases hk : k = id
    · subst hk
      rw [record_log_self]
      exact (h.lawful k).start harmed (ended_false h hst rfl) hlast stale
    · rw [record_log_of_ne hk]
      exact h.lawful k

theorem Inv.restart (h : Inv s) : Inv
    { s with
      calls := fun _ => none
      found := []
      log := fun id => if s.store.stateOf id = some .executing then s.log id ++ [.interrupted]
        else s.log id } where
  owner d call hcall := by cases hcall
  alone d d' call call' hcall := by cases hcall
  fetched d call p hcall := by cases hcall
  entering d call hcall := by cases hcall
  approved k hk := by
    have hne : s.store.stateOf k ≠ some .executing := by
      intro heq
      cases Option.some.inj (heq.symm.trans hk)
    dsimp only
    rw [if_neg hne]
    exact h.approved k hk
  entered d call stale hcall := by cases hcall
  ended k x hx hend := by
    dsimp only at hx
    split at hx
    · rcases List.mem_append.mp hx with hx | hx
      · exact h.ended k x hx hend
      · rw [List.mem_singleton.mp hx] at hend
        cases hend
    · exact h.ended k x hx hend
  lawful k := by
    dsimp only
    split
    · next hst => exact (h.lawful k).snoc rfl (fun _ => .inl rfl) fun _ => hst
    · exact h.lawful k

theorem Inv.create (h : Inv s) (id threadId action : String) (epoch : ℕ) :
    Inv { s with store := createProposal id threadId action epoch s.store } := by
  rcases create_cases id threadId action epoch s.store with heq | ⟨hnone, p, hp, hget⟩
  · rw [heq]
    exact h
  generalize createProposal id threadId action epoch s.store = st at hget
  have hfree : s.store.stateOf id = none := by rw [Store.stateOf, hnone]; rfl
  have hstate : ∀ k st₀, s.store.stateOf k = some st₀ → st.stateOf k = some st₀ := by
    intro k st₀ hst₀
    have hne : k ≠ id := by
      rintro rfl
      rw [hfree] at hst₀
      cases hst₀
    rwa [Store.stateOf, hget, if_neg hne]
  refine ⟨fun d call hcall hex => ?_, h.alone, fun d call p hcall hphase => ?_,
    fun d call hcall hphase => ?_, fun k hk => ?_, h.entered, fun k x hx hend => ?_, fun k => ?_⟩
  · obtain ⟨hst, hlast⟩ := h.owner d call hcall hex
    exact ⟨hstate _ _ hst, hlast⟩
  · obtain ⟨st₀, hst₀, hread⟩ := h.fetched d call p hcall hphase
    exact ⟨st₀, hstate _ _ hst₀, hread⟩
  · obtain ⟨st₀, hst₀, hne⟩ := h.entering d call hcall hphase
    exact ⟨st₀, hstate _ _ hst₀, hne⟩
  · have hk' : st.stateOf k = some .approved := hk
    rw [Store.stateOf, hget] at hk'
    split at hk'
    · rw [Option.map_some, hp] at hk'
      cases hk'
    · exact h.approved k hk'
  · obtain ⟨st₀, hst₀, hend₀⟩ := h.ended k x hx hend
    exact ⟨st₀, hstate _ _ hst₀, hend₀⟩
  · obtain ⟨hcount, harmed, hfinal, hinterrupted, hwaiting⟩ := h.lawful k
    exact ⟨hcount, harmed, hfinal, hinterrupted, fun hlast => hstate _ _ (hwaiting hlast)⟩

theorem next_cases {v : Verdict} {call' : Call} (h : v.next call = some call') :
    call'.id = call.id ∧ call'.executes = false ∧ (∀ p, call'.phase ≠ .fetched p) ∧
      (call'.phase = .entering → v = .enters) := by
  cases v with
  | raises => cases h
  | expires =>
    obtain rfl := Option.some.inj h
    exact ⟨rfl, rfl, fun _ hphase => (by cases hphase), fun hphase => by cases hphase⟩
  | fails reason =>
    obtain rfl := Option.some.inj h
    exact ⟨rfl, rfl, fun _ hphase => (by cases hphase), fun hphase => by cases hphase⟩
  | decides =>
    obtain rfl := Option.some.inj h
    exact ⟨rfl, rfl, fun _ hphase => (by cases hphase), fun hphase => by cases hphase⟩
  | enters =>
    obtain rfl := Option.some.inj h
    exact ⟨rfl, rfl, fun _ hphase => (by cases hphase), fun _ => rfl⟩

theorem audited_eq_some {ok : Bool} {phase : Phase} {call' : Call}
    (h : audited ok call phase = some call') : call' = { call with phase := phase } := by
  unfold audited at h
  split at h
  · exact (Option.some.inj h).symm
  · cases h

/-- **A proposal is moved** by a transition, when no call executes it. -/
theorem Inv.transition (h : Inv s) {now : Int} {by_ reason : String} {p : Proposal}
    (done : transitionProposalState redact now id new by_ reason s.store = .ok (p, st))
    (hidle : ¬ s.Executing id) (hnew : new = .expired ∨ new = .failed) :
    Inv (s.commit st id (.moved new)) := by
  obtain ⟨old, hvalid, hm⟩ := transitionProposalState_ok done
  refine h.commit hm hidle (not_terminal hvalid) ?_ (.inr rfl) ?_ fun hlast => ?_
  · rcases hnew with rfl | rfl
    · decide
    · decide
  · rcases hnew with rfl | rfl
    · intro heq; cases heq
    · intro heq; cases heq
  · -- an interrupted proposal is `executing`, and does not expire
    have hexecuting := (h.lawful id).waiting hlast
    obtain rfl := Option.some.inj (hm.before.symm.trans hexecuting)
    rcases hnew with rfl | rfl
    · simp [validTransitions] at hvalid
    · rfl

/-- **A proposal is decided.** -/
theorem Inv.decide (h : Inv s) {now : Int} {by_ reason : String} {p : Proposal}
    (done : decideProposal redact now id new by_ reason s.store = .ok (p, st))
    (hnew : new = .approved ∨ new = .denied) : Inv (s.commit st id (.decided new)) := by
  obtain ⟨old, hold, hm, -⟩ := decideProposal_ok done
  have hne : old ≠ .executing := by
    rcases hold with rfl | rfl
    · decide
    · decide
  refine h.commit hm (h.idle hm.before hne) ?_ ?_ (.inl rfl) (fun heq => by rw [heq])
    fun hlast => ?_
  · rcases hold with rfl | rfl
    · rfl
    · rfl
  · rcases hnew with rfl | rfl
    · decide
    · decide
  · have hexecuting := (h.lawful id).waiting hlast
    exact absurd (Option.some.inj (hm.before.symm.trans hexecuting)) hne

/-- **A call moves the proposal to `executing`.** -/
theorem Inv.enter (h : Inv s) {now : Int} {by_ reason : String} {p : Proposal} {ok : Bool}
    (hcall : s.calls c = some call) (hphase : call.phase = .entering)
    (done : transitionProposalState redact now call.id .executing by_ reason s.store = .ok (p, st))
    (ho : s.store.stateOf call.id ≠ some .failed) (stale : Bool) :
    Inv ((s.setCall c (audited ok call (.entered stale))).commit st call.id
      (.moved .executing)) := by
  obtain ⟨old, hvalid, hm⟩ := transitionProposalState_ok done
  obtain ⟨st₀, hst₀, hproposed⟩ := h.entering c call hcall hphase
  obtain rfl := Option.some.inj (hm.before.symm.trans hst₀)
  -- only an approved proposal is left
  have hold : old = .approved := by
    cases old with
    | approved => rfl
    | proposed => exact absurd rfl hproposed
    | failed => exact absurd hst₀ ho
    | _ => simp [validTransitions] at hvalid
  subst hold
  have hidle := h.idle hm.before (by decide)
  have hwait : (s.log call.id).getLast? ≠ some .interrupted := by
    intro hlast
    have hexecuting := (h.lawful call.id).waiting hlast
    cases Option.some.inj (hm.before.symm.trans hexecuting)
  have hmoved := h.commit (e := .moved .executing) hm hidle rfl (by decide) (.inr rfl)
    (fun heq => by cases heq) fun hlast => absurd hlast hwait
  have hlog : (s.commit st call.id (.moved .executing)).log call.id =
      s.log call.id ++ [.moved .executing] := record_log_self ..
  change Inv ((s.commit st call.id (.moved .executing)).setCall c _)
  cases ok with
  | false => exact hmoved.close c
  | true =>
    refine hmoved.takeUp rfl ?_ ?_ hidle fun b _ => ?_
    · change st.stateOf call.id = _
      rw [hm.after, if_pos rfl]
    · change ((s.commit st call.id (.moved .executing)).log call.id).getLast? ≠ _
      rw [hlog]
      simp
    · change Armed ((s.commit st call.id (.moved .executing)).log call.id)
      rw [hlog]
      exact (h.approved _ hm.before).snoc rfl

/-- **An orderly step keeps the invariant.** -/
theorem Inv.step (h : Inv s) (hs : Step redact s l t) (ho : Orderly s l) : Inv t := by
  cases hs with
  | create => exact h.create _ _ _ _
  | advance =>
    exact ⟨h.owner, h.alone, h.fetched, h.entering, h.approved, h.entered, h.ended, h.lawful⟩
  | @fetch c id approver approve p free read =>
    refine h.setCall (fun call hx => ?_) (fun call q hx hphase => ?_) fun call hx hphase => ?_
    · obtain rfl := Option.some.inj hx
      rfl
    · obtain rfl := Option.some.inj hx
      obtain rfl := Phase.fetched.inj hphase
      exact ⟨p.state, by rw [Store.stateOf, read]; rfl, fun hst => hst⟩
    · obtain rfl := Option.some.inj hx
      cases hphase
  | @check c call p k at' phase =>
    obtain ⟨st₀, hst₀, hread⟩ := h.fetched c call p at' phase
    refine h.setCall (fun call' hx => ?_) (fun call' q hx hphase => ?_) fun call' hx hphase => ?_
    · exact (next_cases hx).2.1
    · exact absurd hphase ((next_cases hx).2.2.1 q)
    · obtain ⟨hid, -, -, henters⟩ := next_cases hx
      refine ⟨st₀, hid ▸ hst₀, fun hproposed => ?_⟩
      -- no state leads back to `proposed`, and the check has read `approved`
      have happroved := (checkProposal_enters (henters hphase)).1
      rw [hread hproposed] at happroved
      cases happroved
  | @lapse c call now p st at' phase done =>
    exact (h.transition done (h.idle_expired done) (.inl rfl)).close c
  | @fail c call reason now p st at' phase done =>
    exact (h.transition done (ho call at') (.inr rfl)).close c
  | @decide c call now p st ok at' phase done =>
    obtain ⟨old, hold, hm, -⟩ := decideProposal_ok done
    have hdecided := h.decide done (.inl rfl)
    refine hdecided.setCall (fun call' hx => ?_) (fun call' q hx hphase => ?_)
      fun call' hx hphase => ?_
    · rw [audited_eq_some hx]
      rfl
    · rw [audited_eq_some hx] at hphase
      cases hphase
    · rw [audited_eq_some hx]
      refine ⟨.approved, ?_, by decide⟩
      change st.stateOf call.id = _
      rw [hm.after, if_pos rfl]
  | @enter c call now p st ok at' phase done => exact h.enter at' phase done (ho call at') _
  | @launch c call stale at' phase =>
    have hex : call.executes = true := by rw [Call.executes, phase]
    obtain ⟨hst, hlast⟩ := h.owner c call at' hex
    -- the call is taken away, the start recorded, and the call put back as `running`
    have hidle := h.idle_close at' hex
    have hstarted := (h.close c).start hst hlast hidle (h.entered c call stale at' phase) stale
    have hrunning := @Inv.takeUp _ c { call with phase := .running } hstarted rfl hst (by simp)
      hidle (fun b hphase => by cases hphase)
    have heq : ((s.setCall c none).setCall c (some { call with phase := .running })).record call.id
        (.started stale) = (s.setCall c (some { call with phase := .running })).record call.id
          (.started stale) := by rw [setCall_setCall]
    rwa [← heq]
  | @finish c call new reason at' phase ends =>
    have hex : call.executes = true := by rw [Call.executes, phase]
    obtain ⟨hst, hlast⟩ := h.owner c call at' hex
    have hidle : ¬ (s.setCall c none).Executing call.id := h.idle_close at' hex
    have hsettling := @Inv.takeUp _ c { call with phase := .settling new reason } (h.close c) rfl
      hst hlast hidle (fun b hphase => by cases hphase)
    rwa [setCall_setCall] at hsettling
  | @settle c call new reason now p st at' phase done =>
    have hex : call.executes = true := by rw [Call.executes, phase]
    obtain ⟨hst, hlast⟩ := h.owner c call at' hex
    obtain ⟨old, hvalid, hm⟩ := transitionProposalState_ok done
    obtain rfl := Option.some.inj (hm.before.symm.trans hst)
    -- the table has two ways out of `executing`
    have hnew : new = .done ∨ new = .failed := by simpa [validTransitions] using hvalid
    refine (h.close c).commit hm (h.idle_close at' hex) rfl ?_ (.inr rfl) ?_
      fun hwait => absurd hwait hlast
    · rcases hnew with rfl | rfl
      · decide
      · decide
    · rcases hnew with rfl | rfl
      · intro heq; cases heq
      · intro heq; cases heq
  | drop => exact h.close _
  | @decideBy id by_ reason new now p st decision done => exact h.decide done decision
  | @expire id by_ reason now p st done =>
    exact h.transition done (h.idle_expired done) (.inl rfl)
  | restart => exact h.restart
  | find =>
    exact ⟨h.owner, h.alone, h.fetched, h.entering, h.approved, h.entered, h.ended, h.lawful⟩
  | @recover id reason now p st found done => exact h.transition done ho (.inr rfl)

theorem inv_start (threads : Table String ℕ) : Inv (.start threads) where
  owner c call hcall := by cases hcall
  alone c d call call' hcall := by cases hcall
  fetched c call p hcall := by cases hcall
  entering c call hcall := by cases hcall
  approved id hst := by cases hst
  entered c call stale hcall := by cases hcall
  ended id e he := by cases he
  lawful id := .nil _

def OrderlyStep (redact : String → String) (s : World) (l : Label) (t : World) : Prop :=
  Step redact s l t ∧ Orderly s l

/-- **An approval buys at most one execution**: in every run of executions, decisions,
expiries, handoffs, restarts and reconciliations on any proposals, if every step is orderly. -/
theorem oneExecution_of_orderly {threads : Table String ℕ}
    (p : Path (OrderlyStep redact) (.start threads) ls s) (id : String) :
    OneExecution (s.log id) (s.store.stateOf id) := by
  have hrun := p.invariant (I := Inv) (fun s l t hi hs => hi.step hs.1 hs.2) (inv_start threads)
  exact hrun.lawful id

def passing : Checks := ⟨true, false, true, "", true, true⟩

/-- Two calls read the approved proposal; the first executes it and fails, the second executes
it again. -/
theorem started_twice :
    ¬ ∀ (redact : String → String) (threads : Table String ℕ) (ls : List Label) (s : World)
      (id : String), Path (Step redact) (.start threads) ls s →
      OneExecution (s.log id) (s.store.stateOf id) := by
  intro h
  have hcount := (h id .empty _ _ "p" <|
    .cons (@Step.create _ _ "p" "" "deploy" 0) <|
    .cons (@Step.decideBy _ _ "p" "owner" "" .approved 0 _ _ (.inl rfl) rfl) <|
    .cons (@Step.fetch _ _ 0 "p" "owner" false _ rfl rfl) <|
    .cons (@Step.fetch _ _ 1 "p" "owner" false _ rfl rfl) <|
    .cons (@Step.check _ _ 0 _ _ passing rfl rfl) <|
    .cons (@Step.check _ _ 1 _ _ passing rfl rfl) <|
    .cons (@Step.enter _ _ 0 _ 0 _ _ true rfl rfl rfl) <|
    .cons (@Step.launch _ _ 0 _ _ rfl rfl) <|
    .cons (@Step.finish _ _ 0 _ .failed "" rfl rfl (.inr rfl)) <|
    .cons (@Step.settle _ _ 0 _ _ _ 0 _ _ rfl rfl rfl) <|
    .cons (@Step.enter _ _ 1 _ 0 _ _ true rfl rfl rfl) <|
    .cons (@Step.launch _ _ 1 _ _ rfl rfl) <| .nil _).count
  exact absurd hcount (by decide)

/-- One call executes an approved proposal. -/
theorem oneExecution_of_orderly_once :
    ∃ s : World, Entry.started false ∈ s.log "p" ∧
      OneExecution (s.log "p") (s.store.stateOf "p") := by
  obtain ⟨ls, s, hrun, hstarted⟩ : ∃ (ls : List Label) (s : World),
      Path (OrderlyStep id) (.start .empty) ls s ∧ Entry.started false ∈ s.log "p" := by
    refine ⟨_, _, .cons ⟨@Step.create _ _ "p" "" "deploy" 0, trivial⟩ <|
      .cons ⟨@Step.decideBy _ _ "p" "owner" "" .approved 0 _ _ (.inl rfl) rfl, trivial⟩ <|
      .cons ⟨@Step.fetch _ _ 0 "p" "owner" false _ rfl rfl, trivial⟩ <|
      .cons ⟨@Step.check _ _ 0 _ _ passing rfl rfl, trivial⟩ <|
      .cons ⟨@Step.enter _ _ 0 _ 0 _ _ true rfl rfl rfl, fun call hcall => ?_⟩ <|
      .cons ⟨@Step.launch _ _ 0 _ _ rfl rfl, trivial⟩ <| .nil _, by decide⟩
    obtain rfl := Option.some.inj hcall
    decide
  exact ⟨s, hstarted, oneExecution_of_orderly hrun "p"⟩

end Runs

end Proposals
