import RunnerDashboard.Lib.Table

/-!
# Action proposals

The rows of `action_proposals`, the two calls of `conversation_proposals.py` that change them,
and the checks with which `execute_proposal` begins.  Each call is one transaction.

The redaction of texts, and what the checks find in the registry of actions, in the roles and
in the approval policy, are parameters.

## Main results

* `decideProposal_ok`, `transitionProposalState_ok` — what the calls write.
-/

namespace Proposals

open Sql

/-! ### Rows -/

/-- `PROPOSAL_STATES`. -/
inductive ProposalState
  | proposed
  | approved
  | denied
  | executing
  | done
  | failed
  | expired
  deriving DecidableEq, Repr

def ProposalState.text : ProposalState → String
  | .proposed => "proposed"
  | .approved => "approved"
  | .denied => "denied"
  | .executing => "executing"
  | .done => "done"
  | .failed => "failed"
  | .expired => "expired"

/-- `_VALID_PROPOSAL_TRANSITIONS`, each set sorted. -/
def validTransitions : ProposalState → List ProposalState
  | .proposed => [.approved, .denied, .executing, .expired, .failed]
  | .approved => [.executing, .expired, .failed]
  | .denied => []
  | .executing => [.done, .failed]
  | .done => []
  | .failed => [.approved, .denied, .executing]
  | .expired => []

def ProposalState.terminal (st : ProposalState) : Bool := st ∈ [.denied, .expired, .done]

theorem validTransitions_terminal {st : ProposalState} (h : st.terminal = true) :
    validTransitions st = [] := by
  cases st with
  | denied => rfl
  | expired => rfl
  | done => rfl
  | proposed => cases h
  | approved => cases h
  | executing => cases h
  | failed => cases h

/-- A row of `action_proposals`, keyed by its id. -/
structure Proposal where
  threadId : String
  action : String
  epoch : ℕ
  state : ProposalState
  decidedBy : String := ""
  decidedAt : Option Int := none
  reason : String := ""
  deriving DecidableEq, Repr

/-- The proposals, and the epoch of each thread. -/
structure Store where
  proposals : Table String Proposal
  threads : Table String ℕ

def Store.stateOf (st : Store) (id : String) : Option ProposalState :=
  (st.proposals.get? id).map Proposal.state

/-! ### The calls -/

/-- The row is written. -/
def Store.save (st : Store) (id : String) (p : Proposal) : Store :=
  { st with proposals := st.proposals.put id p }

def decideProposal (redact : String → String) (now : Int) (id : String) (new : ProposalState)
    (decidedBy reason : String) (st : Store) : Except String (Proposal × Store) :=
  match st.proposals.get? id with
  | none => .error ("Proposal " ++ id ++ " not found")
  | some p =>
    if p.state ≠ .proposed ∧ p.state ≠ .failed then
      .error ("Cannot decide proposal in state '" ++ p.state.text ++
        "' (must be 'proposed' or 'failed')")
    else if (st.threads.get? p.threadId).any fun e => e ≠ p.epoch then
      .error ("Proposal " ++ id ++ " belongs to stale thread epoch " ++ toString p.epoch)
    else
      let p' := { p with
        state := new, decidedBy := decidedBy, decidedAt := some now, reason := redact reason }
      .ok (p', st.save id p')

/-- `x or y` of two texts. -/
def orText (x y : String) : String := if x = "" then y else x

/-- `sorted(allowed)` as it is printed. -/
def allowedText (states : List ProposalState) : String :=
  "[" ++ ", ".intercalate (states.map fun st => "'" ++ st.text ++ "'") ++ "]"

def transitionProposalState (redact : String → String) (now : Int) (id : String)
    (new : ProposalState) (decidedBy reason : String) (st : Store) :
    Except String (Proposal × Store) :=
  match st.proposals.get? id with
  | none => .error ("Proposal " ++ id ++ " not found")
  | some p =>
    if new ∉ validTransitions p.state then
      .error ("Invalid proposal transition from '" ++ p.state.text ++ "' to '" ++ new.text ++
        "'. Allowed: " ++ allowedText (validTransitions p.state))
    else
      let p' := { p with
        state := new
        decidedBy := orText decidedBy p.decidedBy
        decidedAt := if new = .approved ∨ new = .denied then some now else p.decidedAt
        reason := orText (redact reason) p.reason }
      .ok (p', st.save id p')

/-- `advance_thread_turn_epoch`; an unknown thread is refused. -/
def advanceThreadEpoch (threadId : String) (st : Store) : Store :=
  { st with threads := st.threads.update (fun k _ => k = threadId) fun _ e => e + 1 }

/-- `create_proposal`; an id that is taken is refused. -/
def createProposal (id threadId action : String) (epoch : ℕ) (st : Store) : Store :=
  match st.proposals.get? id with
  | none =>
    { st with
      proposals := st.proposals.insertNew id
        { threadId := threadId, action := action, epoch := epoch, state := .proposed } }
  | some _ => st

/-! ### The checks of an execution -/

/-- What `execute_proposal` finds apart from the row and its thread. -/
structure Checks where
  hashOk : Bool
  expired : Bool
  registered : Bool
  proposingRole : String
  /-- There is no proposing role, or it may invoke the action. -/
  permitted : Bool
  policyOk : Bool

/-- What follows from the checks. -/
inductive Verdict
  /-- An exception. -/
  | raises
  /-- The proposal is moved to `expired`, and an exception. -/
  | expires
  /-- The proposal is moved to `failed`, and nothing runs. -/
  | fails (reason : String)
  /-- The approver's decision is recorded first. -/
  | decides
  | enters
  deriving DecidableEq, Repr

/-- The epoch of a proposal's thread; none if it has no thread or the thread is gone. -/
def Store.threadEpoch (st : Store) (threadId : String) : Option ℕ :=
  if threadId = "" then none else st.threads.get? threadId

/-- The checks, in order, on the row as it was read. -/
def checkProposal (approve : Bool) (p : Proposal) (threadEpoch : Option ℕ) (k : Checks) :
    Verdict :=
  if threadEpoch.any fun e => e ≠ p.epoch then .raises
  else if !k.hashOk then .raises
  else if k.expired then
    if p.state = .proposed then .expires else .raises
  else if p.state.terminal then .raises
  else if ¬ (p.state = .approved ∨ (approve ∧ p.state = .proposed)) then .raises
  else if !k.registered then .fails ("Unknown action '" ++ p.action ++ "'")
  else if !k.permitted then
    .fails ("Role '" ++ k.proposingRole ++ "' not permitted for action '" ++ p.action ++ "'")
  else if !k.policyOk then .raises
  else if p.state = .proposed then .decides
  else .enters

/-! ### What the calls do -/

def Store.origin (st : Store) (id : String) : Option (String × ℕ) :=
  (st.proposals.get? id).map fun p => (p.threadId, p.epoch)

def Store.stale (st : Store) (id : String) : Bool :=
  (st.origin id).any fun x => (st.threadEpoch x.1).any fun e => e ≠ x.2

section Spec

variable {redact : String → String} {now : Int} {id k threadId : String} {new : ProposalState}
  {by_ reason : String} {st st' : Store} {p p' : Proposal}

/-- A call moved a proposal, and nothing else that the checks read. -/
structure Moved (st : Store) (id : String) (old new : ProposalState) (st' : Store) : Prop where
  before : st.stateOf id = some old
  after : ∀ k, st'.stateOf k = if k = id then some new else st.stateOf k
  origin : ∀ k, st'.origin k = st.origin k
  threads : st'.threads = st.threads

theorem Moved.stale {old : ProposalState} (h : Moved st id old new st') (k : String) :
    st'.stale k = st.stale k := by
  unfold Store.stale Store.threadEpoch
  rw [h.origin, h.threads]

theorem moved_save (hp : st.proposals.get? id = some p) (hstate : p'.state = new)
    (hthread : p'.threadId = p.threadId) (hepoch : p'.epoch = p.epoch) :
    Moved st id p.state new (st.save id p') := by
  have hget : ∀ k, (st.save id p').proposals.get? k =
      if k = id then some p' else st.proposals.get? k := fun k => Table.get?_put ..
  refine ⟨by rw [Store.stateOf, hp]; rfl, fun k => ?_, fun k => ?_, rfl⟩
  · rw [Store.stateOf, hget]
    split
    · rw [Option.map_some, hstate]
    · rfl
  · rw [Store.origin, Store.origin, hget]
    split
    · next hk =>
      rw [hk, hp, Option.map_some, Option.map_some, hthread, hepoch]
    · rfl

/-- **What a decision writes.** -/
theorem decideProposal_ok (h : decideProposal redact now id new by_ reason st = .ok (p', st')) :
    ∃ old, (old = .proposed ∨ old = .failed) ∧ Moved st id old new st' ∧ st.stale id = false := by
  unfold decideProposal at h
  split at h
  · cases h
  · next p hp =>
    split_ifs at h with hstate hepoch
    obtain ⟨rfl, hst⟩ := Prod.ext_iff.mp (Except.ok.inj h)
    obtain rfl : st.save id _ = st' := hst
    refine ⟨p.state, ?_, moved_save hp rfl rfl rfl, ?_⟩
    · by_contra hneither
      exact hstate (not_or.mp hneither)
    · rw [Store.stale, Store.origin, hp, Option.map_some, Option.any_some, Store.threadEpoch]
      split
      · rfl
      · simpa using hepoch

/-- **What a transition writes.** -/
theorem transitionProposalState_ok
    (h : transitionProposalState redact now id new by_ reason st = .ok (p', st')) :
    ∃ old, new ∈ validTransitions old ∧ Moved st id old new st' := by
  unfold transitionProposalState at h
  split at h
  · cases h
  · next p hp =>
    split at h
    · cases h
    · next hvalid =>
      obtain ⟨rfl, hst⟩ := Prod.ext_iff.mp (Except.ok.inj h)
      obtain rfl : st.save id _ = st' := hst
      exact ⟨p.state, not_not.mp hvalid, moved_save hp rfl rfl rfl⟩

/-- The handoff of a thread leaves the proposals of the others. -/
theorem stale_advance (hother : ∀ x, st.origin id = some x → x.1 ≠ threadId) :
    (advanceThreadEpoch threadId st).stale id = st.stale id := by
  have horigin : (advanceThreadEpoch threadId st).origin id = st.origin id := rfl
  unfold Store.stale
  rw [horigin]
  cases hx : st.origin id with
  | none => rfl
  | some x =>
    have hepoch : (advanceThreadEpoch threadId st).threadEpoch x.1 = st.threadEpoch x.1 := by
      unfold Store.threadEpoch advanceThreadEpoch
      dsimp only
      rw [Table.get?_update]
      cases st.threads.get? x.1 with
      | none => rfl
      | some e => simp [hother x hx]
    rw [Option.any_some, Option.any_some, hepoch]

theorem create_cases (id threadId action : String) (epoch : ℕ) (st : Store) :
    createProposal id threadId action epoch st = st ∨
    (st.proposals.get? id = none ∧ ∃ p : Proposal, p.state = .proposed ∧
      ∀ k, (createProposal id threadId action epoch st).proposals.get? k =
        if k = id then some p else st.proposals.get? k) := by
  unfold createProposal
  split
  · next hnone =>
    refine .inr ⟨hnone, ⟨threadId, action, epoch, .proposed, "", none, ""⟩, rfl, fun k => ?_⟩
    dsimp only
    rw [Table.get?_insertNew]
    by_cases hk : k = id
    · rw [if_pos hk, if_pos hk, hnone]
      rfl
    · rw [if_neg hk, if_neg hk]
  · exact .inl rfl

/-- An execution that goes on found its thread at the proposal's epoch. -/
theorem checkProposal_enters {approve : Bool} {threadEpoch : Option ℕ} {c : Checks}
    (h : checkProposal approve p threadEpoch c = .enters) :
    p.state = .approved ∧ (threadEpoch.any fun e => e ≠ p.epoch) = false := by
  unfold checkProposal at h
  split_ifs at h with hepoch _ _ _ _ hstate _ _ _ hproposed
  refine ⟨?_, by simpa using hepoch⟩
  rcases hstate with happroved | ⟨-, hp⟩
  · exact happroved
  · exact absurd hp hproposed

end Spec

end Proposals
