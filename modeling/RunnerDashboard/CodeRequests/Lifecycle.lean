import RunnerDashboard.CodeRequests.Model

/-!
# The lifecycle of a code request

The state machine of code requests, as pure functions.

## Main results

* `rank_lt` — **the moves lead in no circle**: each raises the rank.
-/

namespace CodeRequests

/-! ### Moves -/

def legalTransitions : CodeRequestState → List CodeRequestState
  | .draft => [.triage]
  | .triage => [.boardReview, .planning]
  | .boardReview => [.planning, .deferred, .declined]
  | .planning => [.planned, .failed]
  | .planned => [.executing]
  | .executing => [.done, .failed]
  | .done => []
  | .failed => []
  | .deferred => []
  | .declined => []
  | .cancelled => []

inductive TransitionGate
  | planFiled
  | acceptance
  deriving DecidableEq, Repr

def TransitionGate.value : TransitionGate → String
  | .planFiled => "plan_filed"
  | .acceptance => "acceptance"

def requiredGate : CodeRequestState → Option TransitionGate
  | .planned => some .planFiled
  | .done => some .acceptance
  | _ => none

def prePlanningStates : List CodeRequestState := [.draft, .triage, .boardReview]

def isLegalTransition (fromState toState : CodeRequestState) (isOperatorOverride : Bool) : Bool :=
  if fromState = toState then false
  else if isOperatorOverride ∧ toState = .cancelled then true
  else if isOperatorOverride ∧ fromState ∈ prePlanningStates ∧
      (toState = .planning ∨ toState = .boardReview) then true
  else toState ∈ legalTransitions fromState

/-- The arguments of a transition; the timestamp is `now`, or the clock. -/
structure TransitionArgs where
  toState : String
  actor : String
  reason : String
  isOperatorOverride : Bool
  gate : Option TransitionGate
  timestamp : String

/-- `lifecycle.transition`, with the text of `InvalidTransitionError`. -/
def transition (L : Library) (request : CodeRequest) (args : TransitionArgs) :
    Except String CodeRequest :=
  match CodeRequestState.ofValue? args.toState with
  | none => .error ("Unknown target state: " ++ L.repr args.toState)
  | some target =>
    if isLegalTransition request.state target args.isOperatorOverride = false then
      .error ("Cannot transition Code Request " ++ request.id ++ " from " ++
        L.repr request.state.value ++ " to " ++ L.repr target.value ++
        if args.isOperatorOverride then " (with operator override)" else "")
    else if (requiredGate target).isSome ∧ args.gate ≠ requiredGate target ∧
        args.isOperatorOverride = false then
      .error ("Cannot move Code Request " ++ request.id ++ " to " ++ L.repr target.value ++
        " without the " ++ L.repr ((requiredGate target).elim "" TransitionGate.value) ++
        " gate; use its service or an operator override")
    else
      .ok { request with
        state := target
        updatedAt := args.timestamp
        auditTrail := request.auditTrail ++
          [{ actor := args.actor
             fromState := request.state
             toState := target
             reason := args.reason
             timestamp := args.timestamp
             override := args.isOperatorOverride }] }

/-! ### What a move does -/

variable {L : Library} {a b : CodeRequestState} {override : Bool} {request updated : CodeRequest}
  {args : TransitionArgs} {event : CodeRequestAuditEvent}

/-- A record after a move: the event says where it came from, and nothing else changed. -/
structure Advances (request updated : CodeRequest) (event : CodeRequestAuditEvent) : Prop where
  fromState : event.fromState = request.state
  legal : isLegalTransition request.state event.toState event.override = true
  updated : updated = { request with
    state := event.toState
    updatedAt := event.timestamp
    auditTrail := request.auditTrail ++ [event] }

theorem Advances.trail (h : Advances request updated event) :
    updated.auditTrail = request.auditTrail ++ [event] := by
  rw [h.updated]

theorem Advances.state (h : Advances request updated event) : updated.state = event.toState := by
  rw [h.updated]

theorem Advances.id_eq (h : Advances request updated event) : updated.id = request.id := by
  rw [h.updated]

theorem Advances.getLast? (h : Advances request updated event) :
    updated.auditTrail.getLast? = some event := by
  rw [h.trail]
  exact List.getLast?_concat

/-- **A move that succeeds** is legal, and appends an event with its arguments. -/
theorem advances_of_transition (h : transition L request args = .ok updated) :
    ∃ event, Advances request updated event ∧ event.actor = args.actor ∧
      event.reason = args.reason ∧ event.override = args.isOperatorOverride := by
  unfold transition at h
  cases hstate : CodeRequestState.ofValue? args.toState with
  | none =>
    rw [hstate] at h
    cases h
  | some target =>
    rw [hstate] at h
    dsimp only at h
    split_ifs at h with hlegal hgate
    · have hupdated := Except.ok.inj h
      refine ⟨⟨args.actor, request.state, target, args.reason, args.timestamp,
        args.isOperatorOverride⟩, ⟨rfl, ?_, hupdated.symm⟩, rfl, rfl, rfl⟩
      exact eq_true_of_ne_false hlegal

/-! ### The order of the states -/

def CodeRequestState.rank : CodeRequestState → ℕ
  | .draft => 0
  | .triage => 1
  | .boardReview => 2
  | .planning => 3
  | .planned => 4
  | .executing => 5
  | .done => 6
  | .failed => 6
  | .deferred => 6
  | .declined => 6
  | .cancelled => 7

/-- **The moves lead in no circle**: each raises the rank. -/
theorem rank_lt (h : isLegalTransition a b override = true) : a.rank < b.rank := by
  revert h
  cases override <;> cases a <;> cases b <;> decide

theorem rank_le (a : CodeRequestState) : a.rank ≤ 7 := by
  cases a <;> decide

end CodeRequests
