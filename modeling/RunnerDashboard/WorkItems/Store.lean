import Mathlib.Data.Prod.Lex
import Mathlib.Data.String.Basic
import RunnerDashboard.Lib.Table

/-!
# Work items

The ledger of the requests that are tracked to a terminal state.  A row has a state, a deadline that
may be missing, and links to runs, issues and pull requests; its key is its identifier.

## Main results

* `get?_transitionState` — a legal transition goes through.
* `get?_addLink` — a link changes no state.
-/

namespace WorkItems

/-! ### States -/

/-- `WORK_ITEM_STATES`. -/
inductive WorkItemState
  | «open»
  | inProgress
  | waitingOnUser
  | waitingOnCi
  | needsEvidence
  | blocked
  | done
  | cancelled
  | escalated
  deriving DecidableEq, Repr

namespace WorkItemState

def value : WorkItemState → String
  | .open => "open"
  | .inProgress => "in_progress"
  | .waitingOnUser => "waiting_on_user"
  | .waitingOnCi => "waiting_on_ci"
  | .needsEvidence => "needs_evidence"
  | .blocked => "blocked"
  | .done => "done"
  | .cancelled => "cancelled"
  | .escalated => "escalated"

def all : List WorkItemState :=
  [.open, .inProgress, .waitingOnUser, .waitingOnCi, .needsEvidence, .blocked, .done, .cancelled,
    .escalated]

/-- The state with a value, `none` for a text that is in none of `WORK_ITEM_STATES`. -/
def ofValue? (s : String) : Option WorkItemState := all.find? fun state => state.value = s

/-- `TERMINAL_STATES`. -/
def terminal : WorkItemState → Bool
  | .done | .cancelled | .escalated => true
  | _ => false

@[simp] theorem ofValue?_value (state : WorkItemState) : ofValue? state.value = some state := by
  cases state <;> decide

end WorkItemState

def validTransitions : WorkItemState → List WorkItemState
  | .open => [.inProgress, .blocked, .cancelled, .escalated]
  | .inProgress =>
    [.waitingOnUser, .waitingOnCi, .needsEvidence, .blocked, .done, .cancelled, .escalated]
  | .waitingOnUser => [.inProgress, .blocked, .cancelled, .escalated]
  | .waitingOnCi => [.inProgress, .done, .blocked, .cancelled, .escalated]
  | .needsEvidence => [.inProgress, .waitingOnCi, .done, .blocked, .cancelled, .escalated]
  | .blocked => [.inProgress, .cancelled, .escalated]
  | .done => []
  | .cancelled => []
  | .escalated => [.inProgress, .done, .cancelled]

/-! ### Rows -/

/-- The columns of `work_items` beside the identifier. -/
structure WorkItem where
  title : String
  requestedBy : String
  threadId : String := ""
  ownerRole : String := ""
  description : String := ""
  state : WorkItemState := .open
  expectedBy : Option String := none
  /-- `links_json`: the values under each kind. -/
  links : List (String × List String) := []
  lastProgressAt : String
  nextCheckAt : Option String := none
  createdAt : String
  updatedAt : String
  deriving DecidableEq, Repr

/-- The table `work_items`. -/
abbrev Store := Sql.Table String WorkItem

inductive WorkItemError
  /-- `InvalidStateTransitionError(current, target)`. -/
  | invalidStateTransition (current target : String)
  /-- The `KeyError` for an item that is not found. -/
  | notFound (workItemId : String)
  /-- The `IntegrityError` of a second row with an identifier. -/
  | integrity (workItemId : String)
  deriving DecidableEq, Repr

/-- The links of an item that is created without any. -/
def defaultLinks : List (String × List String) :=
  [("runs", []), ("issues", []), ("prs", []), ("code_requests", [])]

/-- What a caller passes to `create_work_item`. -/
structure CreateWorkItem where
  title : String
  requestedBy : String
  threadId : String := ""
  ownerRole : String := ""
  description : String := ""
  expectedBy : Option String := none
  links : List (String × List String) := []
  nextCheckAt : Option String := none

/-- `create_work_item`, with the identifier and the time of the call. -/
def createWorkItem (s : Store) (body : CreateWorkItem) (wid now : String) :
    Except WorkItemError Store :=
  let record : WorkItem := {
    title := body.title
    requestedBy := body.requestedBy
    threadId := body.threadId
    ownerRole := body.ownerRole
    description := body.description
    expectedBy := body.expectedBy
    -- `links or {…}`
    links := if body.links.isEmpty then defaultLinks else body.links
    lastProgressAt := now
    nextCheckAt := body.nextCheckAt
    createdAt := now
    updatedAt := now }
  match s.get? wid with
  | some _ => .error (.integrity wid)
  | none => .ok (s.insertNew wid record)

def transitionState (s : Store) (workItemId targetState now : String) :
    Except WorkItemError Store :=
  match WorkItemState.ofValue? targetState with
  | none => .error (.invalidStateTransition "unknown" targetState)
  | some target =>
    match s.get? workItemId with
    | none => .error (.notFound workItemId)
    | some current =>
      if target ∈ validTransitions current.state then
        .ok (s.update (fun id _ => id = workItemId) fun _ w =>
          { w with state := target, lastProgressAt := now, updatedAt := now })
      else .error (.invalidStateTransition current.state.value targetState)

/-- `links[kind] = items`. -/
def setLinks (links : List (String × List String)) (kind : String) (items : List String) :
    List (String × List String) :=
  if (links.lookup kind).isSome then
    links.map fun entry => if entry.1 = kind then (kind, items) else entry
  else links ++ [(kind, items)]

/-- The links with one more value, unless it is there. -/
def withLink (links : List (String × List String)) (kind value : String) :
    List (String × List String) :=
  let items := (links.lookup kind).getD []
  setLinks links kind (if value ∈ items then items else items ++ [value])

def addLink (s : Store) (workItemId linkKind linkValue now : String) : Except WorkItemError Store :=
  match s.get? workItemId with
  | none => .error (.notFound workItemId)
  | some current =>
    .ok (s.update (fun id _ => id = workItemId) fun _ w =>
      { w with
        links := withLink current.links linkKind linkValue
        lastProgressAt := now
        updatedAt := now })

/-- What a caller passes to `update_work_item`. -/
structure UpdateWorkItem where
  title : Option String := none
  ownerRole : Option String := none
  expectedBy : Option String := none
  nextCheckAt : Option String := none

/-- `update_work_item`: the fields that are not `None` are assigned. -/
def updateWorkItem (s : Store) (workItemId : String) (body : UpdateWorkItem) (now : String) :
    Except WorkItemError Store :=
  match s.get? workItemId with
  | none => .error (.notFound workItemId)
  | some _ =>
    .ok (s.update (fun id _ => id = workItemId) fun _ w =>
      { w with
        title := body.title.getD w.title
        ownerRole := body.ownerRole.getD w.ownerRole
        expectedBy := body.expectedBy <|> w.expectedBy
        nextCheckAt := body.nextCheckAt <|> w.nextCheckAt
        updatedAt := now })

/-! ### Pages of the items that are not terminal -/

abbrev Row := String × WorkItem

/-- The tuple that the rows are ordered by. -/
abbrev Cursor := String × String × String

/-- A tuple in the order of SQL's row values. -/
abbrev SortKey := String ×ₗ String ×ₗ String

def Cursor.toKey (c : Cursor) : SortKey := toLex (c.1, toLex (c.2.1, c.2.2))

/-- `(COALESCE(expected_by, '~'), created_at, id)`. -/
def sortKey (row : Row) : SortKey :=
  Cursor.toKey (row.2.expectedBy.getD "~", row.2.createdAt, row.1)

/-- `active_cursor`: `expected_by or "~"` also replaces an empty text. -/
def activeCursor (row : Row) : Cursor :=
  let expectedBy := row.2.expectedBy.getD ""
  (if expectedBy = "" then "~" else expectedBy, row.2.createdAt, row.1)

/-- `LIMIT ?`: a negative number is no limit. -/
def limitRows {α : Type*} : ℤ → List α → List α
  | .ofNat n, l => l.take n
  | .negSucc _, l => l

def listActivePage (s : Store) (after : Option Cursor) (limit : ℤ) : List Row :=
  let rows := s.matching fun id w =>
    !w.state.terminal &&
      match after with
      | none => true
      | some c => decide (c.toKey < sortKey (id, w))
  limitRows limit (rows.mergeSort fun x y => sortKey x ≤ sortKey y)

/-! ### What the writes do -/

variable {s s' : Store} {wid target now : String}

/-- **A transition needs the item and a legal target, and writes the state.** -/
theorem transitionState_eq_ok_iff :
    transitionState s wid target now = .ok s' ↔ ∃ state w, WorkItemState.ofValue? target =
      some state ∧
      s.get? wid = some w ∧ state ∈ validTransitions w.state ∧
      s' = s.update (fun id _ => id = wid) fun _ w =>
        { w with state := state, lastProgressAt := now, updatedAt := now } := by
  unfold transitionState
  constructor
  · intro h
    split at h
    · cases h
    · next state hstate =>
      split at h
      · cases h
      · next w hw =>
        split at h
        · next hvalid => exact ⟨state, w, hstate, hw, hvalid, (Except.ok.inj h).symm⟩
        · cases h
  · rintro ⟨state, w, hstate, hw, hvalid, rfl⟩
    rw [hstate, hw]
    exact if_pos hvalid

/-- A legal transition goes through, and the item is in the new state. -/
theorem get?_transitionState {w : WorkItem} {state : WorkItemState} (now : String)
    (h : s.get? wid = some w) (hvalid : state ∈ validTransitions w.state) :
    ∃ s', transitionState s wid state.value now = .ok s' ∧ s'.get? wid = some
      { w with state := state, lastProgressAt := now, updatedAt := now } := by
  refine ⟨_, transitionState_eq_ok_iff.mpr ⟨state, w, state.ofValue?_value, h, hvalid, rfl⟩, ?_⟩
  rw [Sql.Table.get?_update, h, Option.map_some, if_pos (decide_eq_true rfl)]

theorem get?_addLink {w : WorkItem} (kind value now : String) (h : s.get? wid = some w) :
    ∃ s', addLink s wid kind value now = .ok s' ∧ s'.get? wid = some
      { w with
        links := withLink w.links kind value
        lastProgressAt := now
        updatedAt := now } := by
  unfold addLink
  rw [h]
  refine ⟨_, rfl, ?_⟩
  rw [Sql.Table.get?_update, h, Option.map_some, if_pos (decide_eq_true rfl)]

end WorkItems
