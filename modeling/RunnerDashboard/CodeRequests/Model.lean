import Mathlib.Data.List.SplitOn
import RunnerDashboard.Lib.Json
import RunnerDashboard.Lib.PyStr
import RunnerDashboard.Lib.Regex

/-!
# Code requests

The data model of a code request and the GitHub issue it is kept in.  The body of the issue starts
with a fenced block of YAML, and the prompt is under a heading after it.  The labels have the state,
and the comments have the audit trail.

## Main results

* `ofValue?_value`, `BoardRoute.ofValue?_value`, `RequesterKind.ofValue?_value` — the names of
  enumerated values are read back.
-/

namespace CodeRequests

/-! ### Enumerated values -/

inductive CodeRequestState
  | draft
  | triage
  | boardReview
  | planning
  | planned
  | executing
  | done
  | failed
  | deferred
  | declined
  | cancelled
  deriving DecidableEq, Repr

def CodeRequestState.value : CodeRequestState → String
  | .draft => "draft"
  | .triage => "triage"
  | .boardReview => "board_review"
  | .planning => "planning"
  | .planned => "planned"
  | .executing => "executing"
  | .done => "done"
  | .failed => "failed"
  | .deferred => "deferred"
  | .declined => "declined"
  | .cancelled => "cancelled"

def CodeRequestState.all : List CodeRequestState :=
  [.draft, .triage, .boardReview, .planning, .planned, .executing, .done, .failed, .deferred,
    .declined, .cancelled]

/-- `CodeRequestState(s)`, `none` where it raises `ValueError`. -/
def CodeRequestState.ofValue? (s : String) : Option CodeRequestState :=
  CodeRequestState.all.find? fun state => state.value = s

inductive BoardRoute
  | auto
  | forceBoard
  | skipBoard
  deriving DecidableEq, Repr

def BoardRoute.value : BoardRoute → String
  | .auto => "auto"
  | .forceBoard => "force_board"
  | .skipBoard => "skip_board"

/-- `BoardRoute(s)`. -/
def BoardRoute.ofValue? (s : String) : Option BoardRoute :=
  [BoardRoute.auto, .forceBoard, .skipBoard].find? fun route => route.value = s

inductive RequesterKind
  | human
  | agent
  deriving DecidableEq, Repr

def RequesterKind.value : RequesterKind → String
  | .human => "human"
  | .agent => "agent"

/-- `RequesterKind(s)`. -/
def RequesterKind.ofValue? (s : String) : Option RequesterKind :=
  [RequesterKind.human, .agent].find? fun kind => kind.value = s

@[simp] theorem ofValue?_value (state : CodeRequestState) :
    CodeRequestState.ofValue? state.value = some state := by
  cases state <;> decide

@[simp] theorem BoardRoute.ofValue?_value (route : BoardRoute) :
    BoardRoute.ofValue? route.value = some route := by
  cases route <;> decide

@[simp] theorem RequesterKind.ofValue?_value (kind : RequesterKind) :
    RequesterKind.ofValue? kind.value = some kind := by
  cases kind <;> decide

/-! ### Records -/

structure Requester where
  id : String
  kind : RequesterKind
  deriving DecidableEq, Repr

structure CodeRequestAuditEvent where
  actor : String
  fromState : CodeRequestState
  toState : CodeRequestState
  reason : String
  timestamp : String
  override : Bool
  deriving DecidableEq, Repr

structure CodeRequest where
  id : String
  repository : String
  title : String
  issueNumber : Option ℕ
  issueUrl : Option String
  state : CodeRequestState
  prompt : String
  requester : Requester
  plannerProfileId : Option String
  executorProfileId : Option String
  profileSnapshot : Option (List (String × Json))
  boardRoute : BoardRoute
  boardProposal : Option String
  planEpic : Option String
  branch : String
  standards : List String
  auditTrail : List CodeRequestAuditEvent
  createdAt : String
  updatedAt : String

structure Comment where
  body : String
  createdAt : String
  deriving DecidableEq, Repr

/-- An issue as the API of GitHub returns it. -/
structure Issue where
  number : ℕ
  title : String
  body : String
  labels : List String
  comments : List Comment
  pullRequest : Bool
  htmlUrl : String
  repositoryUrl : String
  userLogin : String
  userType : String
  createdAt : String
  updatedAt : String

/-! ### Values of Python -/

/-- What PyYAML and the texts of values do: `safe_dump` and `safe_load` (`none` where it raises),
the text `str` gives a value that is no string, and the `repr` of a string. -/
structure Library where
  safeDump : List (String × Json) → String
  safeLoad : String → Option Json
  str : Json → String
  repr : String → String

/-- A library that writes YAML in the flow style of JSON. -/
def jsonLibrary : Library where
  safeDump fields := (Json.obj fields).dumps
  safeLoad := Json.loads
  str := Json.dumps
  repr s := "'" ++ s ++ "'"

/-- `str(v)`. -/
def Library.text (L : Library) : Json → String
  | .str s => s
  | v => L.str v

/-- `str(data.get(k) or default)`. -/
def Library.textOr (L : Library) (v : Option Json) (default_ : String) : String :=
  match v with
  | some v => if v.truthy then L.text v else default_
  | none => default_

/-- `data.setdefault(k, v)`. -/
def setDefault (data : List (String × Json)) (k : String) (v : Json) : List (String × Json) :=
  if (data.lookup k).isSome then data else data ++ [(k, v)]

/-- `data[k] = v`. -/
def setItem (data : List (String × Json)) (k : String) (v : Json) : List (String × Json) :=
  if (data.lookup k).isSome then data.map fun x => if x.1 = k then (k, v) else x
  else data ++ [(k, v)]

/-- A field of type `str | None`, `none` where the validation fails. -/
def optionalText : Option Json → Option (Option String)
  | none => some none
  | some .null => some none
  | some (.str s) => some (some s)
  | some _ => none

/-- A field of type `dict | None`. -/
def optionalFields : Option Json → Option (Option (List (String × Json)))
  | none => some none
  | some .null => some none
  | some (.obj fields) => some (some fields)
  | some _ => none

/-- `list(data.get(k) or [])` as a field of type `list[str]`. -/
def textList : Option Json → Option (List String)
  | none => some []
  | some v =>
    if v.truthy = false then some []
    else match v with
      | .arr items => items.mapM fun
        | .str s => some s
        | _ => none
      | .str s => some (s.toList.map String.singleton)
      | .obj fields => some (fields.map Prod.fst)
      | _ => none

/-- The text of a value that may be missing. -/
def orNull : Option String → Json
  | none => .null
  | some s => .str s

/-! ### The body of an issue -/

def frontMatterPattern : Regex.Pattern :=
  .seqAll
    [.text "```yaml".toList, .many Py.isSpace, .text "\n".toList,
      .seq (.group "1" (.lazyMany fun _ => true))
        (.seqAll
          [.text "\n```".toList, .alt (.seq (.opt (.text ['\r'])) (.text ['\n'])) .atEnd,
            .group "2" (.many fun _ => true)])]

/-- The payload of `serialize_front_matter`. -/
def frontMatterPayload (request : CodeRequest) : List (String × Json) :=
  [("id", .str request.id),
    ("repository", .str request.repository),
    ("state", .str request.state.value),
    ("board_route", .str request.boardRoute.value),
    ("board_proposal", orNull request.boardProposal),
    ("plan_epic", orNull request.planEpic),
    ("planner_profile_id", orNull request.plannerProfileId),
    ("executor_profile_id", orNull request.executorProfileId),
    ("requester", .obj
      [("id", .str request.requester.id), ("kind", .str request.requester.kind.value)]),
    ("standards", .arr (request.standards.map .str)),
    ("branch", .str request.branch),
    ("created_at", .str request.createdAt),
    ("updated_at", .str request.updatedAt)] ++
  match request.profileSnapshot with
  | some snapshot => [("profile_snapshot", .obj snapshot)]
  | none => []

section Serialization

variable (L : Library)

def serializeFrontMatter (request : CodeRequest) : String :=
  "```yaml\n" ++ Py.strip (L.safeDump (frontMatterPayload request)) ++ "\n```"

def serializeIssueBody (request : CodeRequest) : String :=
  let fm := serializeFrontMatter L request
  if Py.strip request.prompt ≠ "" then
    fm ++ "\n\n" ++ ("## Prompt\n\n" ++ Py.strip request.prompt) ++ "\n"
  else fm ++ "\n"

def promptOf (text : String) : String :=
  match Py.after? "## Prompt" (Py.strip text) with
  | some rest => Py.strip rest
  | none => Py.strip text

def parseIssueBody (body defaultId defaultRepo : String) : List (String × Json) :=
  match Regex.match? frontMatterPattern (Py.strip body).toList with
  | none =>
    [("id", .str defaultId), ("repository", .str defaultRepo), ("prompt", .str (promptOf body)),
      ("state", .str CodeRequestState.draft.value)]
  | some found =>
    let data :=
      match L.safeLoad (String.ofList ((found.group? "1").getD [])) with
      | some (.obj fields) => fields
      | _ => []
    let prompt := promptOf (String.ofList ((found.group? "2").getD []))
    let data := setDefault (setDefault data "id" (.str defaultId)) "repository" (.str defaultRepo)
    if prompt ≠ "" then setItem data "prompt" (.str prompt) else data

/-- The last part of the address of a repository. -/
def repoOfUrl (url : String) : String :=
  String.ofList (((url.toList.rdropWhile (· = '/')).splitOn '/').getLast?.getD [])

def stateOfLabels (labels : List String) : Option CodeRequestState :=
  labels.findSome? fun name =>
    if Py.startsWith name "code-request:" then
      CodeRequestState.ofValue? (Py.removePrefix name "code-request:")
    else none

def requesterOf (parsed : List (String × Json)) (issue : Issue) : Requester :=
  match parsed.lookup "requester" with
  | some (.obj fields) =>
    match fields.lookup "id" with
    | some id =>
      { id := L.text id
        kind :=
          match fields.lookup "kind" with
          | some (.str s) => (RequesterKind.ofValue? s).getD .human
          | _ => .human }
    | none => userOf issue
  | _ => userOf issue
where
  userOf (issue : Issue) : Requester :=
    ⟨issue.userLogin, if Py.lower issue.userType = "bot" then .agent else .human⟩

/-- `code_request_from_issue`, `none` where the validation of the record raises. -/
def codeRequestFromIssue (issue : Issue) (defaultRepo : String)
    (auditTrail : List CodeRequestAuditEvent) : Option CodeRequest := do
  let repo := if defaultRepo ≠ "" then defaultRepo else repoOfUrl issue.repositoryUrl
  let number := toString issue.number
  let defaultId :=
    if repo ≠ "" ∧ issue.number ≠ 0 then "cr-" ++ repo ++ "-" ++ number
    else "cr-" ++ (if issue.number ≠ 0 then number else "unknown")
  let parsed := parseIssueBody L issue.body defaultId repo
  let state :=
    match stateOfLabels issue.labels, parsed.lookup "state" with
    | some state, _ => state
    | none, some (.str s) => (CodeRequestState.ofValue? s).getD .draft
    | none, _ => .draft
  let boardRoute :=
    match parsed.lookup "board_route" with
    | some (.str s) => (BoardRoute.ofValue? s).getD .auto
    | _ => .auto
  let createdAt ← timestamp (parsed.lookup "created_at") issue.createdAt
  let updatedAt ← timestamp (parsed.lookup "updated_at") issue.updatedAt
  let plannerProfileId ← optionalText (parsed.lookup "planner_profile_id")
  let executorProfileId ← optionalText (parsed.lookup "executor_profile_id")
  let profileSnapshot ← optionalFields (parsed.lookup "profile_snapshot")
  let boardProposal ← optionalText (parsed.lookup "board_proposal")
  let planEpic ← optionalText (parsed.lookup "plan_epic")
  let standards ← textList (parsed.lookup "standards")
  return {
    id := L.textOr (parsed.lookup "id") defaultId
    repository := if repo ≠ "" then repo else "Runner_Dashboard"
    title := issue.title
    issueNumber := some issue.number
    issueUrl := some issue.htmlUrl
    state := state
    prompt := L.textOr (parsed.lookup "prompt") ""
    requester := requesterOf L parsed issue
    plannerProfileId := plannerProfileId
    executorProfileId := executorProfileId
    profileSnapshot := profileSnapshot
    boardRoute := boardRoute
    boardProposal := boardProposal
    planEpic := planEpic
    branch := L.textOr (parsed.lookup "branch") "main"
    standards := standards
    auditTrail := auditTrail
    createdAt := createdAt
    updatedAt := updatedAt }
where
  timestamp (v : Option Json) (ofIssue : String) : Option String :=
    match v with
    | some v => if v.truthy then (match v with | .str s => some s | _ => none) else some ofIssue
    | none => some ofIssue

end Serialization

/-! ### The comment of a transition -/

def noBacktick (c : Char) : Bool := c.toNat ≠ 96

def auditCommentPattern : Regex.Pattern :=
  .seqAll
    [.text "**[Code Request]**".toList, .some_ Py.isSpace, .text "State changed from".toList,
      .some_ Py.isSpace, .text "`".toList, .group "from_state" (.some_ noBacktick),
      .text "`".toList, .some_ Py.isSpace, .text "to".toList, .some_ Py.isSpace,
      .text "`".toList, .group "to_state" (.some_ noBacktick), .text "`".toList,
      .some_ Py.isSpace, .text "by".toList, .some_ Py.isSpace, .text "`".toList,
      .group "actor" (.some_ noBacktick), .text "`.".toList,
      .opt (.seq (.some_ Py.isSpace) (.text "(override)".toList)),
      .opt (.seqAll [.text "\n\n**Reason:**".toList, .many Py.isSpace,
        .group "reason" (.many fun _ => true)])]

/-- The comment that `CodeRequestStore.transition` writes about an event. -/
def auditComment (event : CodeRequestAuditEvent) : String :=
  "**[Code Request]** State changed from `" ++ event.fromState.value ++ "` to `" ++
    event.toState.value ++ "` by `" ++ event.actor ++ "`." ++
    (if event.override then " (override)" else "") ++ "\n\n**Reason:** " ++ Py.strip event.reason

/-- The event in a comment, as `_fetch_comments_for_issue` reads it. -/
def parseAuditComment (comment : Comment) : Option CodeRequestAuditEvent := do
  let found ← Regex.search auditCommentPattern comment.body.toList
  let fromState ← CodeRequestState.ofValue? (String.ofList ((found.group? "from_state").getD []))
  let toState ← CodeRequestState.ofValue? (String.ofList ((found.group? "to_state").getD []))
  return {
    actor := String.ofList ((found.group? "actor").getD [])
    fromState := fromState
    toState := toState
    reason := Py.strip (String.ofList ((found.group? "reason").getD []))
    timestamp := comment.createdAt
    override := Py.contains "(override)" comment.body }

end CodeRequests
