import RunnerDashboard.CodeRequests.Lifecycle

/-!
# The store of code requests

A request is kept in an issue on GitHub and in a cache on the node.  The list of requests comes
from the cache, and is rebuilt from the issues where the cache has none.

## Main results

* `begin_ok` — a transition that begins read the request that it moves.
-/

namespace CodeRequests

/-! ### The state -/

inductive CacheEntry
  /-- A dictionary that validates. -/
  | request (r : CodeRequest)
  /-- A dictionary that does not. -/
  | record (fields : List (String × Json))
  /-- A value that is no dictionary. -/
  | other

/-- The cache of the node, if the file is there, and the issues of each repository on GitHub, as
they are listed. -/
structure Store where
  cache : Option (List CacheEntry)
  issues : String → List Issue

def Store.readCache (s : Store) : List CacheEntry := s.cache.getD []

def Store.writeCache (requests : List CodeRequest) (s : Store) : Store :=
  { s with cache := some (requests.map .request) }

/-! ### Reading -/

section Methods

variable (L : Library) (repos : List String) (now : String)

/-- The request made of a dictionary that does not validate. -/
def legacyRequest (fields : List (String × Json)) : Option CodeRequest := do
  let prompt := L.textOr (fields.lookup "prompt") ""
  let standards ← textList (fields.lookup "standards")
  let createdAt := L.textOr (fields.lookup "created_at") now
  return {
    id := L.textOr (fields.lookup "id") "cr-legacy"
    repository := L.textOr (fields.lookup "repository") "Runner_Dashboard"
    title := L.textOr (fields.lookup "title")
      ("Code Request: " ++ String.ofList (prompt.toList.take 40))
    issueNumber := none
    issueUrl := none
    state :=
      match fields.lookup "status" with
      | some (.str "dispatched") => .executing
      | _ => .draft
    prompt := prompt
    requester := ⟨"legacy", .human⟩
    plannerProfileId := none
    executorProfileId := none
    profileSnapshot := none
    boardRoute := .auto
    boardProposal := none
    planEpic := none
    branch := L.textOr (fields.lookup "branch") "main"
    standards := standards
    auditTrail := []
    createdAt := createdAt
    updatedAt := createdAt }

/-- The requests in the cache, `none` where the validation raises. -/
def cachedRequests : List CacheEntry → Option (List CodeRequest)
  | [] => some []
  | .request r :: entries => (cachedRequests entries).map (r :: ·)
  | .record fields :: entries => do
    let r ← legacyRequest L now fields
    let rs ← cachedRequests entries
    return r :: rs
  | .other :: entries => cachedRequests entries

/-- `_fetch_comments_for_issue`: one page of comments, the oldest first. -/
def fetchComments (issue : Issue) : List CodeRequestAuditEvent :=
  (issue.comments.take 30).filterMap parseAuditComment

/-- `_fetch_repo_issues`, and the issues of it that are no pull requests. -/
def Store.fetchIssues (s : Store) (repo : String) : List Issue :=
  (((s.issues repo).filter fun issue => "code-request" ∈ issue.labels).take 100).filter
    fun issue => !issue.pullRequest

/-- The requests of the issues of the repositories, `none` where one raises. -/
def Store.rebuilt (s : Store) : Option (List CodeRequest) :=
  (repos.flatMap fun repo => (s.fetchIssues repo).map fun issue => (repo, issue)).mapM
    fun x => codeRequestFromIssue L x.2 x.1 (fetchComments x.2)

/-- `_rebuild_cache_locked`. -/
def Store.rebuildCache (s : Store) : Option (List CodeRequest × Store) := do
  let requests ← s.rebuilt L repos
  return (requests, s.writeCache requests)

/-- `list`, without a forced refresh. -/
def Store.list (s : Store) : Option (List CodeRequest × Store) := do
  let requests ← cachedRequests L now s.readCache
  if requests ≠ [] then return (requests, s) else s.rebuildCache L repos

/-- If a key names a request: its id, its number, or the repository and the number. -/
def CodeRequest.hasKey (key : String) (item : CodeRequest) : Bool :=
  item.id = key || item.issueNumber.any fun n =>
    toString n = key || item.repository ++ "#" ++ toString n = key

def Store.get (key : String) (s : Store) : Option (Option CodeRequest × Store) := do
  let (items, s') ← s.list L repos now
  return (items.find? (CodeRequest.hasKey key), s')

/-! ### Writing -/

/-- The models that `create` and `save` read back, `none` where the validation raises. -/
def currentModels : List CacheEntry → Option (List CodeRequest)
  | [] => some []
  | .request r :: entries => (currentModels entries).map (r :: ·)
  | .record fields :: entries =>
    if (fields.lookup "id").isSome then none else currentModels entries
  | .other :: entries => currentModels entries

def Store.modifyIssue (repo : String) (number : ℕ) (f : Issue → Issue) (s : Store) : Store :=
  { s with issues := fun r =>
      if r = repo then
        (s.issues r).map fun issue => if issue.number = number then f issue else issue
      else s.issues r }

def labelsOf (request : CodeRequest) : List String :=
  ["code-request", "code-request:" ++ request.state.value]

/-- The PATCH of `save`, of a request that has an issue. -/
def Store.patchIssue (request : CodeRequest) (s : Store) : Store :=
  match request.issueNumber with
  | some number => s.modifyIssue request.repository number fun issue =>
      { issue with body := serializeIssueBody L request, labels := labelsOf request }
  | none => s

def replaceOrInsert (request : CodeRequest) (models : List CodeRequest) : List CodeRequest :=
  let updated := models.map fun m => if m.id = request.id then request else m
  if models.any fun m => m.id = request.id then updated else request :: updated

/-- The end of `save`: the cache is written back. -/
def Store.writeBack (request : CodeRequest) (s : Store) : Option Store := do
  let models ← currentModels s.readCache
  return s.writeCache (replaceOrInsert request models)

/-- `create`; GitHub gives the issue its number, its address and its times, and the account that
opens it. -/
def Store.create (request : CodeRequest) (opened : Issue) (s : Store) :
    Option CodeRequest × Store :=
  let title := if request.title ≠ "" then request.title
    else "Code Request: " ++ String.ofList (request.prompt.toList.take 40)
  let issue := { opened with
    title := title, body := serializeIssueBody L request, labels := labelsOf request, comments := []
    pullRequest := false }
  let s' := { s with issues := fun r =>
    if r = request.repository then issue :: s.issues r else s.issues r }
  let updated := { request with
    title := title
    issueNumber := some issue.number
    id := if request.id = "" ∨ Py.startsWith request.id "cr-unknown" then
        "cr-" ++ request.repository ++ "-" ++ toString issue.number else request.id
    issueUrl := if issue.htmlUrl ≠ "" then some issue.htmlUrl else request.issueUrl }
  match currentModels s'.readCache with
  | none => (none, s')
  | some models =>
    (some updated, s'.writeCache (updated :: models.filter fun m => m.id ≠ updated.id))

/-! ### The transition -/

/-- A call of `CodeRequestStore.transition`. -/
structure Call where
  key : String
  args : TransitionArgs

/-- The request that is read, and the request after the move; or the text of the exception. -/
def Store.begin (call : Call) (s : Store) : Except String (CodeRequest × CodeRequest) × Store :=
  match s.get L repos now call.key with
  | none => (.error "validation error", s)
  | some (none, s') => (.error ("Code Request " ++ L.repr call.key ++ " not found"), s')
  | some (some current, s') =>
    ((transition L current call.args).map fun updated => (current, updated), s')

/-- The audit comment on the issue, if the request has one; GitHub adds the time. -/
def Store.postComment (current updated : CodeRequest) (createdAt : String) (s : Store) : Store :=
  match current.issueNumber, updated.auditTrail.getLast? with
  | some number, some event => s.modifyIssue current.repository number fun issue =>
      { issue with comments := issue.comments ++ [⟨auditComment event, createdAt⟩] }
  | _, _ => s

/-- `save`, where no write fails. -/
def Store.save (request : CodeRequest) (s : Store) : Option CodeRequest × Store :=
  match (s.patchIssue L request).writeBack request with
  | some s' => (some request, s')
  | none => (none, s.patchIssue L request)

/-- `transition`, where it runs alone and no write fails. -/
def Store.transition (call : Call) (createdAt : String) (s : Store) : Option CodeRequest × Store :=
  match s.begin L repos now call with
  | (.error _, s') => (none, s')
  | (.ok (current, updated), s') => (s'.postComment current updated createdAt).save L updated

end Methods

/-! ### What is in the cache -/

def CacheEntry.request? : CacheEntry → Option CodeRequest
  | .request r => some r
  | _ => none

def Store.cached (rid : String) (s : Store) : Option CodeRequest :=
  (s.readCache.filterMap CacheEntry.request?).find? fun r => r.id = rid

/-- If the cache can be written back: every entry with an id validates. -/
def Store.writable (s : Store) : Prop := (currentModels s.readCache).isSome = true

section Spec

variable {L : Library} {repos : List String} {now key rid createdAt : String} {s s' : Store}
  {call : Call} {current updated request : CodeRequest}

theorem eq_of_currentModels {entries : List CacheEntry} {models : List CodeRequest}
    (h : currentModels entries = some models) : models = entries.filterMap CacheEntry.request? := by
  induction entries generalizing models with
  | nil => exact (Option.some.inj h).symm
  | cons entry entries ih =>
    cases entry with
    | request r =>
      obtain ⟨models', hmodels, rfl⟩ := Option.map_eq_some_iff.mp h
      rw [ih hmodels]
      rfl
    | record fields =>
      rw [currentModels] at h
      split_ifs at h
      exact ih h
    | other => exact ih h

theorem find?_map_replace (models : List CodeRequest) (request : CodeRequest) (rid : String) :
    (models.map fun m => if m.id = request.id then request else m).find? (fun m => m.id = rid) =
      if rid = request.id then (models.find? fun m => m.id = rid).map fun _ => request
      else models.find? fun m => m.id = rid := by
  induction models with
  | nil => split_ifs <;> rfl
  | cons m models ih =>
    rw [List.map_cons, List.find?_cons, List.find?_cons, ih]
    by_cases hr : rid = request.id
    · simp only [if_pos hr]
      by_cases hm : m.id = request.id
      · rw [if_pos hm, decide_eq_true hr.symm, decide_eq_true (hm.trans hr.symm)]
        rfl
      · rw [if_neg hm, decide_eq_false fun h => hm (h.trans hr)]
    · simp only [if_neg hr]
      by_cases hm : m.id = request.id
      · rw [if_pos hm, decide_eq_false (Ne.symm hr), decide_eq_false (hm.trans_ne (Ne.symm hr))]
      · rw [if_neg hm]

/-- **After a save** the request is the first with its id, and the others are kept. -/
theorem find?_replaceOrInsert (models : List CodeRequest) (request : CodeRequest) (rid : String) :
    (replaceOrInsert request models).find? (fun m => m.id = rid) =
      if rid = request.id then some request else models.find? fun m => m.id = rid := by
  unfold replaceOrInsert
  dsimp only
  by_cases hany : (models.any fun m => m.id = request.id) = true
  · rw [if_pos hany, find?_map_replace]
    split_ifs with hr
    · -- some model has the id, so the first one with it is replaced
      obtain ⟨m, hm, hid⟩ := List.any_eq_true.mp hany
      cases hfind : models.find? fun m => m.id = rid with
      | none => exact absurd (hr ▸ hid) (List.find?_eq_none.mp hfind m hm)
      | some m' => rfl
    · rfl
  · rw [if_neg hany, List.find?_cons, find?_map_replace]
    split_ifs with hr
    · rw [decide_eq_true hr.symm]
    · rw [decide_eq_false (Ne.symm hr)]

theorem readCache_writeCache (requests : List CodeRequest) (s : Store) :
    (s.writeCache requests).readCache.filterMap CacheEntry.request? = requests := by
  change (requests.map CacheEntry.request).filterMap CacheEntry.request? = requests
  rw [List.filterMap_map]
  exact List.filterMap_some

/-- **What is written back is in the cache**, and the other requests are kept. -/
theorem cached_writeBack (h : s.writeBack request = some s') (rid : String) :
    s'.cached rid = if rid = request.id then some request else s.cached rid := by
  obtain ⟨models, hmodels, hs'⟩ := Option.bind_eq_some_iff.mp h
  obtain rfl := Option.some.inj hs'
  rw [Store.cached, readCache_writeCache, find?_replaceOrInsert, eq_of_currentModels hmodels]
  rfl

theorem writeBack_isSome (h : s.writable) : (s.writeBack request).isSome = true := by
  obtain ⟨models, hmodels⟩ := Option.isSome_iff_exists.mp h
  rw [Store.writeBack, hmodels]
  rfl

theorem patchIssue_cache (request : CodeRequest) (s : Store) :
    (s.patchIssue L request).cache = s.cache := by
  unfold Store.patchIssue
  cases request.issueNumber with
  | none => rfl
  | some number => rfl

theorem postComment_cache (current updated : CodeRequest) (createdAt : String) (s : Store) :
    (s.postComment current updated createdAt).cache = s.cache := by
  unfold Store.postComment
  split
  · rfl
  · rfl

theorem cached_congr (h : s'.cache = s.cache) (rid : String) : s'.cached rid = s.cached rid := by
  rw [Store.cached, Store.cached, Store.readCache, Store.readCache, h]

theorem cachedRequests_ne_nil {entries : List CacheEntry} {items : List CodeRequest}
    (h : cachedRequests L now entries = some items) (hitems : items = []) :
    entries.filterMap CacheEntry.request? = [] := by
  subst hitems
  induction entries with
  | nil => rfl
  | cons entry entries ih =>
    cases entry with
    | request r =>
      obtain ⟨items', -, hcons⟩ := Option.map_eq_some_iff.mp h
      exact absurd hcons (List.cons_ne_nil _ _)
    | record fields =>
      obtain ⟨r, -, hrest⟩ := Option.bind_eq_some_iff.mp h
      obtain ⟨rs, -, hcons⟩ := Option.bind_eq_some_iff.mp hrest
      exact absurd (Option.some.inj hcons) (List.cons_ne_nil _ _)
    | other => exact ih h

theorem list_store {items : List CodeRequest} (h : s.list L repos now = some (items, s')) :
    s' = s ∨ (∀ rid, s.cached rid = none) ∧ s'.issues = s.issues := by
  obtain ⟨cached, hcached, h⟩ := Option.bind_eq_some_iff.mp h
  split_ifs at h with hne
  · exact .inl (Prod.mk.inj (Option.some.inj h)).2.symm
  · refine .inr ⟨fun rid => ?_, ?_⟩
    · rw [Store.cached, cachedRequests_ne_nil hcached (not_not.mp hne)]
      rfl
    · obtain ⟨requests, -, heq⟩ := Option.bind_eq_some_iff.mp h
      rw [← (Prod.mk.inj (Option.some.inj heq)).2]
      rfl

/-- Nothing that is in the cache is lost where a transition begins. -/
theorem begin_store {result : Except String (CodeRequest × CodeRequest)}
    (h : s.begin L repos now call = (result, s')) :
    s' = s ∨ (∀ rid, s.cached rid = none) ∧ s'.issues = s.issues := by
  unfold Store.begin at h
  cases hget : s.get L repos now call.key with
  | none =>
    rw [hget] at h
    exact .inl (Prod.mk.inj h).2.symm
  | some x =>
    obtain ⟨found, s₁⟩ := x
    obtain ⟨⟨items, s₂⟩, hlist, heq⟩ := Option.bind_eq_some_iff.mp hget
    have hs₁ : s₂ = s₁ := (Prod.mk.inj (Option.some.inj heq)).2
    rw [hget] at h
    have hs' : s' = s₁ := by
      cases found with
      | none => exact (Prod.mk.inj h).2.symm
      | some current => exact (Prod.mk.inj h).2.symm
    rw [hs', ← hs₁]
    exact list_store hlist

/-- **A transition that begins** moves the request that it read. -/
theorem begin_ok (h : s.begin L repos now call = (.ok (current, updated), s')) :
    transition L current call.args = .ok updated := by
  unfold Store.begin at h
  cases hget : s.get L repos now call.key with
  | none => rw [hget] at h; cases h
  | some x =>
    obtain ⟨found, s₁⟩ := x
    rw [hget] at h
    cases found with
    | none => cases h
    | some found =>
      have hresult := (Prod.mk.inj h).1
      cases hmove : transition L found call.args with
      | error e => rw [hmove] at hresult; cases hresult
      | ok moved =>
        rw [hmove] at hresult
        obtain ⟨rfl, rfl⟩ := Prod.mk.inj (Except.ok.inj hresult)
        exact hmove

end Spec

/-! ### The route -/

/-- Who calls the route. -/
structure Principal where
  id : String
  type : String

/-- `POST /api/code-requests`: the request that is admitted, or the status and the detail.  The
profile store gives the snapshot of a profile, and `stamp` is the time in seconds. -/
def createCodeRequest (L : Library) (principal : Principal)
    (profiles : String → Option (List (String × Json))) (now stamp : String)
    (body : List (String × Json)) : Except (ℕ × String) CodeRequest :=
  let textGet (k default_ : String) : String := (body.lookup k).elim default_ L.text
  let repo := Py.strip (textGet "repository" "")
  let prompt := Py.strip (textGet "prompt" "")
  if repo = "" then .error (422, "repository required")
  else if prompt = "" then .error (422, "prompt required")
  else
    let submitted := (body.lookup "submitted").any Json.truthy
    let stateStr := Py.lower (Py.strip (textGet "state" ""))
    let reqDict :=
      match body.lookup "requester" with
      | some (.obj fields) => fields
      | _ => []
    let isAgent := (match reqDict.lookup "kind" with | some (.str "agent") => true | _ => false) ||
      (reqDict.isEmpty && Py.lower principal.type = "bot")
    let request : Option CodeRequest := do
      let plannerProfileId ← optionalText (body.lookup "planner_profile_id")
      let executorProfileId ← optionalText (body.lookup "executor_profile_id")
      let boardProposal ← optionalText (body.lookup "board_proposal")
      let planEpic ← optionalText (body.lookup "plan_epic")
      let standards ← textList (body.lookup "standards")
      return {
        id := L.textOr (body.lookup "id") ("cr-unknown-" ++ stamp)
        repository := repo
        title := L.textOr (body.lookup "title")
          ("Code Request: " ++ String.ofList (prompt.toList.take 40))
        issueNumber := none
        issueUrl := none
        state := if submitted ∨ stateStr = "triage" then .triage else .draft
        prompt := prompt
        requester :=
          ⟨L.textOr (reqDict.lookup "id") principal.id, if isAgent then .agent else .human⟩
        plannerProfileId := plannerProfileId
        executorProfileId := executorProfileId
        profileSnapshot := (plannerProfileId.filter (· ≠ "")).bind profiles
        boardRoute := (BoardRoute.ofValue? (Py.lower (textGet "board_route" "auto"))).getD .auto
        boardProposal := boardProposal
        planEpic := planEpic
        branch := textGet "branch" "main"
        standards := standards
        auditTrail := []
        createdAt := now
        updatedAt := now }
    match request with
    | some request => .ok request
    | none => .error (500, "validation error")

end CodeRequests
