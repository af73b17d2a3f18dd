import RunnerDashboard.CodeRequests.Rebuild

/-!
# Rebuilding the cache in an outage

A fetch that raises is read as an empty list: a repository that is not reached has no issues, and an
issue whose comments are not reached has no history.  The result replaces the cache.

## Main results

* `noneLost_iff` — **nothing is lost exactly if nothing was cached of what was not reached.**
-/

namespace CodeRequests

/-! ### Fetches that raise -/

/-- The fetches that raise: those of the issues of a repository, and those of the comments of an
issue. -/
structure Outage where
  repo : String → Bool
  comments : String → ℕ → Bool

section Methods

variable (L : Library) (repos : List String) (down : Outage) (now : String)

/-- `_fetch_repo_issues`. -/
def Store.fetchIssuesIn (s : Store) (repo : String) : List Issue :=
  if down.repo repo then [] else s.fetchIssues repo

/-- `_fetch_comments_for_issue`. -/
def fetchCommentsIn (repo : String) (issue : Issue) : List CodeRequestAuditEvent :=
  if down.comments repo issue.number then [] else fetchComments issue

def Store.rebuiltIn (s : Store) : Option (List CodeRequest) :=
  (repos.flatMap fun repo => (s.fetchIssuesIn down repo).map fun issue => (repo, issue)).mapM
    fun x => codeRequestFromIssue L x.2 x.1 (fetchCommentsIn down x.1 x.2)

/-- `_rebuild_cache_locked`. -/
def Store.rebuildCacheIn (s : Store) : Option (List CodeRequest × Store) := do
  let requests ← s.rebuiltIn L repos down
  return (requests, s.writeCache requests)

/-- `list`. -/
def Store.listIn (forceRefresh : Bool) (s : Store) : Option (List CodeRequest × Store) := do
  if forceRefresh then s.rebuildCacheIn L repos down
  else
    let requests ← cachedRequests L now s.readCache
    if requests ≠ [] then return (requests, s) else s.rebuildCacheIn L repos down

end Methods

/-! ### Nothing lost -/

/-- The state that the labels of an issue name, or its front matter. -/
def issueState (L : Library) (issue : Issue) (repo : String) : CodeRequestState :=
  let number := toString issue.number
  let defaultId :=
    if repo ≠ "" ∧ issue.number ≠ 0 then "cr-" ++ repo ++ "-" ++ number
    else "cr-" ++ (if issue.number ≠ 0 then number else "unknown")
  match stateOfLabels issue.labels, (parseIssueBody L issue.body defaultId repo).lookup "state" with
  | some state, _ => state
  | none, some (.str s) => (CodeRequestState.ofValue? s).getD .draft
  | none, _ => .draft

/-- The cache after a list; one that raises leaves it as it was. -/
def cacheAfter (s : Store) (result : Option (List CodeRequest × Store)) : List CodeRequest :=
  ((result.elim s Prod.snd).readCache).filterMap CacheEntry.request?

/-- The same request, with its state and its history. -/
structure Keeps (item r : CodeRequest) : Prop where
  repository : item.repository = r.repository
  issueNumber : item.issueNumber = r.issueNumber
  state : item.state = r.state
  auditTrail : item.auditTrail = r.auditTrail

/-- What was cached of a repository or an issue that was not reached is still in the cache, and the
requests of the repositories that were reached are those that GitHub returned. -/
structure NoneLost (L : Library) (repos : List String) (down : Outage) (s : Store)
    (requests : List CodeRequest) (result : Option (List CodeRequest × Store)) : Prop where
  repository : ∀ r ∈ requests, r.repository ∈ repos → down.repo r.repository = true →
    ∃ item ∈ cacheAfter s result, Keeps item r
  comments : ∀ r ∈ requests, r.repository ∈ repos →
    ∀ issue ∈ s.fetchIssuesIn down r.repository, r.issueNumber = some issue.number →
      down.comments r.repository issue.number = true → ∃ item ∈ cacheAfter s result, Keeps item r
  others : ∀ items s', result = some (items, s') → ∀ repo ∈ repos, down.repo repo = false →
    (∀ issue ∈ s.fetchIssues repo, down.comments repo issue.number = false) →
    ∀ item, item ∈ items ∧ item.repository = repo ↔
      ∃ issue ∈ s.fetchIssues repo,
        codeRequestFromIssue L issue repo (fetchComments issue) = some item

/-- Nothing was cached of what is not reached, but requests that had no history yet and whose state
is that of their issue. -/
structure Spared (L : Library) (repos : List String) (down : Outage) (s : Store)
    (requests : List CodeRequest) : Prop where
  repository : ∀ r ∈ requests, r.repository ∈ repos → down.repo r.repository = false
  comments : ∀ r ∈ requests, r.repository ∈ repos →
    ∀ issue ∈ s.fetchIssuesIn down r.repository, r.issueNumber = some issue.number →
      down.comments r.repository issue.number = true →
      r.auditTrail = [] ∧ ∃ issue' ∈ s.fetchIssuesIn down r.repository,
        issue'.number = issue.number ∧ issueState L issue' r.repository = r.state

def Malformed (L : Library) (repos : List String) (down : Outage) (s : Store) : Prop :=
  ∃ repo ∈ repos, ∃ issue ∈ s.fetchIssuesIn down repo,
    codeRequestFromIssue L issue repo (fetchCommentsIn down repo issue) = none

section Results

variable {L : Library} {repos : List String} {down : Outage} {now repo : String} {s : Store}
  {requests items : List CodeRequest} {issue : Issue} {item : CodeRequest}
  {trail : List CodeRequestAuditEvent}

theorem codeRequestFromIssue_spec (hrepo : repo ≠ "")
    (h : codeRequestFromIssue L issue repo trail = some item) :
    item.repository = repo ∧ item.issueNumber = some issue.number ∧
      item.state = issueState L issue repo ∧ item.auditTrail = trail := by
  unfold codeRequestFromIssue at h
  dsimp only at h
  rw [if_pos hrepo] at h
  obtain ⟨createdAt, -, h⟩ := Option.bind_eq_some_iff.mp h
  obtain ⟨updatedAt, -, h⟩ := Option.bind_eq_some_iff.mp h
  obtain ⟨plannerProfileId, -, h⟩ := Option.bind_eq_some_iff.mp h
  obtain ⟨executorProfileId, -, h⟩ := Option.bind_eq_some_iff.mp h
  obtain ⟨profileSnapshot, -, h⟩ := Option.bind_eq_some_iff.mp h
  obtain ⟨boardProposal, -, h⟩ := Option.bind_eq_some_iff.mp h
  obtain ⟨planEpic, -, h⟩ := Option.bind_eq_some_iff.mp h
  obtain ⟨standards, -, h⟩ := Option.bind_eq_some_iff.mp h
  obtain rfl := Option.some.inj h
  exact ⟨if_pos hrepo, rfl, rfl, rfl⟩

/-- A computation that fails on an element fails on the list. -/
theorem mapM_eq_none {α β : Type*} {f : α → Option β} {l : List α} {x : α} (hx : x ∈ l)
    (h : f x = none) : l.mapM f = none := by
  induction l with
  | nil => cases hx
  | cons y l ih =>
    rw [List.mapM_cons]
    rcases List.mem_cons.mp hx with rfl | hx
    · rw [h]
      rfl
    · rw [ih hx]
      cases f y <;> rfl

/-- **A rebuild** raises if an issue does not validate, and gives the requests of the issues that
are reached otherwise. -/
theorem rebuildCacheIn_cases (L : Library) (repos : List String) (down : Outage) (s : Store) :
    (Malformed L repos down s ∧ s.rebuildCacheIn L repos down = none) ∨
      ¬ Malformed L repos down s ∧ ∃ items,
        s.rebuildCacheIn L repos down = some (items, s.writeCache items) ∧ ∀ item, item ∈ items ↔
          ∃ repo ∈ repos, ∃ issue ∈ s.fetchIssuesIn down repo,
            codeRequestFromIssue L issue repo (fetchCommentsIn down repo issue) = some item := by
  unfold Store.rebuildCacheIn Store.rebuiltIn
  set read : String × Issue → Option CodeRequest :=
    fun x => codeRequestFromIssue L x.2 x.1 (fetchCommentsIn down x.1 x.2) with hread
  by_cases hbad : Malformed L repos down s
  · obtain ⟨repo, hrepo, issue, hissue, hnone⟩ := id hbad
    refine .inl ⟨hbad, ?_⟩
    have hmem : (repo, issue) ∈ repos.flatMap fun repo =>
        (s.fetchIssuesIn down repo).map fun issue => (repo, issue) :=
      List.mem_flatMap.mpr ⟨repo, hrepo, List.mem_map_of_mem hissue⟩
    have hnone' : read (repo, issue) = none := hnone
    rw [mapM_eq_none hmem hnone']
    rfl
  · have hall : ∀ x ∈ repos.flatMap fun repo =>
        (s.fetchIssuesIn down repo).map fun issue => (repo, issue), ∃ item, read x = some item := by
      intro x hx
      obtain ⟨repo, hrepo, hx⟩ := List.mem_flatMap.mp hx
      obtain ⟨issue, hissue, rfl⟩ := List.mem_map.mp hx
      refine Option.ne_none_iff_exists'.mp ?_
      exact fun hnone => hbad ⟨repo, hrepo, issue, hissue, hnone⟩
    obtain ⟨items, hitems, hmem⟩ := mapM_of_forall hall
    refine .inr ⟨hbad, items, ?_, ?_⟩
    · rw [hitems]
      rfl
    · intro item
      rw [hmem]
      constructor
      · rintro ⟨x, hx, hitem⟩
        obtain ⟨repo, hrepo, hx⟩ := List.mem_flatMap.mp hx
        obtain ⟨issue, hissue, rfl⟩ := List.mem_map.mp hx
        exact ⟨repo, hrepo, issue, hissue, hitem⟩
      · rintro ⟨repo, hrepo, issue, hissue, hitem⟩
        exact ⟨(repo, issue), List.mem_flatMap.mpr ⟨repo, hrepo, List.mem_map_of_mem hissue⟩, hitem⟩

theorem listIn_rebuild (hcache : s.readCache = requests.map .request) {forceRefresh : Bool}
    (h : forceRefresh = true ∨ requests = []) :
    s.listIn L repos down now forceRefresh = s.rebuildCacheIn L repos down := by
  unfold Store.listIn
  by_cases hforce : forceRefresh = true
  · exact if_pos hforce
  · rw [if_neg hforce, hcache, cachedRequests_requests]
    exact if_neg (not_not.mpr (h.resolve_left hforce))

theorem reached_of_mem (h : issue ∈ s.fetchIssuesIn down repo) : down.repo repo = false := by
  unfold Store.fetchIssuesIn at h
  cases hdown : down.repo repo with
  | false => rfl
  | true =>
    rw [hdown, if_pos rfl] at h
    cases h

theorem cacheAfter_some (s : Store) (items : List CodeRequest) :
    cacheAfter s (some (items, s.writeCache items)) = items := readCache_writeCache items s

theorem cacheAfter_none (hcache : s.readCache = requests.map .request) :
    cacheAfter s none = requests := by
  unfold cacheAfter
  rw [Option.elim_none, hcache, List.filterMap_map]
  exact List.filterMap_some

/-- What is returned of a repository whose fetches succeed. -/
theorem others_of_rebuild (hrepos : ∀ repo ∈ repos, repo ≠ "")
    (hmem : ∀ item, item ∈ items ↔ ∃ repo ∈ repos, ∃ issue ∈ s.fetchIssuesIn down repo,
      codeRequestFromIssue L issue repo (fetchCommentsIn down repo issue) = some item)
    (hrepo : repo ∈ repos) (hreached : down.repo repo = false)
    (hcomments : ∀ issue ∈ s.fetchIssues repo, down.comments repo issue.number = false)
    (item : CodeRequest) : item ∈ items ∧ item.repository = repo ↔
      ∃ issue ∈ s.fetchIssues repo,
        codeRequestFromIssue L issue repo (fetchComments issue) = some item := by
  have hissues : s.fetchIssuesIn down repo = s.fetchIssues repo := by
    unfold Store.fetchIssuesIn
    rw [hreached]
    rfl
  have htrail : ∀ issue ∈ s.fetchIssues repo,
      fetchCommentsIn down repo issue = fetchComments issue := by
    intro issue hissue
    unfold fetchCommentsIn
    rw [hcomments issue hissue]
    rfl
  constructor
  · rintro ⟨hitem, heq⟩
    obtain ⟨repo', hrepo', issue, hissue, hfound⟩ := (hmem item).mp hitem
    obtain ⟨hrepository, -⟩ := codeRequestFromIssue_spec (hrepos repo' hrepo') hfound
    obtain rfl := hrepository.symm.trans heq
    rw [hissues] at hissue
    exact ⟨issue, hissue, by rw [← htrail issue hissue]; exact hfound⟩
  · rintro ⟨issue, hissue, hfound⟩
    refine ⟨(hmem item).mpr ⟨repo, hrepo, issue, hissues ▸ hissue, ?_⟩,
      (codeRequestFromIssue_spec (hrepos repo hrepo) hfound).1⟩
    rw [htrail issue hissue]
    exact hfound

/-- What was cached of a repository that is not reached is not in the result. -/
theorem not_kept_of_down (hrepos : ∀ repo ∈ repos, repo ≠ "")
    (hmem : ∀ item, item ∈ items ↔ ∃ repo ∈ repos, ∃ issue ∈ s.fetchIssuesIn down repo,
      codeRequestFromIssue L issue repo (fetchCommentsIn down repo issue) = some item)
    {r : CodeRequest} (hdown : down.repo r.repository = true) : ¬ ∃ item ∈ items, Keeps item r := by
  rintro ⟨item, hitem, hkeeps⟩
  obtain ⟨repo, hrepo, issue, hissue, hfound⟩ := (hmem item).mp hitem
  obtain ⟨hrepository, -⟩ := codeRequestFromIssue_spec (hrepos repo hrepo) hfound
  have hreached := reached_of_mem hissue
  rw [← hrepository, hkeeps.repository, hdown] at hreached
  cases hreached

/-- A request whose comments are not reached is kept exactly if it had no history and has the state
of its issue. -/
theorem kept_iff_of_comments (hrepos : ∀ repo ∈ repos, repo ≠ "")
    (hmem : ∀ item, item ∈ items ↔ ∃ repo ∈ repos, ∃ issue ∈ s.fetchIssuesIn down repo,
      codeRequestFromIssue L issue repo (fetchCommentsIn down repo issue) = some item)
    (hvalid : ¬ Malformed L repos down s) {r : CodeRequest} (hconfigured : r.repository ∈ repos)
    (hnumber : r.issueNumber = some issue.number)
    (hdown : down.comments r.repository issue.number = true) :
    (∃ item ∈ items, Keeps item r) ↔ r.auditTrail = [] ∧
      ∃ issue' ∈ s.fetchIssuesIn down r.repository,
        issue'.number = issue.number ∧ issueState L issue' r.repository = r.state := by
  have htrail : ∀ issue', issue'.number = issue.number →
      fetchCommentsIn down r.repository issue' = [] := by
    intro issue' hsame
    unfold fetchCommentsIn
    rw [hsame, hdown]
    rfl
  constructor
  · rintro ⟨item, hitem, hkeeps⟩
    obtain ⟨repo, hrepo, issue', hissue', hfound⟩ := (hmem item).mp hitem
    obtain ⟨hrepository, hnumber', hstate, hhistory⟩ :=
      codeRequestFromIssue_spec (hrepos repo hrepo) hfound
    obtain rfl := hrepository.symm.trans hkeeps.repository
    have hsame : issue'.number = issue.number :=
      Option.some.inj (hnumber'.symm.trans (hkeeps.issueNumber.trans hnumber))
    refine ⟨?_, issue', hissue', hsame, hstate.symm.trans hkeeps.state⟩
    rw [← hkeeps.auditTrail, hhistory, htrail issue' hsame]
  · rintro ⟨hempty, issue', hissue', hsame, hstate⟩
    have hsome : codeRequestFromIssue L issue' r.repository
        (fetchCommentsIn down r.repository issue') ≠ none :=
      fun hnone => hvalid ⟨_, hconfigured, issue', hissue', hnone⟩
    obtain ⟨item, hfound⟩ := Option.ne_none_iff_exists'.mp hsome
    obtain ⟨hrepository, hnumber', hstate', hhistory⟩ :=
      codeRequestFromIssue_spec (hrepos _ hconfigured) hfound
    refine ⟨item, (hmem item).mpr ⟨_, hconfigured, issue', hissue', hfound⟩, hrepository, ?_,
      hstate'.trans hstate, ?_⟩
    · rw [hnumber', hsame, hnumber]
    · rw [hhistory, htrail issue' hsame, hempty]

/-- **Nothing is lost exactly if nothing was cached of what was not reached**, or the rebuild
raises. -/
theorem noneLost_iff (hrepos : ∀ repo ∈ repos, repo ≠ "")
    (hcache : s.readCache = requests.map .request) {forceRefresh : Bool}
    (hrebuild : forceRefresh = true ∨ requests = []) :
    NoneLost L repos down s requests (s.listIn L repos down now forceRefresh) ↔
      Malformed L repos down s ∨ Spared L repos down s requests := by
  rw [listIn_rebuild hcache hrebuild]
  rcases rebuildCacheIn_cases L repos down s with ⟨hbad, hnone⟩ | ⟨hvalid, items, hsome, hmem⟩
  · rw [hnone]
    refine iff_of_true ?_ (.inl hbad)
    refine ⟨fun r hr _ _ => ?_, fun r hr _ _ _ _ _ => ?_, fun _ _ h => nomatch h⟩
    · rw [cacheAfter_none hcache]
      exact ⟨r, hr, rfl, rfl, rfl, rfl⟩
    · rw [cacheAfter_none hcache]
      exact ⟨r, hr, rfl, rfl, rfl, rfl⟩
  · rw [hsome, or_iff_right hvalid]
    constructor
    · rintro ⟨hrepository, hcomments, -⟩
      rw [cacheAfter_some] at hrepository hcomments
      refine ⟨?_, ?_⟩
      · intro r hr hconfigured
        refine eq_false_of_ne_true fun hdown => ?_
        exact not_kept_of_down hrepos hmem hdown (hrepository r hr hconfigured hdown)
      · intro r hr hconfigured issue hissue hnumber hdown
        exact (kept_iff_of_comments hrepos hmem hvalid hconfigured hnumber hdown).mp
          (hcomments r hr hconfigured issue hissue hnumber hdown)
    · rintro ⟨hrepository, hcomments⟩
      refine ⟨?_, ?_, ?_⟩
      · intro r hr hconfigured hdown
        rw [hrepository r hr hconfigured] at hdown
        cases hdown
      · intro r hr hconfigured issue hissue hnumber hdown
        rw [cacheAfter_some]
        exact (kept_iff_of_comments hrepos hmem hvalid hconfigured hnumber hdown).mpr
          (hcomments r hr hconfigured issue hissue hnumber hdown)
      · intro items' s' hsame repo hrepo hreached hreached'
        obtain ⟨rfl, -⟩ := Prod.mk.inj (Option.some.inj hsame)
        exact others_of_rebuild hrepos hmem hrepo hreached hreached'

/-- The repository `Other` is not reached, and a request of `Demo` is cached. -/
theorem noneLost_elsewhere : NoneLost jsonLibrary ["Demo", "Other"]
    ⟨fun repo => repo = "Other", fun _ _ => false⟩
    ⟨some [.request (pageRecord "main")], fun _ => []⟩ [pageRecord "main"]
    (Store.listIn jsonLibrary ["Demo", "Other"] ⟨fun repo => repo = "Other", fun _ _ => false⟩ ""
      true ⟨some [.request (pageRecord "main")], fun _ => []⟩) := by
  refine (noneLost_iff (by decide) rfl (.inl rfl)).mpr (.inr ⟨?_, ?_⟩)
  · intro r hr _
    obtain rfl := List.mem_singleton.mp hr
    rfl
  · intro r _ _ issue _ _ hdown
    cases hdown

/-- The repository of the request is not reached. -/
theorem repository_lost : ¬ ∀ (L : Library) (repos : List String) (down : Outage) (now : String)
    (s : Store) (requests : List CodeRequest), (∀ repo ∈ repos, repo ≠ "") →
    s.readCache = requests.map .request →
    NoneLost L repos down s requests (s.listIn L repos down now true) := by
  intro hall
  obtain ⟨hrepository, -, -⟩ := hall jsonLibrary ["Demo"] ⟨fun _ => true, fun _ _ => false⟩ ""
    ⟨some [.request (pageRecord "main")], fun _ => []⟩ [pageRecord "main"] (by decide) rfl
  obtain ⟨item, hitem, -⟩ := hrepository _ List.mem_cons_self List.mem_cons_self rfl
  cases hitem

end Results

end CodeRequests
