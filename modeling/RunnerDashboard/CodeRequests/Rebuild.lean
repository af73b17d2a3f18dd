import RunnerDashboard.CodeRequests.IssueText
import RunnerDashboard.Lib.Path
import Mathlib.Data.List.Nodup
import Mathlib.Data.List.ReduceOption

/-!
# Rebuilding the cache

Requests are created by the route and moved by transitions, each run alone.  The issues then hold
the records that were stored last, and the cache can be rebuilt from them.  What does not come back
is a branch without a name, and the events whose comment is not readable.

## Main results

* `rebuilds_iff` — **the cache has the request again exactly if it is recoverable.**
* `branch_lost` — a request without a branch.
-/

namespace CodeRequests

open Lts

/-! ### Runs of the store -/

section Steps

variable (L : Library) (repos : List String)

/-- The route creates a request, and GitHub gives its issue a new number; or a transition runs.  The
label is the record that was stored. -/
inductive StoreStep : Store → Option CodeRequest → Store → Prop
  | create {s : Store} {principal : Principal}
      {profiles : String → Option (List (String × Json))} {now stamp : String}
      {body : List (String × Json)} {request : CodeRequest} {opened : Issue}
      (admitted : createCodeRequest L principal profiles now stamp body = .ok request)
      (unused : ∀ issue ∈ s.issues request.repository, issue.number ≠ opened.number) :
      StoreStep s (s.create L request opened).1 (s.create L request opened).2
  | transition {s : Store} (call : Call) (now createdAt : String) :
      StoreStep s (s.transition L repos now call createdAt).1
        (s.transition L repos now call createdAt).2

end Steps

/-- Nothing is cached, no issue is a code request, and the issues of a repository have different
numbers. -/
structure Fresh (s : Store) : Prop where
  cache : s.cache = none
  unlabelled : ∀ repo, ∀ issue ∈ s.issues repo, "code-request" ∉ issue.labels
  numbers : ∀ repo, ((s.issues repo).map Issue.number).Nodup

def CodeRequest.isOf (r : CodeRequest) (repo : String) (n : ℕ) : Prop :=
  r.repository = repo ∧ r.issueNumber = some n

instance (r : CodeRequest) (repo : String) (n : ℕ) : Decidable (r.isOf repo n) :=
  inferInstanceAs (Decidable (_ ∧ _))

/-- The record that was stored last for an issue. -/
def lastStored (rs : List (Option CodeRequest)) (repo : String) (n : ℕ) : Option CodeRequest :=
  (rs.reduceOption.filter fun r => r.isOf repo n).getLast?

/-- An issue that holds a record; the id may be the one before the issue had a number. -/
structure Kept (L : Library) (r : CodeRequest) (issue : Issue) : Prop where
  body : ∃ id, issue.body = serializeIssueBody L { r with id := id }
  labels : issue.labels = labelsOf r
  notPull : issue.pullRequest = false
  comments : issue.comments.map Comment.body = r.auditTrail.map auditComment

/-- A record that the store has stored. -/
structure Sound (r : CodeRequest) : Prop where
  prompt : Py.strip r.prompt ≠ ""
  repository : r.repository ≠ ""
  trail : r.auditTrail.length ≤ r.state.rank

/-- **The issues hold the records that were stored last**, and so does the cache. -/
structure Synced (L : Library) (rs : List (Option CodeRequest)) (s : Store) : Prop where
  cache : ∃ requests : List CodeRequest, s.readCache = requests.map .request ∧
    (∀ r ∈ requests, ∃ n, r.issueNumber = some n ∧ lastStored rs r.repository n = some r) ∧
    (requests = [] → ∀ repo n, lastStored rs repo n = none)
  numbers : ∀ repo, ((s.issues repo).map Issue.number).Nodup
  issues : ∀ repo, ∀ issue ∈ s.issues repo, "code-request" ∈ issue.labels →
    ∃ r, lastStored rs repo issue.number = some r ∧ Kept L r issue
  stored : ∀ repo n r, lastStored rs repo n = some r →
    Sound r ∧ ∃ issue ∈ s.issues repo, issue.number = n ∧ "code-request" ∈ issue.labels

def Rebuilds (L : Library) (repos : List String) (s : Store) (r : CodeRequest) : Prop :=
  ∃ items s', s.rebuildCache L repos = some (items, s') ∧ ∃ item ∈ items,
    item.repository = r.repository ∧ item.issueNumber = r.issueNumber ∧ SameRequest item r

/-- The repository is configured, the issue is on its page, the branch has a name, and the comments
are readable. -/
structure Recoverable (repos : List String) (s : Store) (r : CodeRequest) : Prop where
  configured : r.repository ∈ repos
  listed : ∃ issue ∈ s.fetchIssues r.repository, r.issueNumber = some issue.number
  branch : r.branch ≠ ""
  readable : ∀ event ∈ r.auditTrail, Readable event

section Runs

variable {L : Library} {repos : List String} {rs : List (Option CodeRequest)}
  {s s' s₀ : Store} {repo : String} {n : ℕ} {r request updated current : CodeRequest}
  {issue opened : Issue} {event : CodeRequestAuditEvent}

/-! ### The record that was stored last -/

theorem isOf_of_lastStored (h : lastStored rs repo n = some r) : r.isOf repo n := by
  have hmem := List.mem_of_getLast? h
  exact of_decide_eq_true (List.mem_filter.mp hmem).2

@[simp] theorem lastStored_none (rs : List (Option CodeRequest)) (repo : String) (n : ℕ) :
    lastStored (rs ++ [none]) repo n = lastStored rs repo n := by
  unfold lastStored
  rw [List.reduceOption_append]
  simp

theorem lastStored_some (rs : List (Option CodeRequest)) (r : CodeRequest) (repo : String) (n : ℕ) :
    lastStored (rs ++ [some r]) repo n =
      if r.isOf repo n then some r else lastStored rs repo n := by
  unfold lastStored
  rw [List.reduceOption_append, List.filter_append]
  by_cases h : r.isOf repo n
  · rw [if_pos h]
    simp [h]
  · rw [if_neg h]
    simp [h]

/-! ### The issues -/

theorem mem_modifyIssue {number : ℕ} {f : Issue → Issue} {repo' : String} :
    issue ∈ (s.modifyIssue repo number f).issues repo' ↔ ∃ old ∈ s.issues repo',
      issue = if repo' = repo ∧ old.number = number then f old else old := by
  unfold Store.modifyIssue
  dsimp only
  by_cases hrepo : repo' = repo
  · rw [if_pos hrepo, List.mem_map]
    simp only [hrepo, true_and, eq_comm]
  · rw [if_neg hrepo]
    simp only [hrepo, false_and, if_false, exists_eq_right']

theorem numbers_modifyIssue {number : ℕ} {f : Issue → Issue} (hf : ∀ i, (f i).number = i.number)
    (repo' : String) :
    ((s.modifyIssue repo number f).issues repo').map Issue.number =
      (s.issues repo').map Issue.number := by
  unfold Store.modifyIssue
  dsimp only
  by_cases hrepo : repo' = repo
  · rw [if_pos hrepo, List.map_map]
    refine List.map_congr_left fun i _ => ?_
    dsimp only [Function.comp_apply]
    split_ifs
    · exact hf i
    · rfl
  · rw [if_neg hrepo]

def moveIssue (L : Library) (updated : CodeRequest) (event : CodeRequestAuditEvent)
    (createdAt : String) (issue : Issue) : Issue :=
  { issue with
    comments := issue.comments ++ [⟨auditComment event, createdAt⟩]
    body := serializeIssueBody L updated
    labels := labelsOf updated }

theorem postComment_patchIssue (hadvances : Advances current updated event)
    (hnumber : current.issueNumber = some n) (createdAt : String) (s : Store) :
    (s.postComment current updated createdAt).patchIssue L updated =
      s.modifyIssue current.repository n (moveIssue L updated event createdAt) := by
  have hnumber' : updated.issueNumber = some n := by rw [hadvances.updated]; exact hnumber
  have hrepo : updated.repository = current.repository := by rw [hadvances.updated]
  unfold Store.postComment Store.patchIssue
  rw [hnumber, hadvances.getLast?, hnumber']
  dsimp only
  rw [hrepo]
  unfold Store.modifyIssue
  dsimp only
  congr 1
  funext repo'
  by_cases h : repo' = current.repository
  · simp only [if_pos h, List.map_map]
    refine List.map_congr_left fun i _ => ?_
    dsimp only [Function.comp_apply]
    by_cases hi : i.number = n
    · rw [if_pos hi, if_pos hi, if_pos hi]
      rfl
    · rw [if_neg hi, if_neg hi, if_neg hi]
  · simp only [if_neg h]

@[simp] theorem number_moveIssue (createdAt : String) :
    (moveIssue L updated event createdAt issue).number = issue.number := by rw [moveIssue]

theorem Kept.move (h : Kept L current issue) (hadvances : Advances current updated event)
    (createdAt : String) : Kept L updated (moveIssue L updated event createdAt issue) where
  body := by
    have hbody : (moveIssue L updated event createdAt issue).body =
        serializeIssueBody L updated := by rw [moveIssue]
    exact ⟨updated.id, hbody⟩
  labels := by rw [moveIssue]
  notPull := by
    rw [moveIssue]
    exact h.notPull
  comments := by
    unfold moveIssue
    rw [List.map_append, h.comments, hadvances.trail, List.map_append]
    rfl

theorem Sound.move (h : Sound current) (hadvances : Advances current updated event) :
    Sound updated where
  prompt := by
    rw [hadvances.updated]
    exact h.prompt
  repository := by
    rw [hadvances.updated]
    exact h.repository
  trail := by
    have hrank := rank_lt hadvances.legal
    have hold := h.trail
    rw [hadvances.trail, hadvances.state, List.length_append, List.length_singleton]
    omega

/-- **A history has at most seven events.** -/
theorem trail_le (h : Sound r) : r.auditTrail.length ≤ 7 := h.trail.trans (rank_le r.state)

theorem labelled (r : CodeRequest) : "code-request" ∈ labelsOf r := List.mem_cons_self

/-! ### The steps -/

/-- What the route admits has a prompt, a repository, and no history. -/
theorem admitted_sound {principal : Principal}
    {profiles : String → Option (List (String × Json))} {now stamp : String}
    {body : List (String × Json)}
    (h : createCodeRequest L principal profiles now stamp body = .ok request) :
    Sound request ∧ request.auditTrail = [] := by
  unfold createCodeRequest at h
  dsimp only at h
  by_cases hrepo : Py.strip ((body.lookup "repository").elim "" L.text) = ""
  · rw [if_pos hrepo] at h
    cases h
  by_cases hprompt : Py.strip ((body.lookup "prompt").elim "" L.text) = ""
  · rw [if_neg hrepo, if_pos hprompt] at h
    cases h
  rw [if_neg hrepo, if_neg hprompt] at h
  split at h
  · rename_i found heq
    obtain rfl := Except.ok.inj h
    obtain ⟨plannerProfileId, -, heq⟩ := Option.bind_eq_some_iff.mp heq
    obtain ⟨executorProfileId, -, heq⟩ := Option.bind_eq_some_iff.mp heq
    obtain ⟨boardProposal, -, heq⟩ := Option.bind_eq_some_iff.mp heq
    obtain ⟨planEpic, -, heq⟩ := Option.bind_eq_some_iff.mp heq
    obtain ⟨standards, -, heq⟩ := Option.bind_eq_some_iff.mp heq
    obtain rfl := Option.some.inj heq
    refine ⟨⟨?_, hrepo, Nat.zero_le _⟩, rfl⟩
    intro hstrip
    rw [Py.strip_strip] at hstrip
    exact hprompt hstrip
  · cases h

@[simp] theorem currentModels_requests (requests : List CodeRequest) :
    currentModels (requests.map .request) = some requests := by
  induction requests with
  | nil => rfl
  | cons r requests ih =>
    rw [List.map_cons, currentModels, ih]
    rfl

@[simp] theorem cachedRequests_requests (now : String) (requests : List CodeRequest) :
    cachedRequests L now (requests.map .request) = some requests := by
  induction requests with
  | nil => rfl
  | cons r requests ih =>
    rw [List.map_cons, cachedRequests, ih]
    rfl

@[simp] theorem readCache_write (requests : List CodeRequest) (s : Store) :
    (s.writeCache requests).readCache = requests.map .request := rfl

theorem issueNumber_isOf {m : ℕ} (h : r.isOf repo n) (hm : r.issueNumber = some m) : m = n :=
  Option.some.inj (hm.symm.trans h.2)

theorem mem_replaceOrInsert {models : List CodeRequest} (h : r ∈ replaceOrInsert request models) :
    r = request ∨ r ∈ models ∧ r.id ≠ request.id := by
  unfold replaceOrInsert at h
  dsimp only at h
  have hmap : r ∈ models.map (fun m => if m.id = request.id then request else m) →
      r = request ∨ r ∈ models ∧ r.id ≠ request.id := by
    intro h
    obtain ⟨m, hm, rfl⟩ := List.mem_map.mp h
    split_ifs with hid
    · exact .inl rfl
    · exact .inr ⟨hm, hid⟩
  split_ifs at h
  · exact hmap h
  · rcases List.mem_cons.mp h with rfl | h
    · exact .inl rfl
    · exact hmap h

theorem synced_start (hfresh : Fresh s) : Synced L [] s where
  cache := by
    refine ⟨[], ?_, fun r hr => absurd hr List.not_mem_nil, fun _ _ _ => rfl⟩
    unfold Store.readCache
    rw [hfresh.cache]
    rfl
  numbers := hfresh.numbers
  issues := fun repo issue hissue hlabel => absurd hlabel (hfresh.unlabelled repo issue hissue)
  stored := fun _ _ _ h => nomatch h

/-- What a create leaves: the record is stored, and a new issue holds it. -/
theorem create_eq {requests : List CodeRequest} (hcache : s.readCache = requests.map .request)
    (hsound : Sound request) (htrail : request.auditTrail = []) (opened : Issue) :
    ∃ (created : CodeRequest) (issue : Issue) (s' : Store),
      s.create L request opened = (some created, s') ∧
      (∀ repo, s'.issues repo =
        if repo = request.repository then issue :: s.issues repo else s.issues repo) ∧
      s'.readCache = (created :: requests.filter fun m => m.id ≠ created.id).map .request ∧
      issue.number = opened.number ∧ created.isOf request.repository opened.number ∧
      Sound created ∧ Kept L created issue := by
  unfold Store.create
  dsimp only
  have hmodels : ∀ issues, currentModels (Store.readCache ⟨s.cache, issues⟩) = some requests := by
    intro issues
    change currentModels s.readCache = some requests
    rw [hcache, currentModels_requests]
  rw [hmodels]
  refine ⟨_, _, _, rfl, fun repo => rfl, rfl, rfl, ⟨rfl, rfl⟩, ?_, ?_⟩
  · exact { prompt := hsound.prompt, repository := hsound.repository, trail := hsound.trail }
  · refine { body := ⟨request.id, ?_⟩, labels := ?_, notPull := ?_, comments := ?_ }
    · dsimp only [serializeIssueBody, serializeFrontMatter, frontMatterPayload]
    · dsimp only [labelsOf]
    · dsimp only
    · dsimp only
      rw [htrail]
      rfl

/-- **A request that is created** has a new issue, which holds it. -/
theorem synced_create {principal : Principal}
    {profiles : String → Option (List (String × Json))} {now stamp : String}
    {body : List (String × Json)} (h : Synced L rs s)
    (hadmitted : createCodeRequest L principal profiles now stamp body = .ok request)
    (hunused : ∀ issue ∈ s.issues request.repository, issue.number ≠ opened.number) :
    Synced L (rs ++ [(s.create L request opened).1]) (s.create L request opened).2 := by
  obtain ⟨hsound, htrail⟩ := admitted_sound hadmitted
  obtain ⟨requests, hcache, hrequests, -⟩ := h.cache
  obtain ⟨created, issue, s', hcreate, hissues, hcache', hnumber, hof, hcreated, hkept⟩ :=
    create_eq (L := L) hcache hsound htrail opened
  rw [hcreate]
  -- a record from before is of another issue
  have hother : ∀ repo m old, lastStored rs repo m = some old → ¬ created.isOf repo m := by
    rintro repo m old hold ⟨hrepo, hm⟩
    obtain ⟨-, i, hi, him, -⟩ := h.stored repo m old hold
    rw [← hrepo, hof.1] at hi
    exact hunused i hi (him.trans (issueNumber_isOf hof hm))
  have hlast : ∀ repo m old, lastStored rs repo m = some old →
      lastStored (rs ++ [some created]) repo m = some old := by
    intro repo m old hold
    rw [lastStored_some, if_neg (hother repo m old hold)]
    exact hold
  have hself : lastStored (rs ++ [some created]) request.repository opened.number =
      some created := by
    rw [lastStored_some, if_pos hof]
  refine ⟨⟨_, hcache', ?_, fun hnil => absurd hnil (List.cons_ne_nil _ _)⟩, ?_, ?_, ?_⟩
  · intro r hr
    rcases List.mem_cons.mp hr with rfl | hr
    · exact ⟨opened.number, hof.2, by rw [hof.1]; exact hself⟩
    · obtain ⟨m, hm, hold⟩ := hrequests r (List.mem_filter.mp hr).1
      exact ⟨m, hm, hlast _ _ _ hold⟩
  · intro repo
    rw [hissues]
    split_ifs with hrepo
    · rw [List.map_cons, List.nodup_cons]
      refine ⟨?_, h.numbers repo⟩
      intro hmem
      obtain ⟨i, hi, him⟩ := List.mem_map.mp hmem
      exact hunused i (hrepo ▸ hi) (him.trans hnumber)
    · exact h.numbers repo
  · intro repo i hi hlabel
    rw [hissues] at hi
    have hbefore : i ∈ s.issues repo →
        ∃ r, lastStored (rs ++ [some created]) repo i.number = some r ∧ Kept L r i := by
      intro hi
      obtain ⟨r, hr, hkept⟩ := h.issues repo i hi hlabel
      exact ⟨r, hlast _ _ _ hr, hkept⟩
    split_ifs at hi with hrepo
    · rcases List.mem_cons.mp hi with rfl | hi
      · exact ⟨created, by rw [hrepo, hnumber]; exact hself, hkept⟩
      · exact hbefore hi
    · exact hbefore hi
  · intro repo m r hr
    rw [lastStored_some] at hr
    split_ifs at hr with hof'
    · obtain rfl := Option.some.inj hr
      refine ⟨hcreated, issue, ?_, hnumber.trans (issueNumber_isOf hof' hof.2), ?_⟩
      · rw [hissues, if_pos (hof'.1.symm.trans hof.1)]
        exact List.mem_cons_self
      · rw [hkept.labels]
        exact labelled created
    · obtain ⟨hold, i, hi, him, hlabel⟩ := h.stored repo m r hr
      refine ⟨hold, i, ?_, him, hlabel⟩
      rw [hissues]
      split_ifs
      · exact List.mem_cons_of_mem _ hi
      · exact hi

theorem Synced.none (h : Synced L rs s) : Synced L (rs ++ [none]) s where
  cache := by simpa only [lastStored_none] using h.cache
  numbers := h.numbers
  issues := by simpa only [lastStored_none] using h.issues
  stored := by simpa only [lastStored_none] using h.stored

/-- Where nothing is stored, a rebuild writes an empty cache. -/
theorem list_nil (h : Synced L rs s) (hcache : s.readCache = []) (repos : List String)
    (now : String) :
    s.list L repos now = some ([], s.writeCache []) ∧ Synced L rs (s.writeCache []) := by
  obtain ⟨requests, hrequests, -, hnone⟩ := h.cache
  have hnil : requests = [] := List.map_eq_nil_iff.mp (hrequests.symm.trans hcache)
  have hfetch : ∀ repo, s.fetchIssues repo = [] := by
    intro repo
    have hfilter : ((s.issues repo).filter fun issue => "code-request" ∈ issue.labels) = [] := by
      refine List.filter_eq_nil_iff.mpr ?_
      intro issue hissue hlabel
      obtain ⟨r, hr, -⟩ := h.issues repo issue hissue (of_decide_eq_true hlabel)
      rw [hnone hnil] at hr
      cases hr
    unfold Store.fetchIssues
    rw [hfilter]
    rfl
  have hrebuilt : s.rebuilt L repos = some [] := by
    unfold Store.rebuilt
    simp only [hfetch, List.map_nil]
    rw [List.flatMap_eq_nil_iff.mpr fun repo _ => rfl]
    rfl
  constructor
  · unfold Store.list Store.rebuildCache
    rw [hcache, hrebuilt]
    rfl
  · exact ⟨⟨[], rfl, fun r hr => absurd hr List.not_mem_nil, fun _ => hnone hnil⟩, h.numbers,
      h.issues, h.stored⟩

/-- **A transition that begins** read the record that was stored last. -/
theorem begin_synced (h : Synced L rs s) (repos : List String) (now : String) (call : Call) :
    (∃ e s', s.begin L repos now call = (.error e, s') ∧ Synced L rs s') ∨
      ∃ current updated, s.begin L repos now call = (.ok (current, updated), s) ∧
        (∃ event, Advances current updated event) ∧
        ∃ n, current.issueNumber = some n ∧ lastStored rs current.repository n = some current := by
  obtain ⟨requests, hcache, hrequests, -⟩ := h.cache
  unfold Store.begin Store.get
  by_cases hnil : requests = []
  · obtain ⟨hlist, hs⟩ := list_nil h (by rw [hcache, hnil]; rfl) repos now
    rw [hlist]
    exact .inl ⟨_, _, rfl, hs⟩
  have hlist : s.list L repos now = some (requests, s) := by
    unfold Store.list
    rw [hcache, cachedRequests_requests]
    exact if_pos hnil
  rw [hlist]
  dsimp only [Option.bind_eq_bind, Option.bind_some]
  cases hfind : requests.find? (CodeRequest.hasKey call.key) with
  | none => exact .inl ⟨_, _, rfl, h⟩
  | some current =>
    dsimp only [Option.pure_def]
    cases hmove : transition L current call.args with
    | error e => exact .inl ⟨_, _, rfl, h⟩
    | ok updated =>
      obtain ⟨event, hadvances, -⟩ := advances_of_transition hmove
      exact .inr ⟨current, updated, rfl, ⟨event, hadvances⟩,
        hrequests current (List.mem_of_find?_eq_some hfind)⟩

/-- **The record that was moved** is held by the issue of the one before. -/
theorem synced_move (h : Synced L rs s) (hadvances : Advances current updated event)
    (hnumber : current.issueNumber = some n)
    (hlast : lastStored rs current.repository n = some current) (createdAt : String) :
    ∃ s', (s.postComment current updated createdAt).save L updated = (some updated, s') ∧
      Synced L (rs ++ [some updated]) s' := by
  obtain ⟨requests, hcache, hrequests, -⟩ := h.cache
  have hid := hadvances.id_eq
  have hof : updated.isOf current.repository n := by
    rw [hadvances.updated]
    exact ⟨rfl, hnumber⟩
  obtain ⟨hsound, issue, hissue, hissueNumber, hlabel⟩ := h.stored _ _ _ hlast
  obtain ⟨r, hr, hkept⟩ := h.issues _ issue hissue hlabel
  rw [hissueNumber, hlast] at hr
  obtain rfl := Option.some.inj hr
  -- the issue is the only one with its number
  have honly : ∀ i ∈ s.issues current.repository, i.number = n → i = issue := by
    intro i hi hin
    exact List.inj_on_of_nodup_map (h.numbers current.repository) hi hissue
      (hin.trans hissueNumber.symm)
  have hself : lastStored (rs ++ [some updated]) current.repository n = some updated := by
    rw [lastStored_some, if_pos hof]
  have hother : ∀ repo m, ¬ (repo = current.repository ∧ m = n) →
      lastStored (rs ++ [some updated]) repo m = lastStored rs repo m := by
    intro repo m hne
    rw [lastStored_some, if_neg]
    exact fun h' => hne ⟨h'.1.symm.trans hof.1, (issueNumber_isOf h' hof.2).symm⟩
  set moved := s.modifyIssue current.repository n (moveIssue L updated event createdAt) with hmoved
  have hsave : (s.postComment current updated createdAt).save L updated =
      (some updated, moved.writeCache (replaceOrInsert updated requests)) := by
    unfold Store.save
    rw [postComment_patchIssue hadvances hnumber, ← hmoved]
    have hmodels : currentModels moved.readCache = some requests := by
      change currentModels s.readCache = some requests
      rw [hcache, currentModels_requests]
    unfold Store.writeBack
    rw [hmodels]
    rfl
  refine ⟨_, hsave, ⟨_, rfl, ?_, ?_⟩, ?_, ?_, ?_⟩
  · intro r hr
    rcases mem_replaceOrInsert hr with rfl | ⟨hr, hne⟩
    · exact ⟨n, hof.2, by rw [hof.1]; exact hself⟩
    · obtain ⟨m, hm, hold⟩ := hrequests r hr
      refine ⟨m, hm, ?_⟩
      rw [hother, hold]
      rintro ⟨hrepo, rfl⟩
      rw [hrepo, hlast] at hold
      obtain rfl := Option.some.inj hold
      exact hne hid.symm
  · intro hnil repo m
    have hmem : updated ∈ replaceOrInsert updated requests := by
      refine List.mem_of_find?_eq_some (p := fun m => m.id = updated.id) ?_
      rw [find?_replaceOrInsert, if_pos rfl]
    rw [hnil] at hmem
    cases hmem
  · intro repo
    change ((moved.issues repo).map Issue.number).Nodup
    rw [hmoved, numbers_modifyIssue (f := moveIssue L updated event createdAt)
      fun _ => number_moveIssue createdAt]
    exact h.numbers repo
  · intro repo i hi hlabel'
    obtain ⟨old, hold, rfl⟩ := mem_modifyIssue.mp hi
    by_cases hmatch : repo = current.repository ∧ old.number = n
    · rw [if_pos hmatch]
      obtain ⟨rfl, hn⟩ := hmatch
      obtain rfl := honly old hold hn
      refine ⟨updated, ?_, hkept.move hadvances createdAt⟩
      rw [number_moveIssue, hn]
      exact hself
    · rw [if_neg hmatch] at hlabel' ⊢
      rw [hother _ _ hmatch]
      exact h.issues repo old hold hlabel'
  · intro repo m r hr
    by_cases hmatch : repo = current.repository ∧ m = n
    · obtain ⟨rfl, rfl⟩ := hmatch
      rw [hself] at hr
      obtain rfl := Option.some.inj hr
      refine ⟨hsound.move hadvances, moveIssue L updated event createdAt issue,
        mem_modifyIssue.mpr ⟨issue, hissue, ?_⟩,
        (number_moveIssue createdAt).trans hissueNumber, labelled updated⟩
      rw [if_pos ⟨rfl, hissueNumber⟩]
    · rw [hother _ _ hmatch] at hr
      obtain ⟨hold, i, hi, him, hlabel'⟩ := h.stored repo m r hr
      refine ⟨hold, i, mem_modifyIssue.mpr ⟨i, hi, ?_⟩, him, hlabel'⟩
      rw [if_neg]
      exact fun h' => hmatch ⟨h'.1, him.symm.trans h'.2⟩

/-- **Every step keeps the issues in step with the records.** -/
theorem synced_step {label : Option CodeRequest} (h : Synced L rs s)
    (hstep : StoreStep L repos s label s') : Synced L (rs ++ [label]) s' := by
  cases hstep with
  | create hadmitted hunused => exact synced_create h hadmitted hunused
  | transition call now createdAt =>
    unfold Store.transition
    rcases begin_synced h repos now call with
      ⟨e, s₁, hbegin, hs₁⟩ | ⟨current, updated, hbegin, ⟨event, hadvances⟩, n, hnumber, hlast⟩
    · rw [hbegin]
      exact hs₁.none
    · obtain ⟨s₁, hsave, hs₁⟩ := synced_move h hadvances hnumber hlast createdAt
      rw [hbegin]
      dsimp only
      rw [hsave]
      exact hs₁

theorem synced_path (hfresh : Fresh s₀) (p : Path (StoreStep L repos) s₀ rs s) : Synced L rs s :=
  p.history (fun _ _ _ _ h hstep => synced_step h hstep) (synced_start hfresh)

/-! ### The rebuild -/

/-- The history that is read from the comments is the one that was written, exactly if every event
is readable. -/
theorem parse_comments_iff {comments : List Comment} {trail : List CodeRequestAuditEvent}
    (h : comments.map Comment.body = trail.map auditComment) :
    (comments.filterMap parseAuditComment).map CodeRequestAuditEvent.core =
        trail.map CodeRequestAuditEvent.core ↔ ∀ event ∈ trail, Readable event := by
  induction trail generalizing comments with
  | nil =>
    rw [List.map_eq_nil_iff.mp h]
    simp
  | cons event trail ih =>
    obtain ⟨comment, comments, rfl⟩ : ∃ comment rest, comments = comment :: rest := by
      cases comments with
      | nil => cases h
      | cons comment rest => exact ⟨comment, rest, rfl⟩
    obtain ⟨hbody, htail⟩ := List.cons.inj h
    have hread := parseAuditComment_iff event comment.createdAt
    rw [← hbody] at hread
    rw [List.forall_mem_cons, ← ih htail, ← hread]
    cases hparse : parseAuditComment comment with
    | none =>
      -- an event is missing, so the histories differ in length
      rw [List.filterMap_cons_none hparse]
      refine iff_of_false ?_ ?_
      · intro heq
        have hlength := congrArg List.length heq
        have hle := List.length_filterMap_le parseAuditComment comments
        have hsame := congrArg List.length htail
        simp only [List.length_map, List.length_cons] at hlength hsame
        omega
      · rintro ⟨⟨event', h', -⟩, -⟩
        cases h'
    | some event' =>
      rw [List.filterMap_cons_some hparse, List.map_cons, List.map_cons, List.cons.injEq]
      simp

theorem fetchComments_iff (hsound : Sound r) (hkept : Kept L r issue) :
    (fetchComments issue).map CodeRequestAuditEvent.core =
        r.auditTrail.map CodeRequestAuditEvent.core ↔ ∀ event ∈ r.auditTrail, Readable event := by
  have hlength : issue.comments.length ≤ 30 := by
    have heq := congrArg List.length hkept.comments
    have hle := trail_le hsound
    rw [List.length_map, List.length_map] at heq
    omega
  unfold fetchComments
  rw [List.take_of_length_le hlength]
  exact parse_comments_iff hkept.comments

/-- **The request of an issue**: it is the one that was stored last, exactly if it has a branch and
a readable history. -/
theorem item_of_issue (hL : L.Lawful) (h : Synced L rs s) (hissue : issue ∈ s.fetchIssues repo) :
    ∃ r item, lastStored rs repo issue.number = some r ∧
      codeRequestFromIssue L issue repo (fetchComments issue) = some item ∧
      item.repository = repo ∧ item.issueNumber = some issue.number ∧
      (SameRequest item r ↔ r.branch ≠ "" ∧ ∀ event ∈ r.auditTrail, Readable event) := by
  obtain ⟨hmem, hlabel⟩ := List.mem_filter.mp (List.mem_of_mem_take (List.mem_filter.mp hissue).1)
  obtain ⟨r, hlast, hkept⟩ := h.issues repo issue hmem (of_decide_eq_true hlabel)
  obtain ⟨hsound, -⟩ := h.stored _ _ _ hlast
  have hrepo : repo ≠ "" := (isOf_of_lastStored hlast).1 ▸ hsound.repository
  obtain ⟨id, hbody⟩ := hkept.body
  have hprompt' : Py.strip ({ r with id } : CodeRequest).prompt ≠ "" := hsound.prompt
  obtain ⟨item, hitem, hrepository, hnumber, htrail, hprompt, hstate, hrequester, hstandards,
    hbranch⟩ := codeRequestFromIssue_kept hL hprompt' hrepo hbody hkept.labels (fetchComments issue)
  refine ⟨r, item, hlast, hitem, hrepository, hnumber, ?_⟩
  rw [← fetchComments_iff hsound hkept]
  constructor
  · intro hsame
    refine ⟨?_, htrail ▸ hsame.auditTrail⟩
    intro hempty
    -- an empty branch is read as `main`
    have hmain := hsame.branch
    rw [hbranch, if_pos hempty, hempty] at hmain
    exact absurd hmain (by decide)
  · rintro ⟨hne, htrail'⟩
    exact ⟨hprompt, hstate, hrequester, hbranch.trans (if_neg hne), hstandards,
      htrail ▸ htrail'⟩

/-- A computation that succeeds on every element succeeds on the list. -/
theorem mapM_of_forall {α β : Type*} {f : α → Option β} {l : List α}
    (h : ∀ x ∈ l, ∃ y, f x = some y) :
    ∃ ys, l.mapM f = some ys ∧ ∀ y, y ∈ ys ↔ ∃ x ∈ l, f x = some y := by
  induction l with
  | nil => exact ⟨[], rfl, by simp⟩
  | cons x l ih =>
    obtain ⟨y, hy⟩ := h x List.mem_cons_self
    obtain ⟨ys, hys, hmem⟩ := ih fun x' hx' => h x' (List.mem_cons_of_mem x hx')
    refine ⟨y :: ys, ?_, ?_⟩
    · rw [List.mapM_cons, hy, hys]
      rfl
    · intro y'
      rw [List.mem_cons, hmem, List.exists_mem_cons_iff, hy, Option.some.injEq, eq_comm]

/-- **The rebuild succeeds**, with a request of each issue that is listed. -/
theorem rebuildCache_synced (hL : L.Lawful) (h : Synced L rs s) (repos : List String) :
    ∃ items, s.rebuildCache L repos = some (items, s.writeCache items) ∧ ∀ item, item ∈ items ↔
      ∃ repo ∈ repos, ∃ issue ∈ s.fetchIssues repo,
        codeRequestFromIssue L issue repo (fetchComments issue) = some item := by
  have hall : ∀ x ∈ repos.flatMap fun repo => (s.fetchIssues repo).map fun issue => (repo, issue),
      ∃ item, codeRequestFromIssue L x.2 x.1 (fetchComments x.2) = some item := by
    intro x hx
    obtain ⟨repo, -, hx⟩ := List.mem_flatMap.mp hx
    obtain ⟨issue, hissue, rfl⟩ := List.mem_map.mp hx
    obtain ⟨r, item, -, hitem, -⟩ := item_of_issue hL h hissue
    exact ⟨item, hitem⟩
  obtain ⟨items, hitems, hmem⟩ := mapM_of_forall hall
  refine ⟨items, ?_, ?_⟩
  · unfold Store.rebuildCache Store.rebuilt
    rw [hitems]
    rfl
  · intro item
    rw [hmem]
    constructor
    · rintro ⟨x, hx, hitem⟩
      obtain ⟨repo, hrepo, hx⟩ := List.mem_flatMap.mp hx
      obtain ⟨issue, hissue, rfl⟩ := List.mem_map.mp hx
      exact ⟨repo, hrepo, issue, hissue, hitem⟩
    · rintro ⟨repo, hrepo, issue, hissue, hitem⟩
      exact ⟨(repo, issue), List.mem_flatMap.mpr ⟨repo, hrepo, List.mem_map_of_mem hissue⟩, hitem⟩

theorem recoverable_of_rebuilds (hL : L.Lawful) (h : Synced L rs s)
    (hlast : lastStored rs repo n = some r) (hrebuilds : Rebuilds L repos s r) :
    Recoverable repos s r := by
  obtain ⟨rfl, hn⟩ := isOf_of_lastStored hlast
  obtain ⟨items, hrebuild, hmem⟩ := rebuildCache_synced hL h repos
  obtain ⟨items', s', hrebuild', item, hitem, hrepo, hnumber, hsame⟩ := hrebuilds
  obtain ⟨rfl, -⟩ := Prod.mk.inj (Option.some.inj (hrebuild.symm.trans hrebuild'))
  obtain ⟨repo', hrepo', issue, hissue, hfound⟩ := (hmem item).mp hitem
  obtain ⟨r', item', hlast', hfound', hrepository, hnumber', hiff⟩ := item_of_issue hL h hissue
  obtain rfl := Option.some.inj (hfound.symm.trans hfound')
  -- the item is the one of the issue of the request
  obtain rfl := hrepository.symm.trans hrepo
  have hissueNumber : r.issueNumber = some issue.number := hnumber.symm.trans hnumber'
  rw [← Option.some.inj (hn.symm.trans hissueNumber), hlast] at hlast'
  obtain rfl := Option.some.inj hlast'
  obtain ⟨hbranch, hreadable⟩ := hiff.mp hsame
  exact ⟨hrepo', ⟨issue, hissue, hissueNumber⟩, hbranch, hreadable⟩

theorem rebuilds_of_recoverable (hL : L.Lawful) (h : Synced L rs s)
    (hlast : lastStored rs repo n = some r) (hrecoverable : Recoverable repos s r) :
    Rebuilds L repos s r := by
  obtain ⟨rfl, hn⟩ := isOf_of_lastStored hlast
  obtain ⟨items, hrebuild, hmem⟩ := rebuildCache_synced hL h repos
  obtain ⟨hconfigured, ⟨issue, hissue, hissueNumber⟩, hbranch, hreadable⟩ := hrecoverable
  obtain ⟨r', item, hlast', hfound, hrepository, hnumber, hiff⟩ := item_of_issue hL h hissue
  rw [← Option.some.inj (hn.symm.trans hissueNumber), hlast] at hlast'
  obtain rfl := Option.some.inj hlast'
  exact ⟨items, _, hrebuild, item, (hmem item).mpr ⟨_, hconfigured, issue, hissue, hfound⟩,
    hrepository, hnumber.trans hissueNumber.symm, hiff.mpr ⟨hbranch, hreadable⟩⟩

/-- **The cache has the request again exactly if it is recoverable.** -/
theorem rebuilds_iff (hL : L.Lawful) (hfresh : Fresh s₀) (p : Path (StoreStep L repos) s₀ rs s)
    (hlast : lastStored rs repo n = some r) :
    Rebuilds L repos s r ↔ Recoverable repos s r := by
  have hsynced := synced_path hfresh p
  constructor
  · exact recoverable_of_rebuilds hL hsynced hlast
  · exact rebuilds_of_recoverable hL hsynced hlast

/-! ### Two requests -/

/-- A library with the YAML text of one payload; the others are written as JSON. -/
def yamlTable (payload : List (String × Json)) (text : String) : Library where
  safeDump fields :=
    if (Json.obj fields).dumps = (Json.obj payload).dumps then text else (Json.obj fields).dumps
  safeLoad t := if t = Py.strip text then some (.obj payload) else Json.loads t
  str := Json.dumps
  repr s := "'" ++ s ++ "'"

theorem dumps_obj (fields : List (String × Json)) :
    ∃ l, (Json.obj fields).dumps.toList = '{' :: (l ++ ['}']) := by
  have hrest : ∀ fs, ∃ l, Json.renderFields true fs = l ++ ['}'] := by
    intro fs
    induction fs with
    | nil => exact ⟨[], rfl⟩
    | cons x fs ih =>
      obtain ⟨l, hl⟩ := ih
      refine ⟨Json.sep true ',' ++ (Json.renderString x.1 ++ Json.sep true ':' ++
        (x.2.render true ++ l)), ?_⟩
      rw [Json.renderFields, hl]
      simp only [List.append_assoc]
  unfold Json.dumps
  rw [String.toList_ofList]
  cases fields with
  | nil => exact ⟨[], rfl⟩
  | cons x fs =>
    obtain ⟨l, hl⟩ := hrest fs
    refine ⟨Json.renderString x.1 ++ Json.sep true ':' ++ (x.2.render true ++ l), ?_⟩
    rw [Json.render, hl]
    simp only [List.append_assoc]

theorem strip_dumps_obj (fields : List (String × Json)) :
    Py.strip (Json.obj fields).dumps = (Json.obj fields).dumps := by
  obtain ⟨l, hl⟩ := dumps_obj fields
  unfold Py.strip
  rw [Py.stripChars_eq_self, String.ofList_toList]
  · intro c cs h
    rw [← (List.cons.inj (hl.symm.trans h)).1]
    decide
  · intro cs c h
    have heq := (hl.symm.trans h).symm
    rw [← List.cons_append] at heq
    obtain ⟨-, hc⟩ := List.append_inj' heq rfl
    rw [(List.cons.inj hc).1]
    decide

theorem lawful_yamlTable {payload : List (String × Json)} {text : String} {c : Char}
    (htext : text.toList.head? = some c) (hc : Py.isSpace c = false) (hbrace : c ≠ '{')
    (hfence : Char.ofNat 96 ∉ text.toList) : (yamlTable payload text).Lawful := by
  have hstrip : (Py.strip text).toList = Py.stripChars text.toList := String.toList_ofList
  -- the text starts with a character that is not stripped
  obtain ⟨rest, hrest⟩ : ∃ rest, Py.stripChars text.toList = c :: rest := by
    cases hlist : text.toList with
    | nil =>
      rw [hlist] at htext
      cases htext
    | cons d ds =>
      rw [hlist] at htext
      obtain rfl := Option.some.inj htext
      rw [Py.stripChars, List.dropWhile_cons_of_neg (by rw [hc]; decide)]
      cases hdrop : (d :: ds).rdropWhile Py.isSpace with
      | nil =>
        have hall := List.rdropWhile_eq_nil_iff.mp hdrop d List.mem_cons_self
        rw [hc] at hall
        cases hall
      | cons e es =>
        obtain ⟨t, ht⟩ := List.rdropWhile_prefix Py.isSpace (d :: ds)
        rw [hdrop] at ht
        rw [(List.cons.inj ht).1]
        exact ⟨es, rfl⟩
  refine ⟨?_, ?_, ?_⟩
  · intro request
    unfold yamlTable
    dsimp only
    split_ifs with hdump hload
    · have hobj := congrArg Json.loads hdump
      rw [Json.loads_dumps, Json.loads_dumps] at hobj
      exact hobj.symm
    · exact absurd rfl hload
    · rename_i hjson
      rw [strip_dumps_obj] at hjson
      obtain ⟨l, hl⟩ := dumps_obj (frontMatterPayload request)
      rw [hjson, hstrip, hrest] at hl
      exact absurd (List.cons.inj hl).1 hbrace
    · rw [strip_dumps_obj, Json.loads_dumps]
  · intro request
    unfold yamlTable
    dsimp only
    split_ifs with hdump
    · intro hnil
      rw [hnil, hrest] at hstrip
      cases hstrip
    · rw [strip_dumps_obj]
      obtain ⟨l, hl⟩ := dumps_obj (frontMatterPayload request)
      intro hnil
      rw [hnil] at hl
      cases hl
  · intro request
    unfold yamlTable
    dsimp only
    split_ifs with hdump
    · rw [hstrip]
      intro hsub
      have hmem := hsub.subset (show Char.ofNat 96 ∈ "\n```".toList by decide)
      exact hfence ((List.dropWhile_suffix _).subset ((List.rdropWhile_prefix _ _).subset hmem))
    · rw [strip_dumps_obj]
      intro hsub
      have hmem := hsub.subset (show '\n' ∈ "\n```".toList by decide)
      rw [Json.dumps, String.toList_ofList] at hmem
      exact Json.newline_not_mem_render true _ hmem

def pageRequest (branch : String) : CodeRequest where
  id := "cr-unknown-1758794400"
  repository := "Demo"
  title := "Code Request: Add a page"
  issueNumber := none
  issueUrl := none
  state := .draft
  prompt := "Add a page"
  requester := ⟨"alice", .human⟩
  plannerProfileId := none
  executorProfileId := none
  profileSnapshot := none
  boardRoute := .auto
  boardProposal := none
  planEpic := none
  branch := branch
  standards := []
  auditTrail := []
  createdAt := "2026-09-25T10:00:00Z"
  updatedAt := "2026-09-25T10:00:00Z"

/-- The text of its front matter; `branch` is the name of the branch as YAML writes it. -/
def pageText (branch : String) : String :=
  "id: cr-unknown-1758794400\nrepository: Demo\nstate: draft\nboard_route: auto\n" ++
  "board_proposal: null\nplan_epic: null\nplanner_profile_id: null\nexecutor_profile_id: null\n" ++
  "requester:\n  id: alice\n  kind: human\nstandards: []\nbranch: " ++ branch ++ "\n" ++
  "created_at: '2026-09-25T10:00:00Z'\nupdated_at: '2026-09-25T10:00:00Z'\n"

def pageIssue : Issue :=
  ⟨1, "", "", [], [], false, "https://github.com/demo/Demo/issues/1",
    "https://api.github.com/repos/demo/Demo", "demo-app", "Bot", "2026-09-25T10:00:01Z",
    "2026-09-25T10:00:01Z"⟩

def noRequests : Store := ⟨none, fun _ => []⟩

def pageRecord (branch : String) : CodeRequest :=
  { pageRequest branch with
    issueNumber := some 1
    id := "cr-Demo-1"
    issueUrl := some "https://github.com/demo/Demo/issues/1" }

theorem fresh_noRequests : Fresh noRequests :=
  ⟨rfl, fun _ _ h => absurd h List.not_mem_nil, fun _ => List.nodup_nil⟩

theorem admits_page (L : Library) (branch : String) :
    createCodeRequest L ⟨"alice", "human"⟩ (fun _ => none) "2026-09-25T10:00:00Z" "1758794400"
      [("repository", .str "Demo"), ("prompt", .str "Add a page"), ("branch", .str branch)] =
      .ok (pageRequest branch) := by
  have hrepo : Py.strip "Demo" = "Demo" := by decide +kernel
  have hprompt : Py.strip "Add a page" = "Add a page" := by decide +kernel
  have hstate : Py.lower (Py.strip "") = "" := by decide +kernel
  have htype : Py.lower "human" = "human" := by decide +kernel
  have hroute : BoardRoute.ofValue? (Py.lower "auto") = some .auto := by decide +kernel
  have hid : "cr-unknown-" ++ "1758794400" = "cr-unknown-1758794400" := by decide +kernel
  unfold createCodeRequest pageRequest
  simp [List.lookup_cons, Library.text, Library.textOr, optionalText, textList, hrepo, hprompt,
    hstate, htype, hroute, hid]

theorem create_page (L : Library) (branch : String) :
    (noRequests.create L (pageRequest branch) pageIssue).1 = some (pageRecord branch) := by
  have hstart : Py.startsWith "cr-unknown-1758794400" "cr-unknown" = true := by decide +kernel
  have hid : "cr-Demo-" ++ Nat.repr 1 = "cr-Demo-1" := by decide +kernel
  unfold Store.create pageRecord noRequests
  simp [pageRequest, pageIssue, hstart, hid, Store.readCache, currentModels]

def withPage (L : Library) (branch : String) : Store :=
  (noRequests.create L (pageRequest branch) pageIssue).2

theorem path_page (L : Library) (repos : List String) (branch : String) :
    Path (StoreStep L repos) noRequests [some (pageRecord branch)] (withPage L branch) := by
  refine .single ?_
  rw [← create_page L branch]
  exact .create (admits_page L branch) fun i hi => absurd hi List.not_mem_nil

theorem listed_page (L : Library) (branch : String) :
    ∃ issue ∈ (withPage L branch).fetchIssues "Demo", some 1 = some issue.number := by
  unfold withPage Store.create Store.fetchIssues
  simp [noRequests, pageRequest, pageIssue, Store.readCache, currentModels, Store.writeCache,
    labelsOf]

theorem lastStored_page (branch : String) :
    lastStored [some (pageRecord branch)] "Demo" 1 = some (pageRecord branch) := by
  exact (lastStored_some [] _ _ _).trans (if_pos ⟨rfl, rfl⟩)

def pageLibrary (branch yaml : String) : Library :=
  yamlTable (frontMatterPayload (pageRequest branch)) (pageText yaml)

theorem lawful_pageLibrary (branch : String) {yaml : String} (h : Char.ofNat 96 ∉ yaml.toList) :
    (pageLibrary branch yaml).Lawful := by
  refine lawful_yamlTable (c := 'i') ?_ (by decide) (by decide) ?_
  · unfold pageText
    simp only [String.toList_append, List.append_assoc]
    rfl
  · unfold pageText
    simp only [String.toList_append, List.mem_append, not_or]
    refine ⟨⟨⟨⟨⟨?_, ?_⟩, ?_⟩, h⟩, ?_⟩, ?_⟩ <;> decide +kernel

/-- A request with a branch is rebuilt. -/
theorem rebuilds_page : Path (StoreStep (pageLibrary "main" "main") ["Demo"]) noRequests
      [some (pageRecord "main")] (withPage (pageLibrary "main" "main") "main") ∧
    Rebuilds (pageLibrary "main" "main") ["Demo"] (withPage (pageLibrary "main" "main") "main")
      (pageRecord "main") := by
  have hL : (pageLibrary "main" "main").Lawful := lawful_pageLibrary "main" (by decide)
  have hpath := path_page (pageLibrary "main" "main") ["Demo"] "main"
  refine ⟨hpath, (rebuilds_iff hL fresh_noRequests hpath (lastStored_page "main")).mpr ?_⟩
  refine ⟨List.mem_singleton_self _, listed_page _ _, ?_, fun event h => absurd h List.not_mem_nil⟩
  change "main" ≠ ""
  decide

/-- A request without a branch is rebuilt with another one. -/
theorem branch_lost :
    ¬ ∀ (L : Library) (repos : List String) (s₀ s : Store) (rs : List (Option CodeRequest))
      (repo : String) (n : ℕ) (r : CodeRequest), L.Lawful → Fresh s₀ →
      Path (StoreStep L repos) s₀ rs s → lastStored rs repo n = some r → r.repository ∈ repos →
      (∃ issue ∈ s.fetchIssues r.repository, r.issueNumber = some issue.number) →
      Rebuilds L repos s r := by
  intro hall
  have hL : (pageLibrary "" "''").Lawful := lawful_pageLibrary "" (by decide)
  have hpath := path_page (pageLibrary "" "''") ["Demo"] ""
  have hrebuilds := hall _ _ _ _ _ _ _ _ hL fresh_noRequests hpath (lastStored_page "")
    (List.mem_singleton_self _) (listed_page _ _)
  have hrecoverable := recoverable_of_rebuilds hL (synced_path fresh_noRequests hpath)
    (lastStored_page "") hrebuilds
  exact hrecoverable.branch rfl

end Runs

end CodeRequests
