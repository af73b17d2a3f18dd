import RunnerDashboard.Deploy.GreenRuns
import RunnerDashboard.Lib.Groups

/-!
# The inventory of check runs

The check runs of a commit are read page by page, or taken from pages that were read before.  What
is incomplete, malformed or of another commit is refused.  Of the runs with one app, suite and name
the one with the highest id is the newest attempt, and only that one is kept.

## Main results

* `attemptOf_ok` — what is accepted of a run.
* `normalizeLatestCheckRuns_ok` — **the newest attempt of each app, suite and name.**
-/

namespace Deploy

/-! ### Answers of the server -/

/-- A conclusion; `other` is a value that is no text, with its `str(value or "")`. -/
inductive Conclusion
  | null
  | text (s : String)
  | other (s : String)
  deriving DecidableEq

/-- `str(run.get("conclusion") or "")`. -/
def Conclusion.str : Conclusion → String
  | .null => ""
  | .text s => s
  | .other s => s

/-- What `_started_at` finds. -/
inductive StartedAt
  | missing
  | null
  | invalid
  | naive
  | zoned
  deriving DecidableEq

/-- What is wrong with it. -/
def StartedAt.error : StartedAt → Option String
  | .missing => some "check inventory is missing started_at"
  | .null => none
  | .invalid => some "check inventory has an invalid started_at"
  | .naive => some "check inventory started_at must include a timezone"
  | .zoned => none

/-- A record of a page.  A number that is no integer and a text that is none are not there. -/
structure RawRun where
  id : Option ℤ
  name : Option String
  status : Option String
  headSha : Option String
  conclusion : Conclusion
  appId : Option ℤ
  suiteId : Option ℤ
  startedAt : StartedAt
  deriving DecidableEq

/-- What the gate reads. -/
def RawRun.toCheckRun (r : RawRun) : CheckRun :=
  ⟨r.name, r.status, r.conclusion.str, r.headSha.getD ""⟩

def RawRun.key (r : RawRun) : Option ℤ × Option ℤ × Option String := (r.appId, r.suiteId, r.name)

/-- An answer; a record that is `none` is no object. -/
structure Payload where
  totalCount : Option ℤ
  checkRuns : Option (List (Option RawRun))
  deriving DecidableEq

/-- `_PAGE_SIZE` and `MAX_CHECK_RUNS`. -/
def pageSize : ℕ := 100

def maxCheckRuns : ℕ := 5000

/-! ### The newest attempts -/

def positiveId (value : Option ℤ) : Option ℤ := value.filter (0 < ·)

def knownStatuses : List String := pendingStatuses ++ ["completed"]

def validConclusions : List String := passingConclusions ++ failingConclusions ++ ["stale"]

/-- An attempt: its group, its number and its record. -/
structure Attempt where
  key : ℤ × ℤ × String
  id : ℤ
  record : RawRun

/-- A record of `normalize_latest_check_runs`. -/
def attemptOf (sha : String) (record : RawRun) : Except String Attempt :=
  if (validateCheckRunRecord record.toCheckRun).isSome then
    .error "check inventory contains a malformed record"
  else if record.headSha.bind normalizeCommitSha ≠ some sha then
    .error "check inventory belongs to another commit"
  else if record.status.getD "" ∉ knownStatuses then
    .error "check inventory has an invalid status"
  else if record.status = some "completed" ∧
      ∀ s ∈ validConclusions, record.conclusion ≠ .text s then
    .error "check inventory has an invalid completed conclusion"
  else if record.status ≠ some "completed" ∧ record.conclusion ≠ .null then
    .error "pending check inventory record has a conclusion"
  else
    match record.startedAt.error with
    | some err => .error err
    | none =>
      match positiveId record.id, positiveId record.appId, positiveId record.suiteId with
      | some id, some app, some suite => .ok ⟨(app, suite, record.name.getD ""), id, record⟩
      | _, _, _ => .error "check inventory has invalid attempt identity metadata"

def normalizeLatestCheckRuns (checks : List RawRun) (expectedSha : String) :
    Except String (List RawRun) :=
  match normalizeCommitSha expectedSha with
  | none => .error "expected check inventory commit is invalid"
  | some sha => do
    let attempts ← checks.mapM (attemptOf sha)
    .ok ((Groups.newestOfEach Attempt.key Attempt.id attempts).map Attempt.record)

/-! ### The reader -/

def addRecord (sha : String) (checks : List RawRun) : Option RawRun → Except String (List RawRun)
  | none => .error "check inventory contains a malformed record"
  | some record =>
    if (validateCheckRunRecord record.toCheckRun).isSome then
      .error "check inventory contains a malformed record"
    else if positiveId record.id = none ∨ record.id ∈ checks.map RawRun.id then
      .error "check inventory has a missing or duplicate id"
    else if record.headSha ≠ some sha then .error "check inventory belongs to another commit"
    else .ok (checks ++ [record])

/-- The pages from one on, with what was read before. -/
def fetchLoop (get : ℕ → Option Payload) (sha : String) :
    ℕ → ℕ → Option ℤ → List RawRun → Except String (List RawRun)
  | 0, _, _, _ => .error "check inventory exceeds pagination budget"
  | budget + 1, page, expectedTotal, checks =>
    match get page with
    | none => .error "check inventory is not an object"
    | some payload =>
      match payload.totalCount.filter fun total => 0 ≤ total ∧ total ≤ (maxCheckRuns : ℤ) with
      | none => .error "check inventory count is missing or out of bounds"
      | some total =>
        if expectedTotal ≠ none ∧ expectedTotal ≠ some total then
          .error "check inventory changed during pagination"
        else
          match payload.checkRuns.filter fun records =>
              (records.length : ℤ) = min (pageSize : ℤ) (total - checks.length) with
          | none => .error "check inventory page is incomplete"
          | some records => do
            let checks ← records.foldlM (addRecord sha) checks
            if (checks.length : ℤ) = total then normalizeLatestCheckRuns checks sha
            else fetchLoop get sha budget (page + 1) (some total) checks

/-- `fetch_commit_checks`; `get` has the answer for each page. -/
def fetchCommitChecks (get : ℕ → Option Payload) (sha : String) : Except String (List RawRun) :=
  fetchLoop get sha (maxCheckRuns / pageSize) 1 none []

/-! ### Pages that were read before -/

/-- A record of a page of `_flatten_check_runs`. -/
def flattenRecord (flattened : List RawRun) : Option RawRun → Except String (List RawRun)
  | none => .error "page contains an invalid or duplicated check-run identity"
  | some record =>
    if positiveId record.id = none ∨ record.id ∈ flattened.map RawRun.id ∨
        record.headSha.bind normalizeCommitSha = none ∨ Py.strip (record.name.getD "") = "" ∨
        record.status.getD "" ∉ knownStatuses then
      .error "page contains an invalid or duplicated check-run identity"
    else .ok (flattened ++ [record])

/-- A page of `_flatten_check_runs`. -/
def flattenPage (acc : List RawRun × List ℤ) (page : Payload) :
    Except String (List RawRun × List ℤ) :=
  match page.checkRuns, page.totalCount.filter (0 ≤ ·) with
  | some records, some count =>
    if (maxCheckRuns : ℤ) < count then
      .error ("check inventory exceeds the " ++ toString maxCheckRuns ++ " raw-run limit")
    else do
      let flattened ← records.foldlM flattenRecord acc.1
      .ok (flattened, count :: acc.2)
  | _, _ => .error "page is missing a valid check_runs list or total_count"

/-- `_flatten_check_runs`; a payload that is no list is one page. -/
def flattenCheckRuns (pages : List (Option Payload)) (expectedSha : String) :
    Except String (List RawRun) :=
  if pages = [] ∨ none ∈ pages then .error "expected one or more check-run page objects"
  else do
    let (flattened, counts) ← pages.reduceOption.foldlM flattenPage ([], [])
    match counts.dedup with
    | [total] =>
      if (flattened.length : ℤ) ≠ total then
        .error ("incomplete pagination: received " ++ toString flattened.length ++ " of " ++
          toString total ++ " check runs")
      else normalizeLatestCheckRuns flattened expectedSha
    | _ => .error "pagination pages disagree on total_count"

/-! ### What is accepted -/

variable {sha full : String} {r : RawRun} {checks latest : List RawRun}

/-- A record that is of the commit, and either pending without a conclusion or completed with one
that is known. -/
structure RawRun.Accepted (full : String) (r : RawRun) : Prop where
  valid : validateCheckRunRecord r.toCheckRun = none
  head : r.headSha.bind normalizeCommitSha = some full
  status : r.status.getD "" ∈ knownStatuses
  completed : r.status = some "completed" → ∃ s ∈ validConclusions, r.conclusion = .text s
  pending : r.status ≠ some "completed" → r.conclusion = .null
  numbered : ∃ id, r.id = some id

theorem RawRun.Accepted.isOf (h : r.Accepted full) : r.toCheckRun.IsOf full := by
  refine ⟨h.valid, h.status, ?_⟩
  obtain ⟨head, hhead, hfull⟩ := Option.bind_eq_some_iff.mp h.head
  simpa [RawRun.toCheckRun, hhead] using hfull

def RawRun.number (r : RawRun) : ℤ := r.id.getD 0

theorem RawRun.Accepted.id_eq (h : r.Accepted full) : r.id = some r.number := by
  obtain ⟨id, hid⟩ := h.numbered
  rw [RawRun.number, hid, Option.getD_some]

def someKey (k : ℤ × ℤ × String) : Option ℤ × Option ℤ × Option String :=
  (some k.1, some k.2.1, some k.2.2)

theorem someKey_injective : Function.Injective someKey := by
  rintro ⟨app, suite, name⟩ ⟨app', suite', name'⟩ h
  simpa [someKey] using h

/-- **What is accepted of a run.** -/
theorem attemptOf_ok {a : Attempt} (h : attemptOf full r = .ok a) :
    a.record = r ∧ r.Accepted full ∧ a.id = r.number ∧
      r.key = someKey a.key := by
  unfold attemptOf at h
  split at h
  · cases h
  next hvalid =>
  split at h
  · cases h
  next hhead =>
  split at h
  · cases h
  next hstatus =>
  split at h
  · cases h
  next hcompleted =>
  split at h
  · cases h
  next hpending =>
  have haccepted : (∃ id, r.id = some id) → r.Accepted full := by
    refine fun hid => ⟨by simpa using hvalid, not_not.mp hhead, not_not.mp hstatus, fun hs => ?_,
      fun hs => ?_, hid⟩
    · by_contra hnone
      exact hcompleted ⟨hs, fun s hmem heq => hnone ⟨s, hmem, heq⟩⟩
    · by_contra hne
      exact hpending ⟨hs, hne⟩
  have hname : r.name = some (r.name.getD "") := by
    cases hname : r.name with
    | none => simp [validateCheckRunRecord, RawRun.toCheckRun, hname] at hvalid
    | some name => rfl
  split at h
  · cases h
  split at h
  · next id app suite hid happ hsuite =>
    obtain rfl := Except.ok.inj h
    have hid := (Option.filter_eq_some_iff.mp hid).1
    have happ := (Option.filter_eq_some_iff.mp happ).1
    have hsuite := (Option.filter_eq_some_iff.mp hsuite).1
    refine ⟨rfl, haccepted ⟨id, hid⟩, by simp [RawRun.number, hid], ?_⟩
    rw [RawRun.key, someKey, happ, hsuite, ← hname]
  · cases h

theorem mapM_eq_ok {α β : Type} {f : α → Except String β} {xs : List α} {ys : List β}
    (h : xs.mapM f = .ok ys) : List.Forall₂ (fun x y => f x = .ok y) xs ys := by
  induction xs generalizing ys with
  | nil =>
    obtain rfl := Except.ok.inj h
    exact .nil
  | cons x xs ih =>
    rw [List.mapM_cons] at h
    obtain ⟨y, hy, h⟩ := Sql.bind_eq_ok_iff.mp h
    obtain ⟨ys', hys, h⟩ := Sql.bind_eq_ok_iff.mp h
    obtain rfl := Except.ok.inj h
    exact .cons hy (ih hys)

structure Latest (checks latest : List RawRun) : Prop where
  nodup : (latest.map RawRun.key).Nodup
  newest : ∀ y ∈ latest, y ∈ checks ∧ ∀ x ∈ checks, x.key = y.key → x.number ≤ y.number
  covers : ∀ x ∈ checks, ∃ y ∈ latest, y.key = x.key

/-- **The newest attempt of each app, suite and name.** -/
theorem normalizeLatestCheckRuns_ok (h : normalizeLatestCheckRuns checks sha = .ok latest) :
    ∃ full, normalizeCommitSha sha = some full ∧ (∀ r ∈ checks, r.Accepted full) ∧
      Latest checks latest := by
  unfold normalizeLatestCheckRuns at h
  split at h
  · cases h
  next full hfull =>
  obtain ⟨attempts, hattempts, h⟩ := Sql.bind_eq_ok_iff.mp h
  obtain rfl := Except.ok.inj h
  have hall := mapM_eq_ok hattempts
  have hto : ∀ r ∈ checks, ∃ a ∈ attempts, attemptOf full r = .ok a := by
    intro r hr
    obtain ⟨i, hi, rfl⟩ := List.getElem_of_mem hr
    have hlt : i < attempts.length := hall.length_eq ▸ hi
    exact ⟨attempts[i], List.getElem_mem hlt, hall.get hi hlt⟩
  have hfrom : ∀ a ∈ attempts, a.record ∈ checks ∧ a.id = a.record.number ∧
      a.record.key = someKey a.key := by
    intro a ha
    obtain ⟨i, hi, rfl⟩ := List.getElem_of_mem ha
    have hlt : i < checks.length := hall.length_eq ▸ hi
    obtain ⟨hrecord, -, hid, hkey⟩ := attemptOf_ok (hall.get hlt hi)
    simp only [List.get_eq_getElem] at hrecord hid hkey
    rw [hrecord]
    exact ⟨List.getElem_mem hlt, hid, hkey⟩
  -- the keys of the attempts and of their records say the same
  have hkeys : ∀ a ∈ attempts, ∀ b ∈ attempts, a.record.key = b.record.key ↔ a.key = b.key := by
    intro a ha b hb
    rw [(hfrom a ha).2.2, (hfrom b hb).2.2]
    exact someKey_injective.eq_iff
  refine ⟨full, hfull, fun r hr => ?_, ?_, fun y hy => ?_, fun x hx => ?_⟩
  · obtain ⟨a, -, ha⟩ := hto r hr
    exact (attemptOf_ok ha).2.1
  · have hmap : (Groups.newestOfEach Attempt.key Attempt.id attempts).map
          (RawRun.key ∘ Attempt.record) =
        ((Groups.newestOfEach Attempt.key Attempt.id attempts).map Attempt.key).map someKey := by
      rw [List.map_map]
      exact List.map_congr_left fun a ha => (hfrom a (Groups.mem_newestOfEach ha).1).2.2
    rw [List.map_map, hmap]
    exact (Groups.nodup_newestOfEach ..).map someKey_injective
  · obtain ⟨a, ha, rfl⟩ := List.mem_map.mp hy
    obtain ⟨hmem, hle⟩ := Groups.mem_newestOfEach ha
    refine ⟨(hfrom a hmem).1, fun x hx hkey => ?_⟩
    obtain ⟨b, hb, hxb⟩ := hto x hx
    obtain ⟨rfl, -, hid, -⟩ := attemptOf_ok hxb
    rw [← hid, ← (hfrom a hmem).2.1]
    exact hle b hb ((hkeys b hb a hmem).mp hkey)
  · obtain ⟨b, hb, hxb⟩ := hto x hx
    obtain ⟨rfl, -⟩ := attemptOf_ok hxb
    obtain ⟨a, ha, hkey⟩ : ∃ a ∈ Groups.newestOfEach Attempt.key Attempt.id attempts,
        a.key = b.key := Groups.exists_mem_newestOfEach hb
    exact ⟨a.record, List.mem_map_of_mem ha, (hkeys a (Groups.mem_newestOfEach ha).1 b hb).mpr hkey⟩

/-! ### The pages of an inventory -/

variable {checks' : List RawRun} {get : ℕ → Option Payload} {record : Option RawRun}

/-- A record that is put to the others has a number of its own. -/
def Appends (f : List RawRun → Option RawRun → Except String (List RawRun)) : Prop :=
  ∀ checks record checks', f checks record = .ok checks' →
    ∃ r, record = some r ∧ checks' = checks ++ [r] ∧ r.id ∉ checks.map RawRun.id

theorem appends_addRecord (sha : String) : Appends (addRecord sha) := by
  intro checks record checks' h
  unfold addRecord at h
  split at h
  · cases h
  · next r =>
    split_ifs at h with hvalid hid hhead
    exact ⟨r, rfl, (Except.ok.inj h).symm, fun hmem => hid (.inr hmem)⟩

theorem appends_flattenRecord : Appends flattenRecord := by
  intro checks record checks' h
  unfold flattenRecord at h
  split at h
  · cases h
  · next r =>
    split_ifs at h with hbad
    exact ⟨r, rfl, (Except.ok.inj h).symm, fun hmem => hbad (.inr (.inl hmem))⟩

/-- The records of a page are put to the others, and all numbers stay different. -/
theorem Appends.foldlM {f : List RawRun → Option RawRun → Except String (List RawRun)}
    (hf : Appends f) {records : List (Option RawRun)} (h : records.foldlM f checks = .ok checks')
    (hnodup : (checks.map RawRun.id).Nodup) :
    ∃ rs, records = rs.map some ∧ checks' = checks ++ rs ∧ (checks'.map RawRun.id).Nodup := by
  induction records generalizing checks with
  | nil =>
    obtain rfl := Except.ok.inj h
    exact ⟨[], rfl, by simp, hnodup⟩
  | cons record records ih =>
    rw [List.foldlM_cons] at h
    obtain ⟨next, hnext, h⟩ := Sql.bind_eq_ok_iff.mp h
    obtain ⟨r, rfl, rfl, hnew⟩ := hf _ _ _ hnext
    have hnodup' : ((checks ++ [r]).map RawRun.id).Nodup := by
      rw [List.map_append, List.map_singleton, ← List.concat_eq_append, List.nodup_concat]
      exact ⟨hnew, hnodup⟩
    obtain ⟨rs, rfl, rfl, hall⟩ := ih h hnodup'
    exact ⟨r :: rs, rfl, by simp, hall⟩

structure ReadsFrom (get : ℕ → Option Payload) (page : ℕ) (total : ℕ)
    (pages : List (List RawRun)) : Prop where
  nonempty : pages ≠ []
  answers : ∀ i (hi : i < pages.length),
    get (page + i) = some ⟨some total, some (pages[i].map some)⟩ ∧ pages[i].length ≤ pageSize

theorem readsFrom_cons {page total : ℕ} {rs : List RawRun} {pages : List (List RawRun)}
    (hget : get page = some ⟨some total, some (rs.map some)⟩) (hlen : rs.length ≤ pageSize)
    (hrest : pages = [] ∨ ReadsFrom get (page + 1) total pages) :
    ReadsFrom get page total (rs :: pages) := by
  refine ⟨by simp, fun i hi => ?_⟩
  cases i with
  | zero => exact ⟨hget, hlen⟩
  | succ i =>
    rcases hrest with rfl | hrest
    · simp at hi
    · have := hrest.answers i (by simpa using hi)
      rwa [show page + 1 + i = page + (i + 1) by omega] at this

theorem fetchLoop_ok {budget page : ℕ} {expectedTotal : Option ℤ}
    (h : fetchLoop get sha budget page expectedTotal checks = .ok latest)
    (hnodup : (checks.map RawRun.id).Nodup) :
    ∃ total pages, ReadsFrom get page total pages ∧
      (expectedTotal = none ∨ expectedTotal = some (total : ℤ)) ∧
      ((checks ++ pages.flatten).map RawRun.id).Nodup ∧
      (checks ++ pages.flatten).length = total ∧
      normalizeLatestCheckRuns (checks ++ pages.flatten) sha = .ok latest := by
  induction budget generalizing page expectedTotal checks with
  | zero => cases h
  | succ budget ih =>
    unfold fetchLoop at h
    split at h
    · cases h
    next payload hpayload =>
    split at h
    · cases h
    next total htotal =>
    obtain ⟨htotal, hbounds⟩ := Option.filter_eq_some_iff.mp htotal
    obtain ⟨total, rfl⟩ := Int.eq_ofNat_of_zero_le (of_decide_eq_true hbounds).1
    split at h
    · cases h
    next hexpected =>
    split at h
    · cases h
    next records hrecords =>
    obtain ⟨hrecords, hlength⟩ := Option.filter_eq_some_iff.mp hrecords
    obtain ⟨next, hnext, h⟩ := Sql.bind_eq_ok_iff.mp h
    obtain ⟨rs, rfl, rfl, hnodup'⟩ := (appends_addRecord sha).foldlM hnext hnodup
    -- the page was complete, and its runs are new
    have hget : get page = some ⟨some (total : ℤ), some (rs.map some)⟩ := by
      rw [hpayload, ← htotal, ← hrecords]
    have hlen : rs.length ≤ pageSize := by
      have := of_decide_eq_true hlength
      rw [List.length_map] at this
      omega
    have hold : expectedTotal = none ∨ expectedTotal = some (total : ℤ) := by
      by_cases hnone : expectedTotal = none
      · exact .inl hnone
      · exact .inr (not_not.mp fun hne => hexpected ⟨hnone, hne⟩)
    split at h
    · next hdone =>
      refine ⟨total, [rs], readsFrom_cons hget hlen (.inl rfl), hold, ?_, ?_, ?_⟩
      · simpa using hnodup'
      · simpa using Int.ofNat_inj.mp hdone
      · simpa using h
    · obtain ⟨total', pages, hreads, htotal', hall, hlength', hnorm⟩ := ih h hnodup'
      obtain rfl : total' = total := by
        have := htotal'.resolve_left (by simp)
        exact (Int.ofNat_inj.mp (Option.some.inj this)).symm
      refine ⟨total', rs :: pages, readsFrom_cons hget hlen (.inr hreads), hold, ?_, ?_, ?_⟩
      · simpa using hall
      · simpa using hlength'
      · simpa using hnorm

/-- **The pages of an inventory that was read.** -/
theorem fetchCommitChecks_ok (h : fetchCommitChecks get sha = .ok latest) :
    ∃ total pages, ReadsFrom get 1 total pages ∧ (pages.flatten.map RawRun.id).Nodup ∧
      pages.flatten.length = total ∧ normalizeLatestCheckRuns pages.flatten sha = .ok latest := by
  obtain ⟨total, pages, hreads, -, hrest⟩ := fetchLoop_ok h List.nodup_nil
  exact ⟨total, pages, hreads, hrest⟩

def recordsOf (pages : List Payload) : List (Option RawRun) :=
  pages.flatMap fun page => page.checkRuns.getD []

theorem foldlM_flattenPage {pages : List Payload} {acc acc' : List RawRun × List ℤ}
    (h : pages.foldlM flattenPage acc = .ok acc') (hnodup : (acc.1.map RawRun.id).Nodup) :
    ∃ rs, recordsOf pages = rs.map some ∧ acc'.1 = acc.1 ++ rs ∧
      (acc'.1.map RawRun.id).Nodup := by
  induction pages generalizing acc with
  | nil =>
    obtain rfl := Except.ok.inj h
    exact ⟨[], rfl, by simp, hnodup⟩
  | cons page pages ih =>
    rw [List.foldlM_cons] at h
    obtain ⟨next, hnext, h⟩ := Sql.bind_eq_ok_iff.mp h
    unfold flattenPage at hnext
    split at hnext
    · next records count hrecords _ =>
      split at hnext
      · cases hnext
      · obtain ⟨flattened, hflattened, hnext⟩ := Sql.bind_eq_ok_iff.mp hnext
        obtain rfl := Except.ok.inj hnext
        obtain ⟨rs, rfl, rfl, hnodup'⟩ := appends_flattenRecord.foldlM hflattened hnodup
        obtain ⟨rs', hrs', hacc, hall⟩ := ih h hnodup'
        refine ⟨rs ++ rs', ?_, by simpa using hacc, hall⟩
        rw [recordsOf, List.flatMap_cons, hrecords, List.map_append, ← hrs']
        rfl
    · cases hnext

/-- **The records of pages that were accepted.** -/
theorem flattenCheckRuns_ok {pages : List (Option Payload)}
    (h : flattenCheckRuns pages sha = .ok latest) :
    ∃ flattened, recordsOf pages.reduceOption = flattened.map some ∧
      (flattened.map RawRun.id).Nodup ∧ normalizeLatestCheckRuns flattened sha = .ok latest := by
  unfold flattenCheckRuns at h
  split at h
  · cases h
  · obtain ⟨⟨flattened, counts⟩, hfold, h⟩ := Sql.bind_eq_ok_iff.mp h
    obtain ⟨rs, hrs, hflattened, hnodup⟩ := foldlM_flattenPage hfold List.nodup_nil
    obtain rfl : flattened = rs := by simpa using hflattened
    dsimp only at h
    split at h
    · split_ifs at h with hcount
      exact ⟨flattened, hrs, hnodup, h⟩
    · cases h

end Deploy
