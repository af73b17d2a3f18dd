import Mathlib.Algebra.Order.Field.Rat
import Mathlib.Logic.Function.Basic
import RunnerDashboard.Lib.Path
import RunnerDashboard.Lib.PyStr
import RunnerDashboard.Lib.Table

/-!
# The locks of the CI-fix sessions

One row for each pull request under repair.  A session acquires the row in a transaction, and the
row ends with its deadline or with the run that is attached to it.  A run is attached, and a row
released, by the pull request alone; a reader deletes the rows that have ended, one by one, by the
deadlines it read.

## Main results

* `kept` — **in a run of guarded steps a session keeps its lock, no other one acquires it, and a
  run is attached to a row of its own session only**.
-/

namespace CiFixLocks

/-! ### Rows -/

/-- `_key`: the repository without case, and the pull request. -/
abbrev Key := String × Int

def lockKey (lower : String → String) (repo : String) (prNumber : Int) : Key :=
  (lower (Py.strip repo), prNumber)

/-- A row of `ci_fix_locks`.  `session` and `serial` are no columns: the session that acquired the
row, and the number of the acquisition. -/
structure Row where
  repoDisplay : String
  sessionId : String
  runId : String := ""
  deadline : ℚ
  session : ℕ
  serial : ℕ
  deriving DecidableEq

/-- `ci_fix_locks`. -/
abbrev LockTable := Sql.Table Key Row

/-- `_ended`.  The probe says `none` where there is no `run_is_live`, or where it raises. -/
def ended (probe : String → Option Bool) (r : Row) (now : ℚ) : Bool :=
  r.deadline ≤ now || (r.runId ≠ "" && probe r.runId = some false)

/-- `acquire` with the row to insert; `none` where it returns `False`. -/
def acquire (probe : String → Option Bool) (t : LockTable) (key : Key) (row : Row) (now : ℚ) :
    Option LockTable :=
  match t.get? key with
  | some r =>
    if ended probe r now then
      some ((t.delete fun k r' => k = key && r'.deadline = r.deadline).insertNew key row)
    else none
  | none => some (t.insertNew key row)

def attachRun (t : LockTable) (key : Key) (runId : String) : LockTable × Bool :=
  (t.update (fun k _ => k = key) fun _ r => { r with runId := runId },
    0 < t.count fun k _ => k = key)

def release (t : LockTable) (key : Key) : LockTable × Bool :=
  (t.delete fun k _ => k = key, 0 < t.count fun k _ => k = key)

def deleteRead (t : LockTable) (x : Key × Row) : LockTable :=
  t.delete fun k r => k = x.1 && r.deadline = x.2.deadline

/-! ### Sessions and readers -/

/-- `_live_rows` outside of `acquire`: the rows that were read and not yet looked at, the time that
was read after them, and those that go to the caller. -/
structure Scan where
  rows : List (Key × Row)
  now : Option ℚ := none
  live : List (Key × Row) := []

/-- What a session may rely on: its lock, with the deadline and the run that it attached. -/
structure Hold where
  session : ℕ
  serial : ℕ
  deadline : ℚ
  runId : String := ""
  deriving DecidableEq

/-- The store, the clock, the runs, and the readers under way.  `acquired` counts the acquisitions,
and `holds` follows the calls of the sessions; the program keeps neither. -/
structure System where
  table : LockTable
  clock : ℚ
  runIsLive : String → Bool
  scans : ℕ → Option Scan
  acquired : ℕ
  holds : Key → Option Hold

inductive Act
  | acquire (session : ℕ) (key : Key) (granted : Bool)
  | attachRun (session : ℕ) (key : Key) (runId : String)
  | release (session : ℕ) (key : Key)
  | fetch (call : ℕ)
  | readClock (call : ℕ)
  | delete (call : ℕ)
  | live (call : ℕ)
  | done (call : ℕ)
  | advance (now : ℚ)
  | endRun (runId : String)

def unexpired (now : ℚ) (holds : Key → Option Hold) (k : Key) : Option Hold :=
  (holds k).filter fun h => now < h.deadline

def withRun (runIsLive : String → Bool) (session : ℕ) (runId : String) (h : Hold) : Option Hold :=
  if h.session = session then
    if runId = "" || runIsLive runId then some { h with runId := runId } else none
  else some h

def Truthful (probe : String → Option Bool) (runIsLive : String → Bool) : Prop :=
  ∀ r b, probe r = some b → runIsLive r = b

/-- The steps of the sessions and the readers, in any order; `lower` is `str.lower`. -/
inductive Step (lower : String → String) : System → Act → System → Prop
  | acquired (s : System) (i : ℕ) (repo : String) (prNumber : Int) (sessionId : String)
      {ttl later : ℚ}
      {probe : String → Option Bool} {t : LockTable} (httl : 0 < ttl) (hlater : s.clock ≤ later)
      (hprobe : Truthful probe s.runIsLive)
      (h : acquire probe s.table (lockKey lower repo prNumber)
        ⟨repo, sessionId, "", later + ttl, i, s.acquired⟩ s.clock = some t) :
      Step lower s (.acquire i (lockKey lower repo prNumber) true)
        { s with
          table := t
          clock := later
          acquired := s.acquired + 1
          holds := Function.update (unexpired later s.holds) (lockKey lower repo prNumber)
            (some ⟨i, s.acquired, later + ttl, ""⟩) }
  | busy (s : System) (i : ℕ) (repo : String) (prNumber : Int) (row : Row)
      {probe : String → Option Bool} (hprobe : Truthful probe s.runIsLive)
      (h : acquire probe s.table (lockKey lower repo prNumber) row s.clock = none) :
      Step lower s (.acquire i (lockKey lower repo prNumber) false) s
  | attachRun (s : System) (i : ℕ) (repo : String) (prNumber : Int) (runId : String) :
      Step lower s (.attachRun i (lockKey lower repo prNumber) runId)
        { s with
          table := (attachRun s.table (lockKey lower repo prNumber) runId).1
          holds := Function.update s.holds (lockKey lower repo prNumber)
            ((s.holds (lockKey lower repo prNumber)).bind (withRun s.runIsLive i runId)) }
  | release (s : System) (i : ℕ) (repo : String) (prNumber : Int) :
      Step lower s (.release i (lockKey lower repo prNumber))
        { s with
          table := (release s.table (lockKey lower repo prNumber)).1
          holds := Function.update s.holds (lockKey lower repo prNumber)
            ((s.holds (lockKey lower repo prNumber)).filter fun h => h.session ≠ i) }
  /-- The `SELECT` of `get_lock_info` or `list_locks`. -/
  | fetch (s : System) (c : ℕ) (key : Option Key) (h : s.scans c = none) :
      Step lower s (.fetch c)
        { s with
          scans := Function.update s.scans c
            (some { rows := s.table.matching fun k _ => key.all fun key => k = key }) }
  | readClock (s : System) (c : ℕ) {scan : Scan} (h : s.scans c = some scan)
      (hnow : scan.now = none) :
      Step lower s (.readClock c)
        { s with
          scans := Function.update s.scans c (some { scan with now := some s.clock }) }
  /-- The next row has ended. -/
  | delete (s : System) (c : ℕ) {scan : Scan} {now : ℚ} {x : Key × Row} {rest : List (Key × Row)}
      {probe : String → Option Bool} (h : s.scans c = some scan) (hnow : scan.now = some now)
      (hrows : scan.rows = x :: rest) (hprobe : Truthful probe s.runIsLive)
      (hended : ended probe x.2 now = true) :
      Step lower s (.delete c)
        { s with
          table := deleteRead s.table x
          scans := Function.update s.scans c (some { scan with rows := rest }) }
  /-- The next row goes to the caller. -/
  | live (s : System) (c : ℕ) {scan : Scan} {now : ℚ} {x : Key × Row} {rest : List (Key × Row)}
      {probe : String → Option Bool} (h : s.scans c = some scan) (hnow : scan.now = some now)
      (hrows : scan.rows = x :: rest) (hprobe : Truthful probe s.runIsLive)
      (hended : ended probe x.2 now = false) :
      Step lower s (.live c)
        { s with
          scans := Function.update s.scans c
            (some { scan with rows := rest, live := scan.live ++ [x] }) }
  | done (s : System) (c : ℕ) {scan : Scan} (h : s.scans c = some scan) (hrows : scan.rows = []) :
      Step lower s (.done c) { s with scans := Function.update s.scans c none }
  | advance (s : System) (now : ℚ) (h : s.clock ≤ now) :
      Step lower s (.advance now) { s with clock := now, holds := unexpired now s.holds }
  | endRun (s : System) (runId : String) :
      Step lower s (.endRun runId)
        { s with
          runIsLive := Function.update s.runIsLive runId false
          holds := fun k => (s.holds k).filter fun h => h.runId = "" || h.runId ≠ runId }

/-- No row, reader or hold. -/
def initial (clock : ℚ) (runIsLive : String → Bool) : System :=
  ⟨Sql.Table.empty, clock, runIsLive, fun _ => none, 0, fun _ => none⟩

/-- A session attaches to and releases its own row only, and a reader that deletes a row before its
deadline deletes the row that it read. -/
def Guarded (s : System) : Act → Prop
  | .attachRun i key _ => ∀ r, s.table.get? key = some r → r.session = i
  | .release i key => ∀ r, s.table.get? key = some r → r.session = i
  | .delete c => ∀ scan x rest now r, s.scans c = some scan → scan.rows = x :: rest →
      scan.now = some now → now < x.2.deadline → s.table.get? x.1 = some r →
      r.deadline = x.2.deadline → r.serial = x.2.serial ∧ r.runId = x.2.runId
  | _ => True

/-! ### What a session may rely on -/

section Rows

variable {t : LockTable} {key k : Key} {r : Row} {now : ℚ} {probe : String → Option Bool}

theorem get?_attachRun (t : LockTable) (key : Key) (runId : String) (k : Key) :
    (attachRun t key runId).1.get? k =
      (t.get? k).map fun r => if k = key then { r with runId := runId } else r := by
  rw [attachRun, Sql.Table.get?_update]
  simp

theorem get?_release (t : LockTable) (key k : Key) :
    (release t key).1.get? k = (t.get? k).filter fun _ => k ≠ key := by
  rw [release, Sql.Table.get?_delete]
  simp

theorem get?_deleteRead (t : LockTable) (x : Key × Row) (k : Key) :
    (deleteRead t x).get? k = (t.get? k).filter fun r => !(k = x.1 && r.deadline = x.2.deadline) :=
  Sql.Table.get?_delete _ _ _

theorem acquire_of_none (h : t.get? key = none) {row : Row} :
    acquire probe t key row now = some (t.insertNew key row) := by
  unfold acquire
  rw [h]

/-- A row that is acquired stands under its key, and the others are left alone. -/
theorem get?_of_acquire {row : Row} {t' : LockTable} (h : acquire probe t key row now = some t') :
    t'.get? key = some row ∧ ∀ k ≠ key, t'.get? k = t.get? k := by
  unfold acquire at h
  split at h
  · next r hr =>
    split at h
    · obtain rfl := Option.some.inj h
      have hnone : (t.delete fun k r' => k = key && r'.deadline = r.deadline).get? key = none := by
        rw [Sql.Table.get?_delete, hr]
        simp
      refine ⟨?_, fun k hk => ?_⟩
      · rw [Sql.Table.get?_insertNew, hnone]
        simp
      · rw [Sql.Table.get?_insertNew, if_neg hk, Sql.Table.get?_delete]
        cases t.get? k with
        | none => rfl
        | some r' => simp [hk]
    · exact absurd h (by simp)
  · next hnone =>
    obtain rfl := Option.some.inj h
    refine ⟨?_, fun k hk => ?_⟩
    · rw [Sql.Table.get?_insertNew, hnone]
      simp
    · rw [Sql.Table.get?_insertNew, if_neg hk]

end Rows

/-! ### What a session may rely on -/

structure Hold.Of (h : Hold) (r : Row) : Prop where
  session : r.session = h.session
  serial : r.serial = h.serial
  deadline : r.deadline = h.deadline
  runId : r.runId = h.runId

/-- A hold has its row, and the row has not ended. -/
structure KeptAt (t : LockTable) (clock : ℚ) (runIsLive : String → Bool) (k : Key) (h : Hold) :
    Prop where
  row : ∃ r, t.get? k = some r ∧ h.Of r
  unexpired : clock < h.deadline
  live : h.runId = "" ∨ runIsLive h.runId = true

structure Kept (t : LockTable) (clock : ℚ) (runIsLive : String → Bool) (holds : Key → Option Hold) :
    Prop where
  keptAt : ∀ k h, holds k = some h → KeptAt t clock runIsLive k h

section Kept

variable {t t' : LockTable} {clock : ℚ} {runIsLive : String → Bool} {holds : Key → Option Hold}
  {key k : Key} {h : Hold} {probe : String → Option Bool} {i : ℕ} {runId : String}

theorem KeptAt.of_get? (hk : KeptAt t clock runIsLive k h) (hget : t'.get? k = t.get? k) :
    KeptAt t' clock runIsLive k h :=
  ⟨by rw [hget]; exact hk.row, hk.unexpired, hk.live⟩

theorem KeptAt.not_ended (hk : KeptAt t clock runIsLive k h) (hprobe : Truthful probe runIsLive)
    {r : Row} (hr : h.Of r) : ended probe r clock = false := by
  have hlive : r.runId = "" ∨ probe r.runId ≠ some false := by
    rcases hk.live with hempty | htrue
    · exact .inl (hr.runId.trans hempty)
    · refine .inr fun hdead => ?_
      rw [hr.runId] at hdead
      rw [hprobe _ _ hdead] at htrue
      exact absurd htrue (by simp)
  have hdeadline : ¬ r.deadline ≤ clock := by
    rw [hr.deadline]
    exact hk.unexpired.not_ge
  simp only [ended, decide_eq_false hdeadline, Bool.false_or, Bool.and_eq_false_iff,
    decide_eq_false_iff_not, not_not]
  exact hlive

/-- **A row that is held is not acquired.** -/
theorem acquire_of_held (hk : KeptAt t clock runIsLive k h) (hprobe : Truthful probe runIsLive)
    (row : Row) : acquire probe t k row clock = none := by
  obtain ⟨r, hget, hr⟩ := hk.row
  unfold acquire
  rw [hget]
  dsimp only
  rw [hk.not_ended hprobe hr]
  rfl

theorem unexpired_eq_some_iff {now : ℚ} :
    unexpired now holds k = some h ↔ holds k = some h ∧ now < h.deadline := by
  simp [unexpired, Option.filter_eq_some_iff]

theorem Kept.advance (hs : Kept t clock runIsLive holds) (now : ℚ) :
    Kept t now runIsLive (unexpired now holds) := by
  refine ⟨fun k h hhold => ?_⟩
  obtain ⟨hh, hlt⟩ := unexpired_eq_some_iff.mp hhold
  exact ⟨(hs.keptAt k h hh).row, hlt, (hs.keptAt k h hh).live⟩

theorem Kept.acquired {repo sessionId : String} {deadline now : ℚ} {serial : ℕ}
    (hs : Kept t clock runIsLive holds)
    (ht : acquire probe t key ⟨repo, sessionId, "", deadline, i, serial⟩ now = some t')
    (hdeadline : clock < deadline) :
    Kept t' clock runIsLive (Function.update holds key (some ⟨i, serial, deadline, ""⟩)) := by
  obtain ⟨hnew, hothers⟩ := get?_of_acquire ht
  refine ⟨fun k h hhold => ?_⟩
  by_cases hk : k = key
  · subst hk
    rw [Function.update_self, Option.some.injEq] at hhold
    subst hhold
    exact ⟨⟨_, hnew, rfl, rfl, rfl, rfl⟩, hdeadline, .inl rfl⟩
  · rw [Function.update_of_ne hk] at hhold
    exact (hs.keptAt k h hhold).of_get? (hothers k hk)

theorem withRun_eq_some_iff {h₀ : Hold} :
    withRun runIsLive i runId h₀ = some h ↔
      h₀.session = i ∧ (runId = "" ∨ runIsLive runId = true) ∧ { h₀ with runId := runId } = h ∨
        h₀.session ≠ i ∧ h₀ = h := by
  unfold withRun
  by_cases hi : h₀.session = i
  · by_cases hrun : runId = "" ∨ runIsLive runId = true
    · simp [hi, hrun]
    · simp [hi, hrun]
  · simp [hi]

theorem Kept.attachRun (hs : Kept t clock runIsLive holds)
    (hown : ∀ r, t.get? key = some r → r.session = i) :
    Kept (attachRun t key runId).1 clock runIsLive
      (Function.update holds key ((holds key).bind (withRun runIsLive i runId))) := by
  refine ⟨fun k h hhold => ?_⟩
  by_cases hk : k = key
  · subst hk
    rw [Function.update_self, Option.bind_eq_some_iff] at hhold
    obtain ⟨h₀, hh₀, hrun⟩ := hhold
    obtain ⟨⟨r, hr, hof⟩, hlt, -⟩ := hs.keptAt k h₀ hh₀
    rcases withRun_eq_some_iff.mp hrun with ⟨-, hlive, rfl⟩ | ⟨hi, -⟩
    · refine ⟨⟨{ r with runId := runId }, ?_, hof.session, hof.serial, hof.deadline,
        rfl⟩, hlt, hlive⟩
      rw [get?_attachRun, hr, Option.map_some, if_pos rfl]
    · -- the row is of the session that attaches
      exact absurd (hof.session.symm.trans (hown r hr)) hi
  · rw [Function.update_of_ne hk] at hhold
    apply (hs.keptAt k h hhold).of_get?
    rw [get?_attachRun]
    simp [hk]

theorem Kept.release (hs : Kept t clock runIsLive holds)
    (hown : ∀ r, t.get? key = some r → r.session = i) :
    Kept (release t key).1 clock runIsLive
      (Function.update holds key ((holds key).filter fun h => h.session ≠ i)) := by
  refine ⟨fun k h hhold => ?_⟩
  by_cases hk : k = key
  · subst hk
    rw [Function.update_self, Option.filter_eq_some_iff] at hhold
    obtain ⟨r, hr, hof⟩ := (hs.keptAt k h hhold.1).row
    exact absurd (hof.session.symm.trans (hown r hr)) (of_decide_eq_true hhold.2)
  · rw [Function.update_of_ne hk] at hhold
    apply (hs.keptAt k h hhold).of_get?
    rw [get?_release]
    cases t.get? k with
    | none => rfl
    | some r => simp [hk]

theorem Kept.deleteRead {x : Key × Row} {now : ℚ} (hs : Kept t clock runIsLive holds)
    (hprobe : Truthful probe runIsLive) (hended : ended probe x.2 now = true) (hnow : now ≤ clock)
    (hread : ∀ r, now < x.2.deadline → t.get? x.1 = some r → r.deadline = x.2.deadline →
      r.runId = x.2.runId) :
    Kept (deleteRead t x) clock runIsLive holds := by
  refine ⟨fun k h hhold => ?_⟩
  have hkept := hs.keptAt k h hhold
  apply hkept.of_get?
  obtain ⟨r, hr, hof⟩ := hkept.row
  rw [get?_deleteRead, hr, Option.filter_some, if_pos]
  by_contra hdeleted
  simp only [Bool.not_eq_true, Bool.not_eq_false', Bool.and_eq_true, decide_eq_true_eq] at hdeleted
  obtain ⟨rfl, hdeadline⟩ := hdeleted
  -- it has not expired, so its run has ended
  have hbefore : now < x.2.deadline := by
    rw [← hdeadline, hof.deadline]
    exact hnow.trans_lt hkept.unexpired
  have hnot := hkept.not_ended hprobe hof
  have hrun := hread r hbefore hr hdeadline
  simp only [ended, decide_eq_false hbefore.not_ge, Bool.false_or] at hended
  rw [ended, hrun, hended, Bool.or_true] at hnot
  exact absurd hnot (by simp)

theorem Kept.endRun (hs : Kept t clock runIsLive holds) (runId : String) :
    Kept t clock (Function.update runIsLive runId false)
      fun k => (holds k).filter fun h => h.runId = "" || h.runId ≠ runId := by
  refine ⟨fun k h hhold => ?_⟩
  obtain ⟨hh, hrun⟩ := Option.filter_eq_some_iff.mp hhold
  obtain ⟨hrow, hlt, hlive⟩ := hs.keptAt k h hh
  refine ⟨hrow, hlt, ?_⟩
  by_cases hempty : h.runId = ""
  · exact .inl hempty
  · have hne : h.runId ≠ runId := by simpa [hempty] using hrun
    rw [Function.update_of_ne hne]
    exact .inr (hlive.resolve_left hempty)

end Kept

/-! ### Runs -/

/-- No reader has read a later time than `now`. -/
def ReadBy (scans : ℕ → Option Scan) (now : ℚ) : Prop :=
  ∀ c scan n, scans c = some scan → scan.now = some n → n ≤ now

theorem ReadBy.update {scans : ℕ → Option Scan} {now : ℚ} (h : ReadBy scans now) (c : ℕ)
    {next : Option Scan} (hnext : ∀ scan n, next = some scan → scan.now = some n → n ≤ now) :
    ReadBy (Function.update scans c next) now := by
  intro d scan n hscan hn
  by_cases hd : d = c
  · subst hd
    rw [Function.update_self] at hscan
    exact hnext scan n hscan hn
  · rw [Function.update_of_ne hd] at hscan
    exact h d scan n hscan hn

/-- Every hold is kept, and the readers have read no later time than it is. -/
structure Sound (s : System) : Prop where
  kept : Kept s.table s.clock s.runIsLive s.holds
  read : ReadBy s.scans s.clock

theorem sound_initial (clock : ℚ) (runIsLive : String → Bool) : Sound (initial clock runIsLive) :=
  ⟨⟨fun _ _ h => absurd h (by simp [initial])⟩, fun _ _ _ h => absurd h (by simp [initial])⟩

section Runs

variable {lower : String → String} {s s' : System} {act : Act}

theorem sound_mk {t : LockTable} {clock : ℚ} {runIsLive : String → Bool} {scans : ℕ → Option Scan}
    {acquired : ℕ} {holds : Key → Option Hold} (hkept : Kept t clock runIsLive holds)
    (hread : ReadBy scans clock) : Sound ⟨t, clock, runIsLive, scans, acquired, holds⟩ :=
  ⟨hkept, hread⟩

/-- **A guarded step leaves each session what it may rely on.** -/
theorem sound_step (hs : Sound s) (hstep : Step lower s act s') (hg : Guarded s act) :
    Sound s' := by
  have hread := hs.read
  cases hstep with
  | @acquired i repo prNumber sessionId ttl later probe t httl hlater hprobe h =>
    have hkept := (hs.kept.advance later).acquired h (lt_add_of_pos_right later httl)
    exact sound_mk hkept fun c scan n hscan hn => (hread c scan n hscan hn).trans hlater
  | busy => exact hs
  | attachRun i repo prNumber runId => exact sound_mk (hs.kept.attachRun hg) hread
  | release i repo prNumber => exact sound_mk (hs.kept.release hg) hread
  | fetch c key hc =>
    refine sound_mk hs.kept (hread.update c ?_)
    rintro scan n ⟨⟩ hn
    exact absurd hn (by simp)
  | readClock c hc hnone =>
    refine sound_mk hs.kept (hread.update c ?_)
    rintro scan n ⟨⟩ hn
    exact (Option.some.inj hn).ge
  | @delete c scan now x rest probe hc hnow hrows hprobe hended =>
    refine sound_mk (hs.kept.deleteRead hprobe hended (hread c scan now hc hnow) ?_)
      (hread.update c ?_)
    · intro r hbefore hr hdeadline
      exact (hg scan x rest now r hc hrows hnow hbefore hr hdeadline).2
    · rintro scan' n ⟨⟩ hn
      exact hread c scan n hc hn
  | @live c scan now x rest probe hc hnow hrows hprobe hended =>
    refine sound_mk hs.kept (hread.update c ?_)
    rintro scan' n ⟨⟩ hn
    exact hread c scan n hc hn
  | done c hc hrows => exact sound_mk hs.kept (hread.update c (fun _ _ h => absurd h (by simp)))
  | advance now hnow =>
    exact sound_mk (hs.kept.advance now) fun c scan n hscan hn =>
      (hread c scan n hscan hn).trans hnow
  | endRun runId => exact sound_mk (hs.kept.endRun runId) hread

theorem attached_of_guarded {i : ℕ} {key : Key} {runId : String}
    (hstep : Step lower s (.attachRun i key runId) s') (hg : Guarded s (.attachRun i key runId))
    {k : Key} {r' : Row} (hr' : s'.table.get? k = some r') :
    s.table.get? k = some r' ∨ r'.session = i := by
  cases hstep with
  | attachRun _ repo prNumber _ =>
    rw [get?_attachRun, Option.map_eq_some_iff] at hr'
    obtain ⟨r, hr, rfl⟩ := hr'
    by_cases hk : k = lockKey lower repo prNumber
    · subst hk
      rw [if_pos rfl]
      exact .inr (hg r hr)
    · rw [if_neg hk]
      exact .inl hr

/-- **In a run of guarded steps a session keeps its lock, no other one acquires it, and a run is
attached to a row of its own session only.** -/
theorem kept {clock : ℚ} {runIsLive : String → Bool} {acts : List Act}
    (p : Lts.Path (fun s a s' => Step lower s a s' ∧ Guarded s a) (initial clock runIsLive)
      acts s) :
    (∀ k h, s.holds k = some h → KeptAt s.table s.clock s.runIsLive k h) ∧
      (∀ i k s', Step lower s (.acquire i k true) s' → s.holds k = none) ∧
      ∀ i key runId s', Step lower s (.attachRun i key runId) s' →
        Guarded s (.attachRun i key runId) →
        ∀ k r', s'.table.get? k = some r' → s.table.get? k = some r' ∨ r'.session = i := by
  have hs : Sound s :=
    p.invariant (fun _ _ _ hs hstep => sound_step hs hstep.1 hstep.2)
      (sound_initial clock runIsLive)
  refine ⟨hs.kept.keptAt, fun i k s' hstep => ?_,
    fun _ _ _ _ hstep hg _ _ hr' => attached_of_guarded hstep hg hr'⟩
  cases hstep with
  | acquired _ repo prNumber sessionId httl hlater hprobe h =>
    by_contra hheld
    obtain ⟨hold, hhold⟩ := Option.ne_none_iff_exists'.mp hheld
    rw [acquire_of_held (hs.kept.keptAt _ hold hhold) hprobe] at h
    exact absurd h (by simp)

end Runs

/-! ### A late session -/

def demoKey : Key := lockKey Py.lower "o/r" 1

/-- The row that session `i` acquires as the `serial`th, until `deadline`. -/
def demoRow (i serial : ℕ) (deadline : ℚ) : Row := ⟨"o/r", "ci-fix-o/r-1", "", deadline, i, serial⟩

def firstLock : System where
  table := Sql.Table.empty.insertNew demoKey (demoRow 0 0 (0 + 1))
  clock := 0
  runIsLive := fun _ => true
  scans := fun _ => none
  acquired := 1
  holds := Function.update (unexpired 0 fun _ => none) demoKey (some ⟨0, 0, 0 + 1, ""⟩)

def secondLock : System where
  table := (firstLock.table.delete fun k r => k = demoKey && r.deadline = 0 + 1).insertNew demoKey
    (demoRow 1 1 (2 + 10))
  clock := 2
  runIsLive := fun _ => true
  scans := fun _ => none
  acquired := 2
  holds := Function.update (unexpired 2 (unexpired 2 firstLock.holds)) demoKey
    (some ⟨1, 1, 2 + 10, ""⟩)

theorem truthful_silent (runIsLive : String → Bool) : Truthful (fun _ => none) runIsLive :=
  fun _ _ h => absurd h (by simp)

theorem step_firstLock :
    Step Py.lower (initial 0 fun _ => true) (.acquire 0 demoKey true) firstLock :=
  .acquired _ 0 "o/r" 1 "ci-fix-o/r-1" (by decide) le_rfl (truthful_silent _) rfl

theorem get?_firstLock : firstLock.table.get? demoKey = some (demoRow 0 0 (0 + 1)) := by
  decide +kernel

theorem path_secondLock :
    Lts.Path (Step Py.lower) (initial 0 fun _ => true)
      [.acquire 0 demoKey true, .advance 2, .acquire 1 demoKey true] secondLock := by
  apply Lts.Path.cons step_firstLock
  apply Lts.Path.cons (.advance firstLock 2 (by decide))
  have hacquire : acquire (fun _ => none) firstLock.table demoKey (demoRow 1 1 (2 + 10)) 2 =
      some secondLock.table := by
    unfold acquire
    rw [get?_firstLock]
    exact if_pos (by decide +kernel)
  exact .single (.acquired _ 1 "o/r" 1 "ci-fix-o/r-1" (by decide) le_rfl
    (truthful_silent _) hacquire)

/-- Session 0 has its lock, and no other session acquires it. -/
theorem kept_firstLock :
    KeptAt firstLock.table 0 (fun _ => true) demoKey ⟨0, 0, 0 + 1, ""⟩ ∧
      ∀ i s', ¬ Step Py.lower firstLock (.acquire i demoKey true) s' := by
  obtain ⟨hkept, hnone, -⟩ := kept (.single ⟨step_firstLock, trivial⟩)
  have hhold : firstLock.holds demoKey = some ⟨0, 0, 0 + 1, ""⟩ := by decide +kernel
  refine ⟨hkept demoKey _ hhold, fun i s' hstep => ?_⟩
  have habsent := hnone i demoKey s' hstep
  rw [hhold] at habsent
  exact absurd habsent (by simp)

/-- Session 0 is late: the run that it attaches goes to the lock of session 1, and when it releases
this lock, session 2 acquires it. -/
theorem not_kept_late :
    (∃ s r, Lts.Path (Step Py.lower) (initial 0 fun _ => true)
        [.acquire 0 demoKey true, .advance 2, .acquire 1 demoKey true,
          .attachRun 0 demoKey "run0"] s ∧
      s.table.get? demoKey = some r ∧ r.session = 1 ∧ r.runId = "run0") ∧
    ∃ s s', Lts.Path (Step Py.lower) (initial 0 fun _ => true)
        [.acquire 0 demoKey true, .advance 2, .acquire 1 demoKey true, .release 0 demoKey] s ∧
      s.holds demoKey = some ⟨1, 1, 2 + 10, ""⟩ ∧ s.clock = 2 ∧
        Step Py.lower s (.acquire 2 demoKey true) s' := by
  constructor
  · refine ⟨_, { demoRow 1 1 (2 + 10) with runId := "run0" },
      path_secondLock.snoc (.attachRun secondLock 0 "o/r" 1 "run0"), ?_, rfl, rfl⟩
    decide +kernel
  · have hnone : (release secondLock.table demoKey).1.get? demoKey = none := by decide +kernel
    have hone : (0 : ℚ) < 1 := by decide
    exact ⟨_, _, path_secondLock.snoc (.release secondLock 0 "o/r" 1), by decide +kernel, rfl,
      .acquired _ 2 "o/r" 1 "s" hone le_rfl (truthful_silent _) (acquire_of_none hnone)⟩

end CiFixLocks
