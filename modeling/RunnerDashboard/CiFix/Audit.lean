import Mathlib.Data.List.DropRight
import Mathlib.Data.Rat.Defs
import Mathlib.Logic.Function.Basic
import RunnerDashboard.Lib.Path
import RunnerDashboard.Lib.PyStr

/-!
# The audit file of the CI-fix dispatches

One file has all dispatches, oldest first.  A dispatch is recorded by a call that reads the whole
file, truncates it and writes it again with one row more; nothing keeps two calls apart, and a call
may end anywhere.  What cannot be read counts as empty.  The escalation of a pull request follows
the number of its last rows with the same failure.

## Main results

* `exact_of_careful` — **in a run of careful steps the counted streaks are exact**.
-/

namespace CiFixAudit

open Lts

/-! ### The file -/

/-- A row; `costBudget` is the budget after `round(cost_budget, 4)`. -/
structure Entry where
  timestamp : String
  repository : String
  prNumber : Int
  workflowName : String
  runId : Option Int
  failureType : String
  provider : String
  model : String
  attemptNumber : Int
  costBudget : ℚ
  staffRunId : String := ""
  effort : String := ""
  failureSignature : String := ""
  deriving DecidableEq

/-- The file, as what `json.loads` makes of it: `none` where there is no file, and where its text is
no list. -/
abbrev AuditFile := Option (List Entry)

/-- The loop of `count_consecutive_attempts`, over the rows from the newest one; `lower` is
`str.lower`. -/
def countRows (lower : String → String) (repoKey : String) (prNumber : Int) (signature : String) :
    List Entry → ℕ
  | [] => 0
  | e :: es =>
    if lower e.repository ≠ repoKey ∨ e.prNumber ≠ prNumber then
      countRows lower repoKey prNumber signature es
    else if e.failureSignature ≠ signature then 0
    else countRows lower repoKey prNumber signature es + 1

def countConsecutiveAttempts (lower : String → String) (file : AuditFile) (repo : String)
    (prNumber : Int) (signature : String) : ℕ :=
  match file with
  | none => 0
  | some entries =>
    countRows lower (lower (Py.strip repo)) prNumber signature entries.reverse

/-! ### The calls -/

/-- A call of `record_ci_fix_audit`: its row, the rows that it read, and, once it has truncated the
file, whether it has been the only one to write since then. -/
structure Call where
  entry : Entry
  entries : List Entry
  alone : Option Bool := none

/-- The file and the calls under way.  `recorded` are the rows of the calls that were completed; the
program does not keep it. -/
structure System where
  file : AuditFile
  calls : ℕ → Option Call
  recorded : List Entry

/-- A call has truncated the file and not closed it. -/
def System.Writing (s : System) (i : ℕ) : Prop := ∃ c, s.calls i = some c ∧ c.alone.isSome = true

inductive Act
  | read (call : ℕ) (entry : Entry)
  | truncate (call : ℕ)
  | writePart (call : ℕ)
  | close (call : ℕ)
  | stop (call : ℕ)

/-- A call that writes is not alone any more. -/
def Call.joined (c : Call) : Call := { c with alone := c.alone.map fun _ => false }

/-- The steps of the calls, in any order.  A file that several calls write to may be anything. -/
inductive Step : System → Act → System → Prop
  | read (s : System) {i : ℕ} (e : Entry) {entries : List Entry} (hi : s.calls i = none)
      -- an `OSError` is an empty file
      (hentries : entries = s.file.getD [] ∨ entries = []) :
      Step s (.read i e)
        { s with calls := Function.update s.calls i (some ⟨e, entries, none⟩) }
  | truncate (s : System) {i : ℕ} {c : Call} (hi : s.calls i = some c) (hc : c.alone = none)
      (halone : ∀ j, ¬ s.Writing j) :
      Step s (.truncate i)
        { s with
          file := none
          calls := Function.update s.calls i (some { c with alone := some true }) }
  | join (s : System) {i : ℕ} {c : Call} (hi : s.calls i = some c) (hc : c.alone = none)
      (hother : ∃ j, s.Writing j) (file : AuditFile) :
      Step s (.truncate i)
        { s with
          file := file
          calls := Function.update (fun j => (s.calls j).map Call.joined) i
            (some { c with alone := some false }) }
  | writePart (s : System) {i : ℕ} {c : Call} (hi : s.calls i = some c)
      (hc : c.alone = some false) (file : AuditFile) :
      Step s (.writePart i) { s with file := file }
  | close (s : System) {i : ℕ} {c : Call} (hi : s.calls i = some c) (hc : c.alone = some true) :
      Step s (.close i)
        { file := some (c.entries ++ [c.entry])
          calls := Function.update s.calls i none
          recorded := s.recorded ++ [c.entry] }
  | closeMixed (s : System) {i : ℕ} {c : Call} (hi : s.calls i = some c)
      (hc : c.alone = some false) (file : AuditFile) :
      Step s (.close i)
        { file := file
          calls := Function.update s.calls i none
          recorded := s.recorded ++ [c.entry] }
  /-- A crash, or an error of the file system. -/
  | stop (s : System) {i : ℕ} {c : Call} (hi : s.calls i = some c) :
      Step s (.stop i) { s with calls := Function.update s.calls i none }

/-- No call is under way, and the file has the rows that were recorded. -/
structure Start (s : System) : Prop where
  calls : s.calls = fun _ => none
  file : s.file.getD [] = s.recorded
  repository : ∀ e ∈ s.recorded, Py.strip e.repository = e.repository

/-! ### The recorded dispatches -/

/-- A repository without case and surrounding spaces. -/
def repoKey (lower : String → String) (repo : String) : String := lower (Py.strip repo)

/-- The recorded dispatches of a pull request since the last one with another signature. -/
def streak (lower : String → String) (recorded : List Entry) (repo : String) (prNumber : Int)
    (signature : String) : ℕ :=
  ((recorded.filter fun e =>
    repoKey lower e.repository = repoKey lower repo ∧ e.prNumber = prNumber).rtakeWhile
      fun e => e.failureSignature = signature).length

/-- When no call is writing, the counted streaks are those of the recorded dispatches. -/
def Exact (lower : String → String) (s : System) : Prop :=
  (∀ i, ¬ s.Writing i) → ∀ repo prNumber signature,
    countConsecutiveAttempts lower s.file repo prNumber signature =
      streak lower s.recorded repo prNumber signature

/-- A call has read all that was recorded before it truncates the file, no other call is writing
then, and none that is writing ends early where there is something to lose. -/
def Careful (s : System) : Act → Prop
  | .read _ e => Py.strip e.repository = e.repository
  | .truncate i => (∀ j, ¬ s.Writing j) ∧ ∀ c, s.calls i = some c → c.entries = s.recorded
  | .stop i => s.Writing i → s.recorded = []
  | _ => True

variable {lower : String → String} {s t u : System} {i : ℕ} {a : Act} {ls : List Act} {e : Entry}
  {es : List Entry} {repo signature : String} {prNumber : Int}

theorem countRows_eq (hes : ∀ e ∈ es, Py.strip e.repository = e.repository) :
    countRows lower (repoKey lower repo) prNumber signature es =
      ((es.filter fun e =>
        repoKey lower e.repository = repoKey lower repo ∧ e.prNumber = prNumber).takeWhile
          fun e => e.failureSignature = signature).length := by
  induction es with
  | nil => rfl
  | cons e es ih =>
    have hkey : repoKey lower e.repository = lower e.repository := by
      rw [repoKey, hes e List.mem_cons_self]
    have ih := ih fun e he => hes e (List.mem_cons_of_mem _ he)
    by_cases hmine : lower e.repository = repoKey lower repo ∧ e.prNumber = prNumber
    · by_cases hsame : e.failureSignature = signature
      · simp [countRows, hkey, hmine, hsame, ih]
      · simp [countRows, hkey, hmine, hsame]
    · have hskip : ¬ decide (repoKey lower e.repository = repoKey lower repo ∧
          e.prNumber = prNumber) = true := by
        rw [decide_eq_true_eq, hkey]
        exact hmine
      rw [countRows, if_pos (not_and_or.mp hmine), ih, List.filter_cons, if_neg hskip]

/-- **What is counted in a file with some rows.** -/
theorem countConsecutiveAttempts_eq {file : AuditFile}
    (hes : ∀ e ∈ file.getD [], Py.strip e.repository = e.repository) :
    countConsecutiveAttempts lower file repo prNumber signature =
      streak lower (file.getD []) repo prNumber signature := by
  cases file with
  | none => rfl
  | some entries =>
    have hrev : ∀ e ∈ entries.reverse, Py.strip e.repository = e.repository :=
      fun e he => hes e (List.mem_reverse.mp he)
    simp only [countConsecutiveAttempts, Option.getD_some, streak, List.rtakeWhile,
      List.length_reverse, ← List.filter_reverse]
    exact countRows_eq hrev

/-! ### Careful runs -/

/-- What careful steps keep: a call that writes is the only one, and it has read what was
recorded. -/
structure Settled (s : System) : Prop where
  repository : ∀ e ∈ s.recorded, Py.strip e.repository = e.repository
  pending : ∀ i, ∀ c ∈ s.calls i, Py.strip c.entry.repository = c.entry.repository
  quiet : (∀ i, ¬ s.Writing i) → s.file.getD [] = s.recorded
  writer : ∀ i, ∀ c ∈ s.calls i, ∀ b ∈ c.alone,
    b = true ∧ s.file = none ∧ c.entries = s.recorded
  single : ∀ i j, s.Writing i → s.Writing j → i = j

theorem Start.settled (h : Start s) : Settled s where
  repository := h.repository
  pending i c hc := by simp [h.calls] at hc
  quiet _ := h.file
  writer i c hc := by simp [h.calls] at hc
  single i j hi := by
    obtain ⟨c, hc, -⟩ := hi
    simp [h.calls] at hc

theorem Settled.exact (h : Settled s) : Exact lower s := by
  intro hquiet repo prNumber signature
  have hfile := h.quiet hquiet
  rw [countConsecutiveAttempts_eq (hfile ▸ h.repository), hfile]

variable {file : AuditFile} {x : Option Call} {j : ℕ}

theorem writing_update_of_ne (hj : j ≠ i) :
    System.Writing ⟨file, Function.update s.calls i x, es⟩ j ↔ s.Writing j := by
  simp [System.Writing, Function.update_of_ne hj]

theorem writing_update_self :
    System.Writing ⟨file, Function.update s.calls i x, es⟩ i ↔
      ∃ c, x = some c ∧ c.alone.isSome = true := by
  simp [System.Writing]

theorem writing_update (hx : ∀ c ∈ x, c.alone = none) :
    System.Writing ⟨file, Function.update s.calls i x, es⟩ j ↔ j ≠ i ∧ s.Writing j := by
  by_cases hj : j = i
  · subst hj
    rw [writing_update_self]
    simp only [ne_eq, not_true_eq_false, false_and, iff_false, not_exists, not_and]
    intro c hc
    rw [hx c hc]
    decide
  · rw [writing_update_of_ne hj]
    simp [hj]

theorem forall_calls_update {P : Call → Prop} (hx : ∀ c ∈ x, P c)
    (h : ∀ j, j ≠ i → ∀ c ∈ s.calls j, P c) : ∀ j, ∀ c ∈ Function.update s.calls i x j, P c :=
  (Function.forall_update_iff s.calls fun _ d => ∀ c ∈ d, P c).mpr ⟨hx, h⟩

/-- Nothing is lost where a call ends that does not write. -/
theorem Settled.quiet_of_ne (h : Settled s) (hi : ¬ s.Writing i) (hj : ∀ j, j ≠ i → ¬ s.Writing j) :
    s.file.getD [] = s.recorded := by
  refine h.quiet fun j => ?_
  by_cases hji : j = i
  · exact hji ▸ hi
  · exact hj j hji

/-- **A careful step keeps the file in agreement with what was recorded.** -/
theorem settled_step (h : Settled s) (hstep : Step s a t) (hcare : Careful s a) : Settled t := by
  cases hstep with
  | @read i e entries hi hentries =>
    have hnew : ∀ c ∈ some (⟨e, entries, none⟩ : Call), c.alone = none := by simp
    have hidle : ¬ s.Writing i := by simp [System.Writing, hi]
    refine ⟨h.repository, ?_, ?_, ?_, ?_⟩
    · refine forall_calls_update ?_ fun j _ => h.pending j
      rintro c ⟨⟩
      exact hcare
    · intro hquiet
      exact h.quiet_of_ne hidle fun j hj hw => hquiet j ((writing_update hnew).mpr ⟨hj, hw⟩)
    · refine forall_calls_update ?_ fun j _ => h.writer j
      rintro c ⟨⟩ b hb
      cases hb
    · intro j k hj hk
      exact h.single j k ((writing_update hnew).mp hj).2 ((writing_update hnew).mp hk).2
  | @truncate i c hi hc halone =>
    have hself : ∀ {es j}, System.Writing
        ⟨none, Function.update s.calls i (some { c with alone := some true }), es⟩ j → j = i := by
      intro es j hj
      by_contra hne
      exact halone j ((writing_update_of_ne hne).mp hj)
    -- nobody else writes, so the file is that of this call until it ends
    refine ⟨h.repository, ?_, ?_, ?_, fun j k hj hk => (hself hj).trans (hself hk).symm⟩
    · refine forall_calls_update ?_ fun j _ => h.pending j
      rintro d ⟨⟩
      exact h.pending i c hi
    · intro hquiet
      exact absurd (writing_update_self.mpr ⟨_, rfl, rfl⟩) (hquiet i)
    · refine forall_calls_update ?_ fun j _ d hd b hb => absurd ⟨d, hd, ?_⟩ (halone j)
      · rintro d ⟨⟩ b ⟨⟩
        exact ⟨rfl, rfl, hcare.2 c hi⟩
      · rw [hb]
        rfl
  | @join i c hi hc hother file =>
    obtain ⟨j, hj⟩ := hother
    exact absurd hj (hcare.1 j)
  | @writePart i c hi hc file => exact absurd (h.writer i c hi false hc).1 (by decide)
  | @close i c hi hc =>
    obtain ⟨-, -, hentries⟩ := h.writer i c hi true hc
    have hnew : ∀ c ∈ (none : Option Call), c.alone = none := by simp
    have hwriting : s.Writing i := ⟨c, hi, by rw [hc]; rfl⟩
    refine ⟨?_, ?_, ?_, ?_, ?_⟩
    · intro e he
      rcases List.mem_append.mp he with he | he
      · exact h.repository e he
      · rw [List.mem_singleton.mp he]
        exact h.pending i c hi
    · exact forall_calls_update (by simp) fun j _ => h.pending j
    · intro _
      rw [Option.getD_some, hentries]
    · -- the call that ends was the only one that was writing
      refine forall_calls_update (by simp) fun j hj d hd b hb => absurd ?_ hj
      exact h.single j i ⟨d, hd, by rw [hb]; rfl⟩ hwriting
    · intro j k hj hk
      exact h.single j k ((writing_update hnew).mp hj).2 ((writing_update hnew).mp hk).2
  | @closeMixed i c hi hc file => exact absurd (h.writer i c hi false hc).1 (by decide)
  | @stop i c hi =>
    have hnew : ∀ c ∈ (none : Option Call), c.alone = none := by simp
    refine ⟨h.repository, ?_, ?_, ?_, ?_⟩
    · exact forall_calls_update (by simp) fun j _ => h.pending j
    · intro hquiet
      by_cases hwriting : s.Writing i
      · obtain ⟨c, hc, halone⟩ := hwriting
        obtain ⟨b, hb⟩ := Option.isSome_iff_exists.mp halone
        show s.file.getD [] = s.recorded
        rw [(h.writer i c hc b hb).2.1, hcare ⟨c, hc, halone⟩]
        rfl
      · exact h.quiet_of_ne hwriting fun j hj hw => hquiet j ((writing_update hnew).mpr ⟨hj, hw⟩)
    · exact forall_calls_update (by simp) fun j _ => h.writer j
    · intro j k hj hk
      exact h.single j k ((writing_update hnew).mp hj).2 ((writing_update hnew).mp hk).2

def CarefulStep (s : System) (a : Act) (t : System) : Prop := Step s a t ∧ Careful s a

theorem settled_of_path (h : Settled s) (p : Path CarefulStep s ls t) : Settled t :=
  p.invariant (fun _ _ _ hs hstep => settled_step hs hstep.1 hstep.2) h

theorem recorded_stop (hstep : Step s (.stop i) t) : t.recorded = s.recorded := by
  cases hstep
  rfl

/-- **In a run of careful steps the counted streaks are exact,** and a call that ends early resets
none of them. -/
theorem exact_of_careful (hs : Start s) (p : Path CarefulStep s ls t) :
    Exact lower t ∧ ∀ i u, CarefulStep t (.stop i) u → (∀ j, ¬ u.Writing j) →
      ∀ repo prNumber signature, countConsecutiveAttempts lower u.file repo prNumber signature =
        streak lower t.recorded repo prNumber signature := by
  have ht : Settled t := settled_of_path hs.settled p
  refine ⟨ht.exact, fun i u hstep hquiet repo prNumber signature => ?_⟩
  rw [← recorded_stop hstep.1]
  exact (settled_step ht hstep.1 hstep.2).exact hquiet repo prNumber signature

/-- A dispatch for a pull request. -/
def sampleEntry (prNumber : Int) : Entry where
  timestamp := "2026-07-01T12:00:00Z"
  repository := "Runner_Dashboard"
  prNumber := prNumber
  workflowName := "CI"
  runId := some 1
  failureType := "test"
  provider := "claude_code_cli"
  model := "m"
  attemptNumber := 1
  costBudget := 1
  failureSignature := "3f1a"

theorem strip_sampleEntry :
    Py.strip (sampleEntry prNumber).repository = (sampleEntry prNumber).repository := by
  show Py.strip "Runner_Dashboard" = "Runner_Dashboard"
  decide

/-- A file with one row, where no call is under way. -/
def sampleSystem : System := ⟨some [sampleEntry 42], fun _ => none, [sampleEntry 42]⟩

theorem start_sampleSystem : Start sampleSystem := by
  refine ⟨rfl, rfl, fun e he => ?_⟩
  rw [List.mem_singleton.mp he]
  exact strip_sampleEntry

theorem not_writing_single {c : Call} (hc : c.alone = none) :
    ¬ System.Writing ⟨file, Function.update (fun _ => none) 0 (some c), es⟩ j := by
  have hnone : ∀ d ∈ some c, d.alone = none := by
    rintro d ⟨⟩
    exact hc
  intro hj
  obtain ⟨-, d, hd, -⟩ := (writing_update (s := sampleSystem) hnone).mp hj
  cases hd

/-- A second dispatch is recorded, with no other call under way. -/
theorem exists_sampleRun : ∃ t, Path CarefulStep sampleSystem
    [.read 0 (sampleEntry 43), .truncate 0, .close 0] t := by
  refine Path.exists_cons
    ⟨.read (i := 0) sampleSystem (sampleEntry 43) rfl (.inl rfl), strip_sampleEntry⟩ ?_
  refine Path.exists_cons ⟨.truncate (i := 0) _ rfl rfl fun j => not_writing_single rfl,
    fun j => not_writing_single rfl, fun c hc => ?_⟩ ?_
  · obtain rfl := Option.some.inj hc
    rfl
  · exact ⟨_, .single ⟨.close (i := 0) _ rfl rfl, trivial⟩⟩

theorem exact_sampleRun : ∃ t, Path CarefulStep sampleSystem
    [.read 0 (sampleEntry 43), .truncate 0, .close 0] t ∧ Exact Py.lower t := by
  obtain ⟨t, p⟩ := exists_sampleRun
  exact ⟨t, p, (exact_of_careful start_sampleSystem p).1⟩

theorem exists_stopped : ∃ t,
    Path Step sampleSystem [.read 0 (sampleEntry 43), .truncate 0, .stop 0] t ∧
      (∀ j, ¬ t.Writing j) ∧ t.file = none ∧ t.recorded = [sampleEntry 42] := by
  refine ⟨_, .cons (.read (i := 0) sampleSystem (sampleEntry 43) rfl (.inl rfl)) (.cons
    (.truncate (i := 0) _ rfl rfl fun j => not_writing_single rfl)
    (.single (.stop (i := 0) _ rfl))), ?_, rfl, rfl⟩
  rintro j ⟨c, hc, -⟩
  by_cases hj : j = 0 <;> simp [hj, sampleSystem] at hc

/-- Two calls read the file before the first one writes it. -/
theorem exists_overtaken : ∃ t,
    Path Step sampleSystem [.read 0 (sampleEntry 42), .read 1 (sampleEntry 43), .truncate 0,
      .close 0, .truncate 1, .close 1] t ∧ (∀ j, ¬ t.Writing j) ∧
      t.file = some [sampleEntry 42, sampleEntry 43] ∧
      t.recorded = [sampleEntry 42, sampleEntry 42, sampleEntry 43] := by
  refine ⟨_, .cons (.read (i := 0) sampleSystem (sampleEntry 42) rfl (.inl rfl)) (.cons
    (.read (i := 1) _ (sampleEntry 43) rfl (.inl rfl)) (.cons
    (.truncate (i := 0) _ rfl rfl ?_) (.cons (.close (i := 0) _ rfl rfl) (.cons
    (.truncate (i := 1) _ rfl rfl ?_) (.single (.close (i := 1) _ rfl rfl)))))), ?_, rfl, rfl⟩
  · rintro j ⟨c, hc, halone⟩
    simp only [Function.update_apply, sampleSystem] at hc
    split_ifs at hc <;> cases hc <;> cases halone
  · rintro j ⟨c, hc, halone⟩
    simp only [Function.update_apply, sampleSystem] at hc
    split_ifs at hc
    cases hc
    cases halone
  · rintro j ⟨c, hc, -⟩
    simp only [Function.update_apply, sampleSystem] at hc
    split_ifs at hc

/-- A call that ends after it has truncated the file takes the streaks of all pull requests with it,
and of two calls that have read the same file the second one drops the row of the first. -/
theorem not_exact : ∃ t u,
    Path Step sampleSystem [.read 0 (sampleEntry 43), .truncate 0, .stop 0] t ∧
    (∀ j, ¬ t.Writing j) ∧ streak Py.lower t.recorded "Runner_Dashboard" 42 "3f1a" = 1 ∧
    countConsecutiveAttempts Py.lower t.file "Runner_Dashboard" 42 "3f1a" = 0 ∧
    Path Step sampleSystem [.read 0 (sampleEntry 42), .read 1 (sampleEntry 43), .truncate 0,
      .close 0, .truncate 1, .close 1] u ∧
    (∀ j, ¬ u.Writing j) ∧ streak Py.lower u.recorded "Runner_Dashboard" 42 "3f1a" = 2 ∧
    countConsecutiveAttempts Py.lower u.file "Runner_Dashboard" 42 "3f1a" = 1 := by
  obtain ⟨t, p, ht, hfile, hrecorded⟩ := exists_stopped
  obtain ⟨u, q, hu, hfile', hrecorded'⟩ := exists_overtaken
  refine ⟨t, u, p, ht, ?_, ?_, q, hu, ?_, ?_⟩
  · rw [hrecorded]
    decide +kernel
  · rw [hfile]
    rfl
  · rw [hrecorded']
    decide +kernel
  · rw [hfile']
    decide +kernel

end CiFixAudit
