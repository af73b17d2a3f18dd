import RunnerDashboard.Deploy.Inventory

/-!
# Terminal verdicts of the publisher

When the gate of the publisher fails, a second look at the same check runs tells whether waiting may
help.  It has its own tests for what counts, what is pending and what failed.

## Main results

* `terminal_iff` — what is terminal.
* `terminal_final` — **a terminal verdict is final.**
-/

namespace Deploy

/-! ### The second look -/

def commitPassesPublisherCiGate (runs : List CheckRun) (expectedSha : String) : Bool × String :=
  ciGateForDeployCommit runs expectedSha

/-- The loop over the relevant runs, with the matching ones so far. -/
def terminalLoop (sha : String) : List CheckRun → List CheckRun → Bool
  | matching, [] => matching ≠ [] && matching.all fun r => r.status = some "completed"
  | matching, run :: relevant =>
    if (validateCheckRunRecord run).isSome then true
    else if run.status.getD "" ∉ pendingStatuses ++ ["completed"] then true
    else if normalizeCommitSha run.headSha = none then true
    else if Py.lower run.headSha ≠ sha then terminalLoop sha matching relevant
    else if runIsPending run then terminalLoop sha (matching ++ [run]) relevant
    else if run.conclusion ∉ passingConclusions ++ ["cancelled", "stale"] then true
    else terminalLoop sha (matching ++ [run]) relevant

def publisherGateFailureIsTerminal (runs : List CheckRun) (expectedSha : String) : Bool :=
  match normalizeCommitSha expectedSha with
  | none => true
  | some sha => terminalLoop sha [] (filterNonBlockingCheckRuns runs)

variable {runs later matching : List CheckRun} {run run' : CheckRun} {sha full : String}

/-- A completed run that neither passed nor was superseded. -/
def CheckRun.Failed (r : CheckRun) : Prop :=
  runIsPending r = false ∧ r.conclusion ∉ passingConclusions ++ ["cancelled", "stale"]

theorem terminalLoop_iff (hruns : ∀ r ∈ runs, r.IsOf full) :
    terminalLoop full matching runs = true ↔ (∃ r ∈ runs, r.Failed) ∨
      matching ++ runs ≠ [] ∧ ∀ r ∈ matching ++ runs, r.status = some "completed" := by
  induction runs generalizing matching with
  | nil => simp [terminalLoop]
  | cons r runs ih =>
    have hr := hruns r (List.mem_cons_self ..)
    have hrest := fun matching => @ih matching fun x hx => hruns x (List.mem_cons_of_mem _ hx)
    unfold terminalLoop
    rw [if_neg (by simp [hr.valid]), if_neg (not_not.mpr hr.status), if_neg (by simp [hr.head]),
      if_neg (not_not.mpr hr.lower_head)]
    by_cases hpending : runIsPending r = true
    · have hfailed : ¬ r.Failed := fun h => by simp [h.1] at hpending
      rw [if_pos hpending, hrest]
      simp [hfailed]
    · rw [if_neg hpending]
      by_cases hconclusion : r.conclusion ∉ passingConclusions ++ ["cancelled", "stale"]
      · rw [if_pos hconclusion]
        exact iff_of_true rfl
          (.inl ⟨r, List.mem_cons_self .., Bool.eq_false_iff.mpr hpending, hconclusion⟩)
      · have hfailed : ¬ r.Failed := fun h => hconclusion h.2
        rw [if_neg hconclusion, hrest]
        simp [hfailed]

/-- **What is terminal**: a run that failed, or runs that are all completed. -/
theorem terminal_iff (hsha : normalizeCommitSha sha = some full)
    (hruns : ∀ r ∈ runs, r.IsOf full) :
    publisherGateFailureIsTerminal runs sha = true ↔ (∃ r ∈ runs, r.Blocking ∧ r.Failed) ∨
      (∃ r ∈ runs, r.Blocking) ∧ ∀ r ∈ runs, r.Blocking → r.status = some "completed" := by
  have hblocking : ∀ r ∈ filterNonBlockingCheckRuns runs, r.IsOf full := fun r hr =>
    hruns r (mem_filterNonBlocking_iff.mp hr).1
  unfold publisherGateFailureIsTerminal
  rw [hsha]
  dsimp only
  have hne : filterNonBlockingCheckRuns runs ≠ [] ↔ ∃ r ∈ runs, r.Blocking := by
    rw [Ne, List.eq_nil_iff_forall_not_mem]
    simp only [mem_filterNonBlocking_iff, not_forall, not_not]
  rw [terminalLoop_iff hblocking, List.nil_append, hne]
  simp only [mem_filterNonBlocking_iff, and_assoc, and_imp]

/-! ### Completing runs -/

/-- A run stays, or it was pending and is completed with any conclusion. -/
def CheckRun.CompletesTo (r r' : CheckRun) : Prop :=
  r' = r ∨ runIsPending r = true ∧ r'.name = r.name ∧ r'.headSha = r.headSha ∧
    r'.status = some "completed"

/-- Each run stays or is completed, and no run is added or removed. -/
structure LaterRuns (runs later : List CheckRun) : Prop where
  completes : ∀ r ∈ runs, ∃ r' ∈ later, r.CompletesTo r'
  completed : ∀ r' ∈ later, ∃ r ∈ runs, r.CompletesTo r'

theorem CheckRun.CompletesTo.name (h : run.CompletesTo run') : run'.name = run.name := by
  rcases h with rfl | ⟨-, hname, -⟩
  · rfl
  · exact hname

theorem CheckRun.CompletesTo.blocking (h : run.CompletesTo run') (hb : run'.Blocking) :
    run.Blocking := by
  unfold CheckRun.Blocking at hb ⊢
  rwa [← h.name]

theorem CheckRun.CompletesTo.eq_of_completed (h : run.CompletesTo run')
    (hcompleted : run.status = some "completed") : run' = run := by
  rcases h with rfl | ⟨hpending, -⟩
  · rfl
  · have hpending' : runIsPending run = false := by
      unfold runIsPending
      rw [hcompleted]
      decide
    rw [hpending'] at hpending
    cases hpending

theorem CheckRun.CompletesTo.isOf (h : run.CompletesTo run') (hrun : run.IsOf full) :
    run'.IsOf full := by
  rcases h with rfl | ⟨-, hname, hhead, hstatus⟩
  · exact hrun
  · have hvalid := hrun.valid
    refine ⟨?_, by rw [hstatus]; decide, hhead ▸ hrun.head⟩
    unfold validateCheckRunRecord at hvalid ⊢
    rw [hname, hstatus]
    split at hvalid
    · cases hvalid
    · next hne => rw [if_neg hne, if_neg (by decide)]

theorem LaterRuns.isOf (h : LaterRuns runs later) (hruns : ∀ r ∈ runs, r.IsOf full) :
    ∀ r ∈ later, r.IsOf full := by
  intro r' hr'
  obtain ⟨r, hr, hto⟩ := h.completed r' hr'
  exact hto.isOf (hruns r hr)

/-- **What is terminal and not green is never green later.** -/
theorem not_green_of_terminal (h : LaterRuns runs later) (hgreen : ¬ Green runs)
    (hterminal : (∃ r ∈ runs, r.Blocking ∧ r.Failed) ∨
      (∃ r ∈ runs, r.Blocking) ∧ ∀ r ∈ runs, r.Blocking → r.status = some "completed") :
    ¬ Green later := by
  intro hlater
  rcases hterminal with ⟨r, hr, hb, hpending, hconclusion⟩ | ⟨hex, hall⟩
  · -- the run that failed is still there
    obtain ⟨r', hr', hto⟩ := h.completes r hr
    obtain rfl := hto.eq_of_completed (runIsPending_eq_false hpending)
    rw [List.mem_append, not_or] at hconclusion
    exact hconclusion.1 (hlater.passing r' hr' hb hconclusion.2)
  · -- nothing that counts has changed
    have hsame : ∀ r ∈ runs, r.Blocking → r ∈ later := by
      intro r hr hb
      obtain ⟨r', hr', hto⟩ := h.completes r hr
      rwa [← hto.eq_of_completed (hall r hr hb)]
    have hback : ∀ r ∈ later, r.Blocking → r ∈ runs := by
      intro r' hr' hb
      obtain ⟨r, hr, hto⟩ := h.completed r' hr'
      rwa [hto.eq_of_completed (hall r hr (hto.blocking hb))]
    refine hgreen ⟨hex, fun r hr hb => hlater.completed r (hsame r hr hb) hb, fun r hr hb => ?_,
      fun r hr hb => hlater.passing r (hsame r hr hb) hb⟩
    obtain ⟨r', hr', hname, hsat⟩ := hlater.satisfied r (hsame r hr hb) hb
    have hb' : r'.Blocking := by
      unfold CheckRun.Blocking at hb ⊢
      rwa [hname]
    exact ⟨r', hback r' hr' hb', hname, hsat⟩

/-! ### The newest attempts of a later inventory -/

/-- A record stays, or it was pending and is completed with any conclusion. -/
def RawRun.CompletesTo (r r' : RawRun) : Prop :=
  r' = r ∨ runIsPending r.toCheckRun = true ∧ r'.id = r.id ∧ r'.key = r.key ∧
    r'.headSha = r.headSha ∧ r'.status = some "completed"

/-- The records of some pages after pending ones were completed, in any order and on any pages. -/
def LaterPages (pages pages' : List (Option Payload)) : Prop :=
  ∃ rs rs', recordsOf pages.reduceOption = rs.map some ∧ List.Forall₂ RawRun.CompletesTo rs rs' ∧
    (recordsOf pages'.reduceOption).Perm (rs'.map some)

variable {checks checks' latest latest' : List RawRun} {r r' : RawRun}

theorem RawRun.CompletesTo.same (h : r.CompletesTo r') : r'.id = r.id ∧ r'.key = r.key := by
  rcases h with rfl | ⟨-, hid, hkey, -⟩
  · exact ⟨rfl, rfl⟩
  · exact ⟨hid, hkey⟩

theorem RawRun.CompletesTo.number (h : r.CompletesTo r') : r'.number = r.number := by
  rw [RawRun.number, RawRun.number, h.same.1]

theorem RawRun.CompletesTo.toCheckRun (h : r.CompletesTo r') :
    r.toCheckRun.CompletesTo r'.toCheckRun := by
  rcases h with rfl | ⟨hpending, -, hkey, hhead, hstatus⟩
  · exact .inl rfl
  · refine .inr ⟨hpending, ?_, ?_, hstatus⟩
    · exact congrArg (fun k => k.2.2) hkey
    · simp only [RawRun.toCheckRun, hhead]

theorem eq_of_number_eq (hnodup : (checks.map RawRun.id).Nodup)
    (haccepted : ∀ r ∈ checks, r.Accepted full) (hr : r ∈ checks) (hr' : r' ∈ checks)
    (h : r.number = r'.number) : r = r' := by
  refine List.inj_on_of_nodup_map hnodup hr hr' ?_
  rw [(haccepted r hr).id_eq, (haccepted r' hr').id_eq, h]

/-- **Completing runs and taking the newest attempts can be exchanged.** -/
theorem latest_completesTo (hlatest : Latest checks latest) (hlatest' : Latest checks' latest')
    (hnodup : (checks.map RawRun.id).Nodup) (hnodup' : (checks'.map RawRun.id).Nodup)
    (haccepted : ∀ r ∈ checks, r.Accepted full) (haccepted' : ∀ r ∈ checks', r.Accepted full)
    (hto : ∀ r ∈ checks, ∃ r' ∈ checks', r.CompletesTo r')
    (hfrom : ∀ r' ∈ checks', ∃ r ∈ checks, r.CompletesTo r') :
    (∀ r ∈ latest, ∃ r' ∈ latest', r.CompletesTo r') ∧
      ∀ r' ∈ latest', ∃ r ∈ latest, r.CompletesTo r' := by
  constructor
  · intro r hr
    obtain ⟨hmem, hnewest⟩ := hlatest.newest r hr
    obtain ⟨r', hr', hrr'⟩ := hto r hmem
    obtain ⟨y, hy, hkey⟩ := hlatest'.covers r' hr'
    obtain ⟨hymem, hynewest⟩ := hlatest'.newest y hy
    obtain ⟨x, hx, hxy⟩ := hfrom y hymem
    -- the newest attempt later was the newest before
    have hle := hnewest x hx (by rw [← hxy.same.2, hkey, hrr'.same.2])
    have hge := hynewest r' hr' hkey.symm
    rw [← hxy.number, ← hrr'.number] at hle
    obtain rfl := eq_of_number_eq hnodup' haccepted' hymem hr' (le_antisymm hle hge)
    exact ⟨y, hy, hrr'⟩
  · intro y hy
    obtain ⟨hymem, hynewest⟩ := hlatest'.newest y hy
    obtain ⟨x, hx, hxy⟩ := hfrom y hymem
    obtain ⟨r, hr, hkey⟩ := hlatest.covers x hx
    obtain ⟨hmem, hnewest⟩ := hlatest.newest r hr
    obtain ⟨r', hr', hrr'⟩ := hto r hmem
    have hle := hnewest x hx hkey.symm
    have hge := hynewest r' hr' (by rw [hrr'.same.2, hkey, hxy.same.2])
    rw [hrr'.number, hxy.number] at hge
    obtain rfl := eq_of_number_eq hnodup haccepted hx hmem (le_antisymm hle hge)
    exact ⟨x, hr, hxy⟩

/-! ### The verdict -/

/-- What is read of records and of the same records later. -/
theorem laterRuns_map (hto : ∀ r ∈ latest, ∃ r' ∈ latest', r.CompletesTo r')
    (hfrom : ∀ r' ∈ latest', ∃ r ∈ latest, r.CompletesTo r') :
    LaterRuns (latest.map RawRun.toCheckRun) (latest'.map RawRun.toCheckRun) := by
  constructor
  · intro c hc
    obtain ⟨r, hr, rfl⟩ := List.mem_map.mp hc
    obtain ⟨r', hr', h⟩ := hto r hr
    exact ⟨r'.toCheckRun, List.mem_map_of_mem hr', h.toCheckRun⟩
  · intro c hc
    obtain ⟨r', hr', rfl⟩ := List.mem_map.mp hc
    obtain ⟨r, hr, h⟩ := hfrom r' hr'
    exact ⟨r.toCheckRun, List.mem_map_of_mem hr, h.toCheckRun⟩

theorem forall₂_exists {α β : Type} {R : α → β → Prop} {xs : List α} {ys : List β}
    (h : List.Forall₂ R xs ys) : (∀ x ∈ xs, ∃ y ∈ ys, R x y) ∧ ∀ y ∈ ys, ∃ x ∈ xs, R x y := by
  induction h with
  | nil => simp
  | cons h _ ih =>
    constructor
    · rintro x hx
      rcases List.mem_cons.mp hx with rfl | hx
      · exact ⟨_, List.mem_cons_self .., h⟩
      · obtain ⟨y, hy, hxy⟩ := ih.1 x hx
        exact ⟨y, List.mem_cons_of_mem _ hy, hxy⟩
    · rintro y hy
      rcases List.mem_cons.mp hy with rfl | hy
      · exact ⟨_, List.mem_cons_self .., h⟩
      · obtain ⟨x, hx, hxy⟩ := ih.2 y hy
        exact ⟨x, List.mem_cons_of_mem _ hx, hxy⟩

theorem laterRuns_of_laterPages {pages pages' : List (Option Payload)}
    (h : flattenCheckRuns pages sha = .ok latest) (h' : flattenCheckRuns pages' sha = .ok latest')
    (hlater : LaterPages pages pages') :
    LaterRuns (latest.map RawRun.toCheckRun) (latest'.map RawRun.toCheckRun) := by
  obtain ⟨checks, hchecks, hnodup, hnorm⟩ := flattenCheckRuns_ok h
  obtain ⟨checks', hchecks', hnodup', hnorm'⟩ := flattenCheckRuns_ok h'
  obtain ⟨full, hfull, haccepted, hlatest⟩ := normalizeLatestCheckRuns_ok hnorm
  obtain ⟨full', hfull', haccepted', hlatest'⟩ := normalizeLatestCheckRuns_ok hnorm'
  obtain rfl := Option.some.inj (hfull.symm.trans hfull')
  obtain ⟨rs, rs', hrs, hcompletes, hperm⟩ := hlater
  have hinj := Option.some_injective RawRun
  obtain rfl : checks = rs := List.map_injective_iff.mpr hinj (hchecks.symm.trans hrs)
  have hmem : ∀ r, r ∈ checks' ↔ r ∈ rs' := by
    intro r
    rw [hchecks'] at hperm
    have := hperm.mem_iff (a := some r)
    rwa [List.mem_map_of_injective hinj, List.mem_map_of_injective hinj] at this
  obtain ⟨hto, hfrom⟩ := forall₂_exists hcompletes
  obtain ⟨hto', hfrom'⟩ := latest_completesTo hlatest hlatest' hnodup hnodup' haccepted haccepted'
    (fun r hr => (hto r hr).imp fun r' h => ⟨(hmem r').mpr h.1, h.2⟩)
    (fun r' hr' => hfrom r' ((hmem r').mp hr'))
  exact laterRuns_map hto' hfrom'

/-- **A terminal verdict is final**: whatever the pending runs come to, the gate fails, for the
newest attempts as for the pages that they are read from; and what is not terminal has a pending run
that counts, or no run that counts at all. -/
theorem terminal_final {pages : List (Option Payload)}
    (h : flattenCheckRuns pages sha = .ok latest)
    (hfails : (commitPassesPublisherCiGate (latest.map RawRun.toCheckRun) sha).1 = false) :
    (publisherGateFailureIsTerminal (latest.map RawRun.toCheckRun) sha = true →
      (∀ later, List.Forall₂ RawRun.CompletesTo latest later →
        (commitPassesPublisherCiGate (later.map RawRun.toCheckRun) sha).1 = false) ∧
      ∀ pages' latest', LaterPages pages pages' → flattenCheckRuns pages' sha = .ok latest' →
        (commitPassesPublisherCiGate (latest'.map RawRun.toCheckRun) sha).1 = false) ∧
    (publisherGateFailureIsTerminal (latest.map RawRun.toCheckRun) sha = false →
      (∃ r ∈ latest, r.toCheckRun.Blocking ∧ runIsPending r.toCheckRun = true) ∨
        ∀ r ∈ latest, ¬ r.toCheckRun.Blocking) := by
  obtain ⟨checks, -, -, hnorm⟩ := flattenCheckRuns_ok h
  obtain ⟨full, hfull, haccepted, hlatest⟩ := normalizeLatestCheckRuns_ok hnorm
  have hruns : ∀ c ∈ latest.map RawRun.toCheckRun, c.IsOf full := by
    intro c hc
    obtain ⟨r, hr, rfl⟩ := List.mem_map.mp hc
    exact (haccepted r (hlatest.newest r hr).1).isOf
  have hgreen : ¬ Green (latest.map RawRun.toCheckRun) := fun hgreen => by
    rw [commitPassesPublisherCiGate, (ciGateForDeployCommit_iff hfull hruns).mpr hgreen] at hfails
    cases hfails
  constructor
  · intro hterminal
    have hstuck : ∀ later, LaterRuns (latest.map RawRun.toCheckRun) later →
        (commitPassesPublisherCiGate later sha).1 = false := by
      intro later hlater
      have hnot := not_green_of_terminal hlater hgreen ((terminal_iff hfull hruns).mp hterminal)
      refine Bool.eq_false_iff.mpr fun hpass => hnot ?_
      exact (ciGateForDeployCommit_iff hfull (hlater.isOf hruns)).mp hpass
    refine ⟨fun later hlater => hstuck _ ?_, fun pages' latest' hlater h' => hstuck _ ?_⟩
    · obtain ⟨hto, hfrom⟩ := forall₂_exists hlater
      exact laterRuns_map hto hfrom
    · exact laterRuns_of_laterPages h h' hlater
  · intro hterminal
    have hnot := mt (terminal_iff hfull hruns).mpr (by rw [hterminal]; simp)
    rw [not_or, not_and_or] at hnot
    rcases hnot.2 with hnone | hpending
    · refine .inr fun r hr hb => hnone ⟨r.toCheckRun, List.mem_map_of_mem hr, hb⟩
    · simp only [not_forall] at hpending
      obtain ⟨c, hc, hb, hstatus⟩ := hpending
      obtain ⟨r, hr, rfl⟩ := List.mem_map.mp hc
      refine .inl ⟨r, hr, hb, ?_⟩
      by_contra hdone
      exact hstatus (runIsPending_eq_false (Bool.eq_false_iff.mpr hdone))

def failedCheck : RawRun where
  id := some 1
  name := some "lint"
  status := some "completed"
  headSha := some "bbbbbbbbbbbbbbbbbbbbbbbbbbbbbbbbbbbbbbbb"
  conclusion := .text "failure"
  appId := some 1
  suiteId := some 1
  startedAt := .zoned

def queuedCheck : RawRun :=
  { failedCheck with
    id := some 2, name := some "tests", status := some "queued", conclusion := .null,
    startedAt := .null }

def succeededCheck : RawRun :=
  { queuedCheck with
    status := some "completed", conclusion := .text "success", startedAt := .zoned }

/-- The failure stays when the queued check succeeds. -/
theorem terminal_final_queued :
    publisherGateFailureIsTerminal ([failedCheck, queuedCheck].map RawRun.toCheckRun)
        "bbbbbbbbbbbbbbbbbbbbbbbbbbbbbbbbbbbbbbbb" = true ∧
      (commitPassesPublisherCiGate ([failedCheck, succeededCheck].map RawRun.toCheckRun)
        "bbbbbbbbbbbbbbbbbbbbbbbbbbbbbbbbbbbbbbbb").1 = false := by
  have hpages : flattenCheckRuns [some ⟨some 2, some [some failedCheck, some queuedCheck]⟩]
      "bbbbbbbbbbbbbbbbbbbbbbbbbbbbbbbbbbbbbbbb" = .ok [failedCheck, queuedCheck] := by
    decide +kernel
  have hterminal : publisherGateFailureIsTerminal ([failedCheck, queuedCheck].map RawRun.toCheckRun)
      "bbbbbbbbbbbbbbbbbbbbbbbbbbbbbbbbbbbbbbbb" = true := by decide +kernel
  have hcompletes : queuedCheck.CompletesTo succeededCheck :=
    .inr ⟨by decide +kernel, rfl, rfl, rfl, rfl⟩
  refine ⟨hterminal, ((terminal_final hpages (by decide +kernel)).1 hterminal).1 _ ?_⟩
  exact .cons (.inl rfl) (.cons hcompletes .nil)

end Deploy
