import RunnerDashboard.Deploy.TransactionSteps

/-!
# All or nothing

A deploy switch ends with the candidate, or with the old release, unless it says that the rollback
failed. There are two exceptions, which the source has no recovery for: an error between the check
for activity and the stop of the service is raised to the caller, and an error of `activate_release`
after it has changed the live path is taken for one before.

## Main results

* `resume_iff`, `rollBack_sound` — the two recoveries.
* `switch_iff` — the transaction, from the stop of the service on.
* `allOrNothing_iff` — **the result is true exactly if no operation raises at the two places.**
* `switched_unnoticed` — runs where it is not.
-/

namespace Deploy

open Attempt Sql EStateM

/-! ### What a result says -/

/-- The service was started, and was healthy then. -/
def Restarted (log : List (Call × Reply)) : Prop :=
  ∃ before round value, log =
    before ++ [(.restart round, .returned value), (.healthy round, .returned true)]

/-- The service was never stopped, or was started again and is healthy. -/
def Running (log : List (Call × Reply)) : Prop :=
  (∀ x ∈ log, ∀ round, x.1 ≠ .stop round) ∨ Restarted log

/-- **A switch is all or nothing**: `success` says that live is the candidate and the last health
check passed; `failed`, `skipped` and `rollback` say that live resolves to the tree of before, as it
was, and that the service runs.  An error that is raised to the caller says nothing. -/
def AllOrNothing (files : Files) (candidate : Place) : Result String World TransactionOutcome → Prop
  | .ok outcome w =>
    match outcome.result with
    | .success =>
      (∃ node, w.files.resolved = .tree (some (candidate.name, [])) node) ∧
        ∃ round, w.log.getLast? = some (.healthy round, .returned true)
    | .failed | .skipped | .rollback => w.files.resolved = files.resolved ∧ Running w.log
    | .rollbackFailed => True
  | .error _ _ => False

def Files.start (files : Files) : World := ⟨files, [], 0⟩

/-- The steps of a transaction before the pointer is set. -/
def untilPointer (env : Env) (candidate staged : Place) : Action SwitchReceipt := do
  validate env candidate staged
  let idle ← call env .checkIdle
  raiseIf (!idle) "staff or chat activity remains in flight"
  let source ← readSource env
  prepare env source candidate staged
  retainPrevious env candidate

/-- The service can be started, and is healthy then. -/
def Serves (env : Env) (round : Round) : Prop :=
  (∃ value, env.reply (.restart round) = .returned value) ∧
    env.reply (.healthy round) = .returned true

/-- Where the pointer is set, the look at the temporary pointer after it does not raise; where it is
not, a plain directory is moved back without an error. -/
def PointerSpared (env : Env) (files : Files) : Prop :=
  (Activates env files → env.fails (.pointer .left) = none) ∧
    (¬ Activates env files → ∀ entries, files.live = .dir entries →
      ∀ op, env.fails (.undo op) = none)

/-- **No operation raises at the two places**: what live leads to is read, if the transaction gets
there; and if it gets to the pointer and the service can be started again, this is set or undone. -/
structure Spared (env : Env) (files : Files) (candidate staged : Place) : Prop where
  source : (∃ w, validate env candidate staged files.start = .ok () w) →
    env.reply .checkIdle = .returned true →
    ∀ op, (op = .resolve → files.live.isSymlink = true) → env.fails (.source op) = none
  pointer : (∃ receipt w, untilPointer env candidate staged files.start = .ok receipt w) →
    Serves env .resume → PointerSpared env files

variable {env : Env} {files : Files} {candidate staged : Place} {w w' : World} {u : Unit}
  {e text : String} {round : Round} {receipt : SwitchReceipt}

/-! ### The service -/

theorem keeps_startService : Keeps SameFiles (startService env round text) := by
  unfold startService
  exact (keeps_call _).bind fun _ => (keeps_call _).bind fun _ => keeps_raiseIf _ _

/-- **The service runs** exactly if it can be started and is healthy. -/
theorem startService_of_serves (h : Serves env round) :
    ∃ w₁, startService env round text w = .ok () w₁ ∧ w₁.files = w.files ∧ Restarted w₁.log := by
  obtain ⟨⟨value, hrestart⟩, hhealthy⟩ := h
  unfold startService
  rw [bind_of_ok (call_eq_ok_iff.mpr ⟨hrestart, rfl⟩),
    bind_of_ok (call_eq_ok_iff.mpr ⟨hhealthy, rfl⟩)]
  refine ⟨_, raiseIf_of_false rfl, rfl, w.log, round, value, ?_⟩
  rw [List.append_assoc]
  rfl

theorem serves_of_startService (h : startService env round text w = .ok u w') :
    Serves env round := by
  unfold startService at h
  obtain ⟨value, w₁, hrestart, h⟩ := seq_eq_ok_iff.mp h
  obtain ⟨ok, w₂, hhealthy, h⟩ := seq_eq_ok_iff.mp h
  obtain ⟨hok, -⟩ := raiseIf_eq_ok_iff.mp h
  obtain ⟨hrestart, -⟩ := call_eq_ok_iff.mp hrestart
  obtain ⟨hhealthy, -⟩ := call_eq_ok_iff.mp hhealthy
  refine ⟨⟨value, hrestart⟩, ?_⟩
  rw [hhealthy]
  cases ok with
  | true => rfl
  | false => cases hok

theorem getLast?_of_restarted {log : List (Call × Reply)} (h : Restarted log) :
    ∃ round, log.getLast? = some (.healthy round, .returned true) := by
  obtain ⟨before, round, value, rfl⟩ := h
  refine ⟨round, ?_⟩
  rw [List.getLast?_append]
  rfl

/-- **The recovery without a receipt** is right exactly if live is as it was, or the service does
not come up. -/
theorem resume_iff : AllOrNothing files candidate (resumeService env e w) ↔
    (Serves env .resume → w.files.resolved = files.resolved) := by
  unfold resumeService
  by_cases hserves : Serves env .resume
  · obtain ⟨w₁, hstart, hfiles, hlog⟩ := startService_of_serves (w := w) hserves
    rw [bind_of_ok (attempt_of_ok hstart)]
    show (w₁.files.resolved = files.resolved ∧ Running w₁.log) ↔ _
    rw [hfiles]
    constructor
    · exact fun h _ => h.1
    · exact fun h => ⟨h hserves, .inr hlog⟩
  · cases hstart : startService env .resume
        "previous release health check failed after resume" w with
    | ok u w₁ => exact absurd (serves_of_startService hstart) hserves
    | error e' w₁ =>
      rw [bind_of_ok (attempt_of_error hstart)]
      exact iff_of_true trivial fun h => absurd h hserves

/-- **The recovery with a receipt** is right. -/
theorem rollBack_sound {f f₁ : Files} (hretained : Retained f receipt f₁)
    (hlive : w.files.live = .link candidate.name []) (hreleases : w.files.releases = f₁.releases)
    (hfiles : f.resolved = files.resolved) :
    AllOrNothing files candidate (rollBack env receipt e w) := by
  unfold rollBack
  cases hback : (do
      let _ ← call env (.stop .rollback)
      restorePreviousTarget env receipt
      startService env .rollback "previous release health check failed after rollback" :
        Action Unit) w with
  | error e' w₁ =>
    rw [bind_of_ok (attempt_of_error hback)]
    trivial
  | ok u w₁ =>
    rw [bind_of_ok (attempt_of_ok hback)]
    obtain ⟨_, w₂, hstop, hback⟩ := seq_eq_ok_iff.mp hback
    obtain ⟨_, w₃, hrestore, hstart⟩ := seq_eq_ok_iff.mp hback
    have hw₂ : w₂.files = w.files := (keeps_call _).of_ok hstop
    have hrestored := restored hretained (by rw [hw₂]; exact hlive) (by rw [hw₂]; exact hreleases)
      hrestore
    obtain ⟨w₄, hstart', hw₄, hlog⟩ :=
      startService_of_serves (w := w₃) (serves_of_startService hstart)
    have heq := hstart.symm.trans hstart'
    injection heq with _ hw₁
    subst hw₁
    refine ⟨?_, .inr hlog⟩
    rw [hw₄, hrestored, hfiles]

/-! ### From the stop of the service on -/

/-- The release that live leads to is neither the staged one nor the candidate. -/
structure Apart (files : Files) (candidate staged : Place) : Prop where
  accepted : Accepted files candidate
  fresh : ∀ inner, files.live ≠ .link staged.name inner

theorem Apart.ne (h : Apart files candidate staged) {release : String} {inner : List String}
    (hlive : files.live = .link release inner) : release ≠ staged.name ∧ release ≠
      candidate.name := by
  constructor
  · rintro rfl
    exact h.fresh inner hlive
  · rintro rfl
    obtain ⟨node, hnode⟩ := h.accepted.prior _ _ hlive
    unfold Files.lookup at hnode
    rw [h.accepted.free] at hnode
    cases hnode

theorem resolved_of_kept (h : Apart w.files candidate staged) (hkept : Kept candidate staged w w') :
    w'.files.resolved = w.files.resolved :=
  resolved_congr hkept.live fun _ _ hlive => hkept.releases _ (h.ne hlive).1 (h.ne hlive).2

theorem resolved_ne (h : Apart files candidate staged) {node : Node} :
    .tree (some (candidate.name, [])) node ≠ files.resolved := by
  unfold Files.resolved
  cases hlive : files.live with
  | link release inner =>
    dsimp only
    cases files.lookup release inner with
    | none => exact fun heq => by cases heq
    | some node' =>
      intro heq
      injection heq with hplace
      injection hplace with hplace
      injection hplace with hname
      exact (h.ne hlive).2 hname.symm
  | absent => exact fun heq => by cases heq
  | dir entries => exact fun heq => by cases heq
  | other => exact fun heq => by cases heq
  | foreign dangling => exact fun heq => by cases heq

theorem resolved_of_link {release : String} {entries : List (String × Node)}
    (hlive : files.live = .link release [])
    (hdir : files.releases.get? release = some (.dir entries)) :
    files.resolved = .tree (some (release, [])) (.dir entries) := by
  unfold Files.resolved Files.lookup
  rw [hlive]
  dsimp only
  rw [hdir]
  rfl

/-- A retained release leaves the temporary pointer, and live is no directory then. -/
theorem Retained.spec {f f₁ : Files} (h : Retained f receipt f₁) :
    f₁.pointer = f.pointer ∧ ∀ entries, f₁.live ≠ .dir entries := by
  cases h with
  | link hlive => exact ⟨rfl, fun entries heq => by rw [hlive] at heq; cases heq⟩
  | dir hlive => exact ⟨rfl, fun entries heq => by cases heq⟩
  | absent hlive => exact ⟨rfl, fun entries heq => by rw [hlive] at heq; cases heq⟩

theorem Retained.releases {f f₁ : Files} {name : String} (h : Retained f receipt f₁)
    (hname : name ≠ legacyName) : f₁.releases.get? name = f.releases.get? name := by
  cases h with
  | link hlive => rfl
  | dir hlive => exact Table.get?_put_of_ne _ hname _
  | absent hlive => rfl

theorem activates_congr (env : Env) {f f₁ : Files} (h : f₁.pointer = f.pointer) :
    Activates env f₁ ↔ Activates env f := by
  constructor
  · rintro ⟨hresolve, hpointer, hops⟩
    exact ⟨hresolve, h.symm.trans hpointer, hops⟩
  · rintro ⟨hresolve, hpointer, hops⟩
    exact ⟨hresolve, h.trans hpointer, hops⟩

/-- **The pointer is set, and the look at the temporary pointer raises**: the recovery takes live
for the old release. -/
theorem resume_of_left {w₃ : World} {entries : List (String × Node)}
    (h : Apart files candidate staged) (hlive : w₃.files.live = .link candidate.name [])
    (hdir : w₃.files.releases.get? candidate.name = some (.dir entries)) :
    AllOrNothing files candidate
      (resumeService env e (stateOf (undoMigration env receipt w₃))) ↔ ¬ Serves env .resume := by
  have hexists : w₃.files.exists w₃.files.live = true := by
    rw [hlive]
    unfold Files.exists Files.lookup
    dsimp only
    rw [hdir]
    rfl
  rw [resume_iff, resolved_of_sameLive (undo_of_exists hexists), resolved_of_link hlive hdir]
  exact ⟨fun hsame hserves => resolved_ne h (hsame hserves), fun hno hserves => absurd hserves hno⟩

/-- **The pointer is not set**: live is as it was, or a plain directory that is moved back. -/
theorem resume_of_not_activates {f : Files} {w₂ w₃ : World}
    (hretained : Retained f receipt w₂.files)
    (hsame : SameLive w₂ w₃) (hfiles : f.resolved = files.resolved) (hlive : f.live = files.live) :
    AllOrNothing files candidate
        (resumeService env e (stateOf (undoMigration env receipt w₃))) ↔
      (Serves env .resume → ∀ entries, files.live = .dir entries → ∀ op,
        env.fails (.undo op) = none) := by
  rw [resume_iff]
  generalize hend : w₂.files = f₂ at hretained
  cases hretained with
  | link hlink =>
    rw [undo_of_not_plain rfl, resolved_of_sameLive hsame, hend, hfiles]
    refine iff_of_true (fun _ => rfl) fun _ entries heq => ?_
    rw [← hlive, hlink] at heq
    cases heq
  | absent habsent =>
    rw [undo_of_not_plain rfl, resolved_of_sameLive hsame, hend, hfiles]
    refine iff_of_true (fun _ => rfl) fun _ entries heq => ?_
    rw [← hlive, habsent] at heq
    cases heq
  | @dir entries hdir =>
    have habsent : w₃.files.live = .absent := by rw [hsame.1, hend]
    have hlegacy : w₃.files.releases.get? legacyName = some (.dir entries) := by
      rw [hsame.2, hend]
      exact Table.get?_put_self _ _ _
    have hcases := @undo_spec w₃ entries ⟨some (legacyName, []), true, some legacyName⟩ env rfl rfl
      habsent hlegacy
    rcases hcases with ⟨hall, hback⟩ | ⟨hnot, hgone⟩
    · refine iff_of_true (fun _ => ?_) fun _ _ _ => hall
      rw [← hfiles]
      exact resolved_congr (hback.trans hdir.symm) fun r i heq => by rw [hdir] at heq; cases heq
    · constructor
      · intro hres hserves
        have heq := hres hserves
        rw [← hfiles] at heq
        unfold Files.resolved at heq
        rw [hgone, hdir] at heq
        cases heq
      · exact fun h hserves => absurd (h hserves entries (hlive ▸ hdir)) hnot

/-- Before the pointer is set, a failure is followed by the recovery. -/
theorem switch_of_error {source : Option (String × List String)} {w₁ : World}
    (h : (do
      prepare env source candidate staged
      activateRelease env candidate : Action SwitchReceipt) w = .error e w₁) :
    switchRelease env source candidate staged w = resumeService env e w₁ := by
  unfold switchRelease
  rw [bind_of_ok (attempt_of_error h)]

/-- **Once the pointer is set**, the new release comes up, or the old one is restored. -/
theorem switch_of_activated {source : Option (String × List String)} {f : Files} {w₁ w₂ w₃ : World}
    {entries : List (String × Node)} (hprepare : prepare env source candidate staged w = .ok u w₁)
    (hactivate : activateRelease env candidate w₁ = .ok receipt w₃)
    (hretained : Retained f receipt w₂.files) (hfiles : f.resolved = files.resolved)
    (hlive : w₃.files.live = .link candidate.name [])
    (hreleases : w₃.files.releases = w₂.files.releases)
    (hdir : w₃.files.releases.get? candidate.name = some (.dir entries)) :
    AllOrNothing files candidate (switchRelease env source candidate staged w) := by
  unfold switchRelease
  rw [bind_of_ok (attempt_of_ok ((bind_of_ok hprepare).trans hactivate))]
  dsimp only
  cases hstart : startService env .switch "health check failed after restart" w₃ with
  | error e w₄ =>
    have hw₄ : w₄.files = w₃.files := keeps_startService.of_error hstart
    rw [bind_of_ok (attempt_of_error hstart)]
    exact rollBack_sound hretained (by rw [hw₄, hlive]) (by rw [hw₄, hreleases]) hfiles
  | ok u w₄ =>
    obtain ⟨w₅, hstart', hw₅, hlog⟩ := startService_of_serves (w := w₃)
      (serves_of_startService hstart)
    have heq := hstart.symm.trans hstart'
    injection heq with _ hw₄
    subst hw₄
    rw [bind_of_ok (attempt_of_ok hstart)]
    refine ⟨⟨.dir entries, ?_⟩, getLast?_of_restarted hlog⟩
    rw [hw₅]
    exact resolved_of_link hlive hdir

/-- **The transaction from the old release on that is retained.** -/
theorem switch_iff_of_retained {source : Option (String × List String)} {w₁ w₂ : World}
    (h : Apart w.files candidate staged)
    (hprepare : prepare env source candidate staged w = .ok u w₁)
    (hretain : retainPrevious env candidate w₁ = .ok receipt w₂) :
    AllOrNothing w.files candidate (switchRelease env source candidate staged w) ↔
      (Serves env .resume → PointerSpared env w.files) := by
  have hkept := (keeps_prepare source).of_ok hprepare
  have hfiles := resolved_of_kept h hkept
  obtain ⟨hretained, entries, hdir⟩ := retained_of_ok hretain
  have hspec := hretained.spec
  have hactivates := activates_congr env (hspec.1.trans hkept.pointer)
  have hcandidate : w₂.files.releases.get? candidate.name = some (.dir entries) := by
    rw [hretained.releases (ne_legacyName h.accepted.named), hdir]
  rcases pointAt_cases env candidate hspec.2 with
    ⟨hactivated, w₃, hlive, hreleases, hok, herror⟩ | ⟨hnot, e, w₃, herror, hsame⟩
  · have hdir₃ : w₃.files.releases.get? candidate.name = some (.dir entries) := by
      rw [hreleases, hcandidate]
    cases hleft : env.fails (.pointer .left) with
    | none =>
      refine iff_of_true ?_ fun _ =>
        ⟨fun _ => hleft, fun hno => absurd (hactivates.mp hactivated) hno⟩
      exact switch_of_activated hprepare (activate_of_ok hretain (hok hleft)) hretained hfiles hlive
        hreleases hdir₃
    | some e =>
      -- the pointer is set, and the recovery takes it for the old one
      obtain ⟨e', hactivate⟩ := activate_of_error hretain (herror e hleft)
      rw [switch_of_error ((bind_of_ok hprepare).trans hactivate), resume_of_left h hlive hdir₃]
      constructor
      · exact fun hno hserves => absurd hserves hno
      · intro hspared hserves
        have hnone := (hspared hserves).1 (hactivates.mp hactivated)
        rw [hleft] at hnone
        cases hnone
  · -- the pointer is not set, and the migration is undone
    obtain ⟨e', hactivate⟩ := activate_of_error hretain herror
    rw [switch_of_error ((bind_of_ok hprepare).trans hactivate),
      resume_of_not_activates hretained hsame hfiles hkept.live]
    constructor
    · exact fun hundo hserves =>
        ⟨fun hyes => absurd (hactivates.mpr hyes) hnot, fun _ => hundo hserves⟩
    · exact fun hspared hserves => (hspared hserves).2 fun hyes => hnot (hactivates.mpr hyes)

/-- **The transaction from the stop of the service on.** -/
theorem switch_iff (env : Env) (source : Option (String × List String))
    (h : Apart w.files candidate staged) :
    AllOrNothing w.files candidate (switchRelease env source candidate staged w) ↔
      ((∃ receipt w', (do
          prepare env source candidate staged
          retainPrevious env candidate : Action SwitchReceipt) w = .ok receipt w') →
        Serves env .resume → PointerSpared env w.files) := by
  cases hprepare : prepare env source candidate staged w with
  | error e w₁ =>
    rw [switch_of_error (bind_of_error hprepare), bind_of_error hprepare]
    -- the old release was never left, and is brought up again
    refine iff_of_true (resume_iff.mpr fun _ => ?_) ?_
    · exact resolved_of_kept h ((keeps_prepare source).of_error hprepare)
    · rintro ⟨receipt, w', h⟩
      cases h
  | ok u w₁ =>
    have hfiles := resolved_of_kept h ((keeps_prepare source).of_ok hprepare)
    rw [bind_of_ok hprepare]
    cases hretain : retainPrevious env candidate w₁ with
    | error e w₂ =>
      rw [switch_of_error ((bind_of_ok hprepare).trans (activate_of_retain_error hretain))]
      refine iff_of_true (resume_iff.mpr fun _ => ?_) ?_
      · rw [files_of_retain_error hretain, hfiles]
      · rintro ⟨receipt, w', h⟩
        cases h
    | ok receipt w₂ =>
      rw [switch_iff_of_retained h hprepare hretain]
      exact ⟨fun hspared _ => hspared, fun hspared => hspared ⟨receipt, w₂, rfl⟩⟩

/-! ### The whole transaction -/

theorem keeps_readSource : Keeps Silent (readSource env) := by
  unfold readSource
  refine keeps_get.bind fun w₀ => Keeps.bind ?_ fun _ => (keeps_fault _).bind fun _ => ?_
  · cases w₀.files.liveDir with
    | relative => exact keeps_throw _
    | unnamed => exact keeps_throw _
    | anchor => exact (keeps_fault _).bind fun _ => keeps_throw _
    | home => exact (keeps_fault _).bind fun _ => (keeps_fault _).bind fun _ => keeps_throw _
    | ordinary => exact (keeps_fault _).bind fun _ => keeps_fault _
  · cases w₀.files.live with
    | link release inner =>
      exact (keeps_fault _).bind fun _ => (keeps_raiseIf _ _).bind fun _ => keeps_pure _
    | foreign dangling => exact (keeps_fault _).bind fun _ => keeps_throw _
    | absent => exact keeps_pure _
    | dir entries => exact keeps_pure _
    | other => exact keeps_pure _

/-- **What live leads to is read** exactly if no operation raises. -/
theorem readSource_iff (env : Env) (h : Accepted w.files candidate) :
    (∃ source w', readSource env w = .ok source w') ↔
      ∀ op, (op = .resolve → w.files.live.isSymlink = true) → env.fails (.source op) = none := by
  unfold readSource
  rw [get_bind, h.ordinary]
  dsimp only [livePath]
  constructor
  · rintro ⟨source, w', hread⟩ op hop
    obtain ⟨_, w₁, hpath, hread⟩ := seq_eq_ok_iff.mp hread
    obtain ⟨_, _, hparent, hhome⟩ := seq_eq_ok_iff.mp hpath
    obtain ⟨_, w₂, hsymlink, hread⟩ := seq_eq_ok_iff.mp hread
    cases op with
    | parent => exact (fault_eq_ok_iff.mp hparent).1
    | home => exact (fault_eq_ok_iff.mp hhome).1
    | isSymlink => exact (fault_eq_ok_iff.mp hsymlink).1
    | resolve =>
      have hlink := hop rfl
      cases hlive : w.files.live with
      | link release inner =>
        rw [hlive] at hread
        obtain ⟨_, _, hresolve, -⟩ := seq_eq_ok_iff.mp hread
        exact (fault_eq_ok_iff.mp hresolve).1
      | foreign dangling => exact absurd hlive (h.inside dangling)
      | absent => rw [hlive] at hlink; cases hlink
      | dir entries => rw [hlive] at hlink; cases hlink
      | other => rw [hlive] at hlink; cases hlink
  · intro hops
    have hparent := hops .parent (fun heq => by cases heq)
    have hhome := hops .home (fun heq => by cases heq)
    have hsymlink := hops .isSymlink (fun heq => by cases heq)
    have hpath : (do env.fault (.source .parent); env.fault (.source .home) : Action Unit) w
      = .ok () w :=
      (bind_of_ok (fault_of_none hparent w)).trans (fault_of_none hhome w)
    rw [bind_of_ok hpath, bind_of_ok (fault_of_none hsymlink w)]
    cases hlive : w.files.live with
    | link release inner =>
      dsimp only
      rw [bind_of_ok (fault_of_none (hops .resolve fun _ => by rw [hlive]; rfl) w)]
      obtain ⟨node, hnode⟩ := h.prior release inner hlive
      rw [bind_of_ok (raiseIf_of_false (by rw [hnode]; rfl))]
      exact ⟨_, w, rfl⟩
    | foreign dangling => exact absurd hlive (h.inside dangling)
    | absent => exact ⟨_, w, rfl⟩
    | dir entries => exact ⟨_, w, rfl⟩
    | other => exact ⟨_, w, rfl⟩

theorem running_of_checkIdle {reply : Reply} : Running ([] ++ [(Call.checkIdle, reply)]) := by
  refine .inl ?_
  intro x hx round heq
  rw [List.nil_append, List.mem_singleton] at hx
  rw [hx] at heq
  cases heq

theorem accepted_of_validate (h : validate env candidate staged w = .ok u w') :
    Accepted w.files candidate := by
  obtain ⟨_, h⟩ := check_eq_ok h
  obtain ⟨_, _, hensure, -⟩ := seq_eq_ok_iff.mp h
  exact accepted_of_ensure hensure

/-- **A switch is all or nothing exactly if no operation raises at the two places.** -/
theorem allOrNothing_iff (hfresh : ∀ inner, files.live ≠ .link staged.name inner) :
    AllOrNothing files candidate (runDeploymentTransaction env candidate staged files.start) ↔
      Spared env files candidate staged := by
  unfold runDeploymentTransaction
  cases hvalid : validate env candidate staged files.start with
  | error e w₁ =>
    -- nothing was changed, and nothing was called
    obtain ⟨hw₁, hlog⟩ := (keeps_check _).of_error hvalid
    rw [bind_of_ok (attempt_of_error hvalid)]
    refine iff_of_true ⟨congrArg Files.resolved hw₁, .inl ?_⟩ ⟨?_, ?_⟩
    · intro x hx
      rw [hlog] at hx
      cases hx
    · rintro ⟨w, h⟩
      rw [hvalid] at h
      cases h
    · rintro ⟨receipt, w, h⟩
      unfold untilPointer at h
      rw [bind_of_error hvalid] at h
      cases h
  | ok u w₁ =>
    obtain ⟨hw₁, hlog⟩ := (keeps_check _).of_ok hvalid
    replace hw₁ : w₁.files = files := hw₁
    replace hlog : w₁.log = [] := hlog
    have haccepted : Accepted files candidate := accepted_of_validate hvalid
    rw [bind_of_ok (attempt_of_ok hvalid)]
    dsimp only
    -- unless the host says that it is idle, nothing is changed
    cases hidle : env.reply .checkIdle with
    | raised text =>
      rw [bind_of_ok (attempt_of_error (call_of_raised hidle))]
      refine iff_of_true ⟨congrArg Files.resolved hw₁, by
        rw [hlog]; exact running_of_checkIdle⟩ ⟨?_, ?_⟩
      · intro _ h
        cases h.symm.trans hidle
      · rintro ⟨receipt, w, h⟩
        unfold untilPointer at h
        rw [bind_of_ok hvalid, bind_of_error (call_of_raised hidle)] at h
        cases h
    | returned value =>
      have hcall := call_eq_ok_iff (w := w₁).mpr ⟨hidle, rfl⟩
      rw [bind_of_ok (attempt_of_ok hcall)]
      cases value with
      | false =>
        refine iff_of_true ⟨congrArg Files.resolved hw₁, by
          rw [hlog]; exact running_of_checkIdle⟩ ⟨?_, ?_⟩
        · intro _ h
          cases h.symm.trans hidle
        · rintro ⟨receipt, w, h⟩
          unfold untilPointer at h
          rw [bind_of_ok hvalid, bind_of_ok hcall] at h
          cases h
      | true =>
        dsimp only
        set w₂ : World := { w₁ with log := w₁.log ++ [(.checkIdle, .returned true)] }
        have hfiles : w₂.files = files := hw₁
        have haccepted₂ : Accepted w₂.files candidate := by
          rw [hfiles]
          exact haccepted
        have hsource := readSource_iff env haccepted₂
        rw [hfiles] at hsource
        have huntil : untilPointer env candidate staged files.start =
            (do
              let source ← readSource env
              prepare env source candidate staged
              retainPrevious env candidate : Action SwitchReceipt) w₂ := by
          unfold untilPointer
          rw [bind_of_ok hvalid, bind_of_ok hcall]
          exact bind_of_ok (raiseIf_of_false rfl)
        cases hread : readSource env w₂ with
        | error e w₃ =>
          rw [bind_of_error hread]
          refine iff_of_false id fun hspared => ?_
          obtain ⟨source, w', h⟩ := hsource.mpr (hspared.source ⟨w₁, hvalid⟩ hidle)
          rw [hread] at h
          cases h
        | ok source w₃ =>
          have hw₃ : w₃.files = files := (keeps_readSource.of_ok hread).1.trans hfiles
          have hapart : Apart w₃.files candidate staged := by
            rw [hw₃]
            exact ⟨haccepted, hfresh⟩
          -- what is left is the switch, from the state of the start
          have hswitch := switch_iff env source hapart
          rw [hw₃] at hswitch
          rw [bind_of_ok hread, hswitch]
          rw [bind_of_ok hread] at huntil
          constructor
          · intro h
            refine ⟨fun _ _ => hsource.mp ⟨source, w₃, hread⟩, fun hreached => h ?_⟩
            rw [huntil] at hreached
            exact hreached
          · intro hspared hreached
            refine hspared.pointer ?_
            rw [huntil]
            exact hreached

/-! ### Runs that are taken for failed ones -/

def Resolved.place? : Resolved → Option (Option (String × List String))
  | .tree place _ => some place
  | _ => none

/-- How a transaction ended, and where live leads to; `none` where an error is raised to the
caller. -/
def ending : Result String World TransactionOutcome →
    Option (TransactionResult × Option (Option (String × List String)))
  | .ok outcome w => some (outcome.result, w.files.resolved.place?)
  | .error _ _ => none

theorem not_allOrNothing_of_raised {res : Result String World TransactionOutcome}
    (h : ending res = none) : ¬ AllOrNothing files candidate res := by
  cases res with
  | ok outcome w => cases h
  | error e w => exact id

theorem not_allOrNothing_of_failed {res : Result String World TransactionOutcome}
    {place : Option (Option (String × List String))} (h : ending res = some (.failed, place))
    (hplace : place ≠ files.resolved.place?) : ¬ AllOrNothing files candidate res := by
  cases res with
  | error e w => cases h
  | ok outcome w =>
    obtain ⟨result, message, previous⟩ := outcome
    injection h with h
    injection h with hresult hend
    replace hresult : result = .failed := hresult
    subst hresult
    rintro ⟨hsame, -⟩
    exact hplace (hend.symm.trans (congrArg Resolved.place? hsame))

def cRelease : Place where
  name := "cccccccccccccccccccccccccccccccccccccccc"

def stage : Place where
  name := ".cccccccccccc.staging-1"

def stagedBeside (live : Live) : Files where
  parent := "/srv"
  name := "dashboard"
  live
  releases := (Table.empty.put "bbbbbbbbbbbbbbbbbbbbbbbbbbbbbbbbbbbbbbbb"
    (.dir [("hub.db", .file "rows")])).put stage.name (.dir [])

/-- Every callable returns, and the check for health passes; these operations raise. -/
def raisingAt (sites : List Site) : Env where
  fails := fun site => if site ∈ sites then some "Input/output error" else none
  reply := fun _ => .returned true
  osError := fun path => "No such file or directory: " ++ path

def linked : Files := stagedBeside (.link "bbbbbbbbbbbbbbbbbbbbbbbbbbbbbbbbbbbbbbbb" [])

def plain : Files := stagedBeside (.dir [("hub.db", .file "rows")])

theorem fresh_linked : ∀ inner, linked.live ≠ .link stage.name inner := by
  intro inner heq
  injection heq with hname
  exact absurd hname (by decide +kernel)

theorem fails_raisingAt_nil (site : Site) : (raisingAt []).fails site = none := rfl

/-- No operation raises. -/
theorem allOrNothing_iff_one : AllOrNothing linked cRelease
    (runDeploymentTransaction (raisingAt []) cRelease stage linked.start) := by
  have hspared : Spared (raisingAt []) linked cRelease stage := by
    refine ⟨?_, ?_⟩
    · intro _ _ op _
      exact fails_raisingAt_nil _
    · intro _ _
      exact ⟨fun _ => fails_raisingAt_nil _, fun _ _ _ _ => fails_raisingAt_nil _⟩
  rw [allOrNothing_iff fresh_linked]
  exact hspared

def endingAt (sites : List Site) (files : Files) :
    Option (TransactionResult × Option (Option (String × List String))) :=
  ending (runDeploymentTransaction (raisingAt sites) cRelease stage files.start)

theorem ending_left :
    endingAt [.pointer .left] linked = some (.failed, some (some (cRelease.name, []))) := by
  decide +kernel

theorem ending_undo : endingAt [.pointer .create, .undo .replace] plain = some (.failed, none) := by
  decide +kernel

theorem ending_resolve : endingAt [.source .resolve] linked = none := by decide +kernel

/-- **The candidate is live, or nothing is, and the transaction is reported as failed; or its error
is raised.** -/
theorem switched_unnoticed :
    ¬ AllOrNothing linked cRelease
        (runDeploymentTransaction (raisingAt [.pointer .left]) cRelease stage linked.start) ∧
      ¬ AllOrNothing plain cRelease
        (runDeploymentTransaction (raisingAt [.pointer .create, .undo .replace]) cRelease stage
          plain.start) ∧
      ¬ AllOrNothing linked cRelease
        (runDeploymentTransaction (raisingAt [.source .resolve]) cRelease stage linked.start) := by
  refine ⟨?_, ?_, ?_⟩
  · exact not_allOrNothing_of_failed ending_left (by decide +kernel)
  · exact not_allOrNothing_of_failed ending_undo (by decide +kernel)
  · exact not_allOrNothing_of_raised ending_resolve

end Deploy
