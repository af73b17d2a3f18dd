import RunnerDashboard.Deploy.Transaction

/-!
# The steps of a switch

What each part of a transaction does to the directories, whether it returns or raises.

## Main results

* `keeps_prepare` — **before the switch, live and the old release are as they were.**
* `restored` — **a restored target is the one of before.**
-/

namespace Deploy

open Attempt Sql EStateM

variable {env : Env} {site : ℕ → Site} {files : Files} {candidate staged : Place} {w w' : World}
  {k k' : ℕ} {u : Unit} {e : String}

/-! ### Operations and calls -/

theorem fault_of_none {σ : Type} {s : Site} (h : env.fails s = none) (t : σ) :
    env.fault s t = .ok () t := by
  unfold Env.fault
  rw [h]
  rfl

theorem fault_of_some {σ : Type} {s : Site} (h : env.fails s = some e) (t : σ) :
    env.fault s t = .error e t := by
  unfold Env.fault
  rw [h]
  rfl

theorem fault_eq_ok_iff {σ : Type} {s : Site} {t t' : σ} :
    env.fault s t = .ok u t' ↔ env.fails s = none ∧ t' = t := by
  cases h : env.fails s with
  | none =>
    rw [fault_of_none h]
    constructor
    · intro heq
      injection heq with _ ht
      exact ⟨rfl, ht.symm⟩
    · rintro ⟨-, rfl⟩
      rfl
  | some text =>
    rw [fault_of_some h]
    refine iff_of_false (fun heq => by cases heq) ?_
    rintro ⟨h, -⟩
    cases h

/-- An action leaves the directories as they are. -/
def SameFiles (w w' : World) : Prop := w'.files = w.files

instance : Std.Refl SameFiles := ⟨fun _ => rfl⟩

instance : IsTrans World SameFiles := ⟨fun _ _ _ h h' => Eq.trans h' h⟩

/-- It makes no calls either. -/
def Silent (w w' : World) : Prop := w'.files = w.files ∧ w'.log = w.log

instance : Std.Refl Silent := ⟨fun _ => ⟨rfl, rfl⟩⟩

instance : IsTrans World Silent := ⟨fun _ _ _ h h' => ⟨h'.1.trans h.1, h'.2.trans h.2⟩⟩

theorem keeps_fault (s : Site) : Keeps Silent (env.fault s) := by
  intro w
  cases h : env.fails s with
  | none =>
    rw [fault_of_none h]
    exact ⟨rfl, rfl⟩
  | some text =>
    rw [fault_of_some h]
    exact ⟨rfl, rfl⟩

theorem keeps_check {α : Type} (m : Files → Check α) : Keeps Silent (check m) := by
  intro w
  unfold check zoom
  cases m w.files w.step with
  | ok a k => exact ⟨rfl, rfl⟩
  | error e k => exact ⟨rfl, rfl⟩

theorem sameFiles_of_silent {α : Type} {m : Action α} (h : Keeps Silent m) : Keeps SameFiles m :=
  h.mono fun _ _ hsilent => hsilent.1

theorem check_eq_ok {α : Type} {m : Files → Check α} {a : α} (h : check m w = .ok a w') :
    ∃ k, m w.files w.step = .ok a k := by
  obtain ⟨k, hm, -⟩ := zoom_eq_ok_iff.mp h
  exact ⟨k, hm⟩

theorem keeps_call (c : Call) : Keeps SameFiles (call env c) := by
  intro w
  unfold call
  cases h : env.reply c with
  | returned value => exact rfl
  | raised text => exact rfl

theorem call_eq_ok_iff {c : Call} {value : Bool} : call env c w = .ok value w' ↔
    env.reply c = .returned value ∧ w' = { w with log := w.log ++ [(c, .returned value)] } := by
  unfold call
  cases h : env.reply c with
  | returned value' =>
    constructor
    · intro heq
      injection heq with hv hw
      subst hv
      exact ⟨rfl, hw.symm⟩
    · rintro ⟨heq, rfl⟩
      injection heq with hv
      subst hv
      rfl
  | raised text =>
    refine iff_of_false (fun heq => by cases heq) ?_
    rintro ⟨heq, -⟩
    cases heq

theorem call_of_raised {c : Call} (h : env.reply c = .raised e) :
    call env c w = .error e { w with log := w.log ++ [(c, .raised e)] } := by
  unfold call
  rw [h]
  rfl

/-! ### The validation -/

/-- What the validation of a candidate has found. -/
structure Accepted (files : Files) (candidate : Place) : Prop where
  ordinary : files.liveDir = .ordinary
  named : isReleaseName candidate.name = true
  free : files.releases.get? candidate.name = none
  prior : ∀ release inner, files.live = .link release inner →
    ∃ node, files.lookup release inner = some node
  inside : ∀ dangling, files.live ≠ .foreign dangling

theorem ordinary_of_livePath {σ : Type} {parent home : EStateM String σ Unit} {d : LiveDir}
    {s s' : σ} (h : livePath parent home d s = .ok u s') : d = .ordinary := by
  cases d with
  | relative => cases h
  | unnamed => cases h
  | anchor =>
    obtain ⟨_, _, -, h⟩ := seq_eq_ok_iff.mp h
    cases h
  | home =>
    obtain ⟨_, _, -, h⟩ := seq_eq_ok_iff.mp h
    obtain ⟨_, _, -, h⟩ := seq_eq_ok_iff.mp h
    cases h
  | ordinary => rfl

theorem eq_none_of_not_exists {x : Option Node} (hlink : x.any Node.isSymlink = false)
    (hexists : x.any Node.exists = false) : x = none := by
  cases x with
  | none => rfl
  | some node =>
    cases node with
    | link target => cases hlink
    | file text => cases hexists
    | other => cases hexists
    | dir entries => cases hexists

/-- **A candidate that is accepted** has a name and a place of its own, and live leads to a
release. -/
theorem accepted_of_ensure (h : ensureCandidateAvailable env site files candidate k = .ok u k') :
    Accepted files candidate := by
  unfold ensureCandidateAvailable at h
  simp only [seq_eq_ok_iff, raiseIf_eq_ok_iff] at h
  obtain ⟨_, _, hlive, _, _, -, _, _, -, _, _, -, _, _, -, _, _, -, _, _, ⟨hname, -⟩, _, _, -,
    _, _, ⟨hlink, -⟩, _, _, -, _, _, ⟨hexists, -⟩, _, _, -, hend⟩ := h
  refine ⟨ordinary_of_livePath hlive, by
    simpa using hname, eq_none_of_not_exists hlink hexists, ?_, ?_⟩
  · intro release inner heq
    rw [heq] at hend
    dsimp only [checkPrior] at hend
    obtain ⟨_, _, -, hend⟩ := seq_eq_ok_iff.mp hend
    cases hlookup : files.lookup release inner with
    | none =>
      rw [hlookup] at hend
      cases hend
    | some node => exact ⟨node, rfl⟩
  · intro dangling heq
    rw [heq] at hend
    dsimp only [rejectForeign] at hend
    obtain ⟨_, _, -, hend⟩ := seq_eq_ok_iff.mp hend
    obtain ⟨_, _, -, hend⟩ := seq_eq_ok_iff.mp hend
    obtain ⟨_, _, -, hend⟩ := seq_eq_ok_iff.mp hend
    cases hend

/-- A release has another name than the place of a migrated directory. -/
theorem ne_legacyName {name : String} (h : isReleaseName name = true) : name ≠ legacyName := by
  rintro rfl
  exact absurd h (by decide +kernel)

theorem dir_of_checked {place : Place}
    (h : checkedExistingCandidate env site files place k = .ok u k') :
    ∃ entries, files.releases.get? place.name = some (.dir entries) := by
  unfold checkedExistingCandidate at h
  simp only [seq_eq_ok_iff, raiseIf_eq_ok_iff] at h
  obtain ⟨_, _, -, _, _, -, _, _, -, _, _, ⟨hlink, -⟩, _, _, -, _, _, ⟨hroot, -⟩, _, _, -,
    hdir, -⟩ := h
  have hinRoot : place.inRoot = true := by simpa using hroot
  rw [hinRoot, Bool.true_and] at hlink
  cases hnode : files.releases.get? place.name with
  | none =>
    rw [hnode] at hdir
    cases hdir
  | some node =>
    rw [hnode] at hlink hdir
    cases node with
    | dir entries => exact ⟨entries, rfl⟩
    | link target => cases hlink
    | file text => cases hdir
    | other => cases hdir

/-! ### Before the switch -/

/-- Live, the temporary pointer and the releases but the staged one and the candidate are as they
were. -/
structure Kept (candidate staged : Place) (w w' : World) : Prop where
  live : w'.files.live = w.files.live
  pointer : w'.files.pointer = w.files.pointer
  releases : ∀ name, name ≠ staged.name → name ≠ candidate.name →
    w'.files.releases.get? name = w.files.releases.get? name

instance : Std.Refl (Kept candidate staged) := ⟨fun _ => ⟨rfl, rfl, fun _ _ _ => rfl⟩⟩

instance : IsTrans World (Kept candidate staged) :=
  ⟨fun _ _ _ h h' => ⟨h'.live.trans h.live, h'.pointer.trans h.pointer,
    fun name hs hc => (h'.releases name hs hc).trans (h.releases name hs hc)⟩⟩

theorem kept_of_sameFiles (h : SameFiles w w') : Kept candidate staged w w' :=
  ⟨congrArg Files.live h, congrArg Files.pointer h,
    fun name _ _ => congrArg (fun f : Files => f.releases.get? name) h⟩

theorem keeps_copyState (source : Option (String × List String)) :
    Keeps (Kept candidate staged) (copyState env source staged) := by
  intro w
  unfold copyState
  dsimp only
  cases w.files.releases.get? staged.name with
  | none => exact refl_of _ w
  | some target =>
    dsimp only [zoom]
    split
    · exact ⟨rfl, rfl, fun name hs _ => Table.get?_put_of_ne _ hs _⟩
    · exact ⟨rfl, rfl, fun name hs _ => Table.get?_put_of_ne _ hs _⟩

theorem keeps_renameStaged : Keeps (Kept candidate staged) (renameStaged env candidate staged) := by
  unfold renameStaged
  refine Keeps.bind ((sameFiles_of_silent (keeps_fault _)).mono fun _ _ =>
    kept_of_sameFiles) fun _ => ?_
  refine Keeps.bind keeps_get fun w₀ => ?_
  split
  · intro w
    refine ⟨rfl, rfl, fun name hs hc => ?_⟩
    show ((w.files.releases.delete _).put _ _).get? name = _
    rw [Table.get?_put_of_ne _ hc, Table.get?_delete]
    cases w.files.releases.get? name with
    | none => rfl
    | some node => simp [hs]
  · exact keeps_throw _

/-- **Before the switch, live and the old release are as they were.** -/
theorem keeps_prepare (source : Option (String × List String)) :
    Keeps (Kept candidate staged) (prepare env source candidate staged) := by
  have hcall : ∀ c, Keeps (Kept candidate staged) (call env c) := fun c =>
    (keeps_call c).mono fun _ _ => kept_of_sameFiles
  unfold prepare
  refine (hcall _).bind fun _ => (hcall _).bind fun quiesced => (keeps_raiseIf _ _).bind fun _ => ?_
  refine (keeps_copyState source).bind fun _ => ?_
  refine Keeps.bind ?_ fun _ => keeps_renameStaged
  exact (sameFiles_of_silent (keeps_check _)).mono fun _ _ => kept_of_sameFiles

/-! ### The old release is kept -/

/-- How the old release is kept: a link stays, a plain directory becomes a release. -/
inductive Retained (f : Files) : SwitchReceipt → Files → Prop
  | link {release : String} {inner : List String} (hlive : f.live = .link release inner) :
      Retained f ⟨some (release, inner), false, none⟩ f
  | dir {entries : List (String × Node)} (hlive : f.live = .dir entries) :
      Retained f ⟨some (legacyName, []), true, some legacyName⟩
        { f with live := .absent, releases := f.releases.put legacyName (.dir entries) }
  | absent (hlive : f.live = .absent) : Retained f ⟨none, false, none⟩ f

theorem retained_of_ok {receipt : SwitchReceipt}
    (h : retainPrevious env candidate w = .ok receipt w') :
    Retained w.files receipt w'.files ∧
      ∃ entries, w.files.releases.get? candidate.name = some (.dir entries) := by
  unfold retainPrevious at h
  obtain ⟨_, w₁, hchecked, h⟩ := seq_eq_ok_iff.mp h
  obtain ⟨_, w₂, hop, h⟩ := seq_eq_ok_iff.mp h
  rw [get_bind] at h
  obtain ⟨_, hdir⟩ := check_eq_ok hchecked
  refine ⟨?_, dir_of_checked hdir⟩
  have hfiles : w₂.files = w.files :=
    ((sameFiles_of_silent (keeps_check _)).of_ok hop).trans
      ((sameFiles_of_silent (keeps_check _)).of_ok hchecked)
  rw [← hfiles]
  have hops : ∀ {α : Type} {m : Files → Check α} {a : α} {v v' : World}, check m v = .ok a v' →
      v'.files = v.files := fun hm => (sameFiles_of_silent (keeps_check _)).of_ok hm
  -- only a link, a directory and nothing at all are retained
  cases hlive : w₂.files.live with
  | link release inner =>
    rw [hlive] at h
    obtain ⟨_, w₃, hprior, h⟩ := seq_eq_ok_iff.mp h
    injection h with hreceipt hw
    subst hreceipt hw
    rw [hops hprior]
    exact .link hlive
  | foreign dangling =>
    rw [hlive] at h
    obtain ⟨_, _, -, h⟩ := seq_eq_ok_iff.mp h
    cases h
  | dir entries =>
    rw [hlive] at h
    obtain ⟨_, w₃, h₃, h⟩ := seq_eq_ok_iff.mp h
    obtain ⟨_, w₄, h₄, h⟩ := seq_eq_ok_iff.mp h
    obtain ⟨_, w₅, h₅, h⟩ := seq_eq_ok_iff.mp h
    obtain ⟨_, w₆, h₆, h⟩ := seq_eq_ok_iff.mp h
    have hsame : w₆.files = w₂.files :=
      (hops h₆).trans ((hops h₅).trans ((hops h₄).trans (hops h₃)))
    obtain ⟨_, w₇, hchange, h⟩ := seq_eq_ok_iff.mp h
    injection hchange with _ hw₇
    injection h with hreceipt hw
    subst hreceipt hw hw₇
    show Retained _ _ { w₆.files with live := .absent, releases := _ }
    rw [hsame]
    exact .dir hlive
  | other =>
    rw [hlive] at h
    obtain ⟨_, _, -, h⟩ := seq_eq_ok_iff.mp h
    obtain ⟨_, _, -, h⟩ := seq_eq_ok_iff.mp h
    cases h
  | absent =>
    rw [hlive] at h
    obtain ⟨_, w₃, h₃, h⟩ := seq_eq_ok_iff.mp h
    obtain ⟨_, w₄, h₄, h⟩ := seq_eq_ok_iff.mp h
    injection h with hreceipt hw
    subst hreceipt hw
    rw [hops h₄, hops h₃]
    exact .absent hlive

/-- A sequence whose last action does not fail keeps the directories where it fails. -/
theorem files_of_seq_error {α β : Type} {m : Action α} {l : α → Action β}
    (hm : Keeps SameFiles m) (hl : ∀ a v v' e, l a v = .error e v' → v'.files = v.files)
    (h : (m >>= l) w = .error e w') : w'.files = w.files := by
  rcases seq_eq_error_iff.mp h with h | ⟨a, w₁, h₁, h⟩
  · exact hm.of_error h
  · exact (hl a w₁ w' e h).trans (hm.of_ok h₁)

/-- **Where the old release is not kept, nothing has changed.** -/
theorem files_of_retain_error (h : retainPrevious env candidate w = .error e w') :
    w'.files = w.files := by
  have hops : ∀ {α : Type} (m : Files → Check α), Keeps SameFiles (check m) := fun m =>
    sameFiles_of_silent (keeps_check m)
  have hthrow : ∀ {α : Type} (text : String), ∀ v v' e,
      (throw text : Action α) v = .error e v' → v'.files = v.files := fun text v v' e h =>
    (keeps_throw (r := SameFiles) text).of_error h
  have hpure : ∀ {α : Type} (a : α), ∀ v v' e,
      (pure a : Action α) v = .error e v' → v'.files = v.files := fun a v v' e h => by cases h
  unfold retainPrevious at h
  refine files_of_seq_error (hops _) (fun _ => ?_) h
  refine fun v v' e => files_of_seq_error (hops _) fun _ => ?_
  refine fun v v' e => files_of_seq_error keeps_get fun w₀ => ?_
  cases w₀.files.live with
  | link release inner =>
    exact fun v v' e => files_of_seq_error (hops _) fun _ => hpure _
  | foreign dangling =>
    exact fun v v' e => files_of_seq_error (hops _) fun _ => hthrow _
  | dir entries =>
    refine fun v v' e => files_of_seq_error (hops _) fun _ => ?_
    refine fun v v' e => files_of_seq_error (hops _) fun _ => ?_
    refine fun v v' e => files_of_seq_error (hops _) fun _ => ?_
    refine fun v v' e => files_of_seq_error (hops _) fun _ => ?_
    exact fun v v' e h => by cases h
  | other =>
    refine fun v v' e => files_of_seq_error (hops _) fun _ => ?_
    exact fun v v' e => files_of_seq_error (hops _) fun _ => hthrow _
  | absent =>
    refine fun v v' e => files_of_seq_error (hops _) fun _ => ?_
    exact fun v v' e => files_of_seq_error (hops _) fun _ => hpure _

/-! ### The pointer -/

/-- The pointer gets to the live path: there was none before, and no operation raises up to
there. -/
structure Switches (env : Env) (site : PointerOp → Site) (files : Files) : Prop where
  pointer : files.pointer = .absent
  ops : ∀ op, op ≠ .left → op ≠ .unlink → op ≠ .resolve → env.fails (site op) = none

def SameLive (w w' : World) : Prop :=
  w'.files.live = w.files.live ∧ w'.files.releases = w.files.releases

instance : Std.Refl SameLive := ⟨fun _ => ⟨rfl, rfl⟩⟩

instance : IsTrans World SameLive := ⟨fun _ _ _ h h' => ⟨h'.1.trans h.1, h'.2.trans h.2⟩⟩

theorem sameLive_of_silent {α : Type} {m : Action α} (h : Keeps Silent m) : Keeps SameLive m :=
  h.mono fun _ _ hsilent =>
    ⟨congrArg Files.live hsilent.1, congrArg Files.releases hsilent.1⟩

variable {pointerSite : PointerOp → Site} {release : String} {inner : List String}

theorem keeps_dropPointer : Keeps SameLive (dropPointer env pointerSite) := by
  unfold dropPointer
  refine (sameLive_of_silent (keeps_fault _)).bind fun _ => keeps_get.bind fun w₀ => ?_
  split
  · refine (sameLive_of_silent (keeps_fault _)).bind fun _ => ?_
    exact fun w => ⟨rfl, rfl⟩
  · exact keeps_pure _

/-- **The pointer is at the live path**, also where the last look at it raises. -/
theorem atomicPointer_of_switches (release : String) (inner : List String)
    (hswitches : Switches env pointerSite w.files)
    (hlive : ∀ entries, w.files.live ≠ .dir entries) :
    ∃ w₁ : World, w₁.files.live = .link release inner ∧ w₁.files.releases = w.files.releases ∧
      (env.fails (pointerSite .left) = none →
        atomicPointer env pointerSite release inner w = .ok () w₁) ∧
      ∀ e, env.fails (pointerSite .left) = some e →
        atomicPointer env pointerSite release inner w = .error e w₁ := by
  obtain ⟨hpointer, hops⟩ := hswitches
  have hnone : w.files.exists w.files.pointer = false := by
    rw [hpointer]
    rfl
  have hnoLink : w.files.pointer.isSymlink = false := by
    rw [hpointer]
    rfl
  let w₀ : World := { w with files := { w.files with pointer := .link release inner } }
  let w₁ : World :=
    { w with files := { w.files with live := .link release inner, pointer := .absent } }
  have hreplace : replacePointer env pointerSite w₀ = .ok () w₁ := by
    unfold replacePointer
    rw [bind_of_ok (fault_of_none (hops .replace (by decide) (by decide) (by decide)) _),
      get_bind]
    cases hl : w₀.files.live with
    | dir entries => exact absurd hl (hlive entries)
    | absent => rfl
    | other => rfl
    | link r i => rfl
    | foreign d => rfl
  have hbody : atomicPointer env pointerSite release inner w =
      ensuring (replacePointer env pointerSite) (dropPointer env pointerSite) w₀ := by
    unfold atomicPointer
    rw [bind_of_ok (fault_of_none (hops .exists (by decide) (by decide) (by decide)) _),
      get_bind,
      bind_of_ok (raiseIf_of_false hnone),
      bind_of_ok (fault_of_none (hops .isSymlink (by decide) (by decide) (by decide)) _),
      bind_of_ok (raiseIf_of_false hnoLink),
      bind_of_ok (fault_of_none (hops .create (by decide) (by decide) (by decide)) _)]
    exact bind_of_ok rfl
  refine ⟨w₁, rfl, rfl, fun hleft => ?_, fun e hleft => ?_⟩
  · rw [hbody]
    refine ensuring_of_ok hreplace ?_
    unfold dropPointer
    rw [bind_of_ok (fault_of_none hleft _)]
    rfl
  · rw [hbody]
    refine ensuring_of_error hreplace ?_
    unfold dropPointer
    rw [bind_of_error (fault_of_some hleft _)]

/-- **The pointer is not at the live path**: this is as it was. -/
theorem atomicPointer_of_not_switches (release : String) (inner : List String)
    (h : ¬ Switches env pointerSite w.files) :
    ∃ e w₁, atomicPointer env pointerSite release inner w = .error e w₁ ∧ SameLive w w₁ := by
  unfold atomicPointer
  cases hexists : env.fails (pointerSite .exists) with
  | some e => exact ⟨e, w, bind_of_error (fault_of_some hexists _), refl_of _ w⟩
  | none =>
    rw [bind_of_ok (fault_of_none hexists _), get_bind]
    cases hthere : w.files.exists w.files.pointer with
    | true => exact ⟨_, w, bind_of_error rfl, refl_of _ w⟩
    | false =>
      rw [bind_of_ok (raiseIf_of_false rfl)]
      cases hsymlink : env.fails (pointerSite .isSymlink) with
      | some e => exact ⟨e, w, bind_of_error (fault_of_some hsymlink _), refl_of _ w⟩
      | none =>
        rw [bind_of_ok (fault_of_none hsymlink _)]
        cases hlink : w.files.pointer.isSymlink with
        | true => exact ⟨_, w, bind_of_error rfl, refl_of _ w⟩
        | false =>
          rw [bind_of_ok (raiseIf_of_false rfl)]
          cases hcreate : env.fails (pointerSite .create) with
          | some e => exact ⟨e, w, bind_of_error (fault_of_some hcreate _), refl_of _ w⟩
          | none =>
            rw [bind_of_ok (fault_of_none hcreate _)]
            have hpointer : w.files.pointer = .absent := by
              cases hp : w.files.pointer with
              | absent => rfl
              | dir entries => rw [hp] at hthere; cases hthere
              | other => rw [hp] at hthere; cases hthere
              | link r i => rw [hp] at hlink; cases hlink
              | foreign d => rw [hp] at hlink; cases hlink
            -- all that is left to fail is the replace
            obtain ⟨e, hreplace⟩ : ∃ e, env.fails (pointerSite .replace) = some e := by
              by_contra hno
              refine h ⟨hpointer, fun op hleft hunlink hresolve => ?_⟩
              cases op with
              | resolve => exact absurd rfl hresolve
              | «exists» => exact hexists
              | isSymlink => exact hsymlink
              | create => exact hcreate
              | replace => exact Option.eq_none_iff_forall_ne_some.mpr fun e he => hno ⟨e, he⟩
              | left => exact absurd rfl hleft
              | unlink => exact absurd rfl hunlink
            let w₀ : World := { w with files := { w.files with pointer := .link release inner } }
            have hfail : replacePointer env pointerSite w₀ = .error e w₀ := by
              unfold replacePointer
              exact bind_of_error (fault_of_some hreplace _)
            obtain ⟨e', hensuring⟩ :=
              exists_ensuring_of_error (h := dropPointer env pointerSite) hfail
            have hchange : change (fun files => { files with pointer := .link release inner }) w =
                .ok () w₀ := rfl
            refine ⟨e', _, (bind_of_ok hchange).trans hensuring, ?_⟩
            exact trans_of SameLive (show SameLive w w₀ from ⟨rfl, rfl⟩) (keeps_dropPointer w₀)

/-! ### Moving back -/

variable {entries : List (String × Node)} {receipt : SwitchReceipt}

theorem moveToLive_of_absent {legacy : String} (hlive : w.files.live = .absent)
    (hlegacy : w.files.releases.get? legacy = some (.dir entries)) :
    ∃ w₁, moveToLive env legacy w = .ok () w₁ ∧ w₁.files.live = .dir entries := by
  unfold moveToLive
  rw [get_bind, hlive, hlegacy]
  exact ⟨_, rfl, rfl⟩

/-- **A plain directory is moved back**, if no operation raises; otherwise nothing is at the live
path. -/
theorem undo_spec (env : Env) (hplain : receipt.previousWasPlainDirectory = true)
    (hmigrated : receipt.migratedTarget = some legacyName) (hlive : w.files.live = .absent)
    (hlegacy : w.files.releases.get? legacyName = some (.dir entries)) :
    ((∀ op, env.fails (.undo op) = none) ∧
        (stateOf (undoMigration env receipt w)).files.live = .dir entries) ∨
      ((¬ ∀ op, env.fails (.undo op) = none) ∧
        (stateOf (undoMigration env receipt w)).files.live = .absent) := by
  have hdir : (w.files.releases.get? legacyName).any Node.isDir = true := by
    rw [hlegacy]
    rfl
  have hfree : (!w.files.exists w.files.live) = true := by
    rw [hlive]
    rfl
  unfold undoMigration
  rw [hplain, hmigrated]
  dsimp only
  cases hisDir : env.fails (.undo .isDir) with
  | some e =>
    rw [bind_of_error (fault_of_some hisDir _)]
    refine .inr ⟨fun h => ?_, hlive⟩
    rw [h .isDir] at hisDir
    cases hisDir
  | none =>
    rw [bind_of_ok (fault_of_none hisDir _), get_bind, if_pos hdir]
    cases hexists : env.fails (.undo .exists) with
    | some e =>
      rw [bind_of_error (fault_of_some hexists _)]
      refine .inr ⟨fun h => ?_, hlive⟩
      rw [h .exists] at hexists
      cases hexists
    | none =>
      rw [bind_of_ok (fault_of_none hexists _), if_pos hfree]
      cases hreplace : env.fails (.undo .replace) with
      | some e =>
        rw [bind_of_error (fault_of_some hreplace _)]
        refine .inr ⟨fun h => ?_, hlive⟩
        rw [h .replace] at hreplace
        cases hreplace
      | none =>
        rw [bind_of_ok (fault_of_none hreplace _)]
        obtain ⟨w₁, hmove, hw₁⟩ := moveToLive_of_absent hlive hlegacy
        rw [hmove]
        refine .inl ⟨fun op => ?_, hw₁⟩
        cases op with
        | isDir => exact hisDir
        | «exists» => exact hexists
        | replace => exact hreplace

theorem undo_of_exists (hlive : w.files.exists w.files.live = true) :
    SameLive w (stateOf (undoMigration env receipt w)) := by
  obtain ⟨previous, plain, migrated⟩ := receipt
  cases plain with
  | false => exact refl_of _ w
  | true =>
    cases migrated with
    | none => exact refl_of _ w
    | some legacy =>
      dsimp only [undoMigration]
      cases hisDir : env.fails (.undo .isDir) with
      | some e =>
        rw [bind_of_error (fault_of_some hisDir _)]
        exact refl_of _ w
      | none =>
        rw [bind_of_ok (fault_of_none hisDir _),
          get_bind]
        by_cases hdir : (w.files.releases.get? legacy).any Node.isDir = true
        · rw [if_pos hdir]
          cases hexists : env.fails (.undo .exists) with
          | some e =>
            rw [bind_of_error (fault_of_some hexists _)]
            exact refl_of _ w
          | none =>
            rw [bind_of_ok (fault_of_none hexists _), if_neg (by simp [hlive])]
            exact refl_of _ w
        · rw [if_neg hdir]
          exact refl_of _ w

theorem undo_of_not_plain (hplain : receipt.previousWasPlainDirectory = false) :
    stateOf (undoMigration env receipt w) = w := by
  unfold undoMigration
  rw [hplain]
  rfl

/-! ### The activation -/

/-- The switch of the activation: the candidate is resolved, and the pointer gets to the live
path. -/
def Activates (env : Env) (files : Files) : Prop :=
  env.fails (.pointer .resolve) = none ∧ Switches env .pointer files

/-- The three ends of the `try` of `activate_release`. -/
theorem pointAt_cases (env : Env) (candidate : Place)
    (hlive : ∀ entries, w.files.live ≠ .dir entries) :
    (Activates env w.files ∧ ∃ w₁ : World,
      w₁.files.live = .link candidate.name [] ∧ w₁.files.releases = w.files.releases ∧
        (env.fails (.pointer .left) = none → pointAt env candidate w = .ok () w₁) ∧
        ∀ e, env.fails (.pointer .left) = some e → pointAt env candidate w = .error e w₁) ∨
      (¬ Activates env w.files ∧ ∃ e w₁, pointAt env candidate w = .error e w₁ ∧
        SameLive w w₁) := by
  unfold pointAt
  cases hresolve : env.fails (.pointer .resolve) with
  | some e =>
    refine .inr ⟨fun h => ?_, e, w, bind_of_error (fault_of_some hresolve _), refl_of _ w⟩
    rw [h.1] at hresolve
    cases hresolve
  | none =>
    rw [bind_of_ok (fault_of_none hresolve _)]
    by_cases hswitches : Switches env .pointer w.files
    · exact .inl ⟨⟨hresolve, hswitches⟩, atomicPointer_of_switches _ _ hswitches hlive⟩
    · exact .inr ⟨fun h => hswitches h.2, atomicPointer_of_not_switches _ _ hswitches⟩

theorem activate_of_error {w₁ w₂ : World}
    (hretain : retainPrevious env candidate w = .ok receipt w₁)
    (hpoint : pointAt env candidate w₁ = .error e w₂) :
    ∃ e', activateRelease env candidate w = .error e' (stateOf (undoMigration env receipt w₂)) := by
  unfold activateRelease
  rw [bind_of_ok hretain, bind_of_ok (attempt_of_error hpoint)]
  dsimp only
  cases hundo : undoMigration env receipt w₂ with
  | ok u w₃ => exact ⟨e, bind_of_ok hundo⟩
  | error e₃ w₃ => exact ⟨e₃, bind_of_error hundo⟩

theorem activate_of_ok {w₁ w₂ : World} (hretain : retainPrevious env candidate w = .ok receipt w₁)
    (hpoint : pointAt env candidate w₁ = .ok () w₂) :
    activateRelease env candidate w = .ok receipt w₂ := by
  unfold activateRelease
  rw [bind_of_ok hretain, bind_of_ok (attempt_of_ok hpoint)]
  rfl

theorem activate_of_retain_error (h : retainPrevious env candidate w = .error e w') :
    activateRelease env candidate w = .error e w' := by
  unfold activateRelease
  exact bind_of_error h

/-! ### The restoration -/

/-- What the live path resolves to: a tree, with its place inside of the release root where it is
there. -/
inductive Resolved
  | nothing
  | dangling
  | file
  | foreign (dangling : Bool)
  | tree (place : Option (String × List String)) (node : Node)

def Files.resolved (files : Files) : Resolved :=
  match files.live with
  | .absent => .nothing
  | .dir entries => .tree none (.dir entries)
  | .other => .file
  | .link release inner =>
    match files.lookup release inner with
    | some node => .tree (some (release, inner)) node
    | none => .dangling
  | .foreign dangling => .foreign dangling

theorem resolved_congr {f f' : Files} (hlive : f'.live = f.live)
    (hreleases : ∀ release inner, f.live = .link release inner →
      f'.releases.get? release = f.releases.get? release) : f'.resolved = f.resolved := by
  unfold Files.resolved
  rw [hlive]
  cases hl : f.live with
  | link release inner =>
    dsimp only [Files.lookup]
    rw [hreleases release inner hl]
  | absent => rfl
  | dir entries => rfl
  | other => rfl
  | foreign dangling => rfl

theorem resolved_of_sameLive (h : SameLive w w') : w'.files.resolved = w.files.resolved :=
  resolved_congr h.1 fun _ _ _ => by rw [h.2]

theorem files_of_check {α : Type} {m : Files → Check α} {a : α} (h : check m w = .ok a w') :
    w'.files = w.files := (sameFiles_of_silent (keeps_check m)).of_ok h

theorem files_of_raiseIf {cond : Bool} {text : String} (h : raiseIf cond text w = .ok u w') :
    w'.files = w.files := congrArg World.files (raiseIf_eq_ok_iff.mp h).2

theorem clearLive_of_link {text : String} (hlive : w.files.live = .link release inner)
    (h : clearLive env text w = .ok u w') :
    w'.files.live = .absent ∧ w'.files.releases = w.files.releases := by
  unfold clearLive at h
  obtain ⟨_, w₁, hcheck, h⟩ := seq_eq_ok_iff.mp h
  have hfiles := files_of_check hcheck
  rw [get_bind] at h
  rw [if_pos (by rw [hfiles, hlive]; rfl)] at h
  obtain ⟨_, w₂, hcheck', h⟩ := seq_eq_ok_iff.mp h
  injection h with _ hchange
  subst hchange
  refine ⟨rfl, ?_⟩
  show w₂.files.releases = _
  rw [files_of_check hcheck', hfiles]

theorem releases_of_moveToLive {legacy : String} (h : moveToLive env legacy w = .ok u w')
    (hlegacy : w.files.releases.get? legacy = some (.dir entries)) :
      w'.files.live = .dir entries := by
  unfold moveToLive at h
  rw [get_bind] at h
  rw [hlegacy] at h
  cases hlive : w.files.live with
  | absent =>
    rw [hlive] at h
    injection h with _ hchange
    subst hchange
    rfl
  | dir entries => rw [hlive] at h; cases h
  | other => rw [hlive] at h; cases h
  | link r i => rw [hlive] at h; cases h
  | foreign d => rw [hlive] at h; cases h

theorem pointer_of_ok (hlive : ∀ entries, w.files.live ≠ .dir entries)
    (h : atomicPointer env pointerSite release inner w = .ok u w') :
    w'.files.live = .link release inner ∧ w'.files.releases = w.files.releases := by
  by_cases hswitches : Switches env pointerSite w.files
  · obtain ⟨w₁, hl, hr, hok, herror⟩ :=
      atomicPointer_of_switches release inner hswitches hlive
    cases hleft : env.fails (pointerSite .left) with
    | none =>
      rw [hok hleft] at h
      injection h with _ hw
      subst hw
      exact ⟨hl, hr⟩
    | some e =>
      rw [herror e hleft] at h
      cases h
  · obtain ⟨e, w₁, herror, -⟩ :=
      atomicPointer_of_not_switches release inner hswitches
    rw [herror] at h
    cases h

/-- **A restored target is the one of before.** -/
theorem restored {f f₁ : Files} (hretained : Retained f receipt f₁)
    (hlive : w.files.live = .link release inner) (hreleases : w.files.releases = f₁.releases)
    (h : restorePreviousTarget env receipt w = .ok u w') : w'.files.resolved = f.resolved := by
  have hnoDir : ∀ entries, w.files.live ≠ .dir entries := by
    intro entries heq
    rw [hlive] at heq
    cases heq
  unfold restorePreviousTarget at h
  obtain ⟨_, w₁, h₁, h⟩ := seq_eq_ok_iff.mp h
  have hw₁ := files_of_check h₁
  cases hretained with
  | absent habsent =>
    dsimp only at h
    obtain ⟨hgone, -⟩ := clearLive_of_link (by rw [hw₁]; exact hlive) h
    exact resolved_congr (hgone.trans habsent.symm) fun r i heq => by rw [habsent] at heq; cases heq
  -- live was a link, and is made one to the same release
  | @link r i hprior =>
    dsimp only at h
    obtain ⟨_, w₂, h₂, h⟩ := seq_eq_ok_iff.mp h
    rw [get_bind] at h
    have hw₂ := (files_of_check h₂).trans hw₁
    cases hlookup : w₂.files.lookup r i with
    | none =>
      rw [hlookup] at h
      cases h
    | some node =>
      rw [hlookup] at h
      dsimp only at h
      obtain ⟨_, w₃, h₃, h⟩ := seq_eq_ok_iff.mp h
      obtain ⟨_, w₄, h₄, h⟩ := seq_eq_ok_iff.mp h
      dsimp only [restoreRelease] at h
      rw [if_neg Bool.false_ne_true] at h
      obtain ⟨_, w₅, h₅, h⟩ := seq_eq_ok_iff.mp h
      have hw₄ := (files_of_raiseIf h₄).trans ((files_of_check h₃).trans hw₂)
      have hw₅ := (files_of_check h₅).trans hw₄
      obtain ⟨hpoints, hsame⟩ := pointer_of_ok (by rw [hw₅]; exact hnoDir) h
      refine resolved_congr (hpoints.trans hprior.symm) fun _ _ _ => ?_
      rw [hsame, hw₅, hreleases]
  -- live was a directory, which is moved back from its new name
  | @dir entries hplain =>
    dsimp only at h
    obtain ⟨_, w₂, h₂, h⟩ := seq_eq_ok_iff.mp h
    rw [get_bind] at h
    have hw₂ := (files_of_check h₂).trans hw₁
    cases hlookup : w₂.files.lookup legacyName [] with
    | none =>
      rw [hlookup] at h
      cases h
    | some node =>
      rw [hlookup] at h
      dsimp only at h
      obtain ⟨_, w₃, h₃, h⟩ := seq_eq_ok_iff.mp h
      obtain ⟨_, w₄, h₄, h⟩ := seq_eq_ok_iff.mp h
      dsimp only [restoreRelease] at h
      rw [if_pos rfl] at h
      obtain ⟨_, w₅, h₅, h⟩ := seq_eq_ok_iff.mp h
      obtain ⟨_, w₆, h₆, h⟩ := seq_eq_ok_iff.mp h
      obtain ⟨_, w₇, h₇, h⟩ := seq_eq_ok_iff.mp h
      obtain ⟨_, w₈, h₈, h⟩ := seq_eq_ok_iff.mp h
      obtain ⟨_, w₉, h₉, h⟩ := seq_eq_ok_iff.mp h
      have hw₄ := (files_of_raiseIf h₄).trans ((files_of_check h₃).trans hw₂)
      have hw₇ := (files_of_raiseIf h₇).trans
        ((files_of_check h₆).trans ((files_of_check h₅).trans hw₄))
      obtain ⟨-, hcleared⟩ := clearLive_of_link (by rw [hw₇]; exact hlive) h₈
      have hback : w'.files.live = .dir entries := by
        refine releases_of_moveToLive h ?_
        rw [files_of_check h₉, hcleared, hw₇, hreleases]
        exact Table.get?_put_self _ _ _
      exact resolved_congr (hback.trans hplain.symm) fun r i heq => by rw [hplain] at heq; cases heq

end Deploy
