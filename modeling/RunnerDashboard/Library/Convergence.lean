import RunnerDashboard.Lib.Path
import RunnerDashboard.Library.Records

/-!
# Repeated ingest

Once a source does not change, its passes visit every file and come to the end again and again. 
They bring the tables into step with the source, but for what they never undo: a work that was
retired is not made active again, a file with the time and size of its record is not read, and a
source without files never comes to an end.

## Main results

* `inStep_pass` — the tables stay in step.
* `pass_converges_iff` — **the tables get into step and stay so, or something is never undone.**
-/

namespace Library

open Sql Lts

/-! ### Histories -/

/-- The tables, the cursor and the files of a source. -/
structure State (C : Type*) where
  lib : LibraryDb
  lastIngestPath : Option RelPath
  tree : Tree C

/-- What happens to a source. -/
inductive HistoryEvent (C : Type*)
  | changed (tree : Tree C)
  | ingested (maxFiles : Option ℕ)
  | interrupted (maxFiles : Option ℕ) (done : ℕ)

section Definitions

variable {C : Type*} (src : Source C)

/-- A source is ingested by `ingest_sources`. -/
def ingestSource (maxFiles : Option ℕ) (w : State C) : State C :=
  match ingestDirectory src w.lib w.tree maxFiles w.lastIngestPath with
  | .ok (result, lib) => { w with lib, lastIngestPath := result.nextCursor }
  | .error _ => w

/-- Files are added, edited, renamed or deleted, a pass is made, or a pass ends early. -/
inductive HistoryStep : State C → HistoryEvent C → State C → Prop
  | change {w : State C} {tree : Tree C} : HistoryStep w (.changed tree) { w with tree }
  | ingest {w : State C} {maxFiles : Option ℕ} :
      HistoryStep w (.ingested maxFiles) (ingestSource src maxFiles w)
  | interrupt {w : State C} {maxFiles : Option ℕ} {done : ℕ} :
      HistoryStep w (.interrupted maxFiles done)
        { w with
          lib := (ingestFiles src w.lib ((selectPaths (src.eligiblePaths w.tree) maxFiles
            w.lastIngestPath).1.take done)).2 }

/-- The passes bring the tables into step, and keep them so. -/
def Converges (m : ℕ) (w : State C) : Prop :=
  ∃ N, ∀ n ≥ N, InStep src w.tree ((ingestSource src (some m))^[n] w).lib

/-- The files that are visited until the sweep under way is closed. -/
def State.sweep (m : ℕ) (w : State C) : List (RelPath × SourceFile C) :=
  Sweep.sweepItems Prod.fst (src.eligiblePaths w.tree) m w.lastIngestPath

/-- **Nothing has to be undone**: no work of a file is retired, or will be at the end of the sweep
under way, and every file will be recorded. -/
structure Settles (m : ℕ) (w : State C) : Prop where
  ready : ∀ x ∈ src.eligiblePaths w.tree, Ready src w.lib x
  alive : ∀ x ∈ src.eligiblePaths w.tree,
    w.lib.works.get? (src.sha256 x.2.raw) ≠ some .retired
  kept : ∀ x ∈ src.eligiblePaths w.tree, (w.lib.works.get? (src.sha256 x.2.raw)).isSome →
    (∃ y ∈ w.sweep src m, src.sha256 y.2.raw = src.sha256 x.2.raw) ∨
    ∃ p ∈ (src.eligiblePaths w.tree).map Prod.fst, p ∉ (w.sweep src m).map Prod.fst ∧
      ∃ r, w.lib.files.get? p = some r ∧ r.isPresent = true ∧ r.work = src.sha256 x.2.raw

end Definitions

variable {C : Type*} {src : Source C} {tree : Tree C} {lib lib' : LibraryDb}
  {x y : RelPath × SourceFile C} {xs all : List (RelPath × SourceFile C)} {p : RelPath}
  {digest : String} {m : ℕ}

/-! ### Passes -/

/-- What a pass of a source that does not change does with the tables and the cursor. -/
abbrev pass (src : Source C) (tree : Tree C) (m : ℕ) :
    LibraryDb × Option RelPath → LibraryDb × Option RelPath :=
  Sweep.step Prod.fst (visit src) (reconcile src tree) (src.eligiblePaths tree) m

/-- A property that visits keep and that the end of a sweep keeps is kept by a pass. -/
theorem pass_induction {P : LibraryDb → Prop} {c : Option RelPath}
    (hvisits : ∀ xs lib, xs ⊆ src.eligiblePaths tree → P lib → P (xs.foldl (visit src) lib))
    (hclose : ∀ lib, P lib → P (reconcile src tree lib)) (h : P lib) :
    P (pass src tree m (lib, c)).1 := by
  have hsub : (Sweep.batch Prod.fst (src.eligiblePaths tree) m c).1 ⊆ src.eligiblePaths tree :=
    Sweep.batch_subset
  unfold pass Sweep.step
  dsimp only
  split
  · exact hclose _ (hvisits _ _ hsub h)
  · exact hvisits _ _ hsub h

section Passes

variable {q : LibraryDb × Option RelPath}

theorem rowsSound_pass (h : RowsSound q.1) : RowsSound (pass src tree m q).1 :=
  pass_induction (fun _ _ _ => rowsSound_foldl) (fun _ => rowsSound_reconcile) h

/-- **The tables stay in step.** -/
theorem inStep_pass (hsound : RowsSound q.1) (h : InStep src tree q.1) :
    InStep src tree (pass src tree m q).1 := by
  refine (pass_induction (P := fun lib => RowsSound lib ∧ InStep src tree lib) ?_ ?_ ⟨hsound, h⟩).2
  · rintro xs lib hxs ⟨hsound, h⟩
    exact ⟨rowsSound_foldl hsound, inStep_foldl hsound h hxs⟩
  · rintro lib ⟨hsound, h⟩
    refine ⟨rowsSound_reconcile hsound, inStep_reconcile hsound (fun x hx => h.recorded hx) ?_⟩
    intro x hx hretired
    obtain ⟨r, hr, hpresent, hdigest⟩ := h.recorded hx
    have hactive :=
      (h.works _ _ hretired).mpr ⟨x.1, r, hr, hpresent, (hsound _ _ hr).1.trans hdigest⟩
    exact absurd hactive (by decide)

theorem unready_pass (hx : x ∈ src.eligiblePaths tree) (h : ¬ Ready src q.1 x) :
    ¬ Ready src (pass src tree m q).1 x := by
  refine pass_induction (P := fun lib => ¬ Ready src lib x) ?_ ?_ h
  · intro xs lib hxs h hready
    exact h ((ready_foldl_iff distinct_eligiblePaths hx hxs).mp hready)
  · intro lib h hready
    exact h ((ready_reconcile_iff hx).mp hready)

theorem retired_pass (h : q.1.works.get? digest = some .retired) :
    (pass src tree m q).1.works.get? digest = some .retired :=
  pass_induction (P := fun lib => lib.works.get? digest = some .retired)
    (fun _ _ _ => works_foldl_of_some) (fun _ => retired_reconcile) h

theorem iterate_pass {P : LibraryDb × Option RelPath → Prop}
    (hpass : ∀ q, P q → P (pass src tree m q)) (h : P q) (n : ℕ) : P ((pass src tree m)^[n] q) :=
  Function.Iterate.rec P h hpass n

/-- **Tables with a file that is not ready, or with a retired work of a file, never get into
step.** -/
theorem not_inStep_of_never (hsound : RowsSound q.1) (hx : x ∈ src.eligiblePaths tree)
    (h : ¬ Ready src q.1 x ∨ q.1.works.get? (src.sha256 x.2.raw) = some .retired) (n : ℕ) :
    ¬ InStep src tree ((pass src tree m)^[n] q).1 := by
  intro hstep
  rcases h with hready | hretired
  · have hkept : ¬ Ready src ((pass src tree m)^[n] q).1 x :=
      iterate_pass (P := fun q => ¬ Ready src q.1 x) (fun q => unready_pass hx) hready n
    exact hkept (hstep.recorded hx).ready
  · have hkept : ((pass src tree m)^[n] q).1.works.get? (src.sha256 x.2.raw) = some .retired :=
      iterate_pass (P := fun q => q.1.works.get? _ = some .retired)
        (fun q => retired_pass) hretired n
    have hrows : RowsSound ((pass src tree m)^[n] q).1 :=
      iterate_pass (P := fun q => RowsSound q.1) (fun q => rowsSound_pass) hsound n
    obtain ⟨r, hr, hpresent, hdigest⟩ := hstep.recorded hx
    have hactive := (hstep.works _ _ hkept).mpr
      ⟨x.1, r, hr, hpresent, (hrows _ _ hr).1.trans hdigest⟩
    exact absurd hactive (by decide)

/-- The tables when the sweep under way is closed. -/
def closed (src : Source C) (tree : Tree C) (m : ℕ) (q : LibraryDb × Option RelPath) : LibraryDb :=
  reconcile src tree
    ((Sweep.sweepItems Prod.fst (src.eligiblePaths tree) m q.2).foldl (visit src) q.1)

theorem rowsSound_closed (h : RowsSound q.1) : RowsSound (closed src tree m q) :=
  rowsSound_reconcile (rowsSound_foldl h)

theorem ready_closed (hx : x ∈ src.eligiblePaths tree) (h : Ready src q.1 x) :
    Ready src (closed src tree m q) x := by
  refine (ready_reconcile_iff hx).mpr ?_
  exact (ready_foldl_iff distinct_eligiblePaths hx Sweep.sweepItems_subset).mpr h

/-- **A sweep from the front brings the tables into step**, where all files are ready and none of
their works is retired. -/
theorem inStep_closed (hsound : RowsSound lib)
    (hready : ∀ x ∈ src.eligiblePaths tree, Ready src lib x)
    (halive : ∀ x ∈ src.eligiblePaths tree, lib.works.get? (src.sha256 x.2.raw) ≠ some .retired) :
    InStep src tree (closed src tree m (lib, none)) := by
  refine inStep_reconcile (rowsSound_foldl hsound) (fun x hx => ?_) (fun x hx hretired => ?_)
  · exact recorded_foldl_of_mem distinct_eligiblePaths (Sweep.mem_sweepItems hx)
      Sweep.sweepItems_subset (hready x hx)
  · rcases works_foldl hretired with hold | ⟨hactive, -⟩
    · exact halive x hx hold
    · exact absurd hactive (by decide)

/-- A work is referred to when the sweep under way is closed: by a file that the sweep visited, or
by a record of one that it did not. -/
theorem referred_closed_iff (hsound : RowsSound q.1)
    (hready : ∀ x ∈ src.eligiblePaths tree, Ready src q.1 x) :
    (closed src tree m q).referred digest = true ↔
      (∃ y ∈ Sweep.sweepItems Prod.fst (src.eligiblePaths tree) m q.2,
        src.sha256 y.2.raw = digest) ∨
      ∃ p ∈ (src.eligiblePaths tree).map Prod.fst,
        p ∉ (Sweep.sweepItems Prod.fst (src.eligiblePaths tree) m q.2).map Prod.fst ∧
        ∃ r, q.1.files.get? p = some r ∧ r.isPresent = true ∧ r.work = digest := by
  have hrecorded : ∀ y ∈ Sweep.sweepItems Prod.fst (src.eligiblePaths tree) m q.2,
      Recorded src
        ((Sweep.sweepItems Prod.fst (src.eligiblePaths tree) m q.2).foldl (visit src) q.1)
        y := fun y hy => recorded_foldl_of_mem distinct_eligiblePaths hy Sweep.sweepItems_subset
      (hready y (Sweep.sweepItems_subset hy))
  rw [referred_iff]
  constructor
  · rintro ⟨p, r, hr, hpresent, rfl⟩
    obtain ⟨hp, hr, -⟩ := present_reconcile.mp ⟨hr, hpresent⟩
    by_cases hswept : p ∈ (Sweep.sweepItems Prod.fst (src.eligiblePaths tree) m q.2).map Prod.fst
    · obtain ⟨y, hy, rfl⟩ := List.mem_map.mp hswept
      obtain ⟨r', hr', -, hdigest⟩ := hrecorded y hy
      obtain rfl := Option.some.inj (hr'.symm.trans hr)
      exact .inl ⟨y, hy, hdigest.symm.trans ((rowsSound_foldl hsound) _ _ hr).1.symm⟩
    · rw [files_foldl hswept] at hr
      exact .inr ⟨p, hp, hswept, r, hr, hpresent, rfl⟩
  · rintro (⟨y, hy, rfl⟩ | ⟨p, hp, hswept, r, hr, hpresent, hwork⟩)
    · obtain ⟨r, hr, hpresent, hdigest⟩ := hrecorded y hy
      have hmem := List.mem_map_of_mem (f := Prod.fst) (Sweep.sweepItems_subset hy)
      obtain ⟨hr', -⟩ := present_reconcile.mpr ⟨hmem, hr, hpresent⟩
      exact ⟨y.1, r, hr', hpresent, ((rowsSound_foldl hsound) _ _ hr).1.trans hdigest⟩
    · have hsame : ((Sweep.sweepItems Prod.fst (src.eligiblePaths tree) m q.2).foldl (visit src)
          q.1).files.get? p = q.1.files.get? p := files_foldl hswept
      rw [← hsame] at hr
      obtain ⟨hr', -⟩ := present_reconcile.mpr ⟨hp, hr, hpresent⟩
      exact ⟨p, r, hr', hpresent, hwork⟩

theorem retired_closed (h : q.1.works.get? digest = some .active)
    (hreferred : ¬ (closed src tree m q).referred digest = true) :
    (closed src tree m q).works.get? digest = some .retired := by
  unfold closed at hreferred ⊢
  rw [works_reconcile, works_foldl_of_some h, Option.map_some, if_pos ⟨rfl, hreferred⟩]

theorem alive_closed (hsound : RowsSound q.1)
    (hready : ∀ x ∈ src.eligiblePaths tree, Ready src q.1 x)
    (halive : q.1.works.get? (src.sha256 x.2.raw) ≠ some .retired)
    (hkept : (q.1.works.get? (src.sha256 x.2.raw)).isSome →
      (closed src tree m q).referred (src.sha256 x.2.raw) = true) :
    (closed src tree m q).works.get? (src.sha256 x.2.raw) ≠ some .retired := by
  intro hretired
  have hreferred : (closed src tree m q).referred (src.sha256 x.2.raw) = true := by
    unfold closed at hretired
    rw [works_reconcile, Option.map_eq_some_iff] at hretired
    obtain ⟨status, hstatus, -⟩ := hretired
    rcases works_foldl hstatus with hold | ⟨-, y, hy, hdigest⟩
    · exact hkept (Option.isSome_of_eq_some hold)
    · exact (referred_closed_iff hsound hready).mpr (.inl ⟨y, hy, hdigest.symm⟩)
  unfold closed at hretired hreferred
  rw [works_reconcile, Option.map_eq_some_iff] at hretired
  obtain ⟨status, hstatus, hretired⟩ := hretired
  rw [if_neg (fun h => h.2 hreferred)] at hretired
  subst hretired
  rcases works_foldl hstatus with hold | ⟨hactive, -⟩
  · exact halive hold
  · exact absurd hactive (by decide)

/-- The sweep under way is closed after finitely many passes. -/
theorem exists_closed (hm : 0 < m) (hne : src.eligiblePaths tree ≠ [])
    (q : LibraryDb × Option RelPath) :
    ∃ k, (pass src tree m)^[k + 1] q = (closed src tree m q, none) :=
  Sweep.exists_close hm nodup_eligiblePaths hne q.1 q.2

/-! ### When the tables get into step -/

/-- **The passes bring the tables into step and keep them so, exactly if nothing has to be
undone.** -/
theorem pass_converges_iff (hm : 0 < m) (hne : src.eligiblePaths tree ≠ [])
    (hsound : RowsSound q.1) :
    (∃ N, ∀ n ≥ N, InStep src tree ((pass src tree m)^[n] q).1) ↔
      Settles src m ⟨q.1, q.2, tree⟩ := by
  obtain ⟨k, hfirst⟩ := exists_closed hm hne q
  constructor
  · rintro ⟨N, hN⟩
    have hready : ∀ x ∈ src.eligiblePaths tree, Ready src q.1 x := by
      intro x hx
      by_contra hnot
      exact not_inStep_of_never hsound hx (.inl hnot) N (hN N le_rfl)
    have halive : ∀ x ∈ src.eligiblePaths tree,
        q.1.works.get? (src.sha256 x.2.raw) ≠ some .retired := by
      intro x hx hretired
      exact not_inStep_of_never hsound hx (.inr hretired) N (hN N le_rfl)
    refine ⟨hready, halive, fun x hx hsome => ?_⟩
    show (∃ y ∈ Sweep.sweepItems Prod.fst (src.eligiblePaths tree) m q.2, _) ∨ _
    refine (referred_closed_iff hsound hready).mp ?_
    by_contra hreferred
    -- the work is retired when the sweep is closed
    have hactive : q.1.works.get? (src.sha256 x.2.raw) = some .active := by
      obtain ⟨status, hstatus⟩ := Option.isSome_iff_exists.mp hsome
      have hlive := halive x hx
      cases status with
      | active => exact hstatus
      | retired => exact absurd hstatus hlive
    have hnever := not_inStep_of_never (m := m) (q := (closed src tree m q, none))
      (rowsSound_closed hsound) hx (.inr (retired_closed hactive hreferred)) N
    rw [← hfirst, ← Function.iterate_add_apply] at hnever
    exact hnever (hN _ (Nat.le_add_right N (k + 1)))
  · rintro ⟨hready, halive, hkept⟩
    -- the sweep under way, and one from the front
    have hreadyClosed : ∀ x ∈ src.eligiblePaths tree, Ready src (closed src tree m q) x :=
      fun x hx => ready_closed hx (hready x hx)
    have haliveClosed : ∀ x ∈ src.eligiblePaths tree,
        (closed src tree m q).works.get? (src.sha256 x.2.raw) ≠ some .retired := by
      intro x hx
      refine alive_closed hsound hready (halive x hx) fun hsome => ?_
      exact (referred_closed_iff hsound hready).mpr (hkept x hx hsome)
    have hstep := inStep_closed (m := m) (rowsSound_closed hsound) hreadyClosed haliveClosed
    obtain ⟨k', hsecond⟩ := exists_closed hm hne (closed src tree m q, none)
    refine ⟨k' + 1 + (k + 1), fun n hn => ?_⟩
    obtain ⟨j, rfl⟩ := Nat.exists_eq_add_of_le' hn
    rw [Function.iterate_add_apply, Function.iterate_add_apply, hfirst, hsecond]
    have hboth := iterate_pass (P := fun q => RowsSound q.1 ∧ InStep src tree q.1) (m := m)
      (q := (closed src tree m (closed src tree m q, none), none))
      (fun q h => ⟨rowsSound_pass h.1, inStep_pass h.1 h.2⟩)
      ⟨rowsSound_closed (rowsSound_closed hsound), hstep⟩ j
    exact hboth.2

end Passes

/-! ### Histories -/

variable {w w₀ : State C} {events : List (HistoryEvent C)}

theorem ingestSource_eq (hm : 0 < m) (w : State C) :
    ingestSource src (some m) w = ⟨(pass src w.tree m (w.lib, w.lastIngestPath)).1,
      (pass src w.tree m (w.lib, w.lastIngestPath)).2, w.tree⟩ := by
  unfold ingestSource ingestDirectory pass Sweep.step selectPaths
  have hne : ¬ (some m : Option ℕ) = some 0 := by
    rw [Option.some.injEq]
    omega
  rw [if_neg hne]
  dsimp only
  rw [snd_ingestFiles]
  split
  · rfl
  · rfl

theorem iterate_ingestSource (hm : 0 < m) (w : State C) (n : ℕ) :
    (ingestSource src (some m))^[n] w = ⟨((pass src w.tree m)^[n] (w.lib, w.lastIngestPath)).1,
      ((pass src w.tree m)^[n] (w.lib, w.lastIngestPath)).2, w.tree⟩ := by
  induction n with
  | zero => rfl
  | succ n ih =>
    rw [Function.iterate_succ_apply', ih, ingestSource_eq hm, Function.iterate_succ_apply']

theorem pass_of_nil {q : LibraryDb × Option RelPath} (hnil : src.eligiblePaths tree = []) :
    pass src tree m q = q := by
  obtain ⟨lib, c⟩ := q
  unfold pass Sweep.step
  rw [hnil]
  cases c with
  | none => simp [Sweep.batch]
  | some c => simp [Sweep.batch, Sweep.after]

/-- **The tables get into step and stay so, or something is never undone.** -/
theorem converges_iff (hm : 0 < m) (hsound : RowsSound w.lib) :
    Converges src m w ↔
      if src.eligiblePaths w.tree = [] then InStep src w.tree w.lib else Settles src m w := by
  unfold Converges
  simp only [iterate_ingestSource hm]
  split
  · next hnil =>
    have hsame :
      ∀ n, (pass src w.tree m)^[n] (w.lib, w.lastIngestPath) = (w.lib, w.lastIngestPath) :=
      Function.iterate_fixed (pass_of_nil hnil)
    simp only [hsame]
    exact ⟨fun ⟨N, hN⟩ => hN N le_rfl, fun h => ⟨0, fun _ _ => h⟩⟩
  · next hne =>
    exact pass_converges_iff (q := (w.lib, w.lastIngestPath)) hm hne hsound

theorem rowsSound_step {w' : State C} {event : HistoryEvent C} (h : HistoryStep src w event w')
    (hsound : RowsSound w.lib) : RowsSound w'.lib := by
  cases h with
  | change => exact hsound
  | @ingest maxFiles =>
    unfold ingestSource ingestDirectory
    by_cases hzero : maxFiles = some 0
    · rw [if_pos hzero]
      exact hsound
    · rw [if_neg hzero]
      dsimp only
      rw [snd_ingestFiles]
      split
      · exact rowsSound_reconcile (rowsSound_foldl hsound)
      · exact rowsSound_foldl hsound
  | interrupt =>
    rw [snd_ingestFiles]
    exact rowsSound_foldl hsound

theorem rowsSound_of_path (path : Path (HistoryStep src) ⟨.empty, none, .empty⟩ events w) :
    RowsSound w.lib := by
  refine path.invariant (I := fun w => RowsSound w.lib)
    (fun _ _ _ hsound h => rowsSound_step h hsound) ?_
  intro p r hr
  cases hr

/-- **After every history the tables get into step and stay so, or something is never undone.** -/
theorem ingest_converges (hm : 0 < m)
    (path : Path (HistoryStep src) ⟨.empty, none, .empty⟩ events w) :
    Converges src m w ↔
      if src.eligiblePaths w.tree = [] then InStep src w.tree w.lib else Settles src m w :=
  converges_iff hm (rowsSound_of_path path)

/-! ### Some histories -/

def shortDigest (raw : String) : String :=
  if raw = "alpha text" then "89a17ed624e1586515338bb4f8481788424c93f9836d1e1e382aeb7da5334b0f"
  else if raw = "beta text" then "97181288664d8e5959e7d7cc6e874d0eda4ad0d8a361ab08aa880246aef2203d"
  else "9e4bfb1ef206a8f5d1e688de9d848003aa365b806f4962658dc70cc85e0cbf77"

def shortSource : Source String where
  matchesGlobs := fun _ => true
  size := String.length
  sha256 := shortDigest
  pdfPages := fun _ => none
  epubChapters := fun _ => none
  textPassages := fun raw _ => if raw.isEmpty then 0 else 1

def shortTree (files : List (String × String)) : Tree String :=
  files.foldl (fun tree x => tree.insertNew [x.1] ⟨1, x.2⟩) .empty

def noFiles : State String := ⟨.empty, none, .empty⟩

def State.with (w : State String) (files : List (String × String)) : State String :=
  { w with tree := shortTree files }

theorem ingest_converges_two :
    Converges shortSource 10 (noFiles.with [("a.md", "alpha text"), ("b.md", "beta text")]) := by
  refine (ingest_converges (by decide) (.single .change)).mpr ?_
  rw [if_neg (by decide +kernel)]
  have hnone : ∀ x ∈ shortSource.eligiblePaths
      (shortTree [("a.md", "alpha text"), ("b.md", "beta text")]),
      ¬ LeftAside shortSource .empty x := by
    unfold LeftAside
    decide +kernel
  refine ⟨fun x hx haside => absurd haside (hnone x hx), fun x _ => ?_, fun x _ hsome => ?_⟩
  · exact fun h => nomatch h
  · exact absurd hsome (by rintro ⟨⟩)

def someRetired (src : Source C) (w : State C) : Bool :=
  (src.eligiblePaths w.tree).any fun x => w.lib.works.get? (src.sha256 x.2.raw) = some .retired

theorem exists_not_converges (hm : 0 < m)
    (path : Path (HistoryStep src) ⟨.empty, none, .empty⟩ events w) (h : someRetired src w = true) :
    ∃ w, Path (HistoryStep src) ⟨.empty, none, .empty⟩ events w ∧ ¬ Converges src m w := by
  obtain ⟨x, hx, hretired⟩ := List.any_eq_true.mp h
  refine ⟨w, path, fun hconverges => ?_⟩
  rw [converges_iff hm (rowsSound_of_path path), if_neg (List.ne_nil_of_mem hx)] at hconverges
  exact hconverges.alive x hx (of_decide_eq_true hretired)

theorem exists_not_converges_of_nil (hm : 0 < m)
    (path : Path (HistoryStep src) ⟨.empty, none, .empty⟩ events w)
    (hnil : src.eligiblePaths w.tree = [])
    (h : 0 < w.lib.files.count fun _ r => r.isPresent) :
    ∃ w, Path (HistoryStep src) ⟨.empty, none, .empty⟩ events w ∧ ¬ Converges src m w := by
  refine ⟨w, path, fun hconverges => ?_⟩
  rw [converges_iff hm (rowsSound_of_path path), if_pos hnil] at hconverges
  refine absurd (Table.count_eq_zero_iff.mpr fun p r hr => ?_) h.ne'
  by_contra hpresent
  have hmem := (hconverges.files p).mp ⟨r, hr, by simpa using hpresent⟩
  rw [hnil] at hmem
  cases hmem

/-- **A file that is deleted, and comes back; a file that is renamed while a sweep is under way; and
a source whose last file is deleted.** -/
theorem came_back :
    (∃ w, Path (HistoryStep shortSource) noFiles
      [.changed (shortTree [("a.md", "alpha text"), ("b.md", "beta text")]), .ingested (some 10),
        .changed (shortTree [("b.md", "beta text")]), .ingested (some 10),
        .changed (shortTree [("a.md", "alpha text"), ("b.md", "beta text")])] w ∧
      ¬ Converges shortSource 10 w) ∧
    (∃ w, Path (HistoryStep shortSource) noFiles
      [.changed (shortTree [("b.md", "beta text"), ("c.md", "gamma text"), ("d.md", "gamma text"),
          ("z.md", "alpha text")]), .ingested none, .ingested (some 2),
        .changed (shortTree [("a.md", "alpha text"), ("b.md", "beta text"), ("c.md", "gamma text"),
          ("d.md", "gamma text")]), .ingested (some 2)] w ∧ ¬ Converges shortSource 2 w) ∧
    ∃ w, Path (HistoryStep shortSource) noFiles
      [.changed (shortTree [("a.md", "alpha text")]), .ingested (some 10),
        .changed (shortTree [])] w ∧
      ¬ Converges shortSource 10 w := by
  refine ⟨?_, ?_, ?_⟩
  · refine exists_not_converges (by decide)
      (.cons .change (.cons .ingest (.cons .change (.cons .ingest (.single .change))))) ?_
    decide +kernel
  · refine exists_not_converges (by decide)
      (.cons .change (.cons .ingest (.cons .ingest (.cons .change (.single .ingest))))) ?_
    decide +kernel
  · refine exists_not_converges_of_nil (by decide) (.cons .change (.cons .ingest (.single .change)))
      ?_ ?_
    · decide +kernel
    · decide +kernel

end Library
