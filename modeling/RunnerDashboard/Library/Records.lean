import RunnerDashboard.Library.Ingest

/-!
# The records of a source

A visit records a file, or leaves it aside: a file that has the time and size of its record, and a
file that is rejected.  The end of a sweep marks what is gone.  Here is what each of them does with
the tables, and when the tables agree with the source.

## Main results

* `recorded_foldl_of_mem` — **a sweep records the files that it visits.**
* `inStep_foldl` — visits keep them in step.
-/

namespace Library

open Sql

section Definitions

variable {C : Type*} (src : Source C)

/-- **The tables agree with the source**: the files that are there are its files, with their
digests, and the active works are theirs. -/
structure InStep (tree : Tree C) (lib : LibraryDb) : Prop where
  files : ∀ p, (∃ r, lib.files.get? p = some r ∧ r.isPresent = true) ↔
    p ∈ (src.eligiblePaths tree).map Prod.fst
  digests : ∀ x ∈ src.eligiblePaths tree, ∀ r, lib.files.get? x.1 = some r →
    r.sha256 = src.sha256 x.2.raw
  works : ∀ digest status, lib.works.get? digest = some status →
    (status = .active ↔ ∃ p r, lib.files.get? p = some r ∧ r.isPresent = true ∧ r.work = digest)

def Recorded (lib : LibraryDb) (x : RelPath × SourceFile C) : Prop :=
  ∃ r, lib.files.get? x.1 = some r ∧ r.isPresent = true ∧ r.sha256 = src.sha256 x.2.raw

def LeftAside (lib : LibraryDb) (x : RelPath × SourceFile C) : Prop :=
  shouldSkip src lib x = true ∨ rejection src x.1 x.2.raw ≠ none

def Ready (lib : LibraryDb) (x : RelPath × SourceFile C) : Prop :=
  LeftAside src lib x → Recorded src lib x

end Definitions

def RowsSound (lib : LibraryDb) : Prop :=
  ∀ p r, lib.files.get? p = some r → r.work = r.sha256 ∧ (lib.works.get? r.work).isSome

variable {C : Type*} {src : Source C} {tree : Tree C} {lib lib' : LibraryDb}
  {x y : RelPath × SourceFile C} {xs all : List (RelPath × SourceFile C)} {p : RelPath}
  {digest : String} {m : ℕ}

abbrev visit (src : Source C) (lib : LibraryDb) (x : RelPath × SourceFile C) : LibraryDb :=
  (ingestFile src lib x).2

/-! ### A visit -/

/-- **What a visit does**: the file is left aside, or recorded. -/
theorem visit_cases (src : Source C) (lib : LibraryDb) (x : RelPath × SourceFile C) :
    LeftAside src lib x ∧ visit src lib x = lib ∨
      ¬ LeftAside src lib x ∧ visit src lib x =
        (lib.ensureWork (src.sha256 x.2.raw)).upsertFile x.1 x.2.mtime (src.size x.2.raw)
          (src.sha256 x.2.raw) := by
  unfold visit ingestFile
  by_cases hskip : shouldSkip src lib x = true
  · rw [if_pos hskip]
    exact .inl ⟨.inl hskip, rfl⟩
  · rw [if_neg hskip]
    cases hreason : rejection src x.1 x.2.raw with
    | some reason => exact .inl ⟨.inr (by rw [hreason]; exact Option.some_ne_none reason), rfl⟩
    | none =>
      refine .inr ⟨?_, rfl⟩
      rintro (h | h)
      · exact hskip h
      · exact h hreason

def recordOf (src : Source C) (f : SourceFile C) : FileRow :=
  ⟨src.sha256 f.raw, f.mtime, src.size f.raw, src.sha256 f.raw, .present⟩

theorem files_visit_of_ne (h : p ≠ x.1) : (visit src lib x).files.get? p = lib.files.get? p := by
  rcases visit_cases src lib x with ⟨-, hvisit⟩ | ⟨-, hvisit⟩
  · rw [hvisit]
  · rw [hvisit]
    exact Table.get?_put_of_ne _ h _

theorem works_visit {status : WorkStatus} (h : (visit src lib x).works.get? digest = some status) :
    lib.works.get? digest = some status ∨ status = .active ∧ digest = src.sha256 x.2.raw := by
  rcases visit_cases src lib x with ⟨-, hvisit⟩ | ⟨-, hvisit⟩
  · rw [hvisit] at h
    exact .inl h
  · rw [hvisit] at h
    have hinsert : (lib.works.insertNew (src.sha256 x.2.raw) .active).get? digest = some status := h
    rw [Table.get?_insertNew] at hinsert
    split at hinsert
    · next heq =>
      cases hold : lib.works.get? (src.sha256 x.2.raw) with
      | none =>
        rw [hold, Option.getD_none] at hinsert
        exact .inr ⟨(Option.some.inj hinsert).symm, heq⟩
      | some old =>
        rw [hold, Option.getD_some] at hinsert
        exact .inl (by rw [heq, hold, hinsert])
    · exact .inl hinsert

theorem works_visit_of_some {status : WorkStatus} (h : lib.works.get? digest = some status) :
    (visit src lib x).works.get? digest = some status := by
  rcases visit_cases src lib x with ⟨-, hvisit⟩ | ⟨-, hvisit⟩
  · rw [hvisit]
    exact h
  · rw [hvisit]
    exact Table.get?_insertNew_of_some h

theorem rowsSound_visit (h : RowsSound lib) : RowsSound (visit src lib x) := by
  intro p r hr
  by_cases hp : p = x.1
  · subst hp
    rcases visit_cases src lib x with ⟨-, hvisit⟩ | ⟨-, hvisit⟩
    · rw [hvisit] at hr ⊢
      exact h _ r hr
    · rw [hvisit] at hr ⊢
      have hput : (lib.files.put x.1 (recordOf src x.2)).get? x.1 = some r := hr
      rw [Table.get?_put_self] at hput
      obtain rfl := Option.some.inj hput
      refine ⟨rfl, ?_⟩
      show ((lib.works.insertNew (src.sha256 x.2.raw) .active).get? (src.sha256 x.2.raw)).isSome
      rw [Table.get?_insertNew, if_pos rfl]
      rfl
  · rw [files_visit_of_ne hp] at hr
    obtain ⟨hwork, hsome⟩ := h p r hr
    obtain ⟨status, hstatus⟩ := Option.isSome_iff_exists.mp hsome
    exact ⟨hwork, Option.isSome_of_eq_some (works_visit_of_some hstatus)⟩

/-- **The visit of a file that is ready records it.** -/
theorem recorded_visit_self (h : Ready src lib x) : Recorded src (visit src lib x) x := by
  rcases visit_cases src lib x with ⟨haside, hvisit⟩ | ⟨-, hvisit⟩
  · rw [hvisit]
    exact h haside
  · rw [hvisit]
    exact ⟨recordOf src x.2, Table.get?_put_self _ _ _, rfl, rfl⟩

theorem Recorded.ready (h : Recorded src lib x) : Ready src lib x := fun _ => h

theorem recorded_congr (h : lib'.files.get? x.1 = lib.files.get? x.1) :
    Recorded src lib' x ↔ Recorded src lib x := by
  unfold Recorded
  rw [h]

theorem ready_congr (h : lib'.files.get? x.1 = lib.files.get? x.1) :
    Ready src lib' x ↔ Ready src lib x := by
  unfold Ready LeftAside shouldSkip
  rw [h, recorded_congr h]

theorem ready_visit_iff (hxy : y.1 = x.1 → y = x) :
    Ready src (visit src lib y) x ↔ Ready src lib x := by
  by_cases h : x.1 = y.1
  · obtain rfl := hxy h.symm
    constructor
    · intro hready haside
      rcases visit_cases src lib y with ⟨-, hvisit⟩ | ⟨hnot, -⟩
      · rw [hvisit] at hready
        exact hready haside
      · exact absurd haside hnot
    · exact fun hready => (recorded_visit_self hready).ready
  · exact ready_congr (files_visit_of_ne h)

theorem recorded_visit (hxy : y.1 = x.1 → y = x) (h : Recorded src lib x) :
    Recorded src (visit src lib y) x := by
  by_cases hne : x.1 = y.1
  · obtain rfl := hxy hne.symm
    exact recorded_visit_self h.ready
  · exact (recorded_congr (files_visit_of_ne hne)).mpr h

/-! ### All visits of a sweep -/

def Distinct (all : List (RelPath × SourceFile C)) : Prop :=
  ∀ x ∈ all, ∀ y ∈ all, y.1 = x.1 → y = x

theorem distinct_eligiblePaths : Distinct (src.eligiblePaths tree) := fun _ hx _ hy h =>
  List.inj_on_of_nodup_map nodup_eligiblePaths hy hx h

section Sweep

variable (hall : Distinct all)

include hall

theorem ready_foldl_iff (hx : x ∈ all) (hxs : xs ⊆ all) :
    Ready src (xs.foldl (visit src) lib) x ↔ Ready src lib x := by
  induction xs generalizing lib with
  | nil => exact Iff.rfl
  | cons y ys ih =>
    rw [List.foldl_cons, ih fun z hz => hxs (List.mem_cons_of_mem _ hz)]
    exact ready_visit_iff (hall x hx y (hxs List.mem_cons_self))

theorem recorded_foldl (hx : x ∈ all) (hxs : xs ⊆ all) (h : Recorded src lib x) :
    Recorded src (xs.foldl (visit src) lib) x := by
  induction xs generalizing lib with
  | nil => exact h
  | cons y ys ih =>
    refine ih (fun z hz => hxs (List.mem_cons_of_mem _ hz)) ?_
    exact recorded_visit (hall x hx y (hxs List.mem_cons_self)) h

/-- **A sweep records the files that it visits.** -/
theorem recorded_foldl_of_mem (hx : x ∈ xs) (hxs : xs ⊆ all) (h : Ready src lib x) :
    Recorded src (xs.foldl (visit src) lib) x := by
  induction xs generalizing lib with
  | nil => cases hx
  | cons y ys ih =>
    have hys : ys ⊆ all := fun z hz => hxs (List.mem_cons_of_mem _ hz)
    rcases List.mem_cons.mp hx with rfl | hmem
    · rw [List.foldl_cons]
      exact recorded_foldl hall (hxs List.mem_cons_self) hys (recorded_visit_self h)
    · refine ih hmem hys ?_
      exact (ready_visit_iff (hall x (hys hmem) y (hxs List.mem_cons_self))).mpr h

end Sweep

theorem files_foldl (hp : p ∉ xs.map Prod.fst) :
    (xs.foldl (visit src) lib).files.get? p = lib.files.get? p := by
  induction xs generalizing lib with
  | nil => rfl
  | cons y ys ih =>
    rw [List.map_cons, List.mem_cons, not_or] at hp
    rw [List.foldl_cons, ih hp.2]
    exact files_visit_of_ne hp.1

theorem works_foldl_of_some {status : WorkStatus} (h : lib.works.get? digest = some status) :
    (xs.foldl (visit src) lib).works.get? digest = some status := by
  induction xs generalizing lib with
  | nil => exact h
  | cons y ys ih => exact ih (works_visit_of_some h)

theorem works_foldl {status : WorkStatus}
    (h : (xs.foldl (visit src) lib).works.get? digest = some status) :
    lib.works.get? digest = some status ∨
      status = .active ∧ ∃ y ∈ xs, digest = src.sha256 y.2.raw := by
  induction xs generalizing lib with
  | nil => exact .inl h
  | cons y ys ih =>
    rcases ih h with hvisit | ⟨hactive, z, hz, hdigest⟩
    · rcases works_visit hvisit with hold | ⟨hactive, hdigest⟩
      · exact .inl hold
      · exact .inr ⟨hactive, y, List.mem_cons_self, hdigest⟩
    · exact .inr ⟨hactive, z, List.mem_cons_of_mem _ hz, hdigest⟩

theorem rowsSound_foldl (h : RowsSound lib) : RowsSound (xs.foldl (visit src) lib) := by
  induction xs generalizing lib with
  | nil => exact h
  | cons y ys ih => exact ih (rowsSound_visit h)

/-! ### The end of a sweep -/

theorem referred_iff : lib.referred digest = true ↔
    ∃ p r, lib.files.get? p = some r ∧ r.isPresent = true ∧ r.work = digest := by
  unfold LibraryDb.referred
  rw [decide_eq_true_iff, Nat.pos_iff_ne_zero, ne_eq, Table.count_eq_zero_iff]
  simp only [not_forall, Bool.not_eq_false, Bool.and_eq_true, decide_eq_true_eq, exists_prop]

theorem files_reconcile : (reconcile src tree lib).files.get? p =
    (lib.files.get? p).map fun r =>
      if r.isPresent && decide (p ∉ (src.eligiblePaths tree).map Prod.fst) then
        { r with status := .removed } else r := Table.get?_update _ _ _ _

theorem files_reconcile_of_mem (hp : p ∈ (src.eligiblePaths tree).map Prod.fst) :
    (reconcile src tree lib).files.get? p = lib.files.get? p := by
  rw [files_reconcile]
  simp [hp]

/-- What is there after the end of a sweep was there, and is one of its files. -/
theorem present_reconcile {r : FileRow} :
    (reconcile src tree lib).files.get? p = some r ∧ r.isPresent = true ↔
      p ∈ (src.eligiblePaths tree).map Prod.fst ∧ lib.files.get? p = some r ∧
        r.isPresent = true := by
  by_cases hp : p ∈ (src.eligiblePaths tree).map Prod.fst
  · rw [files_reconcile_of_mem hp]
    tauto
  · simp only [hp, false_and, iff_false, not_and]
    rw [files_reconcile, Option.map_eq_some_iff]
    rintro ⟨r', -, rfl⟩
    rw [decide_eq_true hp, Bool.and_true]
    split
    · exact Bool.false_ne_true
    · next hgone => exact hgone

/-- A work that no file of the source has is retired at the end of a sweep. -/
theorem works_reconcile : (reconcile src tree lib).works.get? digest =
    (lib.works.get? digest).map fun status =>
      if status = .active ∧ ¬ (reconcile src tree lib).referred digest then .retired
      else status := by
  have hreferred : (reconcile src tree lib).referred digest =
      (lib.markRemovals ((src.eligiblePaths tree).map Prod.fst)).referred digest := rfl
  have hget := Table.get?_update lib.works (fun digest status => status = .active &&
    !(lib.markRemovals ((src.eligiblePaths tree).map Prod.fst)).referred digest)
    (fun _ _ => .retired) digest
  refine hget.trans ?_
  rw [hreferred]
  congr 1
  funext status
  simp

theorem rowsSound_reconcile (h : RowsSound lib) : RowsSound (reconcile src tree lib) := by
  intro p r hr
  rw [files_reconcile, Option.map_eq_some_iff] at hr
  obtain ⟨r', hr', rfl⟩ := hr
  obtain ⟨hwork, hsome⟩ := h p r' hr'
  have hkept : ∀ digest, (lib.works.get? digest).isSome →
      ((reconcile src tree lib).works.get? digest).isSome := by
    intro digest hdigest
    rw [works_reconcile, Option.isSome_map]
    exact hdigest
  split
  · exact ⟨hwork, hkept _ hsome⟩
  · exact ⟨hwork, hkept _ hsome⟩

theorem ready_reconcile_iff (hx : x ∈ src.eligiblePaths tree) :
    Ready src (reconcile src tree lib) x ↔ Ready src lib x :=
  ready_congr (files_reconcile_of_mem (List.mem_map_of_mem hx))

theorem retired_reconcile (h : lib.works.get? digest = some .retired) :
    (reconcile src tree lib).works.get? digest = some .retired := by
  rw [works_reconcile, h]
  simp

/-! ### In step -/

theorem InStep.recorded (h : InStep src tree lib) (hx : x ∈ src.eligiblePaths tree) :
    Recorded src lib x := by
  obtain ⟨r, hr, hpresent⟩ := (h.files x.1).mpr (List.mem_map_of_mem hx)
  exact ⟨r, hr, hpresent, h.digests x hx r hr⟩

/-- **A sweep that ends with all files recorded brings the tables into step**, where none of their
works is retired. -/
theorem inStep_reconcile (hsound : RowsSound lib)
    (hrecorded : ∀ x ∈ src.eligiblePaths tree, Recorded src lib x)
    (halive : ∀ x ∈ src.eligiblePaths tree, lib.works.get? (src.sha256 x.2.raw) ≠ some .retired) :
    InStep src tree (reconcile src tree lib) where
  files := by
    intro p
    constructor
    · rintro ⟨r, hr⟩
      exact (present_reconcile.mp hr).1
    · intro hp
      obtain ⟨x, hx, rfl⟩ := List.mem_map.mp hp
      obtain ⟨r, hr, hpresent, -⟩ := hrecorded x hx
      exact ⟨r, present_reconcile.mpr ⟨hp, hr, hpresent⟩⟩
  digests := by
    intro x hx r hr
    rw [files_reconcile_of_mem (List.mem_map_of_mem hx)] at hr
    obtain ⟨r', hr', -, hdigest⟩ := hrecorded x hx
    rwa [Option.some.inj (hr.symm.trans hr')]
  works := by
    intro digest status hstatus
    rw [works_reconcile, Option.map_eq_some_iff] at hstatus
    obtain ⟨old, hold, rfl⟩ := hstatus
    rw [← referred_iff]
    by_cases hreferred : (reconcile src tree lib).referred digest = true
    · -- the work of a file: the file is recorded, so its work is alive
      refine iff_of_true ?_ hreferred
      rw [if_neg (fun h => h.2 hreferred)]
      obtain ⟨p, r, hr, hpresent, rfl⟩ := referred_iff.mp hreferred
      obtain ⟨hp, hr, -⟩ := present_reconcile.mp ⟨hr, hpresent⟩
      obtain ⟨x, hx, rfl⟩ := List.mem_map.mp hp
      obtain ⟨r', hr', -, hdigest⟩ := hrecorded x hx
      obtain rfl := Option.some.inj (hr'.symm.trans hr)
      have hlive := halive x hx
      rw [← hdigest, ← (hsound _ _ hr).1, hold] at hlive
      cases old with
      | active => rfl
      | retired => exact absurd rfl hlive
    · refine iff_of_false ?_ hreferred
      cases old with
      | active => simp [hreferred]
      | retired => simp

theorem inStep_visit (hsound : RowsSound lib) (h : InStep src tree lib)
    (hx : x ∈ src.eligiblePaths tree) : InStep src tree (visit src lib x) := by
  obtain ⟨old, hold, hpresent, hdigest⟩ := h.recorded hx
  obtain ⟨hwork, hsome⟩ := hsound _ _ hold
  rcases visit_cases src lib x with ⟨-, hvisit⟩ | ⟨-, hvisit⟩
  · rw [hvisit]
    exact h
  · rw [hvisit]
    -- the work is there, and the record has its old path, digest and work
    have hworks : lib.works.insertNew (src.sha256 x.2.raw) .active = lib.works := by
      rw [← hdigest, ← hwork]
      obtain ⟨status, hstatus⟩ := Option.isSome_iff_exists.mp hsome
      exact Table.insertNew_of_some hstatus _
    have hfiles : ∀ p, (lib.files.put x.1 (recordOf src x.2)).get? p =
        if p = x.1 then some (recordOf src x.2) else lib.files.get? p := Table.get?_put _ _ _
    have hrow : ∀ p, (∃ r, (lib.files.put x.1 (recordOf src x.2)).get? p = some r ∧
        r.isPresent = true) ↔ ∃ r, lib.files.get? p = some r ∧ r.isPresent = true := by
      intro p
      rw [hfiles]
      split
      · next hp =>
        subst hp
        exact iff_of_true ⟨_, rfl, rfl⟩ ⟨old, hold, hpresent⟩
      · exact Iff.rfl
    refine ⟨fun p => (hrow p).trans (h.files p), fun y hy r hr => ?_,
      fun digest status hstatus => ?_⟩
    · have hr' : (lib.files.put x.1 (recordOf src x.2)).get? y.1 = some r := hr
      rw [hfiles] at hr'
      split at hr'
      · next hp =>
        obtain rfl := distinct_eligiblePaths x hx y hy hp
        obtain rfl := Option.some.inj hr'
        rfl
      · exact h.digests y hy r hr'
    · have hstatus' : (lib.works.insertNew (src.sha256 x.2.raw) .active).get? digest =
        some status :=
        hstatus
      rw [hworks] at hstatus'
      refine (h.works digest status hstatus').trans ?_
      show _ ↔ ∃ p r, (lib.files.put x.1 (recordOf src x.2)).get? p = some r ∧ r.isPresent = true ∧
        r.work = digest
      refine exists_congr fun p => ?_
      rw [hfiles]
      split
      · next hp =>
        subst hp
        constructor
        · rintro ⟨r, hr, -, rfl⟩
          obtain rfl := Option.some.inj (hold.symm.trans hr)
          exact ⟨_, rfl, rfl, (hwork.trans hdigest).symm⟩
        · rintro ⟨r, hr, -, rfl⟩
          obtain rfl := Option.some.inj hr
          exact ⟨old, hold, hpresent, hwork.trans hdigest⟩
      · exact Iff.rfl

theorem inStep_foldl (hsound : RowsSound lib) (h : InStep src tree lib)
    (hxs : xs ⊆ src.eligiblePaths tree) : InStep src tree (xs.foldl (visit src) lib) := by
  induction xs generalizing lib with
  | nil => exact h
  | cons y ys ih =>
    refine ih (rowsSound_visit hsound) ?_ fun z hz => hxs (List.mem_cons_of_mem _ hz)
    exact inStep_visit hsound h (hxs List.mem_cons_self)

end Library
