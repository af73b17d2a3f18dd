import Mathlib.Algebra.Order.Group.Multiset
import Mathlib.Data.List.ReduceOption
import RunnerDashboard.Deploy.Releases
import RunnerDashboard.Deploy.ReleaseMatch

/-!
# The retention of releases

Of the automatic releases the newest ones are kept.  Of the others those are deleted that are not of
a protected commit.

A target is a commit id or its first seven digits, and so is what is protected.  The code looks for
the target and for its first seven digits among what is protected, but a short target tells nothing
of the full id of its commit.

## Main results

* `le_countP_remaining` — the newest ones are left.
* `exists_remaining_iff` — **a commit keeps a release if one of its releases can be told.**
-/

namespace Deploy

deriving instance DecidableEq for Release

/-! ### What is deleted -/

def Release.targetSha (r : Release) : String := Py.lower r.targetCommitish

def Release.isAuto (dg : Digits) (r : Release) : Bool := !r.draft && isAutoReleaseTag dg r.tagName

def autoRows (dg : Digits) (releases : Releases) : List Release :=
  releases.reduceOption.filter (Release.isAuto dg)

/-- `{s.lower() for s in protected_shas if s}`. -/
def protectedIds (protectedShas : List String) : List String :=
  (protectedShas.filter (· ≠ "")).map Py.lower

def selectReleasesToDelete (dg : Digits) (releases : Releases) (keepCount : ℤ)
    (protectedShas : List String) : Except String (List Release) :=
  if keepCount < 1 then .error "keep_count must be at least 1"
  else
    let keep := keepCount.toNat
    let ids := protectedIds protectedShas
    let rows := autoRows dg releases
    if rows.length ≤ keep then .ok []
    else
      let survivorShas := (rows.take keep).map Release.targetSha
      .ok ((rows.drop keep).filter fun r =>
        r.targetSha ∉ ids && short r.targetSha ∉ ids && r.targetSha ∉ survivorShas)

/-- The rows that are left when some are deleted. -/
def remaining (releases : Releases) (deleted : List Release) : Multiset Release :=
  (releases.reduceOption : Multiset Release) - (deleted : Multiset Release)

/-! ### Commits -/

def IsCommit (sha : String) : Prop := normalizeCommitSha sha = some sha

/-- The release is of the commit, by its full id or by its first seven digits. -/
def Release.Of (sha : String) (r : Release) : Prop :=
  r.targetSha = sha ∨ r.targetSha = short sha

/-- The commit is protected, by its full id or by its first seven digits. -/
def IsProtected (protectedShas : List String) (sha : String) : Prop :=
  sha ∈ protectedIds protectedShas ∨ short sha ∈ protectedIds protectedShas

/-- The commit is protected by its first seven digits, or one of its automatic releases has its full
id, or is one of the newest. -/
def Retainable (dg : Digits) (releases : Releases) (keepCount : ℤ) (protectedShas : List String)
    (sha : String) : Prop :=
  short sha ∈ protectedIds protectedShas ∨ (∃ r ∈ autoRows dg releases, r.targetSha = sha) ∨
    ∃ r ∈ (autoRows dg releases).take keepCount.toNat, r.Of sha

variable {dg : Digits} {releases : Releases} {keepCount : ℤ} {protectedShas : List String}
  {deleted : List Release} {r : Release} {sha : String}

theorem mem_autoRows_iff :
    r ∈ autoRows dg releases ↔ some r ∈ releases ∧ r.isAuto dg = true := by
  rw [autoRows, List.mem_filter, List.reduceOption_mem_iff]

/-- A release that the code deletes, if it is not one of the newest. -/
def Release.deletable (dg : Digits) (releases : Releases) (keepCount : ℤ)
    (protectedShas : List String) (r : Release) : Bool :=
  r.targetSha ∉ protectedIds protectedShas && short r.targetSha ∉ protectedIds protectedShas &&
    r.targetSha ∉ ((autoRows dg releases).take keepCount.toNat).map Release.targetSha

/-- **What is deleted**, also where there are few releases. -/
theorem selectReleasesToDelete_eq (hkeep : 1 ≤ keepCount) :
    selectReleasesToDelete dg releases keepCount protectedShas =
      .ok (((autoRows dg releases).drop keepCount.toNat).filter
        (Release.deletable dg releases keepCount protectedShas)) := by
  unfold selectReleasesToDelete
  rw [if_neg (by omega)]
  dsimp only
  split
  · next hfew => rw [List.drop_of_length_le hfew, List.filter_nil]
  · rfl

theorem mem_filter_deletable
    (h : r ∈ ((autoRows dg releases).drop keepCount.toNat).filter
      (Release.deletable dg releases keepCount protectedShas)) :
    r.targetSha ∉ protectedIds protectedShas ∧ short r.targetSha ∉ protectedIds protectedShas ∧
      ∀ r' ∈ (autoRows dg releases).take keepCount.toNat, r'.targetSha ≠ r.targetSha := by
  obtain ⟨-, hdel⟩ := List.mem_filter.mp h
  simpa [Release.deletable, and_assoc, -List.map_take] using hdel

/-! ### What is left -/

theorem subperm_deleted (p : Release → Bool) (n : ℕ) :
    (((autoRows dg releases).drop n).filter p).Subperm releases.reduceOption :=
  (List.filter_sublist.trans ((List.drop_sublist n _).trans List.filter_sublist)).subperm

theorem mem_remaining_of_notMem (hr : r ∈ autoRows dg releases) (hdeleted : r ∉ deleted) :
    r ∈ remaining releases deleted := by
  rw [remaining, Multiset.mem_sub, Multiset.coe_count, Multiset.coe_count,
    List.count_eq_zero_of_not_mem hdeleted, List.count_pos_iff]
  exact (List.mem_filter.mp hr).1

/-- **At least the newest ones are left.** -/
theorem le_countP_remaining (p : Release → Bool) (n : ℕ) :
    min n (autoRows dg releases).length ≤
      (remaining releases (((autoRows dg releases).drop n).filter p)).countP
        fun r => r.isAuto dg = true := by
  have hsub : ((((autoRows dg releases).drop n).filter p : List Release) : Multiset Release) ≤
      (releases.reduceOption : Multiset Release) := Multiset.coe_le.mpr (subperm_deleted p n)
  have hauto : (autoRows dg releases).length = releases.reduceOption.countP (Release.isAuto dg) :=
    (List.countP_eq_length_filter ..).symm
  have hdeleted : (((autoRows dg releases).drop n).filter p).countP (Release.isAuto dg) ≤
      (autoRows dg releases).length - n := by
    refine List.countP_le_length.trans ?_
    refine (List.length_filter_le ..).trans ?_
    rw [List.length_drop]
  rw [remaining, Multiset.countP_sub hsub, Multiset.coe_countP, Multiset.coe_countP]
  simp only [Bool.decide_eq_true]
  show min n _ ≤ releases.reduceOption.countP (Release.isAuto dg) -
    (((autoRows dg releases).drop n).filter p).countP (Release.isAuto dg)
  omega

theorem isAuto_of_mem_deleted {p : Release → Bool} {n : ℕ}
    (h : r ∈ ((autoRows dg releases).drop n).filter p) : r.isAuto dg = true :=
  (mem_autoRows_iff.mp (List.mem_of_mem_drop (List.mem_filter.mp h).1)).2

/-- A release of which no equal one is among the newest goes with all that are equal to it. -/
theorem notMem_remaining {p : Release → Bool} {n : ℕ} (hp : p r = true)
    (hauto : r.isAuto dg = true) (hnew : r ∉ (autoRows dg releases).take n) :
    r ∉ remaining releases (((autoRows dg releases).drop n).filter p) := by
  have hall : (autoRows dg releases).count r = releases.reduceOption.count r :=
    List.count_filter hauto
  have hsplit : (autoRows dg releases).count r = ((autoRows dg releases).take n).count r +
      ((autoRows dg releases).drop n).count r := by
    rw [← List.count_append, List.take_append_drop]
  rw [List.count_eq_zero_of_not_mem hnew] at hsplit
  rw [remaining, Multiset.mem_sub, Multiset.coe_count, Multiset.coe_count, List.count_filter hp]
  omega

/-- **A commit keeps a release if one of its releases can be told.** -/
theorem exists_remaining_iff (hsha : IsCommit sha) (hprotected : IsProtected protectedShas sha)
    (hex : ∃ r ∈ autoRows dg releases, r.Of sha) :
    (∃ r ∈ remaining releases (((autoRows dg releases).drop keepCount.toNat).filter
        (Release.deletable dg releases keepCount protectedShas)), r.isAuto dg = true ∧ r.Of sha) ↔
      Retainable dg releases keepCount protectedShas sha := by
  have hlength := (normalizeCommitSha_spec hsha).2.1
  constructor
  · rintro ⟨r, hr, hauto, hof⟩
    by_contra hretain
    obtain ⟨hshort, hfull, hnew⟩ : short sha ∉ protectedIds protectedShas ∧
        (∀ r ∈ autoRows dg releases, r.targetSha ≠ sha) ∧
        ∀ r ∈ (autoRows dg releases).take keepCount.toNat, ¬ r.Of sha := by
      simpa [Retainable] using hretain
    have hrow : r ∈ releases.reduceOption := Multiset.mem_of_le (Multiset.sub_le_self ..) hr
    have htarget : r.targetSha = short sha :=
      hof.resolve_left (hfull r (List.mem_filter.mpr ⟨hrow, hauto⟩))
    refine notMem_remaining ?_ hauto (fun hmem => hnew r hmem hof) hr
    -- the target is short, and so are its first seven digits
    have hshort' : short (short sha) = short sha := short_of_length (length_short hlength)
    have hothers : ∀ r' ∈ (autoRows dg releases).take keepCount.toNat,
        r'.targetSha ≠ short sha := fun r' hr' h => hnew r' hr' (.inr h)
    simpa [Release.deletable, htarget, hshort', hshort, -List.map_take] using hothers
  · rintro (hshort | ⟨r, hr, htarget⟩ | ⟨r, hr, hof⟩)
    · obtain ⟨r, hr, hof⟩ := hex
      refine ⟨r, mem_remaining_of_notMem hr fun hdel => ?_, (mem_autoRows_iff.mp hr).2, hof⟩
      obtain ⟨hfull, hshort', -⟩ := mem_filter_deletable hdel
      rcases hof with htarget | htarget
      · exact hshort' (htarget ▸ hshort)
      · exact hfull (htarget ▸ hshort)
    · refine ⟨r, mem_remaining_of_notMem hr fun hdel => ?_, (mem_autoRows_iff.mp hr).2,
        .inl htarget⟩
      obtain ⟨hfull, hshort', -⟩ := mem_filter_deletable hdel
      rcases hprotected with hsha | hsha
      · exact hfull (htarget ▸ hsha)
      · exact hshort' (htarget ▸ hsha)
    · have hr' := List.mem_of_mem_take hr
      refine ⟨r, mem_remaining_of_notMem hr' fun hdel => ?_, (mem_autoRows_iff.mp hr').2, hof⟩
      exact (mem_filter_deletable hdel).2.2 r hr rfl

/-! ### What is promised -/

/-- What the retention is to do with the rows that it deletes: every protected commit keeps a
release, as many automatic releases are left as are to be kept, and no other row is deleted. -/
structure Retains (dg : Digits) (releases : Releases) (keepCount : ℤ)
    (protectedShas : List String) (deleted : List Release) : Prop where
  protects : ∀ sha, IsCommit sha → IsProtected protectedShas sha →
    (∃ r ∈ autoRows dg releases, r.Of sha) →
      ∃ r ∈ remaining releases deleted, r.isAuto dg = true ∧ r.Of sha
  keeps : min keepCount.toNat (autoRows dg releases).length ≤
    (remaining releases deleted).countP fun r => r.isAuto dg = true
  deletesAuto : ∀ r ∈ deleted, r.draft = false ∧ isAutoReleaseTag dg r.tagName = true

/-- **The retention keeps its promise exactly if of every protected commit with a release one can be
told.** -/
theorem retains_iff (hkeep : 1 ≤ keepCount) :
    (∃ deleted, selectReleasesToDelete dg releases keepCount protectedShas = .ok deleted ∧
        Retains dg releases keepCount protectedShas deleted) ↔
      ∀ sha, IsCommit sha → IsProtected protectedShas sha →
        (∃ r ∈ autoRows dg releases, r.Of sha) →
          Retainable dg releases keepCount protectedShas sha := by
  rw [selectReleasesToDelete_eq hkeep]
  constructor
  · rintro ⟨deleted, hok, hretains⟩ sha hsha hprotected hex
    obtain rfl := Except.ok.inj hok
    exact (exists_remaining_iff hsha hprotected hex).mp (hretains.protects sha hsha hprotected hex)
  · intro hretain
    refine ⟨_, rfl, fun sha hsha hprotected hex => ?_, le_countP_remaining _ _, fun r hr => ?_⟩
    · exact (exists_remaining_iff hsha hprotected hex).mpr (hretain sha hsha hprotected hex)
    · simpa [Release.isAuto] using isAuto_of_mem_deleted hr

def newRelease : Release :=
  releaseOf "v2026.01.03-ddddddd" "dddddddddddddddddddddddddddddddddddddddd" []

def oldRelease (target : String) : Release := releaseOf "v2026.01.02-ccccccc" target []

theorem protectedIds_cSha : protectedIds [cSha] = [cSha] := by decide +kernel

/-- A commit that is protected and released by its full id. -/
theorem retains_iff_full :
    ∃ deleted, selectReleasesToDelete asciiDigits [some newRelease, some (oldRelease cSha)] 1
        [cSha] = .ok deleted ∧
      Retains asciiDigits [some newRelease, some (oldRelease cSha)] 1 [cSha] deleted := by
  refine (retains_iff (by decide)).mpr fun sha hsha hprotected _ => .inr (.inl ?_)
  obtain rfl : sha = cSha := by
    rw [IsProtected, protectedIds_cSha, List.mem_singleton, List.mem_singleton] at hprotected
    refine hprotected.resolve_right fun hshort => ?_
    have hlength := length_short (normalizeCommitSha_spec hsha).2.1
    rw [hshort] at hlength
    exact absurd hlength (by decide +kernel)
  exact ⟨oldRelease cSha, mem_autoRows_iff.mpr ⟨by simp, by decide +kernel⟩, by decide +kernel⟩

/-- The older release is deleted when its target is the short id of its commit. -/
theorem not_retains :
    ¬ ∃ deleted, selectReleasesToDelete asciiDigits [some newRelease, some (oldRelease "ccccccc")] 1
        [cSha] = .ok deleted ∧
      Retains asciiDigits [some newRelease, some (oldRelease "ccccccc")] 1 [cSha] deleted := by
  rintro ⟨deleted, hok, hretains⟩
  obtain rfl := Except.ok.inj ((selectReleasesToDelete_eq (by decide)).symm.trans hok)
  have hrows : autoRows asciiDigits [some newRelease, some (oldRelease "ccccccc")] =
      [newRelease, oldRelease "ccccccc"] := by decide +kernel
  have hprotected : IsProtected [cSha] cSha := .inl (by rw [protectedIds_cSha]; simp)
  have hex : ∃ r ∈ autoRows asciiDigits [some newRelease, some (oldRelease "ccccccc")],
      r.Of cSha := ⟨oldRelease "ccccccc", by rw [hrows]; simp, .inr (by decide +kernel)⟩
  have hretain := (exists_remaining_iff normalizeCommitSha_cSha hprotected hex).mp
    (hretains.protects cSha normalizeCommitSha_cSha hprotected hex)
  rw [Retainable, hrows, protectedIds_cSha] at hretain
  rcases hretain with hshort | ⟨r, hr, htarget⟩ | ⟨r, hr, hof⟩
  · exact absurd hshort (by decide +kernel)
  · rcases List.mem_pair.mp hr with rfl | rfl
    · exact absurd htarget (by decide +kernel)
    · exact absurd htarget (by decide +kernel)
  · obtain rfl := List.mem_singleton.mp hr
    rcases hof with htarget | htarget
    · exact absurd htarget (by decide +kernel)
    · exact absurd htarget (by decide +kernel)

end Deploy
