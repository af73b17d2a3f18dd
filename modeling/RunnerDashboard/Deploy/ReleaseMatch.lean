import RunnerDashboard.Deploy.Releases

/-!
# Publisher and deployer

The publisher skips a commit that has a release, and the deployer waits for the assets of one. 
Their tests differ: where a release counts for one of them only, its commit is neither published nor
deployed, or published twice.  And a release whose target only begins as the commit does is of
another one.

## Main results

* `agree_iff` — **the tests agree exactly for such rows.**
* `disagree` — rows for which they do not.
-/

namespace Deploy

variable {dg : Digits} {releases before after : Releases} {r : Release} {sha full : String}
  {picked : ReleaseAssets}

/-- A release that the deployer takes for a commit: its target begins with the first seven digits,
and it has a tarball and a checksum. -/
def Release.Offered (dg : Digits) (full : String) (r : Release) : Prop :=
  r.draft = false ∧ r.targets full = true ∧ (r.found dg).isSome = true

/-- A release that is of a commit, with the checksum of its tarball.  A target is the commit, or
begins it. -/
def Release.Own (dg : Digits) (full : String) (r : Release) : Prop :=
  (Py.lower r.targetCommitish).toList <+: full.toList ∧
    ∀ tarball checksum, r.found dg = some (tarball, checksum) →
      checksum.name = checksumName tarball.1

/-- **The two tests agree, and the assets are of the commit**: they are the ones of a release of it,
and of one version. -/
structure Agree (dg : Digits) (releases : Releases) (sha full : String) : Prop where
  released : commitHasRelease dg releases sha = true ↔
    (pickReleaseAssets dg releases sha).isSome = true
  own : ∀ picked, pickReleaseAssets dg releases sha = some picked →
    ∃ before r after, releases = before ++ some r :: after ∧
      (∀ row ∈ before, row.bind (Release.offers dg full) = none) ∧
      r.offers dg full = some picked ∧ r.Own dg full

/-- **The rows are such that the tests agree.** -/
structure RowsAgree (dg : Digits) (releases : Releases) (full : String) : Prop where
  same : (∃ r, some r ∈ releases ∧ r.Indexed dg full) ↔ ∃ r, some r ∈ releases ∧ r.Offered dg full
  first : ∀ before r after, releases = before ++ some r :: after →
    (∀ r', some r' ∈ before → ¬ r'.Offered dg full) → r.Offered dg full → r.Own dg full

theorem isSome_offers_iff : (r.offers dg full).isSome = true ↔ r.Offered dg full := by
  unfold Release.Offered
  rw [offers_eq]
  by_cases h : r.draft = false ∧ r.targets full = true
  · rw [if_pos h, Option.isSome_map]
    simp [h]
  · rw [if_neg h]
    constructor
    · rintro ⟨⟩
    · rintro ⟨hdraft, htargets, -⟩
      exact absurd ⟨hdraft, htargets⟩ h

theorem offers_eq_none_iff : r.offers dg full = none ↔ ¬ r.Offered dg full := by
  rw [← isSome_offers_iff, Option.not_isSome_iff_eq_none]

theorem before_iff : (∀ row ∈ before, row.bind (Release.offers dg full) = none) ↔
    ∀ r', some r' ∈ before → ¬ r'.Offered dg full := by
  constructor
  · intro h r' hr'
    exact offers_eq_none_iff.mp (h _ hr')
  · intro h row hrow
    cases row with
    | none => rfl
    | some r' => exact offers_eq_none_iff.mpr (h r' hrow)

theorem find?_of_first (hrows : releases = before ++ some r :: after)
    (hbefore : ∀ row ∈ before, row.bind (Release.offers dg full) = none)
    (hr : r.offers dg full = some picked) :
    releases.find? (fun row => (row.bind (Release.offers dg full)).isSome) = some (some r) := by
  rw [List.find?_eq_some_iff_append]
  refine ⟨Option.isSome_of_eq_some hr, before, after, hrows, fun row hrow => ?_⟩
  rw [hbefore row hrow]
  rfl

/-- **The assets are of the first release that the deployer takes.** -/
theorem pickReleaseAssets_eq_some_iff (hsha : normalizeCommitSha sha = some full) :
    pickReleaseAssets dg releases sha = some picked ↔
      ∃ before r after, releases = before ++ some r :: after ∧
        (∀ row ∈ before, row.bind (Release.offers dg full) = none) ∧
        r.offers dg full = some picked := by
  obtain ⟨rfl, -, -⟩ := normalizeCommitSha_spec hsha
  unfold pickReleaseAssets
  rw [List.findSome?_eq_some_iff]
  constructor
  · rintro ⟨before, row, after, hrows, hrow, hbefore⟩
    obtain ⟨r, rfl, hr⟩ := Option.bind_eq_some_iff.mp hrow
    exact ⟨before, r, after, hrows, hbefore, hr⟩
  · rintro ⟨before, r, after, hrows, hbefore, hr⟩
    exact ⟨before, some r, after, hrows, hr, hbefore⟩

theorem isSome_pickReleaseAssets_iff (hsha : normalizeCommitSha sha = some full) :
    (pickReleaseAssets dg releases sha).isSome = true ↔
      ∃ r, some r ∈ releases ∧ r.Offered dg full := by
  obtain ⟨rfl, -, -⟩ := normalizeCommitSha_spec hsha
  unfold pickReleaseAssets
  rw [List.isSome_findSome?, List.any_eq_true]
  constructor
  · rintro ⟨row, hrow, h⟩
    cases row with
    | none => cases h
    | some r => exact ⟨r, hrow, isSome_offers_iff.mp h⟩
  · rintro ⟨r, hr, h⟩
    exact ⟨some r, hr, isSome_offers_iff.mpr h⟩

theorem rowsAgree_of_agree (hsha : normalizeCommitSha sha = some full)
    (h : Agree dg releases sha full) : RowsAgree dg releases full := by
  obtain ⟨hreleased, hown⟩ := h
  refine ⟨?_, fun before r after hrows hbefore hr => ?_⟩
  · rw [← commitHasRelease_iff hsha, ← isSome_pickReleaseAssets_iff hsha]
    exact hreleased
  · obtain ⟨picked, hpicked⟩ := Option.isSome_iff_exists.mp (isSome_offers_iff.mpr hr)
    have hnone := before_iff.mpr hbefore
    obtain ⟨before', r', after', hrows', hnone', hpicked', hr'⟩ := hown picked
      ((pickReleaseAssets_eq_some_iff hsha).mpr ⟨before, r, after, hrows, hnone, hpicked⟩)
    have hsame := (find?_of_first hrows hnone hpicked).symm.trans
      (find?_of_first hrows' hnone' hpicked')
    rwa [Option.some.inj (Option.some.inj hsame)]

theorem agree_of_rowsAgree (hsha : normalizeCommitSha sha = some full)
    (h : RowsAgree dg releases full) : Agree dg releases sha full := by
  obtain ⟨hsame, hfirst⟩ := h
  refine ⟨?_, fun picked hpicked => ?_⟩
  · rw [commitHasRelease_iff hsha, isSome_pickReleaseAssets_iff hsha]
    exact hsame
  · obtain ⟨before, r, after, hrows, hnone, hr⟩ := (pickReleaseAssets_eq_some_iff hsha).mp hpicked
    refine ⟨before, r, after, hrows, hnone, hr, ?_⟩
    exact hfirst before r after hrows (before_iff.mp hnone)
      (isSome_offers_iff.mp (Option.isSome_of_eq_some hr))

/-- **Publisher and deployer agree exactly for such rows.** -/
theorem agree_iff (hsha : normalizeCommitSha sha = some full) :
    Agree dg releases sha full ↔ RowsAgree dg releases full :=
  ⟨rowsAgree_of_agree hsha, agree_of_rowsAgree hsha⟩

def releaseOf (tagName targetCommitish : String) (assets : List Asset) : Release where
  tagName
  targetCommitish
  assets := some (assets.map some)

def asciiDigits : Digits := ⟨Char.isDigit, Char.isDigit⟩

/-- A commit, and another one with the same first seven digits. -/
def cSha : String := "cccccccccccccccccccccccccccccccccccccccc"

def cdSha : String := "cccccccddddddddddddddddddddddddddddddddd"

theorem normalizeCommitSha_cSha : normalizeCommitSha cSha = some cSha := by decide +kernel

def tarballOf (version : String) : Asset :=
  ⟨"dashboard-" ++ version ++ ".tar.gz", "https://api.github.com/tar"⟩

def checksumOf (version : String) : Asset :=
  ⟨checksumName version, "https://api.github.com/sum"⟩

/-- The release of a commit. -/
theorem agree_iff_one :
    let r := releaseOf "v2026.01.02-ccccccc" cSha [tarballOf "4.10.2", checksumOf "4.10.2"]
    Agree asciiDigits [some r] cSha cSha := by
  intro r
  have hindexed : r.Indexed asciiDigits cSha := ⟨cSha, by decide +kernel, rfl⟩
  have hoffered : r.Offered asciiDigits cSha := ⟨rfl, by decide +kernel, by decide +kernel⟩
  have hfound :
    r.found asciiDigits = some (("4.10.2", tarballOf "4.10.2"), checksumOf "4.10.2") := by
    decide +kernel
  refine (agree_iff normalizeCommitSha_cSha).mpr ⟨?_, ?_⟩
  · exact iff_of_true ⟨r, List.mem_singleton_self _, hindexed⟩
      ⟨r, List.mem_singleton_self _, hoffered⟩
  · intro before r' after hrows _ _
    have hmem : some r' ∈ [some r] := hrows ▸ List.mem_append_right _ List.mem_cons_self
    obtain rfl := Option.some.inj (List.mem_singleton.mp hmem)
    refine ⟨by decide +kernel, fun tarball checksum h => ?_⟩
    obtain ⟨rfl, rfl⟩ := Prod.mk.inj (Option.some.inj (hfound.symm.trans h))
    rfl

/-- A release that the deployer takes, and that is of another commit or version. -/
theorem not_agree_of_first (hsha : normalizeCommitSha sha = some full) (hr : r.Offered dg full)
    (hown : ¬ r.Own dg full) : ¬ Agree dg [some r] sha full := by
  intro h
  refine hown ((rowsAgree_of_agree hsha h).first [] r [] rfl ?_ hr)
  intro r' hr'
  cases hr'

/-- **A release without a checksum, one with a tag of another form, one of another commit, and one
with the checksum of another version.** -/
theorem disagree :
    ¬ Agree asciiDigits
      [some (releaseOf "v2026.01.02-ccccccc" cSha [tarballOf "4.10.2"])] cSha cSha ∧
    ¬ Agree asciiDigits [some (releaseOf "nightly" cSha [tarballOf "4.10.2", checksumOf "4.10.2"])]
      cSha cSha ∧
    ¬ Agree asciiDigits [some (releaseOf "v2026.01.02-ccccccc" cdSha
      [tarballOf "4.10.2", checksumOf "4.10.2"])] cSha cSha ∧
    ¬ Agree asciiDigits [some (releaseOf "v2026.01.02-ccccccc" cSha
      [tarballOf "4.10.2", checksumOf "4.10.1"])] cSha cSha := by
  refine ⟨fun h => ?_, fun h => ?_, ?_, ?_⟩
  · exact absurd (h.released.mp (by decide +kernel)) (by decide +kernel)
  · exact absurd (h.released.mpr (by decide +kernel)) (by decide +kernel)
  · refine not_agree_of_first normalizeCommitSha_cSha ⟨rfl, by decide +kernel, by decide +kernel⟩ ?_
    exact fun h => absurd h.1 (by decide +kernel)
  · refine not_agree_of_first normalizeCommitSha_cSha ⟨rfl, by decide +kernel, by decide +kernel⟩ ?_
    intro h
    exact absurd (h.2 ("4.10.2", tarballOf "4.10.2") (checksumOf "4.10.1") (by decide +kernel))
      (by decide +kernel)

end Deploy
