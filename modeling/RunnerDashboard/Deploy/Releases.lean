import RunnerDashboard.Deploy.CheckRuns
import RunnerDashboard.Lib.Table

/-!
# Releases of a commit

The publisher makes a release for a commit that has none, and the deployer looks for the release of
the commit that it deploys.  Each of them has its own test: the publisher looks at tags and at
targets that are commit ids, the deployer at the start of the target and at the assets.

## Main results

* `commitHasRelease_iff` — **a commit has a release if a row with a tag has its first seven
  digits.**
-/

namespace Deploy

open Sql

/-! ### Rows -/

structure Asset where
  name : String
  url : String
  deriving DecidableEq, Repr

/-- A release; texts that are not there are empty. -/
structure Release where
  draft : Bool := false
  tagName : String
  targetCommitish : String
  assets : Option (List (Option Asset))

/-- The rows of a list; `none` is a row that is no object. -/
abbrev Releases := List (Option Release)

/-- What Python takes for digits: `\d`, and `str.isdigit`. -/
structure Digits where
  isDecimal : Char → Bool
  isDigit : Char → Bool

/-! ### Tags and tarballs -/

/-- `20\d{2}\.\d{2}\.\d{2}-[0-9a-f]{7}`. -/
def datedVersion (dg : Digits) : List Char → Bool
  | '2' :: '0' :: y :: y' :: '.' :: m :: m' :: '.' :: d :: d' :: '-' :: sha =>
    [y, y', m, m', d, d'].all dg.isDecimal && sha.length = 7 && sha.all isHex
  | _ => false

/-- `\d+\.\d+\.\d+`. -/
def semverVersion (dg : Digits) (text : List Char) : Bool :=
  let parts := text.splitOn '.'
  parts.length = 3 && parts.all fun part => part ≠ [] && part.all dg.isDecimal

def isAutoReleaseTag (dg : Digits) (tagName : String) : Bool :=
  match (Py.strip tagName).toList with
  | 'v' :: version => datedVersion dg version
  | _ => false

def reSemverTag (dg : Digits) (tagName : String) : Bool :=
  match (Py.strip tagName).toList with
  | 'v' :: rest =>
    let parts := rest.splitOn '.'
    parts.length = 3 && parts.all fun part => part ≠ [] && part.all dg.isDigit
  | _ => false

def chompEnd (text : List Char) : List Char :=
  if text.getLast? = some '\n' then text.dropLast else text

def between (before after text : List Char) : Option (List Char) :=
  if before <+: text ∧ before.length + after.length ≤ text.length ∧ after <:+ text then
    some ((text.drop before.length).take (text.length - before.length - after.length))
  else none

/-- `_DASHBOARD_TAR`: the version of a tarball. -/
def dashboardVersion (dg : Digits) (name : String) : Option String :=
  match between "dashboard-".toList ".tar.gz".toList (chompEnd name.toList) with
  | some version =>
    if semverVersion dg version || datedVersion dg version then some (String.ofList version)
    else none
  | none => none

def checksumName (version : String) : String := "dashboard-" ++ version ++ ".tar.gz.sha256"

/-- `name.endswith(".tar.gz.sha256")`. -/
def isChecksum (name : String) : Bool := ".tar.gz.sha256".toList.isSuffixOf name.toList

/-! ### The publisher -/

/-- `_normalize_sha`: a commit id, or its first seven digits. -/
def normalizeSha (value : String) : Option String :=
  let sha := Py.strip (Py.lower value)
  if sha.toList.length = 40 && sha.toList.all isHex then some sha
  else if sha.toList.length = 7 && sha.toList.all isHex then some sha
  else none

/-- A release that counts, with the commit it is of. -/
def Release.indexKey (dg : Digits) (r : Release) : Option String :=
  if r.draft then none
  else
    match normalizeSha (Py.lower r.targetCommitish) with
    | none => none
    | some sha =>
      if !isAutoReleaseTag dg r.tagName && !reSemverTag dg r.tagName then none else some sha

/-- A row of `index_release_targets`. -/
def indexRow (dg : Digits) (out : Table String Release) (row : Option Release) :
    Table String Release :=
  match row with
  | none => out
  | some r =>
    match r.indexKey dg with
    | none => out
    | some sha =>
      if sha.toList.length = 40 then (out.put sha r).put (short sha) r else out.put sha r

def indexReleaseTargets (dg : Digits) (releases : Releases) : Table String Release :=
  releases.foldl (indexRow dg) .empty

def commitHasRelease (dg : Digits) (releases : Releases) (commitSha : String) : Bool :=
  match normalizeSha commitSha with
  | none => false
  | some sha =>
    let index := indexReleaseTargets dg releases
    (index.get? sha).isSome || (sha.toList.length = 40 && (index.get? (short sha)).isSome)

/-! ### The deployer -/

structure ReleaseAssets where
  version : String
  tarballUrl : String
  checksumUrl : String
  deriving DecidableEq, Repr

def takeTarball (dg : Digits) (a : Asset) (picked : ReleaseAssets) : ReleaseAssets :=
  match dashboardVersion dg a.name with
  | some version =>
    if picked.tarballUrl = "" then { picked with version, tarballUrl := a.url } else picked
  | none => picked

def takeChecksum (a : Asset) (picked : ReleaseAssets) : ReleaseAssets :=
  if isChecksum a.name ∧ picked.checksumUrl = "" then { picked with checksumUrl := a.url }
  else picked

def pickAsset (dg : Digits) (picked : ReleaseAssets) : Option Asset → ReleaseAssets
  | none => picked
  | some a => takeChecksum a (takeTarball dg a picked)

def pickAssets (dg : Digits) (assets : List (Option Asset)) : ReleaseAssets :=
  assets.foldl (pickAsset dg) ⟨"", "", ""⟩

/-- The target of a release is the commit, or begins with its first seven digits. -/
def Release.targets (r : Release) (sha : String) : Bool :=
  let target := Py.lower r.targetCommitish
  target = sha || Py.startsWith target (short sha)

def Release.offers (dg : Digits) (sha : String) (r : Release) : Option ReleaseAssets :=
  if r.draft then none
  else if !r.targets sha then none
  else
    match r.assets with
    | none => none
    | some assets =>
      let picked := pickAssets dg assets
      if picked.tarballUrl ≠ "" ∧ picked.checksumUrl ≠ "" ∧ picked.version ≠ "" then some picked
      else none

def pickReleaseAssets (dg : Digits) (releases : Releases) (commitSha : String) :
    Option ReleaseAssets :=
  releases.findSome? fun row => row.bind (Release.offers dg (Py.lower commitSha))

/-! ### What is picked -/

def Asset.tarball? (dg : Digits) (a : Asset) : Option (String × Asset) :=
  if a.url = "" then none else (dashboardVersion dg a.name).map fun version => (version, a)

def Asset.checksum? (a : Asset) : Option Asset :=
  if a.url = "" then none else if isChecksum a.name then some a else none

def firstTarball (dg : Digits) (assets : List (Option Asset)) : Option (String × Asset) :=
  assets.findSome? fun row => row.bind (Asset.tarball? dg)

def firstChecksum (assets : List (Option Asset)) : Option Asset :=
  assets.findSome? fun row => row.bind Asset.checksum?

def ReleaseAssets.tarball (picked : ReleaseAssets) : Option (String × String) :=
  if picked.tarballUrl = "" then none else some (picked.version, picked.tarballUrl)

def ReleaseAssets.checksum (picked : ReleaseAssets) : Option String :=
  if picked.checksumUrl = "" then none else some picked.checksumUrl

variable {dg : Digits} {assets : List (Option Asset)} {picked : ReleaseAssets}
  {version sha : String}
  {name : String} {a : Asset} {r : Release} {releases : Releases}

theorem dashboardVersion_ne_empty (h : dashboardVersion dg name = some version) : version ≠ "" := by
  unfold dashboardVersion at h
  split at h
  · next text _ =>
    split at h
    · next hversion =>
      rintro rfl
      obtain rfl : text = [] := String.ofList_eq_empty_iff.mp (Option.some.inj h)
      exact absurd hversion (by simp [semverVersion, datedVersion])
    · cases h
  · cases h

theorem tarball_takeTarball :
    (takeTarball dg a picked).tarball =
      picked.tarball.or ((a.tarball? dg).map fun x => (x.1, x.2.url)) := by
  unfold takeTarball Asset.tarball? ReleaseAssets.tarball
  cases dashboardVersion dg a.name with
  | none => simp
  | some version =>
    by_cases hpicked : picked.tarballUrl = ""
    · by_cases hurl : a.url = ""
      · simp [hpicked, hurl]
      · simp [hpicked, hurl]
    · simp [hpicked]

theorem checksum_takeTarball : (takeTarball dg a picked).checksum = picked.checksum := by
  unfold takeTarball ReleaseAssets.checksum
  cases dashboardVersion dg a.name with
  | none => rfl
  | some version => by_cases hpicked : picked.tarballUrl = "" <;> simp [hpicked]

theorem checksum_takeChecksum :
    (takeChecksum a picked).checksum = picked.checksum.or (a.checksum?.map (·.url)) := by
  unfold takeChecksum Asset.checksum? ReleaseAssets.checksum
  by_cases hpicked : picked.checksumUrl = ""
  · by_cases hname : isChecksum a.name = true
    · by_cases hurl : a.url = ""
      · simp [hpicked, hname, hurl]
      · simp [hpicked, hname, hurl]
    · simp [hpicked, hname]
  · simp [hpicked]

theorem tarball_takeChecksum : (takeChecksum a picked).tarball = picked.tarball := by
  unfold takeChecksum
  split <;> rfl

/-- **The tarball and the checksum that are picked are the first ones.** -/
theorem foldl_pickAsset (assets : List (Option Asset)) (picked : ReleaseAssets) :
    (assets.foldl (pickAsset dg) picked).tarball =
        picked.tarball.or ((firstTarball dg assets).map fun x => (x.1, x.2.url)) ∧
      (assets.foldl (pickAsset dg) picked).checksum =
        picked.checksum.or ((firstChecksum assets).map (·.url)) := by
  induction assets generalizing picked with
  | nil => simp [firstTarball, firstChecksum]
  | cons row assets ih =>
    cases row with
    | none => exact ih picked
    | some a =>
      obtain ⟨htarball, hchecksum⟩ := ih (pickAsset dg picked (some a))
      have hfirst : firstTarball dg (some a :: assets) =
          (a.tarball? dg).or (firstTarball dg assets) := by
        unfold firstTarball
        rw [List.findSome?_cons, Option.bind_some]
        cases a.tarball? dg <;> rfl
      have hfirst' : firstChecksum (some a :: assets) = a.checksum?.or (firstChecksum assets) := by
        unfold firstChecksum
        rw [List.findSome?_cons, Option.bind_some]
        cases a.checksum? <;> rfl
      rw [List.foldl_cons, htarball, hchecksum, hfirst, hfirst', Option.map_or, Option.map_or,
        ← Option.or_assoc, ← Option.or_assoc]
      unfold pickAsset
      rw [tarball_takeChecksum, tarball_takeTarball, checksum_takeChecksum, checksum_takeTarball]
      exact ⟨rfl, rfl⟩

theorem tarball_pickAssets (dg : Digits) (assets : List (Option Asset)) :
    (pickAssets dg assets).tarball = (firstTarball dg assets).map fun x => (x.1, x.2.url) :=
  (foldl_pickAsset assets ⟨"", "", ""⟩).1

theorem checksum_pickAssets (dg : Digits) (assets : List (Option Asset)) :
    (pickAssets dg assets).checksum = (firstChecksum assets).map (·.url) :=
  (foldl_pickAsset assets ⟨"", "", ""⟩).2

theorem tarball_eq_some_iff {url : String} : picked.tarball = some (version, url) ↔
    picked.tarballUrl = url ∧ picked.version = version ∧ url ≠ "" := by
  unfold ReleaseAssets.tarball
  by_cases h : picked.tarballUrl = ""
  · simp only [h, if_true]
    constructor
    · rintro ⟨⟩
    · rintro ⟨rfl, -, hne⟩
      exact absurd rfl hne
  · simp only [h, if_false, Option.some.injEq, Prod.mk.injEq]
    constructor
    · rintro ⟨rfl, rfl⟩
      exact ⟨rfl, rfl, h⟩
    · rintro ⟨rfl, rfl, -⟩
      exact ⟨rfl, rfl⟩

theorem checksum_eq_some_iff {url : String} :
    picked.checksum = some url ↔ picked.checksumUrl = url ∧ url ≠ "" := by
  unfold ReleaseAssets.checksum
  by_cases h : picked.checksumUrl = ""
  · simp only [h, if_true]
    constructor
    · rintro ⟨⟩
    · rintro ⟨rfl, hne⟩
      exact absurd rfl hne
  · simp only [h, if_false, Option.some.injEq]
    constructor
    · rintro rfl
      exact ⟨rfl, h⟩
    · exact And.left

theorem firstTarball_spec {x : String × Asset} (h : firstTarball dg assets = some x) :
    some x.2 ∈ assets ∧ dashboardVersion dg x.2.name = some x.1 := by
  obtain ⟨row, hrow, hx⟩ := List.exists_of_findSome?_eq_some h
  obtain ⟨a, rfl, ha⟩ := Option.bind_eq_some_iff.mp hx
  unfold Asset.tarball? at ha
  split at ha
  · cases ha
  · obtain ⟨version, hversion, rfl⟩ := Option.map_eq_some_iff.mp ha
    exact ⟨hrow, hversion⟩

/-- The assets that a release has for a commit: the first tarball and the first checksum. -/
def Release.found (dg : Digits) (r : Release) : Option ((String × Asset) × Asset) :=
  r.assets.bind fun assets => (firstTarball dg assets).bind fun tarball =>
    (firstChecksum assets).map fun checksum => (tarball, checksum)

/-- **A release offers its first tarball and its first checksum.** -/
theorem offers_eq : r.offers dg sha =
    if r.draft = false ∧ r.targets sha = true then
      (r.found dg).map fun x => ⟨x.1.1, x.1.2.url, x.2.url⟩
    else none := by
  unfold Release.offers Release.found
  cases r.draft with
  | true => simp
  | false =>
    cases r.targets sha with
    | false => simp
    | true =>
      cases r.assets with
      | none => rfl
      | some assets =>
        have htarball := tarball_pickAssets dg assets
        have hchecksum := checksum_pickAssets dg assets
        cases hfirst : firstTarball dg assets with
        | none =>
          -- no tarball
          rw [hfirst] at htarball
          have hurl : (pickAssets dg assets).tarballUrl = "" := by
            by_contra hne
            exact absurd (htarball.symm.trans (tarball_eq_some_iff.mpr ⟨rfl, rfl, hne⟩)) (by simp)
          simp [hurl, hfirst]
        | some x =>
          rw [hfirst] at htarball
          obtain ⟨hurl, hversion, hne⟩ := tarball_eq_some_iff.mp htarball
          have hversionNe := dashboardVersion_ne_empty (firstTarball_spec hfirst).2
          cases hlast : firstChecksum assets with
          | none =>
            -- no checksum
            rw [hlast] at hchecksum
            have hempty : (pickAssets dg assets).checksumUrl = "" := by
              by_contra hne
              exact absurd (hchecksum.symm.trans (checksum_eq_some_iff.mpr ⟨rfl, hne⟩)) (by simp)
            simp [hempty, hlast]
          | some c =>
            rw [hlast] at hchecksum
            obtain ⟨hcurl, hcne⟩ := checksum_eq_some_iff.mp hchecksum
            have hpicked : pickAssets dg assets = ⟨x.1, x.2.url, c.url⟩ := by
              cases hp : pickAssets dg assets
              simp_all
            simp [hpicked, hfirst, hlast, hne, hcne, hversionNe]

/-! ### What is indexed -/

theorem normalizeSha_length {value target : String} (h : normalizeSha value = some target) :
    target.toList.length = 40 ∨ target.toList.length = 7 := by
  unfold normalizeSha at h
  dsimp only at h
  split at h
  · next hfull =>
    rw [Bool.and_eq_true, decide_eq_true_iff] at hfull
    exact .inl (Option.some.inj h ▸ hfull.1)
  · split at h
    · next hshort =>
      rw [Bool.and_eq_true, decide_eq_true_iff] at hshort
      exact .inr (Option.some.inj h ▸ hshort.1)
    · cases h

theorem normalizeCommitSha_spec {value full : String} (h : normalizeCommitSha value = some full) :
    full = Py.lower value ∧ full.toList.length = 40 ∧ full.toList.all isHex = true := by
  unfold normalizeCommitSha at h
  dsimp only at h
  split at h
  · next hfull =>
    rw [Bool.and_eq_true, decide_eq_true_iff] at hfull
    obtain rfl := Option.some.inj h
    exact ⟨rfl, hfull⟩
  · cases h

theorem isSpace_of_isHex {c : Char} (h : isHex c = true) : Py.isSpace c = false := by
  unfold isHex at h
  simp only [Bool.or_eq_true, Bool.and_eq_true, decide_eq_true_eq] at h
  exact Py.isSpace_eq_false (by omega) (by omega)

theorem normalizeSha_of_full {value full : String} (h : normalizeCommitSha value = some full) :
    normalizeSha value = some full := by
  obtain ⟨rfl, hlength, hhex⟩ := normalizeCommitSha_spec h
  have hspace : ∀ c ∈ (Py.lower value).toList, Py.isSpace c = false := fun c hc =>
    isSpace_of_isHex (List.all_eq_true.mp hhex c hc)
  have hstrip : Py.strip (Py.lower value) = Py.lower value := by
    unfold Py.strip
    rw [Py.stripChars_eq_self, String.ofList_toList]
    · intro c cs hcs
      exact hspace c (hcs ▸ List.mem_cons_self)
    · intro cs c hcs
      exact hspace c (hcs ▸ List.mem_append_right _ List.mem_cons_self)
  unfold normalizeSha
  simp only [hstrip, hlength, hhex, decide_true, Bool.and_self, if_true]

theorem short_of_length {target : String} (h : target.toList.length = 7) :
    short target = target := by
  unfold short
  rw [List.take_of_length_le h.le, String.ofList_toList]

theorem length_short {full : String} (h : full.toList.length = 40) :
    (short full).toList.length = 7 := by
  unfold short
  rw [String.toList_ofList, List.length_take, h]
  rfl

theorem indexKey_length {target : String} (h : r.indexKey dg = some target) :
    target.toList.length = 40 ∨ target.toList.length = 7 := by
  unfold Release.indexKey at h
  split at h
  · cases h
  · split at h
    · cases h
    · next hsha =>
      split at h
      · cases h
      · obtain rfl := Option.some.inj h
        exact normalizeSha_length hsha

/-- A key of the index is the commit of a release, or its first seven digits. -/
theorem isSome_foldl_indexRow {k : String} (releases : Releases) (out : Table String Release) :
    ((releases.foldl (indexRow dg) out).get? k).isSome = true ↔
      (out.get? k).isSome = true ∨ ∃ r, some r ∈ releases ∧ ∃ target, r.indexKey dg = some target ∧
        (k = target ∨ target.toList.length = 40 ∧ k = short target) := by
  induction releases generalizing out with
  | nil => simp
  | cons row releases ih =>
    have hrow : ((indexRow dg out row).get? k).isSome = true ↔ (out.get? k).isSome = true ∨
        ∃ r, row = some r ∧ ∃ target, r.indexKey dg = some target ∧
          (k = target ∨ target.toList.length = 40 ∧ k = short target) := by
      cases row with
      | none => simp [indexRow]
      | some r =>
        cases hkey : r.indexKey dg with
        | none => simp [indexRow, hkey]
        | some target =>
          unfold indexRow
          simp only [hkey, Option.some.injEq, exists_eq_left']
          by_cases hfull : target.toList.length = 40
          · by_cases hk : k = short target
            · simp [hfull, hk]
            · by_cases hk' : k = target
              · simp [hfull, hk', Table.get?_put]
              · simp [hfull, hk, hk', Table.get?_put]
          · by_cases hk' : k = target
            · simp [hfull, hk']
            · simp [hfull, hk', Table.get?_put]
    rw [List.foldl_cons, ih, hrow]
    simp only [List.mem_cons, or_and_right, exists_or, or_assoc, eq_comm]

/-- A release that the publisher counts for a commit: it is of the commit, or of another one with
the same first seven digits. -/
def Release.Indexed (dg : Digits) (full : String) (r : Release) : Prop :=
  ∃ target, r.indexKey dg = some target ∧ short target = short full

/-- **A commit has a release if a release that counts has its first seven digits.** -/
theorem commitHasRelease_iff {full : String} (hsha : normalizeCommitSha sha = some full) :
    commitHasRelease dg releases sha = true ↔ ∃ r, some r ∈ releases ∧ r.Indexed dg full := by
  obtain ⟨-, hlength, -⟩ := normalizeCommitSha_spec hsha
  unfold commitHasRelease indexReleaseTargets
  simp only [normalizeSha_of_full hsha, hlength, decide_true, Bool.true_and, Bool.or_eq_true,
    isSome_foldl_indexRow, Table.get?_empty, Option.isSome_none, Bool.false_eq_true, false_or]
  constructor
  · rintro (⟨r, hr, target, hkey, h⟩ | ⟨r, hr, target, hkey, h⟩)
    · refine ⟨r, hr, target, hkey, ?_⟩
      rcases h with rfl | ⟨htarget, rfl⟩
      · rfl
      · rw [length_short htarget] at hlength
        omega
    · refine ⟨r, hr, target, hkey, ?_⟩
      rcases h with rfl | ⟨-, h⟩
      · exact short_of_length (length_short hlength)
      · exact h.symm
  · rintro ⟨r, hr, target, hkey, hshort⟩
    refine .inr ⟨r, hr, target, hkey, ?_⟩
    rcases indexKey_length hkey with htarget | htarget
    · exact .inr ⟨htarget, hshort.symm⟩
    · exact .inl (hshort.symm.trans (short_of_length htarget))

end Deploy
