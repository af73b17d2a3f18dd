import RunnerDashboard.Deploy.Inventory

/-!
# An inventory that changes while it is read

A server answers each page from the inventory of that time.  The reader compares the number of the
runs from page to page, and no run may come twice.  That tells when runs are added or when runs are
removed, but not when it is both between two pages.

## Main results

* `exactOn_of_drifts` — **what is returned is exact for each of them.**
* `fetch_exact` — the same with the gate.
-/

namespace Deploy

/-- The check runs of a commit, in the order in which they are listed. -/
structure Inventory where
  runs : List RawRun
  /-- No two runs have one id. -/
  nodupIds : (runs.map RawRun.id).Nodup

/-- A page of the inventory; the first one is number one. -/
def Inventory.page (inv : Inventory) (n : ℕ) : Payload :=
  ⟨some inv.runs.length, some (((inv.runs.drop (pageSize * (n - 1))).take pageSize).map some)⟩

def served (inv : ℕ → Inventory) (n : ℕ) : Option Payload := some ((inv n).page n)

def Inventory.ids (inv : Inventory) : List (Option ℤ) := inv.runs.map RawRun.id

/-- Between two pages runs are only added or only removed, and a run keeps its app, its suite and
its name; everything else about it may change. -/
structure Drifts (inv : ℕ → Inventory) : Prop where
  oneWay : ∀ n, (inv n).ids ⊆ (inv (n + 1)).ids ∨ (inv (n + 1)).ids ⊆ (inv n).ids
  sameKey : ∀ m n, ∀ r ∈ (inv m).runs, ∀ r' ∈ (inv n).runs, r.id = r'.id → r.key = r'.key

/-- The page is read: the first one, and then as many as there are runs. -/
def WasRead (inv : ℕ → Inventory) (n : ℕ) : Prop :=
  n = 1 ∨ 1 < n ∧ pageSize * (n - 1) < (inv 1).runs.length

/-- The newest attempt of each app, suite and name. -/
structure ExactOn (inv : Inventory) (latest : List RawRun) : Prop where
  nodup : (latest.map RawRun.key).Nodup
  covers : ∀ x ∈ inv.runs, ∃ y ∈ latest, y.key = x.key ∧ x.number ≤ y.number
  member : ∀ y ∈ latest, ∃ x ∈ inv.runs, x.id = y.id ∧ x.key = y.key

variable {inv : ℕ → Inventory} {sha : String} {latest : List RawRun} {total : ℕ}
  {pages : List (List RawRun)}

/-! ### The pages that are read -/

theorem length_flatten_le (h : ReadsFrom (served inv) 1 total pages) :
    pages.flatten.length ≤ pageSize * pages.length := by
  have hpage : ∀ p ∈ pages, p.length ≤ pageSize := by
    intro p hp
    obtain ⟨i, hi, rfl⟩ := List.getElem_of_mem hp
    exact (h.answers i hi).2
  rw [List.length_flatten]
  refine (List.sum_le_card_nsmul _ pageSize ?_).trans ?_
  · simpa using hpage
  · rw [List.length_map, nsmul_eq_mul, Nat.cast_id, Nat.mul_comm]

theorem page_answers (h : ReadsFrom (served inv) 1 total pages) {i : ℕ} (hi : i < pages.length) :
    (inv (1 + i)).runs.length = total ∧ pages[i] ⊆ (inv (1 + i)).runs := by
  have hpage := Option.some.inj (h.answers i hi).1
  obtain ⟨htotal, hruns⟩ := Payload.mk.inj hpage
  refine ⟨by exact_mod_cast Option.some.inj htotal, fun r hr => ?_⟩
  have hmem : some r ∈ (pages[i]).map some := List.mem_map_of_mem hr
  rw [← Option.some.inj hruns] at hmem
  obtain ⟨r', hr', heq⟩ := List.mem_map.mp hmem
  obtain rfl := Option.some.inj heq
  exact List.mem_of_mem_drop (List.mem_of_mem_take hr')

theorem lt_length_of_wasRead (h : ReadsFrom (served inv) 1 total pages)
    (hlength : pages.flatten.length = total) {n : ℕ} (hn : WasRead inv n) :
    1 ≤ n ∧ n - 1 < pages.length := by
  have hpos : 0 < pages.length := List.length_pos_of_ne_nil h.nonempty
  rcases hn with rfl | ⟨hlt, hread⟩
  · exact ⟨Nat.le_refl 1, hpos⟩
  · refine ⟨by omega, ?_⟩
    have htotal := (page_answers h hpos).1
    have hle := length_flatten_le h
    rw [Nat.add_zero] at htotal
    rw [htotal, ← hlength] at hread
    exact Nat.lt_of_mul_lt_mul_left (lt_of_lt_of_le hread hle)

/-- **The inventories of the pages that are read have the same runs.** -/
theorem sameIds_of_drifts (hdrifts : Drifts inv) (h : ReadsFrom (served inv) 1 total pages)
    {i : ℕ} (hi : i < pages.length) : (inv (1 + i)).ids ⊆ (inv 1).ids ∧
      (inv 1).ids ⊆ (inv (1 + i)).ids := by
  induction i with
  | zero => exact ⟨fun _ => id, fun _ => id⟩
  | succ i ih =>
    have hprev : i < pages.length := by omega
    obtain ⟨hsub, hsup⟩ := ih hprev
    have hlen : (inv (1 + i)).ids.length = (inv (1 + i + 1)).ids.length := by
      unfold Inventory.ids
      rw [List.length_map, List.length_map, (page_answers h hprev).1]
      exact (page_answers h hi).1.symm
    have hboth : (inv (1 + i)).ids ⊆ (inv (1 + i + 1)).ids ∧
        (inv (1 + i + 1)).ids ⊆ (inv (1 + i)).ids := by
      rcases hdrifts.oneWay (1 + i) with hadd | hremove
      · have hperm := ((inv (1 + i)).nodupIds.subperm hadd).perm_of_length_le hlen.ge
        exact ⟨hadd, hperm.symm.subset⟩
      · have hperm := ((inv (1 + i + 1)).nodupIds.subperm hremove).perm_of_length_le hlen.le
        exact ⟨hperm.symm.subset, hremove⟩
    exact ⟨fun _ h => hsub (hboth.2 h), fun _ h => hboth.1 (hsup h)⟩

theorem mem_ids_iff (hdrifts : Drifts inv) (h : ReadsFrom (served inv) 1 total pages)
    (hnodup : (pages.flatten.map RawRun.id).Nodup) (hlength : pages.flatten.length = total)
    {n : ℕ} (hn : WasRead inv n) (id : Option ℤ) :
    id ∈ (inv n).ids ↔ id ∈ pages.flatten.map RawRun.id := by
  obtain ⟨hone, hlt⟩ := lt_length_of_wasRead h hlength hn
  have hn' : 1 + (n - 1) = n := by omega
  have hsame := sameIds_of_drifts hdrifts h hlt
  rw [hn'] at hsame
  have hsub : pages.flatten.map RawRun.id ⊆ (inv 1).ids := by
    intro id hid
    obtain ⟨r, hr, rfl⟩ := List.mem_map.mp hid
    obtain ⟨p, hp, hr⟩ := List.mem_flatten.mp hr
    obtain ⟨i, hi, rfl⟩ := List.getElem_of_mem hp
    exact (sameIds_of_drifts hdrifts h hi).1 (List.mem_map_of_mem ((page_answers h hi).2 hr))
  have hlen : (inv 1).ids.length = (pages.flatten.map RawRun.id).length := by
    unfold Inventory.ids
    rw [List.length_map, List.length_map, hlength]
    exact (page_answers h (List.length_pos_of_ne_nil h.nonempty)).1
  have hperm := (hnodup.subperm hsub).perm_of_length_le hlen.le
  exact ⟨fun hid => hperm.symm.subset (hsame.1 hid), fun hid => hsame.2 (hsub hid)⟩

/-! ### What is returned -/

/-- **What is returned is exact for each of the inventories that were read.** -/
theorem exactOn_of_drifts (hdrifts : Drifts inv)
    (h : fetchCommitChecks (served inv) sha = .ok latest) {n : ℕ} (hn : WasRead inv n) :
    ExactOn (inv n) latest := by
  obtain ⟨total, pages, hreads, hnodup, hlength, hnorm⟩ := fetchCommitChecks_ok h
  obtain ⟨full, -, -, hlatest⟩ := normalizeLatestCheckRuns_ok hnorm
  have hids := mem_ids_iff hdrifts hreads hnodup hlength hn
  -- a run with one id is the same run of the server, whenever it was read
  have hkey : ∀ r ∈ pages.flatten, ∀ x ∈ (inv n).runs, x.id = r.id → x.key = r.key := by
    intro r hr x hx hid
    obtain ⟨p, hp, hr⟩ := List.mem_flatten.mp hr
    obtain ⟨i, hi, rfl⟩ := List.getElem_of_mem hp
    exact hdrifts.sameKey n (1 + i) x hx r ((page_answers hreads hi).2 hr) hid
  refine ⟨hlatest.nodup, fun x hx => ?_, fun y hy => ?_⟩
  · obtain ⟨r, hr, hid⟩ := List.mem_map.mp ((hids x.id).mp (List.mem_map_of_mem hx))
    obtain ⟨y, hy, hykey⟩ := hlatest.covers r hr
    have hxr := hkey r hr x hx hid.symm
    refine ⟨y, hy, hykey.trans hxr.symm, ?_⟩
    have hnumber : x.number = r.number := by rw [RawRun.number, RawRun.number, hid]
    rw [hnumber]
    exact (hlatest.newest y hy).2 r hr hykey.symm
  · have hmem := (hlatest.newest y hy).1
    obtain ⟨x, hx, hid⟩ := List.mem_map.mp ((hids y.id).mpr (List.mem_map_of_mem hmem))
    exact ⟨x, hx, hid, hkey y hmem x hx hid⟩

/-- **The reader is exact, and so is the gate on what it returns.** -/
theorem fetch_exact (h : fetchCommitChecks (served inv) sha = .ok latest) :
    (Drifts inv → ∀ n, WasRead inv n → ExactOn (inv n) latest) ∧
      (∀ y ∈ latest, ∃ n, y ∈ (inv n).runs) ∧
      ((ciGateForDeployCommit (latest.map RawRun.toCheckRun) sha).1 = true ↔
        Green (latest.map RawRun.toCheckRun)) := by
  obtain ⟨total, pages, hreads, -, -, hnorm⟩ := fetchCommitChecks_ok h
  obtain ⟨full, hsha, haccepted, hlatest⟩ := normalizeLatestCheckRuns_ok hnorm
  refine ⟨fun hdrifts n hn => exactOn_of_drifts hdrifts h hn, fun y hy => ?_, ?_⟩
  · obtain ⟨p, hp, hy⟩ := List.mem_flatten.mp (hlatest.newest y hy).1
    obtain ⟨i, hi, rfl⟩ := List.getElem_of_mem hp
    exact ⟨1 + i, (page_answers hreads hi).2 hy⟩
  · refine ciGateForDeployCommit_iff hsha fun c hc => ?_
    obtain ⟨r, hr, rfl⟩ := List.mem_map.mp hc
    exact (haccepted r (hlatest.newest r hr).1).isOf

def aSha : String := "aaaaaaaaaaaaaaaaaaaaaaaaaaaaaaaaaaaaaaaa"

/-- An attempt of the one check of that commit. -/
def ciRun (conclusion : String) (id : ℕ) : RawRun :=
  ⟨some id, some "ci", some "completed", some aSha, .text conclusion, some 1, some 1, .zoned⟩

def ciRuns (conclusion : String) (ids : List ℕ) (h : ids.Nodup) : Inventory :=
  ⟨ids.map (ciRun conclusion), by
    rw [List.map_map]
    exact h.map fun m n hmn => by simpa [ciRun] using hmn⟩

/-- A failure and its repetitions, that does not change. -/
theorem fetch_exact_rerun :
    let inv := ciRuns "failure" [3, 2, 1] (by decide)
    ExactOn inv [ciRun "failure" 3] ∧
      (ciGateForDeployCommit [(ciRun "failure" 3).toCheckRun] aSha).1 = false := by
  intro inv
  have hfetch : fetchCommitChecks (served fun _ => inv) aSha = .ok [ciRun "failure" 3] := by
    decide +kernel
  obtain ⟨hexact, -, hgate⟩ := fetch_exact hfetch
  have hkey : ∀ r ∈ inv.runs, r.key = (some 1, some 1, some "ci") := by decide +kernel
  refine ⟨hexact ⟨fun _ => .inl fun _ => id, fun _ _ r hr r' hr' _ => ?_⟩ 1 (.inl rfl), ?_⟩
  · rw [hkey r hr, hkey r' hr']
  · refine Bool.eq_false_iff.mpr fun hpass => ?_
    have hpassing := (hgate.mp hpass).passing (ciRun "failure" 3).toCheckRun
      (List.mem_singleton_self _) (by decide +kernel)
    exact absurd (hpassing (by decide +kernel)) (by decide +kernel)

def downFrom (n : ℕ) : List ℕ := (List.range n).reverse.map (· + 1)

/-- A run that is started while another one is removed, between the two pages. -/
theorem not_fetch_exact :
    let before := ciRuns "success" (downFrom 101) (by decide +kernel)
    let after := ciRuns "success" ((downFrom 102).erase 2) (by decide +kernel)
    let inv := fun n => if n = 1 then before else after
    ∃ latest, fetchCommitChecks (served inv) aSha = .ok latest ∧ WasRead inv 2 ∧
      ¬ ExactOn (inv 2) latest := by
  intro before after inv
  refine ⟨[ciRun "success" 101], by decide +kernel, .inr ⟨by decide, by decide +kernel⟩,
    fun h => ?_⟩
  obtain ⟨y, hy, -, hle⟩ := h.covers (ciRun "success" 102) (by decide +kernel)
  obtain rfl := List.mem_singleton.mp hy
  exact absurd hle (by decide +kernel)

end Deploy
