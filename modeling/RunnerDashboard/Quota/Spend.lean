import Mathlib.Algebra.BigOperators.Group.List.Basic
import Mathlib.Algebra.Order.Field.Rat
import Mathlib.Logic.Function.Basic
import Mathlib.Tactic.NormNum
import RunnerDashboard.Lib.Path

/-!
# The daily spend quota

The spend of a principal on a day is kept in a file that all worker processes share.  An addition
reads and writes the file under its lock, and then the process that made it keeps what it wrote.  A
check looks at what its process keeps and never at the file.

## Main results

* `enforced_iff` — **the file is the sum of all additions, and a process refuses whatever the
  finished ones make too much exactly if it is up to date**.
-/

namespace Quota

/-! ### Records -/

/-- `spend_records`: the amounts of a principal by day. -/
abbrev Records := String → Option (String → Option ℚ)

def Records.of (r : Records) (principalId : String) : String → Option ℚ :=
  (r principalId).getD fun _ => none

/-- `get_today_spend`. -/
def todaySpend (r : Records) (principalId today : String) : ℚ :=
  (r.of principalId today).getD 0

/-- The change of `add_spend` to the records of the file. -/
def addRecord (r : Records) (principalId : String) (amountUsd : ℚ) (today : String) : Records :=
  Function.update r principalId
    (some (Function.update (r.of principalId) today
      (some (todaySpend r principalId today + amountUsd))))

/-- `Quota`. -/
structure Quotas where
  maxRunners : ℕ := 2
  agentSpendUsdDay : ℚ := 10

/-- What `check_dispatch_quota` reads of a `Principal`. -/
structure Principal where
  id : String
  quotas : Quotas := {}

/-- The reasons of a refusal, with the numbers that their texts show. -/
inductive Refusal
  /-- "Daily spend quota reached" -/
  | dailySpend (spent quota : ℚ)
  /-- "Runner quota reached" -/
  | runners (active quota : ℕ)
  deriving DecidableEq

/-- `check_dispatch_quota` against the records that the process keeps and its active leases. -/
def checkDispatchQuota (spendRecords : Records) (activeLeases : ℕ) (principal : Principal)
    (estimatedCost : ℚ) (today : String) : Bool × Option Refusal :=
  let spent := todaySpend spendRecords principal.id today
  if principal.quotas.agentSpendUsdDay < spent + estimatedCost then
    (false, some (.dailySpend spent principal.quotas.agentSpendUsdDay))
  else if principal.quotas.maxRunners ≤ activeLeases then
    (false, some (.runners activeLeases principal.quotas.maxRunners))
  else (true, none)

@[simp] theorem todaySpend_empty (principalId today : String) :
    todaySpend (fun _ => none) principalId today = 0 := rfl

/-- **An addition counts for its principal and day only.** -/
theorem todaySpend_addRecord (r : Records) (principalId : String) (amountUsd : ℚ) (today : String)
    (principalId' today' : String) :
    todaySpend (addRecord r principalId amountUsd today) principalId' today' =
      todaySpend r principalId' today' +
        if principalId = principalId' ∧ today = today' then amountUsd else 0 := by
  by_cases hid : principalId' = principalId
  · subst hid
    by_cases hday : today' = today
    · subst hday
      simp [todaySpend, addRecord, Records.of]
    · have hday' : ¬ today = today' := fun h => hday h.symm
      simp [todaySpend, addRecord, Records.of, hday, hday']
  · have hid' : ¬ principalId = principalId' := fun h => hid h.symm
    simp [todaySpend, addRecord, Records.of, hid, hid']

/-- A check refuses for the spend, or for the runners, or passes. -/
theorem checkDispatchQuota_eq_false_iff (r : Records) (activeLeases : ℕ) (principal : Principal)
    (estimatedCost : ℚ) (today : String) :
    (checkDispatchQuota r activeLeases principal estimatedCost today).1 = false ↔
      principal.quotas.agentSpendUsdDay < todaySpend r principal.id today + estimatedCost ∨
        principal.quotas.maxRunners ≤ activeLeases := by
  unfold checkDispatchQuota
  dsimp only
  split
  · next hspend => exact iff_of_true rfl (.inl hspend)
  · next hspend =>
    split
    · next hrunners => exact iff_of_true rfl (.inr hrunners)
    · next hrunners => exact iff_of_false (by simp) (by simp [hspend, hrunners])

/-! ### Processes -/

structure Addition where
  principalId : String
  amountUsd : ℚ
  today : String

/-- The records that a process keeps, and how many additions are in them. -/
structure Image where
  spendRecords : Records
  seen : ℕ

/-- A call of `add_spend` that has written the file and not yet kept what it wrote. -/
structure Pending where
  process : ℕ
  addition : Addition
  image : Image

/-- The processes on one file, by their numbers, and the calls under way.  The program keeps no list
of the additions: `written` has all in the order of the file, and `finished` those whose calls have
returned. -/
structure System where
  spendFile : Option Records
  memory : ℕ → Option Image
  pending : ℕ → Option Pending
  written : List Addition
  finished : List Addition

def System.records (s : System) : Records := s.spendFile.getD fun _ => none

inductive Act
  | start (process : ℕ)
  | write (call process : ℕ) (addition : Addition)
  | finish (call : ℕ)

/-- The steps of the processes, in any order. -/
inductive Step : System → Act → System → Prop
  /-- `QuotaEnforcement()`. -/
  | start (s : System) (i : ℕ) (h : s.memory i = none) :
      Step s (.start i)
        { s with memory := Function.update s.memory i (some ⟨s.records, s.written.length⟩) }
  /-- The block of `add_spend` under the lock of the file. -/
  | write (s : System) (c i : ℕ) (a : Addition) {image : Image} (h : s.memory i = some image)
      (hc : s.pending c = none) :
      Step s (.write c i a)
        { s with
          spendFile := some (addRecord s.records a.principalId a.amountUsd a.today)
          written := s.written ++ [a]
          pending := Function.update s.pending c (some
            ⟨i, a, ⟨addRecord s.records a.principalId a.amountUsd a.today, s.written.length + 1⟩⟩) }
  /-- The assignment to `self.spend_records`, and the return. -/
  | finish (s : System) (c : ℕ) {p : Pending} (h : s.pending c = some p) :
      Step s (.finish c)
        { s with
          memory := Function.update s.memory p.process (some p.image)
          pending := Function.update s.pending c none
          finished := s.finished ++ [p.addition] }

def initial : System := ⟨none, fun _ => none, fun _ => none, [], []⟩

/-! ### Sums -/

def total (l : List Addition) (principalId today : String) : ℚ :=
  (l.map fun a => if a.principalId = principalId ∧ a.today = today then a.amountUsd else 0).sum

@[simp] theorem total_nil (principalId today : String) : total [] principalId today = 0 := rfl

@[simp] theorem total_concat (l : List Addition) (a : Addition) (principalId today : String) :
    total (l ++ [a]) principalId today = total l principalId today +
      if a.principalId = principalId ∧ a.today = today then a.amountUsd else 0 := by
  simp [total]

/-- The records are the sums of the first `n` additions. -/
def Sums (r : Records) (l : List Addition) (n : ℕ) : Prop :=
  n ≤ l.length ∧ ∀ principalId today,
    todaySpend r principalId today = total (l.take n) principalId today

theorem Sums.concat {r : Records} {l : List Addition} {n : ℕ} (h : Sums r l n) (a : Addition) :
    Sums r (l ++ [a]) n := by
  obtain ⟨hn, hsum⟩ := h
  refine ⟨by simp; omega, fun principalId today => ?_⟩
  rw [hsum, List.take_append_of_le_length hn]

theorem Sums.addRecord {r : Records} {l : List Addition} (h : Sums r l l.length) (a : Addition) :
    Sums (addRecord r a.principalId a.amountUsd a.today) (l ++ [a]) (l.length + 1) := by
  refine ⟨by simp, fun principalId today => ?_⟩
  have hall : (l ++ [a]).take (l.length + 1) = l ++ [a] := List.take_of_length_le (by simp)
  rw [todaySpend_addRecord, h.2, List.take_length, hall, total_concat]

/-- What the file, the processes and the calls under way keep are sums of additions. -/
structure Inv (s : System) : Prop where
  file : Sums s.records s.written s.written.length
  memory : ∀ i image, s.memory i = some image → Sums image.spendRecords s.written image.seen
  pending : ∀ c p, s.pending c = some p → Sums p.image.spendRecords s.written p.image.seen

variable {s s' : System} {act : Act} {acts : List Act}

theorem inv_initial : Inv initial :=
  ⟨⟨le_rfl, fun _ _ => rfl⟩, fun _ _ h => absurd h (by simp [initial]),
    fun _ _ h => absurd h (by simp [initial])⟩

theorem Inv.step (h : Inv s) (hstep : Step s act s') : Inv s' := by
  cases hstep with
  | start i hi =>
    refine ⟨h.file, fun j image hj => ?_, h.pending⟩
    by_cases hji : j = i
    · subst hji
      simp only [Function.update_self, Option.some.injEq] at hj
      subst hj
      exact h.file
    · simp only [Function.update_of_ne hji] at hj
      exact h.memory j image hj
  | write c i a hi hc =>
    refine ⟨?_, fun j image hj => (h.memory j image hj).concat a, fun d p hd => ?_⟩
    · have hfile := h.file.addRecord a
      rw [← List.length_singleton (a := a), ← List.length_append] at hfile
      exact hfile
    · by_cases hdc : d = c
      · subst hdc
        simp only [Function.update_self, Option.some.injEq] at hd
        subst hd
        exact h.file.addRecord a
      · simp only [Function.update_of_ne hdc] at hd
        exact (h.pending d p hd).concat a
  | @finish c p hc =>
    refine ⟨h.file, fun j image hj => ?_, fun d q hd => ?_⟩
    · by_cases hjp : j = p.process
      · subst hjp
        simp only [Function.update_self, Option.some.injEq] at hj
        subst hj
        exact h.pending c p hc
      · simp only [Function.update_of_ne hjp] at hj
        exact h.memory j image hj
    · by_cases hdc : d = c
      · simp [hdc] at hd
      · simp only [Function.update_of_ne hdc] at hd
        exact h.pending d q hd

theorem inv_path (p : Lts.Path Step initial acts s) : Inv s :=
  p.invariant (fun _ _ _ h hstep => h.step hstep) inv_initial

/-! ### The quota -/

/-- What a process keeps for a principal and a day is no less than the finished additions. -/
def UpToDate (s : System) (image : Image) (principalId today : String) : Prop :=
  total s.finished principalId today ≤ total (s.written.take image.seen) principalId today

/-- **The file is the sum of all additions, and a process refuses whatever the finished ones make
too much exactly if it is up to date.** -/
theorem enforced_iff (p : Lts.Path Step initial acts s) {i : ℕ} {image : Image}
    (hi : s.memory i = some image) (principalId today : String) :
    todaySpend s.records principalId today = total s.written principalId today ∧
      ((∀ (quotas : Quotas) (activeLeases : ℕ) (estimatedCost : ℚ),
          quotas.agentSpendUsdDay < total s.finished principalId today + estimatedCost →
          (checkDispatchQuota image.spendRecords activeLeases ⟨principalId, quotas⟩ estimatedCost
            today).1 = false) ↔
        UpToDate s image principalId today) := by
  have hinv := inv_path p
  have hkept := (hinv.memory i image hi).2 principalId today
  refine ⟨?_, ?_⟩
  · rw [hinv.file.2, List.take_length]
  constructor
  · intro hrefused
    by_contra hlate
    -- a quota that what the process keeps just meets
    have hless := lt_of_not_ge hlate
    have hpass := hrefused ⟨1, total (s.written.take image.seen) principalId today⟩ 0 0
      (by rw [add_zero]; exact hless)
    rw [checkDispatchQuota_eq_false_iff, hkept, add_zero] at hpass
    rcases hpass with hspend | hrunners
    · exact lt_irrefl _ hspend
    · exact absurd hrunners (Nat.not_succ_le_zero 0)
  · intro hdate quotas activeLeases estimatedCost hmuch
    rw [checkDispatchQuota_eq_false_iff]
    left
    rw [hkept]
    exact hmuch.trans_le (add_le_add_left hdate _)

/-! ### Two workers -/

def sixDollars : Addition := ⟨"ann", 6, "2026-01-01"⟩

/-- Two workers, and an addition by the second. -/
def workers : System where
  spendFile := some (addRecord (fun _ => none) "ann" 6 "2026-01-01")
  memory := Function.update (Function.update (Function.update (fun _ => none) 0
    (some ⟨fun _ => none, 0⟩)) 1 (some ⟨fun _ => none, 0⟩)) 1
    (some ⟨addRecord (fun _ => none) "ann" 6 "2026-01-01", 1⟩)
  pending := Function.update (Function.update (fun _ => none) 0
    (some ⟨1, sixDollars, ⟨addRecord (fun _ => none) "ann" 6 "2026-01-01", 1⟩⟩)) 0 none
  written := [sixDollars]
  finished := [sixDollars]

theorem path_workers :
    Lts.Path Step initial [.start 0, .start 1, .write 0 1 sixDollars, .finish 0] workers := by
  apply Lts.Path.cons (.start _ 0 rfl)
  apply Lts.Path.cons (.start _ 1 rfl)
  apply Lts.Path.cons (.write _ 0 1 sixDollars rfl rfl)
  exact .single (.finish _ 0
    (p := ⟨1, sixDollars, ⟨addRecord (fun _ => none) "ann" 6 "2026-01-01", 1⟩⟩) rfl)

/-- The worker that made the addition refuses. -/
theorem enforced_workers :
    todaySpend workers.records "ann" "2026-01-01" = 6 ∧
      (checkDispatchQuota (addRecord (fun _ => none) "ann" 6 "2026-01-01") 0 ⟨"ann", ⟨2, 5⟩⟩ 0
        "2026-01-01").1 = false := by
  have htotal : total [sixDollars] "ann" "2026-01-01" = 6 := by simp [total, sixDollars]
  have himage : workers.memory 1 = some ⟨addRecord (fun _ => none) "ann" 6 "2026-01-01", 1⟩ := rfl
  obtain ⟨hfile, hiff⟩ := enforced_iff path_workers himage "ann" "2026-01-01"
  refine ⟨hfile.trans htotal, hiff.mpr (le_refl (total [sixDollars] _ _)) ⟨2, 5⟩ 0 0 ?_⟩
  show (5 : ℚ) < total [sixDollars] "ann" "2026-01-01" + 0
  rw [htotal]
  norm_num

/-- The other worker does not. -/
theorem not_enforced_other :
    Lts.Path Step initial [.start 0, .start 1, .write 0 1 sixDollars, .finish 0] workers ∧
      (5 : ℚ) < total workers.finished "ann" "2026-01-01" + 0 ∧
      ∃ image, workers.memory 0 = some image ∧
        checkDispatchQuota image.spendRecords 0 ⟨"ann", ⟨2, 5⟩⟩ 0 "2026-01-01" = (true, none) := by
  refine ⟨path_workers, ?_, _, rfl, ?_⟩
  · have htotal : total workers.finished "ann" "2026-01-01" = 6 := by
      simp [total, workers, sixDollars]
    rw [htotal]
    norm_num
  · unfold checkDispatchQuota
    rw [todaySpend_empty]
    norm_num

end Quota
