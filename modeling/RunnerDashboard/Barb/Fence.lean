import RunnerDashboard.Barb.Versions

/-!
# The epoch fence

`staff/barb_fence.py`: the persisted high-water mark of the authority's epoch.  An
epoch below the mark is refused, and so is another node at its epoch; an empty node,
stored or requested, matches any.

## Main results

* `advanceFence_ok` — what a call that is not refused leaves behind.
-/

namespace Barb

open Sql

section Fence

/- `lower` is `str.lower`. -/
variable (lower : String → String)

def checkFence (fence : Option EpochFence) (epoch : Int) (node : String) :
    Except BarbError Unit :=
  if epoch < 1 then
    .error (.value ("an authority epoch must be >= 1, got " ++ Json.intText epoch))
  else
    match fence with
    | none => .ok ()
    | some f =>
      if f.epoch < epoch then .ok ()
      else if epoch < f.epoch then
        .error (.fenced ("epoch " ++ Json.intText epoch ++ " is below the fence " ++
          Json.intText f.epoch ++ " held by " ++ (if f.node = "" then "?" else f.node)))
      else if node ≠ "" ∧ f.node ≠ "" ∧ lower node ≠ lower f.node then
        .error (.fenced ("node change from " ++ f.node ++ " to " ++ node ++ " at epoch " ++
          Json.intText epoch ++ " needs an epoch bump (> " ++ Json.intText f.epoch ++ ")"))
      else .ok ()

/-- The fence `advance_fence` writes over the current one. -/
def nextFence (current : Option EpochFence) (epoch : Int) (node reason now : String) :
    EpochFence where
  epoch := epoch
  node := if node ≠ "" then node else (current.map EpochFence.node).getD ""
  reason :=
    if reason ≠ "" then reason
    else ((current.filter fun f => f.epoch = epoch).map EpochFence.reason).getD ""
  updatedAt := now

/-- `advance_fence`: it writes only a higher epoch, or a node for an epoch without one. -/
def advanceFence (db : Db) (epoch : Int) (node reason now : String) :
    Except BarbError (EpochFence × Db) :=
  match checkFence lower db.fence epoch node with
  | .error e => .error e
  | .ok () =>
    match db.fence.filter fun f => epoch = f.epoch ∧ (f.node ≠ "" ∨ node = "") with
    | some current => .ok (current, db)
    | none =>
      if ¬ fitsInteger epoch then .error .overflow
      else
        let updated := nextFence db.fence epoch node reason now
        .ok (updated, { db with fence := some updated })

variable {lower}

theorem checkFence_ok_iff {fence : Option EpochFence} {epoch : Int} {node : String} :
    checkFence lower fence epoch node = .ok () ↔
      1 ≤ epoch ∧ ∀ f, fence = some f → f.epoch ≤ epoch ∧
        (f.epoch = epoch → node ≠ "" → f.node ≠ "" → lower node = lower f.node) := by
  unfold checkFence
  by_cases hlow : epoch < 1
  · rw [if_pos hlow]
    exact ⟨fun h => absurd h (by simp), fun h => absurd h.1 (by omega)⟩
  rw [if_neg hlow]
  cases fence with
  | none => simpa using hlow
  | some f =>
    dsimp only
    by_cases hhigh : f.epoch < epoch
    · rw [if_pos hhigh]
      simp only [Option.some.injEq, true_iff]
      refine ⟨by omega, ?_⟩
      rintro _ rfl
      exact ⟨by omega, fun h => by omega⟩
    rw [if_neg hhigh]
    by_cases hbelow : epoch < f.epoch
    · rw [if_pos hbelow]
      refine ⟨fun h => absurd h (by simp), fun h => ?_⟩
      have := (h.2 f rfl).1
      omega
    rw [if_neg hbelow]
    by_cases hnode : node ≠ "" ∧ f.node ≠ "" ∧ lower node ≠ lower f.node
    · rw [if_pos hnode]
      refine ⟨fun h => absurd h (by simp), fun h => ?_⟩
      exact absurd ((h.2 f rfl).2 (by omega) hnode.1 hnode.2.1) hnode.2.2
    · rw [if_neg hnode]
      simp only [Option.some.injEq, true_iff]
      refine ⟨by omega, ?_⟩
      rintro _ rfl
      refine ⟨by omega, fun _ h₁ h₂ => ?_⟩
      by_contra hne
      exact hnode ⟨h₁, h₂, hne⟩

/-- **A call that is not refused** leaves a fence at its epoch, which was not behind the old
one; a node it names is the fence's up to case, and the node of an epoch is not replaced. -/
theorem advanceFence_ok {db db' : Db} {epoch : Int} {node reason now : String} {f' : EpochFence}
    (h : advanceFence lower db epoch node reason now = .ok (f', db')) :
    db' = { db with fence := some f' } ∧ f'.epoch = epoch ∧
      (∀ f, db.fence = some f → f.epoch ≤ epoch ∧
        (f.epoch = epoch → f.node ≠ "" → f'.node = f.node)) ∧
      (node ≠ "" → f'.node ≠ "" ∧ lower f'.node = lower node) := by
  unfold advanceFence at h
  split at h
  · exact absurd h (by simp)
  next hcheck =>
  obtain ⟨-, hfence⟩ := checkFence_ok_iff.mp hcheck
  split at h
  · next current hcur =>
    obtain ⟨hcur, hsame⟩ := Option.filter_eq_some_iff.mp hcur
    simp only [Except.ok.injEq, Prod.mk.injEq] at h
    obtain ⟨rfl, rfl⟩ := h
    simp only [decide_eq_true_eq] at hsame
    refine ⟨by rw [← hcur], hsame.1.symm, ?_, ?_⟩
    · intro f hf
      obtain rfl := Option.some.inj (hcur.symm.trans hf)
      exact ⟨hsame.1.ge, fun _ _ => rfl⟩
    · intro hnode
      have hstored : current.node ≠ "" := hsame.2.resolve_right hnode
      exact ⟨hstored, ((hfence _ hcur).2 hsame.1.symm hnode hstored).symm⟩
  · next hcur =>
    split at h
    · exact absurd h (by simp)
    simp only [Except.ok.injEq, Prod.mk.injEq] at h
    obtain ⟨rfl, rfl⟩ := h
    refine ⟨rfl, rfl, ?_, ?_⟩
    · intro f hf
      refine ⟨(hfence f hf).1, fun heq hstored => ?_⟩
      -- a fence of this epoch with a node would not have been written
      rw [hf] at hcur
      simp [Option.filter, heq, hstored] at hcur
    · intro hnode
      simp [nextFence, hnode]

end Fence

end Barb
