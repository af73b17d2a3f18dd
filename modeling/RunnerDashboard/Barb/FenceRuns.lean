import Mathlib.Data.List.Pairwise
import RunnerDashboard.Barb.Store
import RunnerDashboard.Lib.Path

/-!
# Runs against the epoch fence

Any nodes, in any order, raise the fence and write cards under an authority's epoch.
Every call that is not refused leaves the fence at its epoch; the invariant is that the
fence has an epoch no lower than any call that succeeded, and where the epochs agree a
node that is, up to case, the one the call named.

## Main results

* `FenceStep.ok` — what a call that succeeds does to the fence.
* `split_brain_excluded` — the fence excludes two nodes at one epoch.
-/

namespace Barb

open Sql Lts

inductive FenceCall
  /-- `advance_barb_epoch_fence`. -/
  | advance (epoch : Int) (node reason now : String)
  /-- `apply_run_card_update` with an authority's epoch. -/
  | write (d : Draw) (u : CardUpdate)

namespace FenceCall

def epoch : FenceCall → Int
  | advance epoch _ _ _ => epoch
  | write _ u => u.authorityEpoch

def node : FenceCall → String
  | advance _ node _ _ => node
  | write _ u => u.authorityNode

def UnderFence : FenceCall → Prop
  | advance _ _ _ _ => True
  | write _ u => 1 ≤ u.authorityEpoch

/-- A call: whether it was refused, and the database after it. -/
def exec (env : Env) : FenceCall → Db → Except BarbError Unit × Db
  | advance epoch node reason now, db =>
    let r := advanceBarbEpochFence env epoch node reason now db
    (r.1.map fun _ => (), r.2)
  | write d u, db =>
    let r := applyRunCardUpdate env d u db
    (r.1.map fun _ => (), r.2)

end FenceCall

/-- A call with its outcome. -/
structure FenceEvent where
  call : FenceCall
  reply : Except BarbError Unit

def FenceStep (env : Env) (db : Db) (ev : FenceEvent) (db' : Db) : Prop :=
  ev.call.UnderFence ∧ ev.call.exec env db = (ev.reply, db')

variable {env : Env}

/-! ### One call -/

theorem FenceCall.step (env : Env) (db : Db) (call : FenceCall) (h : call.UnderFence) :
    FenceStep env db ⟨call, (call.exec env db).1⟩ (call.exec env db).2 := ⟨h, rfl⟩

structure FenceMove (env : Env) (call : FenceCall) (fence : Option EpochFence)
    (f' : EpochFence) : Prop where
  epoch_eq : f'.epoch = call.epoch
  le : ∀ f, fence = some f → f.epoch ≤ f'.epoch
  keeps : ∀ f, fence = some f → f.epoch = f'.epoch → f.node ≠ "" → f'.node = f.node
  named : call.node ≠ "" → f'.node ≠ "" ∧ env.lower f'.node = env.lower call.node

private theorem FenceMove.of_advance {db db' : Db} {epoch : Int} {node reason now : String}
    {f' : EpochFence} {call : FenceCall} (hepoch : call.epoch = epoch) (hnode : call.node = node)
    (h : advanceFence env.lower db epoch node reason now = .ok (f', db')) :
    db'.fence = some f' ∧ FenceMove env call db.fence f' := by
  obtain ⟨hdb, he, hle, hnamed⟩ := advanceFence_ok h
  refine ⟨by rw [hdb], he.trans hepoch.symm, ?_, ?_, ?_⟩
  · intro f hf
    rw [he]
    exact (hle f hf).1
  · intro f hf heq hstored
    exact (hle f hf).2 (heq.trans he) hstored
  · rw [hnode]
    exact hnamed

/-- What follows the fence in a transaction leaves it alone. -/
private theorem fence_of_upserted {d : Draw} {u : CardUpdate} {db db' : Db} {reply : Reply}
    (h : Upserted env d u db reply db') : db'.fence = db.fence := by
  cases h with
  | rejected => rfl
  | applied _ hwrite hrec =>
    rw [(recordApplied_ok_iff.mp hrec).2.2.2.2.2, fence_record, hwrite.frame]

private theorem fence_of_write {d : Draw} {u : CardUpdate} {db db' : Db} {reply : Reply}
    (h : applyRunCardUpdate env d u db = (.ok reply, db')) :
    ∃ db₁, raiseFence env d u db = .ok db₁ ∧ db'.fence = db₁.fence := by
  obtain ⟨-, db₂, hup, hcount⟩ := applyRunCardUpdate_ok_iff.mp h
  obtain ⟨db₁, hraise, hups⟩ := upsertRunCard_ok_iff.mp hup
  refine ⟨db₁, hraise, ?_⟩
  rw [← fence_of_upserted hups]
  split at hcount
  · rw [(countApplied_pruned hcount).frame]
  · rw [hcount]

/-- **A call that succeeds** leaves a fence at its epoch, not behind the one before, with a
node that is the named one up to case and does not replace the node of its epoch. -/
theorem FenceStep.ok {db db' : Db} {ev : FenceEvent} (h : FenceStep env db ev db')
    (hok : ev.reply = .ok ()) :
    ∃ f', db'.fence = some f' ∧ FenceMove env ev.call db.fence f' := by
  obtain ⟨call, reply⟩ := ev
  obtain ⟨hunder, hexec⟩ := h
  dsimp only at hok hunder hexec ⊢
  subst hok
  cases call with
  | advance epoch node reason now =>
    simp only [FenceCall.exec, Prod.mk.injEq] at hexec
    cases hr : (advanceBarbEpochFence env epoch node reason now db).1 with
    | error e =>
      rw [hr] at hexec
      cases hexec.1
    | ok f' =>
      have hadv : advanceFence env.lower db epoch node reason now = .ok (f', db') :=
        immediateTxn_ok.mp (Prod.ext hr hexec.2)
      obtain ⟨hf, hmove⟩ := @FenceMove.of_advance env _ _ _ _ _ _ _
        (.advance epoch node reason now) rfl rfl hadv
      exact ⟨f', hf, hmove⟩
  | write d u =>
    simp only [FenceCall.exec, Prod.mk.injEq] at hexec
    cases hr : (applyRunCardUpdate env d u db).1 with
    | error e =>
      rw [hr] at hexec
      cases hexec.1
    | ok reply =>
      obtain ⟨db₁, hraise, hfence⟩ := fence_of_write (Prod.ext hr hexec.2)
      rcases raiseFence_ok hraise with ⟨hlow, -⟩ | ⟨-, f', hadv⟩
      · exact absurd hunder (not_le.mpr hlow)
      · obtain ⟨hf, hmove⟩ := @FenceMove.of_advance env _ _ _ _ _ _ _ (.write d u) rfl rfl hadv
        exact ⟨f', hfence.trans hf, hmove⟩

/-- **A refused call changes nothing.** -/
theorem FenceStep.refused {db db' : Db} {ev : FenceEvent} {e : BarbError}
    (h : FenceStep env db ev db') (herr : ev.reply = .error e) : db' = db := by
  obtain ⟨call, reply⟩ := ev
  obtain ⟨-, hexec⟩ := h
  dsimp only at herr hexec
  subst herr
  cases call with
  | advance epoch node reason now =>
    simp only [FenceCall.exec, Prod.mk.injEq] at hexec
    cases hr : (advanceBarbEpochFence env epoch node reason now db).1 with
    | error e' =>
      rw [← hexec.2]
      exact immediateTxn_error hr
    | ok f =>
      rw [hr] at hexec
      cases hexec.1
  | write d u =>
    simp only [FenceCall.exec, Prod.mk.injEq] at hexec
    cases hr : (applyRunCardUpdate env d u db).1 with
    | error e' =>
      rw [← hexec.2]
      exact applyRunCardUpdate_error hr
    | ok reply =>
      rw [hr] at hexec
      cases hexec.1

theorem FenceStep.epoch_le {db db' : Db} {ev : FenceEvent} (h : FenceStep env db ev db')
    {f : EpochFence} (hf : db.fence = some f) :
    ∃ f', db'.fence = some f' ∧ f.epoch ≤ f'.epoch := by
  cases hr : ev.reply with
  | error e =>
    rw [h.refused hr]
    exact ⟨f, hf, le_rfl⟩
  | ok x =>
    obtain ⟨f', hf', hmove⟩ := h.ok hr
    exact ⟨f', hf', hmove.le f hf⟩

/-! ### Every run -/

/-- The fence is at least at the epoch of a call, and at its epoch has the node it named. -/
def Covers (env : Env) (fence : Option EpochFence) (call : FenceCall) : Prop :=
  ∃ f, fence = some f ∧ call.epoch ≤ f.epoch ∧
    (call.epoch = f.epoch → call.node ≠ "" → f.node ≠ "" ∧ env.lower f.node = env.lower call.node)

/-- What an earlier and a later call that succeeded have to do with each other. -/
def Ordered (env : Env) (ev ev' : FenceEvent) : Prop :=
  ev.reply = .ok () → ev'.reply = .ok () → ev.call.epoch ≤ ev'.call.epoch ∧
    (ev.call.epoch = ev'.call.epoch → ev.call.node ≠ "" → ev'.call.node ≠ "" →
      env.lower ev.call.node = env.lower ev'.call.node)

/-- Two calls that succeeded at one epoch and name a node name one node, up to case. -/
def SameNode (env : Env) (ev ev' : FenceEvent) : Prop :=
  ev.reply = .ok () → ev'.reply = .ok () → ev.call.epoch = ev'.call.epoch →
    ev.call.node ≠ "" → ev'.call.node ≠ "" → env.lower ev.call.node = env.lower ev'.call.node

instance : Std.Symm (SameNode env) :=
  ⟨fun _ _ h hok' hok heq hne' hne => (h hok hok' heq.symm hne hne').symm⟩

/-- The invariant of a history: the fence covers every call that succeeded, and these
succeeded in order. -/
def Fenced (env : Env) (past : List FenceEvent) (db : Db) : Prop :=
  (∀ ev ∈ past, ev.reply = .ok () → Covers env db.fence ev.call) ∧ past.Pairwise (Ordered env)

private theorem Covers.step {db db' : Db} {ev : FenceEvent} {call : FenceCall}
    (h : Covers env db.fence call) (hstep : FenceStep env db ev db') :
    Covers env db'.fence call := by
  cases hr : ev.reply with
  | error e => rwa [hstep.refused hr]
  | ok x =>
    obtain ⟨f, hf, hle, hnode⟩ := h
    obtain ⟨f', hf', hmove⟩ := hstep.ok hr
    have hup := hmove.le f hf
    refine ⟨f', hf', hle.trans hup, fun heq hne => ?_⟩
    -- at the call's epoch the fence has not moved, so it keeps its node
    obtain ⟨hstored, hlower⟩ := hnode (by omega) hne
    rw [hmove.keeps f hf (by omega) hstored]
    exact ⟨hstored, hlower⟩

private theorem Covers.ordered {db db' : Db} {ev ev' : FenceEvent}
    (h : Covers env db.fence ev.call) (hstep : FenceStep env db ev' db') :
    Ordered env ev ev' := by
  intro _ hok'
  obtain ⟨f, hf, hle, hnode⟩ := h
  obtain ⟨f', -, hmove⟩ := hstep.ok hok'
  have hup := hmove.le f hf
  have heq' := hmove.epoch_eq
  refine ⟨by omega, fun heq hne hne' => ?_⟩
  obtain ⟨hstored, hlower⟩ := hnode (by omega) hne
  have hkeep := hmove.keeps f hf (by omega) hstored
  rw [← hlower, ← hkeep]
  exact (hmove.named hne').2

private theorem Fenced.step {past : List FenceEvent} {db db' : Db} {ev : FenceEvent}
    (h : Fenced env past db) (hstep : FenceStep env db ev db') :
    Fenced env (past ++ [ev]) db' := by
  obtain ⟨hcovers, hordered⟩ := h
  constructor
  · intro ev' hmem hok
    rcases List.mem_append.mp hmem with hin | hin
    · exact (hcovers ev' hin hok).step hstep
    · obtain rfl := List.mem_singleton.mp hin
      obtain ⟨f', hf', hmove⟩ := hstep.ok hok
      exact ⟨f', hf', hmove.epoch_eq.ge, fun _ => hmove.named⟩
  · refine List.pairwise_append.mpr ⟨hordered, List.pairwise_singleton _ _, ?_⟩
    intro a ha b hb
    obtain rfl := List.mem_singleton.mp hb
    intro hok
    exact (hcovers a ha hok).ordered hstep hok

/-- **The fence excludes split brain.**  Over every run of calls by any nodes, the stored
epoch never decreases; the calls that succeed at one epoch and name a node name one node,
up to case; after a call that succeeded at an epoch none succeeds below it; and a refused
call changes nothing. -/
theorem split_brain_excluded {db db' : Db} {evs : List FenceEvent}
    (p : Path (FenceStep env) db evs db') :
    (∀ f, db.fence = some f → ∃ f', db'.fence = some f' ∧ f.epoch ≤ f'.epoch) ∧
    (∀ ev ∈ evs, ∀ ev' ∈ evs, ev.reply = .ok () → ev'.reply = .ok () →
      ev.call.epoch = ev'.call.epoch → ev.call.node ≠ "" → ev'.call.node ≠ "" →
      env.lower ev.call.node = env.lower ev'.call.node) ∧
    (∀ before ev after, evs = before ++ ev :: after → ev.reply = .ok () →
      ∀ ev' ∈ after, ev'.call.epoch < ev.call.epoch → ∃ e, ev'.reply = .error e) ∧
    ∀ before ev after t t' e, evs = before ++ ev :: after → Path (FenceStep env) db before t →
      FenceStep env t ev t' → Path (FenceStep env) t' after db' → ev.reply = .error e →
      t' = t := by
  have hinv : Fenced env evs db' :=
    p.history (fun _ _ _ _ h hstep => h.step hstep) ⟨by simp, .nil⟩
  refine ⟨?_, ?_, ?_, ?_⟩
  · clear hinv
    induction p with
    | nil => exact fun f hf => ⟨f, hf, le_rfl⟩
    | cons hstep _ ih =>
      intro f hf
      obtain ⟨f₁, hf₁, hle₁⟩ := hstep.epoch_le hf
      obtain ⟨f₂, hf₂, hle₂⟩ := ih f₁ hf₁
      exact ⟨f₂, hf₂, hle₁.trans hle₂⟩
  · have hsame : evs.Pairwise (SameNode env) := hinv.2.imp fun h hok hok' => (h hok hok').2
    intro ev hev ev' hev'
    exact hsame.forall_of_forall (fun _ _ _ _ _ _ _ => rfl) hev hev'
  · rintro before ev after rfl hok ev' hev' hlt
    have hord := (List.pairwise_cons.mp (List.pairwise_append.mp hinv.2).2.1).1 ev' hev'
    cases hr : ev'.reply with
    | error e => exact ⟨e, rfl⟩
    | ok x =>
      have := (hord hok hr).1
      omega
  · intro before ev after t t' e _ _ hstep _ herr
    exact hstep.refused herr

def demotedWrite : FenceCall :=
  .write ⟨"r", "m", "t", "t", "t", 0, 0⟩
    { threadId := "thread", runId := "run", messageId := "card", status := "running",
      version := some 1, bodyMd := "", metaDict := [], author := "role",
      authorityEpoch := 1, authorityNode := "old" }

/-- After a failover to epoch 2, a write of the demoted authority is refused. -/
theorem split_brain_excluded_failover :
    ∃ e, (demotedWrite.exec (.default id)
      ((FenceCall.advance 2 "new" "failover" "t").exec (.default id) .empty).2).1 = .error e := by
  have hadvance := FenceCall.step (.default id) .empty (.advance 2 "new" "failover" "t") trivial
  have hpath := Path.cons hadvance
    (.single (FenceCall.step (.default id) _ demotedWrite (Int.le_refl 1)))
  exact (split_brain_excluded hpath).2.2.1 [] _ _ rfl rfl _ (List.mem_singleton_self _)
    (by decide)

end Barb
