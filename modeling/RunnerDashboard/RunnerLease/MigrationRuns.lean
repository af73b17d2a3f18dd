import RunnerDashboard.Lib.Path
import RunnerDashboard.RunnerLease.Migration

/-!
# No runner leased twice across a migration

A cutover takes the token of the last drain, whatever happened to the file since; a rollback
makes the file the authority again as it stands.  So a lease that one store granted may be
missing in the other when that becomes the authority.  The same happens within one store if
what was read is no longer true when it is written back.

## Main results

* `single_of_handsOver` — **no runner is leased twice** if every operation hands over.
* `single_of_drained` — so it is with a cutover right after its drain.
* `leased_twice` — a lease granted between the drain and the cutover is lost.
-/

namespace RunnerLease

namespace Migration

open Sql Lts

def Covered (records : List LeaseRecord) (l : LeaseRecord) : Prop :=
  ∃ r ∈ records, r.runnerId = l.runnerId ∧ r.principalId = l.principalId ∧
    ∀ now, l.unexpired now = true → r.unexpired now = true

/-- The unexpired records of `old` are covered. -/
def Covers (now : Int) (records old : List LeaseRecord) : Prop :=
  ∀ l ∈ old, l.unexpired now = true → Covered records l

/-- What an operation must find: whoever writes to the authority has read what is in it, and
the store that becomes the authority has what the other has. -/
def HandsOver (s : World) (ev : Event) : Prop :=
  match ev.op with
  | .writeGrant caller _ | .writeRelease caller _ _ =>
    ∀ records, s.pending caller = some (.client s.authority records) →
      Covers ev.now records (s.stores.records s.authority)
  | .drainWrite caller =>
    s.authority = .secondary → ∀ records, s.pending caller = some (.drain records) →
      Covers ev.now records (s.stores.records .secondary)
  | .cutover token =>
    s.authority = .primary → s.lastDrainToken = some token →
      Covers ev.now (s.stores.records .secondary) (s.stores.records .primary)
  | .rollback =>
    s.authority = .secondary →
      Covers ev.now (s.stores.records .primary) (s.stores.records .secondary)
  | _ => True

/-- **No runner is leased twice**: the leases of a runner that the authority granted, and that
neither expired nor were released, are of one principal. -/
def Single (s : World) : Prop :=
  ∀ l ∈ s.held, ∀ l' ∈ s.held, l.runnerId = l'.runnerId → l.principalId = l'.principalId

/-- One operation. -/
def Step (s : World) (ev : Event) (t : World) : Prop := t = s.perform ev

def HandingStep (s : World) (ev : Event) (t : World) : Prop := HandsOver s ev ∧ t = s.perform ev

def Pending.records : Pending → List LeaseRecord
  | .client _ records => records
  | .drain records => records

/-- The authority has every lease that is held. -/
structure Inv (s : World) : Prop where
  distinct : Distinct s.stores.file
  pending : ∀ caller p, s.pending caller = some p → Distinct p.records
  covered : ∀ l ∈ s.held, Covered (s.stores.records s.authority) l

section Cover

variable {now : Int} {records before after held : List LeaseRecord} {r l : LeaseRecord}
  {drops : LeaseRecord → Bool}

theorem Covered.of_mem (h : l ∈ records) : Covered records l := ⟨l, h, rfl, rfl, fun _ h => h⟩

/-- A lease that is covered stays so where everything unexpired is. -/
theorem Covered.trans (h : Covered before l) (hlive : l.unexpired now = true)
    (hcovers : Covers now records before) : Covered records l := by
  obtain ⟨x, hx, hrunner, hprincipal, hlong⟩ := h
  obtain ⟨y, hy, hrunner', hprincipal', hlong'⟩ := hcovers x hx (hlong now hlive)
  exact ⟨y, hy, hrunner'.trans hrunner, hprincipal'.trans hprincipal,
    fun now' h => hlong' now' (hlong now' h)⟩

theorem Grants.covered (h : Grants r now before after)
    (hheld : ∀ l ∈ held, l.unexpired now = true ∧ Covered before l) :
    ∀ l ∈ hold r held, Covered after l := by
  intro l hl
  rcases List.mem_append.mp hl with hl | hl
  · obtain ⟨hl, hother⟩ := List.mem_filter.mp hl
    obtain ⟨hlive, x, hx, hrunner, hprincipal, hlong⟩ := hheld l hl
    have hxlive := hlong now hlive
    -- another principal's lease of the runner would have refused the grant
    have hne : x.runnerId ≠ r.runnerId := by
      intro heq
      have hp := h.free x hx hxlive heq
      rw [hprincipal] at hp
      rw [hrunner] at heq
      simp [heq, hp] at hother
    exact ⟨x, h.keeps x hx hxlive hne, hrunner, hprincipal, hlong⟩
  · rw [List.mem_singleton.mp hl]
    exact .of_mem h.mem

theorem Drops.covered (h : Drops drops now before after)
    (hsame : ∀ x l : LeaseRecord, x.runnerId = l.runnerId → x.principalId = l.principalId →
      drops x = drops l)
    (hheld : ∀ l ∈ held, l.unexpired now = true ∧ Covered before l) :
    ∀ l ∈ held.filter (fun l => !drops l), Covered after l := by
  intro l hl
  obtain ⟨hl, hkept⟩ := List.mem_filter.mp hl
  obtain ⟨hlive, x, hx, hrunner, hprincipal, hlong⟩ := hheld l hl
  have hx' : drops x = false := by
    rw [hsame x l hrunner hprincipal]
    simpa using hkept
  exact ⟨x, h x hx (hlong now hlive) hx', hrunner, hprincipal, hlong⟩

end Cover

theorem releases_same {runnerId : String} {p : Option String} {x l : LeaseRecord}
    (hrunner : x.runnerId = l.runnerId) (hprincipal : x.principalId = l.principalId) :
    releases runnerId p x = releases runnerId p l := by
  unfold releases
  rw [hrunner, hprincipal]

theorem release_same (b : Backends) (side : Side) (runnerId : String) (p : Option String)
    (token : Option ℕ) (now : Int) {x l : LeaseRecord} (hrunner : x.runnerId = l.runnerId)
    (hprincipal : x.principalId = l.principalId) :
    (b.release side runnerId p token now).1 x = (b.release side runnerId p token now).1 l := by
  cases side with
  | primary => exact releases_same hrunner hprincipal
  | secondary =>
    unfold Backends.release
    simp only
    split
    · simp only [hrunner, hprincipal]
    · rfl

section Runs

variable {s t : World} {ev : Event} {evs : List Event} {now : Int}

theorem Inv.single (h : Inv s) : Single s := by
  intro l hl l' hl' heq
  obtain ⟨x, hx, hrunner, hprincipal, -⟩ := h.covered l hl
  obtain ⟨x', hx', hrunner', hprincipal', -⟩ := h.covered l' hl'
  have hsame := (Backends.distinct h.distinct s.authority).eq hx hx'
    (by rw [hrunner, hrunner', heq])
  rw [← hprincipal, ← hprincipal', hsame]

/-- The invariant at a time: what is held is unexpired then. -/
structure InvAt (now : Int) (s : World) : Prop extends Inv s where
  unexpired : ∀ l ∈ s.held, l.unexpired now = true

theorem Inv.expire (h : Inv s) (now : Int) : InvAt now (s.expire now) where
  distinct := h.distinct
  pending := h.pending
  covered l hl := h.covered l (List.mem_filter.mp hl).1
  unexpired _ hl := (List.mem_filter.mp hl).2

theorem InvAt.held (h : InvAt now s) : ∀ l ∈ s.held, l.unexpired now = true ∧
    Covered (s.stores.records s.authority) l := fun l hl => ⟨h.unexpired l hl, h.covered l hl⟩

theorem InvAt.done (h : InvAt now s) (caller : ℕ) : InvAt now (s.done caller) where
  distinct := h.distinct
  pending c p hp := by
    have hp' : Function.update s.pending caller none c = some p := hp
    by_cases hc : c = caller
    · rw [hc, Function.update_self] at hp'
      cases hp'
    · rw [Function.update_of_ne hc] at hp'
      exact h.pending c p hp'
  covered := h.covered
  unexpired := h.unexpired

/-- A caller has read a list without two records of a runner. -/
theorem pending_update {caller : ℕ} {q : Pending}
    (h : ∀ caller p, s.pending caller = some p → Distinct p.records) (hq : Distinct q.records) :
    ∀ c p, Function.update s.pending caller (some q) c = some p → Distinct p.records := by
  intro c p hp
  by_cases hc : c = caller
  · rw [hc, Function.update_self] at hp
    obtain rfl := Option.some.inj hp
    exact hq
  · rw [Function.update_of_ne hc] at hp
    exact h c p hp

theorem InvAt.write (h : InvAt now s) {side : Side} {new held : List LeaseRecord}
    (hnew : Distinct new) (hcovered : side = s.authority → ∀ l ∈ held, Covered new l)
    (hwrite : s.write side new held = some t) : Inv t := by
  obtain ⟨stores, hstores, rfl⟩ := Option.map_eq_some_iff.mp hwrite
  obtain ⟨stores', hstores', hwritten, hother, hdistinct⟩ := s.stores.writeAll_spec side hnew
  obtain rfl := Option.some.inj (hstores.symm.trans hstores')
  refine ⟨hdistinct h.distinct, h.pending, fun l hl => ?_⟩
  change Covered (stores.records s.authority) l
  have hl' : l ∈ if side = s.authority then held else s.held := hl
  by_cases hside : side = s.authority
  · rw [if_pos hside] at hl'
    obtain ⟨x, hx, hrunner, hprincipal, hlong⟩ := hcovered hside l hl'
    obtain ⟨x', hx', hrunner', hprincipal', hexpires⟩ := hwritten x hx
    rw [← hside]
    refine ⟨x', hx', hrunner'.trans hrunner, hprincipal'.trans hprincipal, fun now' hl => ?_⟩
    have hx := hlong now' hl
    rwa [LeaseRecord.unexpired, ← hexpires] at hx
  · rw [if_neg hside] at hl'
    rw [hother s.authority (Ne.symm hside)]
    exact h.covered l hl'

theorem InvAt.read (h : InvAt now s) {records : List LeaseRecord}
    (hcovers : Covers now records (s.stores.records s.authority)) :
    ∀ l ∈ s.held, l.unexpired now = true ∧ Covered records l := fun l hl =>
  ⟨h.unexpired l hl, (h.covered l hl).trans (h.unexpired l hl) hcovers⟩

theorem readAll_spec (b : Backends) (side : Side) (now : Int) :
    Drops (fun _ => false) now (b.records side) ((b.readAll side now).2.records side) ∧
      (Distinct b.file → Distinct (b.readAll side now).2.file ∧
        Distinct (b.readAll side now).1) := by
  cases side with
  | primary =>
    exact ⟨b.prune_spec .primary now, fun hd =>
      ⟨hd.sublist List.filter_sublist, hd.sublist List.filter_sublist⟩⟩
  | secondary => exact ⟨fun x hx _ _ => hx, fun hd => ⟨hd, distinct_records b.rows⟩⟩

theorem prune_distinct {b : Backends} (hd : Distinct b.file) (side : Side) (now : Int) :
    Distinct (b.prune side now).file := by
  cases side with
  | primary => exact hd.sublist List.filter_sublist
  | secondary => exact hd

theorem InvAt.swept (h : InvAt now s) {after : List LeaseRecord}
    (hdrops : Drops (fun _ => false) now (s.stores.records s.authority) after) :
    ∀ l ∈ s.held, Covered after l := fun l hl =>
  hdrops.covered (fun _ _ _ _ => rfl) h.held l (List.mem_filter.mpr ⟨hl, rfl⟩)

/-- **An operation that hands over keeps every lease that is held in the authority.** -/
theorem Inv.step (h : Inv s) (hover : HandsOver s ev) : Inv (s.perform ev) := by
  obtain ⟨now, op⟩ := ev
  have hi := h.expire now
  unfold World.perform
  dsimp only
  cases op with
  | acquire a later =>
    simp only [World.act]
    split
    · next r stores hok =>
      obtain ⟨hgrants, hdistinct⟩ := Backends.acquire_spec h.distinct hok
      exact ⟨hdistinct, h.pending, hgrants.covered hi.held⟩
    · exact hi.toInv
  | release runnerId p token =>
    obtain ⟨hdrops, hdistinct⟩ := s.stores.release_spec s.authority runnerId p token now
    refine ⟨hdistinct h.distinct, h.pending, hdrops.covered (fun x l hr hp => ?_) hi.held⟩
    exact release_same s.stores s.authority runnerId p token now hr hp
  | prune =>
    exact ⟨prune_distinct h.distinct _ _, h.pending, hi.swept (s.stores.prune_spec _ now)⟩
  | read caller =>
    obtain ⟨hdrops, hdistinct⟩ := readAll_spec s.stores s.authority now
    obtain ⟨hfile, hlist⟩ := hdistinct h.distinct
    exact ⟨hfile, pending_update h.pending hlist, hi.swept hdrops⟩
  | writeGrant caller r =>
    simp only [World.act]
    split
    · next side records hpending =>
      split
      · next new hput =>
        have hnew := put_distinct hput (h.pending caller _ hpending)
        cases hwrite : ((s.expire now).done caller).write side new (hold r (s.expire now).held) with
        | none => exact (hi.done caller).toInv
        | some t =>
          refine (hi.done caller).write hnew (fun hside => ?_) hwrite
          -- the authority may have changed hands since the caller read
          obtain rfl : side = s.authority := hside
          exact (put_grants hput now).covered (hi.read (hover records hpending))
      · exact (hi.done caller).toInv
    · exact hi.toInv
  | writeRelease caller runnerId p =>
    simp only [World.act]
    split
    · next side records hpending =>
      have hrecords := h.pending caller _ hpending
      cases hwrite : ((s.expire now).done caller).write side (releaseMutate runnerId p records)
          ((s.expire now).held.filter fun l => !releases runnerId p l) with
      | none => exact (hi.done caller).toInv
      | some t =>
        refine (hi.done caller).write (hrecords.sublist List.filter_sublist) (fun hside => ?_)
          hwrite
        obtain rfl : side = s.authority := hside
        have hdrops : Drops (releases runnerId p) now records (releaseMutate runnerId p records) :=
          fun x hx _ hkept => List.mem_filter.mpr ⟨hx, by simp [hkept]⟩
        exact hdrops.covered (fun x l hr hp => releases_same hr hp)
          (hi.read (hover records hpending))
    · exact hi.toInv
  | drainRead caller =>
    simp only [World.act]
    split
    · next hauthority =>
      obtain ⟨hdrops, hdistinct⟩ := readAll_spec s.stores .primary now
      obtain ⟨hfile, hlist⟩ := hdistinct h.distinct
      have hauthority' : s.authority = .primary := hauthority
      have hdrops' : Drops (fun _ => false) now (s.stores.records s.authority)
          ((s.stores.readAll .primary now).2.records s.authority) := by
        rw [hauthority']
        exact hdrops
      exact ⟨hfile, pending_update h.pending hlist, hi.swept hdrops'⟩
    · exact hi.toInv
  | drainWrite caller =>
    simp only [World.act]
    split
    · next records hpending =>
      split
      · next t hwrite =>
        -- after a cutover the drain writes to the store that is the authority
        have ht : Inv t := (hi.done caller).write (h.pending caller _ hpending) (fun hside => ?_)
          hwrite
        · exact ⟨ht.distinct, ht.pending, ht.covered⟩
        · have hside' : Side.secondary = s.authority := hside
          have hcovers := hover hside'.symm records hpending
          rw [hside'] at hcovers
          exact fun l hl => (hi.read hcovers l hl).2
      · exact (hi.done caller).toInv
    · exact hi.toInv
  | cutover token =>
    simp only [World.act]
    split
    · next hok =>
      obtain ⟨hauthority, htoken⟩ := hok
      have hcovers := hover hauthority htoken
      have hauthority' : s.authority = .primary := hauthority
      rw [← hauthority'] at hcovers
      exact ⟨h.distinct, h.pending, fun l hl => (hi.read hcovers l hl).2⟩
    · exact hi.toInv
  | rollback =>
    refine ⟨h.distinct, h.pending, fun l hl => ?_⟩
    cases hauthority : s.authority with
    | primary =>
      -- a rollback without a cutover changes nothing
      have hcovered := hi.covered l hl
      have hsame : (s.expire now).authority = .primary := hauthority
      rwa [hsame] at hcovered
    | secondary =>
      have hcovers := hover hauthority
      rw [← hauthority] at hcovers
      exact (hi.read hcovers l hl).2

theorem Inv.start {stores : Backends} (h : Distinct stores.file) : Inv (.start stores) where
  distinct := h
  pending _ _ hp := by cases hp
  covered _ hl := .of_mem hl

/-- **No runner is leased twice**: in every run of lease operations, drains, cutovers and
rollbacks, each of which hands over, the unexpired and unreleased leases of a runner that the
authorities granted are of one principal. -/
theorem single_of_handsOver {stores : Backends} (hstart : Distinct stores.file)
    (p : Path HandingStep (.start stores) evs s) : Single s := by
  have hrun := p.invariant (I := Inv) (fun s ev t hi hs => ?_) (.start hstart)
  · exact hrun.single
  · obtain ⟨hover, rfl⟩ := hs
    exact hi.step hover

/-- **A cutover right after its drain hands over**, if the file still has no lease but those
that the drain read. -/
theorem HandsOver.of_drain (h : Inv s) {caller : ℕ} {records : List LeaseRecord}
    (hpending : s.pending caller = some (.drain records))
    (hcovers : Covers now records s.stores.file) (token : ℕ) :
    HandsOver (s.perform ⟨now, .drainWrite caller⟩) ⟨now, .cutover token⟩ := by
  have hpending' : (s.expire now).pending caller = some (.drain records) := hpending
  obtain ⟨stores, hstores, hwritten, hother, -⟩ :=
    s.stores.writeAll_spec .secondary (h.pending caller _ hpending)
  have hstores' : ((s.expire now).done caller).stores.writeAll .secondary records =
      some stores := hstores
  obtain ⟨t, hwrite, ht⟩ : ∃ t, ((s.expire now).done caller).write .secondary records
      (s.expire now).held = some t ∧ t.stores = stores :=
    ⟨_, by rw [World.write, hstores', Option.map_some], rfl⟩
  have hperform : (s.perform ⟨now, .drainWrite caller⟩).stores = stores := by
    simp only [World.perform, World.act, hpending', hwrite, ht]
  intro _ _
  rw [hperform]
  intro l hl hlive
  rw [hother .primary (by decide)] at hl
  obtain ⟨x, hx, hrunner, hprincipal, hlong⟩ := hcovers l hl hlive
  obtain ⟨x', hx', hrunner', hprincipal', hexpires⟩ := hwritten x hx
  refine ⟨x', hx', hrunner'.trans hrunner, hprincipal'.trans hprincipal, fun now' hlive' => ?_⟩
  have hxlive := hlong now' hlive'
  rwa [LeaseRecord.unexpired, ← hexpires] at hxlive

/-- **A drain that is written and cut over at once leases no runner twice**, if the file still has
no lease but those that the drain read. -/
theorem single_of_drained (now : Int) (caller token : ℕ) {stores : Backends} {t : World}
    {records : List LeaseRecord} {evs' : List Event} (hstart : Distinct stores.file)
    (p : Path HandingStep (.start stores) evs s) (hprimary : s.authority = .primary)
    (hpending : s.pending caller = some (.drain records))
    (hcovers : Covers now records s.stores.file)
    (q : Path HandingStep ((s.perform ⟨now, .drainWrite caller⟩).perform ⟨now, .cutover token⟩)
      evs' t) : Single t := by
  have hstep : ∀ s ev t, Inv s → HandingStep s ev t → Inv t := by
    rintro s ev t hi ⟨hover, rfl⟩
    exact hi.step hover
  have hrun := p.invariant hstep (.start hstart)
  have hwrite : HandsOver s ⟨now, .drainWrite caller⟩ := by
    intro h
    rw [hprimary] at h
    cases h
  have hcut := (hrun.step hwrite).step (.of_drain hrun hpending hcovers token)
  exact (q.invariant hstep hcut).single

/-- A principal acquires `gpu-1`. -/
def gpuFor (principalId : String) : AcquireArgs where
  principalId := principalId
  maxRunners := 1
  runnerId := "gpu-1"

def World.fresh : World := .start ⟨[], .empty⟩

def drain (now : Int) : List Event := [⟨now, .drainRead 0⟩, ⟨now, .drainWrite 0⟩]

def lateAcquire : List Event :=
  drain 0 ++ [⟨1, .acquire (gpuFor "alice") 1⟩, ⟨2, .cutover 1⟩, ⟨3, .acquire (gpuFor "bob") 3⟩]

/-- The runner is leased twice. -/
theorem leased_twice :
    ¬ ∀ (stores : Backends) (evs : List Event) (s : World), Distinct stores.file →
      Path Step (.start stores) evs s → Single s := by
  intro h
  have hrun : Path Step .fresh lateAcquire (lateAcquire.foldl World.perform .fresh) :=
    .cons rfl (.cons rfl (.cons rfl (.cons rfl (.single rfl))))
  have hsingle := h ⟨[], .empty⟩ lateAcquire _ List.nodup_nil hrun
  have hheld : (lateAcquire.foldl World.perform .fresh).held.map
      (fun l => (l.runnerId, l.principalId)) = [("gpu-1", "alice"), ("gpu-1", "bob")] := by decide
  have halice : ("gpu-1", "alice") ∈ (lateAcquire.foldl World.perform .fresh).held.map
      fun l => (l.runnerId, l.principalId) := by rw [hheld]; simp
  have hbob : ("gpu-1", "bob") ∈ (lateAcquire.foldl World.perform .fresh).held.map
      fun l => (l.runnerId, l.principalId) := by rw [hheld]; simp
  obtain ⟨l, hl, hla⟩ := List.mem_map.mp halice
  obtain ⟨l', hl', hlb⟩ := List.mem_map.mp hbob
  obtain ⟨hrunner, hprincipal⟩ := Prod.ext_iff.mp hla
  obtain ⟨hrunner', hprincipal'⟩ := Prod.ext_iff.mp hlb
  have hsame := hsingle l hl l' hl' (hrunner.trans hrunner'.symm)
  have hne : "alice" = "bob" := hprincipal.symm.trans (hsame.trans hprincipal')
  exact absurd hne (by decide)

/-- Alice acquires before the drain, and Bob is refused after the cutover. -/
def earlyAcquire : List Event :=
  ⟨0, .acquire (gpuFor "alice") 0⟩ :: drain 1 ++ [⟨2, .cutover 1⟩, ⟨3, .acquire (gpuFor "bob") 3⟩]

/-- After a drain the table has Alice's lease. -/
theorem single_of_handsOver_drained : Single (earlyAcquire.foldl World.perform .fresh) := by
  refine @single_of_handsOver _ earlyAcquire ⟨[], .empty⟩ List.nodup_nil ?_
  refine .cons ⟨trivial, rfl⟩ <| .cons ⟨trivial, rfl⟩ <| .cons ⟨?drained, rfl⟩ <|
    .cons ⟨?cutover, rfl⟩ <| .cons ⟨trivial, rfl⟩ <| .nil _
  case drained =>
    intro h
    cases h
  intro _ _ l hl _
  obtain rfl := List.mem_singleton.mp hl
  exact ⟨_, List.mem_singleton.mpr rfl, rfl, rfl, fun _ h => h⟩

/-- Alice acquires, her lease is drained and the table takes over at once, and Bob is refused. -/
def promptCutover : List Event :=
  [⟨0, .acquire (gpuFor "alice") 0⟩, ⟨1, .drainRead 0⟩, ⟨1, .drainWrite 0⟩, ⟨1, .cutover 1⟩,
    ⟨3, .acquire (gpuFor "bob") 3⟩]

theorem single_of_drained_alice : Single (promptCutover.foldl World.perform .fresh) := by
  have hstart : Distinct (Backends.file ⟨[], .empty⟩) := List.nodup_nil
  have p : Path HandingStep (.start ⟨[], .empty⟩) (promptCutover.take 2)
      ((promptCutover.take 2).foldl World.perform .fresh) :=
    .cons ⟨trivial, rfl⟩ (.single ⟨trivial, rfl⟩)
  have q : Path HandingStep ((promptCutover.take 4).foldl World.perform .fresh)
      (promptCutover.drop 4) (promptCutover.foldl World.perform .fresh) := .single ⟨trivial, rfl⟩
  exact single_of_drained 1 0 1 hstart p rfl rfl (fun l hl _ => .of_mem hl) q

end Runs

end Migration

end RunnerLease
