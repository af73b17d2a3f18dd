import RunnerDashboard.Staff.SchedulerTick

/-!
# One host fires a slot

Every host has its own cursors; the lease says who may start a tick.  A host that takes the lease
over has not seen what the others fired, and it may take it over while another still has slots
queued.

## Main results

* `oneHost_of_caughtUp` — **a slot fires on at most one host** if the cursors have caught up.
* `fired_twice` — a slot that two hosts fire.
-/

namespace Scheduler

open Lts

/-! ### The hosts -/

def Label.run : Label → Option (String × Int)
  | .fire key due true => some (key, due)
  | .raise run => run
  | _ => none

/-- The hosts, the lease, and the runs by host, key and slot. -/
structure World where
  hosts : String → Process
  lease : Lease := {}
  fired : List (String × String × Int) := []

def World.boot (files : String → State) : World := { hosts := fun h => .boot (files h) }

def World.put (w : World) (h : String) (p : Process) : World :=
  { w with hosts := Function.update w.hosts h p }

def World.asked (w : World) (portable : String → Bool) (chain : List String) (h : String)
    (now ttl : Int) : Decision × Lease :=
  acquireLeaderLease portable chain h now ttl w.lease

/-- What a step of the world shows. -/
inductive Event
  | host (h : String) (l : Label)
  | asked (h : String)
  deriving DecidableEq, Repr

/-- One step.  The clocks of the authority and of the hosts are free. -/
inductive WorldStep {σ : Type*} (C : Cron σ) (portable : String → Bool) (chain : List String) :
    World → Event → World → Prop
  /-- A host may start a tick. -/
  | start {w : World} {h : String} {now asked ttl : Int} {p : Process}
      (allowed : leaseAllowsFiring portable chain h
        (some (w.asked portable chain h asked ttl).1) = true)
      (starts : Step C (w.hosts h) (.start now) p) :
      WorldStep C portable chain w (.host h (.start now))
        { w.put h p with lease := (w.asked portable chain h asked ttl).2 }
  /-- A host is refused, or the answer is lost. -/
  | asked {w : World} {h : String} {asked ttl : Int} :
      WorldStep C portable chain w (.asked h)
        { w with lease := (w.asked portable chain h asked ttl).2 }
  /-- A host does anything else, or dies. -/
  | host {w : World} {h : String} {l : Label} {p : Process} (notStart : ∀ now, l ≠ .start now)
      (steps : Step C (w.hosts h) l p) :
      WorldStep C portable chain w (.host h l)
        { w.put h p with fired := w.fired ++ (l.run.map fun x => (h, x.1, x.2)).toList }

def OneHost (w : World) : Prop :=
  ∀ h h' key slot, (h, key, slot) ∈ w.fired → (h', key, slot) ∈ w.fired → h = h'

def Taken (w : World) (h key : String) (slot : Int) : Prop :=
  (h, key, slot) ∈ w.fired ∨ (key, slot) ∈ (w.hosts h).phase.waiting

/-- A host finds the slot of an item due, and moves the cursor. -/
def Finds {σ : Type*} (C : Cron σ) (s : Process) (i : Item) (due : Int) : Prop :=
  (∃ todo pending decided, s.phase = .queueing (i :: todo) pending decided) ∧
    (s.lookAt C i).due s.now = some due ∧ s.defers i = false

/-- The cursor that a host reads for an item. -/
def Process.cursorAt {σ : Type*} (s : Process) (C : Cron σ) (i : Item) : Int :=
  cursor C (i.cron.getD "") s.now (s.mem i.key)

/-- What a host must find when it finds a slot due: the slot is after its cursor, and the slots of
the same key that other hosts have taken are not. -/
def CaughtUp {σ : Type*} (C : Cron σ) (w : World) : Event → Prop
  | .host h .look => ∀ i due, Finds C (w.hosts h) i due →
      (w.hosts h).cursorAt C i < due ∧ ∀ h' slot, h' ≠ h → Taken w h' i.key slot →
        slot ≤ (w.hosts h).cursorAt C i
  | _ => True

/-- A slot that a host finds due is later than those of the same key that others have taken. -/
def Later {σ : Type*} (C : Cron σ) (w : World) : Event → Prop
  | .host h .look => ∀ i due, Finds C (w.hosts h) i due →
      ∀ h' slot, h' ≠ h → Taken w h' i.key slot → slot < due
  | _ => True

/-- No other host has a tick under way when one starts; and a slot that a host finds due is later
than those of the same key that others have fired. -/
def Turns {σ : Type*} (C : Cron σ) (w : World) : Event → Prop
  | .host h (.start _) => ∀ h', h' ≠ h → ∃ how, (w.hosts h').phase = .ended how
  | .host h .look => ∀ i due, Finds C (w.hosts h) i due →
      ∀ h' slot, h' ≠ h → (h', i.key, slot) ∈ w.fired → slot < due
  | _ => True

section World

variable {σ : Type*} {C : Cron σ} {portable : String → Bool} {chain : List String}
  {w w' : World} {ev : Event} {evs : List Event} {s t : Process} {l : Label} {i : Item}
  {due slot : Int} {h h' key : String} {x : String × Int}

/-! ### What a step of a host takes -/

theorem mem_waiting_fires {pending : List Pending} (hx : x ∈ (Phase.fires pending).waiting) :
    x ∈ pending.map Pending.slot := by
  cases pending with
  | nil => cases hx
  | cons p pending => exact hx

theorem waiting_cases (hs : Step C s l t) (hx : x ∈ t.phase.waiting) :
    x ∈ s.phase.waiting ∨ l = .look ∧ ∃ i, Finds C s i x.2 ∧ x.1 = i.key := by
  cases hs with
  | reconcile => cases hx
  | edit => cases hx
  | start => cases hx
  | pass at' quiet =>
    rw [at']
    exact .inl hx
  | @find i todo pending decided due at' isDue undeferred =>
    rcases List.mem_cons.mp hx with rfl | hx
    · exact .inr ⟨rfl, i, ⟨⟨todo, pending, decided, at'⟩, isDue, undeferred⟩, rfl⟩
    · rw [at']
      exact .inl hx
  | skip at' judged =>
    rw [at']
    exact .inl (List.mem_cons_of_mem _ hx)
  | @queue i due y todo pending decided repo issue at' judged =>
    rw [at']
    change x ∈ List.map Pending.slot (pending ++ [⟨i, due, repo, issue⟩]) at hx
    rw [List.map_append] at hx
    rcases List.mem_append.mp hx with hx | hx
    · exact .inl (List.mem_cons_of_mem _ hx)
    · rw [List.mem_singleton.mp hx]
      exact .inl List.mem_cons_self
  | save at' =>
    rw [at']
    exact .inl (mem_waiting_fires hx)
  | fire at' fired =>
    rw [at']
    exact .inl (List.mem_cons_of_mem _ hx)
  | persist busy => exact .inl hx
  | close at' => cases hx
  | raise raises => cases hx
  | crash => cases hx

theorem run_mem_waiting (hs : Step C s l t) (hx : l.run = some x) : x ∈ s.phase.waiting := by
  cases hs with
  | @fire p todo outcome at' fired =>
    rw [at']
    cases outcome with
    | ok runId =>
      obtain rfl := Option.some.inj hx
      exact List.mem_cons_self
    | error reason => cases hx
  | raise raises =>
    cases raises with
    | submit at' =>
      obtain rfl := Option.some.inj hx
      rw [at']
      exact List.mem_cons_self
    | look at' leaves => cases hx
    | judge at' leaves => cases hx
    | save at' => cases hx
    | fire at' leaves => cases hx
    | close at' => cases hx
  | reconcile => cases hx
  | edit => cases hx
  | start => cases hx
  | pass at' quiet => cases hx
  | find at' isDue undeferred => cases hx
  | skip at' judged => cases hx
  | queue at' judged => cases hx
  | save at' => cases hx
  | persist busy => cases hx
  | close at' => cases hx
  | crash => cases hx

theorem put_hosts_self (w : World) (h : String) (p : Process) : (w.put h p).hosts h = p :=
  Function.update_self _ _ _

theorem put_hosts_of_ne (w : World) (p : Process) (hne : h' ≠ h) :
    (w.put h p).hosts h' = w.hosts h' := Function.update_of_ne hne _ _

theorem mem_waiting_put {p : Process} (hx : x ∈ ((w.put h p).hosts h').phase.waiting) :
    (h' = h ∧ x ∈ p.phase.waiting) ∨ x ∈ (w.hosts h').phase.waiting := by
  by_cases hh : h' = h
  · subst hh
    rw [put_hosts_self] at hx
    exact .inl ⟨rfl, hx⟩
  · rw [put_hosts_of_ne w p hh] at hx
    exact .inr hx

theorem taken_cases (hs : WorldStep C portable chain w ev w') (ht : Taken w' h key slot) :
    Taken w h key slot ∨
      ev = .host h .look ∧ ∃ i, Finds C (w.hosts h) i slot ∧ key = i.key := by
  cases hs with
  | start allowed starts =>
    rcases ht with hfired | hwaits
    · exact .inl (.inl hfired)
    · rcases mem_waiting_put hwaits with ⟨rfl, hnew⟩ | hold
      · rcases waiting_cases starts hnew with hold | ⟨hlook, -⟩
        · exact .inl (.inr hold)
        · cases hlook
      · exact .inl (.inr hold)
  | asked => exact .inl ht
  | host notStart steps =>
    rcases ht with hfired | hwaits
    · rcases List.mem_append.mp hfired with hold | hnew
      · exact .inl (.inl hold)
      · obtain ⟨y, hrun, hy⟩ := Option.map_eq_some_iff.mp (Option.mem_toList.mp hnew)
        obtain ⟨rfl, hslot⟩ := Prod.mk.inj hy
        have hy' : y = (key, slot) := hslot
        exact .inl (.inr (hy' ▸ run_mem_waiting steps hrun))
    · rcases mem_waiting_put hwaits with ⟨rfl, hnew⟩ | hold
      · rcases waiting_cases steps hnew with hold | ⟨rfl, hfinds⟩
        · exact .inl (.inr hold)
        · exact .inr ⟨rfl, hfinds⟩
      · exact .inl (.inr hold)

/-! ### Runs -/

def Single (w : World) : Prop :=
  ∀ h h' key slot, Taken w h key slot → Taken w h' key slot → h = h'

/-- The slot lies after the cursor, and what others took does not. -/
theorem CaughtUp.later (hc : CaughtUp C w ev) : Later C w ev := by
  cases ev with
  | asked h => trivial
  | host h l =>
    cases l with
    | look =>
      intro i due hfinds h' slot hne htaken
      obtain ⟨hafter, hseen⟩ := hc i due hfinds
      exact (hseen h' slot hne htaken).trans_lt hafter
    | _ => trivial

/-- **A host whose slot is later takes one that no other has.** -/
theorem Single.step (hi : Single w) (hs : WorldStep C portable chain w ev w')
    (hl : Later C w ev) : Single w' := by
  have hnew : ∀ h h' key slot, Taken w h' key slot →
      (ev = .host h .look ∧ ∃ i, Finds C (w.hosts h) i slot ∧ key = i.key) → h' = h := by
    rintro h h' key slot ht ⟨rfl, i, hfinds, rfl⟩
    by_contra hne
    exact lt_irrefl slot (hl i slot hfinds h' slot hne ht)
  intro h h' key slot ht ht'
  rcases taken_cases hs ht with hold | hfound
  · rcases taken_cases hs ht' with hold' | hfound'
    · exact hi h h' key slot hold hold'
    · exact hnew h' h key slot hold hfound'
  · rcases taken_cases hs ht' with hold' | ⟨hev, -⟩
    · exact (hnew h h' key slot hold' hfound).symm
    · exact (Event.host.inj (hfound.1.symm.trans hev)).1

theorem single_boot (files : String → State) : Single (.boot files) := by
  rintro h h' key slot (hfired | hwaits) -
  · cases hfired
  · cases hwaits

def CaughtUpStep (C : Cron σ) (portable : String → Bool) (chain : List String) (w : World)
    (ev : Event) (w' : World) : Prop :=
  WorldStep C portable chain w ev w' ∧ CaughtUp C w ev

/-- **A scheduled slot fires on at most one host**: in every run of ticks, lost leases and
outages on any hosts, if every host that finds a slot due has caught up. -/
theorem oneHost_of_caughtUp {files : String → State}
    (p : Path (CaughtUpStep C portable chain) (.boot files) evs w) : OneHost w := by
  have hrun := p.invariant (I := Single) (fun w ev w' hi hs => hi.step hs.1 hs.2.later)
    (single_boot files)
  exact fun h h' key slot hf hf' => hrun h h' key slot (.inl hf) (.inl hf')

/-! ### Taking turns -/

/-- Of two hosts, one has no tick under way. -/
def OneBusy (w : World) : Prop :=
  ∀ h h', h ≠ h' → (∃ how, (w.hosts h).phase = .ended how) ∨ ∃ how, (w.hosts h').phase = .ended how

theorem ended_of_step {how : Ending} (hs : Step C s l t) (hl : ∀ now, l ≠ .start now)
    (hended : s.phase = .ended how) : ∃ how', t.phase = .ended how' := by
  cases hs with
  | reconcile => exact ⟨_, rfl⟩
  | edit => exact ⟨_, rfl⟩
  | start => exact absurd rfl (hl _)
  | pass at' quiet => cases hended.symm.trans at'
  | find at' isDue undeferred => cases hended.symm.trans at'
  | skip at' judged => cases hended.symm.trans at'
  | queue at' judged => cases hended.symm.trans at'
  | save at' => cases hended.symm.trans at'
  | fire at' fired => cases hended.symm.trans at'
  | persist busy => exact absurd hended (busy how)
  | close at' => cases hended.symm.trans at'
  | raise raises => exact ⟨_, rfl⟩
  | crash => exact ⟨_, rfl⟩

/-- A host that goes on without a start has no tick under way if it had none. -/
theorem ended_put {how : Ending} {p : Process} (hs : Step C (w.hosts h) l p)
    (hl : ∀ now, l ≠ .start now) (hended : (w.hosts h').phase = .ended how) :
    ∃ how', ((w.put h p).hosts h').phase = .ended how' := by
  by_cases hh : h' = h
  · subst hh
    rw [put_hosts_self]
    exact ended_of_step hs hl hended
  · rw [put_hosts_of_ne w p hh]
    exact ⟨how, hended⟩

theorem OneBusy.step (hi : OneBusy w) (hs : WorldStep C portable chain w ev w')
    (ht : Turns C w ev) : OneBusy w' := by
  cases hs with
  | @start host now asked ttl p allowed starts =>
    have hothers : ∀ h', h' ≠ host → ∃ how, ((w.put host p).hosts h').phase = .ended how := by
      intro h' hne
      rw [put_hosts_of_ne w p hne]
      exact ht h' hne
    intro h h' hne
    by_cases hh : h = host
    · exact .inr (hothers h' (hh ▸ hne.symm))
    · exact .inl (hothers h hh)
  | asked => exact hi
  | host notStart steps =>
    intro h h' hne
    rcases hi h h' hne with ⟨how, hended⟩ | ⟨how, hended⟩
    · exact .inl (ended_put steps notStart hended)
    · exact .inr (ended_put steps notStart hended)

/-- While the hosts take turns, what others have taken they have fired. -/
theorem Turns.later (ht : Turns C w ev) (hi : OneBusy w) : Later C w ev := by
  cases ev with
  | asked h => trivial
  | host h l =>
    cases l with
    | look =>
      intro i due hfinds h' slot hne htaken
      rcases htaken with hfired | hwaits
      · exact ht i due hfinds h' slot hne hfired
      · -- this host is in a tick, so the other is not
        obtain ⟨⟨todo, pending, decided, hphase⟩, -⟩ := hfinds
        rcases hi h h' hne.symm with ⟨how, hended⟩ | ⟨how, hended⟩
        · cases hended.symm.trans hphase
        · rw [hended] at hwaits
          cases hwaits
    | _ => trivial

/-- **The lease serves its purpose** if hosts take turns, and the slots that they find are later
than what the others fired. -/
theorem oneHost_of_turns {files : String → State}
    (p : Path (fun w ev w' => WorldStep C portable chain w ev w' ∧ Turns C w ev) (.boot files)
      evs w) : OneHost w := by
  have hrun := p.invariant (I := fun w => OneBusy w ∧ Single w)
    (fun w ev w' hi hs => ⟨hi.1.step hs.1 hs.2, hi.2.step hs.1 (hs.2.later hi.1)⟩)
    ⟨fun _ _ _ => .inl ⟨.returned, rfl⟩, single_boot files⟩
  exact fun h h' key slot hf hf' => hrun.2 h h' key slot (.inl hf) (.inl hf')

/-! ### A run in which a slot fires twice -/

def oneRole : Roster where
  roles := [hourlyRole "r"]
  names := by decide
  plain := by decide
  jobs := by decide

def hourlyItem : Item := ⟨hourlyRole "r", none, some "0 * * * *"⟩

theorem items_oneRole : oneRole.items = [hourlyItem] := by
  unfold Roster.items
  rw [List.mergeSort_of_pairwise (by decide)]
  rfl

/-- The files of hosts that have both led before the hour. -/
def beforeTheHour : String → State := fun _ _ => { cursor := some 1000 }

def accepting : String → Answers := fun _ => { checks := { submit := .ok "run" } }

/-- The first host fires the slot of the hour and dies; its lease expires, and the cursor of the
second host is still before the slot. -/
theorem fired_twice :
    ¬ ∀ (C : Cron Unit) (portable : String → Bool) (chain : List String)
      (files : String → State) (evs : List Event) (w : World),
      Path (WorldStep C portable chain) (.boot files) evs w → OneHost w := by
  intro h
  have hone := h hourly (fun _ => false) ["a", "b"] beforeTheHour _ _ (
    .cons (@WorldStep.start _ _ _ _ _ "a" 3700 3700 90 _ rfl
      (@Step.start _ _ _ .returned 3700 oneRole accepting rfl)) <|
    .cons (@WorldStep.host _ _ _ _ _ "a" .look _ (fun _ hl => nomatch hl)
      (@Step.find _ _ _ _ _ [] false 3600
        (congrArg (Phase.queueing · [] false) items_oneRole) rfl rfl)) <|
    .cons (@WorldStep.host _ _ _ _ _ "a" .judge _ (fun _ hl => nomatch hl)
      (@Step.queue _ _ _ _ _ _ _ _ _ "" none rfl rfl)) <|
    .cons (@WorldStep.host _ _ _ _ _ "a" .save _ (fun _ hl => nomatch hl)
      (@Step.save _ _ _ _ false rfl)) <|
    .cons (@WorldStep.host _ _ _ _ _ "a" (.fire "r" 3600 true) _ (fun _ hl => nomatch hl)
      (@Step.fire _ _ _ ⟨hourlyItem, 3600, "", none⟩ [] (.ok "run") rfl rfl)) <|
    .cons (@WorldStep.host _ _ _ _ _ "a" .crash _ (fun _ hl => nomatch hl) .crash) <|
    .cons (@WorldStep.start _ _ _ _ _ "b" 3800 3800 90 _ rfl
      (@Step.start _ _ _ .returned 3800 oneRole accepting rfl)) <|
    .cons (@WorldStep.host _ _ _ _ _ "b" .look _ (fun _ hl => nomatch hl)
      (@Step.find _ _ _ _ _ [] false 3600
        (congrArg (Phase.queueing · [] false) items_oneRole) rfl rfl)) <|
    .cons (@WorldStep.host _ _ _ _ _ "b" .judge _ (fun _ hl => nomatch hl)
      (@Step.queue _ _ _ _ _ _ _ _ _ "" none rfl rfl)) <|
    .cons (@WorldStep.host _ _ _ _ _ "b" .save _ (fun _ hl => nomatch hl)
      (@Step.save _ _ _ _ false rfl)) <|
    .cons (@WorldStep.host _ _ _ _ _ "b" (.fire "r" 3600 true) _ (fun _ hl => nomatch hl)
      (@Step.fire _ _ _ ⟨hourlyItem, 3600, "", none⟩ [] (.ok "run") rfl rfl)) <| .nil _)
  exact absurd (hone "a" "b" "r" 3600 (by decide) (by decide)) (by decide)

/-- The leader fires the slot of the hour. -/
theorem oneHost_of_caughtUp_fired :
    ∃ w : World, ("a", "r", 3600) ∈ w.fired ∧ OneHost w := by
  obtain ⟨evs, w, hrun, hfired⟩ : ∃ (evs : List Event) (w : World),
      Path (CaughtUpStep hourly (fun _ => false) ["a", "b"]) (.boot beforeTheHour) evs w ∧
        ("a", "r", 3600) ∈ w.fired := by
    refine ⟨_, _, .cons ⟨@WorldStep.start _ _ _ _ _ "a" 3700 3700 90 _ rfl
        (@Step.start _ _ _ .returned 3700 oneRole accepting rfl), trivial⟩ <|
      .cons ⟨@WorldStep.host _ _ _ _ _ "a" .look _ (fun _ hl => nomatch hl)
        (@Step.find _ _ _ _ _ [] false 3600
          (congrArg (Phase.queueing · [] false) items_oneRole) rfl rfl), ?_⟩ <|
      .cons ⟨@WorldStep.host _ _ _ _ _ "a" .judge _ (fun _ hl => nomatch hl)
        (@Step.queue _ _ _ _ _ _ _ _ _ "" none rfl rfl), trivial⟩ <|
      .cons ⟨@WorldStep.host _ _ _ _ _ "a" .save _ (fun _ hl => nomatch hl)
        (@Step.save _ _ _ _ false rfl), trivial⟩ <|
      .cons ⟨@WorldStep.host _ _ _ _ _ "a" (.fire "r" 3600 true) _ (fun _ hl => nomatch hl)
        (@Step.fire _ _ _ ⟨hourlyItem, 3600, "", none⟩ [] (.ok "run") rfl rfl), trivial⟩ <|
      .nil _, by decide⟩
    rintro i due ⟨⟨todo, pending, decided, hphase⟩, hdue, -⟩
    have hitems : oneRole.items = i :: todo := (Phase.queueing.inj hphase).1
    obtain ⟨rfl, -⟩ := List.cons.inj (items_oneRole.symm.trans hitems)
    have hslot : some 3600 = some due := hdue
    obtain rfl := Option.some.inj hslot
    refine ⟨by decide, fun h' slot hne htaken => ?_⟩
    rcases htaken with hfired | hwaits
    · cases hfired
    · change _ ∈ ((World.boot beforeTheHour).put "a" _ |>.hosts h').phase.waiting at hwaits
      rw [put_hosts_of_ne _ _ hne] at hwaits
      cases hwaits
  exact ⟨w, hfired, oneHost_of_caughtUp hrun⟩

/-- The second host starts a tick when the first one has died in its own. -/
theorem oneHost_of_turns_died : ∃ w : World, w.lease.holder = "b" ∧ OneHost w := by
  obtain ⟨evs, w, hrun, hholder⟩ : ∃ (evs : List Event) (w : World),
      Path (fun w ev w' => WorldStep hourly (fun _ => false) ["a", "b"] w ev w' ∧
        Turns hourly w ev) (.boot beforeTheHour) evs w ∧ w.lease.holder = "b" := by
    refine ⟨_, _, .cons ⟨@WorldStep.start _ _ _ _ _ "a" 3700 3700 90 _ rfl
        (@Step.start _ _ _ .returned 3700 oneRole accepting rfl), fun _ _ => ⟨.returned, rfl⟩⟩ <|
      .cons ⟨@WorldStep.host _ _ _ _ _ "a" .crash _ (fun _ hl => by cases hl) .crash, trivial⟩ <|
      .cons ⟨@WorldStep.start _ _ _ _ _ "b" 3800 3800 90 _ rfl
        (@Step.start _ _ _ .returned 3800 oneRole accepting rfl), fun h' _ => ?_⟩ <|
      .nil _, rfl⟩
    by_cases hh : h' = "a"
    · subst hh
      exact ⟨_, rfl⟩
    · rw [put_hosts_of_ne _ _ hh]
      exact ⟨.returned, congrArg Process.phase (put_hosts_of_ne _ _ hh)⟩
  exact ⟨w, hholder, oneHost_of_turns hrun⟩

end World

end Scheduler
