import Mathlib.Logic.Function.Basic
import RunnerDashboard.Lib.Path
import RunnerDashboard.Lib.Tail

/-!
# The events of a run

The stores of some processes append the events of the runs to one table.  A store looks at the table
for a run once and counts on from there; nothing makes the numbers unique.  A reader follows a run
by the largest number that it has seen.

## Main results

* `followed_of_ahead` — **where the stores are ahead the readers miss nothing**.
-/

namespace RunEvents

open Lts Tail

/-! ### The table -/

/-- A row of `events`. -/
structure Event where
  runId : String
  seq : ℕ
  ts : String
  kind : String
  text : String
  lessonEvidence : Option String
  deriving DecidableEq

def runEvents (events : List Event) (runId : String) : List Event :=
  events.filter fun e => e.runId = runId

/-- The number that `append_event` takes: the one after the cached number, or else after the largest
one of the table. -/
def nextSeq (cached : Option ℕ) (events : List Event) (runId : String) : ℕ :=
  cached.getD (largest Event.seq (runEvents events runId)) + 1

def eventsAfter (events : List Event) (runId : String) (afterSeq limit : ℕ) : List Event :=
  readAfter Event.seq (runEvents events runId) afterSeq limit

/-! ### Stores and readers -/

/-- A `RunStore`: `_seq`, and the event of the call of `append_event` that has its lock. -/
structure RunStore where
  seq : String → Option ℕ := fun _ => none
  pending : Option Event := none

/-- The table, the stores, and for each reader of a run the events that it has received. -/
structure System where
  events : List Event
  stores : ℕ → RunStore
  readers : String → ℕ → List Event

inductive Act
  | takeSeq (store : ℕ) (runId : String)
  | insert (store : ℕ) (runId : String)
  | fail (store : ℕ)
  | poll (runId : String) (reader : ℕ)

/-- The steps of the stores and of the readers, in any order. -/
inductive Step : System → Act → System → Prop
  | takeSeq (s : System) (i : ℕ) (e : Event) (hi : (s.stores i).pending = none)
      (hseq : e.seq = nextSeq ((s.stores i).seq e.runId) s.events e.runId) :
      Step s (.takeSeq i e.runId)
        { s with
          stores := Function.update s.stores i
            ⟨Function.update (s.stores i).seq e.runId (some e.seq), some e⟩ }
  | insert (s : System) (i : ℕ) {e : Event} (hi : (s.stores i).pending = some e) :
      Step s (.insert i e.runId)
        { s with
          events := s.events ++ [e]
          stores := Function.update s.stores i { s.stores i with pending := none } }
  | fail (s : System) (i : ℕ) {e : Event} (hi : (s.stores i).pending = some e) :
      Step s (.fail i)
        { s with stores := Function.update s.stores i { s.stores i with pending := none } }
  | poll (s : System) (runId : String) (r : ℕ) {limit : ℕ} (hlimit : 1 ≤ limit) :
      Step s (.poll runId r)
        { s with
          readers := Function.update s.readers runId (Function.update (s.readers runId) r
            (s.readers runId r ++ eventsAfter s.events runId
              (largest Event.seq (s.readers runId r)) limit)) }

/-- Nothing was read, no store has looked at the table, and the events in it are in order. -/
structure Start (runId : String) (s : System) : Prop where
  stores : s.stores = fun _ => {}
  readers : s.readers = fun _ _ => []
  ascending : Ascending Event.seq (runEvents s.events runId)

/-- The numbers of a run are distinct, every reader has received the first events of the run, each
one once and in the order in which they were inserted, and it receives the next ones. -/
structure Followed (runId : String) (s : System) : Prop where
  nodup : ((runEvents s.events runId).map Event.seq).Nodup
  received : ∀ r, s.readers runId r <+: runEvents s.events runId
  next : ∀ r limit, eventsAfter s.events runId (largest Event.seq (s.readers runId r)) limit =
    ((runEvents s.events runId).drop (s.readers runId r).length).take limit

/-- A store that inserts an event of a run has a number for it above all those in the table. -/
def Ahead (runId : String) (s : System) : Act → Prop
  | .insert i r => r = runId → ∀ n ∈ (s.stores i).seq runId, ∀ e ∈ runEvents s.events runId,
      e.seq < n
  | _ => True

def OfStore (runId : String) (i : ℕ) : Act → Prop
  | .insert j r => r = runId → j = i
  | _ => True

variable {s t : System} {runId : String} {i j : ℕ} {a : Act} {ls : List Act} {e : Event}
  {events : List Event}

/-! ### The events of a run -/

theorem runEvents_concat_of_ne (h : e.runId ≠ runId) :
    runEvents (events ++ [e]) runId = runEvents events runId := by
  simp [runEvents, h]

theorem runEvents_concat (h : e.runId = runId) :
    runEvents (events ++ [e]) runId = runEvents events runId ++ [e] := by
  simp [runEvents, h]

theorem prefix_runEvents_concat :
    runEvents events runId <+: runEvents (events ++ [e]) runId := by
  rw [runEvents, runEvents, List.filter_append]
  exact List.prefix_append _ _

/-! ### Stores that are ahead -/

/-- A call under way has the number that its store has counted to. -/
def RunStore.Counted (x : RunStore) : Prop :=
  ∀ e ∈ x.pending, x.seq e.runId = some e.seq ∧ 0 < e.seq

theorem counted_of_pending {x : RunStore} (h : x.pending = none) : x.Counted := by
  intro e he
  rw [h] at he
  cases he

/-- What the steps keep where the stores are ahead. -/
structure Ordered (runId : String) (s : System) : Prop where
  ascending : Ascending Event.seq (runEvents s.events runId)
  received : ∀ r, s.readers runId r <+: runEvents s.events runId
  counted : ∀ i, (s.stores i).Counted

theorem Start.ordered (h : Start runId s) : Ordered runId s where
  ascending := h.ascending
  received r := by
    rw [h.readers]
    exact List.nil_prefix
  counted i := counted_of_pending (by rw [h.stores])

theorem Ordered.followed (h : Ordered runId s) : Followed runId s := by
  refine ⟨h.ascending.nodup, h.received, fun r limit => ?_⟩
  obtain ⟨rest, hrest⟩ := h.received r
  have hasc := h.ascending
  rw [← hrest] at hasc
  rw [eventsAfter, ← hrest, readAfter_largest hasc, List.drop_left]

theorem forall_stores_update {P : RunStore → Prop} {x : RunStore} (hx : P x)
    (h : ∀ j, j ≠ i → P (s.stores j)) : ∀ j, P (Function.update s.stores i x j) :=
  (Function.forall_update_iff s.stores fun _ y => P y).mpr ⟨hx, h⟩

theorem counted_step (h : ∀ i, (s.stores i).Counted) (hstep : Step s a t) :
    ∀ i, (t.stores i).Counted := by
  cases hstep with
  | takeSeq i e hi hseq =>
    refine forall_stores_update ?_ fun j _ => h j
    rintro e ⟨⟩
    rw [hseq]
    exact ⟨Function.update_self .., Nat.succ_pos _⟩
  | insert i hi => exact forall_stores_update (counted_of_pending rfl) fun j _ => h j
  | fail i hi => exact forall_stores_update (counted_of_pending rfl) fun j _ => h j
  | poll runId r hlimit => exact h

/-- **An insert of a store that is ahead keeps the numbers in order.** -/
theorem ordered_step (h : Ordered runId s) (hstep : Step s a t) (hahead : Ahead runId s a) :
    Ordered runId t := by
  refine ⟨?_, ?_, counted_step h.counted hstep⟩
  · cases hstep with
    | @insert i e hi =>
      show Ascending Event.seq (runEvents (s.events ++ [e]) runId)
      by_cases he : e.runId = runId
      · obtain ⟨hcached, hpos⟩ := h.counted i e hi
        rw [runEvents_concat he, ascending_concat_iff, largest_lt_iff hpos]
        exact ⟨h.ascending, hahead he e.seq (he ▸ hcached)⟩
      · rw [runEvents_concat_of_ne he]
        exact h.ascending
    | takeSeq | fail | poll => exact h.ascending
  · cases hstep with
    | insert i hi => exact fun r => (h.received r).trans prefix_runEvents_concat
    | takeSeq | fail => exact h.received
    | @poll runId' r limit hlimit =>
      intro r'
      show Function.update s.readers _ _ _ _ <+: _
      by_cases hrun : runId = runId'
      · subst hrun
        rw [Function.update_self]
        by_cases hr : r' = r
        · subst hr
          rw [Function.update_self, h.followed.next]
          obtain ⟨rest, hrest⟩ := h.received r'
          rw [← hrest, List.drop_left]
          exact (List.prefix_append_right_inj _).mpr (List.take_prefix _ _)
        · rw [Function.update_of_ne hr]
          exact h.received r'
      · rw [Function.update_of_ne hrun]
        exact h.received r'

/-! ### One store -/

/-- A store has counted past the events of a run, and a call under way has a number above theirs. -/
structure RunStore.Leads (runId : String) (events : List Event) (x : RunStore) : Prop where
  le : ∀ n ∈ x.seq runId, ∀ e ∈ runEvents events runId, e.seq ≤ n
  lt : ∀ e ∈ x.pending, e.runId = runId → ∀ e' ∈ runEvents events runId, e'.seq < e.seq

/-- What the steps keep where one store inserts the events of a run. -/
structure Single (runId : String) (i : ℕ) (s : System) : Prop where
  counted : ∀ j, (s.stores j).Counted
  leads : (s.stores i).Leads runId s.events

theorem Start.single (h : Start runId s) : Single runId i s := by
  refine ⟨h.ordered.counted, ?_, ?_⟩
  · intro n hn
    rw [h.stores] at hn
    cases hn
  · intro e he
    rw [h.stores] at he
    cases he

/-- The number that is taken is above those in the table. -/
theorem lt_nextSeq {cached : Option ℕ} (h : ∀ n ∈ cached, ∀ e ∈ runEvents events runId, e.seq ≤ n) :
    ∀ e ∈ runEvents events runId, e.seq < nextSeq cached events runId := by
  intro e he
  rw [nextSeq, Nat.lt_succ_iff]
  cases cached with
  | none => exact le_largest he
  | some n => exact h n rfl e he

/-- The call under way is over, or it belongs to another run. -/
theorem RunStore.Leads.of_pending {x y : RunStore} (h : x.Leads runId events)
    (hseq : y.seq runId = x.seq runId) (hpending : ∀ e ∈ y.pending, e.runId ≠ runId) :
    y.Leads runId events :=
  ⟨fun n hn => h.le n (hseq ▸ hn), fun e he herun => absurd herun (hpending e he)⟩

/-- **A store that inserts all events of a run is ahead.** -/
theorem Single.ahead (h : Single runId i s) (hstep : Step s a t) (ha : OfStore runId i a) :
    Ahead runId s a := by
  cases hstep with
  | @insert j e hj =>
    rintro rfl n hn
    obtain rfl : j = i := ha rfl
    obtain rfl : n = e.seq := Option.some.inj (hn.symm.trans (h.counted j e hj).1)
    exact h.leads.lt e hj rfl
  | takeSeq | fail | poll => trivial

/-- **The store keeps its lead.** -/
theorem single_step (h : Single runId i s) (hstep : Step s a t) (ha : OfStore runId i a) :
    Single runId i t := by
  refine ⟨counted_step h.counted hstep, ?_⟩
  cases hstep with
  | takeSeq j e hj hseq =>
    show (Function.update s.stores j _ i).Leads runId s.events
    by_cases hij : i = j
    · subst hij
      rw [Function.update_self]
      -- the next number is above all that are in the table
      by_cases he : e.runId = runId
      · have hlt : ∀ e' ∈ runEvents s.events runId, e'.seq < e.seq := by
          rw [hseq, he]
          exact lt_nextSeq h.leads.le
        refine ⟨fun n hn => ?_, ?_⟩
        · obtain rfl : e.seq = n := by simpa [he] using hn
          exact fun e' he' => (hlt e' he').le
        · rintro e ⟨⟩ -
          exact hlt
      · refine h.leads.of_pending (Function.update_of_ne (Ne.symm he) _ _) ?_
        rintro e ⟨⟩
        exact he
    · rw [Function.update_of_ne hij]
      exact h.leads
  | @insert j e hj =>
    show (Function.update s.stores j _ i).Leads runId (s.events ++ [e])
    by_cases he : e.runId = runId
    · obtain rfl : j = i := ha he
      rw [Function.update_self]
      refine ⟨fun n hn => ?_, fun e he => by cases he⟩
      obtain rfl : n = e.seq := by
        exact Option.some.inj (hn.symm.trans (he ▸ (h.counted j e hj).1))
      rw [runEvents_concat he]
      intro e' he'
      rcases List.mem_append.mp he' with he' | he'
      · exact (h.leads.lt e hj he e' he').le
      · rw [List.mem_singleton.mp he']
    · have hleads : (s.stores i).Leads runId (s.events ++ [e]) := by
        refine ⟨?_, ?_⟩ <;> rw [runEvents_concat_of_ne he]
        · exact h.leads.le
        · exact h.leads.lt
      by_cases hij : i = j
      · subst hij
        rw [Function.update_self]
        exact hleads.of_pending rfl (by simp)
      · rw [Function.update_of_ne hij]
        exact hleads
  | fail j hj =>
    show (Function.update s.stores j _ i).Leads runId s.events
    by_cases hij : i = j
    · subst hij
      rw [Function.update_self]
      exact h.leads.of_pending rfl (by simp)
    · rw [Function.update_of_ne hij]
      exact h.leads
  | poll => exact h.leads

/-! ### Runs -/

def AheadStep (runId : String) (s : System) (a : Act) (t : System) : Prop :=
  Step s a t ∧ Ahead runId s a

def OneStoreStep (runId : String) (i : ℕ) (s : System) (a : Act) (t : System) : Prop :=
  Step s a t ∧ OfStore runId i a

theorem followed_of_path (hs : Start runId s) (p : Path (AheadStep runId) s ls t) :
    Followed runId t := by
  have ht : Ordered runId t :=
    p.invariant (fun _ _ _ h hstep => ordered_step h hstep.1 hstep.2) hs.ordered
  exact ht.followed

theorem aheadPath_of_oneStore (hs : Start runId s) (p : Path (OneStoreStep runId i) s ls t) :
    Path (AheadStep runId) s ls t :=
  p.imp (I := Single runId i) (fun _ _ _ h hstep =>
    ⟨⟨hstep.1, h.ahead hstep.1 hstep.2⟩, single_step h hstep.1 hstep.2⟩) hs.single

/-- **Where the stores that insert events of a run are ahead of the table, the readers miss
nothing,** and they are where there is one store. -/
theorem followed_of_ahead (runId : String) (s : System) (hs : Start runId s) :
    (∀ ls t, Path (AheadStep runId) s ls t → Followed runId t) ∧
      ∀ i ls t, Path (OneStoreStep runId i) s ls t → Followed runId t :=
  ⟨fun _ _ p => followed_of_path hs p,
    fun _ _ _ p => followed_of_path hs (aheadPath_of_oneStore hs p)⟩

def sampleEvent (seq : ℕ) (text : String) : Event :=
  ⟨"r1", seq, "2026-07-01T12:00:00Z", "log", text, none⟩

def emptySystem : System := ⟨[], fun _ => {}, fun _ _ => []⟩

theorem start_emptySystem : Start "r1" emptySystem := ⟨rfl, rfl, ascending_nil⟩

/-- Two events, and two readers, one of which polls between them. -/
theorem followed_sampleRun : ∃ t, Path (OneStoreStep "r1" 0) emptySystem
    [.takeSeq 0 "r1", .insert 0 "r1", .poll "r1" 0, .takeSeq 0 "r1", .insert 0 "r1", .poll "r1" 0,
      .poll "r1" 1] t ∧
    t.events = [sampleEvent 1 "a", sampleEvent 2 "b"] ∧ Followed "r1" t := by
  obtain ⟨t, p, hevents⟩ : ∃ t, Path (OneStoreStep "r1" 0) emptySystem
      [.takeSeq 0 "r1", .insert 0 "r1", .poll "r1" 0, .takeSeq 0 "r1", .insert 0 "r1",
        .poll "r1" 0, .poll "r1" 1] t ∧ t.events = [sampleEvent 1 "a", sampleEvent 2 "b"] :=
    ⟨_, .cons ⟨.takeSeq _ 0 (sampleEvent 1 "a") rfl rfl, trivial⟩ (.cons
      ⟨.insert _ 0 (e := sampleEvent 1 "a") rfl, fun _ => rfl⟩ (.cons
      ⟨@Step.poll _ "r1" 0 200 (by decide), trivial⟩ (.cons
      ⟨.takeSeq _ 0 (sampleEvent 2 "b") rfl rfl, trivial⟩ (.cons
      ⟨.insert _ 0 (e := sampleEvent 2 "b") rfl, fun _ => rfl⟩ (.cons
      ⟨@Step.poll _ "r1" 0 200 (by decide), trivial⟩ (.single
      ⟨@Step.poll _ "r1" 1 200 (by decide), trivial⟩)))))), rfl⟩
  exact ⟨t, p, hevents, (followed_of_ahead "r1" emptySystem start_emptySystem).2 0 _ t p⟩

/-- A second store appends the second event; the first one has counted to one, so it uses the number
two again, and a reader that has seen the second event does not get the third one. -/
theorem not_followed : ∃ t, Path Step emptySystem
    [.takeSeq 0 "r1", .insert 0 "r1", .takeSeq 1 "r1", .insert 1 "r1", .poll "r1" 0,
      .takeSeq 0 "r1", .insert 0 "r1"] t ∧
    t.events = [sampleEvent 1 "a", sampleEvent 2 "b", sampleEvent 2 "c"] ∧
    t.readers "r1" 0 = [sampleEvent 1 "a", sampleEvent 2 "b"] ∧
    (∀ limit, eventsAfter t.events "r1" (largest Event.seq (t.readers "r1" 0)) limit = []) ∧
    ¬ ((runEvents t.events "r1").map Event.seq).Nodup := by
  have hpage : eventsAfter [sampleEvent 1 "a", sampleEvent 2 "b"] "r1" 0 200 =
      [sampleEvent 1 "a", sampleEvent 2 "b"] := by
    refine (@readAfter_largest _ Event.seq [] [sampleEvent 1 "a", sampleEvent 2 "b"]
      ⟨?_, ?_⟩ 200).trans rfl <;> decide
  have hreaders : Function.update emptySystem.readers "r1" (Function.update (fun _ => []) 0
      (eventsAfter [sampleEvent 1 "a", sampleEvent 2 "b"] "r1" 0 200)) "r1" 0 =
      [sampleEvent 1 "a", sampleEvent 2 "b"] := by
    rw [Function.update_self, Function.update_self, hpage]
  refine ⟨_, .cons (.takeSeq _ 0 (sampleEvent 1 "a") rfl rfl) (.cons
    (.insert _ 0 (e := sampleEvent 1 "a") rfl) (.cons
    (.takeSeq _ 1 (sampleEvent 2 "b") rfl rfl) (.cons
    (.insert _ 1 (e := sampleEvent 2 "b") rfl) (.cons
    (@Step.poll _ "r1" 0 200 (by decide)) (.cons
    (.takeSeq _ 0 (sampleEvent 2 "c") rfl rfl) (.single
    (.insert _ 0 (e := sampleEvent 2 "c") rfl))))))), rfl, hreaders, fun limit => ?_, ?_⟩
  · have hnone : (runEvents [sampleEvent 1 "a", sampleEvent 2 "b", sampleEvent 2 "c"] "r1").filter
        (fun e => largest Event.seq [sampleEvent 1 "a", sampleEvent 2 "b"] < e.seq) = [] := by
      decide
    have hempty : eventsAfter [sampleEvent 1 "a", sampleEvent 2 "b", sampleEvent 2 "c"] "r1"
        (largest Event.seq [sampleEvent 1 "a", sampleEvent 2 "b"]) limit = [] := by
      rw [eventsAfter, readAfter, hnone, List.mergeSort_nil, List.take_nil]
    rw [← hreaders] at hempty
    exact hempty
  · decide

end RunEvents
