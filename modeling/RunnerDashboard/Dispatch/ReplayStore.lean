import RunnerDashboard.Lib.PyStr
import RunnerDashboard.Lib.Table

/-!
# The replay store

The identifiers of processed envelopes, each with the time at which it expires.  A claim reserves an
identifier once while it is remembered; a record writes it down in any case.  The table keeps a
bounded number of rows: when there are more, those that expire first go.

## Main results

* `inv_run` — every run keeps that.
-/

namespace ReplayStore

/-- `ReplayStore`. -/
structure Store where
  ttlS : Int
  maxEntries : Int
  processed : Sql.Table String Int

def Store.new (ttlS maxEntries : Int) : Store := ⟨ttlS, maxEntries, Sql.Table.empty⟩

def evictIfNeeded (s : Store) : Store :=
  let count := s.processed.rows.length
  if (count : Int) ≤ s.maxEntries then s
  else
    let excess := ((count : Int) - s.maxEntries).toNat
    let ids := s.processed.select (fun _ _ => true) id excess
    { s with processed := s.processed.delete fun k _ => k ∈ ids }

def isReplay (s : Store) (now : Int) (envelopeId : String) : Bool :=
  match s.processed.get? envelopeId with
  | some expiresAt => now < expiresAt
  | none => false

def record (s : Store) (now : Int) (envelopeId : String) : Store :=
  evictIfNeeded { s with processed := s.processed.put envelopeId (now + s.ttlS) }

/-- `purge_expired`, without the count that it returns. -/
def purge (s : Store) (now : Int) : Store :=
  { s with processed := s.processed.delete fun _ expiresAt => expiresAt ≤ now }

def purgeExpired (s : Store) (now : Int) : ℕ × Store :=
  (s.processed.count fun _ expiresAt => expiresAt ≤ now, purge s now)

/-- `claim_once`; `none` for the `ValueError`. -/
def claimOnce (s : Store) (now : Int) (envelopeId : String) : Option Bool × Store :=
  if Py.strip envelopeId = "" then (none, s)
  else
    let s := purge s now
    match s.processed.get? envelopeId with
    | some _ => (some false, s)
    | none =>
      (some true, evictIfNeeded
        { s with processed := s.processed.insertNew envelopeId (now + s.ttlS) })

/-! ### Runs -/

inductive Call
  | record (envelopeId : String)
  | claimOnce (envelopeId : String)
  | purgeExpired
  deriving DecidableEq

/-- An identifier was accepted or recorded, and whether its row is new. -/
structure Event where
  time : Int
  id : String
  inserted : Bool
  deriving DecidableEq

/-- A store, and what was accepted and recorded, newest first. -/
structure Log where
  store : Store
  events : List Event

def Log.step (y : Log) : Int × Call → Log
  | (now, .record x) =>
    ⟨ReplayStore.record y.store now x,
      ⟨now, x, (y.store.processed.get? x).isNone⟩ :: y.events⟩
  | (now, .claimOnce x) =>
    let (accepted, store) := ReplayStore.claimOnce y.store now x
    ⟨store, if accepted = some true then ⟨now, x, true⟩ :: y.events else y.events⟩
  | (now, .purgeExpired) => ⟨(ReplayStore.purgeExpired y.store now).2, y.events⟩

def run (ttlS maxEntries : Int) (calls : List (Int × Call)) : Log :=
  calls.foldl Log.step ⟨Store.new ttlS maxEntries, []⟩

/-- When an identifier was last accepted or recorded. -/
def latest (h : List Event) (x : String) : Option Int := (h.find? fun e => e.id = x).map Event.time

/-- The other identifiers that were accepted or recorded after it was last. -/
def others (h : List Event) (x : String) : List String :=
  ((h.takeWhile fun e => e.id ≠ x).map Event.id).dedup

def sinceInsertion (h : List Event) (x : String) : List Event :=
  h.takeWhile fun e => !(e.id = x && e.inserted)

/-- The other identifiers that were accepted or recorded since the row of `x` was inserted, and at
no clock reading before the one at which `x` was last accepted or recorded. -/
def newer (h : List Event) (x : String) : List String :=
  match latest h x with
  | none => []
  | some t => (((sinceInsertion h x).filter fun e => e.id ≠ x && t ≤ e.time).map Event.id).dedup

@[simp] theorem run_nil (ttlS maxEntries : Int) :
    run ttlS maxEntries [] = ⟨Store.new ttlS maxEntries, []⟩ := rfl

theorem run_snoc (ttlS maxEntries : Int) (calls : List (Int × Call)) (c : Int × Call) :
    run ttlS maxEntries (calls ++ [c]) = (run ttlS maxEntries calls).step c := by
  simp [run, List.foldl_append]

theorem claimOnce_eq {s : Store} {now : Int} {x : String} (h : Py.strip x ≠ "") :
    (claimOnce s now x).1 = some (!isReplay s now x) := by
  cases hget : s.processed.get? x with
  | none => simp [claimOnce, h, purge, Sql.Table.get?_delete, isReplay, hget]
  | some expiresAt =>
    have hfilter : (purge s now).processed.get? x
        = if now < expiresAt then some expiresAt else none := by
      simp [purge, Sql.Table.get?_delete, hget, Option.filter]
    by_cases hlt : now < expiresAt
    · rw [if_pos hlt] at hfilter
      simp [claimOnce, h, hfilter, isReplay, hget, hlt]
    · rw [if_neg hlt] at hfilter
      simp [claimOnce, h, hfilter, isReplay, hget, hlt]

/-! ### The events of an identifier -/

section Events

variable {h : List Event} {e : Event} {x y : String} {t now : Int}

theorem latest_cons_self (h : List Event) (e : Event) : latest (e :: h) e.id = some e.time := by
  simp [latest]

theorem latest_cons_of_ne (hne : e.id ≠ x) (h : List Event) : latest (e :: h) x = latest h x := by
  simp [latest, hne]

/-- The latest event is no earlier than any other of the identifier. -/
theorem le_latest (hsorted : h.Pairwise fun a b => b.time ≤ a.time) (he : e ∈ h)
    (ht : latest h e.id = some t) : e.time ≤ t := by
  induction h with
  | nil => exact absurd he (by simp)
  | cons a h ih =>
    rw [List.pairwise_cons] at hsorted
    by_cases ha : a.id = e.id
    · rw [← ha, latest_cons_self] at ht
      rcases List.mem_cons.mp he with rfl | he
      · exact (Option.some.inj ht).le
      · exact (hsorted.1 e he).trans (Option.some.inj ht).le
    · rw [latest_cons_of_ne ha] at ht
      rcases List.mem_cons.mp he with rfl | he
      · exact absurd rfl ha
      · exact ih hsorted.2 he ht

theorem exists_of_latest (ht : latest h x = some t) : ∃ e ∈ h, e.id = x ∧ e.time = t := by
  obtain ⟨e, he, rfl⟩ := Option.map_eq_some_iff.mp ht
  exact ⟨e, List.mem_of_find?_eq_some he, by simpa using List.find?_some he, rfl⟩

theorem isSome_latest (he : e ∈ h) : ∃ t, latest h e.id = some t := by
  rw [← Option.isSome_iff_exists, latest, Option.isSome_map, List.find?_isSome]
  exact ⟨e, he, by simp⟩

theorem sinceInsertion_cons (hnot : e.id = x → e.inserted = false) :
    sinceInsertion (e :: h) x = e :: sinceInsertion h x := by
  rw [sinceInsertion, List.takeWhile_cons_of_pos]
  · rfl
  · by_cases hx : e.id = x <;> simp_all

theorem mem_sinceInsertion (hsorted : h.Pairwise fun a b => b.time ≤ a.time) (he : e ∈ h)
    (ht : latest h x = some t) (hlt : t < e.time) : e ∈ sinceInsertion h x := by
  induction h with
  | nil => exact absurd he (by simp)
  | cons a h ih =>
    rw [List.pairwise_cons] at hsorted
    have hle : e.time ≤ a.time := by
      rcases List.mem_cons.mp he with rfl | he
      · exact le_refl _
      · exact hsorted.1 e he
    have ha : a.id ≠ x := by
      rintro rfl
      rw [latest_cons_self] at ht
      have := Option.some.inj ht
      omega
    rw [sinceInsertion_cons fun hx => absurd hx ha]
    rw [latest_cons_of_ne ha] at ht
    rcases List.mem_cons.mp he with rfl | he
    · exact List.mem_cons_self
    · exact List.mem_cons_of_mem _ (ih hsorted.2 he ht)

theorem mem_newer (ht : latest h x = some t) (he : e ∈ sinceInsertion h x) (hne : e.id ≠ x)
    (hle : t ≤ e.time) : e.id ∈ newer h x := by
  rw [newer, ht, List.mem_dedup]
  exact List.mem_map_of_mem (List.mem_filter.mpr ⟨he, by simp [hne, hle]⟩)

/-- An event of another identifier takes away none of the newer ones. -/
theorem length_newer_cons_le (hne : e.id ≠ x) :
    (newer h x).length ≤ (newer (e :: h) x).length := by
  apply (List.Nodup.subperm ?_ ?_).length_le
  · unfold newer
    split
    · exact List.nodup_nil
    · exact List.nodup_dedup _
  · intro y hy
    unfold newer at hy ⊢
    rw [latest_cons_of_ne hne, sinceInsertion_cons fun hx => absurd hx hne]
    split at hy
    · exact absurd hy (by simp)
    · rw [List.mem_dedup] at hy ⊢
      exact List.map_subset _ ((List.sublist_cons_self _ _).filter _).subset hy

end Events

/-! ### What the table tells of the events -/

/-- A row expires its time after the latest event of its identifier, the rows stand in the order of
their insertion, and an identifier without a row has expired, or enough others are newer. -/
structure Inv (y : Log) (now : Int) : Prop where
  sorted : y.events.Pairwise fun a b => b.time ≤ a.time
  past : ∀ e ∈ y.events, e.time ≤ now
  rows : ∀ x expiresAt, y.store.processed.get? x = some expiresAt →
    ∃ t, latest y.events x = some t ∧ expiresAt = t + y.store.ttlS
  order : ∀ x x', [x, x'].Sublist (y.store.processed.rows.map Prod.fst) →
    ∃ e ∈ sinceInsertion y.events x, e.id = x' ∧
      y.store.processed.get? x' = some (e.time + y.store.ttlS)
  known : ∀ x t, latest y.events x = some t → now < t + y.store.ttlS →
    y.store.processed.get? x = some (t + y.store.ttlS) ∨
      y.store.maxEntries ≤ (newer y.events x).length

theorem inv_new (ttlS maxEntries now : Int) : Inv ⟨Store.new ttlS maxEntries, []⟩ now where
  sorted := List.Pairwise.nil
  past := by simp
  rows := fun x expiresAt hx => by simp [Store.new] at hx
  order := fun x x' hx => by simp [Store.new, Sql.Table.empty] at hx
  known := fun x t hx => by simp [latest] at hx

section Steps

variable {s : Store} {h : List Event} {now now' : Int}

theorem Inv.later {y : Log} (hinv : Inv y now) (hle : now ≤ now') : Inv y now' where
  sorted := hinv.sorted
  past := fun e he => (hinv.past e he).trans hle
  rows := hinv.rows
  order := hinv.order
  known := fun x t ht hlt => hinv.known x t ht (by omega)

/-- Rows that are deleted must have expired or have enough newer ones. -/
theorem Inv.delete (hinv : Inv ⟨s, h⟩ now) (p : String → Int → Bool)
    (hp : ∀ x t, latest h x = some t → now < t + s.ttlS →
      s.processed.get? x = some (t + s.ttlS) → p x (t + s.ttlS) = true →
      s.maxEntries ≤ (newer h x).length) :
    Inv ⟨{ s with processed := s.processed.delete p }, h⟩ now where
  sorted := hinv.sorted
  past := hinv.past
  rows := fun x expiresAt hx => by
    rw [Sql.Table.get?_delete, Option.filter_eq_some_iff] at hx
    exact hinv.rows x expiresAt hx.1
  order := fun x x' hx => by
    have hsub : ((s.processed.delete p).rows.map Prod.fst).Sublist
        (s.processed.rows.map Prod.fst) := List.filter_sublist.map Prod.fst
    obtain ⟨e, he, rfl, hget⟩ := hinv.order x x' (hx.trans hsub)
    refine ⟨e, he, rfl, ?_⟩
    have hmem : e.id ∈ (s.processed.delete p).rows.map Prod.fst := hx.subset (by simp)
    rcases hdel : (s.processed.delete p).get? e.id with _ | expiresAt
    · exact absurd hmem (Sql.Table.get?_eq_none_iff.mp hdel)
    · rw [Sql.Table.get?_delete, Option.filter_eq_some_iff] at hdel
      exact (hget.symm.trans hdel.1).symm ▸ rfl
  known := fun x t ht hlt => by
    rcases hinv.known x t ht hlt with hget | hnewer
    · dsimp only at hget
      by_cases hpx : p x (t + s.ttlS) = true
      · exact .inr (hp x t ht hlt hget hpx)
      · left
        rw [Sql.Table.get?_delete, hget]
        simp [hpx]
    · exact .inr hnewer

theorem Inv.purge (hinv : Inv ⟨s, h⟩ now) : Inv ⟨ReplayStore.purge s now, h⟩ now :=
  hinv.delete _ fun x t _ hlt _ hexp => absurd (of_decide_eq_true hexp) (by omega)

/-- What is evicted has as many newer identifiers as the table has room for. -/
theorem Inv.evict (hinv : Inv ⟨s, h⟩ now) : Inv ⟨evictIfNeeded s, h⟩ now := by
  unfold evictIfNeeded
  dsimp only
  split
  · exact hinv
  rename_i hmany
  apply hinv.delete
  intro x t ht _ hget hsel
  obtain ⟨behind, hlength, hnodup, hbehind⟩ :=
    Sql.Table.exists_behind_select (of_decide_eq_true hsel) hget
  have hsub : behind.map Prod.fst ⊆ newer h x := by
    intro k hk
    obtain ⟨⟨k, expiresAt⟩, hy, rfl⟩ := List.mem_map.mp hk
    obtain ⟨hrow, hne, hle, htie⟩ := hbehind _ hy
    have hgetk := Sql.Table.get?_eq_some_iff.mpr hrow
    obtain ⟨t', ht', rfl⟩ := hinv.rows _ _ hgetk
    dsimp only [id] at hle htie ht'
    rcases lt_or_eq_of_le (by omega : t ≤ t') with hlt | rfl
    · -- it expires later, so it came later
      obtain ⟨e, he, rfl, rfl⟩ := exists_of_latest ht'
      exact mem_newer ht (mem_sinceInsertion hinv.sorted he ht hlt) hne hlt.le
    · -- it expires at the same time, and its row is the later one
      obtain ⟨e, he, rfl, hgete⟩ := hinv.order _ _ (htie rfl)
      dsimp only at hgete
      rw [hgetk] at hgete
      have htime : t + s.ttlS = e.time + s.ttlS := Option.some.inj hgete
      exact mem_newer ht he hne (by omega)
  have := (hnodup.subperm hsub).length_le
  rw [List.length_map] at this
  omega

/-- A pair that does not end with the last item was there before it. -/
theorem pair_sublist_of_snoc {l : List String} {x y y' : String}
    (hpair : [y, y'].Sublist (l ++ [x])) (hne : y' ≠ x) : [y, y'].Sublist l := by
  obtain ⟨l₁, l₂, heq, h₁, h₂⟩ := List.sublist_append_iff.mp hpair
  rcases List.eq_nil_or_concat l₂ with rfl | ⟨l₂, z, rfl⟩
  · rwa [heq, List.append_nil]
  · rw [List.concat_eq_append, ← List.append_assoc] at heq
    have hsnoc : [y] ++ [y'] = l₁ ++ l₂ ++ [z] := heq
    have hz : y' = z := List.singleton_inj.mp (List.append_inj' hsnoc rfl).2
    exact absurd (List.mem_singleton.mp (h₂.subset (by simp))) (hz ▸ hne)

/-- An identifier that is written gets the latest event, in a row of its own. -/
theorem Inv.put (hinv : Inv ⟨s, h⟩ now) (x : String) :
    Inv ⟨{ s with processed := s.processed.put x (now + s.ttlS) },
      ⟨now, x, (s.processed.get? x).isNone⟩ :: h⟩ now where
  sorted := List.pairwise_cons.mpr ⟨hinv.past, hinv.sorted⟩
  past := fun e he => by
    rcases List.mem_cons.mp he with rfl | he
    · exact le_refl _
    · exact hinv.past e he
  rows := fun y expiresAt hy => by
    dsimp only at hy
    by_cases hyx : y = x
    · subst hyx
      rw [Sql.Table.get?_put_self] at hy
      exact ⟨now, latest_cons_self h _, (Option.some.inj hy).symm⟩
    · rw [Sql.Table.get?_put_of_ne _ hyx] at hy
      obtain ⟨t, ht, he⟩ := hinv.rows y expiresAt hy
      exact ⟨t, (latest_cons_of_ne (Ne.symm hyx) h).trans ht, he⟩
  order := fun y y' hpair => by
    dsimp only at hpair ⊢
    have hnodup := List.Nodup.sublist hpair (Sql.Table.nodupKeys _)
    have hne : y ≠ y' := by simpa using hnodup
    by_cases hyx : y' = x
    · -- the written row: its event is the newest one
      subst hyx
      refine ⟨⟨now, y', (s.processed.get? y').isNone⟩, ?_, rfl, Sql.Table.get?_put_self _ _ _⟩
      rw [sinceInsertion_cons fun hy => absurd hy.symm hne]
      exact List.mem_cons_self
    · rw [Sql.Table.get?_put_of_ne _ hyx]
      rcases hget : s.processed.get? x with _ | expiresAt
      · -- a new row stands last, so both rows were there before
        rw [Sql.Table.keys_put_of_none hget] at hpair
        have hold := pair_sublist_of_snoc hpair hyx
        have hy : x ≠ y := fun heq =>
          Sql.Table.get?_eq_none_iff.mp hget (heq ▸ hold.subset (by simp))
        obtain ⟨e, he, hey, hgete⟩ := hinv.order y y' hold
        exact ⟨e, by
          rw [sinceInsertion_cons fun hx => absurd hx hy]
          exact List.mem_cons_of_mem _ he, hey, hgete⟩
      · rw [Sql.Table.keys_put_of_some hget] at hpair
        obtain ⟨e, he, hey, hgete⟩ := hinv.order y y' hpair
        exact ⟨e, by
          rw [sinceInsertion_cons (by simp)]
          exact List.mem_cons_of_mem _ he, hey, hgete⟩
  known := fun y t ht hlt => by
    dsimp only at ht hlt ⊢
    by_cases hyx : y = x
    · subst hyx
      rw [latest_cons_self] at ht
      rw [Sql.Table.get?_put_self, ← Option.some.inj ht]
      exact .inl rfl
    · rw [latest_cons_of_ne (Ne.symm hyx)] at ht
      rw [Sql.Table.get?_put_of_ne _ hyx]
      rcases hinv.known y t ht hlt with hget | hnewer
      · exact .inl hget
      · have := length_newer_cons_le (h := h) (e := ⟨now, x, (s.processed.get? x).isNone⟩)
          (Ne.symm hyx)
        exact .inr (by dsimp only at hnewer; omega)

theorem Inv.step {y : Log} {c : Int × Call} (hinv : Inv y now) (hle : now ≤ c.1) :
    Inv (y.step c) c.1 := by
  obtain ⟨s, h⟩ := y
  obtain ⟨now', call⟩ := c
  have hlater : Inv ⟨s, h⟩ now' := hinv.later hle
  cases call with
  | record x => exact (hlater.put x).evict
  | purgeExpired => exact hlater.purge
  | claimOnce x =>
    simp only [Log.step, claimOnce]
    split
    · exact hlater
    rcases hget : (ReplayStore.purge s now').processed.get? x with _ | expiresAt
    · have hput := hlater.purge.put x
      rw [hget, ← Sql.Table.insertNew_eq_put hget] at hput
      exact hput.evict
    · exact hlater.purge

end Steps

/-- The calls come at times that do not decrease. -/
def Clocked (calls : List (Int × Call)) : Prop := calls.Pairwise fun c c' => c.1 ≤ c'.1

/-- Before a call at `now`, the table tells of the events. -/
theorem inv_run (ttlS maxEntries : Int) {calls : List (Int × Call)} {now : Int}
    (hclock : Clocked calls) (hnow : ∀ c ∈ calls, c.1 ≤ now) :
    Inv (run ttlS maxEntries calls) now := by
  induction calls using List.reverseRecOn generalizing now with
  | nil => exact inv_new ttlS maxEntries now
  | append_singleton calls c ih =>
    obtain ⟨hcalls, -, hlast⟩ := List.pairwise_append.mp hclock
    rw [run_snoc]
    have hinv := ih hcalls fun c' hc' => hlast c' hc' c (by simp)
    exact (hinv.step (le_refl _)).later (hnow c (by simp))

/-! ### The claims -/

theorem limits_step (y : Log) (c : Int × Call) :
    (y.step c).store.ttlS = y.store.ttlS ∧ (y.step c).store.maxEntries = y.store.maxEntries := by
  have hevict :
    ∀ s, (evictIfNeeded s).ttlS = s.ttlS ∧ (evictIfNeeded s).maxEntries = s.maxEntries := by
    intro s
    unfold evictIfNeeded
    dsimp only
    split <;> exact ⟨rfl, rfl⟩
  obtain ⟨now, call⟩ := c
  cases call with
  | record x => exact hevict _
  | purgeExpired => exact ⟨rfl, rfl⟩
  | claimOnce x =>
    simp only [Log.step, claimOnce]
    split
    · exact ⟨rfl, rfl⟩
    · split
      · exact ⟨rfl, rfl⟩
      · exact hevict _

theorem limits_run (ttlS maxEntries : Int) (calls : List (Int × Call)) :
    (run ttlS maxEntries calls).store.ttlS = ttlS ∧
      (run ttlS maxEntries calls).store.maxEntries = maxEntries := by
  induction calls using List.reverseRecOn with
  | nil => exact ⟨rfl, rfl⟩
  | append_singleton calls c ih =>
    rw [run_snoc]
    exact ⟨(limits_step _ c).1.trans ih.1, (limits_step _ c).2.trans ih.2⟩

theorem bounded_evictIfNeeded {s : Store} (h : 0 ≤ s.maxEntries) :
    ((evictIfNeeded s).processed.rows.length : Int) ≤ s.maxEntries := by
  unfold evictIfNeeded
  dsimp only
  split
  · assumption
  · rename_i hmany
    have hexcess : ((s.processed.rows.length : Int) - s.maxEntries).toNat
        ≤ s.processed.rows.length := by omega
    have hcount := Sql.Table.le_count_keys
      (Sql.Table.nodup_select s.processed (fun _ _ => true) id
        ((s.processed.rows.length : Int) - s.maxEntries).toNat)
      fun k hk => Sql.Table.mem_keys_of_mem_select hk
    rw [Sql.Table.length_select hexcess] at hcount
    have hlength := Sql.Table.length_delete s.processed fun k _ => k ∈ s.processed.select
      (fun _ _ => true) id ((s.processed.rows.length : Int) - s.maxEntries).toNat
    dsimp only
    omega

theorem bounded_run (ttlS maxEntries : Int) (hpos : 0 ≤ maxEntries) (calls : List (Int × Call)) :
    ((run ttlS maxEntries calls).store.processed.rows.length : Int) ≤ maxEntries := by
  induction calls using List.reverseRecOn with
  | nil => simpa [Store.new, Sql.Table.empty] using hpos
  | append_singleton calls c ih =>
    obtain ⟨-, hmax⟩ := limits_run ttlS maxEntries calls
    rw [run_snoc]
    generalize run ttlS maxEntries calls = y at ih hmax
    subst hmax
    obtain ⟨now, call⟩ := c
    have hpurge : ((purge y.store now).processed.rows.length : Int) ≤ y.store.maxEntries := by
      have := Sql.Table.length_delete_le y.store.processed fun _ expiresAt =>
        decide (expiresAt ≤ now)
      simp only [purge]
      omega
    cases call with
    | record x => exact bounded_evictIfNeeded hpos
    | purgeExpired => exact hpurge
    | claimOnce x =>
      simp only [Log.step, claimOnce]
      split
      · exact ih
      · split
        · exact hpurge
        · exact bounded_evictIfNeeded hpos

theorem mem_events_run {ttlS maxEntries : Int} {calls : List (Int × Call)} {e : Event}
    (he : e ∈ (run ttlS maxEntries calls).events) (later : List (Int × Call)) :
    e ∈ (run ttlS maxEntries (calls ++ later)).events := by
  induction later using List.reverseRecOn with
  | nil => rwa [List.append_nil]
  | append_singleton later c ih =>
    obtain ⟨now, call⟩ := c
    rw [← List.append_assoc, run_snoc]
    cases call with
    | record x => exact List.mem_cons_of_mem _ ih
    | purgeExpired => exact ih
    | claimOnce x =>
      simp only [Log.step]
      split
      · exact List.mem_cons_of_mem _ ih
      · exact ih

/-- An identifier with an event is a replay until it expires, or enough others are newer. -/
theorem isReplay_of_event {ttlS maxEntries : Int} {calls : List (Int × Call)} {now : Int}
    (hclock : Clocked calls) (hnow : ∀ c ∈ calls, c.1 ≤ now) {e : Event}
    (he : e ∈ (run ttlS maxEntries calls).events) (hlt : now < e.time + ttlS) :
    isReplay (run ttlS maxEntries calls).store now e.id = true ∨
      maxEntries ≤ (newer (run ttlS maxEntries calls).events e.id).length := by
  have hinv := inv_run ttlS maxEntries hclock hnow
  obtain ⟨httl, hmax⟩ := limits_run ttlS maxEntries calls
  obtain ⟨t, ht⟩ := isSome_latest he
  have hle := le_latest hinv.sorted he ht
  rcases hinv.known e.id t ht (by omega) with hget | hnewer
  · left
    simp only [isReplay, hget, decide_eq_true_eq]
    omega
  · rw [hmax] at hnewer
    exact .inr hnewer

/-- **An identifier that was accepted is not accepted again before it expires, unless as many others
came since as the table has room for; and the table never outgrows that.** -/
theorem remembered_and_bounded (ttlS maxEntries : Int) {calls : List (Int × Call)}
    (hclock : Clocked calls) :
    (∀ front t x mid t' back,
      calls = front ++ (t, Call.claimOnce x) :: (mid ++ (t', Call.claimOnce x) :: back) →
      (claimOnce (run ttlS maxEntries front).store t x).1 = some true →
      (claimOnce (run ttlS maxEntries (front ++ (t, Call.claimOnce x) :: mid)).store t' x).1
        = some true →
      t' < t + ttlS →
      maxEntries
        ≤ (newer (run ttlS maxEntries (front ++ (t, Call.claimOnce x) :: mid)).events x).length) ∧
    (0 ≤ maxEntries → ∀ front back, calls = front ++ back →
      ((run ttlS maxEntries front).store.processed.rows.length : Int) ≤ maxEntries) := by
  refine ⟨fun front t x mid t' back heq hfirst hagain hlt => ?_,
    fun hpos front back _ => bounded_run ttlS maxEntries hpos front⟩
  set before := front ++ (t, Call.claimOnce x) :: mid with hbefore
  have hsplit : calls = before ++ (t', Call.claimOnce x) :: back := by simp [heq, hbefore]
  rw [Clocked, hsplit, List.pairwise_append] at hclock
  have hx : Py.strip x ≠ "" := by
    intro hblank
    simp [claimOnce, hblank] at hfirst
  have he : (⟨t, x, true⟩ : Event) ∈ (run ttlS maxEntries before).events := by
    have hnew : (⟨t, x, true⟩ : Event)
        ∈ (run ttlS maxEntries (front ++ [(t, Call.claimOnce x)])).events := by
      simp [run_snoc, Log.step, hfirst]
    have := mem_events_run hnew mid
    rwa [List.append_assoc, List.singleton_append, ← hbefore] at this
  rcases isReplay_of_event hclock.1 (fun c hc => hclock.2.2 c hc _ List.mem_cons_self) he hlt with
    hreplay | hnewer
  · rw [claimOnce_eq hx, hreplay] at hagain
    exact absurd hagain (by simp)
  · exact hnewer

/-- Two identifiers are accepted at one clock reading, then the first is recorded again. -/
def tied : List (Int × Call) := [(0, .claimOnce "x"), (0, .claimOnce "y"), (0, .record "x")]

/-- The table at the third identifier, with room for two. -/
def full : Store := ⟨10, 2, ⟨[("x", 10), ("y", 10), ("z", 10)], by decide⟩⟩

theorem run_tied : (run 10 2 (tied ++ [(0, .claimOnce "z")])).store = evictIfNeeded full := by
  rw [run_snoc]
  rfl

/-- The first goes, since its row is the oldest, though it was recorded last. -/
theorem get?_evictIfNeeded_full : (evictIfNeeded full).processed.get? "x" = none := by
  have hsorted : ([("x", 10), ("y", 10), ("z", 10)] : List (String × Int)).mergeSort
      (fun x y => x.2 ≤ y.2) = [("x", 10), ("y", 10), ("z", 10)] := by
    apply List.mergeSort_of_pairwise
    decide
  have hids : full.processed.select (fun _ _ => true) id 1 = ["x"] := by
    simp [Sql.Table.select, full, hsorted]
  have hevict : (evictIfNeeded full).processed
      = full.processed.delete fun k _ => k ∈ full.processed.select (fun _ _ => true) id 1 := rfl
  rw [hevict, hids]
  rfl

/-- The first identifier is accepted again when one other came after it was recorded. -/
theorem not_remembered_tied :
    ¬ ∀ (ttlS maxEntries : Int) (calls : List (Int × Call)), Clocked calls →
      ∀ front t x mid t' back,
        calls = front ++ (t, Call.claimOnce x) :: (mid ++ (t', Call.claimOnce x) :: back) →
        (claimOnce (run ttlS maxEntries front).store t x).1 = some true →
        (claimOnce (run ttlS maxEntries (front ++ (t, Call.claimOnce x) :: mid)).store t' x).1
          = some true →
        t' < t + ttlS →
        maxEntries
          ≤ (others (run ttlS maxEntries (front ++ (t, Call.claimOnce x) :: mid)).events
            x).length := by
  intro h
  have hagain :
    (claimOnce (run 10 2 (tied ++ [(0, .claimOnce "z")])).store 0 "x").1 = some true := by
    rw [claimOnce_eq (by decide), run_tied, isReplay, get?_evictIfNeeded_full]
    rfl
  have hmany :=
    h 10 2 (tied ++ [(0, .claimOnce "z"), (0, .claimOnce "x")]) (by unfold Clocked; decide)
    [] 0 "x" [(0, .claimOnce "y"), (0, .record "x"), (0, .claimOnce "z")] 0 [] rfl
    (by decide +kernel) hagain (by decide)
  have hone : (others (run 10 2 (tied ++ [(0, .claimOnce "z")])).events "x").length = 1 := by
    decide +kernel
  rw [show [] ++ (0, Call.claimOnce "x") ::
      [(0, Call.claimOnce "y"), (0, Call.record "x"), (0, Call.claimOnce "z")]
      = tied ++ [(0, .claimOnce "z")] from rfl, hone] at hmany
  exact absurd hmany (by decide)

/-- In the same run two others came since its row was inserted. -/
theorem remembered_tied :
    (2 : Int) ≤ (newer (run 10 2 (tied ++ [(0, .claimOnce "z")])).events "x").length := by
  have hagain :
    (claimOnce (run 10 2 (tied ++ [(0, .claimOnce "z")])).store 0 "x").1 = some true := by
    rw [claimOnce_eq (by decide), run_tied, isReplay, get?_evictIfNeeded_full]
    rfl
  have hclock : Clocked (tied ++ [(0, .claimOnce "z"), (0, .claimOnce "x")]) := by
    unfold Clocked
    decide
  exact (remembered_and_bounded 10 2 hclock).1 [] 0 "x"
    [(0, .claimOnce "y"), (0, .record "x"), (0, .claimOnce "z")] 0 [] rfl
    (by decide +kernel) hagain (by decide)

end ReplayStore
