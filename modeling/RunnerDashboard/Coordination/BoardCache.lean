import Mathlib.Algebra.Order.Ring.Rat
import Mathlib.Logic.Function.Basic
import RunnerDashboard.Lib.Path

/-!
# The cache of board reads

Reads of the board are kept for a while.  An expired read is still handed out while one thread in
the background reads anew; a missing one is read by the first caller, and the others wait for it.  A
write empties the cache and counts up a generation, and a read that began in an older generation is
not kept.

Every step is one block under `_lock`, one use of a lock of a key, or the beginning or the end of a
call of a loader.  A step counts up `ticks`; the tick at which the call of a loader began is noted
beside the value it made, and the ticks of the invalidations are kept, so that the two can be
compared.  Neither is read by the program.

## Main results

* `fresh_and_single` — **a call that starts after an invalidation returns no value whose loader
  began before it, and at most one thread is in the loader of a key**.
-/

namespace BoardCache

open Lts

variable {T V : Type*}

/-- What a loader returns, and when its call began. -/
structure Value (V : Type*) where
  data : V
  available : Bool
  began : ℕ

structure Shared (T V : Type*) where
  /-- `_cache`: the time and the value of a key. -/
  cache : String → Option (ℚ × Value V) := fun _ => none
  /-- `_generation`. -/
  generation : ℕ := 0
  /-- `_refreshing`. -/
  refreshing : String → Bool := fun _ => false
  /-- `_key_locks`: the lock object of a key. -/
  keyLocks : String → Option ℕ := fun _ => none
  nextLock : ℕ := 0
  /-- Who holds a lock object. -/
  holder : ℕ → Option T := fun _ => none
  /-- The refresh threads that were started and have not run yet: their arguments. -/
  started : List (String × ℕ) := []
  ticks : ℕ := 0
  /-- The ticks of the invalidations. -/
  invalidated : List ℕ := []

/-- Where a thread is.  `since` is the tick at which its call of `_cached` began. -/
inductive Pc (V : Type*)
  | idle
  /-- `_cached`, with its reading of the clock, before the block under `_lock`. -/
  | cached (key : String) (since : ℕ) (now : ℚ)
  /-- `_cached` with an expired value, before the refresh thread is started. -/
  | starting (key : String) (since generation : ℕ) (v : Value V)
  /-- `_load_once`, before `setdefault`. -/
  | loadOnce (key : String) (since : ℕ)
  | waiting (key : String) (since lock : ℕ)
  /-- With the lock of the key, before the second look at the cache. -/
  | locked (key : String) (since lock : ℕ)
  /-- Before the call of the loader. -/
  | missed (key : String) (since lock generation : ℕ) (now : ℚ)
  | loading (key : String) (since lock generation : ℕ) (now : ℚ) (began : ℕ)
  /-- After the call of the loader, before `_store`. -/
  | loaded (key : String) (since lock generation : ℕ) (now : ℚ) (v : Value V)
  /-- Before the lock of the key is let go; without a value after an exception. -/
  | leaving (key : String) (since lock : ℕ) (v : Option (Value V))
  /-- `_cached` has returned a value. -/
  | returned (since : ℕ) (v : Value V)
  /-- `_refresh`, before the clock is read and the loader is called. -/
  | refresh (key : String) (generation : ℕ)
  /-- In the call of the loader. -/
  | refreshLoading (key : String) (generation : ℕ) (now : ℚ) (began : ℕ)
  /-- After the call of the loader, before `_store`. -/
  | refreshLoaded (key : String) (generation : ℕ) (now : ℚ) (v : Value V)
  /-- Before the `finally` of `_refresh`. -/
  | refreshed (key : String)
  /-- `publish`, while the script runs. -/
  | publishing
  /-- Before the block of `_invalidate` under `_lock`. -/
  | invalidating

/-- The threads and what they share. -/
structure State (T V : Type*) where
  shared : Shared T V
  pc : T → Pc V

/-! ### The blocks under `_lock` -/

def cacheSeconds : ℚ := 60

def fresh (sh : Shared T V) (key : String) (now : ℚ) : Option (Value V) :=
  match sh.cache key with
  | some (stamp, v) => if now - stamp < cacheSeconds then some v else none
  | none => none

/-- The block of `_cached`. -/
def lookup (sh : Shared T V) (key : String) (since : ℕ) (now : ℚ) : Shared T V × Pc V :=
  match sh.cache key with
  | none => (sh, .loadOnce key since)
  | some (stamp, v) =>
    if now - stamp < cacheSeconds then (sh, .returned since v)
    else if sh.refreshing key then (sh, .returned since v)
    else ({ sh with refreshing := Function.update sh.refreshing key true },
      .starting key since sh.generation v)

/-- `_key_locks.setdefault(key, threading.Lock())`. -/
def setdefault (sh : Shared T V) (key : String) : Shared T V × ℕ :=
  match sh.keyLocks key with
  | some lock => (sh, lock)
  | none =>
    ({ sh with
        keyLocks := Function.update sh.keyLocks key (some sh.nextLock)
        nextLock := sh.nextLock + 1 },
      sh.nextLock)

/-- The block of `_load_once` under the lock of the key. -/
def recheck (sh : Shared T V) (key : String) (since lock : ℕ) (now : ℚ) : Pc V :=
  match fresh sh key now with
  | some v => .leaving key since lock (some v)
  | none => .missed key since lock sh.generation now

def store (sh : Shared T V) (key : String) (stamp : ℚ) (v : Value V) (generation : ℕ) :
    Shared T V :=
  if v.available && generation = sh.generation then
    { sh with cache := Function.update sh.cache key (some (stamp, v)) }
  else sh

def invalidate (sh : Shared T V) : Shared T V :=
  { sh with
    cache := fun _ => none
    generation := sh.generation + 1
    invalidated := sh.invalidated ++ [sh.ticks] }

/-! ### Steps -/

/-- What thread `t` does. -/
inductive Act (t : T) : Shared T V → Pc V → Shared T V → Pc V → Prop
  | call {sh : Shared T V} (key : String) (now : ℚ) : Act t sh .idle sh (.cached key sh.ticks now)
  | lookup {sh : Shared T V} {key : String} {since : ℕ} {now : ℚ} :
      Act t sh (.cached key since now) (lookup sh key since now).1 (lookup sh key since now).2
  | start {sh : Shared T V} {key : String} {since generation : ℕ} {v : Value V} :
      Act t sh (.starting key since generation v)
        { sh with started := sh.started ++ [(key, generation)] } (.returned since v)
  | setdefault {sh : Shared T V} {key : String} {since : ℕ} :
      Act t sh (.loadOnce key since) (setdefault sh key).1
        (.waiting key since (setdefault sh key).2)
  | acquire {sh : Shared T V} {key : String} {since lock : ℕ} (h : sh.holder lock = none) :
      Act t sh (.waiting key since lock)
        { sh with holder := Function.update sh.holder lock (some t) } (.locked key since lock)
  | recheck {sh : Shared T V} {key : String} {since lock : ℕ} (now : ℚ) :
      Act t sh (.locked key since lock) sh (recheck sh key since lock now)
  | load {sh : Shared T V} {key : String} {since lock generation : ℕ} {now : ℚ} :
      Act t sh (.missed key since lock generation now) sh
        (.loading key since lock generation now sh.ticks)
  | loaded {sh : Shared T V} {key : String} {since lock generation began : ℕ} {now : ℚ} (data : V)
      (available : Bool) : Act t sh (.loading key since lock generation now began) sh
        (.loaded key since lock generation now ⟨data, available, began⟩)
  | failed {sh : Shared T V} {key : String} {since lock generation began : ℕ} {now : ℚ} :
      Act t sh (.loading key since lock generation now began) sh (.leaving key since lock none)
  | store {sh : Shared T V} {key : String} {since lock generation : ℕ} {now : ℚ} {v : Value V} :
      Act t sh (.loaded key since lock generation now v) (store sh key now v generation)
        (.leaving key since lock (some v))
  | leave {sh : Shared T V} {key : String} {since lock : ℕ} {v : Value V} :
      Act t sh (.leaving key since lock (some v))
        { sh with holder := Function.update sh.holder lock none } (.returned since v)
  | raise {sh : Shared T V} {key : String} {since lock : ℕ} :
      Act t sh (.leaving key since lock none)
        { sh with holder := Function.update sh.holder lock none } .idle
  | goOn {sh : Shared T V} {since : ℕ} {v : Value V} : Act t sh (.returned since v) sh .idle
  | run {sh : Shared T V} {key : String} {generation : ℕ} {front back : List (String × ℕ)}
      (h : sh.started = front ++ (key, generation) :: back) :
      Act t sh .idle { sh with started := front ++ back } (.refresh key generation)
  | refreshLoad {sh : Shared T V} {key : String} {generation : ℕ} (now : ℚ) :
      Act t sh (.refresh key generation) sh (.refreshLoading key generation now sh.ticks)
  | refreshLoaded {sh : Shared T V} {key : String} {generation began : ℕ} {now : ℚ} (data : V)
      (available : Bool) : Act t sh (.refreshLoading key generation now began) sh
        (.refreshLoaded key generation now ⟨data, available, began⟩)
  | refreshFailed {sh : Shared T V} {key : String} {generation began : ℕ} {now : ℚ} :
      Act t sh (.refreshLoading key generation now began) sh (.refreshed key)
  | refreshStore {sh : Shared T V} {key : String} {generation : ℕ} {now : ℚ} {v : Value V} :
      Act t sh (.refreshLoaded key generation now v) (store sh key now v generation)
        (.refreshed key)
  | refreshEnd {sh : Shared T V} {key : String} : Act t sh (.refreshed key)
      { sh with refreshing := Function.update sh.refreshing key false } .idle
  | publish {sh : Shared T V} : Act t sh .idle sh .publishing
  | published {sh : Shared T V} : Act t sh .publishing sh .invalidating
  | publishFailed {sh : Shared T V} : Act t sh .publishing sh .idle
  | callInvalidate {sh : Shared T V} : Act t sh .idle sh .invalidating
  | invalidate {sh : Shared T V} : Act t sh .invalidating (invalidate sh) .idle

def tick (sh : Shared T V) : Shared T V := { sh with ticks := sh.ticks + 1 }

/-- A thread acts, and the ticks count up. -/
inductive Step [DecidableEq T] : State T V → T → State T V → Prop
  | act {s : State T V} {t : T} {sh : Shared T V} {pc : Pc V} (h : Act t s.shared (s.pc t) sh pc) :
      Step s t ⟨tick sh, Function.update s.pc t pc⟩

/-- An empty cache, and threads that do nothing. -/
def init : State T V := ⟨{}, fun _ => .idle⟩

/-- The thread is in the loader of a key, called by `_load_once`. -/
def inLoader (key : String) : Pc V → Prop
  | .loading key' _ _ _ _ _ => key' = key
  | _ => False

/-! ### The invariant -/

/-- A generation that is still the current one was read after all invalidations. -/
def Current (sh : Shared T V) (generation began : ℕ) : Prop :=
  generation ≤ sh.generation ∧ (generation = sh.generation → ∀ i ∈ sh.invalidated, i < began)

def Fresh (sh : Shared T V) (since : ℕ) (v : Value V) : Prop :=
  since ≤ sh.ticks ∧ ∀ i ∈ sh.invalidated, i < since → i < v.began

def Holds (sh : Shared T V) (t : T) (key : String) (lock : ℕ) : Prop :=
  sh.keyLocks key = some lock ∧ sh.holder lock = some t

/-- What holds of a thread, by where it is. -/
def PcInv (sh : Shared T V) (t : T) : Pc V → Prop
  | .cached _ since _ => since ≤ sh.ticks
  | .starting _ since generation v => Fresh sh since v ∧ generation ≤ sh.generation
  | .loadOnce _ since => since ≤ sh.ticks
  | .waiting key since lock => since ≤ sh.ticks ∧ sh.keyLocks key = some lock
  | .locked key since lock => since ≤ sh.ticks ∧ Holds sh t key lock
  | .missed key since lock generation _ =>
    since ≤ sh.ticks ∧ Holds sh t key lock ∧ generation ≤ sh.generation
  | .loading key since lock generation _ began =>
    since ≤ began ∧ began ≤ sh.ticks ∧ Holds sh t key lock ∧ Current sh generation began
  | .loaded key since lock generation _ v =>
    since ≤ v.began ∧ v.began ≤ sh.ticks ∧ Holds sh t key lock ∧ Current sh generation v.began
  | .leaving key since lock v => Holds sh t key lock ∧ ∀ v' ∈ v, Fresh sh since v'
  | .returned since v => Fresh sh since v
  | .refresh _ generation => generation ≤ sh.generation
  | .refreshLoading _ generation _ began => Current sh generation began
  | .refreshLoaded _ generation _ v => Current sh generation v.began
  | .idle | .refreshed _ | .publishing | .invalidating => True

/-- What holds of the shared part: what is in the cache was made after all invalidations. -/
structure SharedInv (sh : Shared T V) : Prop where
  cache : ∀ key stamp v, sh.cache key = some (stamp, v) → ∀ i ∈ sh.invalidated, i < v.began
  started : ∀ x ∈ sh.started, x.2 ≤ sh.generation
  invalidated : ∀ i ∈ sh.invalidated, i < sh.ticks

/-- **The invariant.** -/
structure Inv (s : State T V) : Prop where
  shared : SharedInv s.shared
  pc : ∀ t, PcInv s.shared t (s.pc t)

theorem inv_init : Inv (init : State T V) where
  shared := ⟨nofun, nofun, nofun⟩
  pc _ := trivial

/-! ### What the steps of other threads do to a thread -/

/-- The shared part goes on, and keeps what thread `t` relies on. -/
structure GoesOn (t : T) (sh sh' : Shared T V) : Prop where
  ticks : sh.ticks ≤ sh'.ticks
  keyLocks : ∀ key lock, sh.keyLocks key = some lock → sh'.keyLocks key = some lock
  holder : ∀ lock, sh.holder lock = some t → sh'.holder lock = some t
  generation : sh'.generation = sh.generation ∧ sh'.invalidated = sh.invalidated ∨
    sh'.generation = sh.generation + 1 ∧ sh'.invalidated = sh.invalidated ++ [sh.ticks]

variable {t t' : T} {sh sh' : Shared T V} {key : String} {since lock generation began : ℕ}
  {now : ℚ} {v : Value V} {pc pc' : Pc V}

theorem GoesOn.generation_le (h : GoesOn t sh sh') : sh.generation ≤ sh'.generation := by
  rcases h.generation with ⟨hg, -⟩ | ⟨hg, -⟩ <;> omega

theorem Current.goesOn (h : Current sh generation began) (hsh : GoesOn t sh sh') :
    Current sh' generation began := by
  refine ⟨h.1.trans hsh.generation_le, fun heq => ?_⟩
  rcases hsh.generation with ⟨hg, hi⟩ | ⟨hg, -⟩
  · rw [hi]
    exact h.2 (heq.trans hg)
  · have hle := h.1
    omega

theorem Fresh.goesOn (h : Fresh sh since v) (hsh : GoesOn t sh sh') : Fresh sh' since v := by
  refine ⟨h.1.trans hsh.ticks, fun i hi hlt => ?_⟩
  rcases hsh.generation with ⟨-, heq⟩ | ⟨-, heq⟩ <;> rw [heq] at hi
  · exact h.2 i hi hlt
  · rcases List.mem_append.mp hi with hi | hi
    · exact h.2 i hi hlt
    · -- the invalidation comes after the start of the call
      have hle := h.1
      rw [List.mem_singleton] at hi
      omega

theorem Holds.goesOn (h : Holds sh t key lock) (hsh : GoesOn t sh sh') : Holds sh' t key lock :=
  ⟨hsh.keyLocks key lock h.1, hsh.holder lock h.2⟩

/-- **What holds of a thread is kept when the others go on.** -/
theorem PcInv.goesOn (h : PcInv sh t pc) (hsh : GoesOn t sh sh') : PcInv sh' t pc := by
  have hticks := hsh.ticks
  have hgen := hsh.generation_le
  cases pc with
  | idle | refreshed | publishing | invalidating => trivial
  | cached | loadOnce => exact Nat.le_trans h hticks
  | starting => exact ⟨h.1.goesOn hsh, h.2.trans hgen⟩
  | waiting => exact ⟨h.1.trans hticks, hsh.keyLocks _ _ h.2⟩
  | locked => exact ⟨h.1.trans hticks, h.2.goesOn hsh⟩
  | missed => exact ⟨h.1.trans hticks, h.2.1.goesOn hsh, h.2.2.trans hgen⟩
  | loading => exact ⟨h.1, h.2.1.trans hticks, h.2.2.1.goesOn hsh, h.2.2.2.goesOn hsh⟩
  | loaded => exact ⟨h.1, h.2.1.trans hticks, h.2.2.1.goesOn hsh, h.2.2.2.goesOn hsh⟩
  | leaving => exact ⟨h.1.goesOn hsh, fun v hv => (h.2 v hv).goesOn hsh⟩
  | returned => exact Fresh.goesOn h hsh
  | refresh => exact Nat.le_trans h hgen
  | refreshLoading => exact Current.goesOn h hsh
  | refreshLoaded => exact Current.goesOn h hsh

theorem GoesOn.trans_tick (h : GoesOn t sh sh') : GoesOn t sh (tick sh') :=
  ⟨h.ticks.trans (Nat.le_succ _), h.keyLocks, h.holder, h.generation⟩

/-- The tick, and changes of what threads do not rely on. -/
theorem goesOn_of_eq (hticks : sh'.ticks = sh.ticks) (hlocks : sh'.keyLocks = sh.keyLocks)
    (hholder : sh'.holder = sh.holder) (hgen : sh'.generation = sh.generation)
    (hinv : sh'.invalidated = sh.invalidated) : GoesOn t sh sh' :=
  ⟨hticks.ge, by rw [hlocks]; exact fun _ _ => id, by rw [hholder]; exact fun _ => id,
    .inl ⟨hgen, hinv⟩⟩

/-- A lock object that is not held by a thread is taken or let go. -/
theorem goesOn_holder (h : sh.holder lock ≠ some t) (o : Option T) :
    GoesOn t sh { sh with holder := Function.update sh.holder lock o } := by
  refine ⟨le_rfl, fun _ _ => id, fun lock' hheld => ?_, .inl ⟨rfl, rfl⟩⟩
  have hne : lock' ≠ lock := by
    rintro rfl
    exact h hheld
  exact (Function.update_of_ne hne _ _).trans hheld

theorem goesOn_lookup : GoesOn t sh (lookup sh key since now).1 := by
  unfold lookup
  split
  · exact goesOn_of_eq rfl rfl rfl rfl rfl
  · split_ifs <;> exact goesOn_of_eq rfl rfl rfl rfl rfl

theorem goesOn_store : GoesOn t sh (store sh key now v generation) := by
  unfold store
  split_ifs <;> exact goesOn_of_eq rfl rfl rfl rfl rfl

theorem goesOn_setdefault : GoesOn t sh (setdefault sh key).1 := by
  unfold setdefault
  split
  · exact goesOn_of_eq rfl rfl rfl rfl rfl
  · next hnone =>
    refine ⟨le_rfl, fun key' lock hkey => ?_, fun _ => id, .inl ⟨rfl, rfl⟩⟩
    have hne : key' ≠ key := by
      rintro rfl
      rw [hnone] at hkey
      cases hkey
    exact (Function.update_of_ne hne _ _).trans hkey

theorem goesOn_invalidate : GoesOn t sh (invalidate sh) :=
  ⟨le_rfl, fun _ _ => id, fun _ => id, .inr ⟨rfl, rfl⟩⟩

/-- **What a thread does leaves what the others rely on.** -/
theorem Act.goesOn (h : Act t sh pc sh' pc') (hpc : PcInv sh t pc) (hne : t' ≠ t) :
    GoesOn t' sh sh' := by
  cases h with
  | lookup => exact goesOn_lookup
  | setdefault => exact goesOn_setdefault
  | acquire hfree => exact goesOn_holder (by rw [hfree]; exact nofun) _
  | store => exact goesOn_store
  | refreshStore => exact goesOn_store
  | leave | raise =>
    refine goesOn_holder ?_ _
    rw [hpc.1.2]
    exact fun heq => hne (Option.some.inj heq).symm
  | invalidate => exact goesOn_invalidate
  | call | start | recheck | load | loaded | failed | goOn | run | refreshLoad | refreshLoaded
  | refreshFailed | refreshEnd | publish | published | publishFailed | callInvalidate =>
    exact goesOn_of_eq rfl rfl rfl rfl rfl

/-! ### Every step keeps the invariant -/

theorem SharedInv.tick (h : SharedInv sh) : SharedInv (tick sh) :=
  ⟨h.cache, h.started, fun i hi => Nat.lt_succ_of_lt (h.invalidated i hi)⟩

theorem SharedInv.fresh {stamp : ℚ} (h : SharedInv sh) (hv : sh.cache key = some (stamp, v))
    (hsince : since ≤ sh.ticks) : Fresh sh since v :=
  ⟨hsince, fun i hi _ => h.cache key stamp v hv i hi⟩

theorem exists_cache_of_fresh (h : fresh sh key now = some v) :
    ∃ stamp, sh.cache key = some (stamp, v) := by
  unfold fresh at h
  split at h
  · next stamp v' hv =>
    split_ifs at h
    obtain rfl := Option.some.inj h
    exact ⟨stamp, hv⟩
  · cases h

theorem SharedInv.store (h : SharedInv sh) (hv : Current sh generation v.began) :
    SharedInv (store sh key now v generation) := by
  unfold BoardCache.store
  split_ifs with hkeep
  · obtain ⟨-, hgen⟩ := Bool.and_eq_true_iff.mp hkeep
    refine ⟨fun key' stamp v' hget => ?_, h.started, h.invalidated⟩
    dsimp only at hget
    by_cases hkey : key' = key
    · subst hkey
      rw [Function.update_self] at hget
      obtain ⟨rfl, rfl⟩ := Prod.mk.inj (Option.some.inj hget)
      exact hv.2 (of_decide_eq_true hgen)
    · rw [Function.update_of_ne hkey] at hget
      exact h.cache key' stamp v' hget
  · exact h

theorem SharedInv.invalidate (h : SharedInv sh) : SharedInv (BoardCache.tick (invalidate sh)) := by
  refine ⟨nofun, fun x hx => (h.started x hx).trans (Nat.le_succ _), fun i hi => ?_⟩
  rcases List.mem_append.mp hi with hi | hi
  · exact Nat.lt_succ_of_lt (h.invalidated i hi)
  · exact List.mem_singleton.mp hi ▸ Nat.lt_succ_self _

theorem SharedInv.lookup (h : SharedInv sh) : SharedInv (lookup sh key since now).1 := by
  unfold BoardCache.lookup
  split
  · exact h
  · split_ifs
    · exact h
    · exact h
    · exact ⟨h.cache, h.started, h.invalidated⟩

theorem SharedInv.setdefault (h : SharedInv sh) : SharedInv (setdefault sh key).1 := by
  unfold BoardCache.setdefault
  split
  · exact h
  · exact ⟨h.cache, h.started, h.invalidated⟩

/-- **What a thread does keeps what holds of the shared part.** -/
theorem Act.sharedInv (h : Act t sh pc sh' pc') (hsh : SharedInv sh) (hpc : PcInv sh t pc) :
    SharedInv (tick sh') := by
  have hinv := fun i hi => Nat.lt_succ_of_lt (hsh.invalidated i hi)
  cases h with
  | lookup => exact hsh.lookup.tick
  | setdefault => exact hsh.setdefault.tick
  | store => exact (hsh.store hpc.2.2.2).tick
  | refreshStore => exact (hsh.store hpc).tick
  | invalidate => exact hsh.invalidate
  | start =>
    refine ⟨hsh.cache, fun x hx => ?_, hinv⟩
    rcases List.mem_append.mp hx with hx | hx
    · exact hsh.started x hx
    · obtain rfl := List.mem_singleton.mp hx
      exact hpc.2
  | run hstarted =>
    refine ⟨hsh.cache, fun x hx => ?_, hinv⟩
    refine hsh.started x (hstarted ▸ ?_)
    rcases List.mem_append.mp hx with hx | hx
    · exact List.mem_append_left _ hx
    · exact List.mem_append_right _ (List.mem_cons_of_mem _ hx)
  | acquire | leave | raise | refreshEnd => exact ⟨hsh.cache, hsh.started, hinv⟩
  | call | recheck | load | loaded | failed | goOn | refreshLoad | refreshLoaded | refreshFailed
  | publish | published | publishFailed | callInvalidate => exact hsh.tick

theorem pcInv_lookup (hsh : SharedInv sh) (hsince : since ≤ sh.ticks) :
    PcInv (lookup sh key since now).1 t (lookup sh key since now).2 := by
  unfold lookup
  split
  · exact hsince
  · next stamp v hv =>
    have hfresh := hsh.fresh hv hsince
    split_ifs
    · exact hfresh
    · exact hfresh
    · exact ⟨hfresh, le_rfl⟩

theorem keyLocks_setdefault (sh : Shared T V) (key : String) :
    (setdefault sh key).1.keyLocks key = some (setdefault sh key).2 := by
  unfold setdefault
  split
  · assumption
  · exact Function.update_self ..

theorem pcInv_recheck (hsh : SharedInv sh) (hsince : since ≤ sh.ticks)
    (hheld : Holds sh t key lock) :
    PcInv sh t (recheck sh key since lock now) := by
  unfold recheck
  split
  · next v hv =>
    obtain ⟨stamp, hcache⟩ := exists_cache_of_fresh hv
    exact ⟨hheld, by rintro _ ⟨⟩; exact hsh.fresh hcache hsince⟩
  · exact ⟨hsince, hheld, le_rfl⟩

/-- **What holds of a thread after it acted.** -/
theorem Act.pcInv (h : Act t sh pc sh' pc') (hsh : SharedInv sh) (hpc : PcInv sh t pc) :
    PcInv (tick sh') t pc' := by
  -- the tick does not matter
  suffices hbefore :
    PcInv sh' t pc' from hbefore.goesOn (GoesOn.trans_tick (goesOn_of_eq rfl rfl rfl rfl rfl))
  cases h with
  | call => exact le_rfl
  | lookup => exact pcInv_lookup hsh hpc
  | start => exact ⟨hpc.1.1, hpc.1.2⟩
  | @setdefault key since =>
    have hticks : sh.ticks ≤ (BoardCache.setdefault sh key).1.ticks :=
      (goesOn_setdefault : GoesOn t _ _).ticks
    exact ⟨Nat.le_trans hpc hticks, keyLocks_setdefault sh key⟩
  | acquire => exact ⟨hpc.1, hpc.2, Function.update_self ..⟩
  | recheck now => exact pcInv_recheck hsh hpc.1 hpc.2
  | load => exact ⟨hpc.1, le_rfl, hpc.2.1, hpc.2.2, fun _ => hsh.invalidated⟩
  | loaded => exact hpc
  | failed => exact ⟨hpc.2.2.1, nofun⟩
  | store =>
    obtain ⟨hsince, hbegan, hheld, -⟩ := hpc
    refine ⟨hheld.goesOn goesOn_store, ?_⟩
    rintro _ ⟨⟩
    refine Fresh.goesOn (t := t) ?_ goesOn_store
    exact ⟨hsince.trans hbegan, fun i _ hlt => hlt.trans_le hsince⟩
  | leave => exact ⟨(hpc.2 _ rfl).1, (hpc.2 _ rfl).2⟩
  | run hstarted =>
    exact hsh.started (_, _) (hstarted ▸ List.mem_append_right _ List.mem_cons_self)
  | refreshLoad => exact ⟨hpc, fun _ => hsh.invalidated⟩
  | refreshLoaded => exact hpc
  | raise | goOn | refreshFailed | refreshStore | refreshEnd | publish | published | publishFailed
  | callInvalidate | invalidate => trivial

variable {s s' : State T V}

/-- **Every step keeps the invariant.** -/
theorem Inv.step [DecidableEq T] (hs : Inv s) (h : Step s t s') : Inv s' := by
  cases h with
  | @act sh pc h =>
    refine ⟨h.sharedInv hs.shared (hs.pc t), fun t' => ?_⟩
    dsimp only
    by_cases ht : t' = t
    · subst ht
      rw [Function.update_self]
      exact h.pcInv hs.shared (hs.pc t')
    · rw [Function.update_of_ne ht]
      exact (hs.pc t').goesOn (h.goesOn (hs.pc t) ht).trans_tick

theorem Inv.holds (hs : Inv s) (h : inLoader key (s.pc t)) : ∃ lock, Holds s.shared t key lock := by
  have hpc := hs.pc t
  cases hcase : s.pc t with
  | loading key' since lock generation now began =>
    rw [hcase] at h hpc
    obtain rfl : key' = key := h
    exact ⟨lock, hpc.2.2.1⟩
  | _ =>
    rw [hcase] at h
    cases h

/-- **A call that starts after an invalidation returns no value whose loader began before it, and at
most one thread is in the loader of a key.** -/
theorem fresh_and_single [DecidableEq T] (ls : List T) (s : State T V) (p : Path Step init ls s) :
    (∀ t since v, s.pc t = .returned since v →
      ∀ i ∈ s.shared.invalidated, i < since → i < v.began) ∧
    ∀ key t t', inLoader key (s.pc t) → inLoader key (s.pc t') → t = t' := by
  have hs : Inv s := p.invariant (fun _ _ _ hs h => hs.step h) inv_init
  constructor
  · intro t since v hreturned
    have hpc := hs.pc t
    rw [hreturned] at hpc
    exact hpc.2
  · intro key t t' ht ht'
    obtain ⟨lock, hlock, hholder⟩ := hs.holds ht
    obtain ⟨lock', hlock', hholder'⟩ := hs.holds ht'
    obtain rfl := Option.some.inj (hlock.symm.trans hlock')
    exact Option.some.inj (hholder.symm.trans hholder')

/-- One thread is in its loader when another one empties the cache and calls `_cached`: what the
first one loads is not kept, and the other one loads it anew. -/
theorem fresh_and_single_loaded : ∃ (ls : List Bool) (s : State Bool String) (v : Value String),
    Path Step init ls s ∧ s.pc false = .returned 0 ⟨"old board", true, 5⟩ ∧
      s.pc true = .returned 8 v ∧ s.shared.invalidated = [7] ∧
        ∀ i ∈ s.shared.invalidated, i < 8 → i < v.began := by
  have hrun : ∃ s : State Bool String, Path Step init (List.replicate 6 false ++
      (List.replicate 5 true ++ (List.replicate 3 false ++ List.replicate 6 true))) s ∧
      s.pc false = .returned 0 ⟨"old board", true, 5⟩ ∧
      s.pc true = .returned 8 ⟨"new board", true, 16⟩ ∧ s.shared.invalidated = [7] := by
    refine ⟨_, .cons (.act (.call "all" 0)) (.cons (.act .lookup) (.cons (.act .setdefault)
      (.cons (.act (.acquire rfl)) (.cons (.act (.recheck 0)) (.cons (.act .load)
      (.cons (.act .callInvalidate) (.cons (.act .invalidate) (.cons (.act (.call "all" 0))
      (.cons (.act .lookup) (.cons (.act .setdefault)
      (.cons (.act (.loaded "old board" true)) (.cons (.act .store) (.cons (.act .leave)
      (.cons (.act (.acquire rfl)) (.cons (.act (.recheck 0)) (.cons (.act .load)
      (.cons (.act (.loaded "new board" true)) (.cons (.act .store) (.cons (.act .leave)
      (.nil _)))))))))))))))))))), rfl, rfl, rfl⟩
  obtain ⟨s, p, hold, hnew, hinv⟩ := hrun
  exact ⟨_, s, _, p, hold, hnew, hinv, (fresh_and_single _ s p).1 true 8 _ hnew⟩

end BoardCache
