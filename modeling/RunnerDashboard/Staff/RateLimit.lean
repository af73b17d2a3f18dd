import Mathlib.Algebra.Order.Ring.Rat
import Mathlib.Tactic.NormNum
import RunnerDashboard.Lib.Budget
import RunnerDashboard.Lib.Table

/-!
# The browser rate limiter

One token bucket for each owner, thread and action.  The buckets are bounded in number: when they
are full, those that have refilled are discarded, and a call without a bucket is refused if none
was.

## Main results

* `grants_le` — **the grants for a key in an interval are at most its capacity and what the
  interval refills, and the buckets are never more than their bound**.
-/

namespace RateLimit

/-! ### Buckets -/

/-- `BucketState`, with rational numbers. -/
structure BucketState where
  tokens : ℚ
  lastUpdated : ℚ
  capacity : ℚ
  ratePerSec : ℚ

namespace BucketState

def refilled (b : BucketState) (now : ℚ) : ℚ :=
  b.tokens + max 0 (now - b.lastUpdated) * b.ratePerSec

/-- `consume`: whether a token was taken, the seconds to wait, and the bucket. -/
def consume (b : BucketState) (now : ℚ) : (Bool × ℚ) × BucketState :=
  let tokens := min b.capacity (b.refilled now)
  if 1 ≤ tokens then
    ((true, 0), { b with tokens := tokens - 1, lastUpdated := now })
  else
    let deficit := 1 - tokens
    ((false, if 0 < b.ratePerSec then deficit / b.ratePerSec else 60),
      { b with tokens := tokens, lastUpdated := now })

end BucketState

/-- The actions that have a limit. -/
inductive Action
  | messages
  | dispatches
  deriving DecidableEq, Repr

namespace Action

/-- The key of `_limits`. -/
def ofName? (s : String) : Option Action :=
  if s = "messages" then some .messages else if s = "dispatches" then some .dispatches else none

def capacity : Action → ℚ
  | .messages => 30
  | .dispatches => 10

def rate : Action → ℚ
  | .messages => 30 / 60
  | .dispatches => 10 / 3600

end Action

/-! ### The limiter -/

/-- `_BROWSER_OWNER`. -/
def ownerMatches (s : String) : Bool :=
  match s.toList with
  | [] => false
  | c :: rest => ('1' ≤ c && c ≤ '9') && rest.all (fun d => '0' ≤ d && d ≤ '9') && rest.length ≤ 19

/-- `_BROWSER_THREAD`. -/
def threadMatches (s : String) : Bool :=
  (s.toList.all fun c => ('A' ≤ c && c ≤ 'Z') || ('a' ≤ c && c ≤ 'z') || ('0' ≤ c && c ≤ '9') ||
    c = '_' || c = '-') && 1 ≤ s.toList.length && s.toList.length ≤ 128

abbrev Key := String × String × Action

/-- `BrowserRateLimiter`.  The constructor refuses a bound that is not between 1 and 4096. -/
structure BrowserRateLimiter where
  maxBuckets : ℕ
  one_le : 1 ≤ maxBuckets
  le_limit : maxBuckets ≤ 4096
  buckets : Sql.Table Key BucketState

def BrowserRateLimiter.new (maxBuckets : ℕ) (one_le : 1 ≤ maxBuckets)
    (le_limit : maxBuckets ≤ 4096) :
    BrowserRateLimiter :=
  ⟨maxBuckets, one_le, le_limit, Sql.Table.empty⟩

def discardReplenished (l : BrowserRateLimiter) (now : ℚ) : BrowserRateLimiter :=
  { l with buckets := l.buckets.delete fun _ b => b.capacity ≤ b.refilled now }

/-- A call of `acquire`.  An owner or a thread that is no text is `none`, and so is a reading of the
clock that fails or is not finite. -/
structure Call where
  ownerGithubId : Option String
  threadId : Option String
  action : String
  clock : Option ℚ

def Call.key? (c : Call) : Option Key :=
  match c.ownerGithubId, c.threadId, Action.ofName? c.action with
  | some owner, some thread, some action =>
    if ownerMatches owner && threadMatches thread then some (owner, thread, action) else none
  | _, _, _ => none

/-- The time of a call: the clock is read after the checks, and must not be negative. -/
def Call.now? (c : Call) : Option ℚ := c.clock.filter fun now => 0 ≤ now

/-- The refusal that asks to wait for `_BROWSER_RETRY_SECONDS`. -/
def refused : Bool × ℚ := (false, 60)

def consumeKey (l : BrowserRateLimiter) (key : Key) (bucket : BucketState) (now : ℚ) :
    (Bool × ℚ) × BrowserRateLimiter :=
  let r := bucket.consume (max now bucket.lastUpdated)
  (r.1, { l with buckets := l.buckets.put key r.2 })

def makeRoom (l : BrowserRateLimiter) (now : ℚ) : BrowserRateLimiter :=
  if l.maxBuckets ≤ l.buckets.rows.length then discardReplenished l now else l

def acquire (l : BrowserRateLimiter) (c : Call) : (Bool × ℚ) × BrowserRateLimiter :=
  match c.key? with
  | none => (refused, l)
  | some key =>
    match c.now? with
    | none => (refused, l)
    | some now =>
      match l.buckets.get? key with
      | some bucket => consumeKey l key bucket now
      | none =>
        let l' := makeRoom l now
        if l'.maxBuckets ≤ l'.buckets.rows.length then (refused, l')
        else consumeKey l' key ⟨key.2.2.capacity, now, key.2.2.capacity, key.2.2.rate⟩ now

/-! ### The level of a key -/

/-- What a key could take at once at a time. -/
def level (key : Key) (l : BrowserRateLimiter) (t : ℚ) : ℚ :=
  match l.buckets.get? key with
  | none => key.2.2.capacity
  | some b => min b.capacity (b.refilled t)

/-- Buckets have the limits of their action, and never owe a token. -/
def Sound (l : BrowserRateLimiter) : Prop :=
  ∀ key b, l.buckets.get? key = some b →
    0 ≤ b.tokens ∧ b.capacity = key.2.2.capacity ∧ b.ratePerSec = key.2.2.rate

variable {l : BrowserRateLimiter} {key k : Key} {b : BucketState} {now t t' : ℚ} {c : Call}

theorem Action.rate_nonneg (a : Action) : 0 ≤ a.rate := by
  cases a <;> norm_num [Action.rate]

theorem Action.capacity_nonneg (a : Action) : 0 ≤ a.capacity := by
  cases a <;> norm_num [Action.capacity]

namespace BucketState

theorem refilled_nonneg (ht : 0 ≤ b.tokens) (hr : 0 ≤ b.ratePerSec) (now : ℚ) :
    0 ≤ b.refilled now := by
  have hrefill := mul_nonneg (le_max_left 0 (now - b.lastUpdated)) hr
  unfold refilled
  linarith

theorem refilled_le (hr : 0 ≤ b.ratePerSec) (h : t ≤ t') :
    b.refilled t' ≤ b.refilled t + b.ratePerSec * (t' - t) := by
  have helapsed : max 0 (t' - b.lastUpdated) ≤ max 0 (t - b.lastUpdated) + (t' - t) := by
    apply max_le
    · have hzero := le_max_left 0 (t - b.lastUpdated)
      linarith
    · have hle := le_max_right 0 (t - b.lastUpdated)
      linarith
  have hmul := mul_le_mul_of_nonneg_right helapsed hr
  unfold refilled
  linarith

theorem refilled_max (b : BucketState) (now : ℚ) :
    b.refilled (max now b.lastUpdated) = b.refilled now := by
  unfold refilled
  rcases le_total now b.lastUpdated with h | h
  · rw [max_eq_right h, sub_self, max_eq_left (sub_nonpos.mpr h), max_self]
  · rw [max_eq_left h]

/-- **Taking a token costs the bucket one.** -/
theorem consume_spec (b : BucketState) (now : ℚ) :
    (b.consume now).2.tokens + (if (b.consume now).1.1 then 1 else 0) =
        min b.capacity (b.refilled now) ∧
      ((b.consume now).1.1 = true → 1 ≤ min b.capacity (b.refilled now)) ∧
      (b.consume now).2.lastUpdated = now ∧ (b.consume now).2.capacity = b.capacity ∧
      (b.consume now).2.ratePerSec = b.ratePerSec := by
  unfold consume
  dsimp only
  by_cases h : 1 ≤ min b.capacity (b.refilled now)
  · rw [if_pos h]
    exact ⟨by simp, fun _ => h, rfl, rfl, rfl⟩
  · rw [if_neg h]
    exact ⟨by simp, nofun, rfl, rfl, rfl⟩

theorem consume_tokens_nonneg (hb : 0 ≤ min b.capacity (b.refilled now)) :
    0 ≤ (b.consume now).2.tokens := by
  obtain ⟨htokens, hone, -⟩ := b.consume_spec now
  by_cases hg : (b.consume now).1.1 = true
  · rw [if_pos hg] at htokens
    have hle := hone hg
    linarith
  · rw [if_neg hg] at htokens
    linarith

/-- What a bucket could give right after a token was asked for. -/
theorem min_refilled_consume (b : BucketState) (h : now ≤ t) :
    min (b.consume t).2.capacity ((b.consume t).2.refilled now) = (b.consume t).2.tokens := by
  obtain ⟨htokens, -, hlast, hcap, -⟩ := b.consume_spec t
  have hle : (b.consume t).2.tokens ≤ b.capacity := by
    have hmin := min_le_left b.capacity (b.refilled t)
    rw [← htokens] at hmin
    split_ifs at hmin <;> linarith
  unfold refilled
  rw [hcap, hlast, max_eq_left (sub_nonpos.mpr h), zero_mul, add_zero, min_eq_right hle]

end BucketState

theorem level_of_none (h : l.buckets.get? key = none) : level key l t = key.2.2.capacity := by
  rw [level, h]

theorem level_of_some (h : l.buckets.get? key = some b) :
    level key l t = min b.capacity (b.refilled t) := by
  rw [level, h]

theorem level_nonneg (hl : Sound l) : 0 ≤ level key l t := by
  cases h : l.buckets.get? key with
  | none => exact level_of_none h ▸ key.2.2.capacity_nonneg
  | some b =>
    obtain ⟨htokens, hcap, hrate⟩ := hl key b h
    rw [level_of_some h]
    apply le_min
    · exact hcap ▸ key.2.2.capacity_nonneg
    · exact BucketState.refilled_nonneg htokens (hrate ▸ key.2.2.rate_nonneg) t

theorem level_le_capacity (hl : Sound l) : level key l t ≤ key.2.2.capacity := by
  cases h : l.buckets.get? key with
  | none => exact (level_of_none h).le
  | some b =>
    rw [level_of_some h, ← (hl key b h).2.1]
    exact min_le_left _ _

theorem level_le (hl : Sound l) (h : t ≤ t') :
    level key l t' ≤ level key l t + key.2.2.rate * (t' - t) := by
  have hrefill := mul_nonneg key.2.2.rate_nonneg (sub_nonneg.mpr h)
  cases hb : l.buckets.get? key with
  | none =>
    rw [level_of_none hb, level_of_none hb]
    linarith
  | some b =>
    obtain ⟨-, -, hrate⟩ := hl key b hb
    have hle := BucketState.refilled_le (b := b) (hrate ▸ key.2.2.rate_nonneg) h
    rw [level_of_some hb, level_of_some hb, min_add]
    rw [hrate] at hle
    apply min_le_min
    · linarith
    · exact hle

/-! ### Discarding buckets -/

theorem get?_discardReplenished (l : BrowserRateLimiter) (now : ℚ) (key : Key) :
    (discardReplenished l now).buckets.get? key =
      (l.buckets.get? key).filter fun b => !decide (b.capacity ≤ b.refilled now) :=
  Sql.Table.get?_delete _ _ _

/-- **Only what has refilled is discarded**, so a key that starts anew gains nothing. -/
theorem level_discardReplenished (hl : Sound l) :
    level key (discardReplenished l now) now = level key l now := by
  have hget := get?_discardReplenished l now key
  cases hb : l.buckets.get? key with
  | none =>
    rw [hb, Option.filter_none] at hget
    rw [level_of_none hb, level_of_none hget]
  | some b =>
    rw [hb, Option.filter_some] at hget
    by_cases hfull : b.capacity ≤ b.refilled now
    · rw [decide_eq_true hfull, Bool.not_true, if_neg Bool.false_ne_true] at hget
      rw [level_of_none hget, level_of_some hb, min_eq_left hfull, (hl key b hb).2.1]
    · rw [decide_eq_false hfull, Bool.not_false, if_pos rfl] at hget
      rw [level_of_some hget, level_of_some hb]

theorem sound_discardReplenished (hl : Sound l) : Sound (discardReplenished l now) := by
  intro key b hb
  rw [get?_discardReplenished, Option.filter_eq_some_iff] at hb
  exact hl key b hb.1

theorem makeRoom_cases (l : BrowserRateLimiter) (now : ℚ) :
    makeRoom l now = discardReplenished l now ∨ makeRoom l now = l := by
  unfold makeRoom
  split_ifs
  · exact .inl rfl
  · exact .inr rfl

theorem level_makeRoom (hl : Sound l) : level key (makeRoom l now) now = level key l now := by
  rcases makeRoom_cases l now with h | h <;> rw [h]
  exact level_discardReplenished hl

theorem sound_makeRoom (hl : Sound l) : Sound (makeRoom l now) := by
  rcases makeRoom_cases l now with h | h <;> rw [h]
  · exact sound_discardReplenished hl
  · exact hl

theorem get?_makeRoom (h : l.buckets.get? key = none) :
    (makeRoom l now).buckets.get? key = none := by
  rcases makeRoom_cases l now with h' | h' <;> rw [h']
  · rw [get?_discardReplenished, h, Option.filter_none]
  · exact h

/-! ### Taking a token -/

/-- The bucket that is consumed has the limits of its key. -/
structure Fits (key : Key) (b : BucketState) : Prop where
  tokens_nonneg : 0 ≤ b.tokens
  capacity_eq : b.capacity = key.2.2.capacity
  rate_eq : b.ratePerSec = key.2.2.rate

theorem sound_consumeKey (hl : Sound l) (hb : Fits key b) : Sound (consumeKey l key b now).2 := by
  intro k b' hk
  unfold consumeKey at hk
  dsimp only at hk
  rw [Sql.Table.get?_put] at hk
  by_cases hkey : k = key
  · subst hkey
    rw [if_pos rfl] at hk
    obtain rfl := Option.some.inj hk
    obtain ⟨-, -, -, hcap, hrate⟩ := b.consume_spec (max now b.lastUpdated)
    refine ⟨?_, hcap.trans hb.capacity_eq, hrate.trans hb.rate_eq⟩
    apply BucketState.consume_tokens_nonneg
    apply le_min
    · exact hb.capacity_eq ▸ k.2.2.capacity_nonneg
    · exact BucketState.refilled_nonneg hb.tokens_nonneg (hb.rate_eq ▸ k.2.2.rate_nonneg) _
  · rw [if_neg hkey] at hk
    exact hl k b' hk

theorem level_consumeKey_of_ne (h : k ≠ key) :
    level k (consumeKey l key b now).2 t = level k l t := by
  unfold consumeKey level
  dsimp only
  rw [Sql.Table.get?_put_of_ne _ h]

theorem level_consumeKey :
    level key (consumeKey l key b now).2 now + (if (consumeKey l key b now).1.1 then 1 else 0) =
      min b.capacity (b.refilled now) := by
  obtain ⟨htokens, -⟩ := b.consume_spec (max now b.lastUpdated)
  have hget : (consumeKey l key b now).2.buckets.get? key =
      some (b.consume (max now b.lastUpdated)).2 := Sql.Table.get?_put_self _ _ _
  rw [level_of_some hget, b.min_refilled_consume (le_max_left _ _)]
  rw [b.refilled_max] at htokens
  exact htokens

/-! ### A call -/

/-- The time of a call that comes to the buckets. -/
def Call.time? (c : Call) : Option ℚ := c.key?.bind fun _ => c.now?

def freshBucket (key : Key) (now : ℚ) : BucketState :=
  ⟨key.2.2.capacity, now, key.2.2.capacity, key.2.2.rate⟩

theorem fits_freshBucket (key : Key) (now : ℚ) : Fits key (freshBucket key now) :=
  ⟨key.2.2.capacity_nonneg, rfl, rfl⟩

/-- **What a call does: nothing, or it takes a token of its key, with a fresh bucket if it has none,
or it finds no room.** -/
theorem acquire_cases (l : BrowserRateLimiter) (c : Call) :
    (c.time? = none ∧ acquire l c = (refused, l)) ∨
      ∃ key now, c.key? = some key ∧ c.time? = some now ∧
        ((∃ b, l.buckets.get? key = some b ∧ acquire l c = consumeKey l key b now) ∨
          l.buckets.get? key = none ∧
            (acquire l c = (refused, makeRoom l now) ∨
              (makeRoom l now).buckets.rows.length < (makeRoom l now).maxBuckets ∧
                acquire l c = consumeKey (makeRoom l now) key (freshBucket key now) now)) := by
  unfold acquire Call.time?
  cases hkey : c.key? with
  | none => exact .inl ⟨rfl, rfl⟩
  | some key =>
    cases hnow : c.now? with
    | none => exact .inl ⟨rfl, rfl⟩
    | some now =>
      refine .inr ⟨key, now, rfl, rfl, ?_⟩
      dsimp only
      cases hget : l.buckets.get? key with
      | some b => exact .inl ⟨b, rfl, rfl⟩
      | none =>
        refine .inr ⟨rfl, ?_⟩
        dsimp only
        by_cases hfull : (makeRoom l now).maxBuckets ≤ (makeRoom l now).buckets.rows.length
        · exact .inl (if_pos hfull)
        · exact .inr ⟨Nat.lt_of_not_le hfull, if_neg hfull⟩

theorem sound_acquire (hl : Sound l) : Sound (acquire l c).2 := by
  rcases acquire_cases l c with ⟨-, h⟩ | ⟨key, now, -, -, ⟨b, hb, h⟩ | ⟨-, h | ⟨-, h⟩⟩⟩
  · rwa [h]
  · obtain ⟨htokens, hcap, hrate⟩ := hl key b hb
    rw [h]
    exact sound_consumeKey hl ⟨htokens, hcap, hrate⟩
  · rw [h]
    exact sound_makeRoom hl
  · rw [h]
    exact sound_consumeKey (sound_makeRoom hl) (fits_freshBucket key now)

/-- **A grant costs its key one token, and a call lowers no other level.** -/
theorem level_acquire (hl : Sound l) (h : c.time? = some now) :
    level k (acquire l c).2 now + (if (acquire l c).1.1 && c.key? = some k then 1 else 0) =
      level k l now := by
  rcases acquire_cases l c with ⟨hnone, -⟩ | ⟨key, now', hkey, hnow, hcase⟩
  · rw [hnone] at h
    cases h
  obtain rfl := Option.some.inj (hnow.symm.trans h)
  rw [hkey]
  by_cases hk : k = key
  · subst hk
    simp only [decide_true, Bool.and_true]
    rcases hcase with ⟨b, hb, heq⟩ | ⟨hnone, heq | ⟨-, heq⟩⟩
    · rw [heq, level_consumeKey, level_of_some hb]
    · rw [heq, level_makeRoom hl]
      simp [refused]
    · rw [heq, level_consumeKey, level_of_none hnone]
      simp [BucketState.refilled, freshBucket]
  · have hne : ¬ some key = some k := fun heq => hk (Option.some.inj heq).symm
    rw [decide_eq_false hne, Bool.and_false, if_neg Bool.false_ne_true, add_zero]
    rcases hcase with ⟨b, -, heq⟩ | ⟨-, heq | ⟨-, heq⟩⟩
    · rw [heq, level_consumeKey_of_ne hk]
    · rw [heq, level_makeRoom hl]
    · rw [heq, level_consumeKey_of_ne hk, level_makeRoom hl]

/-! ### The number of buckets -/

def Bounded (l : BrowserRateLimiter) : Prop := l.buckets.rows.length ≤ l.maxBuckets

theorem maxBuckets_makeRoom : (makeRoom l now).maxBuckets = l.maxBuckets := by
  rcases makeRoom_cases l now with h | h <;> rw [h]
  rfl

theorem maxBuckets_acquire : (acquire l c).2.maxBuckets = l.maxBuckets := by
  rcases acquire_cases l c with ⟨-, h⟩ | ⟨key, now, -, -, ⟨b, -, h⟩ | ⟨-, h | ⟨-, h⟩⟩⟩ <;> rw [h]
  · rfl
  · exact maxBuckets_makeRoom
  · exact maxBuckets_makeRoom

theorem bounded_acquire (hl : Bounded l) : Bounded (acquire l c).2 := by
  have hroom : ∀ now, Bounded (makeRoom l now) := by
    intro now
    rcases makeRoom_cases l now with h | h <;> rw [h]
    · exact (Sql.Table.length_delete_le _ _).trans hl
    · exact hl
  rcases acquire_cases l c with ⟨-, h⟩ |
    ⟨key, now, -, -, ⟨b, hb, h⟩ | ⟨hnone, h | ⟨hlt, h⟩⟩⟩ <;> rw [h]
  · exact hl
  · exact (Sql.Table.length_put_of_some hb _).trans_le hl
  · exact hroom now
  · exact (Sql.Table.length_put_of_none (get?_makeRoom hnone) _).trans_le hlt

/-! ### Runs -/

def machine (k : Key) : Budget.Machine BrowserRateLimiter Call ℚ where
  step l c := (acquire l c).2
  time := Call.time?
  granted l c := (acquire l c).1.1 && c.key? = some k

def account (k : Key) : Budget.Account (machine k) Sound k.2.2.capacity k.2.2.rate where
  level := level k
  rate_nonneg := k.2.2.rate_nonneg
  inv_step _ _ hl := sound_acquire hl
  nonneg _ _ hl := level_nonneg hl
  le_capacity _ _ hl := level_le_capacity hl
  rise _ _ _ hl h := level_le hl h
  pay _ _ _ hl h := (level_acquire hl h).le
  untimed l c t h := by
    rcases acquire_cases l c with ⟨-, heq⟩ | ⟨key, now, -, hnow, -⟩
    · exact congrArg (fun r => level k r.2 t) heq
    · exact absurd (hnow.symm.trans h) nofun

def afterCalls (l : BrowserRateLimiter) (calls : List Call) : BrowserRateLimiter :=
  calls.foldl (fun l c => (acquire l c).2) l

theorem bounded_afterCalls (hl : Bounded l) (calls : List Call) :
    Bounded (afterCalls l calls) ∧ (afterCalls l calls).maxBuckets = l.maxBuckets := by
  induction calls generalizing l with
  | nil => exact ⟨hl, rfl⟩
  | cons c calls ih =>
    obtain ⟨hbound, hmax⟩ := ih (bounded_acquire hl)
    exact ⟨hbound, hmax.trans maxBuckets_acquire⟩

/-- The grants for a key in an interval of times. -/
def grants (l : BrowserRateLimiter) (k : Key) (s t : ℚ) (calls : List Call) : ℕ :=
  Budget.grantsIn (machine k) s t l calls

/-- **The grants for a key in an interval are at most its capacity and what the interval refills,
and the buckets are never more than their bound.** -/
theorem grants_le (maxBuckets : ℕ) (one_le : 1 ≤ maxBuckets) (le_limit : maxBuckets ≤ 4096)
    (calls : List Call) (hclock : (calls.filterMap Call.time?).Pairwise (· ≤ ·)) :
    (∀ (k : Key) (s t : ℚ), s ≤ t →
      (grants (.new maxBuckets one_le le_limit) k s t calls : ℚ) ≤
        k.2.2.capacity + k.2.2.rate * (t - s)) ∧
      ∀ n, (afterCalls (.new maxBuckets one_le le_limit) (calls.take n)).buckets.rows.length ≤
        maxBuckets := by
  have hsound : Sound (.new maxBuckets one_le le_limit) := nofun
  constructor
  · intro k s t hst
    exact (account k).grantsIn_le hsound hclock hst
  · intro n
    obtain ⟨hbound, hmax⟩ :=
      bounded_afterCalls (l := .new maxBuckets one_le le_limit) (Nat.zero_le _)
      (calls.take n)
    exact hbound.trans hmax.le

def messageCall (now : ℚ) : Call :=
  { ownerGithubId := some "7", threadId := some "t", action := "messages", clock := some now }

theorem grants_le_two : (grants (.new 1 le_rfl (by decide)) ("7", "t", .messages) 0 1
    [messageCall 0, messageCall 1] : ℚ) ≤ 30 + 30 / 60 * (1 - 0) := by
  have hclock : ([messageCall 0, messageCall 1].filterMap Call.time?).Pairwise (· ≤ ·) := by
    have htimes : [messageCall 0, messageCall 1].filterMap Call.time? = [0, 1] := by decide +kernel
    rw [htimes]
    decide
  exact (grants_le 1 le_rfl (by decide) [messageCall 0, messageCall 1] hclock).1
    ("7", "t", .messages) 0 1 (by decide)

end RateLimit
