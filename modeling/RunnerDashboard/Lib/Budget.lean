import Mathlib.Algebra.Order.Field.Basic
import Mathlib.Tactic.Linarith
import Mathlib.Tactic.Ring

/-!
# Budgets that refill with time

A level that rises at a bounded rate and pays one unit for each event that is granted.  However the
events come, as long as their times do not decrease, the grants in an interval are at most the
capacity and what the interval refills.

## Main definitions

* `Budget.Account` — a level of a machine that pays for its grants.
* `Budget.grantsIn` — the grants of a run in an interval of times.

## Main results

* `Budget.Account.grantsIn_le` — **the grants in an interval are at most the capacity and what the
  interval refills**.
-/

namespace Budget

variable {σ ε K : Type*} [LinearOrder K]

/-- The machine: its steps, the times of the events that have one, and which are granted. -/
structure Machine (σ ε K : Type*) where
  step : σ → ε → σ
  time : ε → Option K
  granted : σ → ε → Bool

def grantsIn (m : Machine σ ε K) (a b : K) : σ → List ε → ℕ
  | _, [] => 0
  | s, e :: es =>
    (if ((m.time e).any fun t => a ≤ t && t ≤ b) && m.granted s e then 1 else 0) +
      grantsIn m a b (m.step s e) es

def Monotone (m : Machine σ ε K) (es : List ε) : Prop :=
  (es.filterMap m.time).Pairwise (· ≤ ·)

/-- A level that pays for what the machine grants. -/
structure Account [Field K] (m : Machine σ ε K) (inv : σ → Prop) (capacity rate : K) where
  /-- What could be granted at a time at once. -/
  level : σ → K → K
  rate_nonneg : 0 ≤ rate
  inv_step : ∀ s e, inv s → inv (m.step s e)
  nonneg : ∀ s t, inv s → 0 ≤ level s t
  le_capacity : ∀ s t, inv s → level s t ≤ capacity
  rise : ∀ s t t', inv s → t ≤ t' → level s t' ≤ level s t + rate * (t' - t)
  pay : ∀ s e t, inv s → m.time e = some t →
    level (m.step s e) t + (if m.granted s e then 1 else 0) ≤ level s t
  untimed : ∀ s e t, m.time e = none → level (m.step s e) t = level s t

variable {m : Machine σ ε K} {a b c : K} {s : σ} {e : ε} {es : List ε}

theorem grantsIn_cons : grantsIn m a b s (e :: es) =
    (if ((m.time e).any fun t => a ≤ t && t ≤ b) && m.granted s e then 1 else 0) +
      grantsIn m a b (m.step s e) es := rfl

theorem grantsIn_eq_zero (h : ∀ e ∈ es, ∀ t, m.time e = some t → b < t) :
    grantsIn m a b s es = 0 := by
  induction es generalizing s with
  | nil => rfl
  | cons e es ih =>
    have hout : ((m.time e).any fun t => a ≤ t && t ≤ b) = false := by
      rw [Option.any_eq_false]
      intro t ht
      have hlt := h e List.mem_cons_self t ht
      simp [hlt]
    rw [grantsIn_cons, hout, Bool.false_and, if_neg Bool.false_ne_true, Nat.zero_add]
    exact ih fun e he => h e (List.mem_cons_of_mem _ he)

theorem Monotone.tail (h : Monotone m (e :: es)) : Monotone m es := by
  unfold Monotone at h ⊢
  cases ht : m.time e with
  | none => rwa [List.filterMap_cons_none ht] at h
  | some t =>
    rw [List.filterMap_cons_some ht] at h
    exact (List.pairwise_cons.mp h).2

theorem Monotone.le (h : Monotone m (e :: es)) {t : K} (ht : m.time e = some t) :
    ∀ e' ∈ es, ∀ t', m.time e' = some t' → t ≤ t' := by
  intro e' he' t' ht'
  unfold Monotone at h
  rw [List.filterMap_cons_some ht] at h
  exact (List.pairwise_cons.mp h).1 t' (List.mem_filterMap.mpr ⟨e', he', ht'⟩)

/-! ### The bound -/

namespace Account

variable [Field K] [IsStrictOrderedRing K] {inv : σ → Prop} {capacity rate : K}
  (acc : Account m inv capacity rate)

include acc

theorem refill_nonneg (h : a ≤ b) : 0 ≤ rate * (b - a) :=
  mul_nonneg acc.rate_nonneg (sub_nonneg.mpr h)

theorem count_le (hinv : inv s) {t : K} (ht : m.time e = some t) :
    ((if ((m.time e).any fun t => a ≤ t && t ≤ b) && m.granted s e then 1 else 0 : ℕ) : K) ≤
      acc.level s t - acc.level (m.step s e) t := by
  have hpay := acc.pay s e t hinv ht
  by_cases hg : m.granted s e = true
  · rw [if_pos hg] at hpay
    split_ifs <;> push_cast <;> linarith
  · rw [if_neg hg] at hpay
    rw [Bool.not_eq_true] at hg
    rw [hg, Bool.and_false, if_neg Bool.false_ne_true]
    push_cast
    linarith

/-- **From some time on, the grants up to `b` are paid by the level then and the refill.** -/
theorem grantsIn_le_level (hinv : inv s) (hmono : Monotone m es)
    (hfrom : ∀ e ∈ es, ∀ t, m.time e = some t → c ≤ t) (hcb : c ≤ b) :
    (grantsIn m a b s es : K) ≤ acc.level s c + rate * (b - c) := by
  induction es generalizing s c with
  | nil =>
    have hlevel := acc.nonneg s c hinv
    have hrefill := acc.refill_nonneg hcb
    rw [grantsIn]
    push_cast
    linarith
  | cons e es ih =>
    have hrest := fun e' he' => hfrom e' (List.mem_cons_of_mem e he')
    cases ht : m.time e with
    | none =>
      have hstep := acc.untimed s e c ht
      have hcount := ih (acc.inv_step s e hinv) hmono.tail hrest hcb
      rw [grantsIn_cons, ht]
      rw [hstep] at hcount
      push_cast
      simpa using hcount
    | some t =>
      have hct := hfrom e List.mem_cons_self t ht
      rcases le_or_gt t b with htb | hbt
      · -- the event is paid at its time, and the level there by the one before
        have hcount := ih (acc.inv_step s e hinv) hmono.tail (hmono.le ht) htb
        have hone := acc.count_le (a := a) (b := b) hinv ht
        have hrise := acc.rise s c t hinv hct
        have hsplit : rate * (t - c) + rate * (b - t) = rate * (b - c) := by ring
        rw [grantsIn_cons, Nat.cast_add]
        linarith
      · -- the rest is after the interval
        have hzero : grantsIn m a b s (e :: es) = 0 := by
          apply grantsIn_eq_zero
          intro e' he' t' ht'
          rcases List.mem_cons.mp he' with rfl | he'
          · rw [ht] at ht'
            exact Option.some.inj ht' ▸ hbt
          · exact hbt.trans_le (hmono.le ht e' he' t' ht')
        have hlevel := acc.nonneg s c hinv
        have hrefill := acc.refill_nonneg hcb
        rw [hzero]
        push_cast
        linarith

/-- **The grants in an interval are at most the capacity and what the interval refills.** -/
theorem grantsIn_le (hinv : inv s) (hmono : Monotone m es) (hab : a ≤ b) :
    (grantsIn m a b s es : K) ≤ capacity + rate * (b - a) := by
  induction es generalizing s with
  | nil =>
    have hlevel := (acc.nonneg s a hinv).trans (acc.le_capacity s a hinv)
    have hrefill := acc.refill_nonneg hab
    rw [grantsIn]
    push_cast
    linarith
  | cons e es ih =>
    have hcount := ih (acc.inv_step s e hinv) hmono.tail
    cases ht : m.time e with
    | none =>
      rw [grantsIn_cons, ht]
      simpa using hcount
    | some t =>
      rcases lt_or_ge t a with hlt | hge
      · -- before the interval
        rw [grantsIn_cons, ht]
        simpa [hlt.not_ge] using hcount
      · have hfrom : ∀ e' ∈ e :: es, ∀ t', m.time e' = some t' → a ≤ t' := by
          intro e' he' t' ht'
          rcases List.mem_cons.mp he' with rfl | he'
          · rw [ht] at ht'
            exact Option.some.inj ht' ▸ hge
          · exact hge.trans (hmono.le ht e' he' t' ht')
        have hlevel := acc.grantsIn_le_level (a := a) hinv hmono hfrom hab
        have hcap := acc.le_capacity s a hinv
        linarith

end Account

end Budget
