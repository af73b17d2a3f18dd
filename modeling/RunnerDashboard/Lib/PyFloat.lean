import Mathlib.Algebra.Order.Ring.Rat

/-!
# Floating-point numbers

A number is finite, an infinity or no number.  Comparisons with `nan` are false.  The difference of
finite numbers is that of the rationals, rounded by some rule that keeps their order.

## Main definitions

* `PyFloat`, `PyFloat.le`, `PyFloat.lt` — numbers and their comparisons.
* `Rounding`, `Rounding.exact`, `PyFloat.sub`, `PyFloat.add` — differences and sums.
* `PyFloat.trunc`, `PyFloat.fixed` — the whole part, and the text with some digits after the point.

## Main results

* `PyFloat.le_trans` — the order.
* `PyFloat.le_sub_of_le` — **where less is taken away no less is left.**
* `PyFloat.le_of_le_sub` — what is left is positive, so less is taken away than there is.
-/

inductive PyFloat
  | nan
  | negInf
  | fin (q : ℚ)
  | posInf
  deriving DecidableEq

namespace PyFloat

/-- `a <= b`. -/
def le : PyFloat → PyFloat → Bool
  | nan, _ => false
  | _, nan => false
  | negInf, _ => true
  | _, posInf => true
  | fin p, fin q => p ≤ q
  | _, _ => false

/-- `a < b`. -/
def lt (a b : PyFloat) : Bool := le a b && !le b a

@[simp] theorem le_fin_fin (p q : ℚ) : le (fin p) (fin q) = decide (p ≤ q) := rfl

theorem le_trans {a b c : PyFloat} (hab : le a b) (hbc : le b c) : le a c := by
  cases a <;> cases b <;> cases c <;> simp_all [le]
  exact hab.trans hbc

end PyFloat

/-- How exact results become floating-point numbers. -/
structure Rounding where
  round : ℚ → PyFloat
  mono : ∀ p q, p ≤ q → (round p).le (round q)
  zero : round 0 = .fin 0

def Rounding.exact : Rounding := ⟨.fin, fun _ _ h => decide_eq_true h, rfl⟩

namespace PyFloat

variable (R : Rounding)

/-- `a - b`. -/
def sub : PyFloat → PyFloat → PyFloat
  | nan, _ => nan
  | _, nan => nan
  | negInf, negInf => nan
  | posInf, posInf => nan
  | negInf, _ => negInf
  | posInf, _ => posInf
  | _, negInf => posInf
  | _, posInf => negInf
  | fin p, fin q => R.round (p - q)

/-- `a + b`. -/
def add : PyFloat → PyFloat → PyFloat
  | nan, _ => nan
  | _, nan => nan
  | negInf, posInf => nan
  | posInf, negInf => nan
  | negInf, _ => negInf
  | _, negInf => negInf
  | posInf, _ => posInf
  | _, posInf => posInf
  | fin p, fin q => R.round (p + q)

/-- `int(a)`; `none` where it raises. -/
def trunc : PyFloat → Option ℤ
  | fin q => some (q.num.tdiv q.den)
  | _ => none

/-- The nearest whole number, and of two the even one. -/
def roundHalfEven (q : ℚ) : ℤ :=
  let low := q.floor
  let rest := q - low
  if rest < 1 / 2 then low
  else if 1 / 2 < rest then low + 1
  else if low % 2 = 0 then low else low + 1

/-- The digits of a number, with zeros in front. -/
def digits (count n : ℕ) : List Char :=
  (List.range count).map fun i => (n / 10 ^ (count - 1 - i) % 10).digitChar

/-- The text of a number with `count` digits after the point, as in `f"{a:.6f}"`. -/
def fixed (count : ℕ) : PyFloat → String
  | nan => "nan"
  | negInf => "-inf"
  | posInf => "inf"
  | fin q =>
    let n := (roundHalfEven (q * 10 ^ count)).natAbs
    (if q < 0 then "-" else "") ++ toString (n / 10 ^ count) ++ "." ++
      String.ofList (digits count (n % 10 ^ count))

variable {R}

/-- **Where less is taken away no less is left.** -/
theorem le_sub_of_le {v b c : PyFloat} {a : ℚ} (hbc : le b c) (h : le v (sub R (fin a) c)) :
    le v (sub R (fin a) b) := by
  cases b with
  | nan => cases hbc
  | negInf =>
    cases v with
    | nan => cases h
    | negInf => rfl
    | fin q => rfl
    | posInf => rfl
  | fin q =>
    cases c with
    | nan => cases hbc
    | negInf => cases hbc
    | fin r =>
      have hqr : q ≤ r := of_decide_eq_true hbc
      exact le_trans h (R.mono _ _ (sub_le_sub_left hqr a))
    | posInf =>
      cases v with
      | negInf =>
        have hround := R.mono (a - q) (a - q) le_rfl
        simp only [sub]
        cases hr : R.round (a - q) with
        | nan =>
          rw [hr] at hround
          cases hround
        | negInf => rfl
        | fin r => rfl
        | posInf => rfl
      | nan => cases h
      | fin r => cases h
      | posInf => cases h
  | posInf =>
    cases c with
    | nan => cases hbc
    | negInf => cases hbc
    | fin r => cases hbc
    | posInf => exact h

/-- What is left is positive, so less is taken away than there is. -/
theorem le_of_le_sub {v a : ℚ} {b : PyFloat} (hv : 0 < v)
    (h : le (fin v) (sub R (fin a) b)) : le b (fin a) := by
  cases b with
  | nan => cases h
  | negInf => rfl
  | posInf => cases h
  | fin q =>
    by_contra hlt
    have hlt : a ≤ q := le_of_not_ge fun hle => hlt (decide_eq_true hle)
    have hround := R.mono (a - q) 0 (sub_nonpos.mpr hlt)
    rw [R.zero] at hround
    have hle : v ≤ 0 := of_decide_eq_true (le_trans h hround)
    exact absurd hv (not_lt.mpr hle)

end PyFloat
