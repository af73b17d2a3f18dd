import Mathlib.Data.List.Lex
import Mathlib.Data.Char
import Mathlib.Order.Basic
import Mathlib.Tactic.IntervalCases

/-!
# ISO timestamps as texts

The text of an instant is compared character by character.  An instant is a number of microseconds
since the first year began; its text is `datetime.isoformat()` in UTC with `Z` for the offset,
which leaves the fraction out when it is zero.

## Main definitions

* `padDigits` — a number with leading zeros.
* `Encodes` — texts of one length, ordered like the numbers below a bound.
* `locate` — a number in consecutive intervals.
* `dateText`, `secondText`, `isoText` — the text of a day, of a second and of an instant.

## Main results

* `Encodes.pair`, `Encodes.locate` — texts put together are ordered like the numbers.
* `encodes_secondText` — the texts of whole seconds are ordered like the seconds.
* `isoText_lt_iff` — **texts of instants are ordered like the instants, unless both are in one
  second and only one of them is whole**.
-/

namespace IsoTime

/-! ### Texts that are ordered like numbers -/

/-- Two texts of one length, each followed by another. -/
theorem append_lt_append_iff {xs ys us vs : List Char} (h : xs.length = ys.length) :
    xs ++ us < ys ++ vs ↔ xs < ys ∨ xs = ys ∧ us < vs := by
  induction xs generalizing ys with
  | nil =>
    obtain rfl := List.length_eq_zero_iff.mp h.symm
    simp
  | cons x xs ih =>
    cases ys with
    | nil => cases h
    | cons y ys =>
      rw [List.cons_append, List.cons_append, List.cons_lt_cons_iff, List.cons_lt_cons_iff,
        ih (Nat.succ.inj h), List.cons.injEq]
      tauto

theorem digitChar_lt : ∀ a < 10, ∀ b < 10, a < b → Nat.digitChar a < Nat.digitChar b := by
  decide

/-- The last `w` digits, with leading zeros. -/
def padDigits : ℕ → ℕ → List Char
  | 0, _ => []
  | w + 1, n => Nat.digitChar (n / 10 ^ w) :: padDigits w (n % 10 ^ w)

/-- The texts of the numbers below `N` have `w` characters and are ordered like the numbers. -/
structure Encodes (f : ℕ → List Char) (N w : ℕ) : Prop where
  length : ∀ n < N, (f n).length = w
  lt : ∀ n m, n < m → m < N → f n < f m

variable {f g : ℕ → List Char} {N M w v : ℕ}

theorem Encodes.mono (h : Encodes f N w) (hM : M ≤ N) : Encodes f M w where
  length n hn := h.length n (by omega)
  lt n m hnm hm := h.lt n m hnm (by omega)

theorem length_padDigits (w n : ℕ) : (padDigits w n).length = w := by
  induction w generalizing n with
  | zero => rfl
  | succ w ih => exact congrArg Nat.succ (ih _)

theorem encodes_padDigits (w : ℕ) : Encodes (padDigits w) (10 ^ w) w := by
  refine ⟨fun n _ => length_padDigits w n, ?_⟩
  induction w with
  | zero =>
    intro n m hnm hm
    omega
  | succ w ih =>
    intro n m hnm hm
    have hpos : 0 < 10 ^ w := by positivity
    have hdigit : ∀ k < 10 ^ (w + 1), k / 10 ^ w < 10 := by
      intro k hk
      rw [Nat.div_lt_iff_lt_mul hpos, mul_comm, ← pow_succ]
      exact hk
    have hn := Nat.div_add_mod n (10 ^ w)
    have hm' := Nat.div_add_mod m (10 ^ w)
    refine List.cons_lt_cons_iff.mpr ?_
    rcases Nat.lt_or_ge (n / 10 ^ w) (m / 10 ^ w) with hlt | hge
    · exact .inl (digitChar_lt _ (hdigit n (by omega)) _ (hdigit m hm) hlt)
    · have heq : n / 10 ^ w = m / 10 ^ w :=
        le_antisymm (Nat.div_le_div_right hnm.le) hge
      rw [heq] at hn ⊢
      exact .inr ⟨rfl, ih _ _ (by omega) (Nat.mod_lt _ hpos)⟩

/-- **Two texts and a separator**: the quotient, then the remainder. -/
theorem Encodes.pair (hf : Encodes f N w) (hg : Encodes g M v) (hM : 0 < M) (sep : List Char) :
    Encodes (fun n => f (n / M) ++ (sep ++ g (n % M))) (N * M) (w + (sep.length + v)) := by
  have hquot : ∀ n < N * M, n / M < N := fun n hn => (Nat.div_lt_iff_lt_mul hM).mpr hn
  refine ⟨fun n hn => ?_, fun n m hnm hm => ?_⟩
  · rw [List.length_append, List.length_append, hf.length _ (hquot n hn),
      hg.length _ (Nat.mod_lt _ hM)]
  · have hn' := Nat.div_add_mod n M
    have hm' := Nat.div_add_mod m M
    have hlen : (f (n / M)).length = (f (m / M)).length := by
      rw [hf.length _ (hquot n (by omega)), hf.length _ (hquot m hm)]
    rw [append_lt_append_iff hlen]
    rcases Nat.lt_or_ge (n / M) (m / M) with hlt | hge
    · exact .inl (hf.lt _ _ hlt (hquot m hm))
    · have heq : n / M = m / M := le_antisymm (Nat.div_le_div_right hnm.le) hge
      rw [heq] at hn' ⊢
      exact .inr ⟨rfl, List.append_left_lt (hg.lt _ _ (by omega) (Nat.mod_lt _ hM))⟩

/-! ### Intervals of different lengths -/

/-- The interval of `n` and its place there; the intervals `i, i + 1, …` follow each other. -/
def locate (lengths : ℕ → ℕ) : ℕ → ℕ → ℕ → ℕ × ℕ
  | 0, i, n => (i, n)
  | k + 1, i, n => if n < lengths i then (i, n) else locate lengths k (i + 1) (n - lengths i)

/-- The length of `k` intervals. -/
def total (lengths : ℕ → ℕ) : ℕ → ℕ → ℕ
  | 0, _ => 0
  | k + 1, i => lengths i + total lengths k (i + 1)

variable {lengths : ℕ → ℕ} {k i n m : ℕ}

theorem locate_bounds (h : n < total lengths k i) :
    i ≤ (locate lengths k i n).1 ∧ (locate lengths k i n).1 < i + k ∧
      (locate lengths k i n).2 < lengths (locate lengths k i n).1 := by
  induction k generalizing i n with
  | zero => exact absurd h (Nat.not_lt_zero n)
  | succ k ih =>
    unfold total at h
    unfold locate
    split_ifs with hn
    · exact ⟨le_rfl, by omega, hn⟩
    · obtain ⟨hlow, hhigh, hplace⟩ := ih (i := i + 1) (n := n - lengths i) (by omega)
      exact ⟨by omega, by omega, hplace⟩

/-- **A larger number is in a later interval, or at a later place.** -/
theorem locate_lt (hnm : n < m) (hm : m < total lengths k i) :
    (locate lengths k i n).1 < (locate lengths k i m).1 ∨
      (locate lengths k i n).1 = (locate lengths k i m).1 ∧
        (locate lengths k i n).2 < (locate lengths k i m).2 := by
  induction k generalizing i n m with
  | zero => exact absurd hm (Nat.not_lt_zero m)
  | succ k ih =>
    have hlater : ¬ m < lengths i → i + 1 ≤ (locate lengths k (i + 1) (m - lengths i)).1 :=
      fun hge => (locate_bounds (by unfold total at hm; omega)).1
    unfold total at hm
    unfold locate
    split_ifs with hn hm' hm'
    · exact .inr ⟨rfl, hnm⟩
    · exact .inl (by have := hlater hm'; dsimp only; omega)
    · omega
    · exact ih (by omega) (by omega)

/-- **The text of the interval, a separator and the text of the place.** -/
theorem Encodes.locate {h : ℕ → ℕ → List Char} (hf : Encodes f N w) (hN : i + k ≤ N)
    (hg : ∀ j, Encodes (h j) (lengths j) v) (sep : List Char) :
    Encodes (fun n => f (locate lengths k i n).1 ++
      (sep ++ h (locate lengths k i n).1 (locate lengths k i n).2)) (total lengths k i)
      (w + (sep.length + v)) := by
  refine ⟨fun n hn => ?_, fun n m hnm hm => ?_⟩
  · obtain ⟨-, hhigh, hplace⟩ := locate_bounds hn
    rw [List.length_append, List.length_append, hf.length _ (by omega), (hg _).length _ hplace]
  · obtain ⟨-, hn, -⟩ := locate_bounds (show n < total lengths k i by omega)
    obtain ⟨-, hhigh, hplace⟩ := locate_bounds hm
    rw [append_lt_append_iff (by rw [hf.length _ (by omega), hf.length _ (by omega)])]
    rcases locate_lt hnm hm with hlt | ⟨heq, hlt⟩
    · exact .inl (hf.lt _ _ hlt (by omega))
    · rw [heq]
      exact .inr ⟨rfl, List.append_left_lt ((hg _).lt _ _ hlt hplace)⟩

/-! ### The calendar -/

def isLeap (year : ℕ) : Bool := year % 4 = 0 ∧ (year % 100 ≠ 0 ∨ year % 400 = 0)

def yearLength (year : ℕ) : ℕ := if isLeap year then 366 else 365

def monthLength (year month : ℕ) : ℕ :=
  if month = 2 then if isLeap year then 29 else 28
  else if month = 4 ∨ month = 6 ∨ month = 9 ∨ month = 11 then 30
  else 31

def daysBefore (year : ℕ) : ℕ :=
  (year - 1) * 365 + (year - 1) / 4 - (year - 1) / 100 + (year - 1) / 400

def maxDays : ℕ := 3652059

theorem total_months (year : ℕ) : total (monthLength year) 12 1 = yearLength year := by
  unfold yearLength
  cases hleap : isLeap year with
  | true => simp [total, monthLength, hleap]
  | false => simp [total, monthLength, hleap]

theorem succ_div_eq (k d : ℕ) :
    (k + 1) / d = k / d + if (k + 1) % d = 0 then 1 else 0 := by
  rw [Nat.succ_div]
  exact congrArg (k / d + ·) (if_congr Nat.dvd_iff_mod_eq_zero rfl rfl)

theorem daysBefore_succ (hi : 1 ≤ i) : daysBefore (i + 1) = daysBefore i + yearLength i := by
  obtain ⟨k, rfl⟩ : ∃ k, i = k + 1 := ⟨i - 1, by omega⟩
  have hle : k / 100 ≤ k / 4 := Nat.div_le_div_left (by decide) (by decide)
  -- a year that 400 divides is divided by 100, and one that 100 divides by 4
  have h400 : (k + 1) % 400 = 0 → (k + 1) % 100 = 0 := by omega
  have h100 : (k + 1) % 100 = 0 → (k + 1) % 4 = 0 := by omega
  unfold daysBefore yearLength isLeap
  rw [Nat.add_sub_cancel, Nat.add_sub_cancel, succ_div_eq k 4,
    succ_div_eq k 100, succ_div_eq k 400]
  generalize k / 4 = a at hle ⊢
  generalize k / 100 = b at hle ⊢
  generalize k / 400 = c
  generalize (k + 1) % 4 = u at h100 ⊢
  generalize (k + 1) % 100 = v at h400 h100 ⊢
  generalize (k + 1) % 400 = x at h400 ⊢
  split_ifs with hu hv hx hleap <;> simp_all <;> omega

theorem total_years (hi : 1 ≤ i) (k : ℕ) :
    daysBefore i + total yearLength k i = daysBefore (i + k) := by
  induction k generalizing i with
  | zero => rfl
  | succ k ih =>
    have hnext := ih (show 1 ≤ i + 1 by omega)
    rw [daysBefore_succ hi] at hnext
    unfold total
    rw [show i + (k + 1) = i + 1 + k by omega]
    omega

theorem total_maxDays : total yearLength 9999 1 = maxDays := by
  have hstart : daysBefore 1 = 0 := by decide
  have hend : daysBefore (1 + 9999) = maxDays := by decide
  have hall := total_years (le_refl 1) 9999
  generalize total yearLength 9999 1 = days at hall ⊢
  omega

/-! ### The texts -/

def monthText (year n : ℕ) : List Char :=
  padDigits 2 (locate (monthLength year) 12 1 n).1 ++
    (['-'] ++ padDigits 2 ((locate (monthLength year) 12 1 n).2 + 1))

def dateText (n : ℕ) : List Char :=
  padDigits 4 (locate yearLength 9999 1 n).1 ++
    (['-'] ++ monthText (locate yearLength 9999 1 n).1 (locate yearLength 9999 1 n).2)

def minuteText (n : ℕ) : List Char := padDigits 2 (n / 60) ++ ([':'] ++ padDigits 2 (n % 60))

/-- The time of a second of the day. -/
def clockText (n : ℕ) : List Char := minuteText (n / 60) ++ ([':'] ++ padDigits 2 (n % 60))

def secondText (n : ℕ) : List Char := dateText (n / 86400) ++ (['T'] ++ clockText (n % 86400))

def fractionText (micros : ℕ) : List Char :=
  if micros = 0 then ['Z'] else '.' :: (padDigits 6 micros ++ ['Z'])

/-- `isoformat().replace("+00:00", "Z")`. -/
def isoText (t : ℕ) : List Char := secondText (t / 1000000) ++ fractionText (t % 1000000)

theorem monthLength_le (year month : ℕ) : monthLength year month ≤ 31 := by
  unfold monthLength
  split_ifs <;> omega

theorem encodes_dayOfMonth (N : ℕ) (hN : N ≤ 31) : Encodes (fun n => padDigits 2 (n + 1)) N 2 where
  length n _ := length_padDigits 2 _
  lt n m hnm hm := (encodes_padDigits 2).lt _ _ (by omega) (by omega)

theorem encodes_monthText (year : ℕ) : Encodes (monthText year) (yearLength year) 5 := by
  rw [← total_months]
  exact ((encodes_padDigits 2).mono (show 13 ≤ 10 ^ 2 by decide)).locate (le_refl 13)
    (fun month => encodes_dayOfMonth _ (monthLength_le year month)) ['-']

theorem encodes_dateText : Encodes dateText maxDays 10 := by
  rw [← total_maxDays]
  exact (encodes_padDigits 4).locate (h := monthText) (by decide) encodes_monthText ['-']

theorem encodes_minuteText : Encodes minuteText (24 * 60) 5 :=
  ((encodes_padDigits 2).mono (show 24 ≤ 10 ^ 2 by decide)).pair
    ((encodes_padDigits 2).mono (show 60 ≤ 10 ^ 2 by decide)) (by decide) [':']

theorem encodes_clockText : Encodes clockText 86400 8 :=
  encodes_minuteText.pair ((encodes_padDigits 2).mono (show 60 ≤ 10 ^ 2 by decide)) (by decide)
    [':']

/-- **The texts of whole seconds are ordered like the seconds.** -/
theorem encodes_secondText : Encodes secondText (maxDays * 86400) 19 :=
  encodes_dateText.pair encodes_clockText (by decide) ['T']

/-! ### How the texts compare -/

/-- The first instant whose year has five digits. -/
def maxInstant : ℕ := maxDays * 86400 * 1000000

/-- Two instants of one second, of which only one is whole. -/
def OneWhole (a b : ℕ) : Prop :=
  a / 1000000 = b / 1000000 ∧ ¬ (a % 1000000 = 0 ↔ b % 1000000 = 0)

instance (a b : ℕ) : Decidable (OneWhole a b) := inferInstanceAs (Decidable (_ ∧ _))

theorem OneWhole.symm {a b : ℕ} (h : OneWhole a b) : OneWhole b a :=
  ⟨h.1.symm, fun hiff => h.2 hiff.symm⟩

variable {a b : ℕ}

theorem Encodes.lt_iff (h : Encodes f N w) (hn : n < N) (hm : m < N) : f n < f m ↔ n < m := by
  constructor
  · intro hlt
    rcases lt_trichotomy n m with hnm | rfl | hmn
    · exact hnm
    · exact absurd hlt (List.lt_irrefl _)
    · exact absurd (h.lt m n hmn hn) (List.lt_asymm hlt)
  · exact fun hnm => h.lt n m hnm hm

/-- The fraction of a whole second is the last of its second. -/
theorem fractionText_lt_iff (ha : a < 1000000) (hb : b < 1000000) :
    fractionText a < fractionText b ↔ a ≠ 0 ∧ (b = 0 ∨ a < b) := by
  unfold fractionText
  by_cases ha0 : a = 0
  · rw [if_pos ha0]
    by_cases hb0 : b = 0
    · rw [if_pos hb0]
      exact iff_of_false (List.lt_irrefl _) fun h => h.1 ha0
    · have hlast : ¬ 'Z' < '.' ∧ 'Z' ≠ '.' := by decide
      rw [if_neg hb0, List.cons_lt_cons_iff]
      exact iff_of_false (fun h => h.elim hlast.1 fun h => hlast.2 h.1) fun h => h.1 ha0
  · rw [if_neg ha0]
    by_cases hb0 : b = 0
    · rw [if_pos hb0, List.cons_lt_cons_iff]
      exact iff_of_true (.inl (by decide)) ⟨ha0, .inl hb0⟩
    · rw [if_neg hb0, List.cons_lt_cons_self, append_lt_append_iff
        (by rw [length_padDigits, length_padDigits]), (encodes_padDigits 6).lt_iff ha hb]
      constructor
      · rintro (hlt | ⟨-, hlt⟩)
        · exact ⟨ha0, .inr hlt⟩
        · exact absurd hlt (List.lt_irrefl _)
      · rintro ⟨-, hb0' | hlt⟩
        · exact absurd hb0' hb0
        · exact .inl hlt

/-- **The texts of two instants are ordered like the instants**, but the other way round if both
are in one second and only one of them is whole. -/
theorem isoText_lt_iff (ha : a < maxInstant) (hb : b < maxInstant) :
    isoText a < isoText b ↔ if OneWhole a b then b < a else a < b := by
  have hsec : ∀ t < maxInstant, t / 1000000 < maxDays * 86400 := fun t ht =>
    (Nat.div_lt_iff_lt_mul (by decide)).mpr ht
  have hlen : (secondText (a / 1000000)).length = (secondText (b / 1000000)).length := by
    rw [encodes_secondText.length _ (hsec a ha), encodes_secondText.length _ (hsec b hb)]
  unfold isoText
  rw [append_lt_append_iff hlen, encodes_secondText.lt_iff (hsec a ha) (hsec b hb),
    fractionText_lt_iff (Nat.mod_lt _ (by decide)) (Nat.mod_lt _ (by decide))]
  by_cases heq : a / 1000000 = b / 1000000
  · rw [heq]
    split_ifs with hwhole
    · have hmod := hwhole.2
      simp only [lt_irrefl, false_or, true_and]
      omega
    · have hmod : a % 1000000 = 0 ↔ b % 1000000 = 0 := by
        by_contra hne
        exact hwhole ⟨heq, hne⟩
      simp only [lt_irrefl, false_or, true_and]
      omega
  · have hne : secondText (a / 1000000) ≠ secondText (b / 1000000) := by
      intro htext
      rcases Nat.lt_or_gt_of_ne heq with hlt | hlt
      · exact List.lt_irrefl _ (htext ▸ encodes_secondText.lt _ _ hlt (hsec b hb))
      · exact List.lt_irrefl _ (htext ▸ encodes_secondText.lt _ _ hlt (hsec a ha))
    rw [if_neg fun hwhole => heq hwhole.1]
    constructor
    · rintro (hlt | ⟨htext, -⟩)
      · omega
      · exact absurd htext hne
    · intro hlt
      exact .inl (by omega)

example : isoText 63920966400500000 = "2026-07-30T00:00:00.500000Z".toList ∧
    isoText 63920966400500000 < isoText 63920966400000000 := by decide +kernel

theorem isoText_lt_iff_lt_iff (ha : a < maxInstant) (hb : b < maxInstant) :
    (isoText a < isoText b ↔ a < b) ↔ ¬ OneWhole a b := by
  rw [isoText_lt_iff ha hb]
  split_ifs with hwhole
  · obtain ⟨hsec, hmod⟩ := hwhole
    refine iff_of_false (fun hiff => ?_) (not_not_intro ⟨hsec, hmod⟩)
    have hne : a ≠ b := by
      rintro rfl
      exact hmod Iff.rfl
    omega
  · exact iff_of_true Iff.rfl hwhole

theorem isoText_midnight (ha : a < maxInstant) :
    isoText (a / 86400000000 * 86400000000) =
      (isoText a).take 10 ++ "T00:00:00Z".toList := by
  have hday : a / 86400000000 < maxDays := (Nat.div_lt_iff_lt_mul (by decide)).mpr ha
  have hsecond : a / 86400000000 * 86400000000 / 1000000 = a / 86400000000 * 86400 := by omega
  have hdays : a / 1000000 / 86400 = a / 86400000000 := by omega
  unfold isoText secondText
  rw [hsecond, Nat.mul_div_cancel _ (by decide), Nat.mul_mod_left, hdays,
    show a / 86400000000 * 86400000000 % 1000000 = 0 by omega]
  simp only [List.append_assoc]
  rw [List.take_left' (encodes_dateText.length _ hday)]
  rfl

end IsoTime
