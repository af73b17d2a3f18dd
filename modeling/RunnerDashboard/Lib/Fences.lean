import Mathlib.Data.List.Basic

/-!
# The first marker outside of fences

Lines are read one after the other.  Some of them open a fence, some close the one that is open, and
a marker counts only where none is open.  How a line is read is left open.

## Main definitions

* `Fences.Reading` — how a line is read.
* `Fences.Reading.after` — the fence after a line.
* `Fences.Reading.first` — the place of the first marker that counts.

## Main results

* `Fences.Reading.first_spec` — there is a marker at that place.
-/

namespace Fences

variable {L F : Type*}

structure Reading (L F : Type*) where
  marker : L → Bool
  opens : L → Option F
  closes : F → L → Bool

namespace Reading

variable (R : Reading L F)

/-- The fence after a line. -/
def after : Option F → L → Option F
  | none, l => R.opens l
  | some f, l => if R.closes f l then none else some f

/-- The place of the first marker outside of fences. -/
def first : Option F → List L → Option ℕ
  | _, [] => none
  | fence, l :: ls =>
    if fence.isNone && R.marker l then some 0 else (first (R.after fence l) ls).map (· + 1)

variable {R} {fence : Option F} {l : L} {ls : List L} {n : ℕ}

@[simp] theorem first_nil : R.first fence [] = none := rfl

theorem first_cons_of_marker (hfence : fence = none) (h : R.marker l = true) :
    R.first fence (l :: ls) = some 0 := by
  simp [first, hfence, h]

theorem first_cons_of_not (h : ¬ (fence = none ∧ R.marker l = true)) :
    R.first fence (l :: ls) = (R.first (R.after fence l) ls).map (· + 1) := by
  rw [first, if_neg]
  simpa using h

/-- **There is a marker at the place that is found.** -/
theorem first_spec (h : R.first fence ls = some n) :
    ∃ before l after, ls = before ++ l :: after ∧ before.length = n ∧ R.marker l = true := by
  induction ls generalizing fence n with
  | nil => cases h
  | cons l ls ih =>
    by_cases hl : fence = none ∧ R.marker l = true
    · rw [first_cons_of_marker hl.1 hl.2] at h
      exact ⟨[], l, ls, rfl, Option.some.inj h, hl.2⟩
    · rw [first_cons_of_not hl] at h
      obtain ⟨m, hm, rfl⟩ := Option.map_eq_some_iff.mp h
      obtain ⟨before, l', after, rfl, rfl, hmarker⟩ := ih hm
      exact ⟨l :: before, l', after, rfl, rfl, hmarker⟩

end Reading

end Fences
