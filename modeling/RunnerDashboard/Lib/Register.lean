import Mathlib.Order.Lattice

/-!
# Versioned registers with final values

A register holds one value or none.  It accepts a value of a higher version, except
that a final value is only replaced by a final one.  A value that is not accepted is
*covered*, and stays covered whatever is accepted later; so a register that was offered
every value of a set ends with the one of the highest version, if that one is final or
none of them is.

## Main definitions

* `Accepts version final held x` — the register would take `x`.
* `Move version final held held'` — the register keeps its value, or takes one it accepts.

## Main results

* `not_accepts_iff` — what covers a value.
* `Move.covered` — a covered value stays covered.
* `eq_of_covered` — a covered value of the highest version is the one held.
-/

namespace Register

variable {α V : Type*} [LinearOrder V] (version : α → V) (final : α → Prop)

/-- The register would take `x`. -/
def Accepts (held : Option α) (x : α) : Prop :=
  ∀ y, held = some y → version y < version x ∧ (final y → final x)

/-- The register keeps its value, or takes one it accepts. -/
def Move (held held' : Option α) : Prop :=
  held' = held ∨ ∃ x, Accepts version final held x ∧ held' = some x

variable {version final} {held held' : Option α} {x y : α}

theorem accepts_none : Accepts version final none x := fun _ h => nomatch h

theorem accepts_some_iff :
    Accepts version final (some y) x ↔ version y < version x ∧ (final y → final x) := by
  constructor
  · intro h
    exact h y rfl
  · rintro h z hz
    rwa [← Option.some.inj hz]

/-- A value is covered by an equal or higher version, or by a final value it is not. -/
theorem not_accepts_iff :
    ¬ Accepts version final held x ↔
      ∃ y, held = some y ∧ (version x ≤ version y ∨ (final y ∧ ¬ final x)) := by
  cases held with
  | none => simp [accepts_none]
  | some y =>
    rw [accepts_some_iff]
    simp only [Option.some.injEq, exists_eq_left', not_and_or, not_lt, Classical.not_imp]

theorem not_accepts_self : ¬ Accepts version final (some x) x := fun h =>
  lt_irrefl _ (h x rfl).1

theorem Move.refl (held : Option α) : Move version final held held := .inl rfl

theorem Move.take (h : Accepts version final held x) : Move version final held (some x) :=
  .inr ⟨x, h, rfl⟩

/-- **A covered value stays covered.** -/
theorem Move.covered (h : Move version final held held') (hx : ¬ Accepts version final held x) :
    ¬ Accepts version final held' x := by
  rcases h with rfl | ⟨z, hz, rfl⟩
  · exact hx
  · obtain ⟨y, hy, hcover⟩ := not_accepts_iff.mp hx
    obtain ⟨hlt, hfinal⟩ := hz y hy
    refine not_accepts_iff.mpr ⟨z, rfl, ?_⟩
    rcases hcover with hle | ⟨hy, hnx⟩
    · exact .inl (hle.trans hlt.le)
    · exact .inr ⟨hfinal hy, hnx⟩

theorem Move.version_le (h : Move version final held held') (hy : held = some y) :
    ∃ z, held' = some z ∧ version y ≤ version z := by
  rcases h with rfl | ⟨z, hz, rfl⟩
  · exact ⟨y, hy, le_rfl⟩
  · exact ⟨z, rfl, (hz y hy).1.le⟩

/-- **The highest value wins.**  A register whose value is one of a set with distinct
versions, and that covers the highest value of the set, holds it, if it is final or none
of the set is. -/
theorem eq_of_covered {S : α → Prop} (hheld : ∀ y, held = some y → S y)
    (hinj : ∀ y, S y → version y = version x → y = x) (hmax : ∀ y, S y → version y ≤ version x)
    (hfinal : final x ∨ ∀ y, S y → ¬ final y) (hcovered : ¬ Accepts version final held x) :
    held = some x := by
  obtain ⟨y, hy, hcover⟩ := not_accepts_iff.mp hcovered
  have hS := hheld y hy
  rcases hcover with hle | ⟨hy', hnx⟩
  · rw [hy, hinj y hS (le_antisymm (hmax y hS) hle)]
  · rcases hfinal with hx | hnone
    · exact absurd hx hnx
    · exact absurd hy' (hnone y hS)

end Register
