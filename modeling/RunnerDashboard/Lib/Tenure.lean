import Mathlib.Order.Basic

/-!
# Tenures

A seat has an epoch, and a holder or none.  It may be vacated at its epoch, and is taken
again only under a higher one.  The seats in the order in which they may follow each other
form a partial order, so along any run of such seats an epoch belongs to one holder, and to
one stretch of the run.

## Main definitions

* `Seat E H` — an epoch and a holder, ordered by `s ≤ t`: `t` may follow `s`.

## Main results

* `Seat.eq_of_le` — a held seat is the only one of its epoch that may precede it.
* `Seat.eq_between` — between two seats of one epoch, the later one held, nothing changes.
-/

namespace Tenure

/-- An epoch and its holder. -/
@[ext]
structure Seat (E H : Type*) where
  epoch : E
  holder : Option H

namespace Seat

variable {E H : Type*} [PartialOrder E] {s t u : Seat E H}

/-- A seat is followed by one of a higher epoch, or at its epoch by itself or a vacant one. -/
instance : LE (Seat E H) :=
  ⟨fun s t => s.epoch < t.epoch ∨ (s.epoch = t.epoch ∧ (t.holder = s.holder ∨ t.holder = none))⟩

private theorem trans' (h : s ≤ t) (h' : t ≤ u) : s ≤ u := by
  rcases h with hlt | ⟨heq, hst⟩
  · rcases h' with hlt' | ⟨heq', -⟩
    · exact .inl (hlt.trans hlt')
    · exact .inl (heq' ▸ hlt)
  · rcases h' with hlt' | ⟨heq', htu⟩
    · exact .inl (heq ▸ hlt')
    · refine .inr ⟨heq.trans heq', ?_⟩
      rcases htu with htu | hvacant
      · rcases hst with hst | hvacant
        · exact .inl (htu.trans hst)
        · exact .inr (htu.trans hvacant)
      · exact .inr hvacant

private theorem antisymm' (h : s ≤ t) (h' : t ≤ s) : s = t := by
  rcases h with hlt | ⟨heq, hst⟩
  · rcases h' with hlt' | ⟨heq', -⟩
    · exact absurd hlt' hlt.asymm
    · exact absurd heq' hlt.ne'
  · rcases h' with hlt' | ⟨-, hts⟩
    · exact absurd heq hlt'.ne'
    · refine Seat.ext heq ?_
      rcases hst with hst | hvacant
      · exact hst.symm
      · rcases hts with hts | hvacant'
        · exact hts
        · rw [hvacant, hvacant']

instance : PartialOrder (Seat E H) where
  le_refl _ := .inr ⟨rfl, .inl rfl⟩
  le_trans _ _ _ := trans'
  le_antisymm _ _ := antisymm'

theorem epoch_le (h : s ≤ t) : s.epoch ≤ t.epoch := by
  rcases h with hlt | ⟨heq, -⟩
  · exact hlt.le
  · exact heq.le

theorem le_of_epoch_lt (h : s.epoch < t.epoch) : s ≤ t := .inl h

/-- **A held seat** is the only one of its epoch that may precede it. -/
theorem eq_of_le (h : s ≤ t) (he : s.epoch = t.epoch) (hheld : t.holder ≠ none) : s = t := by
  rcases h with hlt | ⟨-, hst⟩
  · exact absurd he hlt.ne
  · exact Seat.ext he (hst.resolve_right hheld).symm

/-- **Nothing changes between** two seats of one epoch, the later one held. -/
theorem eq_between (h : s ≤ t) (h' : t ≤ u) (he : s.epoch = u.epoch) (hheld : u.holder ≠ none) :
    t = s ∧ u = s := by
  obtain rfl := eq_of_le (h.trans h') he hheld
  exact ⟨le_antisymm h' h, rfl⟩

end Seat

end Tenure
