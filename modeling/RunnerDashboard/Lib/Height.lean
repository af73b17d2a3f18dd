import Mathlib.Data.Finset.Card
import Mathlib.Logic.Relation

/-!
# The height of an acyclic relation

A relation that leads into finite sets and has no cycle has a height: the number of elements that
are reached.  It falls along the relation, so no walk is longer than it.  A relation with a cycle
has walks of every length, and all of them stay on points from which the cycle is reached.

## Main definitions

* `Acyclic r` — no element reaches itself.
* `height r V a` — how many elements of `V` the element `a` reaches.

## Main results

* `height_lt` — the height falls along the relation.
* `height_le` — it is not more than the size of the set.
* `exists_next_of_cycle` — on a cycle there is always a next element.
-/

namespace Relation

variable {α : Type*} {r : α → α → Prop} {V W : Finset α} {a b : α}

/-- No element reaches itself. -/
def Acyclic (r : α → α → Prop) : Prop := ∀ a, ¬ TransGen r a a

open Classical in
/-- How many elements of `V` the element `a` reaches. -/
noncomputable def height (r : α → α → Prop) (V : Finset α) (a : α) : ℕ :=
  (V.filter fun x => TransGen r a x).card

theorem height_le (r : α → α → Prop) (V : Finset α) (a : α) : height r V a ≤ V.card := by
  classical
  exact Finset.card_filter_le _ _

/-- **The height falls along an acyclic relation.** -/
theorem height_lt (hacyclic : Acyclic r) (hsub : W ⊆ V) (hmem : b ∈ V) (h : r a b) :
    height r W b < height r V a := by
  classical
  refine Finset.card_lt_card (Finset.ssubset_iff_of_subset ?_ |>.mpr ⟨b, ?_, ?_⟩)
  · intro x hx
    obtain ⟨hxW, hreach⟩ := Finset.mem_filter.mp hx
    exact Finset.mem_filter.mpr ⟨hsub hxW, .head h hreach⟩
  · exact Finset.mem_filter.mpr ⟨hmem, .single h⟩
  · -- `b` is reached from `a`, but not from itself
    intro hb
    exact hacyclic b (Finset.mem_filter.mp hb).2

/-- **On a cycle there is always a next element.** -/
theorem exists_next_of_cycle (hcycle : TransGen r a a) (hb : ReflTransGen r b a) :
    ∃ c, r b c ∧ ReflTransGen r c a := by
  rcases ReflTransGen.cases_head hb with rfl | hnext
  · exact TransGen.head'_iff.mp hcycle
  · exact hnext

end Relation
