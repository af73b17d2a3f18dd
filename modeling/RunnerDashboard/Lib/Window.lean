import Mathlib.Algebra.Order.Group.Defs
import Mathlib.Data.List.Count
import Mathlib.Data.List.TakeWhile

/-!
# Sliding windows

Times in the order in which they came, of which the old ones are dropped at the front.  What is left
are those in a window up to now, and when one more is only added while there are few of them, no
window of the same length ever has many.

## Main definitions

* `Window.recent` — the times that are left at a cutoff.
* `Window.within` — how many times there are in an interval.

## Main results

* `Window.recent_recent` — dropping early does not matter.
* `Window.within_concat_le` — **what is added while there is room keeps every window small.**
-/

namespace Window

variable {K : Type*} [LinearOrder K]

/-- The times from the first one on that is not before the cutoff. -/
def recent (cutoff : K) (ts : List K) : List K := ts.dropWhile (· < cutoff)

/-- How many times there are in an interval. -/
def within (a b : K) (ts : List K) : ℕ := ts.countP fun t => a ≤ t && t ≤ b

variable {a b c c' now t : K} {ts : List K}

@[simp] theorem recent_nil : recent c [] = [] := rfl

theorem recent_cons (t : K) (ts : List K) :
    recent c (t :: ts) = if t < c then recent c ts else t :: ts := by
  unfold recent
  rw [List.dropWhile_cons]
  simp

theorem recent_suffix (c : K) (ts : List K) : recent c ts <:+ ts := List.dropWhile_suffix _

/-- **Dropping early does not matter.** -/
theorem recent_recent (h : c ≤ c') (ts : List K) : recent c' (recent c ts) = recent c' ts := by
  induction ts with
  | nil => rfl
  | cons t ts ih =>
    rw [recent_cons]
    by_cases ht : t < c
    · rw [if_pos ht, ih, recent_cons, if_pos (ht.trans_le h)]
    · rw [if_neg ht]

/-- Of times in order, those are left that are not before the cutoff. -/
theorem recent_eq_filter (h : ts.Pairwise (· ≤ ·)) : recent c ts = ts.filter (c ≤ ·) := by
  induction ts with
  | nil => rfl
  | cons t ts ih =>
    obtain ⟨hle, hts⟩ := List.pairwise_cons.mp h
    rw [recent_cons]
    by_cases ht : t < c
    · simp [if_pos ht, ih hts, ht.not_ge]
    · rw [if_neg ht, eq_comm, List.filter_eq_self]
      intro x hx
      rcases List.mem_cons.mp hx with rfl | hx
      · simpa using ht
      · simpa using (not_lt.mp ht).trans (hle x hx)

theorem length_recent (h : ts.Pairwise (· ≤ ·)) (hnow : ∀ t ∈ ts, t ≤ now) :
    (recent c ts).length = within c now ts := by
  unfold within
  rw [recent_eq_filter h, List.countP_eq_length_filter]
  congr 1
  refine List.filter_congr fun t ht => ?_
  simp [hnow t ht]

theorem recent_append_congr {ts' : List K} (h : recent c ts = recent c ts') (us : List K) :
    recent c (ts ++ us) = recent c (ts' ++ us) := by
  have hcut : ∀ ts : List K, recent c (ts ++ us) =
      if recent c ts = [] then recent c us else recent c ts ++ us := by
    intro ts
    unfold recent
    rw [List.dropWhile_append]
    simp [List.isEmpty_iff]
  rw [hcut, hcut, h]

@[simp] theorem within_nil : within a b ([] : List K) = 0 := rfl

theorem within_append (ts ts' : List K) :
    within a b (ts ++ ts') = within a b ts + within a b ts' := List.countP_append

theorem within_concat : within a b (ts ++ [now]) =
    within a b ts + if a ≤ now ∧ now ≤ b then 1 else 0 := by
  rw [within_append]
  simp [within, List.countP_cons]

theorem within_le_of_sublist {ts' : List K} (h : ts'.Sublist ts) :
    within a b ts' ≤ within a b ts := h.countP_le

section Group

variable [AddCommGroup K] [IsOrderedAddMonoid K] {span : K} {n : ℕ}

/-- **What is added while there is room keeps every window small.** -/
theorem within_concat_le (hnow : ∀ t ∈ ts, t ≤ now) (hroom : within (now - span) now ts < n)
    (hbound : ∀ t, within (t - span) t ts ≤ n) (t : K) :
    within (t - span) t (ts ++ [now]) ≤ n := by
  rw [within_concat]
  split_ifs with hin
  · -- a window with the new time begins not before the one up to it
    have hle : within (t - span) t ts ≤ within (now - span) now ts := by
      refine List.countP_mono_left fun x hx hxt => ?_
      simp only [Bool.and_eq_true, decide_eq_true_eq] at hxt ⊢
      exact ⟨(sub_le_sub_right hin.2 span).trans hxt.1, hnow x hx⟩
    omega
  · exact hbound t

end Group

end Window
