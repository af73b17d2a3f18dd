import Mathlib.Order.Basic
import Mathlib.Data.List.Basic

/-!
# Labelled paths

A step relation `Step s l t` takes the state `s` to the state `t` and shows the
label `l`; a *path* is a finite sequence of steps, oldest label first.  Nothing
is assumed about states or labels, so a label may carry the call, its arguments,
the clock readings it made and the result it returned.

## Main definitions

* `Path Step s ls t` — a path from `s` to `t` showing the labels `ls`.
* `Simulates Step Step' R` — every step of `Step` is matched, or stuttered, by
  `Step'` along the relation `R`.

## Main results

* `path_append_iff` — a path may be cut wherever its label list is.
* `Path.invariant` — what every step preserves, every path preserves.
* `Path.imp` — a path of stronger steps.
* `Path.history` — the same for a property of the state *and* of the labels so far.
* `Path.monotone` — a measure no step lowers is not lowered by a path.
* `Path.length_add_le`, `Path.length_le` — a path is no longer than a measure that every step
  lowers.
* `Path.unless` — a property that only an excuse can end holds to the end of the
  path, or the excuse occurs on it.
* `Simulates.path` — a simulation of steps is a simulation of paths.
-/

namespace Lts

variable {S T L M : Type*}

/-- A path of `Step` from the first state to the last, with its labels. -/
inductive Path (Step : S → L → S → Prop) : S → List L → S → Prop
  /-- The empty path. -/
  | nil (s : S) : Path Step s [] s
  | cons {s t u : S} {l : L} {ls : List L} (h : Step s l t) (p : Path Step t ls u) :
      Path Step s (l :: ls) u

variable {Step : S → L → S → Prop} {s t u : S} {l : L} {ls ls' : List L}

@[simp] theorem path_nil_iff : Path Step s [] t ↔ s = t := by
  constructor
  · rintro ⟨⟩; rfl
  · rintro rfl; exact .nil s

theorem path_cons_iff : Path Step s (l :: ls) u ↔ ∃ t, Step s l t ∧ Path Step t ls u := by
  constructor
  · intro p
    cases p with
    | cons h p => exact ⟨_, h, p⟩
  · rintro ⟨t, h, p⟩
    exact .cons h p

theorem Path.single (h : Step s l t) : Path Step s [l] t := .cons h (.nil t)

theorem Path.exists_cons (h : Step s l t) (p : ∃ u, Path Step t ls u) :
    ∃ u, Path Step s (l :: ls) u := by
  obtain ⟨u, p⟩ := p
  exact ⟨u, .cons h p⟩

theorem Path.append (p : Path Step s ls t) (q : Path Step t ls' u) :
    Path Step s (ls ++ ls') u := by
  induction p with
  | nil => exact q
  | cons h _ ih => exact .cons h (ih q)

theorem Path.snoc (p : Path Step s ls t) (h : Step t l u) : Path Step s (ls ++ [l]) u :=
  p.append (.single h)

theorem path_append_iff :
    Path Step s (ls ++ ls') u ↔ ∃ t, Path Step s ls t ∧ Path Step t ls' u := by
  constructor
  · intro p
    induction ls generalizing s with
    | nil => exact ⟨s, .nil s, p⟩
    | cons l ls ih =>
      obtain ⟨m, h, p⟩ := path_cons_iff.mp p
      obtain ⟨t, p₁, p₂⟩ := ih p
      exact ⟨t, .cons h p₁, p₂⟩
  · rintro ⟨t, p, q⟩
    exact p.append q

theorem path_middle_iff :
    Path Step s (ls ++ l :: ls') u ↔
      ∃ t t', Path Step s ls t ∧ Step t l t' ∧ Path Step t' ls' u := by
  rw [path_append_iff]
  constructor
  · rintro ⟨t, p, q⟩
    obtain ⟨t', h, q⟩ := path_cons_iff.mp q
    exact ⟨t, t', p, h, q⟩
  · rintro ⟨t, t', p, h, q⟩
    exact ⟨t, p, .cons h q⟩

/-- Where an element stands in a list with one more at its end. -/
theorem snoc_eq_append_cons_iff {α : Type*} {l before after : List α} {x y : α} :
    l ++ [x] = before ++ y :: after ↔ (before = l ∧ y = x ∧ after = []) ∨
      ∃ after', after = after' ++ [x] ∧ l = before ++ y :: after' := by
  constructor
  · intro h
    rcases List.eq_nil_or_concat after with rfl | ⟨after', x', rfl⟩
    · obtain ⟨hinit, hlast⟩ := List.append_inj' h rfl
      exact .inl ⟨hinit.symm, (List.cons.inj hlast).1.symm, rfl⟩
    · rw [List.concat_eq_append, ← List.cons_append, ← List.append_assoc] at h
      obtain ⟨hinit, hlast⟩ := List.append_inj' h rfl
      obtain rfl := (List.cons.inj hlast).1
      exact .inr ⟨after', by simp, hinit⟩
  · rintro (⟨rfl, rfl, rfl⟩ | ⟨after', rfl, rfl⟩)
    · rfl
    · simp

theorem Path.invariant {I : S → Prop} (hstep : ∀ s l t, I s → Step s l t → I t)
    (p : Path Step s ls t) (hs : I s) : I t := by
  induction p with
  | nil => exact hs
  | cons h _ ih => exact ih (hstep _ _ _ hs h)

theorem Path.imp {Step' : S → L → S → Prop} {I : S → Prop}
    (hstep : ∀ s l t, I s → Step s l t → Step' s l t ∧ I t) (p : Path Step s ls t) (hs : I s) :
    Path Step' s ls t := by
  induction p with
  | nil s => exact .nil s
  | cons h _ ih =>
    obtain ⟨h', ht⟩ := hstep _ _ _ hs h
    exact .cons h' (ih ht)

private theorem Path.history_from {I : List L → S → Prop}
    (hstep : ∀ past s l t, I past s → Step s l t → I (past ++ [l]) t)
    (p : Path Step s ls t) : ∀ past, I past s → I (past ++ ls) t := by
  induction p with
  | nil => intro past h; simpa using h
  | cons h _ ih =>
    intro past hs
    have := ih _ (hstep past _ _ _ hs h)
    rwa [List.append_assoc, List.singleton_append] at this

/-- **Invariants of the history.**  A property of the state and of the labels
shown so far that holds at the start and is preserved by every step holds at the
end of every path. -/
theorem Path.history {I : List L → S → Prop}
    (hstep : ∀ past s l t, I past s → Step s l t → I (past ++ [l]) t)
    (p : Path Step s ls t) (hs : I [] s) : I ls t :=
  Path.history_from hstep p [] hs

/-- A measure that no step lowers is not lowered by a path, under an invariant. -/
theorem Path.monotone {α : Type*} [Preorder α] {I : S → Prop} (f : S → α)
    (hinv : ∀ s l t, I s → Step s l t → I t) (hstep : ∀ s l t, I s → Step s l t → f s ≤ f t)
    (p : Path Step s ls t) (hs : I s) : f s ≤ f t := by
  induction p with
  | nil => exact le_rfl
  | cons h _ ih => exact (hstep _ _ _ hs h).trans (ih (hinv _ _ _ hs h))

theorem Path.length_add_le {I : S → Prop} (f : S → ℕ) (hinv : ∀ s l t, I s → Step s l t → I t)
    (hstep : ∀ s l t, I s → Step s l t → f t < f s) (p : Path Step s ls t) (hs : I s) :
    ls.length + f t ≤ f s := by
  induction p with
  | nil => simp
  | cons h _ ih =>
    have hrest := ih (hinv _ _ _ hs h)
    have hlower := hstep _ _ _ hs h
    rw [List.length_cons]
    omega

theorem Path.length_le {I : S → Prop} (f : S → ℕ) (hinv : ∀ s l t, I s → Step s l t → I t)
    (hstep : ∀ s l t, I s → Step s l t → f t < f s) (p : Path Step s ls t) (hs : I s) :
    ls.length ≤ f s :=
  Nat.le_trans (Nat.le_add_right _ _) (p.length_add_le f hinv hstep hs)

/-- **The unless rule.**  If `J` can only be ended by a step that satisfies the
excuse `E`, then `J` holds at the end of the path or the excuse occurs on it. -/
theorem Path.unless {J : S → Prop} {E : S → L → Prop}
    (hstep : ∀ s l t, J s → Step s l t → J t ∨ E s l)
    (p : Path Step s ls u) (hs : J s) :
    J u ∨ ∃ before l after t t', ls = before ++ l :: after ∧ Path Step s before t ∧
      Step t l t' ∧ Path Step t' after u ∧ J t ∧ E t l := by
  induction p with
  | nil => exact .inl hs
  | @cons s t u l ls h p ih =>
    rcases hstep _ _ _ hs h with ht | he
    · rcases ih ht with hu | ⟨before, l', after, m, m', rfl, p₁, h', p₂, hJ, hE⟩
      · exact .inl hu
      · exact .inr ⟨l :: before, l', after, m, m', rfl, .cons h p₁, h', p₂, hJ, hE⟩
    · exact .inr ⟨[], l, ls, s, t, rfl, .nil s, h, p, hs, he⟩

/-- A forward simulation with stuttering: a step of `Step` between related states
is matched by a path of `Step'` of at most one step. -/
def Simulates (Step : S → L → S → Prop) (Step' : T → M → T → Prop) (R : S → T → Prop) : Prop :=
  ∀ s l t s', R s s' → Step s l t →
    R t s' ∨ ∃ m t', Step' s' m t' ∧ R t t'

theorem Simulates.path {Step' : T → M → T → Prop} {R : S → T → Prop}
    (sim : Simulates Step Step' R) (p : Path Step s ls t) {s' : T} (hR : R s s') :
    ∃ ms t', Path Step' s' ms t' ∧ R t t' := by
  induction p generalizing s' with
  | nil => exact ⟨[], s', .nil s', hR⟩
  | cons h _ ih =>
    rcases sim _ _ _ _ hR h with hR' | ⟨m, m', h', hR'⟩
    · exact ih hR'
    · obtain ⟨ms, t', q, hR''⟩ := ih hR'
      exact ⟨m :: ms, t', .cons h' q, hR''⟩

end Lts
