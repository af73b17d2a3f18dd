import Mathlib.Order.Basic
import Mathlib.Order.Defs.Unbundled

/-!
# Actions that may fail

An action over a state returns a value or ends in an error; in both cases it leaves a state, as a
program does that raises an exception half way.  The actions are those of `EStateM`.

## Main definitions

* `raiseIf` — `if …: raise`.
* `attempt` — `try … except`: the error is a value.
* `ensuring` — `try … finally`: a second action that runs in both cases.
* `zoom` — an action over a part of the state.
* `stateOf`, `Keeps` — the state that is left, and a relation that an action keeps whether it
  returns or fails.

## Main results

* `bind_of_ok`, `bind_of_error` — one step of a sequence.
* `seq_eq_ok_iff` — a sequence returns if both of its actions do.
* `zoom_eq_ok_iff` — an action over a part changes this part.
* `Keeps.bind` — what both actions keep, their sequence keeps.
-/

namespace Attempt

open EStateM (Result)

variable {ε σ τ α β : Type} {m : EStateM ε σ α} {k : α → EStateM ε σ β} {s s' : σ} {a : α} {e : ε}

/-- `if cond: raise e`. -/
def raiseIf (cond : Bool) (e : ε) : EStateM ε σ Unit := if cond then throw e else pure ()

/-- `try m except e`. -/
def attempt (m : EStateM ε σ α) : EStateM ε σ (Except ε α) := fun s =>
  match m s with
  | .ok a s' => .ok (.ok a) s'
  | .error e s' => .ok (.error e) s'

/-- `try m finally h`: an error of `h` is the one that is raised. -/
def ensuring (m : EStateM ε σ α) (h : EStateM ε σ Unit) : EStateM ε σ α := fun s =>
  match m s with
  | .ok a s' =>
    match h s' with
    | .ok _ s'' => .ok a s''
    | .error e s'' => .error e s''
  | .error e s' =>
    match h s' with
    | .ok _ s'' => .error e s''
    | .error e' s'' => .error e' s''

def zoom (part : σ → τ) (put : τ → σ → σ) (m : EStateM ε τ α) : EStateM ε σ α := fun s =>
  match m (part s) with
  | .ok a t => .ok a (put t s)
  | .error e t => .error e (put t s)

def stateOf : Result ε σ α → σ
  | .ok _ s => s
  | .error _ s => s

/-! ### Sequences -/

theorem bind_of_ok (h : m s = .ok a s') : (m >>= k) s = k a s' := by
  show EStateM.bind m k s = _
  unfold EStateM.bind
  rw [h]

theorem bind_of_error (h : m s = .error e s') : (m >>= k) s = .error e s' := by
  show EStateM.bind m k s = _
  unfold EStateM.bind
  rw [h]

theorem get_bind {f : σ → EStateM ε σ β} : (get >>= f) s = f s s := rfl

/-- **A sequence returns if both of its actions return.** -/
theorem seq_eq_ok_iff {b : β} {s'' : σ} :
    (m >>= k) s = .ok b s'' ↔ ∃ a s', m s = .ok a s' ∧ k a s' = .ok b s'' := by
  constructor
  · intro h
    cases hm : m s with
    | ok a s' => exact ⟨a, s', rfl, (bind_of_ok hm).symm.trans h⟩
    | error e s' =>
      rw [bind_of_error hm] at h
      cases h
  · rintro ⟨a, s', hm, hk⟩
    rw [bind_of_ok hm, hk]

/-- A sequence that fails, fails in one of its actions. -/
theorem seq_eq_error_iff : (m >>= k) s = .error e s' ↔
    m s = .error e s' ∨ ∃ a s₁, m s = .ok a s₁ ∧ k a s₁ = .error e s' := by
  constructor
  · intro h
    cases hm : m s with
    | ok a s₁ => exact .inr ⟨a, s₁, rfl, (bind_of_ok hm).symm.trans h⟩
    | error e₁ s₁ =>
      rw [bind_of_error hm] at h
      injection h with he hs
      exact .inl (by rw [he, hs])
  · rintro (hm | ⟨a, s₁, hm, hk⟩)
    · exact bind_of_error hm
    · rw [bind_of_ok hm, hk]

/-- What follows leaves the state alone, whether it returns or fails. -/
theorem stateOf_bind (hk : ∀ a s', stateOf (k a s') = s') :
    stateOf ((m >>= k) s) = stateOf (m s) := by
  cases hm : m s with
  | ok a s' => rw [bind_of_ok hm, hk, stateOf]
  | error e s' => rw [bind_of_error hm, stateOf, stateOf]

theorem raiseIf_of_false {cond : Bool} (h : cond = false) : raiseIf cond e s = .ok () s := by
  rw [h]
  rfl

theorem raiseIf_eq_ok_iff {cond : Bool} {u : Unit} :
    raiseIf cond e s = .ok u s' ↔ cond = false ∧ s' = s := by
  unfold raiseIf
  cases cond with
  | true =>
    refine iff_of_false (fun h => by cases h) ?_
    rintro ⟨h, -⟩
    cases h
  | false =>
    constructor
    · intro h
      injection h with _ hs
      exact ⟨rfl, hs.symm⟩
    · rintro ⟨-, rfl⟩
      rfl

/-! ### Errors as values -/

theorem attempt_of_ok (h : m s = .ok a s') : attempt m s = .ok (.ok a) s' := by
  unfold attempt
  rw [h]

theorem attempt_of_error (h : m s = .error e s') : attempt m s = .ok (.error e) s' := by
  unfold attempt
  rw [h]

theorem ensuring_of_ok {h : EStateM ε σ Unit} {s'' : σ} (hm : m s = .ok a s')
    (hh : h s' = .ok () s'') : ensuring m h s = .ok a s'' := by
  unfold ensuring
  rw [hm]
  dsimp only
  rw [hh]

theorem ensuring_of_error {h : EStateM ε σ Unit} {s'' : σ} (hm : m s = .ok a s')
    (hh : h s' = .error e s'') : ensuring m h s = .error e s'' := by
  unfold ensuring
  rw [hm]
  dsimp only
  rw [hh]

theorem exists_ensuring_of_error {h : EStateM ε σ Unit} (hm : m s = .error e s') :
    ∃ e', ensuring m h s = .error e' (stateOf (h s')) := by
  unfold ensuring
  rw [hm]
  dsimp only
  cases h s' with
  | ok u s'' => exact ⟨e, rfl⟩
  | error e' s'' => exact ⟨e', rfl⟩

/-! ### Parts of the state -/

variable {part : σ → τ} {put : τ → σ → σ} {l : EStateM ε τ α}

theorem zoom_eq_ok_iff :
    zoom part put l s = .ok a s' ↔ ∃ t, l (part s) = .ok a t ∧ s' = put t s := by
  unfold zoom
  cases l (part s) with
  | ok a' t =>
    constructor
    · intro h
      injection h with ha hs
      exact ⟨t, by rw [ha], hs.symm⟩
    · rintro ⟨t', h, rfl⟩
      injection h with ha ht
      rw [ha, ht]
  | error e' t =>
    refine iff_of_false (fun h => by cases h) ?_
    rintro ⟨t', h, -⟩
    cases h

/-! ### What is kept -/

/-- An action keeps a relation between the state before it and the one that it leaves. -/
def Keeps (r : σ → σ → Prop) (m : EStateM ε σ α) : Prop := ∀ s, r s (stateOf (m s))

variable {r : σ → σ → Prop}

theorem Keeps.of_ok (hm : Keeps r m) (h : m s = .ok a s') : r s s' := by
  have hs := hm s
  rwa [h] at hs

theorem Keeps.of_error (hm : Keeps r m) (h : m s = .error e s') : r s s' := by
  have hs := hm s
  rwa [h] at hs

/-- **What both actions keep, their sequence keeps.** -/
theorem Keeps.bind [IsTrans σ r] (hm : Keeps r m) (hk : ∀ a, Keeps r (k a)) :
    Keeps r (m >>= k) := by
  intro s
  cases h : m s with
  | ok a s' =>
    rw [bind_of_ok h]
    exact trans_of r (hm.of_ok h) (hk a s')
  | error e s' =>
    rw [bind_of_error h]
    exact hm.of_error h

theorem Keeps.mono {r' : σ → σ → Prop} (h : ∀ s s', r s s' → r' s s') (hm : Keeps r m) :
    Keeps r' m :=
  fun s => h _ _ (hm s)

theorem keeps_get [Std.Refl r] : Keeps r (get : EStateM ε σ σ) := fun s => refl_of r s

theorem keeps_pure [Std.Refl r] (a : α) : Keeps r (pure a : EStateM ε σ α) := fun s => refl_of r s

theorem keeps_throw [Std.Refl r] (e : ε) : Keeps r (throw e : EStateM ε σ α) := fun s => refl_of r s

theorem keeps_raiseIf [Std.Refl r] (cond : Bool) (e : ε) : Keeps r (raiseIf cond e) := by
  intro s
  cases cond
  · exact refl_of r s
  · exact refl_of r s

end Attempt
