import RunnerDashboard.Lib.Path

/-!
# Programs that ask their environment

A program either returns or makes a call and goes on with its answer.  The environment has a state:
which answers it may give, and what becomes of the state, is a relation.  A point of a run is a
program that is left, with the state and the calls so far.

## Main definitions

* `Prog` — programs, which are a monad.
* `Call`, `Step` — a call with its answer, and one step of a run.
* `Safe` — what holds whenever a call is made, and when the program returns.
* `Prog.Only` — the calls that a program may make.
* `Ends` — what holds when a program has returned.
* `Prog.handle` — a program whose calls are answered by programs with other calls.

## Main results

* `safe_bind` — the rule of a sequence.
* `Safe.imp` — the rule of consequence.
* `Safe.of_path` — **what is safe is so at every point of every run.**
* `Prog.Only.history` — **what every call that a program may make keeps, its runs keep.**
* `exists_path_ret` — a program returns if its calls are answered.
* `ends_bind`, `Ends.of_path` — the rule of a sequence, and what it says of a run.
* `only_handle` — the calls of the programs that answer.
-/

namespace Asking

open Lts

variable {ι : Type} {A : ι → Type} {σ α β : Type}

/-- A program whose calls `q : ι` have answers in `A q`. -/
inductive Prog (ι : Type) (A : ι → Type) (α : Type)
  | ret (a : α)
  | ask (q : ι) (k : A q → Prog ι A α)

namespace Prog

/-- One program after another. -/
def bind : Prog ι A α → (α → Prog ι A β) → Prog ι A β
  | .ret a, f => f a
  | .ask q k, f => .ask q fun answer => (k answer).bind f

instance : Monad (Prog ι A) where
  pure := .ret
  bind := .bind

def call (q : ι) : Prog ι A (A q) := .ask q .ret

theorem bind_eq (p : Prog ι A α) (f : α → Prog ι A β) : p >>= f = p.bind f := rfl

end Prog

abbrev Call (A : ι → Type) := (q : ι) × A q

/-- A step of a run, where the environment answers as it may. -/
def Step (Env : σ → (q : ι) → A q → σ → Prop) (c : Prog ι A α × σ) (e : Call A)
    (c' : Prog ι A α × σ) : Prop :=
  ∃ k, c.1 = .ask e.1 k ∧ Env c.2 e.1 e.2 c'.2 ∧ c'.1 = k e.2

/-- A run is built call by call, where the program that is left is not named. -/
theorem exists_path_ask {Env : σ → (q : ι) → A q → σ → Prop} {q : ι} {k : A q → Prog ι A α}
    {answer : A q} {s s' t : σ} {tr : List (Call A)} (h : Env s q answer s')
    (path : ∃ p, Path (Step Env) (k answer, s') tr (p, t)) :
    ∃ p, Path (Step Env) (.ask q k, s) (⟨q, answer⟩ :: tr) (p, t) := by
  obtain ⟨p, path⟩ := path
  exact ⟨p, .cons ⟨k, rfl, h, rfl⟩ path⟩

/-- **A program returns if its calls are answered.** -/
theorem exists_path_ret {Env : σ → (q : ι) → A q → σ → Prop}
    (hanswer : ∀ s q, ∃ answer s', Env s q answer s') (p : Prog ι A α) (s : σ) :
    ∃ tr a s', Path (Step Env) (p, s) tr (.ret a, s') := by
  induction p generalizing s with
  | ret a => exact ⟨[], a, s, .nil _⟩
  | ask q k ih =>
    obtain ⟨answer, s₁, henv⟩ := hanswer s q
    obtain ⟨tr, a, s', path⟩ := ih answer s₁
    exact ⟨⟨q, answer⟩ :: tr, a, s', .cons ⟨k, rfl, henv, rfl⟩ path⟩

variable (Env : σ → (q : ι) → A q → σ → Prop) (Pre : List (Call A) → σ → ι → Prop)

/-- `Pre` holds whenever a call is made, and `Post` when the program returns, after the calls
`past`. -/
def Safe (Post : α → List (Call A) → σ → Prop) : Prog ι A α → List (Call A) → σ → Prop
  | .ret a, past, s => Post a past s
  | .ask q k, past, s => Pre past s q ∧
      ∀ answer s', Env s q answer s' → Safe Post (k answer) (past ++ [⟨q, answer⟩]) s'

variable {Env Pre} {Post Post' : α → List (Call A) → σ → Prop}
  {p p' : Prog ι A α} {past tr : List (Call A)} {s s' : σ} {a : α} {q : ι}

@[simp] theorem safe_ret : Safe Env Pre Post (.ret a) past s ↔ Post a past s := Iff.rfl

@[simp] theorem safe_pure : Safe Env Pre Post (pure a) past s ↔ Post a past s := Iff.rfl

theorem safe_ask {k : A q → Prog ι A α} :
    Safe Env Pre Post (.ask q k) past s ↔ Pre past s q ∧
      ∀ answer s', Env s q answer s' → Safe Env Pre Post (k answer) (past ++ [⟨q, answer⟩]) s' :=
  Iff.rfl

/-- **A sequence is safe if its second part is, wherever its first part returns.** -/
theorem safe_bind {f : α → Prog ι A β} {Post : β → List (Call A) → σ → Prop} :
    Safe Env Pre Post (p >>= f) past s ↔
      Safe Env Pre (fun a past s => Safe Env Pre Post (f a) past s) p past s := by
  rw [Prog.bind_eq]
  induction p generalizing past s with
  | ret a => rfl
  | ask q k ih =>
    simp only [Prog.bind, safe_ask]
    constructor
    · rintro ⟨hpre, h⟩
      exact ⟨hpre, fun answer s' he => (ih answer).mp (h answer s' he)⟩
    · rintro ⟨hpre, h⟩
      exact ⟨hpre, fun answer s' he => (ih answer).mpr (h answer s' he)⟩

theorem safe_call_bind {f : A q → Prog ι A β} {Post : β → List (Call A) → σ → Prop}
    (hpre : Pre past s q)
    (h : ∀ answer s', Env s q answer s' →
      Safe Env Pre Post (f answer) (past ++ [⟨q, answer⟩]) s') :
    Safe Env Pre Post (Prog.call q >>= f) past s := ⟨hpre, h⟩

theorem Safe.imp (h : Safe Env Pre Post p past s)
    (himp : ∀ a past s, Post a past s → Post' a past s) : Safe Env Pre Post' p past s := by
  induction p generalizing past s with
  | ret a => exact himp a past s h
  | ask q k ih => exact ⟨h.1, fun answer s' he => ih answer (h.2 answer s' he)⟩

/-- **What is safe is so at every point of every run.** -/
theorem Safe.of_path {c c' : Prog ι A α × σ} (path : Path (Step Env) c tr c')
    (h : Safe Env Pre Post c.1 past c.2) : Safe Env Pre Post c'.1 (past ++ tr) c'.2 := by
  induction path generalizing past with
  | nil c => simpa using h
  | @cons c d c' e tr hstep path ih =>
    obtain ⟨k, hk, henv, hd⟩ := hstep
    rw [hk] at h
    have hnext := ih (hd ▸ h.2 e.2 d.2 henv)
    simpa using hnext

/-! ### Programs of some calls -/

/-- Every call that the program may make is one of `P`. -/
def Prog.Only (P : ι → Prop) : Prog ι A α → Prop
  | .ret _ => True
  | .ask q k => P q ∧ ∀ answer, (k answer).Only P

variable {P : ι → Prop}

@[simp] theorem only_ret : (Prog.ret a : Prog ι A α).Only P := trivial

@[simp] theorem only_pure : (pure a : Prog ι A α).Only P := trivial

@[simp] theorem only_call : (Prog.call q : Prog ι A (A q)).Only P ↔ P q := by
  simp [Prog.call, Prog.Only]

theorem only_true (p : Prog ι A α) : p.Only fun _ => True := by
  induction p with
  | ret a => trivial
  | ask q k ih => exact ⟨trivial, ih⟩

theorem Prog.Only.imp {Q : ι → Prop} (hp : p.Only P) (himp : ∀ q, P q → Q q) : p.Only Q := by
  induction p with
  | ret a => trivial
  | ask q k ih => exact ⟨himp q hp.1, fun answer => ih answer (hp.2 answer)⟩

theorem only_bind {f : α → Prog ι A β} (hp : p.Only P) (hf : ∀ a, (f a).Only P) :
    (p >>= f).Only P := by
  rw [Prog.bind_eq]
  induction p with
  | ret a => exact hf a
  | ask q k ih => exact ⟨hp.1, fun answer => ih answer (hp.2 answer)⟩

theorem only_ite {c : Prop} [Decidable c] (hp : p.Only P) (hp' : p'.Only P) :
    (if c then p else p').Only P := by
  split_ifs
  · exact hp
  · exact hp'

/-- What every call that a program may make keeps, holds when it returns. -/
theorem Prog.Only.safe {I : List (Call A) → σ → Prop}
    (hkeep : ∀ past s q answer s', P q → I past s → Env s q answer s' →
      I (past ++ [⟨q, answer⟩]) s')
    (hpre : ∀ past s q, P q → I past s → Pre past s q)
    (honly : p.Only P) (hI : I past s) : Safe Env Pre (fun _ => I) p past s := by
  induction p generalizing past s with
  | ret a => exact hI
  | ask q k ih =>
    obtain ⟨hq, hanswers⟩ := honly
    exact ⟨hpre past s q hq hI, fun answer s' henv =>
      ih answer (hanswers answer) (hkeep past s q answer s' hq hI henv)⟩

/-- **What every call that a program may make keeps, its runs keep.** -/
theorem Prog.Only.history {I : List (Call A) → σ → Prop}
    (hkeep : ∀ past s q answer s', P q → I past s → Env s q answer s' →
      I (past ++ [⟨q, answer⟩]) s')
    (honly : p.Only P) (path : Path (Step Env) (p, s) tr (p', s')) (hI : I [] s) : I tr s' := by
  have hrun := path.history (I := fun past c => c.1.Only P ∧ I past c.2) ?_ ⟨honly, hI⟩
  · exact hrun.2
  · intro past c e c' h hstep
    obtain ⟨k, hk, henv, hc'⟩ := hstep
    rw [hk] at h
    obtain ⟨⟨hq, hanswers⟩, hI⟩ := h
    rw [hc']
    exact ⟨hanswers e.2, hkeep past c.2 e.1 e.2 c'.2 hq hI henv⟩

/-! ### What holds when a program has returned -/

/-- What holds when the program has returned. -/
def Ends (Env : σ → (q : ι) → A q → σ → Prop) (p : Prog ι A α) (s : σ) (Post : α → σ → Prop) :
    Prop :=
  ∀ past, Safe Env (fun _ _ _ => True) (fun a _ s => Post a s) p past s

variable {Mid : α → σ → Prop} {Last : β → σ → Prop}

theorem ends_pure {Post : α → σ → Prop} (h : Post a s) : Ends Env (pure a) s Post := fun _ => h

theorem ends_call {Post : A q → σ → Prop} (h : ∀ answer s', Env s q answer s' → Post answer s') :
    Ends Env (.call q) s Post := fun _ => ⟨trivial, h⟩

/-- **One program after another.** -/
theorem ends_bind {f : α → Prog ι A β} (hp : Ends Env p s Mid)
    (hf : ∀ a s', Mid a s' → Ends Env (f a) s' Last) : Ends Env (p >>= f) s Last := by
  intro past
  rw [safe_bind]
  exact (hp past).imp fun a past s' hmid => hf a s' hmid past

theorem Ends.imp {Post Post' : α → σ → Prop} (h : Ends Env p s Post)
    (himp : ∀ a s, Post a s → Post' a s) : Ends Env p s Post' :=
  fun past => (h past).imp fun a _ s hpost => himp a s hpost

/-- **What holds when a program has returned holds at the end of a run.** -/
theorem Ends.of_path {Post : α → σ → Prop} (h : Ends Env p s Post)
    (path : Path (Step Env) (p, s) tr (.ret a, s')) : Post a s' :=
  Safe.of_path path (h [])

theorem Prog.Only.ends {I : σ → Prop}
    (hkeep : ∀ s q answer s', P q → I s → Env s q answer s' → I s')
    (honly : p.Only P) (hI : I s) : Ends Env p s fun _ => I := fun _ =>
  honly.safe (I := fun _ => I) (fun _ => hkeep) (fun _ _ _ _ _ => trivial) hI

/-! ### Calls that are answered by programs -/

variable {κ : Type} {B : κ → Type}

/-- A program whose calls are answered by programs with other calls. -/
def Prog.handle (h : (q : ι) → Prog κ B (A q)) : Prog ι A α → Prog κ B α
  | .ret a => .ret a
  | .ask q k => (h q).bind fun answer => (k answer).handle h

/-- The calls of the programs that answer are the calls that are made. -/
theorem only_handle {Q : κ → Prop} {h : (q : ι) → Prog κ B (A q)} (hp : p.Only P)
    (hanswer : ∀ q, P q → (h q).Only Q) : (p.handle h).Only Q := by
  induction p with
  | ret a => exact only_ret
  | ask q k ih =>
    exact only_bind (hanswer q hp.1) fun answer => ih answer (hp.2 answer)

end Asking
