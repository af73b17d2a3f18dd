import RunnerDashboard.Lib.Path
import RunnerDashboard.RunnerLease.Sqlite

/-!
# The fencing tokens of the SQLite store

Processes share the table `leases`.  Each call is one transaction, and the calls come in any
order and at any times.  A row counts its renewals in its fencing token; a row that is
inserted counts from 0 again.  A caller that was shown a token may release with it when the
row has been deleted and another inserted.

## Main results

* `deletes_shown_iff` — when a token that was shown deletes no later row.
-/

namespace RunnerLease

namespace Sqlite

open Sql Lts

/-! ### The calls -/

/-- A statement or transaction of the store. -/
inductive TableCall
  | acquire (a : AcquireArgs) (now : Int)
  | release (runnerId : String) (principalId : Option String) (fencingToken : Option ℕ)
  | prune (now : Int)
  /-- The query of `read_all`, which prunes first. -/
  | select
  | writeAll (records : List LeaseRecord)

/-- What a call returns or raises. -/
inductive Answer
  | acquired (r : Except LeaseError LeaseRecord)
  | released (r : Except StaleFencingToken Bool)
  | pruned (removed : ℕ)
  | selected (records : List LeaseRecord)
  | written (r : Except IntegrityError Unit)

def perform (c : TableCall) (rows : Rows) : Answer × Rows :=
  match c with
  | .acquire a now => (.acquired (acquire a now rows).1, (acquire a now rows).2)
  | .release runnerId p token =>
    (.released (release runnerId p token rows).1, (release runnerId p token rows).2)
  | .prune now => (.pruned (pruneExpired now rows).1, (pruneExpired now rows).2)
  | .select => (.selected (records rows), rows)
  | .writeAll rs => (.written (writeAll rs rows).1, (writeAll rs rows).2)

/-- What a call does to the row of a runner, apart from deleting it. -/
inductive Effect
  | inserts
  | renews
  | keeps
  deriving DecidableEq, Repr

def effect (c : TableCall) (rows : Rows) (k : String) : Effect :=
  match c with
  | .acquire a now =>
    if a.runnerId = k ∧ (acquire a now rows).1.isOk then
      if ((deleteExpired now rows).get? k).isSome then .renews else .inserts
    else .keeps
  | .writeAll rs =>
    if (writeAll rs rows).1.isOk ∧ k ∈ rs.map LeaseRecord.runnerId then .inserts else .keeps
  | _ => .keeps

def Answer.tokens : Answer → List (String × ℕ)
  | .acquired (.ok r) => [(r.runnerId, r.fencingToken)]
  | .released (.error e) => [(e.runnerId, e.current)]
  | .selected rs => rs.map fun r => (r.runnerId, r.fencingToken)
  | _ => []

/-! ### The table over time -/

/-- A token of a runner's row that was shown, and which of the runner's rows it was. -/
structure Shown where
  runnerId : String
  token : ℕ
  tenure : ℕ
  deriving DecidableEq, Repr

/-- The table; the number of rows that were inserted for each runner, and of the renewals of
the last one; and the tokens that were shown. -/
structure World where
  rows : Rows
  tenure : String → ℕ
  renewals : String → ℕ
  shown : List Shown

def World.new : World := ⟨.empty, fun _ => 0, fun _ => 0, []⟩

def World.tenureAfter (s : World) (c : TableCall) (k : String) : ℕ :=
  match effect c s.rows k with
  | .inserts => s.tenure k + 1
  | _ => s.tenure k

def World.call (s : World) (c : TableCall) : World where
  rows := (perform c s.rows).2
  tenure := s.tenureAfter c
  renewals k :=
    match effect c s.rows k with
    | .inserts => 0
    | .renews => s.renewals k + 1
    | .keeps => s.renewals k
  shown := s.shown ++ (perform c s.rows).1.tokens.map fun x => ⟨x.1, x.2, s.tenureAfter c x.1⟩

def Step (s : World) (c : TableCall) (t : World) : Prop := t = s.call c

section Steps

variable {s t : World} {c : TableCall} {cs : List TableCall} {k : String} {row : Row}

theorem get?_of_swept {now : Int} {rows : Rows} (h : (deleteExpired now rows).get? k = some row) :
    rows.get? k = some row := by
  rw [get?_deleteExpired] at h
  exact (Option.filter_eq_some_iff.mp h).1

/-- What an acquisition leaves of the row of a runner. -/
theorem effect_acquire {a : AcquireArgs} {now : Int} {rows : Rows}
    (h : (acquire a now rows).2.get? k = some row) :
    (effect (.acquire a now) rows k = .inserts ∧ row.fencingToken = 0) ∨
    (effect (.acquire a now) rows k = .renews ∧ ∃ row', rows.get? k = some row' ∧
      row.fencingToken = row'.fencingToken + 1) ∨
    (effect (.acquire a now) rows k = .keeps ∧ rows.get? k = some row) := by
  have heffect : effect (.acquire a now) rows k =
      if a.runnerId = k ∧ (acquire a now rows).1.isOk then
        if ((deleteExpired now rows).get? k).isSome then .renews else .inserts
      else .keeps := rfl
  have hcases := acquire_cases a now rows
  rw [heffect]
  generalize (acquire a now rows).1 = x at hcases ⊢
  generalize (acquire a now rows).2 = rows' at hcases h
  cases hcases with
  | leased _ _ => exact .inr (.inr ⟨if_neg (by rintro ⟨-, h⟩; cases h), h⟩)
  | full _ _ => exact .inr (.inr ⟨if_neg (by rintro ⟨-, h⟩; cases h), h⟩)
  | @renewed row₀ found own =>
    by_cases hk : a.runnerId = k
    · subst hk
      rw [Table.get?_put_self] at h
      obtain rfl := Option.some.inj h
      refine .inr (.inl ⟨?_, row₀, get?_of_swept found, rfl⟩)
      rw [if_pos ⟨rfl, rfl⟩, found]
      rfl
    · rw [Table.get?_put_of_ne _ (Ne.symm hk)] at h
      exact .inr (.inr ⟨if_neg fun hboth => hk hboth.1, get?_of_swept h⟩)
  | inserted free room =>
    rw [Table.get?_insertNew] at h
    by_cases hk : a.runnerId = k
    · -- a new row starts at token 0
      subst hk
      rw [if_pos rfl, free] at h
      obtain rfl := Option.some.inj h
      refine .inl ⟨?_, rfl⟩
      rw [if_pos ⟨rfl, rfl⟩, free]
      rfl
    · rw [if_neg (Ne.symm hk)] at h
      exact .inr (.inr ⟨if_neg fun hboth => hk hboth.1, get?_of_swept h⟩)

theorem effect_row {rows : Rows} (h : (perform c rows).2.get? k = some row) :
    (effect c rows k = .inserts ∧ row.fencingToken = 0) ∨
    (effect c rows k = .renews ∧ ∃ row', rows.get? k = some row' ∧
      row.fencingToken = row'.fencingToken + 1) ∨
    (effect c rows k = .keeps ∧ rows.get? k = some row) := by
  cases c with
  | acquire a now => exact effect_acquire h
  | release runnerId p token =>
    refine .inr (.inr ⟨rfl, ?_⟩)
    have hcases := release_cases runnerId p token rows
    have h' : (release runnerId p token rows).2.get? k = some row := h
    generalize (release runnerId p token rows).1 = x at hcases
    generalize (release runnerId p token rows).2 = rows' at hcases h'
    cases hcases with
    | missing _ => exact h'
    | stale _ _ _ => exact h'
    | other _ _ _ => exact h'
    | deleted _ _ _ =>
      rw [Table.get?_delete] at h'
      exact (Option.filter_eq_some_iff.mp h').1
  | prune now => exact .inr (.inr ⟨rfl, get?_of_swept h⟩)
  | select => exact .inr (.inr ⟨rfl, h⟩)
  | writeAll rs =>
    have heffect : effect (.writeAll rs) rows k =
        if (writeAll rs rows).1.isOk ∧ k ∈ rs.map LeaseRecord.runnerId then .inserts
        else .keeps := rfl
    have h' : (writeAll rs rows).2.get? k = some row := h
    rw [heffect]
    generalize hw : writeAll rs rows = w at h' ⊢
    obtain ⟨x, rows'⟩ := w
    cases x with
    | error e =>
      rw [writeAll_error hw] at h'
      exact .inr (.inr ⟨if_neg (by rintro ⟨h, -⟩; cases h), h'⟩)
    | ok u =>
      rw [writeAll_ok hw] at h'
      obtain ⟨r, hr, rfl⟩ := Option.map_eq_some_iff.mp h'
      have hk : r.runnerId = k := by simpa using List.find?_some hr
      exact .inl ⟨if_pos ⟨rfl, List.mem_map.mpr ⟨r, List.mem_of_find?_eq_some hr, hk⟩⟩, rfl⟩

/-- **A fencing token counts the renewals of its row.** -/
theorem token_eq_renewals (p : Path Step .new cs s) (h : s.rows.get? k = some row) :
    row.fencingToken = s.renewals k := by
  -- over all runners, since a step may touch any row
  have hrun := p.invariant (I := fun s => ∀ k row, s.rows.get? k = some row →
      row.fencingToken = s.renewals k) (fun s c t hi hs => ?_) (fun k row hrow => by cases hrow)
  · exact hrun k row h
  · intro k row hrow
    subst hs
    have hrow' : (perform c s.rows).2.get? k = some row := hrow
    unfold World.call
    dsimp only
    rcases effect_row hrow' with ⟨heffect, htoken⟩ | ⟨heffect, row', hrow', htoken⟩ |
      ⟨heffect, hkept⟩
    · rw [heffect, htoken]
    · rw [heffect, htoken, hi k row' hrow']
    · rw [heffect, hi k row hkept]

theorem shown_tenure_le (p : Path Step .new cs s) {x : Shown} (h : x ∈ s.shown) :
    x.tenure ≤ s.tenure x.runnerId := by
  have hle : ∀ (s : World) (c : TableCall) (k : String), s.tenure k ≤ s.tenureAfter c k := by
    intro s c k
    unfold World.tenureAfter
    split
    · exact Nat.le_succ _
    · exact le_refl _
  have hrun := p.invariant (I := fun s => ∀ x ∈ s.shown, x.tenure ≤ s.tenure x.runnerId)
    (fun s c t hi hs => ?_) (by simp [World.new])
  · exact hrun x h
  · intro x hx
    subst hs
    rcases List.mem_append.mp hx with hx | hx
    · exact (hi x hx).trans (hle s c x.runnerId)
    · obtain ⟨y, -, rfl⟩ := List.mem_map.mp hx
      exact le_refl _

theorem release_token_iff {rows : Rows} {runnerId : String} {p : Option String} {n : ℕ} :
    (release runnerId p (some n) rows).1 = .ok true ↔
      ∃ row, rows.get? runnerId = some row ∧ row.fencingToken = n ∧
        ∀ q, p = some q → q = row.principalId := by
  have hcases := release_cases runnerId p (some n) rows
  generalize (release runnerId p (some n) rows).1 = x at hcases ⊢
  generalize (release runnerId p (some n) rows).2 = rows' at hcases
  cases hcases with
  | missing free =>
    constructor
    · intro h
      cases h
    · rintro ⟨row, hrow, -⟩
      rw [free] at hrow
      cases hrow
  | @stale row token found given other =>
    constructor
    · intro h
      cases h
    · rintro ⟨row', hrow', htoken, -⟩
      obtain rfl := Option.some.inj (found.symm.trans hrow')
      exact absurd (htoken.trans (Option.some.inj given)).symm other
  | @other row q found given other =>
    constructor
    · intro h
      cases h
    · rintro ⟨row', hrow', -, hown⟩
      obtain rfl := Option.some.inj (found.symm.trans hrow')
      exact absurd (hown q given) other
  | @deleted row found token own =>
    exact ⟨fun _ => ⟨row, found, (token n rfl).symm, own⟩, fun _ => rfl⟩

/-- **When a token that was shown deletes no later row**: in every run, a release with a token
of a runner's row deletes no row of the runner inserted since exactly if the row that is there
was renewed another number of times than the token says, or the principal named is not its
own. -/
theorem deletes_shown_iff (run : Path Step .new cs s) {x : Shown} (hx : x ∈ s.shown)
    (p : Option String) :
    ((release x.runnerId p (some x.token) s.rows).1 = .ok true → s.tenure x.runnerId = x.tenure) ↔
      (x.tenure < s.tenure x.runnerId → ∀ row, s.rows.get? x.runnerId = some row →
        s.renewals x.runnerId = x.token → ∃ q, p = some q ∧ q ≠ row.principalId) := by
  constructor
  · intro hsame hlater row hrow hrenewed
    by_contra hown
    have hreleased : (release x.runnerId p (some x.token) s.rows).1 = .ok true := by
      refine release_token_iff.mpr ⟨row, hrow, ?_, fun q hq => ?_⟩
      · rw [token_eq_renewals run hrow, hrenewed]
      · by_contra hne
        exact hown ⟨q, hq, hne⟩
    exact absurd (hsame hreleased) (Nat.ne_of_gt hlater)
  · intro hcond hreleased
    obtain ⟨row, hrow, htoken, hown⟩ := release_token_iff.mp hreleased
    refine le_antisymm (not_lt.mp fun hlater => ?_) (shown_tenure_le run hx)
    obtain ⟨q, hq, hne⟩ := hcond hlater row hrow ((token_eq_renewals run hrow).symm.trans htoken)
    exact hne (hown q hq)

/-- A principal acquires `gpu-1` for a minute. -/
def minuteOf (principalId : String) : AcquireArgs where
  principalId := principalId
  maxRunners := 1
  runnerId := "gpu-1"
  duration := 60

def bobAfterAlice : World :=
  (World.new.call (.acquire (minuteOf "alice") 0)).call (.acquire (minuteOf "bob") 100)

/-- Alice's token releases the lease of Bob. -/
theorem later_row_deleted :
    ¬ ∀ (cs : List TableCall) (s : World) (x : Shown) (p : Option String),
      Path Step .new cs s → x ∈ s.shown →
      (release x.runnerId p (some x.token) s.rows).1 = .ok true →
      s.tenure x.runnerId = x.tenure := by
  intro h
  have hrun : Path Step .new [.acquire (minuteOf "alice") 0, .acquire (minuteOf "bob") 100]
      bobAfterAlice := .cons rfl (.single rfl)
  have := h _ _ ⟨"gpu-1", 0, 1⟩ none hrun (by decide) rfl
  exact absurd this (by decide)

/-- When Bob has renewed, Alice's token releases nothing. -/
theorem deletes_shown_iff_renewed :
    (release "gpu-1" none (some 0)
      (bobAfterAlice.call (.acquire (minuteOf "bob") 110)).rows).1 ≠ .ok true := by
  have hrun : Path Step .new [.acquire (minuteOf "alice") 0, .acquire (minuteOf "bob") 100,
      .acquire (minuteOf "bob") 110] (bobAfterAlice.call (.acquire (minuteOf "bob") 110)) :=
    .cons rfl (.cons rfl (.single rfl))
  intro hreleased
  have hsame := (deletes_shown_iff hrun (x := ⟨"gpu-1", 0, 1⟩) (by decide) none).mpr
    (fun _ _ _ hrenewed => absurd hrenewed (by decide)) hreleased
  exact absurd hsame (by decide)

end Steps

end Sqlite

end RunnerLease
