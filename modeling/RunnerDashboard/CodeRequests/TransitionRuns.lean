import Mathlib.Data.List.Chain
import RunnerDashboard.CodeRequests.Store
import RunnerDashboard.Lib.Path

/-!
# Interleaved transitions

A transition reads the request and saves it in two critical sections, with two awaited writes in
between.  So between its read and its save another call may save the request, and the save that
comes later overwrites it.

## Main results

* `path_of_transition` — a call that runs alone takes the steps of `Store.transition`.
* `linear_of_upToDate` — **a run is linear if every save is up to date.**
* `left_done` — two calls that read the same state.
-/

namespace CodeRequests

open Lts

/-! ### The calls -/

/-- How far a call is. -/
inductive Phase
  | ready
  /-- The request was read, and the move is legal. -/
  | validated (current updated : CodeRequest)
  /-- The comment was posted, or failed. -/
  | commented (current updated : CodeRequest)
  /-- The issue was patched; the lock is held. -/
  | patched (current updated : CodeRequest)
  | returned (updated : CodeRequest)
  | raised

/-- The store, the call that holds its lock, and the calls. -/
structure Transitions where
  store : Store
  lock : Option ℕ
  phase : ℕ → Phase

/-- What a step does. -/
inductive Event
  | read (c : ℕ)
  | refused (c : ℕ)
  | commented (c : ℕ)
  /-- `save` has written to GitHub; the cache is next. -/
  | patched (c : ℕ) (updated : CodeRequest)
  | patchFailed (c : ℕ)
  | stored (c : ℕ) (updated : CodeRequest)
  | storeFailed (c : ℕ)

section Steps

variable (L : Library) (repos : List String) (calls : ℕ → Call)

/-- A step of a call.  While the cache is rebuilt, GitHub may answer anything; the writes to GitHub
may fail. -/
inductive CallStep : Transitions → Event → Transitions → Prop
  | read {s : Transitions} {c : ℕ} {now : String} {seen : String → List Issue}
      {current updated : CodeRequest} {store : Store}
      (ready : s.phase c = .ready) (free : s.lock = none)
      (begun : Store.begin L repos now (calls c) { s.store with issues := seen } =
        (.ok (current, updated), store)) :
      CallStep s (.read c)
        { s with
          store := { store with issues := s.store.issues }
          phase := Function.update s.phase c (.validated current updated) }
  | refused {s : Transitions} {c : ℕ} {now : String} {seen : String → List Issue} {text : String}
      {store : Store}
      (ready : s.phase c = .ready) (free : s.lock = none)
      (begun : Store.begin L repos now (calls c) { s.store with issues := seen } =
        (.error text, store)) :
      CallStep s (.refused c)
        { s with
          store := { store with issues := s.store.issues }
          phase := Function.update s.phase c .raised }
  | comment {s : Transitions} {c : ℕ} {current updated : CodeRequest} {store : Store}
      (validated : s.phase c = .validated current updated)
      (posted : store = s.store ∨
        ∃ createdAt, store = s.store.postComment current updated createdAt) :
      CallStep s (.commented c)
        { s with store := store, phase := Function.update s.phase c (.commented current updated) }
  | patch {s : Transitions} {c : ℕ} {current updated : CodeRequest}
      (commented : s.phase c = .commented current updated) (free : s.lock = none) :
      CallStep s (.patched c updated)
        ⟨s.store.patchIssue L updated, some c,
          Function.update s.phase c (.patched current updated)⟩
  | patchFailed {s : Transitions} {c : ℕ} {current updated : CodeRequest}
      (commented : s.phase c = .commented current updated) (free : s.lock = none)
      (numbered : updated.issueNumber.isSome = true) :
      CallStep s (.patchFailed c) { s with phase := Function.update s.phase c .raised }
  | store {s : Transitions} {c : ℕ} {current updated : CodeRequest} {store : Store}
      (patched : s.phase c = .patched current updated) (held : s.lock = some c)
      (written : s.store.writeBack updated = some store) :
      CallStep s (.stored c updated) ⟨store, none, Function.update s.phase c (.returned updated)⟩
  | storeFailed {s : Transitions} {c : ℕ} {current updated : CodeRequest}
      (patched : s.phase c = .patched current updated) (held : s.lock = some c)
      (written : s.store.writeBack updated = none) :
      CallStep s (.storeFailed c)
        { s with lock := none, phase := Function.update s.phase c .raised }

end Steps

/-- **A call that runs alone** takes the steps of `Store.transition`. -/
theorem path_of_transition {L : Library} {repos : List String} {calls : ℕ → Call} {s : Transitions}
    {c : ℕ} {now createdAt : String} {updated : CodeRequest} {store : Store}
    (hready : s.phase c = .ready) (hfree : s.lock = none)
    (h : s.store.transition L repos now (calls c) createdAt = (some updated, store)) :
    ∃ s', Path (CallStep L repos calls) s
        [.read c, .commented c, .patched c updated, .stored c updated] s' ∧
      s'.store = store ∧ s'.phase c = .returned updated ∧ s'.lock = none := by
  unfold Store.transition at h
  cases hbegin : s.store.begin L repos now (calls c) with
  | mk result s₁ =>
    rw [hbegin] at h
    cases result with
    | error text => cases h
    | ok moved =>
      obtain ⟨current, updated'⟩ := moved
      dsimp only [Store.save] at h
      cases hwrite : ((s₁.postComment current updated' createdAt).patchIssue L updated').writeBack
        updated' with
      | none => rw [hwrite] at h; cases h
      | some s₂ =>
        rw [hwrite] at h
        obtain ⟨hupdated, rfl⟩ := Prod.mk.inj h
        obtain rfl := Option.some.inj hupdated
        have hissues : ({ s₁ with issues := s.store.issues } : Store) = s₁ := by
          rcases begin_store hbegin with rfl | ⟨-, hissues⟩
          · rfl
          · rw [← hissues]
        have hread : CallStep L repos calls s (.read c) _ := .read hready hfree hbegin
        rw [hissues] at hread
        refine ⟨_, .cons hread (.cons (CallStep.comment (Function.update_self _ _ _)
          (.inr ⟨createdAt, rfl⟩)) (.cons (CallStep.patch (Function.update_self _ _ _) hfree)
          (.single (CallStep.store (Function.update_self _ _ _) rfl hwrite)))), rfl,
          Function.update_self _ _ _, rfl⟩

/-- No call has begun. -/
def Start (s : Transitions) : Prop := s.lock = none ∧ ∀ c, s.phase c = .ready

/-! ### What a run saves -/

def saves (rid : String) (es : List Event) : List CodeRequest :=
  es.filterMap fun
    | .patched _ updated => if updated.id = rid then some updated else none
    | _ => none

def returns (rid : String) (es : List Event) : List CodeRequest :=
  es.filterMap fun
    | .stored _ updated => if updated.id = rid then some updated else none
    | _ => none

/-- The record that the run found, and the records that it saved. -/
def history (rid : String) (s₀ : Transitions) (es : List Event) : List CodeRequest :=
  (s₀.store.cached rid).toList ++ saves rid es

def CodeRequest.lastEvent (r : CodeRequest) : Option CodeRequestAuditEvent := r.auditTrail.getLast?

/-- **The lifecycle of a request is linear.** -/
structure Linear (rid : String) (s₀ : Transitions) (es : List Event) (s : Transitions) : Prop where
  /-- Each saved state is reached from the one before by a move that is legal or overridden. -/
  path : (history rid s₀ es).IsChain fun a b =>
    ∃ event, b.lastEvent = some event ∧ isLegalTransition a.state b.state event.override = true
  /-- The event of every call that returned is in the final trail. -/
  kept : returns rid es ≠ [] → ∃ final, s.store.cached rid = some final ∧
    ((returns rid es).filterMap CodeRequest.lastEvent).Sublist final.auditTrail
  /-- A state that is done or cancelled is left only by a move from it. -/
  closed : (history rid s₀ es).IsChain fun a b =>
    a.state = .done ∨ a.state = .cancelled → b.state ≠ a.state →
      ∃ event, b.lastEvent = some event ∧ event.fromState = a.state

/-- A save finds in the cache the record that its call read, and the cache can be written. -/
def UpToDate (s : Transitions) : Event → Prop
  | .patched c _ => ∀ current updated, s.phase c = .commented current updated →
      s.store.cached current.id = some current ∧ s.store.writable
  | _ => True

/-! ### The records of a run -/

def Follows (a b : CodeRequest) : Prop := ∃ event, Advances a b event

section Invariant

variable {L : Library} {repos : List String} {calls : ℕ → Call} {rid : String}
  {s₀ s s' : Transitions} {es : List Event} {e : Event}

/-- The records that are patched and not yet in the cache. -/
def pending (rid : String) (s : Transitions) : List CodeRequest :=
  match s.lock with
  | none => []
  | some c =>
    match s.phase c with
    | .patched _ updated => if updated.id = rid then [updated] else []
    | _ => []

/-- The move that a call is about to save. -/
def Phase.moves : Phase → Prop
  | .validated current updated => Follows current updated
  | .commented current updated => Follows current updated
  | .patched current updated => Follows current updated
  | _ => True

/-- What holds after every run whose saves are up to date. -/
structure Inv (rid : String) (s₀ : Transitions) (es : List Event) (s : Transitions) : Prop where
  moves : ∀ c, (s.phase c).moves
  holder : ∀ c current updated, s.phase c = .patched current updated → s.lock = some c
  writable : s.lock ≠ none → s.store.writable
  saved : saves rid es = returns rid es ++ pending rid s
  chain : (history rid s₀ es).IsChain Follows
  cached : ∀ r, ((s₀.store.cached rid).toList ++ returns rid es).getLast? = some r →
    s.store.cached rid = some r

theorem saves_snoc (rid : String) (es : List Event) (e : Event) :
    saves rid (es ++ [e]) = saves rid es ++ saves rid [e] := List.filterMap_append

theorem returns_snoc (rid : String) (es : List Event) (e : Event) :
    returns rid (es ++ [e]) = returns rid es ++ returns rid [e] := List.filterMap_append

theorem history_snoc (rid : String) (s₀ : Transitions) (es : List Event) (e : Event) :
    history rid s₀ (es ++ [e]) = history rid s₀ es ++ saves rid [e] := by
  rw [history, history, saves_snoc, List.append_assoc]

theorem pending_of_free (h : s.lock = none) : pending rid s = [] := by
  unfold pending
  rw [h]

/-- A step of one call leaves the moves of the others. -/
theorem moves_update {c : ℕ} {phase : Phase} (h : ∀ c, (s.phase c).moves) (hphase : phase.moves)
    (c' : ℕ) : (Function.update s.phase c phase c').moves := by
  by_cases hc : c' = c
  · rw [hc, Function.update_self]
    exact hphase
  · rw [Function.update_of_ne hc]
    exact h c'

theorem inv_start (h : Start s₀) : Inv rid s₀ [] s₀ where
  moves := by
    intro c
    rw [h.2 c]
    trivial
  holder := by
    intro c current updated hphase
    rw [h.2 c] at hphase
    cases hphase
  writable := fun hlock => absurd h.1 hlock
  saved := (pending_of_free h.1).symm
  chain := by
    unfold history
    cases s₀.store.cached rid with
    | none => exact .nil
    | some r => exact .singleton r
  cached := by
    intro r hr
    rw [returns, List.filterMap_nil, List.append_nil] at hr
    cases hcached : s₀.store.cached rid with
    | none => rw [hcached] at hr; cases hr
    | some r' =>
      rw [hcached] at hr
      exact hr

/-- A step that neither saves nor returns keeps the invariant, if it keeps the cache and the
lock. -/
theorem Inv.silent (h : Inv rid s₀ es s) {c : ℕ} {phase : Phase} (store : Store)
    (hsaves : saves rid [e] = []) (hreturns : returns rid [e] = []) (hphase : phase.moves)
    (hpatched : ∀ current updated, phase ≠ .patched current updated)
    (hother : ∀ current updated, s.phase c ≠ .patched current updated)
    (hwritable : s.lock ≠ none → store.writable)
    (hcached : ∀ r, ((s₀.store.cached rid).toList ++ returns rid es).getLast? = some r →
      store.cached rid = some r) :
    Inv rid s₀ (es ++ [e]) { s with store := store, phase := Function.update s.phase c phase } where
  moves := moves_update h.moves hphase
  holder := by
    intro c' current updated hc'
    change Function.update s.phase c phase c' = _ at hc'
    by_cases hc : c' = c
    · subst hc
      rw [Function.update_self] at hc'
      exact absurd hc' (hpatched current updated)
    · rw [Function.update_of_ne hc] at hc'
      exact h.holder c' current updated hc'
  writable := hwritable
  saved := by
    rw [saves_snoc, returns_snoc, hsaves, hreturns, List.append_nil, List.append_nil, h.saved]
    congr 1
    -- the call that holds the lock is another one
    unfold pending
    cases hlock : s.lock with
    | none => rfl
    | some c' =>
      dsimp only
      by_cases hc : c' = c
      · subst hc
        rw [Function.update_self]
        cases hold : s.phase c' with
        | patched current updated => exact absurd hold (hother current updated)
        | _ =>
          cases phase with
          | patched current updated => exact absurd rfl (hpatched current updated)
          | _ => rfl
      · rw [Function.update_of_ne hc]
  chain := by
    rw [history_snoc, hsaves, List.append_nil]
    exact h.chain
  cached := by
    rw [returns_snoc, hreturns, List.append_nil]
    exact hcached

theorem saves_patched (rid : String) (c : ℕ) (updated : CodeRequest) :
    saves rid [.patched c updated] = if updated.id = rid then [updated] else [] := by
  by_cases h : updated.id = rid
  · simp [saves, h]
  · simp [saves, h]

theorem returns_stored (rid : String) (c : ℕ) (updated : CodeRequest) :
    returns rid [.stored c updated] = if updated.id = rid then [updated] else [] := by
  by_cases h : updated.id = rid
  · simp [returns, h]
  · simp [returns, h]

theorem Inv.free_of_commented (h : Inv rid s₀ es s) (hfree : s.lock = none) (c : ℕ)
    (current updated : CodeRequest) : s.phase c ≠ .patched current updated := by
  intro hc
  have hlock := h.holder c current updated hc
  rw [hfree] at hlock
  cases hlock

/-- **A save that is up to date** extends the history by a move. -/
theorem Inv.patch (h : Inv rid s₀ es s) {c : ℕ} {current updated : CodeRequest}
    (hcommented : s.phase c = .commented current updated) (hfree : s.lock = none)
    (hcurrent : s.store.cached current.id = some current) (hwritable : s.store.writable) :
    Inv rid s₀ (es ++ [.patched c updated]) ⟨s.store.patchIssue L updated, some c,
      Function.update s.phase c (.patched current updated)⟩ := by
  have hmoves : Follows current updated := by
    have := h.moves c
    rw [hcommented] at this
    exact this
  have hcache := patchIssue_cache (L := L) updated s.store
  have hreturns : returns rid [.patched c updated] = [] := rfl
  have hsaved := h.saved
  rw [pending_of_free hfree, List.append_nil] at hsaved
  refine ⟨moves_update h.moves hmoves, ?_, ?_, ?_, ?_, ?_⟩
  · intro c' current' updated' hc'
    change Function.update s.phase c _ c' = _ at hc'
    by_cases hc : c' = c
    · rw [hc]
    · rw [Function.update_of_ne hc] at hc'
      exact absurd hc' (h.free_of_commented hfree c' current' updated')
  · intro _
    unfold Store.writable Store.readCache at hwritable ⊢
    rw [hcache]
    exact hwritable
  · rw [saves_snoc, returns_snoc, hreturns, List.append_nil, hsaved, saves_patched]
    congr 1
    unfold pending
    dsimp only
    rw [Function.update_self]
  · rw [history_snoc, saves_patched]
    split_ifs with hid
    · refine h.chain.append (.singleton updated) ?_
      intro a ha b hb
      obtain rfl := Option.some.inj hb
      -- the last record of the history is the one in the cache, and the call has read it
      have hlast := h.cached a (by rw [← hsaved]; exact ha)
      obtain ⟨event, hadvances⟩ := hmoves
      rw [← hadvances.id_eq, hid, hlast] at hcurrent
      obtain rfl := Option.some.inj hcurrent
      exact ⟨event, hadvances⟩
    · rw [List.append_nil]
      exact h.chain
  · intro r hr
    rw [returns_snoc, hreturns, List.append_nil] at hr
    rw [cached_congr hcache]
    exact h.cached r hr

/-- **The end of a save**: the record is in the cache, and the call returns it. -/
theorem Inv.store (h : Inv rid s₀ es s) {c : ℕ} {current updated : CodeRequest} {store : Store}
    (hpatched : s.phase c = .patched current updated) (hheld : s.lock = some c)
    (hwritten : s.store.writeBack updated = some store) :
    Inv rid s₀ (es ++ [.stored c updated])
      ⟨store, none, Function.update s.phase c (.returned updated)⟩ := by
  have hsaves : saves rid [.stored c updated] = [] := rfl
  have hpending : pending rid s = if updated.id = rid then [updated] else [] := by
    unfold pending
    rw [hheld]
    dsimp only
    rw [hpatched]
  have hcached := cached_writeBack hwritten
  refine ⟨moves_update h.moves trivial, ?_, fun hlock => absurd rfl hlock, ?_, ?_, ?_⟩
  · intro c' current' updated' hc'
    change Function.update s.phase c _ c' = _ at hc'
    by_cases hc : c' = c
    · subst hc
      rw [Function.update_self] at hc'
      cases hc'
    · rw [Function.update_of_ne hc] at hc'
      have hlock := h.holder c' current' updated' hc'
      rw [hheld] at hlock
      exact absurd (Option.some.inj hlock).symm hc
  · rw [saves_snoc, returns_snoc, hsaves, List.append_nil, h.saved, hpending, returns_stored,
      pending_of_free rfl, List.append_nil]
  · rw [history_snoc, hsaves, List.append_nil]
    exact h.chain
  · intro r hr
    rw [returns_snoc, returns_stored] at hr
    rw [hcached rid]
    by_cases hid : updated.id = rid
    · rw [if_pos hid, ← List.append_assoc, List.getLast?_concat] at hr
      rw [if_pos hid.symm]
      exact hr
    · rw [if_neg hid, List.append_nil] at hr
      rw [if_neg (Ne.symm hid)]
      exact h.cached r hr

/-- The cache is kept where a call begins, as far as the run has saved anything. -/
theorem Inv.begun (h : Inv rid s₀ es s) {now : String} {seen : String → List Issue} {call : Call}
    {result : Except String (CodeRequest × CodeRequest)} {store : Store}
    (hbegun : Store.begin L repos now call { s.store with issues := seen } = (result, store))
    (r : CodeRequest)
    (hr : ((s₀.store.cached rid).toList ++ returns rid es).getLast? = some r) :
    ({ store with issues := s.store.issues } : Store).cached rid = some r := by
  have hcached := h.cached r hr
  rcases begin_store hbegun with rfl | ⟨hnone, -⟩
  · exact hcached
  · -- with a record in the cache the list is not rebuilt
    have : s.store.cached rid = none := hnone rid
    rw [hcached] at this
    cases this

/-- **Every step keeps the invariant.** -/
theorem inv_step (h : Inv rid s₀ es s) (hstep : CallStep L repos calls s e s')
    (hupToDate : UpToDate s e) : Inv rid s₀ (es ++ [e]) s' := by
  cases hstep with
  | read ready free begun =>
    refine h.silent _ rfl rfl ?_ (fun _ _ => Phase.noConfusion) (h.free_of_commented free _)
      (fun hlock => absurd free hlock) (h.begun begun)
    obtain ⟨event, hadvances, -⟩ := advances_of_transition (begin_ok begun)
    exact ⟨event, hadvances⟩
  | refused ready free begun =>
    exact h.silent _ rfl rfl trivial (fun _ _ => Phase.noConfusion) (h.free_of_commented free _)
      (fun hlock => absurd free hlock) (h.begun begun)
  | @comment c current updated store validated posted =>
    have hcache : store.cache = s.store.cache := by
      rcases posted with rfl | ⟨createdAt, rfl⟩
      · rfl
      · exact postComment_cache _ _ _ _
    have hmoves := h.moves c
    rw [validated] at hmoves
    refine h.silent _ rfl rfl hmoves (fun _ _ => Phase.noConfusion) ?_ ?_ ?_
    · intro current' updated' hc
      rw [validated] at hc
      cases hc
    · intro hlock
      have := h.writable hlock
      unfold Store.writable Store.readCache at this ⊢
      rw [hcache]
      exact this
    · intro r hr
      rw [cached_congr hcache]
      exact h.cached r hr
  | patch commented free =>
    obtain ⟨hcurrent, hwritable⟩ := hupToDate _ _ commented
    exact h.patch commented free hcurrent hwritable
  | patchFailed commented free numbered =>
    exact h.silent s.store rfl rfl trivial (fun _ _ => Phase.noConfusion)
      (h.free_of_commented free _) (fun hlock => absurd free hlock) h.cached
  | store patched held written => exact h.store patched held written
  | @storeFailed c current updated patched held written =>
    -- the cache was writable when the lock was taken
    have hlock : s.lock ≠ none := by
      rw [held]
      exact Option.some_ne_none c
    have hsome : (s.store.writeBack updated).isSome = true := writeBack_isSome (h.writable hlock)
    rw [written] at hsome
    cases hsome

/-! ### The lifecycle -/

theorem events_of_chain {rs : List CodeRequest} (hchain : rs.IsChain Follows) {final : CodeRequest}
    (hfinal : rs.getLast? = some final) :
    (rs.filterMap CodeRequest.lastEvent).Sublist final.auditTrail := by
  induction rs using List.reverseRecOn generalizing final with
  | nil => cases hfinal
  | append_singleton rs b ih =>
    rw [List.getLast?_concat] at hfinal
    obtain rfl := Option.some.inj hfinal
    obtain ⟨hchain, -, hlast⟩ := List.isChain_append.mp hchain
    rw [List.filterMap_append]
    cases hrs : rs.getLast? with
    | none =>
      rw [List.getLast?_eq_none_iff.mp hrs]
      cases hevent : b.lastEvent with
      | none =>
        rw [List.filterMap_cons_none hevent]
        exact List.nil_sublist _
      | some event =>
        rw [List.filterMap_cons_some hevent]
        exact List.singleton_sublist.mpr (List.mem_of_getLast? hevent)
    | some a =>
      obtain ⟨event, hadvances⟩ := hlast a hrs b rfl
      have hevent : b.lastEvent = some event := hadvances.getLast?
      rw [List.filterMap_cons_some hevent, hadvances.trail]
      exact (ih hchain hrs).append (List.Sublist.refl _)

theorem linear_of_inv (h : Inv rid s₀ es s) : Linear rid s₀ es s where
  path := by
    refine h.chain.imp fun a b hfollows => ?_
    obtain ⟨event, hadvances⟩ := hfollows
    refine ⟨event, hadvances.getLast?, ?_⟩
    rw [hadvances.state]
    exact hadvances.legal
  kept := by
    intro hne
    obtain ⟨r, hr⟩ := Option.isSome_iff_exists.mp (List.getLast?_isSome.mpr hne)
    have hlast : ((s₀.store.cached rid).toList ++ returns rid es).getLast? = some r := by
      rw [List.getLast?_append, hr]
      rfl
    refine ⟨r, h.cached r hlast, ?_⟩
    have hchain := h.chain
    rw [history, h.saved, ← List.append_assoc] at hchain
    have hall := events_of_chain hchain.left_of_append hlast
    rw [List.filterMap_append] at hall
    exact (List.sublist_append_right _ _).trans hall
  closed := by
    refine h.chain.imp fun a b hfollows _ _ => ?_
    obtain ⟨event, hadvances⟩ := hfollows
    exact ⟨event, hadvances.getLast?, hadvances.fromState⟩

end Invariant

/-! ### Calls on one request -/

def executing : CodeRequest where
  id := "cr-demo"
  repository := "Runner_Dashboard"
  title := "Add a gate"
  issueNumber := some 7
  issueUrl := none
  state := .executing
  prompt := "Add a gate"
  requester := ⟨"operator", .human⟩
  plannerProfileId := none
  executorProfileId := none
  profileSnapshot := none
  boardRoute := .auto
  boardProposal := none
  planEpic := none
  branch := "main"
  standards := []
  auditTrail := []
  createdAt := "2026-09-25T10:00:00Z"
  updatedAt := "2026-09-25T10:00:00Z"

def acceptOrFail (c : ℕ) : Call where
  key := "cr-demo"
  args :=
    { toState := if c = 0 then "done" else "failed"
      actor := "operator"
      reason := "checked"
      isOperatorOverride := false
      gate := some .acceptance
      timestamp := "2026-09-25T11:00:00Z" }

def executed (c : ℕ) : CodeRequest :=
  let target : CodeRequestState := if c = 0 then .done else .failed
  { executing with
    state := target
    updatedAt := "2026-09-25T11:00:00Z"
    auditTrail := [⟨"operator", .executing, target, "checked", "2026-09-25T11:00:00Z", false⟩] }

def beforeCalls : Transitions := ⟨⟨some [.request executing], fun _ => []⟩, none, fun _ => .ready⟩

theorem begin_executing (c : ℕ) (hc : c < 2) :
    Store.begin jsonLibrary [] "" (acceptOrFail c) beforeCalls.store =
      (.ok (executing, executed c), beforeCalls.store) := by
  interval_cases c
  · rfl
  · rfl

/-! ### When a run is linear -/

/-- **A run is linear if every save is up to date.** -/
theorem linear_of_upToDate {L : Library} {repos : List String} {calls : ℕ → Call}
    {s₀ s : Transitions} {es : List Event} (hstart : Start s₀)
    (p : Path (fun s e s' => CallStep L repos calls s e s' ∧ UpToDate s e) s₀ es s) (rid : String) :
    Linear rid s₀ es s :=
  linear_of_inv (p.history (I := Inv rid s₀)
    (fun _ _ _ _ h hstep => inv_step h hstep.1 hstep.2) (inv_start hstart))

def planned : CodeRequest := { executing with state := .planned }

/-- Two calls begin the execution, and the others accept the request. -/
def beginOrAccept (c : ℕ) : Call where
  key := "cr-demo"
  args :=
    { toState := if c < 2 then "executing" else "done"
      actor := "operator"
      reason := "checked"
      isOperatorOverride := false
      gate := if c < 2 then none else some .acceptance
      timestamp := "2026-09-25T11:00:00Z" }

def begun : CodeRequest :=
  { planned with
    state := .executing
    updatedAt := "2026-09-25T11:00:00Z"
    auditTrail := [⟨"operator", .planned, .executing, "checked", "2026-09-25T11:00:00Z", false⟩] }

def accepted : CodeRequest :=
  { begun with
    state := .done
    auditTrail := begun.auditTrail ++
      [⟨"operator", .executing, .done, "checked", "2026-09-25T11:00:00Z", false⟩] }

/-- The planned request is in the cache, and no call has begun. -/
def beforeBegin : Transitions := ⟨⟨some [.request planned], fun _ => []⟩, none, fun _ => .ready⟩

/-- Two calls read the planned request.  One saves it, the write of the other one fails, and a third
one reads and saves what the first one saved. -/
theorem linear_begun : ∃ es s,
    Path (fun s e s' => CallStep jsonLibrary [] beginOrAccept s e s' ∧ UpToDate s e)
      beforeBegin es s ∧
      returns "cr-demo" es = [begun, accepted] ∧ Linear "cr-demo" beforeBegin es s := by
  have hpath : ∃ s, Path (fun s e s' => CallStep jsonLibrary [] beginOrAccept s e s' ∧ UpToDate s e)
      beforeBegin [.read 0, .read 1, .commented 0, .commented 1, .patched 0 begun, .stored 0 begun,
        .patchFailed 1, .read 2, .commented 2, .patched 2 accepted, .stored 2 accepted] s := by
    refine Path.exists_cons
      ⟨@CallStep.read _ _ _ _ 0 "" (fun _ => []) planned begun _ rfl rfl rfl, trivial⟩ ?_
    refine Path.exists_cons
      ⟨@CallStep.read _ _ _ _ 1 "" (fun _ => []) planned begun _ rfl rfl rfl, trivial⟩ ?_
    refine Path.exists_cons ⟨@CallStep.comment _ _ _ _ 0 planned begun _ rfl (.inl rfl), trivial⟩ ?_
    refine Path.exists_cons ⟨@CallStep.comment _ _ _ _ 1 planned begun _ rfl (.inl rfl), trivial⟩ ?_
    refine Path.exists_cons ⟨@CallStep.patch _ _ _ _ 0 planned begun rfl rfl, ?_⟩ ?_
    · rintro current updated ⟨⟩
      exact ⟨rfl, rfl⟩
    refine Path.exists_cons ⟨@CallStep.store _ _ _ _ 0 planned begun _ rfl rfl rfl, trivial⟩ ?_
    refine Path.exists_cons ⟨@CallStep.patchFailed _ _ _ _ 1 planned begun rfl rfl rfl, trivial⟩ ?_
    refine Path.exists_cons
      ⟨@CallStep.read _ _ _ _ 2 "" (fun _ => []) begun accepted _ rfl rfl rfl, trivial⟩ ?_
    refine Path.exists_cons
      ⟨@CallStep.comment _ _ _ _ 2 begun accepted _ rfl (.inl rfl), trivial⟩ ?_
    refine Path.exists_cons ⟨@CallStep.patch _ _ _ _ 2 begun accepted rfl rfl, ?_⟩ ?_
    · rintro current updated ⟨⟩
      exact ⟨rfl, rfl⟩
    refine Path.exists_cons ⟨@CallStep.store _ _ _ _ 2 begun accepted _ rfl rfl rfl, trivial⟩ ?_
    exact ⟨_, .nil _⟩
  obtain ⟨s, hpath⟩ := hpath
  exact ⟨_, s, hpath, rfl, linear_of_upToDate ⟨rfl, fun _ => rfl⟩ hpath "cr-demo"⟩

/-- Two calls read the request while it is executed; one saves it as done, the other as failed. -/
theorem left_done :
    ¬ ∀ (L : Library) (repos : List String) (calls : ℕ → Call) (s₀ s : Transitions)
      (es : List Event)
      (rid : String), Start s₀ → Path (CallStep L repos calls) s₀ es s → Linear rid s₀ es s := by
  intro hall
  have hpath : ∃ s, Path (CallStep jsonLibrary [] acceptOrFail) beforeCalls
      [.read 0, .read 1, .commented 0, .commented 1, .patched 0 (executed 0),
        .stored 0 (executed 0),
        .patched 1 (executed 1), .stored 1 (executed 1)] s := by
    refine Path.exists_cons (.read rfl rfl (begin_executing 0 (by decide))) ?_
    refine Path.exists_cons (.read rfl rfl (begin_executing 1 (by decide))) ?_
    refine Path.exists_cons (@CallStep.comment _ _ _ _ 0 executing (executed 0) _ rfl (.inl rfl)) ?_
    refine Path.exists_cons (@CallStep.comment _ _ _ _ 1 executing (executed 1) _ rfl (.inl rfl)) ?_
    refine Path.exists_cons (@CallStep.patch _ _ _ _ 0 executing (executed 0) rfl rfl) ?_
    refine Path.exists_cons (@CallStep.store _ _ _ _ 0 executing (executed 0) _ rfl rfl rfl) ?_
    refine Path.exists_cons (@CallStep.patch _ _ _ _ 1 executing (executed 1) rfl rfl) ?_
    refine Path.exists_cons (@CallStep.store _ _ _ _ 1 executing (executed 1) _ rfl rfl rfl) ?_
    exact ⟨_, .nil _⟩
  obtain ⟨s, hpath⟩ := hpath
  have hlinear := hall _ _ _ _ _ _ "cr-demo" ⟨rfl, fun _ => rfl⟩ hpath
  have hchain : [executing, executed 0, executed 1].IsChain fun a b =>
      ∃ event, b.lastEvent = some event ∧ isLegalTransition a.state b.state event.override = true :=
    hlinear.path
  obtain ⟨event, hevent, hlegal⟩ :=
    (List.isChain_cons_cons.mp (List.isChain_cons_cons.mp hchain).2).1
  obtain rfl := Option.some.inj hevent
  exact absurd hlegal (by decide)

end CodeRequests
