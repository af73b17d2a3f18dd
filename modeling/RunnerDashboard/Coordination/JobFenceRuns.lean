import RunnerDashboard.Coordination.JobFences
import RunnerDashboard.Lib.Path

/-!
# A release ends the tenure of its fence

The fence of a release is compared before the release waits for the lock, and the fences are counted
in memory.  Where no fence is forgotten, and no claim gets one while a release of its own session
waits, the lease that stands in the store is always that of the last fence, unless a claim is about
to get a fence for it.

## Main results

* `inv_claimNext`, `inv_releaseNext` — the steps in the lock.
* `inv_step` — every guarded step keeps the invariant.
* `path_claimActs`, `path_releaseActs` — a claim and a release with nothing in their way.
* `ends_own_tenure` — **in a run of guarded steps a release ends the tenure of its fence, and the
  fences increase.**
-/

namespace JobFences

open Lts

/-! ### Steps that are well -/

/-- No fence is forgotten.  No claim gets one while a release of its agent and session waits.  What
a release has seen in the store is there until it ends it. -/
def Guarded (s : State) : Act → Prop
  | .restart => s.fences = none
  | .claimNext _ => ∀ c lease tenure, s.inside = some (.claim c (.won lease tenure)) →
      ∀ r ∈ s.waiting, r.holder ≠ c.holder
  | .lapse => ∀ r, s.inside ≠ some (.release r .holding)
  | _ => True

/-! ### Logs -/

section Logs

variable {log : List Event} {reply : ClaimReply} {tenure : Option ℕ}

theorem named_nil : Named [] := by
  intro later reply tenure earlier h
  simp at h

theorem named_cons {e : Event} (h : Named log)
    (he : ∀ reply tenure, e = .released reply tenure → ∃ g ∈ claims log,
      (g.fence : ℤ) = reply.fence ∧ ∃ id, g.tenure = some id ∧ tenure = some id) :
    Named (e :: log) := by
  intro later reply tenure earlier heq
  rcases List.cons_eq_append_iff.mp heq with ⟨rfl, hhead⟩ | ⟨later', rfl, htail⟩
  · obtain ⟨rfl, rfl⟩ := List.cons.inj hhead
    exact he reply tenure rfl
  · exact h later' reply tenure earlier htail

@[simp] theorem claims_claimed :
    claims (.claimed reply tenure :: log) = ⟨reply.fence, reply.holder, tenure⟩ :: claims log := rfl

@[simp] theorem claims_released (reply : ReleaseReply) :
    claims (.released reply tenure :: log) = claims log := rfl

@[simp] theorem claims_raised (e : Error) : claims (.raised e :: log) = claims log := rfl

end Logs

/-! ### The store -/

section Store

variable {store : Option Tenure} {h : Holder} {id fresh : ℕ}

theorem heldBy_check_iff {answer : Except String (Option ℚ)} :
    (check store answer).heldBy h = true ↔
      (∃ id, store = some ⟨.lease h, id⟩) ∧ ∃ expiresAt, answer = .ok expiresAt := by
  constructor
  · intro hheld
    cases answer with
    | error reason => cases hheld
    | ok expiresAt =>
      refine ⟨?_, expiresAt, rfl⟩
      cases store with
      | none => cases hheld
      | some t =>
        obtain ⟨owner, id⟩ := t
        simp only [check, Status.heldBy, Bool.true_and, Bool.and_eq_true,
          decide_eq_true_eq] at hheld
        cases owner with
        | lease h' =>
          obtain ⟨agent, session, hagent, hsession⟩ := h'
          obtain ⟨rfl, rfl⟩ := hheld
          exact ⟨id, rfl⟩
        | outside agent =>
          -- what is held outside has no session
          exact absurd hheld.2.symm h.session_ne
  · rintro ⟨⟨id, rfl⟩, expiresAt, rfl⟩
    simp [check, Status.heldBy, Owner.agent, Owner.session]

theorem store_eq_none {answer : Except String (Option ℚ)} {agent session : String}
    {expiresAt : Option ℚ} (hcheck : check store answer = .answered false agent session expiresAt) :
    store = none := by
  cases answer with
  | error reason => cases hcheck
  | ok expiresAt =>
    cases store with
    | none => rfl
    | some t => cases hcheck

theorem tenureOf_eq_some_iff : tenureOf store h = some id ↔ store = some ⟨.lease h, id⟩ := by
  cases store with
  | none => simp [tenureOf]
  | some t =>
    obtain ⟨owner, n⟩ := t
    by_cases ho : owner = .lease h <;> simp [tenureOf, ho]

theorem endLease_lease : endLease (some ⟨.lease h, id⟩) h = none := by
  simp [endLease]

theorem endLease_eq_some {t : Tenure} (heq : endLease store h = some t) : store = some t :=
  (Option.filter_eq_some_iff.mp heq).1

/-- No agent and session has the issue in the store. -/
def Unleased (store : Option Tenure) : Prop := ∀ h id, store ≠ some ⟨.lease h, id⟩

theorem unleased_none : Unleased none := by
  intro h id
  simp

theorem eq_of_post {h' : Holder} (hstore : Unleased store)
    (hpost : post store fresh h = some ⟨.lease h', id⟩) : h = h' := by
  cases store with
  | none =>
    obtain ⟨howner, -⟩ := Tenure.mk.inj (Option.some.inj hpost)
    exact Owner.lease.inj howner
  | some t => exact absurd hpost (hstore h' id)

end Store

/-! ### The invariant -/

/-- The lease in the store is that of the last fence. -/
def Owned (s : State) : Prop :=
  ∀ h id, s.store = some ⟨.lease h, id⟩ → ∀ g ∈ s.minted.head?, g.holder = h ∧ g.tenure = some id

/-- A release has shown the last fence, and its session got none since. -/
structure Asked (fences : Option ℕ) (minted : List Grant) (r : ReleaseCall) : Prop where
  pos : 0 < r.fence
  le : r.fence ≤ currentFence fences
  since : ∀ g ∈ minted, r.fence < g.fence → g.holder ≠ r.holder

/-- The fence that a claim has and did not return yet. -/
def pending : Option Inside → List Grant
  | some (.claim _ (.minted _ g)) => [g]
  | some (.claim _ (.remembered _ g)) => [g]
  | _ => []

def ClaimInv (s : State) (c : ClaimCall) : ClaimAt → Prop
  | .entered => Owned s
  | .claimable => Owned s
  | .free => Unleased s.store
  | .allowed => Unleased s.store
  | .posted _ tenure => ∀ h id, s.store = some ⟨.lease h, id⟩ → c.holder = h ∧ tenure = some id
  | .raced _ => Unleased s.store
  | .won _ tenure => ∀ h id, s.store = some ⟨.lease h, id⟩ → c.holder = h ∧ tenure = some id
  | .minted _ g => g.holder = c.holder ∧ Owned s
  | .remembered _ g => g.holder = c.holder ∧ Owned s

def ReleaseInv (s : State) (r : ReleaseCall) : ReleaseAt → Prop
  | .entered => Asked s.fences s.minted r ∧ Owned s
  | .holding => Owned s ∧ ∃ g ∈ claims s.log, (g.fence : ℤ) = r.fence ∧
      ∃ id, g.tenure = some id ∧ s.store = some ⟨.lease r.holder, id⟩
  | .ended _ tenure => Unleased s.store ∧ ∃ g ∈ claims s.log, (g.fence : ℤ) = r.fence ∧
      ∃ id, g.tenure = some id ∧ tenure = some id

/-- What is known where the call in the lock is. -/
def InsideInv (s : State) : Option Inside → Prop
  | none => Owned s
  | some (.claim c p) => ClaimInv s c p
  | some (.release r p) => ReleaseInv s r p

/-- **What a run of guarded steps keeps.** -/
structure Inv (s : State) : Prop where
  counted : s.fences = s.minted.head?.map (·.fence)
  increasing : s.minted.Pairwise fun g g' => g'.fence < g.fence
  returned : s.minted = pending s.inside ++ claims s.log
  waiting : ∀ r ∈ s.waiting, Asked s.fences s.minted r
  inside : InsideInv s s.inside
  named : Named s.log

section Keep

variable {s t : State} {c : ClaimCall} {r : ReleaseCall} {p : ClaimAt} {q : ReleaseAt}
  {ans : Answer}

theorem Unleased.owned (h : Unleased s.store) : Owned s := fun a id hs => absurd hs (h a id)

theorem InsideInv.of_eq {i : Option Inside} (h : InsideInv s i) (hstore : t.store = s.store)
    (hfences : t.fences = s.fences) (hminted : t.minted = s.minted)
    (hclaims : claims t.log = claims s.log) : InsideInv t i := by
  have howned : Owned s → Owned t := by
    intro ho
    unfold Owned
    rw [hstore, hminted]
    exact ho
  cases i with
  | none => exact howned h
  | some i =>
    cases i with
    | claim c p =>
      cases p with
      | entered => exact howned h
      | claimable => exact howned h
      | minted lease g => exact ⟨h.1, howned h.2⟩
      | remembered lease g => exact ⟨h.1, howned h.2⟩
      | _ =>
        simp only [InsideInv, ClaimInv, hstore] at h ⊢
        exact h
    | release r q =>
      cases q with
      | entered =>
        refine ⟨?_, howned h.2⟩
        rw [hfences, hminted]
        exact h.1
      | holding =>
        refine ⟨howned h.1, ?_⟩
        rw [hclaims, hstore]
        exact h.2
      | ended warnings tenure =>
        simp only [InsideInv, ReleaseInv, hstore, hclaims] at h ⊢
        exact h

theorem Inv.le_currentFence (h : Inv s) {g : Grant} (hg : g ∈ s.minted) :
    g.fence ≤ currentFence s.fences := by
  have hcounted := h.counted
  have hinc := h.increasing
  cases hm : s.minted with
  | nil =>
    rw [hm] at hg
    cases hg
  | cons g₀ rest =>
    rw [hm] at hg hcounted hinc
    rw [hcounted]
    rcases List.mem_cons.mp hg with rfl | hrest
    · rfl
    · exact ((List.pairwise_cons.mp hinc).1 g hrest).le

theorem Inv.move (h : Inv s) (hfences : t.fences = s.fences) (hminted : t.minted = s.minted)
    (hlog : t.log = s.log) (hwaiting : ∀ r ∈ t.waiting, Asked s.fences s.minted r)
    (hpending : pending t.inside = pending s.inside) (hinside : InsideInv t t.inside) : Inv t where
  counted := by rw [hfences, hminted]; exact h.counted
  increasing := by rw [hminted]; exact h.increasing
  returned := by rw [hminted, hpending, hlog]; exact h.returned
  waiting := by rw [hfences, hminted]; exact hwaiting
  inside := hinside
  named := by rw [hlog]; exact h.named

theorem Inv.leave (h : Inv s) (hpending : pending s.inside = []) (howned : Owned s) (e : Error) :
    Inv (s.leave (.raised e)) where
  counted := h.counted
  increasing := h.increasing
  returned := by
    have hreturned := h.returned
    rw [hpending] at hreturned
    exact hreturned
  waiting := h.waiting
  inside := howned
  named := named_cons h.named fun reply tenure heq => by cases heq

theorem Inv.raise (h : Inv s) (e : Error) : Inv (s.raise e) where
  counted := h.counted
  increasing := h.increasing
  returned := h.returned
  waiting := h.waiting
  inside := h.inside.of_eq rfl rfl rfl rfl
  named := named_cons h.named fun reply tenure heq => by cases heq

/-! ### Claims -/

/-- **A claim that gets a fence.** -/
theorem inv_mint (h : Inv s) {lease : Lease} {tenure : Option ℕ}
    (hin : s.inside = some (.claim c (.won lease tenure)))
    (hguard : ∀ r ∈ s.waiting, r.holder ≠ c.holder) :
    Inv (claimNext s c ans (.won lease tenure)) := by
  have hinside : ClaimInv s c (.won lease tenure) := by
    have hi := h.inside
    rw [hin] at hi
    exact hi
  have hbelow : ∀ g ∈ s.minted, g.fence < mintFence s.fences := by
    intro g hg
    have hle := h.le_currentFence hg
    simp only [currentFence] at hle
    simp only [mintFence]
    omega
  constructor
  · rfl
  · exact List.pairwise_cons.mpr ⟨hbelow, h.increasing⟩
  · have hreturned := h.returned
    rw [hin] at hreturned
    exact congrArg _ hreturned
  · intro r hr
    have hasked := h.waiting r hr
    refine ⟨hasked.pos, ?_, ?_⟩
    · have hle := hasked.le
      simp only [claimNext, State.claimAt, currentFence, mintFence, Option.getD_some] at hle ⊢
      omega
    · intro g hg hlt
      rcases List.mem_cons.mp hg with rfl | hg
      · exact (hguard r hr).symm
      · exact hasked.since g hg hlt
  · refine ⟨rfl, ?_⟩
    intro holder id hs g hg
    obtain rfl : _ = g := Option.some.inj hg
    exact hinside holder id hs
  · exact h.named

/-- A claim goes on where no fence is counted, and the store is as it was. -/
theorem Inv.goto (h : Inv s) (p' : ClaimAt) (hpending : pending s.inside = [])
    (hnone : pending (some (.claim c p')) = []) (hp' : ClaimInv s c p') : Inv (s.claimAt c p') := by
  refine h.move rfl rfl rfl h.waiting (hnone.trans hpending.symm) ?_
  cases p' <;> exact hp'

/-- A check that could be read, and is not held, has found the store free. -/
theorem inv_claimable (h : Inv s) (hpending : pending s.inside = [])
    (hinside : ClaimInv s c .claimable) : Inv (claimNext s c ans .claimable) := by
  simp only [claimNext]
  split
  · exact h.leave hpending hinside _
  · split
    · exact h.leave hpending hinside _
    · next status hstatus hfree =>
      refine h.goto .free hpending rfl ?_
      cases hcheck : check s.store ans.check with
      | unavailable reason => exact absurd hcheck (hstatus reason)
      | answered held agent session expiresAt =>
        cases held with
        | true =>
          rw [hcheck] at hfree
          exact absurd rfl hfree
        | false =>
          show Unleased s.store
          rw [store_eq_none hcheck]
          exact unleased_none

theorem inv_posted {lease : Lease} {tenure : Option ℕ} (h : Inv s)
    (hpending : pending s.inside = []) (hinside : ClaimInv s c (.posted lease tenure)) :
    Inv (claimNext s c ans (.posted lease tenure)) := by
  simp only [claimNext]
  split
  · next hraced =>
    refine h.goto (.raced _) hpending rfl ?_
    intro holder id hs
    obtain ⟨rfl, -⟩ := hinside holder id hs
    obtain ⟨hheld, hother⟩ := (Bool.and_eq_true _ _).mp hraced
    -- a check that could be read finds the lease of the claim itself
    cases hcheck : ans.check with
    | error reason =>
      rw [hcheck] at hheld
      cases hheld
    | ok expiresAt =>
      have hown := heldBy_check_iff.mpr ⟨⟨id, hs⟩, expiresAt, hcheck⟩
      rw [hown] at hother
      cases hother
  · exact h.goto (.won _ tenure) hpending rfl hinside

/-- The release after a lost race takes no lease but that of the claim. -/
theorem inv_raced {after : Status} (h : Inv s) (hin : s.inside = some (.claim c (.raced after)))
    (hinside : Unleased s.store) : Inv (claimNext s c ans (.raced after)) := by
  have hpending : pending s.inside = [] := by rw [hin]; rfl
  have hmoved : ∀ store, (∀ t, store = some t → s.store = some t) →
      Inv ({ s with store := store }.leave (.raised (.held after))) := by
    intro store hsub
    have hunleased : Unleased store := fun holder id hs => hinside holder id (hsub _ hs)
    have hinv : Inv { s with store := store } := by
      refine h.move rfl rfl rfl h.waiting rfl ?_
      show InsideInv _ s.inside
      rw [hin]
      exact hunleased
    exact hinv.leave hpending (Unleased.owned hunleased) _
  simp only [claimNext]
  split
  · exact hmoved _ fun t => endLease_eq_some
  · exact hmoved _ fun t ht => ht

theorem inv_claimNext (h : Inv s) (hin : s.inside = some (.claim c p))
    (hguard : ∀ lease tenure, p = .won lease tenure → ∀ r ∈ s.waiting, r.holder ≠ c.holder) :
    Inv (claimNext s c ans p) := by
  have hinside : ClaimInv s c p := by
    have hi := h.inside
    rw [hin] at hi
    exact hi
  cases p with
  | entered =>
    have hpending : pending s.inside = [] := by rw [hin]; rfl
    simp only [claimNext]
    split
    · exact h.leave hpending hinside _
    · exact h.leave hpending hinside _
    · exact h.goto _ hpending rfl hinside
  | claimable => exact inv_claimable h (by rw [hin]; rfl) hinside
  | free =>
    have hpending : pending s.inside = [] := by rw [hin]; rfl
    simp only [claimNext]
    split
    · exact h.leave hpending hinside.owned _
    · exact h.goto _ hpending rfl hinside
  | allowed =>
    have hpending : pending s.inside = [] := by rw [hin]; rfl
    simp only [claimNext]
    split
    · exact h.leave hpending hinside.owned _
    · next lease _ =>
      refine h.move rfl rfl rfl h.waiting hpending.symm ?_
      -- nobody had the lease, so one that is there now is that of the claim
      intro holder id hs
      have hs : post s.store s.fresh c.holder = some ⟨.lease holder, id⟩ := hs
      obtain rfl := eq_of_post hinside hs
      exact ⟨rfl, tenureOf_eq_some_iff.mpr hs⟩
  | posted lease tenure => exact inv_posted h (by rw [hin]; rfl) hinside
  | raced after => exact inv_raced h hin hinside
  | won lease tenure => exact inv_mint h hin (hguard lease tenure rfl)
  | minted lease g =>
    refine h.move rfl rfl rfl h.waiting ?_ hinside
    rw [hin]
    rfl
  | remembered lease g =>
    obtain ⟨hholder, howned⟩ := hinside
    have hreturned := h.returned
    rw [hin] at hreturned
    constructor
    · exact h.counted
    · exact h.increasing
    · -- the fence that was pending is now in the log
      have hg : g = ⟨g.fence, c.holder, g.tenure⟩ := by rw [← hholder]
      simp only [claimNext, State.leave, claims_claimed, pending, List.nil_append]
      rw [hreturned]
      exact congrArg (· :: claims s.log) hg
    · exact h.waiting
    · exact howned
    · exact named_cons h.named fun reply tenure heq => by cases heq

/-! ### Releases -/

/-- **The lease that a release finds is that of its fence.** -/
theorem Inv.exists_claim (h : Inv s) (hpending : pending s.inside = [])
    (hasked : Asked s.fences s.minted r) (howned : Owned s) {id : ℕ}
    (hs : s.store = some ⟨.lease r.holder, id⟩) :
    ∃ g ∈ claims s.log, (g.fence : ℤ) = r.fence ∧ g.tenure = some id := by
  have hreturned := h.returned
  rw [hpending, List.nil_append] at hreturned
  have hcounted := h.counted
  have hpos := hasked.pos
  have hle := hasked.le
  cases hm : s.minted with
  | nil =>
    rw [hm] at hcounted
    rw [hcounted] at hle
    simp only [List.head?_nil, Option.map_none, currentFence, Option.getD_none] at hle
    omega
  | cons g rest =>
    have hhead : s.minted.head? = some g := by rw [hm]; rfl
    have hmem : g ∈ s.minted := by rw [hm]; exact List.mem_cons_self
    obtain ⟨hholder, htenure⟩ := howned r.holder id hs g hhead
    refine ⟨g, hreturned ▸ hmem, ?_, htenure⟩
    -- a later fence would be one of the same session
    rw [hcounted, hhead] at hle
    simp only [Option.map_some, currentFence, Option.getD_some] at hle
    by_contra hne
    exact hasked.since g hmem (by omega) hholder

theorem inv_require (h : Inv s) (r : ReleaseCall) : Inv (s.require r) := by
  unfold State.require
  split
  · -- the fence is stale
    exact h.raise _
  · next hok =>
    refine h.move rfl rfl rfl ?_ rfl (h.inside.of_eq rfl rfl rfl rfl)
    intro r' hr'
    rcases List.mem_append.mp hr' with hr' | hr'
    · exact h.waiting r' hr'
    · obtain rfl := List.mem_singleton.mp hr'
      obtain ⟨hpos, heq⟩ := requireFence_ok_iff.mp hok
      refine ⟨hpos, heq.le, ?_⟩
      intro g hg hlt
      have hle := h.le_currentFence hg
      omega

theorem inv_releaseNext (h : Inv s) (hin : s.inside = some (.release r q)) :
    Inv (releaseNext s r ans q) := by
  have hinside : ReleaseInv s r q := by
    have hi := h.inside
    rw [hin] at hi
    exact hi
  have hpending : pending s.inside = [] := by rw [hin]; rfl
  cases q with
  | entered =>
    obtain ⟨hasked, howned⟩ := hinside
    simp only [releaseNext]
    split
    · exact h.leave hpending howned _
    · split
      · next hheld =>
        refine h.move rfl rfl rfl h.waiting hpending.symm ?_
        obtain ⟨⟨id, hs⟩, -⟩ := heldBy_check_iff.mp hheld
        obtain ⟨g, hg, hfence, htenure⟩ := h.exists_claim hpending hasked howned hs
        exact ⟨howned, g, hg, hfence, id, htenure, hs⟩
      · exact h.leave hpending howned _
  | holding =>
    obtain ⟨howned, g, hg, hfence, id, htenure, hs⟩ := hinside
    simp only [releaseNext]
    split
    · exact h.leave hpending howned _
    · refine h.move rfl rfl rfl h.waiting hpending.symm ⟨?_, ?_⟩
      · -- the store had the lease of the caller only, and it is ended
        show Unleased (endLease s.store r.holder)
        rw [hs, endLease_lease]
        exact unleased_none
      · exact ⟨g, hg, hfence, id, htenure, tenureOf_eq_some_iff.mpr hs⟩
  | ended warnings tenure =>
    obtain ⟨hunleased, hclaim⟩ := hinside
    have hreturned := h.returned
    rw [hpending] at hreturned
    constructor
    · exact h.counted
    · exact h.increasing
    · exact hreturned
    · exact h.waiting
    · exact hunleased.owned
    · refine named_cons h.named ?_
      intro reply tenure' heq
      obtain ⟨rfl, rfl⟩ := Event.released.inj heq
      exact hclaim

/-! ### All steps -/

/-- A step that leaves the call in the lock where it is, and does not touch the fences. -/
theorem Inv.outside (h : Inv s) (hfences : t.fences = s.fences) (hminted : t.minted = s.minted)
    (hlog : t.log = s.log) (hwaiting : t.waiting = s.waiting) (hin : t.inside = s.inside)
    (hinside : InsideInv t s.inside) : Inv t := by
  refine h.move hfences hminted hlog ?_ (by rw [hin]) (by rw [hin]; exact hinside)
  rw [hwaiting]
  exact h.waiting

/-- The issue is not held any more, or it is held outside. -/
theorem InsideInv.of_unleased {i : Option Inside} (h : InsideInv s i) (ht : Unleased t.store)
    (hlog : t.log = s.log) (hfences : t.fences = s.fences) (hminted : t.minted = s.minted)
    (hi : ∀ r, i ≠ some (.release r .holding)) : InsideInv t i := by
  cases i with
  | none => exact ht.owned
  | some i =>
    cases i with
    | claim c p =>
      cases p with
      | entered => exact ht.owned
      | claimable => exact ht.owned
      | posted lease tenure => exact fun a id hs => absurd hs (ht a id)
      | won lease tenure => exact fun a id hs => absurd hs (ht a id)
      | minted lease g => exact ⟨h.1, ht.owned⟩
      | remembered lease g => exact ⟨h.1, ht.owned⟩
      | _ => exact ht
    | release r q =>
      cases q with
      | entered =>
        refine ⟨?_, ht.owned⟩
        rw [hfences, hminted]
        exact h.1
      | holding => exact absurd rfl (hi r)
      | ended warnings tenure =>
        refine ⟨ht, ?_⟩
        rw [hlog]
        exact h.2

/-- Where no call is in the lock, each tenure of a session has its fence. -/
theorem Inv.owned (h : Inv s) (hin : s.inside = none) : Owned s := by
  have hi := h.inside
  rwa [hin] at hi

/-- **A restart before any fence was given** forgets nothing. -/
theorem inv_restart (h : Inv s) (hfences : s.fences = none) (hstep : step s .restart = some t) :
    Inv t := by
  obtain rfl := Option.some.inj hstep
  have hnone : s.minted = [] := by
    have hcounted := h.counted
    rw [hfences] at hcounted
    simpa using hcounted.symm
  have hclaims : claims s.log = [] := by
    have hreturned := h.returned
    rw [hnone] at hreturned
    exact (List.append_eq_nil_iff.mp hreturned.symm).2
  constructor
  · simp [hnone]
  · exact h.increasing
  · simp [hnone, hclaims, pending]
  · simp
  · -- no fence was given, whatever stands in the store
    intro a id _ g hg
    simp [hnone] at hg
  · exact h.named

/-- **A hold from outside** is no lease of a session, and a release in the lock has none to end. -/
theorem inv_hold {agent : String} (h : Inv s) (hstep : step s (.hold agent) = some t) : Inv t := by
  simp only [step] at hstep
  split at hstep
  · next hstore =>
    obtain rfl := Option.some.inj hstep
    refine h.outside rfl rfl rfl rfl rfl (h.inside.of_unleased ?_ rfl rfl rfl ?_)
    · intro a id
      simp
    · intro r hr
      have hi := h.inside
      rw [hr] at hi
      obtain ⟨-, g, -, -, id, -, hs⟩ := hi
      rw [hstore] at hs
      cases hs
  · cases hstep

/-- **Every guarded step keeps the invariant.** -/
theorem inv_step {a : Act} (h : Inv s) (hguard : Guarded s a) (hstep : step s a = some t) :
    Inv t := by
  cases a with
  | claim c =>
    simp only [step] at hstep
    split at hstep
    · obtain rfl := Option.some.inj hstep
      exact h.raise _
    · next hin =>
      obtain rfl := Option.some.inj hstep
      exact h.move rfl rfl rfl h.waiting (by rw [hin]; rfl) (h.owned hin)
    · cases hstep
  | claimNext ans =>
    simp only [step] at hstep
    split at hstep
    · next c p hin =>
      obtain rfl := Option.some.inj hstep
      refine inv_claimNext h hin ?_
      rintro lease tenure rfl
      exact hguard c lease tenure hin
    · cases hstep
  | require r =>
    obtain rfl := Option.some.inj hstep
    exact inv_require h r
  | enter i =>
    simp only [step] at hstep
    split at hstep
    · next r hin hr =>
      obtain rfl := Option.some.inj hstep
      refine h.move rfl rfl rfl ?_ (by rw [hin]; rfl) ?_
      · exact fun r' hr' => h.waiting r' (List.mem_of_mem_eraseIdx hr')
      · exact ⟨h.waiting r (List.mem_of_getElem? hr), h.owned hin⟩
    · cases hstep
  | releaseNext ans =>
    simp only [step] at hstep
    split at hstep
    · next r q hin =>
      obtain rfl := Option.some.inj hstep
      exact inv_releaseNext h hin
    · cases hstep
  | snapshot now =>
    obtain rfl := Option.some.inj hstep
    exact h.outside rfl rfl rfl rfl rfl (h.inside.of_eq rfl rfl rfl rfl)
  | sweep i =>
    -- a sweep asks for a release with the fence of its snapshot
    obtain ⟨row, -, rfl⟩ := Option.map_eq_some_iff.mp hstep
    refine inv_require ?_ row.releaseCall
    exact h.outside rfl rfl rfl rfl rfl (h.inside.of_eq rfl rfl rfl rfl)
  | restart => exact inv_restart h hguard hstep
  | hold agent => exact inv_hold h hstep
  | lapse =>
    obtain rfl := Option.some.inj hstep
    exact h.outside rfl rfl rfl rfl rfl (h.inside.of_unleased unleased_none rfl rfl rfl hguard)

theorem inv_start : Inv {} where
  counted := rfl
  increasing := .nil
  returned := rfl
  waiting := by simp
  inside := by
    intro a id hs
    cases hs
  named := named_nil

end Keep

/-! ### Calls that are not disturbed -/

section Undisturbed

/-- `claim_job` from its call to its return, with nothing in its way. -/
def claimActs (c : ClaimCall) : List Act := .claim c :: List.replicate 8 (.claimNext {})

/-- `release_job` from the lock to its return. -/
def releaseActs : List Act := .enter 0 :: List.replicate 3 (.releaseNext {})

/-- A claim of a free issue has returned. -/
def State.claimed (s : State) (c : ClaimCall) : State :=
  let fence := mintFence s.fences
  { s with
    store := some ⟨.lease c.holder, s.fresh⟩
    fences := some fence
    leaseState := some (rememberLease c.holder fence c.ttlHours 0 none)
    inside := none
    fresh := s.fresh + 1
    minted := ⟨fence, c.holder, some s.fresh⟩ :: s.minted
    log := .claimed (claimReply c ⟨none, []⟩ fence) (some s.fresh) :: s.log }

def State.released (s : State) (r : ReleaseCall) (id : ℕ) : State :=
  { s with
    store := none
    leaseState := none
    inside := none
    log := .released ⟨r.fence, []⟩ (some id) :: s.log }

variable {s : State} {c : ClaimCall} {r : ReleaseCall} {id : ℕ} {rest : List ReleaseCall}
  {R : State → Act → State → Prop}

/-- **A claim of a free issue returns the next fence.** -/
theorem path_claimActs (hin : s.inside = none) (hstore : s.store = none)
    (httl : validateTtl c.ttlHours = .ok ())
    (hR : ∀ s' t a, s'.waiting = s.waiting → a ∈ claimActs c → Step s' a t → R s' a t) :
    Path R s (claimActs c) (s.claimed c) := by
  obtain ⟨store, fences, leaseState, sweeps, waiting, inside, fresh, minted, log⟩ := s
  obtain rfl : inside = none := hin
  obtain rfl : store = none := hstore
  have hcall : Act.claim c ∈ claimActs c := List.mem_cons_self
  have hnext : Act.claimNext {} ∈ claimActs c := by simp [claimActs]
  have hown : tenureOf (some ⟨.lease c.holder, fresh⟩) c.holder = some fresh :=
    tenureOf_eq_some_iff.mpr rfl
  have hwon : ¬ ((check (some ⟨.lease c.holder, fresh⟩) (.ok none)).held &&
      !(check (some ⟨.lease c.holder, fresh⟩) (.ok none)).heldBy c.holder) = true := by
    rw [heldBy_check_iff.mpr ⟨⟨fresh, rfl⟩, none, rfl⟩]
    simp
  refine .cons (hR _ _ _ rfl hcall (show step _ _ = _ by simp only [step, httl]; rfl)) ?_
  iterate 4 refine .cons (hR _ _ _ rfl hnext rfl) ?_
  -- the check after the post finds the lease that was posted
  refine .cons (hR _ _ _ rfl hnext (congrArg some (if_neg hwon))) ?_
  iterate 3 refine .cons (hR _ _ _ rfl hnext rfl) ?_
  refine path_nil_iff.mpr ?_
  simp only [State.claimed, ← hown]
  rfl

theorem step_require (hpos : 0 < r.fence) (heq : r.fence = currentFence s.fences) :
    Step s (.require r) { s with waiting := s.waiting ++ [r] } := by
  simp only [Step, step, State.require, requireFence_ok_iff.mpr ⟨hpos, heq⟩]

/-- **A release of the lease of its session returns.** -/
theorem path_releaseActs (hin : s.inside = none) (hstore : s.store = some ⟨.lease r.holder, id⟩)
    (hwaiting : s.waiting = r :: rest)
    (hR : ∀ s' t a, a ∈ releaseActs → Step s' a t → R s' a t) :
    Path R s releaseActs ({ s with waiting := rest }.released r id) := by
  obtain ⟨store, fences, leaseState, sweeps, waiting, inside, fresh, minted, log⟩ := s
  obtain rfl : inside = none := hin
  obtain rfl : store = _ := hstore
  obtain rfl : waiting = _ := hwaiting
  have henter : Act.enter 0 ∈ releaseActs := List.mem_cons_self
  have hnext : Act.releaseNext {} ∈ releaseActs := by simp [releaseActs]
  have hown : tenureOf (some ⟨.lease r.holder, id⟩) r.holder = some id :=
    tenureOf_eq_some_iff.mpr rfl
  have hheld : (check (some ⟨.lease r.holder, id⟩) (.ok none)).heldBy r.holder = true :=
    heldBy_check_iff.mpr ⟨⟨id, rfl⟩, none, rfl⟩
  have hended : endLease (some ⟨.lease r.holder, id⟩) r.holder = none := endLease_lease
  refine .cons (hR _ _ _ henter rfl) ?_
  refine .cons (hR _ _ _ hnext (congrArg some (if_pos hheld))) ?_
  iterate 2 refine .cons (hR _ _ _ hnext rfl) ?_
  refine path_nil_iff.mpr ?_
  simp only [State.released, ← hown, ← hended]
  rfl

end Undisturbed

/-! ### Runs -/

def GuardedStep (s : State) (a : Act) (t : State) : Prop := Guarded s a ∧ Step s a t

theorem guarded_claimActs {s : State} {c : ClaimCall} {a : Act} (ha : a ∈ claimActs c)
    (hwaiting : s.waiting = []) : Guarded s a := by
  rcases List.mem_cons.mp ha with rfl | ha
  · trivial
  · obtain rfl := List.eq_of_mem_replicate ha
    intro c' lease tenure _ r hr
    rw [hwaiting] at hr
    cases hr

theorem guarded_releaseActs {s : State} {a : Act} (ha : a ∈ releaseActs) : Guarded s a := by
  rcases List.mem_cons.mp ha with rfl | ha
  · trivial
  · obtain rfl := List.eq_of_mem_replicate ha
    trivial

/-! ### Releases and their tenures -/

/-- A session claims, and releases with the first fence. -/
def codexClaim : ClaimCall := ⟨⟨"codex", "codex-58", by decide, by decide⟩, none, 2⟩

def codexRelease : ReleaseCall := ⟨codexClaim.holder, 1⟩

theorem validateTtl_codexClaim : validateTtl codexClaim.ttlHours = .ok () := by
  refine if_pos ?_
  norm_num [codexClaim, minTtlHours, maxTtlHours]

/-- **A release ends the tenure of its fence.**  In a run of guarded steps every release that
returned ended the one tenure of the claim which returned its fence, and these fences increase. -/
theorem ends_own_tenure {acts : List Act} {s : State} (p : Path GuardedStep {} acts s) :
    Named s.log ∧ Increasing s.log := by
  have hinv : Inv s := p.invariant (fun _ _ _ h hs => inv_step h hs.1 hs.2) inv_start
  refine ⟨hinv.named, ?_⟩
  have hsorted := hinv.increasing
  rw [hinv.returned] at hsorted
  exact (List.pairwise_append.mp hsorted).2.1

/-- Another session, and its release with the second fence. -/
def fableClaim : ClaimCall := ⟨⟨"fable", "fable-58", by decide, by decide⟩, none, 2⟩

def fableRelease : ReleaseCall := ⟨fableClaim.holder, 2⟩

private theorem path_session {s : State} {c : ClaimCall} {r : ReleaseCall} (hin : s.inside = none)
    (hstore : s.store = none) (hwaiting : s.waiting = []) (httl : validateTtl c.ttlHours = .ok ())
    (hholder : r.holder = c.holder) (hcurrent : r.fence = mintFence s.fences)
    (hpos : 0 < r.fence) :
    Path GuardedStep s (claimActs c ++ .require r :: releaseActs)
      (({ s.claimed c with waiting := [] }).released r s.fresh) := by
  have hclaim : Path GuardedStep s (claimActs c) (s.claimed c) :=
    path_claimActs hin hstore httl fun s' t a hw ha hs =>
      ⟨guarded_claimActs ha (hw.trans hwaiting), hs⟩
  have hrequire : GuardedStep (s.claimed c) (.require r) { s.claimed c with waiting := [r] } := by
    refine ⟨trivial, ?_⟩
    have hstep := step_require (s := s.claimed c) hpos hcurrent
    rwa [show (s.claimed c).waiting = [] from hwaiting] at hstep
  have hheld : (s.claimed c).store = some ⟨.lease r.holder, s.fresh⟩ := by
    rw [hholder]
    rfl
  have hrelease := path_releaseActs (R := GuardedStep) (s := { s.claimed c with waiting := [r] })
    rfl hheld rfl fun s t a ha hs => ⟨guarded_releaseActs ha, hs⟩
  exact hclaim.append (.cons hrequire hrelease)

/-- A session claims and releases, and another one after it. -/
theorem ends_own_tenure_twice :
    ∃ s, Path GuardedStep {} ((claimActs codexClaim ++ .require codexRelease :: releaseActs) ++
        (claimActs fableClaim ++ .require fableRelease :: releaseActs)) s ∧
      s.log.length = 4 ∧ Named s.log ∧ Increasing s.log := by
  have hfirst := path_session (s := {}) (c := codexClaim) (r := codexRelease) rfl rfl rfl
    validateTtl_codexClaim rfl rfl (by decide)
  have hsecond := path_session (c := fableClaim) (r := fableRelease)
    (s := ({ State.claimed {} codexClaim with waiting := [] }).released codexRelease 0) rfl rfl rfl
    validateTtl_codexClaim rfl rfl (by decide)
  have p := hfirst.append hsecond
  exact ⟨_, p, rfl, ends_own_tenure p⟩

/-- Two releases show the fence 1.  The first one ends its tenure; the session claims again, and the
second one ends the tenure of the fence 2.  And after a restart the fence 1 is given again. -/
theorem not_ends_own_tenure :
    (¬ ∀ acts s, Path Step {} acts s → Named s.log) ∧
      ¬ ∀ acts s, Path Step {} acts s → Increasing s.log := by
  have hclaim : ∀ s : State, s.inside = none → s.store = none →
      Path Step s (claimActs codexClaim) (s.claimed codexClaim) :=
    fun s hin hstore => path_claimActs hin hstore validateTtl_codexClaim fun _ _ _ _ _ hs => hs
  have hrelease : ∀ (s : State) id rest, s.inside = none →
      s.store = some ⟨.lease codexRelease.holder, id⟩ → s.waiting = codexRelease :: rest →
      Path Step s releaseActs ({ s with waiting := rest }.released codexRelease id) :=
    fun s id rest hin hstore hwaiting => path_releaseActs hin hstore hwaiting fun _ _ _ _ hs => hs
  let s₁ := State.claimed {} codexClaim
  constructor
  · intro h
    let s₂ := { s₁ with waiting := [codexRelease] }.released codexRelease 0
    let s₃ := s₂.claimed codexClaim
    have p := (hclaim {} rfl rfl).append <|
      .cons (step_require (r := codexRelease) (by decide) rfl) <|
      .cons (step_require (r := codexRelease) (by decide) rfl) <|
      (hrelease { s₁ with waiting := [codexRelease, codexRelease] } 0 _ rfl rfl rfl).append <|
      (hclaim s₂ rfl rfl).append <| hrelease s₃ 1 [] rfl rfl rfl
    obtain ⟨g, hg, hfence, id, hid, hended⟩ := h _ _ p [] _ _ _ rfl
    obtain rfl : 1 = id := Option.some.inj hended
    -- the fence 1 is of the tenure 0
    rcases List.mem_cons.mp hg with rfl | hg
    · cases hfence
    · obtain rfl := List.mem_singleton.mp hg
      cases hid
  · intro h
    let s₂ := { s₁ with waiting := [] }.released codexRelease 0
    have hrestart : Step s₂ .restart { s₂ with fences := none } := rfl
    have p := (hclaim {} rfl rfl).append <|
      .cons (step_require (r := codexRelease) (by decide) rfl) <|
      (hrelease { s₁ with waiting := [codexRelease] } 0 [] rfl rfl rfl).append <|
      .cons hrestart <| hclaim { s₂ with fences := none } rfl rfl
    have hlt := (List.pairwise_cons.mp (h _ _ p)).1 _ List.mem_cons_self
    exact absurd hlt (by decide)

end JobFences
