import Mathlib.Algebra.Order.Field.Rat
import Mathlib.Data.Int.Order.Basic
import Mathlib.Tactic.NormNum

/-!
# The fences of the job board

An agent claims an issue of the job board in a store outside, and gets a fence with it; a release
has to show the fence.  The store knows no fences.  They are counted in the memory of the process,
with the lease that the sweep of the expired claims looks at.

All that is here is for one issue: one entry of each dictionary, and one lock.

## Main results

* `requireFence_ok_iff` — the fence that a release has to show.
-/

namespace JobFences

/-! ### The store -/

/-- The agent and the session of a call; the routes let no empty one through. -/
structure Holder where
  agent : String
  session : String
  agent_ne : agent ≠ ""
  session_ne : session ≠ ""
  deriving DecidableEq

/-- Whose a claim is: a lease, or a label, a pull request or a branch, which have no session. -/
inductive Owner
  | lease (h : Holder)
  | outside (agent : String)
  deriving DecidableEq

def Owner.agent : Owner → String
  | .lease h => h.agent
  | .outside agent => agent

def Owner.session : Owner → String
  | .lease h => h.session
  | .outside _ => ""

/-- The time in which an issue is held once.  `id` numbers these; the store has no such field. -/
structure Tenure where
  owner : Owner
  id : ℕ
  deriving DecidableEq

/-- What `claims.check` returns. -/
inductive Status
  | unavailable (reason : String)
  | answered (held : Bool) (agent session : String) (expiresAt : Option ℚ)
  deriving DecidableEq

def Status.held : Status → Bool
  | .unavailable _ => false
  | .answered held _ _ _ => held

def Status.expiresAt : Status → Option ℚ
  | .unavailable _ => none
  | .answered _ _ _ expiresAt => expiresAt

def Status.heldBy (h : Holder) : Status → Bool
  | .unavailable _ => false
  | .answered held agent session _ => held && agent = h.agent && session = h.session

/-- `claims.check`, which may be `unavailable`, also for the board.  The expiry is what the store
says of it.  That a presence on the board holds an issue which no lease holds is left out. -/
def check (store : Option Tenure) : Except String (Option ℚ) → Status
  | .error reason => .unavailable reason
  | .ok expiresAt =>
    match store with
    | none => .answered false "" "" expiresAt
    | some t => .answered true t.owner.agent t.owner.session expiresAt

/-- `claims.post_lease` in the store: a free issue is held by the caller, a lease of its own is
renewed, and to any other claim it loses. -/
def post (store : Option Tenure) (fresh : ℕ) (h : Holder) : Option Tenure :=
  store.or (some ⟨.lease h, fresh⟩)

/-- `claims.release` in the store: the lease of the caller ends. -/
def endLease (store : Option Tenure) (h : Holder) : Option Tenure :=
  store.filter fun t => t.owner ≠ .lease h

def tenureOf (store : Option Tenure) (h : Holder) : Option ℕ :=
  (store.filter fun t => t.owner = .lease h).map (·.id)

/-! ### Calls and what they return -/

/-- The arguments of `claim_job`.  Times and spans are in hours. -/
structure ClaimCall where
  holder : Holder
  holderPrincipal : Option String
  ttlHours : ℚ
  deriving DecidableEq

/-- The arguments of `release_job`. -/
structure ReleaseCall where
  holder : Holder
  fence : ℤ
  deriving DecidableEq

/-- A value of `_lease_state`. -/
structure Row where
  holder : Holder
  fence : ℕ
  expires : ℚ
  ttlHours : ℚ
  deriving DecidableEq

structure ClaimReply where
  holder : Holder
  principal : String
  expiresAt : Option ℚ
  fence : ℕ
  warnings : List String
  deriving DecidableEq

structure ReleaseReply where
  fence : ℤ
  warnings : List String
  deriving DecidableEq

/-- The exceptions. -/
inductive Error
  | ttlHours
  | unavailable (reason : String)
  | ineligible (reason : String)
  | held (status : Status)
  | agingPr (message : String)
  | leaseScript (text : String)
  | staleFence (fence : ℤ)
  | notHolder (session : String)
  deriving DecidableEq

def Error.text (repo : String) (issue : ℤ) (repr : String → String) : Error → String
  | .ttlHours => "ttl_hours must be between 0.1 and 8.0"
  | .unavailable reason => s!"check_agent_claim unavailable: {reason}"
  | .ineligible reason => reason
  | .held (.answered _ agent _ _) =>
    "claim held by " ++ if agent = "" then "another holder" else agent
  | .held (.unavailable _) => "claim held by another holder"
  | .agingPr message => if message = "" then "aging PR blocks claim" else message
  | .leaseScript text => text
  | .staleFence fence => s!"fence {fence} is not current for {repo}#{issue}"
  | .notHolder session => s!"session {repr session} does not hold {repo}#{issue}"

/-! ### Fences and leases -/

/-- `_current_fence` with the entry of the issue in `_fences`. -/
def currentFence (fences : Option ℕ) : ℕ := fences.getD 0

def mintFence (fences : Option ℕ) : ℕ := fences.getD 0 + 1

def requireFence (fences : Option ℕ) (fence : ℤ) : Except Error Unit :=
  if fence ≤ 0 ∨ fence ≠ currentFence fences then .error (.staleFence fence) else .ok ()

theorem requireFence_ok_iff {fences : Option ℕ} {fence : ℤ} :
    requireFence fences fence = .ok () ↔ 0 < fence ∧ fence = currentFence fences := by
  unfold requireFence
  split
  · next h => simp; omega
  · next h => simp; omega

def minTtlHours : ℚ := 1 / 10

def maxTtlHours : ℚ := 8

def validateTtl (ttlHours : ℚ) : Except Error Unit :=
  if minTtlHours ≤ ttlHours ∧ ttlHours ≤ maxTtlHours then .ok () else .error .ttlHours

/-- `parse_expires`, with the time now. -/
def parseExpires (raw : Option ℚ) (ttlHours now : ℚ) : ℚ := raw.getD (now + ttlHours)

/-- The row that `remember_lease` puts. -/
def rememberLease (h : Holder) (fence : ℕ) (ttlHours now : ℚ) (expiresAt : Option ℚ) : Row where
  holder := h
  fence := fence
  expires := parseExpires expiresAt ttlHours now
  ttlHours := ttlHours

/-- The call of `release_job` for a row in `sweep_expired_job_claims`. -/
def Row.releaseCall (row : Row) : ReleaseCall := ⟨row.holder, row.fence⟩

/-! ### The state -/

/-- A claim that has its fence, and the tenure that it posted or renewed, if any. -/
structure Grant where
  fence : ℕ
  holder : Holder
  tenure : Option ℕ
  deriving DecidableEq

structure Lease where
  expiresAt : Option ℚ
  warnings : List String
  deriving DecidableEq

/-- Where `claim_job` is in the lock. -/
inductive ClaimAt
  | entered
  | claimable
  | free
  | allowed
  | posted (lease : Lease) (tenure : Option ℕ)
  | raced (after : Status)
  | won (lease : Lease) (tenure : Option ℕ)
  | minted (lease : Lease) (g : Grant)
  | remembered (lease : Lease) (g : Grant)
  deriving DecidableEq

/-- Where `release_job` is in the lock.  It keeps what tenure it ended. -/
inductive ReleaseAt
  | entered
  | holding
  | ended (warnings : List String) (tenure : Option ℕ)
  deriving DecidableEq

/-- The call in the lock. -/
inductive Inside
  | claim (c : ClaimCall) (at_ : ClaimAt)
  | release (r : ReleaseCall) (at_ : ReleaseAt)
  deriving DecidableEq

/-- The calls that are over: what they returned, with the tenures, or what they raised. -/
inductive Event
  | claimed (reply : ClaimReply) (tenure : Option ℕ)
  | released (reply : ReleaseReply) (tenure : Option ℕ)
  | raised (e : Error)
  deriving DecidableEq

/-- The store; the memory of the process, with the rows that the sweeps have in hand, the releases
that wait for the lock, and the call in it; and what the program does not keep: how many tenures
there were, the fences that were given and the log, the newest first. -/
structure State where
  store : Option Tenure := none
  fences : Option ℕ := none
  leaseState : Option Row := none
  sweeps : List Row := []
  waiting : List ReleaseCall := []
  inside : Option Inside := none
  fresh : ℕ := 0
  minted : List Grant := []
  log : List Event := []
  deriving DecidableEq

/-- What the next call to the outside answers, of whatever kind it is.  `reason` is of the evidence
that is looked at before the check, `launch` of `check_launch_allowed` after it. -/
structure Answer where
  check : Except String (Option ℚ) := .ok none
  reason : Option String := none
  launch : Option String := none
  agingPr : Option String := none
  script : Except String Lease := .ok ⟨none, []⟩
  now : ℚ := 0

def State.claimAt (s : State) (c : ClaimCall) (p : ClaimAt) : State :=
  { s with inside := some (.claim c p) }

def State.releaseAt (s : State) (r : ReleaseCall) (p : ReleaseAt) : State :=
  { s with inside := some (.release r p) }

/-- The call in the lock is over. -/
def State.leave (s : State) (e : Event) : State := { s with inside := none, log := e :: s.log }

def State.raise (s : State) (e : Error) : State := { s with log := .raised e :: s.log }

/-! ### Claiming -/

def ineligibleReason (ans : Answer) (status : Status) : Except Error (Option String) :=
  match ans.reason with
  | some reason => .ok (some reason)
  | none =>
    match status with
    | .unavailable reason => .error (.unavailable reason)
    | .answered held agent _ _ =>
      if held then .ok (some ("claimed by " ++ if agent = "" then "another agent" else agent))
      else .ok ans.launch

/-- `expires_at` of the lease, or of the check after it. -/
def Lease.or (lease : Lease) (after : Status) : Lease :=
  { lease with expiresAt := lease.expiresAt.or after.expiresAt }

def claimReply (c : ClaimCall) (lease : Lease) (fence : ℕ) : ClaimReply where
  holder := c.holder
  principal := c.holderPrincipal.getD s!"agent-{c.holder.agent}"
  expiresAt := lease.expiresAt
  fence := fence
  warnings := lease.warnings

/-- The next step of `claim_job` in the lock. -/
def claimNext (s : State) (c : ClaimCall) (ans : Answer) : ClaimAt → State
  | .entered =>
    match ineligibleReason ans (check s.store ans.check) with
    | .error e => s.leave (.raised e)
    | .ok (some reason) => s.leave (.raised (.ineligible reason))
    | .ok none => s.claimAt c .claimable
  | .claimable =>
    match check s.store ans.check with
    | .unavailable reason => s.leave (.raised (.unavailable reason))
    | status => if status.held then s.leave (.raised (.held status)) else s.claimAt c .free
  | .free =>
    match ans.agingPr with
    | some message => s.leave (.raised (.agingPr message))
    | none => s.claimAt c .allowed
  | .allowed =>
    match ans.script with
    | .error text => s.leave (.raised (.leaseScript text))
    | .ok lease =>
      let store := post s.store s.fresh c.holder
      { s with store := store, fresh := s.fresh + 1 }.claimAt c
        (.posted lease (tenureOf store c.holder))
  | .posted lease tenure =>
    -- a check that is unavailable is not held
    let after := check s.store ans.check
    if after.held && !after.heldBy c.holder then s.claimAt c (.raced after)
    else s.claimAt c (.won (lease.or after) tenure)
  | .raced after =>
    -- where the release fails, that is only logged
    let store := match ans.script with
      | .ok _ => endLease s.store c.holder
      | .error _ => s.store
    { s with store := store }.leave (.raised (.held after))
  | .won lease tenure =>
    let g : Grant := ⟨mintFence s.fences, c.holder, tenure⟩
    { s with fences := some g.fence, minted := g :: s.minted }.claimAt c (.minted lease g)
  | .minted lease g =>
    let row := rememberLease c.holder g.fence c.ttlHours ans.now lease.expiresAt
    { s with leaseState := some row }.claimAt c (.remembered lease g)
  | .remembered lease g => s.leave (.claimed (claimReply c lease g.fence) g.tenure)

/-! ### Releasing -/

/-- `release_job` up to the lock. -/
def State.require (s : State) (r : ReleaseCall) : State :=
  match requireFence s.fences r.fence with
  | .error e => s.raise e
  | .ok () => { s with waiting := s.waiting ++ [r] }

/-- The next step of `release_job` in the lock. -/
def releaseNext (s : State) (r : ReleaseCall) (ans : Answer) : ReleaseAt → State
  | .entered =>
    match check s.store ans.check with
    | .unavailable reason => s.leave (.raised (.unavailable reason))
    | status =>
      if status.heldBy r.holder then s.releaseAt r .holding
      else s.leave (.raised (.notHolder r.holder.session))
  | .holding =>
    match ans.script with
    | .error text => s.leave (.raised (.leaseScript text))
    | .ok lease =>
      { s with store := endLease s.store r.holder }.releaseAt r
        (.ended lease.warnings (tenureOf s.store r.holder))
  | .ended warnings tenure =>
    { s with leaseState := none }.leave (.released ⟨r.fence, warnings⟩ tenure)

/-! ### Runs -/

/-- What can happen next. -/
inductive Act
  /-- `claim_job` is called, and takes the lock. -/
  | claim (c : ClaimCall)
  | claimNext (ans : Answer)
  /-- `release_job` is called, and its fence is compared. -/
  | require (r : ReleaseCall)
  /-- A release that waits takes the lock. -/
  | enter (i : ℕ)
  | releaseNext (ans : Answer)
  /-- A sweep begins, and takes the lease in hand where it is expired. -/
  | snapshot (now : ℚ)
  /-- A sweep calls `release_job` for a lease that it has in hand. -/
  | sweep (i : ℕ)
  /-- The process ends with its calls and its memory, and another one begins. -/
  | restart
  /-- A label, a pull request or a branch holds the issue now. -/
  | hold (agent : String)
  /-- What holds the issue runs out, or is taken away outside. -/
  | lapse

/-- What happens then; `none` where it cannot. -/
def step (s : State) : Act → Option State
  | .claim c =>
    match validateTtl c.ttlHours, s.inside with
    | .error e, _ => some (s.raise e)
    | .ok (), none => some (s.claimAt c .entered)
    | .ok (), some _ => none
  | .claimNext ans =>
    match s.inside with
    | some (.claim c p) => some (claimNext s c ans p)
    | _ => none
  | .require r => some (s.require r)
  | .enter i =>
    match s.inside, s.waiting[i]? with
    | none, some r => some ({ s with waiting := s.waiting.eraseIdx i }.releaseAt r .entered)
    | _, _ => none
  | .releaseNext ans =>
    match s.inside with
    | some (.release r p) => some (releaseNext s r ans p)
    | _ => none
  | .snapshot now =>
    some { s with sweeps := s.sweeps ++ (s.leaseState.filter (·.expires ≤ now)).toList }
  | .sweep i =>
    s.sweeps[i]?.map fun row => { s with sweeps := s.sweeps.eraseIdx i }.require row.releaseCall
  | .restart =>
    some { s with fences := none, leaseState := none, sweeps := [], waiting := [], inside := none }
  | .hold agent =>
    match s.store with
    | none => some { s with store := some ⟨.outside agent, s.fresh⟩, fresh := s.fresh + 1 }
    | some _ => none
  | .lapse => some { s with store := none }

def Step (s : State) (a : Act) (t : State) : Prop := step s a = some t

/-- The claims that returned, the newest first. -/
def claims : List Event → List Grant
  | [] => []
  | .claimed reply tenure :: log => ⟨reply.fence, reply.holder, tenure⟩ :: claims log
  | _ :: log => claims log

/-- **A release that returned ended one tenure**, that of the claim which returned its fence. -/
def Named (log : List Event) : Prop :=
  ∀ later reply tenure earlier, log = later ++ .released reply tenure :: earlier →
    ∃ g ∈ claims earlier, (g.fence : ℤ) = reply.fence ∧ ∃ id, g.tenure = some id ∧ tenure = some id

def Increasing (log : List Event) : Prop := (claims log).Pairwise fun g g' => g'.fence < g.fence

end JobFences
