import Mathlib.Algebra.Group.Int.Defs
import RunnerDashboard.Lib.PyStr

/-!
# Retries and fallbacks

`handle_post_execution_retry` decides, after an attempt of a run has failed, if there is another
one: a retry on the same provider, a declarative fallback, the next slot of the failover chain, or
the legacy fallback.  They are asked one after the other, and the first that answers decides.

## Main results

* `handle_scheduled` — **what a scheduled attempt is**: a retry below the limit, a step along a
  fallback edge, or a slot that was not tried.
-/

namespace Retry

/-! ### What the decision reads -/

inductive FailureClass
  | rateLimited
  | providerCapacity
  | quotaExhausted
  | providerError
  | workspaceError
  | needsInput
  | authExpired
  | leaseBlocked
  | cliMissing
  | cliOutdated
  | config
  | orphaned
  | unkillable
  | timeout
  | stalled
  | unknown
  | noResult
  /-- No class, or one that no list has. -/
  | unclassified
  deriving DecidableEq, Repr

/-- `RETRYABLE_FAILURE_CLASSES`. -/
def retryableClasses : List FailureClass :=
  [.rateLimited, .providerCapacity, .quotaExhausted, .providerError, .workspaceError]

/-- `ALLOWED_WHEN_CLASSES`, and `FAILOVER_FAILURE_CLASSES`. -/
def failoverClasses : List FailureClass := [.providerCapacity, .quotaExhausted, .rateLimited]

/-- `IMMEDIATE_FALLBACK_CLASSES`, and `IMMEDIATE_FAILOVER_CLASSES`. -/
def immediateClasses : List FailureClass := [.providerCapacity, .quotaExhausted]

/-- `READ_ONLY_RUN_PROVIDERS`. -/
def readOnlyProviders : List String := ["claude", "antigravity"]

/-- `TierName`. -/
inductive Tier
  | routine
  | standard
  | complex
  deriving DecidableEq, Repr

def Tier.text : Tier → String
  | .routine => "routine"
  | .standard => "standard"
  | .complex => "complex"

def Tier.index : Tier → ℕ
  | .routine => 0
  | .standard => 1
  | .complex => 2

/-- The tiers from one on, as `next_tier_up` goes through `tier_order`. -/
def Tier.up : Tier → List Tier
  | .routine => [.routine, .standard, .complex]
  | .standard => [.standard, .complex]
  | .complex => [.complex]

/-- `max(…, key=order.index)`. -/
def Tier.max (t t' : Tier) : Tier := if t.index < t'.index then t' else t

/-- `ProviderFallbackTarget`. -/
structure FallbackTarget where
  provider : String
  model : Option String
  deriving DecidableEq, Repr

/-- `ProviderFallbackRule`. -/
structure FallbackRule where
  when_ : List FailureClass
  fromProvider : Option String
  target : FallbackTarget
  deriving DecidableEq, Repr

structure FailoverStep where
  provider : String
  model : Option String
  deriving DecidableEq, Repr

/-- `RoleSpec`, as far as a retry reads it. -/
structure Role where
  providers : List String
  model : Option String
  tier : Tier
  codeReadOnly : Bool
  allowTierEscalation : Bool
  maxAttempts : Int
  fallbackProviders : List String
  providerFallbacks : List FallbackRule
  failoverChain : List FailoverStep

/-- What does not change while the process runs: the adapters, the default chain, the models of the
tiers, `resolve_staff_run_model_detail` (`none` where it raises), and if `build_command` takes a
model. -/
structure Fleet where
  adapters : List String
  defaultChain : List FailoverStep
  tierModel : String → Tier → Option String
  resolveModel : String → Option String → Option String → Tier → Option (Option String)
  builds : String → Option String → Bool

/-- What a decision reads of the node at its time: the budget, the providers that may run
unattended, are installed and are cooling, and the active provider that was recorded. -/
structure Probe where
  canRun : Bool
  unattended : String → Bool
  installed : String → Bool
  cooling : String → Bool
  active : Option FailoverStep

/-- `RunRecord` of an attempt, as far as a retry reads it; the tier may be missing. -/
structure Attempt where
  provider : String
  model : Option String
  modelTier : Option Tier
  attempt : ℕ
  maxAttempts : Int
  deriving DecidableEq, Repr

/-- An entry of `provider_chain`. -/
structure LogEntry where
  provider : String
  model : Option String
  tier : Option Tier
  outcome : FailureClass
  deriving DecidableEq, Repr

/-- The attempts of one root run: the latest, all rows, and the chain log of the root. -/
structure Attempts where
  latest : Attempt
  rows : List Attempt
  log : List LogEntry
  deriving DecidableEq, Repr

/-- What is decided about an attempt that failed. -/
inductive Verdict
  /-- Another attempt was scheduled. -/
  | scheduled
  /-- The run is blocked: the chain is exhausted. -/
  | exhausted
  | stopped
  /-- The model or the command of the next attempt could not be made. -/
  | raised
  deriving DecidableEq, Repr

/-- `slot_key`, of a tier that may be missing. -/
def slotKey (provider : String) (tier : Option Tier) : String :=
  provider ++ ":" ++ (tier.elim "" Tier.text)

/-- `tried_slots_for_root`. -/
def Attempts.tried (s : Attempts) : List String :=
  s.log.map (fun x => slotKey x.provider x.tier) ++
    s.rows.map fun row => slotKey row.provider row.modelTier

/-- `_claim`: an attempt is inserted, if no row has its number. -/
def claim (next : Attempt) (s : Attempts) : Option Attempts :=
  if next.attempt ∈ s.rows.map Attempt.attempt then none
  else some { s with latest := next, rows := s.rows ++ [next] }

section Choices

variable (F : Fleet) (role : Role) (e : Probe)

/-! ### The choices -/

def canRunUnattended (provider : String) : Bool := provider ∈ F.adapters && e.unattended provider

def fallbackUsable (provider : String) : Bool :=
  canRunUnattended F e provider && (!role.codeReadOnly || provider ∈ readOnlyProviders)

def usableProvider (provider : String) : Bool :=
  (!role.codeReadOnly || provider ∈ readOnlyProviders) &&
    (provider ∈ F.adapters && e.installed provider) && canRunUnattended F e provider

/-- The limit of the attempts of a row: its own, or the role's, or two. -/
def Role.limit (role : Role) (maxAttempts : Int) : Int :=
  if maxAttempts ≠ 0 then maxAttempts
  else if role.maxAttempts ≠ 0 then role.maxAttempts
  else 2

def shouldRetry (latest : Attempt) (fc : FailureClass) : Bool :=
  fc ∈ retryableClasses && fc ≠ .providerCapacity && fc ≠ .quotaExhausted &&
    (latest.attempt : Int) < role.limit latest.maxAttempts && e.canRun

def matchProviderFallback (rules : List FallbackRule) (fc : FailureClass) (current : String)
    (retriesExhausted : Bool) : Option FallbackRule :=
  if fc ∉ failoverClasses then none
  else if fc ∉ immediateClasses ∧ retriesExhausted = false then none
  else rules.find? fun rule =>
    fc ∈ rule.when_ && (rule.fromProvider.all fun p => p = "" || p = current)

def FallbackTarget.requested (target : FallbackTarget) : Option String :=
  target.model.filter fun m =>
    String.ofList ((Py.strip m).toList.map Char.toLower) ∉ ["", "default"]

def resolveFallbackTargetModel (target : FallbackTarget) (source : String) :
    Option (Option String) :=
  F.resolveModel target.provider target.requested
    (if target.provider = source then role.model else none) role.tier

def nextFallbackProvider (current : String) : Option String :=
  if role.fallbackProviders ≠ [] then
    role.fallbackProviders.find? fun p => p ≠ current && fallbackUsable F role e p
  else if current ∈ role.providers then
    (role.providers.drop (role.providers.idxOf current + 1)).find? fun p =>
      fallbackUsable F role e p
  else none

def Role.chainProviders (role : Role) : List String :=
  let readOnly := role.providers.filter (· ∈ readOnlyProviders)
  if role.codeReadOnly ∧ readOnly ≠ [] then readOnly else role.providers

/-- `resolve_failover_chain`, without a requested provider. -/
def resolveFailoverChain : List FailoverStep :=
  let providers := role.chainProviders
  let own (pid : String) : FailoverStep :=
    ⟨pid, if providers.head? = some pid then role.model else none⟩
  let filtered :=
    if role.failoverChain ≠ [] then
      role.failoverChain.filter fun step => step.provider ∈ role.providers
    else
      let included := F.defaultChain.filter fun step => step.provider ∈ providers
      included ++ (providers.filter fun pid => pid ∉ included.map FailoverStep.provider).map own
  let filtered := if filtered = [] then providers.map own else filtered
  match e.active with
  | none => filtered
  | some snap =>
    let model := snap.model.orElse fun _ =>
      (filtered.find? fun step => step.provider = snap.provider).bind FailoverStep.model
    ⟨snap.provider, model⟩ :: filtered.filter fun step => step.provider ≠ snap.provider

/-- `resolve_launch_model`, without a request: the model and the tier of a step. -/
def resolveLaunchModel (provider : String) (step : FailoverStep) (activeTier : Tier) :
    Option (Option String × Tier) :=
  let tier := role.tier.max activeTier
  let primary := ((resolveFailoverChain F role e).head?.map FailoverStep.provider).getD provider
  let stepModel := (step.model.filter (· ≠ "")).bind fun m =>
    match [Tier.routine, .standard, .complex].find? fun t => F.tierModel provider t = some m with
    | some configured => if configured.index < tier.index then F.tierModel provider tier else some m
    | none => some m
  let roleModel := (stepModel.filter (· ≠ "")).orElse fun _ =>
    if provider = primary then role.model else none
  (F.resolveModel provider none roleModel tier).map fun model => (model, tier)

def pickStep (tried : List String) (tier : Tier) : Option FailoverStep :=
  (resolveFailoverChain F role e).find? fun step =>
    slotKey step.provider (some tier) ∉ tried && !e.cooling step.provider &&
      usableProvider F role e step.provider

/-- The loop over the tiers: the first that has a step. -/
def pickSlot (tried : List String) (active : Tier) : Option (FailoverStep × Tier) :=
  (if role.allowTierEscalation then active.up else [active]).findSome? fun tier =>
    (pickStep F role e tried tier).map fun step => (step, tier)

def Attempt.activeTier (latest : Attempt) (role : Role) : Tier := latest.modelTier.getD role.tier

/-! ### The four mechanisms -/

abbrev Answer := Option Verdict × Attempts

def schedule (next : Attempt) (s : Attempts) : Answer :=
  match claim next s with
  | some s' => (some .scheduled, s')
  | none => (none, s)

def tryDeclarativeFallback (fc : FailureClass) (retriesExhausted : Bool) (s : Attempts) : Answer :=
  match matchProviderFallback role.providerFallbacks fc s.latest.provider retriesExhausted with
  | none => (none, s)
  | some rule =>
    if fallbackUsable F role e rule.target.provider = false then (none, s)
    else if e.canRun = false then (none, s)
    else match resolveFallbackTargetModel F role rule.target s.latest.provider with
      | none => (some .raised, s)
      | some model =>
        if F.builds rule.target.provider model = false then (some .raised, s)
        else schedule
          { provider := rule.target.provider
            model := model
            modelTier := none
            attempt := s.latest.attempt + 1
            maxAttempts := s.latest.maxAttempts + 1 } s

def appendChainAttempt (entry : LogEntry) (s : Attempts) : Attempts :=
  { s with log := s.log ++ [entry] }

def tryChainFailover (fc : FailureClass) (retriesExhausted : Bool) (s : Attempts) : Answer :=
  if fc ∉ failoverClasses then (none, s)
  else if fc ∉ immediateClasses ∧ retriesExhausted = false ∧ fc = .rateLimited then (none, s)
  else
    let active := s.latest.activeTier role
    let s' := appendChainAttempt ⟨s.latest.provider, s.latest.model, some active, fc⟩ s
    match pickSlot F role e s'.tried active with
    | none => (some .exhausted, s')
    | some (step, tier) =>
      if e.canRun = false then (none, s')
      else match resolveLaunchModel F role e step.provider step tier with
        | none => (some .raised, s')
        | some (model, resolved) =>
          if F.builds step.provider model = false then (some .raised, s')
          else schedule
            { provider := step.provider
              model := model
              modelTier := some resolved
              attempt := s.latest.attempt + 1
              maxAttempts := s.latest.maxAttempts + 1 } s'

/-- The retry on the same provider; a claim that is lost ends the decision. -/
def trySameProvider (fc : FailureClass) (s : Attempts) : Answer :=
  if shouldRetry role e s.latest fc = false then (none, s)
  else match claim
    { provider := s.latest.provider
      model := s.latest.model
      modelTier := none
      attempt := s.latest.attempt + 1
      maxAttempts := s.latest.maxAttempts } s with
    | some s' => (some .scheduled, s')
    | none => (some .stopped, s)

def tryLegacyFallback (fc : FailureClass) (s : Attempts) : Answer :=
  if fc ∉ retryableClasses then (none, s)
  else match nextFallbackProvider F role e s.latest.provider with
    | none => (none, s)
    | some fallback =>
      if e.canRun = false then (none, s)
      else if F.builds fallback s.latest.model = false then (some .raised, s)
      else schedule
        { provider := fallback
          model := s.latest.model
          modelTier := none
          attempt := s.latest.attempt + 1
          maxAttempts := s.latest.maxAttempts + 1 } s

/-- The first mechanism that answers decides. -/
def firstAnswer : List (Attempts → Answer) → Attempts → Verdict × Attempts
  | [], s => (.stopped, s)
  | try_ :: rest, s =>
    match try_ s with
    | (some verdict, s') => (verdict, s')
    | (none, s') => firstAnswer rest s'

/-- `handle_post_execution_retry`, of a run that failed. -/
def handlePostExecutionRetry (fc : FailureClass) (s : Attempts) : Verdict × Attempts :=
  firstAnswer
    [tryDeclarativeFallback F role e fc false, tryChainFailover F role e fc false,
      trySameProvider role e fc, tryDeclarativeFallback F role e fc true,
      tryChainFailover F role e fc true, tryLegacyFallback F role e fc] s

/-! ### What a scheduled attempt is -/

/-- A provider and a model. -/
abbrev Position := String × Option String

def Attempt.position (a : Attempt) : Position := (a.provider, a.model)

/-- A fallback goes from one position to another: by a rule, or by the legacy chain. -/
structure FallbackEdge (p q : Position) : Prop where
  canRun : e.canRun = true
  usable : fallbackUsable F role e q.1 = true
  builds : F.builds q.1 q.2 = true
  target : (∃ fc rule, matchProviderFallback role.providerFallbacks fc p.1 true = some rule ∧
      rule.target.provider = q.1 ∧ resolveFallbackTargetModel F role rule.target p.1 = some q.2) ∨
    nextFallbackProvider F role e p.1 = some q.1 ∧ q.2 = p.2

/-- The next attempt was scheduled, and no slot that was tried is forgotten. -/
structure Follows (s s' : Attempts) (next : Attempt) : Prop where
  latest : s'.latest = next
  rows : s'.rows = s.rows ++ [next]
  new : next.attempt ∉ s.rows.map Attempt.attempt
  tried : s.tried ⊆ s'.tried

inductive Scheduled (s s' : Attempts) : Prop
  | retry (below : (s.latest.attempt : Int) < role.limit s.latest.maxAttempts)
      (follows : Follows s s'
        { s.latest with modelTier := none, attempt := s.latest.attempt + 1 })
  | fallback (q : Position) (edge : FallbackEdge F role e s.latest.position q)
      (follows : Follows s s'
        ⟨q.1, q.2, none, s.latest.attempt + 1, s.latest.maxAttempts + 1⟩)
  | failover (q : Position) (tier : Tier) (adapter : q.1 ∈ F.adapters)
      (active : tier ∈ (s.latest.activeTier role).up)
      (free : slotKey q.1 (some tier) ∉ s.tried)
      (follows : Follows s s' ⟨q.1, q.2, some (role.tier.max tier), s.latest.attempt + 1,
        s.latest.maxAttempts + 1⟩)

/-- A mechanism that did not answer forgot nothing. -/
structure Kept (s s' : Attempts) : Prop where
  latest : s'.latest = s.latest
  rows : s'.rows = s.rows
  tried : s.tried ⊆ s'.tried

/-- A mechanism answers nothing and forgets nothing, ends the chain, or schedules what it may. -/
inductive Answers (s : Attempts) : Answer → Prop
  | none {s' : Attempts} (kept : Kept s s') : Answers s (none, s')
  | ended {verdict : Verdict} {s' : Attempts} (ended : verdict ≠ .scheduled) :
      Answers s (some verdict, s')
  | scheduled {s' : Attempts} (scheduled : Scheduled F role e s s') :
      Answers s (some .scheduled, s')

end Choices

section Spec

variable {F : Fleet} {role : Role} {e : Probe} {s s' s'' : Attempts} {next : Attempt}
  {fc : FailureClass} {exhausted : Bool}

theorem Kept.refl (s : Attempts) : Kept s s := ⟨rfl, rfl, fun _ h => h⟩

theorem Follows.of_kept (hkept : Kept s s') (h : Follows s' s'' next) : Follows s s'' next where
  latest := h.latest
  rows := by rw [h.rows, hkept.rows]
  new := hkept.rows ▸ h.new
  tried := fun _ hk => h.tried (hkept.tried hk)

theorem Scheduled.of_kept (hkept : Kept s s') (h : Scheduled F role e s' s'') :
    Scheduled F role e s s'' := by
  have hlatest := hkept.latest
  cases h with
  | retry below follows =>
    rw [hlatest] at below follows
    exact .retry below (follows.of_kept hkept)
  | fallback q edge follows =>
    rw [hlatest] at edge follows
    exact .fallback q edge (follows.of_kept hkept)
  | failover q tier adapter active free follows =>
    rw [hlatest] at active follows
    exact .failover q tier adapter active (fun hk => free (hkept.tried hk)) (follows.of_kept hkept)

theorem claim_follows (h : claim next s = some s') : Follows s s' next := by
  unfold claim at h
  split_ifs at h with hnew
  obtain rfl := Option.some.inj h
  refine ⟨rfl, rfl, hnew, fun k hk => ?_⟩
  rcases List.mem_append.mp hk with hlog | hrow
  · exact List.mem_append_left _ hlog
  · refine List.mem_append_right _ ?_
    rw [List.map_append]
    exact List.mem_append_left _ hrow

theorem answers_schedule (hkept : Kept s s')
    (hfollows : ∀ s'', Follows s' s'' next → Scheduled F role e s' s'') :
    Answers F role e s (schedule next s') := by
  unfold schedule
  cases hclaim : claim next s' with
  | none => exact .none hkept
  | some s'' => exact .scheduled ((hfollows s'' (claim_follows hclaim)).of_kept hkept)

theorem kept_append (entry : LogEntry) (s : Attempts) : Kept s (appendChainAttempt entry s) := by
  refine ⟨rfl, rfl, fun k hk => ?_⟩
  rcases List.mem_append.mp hk with hlog | hrow
  · refine List.mem_append_left _ ?_
    change k ∈ (s.log ++ [entry]).map _
    rw [List.map_append]
    exact List.mem_append_left _ hlog
  · exact List.mem_append_right _ hrow

/-- A rule that matches an immediate class matches it also after the retries. -/
theorem matchProviderFallback_exhausted {rules : List FallbackRule} {current : String}
    {rule : FallbackRule} (h : matchProviderFallback rules fc current exhausted = some rule) :
    matchProviderFallback rules fc current true = some rule := by
  unfold matchProviderFallback at h ⊢
  split_ifs at h with hclass hnow
  rw [if_neg (not_not.mpr hclass), if_neg fun hlate => Bool.noConfusion hlate.2]
  exact h

theorem answers_declarative (fc : FailureClass) (exhausted : Bool) (s : Attempts) :
    Answers F role e s (tryDeclarativeFallback F role e fc exhausted s) := by
  unfold tryDeclarativeFallback
  cases hrule : matchProviderFallback role.providerFallbacks fc s.latest.provider exhausted with
  | none => exact .none (.refl s)
  | some rule =>
    dsimp only
    split_ifs with husable hbudget
    · exact .none (.refl s)
    · exact .none (.refl s)
    · cases hmodel : resolveFallbackTargetModel F role rule.target s.latest.provider with
      | none => exact .ended (by decide)
      | some model =>
        dsimp only
        split_ifs with hbuilds
        · exact .ended (by decide)
        · refine answers_schedule (.refl s) fun s' hfollows =>
            .fallback (rule.target.provider, model) ?_ hfollows
          exact ⟨eq_true_of_ne_false hbudget, eq_true_of_ne_false husable,
            eq_true_of_ne_false hbuilds,
            .inl ⟨fc, rule, matchProviderFallback_exhausted hrule, rfl, hmodel⟩⟩

theorem of_pickSlot {tried : List String} {active tier : Tier} {step : FailoverStep}
    (h : pickSlot F role e tried active = some (step, tier)) :
    tier ∈ active.up ∧ slotKey step.provider (some tier) ∉ tried ∧ step.provider ∈ F.adapters := by
  unfold pickSlot at h
  obtain ⟨tier', hmem, hstep⟩ := List.exists_of_findSome?_eq_some h
  obtain ⟨step', hpick, heq⟩ := Option.map_eq_some_iff.mp hstep
  obtain ⟨rfl, rfl⟩ := Prod.mk.inj heq
  have hfree := List.find?_some hpick
  rw [Bool.and_eq_true, Bool.and_eq_true, decide_eq_true_eq] at hfree
  refine ⟨?_, hfree.1.1, ?_⟩
  · split_ifs at hmem
    · exact hmem
    · rw [List.mem_singleton.mp hmem]
      cases active
      · exact List.mem_cons_self
      · exact List.mem_cons_self
      · exact List.mem_cons_self
  · have husable := hfree.2
    unfold usableProvider at husable
    rw [Bool.and_eq_true, Bool.and_eq_true, Bool.and_eq_true] at husable
    exact of_decide_eq_true husable.1.2.1

theorem resolved_tier {provider : String} {step : FailoverStep} {tier resolved : Tier}
    {model : Option String}
    (h : resolveLaunchModel F role e provider step tier = some (model, resolved)) :
    resolved = role.tier.max tier := by
  unfold resolveLaunchModel at h
  obtain ⟨model', -, heq⟩ := Option.map_eq_some_iff.mp h
  exact (Prod.mk.inj heq).2.symm

theorem answers_failover (fc : FailureClass) (exhausted : Bool) (s : Attempts) :
    Answers F role e s (tryChainFailover F role e fc exhausted s) := by
  unfold tryChainFailover
  by_cases hclass : fc ∉ failoverClasses
  · rw [if_pos hclass]
    exact .none (.refl s)
  rw [if_neg hclass]
  by_cases hlate : fc ∉ immediateClasses ∧ exhausted = false ∧ fc = .rateLimited
  · rw [if_pos hlate]
    exact .none (.refl s)
  · rw [if_neg hlate]
    have hkept := kept_append
      ⟨s.latest.provider, s.latest.model, some (s.latest.activeTier role), fc⟩ s
    dsimp only
    generalize appendChainAttempt _ s = s' at hkept ⊢
    cases hpick : pickSlot F role e s'.tried (s.latest.activeTier role) with
    | none => exact .ended (by decide)
    | some x =>
      obtain ⟨step, tier⟩ := x
      obtain ⟨hactive, hfree, hadapter⟩ := of_pickSlot hpick
      dsimp only
      split_ifs with hbudget
      · exact .none hkept
      · cases hmodel : resolveLaunchModel F role e step.provider step tier with
        | none => exact .ended (by decide)
        | some y =>
          obtain ⟨model, resolved⟩ := y
          dsimp only
          split_ifs with hbuilds
          · exact .ended (by decide)
          · rw [resolved_tier hmodel]
            refine answers_schedule hkept fun s'' hfollows => ?_
            rw [← hkept.latest] at hactive hfollows
            exact .failover (step.provider, model) tier hadapter hactive hfree hfollows

theorem answers_sameProvider (fc : FailureClass) (s : Attempts) :
    Answers F role e s (trySameProvider role e fc s) := by
  unfold trySameProvider
  split_ifs with hretry
  · exact .none (.refl s)
  · have hbelow : (s.latest.attempt : Int) < role.limit s.latest.maxAttempts := by
      have hyes := eq_true_of_ne_false hretry
      unfold shouldRetry at hyes
      rw [Bool.and_eq_true, Bool.and_eq_true] at hyes
      exact of_decide_eq_true hyes.1.2
    cases hclaim : claim _ s with
    | none => exact .ended (by decide)
    | some s' => exact .scheduled (.retry hbelow (claim_follows hclaim))

/-- The legacy chain goes to a provider that may be used. -/
theorem usable_of_nextFallbackProvider {current p : String}
    (h : nextFallbackProvider F role e current = some p) : fallbackUsable F role e p = true := by
  unfold nextFallbackProvider at h
  split_ifs at h
  · have hp := List.find?_some h
    rw [Bool.and_eq_true] at hp
    exact hp.2
  · exact List.find?_some (p := fun p => fallbackUsable F role e p) h

theorem answers_legacy (fc : FailureClass) (s : Attempts) :
    Answers F role e s (tryLegacyFallback F role e fc s) := by
  unfold tryLegacyFallback
  by_cases hclass : fc ∉ retryableClasses
  · rw [if_pos hclass]
    exact .none (.refl s)
  · rw [if_neg hclass]
    cases hnext : nextFallbackProvider F role e s.latest.provider with
    | none => exact .none (.refl s)
    | some p =>
      dsimp only
      split_ifs with hbudget hbuilds
      · exact .none (.refl s)
      · exact .ended (by decide)
      · refine answers_schedule (.refl s) fun s' hfollows =>
          .fallback (p, s.latest.model) ?_ hfollows
        exact ⟨eq_true_of_ne_false hbudget, usable_of_nextFallbackProvider hnext,
          eq_true_of_ne_false hbuilds, .inr ⟨hnext, rfl⟩⟩

theorem firstAnswer_scheduled {fs : List (Attempts → Answer)}
    (hsound : ∀ f ∈ fs, ∀ s, Answers F role e s (f s))
    (h : firstAnswer fs s = (.scheduled, s')) : Scheduled F role e s s' := by
  induction fs generalizing s with
  | nil => cases h
  | cons f fs ih =>
    have hanswer := hsound f List.mem_cons_self s
    unfold firstAnswer at h
    cases hf : f s with
    | mk verdict s₁ =>
      rw [hf] at h hanswer
      cases hanswer with
      | none kept =>
        exact (ih (fun g hg => hsound g (List.mem_cons_of_mem _ hg)) h).of_kept kept
      | ended hended => exact absurd (Prod.mk.inj h).1 hended
      | scheduled hsched => exact (Prod.mk.inj h).2 ▸ hsched

/-- **What a scheduled attempt is**: a retry below the limit, a step along a fallback edge, or a
slot of the failover chain that was not tried. -/
theorem handle_scheduled (h : handlePostExecutionRetry F role e fc s = (.scheduled, s')) :
    Scheduled F role e s s' := by
  refine firstAnswer_scheduled (fun f hf s => ?_) h
  simp only [List.mem_cons, List.not_mem_nil, or_false] at hf
  rcases hf with rfl | rfl | rfl | rfl | rfl | rfl
  · exact answers_declarative fc false s
  · exact answers_failover fc false s
  · exact answers_sameProvider fc s
  · exact answers_declarative fc true s
  · exact answers_failover fc true s
  · exact answers_legacy fc s

end Spec

end Retry
