import Mathlib.Data.List.Basic
import RunnerDashboard.ArmCap.Store

/-!
# The over-cap disarm

When more pull requests are armed than the cap lets through, a disarm is triggered, but only after a
streak of such observations, and not again within a cooldown.  The streak is kept in the store and
is set back by a disarm alone: an observation at or below the cap leaves it as it is.

## Main results

* `sustained_iff` — **a run triggers on sustained overload only exactly if every streak that
  should have ended comes to no trigger**.
-/

namespace ArmCap

/-- `ArmCapPolicy`, as far as the disarm reads it. -/
structure DisarmPolicy where
  enabled : Bool
  shadowMode : Bool
  maxHealthyArmed : Int
  disarmTransientStreakLimit : Int
  disarmCooldownSeconds : Int

/-- The values of `last_disarm_at` and `over_cap_streak`. -/
structure DisarmState where
  lastDisarmAt : Option Int := none
  overCapStreak : Option Int := none

/-- `int(… or "0")`. -/
def DisarmState.streak (s : DisarmState) : Int := s.overCapStreak.getD 0

def outsideCooldown (P : DisarmPolicy) (s : DisarmState) (now : Int) : Bool :=
  match s.lastDisarmAt with
  | none => true
  | some last => !decide (now - last < P.disarmCooldownSeconds * second)

def shouldTriggerCapDisarm (P : DisarmPolicy) (healthyCount now : Int) (s : DisarmState) :
    Bool × DisarmState :=
  if P.enabled = false ∨ P.shadowMode = true then (false, s)
  else if healthyCount ≤ P.maxHealthyArmed then (false, s)
  else if outsideCooldown P s now = false then (false, s)
  else if s.streak < P.disarmTransientStreakLimit then
    (false, { s with overCapStreak := some (s.streak + 1) })
  else (true, s)

def recordDisarmTriggered (now : Int) : DisarmState :=
  { lastDisarmAt := some now, overCapStreak := some 0 }

/-- An observation: the healthy count, the time, and the time of the record if it triggers. -/
structure Observation where
  healthyCount : Int
  now : Int
  recordedAt : Int

def observe (P : DisarmPolicy) (s : DisarmState) (o : Observation) : Bool × DisarmState :=
  let r := shouldTriggerCapDisarm P o.healthyCount o.now s
  if r.1 then (true, recordDisarmTriggered o.recordedAt) else (false, r.2)

def afterObservations (P : DisarmPolicy) (s : DisarmState) (obs : List Observation) : DisarmState :=
  obs.foldl (fun s o => (observe P s o).2) s

def overCap (P : DisarmPolicy) (o : Observation) : Bool := P.maxHealthyArmed < o.healthyCount

def observed (P : DisarmPolicy) : DisarmState → List Observation → List Observation
  | _, [] => []
  | s, o :: obs =>
    if outsideCooldown P s o.now then o :: observed P (observe P s o).2 obs
    else observed P (observe P s o).2 obs

def TimesMonotone (obs : List Observation) : Prop :=
  (obs.flatMap fun o => [o.now, o.recordedAt]).Pairwise (· ≤ ·)

/-- At least so many of the last of a list are over the cap. -/
def EndsOver (P : DisarmPolicy) (n : ℕ) (obs : List Observation) : Prop :=
  ∃ older recent, obs = older ++ recent ∧ n ≤ recent.length ∧ ∀ o ∈ recent, overCap P o = true

/-- **Every trigger is over the cap, outside the cooldown, and after as many such observations as
the limit says.** -/
def Sustained (P : DisarmPolicy) (obs : List Observation) : Prop :=
  ∀ front o back, obs = front ++ o :: back → (observe P (afterObservations P {} front) o).1 = true →
    overCap P o = true ∧ outsideCooldown P (afterObservations P {} front) o.now = true ∧
      EndsOver P P.disarmTransientStreakLimit.toNat (observed P {} front)

/-- After an observation at or below the cap, while the streak is positive, no more are over the cap
than the streak lacks to the limit. -/
def Spared (P : DisarmPolicy) (obs : List Observation) : Prop :=
  ∀ front o back, obs = front ++ o :: back → overCap P o = false →
    outsideCooldown P (afterObservations P {} front) o.now = true →
      0 < (afterObservations P {} front).streak →
        (back.countP (overCap P) : Int) ≤
          P.disarmTransientStreakLimit - (afterObservations P {} front).streak

variable {P : DisarmPolicy} {s : DisarmState} {o : Observation} {obs : List Observation} {n : ℕ}

/-! ### One observation -/

@[simp] theorem streak_mk (last : Option Int) (n : Int) :
    (DisarmState.mk last (some n)).streak = n :=
  rfl

@[simp] theorem streak_recordDisarmTriggered (now : Int) : (recordDisarmTriggered now).streak = 0 :=
  rfl

/-- **What an observation does**: nothing, or it lengthens the streak, or it triggers. -/
theorem observe_cases (P : DisarmPolicy) (s : DisarmState) (o : Observation) :
    (observe P s o = (false, s) ∧ (P.enabled = true → P.shadowMode = false →
        overCap P o = true → outsideCooldown P s o.now = false)) ∨
      (P.enabled = true ∧ P.shadowMode = false ∧ overCap P o = true ∧
        outsideCooldown P s o.now = true ∧
          (s.streak < P.disarmTransientStreakLimit ∧
              observe P s o = (false, { s with overCapStreak := some (s.streak + 1) }) ∨
            P.disarmTransientStreakLimit ≤ s.streak ∧
              observe P s o = (true, recordDisarmTriggered o.recordedAt))) := by
  unfold observe shouldTriggerCapDisarm overCap
  by_cases hpolicy : P.enabled = false ∨ P.shadowMode = true
  · refine .inl ⟨by simp [hpolicy], fun henabled hshadow => ?_⟩
    simp [henabled, hshadow] at hpolicy
  · obtain ⟨henabled, hshadow⟩ := not_or.mp hpolicy
    rw [Bool.not_eq_false] at henabled
    rw [Bool.not_eq_true] at hshadow
    by_cases hcap : o.healthyCount ≤ P.maxHealthyArmed
    · exact .inl ⟨by simp [hcap], fun _ _ hover => absurd (of_decide_eq_true hover) (by omega)⟩
    · by_cases hout : outsideCooldown P s o.now = true
      · refine .inr ⟨henabled, hshadow, decide_eq_true (by omega), hout, ?_⟩
        by_cases hlimit : s.streak < P.disarmTransientStreakLimit
        · exact .inl ⟨hlimit, by simp [henabled, hshadow, hcap, hout, hlimit]⟩
        · exact .inr ⟨by omega, by simp [henabled, hshadow, hcap, hout, hlimit]⟩
      · rw [Bool.not_eq_true] at hout
        exact .inl ⟨by simp [henabled, hshadow, hcap, hout], fun _ _ _ => hout⟩

theorem observe_of_not_overCap (h : overCap P o = false) : observe P s o = (false, s) := by
  rcases observe_cases P s o with ⟨heq, -⟩ | ⟨-, -, hover, -⟩
  · exact heq
  · rw [h] at hover
    cases hover

theorem afterObservations_append (front back : List Observation) :
    afterObservations P s (front ++ back) =
      afterObservations P (afterObservations P s front) back := by
  unfold afterObservations
  rw [List.foldl_append]

theorem observed_append (front back : List Observation) :
    observed P s (front ++ back) = observed P s front ++
      observed P (afterObservations P s front) back := by
  induction front generalizing s with
  | nil => rfl
  | cons o front ih =>
    rw [List.cons_append, observed, observed, ih]
    split_ifs
    · rfl
    · rfl

theorem observed_cons_of_outside (h : outsideCooldown P s o.now = true) :
    observed P s (o :: obs) = o :: observed P (observe P s o).2 obs := if_pos h

theorem observed_cons_of_cooldown (h : outsideCooldown P s o.now = false) :
    observed P s (o :: obs) = observed P (observe P s o).2 obs := by
  rw [observed, h]
  rfl

theorem afterObservations_concat (front : List Observation) (o : Observation) :
    afterObservations P s (front ++ [o]) = (observe P (afterObservations P s front) o).2 :=
  afterObservations_append front [o]

/-! ### Lists that end over the cap -/

theorem endsOver_zero (obs : List Observation) : EndsOver P 0 obs :=
  ⟨obs, [], (List.append_nil obs).symm, Nat.le_refl 0, nofun⟩

theorem EndsOver.mono {m : ℕ} (h : EndsOver P n obs) (hle : m ≤ n) : EndsOver P m obs := by
  obtain ⟨older, recent, heq, hlen, hover⟩ := h
  exact ⟨older, recent, heq, hle.trans hlen, hover⟩

theorem EndsOver.concat (h : EndsOver P n obs) (ho : overCap P o = true) :
    EndsOver P (n + 1) (obs ++ [o]) := by
  obtain ⟨older, recent, rfl, hlen, hover⟩ := h
  refine ⟨older, recent ++ [o], List.append_assoc .., ?_, ?_⟩
  · rw [List.length_append, List.length_singleton]
    omega
  · intro x hx
    rcases List.mem_append.mp hx with hx | hx
    · exact hover x hx
    · exact List.mem_singleton.mp hx ▸ ho

theorem EndsOver.le_countP {front back : List Observation} (h : EndsOver P n (front ++ o :: back))
    (ho : overCap P o = false) : n ≤ back.countP (overCap P) := by
  obtain ⟨older, recent, heq, hlen, hover⟩ := h
  have hrecent : recent <:+ front ++ o :: back := ⟨older, heq.symm⟩
  have hsuffix : recent <:+ back := by
    rcases List.suffix_or_suffix_of_suffix hrecent (List.suffix_append front (o :: back)) with h | h
    · rcases List.suffix_cons_iff.mp h with rfl | h
      · exact absurd (hover o List.mem_cons_self) (by rw [ho]; exact Bool.false_ne_true)
      · exact h
    · exact absurd (hover o (h.subset List.mem_cons_self)) (by rw [ho]; exact Bool.false_ne_true)
  calc n ≤ recent.length := hlen
    _ = recent.countP (overCap P) := (List.countP_eq_length.mpr hover).symm
    _ ≤ back.countP (overCap P) := hsuffix.sublist.countP_le

/-! ### Runs that spare what breaks a streak -/

/-- The streak is in the last observations, or too few are to come. -/
def Tracks (P : DisarmPolicy) (front back : List Observation) : Prop :=
  EndsOver P (afterObservations P {} front).streak.toNat (observed P {} front) ∨
    (back.countP (overCap P) : Int) ≤
      P.disarmTransientStreakLimit - (afterObservations P {} front).streak

theorem Tracks.step {front back : List Observation} (hspared : Spared P (front ++ o :: back))
    (h : Tracks P front (o :: back)) : Tracks P (front ++ [o]) back := by
  have hcons := List.countP_cons (p := overCap P) (a := o) (l := back)
  unfold Tracks
  rw [observed_append, afterObservations_concat]
  rcases observe_cases P (afterObservations P {} front) o with
    ⟨heq, -⟩ | ⟨-, -, hover, hout, ⟨-, heq⟩ | ⟨-, heq⟩⟩ <;> rw [heq]
  · dsimp only
    cases hout : outsideCooldown P (afterObservations P {} front) o.now with
    | false =>
      rw [observed_cons_of_cooldown hout, observed, List.append_nil]
      exact h.imp_right fun hle => by omega
    | true =>
      rw [observed_cons_of_outside hout, observed]
      cases hover : overCap P o with
      | true =>
        refine h.imp (fun hends => (hends.concat hover).mono (Nat.le_succ _)) fun hle => ?_
        rw [if_pos hover] at hcons
        omega
      | false =>
        -- the streak should end here
        rcases lt_or_ge 0 (afterObservations P {} front).streak with hpos | hzero
        · exact .inr (hspared front o back rfl hover hout hpos)
        · rw [Int.toNat_of_nonpos hzero]
          exact .inl (endsOver_zero _)
  · rw [observed_cons_of_outside hout, observed]
    dsimp only
    rw [streak_mk]
    rw [if_pos hover] at hcons
    exact h.imp (fun hends => (hends.concat hover).mono (by omega)) fun hle => by omega
  · exact .inl (endsOver_zero _)

theorem tracks_of_spared (hspared : Spared P obs) (front back : List Observation)
    (h : obs = front ++ back) : Tracks P front back := by
  induction front using List.reverseRecOn generalizing back with
  | nil => exact .inl (endsOver_zero _)
  | append_singleton front o ih =>
    have hsplit : obs = front ++ o :: back := h.trans (List.append_assoc front [o] back)
    exact (ih (o :: back) hsplit).step (hsplit ▸ hspared)

/-- **A run that spares every broken streak triggers on sustained overload only.** -/
theorem sustained_of_spared (hspared : Spared P obs) : Sustained P obs := by
  intro front o back hsplit htrigger
  rcases observe_cases P (afterObservations P {} front) o with
    ⟨heq, -⟩ | ⟨-, -, hover, hout, ⟨-, heq⟩ | ⟨hlimit, heq⟩⟩
  · rw [heq] at htrigger
    cases htrigger
  · rw [heq] at htrigger
    cases htrigger
  · refine ⟨hover, hout, ?_⟩
    rcases tracks_of_spared hspared front (o :: back) hsplit with hends | hle
    · exact hends.mono (by omega)
    · rw [List.countP_cons, if_pos hover] at hle
      omega

/-! ### Broken streaks that come to a trigger -/

/-- A streak is counted by an active policy, and up to the limit. -/
theorem streak_le (front : List Observation) (h : 0 < (afterObservations P {} front).streak) :
    (P.enabled = true ∧ P.shadowMode = false) ∧
      (afterObservations P {} front).streak ≤ P.disarmTransientStreakLimit := by
  induction front using List.reverseRecOn with
  | nil => exact absurd h (Int.lt_irrefl 0)
  | append_singleton front o ih =>
    rw [afterObservations_concat] at h ⊢
    rcases observe_cases P (afterObservations P {} front) o with
      ⟨heq, -⟩ | ⟨henabled, hshadow, -, -, ⟨hlimit, heq⟩ | ⟨-, heq⟩⟩ <;> rw [heq] at h ⊢
    · exact ih h
    · exact ⟨⟨henabled, hshadow⟩, hlimit⟩
    · exact absurd h (Int.lt_irrefl 0)

/-- **With more over the cap than the streak lacks, there is a trigger**, and all observations up to
it are counted. -/
theorem exists_trigger (hactive : P.enabled = true ∧ P.shadowMode = false)
    (hlimit : s.streak ≤ P.disarmTransientStreakLimit)
    (hout : ∀ o ∈ obs, outsideCooldown P s o.now = true)
    (hcount : P.disarmTransientStreakLimit - s.streak < obs.countP (overCap P)) :
    ∃ front o back, obs = front ++ o :: back ∧
      (observe P (afterObservations P s front) o).1 = true ∧ observed P s front = front ∧
        (front.countP (overCap P) : Int) ≤ P.disarmTransientStreakLimit - s.streak := by
  induction obs generalizing s with
  | nil =>
    rw [List.countP_nil] at hcount
    omega
  | cons o obs ih =>
    have hfirst := hout o List.mem_cons_self
    have hrest := fun x hx => hout x (List.mem_cons_of_mem o hx)
    rw [List.countP_cons] at hcount
    rcases observe_cases P s o with
      ⟨heq, hno⟩ | ⟨-, -, hover, -, ⟨hlt, heq⟩ | ⟨-, heq⟩⟩
    · have hover : ¬ overCap P o = true := by
        intro hover
        rw [hno hactive.1 hactive.2 hover] at hfirst
        cases hfirst
      rw [if_neg hover] at hcount
      obtain ⟨front, x, back, rfl, htrigger, hcounted, hle⟩ := ih hlimit hrest hcount
      refine ⟨o :: front, x, back, rfl, ?_, ?_, ?_⟩
      · rwa [afterObservations, List.foldl_cons, heq]
      · rw [observed_cons_of_outside hfirst, heq, hcounted]
      · rwa [List.countP_cons, if_neg hover]
    · rw [if_pos hover] at hcount
      have hcount' : P.disarmTransientStreakLimit - (s.streak + 1) < obs.countP (overCap P) := by
        omega
      obtain ⟨front, x, back, rfl, htrigger, hcounted, hle⟩ :=
        ih (s := { s with overCapStreak := some (s.streak + 1) }) hlt hrest hcount'
      refine ⟨o :: front, x, back, rfl, ?_, ?_, ?_⟩
      · rwa [afterObservations, List.foldl_cons, heq]
      · rw [observed_cons_of_outside hfirst, heq, hcounted]
      · rw [streak_mk] at hle
        rw [List.countP_cons, if_pos hover]
        omega
    · refine ⟨[], o, obs, rfl, congrArg Prod.fst heq, rfl, ?_⟩
      rw [List.countP_nil]
      omega

theorem outsideCooldown_mono {now now' : Int} (h : outsideCooldown P s now = true)
    (hle : now ≤ now') :
    outsideCooldown P s now' = true := by
  unfold outsideCooldown at h ⊢
  cases hlast : s.lastDisarmAt with
  | none => rfl
  | some last =>
    rw [hlast] at h
    simp only [Bool.not_eq_true', decide_eq_false_iff_not] at h ⊢
    omega

theorem TimesMonotone.le {front back : List Observation} (h : TimesMonotone (front ++ o :: back)) :
    ∀ x ∈ back, o.now ≤ x.now := by
  intro x hx
  unfold TimesMonotone at h
  rw [List.flatMap_append, List.flatMap_cons] at h
  have hback := (List.pairwise_append.mp h).2.1
  refine (List.pairwise_cons.mp hback).1 x.now (List.mem_cons_of_mem _ ?_)
  exact List.mem_flatMap.mpr ⟨x, hx, List.mem_cons_self⟩

/-- A run that triggers on sustained overload only spares every broken streak. -/
theorem spared_of_sustained (h : TimesMonotone obs) (hsustained : Sustained P obs) :
    Spared P obs := by
  intro front o back hsplit hover hout hpos
  by_contra hcount
  obtain ⟨hactive, hlimit⟩ := streak_le front hpos
  subst hsplit
  have hsame := observe_of_not_overCap (s := afterObservations P {} front) hover
  obtain ⟨front', x, back', rfl, htrigger, hcounted, hle⟩ := exists_trigger hactive hlimit
    (fun x hx => outsideCooldown_mono hout (h.le x hx)) (Int.not_le.mp hcount)
  have hstate : afterObservations P {} (front ++ o :: front') =
      afterObservations P (afterObservations P {} front) front' := by
    rw [afterObservations_append, afterObservations, List.foldl_cons, hsame]
    rfl
  have hsplit : front ++ o :: (front' ++ x :: back') = (front ++ o :: front') ++ x :: back' := by
    rw [List.append_assoc, List.cons_append]
  have hends := (hsustained (front ++ o :: front') x back' hsplit (hstate ▸ htrigger)).2.2
  rw [observed_append, observed_cons_of_outside hout, hsame, hcounted] at hends
  have hcount' := hends.le_countP hover
  omega

/-- **A run triggers on sustained overload only exactly if every streak that should have ended comes
to no trigger.** -/
theorem sustained_iff (P : DisarmPolicy) (obs : List Observation) (h : TimesMonotone obs) :
    Sustained P obs ↔ Spared P obs :=
  ⟨spared_of_sustained h, sustained_of_spared⟩

/-- A cap of one, and a trigger on the third observation over it. -/
def limitTwo : DisarmPolicy where
  enabled := true
  shadowMode := false
  maxHealthyArmed := 1
  disarmTransientStreakLimit := 2
  disarmCooldownSeconds := 3600

/-- An observation of so many armed pull requests at a time. -/
def healthyAt (healthyCount now : Int) : Observation := ⟨healthyCount, now, now⟩

theorem sustained_three : Sustained limitTwo [healthyAt 3 0, healthyAt 3 1, healthyAt 3 2] := by
  refine (sustained_iff limitTwo [healthyAt 3 0, healthyAt 3 1, healthyAt 3 2] ?_).mpr ?_
  · unfold TimesMonotone
    decide
  · intro front o back hsplit hover
    have hall : ∀ x ∈ [healthyAt 3 0, healthyAt 3 1, healthyAt 3 2], overCap limitTwo x = true := by
      simp [healthyAt, overCap, limitTwo]
    have ho := hall o (hsplit ▸ List.mem_append_right front List.mem_cons_self)
    rw [hover] at ho
    cases ho

/-- Two observations over the cap, one at zero, and another one over it: a disarm is triggered. -/
theorem not_sustained_broken :
    ¬ Sustained limitTwo [healthyAt 3 0, healthyAt 3 1, healthyAt 0 2, healthyAt 3 3] := by
  intro h
  have hmono : TimesMonotone [healthyAt 3 0, healthyAt 3 1, healthyAt 0 2, healthyAt 3 3] := by
    unfold TimesMonotone
    decide
  have hle := spared_of_sustained hmono h [healthyAt 3 0, healthyAt 3 1] (healthyAt 0 2)
    [healthyAt 3 3] rfl (by decide) (by decide) (by decide)
  exact absurd hle (by decide)

end ArmCap
