import Mathlib.Data.Int.Order.Basic
import Mathlib.Algebra.Order.Group.Int
import Mathlib.Data.List.DropRight
import RunnerDashboard.Lib.Path
import RunnerDashboard.Lib.PyStr
import RunnerDashboard.Lib.Table
import RunnerDashboard.Lib.Window

/-!
# The hourly dispatch quota

Each principal has a list of the times of its dispatches.  Whoever looks at the list first drops the
times from before the window, and a dispatch is refused when as many are left as the window takes.

## Main results

* `pruneLocked_spec` — what is dropped.
* `kept_path` — **the list of a principal is what counts of its dispatches since the reset**.
-/

namespace DispatchQuota

open Lts Sql Window

/-! ### The tracker -/

/-- The arguments of the constructor, with their defaults. -/
structure Config where
  windowSeconds : ℤ := 3600
  maxPerWindow : ℕ := 100

/-- The counters of the module. -/
structure Metrics where
  allowed : ℕ := 0
  rejectedAnonymous : ℕ := 0
  rejectedRateLimited : ℕ := 0
  currentPrincipals : ℕ := 0
  deriving DecidableEq

structure State where
  timestamps : Table String (List ℤ) := .empty
  metrics : Metrics := {}

structure QuotaCheck where
  allowed : Bool
  reason : String
  retryAfter : ℤ
  deriving DecidableEq

def isAnonymous : Option String → Bool
  | none => true
  | some principal =>
    principal = "" || Py.lower (Py.strip principal) = "" ||
      Py.lower (Py.strip principal) ∈ ["anonymous", "none", "null", "unknown", "-"]

/-- The list of a principal, empty if it has none. -/
def State.stored (s : State) (p : String) : List ℤ := (s.timestamps.get? p).getD []

def State.withTimestamps (s : State) (t : Table String (List ℤ)) : State :=
  { s with timestamps := t, metrics.currentPrincipals := t.rows.length }

def pruneLocked (s : State) (p : String) (cutoff : ℤ) : List ℤ × State :=
  match s.stored p with
  | [] => ([], s)
  | ts =>
    match recent cutoff ts with
    | [] => ([], s.withTimestamps (s.timestamps.delete fun k _ => k = p))
    | kept =>
      if kept.length < ts.length then (kept, { s with timestamps := s.timestamps.put p kept })
      else (ts, s)

/-- No answer is the `IndexError` of the oldest time of an empty list. -/
def checkAndRecord (cfg : Config) (s : State) (principal : Option String) (now : ℤ) :
    Option QuotaCheck × State :=
  match principal with
  | some p =>
    if isAnonymous (some p) then anonymous
    else
      let (ts, s) := pruneLocked s p (now - cfg.windowSeconds)
      if cfg.maxPerWindow ≤ ts.length then
        match ts with
        | [] => (none, s)
        | oldest :: _ =>
          (some ⟨false, "rate_limited", max 1 (cfg.windowSeconds - (now - oldest) + 1)⟩,
            { s with metrics.rejectedRateLimited := s.metrics.rejectedRateLimited + 1 })
      else
        (some ⟨true, "ok", 0⟩,
          { s with metrics.allowed := s.metrics.allowed + 1 }.withTimestamps
            (s.timestamps.put p (ts ++ [now])))
  | none => anonymous
where
  anonymous : Option QuotaCheck × State :=
    (some ⟨false, "anonymous_principal", 0⟩,
      { s with metrics.rejectedAnonymous := s.metrics.rejectedAnonymous + 1 })

def currentCount (cfg : Config) (s : State) (p : String) (now : ℤ) : ℕ × State :=
  let (ts, s) := pruneLocked s p (now - cfg.windowSeconds)
  (ts.length, s)

def reset (s : State) : Option String → State
  | none => s.withTimestamps .empty
  | some p => s.withTimestamps (s.timestamps.delete fun k _ => k = p)

/-! ### Runs -/

inductive Call
  | check (principal : Option String) (now : ℤ)
  | count (principal : String) (now : ℤ)
  | reset (principal : Option String)

inductive Answer
  | checked (q : QuotaCheck)
  | indexError
  | counted (n : ℕ)
  | done
  deriving DecidableEq

abbrev Event := Call × Answer

def exec (cfg : Config) (s : State) : Call → Answer × State
  | .check principal now =>
    let r := checkAndRecord cfg s principal now
    (r.1.elim .indexError .checked, r.2)
  | .count p now =>
    let r := currentCount cfg s p now
    (.counted r.1, r.2)
  | .reset principal => (.done, DispatchQuota.reset s principal)

def Step (cfg : Config) (s : State) (e : Event) (t : State) : Prop := exec cfg s e.1 = (e.2, t)

def run (cfg : Config) : State → List Call → List Event × State
  | s, [] => ([], s)
  | s, call :: calls =>
    let r := exec cfg s call
    let rest := run cfg r.2 calls
    ((call, r.1) :: rest.1, rest.2)

theorem path_run (cfg : Config) (s : State) (calls : List Call) :
    Path (Step cfg) s (run cfg s calls).1 (run cfg s calls).2 := by
  induction calls generalizing s with
  | nil => exact .nil s
  | cons call calls ih => exact .cons rfl (ih _)

def Call.time? : Call → Option ℤ
  | .check _ now => some now
  | .count _ now => some now
  | .reset _ => none

def times (es : List Event) : List ℤ := es.filterMap fun e => e.1.time?

/-- The clock never goes back. -/
def Clocked (es : List Event) : Prop := (times es).Pairwise (· ≤ ·)

instance (es : List Event) : Decidable (Clocked es) :=
  inferInstanceAs (Decidable ((times es).Pairwise (· ≤ ·)))

/-- The time of a dispatch of the principal that was let through. -/
def allowedOf (p : String) : Event → Option ℤ
  | (.check (some q) now, .checked r) => if q = p ∧ r.allowed = true then some now else none
  | _ => none

def allowedTimes (p : String) (es : List Event) : List ℤ := es.filterMap (allowedOf p)

/-- The principal is forgotten. -/
def Resets (p : String) (e : Event) : Prop := e.1 = .reset none ∨ e.1 = .reset (some p)

/-- The principal asks for a dispatch. -/
def Checks (p : String) (e : Event) : Prop := ∃ now, e.1 = .check (some p) now

instance (p : String) (e : Event) : Decidable (Resets p e) :=
  match e with
  | (.check .., _) => .isFalse (by simp [Resets])
  | (.count .., _) => .isFalse (by simp [Resets])
  | (.reset none, _) => .isTrue (.inl rfl)
  | (.reset (some q), _) => decidable_of_iff (q = p) (by simp [Resets])

/-- The dispatches of a principal since it was last forgotten. -/
def since (p : String) (es : List Event) : List ℤ :=
  es.foldl (fun ts e => if Resets p e then [] else ts ++ (allowedOf p e).toList) []

@[simp] theorem since_nil (p : String) : since p [] = [] := rfl

theorem since_concat (p : String) (es : List Event) (e : Event) :
    since p (es ++ [e]) = if Resets p e then [] else since p es ++ (allowedOf p e).toList := by
  simp [since]

theorem times_concat (es : List Event) (e : Event) :
    times (es ++ [e]) = times es ++ e.1.time?.toList := by
  simp only [times, List.filterMap_append, List.append_cancel_left_eq]
  cases h : e.1.time? <;> simp [h]

theorem Clocked.of_append {es es' : List Event} (h : Clocked (es ++ es')) : Clocked es := by
  unfold Clocked times at h
  rw [List.filterMap_append] at h
  exact (List.pairwise_append.mp h).1

theorem Clocked.le {es es' : List Event} {e : Event} {now t : ℤ} (h : Clocked (es ++ e :: es'))
    (he : e.1.time? = some now) (ht : t ∈ times es) : t ≤ now := by
  unfold Clocked times at h
  rw [List.filterMap_append, List.filterMap_cons, he] at h
  exact (List.pairwise_append.mp h).2.2 t ht now (List.mem_cons_self ..)

/-- Over a stretch without a reset the dispatches add up. -/
theorem since_append {p : String} {es es' : List Event} (h : ∀ e ∈ es', ¬ Resets p e) :
    since p (es ++ es') = since p es ++ allowedTimes p es' := by
  induction es' using List.reverseRecOn with
  | nil => simp [allowedTimes]
  | append_singleton es' e ih =>
    have hes' : ∀ x ∈ es', ¬ Resets p x := fun x hx => h x (by simp [hx])
    have he : ¬ Resets p e := h e (by simp)
    rw [← List.append_assoc, since_concat, if_neg he, ih hes', List.append_assoc]
    congr 1
    unfold allowedTimes
    rw [List.filterMap_append]
    cases ha : allowedOf p e <;> simp [ha]

theorem since_sublist (p : String) (es : List Event) :
    (since p es).Sublist (allowedTimes p es) := by
  induction es using List.reverseRecOn with
  | nil => simp
  | append_singleton es e ih =>
    rw [since_concat]
    split_ifs
    · exact List.nil_sublist _
    · unfold allowedTimes at ih ⊢
      rw [List.filterMap_append]
      refine ih.append ?_
      cases ha : allowedOf p e <;> simp [ha]

/-! ### What is dropped -/

variable {cfg : Config} {s t : State} {p q : String} {cutoff now : ℤ} {es : List Event}

theorem stored_delete (s : State) (p q : String) :
    (s.withTimestamps (s.timestamps.delete fun k _ => k = p)).stored q =
      if q = p then [] else s.stored q := by
  simp only [State.stored, State.withTimestamps, Table.get?_delete]
  by_cases hq : q = p
  · simp only [hq, decide_true, Bool.not_true, if_true]
    cases s.timestamps.get? p <;> rfl
  · simp only [hq, decide_false, Bool.not_false, if_false]
    cases s.timestamps.get? q <;> rfl

theorem stored_put (s : State) (p q : String) (ts : List ℤ) :
    ({ s with timestamps := s.timestamps.put p ts } : State).stored q =
      if q = p then ts else s.stored q := by
  simp only [State.stored, Table.get?_put]
  split_ifs <;> rfl

/-- **What is dropped**: the times from before the cutoff, of the one principal. -/
theorem pruneLocked_spec (s : State) (p : String) (cutoff : ℤ) :
    (pruneLocked s p cutoff).1 = recent cutoff (s.stored p) ∧
      ∀ q, (pruneLocked s p cutoff).2.stored q =
        if q = p then recent cutoff (s.stored p) else s.stored q := by
  unfold pruneLocked
  split
  · next hnil =>
    refine ⟨by simp [hnil], fun q => ?_⟩
    split_ifs with hq
    · rw [hq, hnil, recent_nil]
    · rfl
  · split
    · next hnil =>
      rw [hnil]
      exact ⟨rfl, stored_delete s p⟩
    · next hkept =>
      split
      · refine ⟨rfl, fun q => ?_⟩
        rw [stored_put]
      · next hlen =>
        -- as long as before, so nothing was dropped
        have hall : recent cutoff (s.stored p) = s.stored p :=
          (recent_suffix _ _).eq_of_length_le (not_lt.mp hlen)
        rw [hall]
        refine ⟨rfl, fun q => ?_⟩
        split_ifs with hq
        · rw [hq]
        · rfl

theorem checkAndRecord_anonymous (cfg : Config) (s : State) (now : ℤ) {principal : Option String}
    (h : isAnonymous principal = true) :
    (checkAndRecord cfg s principal now).1 = some ⟨false, "anonymous_principal", 0⟩ ∧
      ∀ q, (checkAndRecord cfg s principal now).2.stored q = s.stored q := by
  cases principal with
  | none => exact ⟨rfl, fun _ => rfl⟩
  | some p =>
    simp only [checkAndRecord, h, if_true]
    exact ⟨rfl, fun _ => rfl⟩

/-- **A check**: while there is room the time is put down, and else nothing is. -/
theorem checkAndRecord_spec (cfg : Config) (s : State) (now : ℤ)
    (h : isAnonymous (some p) = false) :
    let ts := recent (now - cfg.windowSeconds) (s.stored p)
    (ts.length < cfg.maxPerWindow →
      (checkAndRecord cfg s (some p) now).1 = some ⟨true, "ok", 0⟩ ∧
        ∀ q, (checkAndRecord cfg s (some p) now).2.stored q =
          if q = p then ts ++ [now] else s.stored q) ∧
    (cfg.maxPerWindow ≤ ts.length →
      (checkAndRecord cfg s (some p) now).1 = (ts.head?.map fun oldest =>
        ⟨false, "rate_limited", max 1 (cfg.windowSeconds - (now - oldest) + 1)⟩) ∧
        ∀ q, (checkAndRecord cfg s (some p) now).2.stored q =
          if q = p then ts else s.stored q) := by
  obtain ⟨hts, hstored⟩ := pruneLocked_spec s p (now - cfg.windowSeconds)
  dsimp only
  generalize recent (now - cfg.windowSeconds) (s.stored p) = ts at hts hstored ⊢
  refine ⟨fun hroom => ?_, fun hfull => ?_⟩
  · simp only [checkAndRecord, h, hts, if_neg (not_le.mpr hroom), Bool.false_eq_true, if_false]
    refine ⟨trivial, fun q => ?_⟩
    simp only [State.stored, State.withTimestamps, Table.get?_put] at hstored ⊢
    split_ifs with hq
    · rfl
    · rw [hstored q, if_neg hq]
  · simp only [checkAndRecord, h, hts, if_pos hfull, Bool.false_eq_true, if_false]
    cases ts with
    | nil => exact ⟨rfl, hstored⟩
    | cons oldest rest => exact ⟨rfl, hstored⟩

/-! ### The lists along a run -/

/-- A cutoff that no window up to the end of the past is behind. -/
def Behind (cfg : Config) (es : List Event) (c : ℤ) : Prop :=
  ∀ t ∈ times es, t - cfg.windowSeconds ≤ c

structure Kept (cfg : Config) (es : List Event) (s : State) (p : String) : Prop where
  stored : ∀ c, Behind cfg es c → recent c (s.stored p) = recent c (since p es)
  sorted : (since p es).Pairwise (· ≤ ·)
  timed : ∀ t ∈ since p es, t ∈ times es
  bounded : ∀ t, within (t - cfg.windowSeconds) t (since p es) ≤ cfg.maxPerWindow

theorem behind_concat {c : ℤ} {e : Event} (h : Behind cfg (es ++ [e]) c) : Behind cfg es c :=
  fun t ht => h t (by rw [times_concat]; exact List.mem_append_left _ ht)

theorem Kept.frame {e : Event} (h : Kept cfg es s p) (hstored : t.stored p = s.stored p)
    (hreset : ¬ Resets p e) (hallowed : allowedOf p e = none) : Kept cfg (es ++ [e]) t p := by
  have hsince : since p (es ++ [e]) = since p es := by
    rw [since_concat, if_neg hreset, hallowed, Option.toList_none, List.append_nil]
  refine ⟨fun c hc => ?_, ?_, fun x hx => ?_, ?_⟩
  · rw [hstored, hsince]
    exact h.stored c (behind_concat hc)
  · rw [hsince]; exact h.sorted
  · rw [hsince] at hx
    rw [times_concat]
    exact List.mem_append_left _ (h.timed x hx)
  · rw [hsince]; exact h.bounded

theorem Kept.prune {e : Event} (h : Kept cfg es s p) (hnow : e.1.time? = some now)
    (hstored : t.stored p = recent (now - cfg.windowSeconds) (s.stored p))
    (hreset : ¬ Resets p e) (hallowed : allowedOf p e = none) : Kept cfg (es ++ [e]) t p := by
  have hsince : since p (es ++ [e]) = since p es := by
    rw [since_concat, if_neg hreset, hallowed, Option.toList_none, List.append_nil]
  refine ⟨fun c hc => ?_, ?_, fun x hx => ?_, ?_⟩
  · have hcutoff : now - cfg.windowSeconds ≤ c := hc now (by rw [times_concat, hnow]; simp)
    rw [hstored, hsince, recent_recent hcutoff]
    exact h.stored c (behind_concat hc)
  · rw [hsince]; exact h.sorted
  · rw [hsince] at hx
    rw [times_concat]
    exact List.mem_append_left _ (h.timed x hx)
  · rw [hsince]; exact h.bounded

theorem Kept.forget {e : Event} (hstored : t.stored p = []) (hreset : Resets p e) :
    Kept cfg (es ++ [e]) t p := by
  have hsince : since p (es ++ [e]) = [] := by rw [since_concat, if_pos hreset]
  refine ⟨fun c _ => by rw [hstored, hsince], ?_, ?_, ?_⟩ <;> simp [hsince]

/-- What counts at a call are the dispatches in the window up to it. -/
theorem Kept.length_recent (h : Kept cfg es s p) (hnow : ∀ t ∈ times es, t ≤ now) :
    (recent (now - cfg.windowSeconds) (s.stored p)).length =
      within (now - cfg.windowSeconds) now (since p es) := by
  have hbehind : Behind cfg es (now - cfg.windowSeconds) := fun t ht => by
    have := hnow t ht
    omega
  rw [h.stored _ hbehind]
  exact Window.length_recent h.sorted fun t ht => hnow t (h.timed t ht)

/-- **A dispatch that is let through.** -/
theorem Kept.accept {e : Event} (h : Kept cfg es s p) (hnow : ∀ t ∈ times es, t ≤ now)
    (htime : e.1.time? = some now) (hreset : ¬ Resets p e) (hallowed : allowedOf p e = some now)
    (hroom : (recent (now - cfg.windowSeconds) (s.stored p)).length < cfg.maxPerWindow)
    (hstored : t.stored p = recent (now - cfg.windowSeconds) (s.stored p) ++ [now]) :
    Kept cfg (es ++ [e]) t p := by
  have hsince : since p (es ++ [e]) = since p es ++ [now] := by
    rw [since_concat, if_neg hreset, hallowed, Option.toList_some]
  have hle : ∀ t ∈ since p es, t ≤ now := fun t ht => hnow t (h.timed t ht)
  rw [h.length_recent hnow] at hroom
  refine ⟨fun c hc => ?_, ?_, fun x hx => ?_, ?_⟩
  · have hcutoff : now - cfg.windowSeconds ≤ c := hc now (by rw [times_concat, htime]; simp)
    have hsame : recent c (recent (now - cfg.windowSeconds) (s.stored p)) =
        recent c (since p es) := by
      rw [recent_recent hcutoff]
      exact h.stored c (behind_concat hc)
    rw [hstored, hsince]
    exact recent_append_congr hsame [now]
  · rw [hsince, List.pairwise_append]
    exact ⟨h.sorted, List.pairwise_singleton _ _, by simpa using hle⟩
  · rw [hsince] at hx
    rw [times_concat, htime]
    rcases List.mem_append.mp hx with hx | hx
    · exact List.mem_append_left _ (h.timed x hx)
    · exact List.mem_append_right _ (by simpa using hx)
  · rw [hsince]
    exact within_concat_le hle hroom h.bounded

/-- **The step lemma.** -/
theorem kept_step {e : Event} (h : ∀ p, Kept cfg es s p) (hclock : Clocked (es ++ [e]))
    (hstep : Step cfg s e t) (p : String) : Kept cfg (es ++ [e]) t p := by
  obtain ⟨call, answer⟩ := e
  cases call with
  | check principal now =>
    have hnow : ∀ t ∈ times es, t ≤ now := fun t ht => hclock.le rfl ht
    have hreset : ¬ Resets p (.check principal now, answer) := by simp [Resets]
    obtain ⟨rfl, rfl⟩ := Prod.mk.inj hstep
    by_cases hanon : isAnonymous principal = true
    · obtain ⟨hanswer, hstored⟩ := checkAndRecord_anonymous cfg s now hanon
      refine (h p).frame (hstored p) hreset ?_
      rw [hanswer]
      cases principal <;> simp [allowedOf]
    · obtain _ | q := principal
      · exact absurd rfl hanon
      obtain ⟨hroom, hfull⟩ := checkAndRecord_spec cfg s now (Bool.eq_false_iff.mpr hanon)
      -- a dispatch is allowed while the pruned list has room
      rcases lt_or_ge (recent (now - cfg.windowSeconds) (s.stored q)).length cfg.maxPerWindow
        with hlt | hge
      · obtain ⟨hanswer, hstored⟩ := hroom hlt
        by_cases hp : p = q
        · subst hp
          refine (h p).accept hnow rfl hreset ?_ hlt (by simpa using hstored p)
          simp [hanswer, allowedOf]
        · refine (h p).frame ((hstored p).trans (if_neg hp)) hreset ?_
          simp [hanswer, allowedOf, Ne.symm hp]
      · obtain ⟨hanswer, hstored⟩ := hfull hge
        have hallowed : allowedOf p (.check (some q) now,
            (checkAndRecord cfg s (some q) now).1.elim .indexError .checked) = none := by
          rw [hanswer]
          cases (recent (now - cfg.windowSeconds) (s.stored q)).head? <;> simp [allowedOf]
        by_cases hp : p = q
        · subst hp
          exact (h p).prune rfl ((hstored p).trans (if_pos rfl)) hreset hallowed
        · exact (h p).frame ((hstored p).trans (if_neg hp)) hreset hallowed
  | count q now =>
    obtain ⟨rfl, rfl⟩ := Prod.mk.inj hstep
    have hstored := (pruneLocked_spec s q (now - cfg.windowSeconds)).2 p
    have hreset : ∀ a, ¬ Resets p (.count q now, a) := by simp [Resets]
    by_cases hp : p = q
    · subst hp
      exact (h p).prune rfl (hstored.trans (if_pos rfl)) (hreset _) rfl
    · exact (h p).frame (hstored.trans (if_neg hp)) (hreset _) rfl
  | reset principal =>
    obtain ⟨rfl, rfl⟩ := Prod.mk.inj hstep
    cases principal with
    | none => exact .forget rfl (.inl rfl)
    | some q =>
      have hstored := stored_delete s q p
      by_cases hp : p = q
      · exact .forget (hstored.trans (if_pos hp)) (.inr (by rw [hp]))
      · exact (h p).frame (hstored.trans (if_neg hp)) (by simp [Resets, Ne.symm hp]) rfl

/-- **The list of a principal is what counts of its dispatches since the reset.** -/
theorem kept_path (hs : s.timestamps = .empty) (hrun : Path (Step cfg) s es t)
    (hclock : Clocked es) (p : String) : Kept cfg es t p := by
  refine hrun.history (I := fun es t => Clocked es → ∀ p, Kept cfg es t p)
    (fun past s e t h hstep hclock => ?_) (fun _ p => ?_) hclock p
  · exact kept_step (h hclock.of_append) hclock hstep
  · have hnil : s.stored p = [] := by simp [State.stored, hs]
    refine ⟨fun c _ => by rw [hnil, since_nil], ?_, ?_, ?_⟩ <;> simp

theorem kept_before {e : Event} {es' : List Event} (hs : s.timestamps = .empty)
    (hrun : Path (Step cfg) s (es ++ e :: es') t) (hclock : Clocked (es ++ e :: es')) :
    ∃ u v, (∀ p, Kept cfg es u p) ∧ Step cfg u e v ∧ (∀ p, Kept cfg (es ++ [e]) v p) ∧
      Path (Step cfg) v es' t := by
  obtain ⟨u, v, hbefore, hstep, hafter⟩ := path_middle_iff.mp hrun
  have hclock' : Clocked (es ++ [e]) := by
    rw [List.append_cons] at hclock
    exact hclock.of_append
  exact ⟨u, v, fun p => kept_path hs hbefore hclock.of_append p, hstep,
    fun p => kept_path hs (hbefore.snoc hstep) hclock' p, hafter⟩

/-! ### The window -/

/-- **What a refusal says**: the oldest of as many dispatches as the window takes. -/
theorem refused_spec {r : QuotaCheck} (hclock : ∀ t ∈ times es, t ≤ now) (h : Kept cfg es s p)
    (hstep : Step cfg s (.check (some p) now, .checked r) t)
    (hanon : isAnonymous (some p) = false) (hr : r.allowed = false) :
    within (now - cfg.windowSeconds) now (since p es) = cfg.maxPerWindow ∧
      ∃ oldest rest, t.stored p = oldest :: rest ∧ rest.length + 1 = cfg.maxPerWindow ∧
        cfg.windowSeconds - (now - oldest) + 1 ≤ r.retryAfter := by
  have hlen := h.length_recent hclock
  obtain ⟨hroom, hfull⟩ := checkAndRecord_spec cfg s now hanon
  obtain ⟨hanswer, rfl⟩ := Prod.mk.inj hstep
  rcases lt_or_ge (recent (now - cfg.windowSeconds) (s.stored p)).length cfg.maxPerWindow
    with hlt | hge
  · rw [(hroom hlt).1] at hanswer
    obtain rfl := Answer.checked.inj hanswer
    cases hr
  · obtain ⟨hsome, hstored⟩ := hfull hge
    have hmax : within (now - cfg.windowSeconds) now (since p es) = cfg.maxPerWindow :=
      Nat.le_antisymm (h.bounded now) (hlen ▸ hge)
    have hkept := (hstored p).trans (if_pos rfl)
    rw [hsome] at hanswer
    cases hts : recent (now - cfg.windowSeconds) (s.stored p) with
    | nil => simp [hts] at hanswer
    | cons oldest rest =>
      rw [hts] at hanswer hkept hlen
      obtain rfl := Answer.checked.inj hanswer
      exact ⟨hmax, oldest, rest, hkept, hlen.trans hmax, le_max_right ..⟩

theorem stored_suffix_step {e : Event} (hstep : Step cfg s e t) (hother : ¬ Checks p e) :
    t.stored p <:+ s.stored p := by
  obtain ⟨call, answer⟩ := e
  obtain ⟨-, rfl⟩ := Prod.mk.inj hstep
  cases call with
  | check principal now =>
    by_cases hanon : isAnonymous principal = true
    · exact (checkAndRecord_anonymous cfg s now hanon).2 p ▸ List.suffix_rfl
    · obtain _ | q := principal
      · exact absurd rfl hanon
      have hp : p ≠ q := fun hp => hother ⟨now, by rw [hp]⟩
      obtain ⟨hroom, hfull⟩ := checkAndRecord_spec cfg s now (Bool.eq_false_iff.mpr hanon)
      rcases lt_or_ge (recent (now - cfg.windowSeconds) (s.stored q)).length cfg.maxPerWindow
        with hlt | hge
      · exact ((hroom hlt).2 p).trans (if_neg hp) ▸ List.suffix_rfl
      · exact ((hfull hge).2 p).trans (if_neg hp) ▸ List.suffix_rfl
  | count q now =>
    have hstored := (pruneLocked_spec s q (now - cfg.windowSeconds)).2 p
    by_cases hp : p = q
    · subst hp
      exact hstored.trans (if_pos rfl) ▸ recent_suffix _ _
    · exact hstored.trans (if_neg hp) ▸ List.suffix_rfl
  | reset principal =>
    cases principal with
    | none => exact List.nil_suffix
    | some q =>
      have hstored := stored_delete s q p
      by_cases hp : p = q
      · exact hstored.trans (if_pos hp) ▸ List.nil_suffix
      · exact hstored.trans (if_neg hp) ▸ List.suffix_rfl

theorem stored_suffix_path (hrun : Path (Step cfg) s es t) (hother : ∀ e ∈ es, ¬ Checks p e) :
    t.stored p <:+ s.stored p := by
  induction hrun with
  | nil => exact List.suffix_rfl
  | @cons s u t e es hstep hrun ih =>
    have hrest := ih fun x hx => hother x (List.mem_cons_of_mem _ hx)
    exact hrest.trans (stored_suffix_step hstep (hother e (List.mem_cons_self ..)))

theorem length_recent_lt {oldest : ℤ} {rest ts : List ℤ} (hsuffix : ts <:+ oldest :: rest)
    (hpassed : oldest < cutoff) : (recent cutoff ts).length < rest.length + 1 := by
  rcases List.suffix_cons_iff.mp hsuffix with rfl | hsuffix
  · rw [recent_cons, if_pos hpassed]
    exact Nat.lt_succ_of_le (recent_suffix _ _).length_le
  · exact Nat.lt_succ_of_le ((recent_suffix _ _).trans hsuffix).length_le

/-- **Who waits as long as it is told is let through.** -/
theorem allowed_after_wait {r : QuotaCheck} {answer : Answer} {u v : State}
    (hclock : ∀ t ∈ times es, t ≤ now) (h : Kept cfg es s p)
    (hrefused : Step cfg s (.check (some p) now, .checked r) t)
    (hanon : isAnonymous (some p) = false) (hr : r.allowed = false) {during : List Event}
    (hwait : Path (Step cfg) t during u) (hother : ∀ e ∈ during, ¬ Checks p e)
    (hagain : Step cfg u (.check (some p) (now + r.retryAfter), answer) v) :
    answer = .checked ⟨true, "ok", 0⟩ := by
  obtain ⟨-, oldest, rest, hstored, hmax, hretry⟩ := refused_spec hclock h hrefused hanon hr
  have hsuffix : u.stored p <:+ oldest :: rest := hstored ▸ stored_suffix_path hwait hother
  have hpassed : oldest < now + r.retryAfter - cfg.windowSeconds := by omega
  have hroom := length_recent_lt hsuffix hpassed
  rw [hmax] at hroom
  obtain ⟨hanswer, -⟩ := (checkAndRecord_spec cfg u (now + r.retryAfter) hanon).1 hroom
  obtain ⟨rfl, -⟩ := Prod.mk.inj hagain
  rw [hanswer]
  rfl

/-- **Between resets the quota is a sliding window**: no window has too many dispatches of a
principal; who is refused has had all of them since its last reset; and who waits as long as it is
told is let through. -/
theorem slidingWindow (cfg : Config) {s t : State} {es : List Event}
    (hs : s.timestamps = .empty) (hrun : Path (Step cfg) s es t) (hclock : Clocked es)
    (p : String) :
    (∀ before during after, es = before ++ during ++ after → (∀ e ∈ during, ¬ Resets p e) →
      ∀ now, within (now - cfg.windowSeconds) now (allowedTimes p during) ≤ cfg.maxPerWindow) ∧
    (∀ before after now r, es = before ++ (.check (some p) now, .checked r) :: after →
      isAnonymous (some p) = false → r.allowed = false →
        within (now - cfg.windowSeconds) now (since p before) = cfg.maxPerWindow ∧
        cfg.maxPerWindow ≤ within (now - cfg.windowSeconds) now (allowedTimes p before)) ∧
    (∀ before during after now r answer,
      es = before ++ (.check (some p) now, .checked r) :: (during ++
        (.check (some p) (now + r.retryAfter), answer) :: after) →
      isAnonymous (some p) = false → r.allowed = false → (∀ e ∈ during, ¬ Checks p e) →
        answer = .checked ⟨true, "ok", 0⟩) := by
  refine ⟨?_, ?_, ?_⟩
  · rintro before during after rfl hreset now
    obtain ⟨u, hbefore, -⟩ := path_append_iff.mp hrun
    have hkept := kept_path hs hbefore hclock.of_append p
    refine le_trans (within_le_of_sublist ?_) (hkept.bounded now)
    rw [since_append hreset]
    exact List.sublist_append_right ..
  · rintro before after now r rfl hanon hr
    obtain ⟨u, v, hkept, hstep, -, -⟩ := kept_before hs hrun hclock
    have hfull := (refused_spec (fun t => hclock.le rfl) (hkept p) hstep hanon hr).1
    exact ⟨hfull, hfull ▸ within_le_of_sublist (since_sublist p before)⟩
  · rintro before during after now r answer rfl hanon hr hother
    obtain ⟨u, v, hkept, hstep, -, hrest⟩ := kept_before hs hrun hclock
    obtain ⟨w, x, hwait, hagain, -⟩ := path_middle_iff.mp hrest
    exact allowed_after_wait (fun t => hclock.le rfl) (hkept p) hstep hanon hr hwait hother hagain

/-- A caller that waits, in a window of ten seconds with room for one. -/
def waiting : List Event :=
  run ⟨10, 1⟩ {} [.check (some "ada") 0, .check (some "ada") 4, .count "ada" 5,
    .check (some "ada") 11] |>.1

theorem slidingWindow_waiting :
    within (11 - 10) 11 (allowedTimes "ada" waiting) ≤ 1 ∧
      within (4 - 10) 4 (since "ada" (waiting.take 1)) = 1 ∧
      (waiting.map Prod.snd).getLastD .done = .checked ⟨true, "ok", 0⟩ := by
  obtain ⟨hbound, hrefused, hwait⟩ := slidingWindow ⟨10, 1⟩ rfl (path_run ⟨10, 1⟩ {} _)
    (show Clocked waiting by decide) "ada"
  refine ⟨hbound [] waiting [] rfl (by decide) 11, ?_, ?_⟩
  · exact (hrefused (waiting.take 1) (waiting.drop 2) 4 ⟨false, "rate_limited", 7⟩ rfl rfl rfl).1
  · have hother : ∀ e ∈ (waiting.drop 2).take 1, ¬ Checks "ada" e := by
      rintro e he ⟨now, hcheck⟩
      obtain rfl := List.mem_singleton.mp he
      cases hcheck
    exact hwait (waiting.take 1) ((waiting.drop 2).take 1) [] 4 ⟨false, "rate_limited", 7⟩ _
      rfl rfl rfl hother

/-- A reset makes room at once. -/
theorem not_slidingWindow :
    let es := (run ⟨3600, 1⟩ {} [.check (some "ada") 0, .reset (some "ada"),
      .check (some "ada") 0]).1
    (∃ t, Path (Step ⟨3600, 1⟩) {} es t) ∧ Clocked es ∧
      ¬ within (0 - 3600) 0 (allowedTimes "ada" es) ≤ 1 :=
  ⟨⟨_, path_run ..⟩, by decide, by decide⟩

end DispatchQuota
