import Mathlib.Data.Finset.Sort
import RunnerDashboard.Lib.IsoTime
import RunnerDashboard.Schedule.CronMeaning

/-!
# The next fire of a cron expression

The candidates of a role's zone are compared with the floor by the wall clock, which shows some
minutes twice and others never.  Walls are microseconds since the first year began, and the minutes
of the search are counted from there too.

## Main results

* `nextFire_iff` — **the search returns the next instant exactly if the wall clock agrees with the
  instants around the first matching minute**.
-/

namespace Schedule

def minuteMicros : ℕ := 60000000

def dayMinutes : ℕ := 1440

def maxSearchDays : ℕ := 366 * 5

/-! ### The calendar and the clock -/

def monthOf (day : ℕ) : ℕ :=
  let y := IsoTime.locate IsoTime.yearLength 9999 1 day
  (IsoTime.locate (IsoTime.monthLength y.1) 12 1 y.2).1

def dayOfMonth (day : ℕ) : ℕ :=
  let y := IsoTime.locate IsoTime.yearLength 9999 1 day
  (IsoTime.locate (IsoTime.monthLength y.1) 12 1 y.2).2 + 1

/-- `date.weekday()`: the first day is a Monday. -/
def weekday (day : ℕ) : ℕ := day % 7

/-- A time zone, over any offset function. -/
structure Zone where
  /-- The offset at an instant. -/
  offset : ℤ → ℤ
  /-- `utcoffset()` of a wall time with its fold. -/
  utcoffset : Bool → ℤ → ℤ
  /-- The fold that `astimezone()` gives an instant. -/
  foldAt : ℤ → Bool
  /-- A wall time that the clock shows is resolved to the first instant that shows it. -/
  shows : ∀ u, let w := u + offset u; w - utcoffset false w + offset (w - utcoffset false w) = w
  earliest : ∀ u, let w := u + offset u; w - utcoffset false w ≤ u
  roundTrip : ∀ u, let w := u + offset u; w - utcoffset (foldAt u) w = u

/-- What the clock shows at an instant. -/
def Zone.wall (Z : Zone) (u : ℤ) : ℤ := u + Z.offset u

/-- A `datetime` of the zone. -/
structure Aware where
  wall : ℕ
  fold : Bool
  deriving DecidableEq

def Zone.instant (Z : Zone) (x : Aware) : ℤ := x.wall - Z.utcoffset x.fold x.wall

/-- An aware time: of another zone, or of this one. -/
inductive After
  | elsewhere (u : ℤ)
  | here (x : Aware)

def After.instant (Z : Zone) : After → ℤ
  | elsewhere u => u
  | here x => Z.instant x

/-- The first wall time that a `datetime` does not have. -/
def maxWall : ℕ := IsoTime.maxDays * dayMinutes * minuteMicros

/-- `_localize` of an aware time, which overflows at the ends of the calendar. -/
def Zone.localize (Z : Zone) : After → Option Aware
  | .elsewhere u =>
    if 0 ≤ Z.wall u ∧ Z.wall u < maxWall then some ⟨(Z.wall u).toNat, Z.foldAt u⟩ else none
  | .here x => some x

/-! ### The search -/

def CronSpec.matchesDate (spec : CronSpec) (day : ℕ) : Bool :=
  if monthOf day ∈ spec.months then
    let domOk : Bool := dayOfMonth day ∈ spec.days
    let dowOk : Bool := (weekday day + 1) % 7 ∈ spec.weekdays
    if spec.daysRestricted && spec.weekdaysRestricted then domOk || dowOk else domOk && dowOk
  else false

inductive FireError
  /-- The `ValueError`. -/
  | neverFires
  /-- The `OverflowError` at the ends of the calendar. -/
  | overflow

/-- The minutes of a day that the two loops go through, in their order. -/
def CronSpec.candidates (spec : CronSpec) (day : ℕ) : List ℕ :=
  (spec.hours.sort (· ≤ ·)).flatMap fun hour =>
    (spec.minutes.sort (· ≤ ·)).map fun minute => day * dayMinutes + hour * 60 + minute

def CronSpec.firstOn (spec : CronSpec) (floor day : ℕ) : Option ℕ :=
  if spec.matchesDate day then (spec.candidates day).find? (floor ≤ ·) else none

/-- The loop over the days: after the last one the calendar ends. -/
def search (spec : CronSpec) (floor : ℕ) : ℕ → ℕ → Except FireError ℕ
  | 0, _ => .error .neverFires
  | k + 1, day =>
    match spec.firstOn floor day with
    | some w => .ok w
    | none => if day + 1 < IsoTime.maxDays then search spec floor k (day + 1) else .error .overflow

/-- `floor`: the minute after the one of the start. -/
def Aware.floor (start : Aware) : ℕ := start.wall / minuteMicros + 1

/-- A candidate, with the fold 0. -/
def aware (w : ℕ) : Aware := ⟨w * minuteMicros, false⟩

/-- `next_fire` of a parsed expression. -/
def nextFire (Z : Zone) (spec : CronSpec) (after : After) : Except FireError Aware :=
  match Z.localize after with
  | none => .error .overflow
  | some start =>
    if start.floor < IsoTime.maxDays * dayMinutes then
      match search spec start.floor maxSearchDays (start.floor / dayMinutes) with
      | .ok w => .ok (aware w)
      | .error e => .error e
    else .error .overflow

/-! ### What the search should find -/

def CronSpec.MatchesMinute (spec : CronSpec) (w : ℕ) : Prop :=
  ∃ day, spec.matchesDate day = true ∧ w ∈ spec.candidates day

def InWindow (floor day : ℕ) : Prop :=
  floor / dayMinutes ≤ day ∧ day < floor / dayMinutes + maxSearchDays

/-- The result is the next instant, and a `ValueError` is raised only if no date of the window
matches. -/
structure FiresNext (Z : Zone) (spec : CronSpec) (after : After) : Prop where
  later : ∀ r, nextFire Z spec after = .ok r → after.instant Z < Z.instant r
  matching : ∀ r, nextFire Z spec after = .ok r →
    ∃ w, spec.MatchesMinute w ∧ r.wall = w * minuteMicros
  next : ∀ r, nextFire Z spec after = .ok r → ∀ u w, spec.MatchesMinute w →
    Z.wall u = (w * minuteMicros : ℕ) → ¬ (after.instant Z < u ∧ u < Z.instant r)
  never : nextFire Z spec after = .error .neverFires → ∀ start, Z.localize after = some start →
    ∀ day, InWindow start.floor day → spec.matchesDate day = false

/-- The first matching minute of the wall clock from the floor on, in the window. -/
structure FirstMinute (spec : CronSpec) (floor w : ℕ) : Prop where
  mem : spec.MatchesMinute w
  le : floor ≤ w
  first : ∀ w', spec.MatchesMinute w' → floor ≤ w' → w ≤ w'
  window : InWindow floor (w / dayMinutes)
  calendar : w / dayMinutes < IsoTime.maxDays

/-- The wall clock agrees with the instants, after an instant and from the floor on. -/
structure ClockAgrees (Z : Zone) (spec : CronSpec) (a : ℤ) (floor : ℕ) : Prop where
  /-- The first matching minute is not one of a repeated hour that is over. -/
  ahead : ∀ w, FirstMinute spec floor w → a < Z.instant (aware w)
  repeated : ∀ w, FirstMinute spec floor w → ∀ m u, spec.MatchesMinute m → m < floor →
    Z.wall u = (m * minuteMicros : ℕ) → a < u → Z.instant (aware w) ≤ u
  /-- If it is skipped, no later matching minute is shown before the instant it stands for. -/
  skipped : ∀ w, FirstMinute spec floor w → ∀ m u, spec.MatchesMinute m → w < m →
    Z.wall u = (m * minuteMicros : ℕ) → a < u → Z.instant (aware w) ≤ u
  /-- The date of the floor is not the only matching date of the window, with its times over. -/
  spent : floor / dayMinutes + maxSearchDays < IsoTime.maxDays →
    spec.matchesDate (floor / dayMinutes) = true → ∃ w, FirstMinute spec floor w

variable {D : Digits} {Z : Zone} {spec : CronSpec} {expr : List Char} {floor day k w w' : ℕ}

/-! ### The candidates -/

structure CronSpec.Parsed (spec : CronSpec) : Prop where
  hours : ∀ hour ∈ spec.hours, hour < 24
  minutes : ∀ minute ∈ spec.minutes, minute < 60
  hour : spec.hours.Nonempty
  minute : spec.minutes.Nonempty

theorem ReadsItem.listed {F : Field} {s : List Char} {it : Item} (hF : F.Fits) (hlo : F.lo ≤ F.hi)
    (h : ReadsItem D F s it) : it.base.start F ∈ it.listed F ∧ ∀ x ∈ it.listed F, x ≤ F.hi := by
  have hvalid := h.valid hF
  have hbase : ∀ {s b}, ReadsBase D F s b → ∀ (stepped : Prop) [Decidable stepped],
      b.start F ≤ b.stop F stepped ∧ b.stop F stepped ≤ F.hi := by
    intro s b hb stepped _
    cases hb with
    | star => exact ⟨hlo, le_refl _⟩
    | range ha hb hle => exact ⟨hle, hb.le hF⟩
    | value hv =>
      unfold Base.start Base.stop
      dsimp only
      split_ifs
      · exact ⟨hv.le hF, le_refl _⟩
      · exact ⟨le_refl _, hv.le hF⟩
  have hends : it.base.start F ≤ it.base.stop F (it.by > 1) ∧
      it.base.stop F (it.by > 1) ≤ F.hi := by
    cases h with
    | plain hb => exact hbase hb _
    | step hb => exact hbase hb _
  constructor
  · rw [mem_listed hvalid.1, Nat.sub_self]
    exact ⟨le_refl _, hends.1, dvd_zero _⟩
  · intro x hx
    exact ((mem_listed hvalid.1).mp hx).2.1.trans hends.2

theorem listedAll_of_readsField {F : Field} {s : List Char} {items : List Item} (hF : F.Fits)
    (hlo : F.lo ≤ F.hi) (h : ReadsField D F s items) :
    (listedAll F items).Nonempty ∧ ∀ x ∈ listedAll F items, x ≤ F.hi := by
  have hall : ∀ it ∈ items, it.base.start F ∈ it.listed F ∧ ∀ x ∈ it.listed F, x ≤ F.hi := by
    intro it hit
    obtain ⟨i, hi, rfl⟩ := List.mem_iff_getElem.mp hit
    exact (h.get (h.length_eq ▸ hi) hi).listed hF hlo
  constructor
  · cases items with
    | nil => exact absurd (List.forall₂_nil_right_iff.mp h) (List.splitOnP_ne_nil _ _)
    | cons it items =>
      exact ⟨_, mem_listedAll.mpr ⟨it, List.mem_cons_self, (hall it List.mem_cons_self).1⟩⟩
  · intro x hx
    obtain ⟨it, hit, hx⟩ := mem_listedAll.mp hx
    exact (hall it hit).2 x hx

theorem parsed_of_parseCron (h : parseCron D expr = .ok spec) : spec.Parsed := by
  obtain ⟨f, ⟨-, h₀, h₁, -⟩, -, hlists⟩ := parseCron_eq_ok h
  have hminutes := listedAll_of_readsField (F := minuteField) nofun (by decide) h₀
  have hhours := listedAll_of_readsField (F := hourField) nofun (by decide) h₁
  rw [← hlists.minutes] at hminutes
  rw [← hlists.hours] at hhours
  exact ⟨fun x hx => Nat.lt_succ_of_le (hhours.2 x hx),
    fun x hx => Nat.lt_succ_of_le (hminutes.2 x hx), hhours.1, hminutes.1⟩

theorem mem_candidates : w ∈ spec.candidates day ↔ ∃ hour ∈ spec.hours, ∃ minute ∈ spec.minutes,
    day * dayMinutes + hour * 60 + minute = w := by
  unfold CronSpec.candidates
  simp only [List.mem_flatMap, List.mem_map, Finset.mem_sort]

theorem CronSpec.Parsed.div (hspec : spec.Parsed) (h : w ∈ spec.candidates day) :
    w / dayMinutes = day := by
  obtain ⟨hour, hhour, minute, hminute, rfl⟩ := mem_candidates.mp h
  have hh := hspec.hours hour hhour
  have hm := hspec.minutes minute hminute
  unfold dayMinutes
  omega

theorem CronSpec.Parsed.exists_candidate (hspec : spec.Parsed) (day : ℕ) :
    ∃ w, w ∈ spec.candidates day := by
  obtain ⟨hour, hhour⟩ := hspec.hour
  obtain ⟨minute, hminute⟩ := hspec.minute
  exact ⟨_, mem_candidates.mpr ⟨hour, hhour, minute, hminute, rfl⟩⟩

/-- The loops go through the minutes of a day in their order. -/
theorem CronSpec.Parsed.pairwise (hspec : spec.Parsed) (day : ℕ) :
    (spec.candidates day).Pairwise (· < ·) := by
  unfold CronSpec.candidates
  rw [List.pairwise_flatMap]
  constructor
  · intro hour _
    rw [List.pairwise_map]
    exact (Finset.sortedLT_sort _).pairwise.imp fun h => by omega
  · refine (Finset.sortedLT_sort _).pairwise.imp fun {a b} hab => ?_
    intro x hx y hy
    obtain ⟨m, hm, rfl⟩ := List.mem_map.mp hx
    obtain ⟨n, -, rfl⟩ := List.mem_map.mp hy
    have hlt := hspec.minutes m ((Finset.mem_sort _).mp hm)
    omega

/-! ### The search finds the first minute -/

theorem firstOn_eq_some (hspec : spec.Parsed) (h : spec.firstOn floor day = some w) :
    spec.matchesDate day = true ∧ w ∈ spec.candidates day ∧ floor ≤ w ∧
      ∀ w' ∈ spec.candidates day, floor ≤ w' → w ≤ w' := by
  unfold CronSpec.firstOn at h
  split_ifs at h with hmatch
  obtain ⟨hle, before, later, hlist, hbefore⟩ := List.find?_eq_some_iff_append.mp h
  have hsorted := hspec.pairwise day
  rw [hlist] at hsorted ⊢
  refine ⟨hmatch, List.mem_append_right _ List.mem_cons_self, of_decide_eq_true hle, ?_⟩
  intro w' hw' hfloor
  rcases List.mem_append.mp hw' with hw' | hw'
  · have hnot := hbefore w' hw'
    rw [decide_eq_true hfloor] at hnot
    cases hnot
  · rcases List.mem_cons.mp hw' with rfl | hw'
    · exact le_refl _
    · have hcons := (List.pairwise_append.mp hsorted).2.1
      exact le_of_lt ((List.pairwise_cons.mp hcons).1 w' hw')

theorem firstOn_eq_none (h : spec.firstOn floor day = none) (hmatch : spec.matchesDate day = true) :
    ∀ w ∈ spec.candidates day, w < floor := by
  unfold CronSpec.firstOn at h
  rw [if_pos hmatch] at h
  intro w hw
  have hnot := List.find?_eq_none.mp h w hw
  exact Nat.lt_of_not_le fun hle => hnot (decide_eq_true hle)

theorem search_eq_ok (h : search spec floor k day = .ok w) :
    ∃ d, day ≤ d ∧ d < day + k ∧ spec.firstOn floor d = some w ∧ (d = day ∨ d < IsoTime.maxDays) ∧
      ∀ d', day ≤ d' → d' < d → spec.firstOn floor d' = none := by
  induction k generalizing day with
  | zero => cases h
  | succ k ih =>
    unfold search at h
    cases hfirst : spec.firstOn floor day with
    | some v =>
      rw [hfirst] at h
      obtain rfl := Except.ok.inj h
      exact ⟨day, le_refl _, by omega, hfirst, .inl rfl, fun d' hle hlt => by omega⟩
    | none =>
      rw [hfirst] at h
      dsimp only at h
      split_ifs at h with hnext
      obtain ⟨d, hle, hlt, hd, hcal, hall⟩ := ih h
      refine ⟨d, by omega, by omega, hd, .inr ?_, ?_⟩
      · rcases hcal with rfl | hcal
        · exact hnext
        · exact hcal
      · intro d' hle' hlt'
        rcases Nat.eq_or_lt_of_le hle' with rfl | hgt
        · exact hfirst
        · exact hall d' hgt hlt'

/-- If it raises, no day up to the end of the window or of the calendar has a candidate. -/
theorem search_eq_error {e : FireError} (h : search spec floor k day = .error e) :
    (∀ d, day ≤ d → d < day + k → d = day ∨ d < IsoTime.maxDays → spec.firstOn floor d = none) ∧
      (e = .neverFires ∧ (k = 0 ∨ day + k < IsoTime.maxDays) ∨
        e = .overflow ∧ IsoTime.maxDays ≤ day + k) := by
  induction k generalizing day with
  | zero => exact ⟨fun d hle hlt _ => by omega, .inl ⟨(Except.error.inj h).symm, .inl rfl⟩⟩
  | succ k ih =>
    unfold search at h
    cases hfirst : spec.firstOn floor day with
    | some v =>
      rw [hfirst] at h
      cases h
    | none =>
      rw [hfirst] at h
      dsimp only at h
      split_ifs at h with hnext
      · obtain ⟨hall, hend⟩ := ih h
        constructor
        · intro d hle hlt hcal
          rcases Nat.eq_or_lt_of_le hle with rfl | hgt
          · exact hfirst
          · exact hall d hgt (by omega) (.inr (by omega))
        · rcases hend with ⟨he, hk⟩ | ⟨he, hk⟩
          · exact .inl ⟨he, .inr (by omega)⟩
          · exact .inr ⟨he, by omega⟩
      · refine ⟨fun d hle hlt hcal => ?_, .inr ⟨(Except.error.inj h).symm, by omega⟩⟩
        obtain rfl : d = day := by omega
        exact hfirst

theorem CronSpec.Parsed.matchesDate_div (hspec : spec.Parsed) (h : spec.MatchesMinute w) :
    spec.matchesDate (w / dayMinutes) = true ∧ w ∈ spec.candidates (w / dayMinutes) := by
  obtain ⟨day, hmatch, hw⟩ := h
  rw [hspec.div hw]
  exact ⟨hmatch, hw⟩

/-- **What the search returns is the first matching minute.** -/
theorem firstMinute_of_search (hspec : spec.Parsed) (hfloor : floor < IsoTime.maxDays * dayMinutes)
    (h : search spec floor maxSearchDays (floor / dayMinutes) = .ok w) :
    FirstMinute spec floor w := by
  obtain ⟨d, hle, hlt, hd, hcal, hall⟩ := search_eq_ok h
  obtain ⟨hmatch, hw, hge, hmin⟩ := firstOn_eq_some hspec hd
  have hdiv := hspec.div hw
  refine ⟨⟨d, hmatch, hw⟩, hge, ?_, hdiv.symm ▸ ⟨hle, hlt⟩, ?_⟩
  · intro w' hw' hge'
    obtain ⟨hmatch', hmem'⟩ := hspec.matchesDate_div hw'
    rcases lt_trichotomy (w' / dayMinutes) d with hbefore | heq | hafter
    · -- an earlier day of the window had no candidate
      have hnone := hall _ (Nat.div_le_div_right hge') hbefore
      exact absurd hge' (Nat.not_le.mpr (firstOn_eq_none hnone hmatch' _ hmem'))
    · exact hmin w' (heq ▸ hmem') hge'
    · by_contra hnot
      have hdays := Nat.div_le_div_right (c := dayMinutes) (Nat.le_of_not_le hnot)
      omega
  · rw [hdiv]
    rcases hcal with rfl | hcal
    · exact (Nat.div_lt_iff_lt_mul (by decide)).mpr hfloor
    · exact hcal

/-- **If the search raises, there is no first matching minute.** -/
theorem not_firstMinute_of_search (hspec : spec.Parsed) {e : FireError}
    (h : search spec floor maxSearchDays (floor / dayMinutes) = .error e) :
    ¬ FirstMinute spec floor w := by
  intro hw
  obtain ⟨hmatch, hmem⟩ := hspec.matchesDate_div hw.mem
  have hnone := (search_eq_error h).1 _ hw.window.1 hw.window.2 (.inr hw.calendar)
  exact absurd hw.le (Nat.not_le.mpr (firstOn_eq_none hnone hmatch _ hmem))

/-! ### The next instant -/

/-- The clock shows no wall time before the instant that stands for it. -/
theorem Zone.instant_le {u : ℤ} (h : Z.wall u = (w * minuteMicros : ℕ)) :
    Z.instant (aware w) ≤ u := by
  have hle := Z.earliest u
  dsimp only at hle
  rw [show u + Z.offset u = (w * minuteMicros : ℕ) from h] at hle
  exact hle

theorem next_iff {a : ℤ} (hw : FirstMinute spec floor w) :
    (a < Z.instant (aware w) ∧ ∀ u m, spec.MatchesMinute m → Z.wall u = (m * minuteMicros : ℕ) →
      ¬ (a < u ∧ u < Z.instant (aware w))) ↔
    a < Z.instant (aware w) ∧ ∀ m u, spec.MatchesMinute m → Z.wall u = (m * minuteMicros : ℕ) →
      a < u → m < floor ∨ w < m → Z.instant (aware w) ≤ u := by
  refine and_congr_right fun _ => ⟨fun h m u hm hu hau _ => ?_, fun h u m hm hu ⟨hau, huz⟩ => ?_⟩
  · exact Int.not_lt.mp fun huz => h u m hm hu ⟨hau, huz⟩
  · refine absurd huz (Int.not_lt.mpr ?_)
    rcases lt_or_ge m floor with hlt | hge
    · exact h m u hm hu hau (.inl hlt)
    · rcases Nat.eq_or_lt_of_le (hw.first m hm hge) with rfl | hgt
      · exact Zone.instant_le hu
      · exact h m u hm hu hau (.inr hgt)

theorem FirstMinute.unique (h : FirstMinute spec floor w) (h' : FirstMinute spec floor w') :
    w = w' :=
  Nat.le_antisymm (h.first w' h'.mem h'.le) (h'.first w h.mem h.le)

theorem clockAgrees_iff {a : ℤ} (hw : FirstMinute spec floor w) : ClockAgrees Z spec a floor ↔
    a < Z.instant (aware w) ∧ ∀ m u, spec.MatchesMinute m → Z.wall u = (m * minuteMicros : ℕ) →
      a < u → m < floor ∨ w < m → Z.instant (aware w) ≤ u := by
  constructor
  · intro h
    refine ⟨h.ahead w hw, fun m u hm hu hau hor => ?_⟩
    rcases hor with hlt | hgt
    · exact h.repeated w hw m u hm hlt hu hau
    · exact h.skipped w hw m u hm hgt hu hau
  · rintro ⟨hahead, hall⟩
    refine ⟨?_, ?_, ?_, fun _ _ => ⟨w, hw⟩⟩
    · intro v hv
      exact hv.unique hw ▸ hahead
    · intro v hv m u hm hlt hu hau
      exact hv.unique hw ▸ hall m u hm hu hau (.inl hlt)
    · intro v hv m u hm hgt hu hau
      obtain rfl := hv.unique hw
      exact hall m u hm hu hau (.inr hgt)

theorem clockAgrees_of_not_firstMinute {a : ℤ} (h : ∀ w, ¬ FirstMinute spec floor w) :
    ClockAgrees Z spec a floor ↔ (floor / dayMinutes + maxSearchDays < IsoTime.maxDays →
      spec.matchesDate (floor / dayMinutes) = false) := by
  constructor
  · intro hagrees hcal
    by_contra hmatch
    obtain ⟨w, hw⟩ := hagrees.spent hcal (Bool.not_eq_false _ ▸ hmatch)
    exact h w hw
  · intro hdate
    refine ⟨fun w hw => absurd hw (h w), fun w hw => absurd hw (h w), fun w hw => absurd hw (h w),
      fun hcal hmatch => ?_⟩
    rw [hdate hcal] at hmatch
    cases hmatch

theorem nextFire_of_search {after : After} {start : Aware} (hstart : Z.localize after = some start)
    (hfloor : start.floor = floor) (hcal : floor < IsoTime.maxDays * dayMinutes) {e : FireError} :
    (search spec floor maxSearchDays (floor / dayMinutes) = .ok w →
      nextFire Z spec after = .ok (aware w)) ∧
    (search spec floor maxSearchDays (floor / dayMinutes) = .error e →
      nextFire Z spec after = .error e) := by
  subst hfloor
  unfold nextFire
  rw [hstart]
  dsimp only
  rw [if_pos hcal]
  constructor
  · intro h
    rw [h]
  · intro h
    rw [h]

theorem firesNext_ok {after : After} (hres : nextFire Z spec after = .ok (aware w))
    (hw : FirstMinute spec floor w) :
    FiresNext Z spec after ↔ ClockAgrees Z spec (after.instant Z) floor := by
  rw [clockAgrees_iff hw, ← next_iff hw]
  constructor
  · intro h
    exact ⟨h.later _ hres, h.next _ hres⟩
  · rintro ⟨hlater, hnext⟩
    refine ⟨?_, ?_, ?_, fun herr => absurd (hres.symm.trans herr) nofun⟩
    · intro r hr
      obtain rfl := Except.ok.inj (hres.symm.trans hr)
      exact hlater
    · intro r hr
      obtain rfl := Except.ok.inj (hres.symm.trans hr)
      exact ⟨w, hw.mem, rfl⟩
    · intro r hr
      obtain rfl := Except.ok.inj (hres.symm.trans hr)
      exact hnext

theorem firesNext_overflow {after : After} (hres : nextFire Z spec after = .error .overflow) :
    FiresNext Z spec after := by
  have hok : ∀ r, nextFire Z spec after ≠ .ok r := fun r hr => absurd (hres.symm.trans hr) nofun
  exact ⟨fun r hr => absurd hr (hok r), fun r hr => absurd hr (hok r),
    fun r hr => absurd hr (hok r), fun herr => absurd (hres.symm.trans herr) nofun⟩

/-- A search in vain is right exactly if the date of the floor does not match. -/
theorem firesNext_neverFires (hspec : spec.Parsed) {after : After} {start : Aware}
    (hres : nextFire Z spec after = .error .neverFires) (hstart : Z.localize after = some start)
    (hnone : ∀ d, start.floor / dayMinutes ≤ d → d < start.floor / dayMinutes + maxSearchDays →
      spec.firstOn start.floor d = none) :
    FiresNext Z spec after ↔ spec.matchesDate (start.floor / dayMinutes) = false := by
  have hok : ∀ r, nextFire Z spec after ≠ .ok r := fun r hr => absurd (hres.symm.trans hr) nofun
  constructor
  · intro h
    exact h.never hres start hstart _ ⟨le_refl _, Nat.lt_add_of_pos_right (by decide)⟩
  · intro hdate
    refine ⟨fun r hr => absurd hr (hok r), fun r hr => absurd hr (hok r),
      fun r hr => absurd hr (hok r), ?_⟩
    rintro - start' hstart' day ⟨hle, hlt⟩
    obtain rfl := Option.some.inj (hstart.symm.trans hstart')
    rcases Nat.eq_or_lt_of_le hle with rfl | hgt
    · exact hdate
    · -- on a later day every candidate is after the floor
      by_contra hmatch
      obtain ⟨w, hw⟩ := hspec.exists_candidate day
      have hday := firstOn_eq_none (hnone day hle hlt) (Bool.not_eq_false _ ▸ hmatch) w hw
      have hdiv := hspec.div hw
      have hdays := Nat.div_le_div_right (c := dayMinutes) (le_of_lt hday)
      omega

/-- **The search returns the next instant exactly if the wall clock agrees with the instants around
the first matching minute.** -/
theorem nextFire_iff (hparse : parseCron D expr = .ok spec) (after : After) :
    FiresNext Z spec after ↔ ∀ start, Z.localize after = some start →
      ClockAgrees Z spec (after.instant Z) start.floor := by
  have hspec := parsed_of_parseCron hparse
  cases hstart : Z.localize after with
  | none =>
    have hres : nextFire Z spec after = .error .overflow := by
      unfold nextFire
      rw [hstart]
    exact iff_of_true (firesNext_overflow hres) nofun
  | some start =>
    have hone : (∀ s, some start = some s → ClockAgrees Z spec (after.instant Z) s.floor) ↔
        ClockAgrees Z spec (after.instant Z) start.floor :=
      ⟨fun h => h start rfl, fun h s hs => Option.some.inj hs ▸ h⟩
    rw [hone]
    by_cases hfloor : start.floor < IsoTime.maxDays * dayMinutes
    · cases hsearch : search spec start.floor maxSearchDays (start.floor / dayMinutes) with
      | ok w =>
        have hres := (nextFire_of_search (e := .overflow) hstart rfl hfloor).1 hsearch
        exact firesNext_ok hres (firstMinute_of_search hspec hfloor hsearch)
      | error e =>
        have hres := (nextFire_of_search (w := 0) hstart rfl hfloor).2 hsearch
        obtain ⟨hall, hend⟩ := search_eq_error hsearch
        rw [clockAgrees_of_not_firstMinute fun w => not_firstMinute_of_search hspec hsearch]
        rcases hend with ⟨rfl, hcal⟩ | ⟨rfl, hcal⟩
        · have hcal : start.floor / dayMinutes + maxSearchDays < IsoTime.maxDays :=
            hcal.resolve_left (by decide)
          rw [firesNext_neverFires hspec hres hstart fun d hle hlt =>
            hall d hle hlt (.inr (by omega))]
          exact ⟨fun h _ => h, fun h => h hcal⟩
        · exact iff_of_true (firesNext_overflow hres) fun hlt => absurd hlt (Nat.not_lt.mpr hcal)
    · have hres : nextFire Z spec after = .error .overflow := by
        unfold nextFire
        rw [hstart]
        dsimp only
        rw [if_neg hfloor]
      have hcal : ¬ start.floor / dayMinutes < IsoTime.maxDays := fun hlt =>
        hfloor ((Nat.div_lt_iff_lt_mul (by decide)).mp hlt)
      refine iff_of_true (firesNext_overflow hres) ?_
      rw [clockAgrees_of_not_firstMinute fun w hw => hcal ?_]
      · exact fun hlt => absurd (Nat.lt_of_le_of_lt (Nat.le_add_right _ _) hlt) hcal
      · exact Nat.lt_of_le_of_lt (Nat.div_le_div_right hw.le) hw.calendar

/-! ### Two zones -/

/-- A zone whose clock always shows the instant. -/
def utc : Zone where
  offset _ := 0
  utcoffset _ _ := 0
  foldAt _ := false
  shows u := by omega
  earliest u := by omega
  roundTrip u := by omega

def hourMicros : ℤ := 3600000000

/-- When the clock of Los Angeles goes back in 2026. -/
def fallBack : ℤ := 63929120400000000

def losAngeles : Zone where
  offset u := if u < fallBack then -7 * hourMicros else -8 * hourMicros
  utcoffset fold w :=
    if w < fallBack - (if fold then 8 else 7) * hourMicros then -7 * hourMicros else -8 * hourMicros
  foldAt u := fallBack ≤ u ∧ u < fallBack + hourMicros
  shows u := by
    unfold fallBack hourMicros
    simp only [Bool.false_eq_true, if_false]
    split_ifs <;> omega
  earliest u := by
    unfold fallBack hourMicros
    simp only [Bool.false_eq_true, if_false]
    split_ifs <;> omega
  roundTrip u := by
    unfold fallBack hourMicros
    dsimp only
    simp only [decide_eq_true_eq]
    split_ifs <;> omega

/-- `45 1 * * *`. -/
def quarterToTwo : CronSpec where
  expr := "45 1 * * *".toList
  minutes := {45}
  hours := {1}
  days := (range 1 32 1).toFinset
  months := (range 1 13 1).toFinset
  weekdays := ((range 0 8 1).toFinset).image fold
  daysRestricted := false
  weekdaysRestricted := false

theorem parse_quarterToTwo : parseCron .ofAscii "45 1 * * *".toList = .ok quarterToTwo := by
  decide +kernel

theorem candidates_quarterToTwo (day : ℕ) :
    quarterToTwo.candidates day = [day * dayMinutes + 1 * 60 + 45] := by
  unfold CronSpec.candidates quarterToTwo
  rw [Finset.sort_singleton, Finset.sort_singleton]
  rfl

def halfPastOne : After := .elsewhere (fallBack + hourMicros / 2)

/-- At half past one for the second time, the result is a quarter to two for the first time. -/
theorem not_firesNext : ¬ ∀ (Z : Zone) (expr : List Char) (spec : CronSpec) (after : After),
    parseCron .ofAscii expr = .ok spec → FiresNext Z spec after := by
  intro h
  have hfires : FiresNext losAngeles quarterToTwo halfPastOne := h _ _ _ _ parse_quarterToTwo
  have hstart : losAngeles.localize halfPastOne = some ⟨63929093400000000, true⟩ := by
    decide +kernel
  have hcandidate : quarterToTwo.firstOn 1065484891 739920 = some 1065484905 := by
    unfold CronSpec.firstOn
    rw [if_pos (by decide +kernel), candidates_quarterToTwo]
    rfl
  have hsearch : search quarterToTwo 1065484891 maxSearchDays 739920 = .ok 1065484905 := by
    unfold maxSearchDays search
    rw [hcandidate]
  have hres : nextFire losAngeles quarterToTwo halfPastOne = .ok (aware 1065484905) :=
    (nextFire_of_search (e := .overflow) hstart (by decide) (by decide)).1 hsearch
  exact absurd (hfires.later _ hres) (by decide)

theorem firstMinute_quarterToTwo : FirstMinute quarterToTwo 1065485371 1065486345 := by
  have hmatch : quarterToTwo.matchesDate 739921 = true := by decide +kernel
  refine ⟨⟨739921, hmatch, ?_⟩, by decide, ?_, ⟨by decide, by decide⟩, by decide⟩
  · rw [candidates_quarterToTwo]
    exact List.mem_cons_self
  · rintro w ⟨day, -, hw⟩ hle
    rw [candidates_quarterToTwo] at hw
    obtain rfl := List.mem_singleton.mp hw
    unfold dayMinutes at *
    omega

/-- Where the clock does not change, the result is the next instant. -/
theorem firesNext_utc : FiresNext utc quarterToTwo halfPastOne := by
  refine (nextFire_iff parse_quarterToTwo halfPastOne).mpr fun start hstart => ?_
  have hlocal : utc.localize halfPastOne = some ⟨63929122200000000, false⟩ := by decide +kernel
  obtain rfl := Option.some.inj (hlocal.symm.trans hstart)
  have hinstant : ∀ w, utc.instant (aware w) = (w * minuteMicros : ℕ) := fun w =>
    Int.sub_zero _
  have hwall : ∀ u, utc.wall u = u := Int.add_zero
  have hnow : halfPastOne.instant utc = 63929122200000000 := by decide
  have hfloor : (⟨63929122200000000, false⟩ : Aware).floor = 1065485371 := by decide
  rw [hnow, hfloor]
  unfold minuteMicros at hinstant
  refine ⟨?_, ?_, ?_, fun _ _ => ⟨_, firstMinute_quarterToTwo⟩⟩
  · intro w hw
    have hle := hw.le
    rw [hinstant]
    omega
  · intro w hw m u _ hlt hu hau
    rw [hwall] at hu
    unfold minuteMicros at hu
    omega
  · intro w hw m u _ hlt hu hau
    rw [hwall] at hu
    unfold minuteMicros at hu
    rw [hinstant]
    omega

end Schedule
