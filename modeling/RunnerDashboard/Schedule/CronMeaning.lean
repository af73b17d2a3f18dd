import RunnerDashboard.Schedule.Cron

/-!
# What cron expressions mean

An expression of five fields against its parse.  The parser takes the step 1 for no step at all,
so it reads `a/1` as `a` alone.

## Main results

* `cronMeans_iff` — **the parser is right about the expressions without long numbers in which the
  other items make up for every `a/1`**.
-/

namespace Schedule

/-- The items of the five fields. -/
structure Cron where
  minutes : List Item
  hours : List Item
  days : List Item
  months : List Item
  weekdays : List Item

/-- The text is five fields of the grammar, with white space between them. -/
inductive ReadsCron (D : Digits) (expr : List Char) (f : Cron) : Prop
  | intro {f₀ f₁ f₂ f₃ f₄ : List Char} (hsplit : Py.splitSpaces expr = [f₀, f₁, f₂, f₃, f₄])
      (minutes : ReadsField D minuteField f₀ f.minutes) (hours : ReadsField D hourField f₁ f.hours)
      (days : ReadsField D dayField f₂ f.days) (months : ReadsField D monthField f₃ f.months)
      (weekdays : ReadsField D weekdayField f₄ f.weekdays)

/-- The value is one that the field stands for. -/
def MeansField (F : Field) (items : List Item) (x : ℕ) : Prop := ∃ it ∈ items, it.Means F x

/-- The sets of the parse are the values of the fields. -/
structure SpecMeans (f : Cron) (spec : CronSpec) : Prop where
  minutes : ∀ x, x ∈ spec.minutes ↔ MeansField minuteField f.minutes x
  hours : ∀ x, x ∈ spec.hours ↔ MeansField hourField f.hours x
  days : ∀ x, x ∈ spec.days ↔ MeansField dayField f.days x
  months : ∀ x, x ∈ spec.months ↔ MeansField monthField f.months x
  weekdays : ∀ x, x ∈ spec.weekdays ↔ ∃ y, MeansField weekdayField f.weekdays y ∧ fold y = x

/-- The parser accepts exactly the grammar, and the parse has the values of the fields. -/
def CronMeans (D : Digits) (expr : List Char) : Prop :=
  ((∃ spec, parseCron D expr = .ok spec) ↔ ∃ f, ReadsCron D expr f) ∧
    ∀ spec f, parseCron D expr = .ok spec → ReadsCron D expr f → SpecMeans f spec

/-- No number of a field is longer than the interpreter reads. -/
def ShortField (items : List Item) : Prop := ∀ it ∈ items, it.Short

structure Cron.Short (f : Cron) : Prop where
  minutes : ShortField f.minutes
  hours : ShortField f.hours
  days : ShortField f.days
  months : ShortField f.months
  weekdays : ShortField f.weekdays

/-- The item is `a/1`. -/
def Item.One (it : Item) (a : ℕ) : Prop :=
  ∃ v w, it = ⟨.value v, some w⟩ ∧ v.value = a ∧ w.value = 1

/-- Every value from `a` on, for an item `a/1`, is listed, perhaps under its other number. -/
def Covered (F : Field) (key : ℕ → ℕ) (items : List Item) : Prop :=
  ∀ it ∈ items, ∀ a, it.One a → ∀ x, a ≤ x → x ≤ F.hi →
    ∃ it' ∈ items, ∃ y ∈ it'.listed F, key y = key x

structure Cron.Covered (f : Cron) : Prop where
  minutes : Schedule.Covered minuteField id f.minutes
  hours : Schedule.Covered hourField id f.hours
  days : Schedule.Covered dayField id f.days
  months : Schedule.Covered monthField id f.months
  weekdays : Schedule.Covered weekdayField fold f.weekdays

variable {D : Digits} {F : Field} {s expr : List Char} {it : Item} {items items' : List Item}
  {f f' : Cron} {spec : CronSpec} {x : ℕ}

/-! ### Items of a text -/

def Field.Fits (F : Field) : Prop :=
  ∀ names ∈ F.names, names.words.length + names.offset ≤ F.hi + 1

theorem ReadsValue.le {v : Value} (hF : F.Fits) (h : ReadsValue D F s v) : v.value ≤ F.hi := by
  cases h with
  | number _ _ hhi => exact hhi
  | name h =>
    unfold Field.index? at h
    cases hnames : F.names with
    | none =>
      rw [hnames] at h
      cases h
    | some names =>
      rw [hnames] at h
      dsimp only at h
      split_ifs at h with hmem
      have hlt := List.idxOf_lt_length_of_mem hmem
      have hfits := hF names hnames
      obtain rfl := Option.some.inj h
      dsimp only
      omega

/-- The step is positive, and a single value is in the field. -/
def Item.Valid (F : Field) (it : Item) : Prop :=
  0 < it.by ∧ ∀ v, it.base = .value v → v.value ≤ F.hi

theorem ReadsItem.valid (hF : F.Fits) (h : ReadsItem D F s it) : it.Valid F := by
  have hbase : ∀ {s b}, ReadsBase D F s b → ∀ v, b = .value v → v.value ≤ F.hi := by
    rintro s b hb v rfl
    cases hb with
    | value hv => exact hv.le hF
  cases h with
  | plain hb => exact ⟨Nat.one_pos, hbase hb⟩
  | step hb hv hpos => exact ⟨hpos, hbase hb⟩

theorem valid_of_readsField (hF : F.Fits) (h : ReadsField D F s items) :
    ∀ it ∈ items, it.Valid F := by
  unfold ReadsField at h
  generalize s.splitOn ',' = parts at h
  induction h with
  | nil => exact nofun
  | cons hit _ ih => exact List.forall_mem_cons.mpr ⟨hit.valid hF, ih⟩

theorem readsField_unique (h : ReadsField D F s items) (h' : ReadsField D F s items') :
    items = items' := by
  unfold ReadsField at h h'
  generalize s.splitOn ',' = parts at h h'
  induction h generalizing items' with
  | nil =>
    cases h'
    rfl
  | cons hit _ ih =>
    cases h' with
    | cons hit' h' => rw [readsItem_unique hit hit', ih h']

/-- **An expression is that of one list of items for each field.** -/
theorem readsCron_unique (h : ReadsCron D expr f) (h' : ReadsCron D expr f') : f = f' := by
  obtain ⟨hsplit, h₀, h₁, h₂, h₃, h₄⟩ := h
  obtain ⟨hsplit', h₀', h₁', h₂', h₃', h₄'⟩ := h'
  rw [hsplit] at hsplit'
  cases hsplit'
  cases f
  cases f'
  rw [Cron.mk.injEq]
  exact ⟨readsField_unique h₀ h₀', readsField_unique h₁ h₁', readsField_unique h₂ h₂',
    readsField_unique h₃ h₃', readsField_unique h₄ h₄'⟩

/-! ### The values of a field -/

theorem mem_listed (hpos : 0 < it.by) : x ∈ it.listed F ↔
    it.base.start F ≤ x ∧ x ≤ it.base.stop F (it.by > 1) ∧ it.by ∣ x - it.base.start F := by
  rw [Item.listed, List.mem_toFinset, mem_range hpos, Nat.lt_succ_iff]

/-- Unless an item is `a/1`, it ends where the parser ends it. -/
theorem stop_eq_or (hit : it.Valid F) : (∃ a, it.One a) ∨
    it.base.stop F (it.by > 1) = it.base.stop F (it.step.isSome = true) := by
  obtain ⟨base, step⟩ := it
  cases base with
  | star => exact .inr rfl
  | range a b => exact .inr rfl
  | value v =>
    cases step with
    | none => exact .inr rfl
    | some w =>
      by_cases hw : w.value = 1
      · exact .inl ⟨v.value, v, w, rfl, rfl, hw⟩
      · have hpos : 0 < w.value := hit.1
        have hgt : w.value > 1 := by omega
        right
        show (if w.value > 1 then F.hi else v.value) = if (some w).isSome =
          true then F.hi else v.value
        rw [if_pos hgt, if_pos Option.isSome_some]

/-- The parser lists no value that the item does not stand for. -/
theorem means_of_mem_listed (hit : it.Valid F) (h : x ∈ it.listed F) : it.Means F x := by
  obtain ⟨hstart, hstop, hdvd⟩ := (mem_listed hit.1).mp h
  refine ⟨hstart, ?_, hdvd⟩
  rcases stop_eq_or hit with ⟨a, v, w, rfl, rfl, hw⟩ | heq
  · have hone : ¬ (Item.mk (.value v) (some w)).by > 1 := by
      show ¬ w.value > 1
      omega
    have hv : x ≤ v.value := (if_neg hone : Base.stop F _ (.value v) = v.value) ▸ hstop
    exact hv.trans (hit.2 v rfl)
  · exact heq ▸ hstop

theorem means_one {a : ℕ} (h : it.One a) : it.Means F x ↔ a ≤ x ∧ x ≤ F.hi := by
  obtain ⟨v, w, rfl, rfl, hw⟩ := h
  have hby : (Item.mk (.value v) (some w)).by = 1 := hw
  unfold Item.Means
  rw [hby]
  exact ⟨fun h => ⟨h.1, h.2.1⟩, fun h => ⟨h.1, h.2, one_dvd _⟩⟩

/-- **The parser lists the values of a field exactly if the other items make up for every
`a/1`.** -/
theorem listedAll_iff (hitems : ∀ it ∈ items, it.Valid F) (key : ℕ → ℕ) :
    (∀ x, (∃ y ∈ listedAll F items, key y = x) ↔ ∃ y, MeansField F items y ∧ key y = x) ↔
      Covered F key items := by
  constructor
  · intro h it hit a hone x hax hx
    have hmeans : it.Means F x := (means_one hone).mpr ⟨hax, hx⟩
    obtain ⟨y, hy, hkey⟩ := (h (key x)).mpr ⟨x, ⟨it, hit, hmeans⟩, rfl⟩
    obtain ⟨it', hit', hy⟩ := mem_listedAll.mp hy
    exact ⟨it', hit', y, hy, hkey⟩
  · intro h x
    constructor
    · rintro ⟨y, hy, hkey⟩
      obtain ⟨it, hit, hy⟩ := mem_listedAll.mp hy
      exact ⟨y, ⟨it, hit, means_of_mem_listed (hitems it hit) hy⟩, hkey⟩
    · rintro ⟨y, ⟨it, hit, hmeans⟩, rfl⟩
      rcases stop_eq_or (hitems it hit) with ⟨a, hone⟩ | heq
      · obtain ⟨hay, hy⟩ := (means_one hone).mp hmeans
        obtain ⟨it', hit', z, hz, hkey⟩ := h it hit a hone y hay hy
        exact ⟨z, mem_listedAll.mpr ⟨it', hit', hz⟩, hkey⟩
      · have hy : y ∈ it.listed F :=
          (mem_listed (hitems it hit).1).mpr ⟨hmeans.1, heq ▸ hmeans.2.1, hmeans.2.2⟩
        exact ⟨y, mem_listedAll.mpr ⟨it, hit, hy⟩, rfl⟩

theorem listedAll_id_iff (hitems : ∀ it ∈ items, it.Valid F) :
    (∀ x, x ∈ listedAll F items ↔ MeansField F items x) ↔ Covered F id items := by
  rw [← listedAll_iff hitems id]
  simp only [id, exists_eq_right]

/-! ### The expression -/

/-- The sets of the parse are what the parser lists for the fields. -/
structure Lists (f : Cron) (spec : CronSpec) : Prop where
  minutes : spec.minutes = listedAll minuteField f.minutes
  hours : spec.hours = listedAll hourField f.hours
  days : spec.days = listedAll dayField f.days
  months : spec.months = listedAll monthField f.months
  weekdays : spec.weekdays = (listedAll weekdayField f.weekdays).image fold

theorem parseCron_eq_ok (h : parseCron D expr = .ok spec) :
    ∃ f, ReadsCron D expr f ∧ f.Short ∧ Lists f spec := by
  unfold parseCron at h
  split at h
  next f₀ f₁ f₂ f₃ f₄ hsplit =>
    have hspace : ∀ s ∈ [f₀, f₁, f₂, f₃, f₄], NoSpace s := fun s hs c hc =>
      Py.isSpace_of_mem_splitSpaces (hsplit ▸ hs) hc
    simp only [List.forall_mem_cons] at hspace
    obtain ⟨hs₀, hs₁, hs₂, hs₃, hs₄, -⟩ := hspace
    obtain ⟨r₀, hr₀, h⟩ := Sql.bind_eq_ok_iff.mp h
    obtain ⟨r₁, hr₁, h⟩ := Sql.bind_eq_ok_iff.mp h
    obtain ⟨r₂, hr₂, h⟩ := Sql.bind_eq_ok_iff.mp h
    obtain ⟨r₃, hr₃, h⟩ := Sql.bind_eq_ok_iff.mp h
    obtain ⟨r₄, hr₄, h⟩ := Sql.bind_eq_ok_iff.mp h
    obtain ⟨i₀, hi₀, hshort₀, rfl⟩ := (parseField_eq_ok_iff hs₀).mp hr₀
    obtain ⟨i₁, hi₁, hshort₁, rfl⟩ := (parseField_eq_ok_iff hs₁).mp hr₁
    obtain ⟨i₂, hi₂, hshort₂, rfl⟩ := (parseField_eq_ok_iff hs₂).mp hr₂
    obtain ⟨i₃, hi₃, hshort₃, rfl⟩ := (parseField_eq_ok_iff hs₃).mp hr₃
    obtain ⟨i₄, hi₄, hshort₄, rfl⟩ := (parseField_eq_ok_iff hs₄).mp hr₄
    obtain rfl := Except.ok.inj h
    exact ⟨⟨i₀, i₁, i₂, i₃, i₄⟩, .intro hsplit hi₀ hi₁ hi₂ hi₃ hi₄,
      ⟨hshort₀, hshort₁, hshort₂, hshort₃, hshort₄⟩, rfl, rfl, rfl, rfl, rfl⟩
  next => cases h

theorem exists_parseCron (h : ReadsCron D expr f) (hshort : f.Short) :
    ∃ spec, parseCron D expr = .ok spec := by
  obtain ⟨hsplit, h₀, h₁, h₂, h₃, h₄⟩ := h
  rename_i f₀ f₁ f₂ f₃ f₄
  have hspace : ∀ s ∈ [f₀, f₁, f₂, f₃, f₄], NoSpace s := fun s hs c hc =>
    Py.isSpace_of_mem_splitSpaces (hsplit ▸ hs) hc
  simp only [List.forall_mem_cons] at hspace
  obtain ⟨hs₀, hs₁, hs₂, hs₃, hs₄, -⟩ := hspace
  unfold parseCron
  rw [hsplit]
  dsimp only
  rw [(parseField_eq_ok_iff hs₀).mpr ⟨_, h₀, hshort.minutes, rfl⟩,
    (parseField_eq_ok_iff hs₁).mpr ⟨_, h₁, hshort.hours, rfl⟩,
    (parseField_eq_ok_iff hs₂).mpr ⟨_, h₂, hshort.days, rfl⟩,
    (parseField_eq_ok_iff hs₃).mpr ⟨_, h₃, hshort.months, rfl⟩,
    (parseField_eq_ok_iff hs₄).mpr ⟨_, h₄, hshort.weekdays, rfl⟩]
  exact ⟨_, rfl⟩

theorem fits_weekdayField : weekdayField.Fits := by
  rintro names hnames
  obtain rfl := Option.some.inj hnames
  decide

theorem fits_monthField : monthField.Fits := by
  rintro names hnames
  obtain rfl := Option.some.inj hnames
  decide

/-- The sets that the parser lists are the values of the fields exactly if every `a/1` is made up
for. -/
theorem specMeans_iff (h : ReadsCron D expr f) (hlists : Lists f spec) :
    SpecMeans f spec ↔ f.Covered := by
  obtain ⟨-, h₀, h₁, h₂, h₃, h₄⟩ := h
  have hminutes := listedAll_id_iff (valid_of_readsField (F := minuteField) nofun h₀)
  have hhours := listedAll_id_iff (valid_of_readsField (F := hourField) nofun h₁)
  have hdays := listedAll_id_iff (valid_of_readsField (F := dayField) nofun h₂)
  have hmonths := listedAll_id_iff (valid_of_readsField fits_monthField h₃)
  have hweekdays := listedAll_iff (valid_of_readsField fits_weekdayField h₄) fold
  simp only [← Finset.mem_image] at hweekdays
  rw [← hlists.minutes] at hminutes
  rw [← hlists.hours] at hhours
  rw [← hlists.days] at hdays
  rw [← hlists.months] at hmonths
  rw [← hlists.weekdays] at hweekdays
  constructor
  · intro hm
    exact ⟨hminutes.mp hm.minutes, hhours.mp hm.hours, hdays.mp hm.days, hmonths.mp hm.months,
      hweekdays.mp hm.weekdays⟩
  · intro hc
    exact ⟨hminutes.mpr hc.minutes, hhours.mpr hc.hours, hdays.mpr hc.days, hmonths.mpr hc.months,
      hweekdays.mpr hc.weekdays⟩

/-- **The parser is right about an expression exactly if no number of it is too long for the
interpreter, and what each `a/1` leaves out is listed by other items.** -/
theorem cronMeans_iff : CronMeans D expr ↔ ∀ f, ReadsCron D expr f → f.Short ∧ f.Covered := by
  constructor
  · rintro ⟨haccepts, hmeans⟩ f hf
    obtain ⟨spec, hspec⟩ := haccepts.mpr ⟨f, hf⟩
    obtain ⟨f', hf', hshort, hlists⟩ := parseCron_eq_ok hspec
    obtain rfl := readsCron_unique hf hf'
    exact ⟨hshort, (specMeans_iff hf hlists).mp (hmeans spec f hspec hf)⟩
  · intro h
    refine ⟨⟨?_, ?_⟩, ?_⟩
    · rintro ⟨spec, hspec⟩
      obtain ⟨f, hf, -⟩ := parseCron_eq_ok hspec
      exact ⟨f, hf⟩
    · rintro ⟨f, hf⟩
      exact exists_parseCron hf (h f hf).1
    · intro spec f hspec hf
      obtain ⟨f', hf', -, hlists⟩ := parseCron_eq_ok hspec
      obtain rfl := readsCron_unique hf hf'
      exact (specMeans_iff hf hlists).mpr (h f hf).2

/-- The items of `0/1 * * * *`. -/
def everyMinute : Cron :=
  ⟨[⟨.value ⟨0, 1⟩, some ⟨1, 1⟩⟩], [⟨.star, none⟩], [⟨.star, none⟩], [⟨.star, none⟩],
    [⟨.star, none⟩]⟩

theorem reads_everyMinute : ReadsCron .ofAscii "0/1 * * * *".toList everyMinute := by
  have hstar : ∀ F, ReadsField .ofAscii F ['*'] [⟨.star, none⟩] := fun F =>
    .cons (.plain .star) .nil
  have hzero : ReadsNumber .ofAscii ['0'] ⟨0, 1⟩ :=
    ⟨by decide, List.forall_mem_singleton.mpr rfl, rfl⟩
  have hone : ReadsNumber .ofAscii ['1'] ⟨1, 1⟩ :=
    ⟨by decide, List.forall_mem_singleton.mpr rfl, rfl⟩
  have hminute : ReadsItem .ofAscii minuteField "0/1".toList ⟨.value ⟨0, 1⟩, some ⟨1, 1⟩⟩ :=
    .step (s := ['0']) (.value (.number hzero (by decide) (by decide))) hone (by decide)
  have hsplit : Py.splitSpaces "0/1 * * * *".toList =
      ["0/1".toList, ['*'], ['*'], ['*'], ['*']] := by decide
  exact .intro hsplit (.cons hminute .nil) (hstar _) (hstar _) (hstar _) (hstar _)

/-- `0/1 * * * *` fires at the first minute of an hour only. -/
theorem not_cronMeans_everyMinute : ¬ ∀ expr, CronMeans .ofAscii expr := by
  intro h
  obtain ⟨haccepts, hmeans⟩ := h "0/1 * * * *".toList
  obtain ⟨spec, hspec⟩ := haccepts.mpr ⟨everyMinute, reads_everyMinute⟩
  obtain ⟨f, hf, -, hlists⟩ := parseCron_eq_ok hspec
  obtain rfl := readsCron_unique reads_everyMinute hf
  have hmem : 1 ∈ spec.minutes := by
    rw [(hmeans spec everyMinute hspec hf).minutes]
    exact ⟨_, List.mem_cons_self, by decide, by decide, one_dvd _⟩
  rw [hlists.minutes] at hmem
  exact absurd hmem (by decide)

end Schedule
