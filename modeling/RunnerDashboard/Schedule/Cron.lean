import Mathlib.Data.Finset.Image
import RunnerDashboard.Lib.PyStr
import RunnerDashboard.Lib.Table

/-!
# Cron expressions

Five-field cron (``minute hour day-of-month month day-of-week``) with `*`, lists, ranges and steps;
the names of months and weekdays are accepted in either case.

## Main results

* `parseField_eq_ok_iff` — **the parser accepts the lists of items with short numbers, and lists
  `Item.listed` of each**.
-/

namespace Schedule

scoped instance lawfulBEq_chars : LawfulBEq (List Char) := inferInstance

/-! ### The parser -/

structure Digits where
  /-- The decimal digits, which `int()` reads. -/
  decimal : Char → Option ℕ
  /-- The other characters that `str.isdigit()` accepts, such as superscripts. -/
  other : Char → Bool
  ascii : ∀ c, c.toNat < 128 → decimal c = if c.isDigit then some (c.toNat - 48) else none
  lower : ∀ c, (decimal c).isSome → Py.lowerChar c = c

def Digits.ofAscii : Digits where
  decimal c := if c.isDigit then some (c.toNat - 48) else none
  other _ := false
  ascii _ _ := rfl
  lower c h := by
    have hdigit : c.isDigit = true := by
      by_contra hc
      rw [if_neg hc] at h
      cases h
    obtain ⟨hlo, hhi⟩ := Char.isDigit_iff_toNat.mp hdigit
    have hall : ∀ n, 48 ≤ n → n ≤ 57 → Py.lowerChar (Char.ofNat n) = Char.ofNat n := by
      intro n hlo hhi
      interval_cases n <;> rfl
    rw [← Char.ofNat_toNat c]
    exact hall c.toNat hlo hhi

variable (D : Digits)

/-- `s.isdigit()`. -/
def Digits.isdigit (s : List Char) : Bool :=
  s ≠ [] && s.all fun c => (D.decimal c).isSome || D.other c

def Digits.number (s : List Char) : ℕ := s.foldl (fun n c => 10 * n + (D.decimal c).getD 0) 0

def maxDigits : ℕ := 4300

/-- `int(s)` of a text that `isdigit()` accepts. -/
def Digits.int? (s : List Char) : Option ℕ :=
  if s.length ≤ maxDigits ∧ s.all (fun c => (D.decimal c).isSome) then some (D.number s) else none

/-- `_MONTHS` or `_WEEKDAYS`. -/
inductive Names
  | months
  | weekdays

def Names.words : Names → List (List Char)
  | months => ["jan".toList, "feb".toList, "mar".toList, "apr".toList, "may".toList, "jun".toList,
      "jul".toList, "aug".toList, "sep".toList, "oct".toList, "nov".toList, "dec".toList]
  | weekdays => ["sun".toList, "mon".toList, "tue".toList, "wed".toList, "thu".toList, "fri".toList,
      "sat".toList]

/-- `1 if names is _MONTHS else 0`. -/
def Names.offset : Names → ℕ
  | months => 1
  | weekdays => 0

structure Field where
  lo : ℕ
  hi : ℕ
  names : Option Names

inductive CronError
  | fieldCount (got : ℕ) (expr : List Char)
  | emptyField
  | badStep (s : List Char)
  | badValue (token : List Char)
  | outside (value lo hi : ℕ)
  | reversed (part : List Char)
  /-- `int()` refuses the text. -/
  | notInt (s : List Char)
  deriving DecidableEq

/-- The text of the `ValueError`. -/
def CronError.text (repr intError : List Char → String) : CronError → String
  | fieldCount got expr => s!"cron: expected 5 fields, got {got} in {repr expr}"
  | emptyField => "cron: empty field"
  | badStep s => s!"cron: bad step {repr s}"
  | badValue token => s!"cron: bad value {repr token}"
  | outside value lo hi => s!"cron: {value} outside {lo}-{hi}"
  | reversed part => s!"cron: range {repr part} is reversed"
  | notInt s => intError s

/-- `range(start, stop, step)`. -/
def range (start stop step : ℕ) : List ℕ :=
  List.range' start ((stop - start + step - 1) / step) step

def Field.index? (F : Field) (token : List Char) : Option ℕ :=
  match F.names with
  | none => none
  | some names =>
    if token ∈ names.words then some (names.words.idxOf token + names.offset) else none

def atom (F : Field) (token : List Char) : Except CronError ℕ :=
  let token := (Py.stripChars token).map Py.lowerChar
  match F.index? token with
  | some n => .ok n
  | none =>
    if D.isdigit token then
      match D.int? token with
      | none => .error (.notInt token)
      | some value =>
        if F.lo ≤ value ∧ value ≤ F.hi then .ok value else .error (.outside value F.lo F.hi)
    else .error (.badValue token)

def parseStep (s : List Char) : Except CronError ℕ :=
  if D.isdigit s then
    match D.int? s with
    | none => .error (.notInt s)
    | some n => if n < 1 then .error (.badStep s) else .ok n
  else .error (.badStep s)

/-- `start, end` of a part without its step. -/
def bounds (F : Field) (part : List Char) (step : ℕ) : Except CronError (ℕ × ℕ) :=
  if part = ['*'] then .ok (F.lo, F.hi)
  else
    match Py.splitOnce '-' part with
    | some (a, b) => do
      let start ← atom D F a
      let stop ← atom D F b
      if start > stop then .error (.reversed part) else .ok (start, stop)
    | none => do
      let start ← atom D F part
      .ok (start, if step > 1 then F.hi else start)

def parsePart (F : Field) (part : List Char) : Except CronError (Finset ℕ) :=
  let part := Py.stripChars part
  match Py.splitOnce '/' part with
  | some (part, s) => do
    let step ← parseStep D s
    let (start, stop) ← bounds D F part step
    .ok (range start (stop + 1) step).toFinset
  | none => do
    let (start, stop) ← bounds D F part 1
    .ok (range start (stop + 1) 1).toFinset

def parseParts (F : Field) : List (List Char) → Finset ℕ → Except CronError (Finset ℕ)
  | [], values => .ok values
  | part :: parts, values => do
    let listed ← parsePart D F part
    parseParts F parts (values ∪ listed)

/-- `_parse_field`: the values, and whether the field is anything but a bare `*`. -/
def parseField (F : Field) (field : List Char) : Except CronError (Finset ℕ × Bool) :=
  let field := Py.stripChars field
  if field = [] then .error .emptyField
  else do
    let values ← parseParts D F (field.splitOn ',') ∅
    .ok (values, field ≠ ['*'])

/-- `CronSpec`: weekday 0 is Sunday. -/
structure CronSpec where
  expr : List Char
  minutes : Finset ℕ
  hours : Finset ℕ
  days : Finset ℕ
  months : Finset ℕ
  weekdays : Finset ℕ
  daysRestricted : Bool
  weekdaysRestricted : Bool
  deriving DecidableEq

def minuteField : Field := ⟨0, 59, none⟩
def hourField : Field := ⟨0, 23, none⟩
def dayField : Field := ⟨1, 31, none⟩
def monthField : Field := ⟨1, 12, some .months⟩
def weekdayField : Field := ⟨0, 7, some .weekdays⟩

/-- 7 is Sunday too. -/
def fold (d : ℕ) : ℕ := if d = 7 then 0 else d

def parseCron (expr : List Char) : Except CronError CronSpec :=
  match Py.splitSpaces expr with
  | [f₀, f₁, f₂, f₃, f₄] => do
    let (minutes, _) ← parseField D minuteField f₀
    let (hours, _) ← parseField D hourField f₁
    let (days, daysRestricted) ← parseField D dayField f₂
    let (months, _) ← parseField D monthField f₃
    let (weekdays, weekdaysRestricted) ← parseField D weekdayField f₄
    .ok ⟨Py.stripChars expr, minutes, hours, days, months, weekdays.image fold, daysRestricted,
      weekdaysRestricted⟩
  | fields => .error (.fieldCount fields.length expr)

/-! ### The grammar -/

/-- A value, and with how many digits it is written. -/
structure Value where
  value : ℕ
  digits : ℕ

/-- What stands before the step. -/
inductive Base
  | star
  | value (v : Value)
  | range (a b : Value)

structure Item where
  base : Base
  step : Option Value

def ReadsNumber (s : List Char) (v : Value) : Prop :=
  s ≠ [] ∧ (∀ c ∈ s, (D.decimal c).isSome) ∧ v = ⟨D.number s, s.length⟩

/-- The text is a value of the field: a name, or a number between the bounds. -/
inductive ReadsValue (F : Field) (s : List Char) : Value → Prop
  | name {n : ℕ} (h : F.index? (s.map Py.lowerChar) = some n) : ReadsValue F s ⟨n, 0⟩
  | number {v : Value} (h : ReadsNumber D s v) (hlo : F.lo ≤ v.value) (hhi : v.value ≤ F.hi) :
      ReadsValue F s v

inductive ReadsBase (F : Field) : List Char → Base → Prop
  | star : ReadsBase F ['*'] .star
  | value {s : List Char} {v : Value} (h : ReadsValue D F s v) : ReadsBase F s (.value v)
  | range {s t : List Char} {a b : Value} (ha : ReadsValue D F s a) (hb : ReadsValue D F t b)
      (hle : a.value ≤ b.value) : ReadsBase F (s ++ '-' :: t) (.range a b)

inductive ReadsItem (F : Field) : List Char → Item → Prop
  | plain {s : List Char} {b : Base} (h : ReadsBase D F s b) : ReadsItem F s ⟨b, none⟩
  | step {s t : List Char} {b : Base} {v : Value} (h : ReadsBase D F s b) (hv : ReadsNumber D t v)
      (hpos : 1 ≤ v.value) : ReadsItem F (s ++ '/' :: t) ⟨b, some v⟩

def ReadsField (F : Field) (s : List Char) (items : List Item) : Prop :=
  List.Forall₂ (ReadsItem D F) (s.splitOn ',') items

def Item.by (it : Item) : ℕ := (it.step.map Value.value).getD 1

def Base.start (F : Field) : Base → ℕ
  | star => F.lo
  | value v => v.value
  | range a _ => a.value

/-- Where a base ends: with a step, a value goes on to the end of the field. -/
def Base.stop (F : Field) (stepped : Prop) [Decidable stepped] : Base → ℕ
  | star => F.hi
  | value v => if stepped then F.hi else v.value
  | range _ b => b.value

def Item.Means (F : Field) (it : Item) (x : ℕ) : Prop :=
  it.base.start F ≤ x ∧ x ≤ it.base.stop F (it.step.isSome = true) ∧ it.by ∣ x - it.base.start F

/-- The values the parser lists for an item: it takes the step 1 for none. -/
def Item.listed (F : Field) (it : Item) : Finset ℕ :=
  (range (it.base.start F) (it.base.stop F (it.by > 1) + 1) it.by).toFinset

def listedAll (F : Field) (items : List Item) : Finset ℕ :=
  items.foldr (fun it listed => it.listed F ∪ listed) ∅

/-- No number has more digits than the interpreter reads. -/
def Value.Short (v : Value) : Prop := v.digits ≤ maxDigits

def Base.Short : Base → Prop
  | .star => True
  | .value v => v.Short
  | .range a b => a.Short ∧ b.Short

def Item.Short (it : Item) : Prop := it.base.Short ∧ ∀ v ∈ it.step, v.Short

variable {D} {F : Field} {s t : List Char} {v w : Value} {n x : ℕ}

theorem mem_range {start stop step : ℕ} (hstep : 0 < step) :
    x ∈ range start stop step ↔ start ≤ x ∧ x < stop ∧ step ∣ x - start := by
  have hlt : ∀ i, i < (stop - start + step - 1) / step ↔ start + step * i < stop := by
    intro i
    rw [← Nat.succ_le_iff, Nat.le_div_iff_mul_le hstep, Nat.succ_mul, Nat.mul_comm i step]
    generalize step * i = m
    omega
  rw [range, List.mem_range']
  constructor
  · rintro ⟨i, hi, rfl⟩
    refine ⟨Nat.le_add_right _ _, (hlt i).mp hi, ?_⟩
    rw [Nat.add_sub_cancel_left]
    exact Dvd.intro i rfl
  · rintro ⟨hstart, hstop, i, hi⟩
    have hx : x = start + step * i := by omega
    exact ⟨i, (hlt i).mpr (hx ▸ hstop), hx⟩

theorem mem_listedAll {items : List Item} :
    x ∈ listedAll F items ↔ ∃ it ∈ items, x ∈ it.listed F := by
  induction items with
  | nil => exact iff_of_false (Finset.notMem_empty x) fun ⟨_, h, _⟩ => absurd h List.not_mem_nil
  | cons it items ih =>
    show x ∈ it.listed F ∪ listedAll F items ↔ _
    rw [Finset.mem_union, ih, List.exists_mem_cons_iff]

/-! ### The characters of values -/

theorem lower_of_mem_words {names : Names} (h : s ∈ names.words) :
    s ≠ [] ∧ ∀ c ∈ s, c.isLower = true := by
  have hall : names.words.all (fun w => w ≠ [] && w.all Char.isLower) = true := by
    cases names <;> decide
  have hs := List.all_eq_true.mp hall s h
  rw [Bool.and_eq_true, decide_eq_true_eq, List.all_eq_true] at hs
  exact hs

theorem words_of_index?_eq_some (h : F.index? s = some n) : ∃ names : Names, s ∈ names.words := by
  unfold Field.index? at h
  cases hnames : F.names with
  | none =>
    rw [hnames] at h
    cases h
  | some names =>
    rw [hnames] at h
    dsimp only at h
    split_ifs at h with hmem
    exact ⟨names, hmem⟩

theorem decimal_of_isLower {c : Char} (h : c.isLower = true) : D.decimal c = none := by
  have hrange : 97 ≤ c.toNat ∧ c.toNat ≤ 122 := by
    unfold Char.isLower at h
    rw [Bool.and_eq_true, decide_eq_true_eq, decide_eq_true_eq] at h
    exact ⟨UInt32.le_iff_toNat_le.mp h.1, UInt32.le_iff_toNat_le.mp h.2⟩
  rw [D.ascii c (by omega), if_neg]
  intro hdigit
  have hdigit := (Char.isDigit_iff_toNat.mp hdigit).2
  have hnine : '9'.toNat = 57 := rfl
  omega

/-- The lower case of a text is a number only if the text is. -/
theorem map_lowerChar_eq (h : ∀ c ∈ s.map Py.lowerChar, (D.decimal c).isSome) :
    s.map Py.lowerChar = s := by
  refine (List.map_congr_left fun c hc => ?_).trans (List.map_id s)
  rcases Py.lowerChar_eq_or c with heq | hlower
  · exact heq
  · have hsome := h _ (List.mem_map_of_mem hc)
    rw [decimal_of_isLower hlower] at hsome
    cases hsome

theorem ReadsNumber.map_lowerChar (h : ReadsNumber D s v) : s.map Py.lowerChar = s :=
  (List.map_congr_left fun c hc => D.lower c (h.2.1 c hc)).trans (List.map_id s)

theorem ReadsNumber.index? (h : ReadsNumber D s v) : F.index? (s.map Py.lowerChar) = none := by
  rw [h.map_lowerChar]
  cases hindex : F.index? s with
  | none => rfl
  | some n =>
    obtain ⟨names, hmem⟩ := words_of_index?_eq_some hindex
    obtain ⟨c, hc⟩ := List.exists_mem_of_ne_nil s h.1
    have hsome := h.2.1 c hc
    rw [decimal_of_isLower ((lower_of_mem_words hmem).2 c hc)] at hsome
    cases hsome

theorem ReadsValue.not_mem (h : ReadsValue D F s v) {c : Char} (hc : c ∈ ['*', '-', '/']) :
    c ∉ s := by
  have hplain : D.decimal c = none ∧ (Py.lowerChar c).isLower = false := by
    rw [List.mem_cons, List.mem_cons, List.mem_singleton] at hc
    rcases hc with rfl | rfl | rfl <;> exact ⟨D.ascii _ (by decide), rfl⟩
  intro hmem
  cases h with
  | name h =>
    obtain ⟨names, hwords⟩ := words_of_index?_eq_some h
    have hlower := (lower_of_mem_words hwords).2 _ (List.mem_map_of_mem hmem)
    rw [hplain.2] at hlower
    cases hlower
  | number h =>
    have hsome := h.2.1 c hmem
    rw [hplain.1] at hsome
    cases hsome

theorem ReadsValue.ne_nil (h : ReadsValue D F s v) : s ≠ [] := by
  rintro rfl
  cases h with
  | name h =>
    obtain ⟨names, hwords⟩ := words_of_index?_eq_some h
    exact (lower_of_mem_words hwords).1 rfl
  | number h => exact h.1 rfl

theorem ReadsBase.slash (h : ReadsBase D F s b) : '/' ∉ s := by
  cases h with
  | star => decide
  | value h => exact h.not_mem (by decide)
  | range ha hb =>
    rw [List.mem_append, List.mem_cons]
    rintro (h | h | h)
    · exact ha.not_mem (by decide) h
    · exact absurd h (by decide)
    · exact hb.not_mem (by decide) h

theorem ReadsItem.ne_nil {it : Item} (h : ReadsItem D F s it) : s ≠ [] := by
  have hmid : ∀ (u v : List Char) (c : Char), u ++ c :: v ≠ [] := fun u v c h =>
    List.cons_ne_nil c v (List.append_eq_nil_iff.mp h).2
  cases h with
  | plain hb =>
    cases hb with
    | star => exact List.cons_ne_nil _ _
    | value hv => exact hv.ne_nil
    | range => exact hmid _ _ _
  | step => exact hmid _ _ _

/-! ### A text is that of one item -/

theorem readsNumber_unique (h : ReadsNumber D s v) (h' : ReadsNumber D s w) : v = w :=
  h.2.2.trans h'.2.2.symm

theorem readsValue_unique (h : ReadsValue D F s v) (h' : ReadsValue D F s w) : v = w := by
  cases h with
  | name h =>
    cases h' with
    | name h' => rw [Option.some.inj (h.symm.trans h')]
    | number h' =>
      rw [h'.index?] at h
      cases h
  | number h =>
    cases h' with
    | name h' =>
      rw [h.index?] at h'
      cases h'
    | number h' => exact readsNumber_unique h h'

theorem not_readsValue_star : ¬ ReadsValue D F ['*'] v :=
  fun h => h.not_mem (c := '*') (by decide) List.mem_cons_self

theorem readsBase_unique {b b' : Base} (h : ReadsBase D F s b) (h' : ReadsBase D F s b') :
    b = b' := by
  -- a text with a dash is a range, and the first dash cuts it
  have hdash : ∀ {s t u v : List Char} {a a' : Value}, ReadsValue D F s a → ReadsValue D F u a' →
      u ++ '-' :: v = s ++ '-' :: t → u = s ∧ v = t := by
    intro s t u v a a' ha ha' heq
    have hcut := Py.splitOnce_append (b := v) (ha'.not_mem (c := '-') (by decide))
    rw [heq, Py.splitOnce_append (ha.not_mem (by decide))] at hcut
    obtain ⟨hs, ht⟩ := Prod.mk.inj (Option.some.inj hcut)
    exact ⟨hs.symm, ht.symm⟩
  have hmid : ∀ u v : List Char, '-' ∈ u ++ '-' :: v := fun u v =>
    List.mem_append_right u List.mem_cons_self
  cases h with
  | star =>
    generalize hs : ['*'] = s at h'
    cases h' with
    | star => rfl
    | value h' => exact absurd (hs ▸ h') not_readsValue_star
    | range => exact absurd (hs ▸ hmid _ _) (by decide)
  | value h =>
    cases h' with
    | star => exact absurd h not_readsValue_star
    | value h' => rw [readsValue_unique h h']
    | range => exact absurd (hmid _ _) (h.not_mem (by decide))
  | @range u t a b ha hb hle =>
    generalize hs : u ++ '-' :: t = s at h'
    cases h' with
    | star => exact absurd (hs ▸ hmid _ _) (by decide)
    | value h' => exact absurd (hs ▸ hmid _ _) (h'.not_mem (by decide))
    | range ha' hb' hle' =>
      obtain ⟨rfl, rfl⟩ := hdash ha' ha hs
      rw [readsValue_unique ha ha', readsValue_unique hb hb']

/-- **A text is that of one item only.** -/
theorem readsItem_unique {it it' : Item} (h : ReadsItem D F s it) (h' : ReadsItem D F s it') :
    it = it' := by
  have hmid : ∀ u v : List Char, '/' ∈ u ++ '/' :: v := fun u v =>
    List.mem_append_right u List.mem_cons_self
  cases h with
  | plain h =>
    cases h' with
    | plain h' => rw [readsBase_unique h h']
    | step => exact absurd (hmid _ _) h.slash
  | @step u t b v h hv =>
    generalize hs : u ++ '/' :: t = s at h'
    cases h' with
    | plain h' => exact absurd (hs ▸ hmid _ _) h'.slash
    | step h' hv' =>
      have hcut := Py.splitOnce_append (b := t) h.slash
      rw [hs, Py.splitOnce_append h'.slash] at hcut
      obtain ⟨rfl, rfl⟩ := Prod.mk.inj (Option.some.inj hcut)
      rw [readsBase_unique h h', readsNumber_unique hv hv']

/-! ### What the parser accepts -/

def NoSpace (s : List Char) : Prop := ∀ c ∈ s, Py.isSpace c = false

theorem NoSpace.stripChars (h : NoSpace s) : Py.stripChars s = s := Py.stripChars_of_forall h

theorem NoSpace.of_append (h : NoSpace (s ++ t)) : NoSpace s ∧ NoSpace t :=
  ⟨fun c hc => h c (List.mem_append_left t hc), fun c hc => h c (List.mem_append_right s hc)⟩

/-- The parts around a separator have no white space either. -/
theorem NoSpace.of_append_cons {c : Char} (h : NoSpace (s ++ c :: t)) : NoSpace s ∧ NoSpace t :=
  ⟨h.of_append.1, fun d hd => h.of_append.2 d (List.mem_cons_of_mem c hd)⟩

theorem isdigit_of_readsNumber (h : ReadsNumber D s v) : D.isdigit s = true := by
  rw [Digits.isdigit, Bool.and_eq_true, decide_eq_true_eq, List.all_eq_true]
  exact ⟨h.1, fun c hc => Bool.or_eq_true_iff.mpr (.inl (h.2.1 c hc))⟩

theorem int?_eq_some_iff (hs : s ≠ []) :
    D.int? s = some n ↔ ∃ v, ReadsNumber D s v ∧ v.Short ∧ v.value = n := by
  unfold Digits.int?
  constructor
  · intro h
    split_ifs at h with hread
    exact ⟨_, ⟨hs, List.all_eq_true.mp hread.2, rfl⟩, hread.1, Option.some.inj h⟩
  · rintro ⟨v, ⟨-, hdec, rfl⟩, hshort, rfl⟩
    exact if_pos ⟨hshort, List.all_eq_true.mpr hdec⟩

theorem parseStep_eq_ok_iff :
    parseStep D s = .ok n ↔ ∃ v, ReadsNumber D s v ∧ v.Short ∧ 1 ≤ v.value ∧ v.value = n := by
  unfold parseStep
  constructor
  · intro h
    split_ifs at h with hdigit
    have hs : s ≠ [] := by
      rw [Digits.isdigit, Bool.and_eq_true, decide_eq_true_eq] at hdigit
      exact hdigit.1
    cases hint : D.int? s with
    | none =>
      rw [hint] at h
      cases h
    | some m =>
      rw [hint] at h
      dsimp only at h
      split_ifs at h with hpos
      obtain rfl := Except.ok.inj h
      obtain ⟨v, hv, hshort, rfl⟩ := (int?_eq_some_iff hs).mp hint
      exact ⟨v, hv, hshort, by omega, rfl⟩
  · rintro ⟨v, hv, hshort, hpos, rfl⟩
    rw [if_pos (isdigit_of_readsNumber hv), (int?_eq_some_iff hv.1).mpr ⟨v, hv, hshort, rfl⟩]
    exact if_neg (by omega)

theorem atom_eq_ok_iff (hs : NoSpace s) :
    atom D F s = .ok n ↔ ∃ v, ReadsValue D F s v ∧ v.Short ∧ v.value = n := by
  unfold atom
  rw [hs.stripChars]
  dsimp only
  constructor
  · intro h
    cases hindex : F.index? (s.map Py.lowerChar) with
    | some m =>
      rw [hindex] at h
      exact ⟨⟨m, 0⟩, .name hindex, Nat.zero_le _, Except.ok.inj h⟩
    | none =>
      rw [hindex] at h
      dsimp only at h
      split_ifs at h with hdigit
      have hne : s.map Py.lowerChar ≠ [] := by
        rw [Digits.isdigit, Bool.and_eq_true, decide_eq_true_eq] at hdigit
        exact hdigit.1
      cases hint : D.int? (s.map Py.lowerChar) with
      | none =>
        rw [hint] at h
        cases h
      | some m =>
        rw [hint] at h
        dsimp only at h
        split_ifs at h with hbounds
        obtain rfl := Except.ok.inj h
        obtain ⟨v, hv, hshort, rfl⟩ := (int?_eq_some_iff hne).mp hint
        rw [map_lowerChar_eq hv.2.1] at hv
        exact ⟨v, .number hv hbounds.1 hbounds.2, hshort, rfl⟩
  · rintro ⟨v, hv, hshort, rfl⟩
    cases hv with
    | name h => rw [h]
    | number h hlo hhi =>
      rw [h.index?, h.map_lowerChar]
      dsimp only
      rw [if_pos (isdigit_of_readsNumber h), (int?_eq_some_iff h.1).mpr ⟨v, h, hshort, rfl⟩]
      exact if_pos ⟨hlo, hhi⟩

theorem bounds_eq_ok_iff (hs : NoSpace s) {step : ℕ} {ends : ℕ × ℕ} :
    bounds D F s step = .ok ends ↔
      ∃ b, ReadsBase D F s b ∧ b.Short ∧ ends = (b.start F, b.stop F (step > 1)) := by
  unfold bounds
  by_cases hstar : s = ['*']
  · subst hstar
    rw [if_pos rfl]
    constructor
    · intro h
      exact ⟨.star, .star, trivial, (Except.ok.inj h).symm⟩
    · rintro ⟨b, hb, -, rfl⟩
      rw [readsBase_unique hb .star]
      rfl
  rw [if_neg hstar]
  -- a text with a hyphen is a range, as no value has one
  cases hcut : Py.splitOnce '-' s with
  | none =>
    have hdash := Py.splitOnce_eq_none_iff.mp hcut
    dsimp only
    rw [Sql.bind_eq_ok_iff]
    constructor
    · rintro ⟨a, ha, h⟩
      obtain ⟨v, hv, hshort, rfl⟩ := (atom_eq_ok_iff hs).mp ha
      exact ⟨.value v, .value hv, hshort, (Except.ok.inj h).symm⟩
    · rintro ⟨b, hb, hshort, rfl⟩
      cases hb with
      | star => exact absurd rfl hstar
      | value hv => exact ⟨_, (atom_eq_ok_iff hs).mpr ⟨_, hv, hshort, rfl⟩, rfl⟩
      | range => exact absurd (List.mem_append_right _ List.mem_cons_self) hdash
  | some parts =>
    obtain ⟨u, t⟩ := parts
    obtain ⟨rfl, hu⟩ := Py.splitOnce_eq_some_iff.mp hcut
    obtain ⟨hsu, hst⟩ := hs.of_append_cons
    dsimp only
    rw [Sql.bind_eq_ok_iff]
    constructor
    · rintro ⟨a, ha, h⟩
      obtain ⟨b, hb, h⟩ := Sql.bind_eq_ok_iff.mp h
      split_ifs at h with hle
      obtain ⟨v, hv, hvshort, rfl⟩ := (atom_eq_ok_iff hsu).mp ha
      obtain ⟨w, hw, hwshort, rfl⟩ := (atom_eq_ok_iff hst).mp hb
      exact ⟨.range v w, .range hv hw (by omega), ⟨hvshort, hwshort⟩, (Except.ok.inj h).symm⟩
    · rintro ⟨b, hb, hshort, rfl⟩
      generalize hs' : u ++ '-' :: t = s at hb
      cases hb with
      | star => exact absurd hs' hstar
      | value hv =>
        exact absurd (hs' ▸ List.mem_append_right u List.mem_cons_self)
          (hv.not_mem (c := '-') (by decide))
      | @range u' t' a b hv hw hle =>
        have hcut' := Py.splitOnce_append (b := t') (hv.not_mem (c := '-') (by decide))
        rw [← hs', hcut] at hcut'
        obtain ⟨rfl, rfl⟩ := Prod.mk.inj (Option.some.inj hcut')
        refine ⟨_, (atom_eq_ok_iff hsu).mpr ⟨_, hv, hshort.1, rfl⟩, Sql.bind_eq_ok_iff.mpr ?_⟩
        exact ⟨_, (atom_eq_ok_iff hst).mpr ⟨_, hw, hshort.2, rfl⟩, if_neg (by omega)⟩

theorem parsePart_eq_ok_iff (hs : NoSpace s) {listed : Finset ℕ} :
    parsePart D F s = .ok listed ↔ ∃ it, ReadsItem D F s it ∧ it.Short ∧ listed = it.listed F := by
  unfold parsePart
  rw [hs.stripChars]
  dsimp only
  cases hcut : Py.splitOnce '/' s with
  | none =>
    have hslash := Py.splitOnce_eq_none_iff.mp hcut
    dsimp only
    rw [Sql.bind_eq_ok_iff]
    constructor
    · rintro ⟨ends, hends, h⟩
      obtain ⟨b, hb, hshort, rfl⟩ := (bounds_eq_ok_iff hs).mp hends
      exact ⟨⟨b, none⟩, .plain hb, ⟨hshort, nofun⟩, (Except.ok.inj h).symm⟩
    · rintro ⟨it, hit, hshort, rfl⟩
      cases hit with
      | plain hb => exact ⟨_, (bounds_eq_ok_iff hs).mpr ⟨_, hb, hshort.1, rfl⟩, rfl⟩
      | step => exact absurd (List.mem_append_right _ List.mem_cons_self) hslash
  | some parts =>
    obtain ⟨u, t⟩ := parts
    obtain ⟨rfl, hu⟩ := Py.splitOnce_eq_some_iff.mp hcut
    obtain ⟨hsu, hst⟩ := hs.of_append_cons
    dsimp only
    rw [Sql.bind_eq_ok_iff]
    constructor
    · rintro ⟨step, hstep, h⟩
      obtain ⟨ends, hends, h⟩ := Sql.bind_eq_ok_iff.mp h
      obtain ⟨v, hv, hvshort, hpos, rfl⟩ := parseStep_eq_ok_iff.mp hstep
      obtain ⟨b, hb, hshort, rfl⟩ := (bounds_eq_ok_iff hsu).mp hends
      refine ⟨⟨b, some v⟩, .step hb hv hpos, ⟨hshort, fun w hw => ?_⟩, (Except.ok.inj h).symm⟩
      exact Option.some.inj hw ▸ hvshort
    · rintro ⟨it, hit, hshort, rfl⟩
      generalize hs' : u ++ '/' :: t = s at hit
      cases hit with
      | plain hb => exact absurd (hs' ▸ List.mem_append_right u List.mem_cons_self) hb.slash
      | @step u' t' b v hb hv hpos =>
        have hcut' := Py.splitOnce_append (b := t') hb.slash
        rw [← hs', hcut] at hcut'
        obtain ⟨rfl, rfl⟩ := Prod.mk.inj (Option.some.inj hcut')
        refine ⟨_, parseStep_eq_ok_iff.mpr ⟨v, hv, hshort.2 v rfl, hpos, rfl⟩, ?_⟩
        exact Sql.bind_eq_ok_iff.mpr ⟨_, (bounds_eq_ok_iff hsu).mpr ⟨b, hb, hshort.1, rfl⟩, rfl⟩

theorem parseParts_eq_ok_iff {parts : List (List Char)} (hs : ∀ part ∈ parts, NoSpace part)
    {values listed : Finset ℕ} :
    parseParts D F parts values = .ok listed ↔ ∃ items, List.Forall₂ (ReadsItem D F) parts items ∧
      (∀ it ∈ items, it.Short) ∧ listed = values ∪ listedAll F items := by
  induction parts generalizing values with
  | nil =>
    constructor
    · intro h
      exact ⟨[], .nil, nofun, by rw [← Except.ok.inj h]; exact (Finset.union_empty _).symm⟩
    · rintro ⟨items, hitems, -, rfl⟩
      cases hitems
      exact congrArg Except.ok (Finset.union_empty _).symm
  | cons part parts ih =>
    have ih := @ih fun q hq => hs q (List.mem_cons_of_mem part hq)
    unfold parseParts
    rw [Sql.bind_eq_ok_iff]
    constructor
    · rintro ⟨l, hl, h⟩
      obtain ⟨it, hit, hshort, rfl⟩ := (parsePart_eq_ok_iff (hs part List.mem_cons_self)).mp hl
      obtain ⟨items, hitems, hshorts, rfl⟩ := ih.mp h
      refine ⟨it :: items, .cons hit hitems, ?_, Finset.union_assoc _ _ _⟩
      exact List.forall_mem_cons.mpr ⟨hshort, hshorts⟩
    · rintro ⟨items, hitems, hshorts, rfl⟩
      cases hitems with
      | @cons _ it _ items hit hitems =>
        obtain ⟨hshort, hshorts⟩ := List.forall_mem_cons.mp hshorts
        refine ⟨_,
          (parsePart_eq_ok_iff (hs part List.mem_cons_self)).mpr ⟨it, hit, hshort, rfl⟩, ?_⟩
        exact ih.mpr ⟨items, hitems, hshorts, (Finset.union_assoc _ _ _).symm⟩

/-- **The parser accepts the lists of items with short numbers**, and lists the values of each. -/
theorem parseField_eq_ok_iff (hs : NoSpace s) {r : Finset ℕ × Bool} :
    parseField D F s = .ok r ↔ ∃ items, ReadsField D F s items ∧ (∀ it ∈ items, it.Short) ∧
      r = (listedAll F items, decide (s ≠ ['*'])) := by
  have hparts : ∀ part ∈ s.splitOn ',', NoSpace part := fun part hpart c hc =>
    hs c (Py.mem_of_mem_splitOnP hpart hc).1
  unfold parseField
  rw [hs.stripChars]
  dsimp only
  by_cases hempty : s = []
  · subst hempty
    rw [if_pos rfl]
    refine iff_of_false nofun ?_
    rintro ⟨items, hitems, -⟩
    unfold ReadsField at hitems
    rw [List.splitOn_nil] at hitems
    cases hitems with
    | cons hit => exact hit.ne_nil rfl
  rw [if_neg hempty, Sql.bind_eq_ok_iff]
  constructor
  · rintro ⟨values, hvalues, h⟩
    obtain ⟨items, hitems, hshort, rfl⟩ := (parseParts_eq_ok_iff hparts).mp hvalues
    rw [Finset.empty_union] at h
    exact ⟨items, hitems, hshort, (Except.ok.inj h).symm⟩
  · rintro ⟨items, hitems, hshort, rfl⟩
    refine ⟨_, (parseParts_eq_ok_iff hparts).mpr ⟨items, hitems, hshort, rfl⟩, ?_⟩
    rw [Finset.empty_union]

end Schedule
