import RunnerDashboard.Lib.Fences
import RunnerDashboard.Lib.PyStr

/-!
# The filter of the live reply

While a reply comes in, a filter lets it through character by character, and stops for good at the
line that begins the memory capsule.  It holds back what may still become that line, and keeps of a
line no more than its first three characters, its length up to four and whether it ends with a
carriage return.

## Main results

* `streamed_eq` — **however the reply is cut, its visible part is streamed.**
-/

namespace Staff.Capsule

open Fences

scoped instance lawfulBEq_chars : LawfulBEq (List Char) := inferInstance

/-! ### The filter -/

def marker : List Char := "```staff-memory".toList

def fenceMarks : List (List Char) := ["```".toList, "~~~".toList]

structure FilterState where
  hidden : Bool := false
  fence : Option (List Char) := none
  lineStart : Bool := true
  candidate : List Char := []
  candidateCr : Bool := false
  linePrefix : List Char := []
  lineLength : ℕ := 0
  lineTrailingCr : Bool := false
  deriving DecidableEq

def FilterState.finishLine (s : FilterState) : FilterState :=
  let lineLength := s.lineLength - if s.lineTrailingCr then 1 else 0
  { s with
    fence :=
      match s.fence with
      | none => if 3 ≤ lineLength ∧ s.linePrefix ∈ fenceMarks then some s.linePrefix else none
      | some fence => if lineLength = 3 ∧ s.linePrefix = fence then none else some fence
    lineStart := true
    linePrefix := []
    lineLength := 0
    lineTrailingCr := false }

def feedLineFeed (s : FilterState) : FilterState × List Char :=
  if s.candidate = marker then
    ({ s with hidden := true, candidate := [], candidateCr := false }.finishLine, [])
  else if s.candidate ≠ [] then
    ({ s with candidate := [], candidateCr := false }.finishLine,
      s.candidate ++ (if s.candidateCr then ['\r'] else []) ++ ['\n'])
  else (s.finishLine, ['\n'])

/-- A character of a line, which is counted already. -/
def feedInLine (s : FilterState) (char : Char) : FilterState × List Char :=
  if s.candidateCr then
    ({ s with candidate := [], candidateCr := false, lineStart := false },
      s.candidate ++ ['\r'] ++ [char])
  else if s.candidate = marker then
    if char = '\r' then ({ s with candidateCr := true, lineStart := false }, [])
    else ({ s with candidate := [], lineStart := false }, s.candidate ++ [char])
  else if s.candidate ≠ [] then
    if s.candidate ++ [char] <+: marker then
      ({ s with candidate := s.candidate ++ [char], lineStart := false }, [])
    else ({ s with candidate := [], lineStart := false }, s.candidate ++ [char])
  else if s.lineStart ∧ s.fence = none ∧ [char] <+: marker then
    ({ s with candidate := [char], lineStart := false }, [])
  else ({ s with lineStart := false }, [char])

/-- A character of `feed`. -/
def feedChar (s : FilterState) (char : Char) : FilterState × List Char :=
  if s.hidden then (s, [])
  else if char = '\n' then feedLineFeed s
  else
    feedInLine
      { s with
        lineLength := min (s.lineLength + 1) 4
        lineTrailingCr := char = '\r'
        linePrefix := if s.linePrefix.length < 3 then s.linePrefix ++ [char] else s.linePrefix }
      char

def feed : FilterState → List Char → FilterState × List Char
  | s, [] => (s, [])
  | s, char :: text =>
    let r := feedChar s char
    let rest := feed r.1 text
    (rest.1, r.2 ++ rest.2)

def finish (s : FilterState) : List Char :=
  if s.hidden ∨ s.candidate = [] then []
  else s.candidate ++ if s.candidateCr then ['\r'] else []

def feedChunks : FilterState → List (List Char) → FilterState × List Char
  | s, [] => (s, [])
  | s, chunk :: chunks =>
    let r := feed s chunk
    let rest := feedChunks r.1 chunks
    (rest.1, r.2 ++ rest.2)

/-- What comes out of a reply that comes in chunks. -/
def streamed (chunks : List (List Char)) : List Char :=
  let r := feedChunks {} chunks
  r.2 ++ finish r.1

/-! ### The lines of the filter -/

def lfLines : List Char → List (List Char)
  | [] => []
  | c :: s =>
    if c = '\n' then [] :: lfLines s
    else
      match lfLines s with
      | [] => []
      | l :: ls => (c :: l) :: ls

/-- How the filter reads a line: a fence is closed by its own mark, and by every longer line that
begins with it and ends with a carriage return. -/
def lfReading : Reading (List Char) (List Char) where
  marker l := l = marker || l = marker ++ ['\r']
  opens l := if l.take 3 ∈ fenceMarks then some (l.take 3) else none
  closes fence l :=
    min l.length 4 - (if l.getLast? = some '\r' then 1 else 0) = 3 && l.take 3 = fence

/-- The place of the line at which the filter stops. -/
def lfStart (fence : Option (List Char)) (text : List Char) : Option ℕ :=
  lfReading.first fence (lfLines text)

def lfBefore (n : ℕ) (text : List Char) : List Char :=
  ((lfLines text).take n).flatMap (· ++ ['\n'])

/-- The text before the line at which the filter stops. -/
def visible (fence : Option (List Char)) (text : List Char) : List Char :=
  match lfStart fence text with
  | none => text
  | some n => lfBefore n text

variable {w : List Char} {fence : Option (List Char)} {c : Char} {s : FilterState}

theorem marker_ne_nil : marker ≠ [] := by decide

theorem exists_eq_lfLines (text : List Char) :
    ∃ rest, text = (lfLines text).flatMap (· ++ ['\n']) ++ rest := by
  induction text with
  | nil => exact ⟨[], rfl⟩
  | cons c text ih =>
    obtain ⟨rest, hrest⟩ := ih
    unfold lfLines
    split
    · next hc => exact ⟨rest, by simpa [hc] using hrest⟩
    · split
      · exact ⟨c :: text, rfl⟩
      · next l ls hls =>
        rw [hls] at hrest
        exact ⟨rest, by simpa using hrest⟩

theorem lfLines_of_notMem (h : '\n' ∉ w) : lfLines w = [] := by
  induction w with
  | nil => rfl
  | cons c w ih =>
    rw [List.mem_cons, not_or] at h
    rw [lfLines, if_neg (Ne.symm h.1), ih h.2]

theorem lfLines_append (h : '\n' ∉ w) (text : List Char) :
    lfLines (w ++ '\n' :: text) = w :: lfLines text := by
  induction w with
  | nil => simp [lfLines]
  | cons c w ih =>
    rw [List.mem_cons, not_or] at h
    rw [List.cons_append, lfLines, if_neg (Ne.symm h.1), ih h.2]

theorem visible_append (h : '\n' ∉ w) (hline : ¬ (fence = none ∧ lfReading.marker w = true))
    (text : List Char) : visible fence (w ++ '\n' :: text) =
      w ++ '\n' :: visible (lfReading.after fence w) text := by
  unfold visible lfStart lfBefore
  rw [lfLines_append h, Reading.first_cons_of_not hline]
  cases lfReading.first (lfReading.after fence w) (lfLines text) with
  | none => rfl
  | some n => simp

theorem visible_append_marker (h : '\n' ∉ w) (hfence : fence = none)
    (hmarker : lfReading.marker w = true) (text : List Char) :
    visible fence (w ++ '\n' :: text) = [] := by
  unfold visible lfStart lfBefore
  rw [lfLines_append h, Reading.first_cons_of_marker hfence hmarker]
  rfl

theorem visible_of_notMem (h : '\n' ∉ w) : visible fence w = w := by
  unfold visible lfStart
  rw [lfLines_of_notMem h]
  rfl

theorem eq_of_lfStart {n : ℕ} {text : List Char} (h : lfStart fence text = some n) :
    ∃ rest, text = lfBefore n text ++ (marker ++ rest) := by
  obtain ⟨before, l, after, hlines, rfl, hmarker⟩ := Reading.first_spec h
  obtain ⟨rest, hrest⟩ := exists_eq_lfLines text
  have hbefore : lfBefore before.length text = before.flatMap (· ++ ['\n']) := by
    rw [lfBefore, hlines, List.take_left]
  have hline : ∃ tail, l = marker ++ tail := by
    simp only [lfReading, Bool.or_eq_true, decide_eq_true_eq] at hmarker
    rcases hmarker with rfl | rfl
    · exact ⟨[], by simp⟩
    · exact ⟨['\r'], rfl⟩
  obtain ⟨tail, rfl⟩ := hline
  refine ⟨tail ++ '\n' :: (after.flatMap (· ++ ['\n']) ++ rest), ?_⟩
  rw [hbefore]
  rw [hlines] at hrest
  simpa using hrest

/-- **The visible part is the text, or its beginning up to a marker.** -/
theorem visible_spec (fence : Option (List Char)) (text : List Char) :
    visible fence text = text ∨ ∃ rest, text = visible fence text ++ (marker ++ rest) := by
  unfold visible
  cases hstart : lfStart fence text with
  | none => exact .inl rfl
  | some n => exact .inr (eq_of_lfStart hstart)

/-! ### The state in a line -/

/-- A line that may still become the marker, or is it. -/
def MayBeMarker (fence : Option (List Char)) (w : List Char) : Prop :=
  fence = none ∧ (w <+: marker ∨ w = marker ++ ['\r'])

instance (fence : Option (List Char)) (w : List Char) : Decidable (MayBeMarker fence w) :=
  inferInstanceAs (Decidable (_ ∧ _))

/-- The characters of a line that are held back. -/
def held (fence : Option (List Char)) (w : List Char) : List Char :=
  if MayBeMarker fence w then w else []

/-- The characters of a line that were let through. -/
def released (fence : Option (List Char)) (w : List Char) : List Char :=
  if MayBeMarker fence w then [] else w

def inLine (fence : Option (List Char)) (w : List Char) : FilterState where
  fence
  lineStart := w = []
  candidate := (held fence w).take marker.length
  candidateCr := marker.length < (held fence w).length
  linePrefix := w.take 3
  lineLength := min w.length 4
  lineTrailingCr := w.getLast? = some '\r'

theorem inLine_nil : inLine none [] = {} := rfl

theorem released_append_held (fence : Option (List Char)) (w : List Char) :
    released fence w ++ held fence w = w := by
  unfold released held
  split <;> simp

theorem MayBeMarker.of_concat (h : MayBeMarker fence (w ++ [c])) : MayBeMarker fence w := by
  obtain ⟨hfence, hpre | heq⟩ := h
  · exact ⟨hfence, .inl ((List.prefix_append w [c]).trans hpre)⟩
  · exact ⟨hfence, .inl ((List.append_inj' heq rfl).1 ▸ List.prefix_rfl)⟩

/-- The marker is continued by a carriage return, and by nothing after it. -/
theorem mayBeMarker_concat_iff (h : MayBeMarker fence w) : MayBeMarker fence (w ++ [c]) ↔
    w ++ [c] <+: marker ∨ w = marker ∧ c = '\r' := by
  constructor
  · rintro ⟨-, hpre | heq⟩
    · exact .inl hpre
    · obtain ⟨rfl, hc⟩ := List.append_inj' heq rfl
      exact .inr ⟨rfl, by simpa using hc⟩
  · rintro (hpre | ⟨rfl, rfl⟩)
    · exact ⟨h.1, .inl hpre⟩
    · exact ⟨h.1, .inr rfl⟩

/-- What a character in a line lets through. -/
def releasedBy (fence : Option (List Char)) (w : List Char) (c : Char) : List Char :=
  if MayBeMarker fence (w ++ [c]) then [] else held fence w ++ [c]

theorem released_concat (fence : Option (List Char)) (w : List Char) (c : Char) :
    released fence (w ++ [c]) = released fence w ++ releasedBy fence w c := by
  unfold released releasedBy held
  by_cases hnext : MayBeMarker fence (w ++ [c])
  · simp [hnext, hnext.of_concat]
  · by_cases h : MayBeMarker fence w <;> simp [hnext, h]

/-- The state in a line with one more character, as far as it is counted. -/
def counted (fence : Option (List Char)) (w : List Char) (c : Char) : FilterState :=
  { inLine fence w with
    lineLength := min (w ++ [c]).length 4
    lineTrailingCr := (w ++ [c]).getLast? = some '\r'
    linePrefix := (w ++ [c]).take 3 }

theorem feedChar_eq_counted (hc : c ≠ '\n') :
    feedChar (inLine fence w) c = feedInLine (counted fence w c) c := by
  have hlength : min ((inLine fence w).lineLength + 1) 4 = min (w ++ [c]).length 4 := by
    simp only [inLine, List.length_append, List.length_singleton]
    omega
  have hcr : decide (c = '\r') = decide ((w ++ [c]).getLast? = some '\r') := by simp
  have hpre : (if (inLine fence w).linePrefix.length < 3 then (inLine fence w).linePrefix ++ [c]
      else (inLine fence w).linePrefix) = (w ++ [c]).take 3 := by
    simp only [inLine, List.length_take]
    by_cases hshort : w.length < 3
    · rw [if_pos (by omega), List.take_of_length_le hshort.le, List.take_of_length_le]
      rw [List.length_append, List.length_singleton]
      omega
    · rw [if_neg (by omega), List.take_append_of_le_length (by omega)]
  unfold feedChar counted
  rw [if_neg (by simp [inLine]), if_neg hc, hlength, hcr, hpre]

theorem inLine_concat_of_not (h : ¬ MayBeMarker fence (w ++ [c])) :
    { counted fence w c with candidate := [], candidateCr := false, lineStart := false } =
      inLine fence (w ++ [c]) := by
  simp [counted, inLine, held, h]

/-- The state after a character with which the line may still be the marker. -/
theorem inLine_concat_of (h : MayBeMarker fence (w ++ [c])) :
    { counted fence w c with
      candidate := (w ++ [c]).take marker.length
      candidateCr := marker.length < (w ++ [c]).length
      lineStart := false } = inLine fence (w ++ [c]) := by
  simp [counted, inLine, held, h]

/-- A first part of the marker is held back whole. -/
theorem counted_of_prefix (h : MayBeMarker fence w) (hpre : w <+: marker) (c : Char) :
    (counted fence w c).candidate = w ∧ (counted fence w c).candidateCr = false := by
  have hheld : held fence w = w := if_pos h
  simp [counted, inLine, hheld, List.take_of_length_le hpre.length_le, hpre.length_le]

/-- A character after the marker: a carriage return may end its line, and any other one does not. -/
theorem feedInLine_marker (h : MayBeMarker fence marker) :
    feedInLine (counted fence marker c) c =
      (inLine fence (marker ++ [c]), releasedBy fence marker c) := by
  obtain ⟨htake, hcr⟩ := counted_of_prefix h List.prefix_rfl c
  unfold feedInLine releasedBy
  rw [if_neg (by simp [hcr]), htake, show held fence marker = marker from if_pos h, if_pos rfl]
  by_cases hreturn : c = '\r'
  · have hnext : MayBeMarker fence (marker ++ [c]) :=
      (mayBeMarker_concat_iff h).mpr (.inr ⟨rfl, hreturn⟩)
    have hcandidate : (marker ++ [c]).take marker.length = (counted fence marker c).candidate := by
      rw [htake, List.take_append_of_le_length le_rfl, List.take_of_length_le le_rfl]
    have hlong : decide (marker.length < (marker ++ [c]).length) = true := by simp
    rw [if_pos hreturn, if_pos hnext, ← inLine_concat_of hnext, hcandidate, hlong, htake]
  · have hnext : ¬ MayBeMarker fence (marker ++ [c]) := by
      rw [mayBeMarker_concat_iff h]
      rintro (hlong | ⟨-, hreturn'⟩)
      · have := hlong.length_le
        rw [List.length_append, List.length_singleton] at this
        omega
      · exact hreturn hreturn'
    rw [if_neg hreturn, if_neg hnext, ← inLine_concat_of_not hnext]
    simp only [hcr]

/-- A part of the marker that is not the whole one is continued by a longer part only. -/
theorem mayBeMarker_concat_iff_of_ne (h : MayBeMarker fence w) (hw : w ≠ marker) :
    MayBeMarker fence (w ++ [c]) ↔ w ++ [c] <+: marker := by
  rw [mayBeMarker_concat_iff h]
  exact or_iff_left fun h => hw h.1

theorem feedInLine_first (h : MayBeMarker fence []) :
    feedInLine (counted fence [] c) c = (inLine fence [c], releasedBy fence [] c) := by
  obtain ⟨htake, hcr⟩ := counted_of_prefix h List.nil_prefix c
  have hnext : MayBeMarker fence [c] ↔ [c] <+: marker :=
    mayBeMarker_concat_iff_of_ne (w := []) h (by decide)
  unfold feedInLine releasedBy
  rw [if_neg (by simp [hcr]), htake, show held fence [] = [] from if_pos h, if_neg (by decide),
    if_neg (by simp), List.nil_append]
  by_cases hmarker : [c] <+: marker
  · have hstart : (counted fence [] c).lineStart ∧ (counted fence [] c).fence = none ∧
        [c] <+: marker := ⟨rfl, h.1, hmarker⟩
    have hlength := hmarker.length_le
    rw [if_pos hstart, if_pos (hnext.mpr hmarker),
      show inLine fence [c] = _ from (inLine_concat_of (w := []) (hnext.mpr hmarker)).symm,
      List.nil_append, List.take_of_length_le hlength]
    simp only [decide_eq_false (not_lt.mpr hlength), hcr]
  · rw [if_neg fun hstart => hmarker hstart.2.2, if_neg (mt hnext.mp hmarker),
      show inLine fence [c] = _ from (inLine_concat_of_not (w := []) (mt hnext.mp hmarker)).symm]
    simp only [hcr]

theorem feedInLine_part (h : MayBeMarker fence w) (hpre : w <+: marker) (hw : w ≠ marker)
    (hnil : w ≠ []) : feedInLine (counted fence w c) c =
      (inLine fence (w ++ [c]), releasedBy fence w c) := by
  obtain ⟨htake, hcr⟩ := counted_of_prefix h hpre c
  have hnext : MayBeMarker fence (w ++ [c]) ↔ w ++ [c] <+: marker :=
    mayBeMarker_concat_iff_of_ne h hw
  unfold feedInLine releasedBy
  rw [if_neg (by simp [hcr]), htake, show held fence w = w from if_pos h, if_neg hw, if_pos hnil]
  by_cases hmarker : w ++ [c] <+: marker
  · rw [if_pos hmarker, if_pos (hnext.mpr hmarker), ← inLine_concat_of (hnext.mpr hmarker)]
    have hlength := hmarker.length_le
    simp only [List.take_of_length_le hlength, decide_eq_false (not_lt.mpr hlength), hcr]
  · rw [if_neg hmarker, if_neg (mt hnext.mp hmarker), ← inLine_concat_of_not (mt hnext.mp hmarker)]
    simp only [hcr]

theorem feedInLine_markerReturn (h : MayBeMarker fence (marker ++ ['\r'])) :
    feedInLine (counted fence (marker ++ ['\r']) c) c =
      (inLine fence (marker ++ ['\r'] ++ [c]), releasedBy fence (marker ++ ['\r']) c) := by
  have hheld : held fence (marker ++ ['\r']) = marker ++ ['\r'] := if_pos h
  have hnext : ¬ MayBeMarker fence (marker ++ ['\r'] ++ [c]) := by
    rw [mayBeMarker_concat_iff h]
    rintro (hlong | ⟨heq, -⟩)
    · exact absurd hlong.length_le (by simp)
    · exact absurd (congrArg List.length heq) (by simp)
  have htake : (counted fence (marker ++ ['\r']) c).candidate = marker := by
    simp [counted, inLine, hheld]
  have hcr : (counted fence (marker ++ ['\r']) c).candidateCr = true := by
    simp [counted, inLine, hheld]
  unfold feedInLine releasedBy
  rw [if_pos hcr, htake, hheld, if_neg hnext, ← inLine_concat_of_not hnext]

theorem feedInLine_of_not (h : ¬ MayBeMarker fence w) : feedInLine (counted fence w c) c =
    (inLine fence (w ++ [c]), releasedBy fence w c) := by
  have hheld : held fence w = [] := if_neg h
  have hnext : ¬ MayBeMarker fence (w ++ [c]) := fun hnext => h hnext.of_concat
  have htake : (counted fence w c).candidate = [] := by simp [counted, inLine, hheld]
  have hcr : (counted fence w c).candidateCr = false := by simp [counted, inLine, hheld]
  unfold feedInLine releasedBy
  rw [if_neg (by simp [hcr]), htake, if_neg (by decide), if_neg (by simp), if_neg, if_neg hnext,
    hheld, ← inLine_concat_of_not hnext]
  · simp [counted, inLine, hheld]
  · rintro ⟨hstart, hfence, -⟩
    have hw : w = [] := of_decide_eq_true hstart
    exact h ⟨hfence, .inl (hw ▸ List.nil_prefix)⟩

/-- **A character in a line.** -/
theorem feedChar_inLine (hc : c ≠ '\n') :
    feedChar (inLine fence w) c = (inLine fence (w ++ [c]), releasedBy fence w c) := by
  rw [feedChar_eq_counted hc]
  by_cases h : MayBeMarker fence w
  · -- held back is a first part of the marker, or the marker and a carriage return
    obtain ⟨-, hpre | rfl⟩ := id h
    · by_cases hw : w = marker
      · subst hw
        exact feedInLine_marker h
      · by_cases hnil : w = []
        · subst hnil
          exact feedInLine_first h
        · exact feedInLine_part h hpre hw hnil
    · exact feedInLine_markerReturn h
  · exact feedInLine_of_not h

/-! ### The end of a line -/

/-- A line that begins with a fence is counted as long enough. -/
theorem three_le_of_fenceMark (h : w.take 3 ∈ fenceMarks) :
    3 ≤ min w.length 4 - if w.getLast? = some '\r' then 1 else 0 := by
  have hmarks : ∀ m ∈ fenceMarks, m.length = 3 ∧ m.getLast? ≠ some '\r' := by decide
  have hlength := (hmarks _ h).1
  rw [List.length_take] at hlength
  by_cases hthree : w.length = 3
  · have hlast := (hmarks _ h).2
    rw [List.take_of_length_le hthree.le] at hlast
    rw [if_neg hlast]
    omega
  · split <;> omega

theorem finishLine_fence (fence : Option (List Char)) (w : List Char) :
    (inLine fence w).finishLine.fence = lfReading.after fence w := by
  cases fence with
  | none =>
    simp only [FilterState.finishLine, inLine, Reading.after, lfReading, decide_eq_true_eq]
    by_cases hmark : w.take 3 ∈ fenceMarks
    · rw [if_pos ⟨three_le_of_fenceMark hmark, hmark⟩, if_pos hmark]
    · rw [if_neg fun h => hmark h.2, if_neg hmark]
  | some fence => simp [FilterState.finishLine, inLine, Reading.after, lfReading]

@[simp] theorem held_nil (fence : Option (List Char)) : held fence [] = [] := by
  unfold held
  split <;> rfl

/-- Where nothing is held back, the next line begins afresh. -/
theorem finishLine_eq (hhidden : s.hidden = false) (hcandidate : s.candidate = [])
    (hcr : s.candidateCr = false) : s.finishLine = inLine s.finishLine.fence [] := by
  cases s
  simp_all [FilterState.finishLine, inLine]

theorem feedChar_lineFeed (hline : ¬ (fence = none ∧ lfReading.marker w = true)) :
    feedChar (inLine fence w) '\n' =
      (inLine (lfReading.after fence w) [], held fence w ++ ['\n']) := by
  have hfinish : { inLine fence w with candidate := [], candidateCr := false }.finishLine =
      inLine (lfReading.after fence w) [] := by
    rw [← finishLine_fence]
    exact finishLine_eq rfl rfl rfl
  have hnot : (inLine fence w).candidate ≠ marker := by
    intro hcandidate
    simp only [inLine] at hcandidate
    by_cases h : MayBeMarker fence w
    · rw [held, if_pos h] at hcandidate
      refine hline ⟨h.1, ?_⟩
      rcases h.2 with hpre | rfl
      · rw [List.take_of_length_le hpre.length_le] at hcandidate
        simp [lfReading, hcandidate]
      · simp [lfReading]
    · rw [held, if_neg h] at hcandidate
      cases hcandidate
  unfold feedChar
  rw [if_neg (by simp [inLine]), if_pos rfl]
  unfold feedLineFeed
  rw [if_neg hnot]
  by_cases h : MayBeMarker fence w
  · -- what is held back is a part of the marker
    have hheld : held fence w = w := if_pos h
    have hpre : w <+: marker := h.2.resolve_right fun heq =>
      hline ⟨h.1, by simp [lfReading, heq]⟩
    have htake : (inLine fence w).candidate = w := by
      simp only [inLine, hheld, List.take_of_length_le hpre.length_le]
    have hcr : (inLine fence w).candidateCr = false := by
      simp only [inLine, hheld, decide_eq_false (not_lt.mpr hpre.length_le)]
    by_cases hnil : w = []
    · rw [if_neg (not_not.mpr (htake.trans hnil)), hheld, ← finishLine_fence,
        finishLine_eq rfl (htake.trans hnil) hcr, hnil]
      rfl
    · rw [if_pos (by rwa [htake]), hfinish, htake, hcr, hheld]
      simp
  · have hheld : held fence w = [] := if_neg h
    have htake : (inLine fence w).candidate = [] := by simp only [inLine, hheld, List.take_nil]
    have hcr : (inLine fence w).candidateCr = false := by simp [inLine, hheld]
    rw [if_neg (not_not.mpr htake), hheld, ← finishLine_fence]
    exact Prod.ext (finishLine_eq rfl htake hcr) rfl

theorem feedChar_marker (hfence : fence = none) (hmarker : lfReading.marker w = true) :
    (feedChar (inLine fence w) '\n').1.hidden = true ∧ (feedChar (inLine fence w) '\n').2 = [] ∧
      released fence w = [] := by
  have hmay : MayBeMarker fence w := by
    refine ⟨hfence, ?_⟩
    simp only [lfReading, Bool.or_eq_true, decide_eq_true_eq] at hmarker
    rcases hmarker with rfl | hmarker
    · exact .inl List.prefix_rfl
    · exact .inr hmarker
  have hcandidate : (inLine fence w).candidate = marker := by
    simp only [inLine, held, if_pos hmay]
    simp only [lfReading, Bool.or_eq_true, decide_eq_true_eq] at hmarker
    rcases hmarker with rfl | rfl
    · exact List.take_of_length_le le_rfl
    · rw [List.take_append_of_le_length le_rfl, List.take_of_length_le le_rfl]
  unfold feedChar
  rw [if_neg (by simp [inLine]), if_pos rfl]
  unfold feedLineFeed
  rw [if_pos hcandidate]
  exact ⟨rfl, rfl, if_pos hmay⟩

/-! ### The whole reply -/

theorem feed_hidden (h : s.hidden = true) (text : List Char) : feed s text = (s, []) := by
  induction text with
  | nil => rfl
  | cons c text ih =>
    have hchar : feedChar s c = (s, []) := by
      unfold feedChar
      rw [if_pos h]
    simp only [feed, hchar, ih, List.append_nil]

theorem finish_inLine (fence : Option (List Char)) (w : List Char) :
    finish (inLine fence w) = held fence w := by
  have hheld : held fence w <+: marker ∨ held fence w = marker ++ ['\r'] := by
    unfold held
    split
    · next h => exact h.2
    · exact .inl List.nil_prefix
  rcases hheld with hpre | hreturn
  · have htake : (inLine fence w).candidate = held fence w :=
      List.take_of_length_le hpre.length_le
    have hcr : (inLine fence w).candidateCr = false :=
      decide_eq_false (not_lt.mpr hpre.length_le)
    unfold finish
    rw [htake, hcr]
    split
    · next h => exact (h.resolve_left (by simp [inLine])).symm
    · simp
  · have htake : (inLine fence w).candidate = marker := by
      simp only [inLine, hreturn]
      rw [List.take_append_of_le_length le_rfl, List.take_of_length_le le_rfl]
    have hcr : (inLine fence w).candidateCr = true := by simp [inLine, hreturn]
    unfold finish
    rw [htake, hcr, hreturn, if_neg fun h => h.elim Bool.noConfusion marker_ne_nil, if_pos rfl]

/-- What comes out of the rest of a reply, from the middle of a line. -/
theorem feed_inLine (text : List Char) (hw : '\n' ∉ w) :
    released fence w ++ ((feed (inLine fence w) text).2 ++
      finish (feed (inLine fence w) text).1) = visible fence (w ++ text) := by
  induction text generalizing fence w with
  | nil =>
    rw [feed, List.append_nil, visible_of_notMem hw, List.nil_append, finish_inLine,
      released_append_held]
  | cons c text ih =>
    by_cases hc : c = '\n'
    · subst hc
      by_cases hline : fence = none ∧ lfReading.marker w = true
      · obtain ⟨hhidden, hnone, hreleased⟩ := feedChar_marker hline.1 hline.2
        rw [visible_append_marker hw hline.1 hline.2, hreleased]
        simp only [feed, hnone, feed_hidden hhidden]
        simp [finish, hhidden]
      · have hrest := @ih [] (lfReading.after fence w) (by simp)
        have hreleased : released (lfReading.after fence w) [] = [] := by
          unfold released
          split <;> rfl
        rw [List.nil_append, hreleased, List.nil_append] at hrest
        rw [visible_append hw hline, ← hrest]
        simp only [feed, feedChar_lineFeed hline, List.append_assoc, List.cons_append,
          List.nil_append]
        rw [← List.append_assoc, released_append_held]
    · have hrest := @ih (w ++ [c]) fence (by simp [hw, Ne.symm hc])
      rw [List.append_assoc, List.singleton_append, released_concat] at hrest
      rw [← hrest]
      simp only [feed, feedChar_inLine hc, List.append_assoc]

theorem feed_append (s : FilterState) (text text' : List Char) :
    feed s (text ++ text') =
      ((feed (feed s text).1 text').1, (feed s text).2 ++ (feed (feed s text).1 text').2) := by
  induction text generalizing s with
  | nil => rfl
  | cons c text ih =>
    simp only [List.cons_append, feed, ih, List.append_assoc]

theorem feedChunks_eq (s : FilterState) (chunks : List (List Char)) :
    feedChunks s chunks = feed s chunks.flatten := by
  induction chunks generalizing s with
  | nil => rfl
  | cons chunk chunks ih => simp only [feedChunks, ih, List.flatten_cons, feed_append]

/-- **However the reply is cut, its visible part is streamed.** -/
theorem streamed_eq (chunks : List (List Char)) :
    streamed chunks = visible none chunks.flatten := by
  have hreleased : released none [] = [] := rfl
  have h := @feed_inLine [] none chunks.flatten (by simp)
  rw [hreleased, List.nil_append, List.nil_append, inLine_nil] at h
  rw [streamed, feedChunks_eq, h]

end Staff.Capsule
