import RunnerDashboard.Lib.PyStr

/-!
# Lines with their ends

The lines of a text together with what ends them, so that the text before a line can be named.

## Main definitions

* `Py.splitKeep` — the lines, each with what ends it.
* `Py.firstLines` — the text before a line.
* `Py.joinLines` — `"\n".join(lines)`.
* `Py.tidy` — a text with one kind of line end and without white space at its end.

## Main results

* `Py.map_fst_splitKeep`, `Py.textOf_splitKeep` — the lines and the text.
* `Py.splitLines_firstLines` — **the lines of the text before a line are those before it.**
* `Py.tidy_rstrip_joinLines` — lines that are joined are tidy.
* `Py.filter_tidy` — what is no white space stays.
-/

namespace Py

/-- `s.splitlines(keepends=True)`, each line with what ends it. -/
def splitKeep : List Char → List (List Char × List Char)
  | [] => []
  | '\r' :: '\n' :: s => ([], ['\r', '\n']) :: splitKeep s
  | c :: s =>
    if isLineBreak c then ([], [c]) :: splitKeep s
    else
      match splitKeep s with
      | [] => [([c], [])]
      | (l, e) :: ls => (c :: l, e) :: ls

def textOf (lines : List (List Char × List Char)) : List Char := lines.flatMap fun l => l.1 ++ l.2

def firstLines (n : ℕ) (s : List Char) : List Char := textOf ((splitKeep s).take n)

/-- `s.rstrip()`. -/
def rstrip (s : List Char) : List Char := s.rdropWhile isSpace

/-- `"\n".join(lines)`. -/
def joinLines (lines : List (List Char)) : List Char := ['\n'].intercalate lines

/-- One kind of line end, and no white space at the end. -/
def tidy (s : List Char) : List Char := rstrip (joinLines (splitLines s))

variable {c : Char} {s : List Char} {n : ℕ} {lines : List (List Char)}

@[simp] theorem textOf_nil : textOf [] = [] := rfl

@[simp] theorem textOf_cons (l : List Char × List Char) (ls : List (List Char × List Char)) :
    textOf (l :: ls) = l.1 ++ l.2 ++ textOf ls := rfl

theorem splitLines_break (h : isLineBreak c = true) (hcr : ∀ t, c = '\r' → s ≠ '\n' :: t) :
    splitLines (c :: s) = [] :: splitLines s := by
  rw [splitLines, if_pos h]
  intro t hc hs
  exact hcr t hc hs

theorem splitKeep_break (h : isLineBreak c = true) (hcr : ∀ t, c = '\r' → s ≠ '\n' :: t) :
    splitKeep (c :: s) = ([], [c]) :: splitKeep s := by
  rw [splitKeep, if_pos h]
  intro t hc hs
  exact hcr t hc hs

theorem splitKeep_cons (h : isLineBreak c = false) (s : List Char) :
    splitKeep (c :: s) =
      match splitKeep s with
      | [] => [([c], [])]
      | (l, e) :: ls => (c :: l, e) :: ls := by
  have hc : c ≠ '\r' := by
    rintro rfl
    cases h
  rw [splitKeep, h]
  · rfl
  · rintro s rfl
    exact absurd rfl hc

/-- How a text begins: not at all, with a line end of two characters, with another line end, or
with a character of a line. -/
theorem lines_induction {P : List Char → Prop} (nil : P [])
    (crlf : ∀ s, P s → P ('\r' :: '\n' :: s))
    (ended : ∀ c s, isLineBreak c = true → (∀ t, c = '\r' → s ≠ '\n' :: t) → P s → P (c :: s))
    (cons : ∀ c s, isLineBreak c = false → P s → P (c :: s)) (s : List Char) : P s := by
  fun_induction splitLines s with
  | case1 => exact nil
  | case2 s ih => exact crlf s ih
  | case3 c s hcr hc ih => exact ended c s hc (fun t h h' => hcr t h h') ih
  | case4 c s hcr hc hnil ih => exact cons c s (Bool.eq_false_iff.mpr hc) ih
  | case5 c s hcr hc l ls hls ih => exact cons c s (Bool.eq_false_iff.mpr hc) ih

theorem map_fst_splitKeep (s : List Char) : (splitKeep s).map Prod.fst = splitLines s := by
  induction s using lines_induction with
  | nil => rfl
  | crlf s ih => simp [splitKeep, splitLines, ih]
  | ended c s hc hcr ih => rw [splitKeep_break hc hcr, splitLines_break hc hcr, List.map_cons, ih]
  | cons c s hc ih =>
    rw [splitKeep_cons hc, splitLines_cons hc, ← ih]
    cases splitKeep s <;> rfl

@[simp] theorem textOf_splitKeep (s : List Char) : textOf (splitKeep s) = s := by
  induction s using lines_induction with
  | nil => rfl
  | crlf s ih => simp [splitKeep, ih]
  | ended c s hc hcr ih => simp [splitKeep_break hc hcr, ih]
  | cons c s hc ih =>
    rw [splitKeep_cons hc]
    cases h : splitKeep s with
    | nil =>
      rw [h] at ih
      simp [← ih]
    | cons l ls =>
      rw [h] at ih
      simp [← ih]

theorem isLineBreak_of_mem_splitLines {l : List Char} (hl : l ∈ splitLines s) :
    ∀ c ∈ l, isLineBreak c = false := by
  induction s using lines_induction generalizing l with
  | nil => cases hl
  | crlf s ih =>
    rcases List.mem_cons.mp hl with rfl | hl
    · simp
    · exact ih hl
  | ended c s hc hcr ih =>
    rw [splitLines_break hc hcr] at hl
    rcases List.mem_cons.mp hl with rfl | hl
    · simp
    · exact ih hl
  | cons c s hc ih =>
    rw [splitLines_cons hc] at hl
    cases hs : splitLines s with
    | nil =>
      rw [hs] at hl
      obtain rfl := List.mem_singleton.mp hl
      simpa using hc
    | cons l' ls =>
      rw [hs] at hl ih
      rcases List.mem_cons.mp hl with rfl | hl
      · exact List.forall_mem_cons.mpr ⟨hc, ih (List.mem_cons_self ..)⟩
      · exact ih (List.mem_cons_of_mem _ hl)

/-! ### The text before a line -/

theorem firstLines_prefix (n : ℕ) (s : List Char) : firstLines n s <+: s := by
  refine ⟨textOf ((splitKeep s).drop n), ?_⟩
  rw [firstLines, textOf, textOf, ← List.flatMap_append, List.take_append_drop]
  exact textOf_splitKeep s

@[simp] theorem firstLines_zero (s : List Char) : firstLines 0 s = [] := rfl

theorem firstLines_break (h : isLineBreak c = true) (hcr : ∀ t, c = '\r' → s ≠ '\n' :: t) :
    firstLines (n + 1) (c :: s) = c :: firstLines n s := by
  simp [firstLines, splitKeep_break h hcr]

theorem firstLines_cons (h : isLineBreak c = false) :
    firstLines (n + 1) (c :: s) = c :: firstLines (n + 1) s := by
  unfold firstLines
  rw [splitKeep_cons h]
  cases splitKeep s <;> simp

/-- **The lines of the text before a line are those before it.** -/
theorem splitLines_firstLines (n : ℕ) (s : List Char) :
    splitLines (firstLines n s) = (splitLines s).take n := by
  induction s using lines_induction generalizing n with
  | nil => simp [firstLines, splitKeep, splitLines]
  | crlf s ih =>
    cases n with
    | zero => rfl
    | succ n =>
      have := ih n
      simpa [firstLines, splitKeep, splitLines] using this
  | ended c s hc hcr ih =>
    cases n with
    | zero => rfl
    | succ n =>
      rw [firstLines_break hc hcr, splitLines_break hc, splitLines_break hc hcr,
        List.take_succ_cons, ih]
      intro t hr ht
      -- what is left of the text begins as the text does
      obtain ⟨rest, hrest⟩ := firstLines_prefix n s
      rw [ht] at hrest
      exact hcr (t ++ rest) hr hrest.symm
  | cons c s hc ih =>
    cases n with
    | zero => rfl
    | succ n =>
      rw [firstLines_cons hc, splitLines_cons hc, splitLines_cons hc, ih]
      cases splitLines s <;> simp

/-! ### Tidy texts -/

theorem isSpace_of_isLineBreak (h : isLineBreak c = true) : isSpace c = true := by
  unfold isLineBreak at h
  unfold isSpace
  simp only [Bool.or_eq_true, Bool.and_eq_true, decide_eq_true_eq, beq_iff_eq] at h ⊢
  omega

@[simp] theorem joinLines_nil : joinLines [] = [] := rfl

theorem joinLines_cons (l : List Char) (ls : List (List Char)) :
    joinLines (l :: ls) = if ls = [] then l else l ++ '\n' :: joinLines ls := by
  cases ls with
  | nil => simp [joinLines]
  | cons l' ls => simp [joinLines, List.intercalate]

theorem rstrip_rstrip (s : List Char) : rstrip (rstrip s) = rstrip s :=
  List.rdropWhile_idempotent isSpace s

/-- A text with plain line ends is its lines, if it does not end with one. -/
theorem joinLines_splitLines {s : List Char} (h : ∀ c ∈ s, isLineBreak c = true → c = '\n')
    (hlast : s.getLast? ≠ some '\n') : joinLines (splitLines s) = s := by
  induction s using lines_induction with
  | nil => rfl
  | crlf s ih => exact absurd (h '\r' (List.mem_cons_self ..) rfl) (by decide)
  | ended c s hc hcr ih =>
    obtain rfl := h c (List.mem_cons_self ..) hc
    have hne : s ≠ [] := by
      rintro rfl
      exact hlast rfl
    have hlast' : s.getLast? ≠ some '\n' := by rwa [List.getLast?_cons_of_ne_nil hne] at hlast
    rw [splitLines_newline, joinLines_cons,
      ih (fun c hc => h c (List.mem_cons_of_mem _ hc)) hlast', if_neg, List.nil_append]
    intro hnil
    have := textOf_splitKeep s
    rw [List.map_eq_nil_iff.mp ((map_fst_splitKeep s).trans hnil)] at this
    exact hne this.symm
  | cons c s hc ih =>
    rw [splitLines_cons hc]
    by_cases hne : s = []
    · rw [hne]
      rfl
    · have hlast' : s.getLast? ≠ some '\n' := by rwa [List.getLast?_cons_of_ne_nil hne] at hlast
      have hs := ih (fun c hc => h c (List.mem_cons_of_mem _ hc)) hlast'
      cases hlines : splitLines s with
      | nil =>
        rw [hlines] at hs
        exact absurd hs.symm hne
      | cons l ls =>
        rw [hlines] at hs
        dsimp only
        rw [joinLines_cons] at hs ⊢
        split_ifs at hs ⊢
        · rw [hs]
        · rw [List.cons_append, hs]

theorem isLineBreak_joinLines (h : ∀ l ∈ lines, ∀ c ∈ l, isLineBreak c = false) :
    ∀ c ∈ joinLines lines, isLineBreak c = true → c = '\n' := by
  induction lines with
  | nil => simp
  | cons l ls ih =>
    intro c hc hbreak
    have hl : c ∉ l := fun hmem => by
      rw [h l (List.mem_cons_self ..) c hmem] at hbreak
      cases hbreak
    rw [joinLines_cons] at hc
    split at hc
    · exact absurd hc hl
    · rcases List.mem_append.mp hc with hc | hc
      · exact absurd hc hl
      · rcases List.mem_cons.mp hc with hc | hc
        · exact hc
        · exact ih (fun l hl => h l (List.mem_cons_of_mem _ hl)) c hc hbreak

/-- **Lines that are joined are tidy.** -/
theorem tidy_rstrip_joinLines (h : ∀ l ∈ lines, ∀ c ∈ l, isLineBreak c = false) :
    tidy (rstrip (joinLines lines)) = rstrip (joinLines lines) := by
  unfold tidy
  rw [joinLines_splitLines, rstrip_rstrip]
  · intro c hc
    exact isLineBreak_joinLines h c ((List.rdropWhile_prefix isSpace _).subset hc)
  · intro hlast
    have hne : rstrip (joinLines lines) ≠ [] := by
      intro hnil
      rw [hnil] at hlast
      cases hlast
    have hspace : ¬ isSpace ((rstrip (joinLines lines)).getLast hne) = true :=
      List.rdropWhile_last_not isSpace (joinLines lines) hne
    rw [List.getLast?_eq_some_getLast hne] at hlast
    rw [Option.some.inj hlast] at hspace
    exact hspace rfl

theorem tidy_firstLines (n : ℕ) (s : List Char) :
    tidy (firstLines n s) = rstrip (joinLines ((splitLines s).take n)) := by
  rw [tidy, splitLines_firstLines]

theorem filter_rstrip (s : List Char) :
    (rstrip s).filter (fun c => !isSpace c) = s.filter fun c => !isSpace c := by
  induction s using List.reverseRecOn with
  | nil => rfl
  | append_singleton s c ih =>
    unfold rstrip at ih ⊢
    by_cases hc : isSpace c = true
    · rw [List.rdropWhile_concat_pos _ _ _ hc, ih, List.filter_append]
      simp [hc]
    · rw [List.rdropWhile_concat_neg _ _ _ hc]

theorem filter_joinLines_splitLines (s : List Char) :
    (joinLines (splitLines s)).filter (fun c => !isSpace c) = s.filter fun c => !isSpace c := by
  have hjoin : ∀ l ls, (joinLines (l :: ls)).filter (fun c => !isSpace c) =
      l.filter (fun c => !isSpace c) ++ (joinLines ls).filter fun c => !isSpace c := by
    intro l ls
    rw [joinLines_cons]
    split
    · next hnil => simp [hnil]
    · rw [List.filter_append, List.filter_cons_of_neg (by decide)]
  induction s using lines_induction with
  | nil => rfl
  | crlf s ih =>
    rw [splitLines, hjoin, ih]
    simp [show isSpace '\r' = true by decide, show isSpace '\n' = true by decide]
  | ended c s hc hcr ih =>
    rw [splitLines_break hc hcr, hjoin, ih]
    simp [isSpace_of_isLineBreak hc]
  | cons c s hc ih =>
    rw [splitLines_cons hc]
    cases hlines : splitLines s with
    | nil =>
      rw [hlines] at ih
      rw [hjoin, ih]
      by_cases hspace : isSpace c = true <;> simp [hspace]
    | cons l ls =>
      rw [hlines, hjoin] at ih
      rw [hjoin, List.filter_cons, List.filter_cons, ← ih]
      split <;> simp

/-- **What is no white space stays.** -/
theorem filter_tidy (s : List Char) :
    (tidy s).filter (fun c => !isSpace c) = s.filter fun c => !isSpace c := by
  rw [tidy, filter_rstrip, filter_joinLines_splitLines]

end Py
