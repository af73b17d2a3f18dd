import Mathlib.Data.List.DropRight
import Mathlib.Tactic.IntervalCases

/-!
# Python strings

The string methods the modelled programs call: `str.strip` without an argument,
the test `not s.strip()` by which a program refuses a blank argument, and the
methods on prefixes.

## Main definitions

* `Py.isSpace` — the characters `str.isspace` accepts.
* `Py.strip` — `str.strip()`.
* `Py.startsWith`, `Py.removePrefix` — `str.startswith(p)` and `str.removeprefix(p)`.
* `Py.after?`, `Py.contains` — `s.split(sep, 1)[1]` and `sep in s`.
* `Py.lower` — `str.lower()`.
* `Py.splitOnce`, `Py.splitSpaces` — `s.split(c, 1)` for one character, and `s.split()`.
* `Py.stripChar`, `Py.splitLines` — `s.strip(c)` for one character, and `s.splitlines()`.

## Main results

* `Py.strip_eq_empty_iff` — a string strips to nothing exactly when every
  character of it is white space.
* `Py.strip_strip` — stripping twice is stripping once.
* `Py.splitOnce_eq_some_iff` — where a text is cut.
* `Py.splitLines_append_newline` — a line that is ended is the first one.
-/

namespace Py

/-- The characters `str.isspace` accepts. -/
def isSpace (c : Char) : Bool :=
  let n := c.toNat
  (9 ≤ n && n ≤ 13) || (28 ≤ n && n ≤ 32) || n == 0x85 || n == 0xA0 || n == 0x1680 ||
    (0x2000 ≤ n && n ≤ 0x200A) || n == 0x2028 || n == 0x2029 || n == 0x202F || n == 0x205F ||
    n == 0x3000

/-- `str.strip()` on the characters of a string. -/
def stripChars (l : List Char) : List Char := (l.dropWhile isSpace).rdropWhile isSpace

/-- `str.strip()`. -/
def strip (s : String) : String := String.ofList (stripChars s.toList)

/-- `s.startswith(p)`. -/
def startsWith (s p : String) : Bool := p.toList.isPrefixOf s.toList

/-- `s.removeprefix(p)`. -/
def removePrefix (s p : String) : String :=
  if startsWith s p then String.ofList (s.toList.drop p.toList.length) else s

/-- `s.strip(c)` for one character. -/
def stripChar (c : Char) (l : List Char) : List Char := (l.dropWhile (· = c)).rdropWhile (· = c)

/-- A character that ends a line for `str.splitlines`. -/
def isLineBreak (c : Char) : Bool :=
  let n := c.toNat
  (10 ≤ n && n ≤ 13) || (28 ≤ n && n ≤ 30) || n == 0x85 || n == 0x2028 || n == 0x2029

/-- `s.splitlines()`. -/
def splitLines : List Char → List (List Char)
  | [] => []
  | '\r' :: '\n' :: s => [] :: splitLines s
  | c :: s =>
    if isLineBreak c then [] :: splitLines s
    else
      match splitLines s with
      | [] => [[c]]
      | l :: ls => (c :: l) :: ls

/-- The characters after the first occurrence of `sep`. -/
def afterChars (sep : List Char) : List Char → Option (List Char)
  | [] => if sep = [] then some [] else none
  | c :: s =>
    if sep.isPrefixOf (c :: s) then some ((c :: s).drop sep.length) else afterChars sep s

/-- `s.split(sep, 1)[1]`, if `sep` occurs. -/
def after? (sep s : String) : Option String := (afterChars sep.toList s.toList).map String.ofList

/-- `sep in s`. -/
def contains (sep s : String) : Bool := (afterChars sep.toList s.toList).isSome

/-- `c.lower()`; the Kelvin sign is the one character above ASCII whose lower case is in ASCII. -/
def lowerChar (c : Char) : Char := if c.toNat = 0x212A then 'k' else c.toLower

/-- A character is its own lower case, or its lower case is a letter. -/
theorem lowerChar_eq_or (c : Char) : lowerChar c = c ∨ (lowerChar c).isLower = true := by
  unfold lowerChar
  split_ifs with hkelvin
  · exact .inr rfl
  · by_cases hupper : 65 ≤ c.toNat ∧ c.toNat ≤ 90
    · have hall : ∀ n, 65 ≤ n → n ≤ 90 → (Char.ofNat n).toLower.isLower = true := by
        intro n hlo hhi
        interval_cases n <;> rfl
      rw [← Char.ofNat_toNat c]
      exact .inr (hall c.toNat hupper.1 hupper.2)
    · refine .inl (dif_neg fun h => hupper ?_)
      exact ⟨UInt32.le_iff_toNat_le.mp h.1, UInt32.le_iff_toNat_le.mp h.2⟩

/-- `c.lower()` as a text: a dotted capital I is two characters. -/
def lowerChars (c : Char) : List Char :=
  if c.toNat = 0x130 then ['i', Char.ofNat 0x307] else [lowerChar c]

/-- `s.lower()`, for a comparison with a word of ASCII or a search for one; where two texts are
compared, it is a parameter. -/
def lower (s : String) : String := String.ofList (s.toList.flatMap lowerChars)

/-- `s.split(c, 1)`, if `c` occurs. -/
def splitOnce (c : Char) (l : List Char) : Option (List Char × List Char) :=
  if c ∈ l then some (l.takeWhile (· ≠ c), (l.dropWhile (· ≠ c)).tail) else none

/-- `s.split()`. -/
def splitSpaces (l : List Char) : List (List Char) := (l.splitOnP isSpace).filter (· ≠ [])

theorem isSome_afterChars_iff {sep s : List Char} :
    (afterChars sep s).isSome = true ↔ sep <:+: s := by
  induction s with
  | nil =>
    rw [afterChars, List.infix_nil]
    split_ifs with h
    · exact iff_of_true rfl h
    · exact iff_of_false Bool.false_ne_true h
  | cons c s ih =>
    rw [afterChars, List.infix_cons_iff]
    split_ifs with h
    · exact iff_of_true rfl (.inl (List.isPrefixOf_iff_prefix.mp h))
    · rw [ih]
      exact (or_iff_right fun hstart => h (List.isPrefixOf_iff_prefix.mpr hstart)).symm

theorem contains_iff {sep s : String} : contains sep s = true ↔ sep.toList <:+: s.toList :=
  isSome_afterChars_iff

/-- A text that does not have a character is not found across it. -/
theorem infix_append_cons_iff {x a b : List Char} {d : Char} (hd : d ∉ x) :
    x <:+: a ++ d :: b ↔ x <:+: a ∨ x <:+: b := by
  have hstart : ∀ y, y ≠ [] → y <+: d :: b → d ∈ y := by
    intro y hy hpre
    cases y with
    | nil => exact absurd rfl hy
    | cons c y => exact (List.cons_prefix_cons.mp hpre).1 ▸ List.mem_cons_self
  constructor
  · intro h
    rcases List.infix_append_iff_ne_nil.mp h with ha | hb | ⟨l₁, l₂, -, hne, rfl, -, hpre⟩
    · exact .inl ha
    · rcases List.infix_cons_iff.mp hb with hpre | hb
      · by_cases hx : x = []
        · exact .inl (hx ▸ List.nil_infix)
        · exact absurd (hstart x hx hpre) hd
      · exact .inr hb
    · exact absurd (List.mem_append_right l₁ (hstart l₂ hne hpre)) hd
  · rintro (ha | hb)
    · exact List.infix_append_of_infix_left ha
    · exact List.infix_append_of_infix_right (hb.trans (List.suffix_cons d b).isInfix)

theorem afterChars_append {sep s : List Char} (h : sep ≠ []) :
    afterChars sep (sep ++ s) = some s := by
  obtain ⟨c, sep, rfl⟩ := List.exists_cons_of_ne_nil h
  rw [List.cons_append, afterChars, if_pos]
  · rw [← List.cons_append, List.drop_left]
  · rw [← List.cons_append]
    exact List.isPrefixOf_iff_prefix.mpr (List.prefix_append _ _)

theorem stripChars_eq_nil_iff {l : List Char} : stripChars l = [] ↔ ∀ c ∈ l, isSpace c := by
  constructor
  · intro h
    have hdrop : l.dropWhile isSpace = [] := by
      cases hd : l.dropWhile isSpace with
      | nil => rfl
      | cons c cs =>
        -- the first character left is no white space, so the right end cannot reach it
        have hc : isSpace c = false := by
          have := List.head_dropWhile_not isSpace (l := l) (by simp [hd])
          simpa [hd] using this
        rw [stripChars, List.rdropWhile_eq_nil_iff] at h
        have := h c (by simp [hd])
        rw [hc] at this
        exact absurd this (by decide)
    exact List.dropWhile_eq_nil_iff.mp hdrop
  · intro h
    rw [stripChars, List.dropWhile_eq_nil_iff.mpr h]
    rfl

theorem strip_eq_empty_iff {s : String} : strip s = "" ↔ ∀ c ∈ s.toList, isSpace c := by
  rw [← stripChars_eq_nil_iff, strip, String.ofList_eq_empty_iff]

theorem stripChars_head {l cs : List Char} {c : Char} (h : stripChars l = c :: cs) :
    isSpace c = false := by
  obtain ⟨t, ht⟩ : stripChars l <+: l.dropWhile isSpace := List.rdropWhile_prefix isSpace _
  rw [h, List.cons_append] at ht
  have hhead := List.head_dropWhile_not isSpace (l := l) (by rw [← ht]; simp)
  simpa [← ht] using hhead

theorem stripChars_stripChars (l : List Char) : stripChars (stripChars l) = stripChars l := by
  have hdrop : (stripChars l).dropWhile isSpace = stripChars l := by
    cases hs : stripChars l with
    | nil => rfl
    | cons c cs => simp [stripChars_head hs]
  conv_lhs => rw [stripChars, hdrop]
  rw [stripChars, List.rdropWhile_idempotent]

theorem stripChars_last {l cs : List Char} {c : Char} (h : stripChars l = cs ++ [c]) :
    isSpace c = false := by
  rw [stripChars] at h
  have hlast := List.rdropWhile_last_not isSpace (l.dropWhile isSpace) (by rw [h]; simp)
  simpa [h] using hlast

theorem stripChars_append_spaces (l : List Char) {w : List Char} (hw : ∀ c ∈ w, isSpace c = true) :
    stripChars (l ++ w) = stripChars l := by
  by_cases hl : ∀ c ∈ l, isSpace c = true
  · rw [stripChars_eq_nil_iff.mpr hl, stripChars_eq_nil_iff]
    intro c hc
    rcases List.mem_append.mp hc with hc | hc
    · exact hl c hc
    · exact hw c hc
  · have hdrop : (l ++ w).dropWhile isSpace = l.dropWhile isSpace ++ w := by
      rw [List.dropWhile_append, if_neg]
      intro hempty
      exact hl (List.dropWhile_eq_nil_iff.mp (List.isEmpty_iff.mp hempty))
    rw [stripChars, stripChars, hdrop]
    clear hdrop
    induction w using List.reverseRecOn with
    | nil => rw [List.append_nil]
    | append_singleton w c ih =>
      rw [← List.append_assoc, List.rdropWhile_concat_pos _ _ _ (hw c (by simp))]
      exact ih fun d hd => hw d (List.mem_append_left _ hd)

theorem stripChars_spaces_append {w : List Char} (hw : ∀ c ∈ w, isSpace c = true) (l : List Char) :
    stripChars (w ++ l) = stripChars l := by
  rw [stripChars, stripChars, List.dropWhile_append_of_pos hw]

/-- A text that neither starts nor ends with white space is stripped already. -/
theorem stripChars_eq_self {l : List Char} (hhead : ∀ c cs, l = c :: cs → isSpace c = false)
    (hlast : ∀ cs c, l = cs ++ [c] → isSpace c = false) : stripChars l = l := by
  have hdrop : l.dropWhile isSpace = l := by
    cases l with
    | nil => rfl
    | cons c cs => rw [List.dropWhile_cons, hhead c cs rfl]; rfl
  rw [stripChars, hdrop]
  rcases List.eq_nil_or_concat l with rfl | ⟨cs, c, rfl⟩
  · rfl
  · rw [List.concat_eq_append, List.rdropWhile_concat_neg]
    rw [hlast cs c List.concat_eq_append]
    decide

/-- There is nothing to strip from a text without white space. -/
theorem stripChars_of_forall {l : List Char} (h : ∀ c ∈ l, isSpace c = false) :
    stripChars l = l := by
  apply stripChars_eq_self
  · rintro c cs rfl
    exact h c List.mem_cons_self
  · rintro cs c rfl
    exact h c (List.mem_append_right _ List.mem_cons_self)

/-- A text that neither starts nor ends with the character has nothing to strip. -/
theorem stripChar_eq_self {c : Char} {l : List Char} (hhead : ∀ d cs, l = d :: cs → d ≠ c)
    (hlast : ∀ cs d, l = cs ++ [d] → d ≠ c) : stripChar c l = l := by
  have hdrop : l.dropWhile (· = c) = l := by
    cases l with
    | nil => rfl
    | cons d cs => rw [List.dropWhile_cons_of_neg (by simpa using hhead d cs rfl)]
  rw [stripChar, hdrop]
  rcases List.eq_nil_or_concat l with rfl | ⟨cs, d, rfl⟩
  · rfl
  · rw [List.concat_eq_append, List.rdropWhile_concat_neg]
    simpa using hlast cs d List.concat_eq_append

/-! ### Lines -/

theorem splitLines_cons {c : Char} (h : isLineBreak c = false) (s : List Char) :
    splitLines (c :: s) =
      match splitLines s with
      | [] => [[c]]
      | l :: ls => (c :: l) :: ls := by
  have hc : c ≠ '\r' := by
    rintro rfl
    cases h
  rw [splitLines, h]
  · rfl
  · rintro s rfl
    exact absurd rfl hc

theorem splitLines_newline (s : List Char) : splitLines ('\n' :: s) = [] :: splitLines s := rfl

theorem splitLines_append_newline {l : List Char} (h : ∀ c ∈ l, isLineBreak c = false)
    (s : List Char) : splitLines (l ++ '\n' :: s) = l :: splitLines s := by
  induction l with
  | nil => exact splitLines_newline s
  | cons c l ih =>
    obtain ⟨hc, hl⟩ := List.forall_mem_cons.mp h
    rw [List.cons_append, splitLines_cons hc, ih hl]

theorem splitLines_of_forall {l : List Char} (h : ∀ c ∈ l, isLineBreak c = false) (hne : l ≠ []) :
    splitLines l = [l] := by
  induction l with
  | nil => exact absurd rfl hne
  | cons c l ih =>
    obtain ⟨hc, hl⟩ := List.forall_mem_cons.mp h
    rw [splitLines_cons hc]
    cases l with
    | nil => rfl
    | cons d l => rw [ih hl (by simp)]

theorem strip_strip (s : String) : strip (strip s) = strip s := by
  rw [strip, strip, String.toList_ofList, stripChars_stripChars]

/-- A string that neither starts nor ends with white space is stripped already. -/
theorem strip_eq_self {c d : Char} {l : List Char} (hc : isSpace c = false)
    (hd : isSpace d = false) : strip (String.ofList (c :: (l ++ [d]))) =
      String.ofList (c :: (l ++ [d])) := by
  have h : stripChars (c :: (l ++ [d])) = c :: (l ++ [d]) := by
    rw [stripChars, List.dropWhile_cons, hc]
    simp only [Bool.false_eq_true, if_false]
    rw [← List.cons_append, List.rdropWhile_concat_neg]
    simp [hd]
  rw [strip, String.toList_ofList, h]

theorem isSpace_eq_false {c : Char} (h : 33 ≤ c.toNat) (h' : c.toNat < 133) :
    isSpace c = false := by
  simp only [isSpace, Bool.or_eq_false_iff, Bool.and_eq_false_iff, decide_eq_false_iff_not,
    beq_eq_false_iff_ne]
  omega

/-- A text without white space, after one that starts with none. -/
theorem strip_append {p s : String} {c : Char} {cs : List Char} (hp : p.toList = c :: cs)
    (hc : isSpace c = false) (hne : s.toList ≠ []) (hs : ∀ d ∈ s.toList, isSpace d = false) :
    strip (p ++ s) = p ++ s := by
  have hlist : p ++ s =
      String.ofList (c :: ((cs ++ s.toList.dropLast) ++ [s.toList.getLast hne])) := by
    apply String.toList_inj.mp
    rw [List.append_assoc, List.dropLast_append_getLast, String.toList_append,
      String.toList_ofList, hp, List.cons_append]
  rw [hlist]
  exact strip_eq_self hc (hs _ (List.getLast_mem hne))

/-! ### Splitting -/

theorem splitOnce_eq_none_iff {c : Char} {l : List Char} : splitOnce c l = none ↔ c ∉ l := by
  unfold splitOnce
  split_ifs with h
  · exact iff_of_false nofun (not_not_intro h)
  · exact iff_of_true rfl h

theorem splitOnce_append {c : Char} {a b : List Char} (h : c ∉ a) :
    splitOnce c (a ++ c :: b) = some (a, b) := by
  have ha : ∀ d ∈ a, decide (d ≠ c) = true := by
    rintro d hd
    exact decide_eq_true fun heq => h (heq ▸ hd)
  rw [splitOnce, if_pos (List.mem_append_right a List.mem_cons_self),
    List.takeWhile_append_of_pos ha, List.dropWhile_append_of_pos ha]
  simp

theorem splitOnce_eq_some_iff {c : Char} {l a b : List Char} :
    splitOnce c l = some (a, b) ↔ l = a ++ c :: b ∧ c ∉ a := by
  constructor
  · intro h
    have hmem : c ∈ l := by
      by_contra hmem
      rw [splitOnce_eq_none_iff.mpr hmem] at h
      cases h
    -- the first occurrence cuts the text
    obtain ⟨a', b', rfl, ha'⟩ := List.eq_append_cons_of_mem hmem
    rw [splitOnce_append ha'] at h
    obtain ⟨rfl, rfl⟩ := Prod.mk.inj (Option.some.inj h)
    exact ⟨rfl, ha'⟩
  · rintro ⟨rfl, ha⟩
    exact splitOnce_append ha

/-- The parts of a text are made of its characters, without the separators. -/
theorem mem_of_mem_splitOnP {p : Char → Bool} {l part : List Char} (h : part ∈ l.splitOnP p)
    {c : Char} (hc : c ∈ part) : c ∈ l ∧ p c = false := by
  induction l generalizing part with
  | nil =>
    rw [List.splitOnP_nil] at h
    obtain rfl := List.mem_singleton.mp h
    exact absurd hc List.not_mem_nil
  | cons d l ih =>
    rw [List.splitOnP_cons_eq_if_modifyHead] at h
    split_ifs at h with hd
    · rcases List.mem_cons.mp h with rfl | h
      · exact absurd hc List.not_mem_nil
      · exact ⟨List.mem_cons_of_mem d (ih h hc).1, (ih h hc).2⟩
    · obtain ⟨first, rest, hsplit⟩ := List.exists_cons_of_ne_nil (List.splitOnP_ne_nil p l)
      rw [hsplit, List.modifyHead_cons] at h
      rcases List.mem_cons.mp h with rfl | h
      · rcases List.mem_cons.mp hc with rfl | hc
        · exact ⟨List.mem_cons_self, Bool.eq_false_iff.mpr hd⟩
        · have hfirst := ih (hsplit ▸ List.mem_cons_self) hc
          exact ⟨List.mem_cons_of_mem d hfirst.1, hfirst.2⟩
      · have hrest := ih (hsplit ▸ List.mem_cons_of_mem first h) hc
        exact ⟨List.mem_cons_of_mem d hrest.1, hrest.2⟩

theorem isSpace_of_mem_splitSpaces {l part : List Char} (h : part ∈ splitSpaces l) {c : Char}
    (hc : c ∈ part) : isSpace c = false :=
  (mem_of_mem_splitOnP (List.mem_of_mem_filter h) hc).2

end Py
