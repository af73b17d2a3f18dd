import RunnerDashboard.Lib.Marks
import RunnerDashboard.Lib.Regex
import RunnerDashboard.PrivateMode.TranscriptStore

/-!
# The classification spans of a shared text

Output of a private role is wrapped in a span that names its level.  Before a text reaches a shared
surface `gate_text` resolves its spans: a `PUBLIC` value stays, any other one is withheld, and a
text with a marker that is no part of such a span is withheld as a whole.

A text that is not malformed is a list of pieces: strings outside of the spans, and the spans.

## Main results

* `gateText_render` — what the gate makes of the pieces.
* `gateText_congr` — withheld values do not matter.
-/

namespace Staff

open TranscriptStore (Level)
open Marks Regex

/-! ### The patterns -/

def placeholder : List Char := "[private content withheld]".toList

def malformedPlaceholder : List Char :=
  "[private content withheld: malformed classification tag]".toList

def tagPrefix : List Char := "<<PRIVATE:".toList

def tagSuffix : List Char := ">>".toList

def closeTag : List Char := "<<END_PRIVATE>>".toList

/-- A character with `re.IGNORECASE`; a dotted and a dotless `i` are an `i`. -/
def foldCase (c : Char) : Char := if c = 'İ' ∨ c = 'ı' then 'i' else Py.lowerChar c

/-- A word at the beginning of a text, with `re.IGNORECASE`. -/
def startsFold (word s : List Char) : Bool := word.isPrefixOf (s.map foldCase)

/-- `[_\s-]`. -/
def isJoint (c : Char) : Bool := c = '_' || Py.isSpace c || c = '-'

/-- `\s*(?:END[_\s-]*)?PRIVATE` at the beginning of a text. -/
def namesPrivate (s : List Char) : Bool :=
  let s := s.dropWhile Py.isSpace
  startsFold "private".toList s ||
    startsFold "end".toList s && startsFold "private".toList ((s.drop 3).dropWhile isJoint)

/-- `_ANY_MARKER_RE` at the beginning of a text. -/
def anyMarker : List Char → Bool
  | '<' :: '<' :: s => namesPrivate s
  | _ => false

/-- `[A-Za-z_]`. -/
def isHeaderChar (c : Char) : Bool := ('A' ≤ c && c ≤ 'Z') || ('a' ≤ c && c ≤ 'z') || c = '_'

/-- `_STRICT_OPEN_RE` at the beginning of a text, with the name of a level: the level, and the text
after the tag. -/
def openTag (s : List Char) : Option (Level × List Char) := do
  let header ← dropText tagPrefix s
  let name := header.takeWhile isHeaderChar
  if name = [] then none
  else do
    let rest ← dropText tagSuffix (header.dropWhile isHeaderChar)
    let level ← Level.ofName? (String.ofList name)
    some (level, rest)

def tag (value : List Char) (level : Level) : Except String (List Char) :=
  if tagPrefix <:+: value ∨ closeTag <:+: value ∨ (cut anyMarker value).isSome then
    .error "private_surface_gate.tag: value must not contain gate delimiters"
  else .ok (tagPrefix ++ (level.name.toList ++ (tagSuffix ++ (value ++ closeTag))))

/-! ### The gate -/

/-- The span at a marker: its level, its value, and the text after it. -/
def nextSpan (s : List Char) : Option (Level × List Char × List Char) := do
  let (level, afterOpen) ← openTag s
  let (inner, closing) ← cut anyMarker afterOpen
  let rest ← dropText closeTag closing
  some (level, inner, rest)

def tagged (level : Level) (value : List Char) : List Char :=
  tagPrefix ++ (level.name.toList ++ (tagSuffix ++ (value ++ closeTag)))

variable {s t inner rest value x : List Char} {level : Level} {c : Char}

/-! ### Markers -/

theorem dropWhile_append_cons {p : Char → Bool} (hc : p c = false) :
    (s ++ c :: x).dropWhile p = s.dropWhile p ++ c :: x := by
  induction s with
  | nil => simp [hc]
  | cons d s ih =>
    by_cases hd : p d = true
    · simpa [hd] using ih
    · simp [hd]

theorem takeWhile_append_cons {p : Char → Bool} (hc : p c = false) :
    (s ++ c :: x).takeWhile p = s.takeWhile p := by
  induction s with
  | nil => simp [hc]
  | cons d s ih =>
    by_cases hd : p d = true
    · simpa [hd] using ih
    · simp [hd]

theorem isPrefixOf_append_cons {w : List Char} (hc : c ∉ w) :
    w.isPrefixOf (s ++ c :: x) = w.isPrefixOf s := by
  induction w generalizing s with
  | nil => simp
  | cons d w ih =>
    cases s with
    | nil => simp [List.isPrefixOf, (List.ne_of_not_mem_cons hc).symm]
    | cons e s => simp [List.isPrefixOf, ih (List.not_mem_of_not_mem_cons hc)]

theorem startsFold_append_cons {w : List Char} (hc : foldCase c ∉ w) :
    startsFold w (s ++ c :: x) = startsFold w s := by
  simpa [startsFold] using isPrefixOf_append_cons (x := x.map foldCase) hc

theorem startsFold_append {w : List Char} (h : startsFold w s = true) :
    startsFold w (s ++ x) = true := by
  simp only [startsFold, List.map_append, List.isPrefixOf_iff_prefix] at h ⊢
  exact h.trans (List.prefix_append _ _)

theorem length_le_of_startsFold {w : List Char} (h : startsFold w s = true) :
    w.length ≤ s.length := by
  simpa using (List.isPrefixOf_iff_prefix.mp h).length_le

theorem startsFold_dropWhile_append {w : List Char} {p : Char → Bool} (hw : w ≠ [])
    (h : startsFold w (s.dropWhile p) = true) :
    (s ++ x).dropWhile p = s.dropWhile p ++ x := by
  rw [List.dropWhile_append, if_neg]
  intro hnil
  have := length_le_of_startsFold h
  rw [List.isEmpty_iff.mp hnil, List.length_nil, Nat.le_zero, List.length_eq_zero_iff] at this
  exact hw this

theorem namesPrivate_append (h : namesPrivate s = true) : namesPrivate (s ++ x) = true := by
  simp only [namesPrivate, Bool.or_eq_true, Bool.and_eq_true] at h ⊢
  rcases h with h | ⟨hend, h⟩
  · rw [startsFold_dropWhile_append (by decide) h]
    exact .inl (startsFold_append h)
  · have hlength : 3 ≤ (s.dropWhile Py.isSpace).length := length_le_of_startsFold hend
    rw [startsFold_dropWhile_append (by decide) hend, List.drop_append_of_le_length hlength,
      startsFold_dropWhile_append (by decide) h]
    exact .inr ⟨startsFold_append hend, startsFold_append h⟩

structure NoLetter (c : Char) : Prop where
  space : Py.isSpace c = false
  joint : isJoint c = false
  word : foldCase c ∉ "private".toList
  stop : foldCase c ∉ "end".toList

theorem namesPrivate_append_cons (h : NoLetter c) :
    namesPrivate (s ++ c :: x) = namesPrivate s := by
  simp only [namesPrivate, dropWhile_append_cons h.space, startsFold_append_cons h.word,
    startsFold_append_cons h.stop]
  by_cases hend : startsFold "end".toList (s.dropWhile Py.isSpace) = true
  · have hlength : 3 ≤ (s.dropWhile Py.isSpace).length := length_le_of_startsFold hend
    rw [List.drop_append_of_le_length hlength, dropWhile_append_cons h.joint,
      startsFold_append_cons h.word]
  · simp only [Bool.not_eq_true] at hend
    simp only [hend, Bool.false_and]

theorem noLetter_less : NoLetter '<' := ⟨by decide, by decide, by decide, by decide⟩

theorem noLetter_bracket : NoLetter '[' := ⟨by decide, by decide, by decide, by decide⟩

theorem anyMarker_of_ne (hc : c ≠ '<') : anyMarker (c :: s) = false := by
  unfold anyMarker
  split
  · rename_i heq
    exact absurd (List.cons.inj heq).1 hc
  · rfl

theorem anyMarker_less_of_ne (hc : c ≠ '<') : anyMarker ('<' :: c :: s) = false := by
  unfold anyMarker
  split
  · rename_i heq
    exact absurd (List.cons.inj (List.cons.inj heq).2).1 hc
  · rfl

theorem exists_of_anyMarker (h : anyMarker s = true) :
    ∃ s', s = '<' :: '<' :: s' ∧ namesPrivate s' = true := by
  unfold anyMarker at h
  split at h
  · exact ⟨_, rfl, h⟩
  · cases h

/-- **What comes after a marker does not undo it.** -/
theorem grows_anyMarker : Grows anyMarker := by
  intro s x h
  obtain ⟨s', rfl, hs⟩ := exists_of_anyMarker h
  exact namesPrivate_append hs

theorem anyMarker_append_cons (h : NoLetter c) (hlength : 2 ≤ s.length) :
    anyMarker (s ++ c :: x) = anyMarker s := by
  match s, hlength with
  | a :: b :: s, _ =>
    by_cases ha : a = '<'
    · by_cases hb : b = '<'
      · subst ha hb
        exact namesPrivate_append_cons h
      · subst ha
        simp only [List.cons_append, anyMarker_less_of_ne hb]
    · simp only [List.cons_append, anyMarker_of_ne ha]

/-- **No marker goes on across the beginning of a tag.** -/
theorem stops_less : Stops anyMarker ['<', '<'] := by
  intro s x hne
  match s, hne with
  | [a], _ =>
    by_cases ha : a = '<'
    · subst ha
      exact namesPrivate_append_cons (s := []) (x := x) noLetter_less
    · simp only [List.cons_append, anyMarker_of_ne ha]
  | a :: b :: s, _ => exact anyMarker_append_cons noLetter_less (by simp)

/-- **No marker goes on across a placeholder.** -/
theorem stops_bracket : Stops anyMarker ['['] := by
  intro s x hne
  match s, hne with
  | [a], _ =>
    by_cases ha : a = '<'
    · subst ha
      exact anyMarker_less_of_ne (by decide)
    · simp only [List.cons_append, anyMarker_of_ne ha]
  | a :: b :: s, _ => exact anyMarker_append_cons noLetter_bracket (by simp)

theorem eq_less_of_anyMarker (h : anyMarker (c :: s) = true) : c = '<' := by
  by_contra hc
  simp [anyMarker_of_ne hc] at h

/-! ### The spans -/

theorem isHeaderChar_name (level : Level) : ∀ c ∈ level.name.toList, isHeaderChar c = true := by
  rw [← List.all_eq_true]
  cases level <;> decide

theorem ofName?_eq_some_iff {name : List Char} :
    Level.ofName? (String.ofList name) = some level ↔ name = level.name.toList := by
  constructor
  · intro h
    have hname : level.name = String.ofList name := by simpa using List.find?_some h
    rw [hname, String.toList_ofList]
  · rintro rfl
    rw [String.ofList_toList]
    cases level <;> decide

theorem openTag_eq_some_iff :
    openTag s = some (level, rest) ↔
      s = tagPrefix ++ (level.name.toList ++ (tagSuffix ++ rest)) := by
  constructor
  · intro h
    simp only [openTag, Option.bind_eq_bind, Option.bind_eq_some_iff] at h
    obtain ⟨header, hheader, h⟩ := h
    split_ifs at h
    obtain ⟨after, hafter, h⟩ := Option.bind_eq_some_iff.mp h
    obtain ⟨level', hlevel, heq⟩ := Option.bind_eq_some_iff.mp h
    obtain ⟨rfl, rfl⟩ := Prod.mk.inj (Option.some.inj heq)
    rw [dropText_eq_some_iff.mp hheader, ← ofName?_eq_some_iff.mp hlevel,
      ← dropText_eq_some_iff.mp hafter, List.takeWhile_append_dropWhile]
  · rintro rfl
    have hstop : (tagSuffix ++ rest) = '>' :: '>' :: rest := rfl
    have hname : (level.name.toList ++ (tagSuffix ++ rest)).takeWhile isHeaderChar =
        level.name.toList := by
      rw [List.takeWhile_append_of_pos (isHeaderChar_name level), hstop,
        List.takeWhile_cons_of_neg (by decide), List.append_nil]
    have hafter : (level.name.toList ++ (tagSuffix ++ rest)).dropWhile isHeaderChar =
        tagSuffix ++ rest := by
      rw [List.dropWhile_append_of_pos (isHeaderChar_name level), hstop,
        List.dropWhile_cons_of_neg (by decide)]
    have hne : level.name.toList ≠ [] := by cases level <;> decide
    simp only [openTag, dropText_append, Option.bind_eq_bind, Option.bind_some, hname, hafter,
      if_neg hne, ofName?_eq_some_iff.mpr rfl]

theorem anyMarker_closeTag : anyMarker (closeTag ++ rest) = true :=
  grows_anyMarker closeTag rest (by decide)

theorem anyMarker_tagged : anyMarker (tagged level value ++ rest) = true := by
  rw [tagged, List.append_assoc]
  exact grows_anyMarker tagPrefix _ (by decide)

theorem cut_value (h : Free anyMarker value) :
    cut anyMarker (value ++ (closeTag ++ rest)) = some (value, closeTag ++ rest) := by
  have hclose : closeTag ++ rest = ['<', '<'] ++ ("END_PRIVATE>>".toList ++ rest) := rfl
  have hclear : Clear anyMarker value (closeTag ++ rest) := by
    rw [hclose]
    exact (free_iff_clear_stops stops_less).mp h
  have hne : closeTag ++ rest ≠ [] := hclose ▸ List.cons_ne_nil _ _
  rw [cut_append_of_clear hclear, cut_of_mark hne anyMarker_closeTag, Option.map_some,
    List.append_nil]

/-- **The span at a marker:** a value without a marker between the two tags. -/
theorem nextSpan_eq_some_iff :
    nextSpan s = some (level, value, rest) ↔
      s = tagged level value ++ rest ∧ Free anyMarker value := by
  constructor
  · intro h
    simp only [nextSpan, Option.bind_eq_bind, Option.bind_eq_some_iff, Prod.exists] at h
    obtain ⟨level', afterOpen, hopen, inner, closing, hcut, after, hclose, heq⟩ := h
    obtain ⟨rfl, rfl, rfl⟩ := by simpa using heq
    obtain ⟨rfl, -, -, hclear⟩ := cut_eq_some hcut
    rw [openTag_eq_some_iff.mp hopen, dropText_eq_some_iff.mp hclose]
    exact ⟨by simp [tagged], hclear.free grows_anyMarker⟩
  · rintro ⟨rfl, hfree⟩
    have hopen : openTag (tagged level value ++ rest) =
        some (level, value ++ (closeTag ++ rest)) :=
      openTag_eq_some_iff.mpr (by simp [tagged])
    simp only [nextSpan, hopen, cut_value hfree, dropText_append, Option.bind_eq_bind,
      Option.bind_some]

theorem nextSpan_length_lt (h : nextSpan s = some (level, value, rest)) :
    rest.length < s.length := by
  have hpos : 0 < tagPrefix.length := by decide
  rw [(nextSpan_eq_some_iff.mp h).1, tagged, List.length_append, List.length_append]
  omega

theorem tag_eq_ok_iff :
    tag value level = .ok s ↔ Free anyMarker value ∧ s = tagged level value := by
  -- the two tags of the first test are markers
  have hmarked : ∀ w, anyMarker w = true → w <:+: value → ¬ Free anyMarker value := by
    rintro w hw ⟨before, after, rfl⟩ hfree
    rw [List.append_assoc, free_append, free_append] at hfree
    obtain ⟨d, w, rfl⟩ := List.exists_cons_of_ne_nil (l := w) (by rintro rfl; cases hw)
    have := (clear_cons.mp hfree.2.1).1
    rw [← List.cons_append, grows_anyMarker _ _ hw] at this
    cases this
  rw [tag]
  split_ifs with h
  · refine iff_of_false (fun hok => by cases hok) fun hok => ?_
    rcases h with h | h | h
    · exact hmarked tagPrefix (by decide) h hok.1
    · exact hmarked closeTag (by decide) h hok.1
    · simp [cut_eq_none_iff.mpr hok.1] at h
  · simp only [not_or, Option.not_isSome_iff_eq_none, cut_eq_none_iff] at h
    simp [h.2.2, tagged, eq_comm]

/-! ### The gate -/

/-- What a span leaves in the text. -/
def shownValue (level : Level) (value : List Char) : List Char :=
  if level = .pub then value else placeholder

/-- The loop of `gate_text`; `none` where the text is malformed. -/
def gateFrom (text : List Char) : Option (List Char) :=
  match _hcut : cut anyMarker text with
  | none => some text
  | some (before, marked) =>
    match _hspan : nextSpan marked with
    | none => none
    | some (level, inner, rest) =>
      (gateFrom rest).map fun out => before ++ (shownValue level inner ++ out)
termination_by text.length
decreasing_by
  have hlt := nextSpan_length_lt _hspan
  rw [(cut_eq_some _hcut).1, List.length_append]
  omega

def gateText (text : List Char) : List Char :=
  if (cut anyMarker text).isNone then text else (gateFrom text).getD malformedPlaceholder

theorem gateFrom_of_free (h : Free anyMarker t) : gateFrom t = some t := by
  have hcut := cut_eq_none_iff.mpr h
  rw [gateFrom]
  split
  · rfl
  · simp_all

theorem gateFrom_of_cut {before marked : List Char} (h : cut anyMarker t = some (before, marked)) :
    gateFrom t = (nextSpan marked).bind fun span =>
      (gateFrom span.2.2).map fun out => before ++ (shownValue span.1 span.2.1 ++ out) := by
  rw [gateFrom]
  split
  · simp_all
  · rename_i before' marked' hcut
    obtain ⟨rfl, rfl⟩ := by simpa using hcut.symm.trans h
    split <;> rename_i hspan <;> simp [hspan]

theorem gateFrom_tagged (h : Free anyMarker value) :
    gateFrom (tagged level value ++ rest) =
      (gateFrom rest).map fun out => shownValue level value ++ out := by
  have hne : tagged level value ++ rest ≠ [] := by
    rintro hnil
    have hmark : anyMarker (tagged level value ++ rest) = true := anyMarker_tagged
    rw [hnil] at hmark
    cases hmark
  rw [gateFrom_of_cut (cut_of_mark hne anyMarker_tagged), nextSpan_eq_some_iff.mpr ⟨rfl, h⟩]
  rfl

theorem gateFrom_append (h : Clear anyMarker s rest) :
    gateFrom (s ++ rest) = (gateFrom rest).map fun out => s ++ out := by
  have hcut := cut_append_of_clear h
  cases hrest : cut anyMarker rest with
  | none =>
    have hfree : Free anyMarker rest := cut_eq_none_iff.mp hrest
    rw [gateFrom_of_free hfree, gateFrom_of_free (free_append.mpr ⟨h, hfree⟩)]
    rfl
  | some p =>
    obtain ⟨before, marked⟩ := p
    rw [hrest, Option.map_some] at hcut
    rw [gateFrom_of_cut hrest, gateFrom_of_cut hcut]
    cases nextSpan marked with
    | none => rfl
    | some span => simp [Function.comp_def]

theorem gateText_eq (t : List Char) : gateText t = (gateFrom t).getD malformedPlaceholder := by
  rw [gateText]
  split_ifs with h
  · rw [gateFrom_of_free (cut_eq_none_iff.mp (Option.isNone_iff_eq_none.mp h)), Option.getD_some]
  · rfl

theorem gateText_of_free (h : Free anyMarker t) : gateText t = t := by
  rw [gateText_eq, gateFrom_of_free h, Option.getD_some]

/-! ### The pieces of a text -/

/-- A string outside of the spans, or a span. -/
inductive Piece
  | plain (s : List Char)
  | span (level : Level) (value : List Char)
  deriving DecidableEq

def Piece.render : Piece → List Char
  | .plain s => s
  | .span level value => tagged level value

def Piece.shown : Piece → List Char
  | .plain s => s
  | .span level value => shownValue level value

def render (pieces : List Piece) : List Char := pieces.flatMap Piece.render

/-- The text with the public values and with placeholders for the other ones. -/
def shown (pieces : List Piece) : List Char := pieces.flatMap Piece.shown

/-- The strings have no marker, alone or with what follows them, and the values are accepted. -/
def WellFormed : List Piece → Prop
  | [] => True
  | .plain s :: pieces =>
    Free anyMarker s ∧ Clear anyMarker s (render pieces) ∧ WellFormed pieces
  | .span level value :: pieces =>
    tag value level = .ok (tagged level value) ∧ WellFormed pieces

@[simp] theorem render_nil : render [] = [] := rfl

@[simp] theorem render_cons (p : Piece) (pieces : List Piece) :
    render (p :: pieces) = p.render ++ render pieces := rfl

@[simp] theorem shown_nil : shown [] = [] := rfl

@[simp] theorem shown_cons (p : Piece) (pieces : List Piece) :
    shown (p :: pieces) = p.shown ++ shown pieces := rfl

variable {p : Piece} {pieces : List Piece}

theorem gateFrom_render (h : WellFormed pieces) :
    gateFrom (render pieces) = some (shown pieces) := by
  induction pieces with
  | nil => exact gateFrom_of_free free_nil
  | cons p pieces ih =>
    cases p with
    | plain s =>
      rw [render_cons, Piece.render, gateFrom_append h.2.1, ih h.2.2]
      rfl
    | span level value =>
      rw [render_cons, Piece.render, gateFrom_tagged (tag_eq_ok_iff.mp h.1).1, ih h.2]
      rfl

/-- **The public values are kept, every other span leaves the placeholder.** -/
theorem gateText_render (h : WellFormed pieces) : gateText (render pieces) = shown pieces := by
  rw [gateText_eq, gateFrom_render h, Option.getD_some]

/-- **A text that is not malformed has pieces.** -/
theorem exists_pieces (h : (gateFrom t).isSome = true) :
    ∃ pieces, WellFormed pieces ∧ render pieces = t := by
  -- induction on the text: every span takes a part of it away
  induction hn : t.length using Nat.strong_induction_on generalizing t with
  | _ n ih =>
    cases hcut : cut anyMarker t with
    | none =>
      have hfree : Free anyMarker t := cut_eq_none_iff.mp hcut
      exact ⟨[.plain t], ⟨hfree, hfree, trivial⟩, by simp [Piece.render]⟩
    | some p =>
      obtain ⟨before, marked⟩ := p
      rw [gateFrom_of_cut hcut] at h
      obtain ⟨heq, -, -, hclear⟩ := cut_eq_some hcut
      cases hspan : nextSpan marked with
      | none => simp [hspan] at h
      | some span =>
        obtain ⟨level, value, rest⟩ := span
        obtain ⟨hmarked, hfree⟩ := nextSpan_eq_some_iff.mp hspan
        have hlt : rest.length < n := by
          have := nextSpan_length_lt hspan
          have := congrArg List.length heq
          rw [List.length_append] at this
          omega
        obtain ⟨pieces, hpieces, rfl⟩ := ih rest.length hlt (by simpa [hspan] using h) rfl
        refine ⟨.plain before :: .span level value :: pieces,
          ⟨hclear.free grows_anyMarker, ?_, tag_eq_ok_iff.mpr ⟨hfree, rfl⟩, hpieces⟩, ?_⟩
        · simpa [Piece.render, ← hmarked] using hclear
        · simp [Piece.render, heq, hmarked]

/-! ### Markers in the result -/

/-- The visible text before the next withheld span. -/
def visibleRun : List Piece → List Char
  | [] => []
  | .plain s :: pieces => s ++ visibleRun pieces
  | .span level value :: pieces => if level = .pub then value ++ visibleRun pieces else []

/-- No marker begins in a string or a public value and goes on, without the delimiters of public
spans, in the visible text after it. -/
def Unbroken : List Piece → Prop
  | [] => True
  | .plain s :: pieces => Clear anyMarker s (visibleRun pieces) ∧ Unbroken pieces
  | .span level value :: pieces =>
    (level = .pub → Clear anyMarker value (visibleRun pieces)) ∧ Unbroken pieces

/-- What the gate makes of a text has no marker, and stays as it is. -/
def Settled (t : List Char) : Prop :=
  Free anyMarker (gateText t) ∧ gateText (gateText t) = gateText t

theorem clear_placeholder : Clear anyMarker placeholder x :=
  clear_of_notMem (d := '<') (fun _ _ => eq_less_of_anyMarker) (by decide)

theorem free_malformedPlaceholder : Free anyMarker malformedPlaceholder :=
  clear_of_notMem (d := '<') (fun _ _ => eq_less_of_anyMarker) (by decide)

/-- The visible text is followed by nothing or by a placeholder. -/
theorem exists_shown_eq (pieces : List Piece) :
    shown pieces = visibleRun pieces ∨ ∃ x, shown pieces = visibleRun pieces ++ (['['] ++ x) := by
  induction pieces with
  | nil => exact .inl rfl
  | cons p pieces ih =>
    cases p with
    | plain s =>
      rcases ih with h | ⟨x, h⟩
      · exact .inl (by simp [visibleRun, Piece.shown, h])
      · exact .inr ⟨x, by simp [visibleRun, Piece.shown, h]⟩
    | span level value =>
      by_cases hlevel : level = .pub
      · rcases ih with h | ⟨x, h⟩
        · exact .inl (by simp [visibleRun, Piece.shown, shownValue, hlevel, h])
        · exact .inr ⟨x, by simp [visibleRun, Piece.shown, shownValue, hlevel, h]⟩
      · refine .inr ⟨placeholder.tail ++ shown pieces, ?_⟩
        simp only [shown_cons, Piece.shown, shownValue, visibleRun, if_neg hlevel]
        rfl

theorem clear_shown_iff :
    Clear anyMarker s (shown pieces) ↔ Clear anyMarker s (visibleRun pieces) := by
  rcases exists_shown_eq pieces with h | ⟨x, h⟩
  · rw [h]
  · rw [h, clear_stops_iff stops_bracket]

/-- **The result has a marker only if one was broken up.** -/
theorem free_shown_iff : Free anyMarker (shown pieces) ↔ Unbroken pieces := by
  induction pieces with
  | nil => exact iff_of_true free_nil trivial
  | cons p pieces ih =>
    rw [shown_cons, free_append, clear_shown_iff, ih]
    cases p with
    | plain s => rfl
    | span level value =>
      by_cases hlevel : level = .pub
      · simp [Unbroken, Piece.shown, shownValue, hlevel]
      · simp [Unbroken, Piece.shown, shownValue, hlevel, clear_placeholder]

theorem gateText_settled_iff (t : List Char) :
    Settled t ↔ ∀ pieces, WellFormed pieces → render pieces = t → Unbroken pieces := by
  constructor
  · rintro ⟨hfree, -⟩ pieces hpieces rfl
    rw [gateText_render hpieces] at hfree
    exact free_shown_iff.mp hfree
  · intro h
    have hfree : Free anyMarker (gateText t) := by
      by_cases hsome : (gateFrom t).isSome = true
      · obtain ⟨pieces, hpieces, rfl⟩ := exists_pieces hsome
        rw [gateText_render hpieces]
        exact free_shown_iff.mpr (h pieces hpieces rfl)
      · rw [gateText_eq, Option.not_isSome_iff_eq_none.mp hsome, Option.getD_none]
        exact free_malformedPlaceholder
    exact ⟨hfree, gateText_of_free hfree⟩

/-! ### Withheld values -/

/-- Two texts that differ in the values of spans that are not public. -/
inductive SamePublic : List Char → List Char → Prop
  | refl (t : List Char) : SamePublic t t
  | span (before : List Char) {level : Level} {value value' s s' rest rest' : List Char}
    (hlevel : level ≠ .pub) (hs : tag value level = .ok s) (hs' : tag value' level = .ok s')
    (hrest : SamePublic rest rest') : SamePublic (before ++ (s ++ rest)) (before ++ (s' ++ rest'))

theorem dropText_append_cons {w : List Char} (hc : c ∉ w) :
    dropText w (s ++ c :: x) = (dropText w s).map fun rest => rest ++ c :: x := by
  induction w generalizing s with
  | nil => rfl
  | cons d w ih =>
    cases s with
    | nil => simp [dropText, List.ne_of_not_mem_cons hc |>.symm]
    | cons e s =>
      by_cases he : d = e
      · simpa [dropText, he] using ih (List.not_mem_of_not_mem_cons hc)
      · simp [dropText, he]

theorem openTag_append (h : anyMarker s = true) :
    openTag (s ++ '<' :: x) = (openTag s).map fun p => (p.1, p.2 ++ '<' :: x) := by
  obtain ⟨s, rfl, -⟩ := exists_of_anyMarker h
  have hopen : ∀ t, dropText tagPrefix ('<' :: '<' :: t) = dropText "PRIVATE:".toList t :=
    fun _ => rfl
  simp only [openTag, List.cons_append, hopen, dropText_append_cons (w := "PRIVATE:".toList)
    (c := '<') (by decide), Option.bind_eq_bind]
  cases dropText "PRIVATE:".toList s with
  | none => rfl
  | some header =>
    simp only [Option.map_some, Option.bind_some, takeWhile_append_cons (p := isHeaderChar)
      (c := '<') (by decide), dropWhile_append_cons (p := isHeaderChar) (c := '<') (by decide),
      dropText_append_cons (w := tagSuffix) (c := '<') (by decide)]
    split_ifs
    · rfl
    · cases dropText tagSuffix (header.dropWhile isHeaderChar) with
      | none => rfl
      | some rest => cases Level.ofName? (String.ofList (header.takeWhile isHeaderChar)) <;> rfl

theorem tagged_append :
    tagged level value ++ rest = '<' :: '<' :: ("PRIVATE:".toList ++
      (level.name.toList ++ (tagSuffix ++ (value ++ (closeTag ++ rest))))) := by
  simp only [tagged, List.append_assoc]
  rfl

theorem stops_tagged : Stops anyMarker (tagged level value) := by
  intro s x hne
  rw [tagged_append]
  exact stops_less s _ hne

/-- **The span at a marker ends before the next tag, or there is none.** -/
theorem nextSpan_append {marked : List Char} (h : anyMarker marked = true) :
    nextSpan (marked ++ (tagged level value ++ rest)) =
      (nextSpan marked).map fun p => (p.1, p.2.1, p.2.2 ++ (tagged level value ++ rest)) := by
  have hopen := openTag_append h (x := (tagged level value ++ rest).tail)
  have hless : '<' :: (tagged level value ++ rest).tail = tagged level value ++ rest := by
    rw [tagged_append, List.tail_cons]
  rw [hless] at hopen
  simp only [nextSpan, hopen, Option.bind_eq_bind]
  cases openTag marked with
  | none => rfl
  | some p =>
    obtain ⟨level', afterOpen⟩ := p
    simp only [Option.map_some, Option.bind_some]
    cases hcut : cut anyMarker afterOpen with
    | none =>
      -- the next marker is the tag, which closes nothing
      have hclear : Clear anyMarker afterOpen (tagged level value ++ rest) :=
        (free_iff_clear_stops stops_tagged).mp (cut_eq_none_iff.mp hcut)
      rw [cut_append_of_clear hclear, cut_of_mark (by simp [tagged_append]) anyMarker_tagged]
      have hclose : dropText closeTag (tagged level value ++ rest) = none := by
        rw [tagged_append]
        rfl
      simp [hclose]
    | some q =>
      obtain ⟨inner, closing⟩ := q
      rw [cut_append_of_stops stops_tagged hcut]
      obtain ⟨closing, rfl, -⟩ := exists_of_anyMarker (cut_eq_some hcut).2.1
      have hclose : ∀ t, dropText closeTag ('<' :: '<' :: t) =
          dropText "END_PRIVATE>>".toList t := fun _ => rfl
      have hstop := dropText_append_cons (s := closing) (w := "END_PRIVATE>>".toList) (c := '<')
        (x := (tagged level value ++ rest).tail) (by decide)
      rw [hless] at hstop
      simp only [Option.bind_some, List.cons_append, hclose, hstop]
      cases dropText "END_PRIVATE>>".toList closing <;> rfl

/-- Two texts with tags at their beginnings, after the same text. -/
theorem gateFrom_congr {value' rest' : List Char} (before : List Char)
    (h : gateFrom (tagged level value ++ rest) = gateFrom (tagged level value' ++ rest')) :
    gateFrom (before ++ (tagged level value ++ rest)) =
      gateFrom (before ++ (tagged level value' ++ rest')) := by
  -- induction on the text before the tags: every span takes a part of it away
  induction hn : before.length using Nat.strong_induction_on generalizing before with
  | _ n ih =>
    cases hcut : cut anyMarker before with
    | none =>
      have hfree : Free anyMarker before := cut_eq_none_iff.mp hcut
      rw [gateFrom_append ((free_iff_clear_stops stops_tagged).mp hfree),
        gateFrom_append ((free_iff_clear_stops stops_tagged).mp hfree), h]
    | some p =>
      obtain ⟨plain, marked⟩ := p
      obtain ⟨heq, hmarked, -, -⟩ := cut_eq_some hcut
      rw [gateFrom_of_cut (cut_append_of_stops stops_tagged hcut),
        gateFrom_of_cut (cut_append_of_stops stops_tagged hcut), nextSpan_append hmarked,
        nextSpan_append hmarked]
      cases hspan : nextSpan marked with
      | none => rfl
      | some span =>
        obtain ⟨level', inner, after⟩ := span
        have hlt : after.length < n := by
          have := nextSpan_length_lt hspan
          have := congrArg List.length heq
          rw [List.length_append] at this
          omega
        simp only [Option.map_some, Option.bind_some, ih after.length hlt after rfl]

/-- **Withheld values do not matter.** -/
theorem gateText_congr {t' : List Char} (h : SamePublic t t') : gateText t = gateText t' := by
  rw [gateText_eq, gateText_eq]
  congr 1
  induction h with
  | refl t => rfl
  | span before hlevel hs hs' _ ih =>
    obtain ⟨hfree, rfl⟩ := tag_eq_ok_iff.mp hs
    obtain ⟨hfree', rfl⟩ := tag_eq_ok_iff.mp hs'
    refine gateFrom_congr before ?_
    rw [gateFrom_tagged hfree, gateFrom_tagged hfree', ih]
    simp only [shownValue, if_neg hlevel]

/-- **The gate resolves every span, unless a marker was broken up by delimiters.** -/
theorem gateText_resolves_iff (t : List Char) :
    (Settled t ↔ ∀ pieces, WellFormed pieces → render pieces = t → Unbroken pieces) ∧
      (∀ t', SamePublic t t' → gateText t = gateText t') ∧
      ∀ pieces, WellFormed pieces → gateText (render pieces) = shown pieces :=
  ⟨gateText_settled_iff t, fun _ => gateText_congr, fun _ => gateText_render⟩

/-- `<` before a public span with the value `<PRIVATE` leaves a marker. -/
theorem not_gateText_resolves :
    ¬ Free anyMarker (gateText "<<<PRIVATE:PUBLIC>><PRIVATE<<END_PRIVATE>>".toList) ∧
      gateText (gateText "<<<PRIVATE:PUBLIC>><PRIVATE<<END_PRIVATE>>".toList) ≠
        gateText "<<<PRIVATE:PUBLIC>><PRIVATE<<END_PRIVATE>>".toList := by
  have hpieces : WellFormed [.plain ['<'], .span .pub "<PRIVATE".toList] :=
    ⟨by decide, by decide, tag_eq_ok_iff.mpr ⟨by decide, rfl⟩, trivial⟩
  have hgate : gateText "<<<PRIVATE:PUBLIC>><PRIVATE<<END_PRIVATE>>".toList =
      "<<PRIVATE".toList := gateText_render hpieces
  have hcut : cut anyMarker "<<PRIVATE".toList = some ([], "<<PRIVATE".toList) := by decide
  have hspan : nextSpan "<<PRIVATE".toList = none := by decide
  have hagain : gateText "<<PRIVATE".toList = malformedPlaceholder := by
    rw [gateText_eq, gateFrom_of_cut hcut, hspan]
    rfl
  rw [hgate, hagain]
  exact ⟨by decide, by decide⟩

end Staff
