import Mathlib.Data.List.Basic
import Mathlib.Data.List.Infix

/-!
# Cutting a text at its first mark

A test says of a text whether a mark stands at its beginning; how far the mark reaches is left open.
A text is cut before its first mark.  Where two texts are put together, a mark that begins in the
first one may end in the second.

## Main definitions

* `Marks.cut` — the text before the first mark, and the text from it on.
* `Marks.Clear` — no mark begins in a text, read before another one.
* `Marks.Free` — no mark begins in a text.
* `Marks.Grows`, `Marks.Stops` — what comes after a mark does not undo it; no mark goes on across
  a word.

## Main results

* `Marks.clear_append` — where two texts are put together.
* `Marks.cut_append_of_clear`, `Marks.cut_append_of_stops` — a text is cut where its parts are.
* `Marks.cut_eq_some`, `Marks.cut_eq_none_iff` — what is cut, and when.
-/

namespace Marks

variable {α : Type*}

/-- The text before the first mark, and the text from it on. -/
def cut (mark : List α → Bool) : List α → Option (List α × List α)
  | [] => none
  | c :: s => if mark (c :: s) then some ([], c :: s) else (cut mark s).map fun p => (c :: p.1, p.2)

/-- No mark begins in a text that stands before another one. -/
def Clear (mark : List α → Bool) : List α → List α → Prop
  | [], _ => True
  | c :: s, rest => mark (c :: (s ++ rest)) = false ∧ Clear mark s rest

/-- No mark begins in a text. -/
def Free (mark : List α → Bool) (s : List α) : Prop := Clear mark s []

/-- What comes after a mark does not undo it. -/
def Grows (mark : List α → Bool) : Prop := ∀ s x, mark s = true → mark (s ++ x) = true

/-- No mark that has begun goes on across a word. -/
def Stops (mark : List α → Bool) (w : List α) : Prop :=
  ∀ s x, s ≠ [] → mark (s ++ (w ++ x)) = mark s

instance Clear.decidable (mark : List α → Bool) : ∀ s rest, Decidable (Clear mark s rest)
  | [], _ => .isTrue trivial
  | c :: s, rest =>
    have := Clear.decidable mark s rest
    inferInstanceAs (Decidable (mark (c :: (s ++ rest)) = false ∧ Clear mark s rest))

instance (mark : List α → Bool) (s : List α) : Decidable (Free mark s) :=
  inferInstanceAs (Decidable (Clear mark s []))

variable {mark : List α → Bool} {a b s t u rest x w : List α} {c : α}

/-! ### Texts in which no mark begins -/

@[simp] theorem clear_nil : Clear mark [] rest := trivial

@[simp] theorem clear_cons :
    Clear mark (c :: s) rest ↔ mark (c :: (s ++ rest)) = false ∧ Clear mark s rest := Iff.rfl

@[simp] theorem free_nil : Free mark [] := trivial

/-- **A mark of two texts begins in the first one or in the second.** -/
theorem clear_append : Clear mark (a ++ b) rest ↔ Clear mark a (b ++ rest) ∧ Clear mark b rest := by
  induction a with
  | nil => simp
  | cons c a ih => simp [ih, and_assoc]

theorem free_append : Free mark (a ++ b) ↔ Clear mark a b ∧ Free mark b := by
  simp [Free, clear_append]

/-- A mark that begins in a text without an end of its own begins in the text with any end. -/
theorem Clear.free (hgrows : Grows mark) (h : Clear mark s rest) : Free mark s := by
  induction s with
  | nil => exact free_nil
  | cons c s ih =>
    refine ⟨?_, ih h.2⟩
    by_contra hmark
    have := hgrows (c :: (s ++ [])) rest (by simpa using hmark)
    simp [h.1] at this

/-- What comes after a word that stops the marks does not matter. -/
theorem clear_stops_iff (hstops : Stops mark w) :
    Clear mark s (t ++ (w ++ x)) ↔ Clear mark s t := by
  induction s with
  | nil => simp
  | cons c s ih =>
    have hc := hstops (c :: (s ++ t)) x (by simp)
    rw [clear_cons, clear_cons, ih, ← hc]
    simp

theorem free_iff_clear_stops (hstops : Stops mark w) : Free mark s ↔ Clear mark s (w ++ x) := by
  rw [Free, ← clear_stops_iff hstops (t := []) (x := x), List.nil_append]

theorem clear_of_notMem {d : α} (hmark : ∀ c s, mark (c :: s) = true → c = d) (hd : d ∉ s) :
    Clear mark s rest := by
  induction s with
  | nil => exact clear_nil
  | cons c s ih =>
    refine ⟨?_, ih fun hs => hd (List.mem_cons_of_mem c hs)⟩
    by_contra hc
    exact hd (hmark c _ (by simpa using hc) ▸ List.mem_cons_self)

/-! ### Cutting -/

theorem cut_cons_of_mark (h : mark (c :: s) = true) : cut mark (c :: s) = some ([], c :: s) := by
  simp [cut, h]

theorem cut_of_mark (hne : s ≠ []) (h : mark s = true) : cut mark s = some ([], s) := by
  obtain ⟨c, s, rfl⟩ := List.exists_cons_of_ne_nil hne
  exact cut_cons_of_mark h

theorem cut_append_of_clear (h : Clear mark a b) :
    cut mark (a ++ b) = (cut mark b).map fun p => (a ++ p.1, p.2) := by
  induction a with
  | nil => simp
  | cons c a ih =>
    rw [List.cons_append, cut, if_neg (by simp [h.1]), ih h.2, Option.map_map]
    rfl

/-- **What is cut:** no mark begins in the text before the first one. -/
theorem cut_eq_some (h : cut mark s = some (a, rest)) :
    s = a ++ rest ∧ mark rest = true ∧ rest ≠ [] ∧ Clear mark a rest := by
  induction s generalizing a with
  | nil => cases h
  | cons c s ih =>
    rw [cut] at h
    split_ifs at h with hc
    · obtain ⟨rfl, rfl⟩ := Prod.mk.inj (Option.some.inj h)
      exact ⟨rfl, hc, List.cons_ne_nil c s, clear_nil⟩
    · obtain ⟨⟨a', rest'⟩, hcut, heq⟩ := Option.map_eq_some_iff.mp h
      obtain ⟨rfl, rfl⟩ := Prod.mk.inj heq
      obtain ⟨rfl, hmark, hne, hclear⟩ := ih hcut
      exact ⟨rfl, hmark, hne, by simpa using hc, hclear⟩

theorem cut_eq_none_iff : cut mark s = none ↔ Free mark s := by
  induction s with
  | nil => simp [cut]
  | cons c s ih =>
    rw [cut]
    split_ifs with hc
    · simp [Free, hc]
    · simp [ih, Free, hc]

theorem cut_append_of_stops (hstops : Stops mark w) (h : cut mark s = some (a, rest)) :
    cut mark (s ++ (w ++ x)) = some (a, rest ++ (w ++ x)) := by
  obtain ⟨rfl, hmark, hne, hclear⟩ := cut_eq_some h
  rw [List.append_assoc, cut_append_of_clear ((clear_stops_iff hstops).mpr hclear),
    cut_of_mark (by simp [hne]) ((hstops rest x hne).trans hmark)]
  simp

end Marks
