import RunnerDashboard.Lib.Lines
import RunnerDashboard.Staff.CapsuleStream

/-!
# The streamed reply and the kept reply

When a reply is complete, `extract_summary` takes the memory capsule off it.  It finds the capsule
by its own reading of the lines: every line end of Unicode ends a line, the last line needs no end,
and only the mark itself closes a fence.

## Main results

* `agrees_iff` — **what is streamed is what is kept exactly if both find the same marker.**
-/

namespace Staff.Capsule

open Fences

/-! ### The parser -/

/-- The variables of the loop. -/
structure Scan where
  fence : Option (List Char) := none
  start : Option ℕ := none
  last : Option ℕ := none
  count : ℕ := 0

/-- `line.startswith((" ", "\t", ">"))`. -/
def isQuoted (line : List Char) : Bool := line.head?.any (· ∈ [' ', '\t', '>'])

def scanLine (s : Scan) (index : ℕ) (line : List Char) : Scan :=
  if isQuoted line then s
  else
    match s.fence with
    | none =>
      if line = marker then
        { s with
          count := s.count + 1
          start := if s.start = none then some index else s.start
          fence := some "```".toList }
      else if line.take 3 ∈ fenceMarks then { s with fence := some (line.take 3) }
      else s
    | some fence =>
      if line = fence then
        { s with
          last := if s.start ≠ none ∧ s.last = none then some index else s.last
          fence := none }
      else s

def scanLines : Scan → ℕ → List (List Char) → Scan
  | s, _, [] => s
  | s, index, line :: lines => scanLines (scanLine s index line) (index + 1) lines

def maxCapsule : ℕ := 4096

/-- `extract_summary`; `accept` is what becomes of a capsule that is short enough. -/
def extractSummary {D : Type} (accept : List Char → Option D) (raw : List Char) :
    List Char × Option D :=
  let lines := Py.splitLines raw
  let s := scanLines {} 0 lines
  match s.start with
  | none => (raw, none)
  | some start =>
    let reply := Py.rstrip (Py.joinLines (lines.take start))
    match s.last with
    | none => (reply, none)
    | some last =>
      if s.count ≠ 1 ∨ (lines.drop (last + 1)).any fun line => Py.stripChars line ≠ [] then
        (reply, none)
      else
        let capsule := Py.joinLines ((lines.take last).drop (start + 1))
        if maxCapsule < (String.ofList capsule).utf8ByteSize then (reply, none)
        else (reply, accept capsule)

/-! ### The first marker -/

/-- How the parser reads a line. -/
def keptReading : Reading (List Char) (List Char) where
  marker l := l = marker
  opens l := if l.take 3 ∈ fenceMarks then some (l.take 3) else none
  closes fence l := l = fence

def keptStart (text : List Char) : Option ℕ := keptReading.first none (Py.splitLines text)

def beforeCapsule (text : List Char) : List Char :=
  match keptStart text with
  | none => text
  | some n => Py.firstLines n text

/-- Where the capsule begins, for the filter and for the parser. -/
def streamOffset (text : List Char) : Option ℕ :=
  (lfStart none text).map fun n => (lfBefore n text).length

def keptOffset (text : List Char) : Option ℕ :=
  (keptStart text).map fun n => (Py.firstLines n text).length

/-- The first marker outside of fences is the same whether only a line feed ends a line (and a fence
is closed also by a longer line with its mark and a carriage return), or every line end of Unicode
does (and the last line counts). -/
def SameCapsule (text : List Char) : Prop := streamOffset text = keptOffset text

/-- What is streamed of a reply is what is kept of it: whatever the chunks are, the same beginning
of the reply comes out, with all that is before the capsule and nothing of the capsule; and up to
the line ends and the white space at the end it is the reply that is kept. -/
structure Agrees {D : Type} (accept : List Char → Option D) (text : List Char) : Prop where
  chunks : ∀ chunks, chunks.flatten = text → streamed chunks = streamed [text]
  beginning : streamed [text] <+: text
  complete : beforeCapsule text <+: streamed [text]
  hidden : streamed [text] <+: beforeCapsule text
  same : Py.tidy (streamed [text]) = Py.tidy (extractSummary accept text).1

variable {D : Type} {accept : List Char → Option D} {fence : Option (List Char)}
  {line text a b : List Char} {lines : List (List Char)} {s : Scan} {index n : ℕ}

/-- A fence that is open has the form of one. -/
def WellFenced (fence : Option (List Char)) : Prop := ∀ f ∈ fence, f ∈ fenceMarks

theorem wellFenced_after (h : WellFenced fence) : WellFenced (keptReading.after fence line) := by
  intro f hf
  cases fence with
  | none =>
    simp only [Reading.after, keptReading] at hf
    split at hf
    · next hmark =>
      obtain rfl := Option.mem_some.mp hf
      exact hmark
    · cases hf
  | some g =>
    simp only [Reading.after] at hf
    split at hf
    · cases hf
    · exact h f hf

theorem isQuoted_spec (hfence : WellFenced fence) (h : isQuoted line = true) :
    line ≠ marker ∧ keptReading.after fence line = fence := by
  have hhead : ∀ m ∈ marker :: fenceMarks, line.take 3 ≠ m.take 3 := by
    intro m hm heq
    have hheads : ∀ m ∈ marker :: fenceMarks, isQuoted (m.take 3) = false := by decide
    have hline : isQuoted (line.take 3) = true := by
      unfold isQuoted at h ⊢
      rwa [List.head?_take, if_neg (by decide)]
    rw [heq, hheads m hm] at hline
    cases hline
  have hmarks : ∀ m ∈ fenceMarks, m.take 3 = m := by decide
  refine ⟨fun heq => hhead marker (List.mem_cons_self ..) (by rw [heq]), ?_⟩
  cases fence with
  | none =>
    simp only [Reading.after, keptReading]
    rw [if_neg]
    exact fun hmark => hhead _ (List.mem_cons_of_mem _ hmark) (by rw [List.take_take]; simp)
  | some f =>
    simp only [Reading.after, keptReading, decide_eq_true_eq]
    rw [if_neg]
    rintro rfl
    exact hhead _ (List.mem_cons_of_mem _ (hfence _ rfl)) rfl

theorem scanLines_start_of_some (h : s.start = some n) :
    (scanLines s index lines).start = some n := by
  induction lines generalizing s index with
  | nil => exact h
  | cons line lines ih =>
    refine ih ?_
    unfold scanLine
    split
    · exact h
    · split
      · simp only [h, reduceCtorEq, if_false]
        split_ifs <;> simp only [h]
      · split_ifs <;> exact h

/-- **The parser stops at the first marker.** -/
theorem scanLines_start (h : s.start = none) (hfence : WellFenced s.fence) :
    (scanLines s index lines).start = (keptReading.first s.fence lines).map (· + index) := by
  induction lines generalizing s index with
  | nil => exact h
  | cons line lines ih =>
    unfold scanLines
    by_cases hmarker : s.fence = none ∧ keptReading.marker line = true
    · have hline : line = marker := of_decide_eq_true hmarker.2
      have hquoted : ¬ isQuoted line = true := fun hq => (isQuoted_spec hfence hq).1 hline
      rw [Reading.first_cons_of_marker hmarker.1 hmarker.2]
      refine scanLines_start_of_some ?_
      unfold scanLine
      rw [if_neg hquoted, hmarker.1]
      simp [hline, h]
    · have hscan : (scanLine s index line).start = none ∧
          (scanLine s index line).fence = keptReading.after s.fence line := by
        by_cases hquoted : isQuoted line = true
        · unfold scanLine
          rw [if_pos hquoted, (isQuoted_spec hfence hquoted).2]
          exact ⟨h, rfl⟩
        · unfold scanLine
          rw [if_neg hquoted]
          cases hf : s.fence with
          | none =>
            have hline : line ≠ marker := fun heq => hmarker ⟨hf, decide_eq_true heq⟩
            simp only [if_neg hline, Reading.after, keptReading]
            split <;> simp [h, hf]
          | some f =>
            simp only [Reading.after, keptReading, decide_eq_true_eq]
            split <;> simp [h, hf]
      rw [Reading.first_cons_of_not hmarker, ih hscan.1 (hscan.2 ▸ wellFenced_after hfence),
        hscan.2, Option.map_map]
      congr 1
      funext m
      simp only [Function.comp_apply]
      omega

/-- **The reply that is kept.** -/
theorem extractSummary_fst (accept : List Char → Option D) (text : List Char) :
    (extractSummary accept text).1 =
      match keptStart text with
      | none => text
      | some n => Py.rstrip (Py.joinLines ((Py.splitLines text).take n)) := by
  have hstart : (scanLines {} 0 (Py.splitLines text)).start = keptStart text := by
    rw [scanLines_start rfl (by simp [WellFenced])]
    simp [keptStart]
  unfold extractSummary
  dsimp only
  rw [hstart]
  cases keptStart text with
  | none => rfl
  | some n =>
    dsimp only
    split
    · rfl
    · split_ifs <;> rfl

/-! ### The two readings -/

theorem eq_of_keptStart (h : keptStart text = some n) :
    ∃ rest, text = Py.firstLines n text ++ (marker ++ rest) := by
  obtain ⟨before, l, after, hlines, rfl, hmarker⟩ := Reading.first_spec h
  obtain rfl : l = marker := of_decide_eq_true hmarker
  rw [← Py.map_fst_splitKeep] at hlines
  obtain ⟨kbefore, krest, hkeep, rfl, hrest⟩ := List.map_eq_append_iff.mp hlines
  obtain ⟨⟨l, ends⟩, kafter, rfl, hl, -⟩ := List.map_eq_cons_iff.mp hrest
  obtain rfl : l = marker := hl
  refine ⟨ends ++ Py.textOf kafter, ?_⟩
  have htext := Py.textOf_splitKeep text
  rw [Py.firstLines, hkeep, List.length_map, List.take_left]
  rw [hkeep] at htext
  simpa [Py.textOf] using htext.symm

/-- **The text before the capsule is the text, or its beginning up to a marker.** -/
theorem beforeCapsule_spec (text : List Char) :
    beforeCapsule text = text ∨ ∃ rest, text = beforeCapsule text ++ (marker ++ rest) := by
  unfold beforeCapsule
  cases hstart : keptStart text with
  | none => exact .inl rfl
  | some n => exact .inr (eq_of_keptStart hstart)

theorem filter_marker_ne_nil {d rest : List Char} (h : d <+: marker ++ rest) (hne : d ≠ []) :
    d.filter (fun c => !Py.isSpace c) ≠ [] := by
  obtain ⟨c, d, rfl⟩ := List.exists_cons_of_ne_nil hne
  obtain ⟨tail, htail⟩ := h
  have hc : c = '`' := (List.cons.inj htail).1
  rw [hc, List.filter_cons_of_pos (by decide)]
  simp

/-- Two beginnings of a text that end before a marker are the same if they differ in white space
only. -/
theorem prefix_eq_of_filter_eq (ha : a = text ∨ ∃ rest, text = a ++ (marker ++ rest))
    (hb : b <+: text) (hab : a <+: b)
    (h : a.filter (fun c => !Py.isSpace c) = b.filter fun c => !Py.isSpace c) : a = b := by
  obtain ⟨d, rfl⟩ := hab
  rcases ha with rfl | ⟨rest, hrest⟩
  · exact (List.prefix_append a d).eq_of_length_le hb.length_le
  · by_contra hne
    have hd : d ≠ [] := fun hd => hne (by rw [hd, List.append_nil])
    have hpre : d <+: marker ++ rest := by
      rw [hrest] at hb
      exact (List.prefix_append_right_inj a).mp hb
    rw [List.filter_append] at h
    exact filter_marker_ne_nil hpre hd (List.append_right_eq_self.mp h.symm)

theorem visible_isPrefix (text : List Char) : visible none text <+: text := by
  rcases visible_spec none text with heq | ⟨rest, heq⟩
  · exact ⟨[], (List.append_nil _).trans heq⟩
  · exact ⟨_, heq.symm⟩

theorem beforeCapsule_isPrefix (text : List Char) : beforeCapsule text <+: text := by
  rcases beforeCapsule_spec text with heq | ⟨rest, heq⟩
  · exact ⟨[], (List.append_nil _).trans heq⟩
  · exact ⟨_, heq.symm⟩

theorem tidy_extractSummary (accept : List Char → Option D) (text : List Char) :
    Py.tidy (extractSummary accept text).1 = Py.tidy (beforeCapsule text) := by
  rw [extractSummary_fst, beforeCapsule]
  cases keptStart text with
  | none => rfl
  | some n =>
    dsimp only
    rw [Py.tidy_firstLines, Py.tidy_rstrip_joinLines]
    exact fun l hl => Py.isLineBreak_of_mem_splitLines (List.mem_of_mem_take hl)

/-- Up to white space the two are the same only if they are the same. -/
theorem visible_eq_of_tidy_eq (h : Py.tidy (visible none text) = Py.tidy (beforeCapsule text)) :
    visible none text = beforeCapsule text := by
  have hfilter : (visible none text).filter (fun c => !Py.isSpace c) =
      (beforeCapsule text).filter fun c => !Py.isSpace c := by
    rw [← Py.filter_tidy, h, Py.filter_tidy]
  have hv := visible_isPrefix text
  have hb := beforeCapsule_isPrefix text
  rcases List.prefix_or_prefix_of_prefix hv hb with hle | hle
  · exact prefix_eq_of_filter_eq (visible_spec none text) hb hle hfilter
  · exact (prefix_eq_of_filter_eq (beforeCapsule_spec text) hv hle hfilter.symm).symm

theorem take_length_of_eq {before rest : List Char} (h : text = before ++ (marker ++ rest)) :
    before = text.take before.length ∧ before.length < text.length := by
  refine ⟨?_, ?_⟩
  · rw [h, List.take_left]
  · have hlength := congrArg List.length h
    have hpos := List.length_pos_iff.mpr marker_ne_nil
    rw [List.length_append, List.length_append] at hlength
    omega

def upTo (offset : Option ℕ) (text : List Char) : List Char :=
  match offset with
  | none => text
  | some k => text.take k

theorem upTo_inj {j k : Option ℕ} (hj : ∀ i ∈ j, i < text.length) (hk : ∀ i ∈ k, i < text.length)
    (h : upTo j text = upTo k text) : j = k := by
  have hlength := congrArg List.length h
  cases j with
  | none =>
    cases k with
    | none => rfl
    | some k =>
      have := hk k rfl
      simp only [upTo, List.length_take] at hlength
      omega
  | some j =>
    have hlt := hj j rfl
    cases k with
    | none =>
      simp only [upTo, List.length_take] at hlength
      omega
    | some k =>
      have := hk k rfl
      simp only [upTo, List.length_take] at hlength
      congr 1
      omega

theorem visible_eq_upTo (text : List Char) : visible none text = upTo (streamOffset text) text ∧
    ∀ i ∈ streamOffset text, i < text.length := by
  unfold visible streamOffset
  cases hstart : lfStart none text with
  | none => exact ⟨rfl, by simp⟩
  | some n =>
    obtain ⟨rest, hrest⟩ := eq_of_lfStart hstart
    obtain ⟨htake, hlt⟩ := take_length_of_eq hrest
    exact ⟨htake, by simpa using hlt⟩

theorem beforeCapsule_eq_upTo (text : List Char) :
    beforeCapsule text = upTo (keptOffset text) text ∧ ∀ i ∈ keptOffset text, i < text.length := by
  unfold beforeCapsule keptOffset
  cases hstart : keptStart text with
  | none => exact ⟨rfl, by simp⟩
  | some n =>
    obtain ⟨rest, hrest⟩ := eq_of_keptStart hstart
    obtain ⟨htake, hlt⟩ := take_length_of_eq hrest
    exact ⟨htake, by simpa using hlt⟩

/-- The two are the same if the marker is at the same place. -/
theorem visible_eq_iff : visible none text = beforeCapsule text ↔ SameCapsule text := by
  obtain ⟨hvisible, hv⟩ := visible_eq_upTo text
  obtain ⟨hbefore, hb⟩ := beforeCapsule_eq_upTo text
  rw [hvisible, hbefore]
  constructor
  · exact upTo_inj hv hb
  · intro h
    rw [show streamOffset text = keptOffset text from h]

/-! ### Plain texts -/

theorem after_eq (hline : '\r' ∉ line) (hfence : WellFenced fence) :
    lfReading.after fence line = keptReading.after fence line := by
  have hlast : line.getLast? ≠ some '\r' := fun h => hline (List.mem_of_getLast? h)
  cases fence with
  | none => rfl
  | some f =>
    have hlength : ∀ m ∈ fenceMarks, m.length = 3 := by decide
    have hcloses : lfReading.closes f line = keptReading.closes f line := by
      simp only [lfReading, keptReading, if_neg hlast, Nat.sub_zero]
      by_cases heq : line = f
      · have := hlength f (hfence f rfl)
        subst heq
        simp [this, List.take_of_length_le this.le]
      · rw [decide_eq_false heq]
        by_cases hthree : min line.length 4 = 3
        · have htake : line.take 3 = line := List.take_of_length_le (by omega)
          simp [htake, heq]
        · simp [hthree]
    simp only [Reading.after, hcloses]

theorem first_eq (hlines : ∀ l ∈ lines, '\r' ∉ l) (hfence : WellFenced fence) :
    lfReading.first fence lines = keptReading.first fence lines := by
  induction lines generalizing fence with
  | nil => rfl
  | cons line lines ih =>
    obtain ⟨hline, hrest⟩ := List.forall_mem_cons.mp hlines
    have hmarker : lfReading.marker line = keptReading.marker line := by
      have hreturn : line ≠ marker ++ ['\r'] := by
        rintro rfl
        exact hline (by simp)
      simp [lfReading, keptReading, hreturn]
    simp only [Reading.first, hmarker, after_eq hline hfence, ih hrest (wellFenced_after hfence)]

theorem splitKeep_of_plain (hplain : ∀ c ∈ text, Py.isLineBreak c = true → c = '\n')
    (hlast : text ≠ [] → text.getLast? = some '\n') :
    Py.splitKeep text = (lfLines text).map fun l => (l, ['\n']) := by
  induction text using Py.lines_induction with
  | nil => rfl
  | crlf text ih => exact absurd (hplain '\r' (by simp) rfl) (by decide)
  | ended c text hc hcr ih =>
    obtain rfl := hplain c (List.mem_cons_self ..) hc
    rw [Py.splitKeep_break hc hcr, ih (fun c hc => hplain c (List.mem_cons_of_mem _ hc))]
    · rfl
    · intro hne
      rw [← List.getLast?_cons_of_ne_nil hne]
      exact hlast (by simp)
  | cons c text hc ih =>
    have hne : text ≠ [] := by
      rintro rfl
      obtain rfl : c = '\n' := by simpa using hlast (by simp)
      cases hc
    have hc' : c ≠ '\n' := by
      rintro rfl
      cases hc
    have hrest := ih (fun c hc => hplain c (List.mem_cons_of_mem _ hc)) fun _ => by
      rw [← List.getLast?_cons_of_ne_nil hne]
      exact hlast (by simp)
    rw [Py.splitKeep_cons hc, hrest, lfLines, if_neg hc']
    cases hlines : lfLines text with
    | nil =>
      have htext := Py.textOf_splitKeep text
      rw [hrest, hlines] at htext
      exact absurd htext.symm hne
    | cons l ls => rfl

/-- **A reply with plain line ends, that ends with one, is streamed as it is kept.** -/
theorem sameCapsule_of_plain (hplain : ∀ c ∈ text, Py.isLineBreak c = true → c = '\n')
    (hlast : text ≠ [] → text.getLast? = some '\n') : SameCapsule text := by
  have hkeep := splitKeep_of_plain hplain hlast
  have hlines : Py.splitLines text = lfLines text := by
    rw [← Py.map_fst_splitKeep, hkeep, List.map_map]
    exact List.map_id _
  have hbefore : ∀ n, Py.firstLines n text = lfBefore n text := by
    intro n
    rw [Py.firstLines, lfBefore, hkeep, ← List.map_take, Py.textOf, List.flatMap_map]
  have hreturn : ∀ l ∈ lfLines text, '\r' ∉ l := by
    intro l hl hmem
    have hline := Py.isLineBreak_of_mem_splitLines (hlines ▸ hl) '\r' hmem
    cases hline
  unfold SameCapsule streamOffset keptOffset keptStart lfStart
  rw [hlines, first_eq hreturn (by simp [WellFenced])]
  simp only [hbefore]

/-- A reply with its capsule. -/
theorem sameCapsule_of_plain_hello :
    SameCapsule "Hello.\n```staff-memory\n\x7b\x7d\n```\n".toList :=
  sameCapsule_of_plain (by simp [Py.isLineBreak]) fun _ => by decide +kernel

/-- **What is streamed is what is kept exactly if both find the same marker.** -/
theorem agrees_iff (accept : List Char → Option D) (text : List Char) :
    Agrees accept text ↔ SameCapsule text := by
  have hstreamed : ∀ chunks : List (List Char), chunks.flatten = text →
      streamed chunks = visible none text := by
    rintro chunks rfl
    exact streamed_eq chunks
  have hone : streamed [text] = visible none text := hstreamed [text] (by simp)
  constructor
  · intro h
    refine visible_eq_iff.mp (visible_eq_of_tidy_eq ?_)
    rw [← hone, h.same, tidy_extractSummary]
  · intro h
    have heq := visible_eq_iff.mpr h
    refine ⟨fun chunks hchunks => (hstreamed chunks hchunks).trans hone.symm, ?_, ?_, ?_, ?_⟩
    · exact hone ▸ visible_isPrefix text
    · exact hone ▸ heq ▸ List.prefix_rfl
    · exact hone ▸ heq ▸ List.prefix_rfl
    · rw [hone, heq, tidy_extractSummary]

/-- A reply whose lines end with carriage returns: all of the capsule is streamed. -/
theorem not_agrees :
    ¬ Agrees (fun _ => (none : Option Unit)) "Done.\r```staff-memory\r{}\r```\r".toList := by
  intro h
  exact absurd h.hidden (by decide +kernel)

end Staff.Capsule
