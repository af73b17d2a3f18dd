import RunnerDashboard.Lib.PyStr

/-!
# The status of a checkout, as it is printed and read

`git status --porcelain` prints a line for each changed path.  A name with unusual bytes is
printed as a C string, one with blanks between double quotes.  The caller strips the whole output,
so that the first line may lose its leading blank, and reads each line back: quotes around the
path are taken off in most lines, an arrow in it is taken for that of a renaming, and an untracked
path is taken as it is printed.

A name is the list of its bytes, each of them the character of its number.

## Main results

* `readStatus_statusText` — **the reader on the output.**
-/

namespace RmSync

/-! ### Printing -/

/-- A file name, with `/` between its parts. -/
abbrev Name := List Char

def dquote : Char := Char.ofNat 34

def backslash : Char := Char.ofNat 92

/-- A byte that is not printed as it is. -/
def unusual (c : Char) : Bool := c = dquote || c = backslash || c.toNat < 32 || 126 < c.toNat

def octal (n : ℕ) : List Char :=
  [Nat.digitChar (n / 64 % 8), Nat.digitChar (n / 8 % 8), Nat.digitChar (n % 8)]

/-- The letter that stands for a control character. -/
def escapeLetter : ℕ → Option Char
  | 7 => some 'a'
  | 8 => some 'b'
  | 9 => some 't'
  | 10 => some 'n'
  | 11 => some 'v'
  | 12 => some 'f'
  | 13 => some 'r'
  | _ => none

def quoteChar (c : Char) : List Char :=
  if unusual c = false then [c]
  else if c = dquote ∨ c = backslash then [backslash, c]
  else
    match escapeLetter c.toNat with
    | some letter => [backslash, letter]
    | none => backslash :: octal c.toNat

def plain (n : Name) : Bool := n.all fun c => !unusual c && c ≠ ' '

/-- A name as `git status` prints it. -/
def quotePath (n : Name) : List Char :=
  if plain n then n else dquote :: (n.flatMap quoteChar ++ [dquote])

/-- A letter of the status, for one of the two comparisons. -/
inductive Letter
  | unmodified
  | modified
  | typeChanged
  | added
  | deleted
  deriving DecidableEq

def Letter.char : Letter → Char
  | unmodified => ' '
  | modified => 'M'
  | typeChanged => 'T'
  | added => 'A'
  | deleted => 'D'

/-- A path that the status lists. -/
inductive Change
  /-- A tracked path: the index against `HEAD`, and the worktree against the index. -/
  | tracked (x y : Letter) (name : Name)
  /-- A path that is new in the index and was renamed from another. -/
  | renamed (y : Letter) (source name : Name)
  | untracked (name : Name)

def arrow : List Char := " -> ".toList

def Change.line : Change → List Char
  | tracked x y n => x.char :: y.char :: ' ' :: quotePath n
  | renamed y old n => 'R' :: y.char :: ' ' :: (quotePath old ++ arrow ++ quotePath n)
  | untracked n => '?' :: '?' :: ' ' :: quotePath n

/-- The output of `git status --porcelain`. -/
def statusText (changes : List Change) : List Char := changes.flatMap fun ch => ch.line ++ ['\n']

/-! ### Reading -/

/-- A path with its status. -/
structure Entry where
  status : List Char
  path : List Char
  deriving DecidableEq

def untrackedStatus : List Char := "??".toList

def pathOf (payload : List Char) : List Char :=
  match Py.afterChars arrow payload with
  | some path => path
  | none => Py.stripChar dquote payload

def entryOfLine : List Char → Option Entry
  | '?' :: '?' :: ' ' :: rest => some ⟨untrackedStatus, rest⟩
  | x :: y :: ' ' :: payload => some ⟨[x, y], pathOf payload⟩
  | x :: ' ' :: payload => some ⟨[x, ' '], pathOf payload⟩
  | _ => none

def parsePorcelainLine (line : List Char) : Option Entry :=
  let line := line.rdropWhile (· = '\n')
  if Py.stripChars line = [] then none else entryOfLine line

/-- The entries of the output, which `_git` has stripped. -/
def readStatus (out : List Char) : List Entry :=
  (Py.splitLines (Py.stripChars out)).filterMap parsePorcelainLine

/-- The path that the reader takes a change for. -/
def Change.path : Change → List Char
  | tracked _ _ n => pathOf (quotePath n)
  | renamed _ old n => pathOf (quotePath old ++ arrow ++ quotePath n)
  | untracked n => quotePath n

def Change.status : Change → List Char
  | tracked x y _ => [x.char, y.char]
  | renamed y _ _ => ['R', y.char]
  | untracked _ => untrackedStatus

def Change.entry (ch : Change) : Entry := ⟨ch.status, ch.path⟩

/-- A line without its leading blank. -/
def Change.stripped : Change → List Char
  | tracked .unmodified y n => y.char :: ' ' :: quotePath n
  | ch => ch.line

/-- The entry of a line without its leading blank. -/
def Change.firstEntry : Change → Entry
  | tracked .unmodified y n => ⟨[y.char, ' '], pathOf (quotePath n)⟩
  | ch => ch.entry

def Change.name : Change → Name
  | tracked _ _ n => n
  | renamed _ _ n => n
  | untracked n => n

/-- The names of the line are printed as they are. -/
def Change.Plain : Change → Prop
  | tracked _ _ n => plain n = true
  | renamed _ old n => plain old = true ∧ plain n = true
  | untracked n => plain n = true

/-- The names of a change are not empty, and something has changed. -/
def Change.Proper : Change → Prop
  | tracked x y n => n ≠ [] ∧ (x = .unmodified → y ≠ .unmodified)
  | renamed _ old n => old ≠ [] ∧ n ≠ []
  | untracked n => n ≠ []

/-! ### Names between quotes -/

variable {n : Name} {c : Char}

/-- A character of ASCII that is printed as it is. -/
def Printed (c : Char) : Prop := 32 ≤ c.toNat ∧ c.toNat ≤ 126

instance (c : Char) : Decidable (Printed c) := inferInstanceAs (Decidable (_ ∧ _))

theorem printed_digitChar : ∀ d, d < 8 → Printed (Nat.digitChar d) := by decide

theorem printed_escapeLetter {k : ℕ} (h : escapeLetter k = some c) : Printed c := by
  unfold escapeLetter at h
  split at h
  all_goals cases h
  all_goals decide

theorem printed_of_usual (h : unusual c = false) : Printed c := by
  simp only [unusual, Bool.or_eq_false_iff, decide_eq_false_iff_not, Nat.not_lt] at h
  exact ⟨h.1.2, h.2⟩

theorem printed_octal (k : ℕ) : ∀ d ∈ octal k, Printed d := by
  intro d hd
  simp only [octal, List.mem_cons, List.not_mem_nil, or_false] at hd
  rcases hd with rfl | rfl | rfl
  · exact printed_digitChar _ (Nat.mod_lt _ (by decide))
  · exact printed_digitChar _ (Nat.mod_lt _ (by decide))
  · exact printed_digitChar _ (Nat.mod_lt _ (by decide))

theorem printed_quoteChar (c : Char) : ∀ d ∈ quoteChar c, Printed d := by
  have hback : Printed backslash := by decide
  unfold quoteChar
  split_ifs with husual hown
  · exact List.forall_mem_singleton.mpr (printed_of_usual husual)
  · refine List.forall_mem_cons.mpr ⟨hback, List.forall_mem_singleton.mpr ?_⟩
    rcases hown with rfl | rfl
    · decide
    · exact hback
  · cases hletter : escapeLetter c.toNat with
    | some letter =>
      exact List.forall_mem_cons.mpr
        ⟨hback, List.forall_mem_singleton.mpr (printed_escapeLetter hletter)⟩
    | none => exact List.forall_mem_cons.mpr ⟨hback, printed_octal _⟩

theorem usual_of_plain (h : plain n = true) (hc : c ∈ n) : unusual c = false ∧ c ≠ ' ' := by
  simpa using List.all_eq_true.mp h c hc

theorem printed_quotePath (n : Name) : ∀ c ∈ quotePath n, Printed c := by
  unfold quotePath
  split_ifs with h
  · exact fun c hc => printed_of_usual (usual_of_plain h hc).1
  · have hquote : Printed dquote := by decide
    intro c hc
    rcases List.mem_cons.mp hc with rfl | hc
    · exact hquote
    · rcases List.mem_append.mp hc with hc | hc
      · obtain ⟨d, -, hd⟩ := List.mem_flatMap.mp hc
        exact printed_quoteChar d c hd
      · obtain rfl := List.mem_singleton.mp hc
        exact hquote

/-- What is printed for a name neither starts nor ends with a blank. -/
theorem quotePath_ends (h : n ≠ []) :
    (∃ c s, quotePath n = c :: s ∧ c ≠ ' ') ∧ ∃ s c, quotePath n = s ++ [c] ∧ c ≠ ' ' := by
  unfold quotePath
  split_ifs with hplain
  · constructor
    · obtain ⟨c, s, rfl⟩ := List.exists_cons_of_ne_nil h
      exact ⟨c, s, rfl, (usual_of_plain hplain List.mem_cons_self).2⟩
    · obtain ⟨s, c, rfl⟩ := (List.eq_nil_or_concat' n).resolve_left h
      exact ⟨s, c, rfl, (usual_of_plain hplain (List.mem_append_right _ List.mem_cons_self)).2⟩
  · exact ⟨⟨dquote, _, rfl, by decide⟩, dquote :: n.flatMap quoteChar, dquote, rfl, by decide⟩

/-! ### One line -/

variable {ch : Change} {l : List Char}

/-- The text ends with a character that is no white space. -/
def EndsVisibly (l : List Char) : Prop := ∃ s c, l = s ++ [c] ∧ Py.isSpace c = false

theorem isSpace_of_printed (h : Printed c) (hne : c ≠ ' ') : Py.isSpace c = false := by
  have hnat : c.toNat ≠ 32 := fun he => hne (Char.toNat_inj.mp he)
  unfold Printed at h
  exact Py.isSpace_eq_false (by omega) (by omega)

theorem isLineBreak_of_printed (h : Printed c) : Py.isLineBreak c = false := by
  unfold Printed at h
  simp only [Py.isLineBreak, Bool.or_eq_false_iff, Bool.and_eq_false_iff, decide_eq_false_iff_not,
    beq_eq_false_iff_ne]
  omega

theorem EndsVisibly.append (h : EndsVisibly l) (s : List Char) : EndsVisibly (s ++ l) := by
  obtain ⟨t, c, rfl, hc⟩ := h
  exact ⟨s ++ t, c, (List.append_assoc s t [c]).symm, hc⟩

theorem EndsVisibly.cons (h : EndsVisibly l) (c : Char) : EndsVisibly (c :: l) := h.append [c]

theorem endsVisibly_quotePath (h : n ≠ []) : EndsVisibly (quotePath n) := by
  obtain ⟨s, c, hs, hc⟩ := (quotePath_ends h).2
  refine ⟨s, c, hs, isSpace_of_printed (printed_quotePath n c ?_) hc⟩
  rw [hs]
  exact List.mem_append_right s List.mem_cons_self

theorem printed_letter (x : Letter) : Printed x.char := by cases x <;> decide

theorem printed_arrow : ∀ c ∈ arrow, Printed c := by
  have hall : arrow.all (fun c => decide (Printed c)) = true := by decide
  exact fun c hc => of_decide_eq_true (List.all_eq_true.mp hall c hc)

theorem printed_line (ch : Change) : ∀ c ∈ ch.line, Printed c := by
  have hblank : Printed ' ' := by decide
  cases ch with
  | tracked x y n =>
    exact List.forall_mem_cons.mpr ⟨printed_letter x, List.forall_mem_cons.mpr
      ⟨printed_letter y, List.forall_mem_cons.mpr ⟨hblank, printed_quotePath n⟩⟩⟩
  | renamed y old n =>
    refine List.forall_mem_cons.mpr ⟨by decide, List.forall_mem_cons.mpr
      ⟨printed_letter y, List.forall_mem_cons.mpr ⟨hblank, ?_⟩⟩⟩
    exact List.forall_mem_append.mpr
      ⟨List.forall_mem_append.mpr ⟨printed_quotePath old, printed_arrow⟩, printed_quotePath n⟩
  | untracked n =>
    exact List.forall_mem_cons.mpr ⟨by decide, List.forall_mem_cons.mpr
      ⟨by decide, List.forall_mem_cons.mpr ⟨hblank, printed_quotePath n⟩⟩⟩

theorem endsVisibly_line (h : ch.Proper) : EndsVisibly ch.line := by
  cases ch with
  | tracked x y n => exact (((endsVisibly_quotePath h.1).cons _).cons _).cons _
  | renamed y old n => exact ((((endsVisibly_quotePath h.2).append _).cons _).cons _).cons _
  | untracked n => exact (((endsVisibly_quotePath h).cons _).cons _).cons _

theorem line_eq (ch : Change) :
    ∃ w, ch.line = w ++ ch.stripped ∧ ∀ c ∈ w, Py.isSpace c = true := by
  cases ch with
  | tracked x y n =>
    cases x with
    | unmodified => exact ⟨[' '], rfl, List.forall_mem_singleton.mpr rfl⟩
    | modified => exact ⟨[], rfl, List.forall_mem_nil _⟩
    | typeChanged => exact ⟨[], rfl, List.forall_mem_nil _⟩
    | added => exact ⟨[], rfl, List.forall_mem_nil _⟩
    | deleted => exact ⟨[], rfl, List.forall_mem_nil _⟩
  | renamed y old n => exact ⟨[], rfl, List.forall_mem_nil _⟩
  | untracked n => exact ⟨[], rfl, List.forall_mem_nil _⟩

theorem printed_stripped (ch : Change) : ∀ c ∈ ch.stripped, Printed c := by
  obtain ⟨w, hw, -⟩ := line_eq ch
  intro c hc
  apply printed_line ch c
  rw [hw]
  exact List.mem_append_right w hc

theorem endsVisibly_stripped (h : ch.Proper) : EndsVisibly ch.stripped := by
  cases ch with
  | tracked x y n =>
    cases x with
    | unmodified => exact ((endsVisibly_quotePath h.1).cons _).cons _
    | modified => exact endsVisibly_line h
    | typeChanged => exact endsVisibly_line h
    | added => exact endsVisibly_line h
    | deleted => exact endsVisibly_line h
  | renamed y old n => exact endsVisibly_line h
  | untracked n => exact endsVisibly_line h

theorem stripped_head (h : ch.Proper) : ∃ c s, ch.stripped = c :: s ∧ Py.isSpace c = false := by
  cases ch with
  | tracked x y n =>
    cases x with
    | unmodified =>
      have hy := h.2 rfl
      refine ⟨y.char, _, rfl, ?_⟩
      cases y with
      | unmodified => exact absurd rfl hy
      | modified => rfl
      | typeChanged => rfl
      | added => rfl
      | deleted => rfl
    | modified => exact ⟨_, _, rfl, rfl⟩
    | typeChanged => exact ⟨_, _, rfl, rfl⟩
    | added => exact ⟨_, _, rfl, rfl⟩
    | deleted => exact ⟨_, _, rfl, rfl⟩
  | renamed y old n => exact ⟨_, _, rfl, rfl⟩
  | untracked n => exact ⟨_, _, rfl, rfl⟩

theorem parse_of_endsVisibly (h : EndsVisibly l) : parsePorcelainLine l = entryOfLine l := by
  obtain ⟨s, c, rfl, hc⟩ := h
  have hnewline : (s ++ [c]).rdropWhile (· = '\n') = s ++ [c] := by
    apply List.rdropWhile_concat_neg
    intro he
    obtain rfl : c = '\n' := of_decide_eq_true he
    cases hc
  have hvisible : Py.stripChars (s ++ [c]) ≠ [] := by
    intro he
    have hspace := Py.stripChars_eq_nil_iff.mp he c (List.mem_append_right s List.mem_cons_self)
    rw [hc] at hspace
    cases hspace
  unfold parsePorcelainLine
  rw [hnewline]
  exact if_neg hvisible

/-- The third character is no blank, but the first of the path. -/
theorem entryOfLine_short {x d : Char} {s : List Char} (hd : d ≠ ' ') :
    entryOfLine (x :: ' ' :: d :: s) = some ⟨[x, ' '], pathOf (d :: s)⟩ := by
  unfold entryOfLine
  split
  · rename_i he
    cases he
  · rename_i he
    cases he
    exact absurd rfl hd
  · rename_i he
    cases he
    rfl
  · rename_i hnone
    exact absurd rfl (hnone x (d :: s))

theorem parse_line (h : ch.Proper) : parsePorcelainLine ch.line = some ch.entry := by
  rw [parse_of_endsVisibly (endsVisibly_line h)]
  cases ch with
  | tracked x y n => cases x <;> cases y <;> rfl
  | renamed y old n => cases y <;> rfl
  | untracked n => rfl

theorem parse_unstripped (h : ch.Proper) (hline : ch.stripped = ch.line)
    (hentry : ch.firstEntry = ch.entry) :
    parsePorcelainLine ch.stripped = some ch.firstEntry := by
  rw [hline, hentry]
  exact parse_line h

/-- The reader on a line that has lost its leading blank. -/
theorem parse_stripped (h : ch.Proper) : parsePorcelainLine ch.stripped = some ch.firstEntry := by
  cases ch with
  | tracked x y n =>
    cases x with
    | unmodified =>
      rw [parse_of_endsVisibly (endsVisibly_stripped h)]
      obtain ⟨c, s, hq, hc⟩ := (quotePath_ends h.1).1
      show entryOfLine (y.char :: ' ' :: quotePath n) = some ⟨[y.char, ' '], pathOf (quotePath n)⟩
      rw [hq]
      exact entryOfLine_short hc
    | modified => exact parse_unstripped h rfl rfl
    | typeChanged => exact parse_unstripped h rfl rfl
    | added => exact parse_unstripped h rfl rfl
    | deleted => exact parse_unstripped h rfl rfl
  | renamed y old n => exact parse_unstripped h rfl rfl
  | untracked n => exact parse_unstripped h rfl rfl

/-! ### The output -/

variable {changes : List Change}

/-- The lines after the first, each after the end of the line before. -/
def furtherLines (changes : List Change) : List Char := changes.flatMap fun ch => '\n' :: ch.line

theorem statusText_cons (ch : Change) (changes : List Change) :
    statusText (ch :: changes) = ch.line ++ furtherLines changes ++ ['\n'] := by
  induction changes generalizing ch with
  | nil => simp [statusText, furtherLines]
  | cons ch' changes ih =>
    have hrest : statusText (ch :: ch' :: changes) =
        ch.line ++ ['\n'] ++ statusText (ch' :: changes) := rfl
    rw [hrest, ih ch']
    simp [furtherLines]

theorem splitLines_append_further (hl : ∀ c ∈ l, Printed c) (hne : l ≠ [])
    (h : ∀ ch ∈ changes, ch.Proper) :
    Py.splitLines (l ++ furtherLines changes) = l :: changes.map Change.line := by
  induction changes generalizing l with
  | nil =>
    have hnil : l ++ furtherLines [] = l := List.append_nil l
    rw [hnil]
    exact Py.splitLines_of_forall (fun c hc => isLineBreak_of_printed (hl c hc)) hne
  | cons ch changes ih =>
    obtain ⟨hch, hchanges⟩ := List.forall_mem_cons.mp h
    have hcons : l ++ furtherLines (ch :: changes) = l ++ '\n' ::
      (ch.line ++ furtherLines changes) :=
      rfl
    obtain ⟨s, c, hline, -⟩ := endsVisibly_line hch
    have hline : ch.line ≠ [] := by
      rw [hline]
      exact List.concat_ne_nil c s
    rw [hcons, Py.splitLines_append_newline fun c hc => isLineBreak_of_printed (hl c hc),
      ih (printed_line ch) hline hchanges]
    rfl

theorem endsVisibly_append_further (hl : EndsVisibly l) (h : ∀ ch ∈ changes, ch.Proper) :
    EndsVisibly (l ++ furtherLines changes) := by
  induction changes generalizing l with
  | nil =>
    have hnil : l ++ furtherLines [] = l := List.append_nil l
    rwa [hnil]
  | cons ch changes ih =>
    obtain ⟨hch, hchanges⟩ := List.forall_mem_cons.mp h
    exact ((ih (endsVisibly_line hch) hchanges).cons '\n').append l

theorem stripChars_statusText (hch : ch.Proper) (h : ∀ ch ∈ changes, ch.Proper) :
    Py.stripChars (statusText (ch :: changes)) = ch.stripped ++ furtherLines changes := by
  obtain ⟨w, hw, hspace⟩ := line_eq ch
  have hnewline : ∀ c ∈ ['\n'], Py.isSpace c = true := List.forall_mem_singleton.mpr rfl
  rw [statusText_cons, Py.stripChars_append_spaces _ hnewline, hw, List.append_assoc,
    Py.stripChars_spaces_append hspace]
  apply Py.stripChars_eq_self
  · intro c cs hcs
    obtain ⟨d, s, hs, hd⟩ := stripped_head hch
    rw [hs] at hcs
    obtain ⟨rfl, -⟩ := List.cons.inj hcs
    exact hd
  · intro cs c hcs
    obtain ⟨s, d, hs, hd⟩ := endsVisibly_append_further (endsVisibly_stripped hch) h
    rw [hs] at hcs
    obtain ⟨-, hcd⟩ := List.append_inj' hcs rfl
    obtain rfl := List.head_eq_of_cons_eq hcd
    exact hd

theorem filterMap_lines (h : ∀ ch ∈ changes, ch.Proper) :
    (changes.map Change.line).filterMap parsePorcelainLine = changes.map Change.entry := by
  induction changes with
  | nil => rfl
  | cons ch changes ih =>
    obtain ⟨hch, hchanges⟩ := List.forall_mem_cons.mp h
    rw [List.map_cons, List.filterMap_cons_some (parse_line hch), List.map_cons, ih hchanges]

/-- **The reader on the output.**  Each change gives one entry; the status of the first may be
moved. -/
theorem readStatus_statusText (h : ∀ ch ∈ changes, ch.Proper) :
    readStatus (statusText changes) =
      match changes with
      | [] => []
      | ch :: changes => ch.firstEntry :: changes.map Change.entry := by
  cases changes with
  | nil => rfl
  | cons ch changes =>
    obtain ⟨hch, hchanges⟩ := List.forall_mem_cons.mp h
    obtain ⟨c, s, hs, -⟩ := stripped_head hch
    have hne : ch.stripped ≠ [] := by
      rw [hs]
      exact List.cons_ne_nil c s
    rw [readStatus, stripChars_statusText hch hchanges,
      splitLines_append_further (printed_stripped ch) hne hchanges,
      List.filterMap_cons_some (parse_stripped hch), filterMap_lines hchanges]

def Change.isUntracked : Change → Bool
  | untracked _ => true
  | _ => false

def Entry.isUntracked (e : Entry) : Bool := e.status = untrackedStatus

theorem path_firstEntry (ch : Change) : ch.firstEntry.path = ch.path := by
  cases ch with
  | tracked x y n => cases x <;> rfl
  | renamed y old n => rfl
  | untracked n => rfl

theorem isUntracked_entry (ch : Change) : ch.entry.isUntracked = ch.isUntracked := by
  cases ch with
  | tracked x y n => cases x <;> cases y <;> rfl
  | renamed y old n => cases y <;> rfl
  | untracked n => rfl

theorem isUntracked_firstEntry (ch : Change) : ch.firstEntry.isUntracked = ch.isUntracked := by
  cases ch with
  | tracked x y n => cases x <;> cases y <;> rfl
  | renamed y old n => cases y <;> rfl
  | untracked n => rfl

theorem map_readStatus (h : ∀ ch ∈ changes, ch.Proper) :
    (readStatus (statusText changes)).map (fun e => (e.isUntracked, e.path)) =
      changes.map fun ch => (ch.isUntracked, ch.path) := by
  rw [readStatus_statusText h]
  cases changes with
  | nil => rfl
  | cons ch changes =>
    dsimp only
    rw [List.map_cons, List.map_cons, isUntracked_firstEntry, path_firstEntry, List.map_map]
    refine congrArg _ (List.map_congr_left fun ch' _ => ?_)
    rw [Function.comp_apply, isUntracked_entry]
    rfl

/-! ### Plain names -/

theorem quotePath_of_plain (h : plain n = true) : quotePath n = n := if_pos h

theorem not_mem_of_plain (h : plain n = true) : ' ' ∉ n := fun hc => (usual_of_plain h hc).2 rfl

theorem afterChars_arrow (h : ' ' ∉ l) : Py.afterChars arrow l = none := by
  have hnone : ¬ (Py.afterChars arrow l).isSome := by
    rw [Py.isSome_afterChars_iff]
    exact fun hmem => h (hmem.subset (by decide))
  exact Option.not_isSome_iff_eq_none.mp hnone

theorem pathOf_of_plain (h : plain n = true) : pathOf n = n := by
  have hquote : ∀ c ∈ n, c ≠ dquote := by
    rintro c hc rfl
    have hunusual := (usual_of_plain h hc).1
    revert hunusual
    decide
  rw [pathOf, afterChars_arrow (not_mem_of_plain h)]
  apply Py.stripChar_eq_self
  · rintro d cs rfl
    exact hquote d List.mem_cons_self
  · rintro cs d rfl
    exact hquote d (List.mem_append_right cs List.mem_cons_self)

theorem afterChars_append_arrow (h : ' ' ∉ l) (s : List Char) :
    Py.afterChars arrow (l ++ arrow ++ s) = some s := by
  rw [List.append_assoc]
  induction l with
  | nil => exact Py.afterChars_append (by decide)
  | cons c l ih =>
    have hc : ' ' ≠ c := fun he => h (he ▸ List.mem_cons_self)
    have hno : arrow.isPrefixOf (c :: (l ++ (arrow ++ s))) = false := by
      show (' ' == c && _) = false
      rw [beq_eq_false_iff_ne.mpr hc, Bool.false_and]
    rw [List.cons_append, Py.afterChars, hno]
    exact ih fun hl => h (List.mem_cons_of_mem c hl)

theorem path_of_plain (h : ch.Plain) : ch.path = ch.name := by
  cases ch with
  | tracked x y n =>
    show pathOf (quotePath n) = n
    rw [quotePath_of_plain h, pathOf_of_plain h]
  | renamed y old n =>
    show pathOf (quotePath old ++ arrow ++ quotePath n) = n
    rw [quotePath_of_plain h.1, quotePath_of_plain h.2, pathOf,
      afterChars_append_arrow (not_mem_of_plain h.1)]
  | untracked n => exact quotePath_of_plain h

end RmSync
