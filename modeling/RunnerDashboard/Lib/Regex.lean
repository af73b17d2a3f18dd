import Mathlib.Data.List.Basic

/-!
# Regular expressions with backtracking

The part of the `re` module of a Python program that its patterns need: texts, repeated character
classes, lazy repetitions, sequences, alternatives, options, named groups and `$`.  A pattern has
its *candidates* at a place of a text: the ways to match there, the preferred one first.  A match
is the first candidate, as a backtracking matcher finds it.

## Main definitions

* `Pattern` — patterns.
* `candidates a s` — the ways in which `a` matches a prefix of `s`, the preferred one first.
* `match?`, `search` — `re.match` and `re.search`.
* `Reads a s rest groups` — the first candidate, without the text that it consumed.
* `Pattern.Captures Q a` — every group of `a` captures only what `Q` allows.
* `Pattern.Binds name a` — the group takes part in every match.

## Main results

* `first_seq`, `first_seq_append`, `first_lazy` — the first candidate of a sequence.
* `first_many`, `first_some` — a repetition takes all that it can.
* `Reads.cons` — the rule for a sequence.
* `Pattern.Captures.of_mem`, `Pattern.Binds.isSome` — what the groups of a candidate hold.
-/

namespace Regex

/-! ### Patterns -/

/-- A pattern; a class of characters is a test. -/
inductive Pattern where
  | text (w : List Char)
  /-- `[…]*` -/
  | many (p : Char → Bool)
  /-- `[…]*?` -/
  | lazyMany (p : Char → Bool)
  /-- `[…]+` -/
  | some_ (p : Char → Bool)
  | seq (a b : Pattern)
  | alt (a b : Pattern)
  /-- `(?:…)?` -/
  | opt (a : Pattern)
  /-- `$`: the end, or the last line end. -/
  | atEnd
  | group (name : String) (a : Pattern)

/-- A way to match: the text that is consumed, the text after it, and the groups. -/
@[ext] structure Candidate where
  consumed : List Char
  rest : List Char
  groups : List (String × List Char)
  deriving DecidableEq, Repr

def Candidate.andThen (m n : Candidate) : Candidate :=
  ⟨m.consumed ++ n.consumed, n.rest, m.groups ++ n.groups⟩

def Candidate.named (name : String) (m : Candidate) : Candidate :=
  { m with groups := (name, m.consumed) :: m.groups }

/-- The text of a group, if it took part in the match. -/
def Candidate.group? (m : Candidate) (name : String) : Option (List Char) := m.groups.lookup name

/-- The prefixes of a class and what is after them, the shortest first. -/
def splits (p : Char → Bool) : List Char → List Candidate
  | [] => [⟨[], [], []⟩]
  | c :: s =>
    ⟨[], c :: s, []⟩ ::
      if p c then (splits p s).map fun m => { m with consumed := c :: m.consumed } else []

def dropText : List Char → List Char → Option (List Char)
  | [], s => some s
  | _ :: _, [] => none
  | c :: w, d :: s => if c = d then dropText w s else none

/-- The ways in which a pattern matches a prefix of the text, the preferred one first. -/
def candidates : Pattern → List Char → List Candidate
  | .text w, s => ((dropText w s).map fun rest => ⟨w, rest, []⟩).toList
  | .many p, s => (splits p s).reverse
  | .lazyMany p, s => splits p s
  | .some_ p, s => (splits p s).tail.reverse
  | .seq a b, s => (candidates a s).flatMap fun m => (candidates b m.rest).map m.andThen
  | .alt a b, s => candidates a s ++ candidates b s
  | .opt a, s => candidates a s ++ [⟨[], s, []⟩]
  | .atEnd, s => if s = [] ∨ s = ['\n'] then [⟨[], s, []⟩] else []
  | .group name a, s => (candidates a s).map (Candidate.named name)

/-- `pattern.match(text)`. -/
def match? (a : Pattern) (s : List Char) : Option Candidate := (candidates a s).head?

/-- `pattern.search(text)`: the match at the first place that has one. -/
def search (a : Pattern) : List Char → Option Candidate
  | [] => match? a []
  | c :: s => (match? a (c :: s)).orElse fun _ => search a s

def Pattern.seqAll : List Pattern → Pattern
  | [] => .text []
  | [a] => a
  | a :: b :: as => .seq a (seqAll (b :: as))

variable {a b : Pattern} {p : Char → Bool} {s u v w rest : List Char} {m n : Candidate}
  {name : String}

/-! ### The equations -/

theorem candidates_text (w s : List Char) :
    candidates (.text w) s = ((dropText w s).map fun rest => ⟨w, rest, []⟩).toList := rfl

theorem candidates_many (p : Char → Bool) (s : List Char) :
    candidates (.many p) s = (splits p s).reverse := rfl

theorem candidates_lazyMany (p : Char → Bool) (s : List Char) :
    candidates (.lazyMany p) s = splits p s := rfl

theorem candidates_some (p : Char → Bool) (s : List Char) :
    candidates (.some_ p) s = (splits p s).tail.reverse := rfl

theorem candidates_seq (a b : Pattern) (s : List Char) :
    candidates (.seq a b) s =
      (candidates a s).flatMap fun m => (candidates b m.rest).map m.andThen := rfl

theorem candidates_alt (a b : Pattern) (s : List Char) :
    candidates (.alt a b) s = candidates a s ++ candidates b s := rfl

theorem candidates_opt (a : Pattern) (s : List Char) :
    candidates (.opt a) s = candidates a s ++ [⟨[], s, []⟩] := rfl

theorem candidates_atEnd (s : List Char) :
    candidates .atEnd s = if s = [] ∨ s = ['\n'] then [⟨[], s, []⟩] else [] := rfl

theorem candidates_group (name : String) (a : Pattern) (s : List Char) :
    candidates (.group name a) s = (candidates a s).map (Candidate.named name) := rfl

theorem splits_cons (p : Char → Bool) (c : Char) (s : List Char) :
    splits p (c :: s) = ⟨[], c :: s, []⟩ ::
      if p c then (splits p s).map fun m => { m with consumed := c :: m.consumed } else [] := rfl

theorem dropText_cons (c d : Char) (w s : List Char) :
    dropText (c :: w) (d :: s) = if c = d then dropText w s else none := rfl

theorem search_cons (a : Pattern) (c : Char) (s : List Char) :
    search a (c :: s) = (match? a (c :: s)).orElse fun _ => search a s := rfl

/-! ### Texts -/

theorem dropText_append (w s : List Char) : dropText w (w ++ s) = some s := by
  induction w with
  | nil => rfl
  | cons c w ih =>
    rw [List.cons_append, dropText_cons, if_pos rfl]
    exact ih

theorem dropText_eq_some_iff : dropText w s = some rest ↔ s = w ++ rest := by
  constructor
  · intro h
    induction w generalizing s with
    | nil => exact Option.some.inj h
    | cons c w ih =>
      cases s with
      | nil => cases h
      | cons d s =>
        rw [dropText_cons] at h
        split_ifs at h with heq
        rw [heq, ih h, List.cons_append]
  · rintro rfl
    exact dropText_append w rest

theorem candidates_text_append (w s : List Char) :
    candidates (.text w) (w ++ s) = [⟨w, s, []⟩] := by
  rw [candidates_text, dropText_append]
  rfl

theorem candidates_text_eq_nil (h : ¬ w <+: s) : candidates (.text w) s = [] := by
  rw [candidates_text]
  cases hdrop : dropText w s with
  | none => rfl
  | some rest => exact absurd ⟨rest, (dropText_eq_some_iff.mp hdrop).symm⟩ h

/-! ### Repetitions -/

theorem mem_splits (h : m ∈ splits p s) :
    s = m.consumed ++ m.rest ∧ (∀ c ∈ m.consumed, p c = true) ∧ m.groups = [] := by
  induction s generalizing m with
  | nil =>
    obtain rfl := List.mem_singleton.mp h
    exact ⟨rfl, fun c hc => absurd hc List.not_mem_nil, rfl⟩
  | cons c s ih =>
    rw [splits_cons] at h
    rcases List.mem_cons.mp h with rfl | hlater
    · exact ⟨rfl, fun c hc => absurd hc List.not_mem_nil, rfl⟩
    · split_ifs at hlater with hp
      · obtain ⟨n, hn, rfl⟩ := List.mem_map.mp hlater
        obtain ⟨hs, hall, hgroups⟩ := ih hn
        refine ⟨congrArg (c :: ·) hs, ?_, hgroups⟩
        intro d hd
        rcases List.mem_cons.mp hd with rfl | hd
        · exact hp
        · exact hall d hd
      · exact absurd hlater List.not_mem_nil

theorem splits_ne_nil (p : Char → Bool) (s : List Char) : splits p s ≠ [] := by
  cases s with
  | nil => exact List.cons_ne_nil _ _
  | cons c s => exact List.cons_ne_nil _ _

theorem getLast_splits (hw : ∀ c ∈ w, p c = true) (hrest : ∀ c cs, rest = c :: cs → p c = false) :
    (splits p (w ++ rest)).getLast (splits_ne_nil p _) = ⟨w, rest, []⟩ := by
  induction w with
  | nil =>
    cases rest with
    | nil => rfl
    | cons c cs =>
      simp only [List.nil_append, splits_cons, hrest c cs rfl, Bool.false_eq_true, if_false,
        List.getLast_singleton]
  | cons c w ih =>
    have hc : p c = true := hw c List.mem_cons_self
    have htail := ih fun d hd => hw d (List.mem_cons_of_mem c hd)
    simp only [List.cons_append, splits_cons, hc, if_true]
    rw [List.getLast_cons (by simp [splits_ne_nil]), List.getLast_map, htail]

theorem mem_some (h : m ∈ candidates (.some_ p) s) :
    m.consumed ≠ [] ∧ ∀ c ∈ m.consumed, p c = true := by
  rw [candidates_some, List.mem_reverse] at h
  cases s with
  | nil => exact absurd h List.not_mem_nil
  | cons c s =>
    rw [splits_cons, List.tail_cons] at h
    split_ifs at h with hp
    · obtain ⟨n, hn, rfl⟩ := List.mem_map.mp h
      refine ⟨List.cons_ne_nil _ _, ?_⟩
      intro d hd
      rcases List.mem_cons.mp hd with rfl | hd
      · exact hp
      · exact (mem_splits hn).2.1 d hd
    · exact absurd h List.not_mem_nil

/-! ### The first candidate -/

def First (a : Pattern) (s : List Char) (m : Candidate) : Prop := match? a s = some m

theorem first_iff : First a s m ↔ (candidates a s).head? = some m := Iff.rfl

theorem first_text (w s : List Char) : First (.text w) (w ++ s) ⟨w, s, []⟩ := by
  rw [first_iff, candidates_text_append]
  rfl

theorem first_many (hw : ∀ c ∈ w, p c = true) (hrest : ∀ c cs, rest = c :: cs → p c = false) :
    First (.many p) (w ++ rest) ⟨w, rest, []⟩ := by
  rw [first_iff, candidates_many, List.head?_reverse,
    List.getLast?_eq_some_getLast (splits_ne_nil p _), getLast_splits hw hrest]

/-- A repetition that takes something takes all that it can. -/
theorem first_some (hne : w ≠ []) (hw : ∀ c ∈ w, p c = true)
    (hrest : ∀ c cs, rest = c :: cs → p c = false) :
    First (.some_ p) (w ++ rest) ⟨w, rest, []⟩ := by
  obtain ⟨c, w, rfl⟩ := List.exists_cons_of_ne_nil hne
  have hc : p c = true := hw c List.mem_cons_self
  have hlast := getLast_splits hw hrest
  rw [first_iff, candidates_some, List.head?_reverse]
  simp only [List.cons_append, splits_cons, hc, if_true, List.tail_cons] at hlast ⊢
  rw [List.getLast_cons (by simp [splits_ne_nil])] at hlast
  rw [List.getLast?_eq_some_getLast (by simp [splits_ne_nil]), hlast]

theorem first_group (h : First a s m) : First (.group name a) s (m.named name) := by
  rw [first_iff] at h ⊢
  rw [candidates_group, List.head?_map, h]
  rfl

theorem first_all (w : List Char) :
    First (.group name (.many fun _ => true)) w ⟨w, [], [(name, w)]⟩ := by
  have hmany : First (.many fun _ => true) (w ++ []) ⟨w, [], []⟩ :=
    first_many (fun _ _ => rfl) fun c cs h => absurd h (List.cons_ne_nil c cs).symm
  rw [List.append_nil] at hmany
  exact first_group hmany

theorem first_opt (h : First a s m) : First (.opt a) s m := by
  rw [first_iff] at h ⊢
  rw [candidates_opt, List.head?_append, h]
  rfl

theorem first_opt_none (h : candidates a s = []) : First (.opt a) s ⟨[], s, []⟩ := by
  rw [first_iff, candidates_opt, h]
  rfl

theorem first_alt_left (h : First a s m) : First (.alt a b) s m := by
  rw [first_iff] at h ⊢
  rw [candidates_alt, List.head?_append, h]
  rfl

/-- A sequence whose first pattern is matched by the first candidate after which the second one
matches. -/
theorem first_seq_append (before : List Candidate) {after : List Candidate}
    (hcands : candidates a s = before ++ m :: after)
    (hbefore : ∀ x ∈ before, candidates b x.rest = []) (h : First b m.rest n) :
    First (.seq a b) s (m.andThen n) := by
  rw [first_iff] at h ⊢
  rw [candidates_seq, hcands, List.flatMap_append, List.flatMap_cons]
  have hnone : before.flatMap (fun x => (candidates b x.rest).map x.andThen) = [] := by
    refine List.flatMap_eq_nil_iff.mpr fun x hx => ?_
    rw [hbefore x hx]
    rfl
  rw [hnone, List.nil_append, List.head?_append, List.head?_map, h]
  rfl

/-- A sequence whose second pattern matches after the first candidate of the first one. -/
theorem first_seq (ha : First a s m) (hb : First b m.rest n) :
    First (.seq a b) s (m.andThen n) := by
  rw [first_iff] at ha
  cases hcands : candidates a s with
  | nil => rw [hcands] at ha; cases ha
  | cons x xs =>
    rw [hcands] at ha
    obtain rfl := Option.some.inj ha
    exact first_seq_append [] hcands (fun x hx => absurd hx List.not_mem_nil) hb

/-- **A lazy group** stops at the first place after which the rest of the pattern matches. -/
theorem first_lazy (hw : ∀ c ∈ w, p c = true)
    (hnot : ∀ u v, w = u ++ v → v ≠ [] → candidates b (v ++ rest) = []) (h : First b rest n) :
    First (.seq (.group name (.lazyMany p)) b) (w ++ rest)
      ⟨w ++ n.consumed, n.rest, (name, w) :: n.groups⟩ := by
  -- the splits of the text are the prefixes of `w`, one after the other
  have hsplit : ∃ before after, splits p (w ++ rest) = before ++ ⟨w, rest, []⟩ :: after ∧
      ∀ x ∈ before, ∃ u v, w = u ++ v ∧ v ≠ [] ∧ x.rest = v ++ rest := by
    clear hnot h
    induction w with
    | nil =>
      cases rest with
      | nil => exact ⟨[], [], rfl, fun x hx => absurd hx List.not_mem_nil⟩
      | cons c cs => exact ⟨[], _, rfl, fun x hx => absurd hx List.not_mem_nil⟩
    | cons c w ih =>
      obtain ⟨before, after, hsplit, hbefore⟩ := ih fun d hd => hw d (List.mem_cons_of_mem c hd)
      refine ⟨⟨[], c :: (w ++ rest), []⟩ :: before.map fun m =>
        { m with consumed := c :: m.consumed },
        after.map fun m => { m with consumed := c :: m.consumed }, ?_, ?_⟩
      · rw [List.cons_append, splits_cons, if_pos (hw c List.mem_cons_self), hsplit,
          List.map_append]
        rfl
      · intro x hx
        rcases List.mem_cons.mp hx with rfl | hx
        · exact ⟨[], c :: w, rfl, List.cons_ne_nil _ _, rfl⟩
        · obtain ⟨y, hy, rfl⟩ := List.mem_map.mp hx
          obtain ⟨u, v, huv, hv, hrest⟩ := hbefore y hy
          exact ⟨c :: u, v, congrArg (c :: ·) huv, hv, hrest⟩
  obtain ⟨before, after, hsplit, hbefore⟩ := hsplit
  have hcands : candidates (.group name (.lazyMany p)) (w ++ rest) =
      before.map (Candidate.named name) ++ ⟨w, rest, [(name, w)]⟩ ::
        after.map (Candidate.named name) := by
    rw [candidates_group, candidates_lazyMany, hsplit, List.map_append]
    rfl
  refine first_seq_append _ hcands ?_ h
  intro x hx
  obtain ⟨y, hy, rfl⟩ := List.mem_map.mp hx
  obtain ⟨u, v, huv, hv, hrest⟩ := hbefore y hy
  show candidates b y.rest = []
  rw [hrest]
  exact hnot u v huv hv

/-- The first candidate leaves this rest, with these groups. -/
def Reads (a : Pattern) (s rest : List Char) (groups : List (String × List Char)) : Prop :=
  ∃ consumed, First a s ⟨consumed, rest, groups⟩

theorem First.reads {groups : List (String × List Char)} (h : First a s ⟨w, rest, groups⟩) :
    Reads a s rest groups := ⟨w, h⟩

/-- **The rule for a sequence**: the first pattern reads its part of the text, and the others read
the rest. -/
theorem Reads.cons {as : List Pattern} {g g' : List (String × List Char)}
    (ha : First a (w ++ s) ⟨w, s, g⟩) (has : Reads (.seqAll (b :: as)) s rest g') :
    Reads (.seqAll (a :: b :: as)) (w ++ s) rest (g ++ g') := by
  obtain ⟨consumed, has⟩ := has
  exact ⟨w ++ consumed, first_seq ha has⟩

/-! ### Searching -/

theorem search_of_first (h : First a s m) : search a s = some m := by
  cases s with
  | nil => exact h
  | cons c s =>
    have hmatch : match? a (c :: s) = some m := h
    rw [search_cons, hmatch]
    rfl

theorem mem_of_search (h : search a s = some m) : ∃ t, m ∈ candidates a t := by
  induction s with
  | nil => exact ⟨[], List.mem_of_head? h⟩
  | cons c s ih =>
    rw [search_cons] at h
    cases hmatch : match? a (c :: s) with
    | none =>
      rw [hmatch] at h
      exact ih h
    | some n =>
      rw [hmatch] at h
      obtain rfl := Option.some.inj h
      exact ⟨c :: s, List.mem_of_head? hmatch⟩

/-! ### Groups -/

/-- Every group captures only what is allowed. -/
def Pattern.Captures (Q : String → List Char → Prop) : Pattern → Prop
  | .seq a b => a.Captures Q ∧ b.Captures Q
  | .alt a b => a.Captures Q ∧ b.Captures Q
  | .opt a => a.Captures Q
  | .group name a => a.Captures Q ∧ ∀ s, ∀ m ∈ candidates a s, Q name m.consumed
  | _ => True

/-- **What the groups of a candidate hold.** -/
theorem Pattern.Captures.of_mem {Q : String → List Char → Prop} (h : a.Captures Q)
    (hm : m ∈ candidates a s) : ∀ x ∈ m.groups, Q x.1 x.2 := by
  induction a generalizing s m with
  | text w =>
    obtain ⟨rest, -, rfl⟩ := Option.map_eq_some_iff.mp (Option.mem_toList.mp hm)
    exact fun x hx => absurd hx List.not_mem_nil
  | many p =>
    rw [(mem_splits (List.mem_reverse.mp hm)).2.2]
    exact fun x hx => absurd hx List.not_mem_nil
  | lazyMany p =>
    rw [(mem_splits hm).2.2]
    exact fun x hx => absurd hx List.not_mem_nil
  | some_ p =>
    rw [(mem_splits (List.mem_of_mem_tail (List.mem_reverse.mp hm))).2.2]
    exact fun x hx => absurd hx List.not_mem_nil
  | seq a b iha ihb =>
    obtain ⟨m₁, hm₁, hm⟩ := List.mem_flatMap.mp hm
    obtain ⟨m₂, hm₂, rfl⟩ := List.mem_map.mp hm
    intro x hx
    rcases List.mem_append.mp hx with hx | hx
    · exact iha h.1 hm₁ x hx
    · exact ihb h.2 hm₂ x hx
  | alt a b iha ihb =>
    rcases List.mem_append.mp hm with hm | hm
    · exact iha h.1 hm
    · exact ihb h.2 hm
  | opt a iha =>
    rcases List.mem_append.mp hm with hm | hm
    · exact iha h hm
    · rw [List.mem_singleton.mp hm]
      exact fun x hx => absurd hx List.not_mem_nil
  | atEnd =>
    rw [candidates_atEnd] at hm
    split_ifs at hm with hend
    · rw [List.mem_singleton.mp hm]
      exact fun x hx => absurd hx List.not_mem_nil
    · exact absurd hm List.not_mem_nil
  | group name a iha =>
    obtain ⟨m₁, hm₁, rfl⟩ := List.mem_map.mp hm
    intro x hx
    rcases List.mem_cons.mp hx with rfl | hx
    · exact h.2 s m₁ hm₁
    · exact iha h.1 hm₁ x hx

theorem Pattern.Captures.of_group? {Q : String → List Char → Prop} (h : a.Captures Q)
    (hm : m ∈ candidates a s) (hw : m.group? name = some w) : Q name w := by
  obtain ⟨l₁, l₂, hgroups, -⟩ := List.lookup_eq_some_iff.mp hw
  exact h.of_mem hm (name, w) (hgroups ▸ List.mem_append_right l₁ List.mem_cons_self)

/-- The group takes part in every match. -/
def Pattern.Binds (name : String) : Pattern → Prop
  | .seq a b => a.Binds name ∨ b.Binds name
  | .group name' a => name' = name ∨ a.Binds name
  | _ => False

/-- A group that takes part in every match has a text. -/
theorem Pattern.Binds.isSome (h : a.Binds name) (hm : m ∈ candidates a s) :
    (m.group? name).isSome = true := by
  have hex : ∃ w, (name, w) ∈ m.groups := by
    induction a generalizing s m with
    | seq a b iha ihb =>
      obtain ⟨m₁, hm₁, hm⟩ := List.mem_flatMap.mp hm
      obtain ⟨m₂, hm₂, rfl⟩ := List.mem_map.mp hm
      rcases h with h | h
      · obtain ⟨w, hw⟩ := iha h hm₁
        exact ⟨w, List.mem_append_left _ hw⟩
      · obtain ⟨w, hw⟩ := ihb h hm₂
        exact ⟨w, List.mem_append_right _ hw⟩
    | group name' a iha =>
      obtain ⟨m₁, hm₁, rfl⟩ := List.mem_map.mp hm
      rcases h with rfl | h
      · exact ⟨m₁.consumed, List.mem_cons_self⟩
      · obtain ⟨w, hw⟩ := iha h hm₁
        exact ⟨w, List.mem_cons_of_mem _ hw⟩
    | _ => exact absurd h id
  obtain ⟨w, hw⟩ := hex
  cases hlookup : m.groups.lookup name with
  | none => exact absurd rfl (bne_iff_ne.mp (List.lookup_eq_none_iff.mp hlookup (name, w) hw))
  | some w' => rw [Candidate.group?, hlookup]; rfl

end Regex
