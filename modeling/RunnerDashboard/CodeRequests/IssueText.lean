import RunnerDashboard.CodeRequests.Store

/-!
# The texts of an issue

What a store writes into an issue and reads back: the body with its front matter, and the comment
of a transition.

## Main results

* `parseAuditComment_iff` — **the comment of an event is read back exactly if it is readable.**
-/

namespace CodeRequests

open Regex

/-! ### The comment of a transition -/

/-- The text of the comment, in the parts that the pattern has. -/
def auditText (fromState toState actor suffix reason : List Char) : List Char :=
  "**[Code Request]**".toList ++ (" ".toList ++ ("State changed from".toList ++ (" ".toList ++
  ("`".toList ++ (fromState ++ ("`".toList ++ (" ".toList ++ ("to".toList ++ (" ".toList ++
  ("`".toList ++ (toState ++ ("`".toList ++ (" ".toList ++ ("by".toList ++ (" ".toList ++
  ("`".toList ++ (actor ++ ("`.".toList ++ (suffix ++ ("\n\n**Reason:**".toList ++
  (" ".toList ++ reason)))))))))))))))))))))

variable {event event' : CodeRequestAuditEvent} {createdAt : String} {s w : List Char}
  {p : Char → Bool}

theorem toList_auditComment (event : CodeRequestAuditEvent) :
    (auditComment event).toList = auditText event.fromState.value.toList event.toState.value.toList
      event.actor.toList (if event.override then " (override)" else "").toList
      (Py.strip event.reason).toList := by
  have h₁ : "**[Code Request]** State changed from `" =
      "**[Code Request]**" ++ (" " ++ ("State changed from" ++ (" " ++ "`"))) := by decide +kernel
  have h₂ : "` to `" = "`" ++ (" " ++ ("to" ++ (" " ++ "`"))) := by decide +kernel
  have h₃ : "` by `" = "`" ++ (" " ++ ("by" ++ (" " ++ "`"))) := by decide +kernel
  have h₄ : "\n\n**Reason:** " = "\n\n**Reason:**" ++ " " := by decide +kernel
  unfold auditComment auditText
  rw [h₁, h₂, h₃, h₄]
  simp only [String.toList_append, List.append_assoc]

/-- The first character of a text that starts with a word. -/
theorem head_append (h : w.head?.map p = some false) (s : List Char) :
    ∀ c cs, w ++ s = c :: cs → p c = false := by
  intro c cs heq
  cases w with
  | nil => cases h
  | cons d w =>
    obtain ⟨rfl, -⟩ := List.cons.inj heq
    exact Option.some.inj h

theorem first_blank (h : ∀ c cs, s = c :: cs → Py.isSpace c = false) :
    First (.some_ Py.isSpace) (" ".toList ++ s) ⟨" ".toList, s, []⟩ :=
  first_some (by decide) (List.all_eq_true.mp (by decide)) h

theorem first_quoted (name : String) (hne : w ≠ []) (hw : ∀ c ∈ w, noBacktick c = true)
    (hs : ∀ c cs, s = c :: cs → noBacktick c = false) :
    First (.group name (.some_ noBacktick)) (w ++ s) ⟨w, s, [(name, w)]⟩ :=
  first_group (first_some hne hw hs)

/-- The mark of an override is read, or there is none. -/
theorem first_override {suffix : List Char} (h : suffix = " (override)".toList ∨ suffix = [])
    (s : List Char) :
    First (.opt (.seq (.some_ Py.isSpace) (.text "(override)".toList)))
      (suffix ++ ("\n\n**Reason:**".toList ++ s)) ⟨suffix, "\n\n**Reason:**".toList ++ s, []⟩ := by
  rcases h with rfl | rfl
  · have hblank := first_blank (head_append (w := "(override)".toList) (by decide)
      ("\n\n**Reason:**".toList ++ s))
    have htext := first_text "(override)".toList ("\n\n**Reason:**".toList ++ s)
    have hsplit : " (override)".toList = " ".toList ++ "(override)".toList := by decide
    rw [hsplit, List.append_assoc]
    exact first_opt (first_seq hblank htext)
  · -- the line ends are blank, but no mark is after them
    exact first_opt_none rfl

/-- **The pattern reads the comment.** -/
theorem reads_auditText {fromState toState actor suffix reason : List Char}
    (hfrom : fromState ≠ []) (hfrom' : ∀ c ∈ fromState, noBacktick c = true)
    (hto : toState ≠ []) (hto' : ∀ c ∈ toState, noBacktick c = true)
    (hactor : actor ≠ []) (hactor' : ∀ c ∈ actor, noBacktick c = true)
    (hsuffix : suffix = " (override)".toList ∨ suffix = [])
    (hreason : ∀ c cs, reason = c :: cs → Py.isSpace c = false) :
    Reads auditCommentPattern (auditText fromState toState actor suffix reason) []
      [("from_state", fromState), ("to_state", toState), ("actor", actor), ("reason", reason)] := by
  unfold auditCommentPattern auditText
  have hquote := fun s => head_append (w := "`".toList) (p := noBacktick) (by decide) s
  have hdot := fun s => head_append (w := "`.".toList) (p := noBacktick) (by decide) s
  have hblank := fun s => head_append (w := "`".toList) (p := Py.isSpace) (by decide) s
  refine .cons (first_text _ _) (.cons (first_blank (head_append (by decide) _)) ?_)
  refine .cons (first_text _ _) (.cons (first_blank (hblank _)) ?_)
  refine .cons (first_text _ _) (.cons (first_quoted _ hfrom hfrom' (hquote _)) ?_)
  refine .cons (first_text _ _) (.cons (first_blank (head_append (by decide) _)) ?_)
  refine .cons (first_text _ _) (.cons (first_blank (hblank _)) ?_)
  refine .cons (first_text _ _) (.cons (first_quoted _ hto hto' (hquote _)) ?_)
  refine .cons (first_text _ _) (.cons (first_blank (head_append (by decide) _)) ?_)
  refine .cons (first_text _ _) (.cons (first_blank (hblank _)) ?_)
  refine .cons (first_text _ _) (.cons (first_quoted _ hactor hactor' (hdot _)) ?_)
  refine .cons (first_text _ _) (.cons (first_override hsuffix _) ?_)
  -- the reason is the rest of the text
  have hall : First (.group "reason" (.many fun _ => true)) reason
      ⟨reason, [], [("reason", reason)]⟩ := first_all reason
  have hspaces : First (.many Py.isSpace) (" ".toList ++ reason) ⟨" ".toList, reason, []⟩ :=
    first_many (List.all_eq_true.mp (by decide)) hreason
  exact (first_opt (first_seq (first_text _ _) (first_seq hspaces hall))).reads

theorem value_noBacktick (state : CodeRequestState) :
    state.value.toList ≠ [] ∧ ∀ c ∈ state.value.toList, noBacktick c = true := by
  cases state <;> exact ⟨by decide, List.all_eq_true.mp (by decide)⟩

/-- The texts between the parts of a comment have no mark of an override. -/
theorem override_infix_iff (event : CodeRequestAuditEvent) :
    "(override)".toList <:+: (auditComment event).toList ↔
      event.override = true ∨ "(override)".toList <:+: event.actor.toList ∨
        "(override)".toList <:+: (Py.strip event.reason).toList := by
  have hblank : ∀ a b, "(override)".toList <:+: a ++ (" ".toList ++ b) ↔
      "(override)".toList <:+: a ∨ "(override)".toList <:+: b :=
    fun a b => Py.infix_append_cons_iff (by decide)
  have hquote : ∀ a b, "(override)".toList <:+: a ++ ("`".toList ++ b) ↔
      "(override)".toList <:+: a ∨ "(override)".toList <:+: b :=
    fun a b => Py.infix_append_cons_iff (by decide)
  have hdot : ∀ a b, "(override)".toList <:+: a ++ ("`.".toList ++ b) ↔
      "(override)".toList <:+: a ∨ "(override)".toList <:+: b := by
    intro a b
    rw [show "`.".toList ++ b = "`".toList ++ ([] ++ '.' :: b) from rfl, hquote,
      Py.infix_append_cons_iff (by decide)]
    simp
  have hvalue : ∀ state : CodeRequestState, ¬ "(override)".toList <:+: state.value.toList := by
    intro state
    cases state <;> decide +kernel
  have h₁ : ¬ "(override)".toList <:+: "**[Code Request]**".toList := by decide +kernel
  have h₂ : ¬ "(override)".toList <:+: "State changed from".toList := by decide +kernel
  have h₃ : ¬ "(override)".toList <:+: "to".toList := by decide +kernel
  have h₄ : ¬ "(override)".toList <:+: "by".toList := by decide +kernel
  have h₅ : ¬ "(override)".toList <:+: "\n\n**Reason:**".toList := by decide +kernel
  have h₆ : ¬ "(override)".toList <:+: [] := by decide +kernel
  have hquote' : ∀ b, "(override)".toList <:+: "`".toList ++ b ↔ "(override)".toList <:+: b :=
    fun b => (hquote [] b).trans (or_iff_right h₆)
  have hblank' : ∀ b, "(override)".toList <:+: " ".toList ++ b ↔ "(override)".toList <:+: b :=
    fun b => (hblank [] b).trans (or_iff_right h₆)
  rw [toList_auditComment]
  unfold auditText
  cases hmark : event.override with
  | true =>
    refine iff_of_true ?_ (.inl rfl)
    have hsplit : (if true = true then " (override)" else "").toList =
        " ".toList ++ "(override)".toList := by decide +kernel
    rw [hsplit]
    simp only [hblank, hblank', hquote, hquote', hdot, List.append_assoc, List.infix_append_left,
      or_true]
  | false =>
    have hnone : (if false = true then " (override)" else "").toList = [] := rfl
    rw [hnone]
    simp only [hblank, hblank', hquote, hquote', hdot, List.nil_append, hvalue, h₁, h₂, h₃, h₄,
      h₅, false_or,
      Bool.false_eq_true]

/-- The events whose comment is read back: the actor is a text without a backtick, and nothing
looks like the mark of an override but the mark. -/
structure Readable (event : CodeRequestAuditEvent) : Prop where
  actor : event.actor ≠ ""
  noBacktick : ∀ c ∈ event.actor.toList, noBacktick c = true
  noMark : event.override = false → Py.contains "(override)" event.actor = false ∧
    Py.contains "(override)" (Py.strip event.reason) = false

/-- What is compared of an event: all but the timestamp, and the reason without the white space
around it. -/
def CodeRequestAuditEvent.core (event : CodeRequestAuditEvent) :
    String × CodeRequestState × CodeRequestState × String × Bool :=
  (event.actor, event.fromState, event.toState, Py.strip event.reason, event.override)

/-- The mark of an override is read as it was written. -/
theorem contains_override_iff (event : CodeRequestAuditEvent) :
    Py.contains "(override)" (auditComment event) = event.override ↔
      (event.override = false → Py.contains "(override)" event.actor = false ∧
        Py.contains "(override)" (Py.strip event.reason) = false) := by
  have hsub := override_infix_iff event
  rw [← Py.contains_iff, ← Py.contains_iff, ← Py.contains_iff] at hsub
  cases hmark : event.override with
  | true => exact iff_of_true (hsub.mpr (.inl hmark)) (fun h => Bool.noConfusion h)
  | false =>
    rw [← Bool.not_eq_true, hsub, hmark]
    simp

theorem search_auditComment (hactor : event.actor ≠ "")
    (hbacktick : ∀ c ∈ event.actor.toList, noBacktick c = true) :
    ∃ consumed, search auditCommentPattern (auditComment event).toList = some ⟨consumed, [],
      [("from_state", event.fromState.value.toList), ("to_state", event.toState.value.toList),
        ("actor", event.actor.toList), ("reason", (Py.strip event.reason).toList)]⟩ := by
  obtain ⟨hfrom, hfrom'⟩ := value_noBacktick event.fromState
  obtain ⟨hto, hto'⟩ := value_noBacktick event.toState
  have hne : event.actor.toList ≠ [] := fun h => hactor (String.toList_eq_nil_iff.mp h)
  have hsuffix : (if event.override then " (override)" else "").toList = " (override)".toList ∨
      (if event.override then " (override)" else "").toList = [] := by
    cases event.override with
    | true => exact .inl rfl
    | false => exact .inr rfl
  have hreason : ∀ c cs, (Py.strip event.reason).toList = c :: cs → Py.isSpace c = false := by
    intro c cs h
    rw [Py.strip, String.toList_ofList] at h
    exact Py.stripChars_head h
  obtain ⟨consumed, hfirst⟩ :=
    reads_auditText hfrom hfrom' hto hto' hne hbacktick hsuffix hreason
  rw [← toList_auditComment] at hfirst
  exact ⟨consumed, search_of_first hfirst⟩

/-- **The comment of an event whose actor has no backtick is read back**, but for the mark of an
override. -/
theorem parseAuditComment_eq (hactor : event.actor ≠ "")
    (hbacktick : ∀ c ∈ event.actor.toList, noBacktick c = true) (createdAt : String) :
    parseAuditComment ⟨auditComment event, createdAt⟩ = some { event with
      reason := Py.strip event.reason
      timestamp := createdAt
      override := Py.contains "(override)" (auditComment event) } := by
  obtain ⟨consumed, hsearch⟩ := search_auditComment hactor hbacktick
  unfold parseAuditComment
  rw [hsearch]
  simp [Candidate.group?, String.ofList_toList, Py.strip_strip, List.lookup_cons]

theorem actor_of_parse {comment : Comment} (h : parseAuditComment comment = some event) :
    event.actor ≠ "" ∧ ∀ c ∈ event.actor.toList, noBacktick c = true := by
  obtain ⟨found, hsearch, h⟩ := Option.bind_eq_some_iff.mp h
  obtain ⟨fromState, -, h⟩ := Option.bind_eq_some_iff.mp h
  obtain ⟨toState, -, h⟩ := Option.bind_eq_some_iff.mp h
  obtain rfl := Option.some.inj h
  obtain ⟨t, hfound⟩ := mem_of_search hsearch
  have hbinds : auditCommentPattern.Binds "actor" := by
    simp [auditCommentPattern, Pattern.seqAll, Pattern.Binds]
  obtain ⟨w, hw⟩ := Option.isSome_iff_exists.mp (hbinds.isSome hfound)
  have hcaptures : auditCommentPattern.Captures fun name w => name = "actor" →
      w ≠ [] ∧ ∀ c ∈ w, noBacktick c = true := by
    simp only [auditCommentPattern, Pattern.seqAll, Pattern.Captures, true_and, and_true]
    refine ⟨?_, ?_, ?_, ?_⟩
    · intro s m hm hname
      exact absurd hname (by decide)
    · intro s m hm hname
      exact absurd hname (by decide)
    · intro s m hm _
      exact mem_some hm
    · intro s m hm hname
      exact absurd hname (by decide)
  obtain ⟨hne, hall⟩ := hcaptures.of_group? hfound hw rfl
  simp only [hw, Option.getD_some, String.toList_ofList]
  refine ⟨fun h => hne ?_, hall⟩
  rw [← String.toList_ofList (l := w), h]
  rfl

/-- **The comment of an event is read back exactly if it is readable.** -/
theorem parseAuditComment_iff (event : CodeRequestAuditEvent) (createdAt : String) :
    (∃ event', parseAuditComment ⟨auditComment event, createdAt⟩ = some event' ∧
      event'.core = event.core) ↔ Readable event := by
  constructor
  · rintro ⟨event', hparse, hcore⟩
    have hactor' : event'.actor = event.actor := congrArg Prod.fst hcore
    have hmark : event'.override = event.override := congrArg (fun x => x.2.2.2.2) hcore
    obtain ⟨hactor, hbacktick⟩ := actor_of_parse hparse
    rw [hactor'] at hactor hbacktick
    refine ⟨hactor, hbacktick, (contains_override_iff event).mp ?_⟩
    rw [parseAuditComment_eq hactor hbacktick] at hparse
    rw [← hmark, ← Option.some.inj hparse]
  · rintro ⟨hactor, hbacktick, hmark⟩
    refine ⟨_, parseAuditComment_eq hactor hbacktick createdAt, ?_⟩
    unfold CodeRequestAuditEvent.core
    rw [(contains_override_iff event).mpr hmark, Py.strip_strip]

/-! ### The front matter -/

/-- What is needed of YAML, for the payload of a front matter: its text is read back, is not blank,
and no line of it starts with a fence. -/
structure Library.Lawful (L : Library) : Prop where
  load_dump : ∀ request, L.safeLoad (Py.strip (L.safeDump (frontMatterPayload request))) =
    some (.obj (frontMatterPayload request))
  dump_ne : ∀ request, Py.strip (L.safeDump (frontMatterPayload request)) ≠ ""
  no_fence : ∀ request,
    ¬ "\n```".toList <:+: (Py.strip (L.safeDump (frontMatterPayload request))).toList

theorem not_prefix_fence {u v rest : List Char} (hfence : ¬ "\n```".toList <:+: u ++ v)
    (hv : v ≠ []) :
    ¬ "\n```".toList <+: v ++ ("\n```".toList ++ rest) := by
  have hlist : "\n```".toList = ['\n', Char.ofNat 96, Char.ofNat 96, Char.ofNat 96] := rfl
  have hne : Char.ofNat 96 ≠ '\n' := by decide
  rw [hlist] at hfence ⊢
  intro hpre
  -- with less than four characters of `v` the line end of the next fence is too early
  match v with
  | [] => exact hv rfl
  | [a] => simp [List.cons_prefix_cons, hne] at hpre
  | [a, b] => simp [List.cons_prefix_cons, hne] at hpre
  | [a, b, c] => simp [List.cons_prefix_cons, hne] at hpre
  | a :: b :: c :: d :: v =>
    refine hfence (List.infix_append_of_infix_right ?_)
    simp only [List.cons_append, List.cons_prefix_cons, List.nil_prefix, and_true] at hpre
    obtain ⟨rfl, rfl, rfl, rfl⟩ := hpre
    exact ⟨[], v, rfl⟩

theorem candidates_seq_eq_nil {a b : Pattern} (h : candidates a s = []) :
    candidates (.seq a b) s = [] := by
  rw [candidates_seq, h]
  rfl

/-- **The pattern reads the front matter.** -/
theorem reads_frontMatter {yaml : List Char} (rest : List Char)
    (hhead : yaml.head?.map Py.isSpace = some false) (hfence : ¬ "\n```".toList <:+: yaml) :
    Reads frontMatterPattern
      ("```yaml".toList ++ ("\n".toList ++ (yaml ++ ("\n```".toList ++ ("\n".toList ++ rest))))) []
      [("1", yaml), ("2", rest)] := by
  unfold frontMatterPattern
  refine .cons (first_text _ _) ?_
  have hall : First (.group "2" (.many fun _ => true)) rest ⟨rest, [], [("2", rest)]⟩ :=
    first_all rest
  have hend : First (.alt (.seq (.opt (.text ['\r'])) (.text ['\n'])) .atEnd) ("\n".toList ++ rest)
      ⟨"\n".toList, rest, []⟩ :=
    first_alt_left (first_seq (first_opt_none rfl) (first_text ['\n'] rest))
  have hclose := first_seq (first_text "\n```".toList ("\n".toList ++ rest)) (first_seq hend hall)
  have hlazy := @first_lazy _ (fun _ => true) yaml _ _ "1" (fun _ _ => rfl)
    (fun u v huv hv => candidates_seq_eq_nil
      (candidates_text_eq_nil (not_prefix_fence (huv ▸ hfence) hv))) hclose
  have hline := first_seq (first_text "\n".toList _) hlazy
  -- the blanks after the opening fence are tried with the line end first, and then without it
  obtain ⟨c, cs, rfl⟩ : ∃ c cs, yaml = c :: cs := by
    cases yaml with
    | nil => cases hhead
    | cons c cs => exact ⟨c, cs, rfl⟩
  have hc : Py.isSpace c = false := Option.some.inj hhead
  have hcands : ∀ t, candidates (.many Py.isSpace) ("\n".toList ++ (c :: cs ++ t)) =
      [⟨['\n'], c :: cs ++ t, []⟩] ++ ⟨[], "\n".toList ++ (c :: cs ++ t), []⟩ :: [] := by
    intro t
    have hnewline : Py.isSpace '\n' = true := by decide
    simp [candidates, splits, hc, hnewline]
  refine ⟨_, first_seq_append _ (hcands _) ?_ hline⟩
  intro x hx
  rw [List.mem_singleton.mp hx]
  refine candidates_seq_eq_nil (candidates_text_eq_nil ?_)
  intro hpre
  obtain ⟨rfl, -⟩ := List.cons_prefix_cons.mp hpre
  exact absurd hc (by decide)

/-! ### The body of an issue -/

/-- A text that ends with a stripped one, and does not start with white space. -/
theorem stripChars_append {l : List Char} (hw : w.head?.map Py.isSpace = some false)
    (hl : Py.stripChars l ≠ []) :
    Py.stripChars (w ++ Py.stripChars l) = w ++ Py.stripChars l := by
  refine Py.stripChars_eq_self (head_append hw _) ?_
  intro cs c h
  obtain ⟨ds, d, hd⟩ := (List.eq_nil_or_concat (Py.stripChars l)).resolve_left hl
  rw [List.concat_eq_append] at hd
  rw [hd, ← List.append_assoc] at h
  obtain ⟨-, hcd⟩ := List.append_inj' h rfl
  rw [← (List.cons.inj hcd).1]
  exact Py.stripChars_last hd

/-- **The prompt is found under its heading.** -/
theorem promptOf_section {prompt : String} (hprompt : Py.strip prompt ≠ "") :
    promptOf (String.ofList ("\n## Prompt\n\n".toList ++ (Py.strip prompt).toList)) =
      Py.strip prompt := by
  have hne : Py.stripChars prompt.toList ≠ [] := fun h => hprompt (by rw [Py.strip, h])
  have hchars : (Py.strip prompt).toList = Py.stripChars prompt.toList := String.toList_ofList
  have hline : "\n## Prompt\n\n".toList = "\n".toList ++ "## Prompt\n\n".toList := by
    decide +kernel
  have hheading : "## Prompt\n\n".toList = "## Prompt".toList ++ "\n\n".toList := by decide +kernel
  have hstrip : Py.strip (String.ofList ("\n## Prompt\n\n".toList ++ (Py.strip prompt).toList)) =
      String.ofList ("## Prompt".toList ++ ("\n\n".toList ++ (Py.strip prompt).toList)) := by
    rw [Py.strip, String.toList_ofList, hline, List.append_assoc,
      Py.stripChars_spaces_append (List.all_eq_true.mp (by decide)), hchars,
      stripChars_append (w := "## Prompt\n\n".toList) (by decide) hne, hheading, List.append_assoc]
  unfold promptOf
  rw [hstrip]
  have hafter : Py.after? "## Prompt"
      (String.ofList ("## Prompt".toList ++ ("\n\n".toList ++ (Py.strip prompt).toList))) =
      some (String.ofList ("\n\n".toList ++ (Py.strip prompt).toList)) := by
    unfold Py.after?
    rw [String.toList_ofList (l := _ ++ _), Py.afterChars_append (by decide)]
    rfl
  rw [hafter]
  dsimp only
  rw [Py.strip, String.toList_ofList,
    Py.stripChars_spaces_append (List.all_eq_true.mp (by decide)), hchars,
    Py.stripChars_stripChars]
  rfl

variable {L : Library} {request : CodeRequest} {issue : Issue} {repo : String}

/-- The text of a body, in the parts that the pattern has. -/
theorem strip_serializeIssueBody (hprompt : Py.strip request.prompt ≠ "") :
    (Py.strip (serializeIssueBody L request)).toList =
      "```yaml".toList ++
        ("\n".toList ++ ((Py.strip (L.safeDump (frontMatterPayload request))).toList ++
        ("\n```".toList ++ ("\n".toList ++
          ("\n## Prompt\n\n".toList ++ (Py.strip request.prompt).toList))))) := by
  have hne : Py.stripChars request.prompt.toList ≠ [] :=
    fun h => hprompt (by rw [Py.strip, h])
  have hchars : (Py.strip request.prompt).toList = Py.stripChars request.prompt.toList :=
    String.toList_ofList
  have hopen : "```yaml\n".toList = "```yaml".toList ++ "\n".toList := by decide +kernel
  have hheading : "\n\n".toList ++ "## Prompt\n\n".toList =
      "\n".toList ++ "\n## Prompt\n\n".toList := by decide +kernel
  have hbody : (serializeIssueBody L request).toList =
      ("```yaml".toList ++
        ("\n".toList ++ ((Py.strip (L.safeDump (frontMatterPayload request))).toList
        ++ ("\n```".toList ++ ("\n".toList ++ "\n## Prompt\n\n".toList)))) ++
        Py.stripChars request.prompt.toList) ++ "\n".toList := by
    unfold serializeIssueBody serializeFrontMatter
    dsimp only
    rw [if_pos hprompt]
    simp only [String.toList_append, List.append_assoc]
    rw [← List.append_assoc "\n\n".toList, hheading, hopen, hchars]
    simp only [List.append_assoc]
  rw [Py.strip, String.toList_ofList, hbody,
    Py.stripChars_append_spaces _ (List.all_eq_true.mp (by decide)),
    stripChars_append (by rfl) hne, hchars]
  simp only [List.append_assoc]

def parsedBody (request : CodeRequest) : List (String × Json) :=
  frontMatterPayload request ++ [("prompt", .str (Py.strip request.prompt))]

/-- **The body of an issue is read back.** -/
theorem parseIssueBody_serialize (hL : L.Lawful) (hprompt : Py.strip request.prompt ≠ "")
    (defaultId defaultRepo : String) :
    parseIssueBody L (serializeIssueBody L request) defaultId defaultRepo = parsedBody request := by
  have hhead : (Py.strip (L.safeDump (frontMatterPayload request))).toList.head?.map Py.isSpace =
      some false := by
    cases hchars : (Py.strip (L.safeDump (frontMatterPayload request))).toList with
    | nil => exact absurd (String.toList_eq_nil_iff.mp hchars) (hL.dump_ne request)
    | cons c cs =>
      rw [Py.strip, String.toList_ofList] at hchars
      exact congrArg some (Py.stripChars_head hchars)
  obtain ⟨consumed, hmatch⟩ := reads_frontMatter
    ("\n## Prompt\n\n".toList ++ (Py.strip request.prompt).toList) hhead (hL.no_fence request)
  rw [← strip_serializeIssueBody hprompt] at hmatch
  have hnone : (frontMatterPayload request).lookup "prompt" = none := by
    unfold frontMatterPayload
    cases request.profileSnapshot with
    | none => rfl
    | some snapshot => rfl
  unfold parseIssueBody
  rw [show match? frontMatterPattern (Py.strip (serializeIssueBody L request)).toList = _
    from hmatch]
  have hyaml : (Candidate.group? ⟨consumed, [],
      [("1", (Py.strip (L.safeDump (frontMatterPayload request))).toList),
        ("2", "\n## Prompt\n\n".toList ++ (Py.strip request.prompt).toList)]⟩ "1") =
      some (Py.strip (L.safeDump (frontMatterPayload request))).toList := rfl
  have hrest : (Candidate.group? ⟨consumed, [],
      [("1", (Py.strip (L.safeDump (frontMatterPayload request))).toList),
        ("2", "\n## Prompt\n\n".toList ++ (Py.strip request.prompt).toList)]⟩ "2") =
      some ("\n## Prompt\n\n".toList ++ (Py.strip request.prompt).toList) := rfl
  have hid : ∀ v, setDefault (frontMatterPayload request) "id" v = frontMatterPayload request :=
    fun v => rfl
  have hrepository : ∀ v, setDefault (frontMatterPayload request) "repository" v =
      frontMatterPayload request := fun v => rfl
  dsimp only
  rw [hyaml, hrest, Option.getD_some, Option.getD_some, String.ofList_toList, hL.load_dump,
    promptOf_section hprompt]
  dsimp only
  rw [hid, hrepository, if_pos hprompt]
  unfold setItem
  rw [hnone]
  rfl

theorem optionalText_orNull (v : Option String) : optionalText (some (orNull v)) = some v := by
  cases v with
  | none => rfl
  | some s => rfl

private theorem mapM_map_str (l : List String) : (l.map Json.str).mapM (fun
    | .str s => some s
    | _ => none) = some l := by
  induction l with
  | nil => rfl
  | cons s l ih =>
    rw [List.map_cons, List.mapM_cons, ih]
    rfl

theorem textList_map_str (standards : List String) :
    textList (some (.arr (standards.map .str))) = some standards := by
  cases standards with
  | nil => rfl
  | cons s standards => exact mapM_map_str (s :: standards)

theorem stateOfLabels_labelsOf (request : CodeRequest) :
    stateOfLabels (labelsOf request) = some request.state := by
  unfold labelsOf
  cases request.state <;> decide

theorem timestamp_str (s ofIssue : String) :
    ∃ t, codeRequestFromIssue.timestamp (some (.str s)) ofIssue = some t := by
  unfold codeRequestFromIssue.timestamp
  dsimp only
  split_ifs with h
  · exact ⟨s, rfl⟩
  · exact ⟨ofIssue, rfl⟩

theorem textOr_str (L : Library) (s default_ : String) :
    L.textOr (some (.str s)) default_ = if s = "" then default_ else s := by
  unfold Library.textOr Json.truthy
  by_cases h : s = ""
  · simp [h]
  · simp [h, Library.text]

theorem requesterOf_parsedBody (L : Library) (request : CodeRequest) (issue : Issue) :
    requesterOf L (parsedBody request) issue = request.requester := by
  have hlookup : (parsedBody request).lookup "requester" = some (.obj
      [("id", .str request.requester.id), ("kind", .str request.requester.kind.value)]) := rfl
  have hid : List.lookup "id" [("id", Json.str request.requester.id),
      ("kind", .str request.requester.kind.value)] = some (.str request.requester.id) := rfl
  have hkind : List.lookup "kind" [("id", Json.str request.requester.id),
      ("kind", .str request.requester.kind.value)] = some (.str request.requester.kind.value) := rfl
  unfold requesterOf
  rw [hlookup]
  dsimp only
  rw [hid, hkind]
  dsimp only
  rw [RequesterKind.ofValue?_value]
  rfl

theorem optionalFields_parsedBody (request : CodeRequest) :
    optionalFields ((parsedBody request).lookup "profile_snapshot") =
      some request.profileSnapshot := by
  unfold parsedBody frontMatterPayload
  cases request.profileSnapshot with
  | none => rfl
  | some snapshot => rfl

theorem lookup_prompt (request : CodeRequest) :
    (parsedBody request).lookup "prompt" = some (.str (Py.strip request.prompt)) := by
  unfold parsedBody frontMatterPayload
  cases request.profileSnapshot with
  | none => rfl
  | some snapshot => rfl

/-- What is compared of a request that was read back. -/
structure SameRequest (item request : CodeRequest) : Prop where
  prompt : Py.strip item.prompt = Py.strip request.prompt
  state : item.state = request.state
  requester : item.requester = request.requester
  branch : item.branch = request.branch
  standards : item.standards = request.standards
  auditTrail : item.auditTrail.map CodeRequestAuditEvent.core =
    request.auditTrail.map CodeRequestAuditEvent.core

/-- **The request of an issue that was written**: all of it is read back, but an empty branch. -/
theorem codeRequestFromIssue_kept (hL : L.Lawful) (hprompt : Py.strip request.prompt ≠ "")
    (hrepo : repo ≠ "") (hbody : issue.body = serializeIssueBody L request)
    (hlabels : issue.labels = labelsOf request) (auditTrail : List CodeRequestAuditEvent) :
    ∃ item, codeRequestFromIssue L issue repo auditTrail = some item ∧ item.repository = repo ∧
      item.issueNumber = some issue.number ∧ item.auditTrail = auditTrail ∧
      Py.strip item.prompt = Py.strip request.prompt ∧ item.state = request.state ∧
      item.requester = request.requester ∧ item.standards = request.standards ∧
      item.branch = if request.branch = "" then "main" else request.branch := by
  obtain ⟨createdAt, hcreated⟩ := timestamp_str request.createdAt issue.createdAt
  obtain ⟨updatedAt, hupdated⟩ := timestamp_str request.updatedAt issue.updatedAt
  have h₁ : (parsedBody request).lookup "created_at" = some (.str request.createdAt) := rfl
  have h₂ : (parsedBody request).lookup "updated_at" = some (.str request.updatedAt) := rfl
  have h₃ : (parsedBody request).lookup "planner_profile_id" =
      some (orNull request.plannerProfileId) := rfl
  have h₄ : (parsedBody request).lookup "executor_profile_id" =
      some (orNull request.executorProfileId) := rfl
  have h₅ :
    (parsedBody request).lookup "board_proposal" = some (orNull request.boardProposal) := rfl
  have h₆ : (parsedBody request).lookup "plan_epic" = some (orNull request.planEpic) := rfl
  have h₇ :
    (parsedBody request).lookup "standards" = some (.arr (request.standards.map .str)) := rfl
  have h₈ : (parsedBody request).lookup "branch" = some (.str request.branch) := rfl
  unfold codeRequestFromIssue
  simp only [if_pos hrepo, hbody, parseIssueBody_serialize hL hprompt, hlabels,
    stateOfLabels_labelsOf, h₁, h₂, h₃, h₄, h₅, h₆, h₇, h₈, hcreated, hupdated, optionalText_orNull,
    optionalFields_parsedBody, textList_map_str, requesterOf_parsedBody, lookup_prompt, textOr_str,
    if_neg hprompt]
  refine ⟨_, rfl, rfl, rfl, rfl, ?_, rfl, rfl, rfl, rfl⟩
  exact Py.strip_strip request.prompt

end CodeRequests
