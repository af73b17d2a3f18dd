import RunnerDashboard.Lib.Json
import RunnerDashboard.Lib.PyStr
import RunnerDashboard.Memory.Store

/-!
# Lessons

A lesson is proposed by an agent and reviewed by the librarian.  It is accepted only if it breaks no
rule of the fleet and does not conflict with a lesson that was accepted before: these are read from
the store, at most a hundred of them.

## Main results

* `not_conflict_of_accepted` — **a lesson that passes conflicts with no accepted lesson that the
  page can have.**
-/

namespace Memory

open Sql

/-- What Python makes of the values of a body: `str(v)`, `v == w`, `s.lower()`, and the characters
of a word. -/
structure Builtins where
  str : Json → String
  eq : Json → Json → Bool
  lower : String → String
  isWord : Char → Bool

def values : Json → List Json
  | .obj fields => fields.map Prod.snd
  | _ => []

/-- A text or a number. -/
def isScalar : Json → Bool
  | .bool _ => true
  | .num _ => true
  | .str _ => true
  | _ => false

/-! ### The rules of the fleet -/

/-- The alternatives of `_FLEET_CONFLICT_RE`, with each option written out. -/
def fleetConflictPhrases : List String :=
  ["request human review", "requesting human review", "assign fleet-operator",
    "assigning fleet-operator", "human-approval", "require human reviewer", "pay-per-use",
    "openai_api_key", "anthropic_api_key", "gemini_api_key", "google_api_key", "create draft pr",
    "stack pr", "stack prs", "stacked pr", "stacked prs"]

/-- What a character is compared as, where the case is ignored. -/
def foldChar (c : Char) : Char :=
  if c.toNat = 0x130 ∨ c.toNat = 0x131 then 'i'
  else if c.toNat = 0x17F then 's'
  else Py.lowerChar c

def noWord (isWord : Char → Bool) : Option Char → Bool
  | none => true
  | some c => !isWord c

/-- A phrase starts here, as a word of its own. -/
def phraseAt (isWord : Char → Bool) (prev : Option Char) (text : List Char) : Bool :=
  noWord isWord prev && fleetConflictPhrases.any fun phrase =>
    phrase.toList.isPrefixOf (text.map foldChar) &&
      noWord isWord (text.drop phrase.toList.length).head?

/-- `_FLEET_CONFLICT_RE.search(text)`. -/
def searchPhrases (isWord : Char → Bool) : Option Char → List Char → Bool
  | _, [] => false
  | prev, c :: cs => phraseAt isWord prev (c :: cs) || searchPhrases isWord (some c) cs

def fleetConflict (py : Builtins) (body : Json) : Bool :=
  searchPhrases py.isWord none
      (" ".intercalate (((values body).filter isScalar).map py.str)).toList ||
    ((body.field? "conflicts_with_fleet_rules").any Json.truthy)

/-! ### Two lessons -/

/-- `body.get("topic") or body.get("rule") or ""`. -/
def topic (body : Json) : Json :=
  (((body.field? "topic").filter Json.truthy).or
    ((body.field? "rule").filter Json.truthy)).getD (.str "")

def topicText (py : Builtins) (body : Json) : String :=
  py.lower (Py.strip (py.str (topic body)))

/-- `body.get("stance")`. -/
def stance (body : Json) : Json := (body.field? "stance").getD .null

/-- Two lessons about one topic, of different stance. -/
def clash (py : Builtins) (body other : Json) : Bool :=
  topicText py body ≠ "" && topicText py body = topicText py other &&
    !py.eq (stance body) (stance other)

/-- A lesson says which entry it conflicts with. -/
def names (body : Json) (id : String) : Bool :=
  match body.field? "conflicts_with" with
  | some (.str other) => other = id
  | _ => false

/-- The test of a lesson against another one. -/
def conflicting (py : Builtins) (id : String) (body : Json) (otherId : String) (other : Json) :
    Bool := otherId ≠ id && (names body otherId || clash py body other)

def acceptedLesson (e : MemoryEntry Json) : Bool :=
  e.entryType = "lesson" && e.reviewStatus = some "accepted" && e.supersededBy.isNone

/-- A lesson conflicts with another one of its repository. -/
def Conflict (py : Builtins) (id : String) (e : MemoryEntry Json) (otherId : String)
    (other : MemoryEntry Json) : Prop :=
  MemoryStore.filterBy e.repo other.repo = true ∧
    conflicting py id e.body otherId other.body = true

/-! ### Reviews -/

def acceptedPage (s : MemoryStore Json) (e : MemoryEntry Json) : List String :=
  s.listEntries (some "lesson") e.repo (some "accepted") 100

def validateLessonAcceptance (py : Builtins) (s : MemoryStore Json) (id : String)
    (e : MemoryEntry Json) : String :=
  if fleetConflict py e.body then "quarantined"
  else if (acceptedPage s e).any fun otherId =>
      (s.get otherId).any fun other => conflicting py id e.body otherId other.body then
    "quarantined"
  else "accepted"

/-- `VALID_STATUS_TRANSITIONS`. -/
def validTransition : String → String → Bool
  | "proposed", target => target = "accepted" || target = "quarantined" || target = "retired"
  | "accepted", target => target = "promoted" || target = "quarantined" || target = "retired"
  | "quarantined", target => target = "accepted" || target = "retired"
  | _, _ => false

/-- The checks of `review_entry` on the lesson, and the status that the review leads to; `none`
where it is refused. -/
def reviewTarget (py : Builtins) (s : MemoryStore Json) (id requested : String)
    (e : MemoryEntry Json) : Option String :=
  if e.entryType ≠ "lesson" ∨ requested = "promoted" then none
  else if !validTransition ((e.reviewStatus.filter (· ≠ "")).getD "proposed") requested then none
  else if requested = "accepted" then some (validateLessonAcceptance py s id e)
  else some requested

variable {py : Builtins} {s : MemoryStore Json} {id otherId requested target : String}
  {e other : MemoryEntry Json}

theorem listed_iff {bytes : ℕ} : MemoryStore.listed (some "lesson") e.repo (some "accepted") otherId
    ⟨other, bytes⟩ = true ↔ acceptedLesson other = true ∧
      MemoryStore.filterBy e.repo other.repo = true ∧
      MemoryStore.fleetVisible other.visibility = true := by
  have htype : MemoryStore.filterBy (some "lesson") (some other.entryType) =
      decide (other.entryType = "lesson") := by
    unfold MemoryStore.filterBy
    rw [Option.filter_some_pos (by decide)]
    simp
  have hstatus : MemoryStore.filterBy (some "accepted") other.reviewStatus =
      decide (other.reviewStatus = some "accepted") := by
    unfold MemoryStore.filterBy
    rw [Option.filter_some_pos (by decide)]
  unfold MemoryStore.listed acceptedLesson
  rw [htype, hstatus]
  simp only [Bool.and_eq_true]
  tauto

/-- **A lesson that passes conflicts with no accepted lesson that the page can have**: where there
are at most a hundred of them, with none that all may not see. -/
theorem not_conflict_of_accepted (h : validateLessonAcceptance py s id e = "accepted")
    (hcount : s.entries.count (MemoryStore.listed (some "lesson") e.repo (some "accepted")) ≤ 100)
    (hother : s.get otherId = some other) (haccepted : acceptedLesson other = true)
    (hvisible : MemoryStore.fleetVisible other.visibility = true) :
    ¬ Conflict py id e otherId other := by
  rintro ⟨hrepo, hconflict⟩
  obtain ⟨⟨entry, bytes⟩, hrow, rfl⟩ := Option.map_eq_some_iff.mp hother
  have hpage : otherId ∈ acceptedPage s e := by
    show otherId ∈ s.entries.select _ (fun r => OrderDual.toDual r.entry.createdAt) 100
    exact Table.mem_select hrow (listed_iff.mpr ⟨haccepted, hrepo, hvisible⟩) hcount
  unfold validateLessonAcceptance at h
  have hany : ((acceptedPage s e).any fun otherId =>
      (s.get otherId).any fun other => conflicting py id e.body otherId other.body) = true := by
    refine List.any_eq_true.mpr ⟨otherId, hpage, ?_⟩
    rw [hother]
    exact hconflict
  rw [hany] at h
  split at h
  · exact absurd h (by decide)
  · exact absurd h (by decide)

end Memory
