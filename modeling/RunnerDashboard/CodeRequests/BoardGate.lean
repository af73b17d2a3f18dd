import RunnerDashboard.CodeRequests.Model
import RunnerDashboard.Lib.Regex
import RunnerDashboard.Memory.Lessons

/-!
# The Board gate

A code request goes to the Architecture Board before it is planned, if it is significant.  The
flags of the requester, the override of the operator and a classifier of the text are asked in a
fixed order, and the first that has an answer decides.

## Main results

* `raised_iff`, `ruleZero_iff` — **when the gate keeps each of the two promises.**
* `gate_iff` — both promises.
-/

namespace BoardGate

open CodeRequests (CodeRequest)
open Regex

/-! ### Records -/

/-- `BoardRoutingCriteria`. -/
structure Criteria where
  newSurface : Bool := false
  newServiceOrRepo : Bool := false
  newDependencyOrEgress : Bool := false
  confidentialDataEgress : Bool := false
  crossRepoContract : Bool := false
  publicSiteStructure : Bool := false
  estimatedChildIssues : Int := 0
  targetReposCount : Int := 1
  taggedBoard : Bool := false
  deriving DecidableEq, Repr

/-- `BoardRoutingDecision`. -/
structure Decision where
  routesToBoard : Bool
  reasons : List String := []
  criteriaMatched : List String := []
  requiresUserSignoff : Bool := false
  deriving DecidableEq, Repr

/-- `BoardClassifier.classify`: what is decided on a title and a prompt. -/
abbrev Classifier := String → String → Decision

/-! ### The classifier -/

/-- `a\s+b`. -/
def gap (a b : Pattern) : Pattern := .seq a (.seq (.some_ Py.isSpace) b)

/-- One of some words. -/
def oneOf (w : String) : List String → Pattern
  | [] => .text w.toList
  | v :: ws => .alt (.text w.toList) (oneOf v ws)

def word (w : String) : Pattern := oneOf w []

section Words

variable (isWord : Char → Bool)

def surfaceKeywords : List Pattern :=
  [gap (word "new") (oneOf "page" ["tab", "screen", "surface", "app", "tool", "dashboard"]),
    gap (word "brand") (gap (word "new") (gap (.some_ isWord) (oneOf "tab" ["page"])))]

def serviceKeywords : List Pattern :=
  [gap (word "new") (oneOf "repo" ["repository", "service", "daemon", "microservice"])]

def contractKeywords : List Pattern :=
  [.alt (gap (word "dispatch") (word "envelope"))
      (.alt (word "fleet-managed") (gap (word "cross-repo") (word "contract"))),
    gap (word "envelope") (word "schema")]

def egressKeywords : List Pattern :=
  [.alt (gap (word "confidential") (gap (word "partner") (word "data")))
      (gap (word "partner") (gap (word "data") (word "egress"))),
    .alt (gap (word "confidential") (gap (word "data") (word "egress")))
      (gap (word "external") (gap (word "data") (word "egress")))]

/-- `\b…\b` for a pattern that starts and ends with a character of a word. -/
def searchWords (a : Pattern) : Option Char → List Char → Bool
  | prev, [] => Memory.noWord isWord prev && (candidates a []).any fun m =>
      Memory.noWord isWord m.rest.head?
  | prev, c :: cs =>
    (Memory.noWord isWord prev && (candidates a (c :: cs)).any fun m =>
      Memory.noWord isWord m.rest.head?) || searchWords a (some c) cs

def anyKeyword (keywords : List Pattern) (text : List Char) : Bool :=
  keywords.any fun a => searchWords isWord a none text

/-- `RuleBasedBoardClassifier.classify`, for the characters of words. -/
def ruleBased : Classifier := fun title prompt =>
  let text := (title ++ "\n" ++ prompt).toList.map Memory.foldChar
  let egress := anyKeyword isWord egressKeywords text
  let matched := [(anyKeyword isWord (surfaceKeywords isWord) text, "new_surface",
        "Adds a new user-facing surface (page/tab/app)"),
      (anyKeyword isWord serviceKeywords text, "new_service_or_repo",
        "Creates a new repository, service, or daemon"),
      (anyKeyword isWord contractKeywords text, "cross_repo_contract",
        "Modifies a cross-repo contract or schema"),
      (egress, "confidential_data_egress",
        "Confidential partner data egress (mandatory user sign-off)")].filter Prod.fst
  { routesToBoard := !matched.isEmpty
    reasons := matched.map fun m => m.2.2
    criteriaMatched := matched.map fun m => m.2.1
    requiresUserSignoff := egress }

end Words

/-! ### The gate -/

/-- The criteria that are given by flags, with their reasons. -/
def Criteria.explicit (crit : Criteria) : List (String × String) :=
  ([(crit.newSurface, "new_surface", "Adds a new user-facing surface (page, tab, or tool)."),
    (crit.newServiceOrRepo, "new_service_or_repo",
      "Creates a new repository, service, or daemon."),
    (crit.newDependencyOrEgress, "new_dependency_or_egress",
      "Adds external dependencies or third-party data egress."),
    (crit.crossRepoContract, "cross_repo_contract", "Modifies cross-repo contract or schema."),
    (crit.publicSiteStructure, "public_site_structure",
      "Structural changes to public site navigation or architecture."),
    (decide (8 < crit.estimatedChildIssues), "estimated_child_issues",
      "Estimated at " ++ Json.intText crit.estimatedChildIssues ++ " child issues (> 8)."),
    (decide (1 < crit.targetReposCount), "multiple_target_repos",
      "Spans " ++ Json.intText crit.targetReposCount ++ " target repositories (> 1)."),
    (crit.taggedBoard, "tagged_board",
      "Requester explicitly tagged proposal for Board review.")].filter Prod.fst).map Prod.snd

/-- What is decided on some criteria, without sign-off. -/
def decisionOf (matched : List (String × String)) : Decision where
  routesToBoard := !matched.isEmpty
  reasons := matched.map Prod.snd
  criteriaMatched := matched.map Prod.fst

def evaluateBoardRouting (request : CodeRequest) (crit : Criteria) (classify : Classifier) :
    Decision :=
  if crit.confidentialDataEgress then
    { routesToBoard := true
      reasons := ["Confidential partner data egress requires Board review and user sign-off."]
      criteriaMatched := ["confidential_data_egress"]
      requiresUserSignoff := true }
  else
    match request.boardRoute with
    | .forceBoard =>
      { routesToBoard := true
        reasons := ["Operator force_board override active."]
        criteriaMatched := ["force_board"] }
    | .skipBoard =>
      { routesToBoard := false
        reasons := ["Operator skip_board override active."]
        criteriaMatched := ["skip_board"] }
    | .auto =>
      let classified := classify request.title request.prompt
      -- the classifier is asked only if no flag is set
      if crit.explicit = [] ∧ classified.routesToBoard then
        if classified.requiresUserSignoff then classified
        else
          { classified with
            routesToBoard := !classified.criteriaMatched.isEmpty
            requiresUserSignoff := false }
      else decisionOf crit.explicit

/-! ### The promises -/

/-- Every flag of the first is set in the second, and the counts are at least as large. -/
structure Criteria.Le (crit crit' : Criteria) : Prop where
  newSurface : crit.newSurface → crit'.newSurface
  newServiceOrRepo : crit.newServiceOrRepo → crit'.newServiceOrRepo
  newDependencyOrEgress : crit.newDependencyOrEgress → crit'.newDependencyOrEgress
  confidentialDataEgress : crit.confidentialDataEgress → crit'.confidentialDataEgress
  crossRepoContract : crit.crossRepoContract → crit'.crossRepoContract
  publicSiteStructure : crit.publicSiteStructure → crit'.publicSiteStructure
  estimatedChildIssues : crit.estimatedChildIssues ≤ crit'.estimatedChildIssues
  targetReposCount : crit.targetReposCount ≤ crit'.targetReposCount
  taggedBoard : crit.taggedBoard → crit'.taggedBoard

def Detects (request : CodeRequest) (classify : Classifier) : Prop :=
  "confidential_data_egress" ∈ (classify request.title request.prompt).criteriaMatched

/-- The classifier sends the request to the Board, with sign-off. -/
def Demands (request : CodeRequest) (classify : Classifier) : Prop :=
  (classify request.title request.prompt).routesToBoard = true ∧
    (classify request.title request.prompt).requiresUserSignoff = true

/-- Without an override of the operator, the second decision is no less strict than the first. -/
def Raised (request : CodeRequest) (classify : Classifier) (crit crit' : Criteria) : Prop :=
  request.boardRoute = .auto →
    ((evaluateBoardRouting request crit classify).routesToBoard →
        (evaluateBoardRouting request crit' classify).routesToBoard) ∧
      ((evaluateBoardRouting request crit classify).requiresUserSignoff →
        (evaluateBoardRouting request crit' classify).requiresUserSignoff)

/-- Where the classifier detects confidential data, the Board and a sign-off are required. -/
def RuleZero (request : CodeRequest) (classify : Classifier) (crit : Criteria) : Prop :=
  Detects request classify → (evaluateBoardRouting request crit classify).routesToBoard ∧
    (evaluateBoardRouting request crit classify).requiresUserSignoff

/-- The flags of the second set answer where those of the first leave it to the classifier. -/
def Hidden (crit crit' : Criteria) : Prop :=
  crit.explicit = [] ∧ crit'.explicit ≠ [] ∧ crit'.confidentialDataEgress = false

/-! ### What the gate decides -/

variable {request : CodeRequest} {classify : Classifier} {crit crit' : Criteria}

theorem evaluate_confidential (h : crit.confidentialDataEgress = true) :
    (evaluateBoardRouting request crit classify).routesToBoard = true ∧
      (evaluateBoardRouting request crit classify).requiresUserSignoff = true := by
  simp [evaluateBoardRouting, h]

theorem evaluate_explicit (hroute : request.boardRoute = .auto)
    (hconf : crit.confidentialDataEgress = false) (hne : crit.explicit ≠ []) :
    evaluateBoardRouting request crit classify = decisionOf crit.explicit := by
  simp [evaluateBoardRouting, hroute, hconf, hne]

theorem evaluate_classified (hroute : request.boardRoute = .auto)
    (hconf : crit.confidentialDataEgress = false) (hnil : crit.explicit = []) :
    evaluateBoardRouting request crit classify =
      if (classify request.title request.prompt).routesToBoard then
        if (classify request.title request.prompt).requiresUserSignoff then
          classify request.title request.prompt
        else
          { classify request.title request.prompt with
            routesToBoard := !(classify request.title request.prompt).criteriaMatched.isEmpty
            requiresUserSignoff := false }
      else decisionOf [] := by
  simp [evaluateBoardRouting, hroute, hconf, hnil]

/-- **When sign-off is required.** -/
theorem signoff_iff (hroute : request.boardRoute = .auto) :
    (evaluateBoardRouting request crit classify).requiresUserSignoff = true ↔
      crit.confidentialDataEgress = true ∨
        crit.explicit = [] ∧ Demands request classify := by
  by_cases hconf : crit.confidentialDataEgress = true
  · simp [(evaluate_confidential hconf).2, hconf]
  rw [Bool.not_eq_true] at hconf
  by_cases hnil : crit.explicit = []
  · rw [evaluate_classified hroute hconf hnil]
    simp only [hconf, hnil, Demands]
    split_ifs with hroutes hsign
    · simp [hroutes, hsign]
    · simp [hsign]
    · simp [hroutes, decisionOf]
  · rw [evaluate_explicit hroute hconf hnil]
    simp [hconf, hnil, decisionOf]

theorem explicit_ne_nil_of_le (hle : crit.Le crit') (h : crit.explicit ≠ []) :
    crit'.explicit ≠ [] := by
  contrapose! h
  simp only [Criteria.explicit, List.map_eq_nil_iff, List.filter_eq_nil_iff, List.mem_cons,
    List.not_mem_nil, or_false, forall_eq_or_imp, forall_eq, decide_eq_true_eq] at h ⊢
  obtain ⟨h₁, h₂, h₃, h₄, h₅, h₆, h₇, h₈⟩ := h
  have h₆' := hle.estimatedChildIssues
  have h₇' := hle.targetReposCount
  exact ⟨mt hle.newSurface h₁, mt hle.newServiceOrRepo h₂, mt hle.newDependencyOrEgress h₃,
    mt hle.crossRepoContract h₄, mt hle.publicSiteStructure h₅, by omega, by omega,
    mt hle.taggedBoard h₈⟩

theorem routes_of_le (hle : crit.Le crit') (hroute : request.boardRoute = .auto)
    (h : (evaluateBoardRouting request crit classify).routesToBoard = true) :
    (evaluateBoardRouting request crit' classify).routesToBoard = true := by
  by_cases hconf' : crit'.confidentialDataEgress = true
  · exact (evaluate_confidential hconf').1
  rw [Bool.not_eq_true] at hconf'
  have hconf : crit.confidentialDataEgress = false := by
    rw [← Bool.not_eq_true]
    intro hconf
    simp [hle.confidentialDataEgress hconf] at hconf'
  by_cases hnil' : crit'.explicit = []
  · -- neither has flags, so the classifier decides both
    have hnil : crit.explicit = [] := by
      by_contra hne
      exact explicit_ne_nil_of_le hle hne hnil'
    rw [evaluate_classified hroute hconf hnil] at h
    rwa [evaluate_classified hroute hconf' hnil']
  · rw [evaluate_explicit hroute hconf' hnil']
    simp [decisionOf, hnil']

/-- **A request with more flags is treated less strictly exactly if the flags hide what the
classifier demands.** -/
theorem raised_iff (hle : crit.Le crit') : Raised request classify crit crit' ↔
    ¬ (request.boardRoute = .auto ∧ Demands request classify ∧ Hidden crit crit') := by
  constructor
  · rintro h ⟨hroute, hdemands, hnil, hne', hconf'⟩
    have hsign := (h hroute).2 ((signoff_iff hroute).mpr (.inr ⟨hnil, hdemands⟩))
    rcases (signoff_iff hroute).mp hsign with hconf | ⟨hnil', -⟩
    · simp [hconf'] at hconf
    · exact hne' hnil'
  · intro h hroute
    refine ⟨routes_of_le hle hroute, fun hsign => ?_⟩
    rw [signoff_iff hroute]
    rcases (signoff_iff hroute).mp hsign with hconf | ⟨hnil, hdemands⟩
    · exact .inl (hle.confidentialDataEgress hconf)
    · by_contra hnot
      rw [not_or, Bool.not_eq_true] at hnot
      exact h ⟨hroute, hdemands, hnil, fun hnil' => hnot.2 ⟨hnil', hdemands⟩, hnot.1⟩

/-- **Rule 0 holds of what the classifier detects exactly if nothing is asked before it**, and it
demands what it should. -/
theorem ruleZero_iff : RuleZero request classify crit ↔
    (Detects request classify → crit.confidentialDataEgress = true ∨
      request.boardRoute = .auto ∧ crit.explicit = [] ∧ Demands request classify) := by
  refine forall_congr' fun _ => ?_
  by_cases hconf : crit.confidentialDataEgress = true
  · simp [evaluate_confidential hconf, hconf]
  rcases hroute : request.boardRoute with _ | _ | _
  · constructor
    · rintro ⟨-, hsign⟩
      simpa [hconf] using (signoff_iff hroute).mp hsign
    · intro h
      have h : crit.explicit = [] ∧ Demands request classify := by simpa [hconf] using h
      refine ⟨?_, (signoff_iff hroute).mpr (.inr h)⟩
      rw [Bool.not_eq_true] at hconf
      rw [evaluate_classified hroute hconf h.1]
      simp [h.2.1, h.2.2]
  · simp [evaluateBoardRouting, hroute, hconf]
  · simp [evaluateBoardRouting, hroute, hconf]

/-- **The gate keeps its promises exactly if nothing hides what the classifier demands.** -/
theorem gate_iff (hle : crit.Le crit') :
    Raised request classify crit crit' ∧ RuleZero request classify crit ↔
      ¬ (request.boardRoute = .auto ∧ Demands request classify ∧ Hidden crit crit') ∧
        (Detects request classify → crit.confidentialDataEgress = true ∨
          request.boardRoute = .auto ∧ crit.explicit = [] ∧ Demands request classify) :=
  and_congr (raised_iff hle) ruleZero_iff

/-! ### Confidential data -/

def asciiWord (c : Char) : Bool := c.isAlphanum || c = '_'

/-- A request that is about confidential data. -/
def exporting (boardRoute : CodeRequests.BoardRoute) : CodeRequest where
  id := "cr"
  repository := "r"
  title := "Export"
  issueNumber := none
  issueUrl := none
  state := .triage
  prompt := "Confidential  data egress"
  requester := { id := "alice", kind := .human }
  plannerProfileId := none
  executorProfileId := none
  profileSnapshot := none
  boardRoute
  boardProposal := none
  planEpic := none
  branch := "main"
  standards := []
  auditTrail := []
  createdAt := ""
  updatedAt := ""

theorem demands_exporting (boardRoute : CodeRequests.BoardRoute) :
    Demands (exporting boardRoute) (ruleBased asciiWord) := by
  -- the text is the same for every route
  show (ruleBased asciiWord "Export" "Confidential  data egress").routesToBoard = true ∧
    (ruleBased asciiWord "Export" "Confidential  data egress").requiresUserSignoff = true
  decide +kernel

/-- Without flags and overrides, the classifier is heard. -/
theorem gate_exporting :
    Raised (exporting .auto) (ruleBased asciiWord) {} {} ∧
      RuleZero (exporting .auto) (ruleBased asciiWord) {} := by
  have hle : Criteria.Le {} {} := by
    constructor <;> simp
  refine (gate_iff hle).mpr ⟨fun h => h.2.2.2.1 h.2.2.1, fun _ => .inr ⟨rfl, ?_, ?_⟩⟩
  · decide +kernel
  · exact demands_exporting .auto

/-- **A flag hides confidential data from the classifier, and so does an override.** -/
theorem not_gate :
    (evaluateBoardRouting (exporting .auto) {} (ruleBased asciiWord)).requiresUserSignoff = true ∧
      ¬ Raised (exporting .auto) (ruleBased asciiWord) {} { newSurface := true } ∧
      ¬ RuleZero (exporting .auto) (ruleBased asciiWord) { newSurface := true } ∧
      ¬ RuleZero (exporting .forceBoard) (ruleBased asciiWord) {} ∧
      (evaluateBoardRouting (exporting .skipBoard) {} (ruleBased asciiWord)).routesToBoard
        = false := by
  unfold Raised RuleZero Detects
  decide +kernel

end BoardGate
