import RunnerDashboard.Barb.Card

/-!
# Relayed run cards

What a replica writes into a run card's payload, and what the authority makes of it:
`relay_payload` of `staff/barb_runtime.py`, the body `AuthorityClient.post` sends, the
request model `RelayRunCardRequest`, and `apply_relayed_run_card` with the card's text and
meta of `staff/run_link.py`.

## Main results

* `ofBody_postBody` — what a replica sends is what the authority reads.
* `call_request` — the call is the delivery of the run's own card.
-/

namespace Barb

open Sql

/-! ### The replica -/

structure Run where
  id : String
  role : String
  threadId : String
  deriving DecidableEq, Repr

/-- What an update says: the fields of the run record, and the arguments beside it. -/
structure Progress where
  status : String
  machine : String
  provider : String
  repo : String
  targetRef : String
  branch : String
  question : Option String
  summary : Option String
  error : String
  failureClass : String
  deriving DecidableEq, Repr

/-- An optional text. -/
def ofOption (s : Option String) : Json := (s.map Json.str).getD .null

/-- `s or None`. -/
def orNone (s : String) : Option String := if s = "" then none else some s

/-- The fields of `relay_payload`. -/
def relayFields (run : Run) (p : Progress) : List (String × Json) :=
  [("run_id", .str run.id), ("role", .str run.role), ("status", .str p.status),
    ("node", .str p.machine), ("provider", .str p.provider), ("repo", .str p.repo),
    ("target_ref", .str p.targetRef), ("branch", .str p.branch),
    ("question", ofOption p.question), ("summary", ofOption p.summary),
    ("error", ofOption (orNone p.error)), ("failure_class", ofOption (orNone p.failureClass))]

def relayPayload (run : Run) (p : Progress) : Json := .obj (relayFields run p)

/-- `{**payload, key: value}`. -/
def setField (k : String) (v : Json) (payload : Json) : Json :=
  match payload with
  | .obj fs =>
    if k ∈ fs.map Prod.fst then .obj (fs.map fun x => if x.1 = k then (k, v) else x)
    else .obj (fs ++ [(k, v)])
  | other => other

/-- The body of `AuthorityClient.post`. -/
def postBody (payload : Json) (runId : String) (version epoch : Int) : Json :=
  setField "epoch" (.num epoch) (setField "version" (.num version)
    (setField "run_id" (.str runId) payload))

/-! ### The request -/

/-- `RelayRunCardRequest`, without the meta no caller reads. -/
structure RelayRequest where
  runId : String
  role : String
  status : String
  node : String
  provider : String
  repo : String
  targetRef : String
  branch : String
  question : Option String
  summary : Option String
  error : Option String
  failureClass : Option String
  bodyMd : Option String
  version : Option Int
  epoch : Option Int
  deriving DecidableEq, Repr

/-- A required text of at most `n` characters. -/
def requiredStr (n : ℕ) : Option Json → Option String
  | some (.str s) => if s.length ≤ n then some s else none
  | _ => none

/-- A text of at most `n` characters, by default empty. -/
def defaultStr (n : ℕ) : Option Json → Option String
  | none => some ""
  | v => requiredStr n v

def optionalStr : Option Json → Option (Option String)
  | none => some none
  | some .null => some none
  | some (.str s) => some (some s)
  | _ => none

/-- An optional integer, at least one. -/
def optionalPos : Option Json → Option (Option Int)
  | none => some none
  | some .null => some none
  | some (.num n) => if 1 ≤ n then some (some n) else none
  | _ => none

/-- The validation of `RelayRunCardRequest`; `none` where it refuses the body. -/
def RelayRequest.ofBody (body : Json) : Option RelayRequest := do
  return {
    runId := ← requiredStr 120 (body.field? "run_id")
    role := ← requiredStr 80 (body.field? "role")
    status := ← requiredStr 40 (body.field? "status")
    node := ← defaultStr 80 (body.field? "node")
    provider := ← defaultStr 80 (body.field? "provider")
    repo := ← defaultStr 120 (body.field? "repo")
    targetRef := ← defaultStr 120 (body.field? "target_ref")
    branch := ← defaultStr 120 (body.field? "branch")
    question := ← optionalStr (body.field? "question")
    summary := ← optionalStr (body.field? "summary")
    error := ← optionalStr (body.field? "error")
    failureClass := ← optionalStr (body.field? "failure_class")
    bodyMd := ← optionalStr (body.field? "body_md")
    version := ← optionalPos (body.field? "version")
    epoch := ← optionalPos (body.field? "epoch") }

/-! ### The card -/

/-- `_CARD_STATUS`. -/
def cardStatuses : List (String × String) :=
  [("queued", "queued"), ("preparing", "running"), ("running", "running"),
    ("needs_input", "needs_input"), ("succeeded", "completed"), ("failed", "failed"),
    ("cancelled", "cancelled")]

/-- `_CARD_STATUS.get(status, "running")`. -/
def cardStatus (status : String) : String := (cardStatuses.lookup status).getD "running"

def cardRun (run : Run) (p : Progress) : Json :=
  .obj [("id", .str run.id), ("status", .str (cardStatus p.status)), ("role", .str run.role),
    ("node", .str p.machine), ("provider", .str p.provider), ("repo", .str p.repo),
    ("thread_id", .str run.threadId),
    ("question", ofOption (if p.status = "needs_input" then p.question else none)),
    ("summary", ofOption (orNone (p.summary.getD ""))), ("error", ofOption (orNone p.error)),
    ("failure_class", ofOption (orNone p.failureClass))]

/-- The lines `format_run_card_body` adds for a status. -/
def statusLines (p : Progress) : List String :=
  let question := p.question.getD ""
  let summary := p.summary.getD ""
  if p.status = "needs_input" ∧ question ≠ "" then
    ["\n> ❓ **Question from agent**:\n> " ++ question ++ "\n",
      "*Reply in this thread to provide your answer.*"]
  else if p.status = "succeeded" then
    ["\n✅ **Result**: " ++ if summary ≠ "" then summary else "Completed successfully."]
  else if p.status = "failed" then
    let cls := if p.failureClass ≠ "" then " [" ++ p.failureClass ++ "]" else ""
    ["\n❌ **Error**" ++ cls ++ ": " ++ if p.error ≠ "" then p.error else "Run failed."]
  else if p.status = "cancelled" then ["\n⚠️ **Cancelled by operator.**"]
  else []

/-- `format_run_card_body`, for a relayed run: it has no outcome and no remediation. -/
def formatRunCardBody (run : Run) (p : Progress) : String :=
  let target := if p.targetRef ≠ "" then " (" ++ p.targetRef ++ ")" else ""
  "\n".intercalate
    (["### Run `" ++ run.id ++ "` (" ++ run.role ++ ")", "- **Status**: `" ++ p.status ++ "`",
      "- **Machine**: `" ++ p.machine ++ "`"] ++
      (if p.repo ≠ "" then ["- **Target**: `" ++ p.repo ++ "`" ++ target] else []) ++
      (if p.branch ≠ "" then ["- **Branch**: `" ++ p.branch ++ "`"] else []) ++ statusLines p)

/-- The meta of `post_run_card_checked`. -/
def cardMeta (run : Run) (p : Progress) : List (String × Json) :=
  [("run_id", .str run.id), ("role", .str run.role), ("provider", .str p.provider),
    ("machine", .str p.machine), ("status", .str p.status), ("repo", .str p.repo),
    ("target_ref", .str p.targetRef), ("failure_class", .str p.failureClass),
    ("error", .str p.error), ("question", ofOption p.question),
    ("summary", .str (p.summary.getD "")), ("work_item_id", .str ""), ("run", cardRun run p)]

def runCardId (runId : String) : String := "msg-card-" ++ runId

def Run.card (run : Run) : RunCard where
  threadId := run.threadId
  runId := run.id
  messageId := runCardId run.id
  author := run.role
  authorKind := "role"
  messageId_ne := by simp [runCardId]
  authorKind_mem := role_mem_messageAuthorKinds

/-- The card of an update, with its text or the one made for it. -/
def Run.updateWith (run : Run) (text : String) (version : Int) (p : Progress) : Update where
  version := version
  status := p.status
  bodyMd := if text ≠ "" then text else formatRunCardBody run p
  metaDict := cardMeta run p

def Run.update (run : Run) (version : Int) (p : Progress) : Update := run.updateWith "" version p

/-! ### The authority -/

/-- The run of a request: the stub of `apply_relayed_run_card`. -/
def RelayRequest.run (req : RelayRequest) (threadId : String) : Run :=
  ⟨req.runId, req.role, threadId⟩

/-- What a request says about its run. -/
def RelayRequest.progress (req : RelayRequest) : Progress where
  status := req.status
  machine := req.node
  provider := req.provider
  repo := req.repo
  targetRef := req.targetRef
  branch := req.branch
  question := req.question
  summary := req.summary
  error := req.error.getD ""
  failureClass := req.failureClass.getD ""

/-- `apply_relayed_run_card`: the call of the store, under the authority's own epoch and
node. -/
def RelayRequest.call (req : RelayRequest) (threadId : String) (authorityEpoch : Int)
    (authorityNode : String) : CardUpdate :=
  { (req.run threadId).card.call ⟨req.epoch, authorityEpoch, authorityNode⟩
      ((req.run threadId).updateWith (req.bodyMd.getD "") (req.version.getD 0) req.progress) with
    version := req.version }

/-! ### What a replica sends is what the authority reads -/

/-- The request a replica's update leads to. -/
def Run.request (run : Run) (version epoch : Int) (p : Progress) : RelayRequest where
  runId := run.id
  role := run.role
  status := p.status
  node := p.machine
  provider := p.provider
  repo := p.repo
  targetRef := p.targetRef
  branch := p.branch
  question := p.question
  summary := p.summary
  error := orNone p.error
  failureClass := orNone p.failureClass
  bodyMd := none
  version := some version
  epoch := some epoch

/-- The texts of an update are within the limits of the request. -/
def Fits (run : Run) (p : Progress) : Prop :=
  run.id.length ≤ 120 ∧ run.role.length ≤ 80 ∧ p.status.length ≤ 40 ∧ p.machine.length ≤ 80 ∧
    p.provider.length ≤ 80 ∧ p.repo.length ≤ 120 ∧ p.targetRef.length ≤ 120 ∧
    p.branch.length ≤ 120

private theorem lookup_replace (k : String) (v : Json) (fs : List (String × Json)) (k' : String) :
    (fs.map fun x => if x.1 = k then (k, v) else x).lookup k' =
      (fs.lookup k').map fun w => if k' = k then v else w := by
  induction fs with
  | nil => rfl
  | cons x fs ih =>
    obtain ⟨a, w⟩ := x
    have hkey : (if a = k then (k, v) else (a, w)) = (a, if a = k then v else w) := by
      split
      · next ha => rw [ha]
      · rfl
    simp only [List.map_cons, hkey, List.lookup_cons, ih]
    cases hb : k' == a with
    | true =>
      obtain rfl := eq_of_beq hb
      rfl
    | false => rfl

theorem field?_setField (k : String) (v : Json) (fs : List (String × Json)) (k' : String) :
    (setField k v (.obj fs)).field? k' = if k' = k then some v else (Json.obj fs).field? k' := by
  simp only [setField]
  by_cases hin : k ∈ fs.map Prod.fst
  · rw [if_pos hin]
    simp only [Json.field?, lookup_replace]
    by_cases hk : k' = k
    · subst hk
      cases hl : fs.lookup k' with
      | none =>
        obtain ⟨y, hy, hyk⟩ := List.mem_map.mp hin
        have := List.lookup_eq_none_iff.mp hl y hy
        simp [hyk] at this
      | some w => simp
    · cases fs.lookup k' <;> simp [hk]
  · rw [if_neg hin]
    simp only [Json.field?, List.lookup_append]
    by_cases hk : k' = k
    · have hnone : fs.lookup k = none := by
        rw [List.lookup_eq_none_iff]
        intro y hy
        exact bne_iff_ne.mpr fun h => hin (List.mem_map.mpr ⟨y, hy, h.symm⟩)
      simp [hk, hnone]
    · have hb : (k' == k) = false := beq_false_of_ne hk
      simp [hk, List.lookup_cons, hb]

private theorem exists_setField (k : String) (v : Json) (fs : List (String × Json)) :
    ∃ fs', setField k v (.obj fs) = .obj fs' := by
  simp only [setField]
  split
  · exact ⟨_, rfl⟩
  · exact ⟨_, rfl⟩

/-- The fields of the body a replica sends: its own three, and those of the payload. -/
theorem field?_postBody (fs : List (String × Json)) (runId : String) (version epoch : Int)
    (k : String) :
    (postBody (.obj fs) runId version epoch).field? k =
      if k = "epoch" then some (.num epoch)
      else if k = "version" then some (.num version)
      else if k = "run_id" then some (.str runId)
      else (Json.obj fs).field? k := by
  obtain ⟨fs₁, h₁⟩ := exists_setField "run_id" (.str runId) fs
  obtain ⟨fs₂, h₂⟩ := exists_setField "version" (.num version) fs₁
  rw [postBody, h₁, h₂, field?_setField, ← h₂, field?_setField, ← h₁, field?_setField]

@[simp] theorem optionalStr_ofOption (s : Option String) :
    optionalStr (some (ofOption s)) = some s := by
  cases s <;> rfl

@[simp] theorem sortKeys_ofOption (s : Option String) : (ofOption s).sortKeys = ofOption s := by
  cases s <;> rfl

@[simp] theorem sortKeys_str (s : String) : (Json.str s).sortKeys = .str s := rfl

private theorem field?_payload (run : Run) (p : Progress) (k : String) :
    (relayPayload run p).sortKeys.field? k =
      ((relayPayload run p).field? k).map Json.sortKeys := by
  have hn : ((relayFields run p).map Prod.fst).Nodup := by
    simp only [relayFields, List.map_cons, List.map_nil]
    decide
  exact Json.field?_sortKeys hn k

private theorem requiredStr_eq_some_iff {n : ℕ} {s t : String} :
    requiredStr n (some (.str s)) = some t ↔ s.length ≤ n ∧ s = t := by
  simp [requiredStr]

private theorem defaultStr_eq_some_iff {n : ℕ} {s t : String} :
    defaultStr n (some (.str s)) = some t ↔ s.length ≤ n ∧ s = t := by
  simp [defaultStr, requiredStr]

private theorem optionalPos_eq_some_iff {n : Int} {t : Option Int} :
    optionalPos (some (.num n)) = some t ↔ 1 ≤ n ∧ some n = t := by
  simp [optionalPos]

/-- **What a replica sends is what the authority reads**: the body made of the stored
payload, whose keys were sorted, is accepted as the request of the update, if its texts
are within the limits. -/
theorem ofBody_postBody {run : Run} {p : Progress} {version epoch : Int} {req : RelayRequest} :
    RelayRequest.ofBody (postBody (relayPayload run p).sortKeys run.id version epoch) = some req ↔
      (Fits run p ∧ 1 ≤ version ∧ 1 ≤ epoch) ∧ run.request version epoch p = req := by
  have hfield : ∀ k, (postBody (relayPayload run p).sortKeys run.id version epoch).field? k =
      if k = "epoch" then some (.num epoch)
      else if k = "version" then some (.num version)
      else if k = "run_id" then some (.str run.id)
      else ((relayPayload run p).field? k).map Json.sortKeys := by
    intro k
    rw [← field?_payload]
    exact field?_postBody _ run.id version epoch k
  generalize postBody (relayPayload run p).sortKeys run.id version epoch = body at hfield ⊢
  -- what the body has in each field that the authority reads
  have h₁ : body.field? "run_id" = some (.str run.id) := hfield _
  have h₂ : body.field? "role" = some (.str run.role) := hfield _
  have h₃ : body.field? "status" = some (.str p.status) := hfield _
  have h₄ : body.field? "node" = some (.str p.machine) := hfield _
  have h₅ : body.field? "provider" = some (.str p.provider) := hfield _
  have h₆ : body.field? "repo" = some (.str p.repo) := hfield _
  have h₇ : body.field? "target_ref" = some (.str p.targetRef) := hfield _
  have h₈ : body.field? "branch" = some (.str p.branch) := hfield _
  have h₉ : body.field? "question" = some (ofOption p.question) :=
    (hfield _).trans (congrArg some (sortKeys_ofOption _))
  have h₁₀ : body.field? "summary" = some (ofOption p.summary) :=
    (hfield _).trans (congrArg some (sortKeys_ofOption _))
  have h₁₁ : body.field? "error" = some (ofOption (orNone p.error)) :=
    (hfield _).trans (congrArg some (sortKeys_ofOption _))
  have h₁₂ : body.field? "failure_class" = some (ofOption (orNone p.failureClass)) :=
    (hfield _).trans (congrArg some (sortKeys_ofOption _))
  have h₁₃ : body.field? "body_md" = none := hfield _
  have h₁₄ : body.field? "version" = some (.num version) := hfield _
  have h₁₅ : body.field? "epoch" = some (.num epoch) := hfield _
  constructor
  · intro h
    unfold RelayRequest.ofBody at h
    rw [h₁, h₂, h₃, h₄, h₅, h₆, h₇, h₈, h₉, h₁₀, h₁₁, h₁₂, h₁₃, h₁₄, h₁₅] at h
    obtain ⟨a₁, r₁, h⟩ := Option.bind_eq_some_iff.mp h
    obtain ⟨a₂, r₂, h⟩ := Option.bind_eq_some_iff.mp h
    obtain ⟨a₃, r₃, h⟩ := Option.bind_eq_some_iff.mp h
    obtain ⟨a₄, r₄, h⟩ := Option.bind_eq_some_iff.mp h
    obtain ⟨a₅, r₅, h⟩ := Option.bind_eq_some_iff.mp h
    obtain ⟨a₆, r₆, h⟩ := Option.bind_eq_some_iff.mp h
    obtain ⟨a₇, r₇, h⟩ := Option.bind_eq_some_iff.mp h
    obtain ⟨a₈, r₈, h⟩ := Option.bind_eq_some_iff.mp h
    rw [optionalStr_ofOption, optionalStr_ofOption, optionalStr_ofOption,
      optionalStr_ofOption] at h
    obtain ⟨a₉, r₉, h⟩ := Option.bind_eq_some_iff.mp h
    obtain ⟨a₁₀, r₁₀, h⟩ := Option.bind_eq_some_iff.mp h
    obtain ⟨a₁₁, r₁₁, h⟩ := Option.bind_eq_some_iff.mp h
    obtain ⟨a₁₂, r₁₂, h⟩ := Option.bind_eq_some_iff.mp h
    obtain ⟨a₁₃, r₁₃, h⟩ := Option.bind_eq_some_iff.mp h
    obtain ⟨a₁₄, r₁₄, h⟩ := Option.bind_eq_some_iff.mp h
    obtain ⟨a₁₅, r₁₅, h⟩ := Option.bind_eq_some_iff.mp h
    -- each check that passed gives a limit, and the value is the one sent
    obtain ⟨f₁, rfl⟩ := requiredStr_eq_some_iff.mp r₁
    obtain ⟨f₂, rfl⟩ := requiredStr_eq_some_iff.mp r₂
    obtain ⟨f₃, rfl⟩ := requiredStr_eq_some_iff.mp r₃
    obtain ⟨f₄, rfl⟩ := defaultStr_eq_some_iff.mp r₄
    obtain ⟨f₅, rfl⟩ := defaultStr_eq_some_iff.mp r₅
    obtain ⟨f₆, rfl⟩ := defaultStr_eq_some_iff.mp r₆
    obtain ⟨f₇, rfl⟩ := defaultStr_eq_some_iff.mp r₇
    obtain ⟨f₈, rfl⟩ := defaultStr_eq_some_iff.mp r₈
    obtain rfl := Option.some.inj r₉
    obtain rfl := Option.some.inj r₁₀
    obtain rfl := Option.some.inj r₁₁
    obtain rfl := Option.some.inj r₁₂
    obtain rfl := Option.some.inj r₁₃
    obtain ⟨f₁₄, rfl⟩ := optionalPos_eq_some_iff.mp r₁₄
    obtain ⟨f₁₅, rfl⟩ := optionalPos_eq_some_iff.mp r₁₅
    exact ⟨⟨⟨f₁, f₂, f₃, f₄, f₅, f₆, f₇, f₈⟩, f₁₄, f₁₅⟩, Option.some.inj h⟩
  · rintro ⟨⟨⟨f₁, f₂, f₃, f₄, f₅, f₆, f₇, f₈⟩, f₁₄, f₁₅⟩, rfl⟩
    unfold RelayRequest.ofBody
    rw [h₁, h₂, h₃, h₄, h₅, h₆, h₇, h₈, h₉, h₁₀, h₁₁, h₁₂, h₁₃, h₁₄, h₁₅,
      requiredStr_eq_some_iff.mpr ⟨f₁, rfl⟩, requiredStr_eq_some_iff.mpr ⟨f₂, rfl⟩,
      requiredStr_eq_some_iff.mpr ⟨f₃, rfl⟩, defaultStr_eq_some_iff.mpr ⟨f₄, rfl⟩,
      defaultStr_eq_some_iff.mpr ⟨f₅, rfl⟩, defaultStr_eq_some_iff.mpr ⟨f₆, rfl⟩,
      defaultStr_eq_some_iff.mpr ⟨f₇, rfl⟩, defaultStr_eq_some_iff.mpr ⟨f₈, rfl⟩,
      optionalPos_eq_some_iff.mpr ⟨f₁₄, rfl⟩, optionalPos_eq_some_iff.mpr ⟨f₁₅, rfl⟩,
      optionalStr_ofOption, optionalStr_ofOption, optionalStr_ofOption, optionalStr_ofOption]
    rfl

/-- **The call of the store** a replica's update leads to delivers its card. -/
theorem call_request (run : Run) (version epoch authorityEpoch : Int) (authorityNode : String)
    (p : Progress) :
    (run.request version epoch p).call run.threadId authorityEpoch authorityNode =
      run.card.call ⟨some epoch, authorityEpoch, authorityNode⟩ (run.update version p) := by
  have horNone : ∀ s, (orNone s).getD "" = s := by
    intro s
    unfold orNone
    split
    · next h => rw [h]; rfl
    · rfl
  have hprogress : (run.request version epoch p).progress = p := by
    simp only [RelayRequest.progress, Run.request, horNone]
  simp only [RelayRequest.call, hprogress]
  rfl

end Barb
