import RunnerDashboard.Barb.OutboxRuns
import RunnerDashboard.Barb.RunLink

/-!
# Delivery of run cards

A replica stages the updates of a run in its outbox; a drainer posts what it claims; the
authority answers a request, perhaps late and perhaps again, and its answer may be lost.
The drainer marks an entry delivered only on an answer to it.

The invariant joins the two stores through the versioned register of the run: an entry that
was answered, or is marked delivered, is covered by the register, and stays covered.

## Main results

* `acknowledges_iff` — what is acknowledged was decided by the store.
* `Synced.step` — every step keeps the invariant.
-/

namespace Barb

open Sql Lts Register

/-! ### Posts -/

/-- What orders the updates of a run in the outbox. -/
def Run.key (run : Run) : Outbox.Key := ⟨"run_card", run.threadId, run.id⟩

/-- `enqueue_run_card`: the arguments of `enqueue`. -/
def Run.enqueueArgs (run : Run) (version : Int) (p : Progress) (now : Int) :
    Outbox.EnqueueArgs where
  key := run.key
  version := version
  payload := relayPayload run p
  terminal := p.status ∈ terminalStatuses
  now := now

/-- The body `AuthorityClient.post` sends for a claimed entry. -/
def requestBody (entry : Outbox.Entry) (epoch : Int) : Option Json :=
  (Json.loads entry.payload).map fun payload =>
    postBody payload entry.key.runId entry.version epoch

/-- `ingest_relayed_card` of an authority: the status and the code of its response. -/
def ingestResponse : Except BarbError Reply → ℕ × String
  | .error (.staleEpoch _) => (409, "stale_authority_epoch")
  | .error (.fenced _) => (409, "stale_authority_epoch")
  | .error _ => (500, "")
  | .ok (_, result) => if result.outcome = .stale then (409, "stale_version") else (200, "")

inductive DeliveryOutcome
  | delivered
  | stale
  deriving DecidableEq, Repr

/-- What `AuthorityClient.post` raises. -/
inductive DeliveryError
  /-- `AuthorityUnavailable`. -/
  | unavailable
  /-- `AuthorityEpochMismatch`. -/
  | epochMismatch
  /-- `AuthorityRejected`. -/
  | rejected
  deriving DecidableEq, Repr

/-- What `AuthorityClient.post` makes of a response. -/
def classify (status : ℕ) (code : String) : Except DeliveryError DeliveryOutcome :=
  if 200 ≤ status ∧ status < 300 then .ok .delivered
  else if status = 409 ∧ code = "stale_version" then .ok .stale
  else if status = 409 ∧ code = "stale_authority_epoch" then .error .epochMismatch
  else if status = 429 ∨ 500 ≤ status then .error .unavailable
  else .error .rejected

def acknowledges (reply : Except BarbError Reply) : Bool :=
  (classify (ingestResponse reply).1 (ingestResponse reply).2).isOk

/-- **What is acknowledged was decided by the store**: the call did not fail. -/
theorem acknowledges_iff {reply : Except BarbError Reply} :
    acknowledges reply = true ↔ ∃ r, reply = .ok r := by
  cases reply with
  | error e =>
    have hno : acknowledges (.error e) = false := by
      cases e <;> rfl
    simp [hno]
  | ok r =>
    obtain ⟨card, result⟩ := r
    have hyes : acknowledges (.ok (card, result)) = true := by
      by_cases hstale : result.outcome = .stale
      · simp only [acknowledges, ingestResponse, if_pos hstale]
        rfl
      · simp only [acknowledges, ingestResponse, if_neg hstale]
        rfl
    simp [hyes]

/-! ### The system -/

/-- The replica's outbox and card version; the entries handed out to a drainer, the posts
on their way, and the entries whose post was acknowledged; the authority's database and the
receipt ids it drew. -/
structure System where
  outbox : Outbox.State
  cardVersion : Int
  claims : List (String × Outbox.Entry)
  posted : List (String × Outbox.Entry)
  answered : List String
  db : Db
  drawn : List String

/-- What happens in a step. -/
inductive Label
  /-- The replica stages an update of the run. -/
  | enqueue (p : Progress) (version now : Int) (id : String)
      (reply : Except Outbox.OutboxError String)
  | outbox (e : Outbox.Event)
  /-- A drainer posts an entry. -/
  | post (id : String)
  /-- The authority is not reached, or rejects the request unread, or its answer is lost. -/
  | unavailable
  /-- The authority answers a post of the version. -/
  | answer (id : String) (version : Int) (reply : Except BarbError Reply)

def entries : Outbox.Reply → List (String × Outbox.Entry)
  | .claimed rows => rows.map fun x => (x.1, x.2.entry)
  | _ => []

inductive SystemStep (env : Env) (b : Outbox.Bounds) (run : Run) :
    System → Label → System → Prop
  /-- Versions strictly increase. -/
  | enqueue {s : System} {p : Progress} {version now : Int} {id : String}
      {reply : Except Outbox.OutboxError String} {o : Outbox.State}
      (higher : s.cardVersion < version)
      (step : Outbox.Step b s.outbox
        ⟨.enqueue (run.enqueueArgs version p now) id, .enqueued reply⟩ o) :
      SystemStep env b run s (.enqueue p version now id reply)
        { s with outbox := o, cardVersion := version }
  /-- An entry of the run is marked delivered only once its post was acknowledged. -/
  | outbox {s : System} {e : Outbox.Event} {o : Outbox.State}
      (other : ∀ a id, e.call = .enqueue a id → a.key ≠ run.key)
      (acknowledged : ∀ id now, e.call = .markDelivered id now →
        ∀ r, s.outbox.row id = some r → r.entry.key = run.key → id ∈ s.answered)
      (step : Outbox.Step b s.outbox e o) :
      SystemStep env b run s (.outbox e)
        { s with outbox := o, claims := s.claims ++ entries e.reply }
  | post {s : System} {id : String} {entry : Outbox.Entry} (claimed : (id, entry) ∈ s.claims)
      (key : entry.key = run.key) :
      SystemStep env b run s (.post id) { s with posted := (id, entry) :: s.posted }
  /-- Nothing is heard. -/
  | unavailable {s : System} : SystemStep env b run s .unavailable s
  /-- A post reaches the authority, under any epochs. -/
  | answer {s : System} {id : String} {entry : Outbox.Entry} {epoch authorityEpoch : Int}
      {authorityNode : String} {body : Json} {req : RelayRequest} {d : Draw}
      {reply : Except BarbError Reply} {db' : Db} (posted : (id, entry) ∈ s.posted)
      (sent : requestBody entry epoch = some body) (valid : RelayRequest.ofBody body = some req)
      (fresh : d.receiptId ∉ s.drawn)
      (applied : applyRunCardUpdate env d
        (req.call entry.key.threadId authorityEpoch authorityNode) s.db = (reply, db')) :
      SystemStep env b run s (.answer id entry.version reply)
        { s with
          db := db'
          drawn := d.receiptId :: s.drawn
          answered := if acknowledges reply then id :: s.answered else s.answered }

def System.new (messages : Table String Message) (fence : Option EpochFence) : System :=
  ⟨Outbox.emptyOutbox, 0, [], [], [], .new messages fence, []⟩

/-! ### Accepted updates -/

/-- An accepted update, with the entry staged for it. -/
def Made (run : Run) (past : List Label) (entry : Outbox.Entry) (x : Update) : Prop :=
  ∃ p version now id id', Label.enqueue p version now id (.ok id') ∈ past ∧
    entry = (run.enqueueArgs version p now).row.entry ∧ x = run.update version p

variable {env : Env} {b : Outbox.Bounds} {run : Run} {s t : System} {l : Label}
  {past : List Label} {entry entry' : Outbox.Entry} {x x' : Update} {held held' : Option Update}

theorem Made.key (h : Made run past entry x) : entry.key = run.key := by
  obtain ⟨p, version, now, id, id', -, rfl, -⟩ := h
  rfl

theorem Made.version (h : Made run past entry x) : entry.version = x.version := by
  obtain ⟨p, version, now, id, id', -, rfl, rfl⟩ := h
  rfl

theorem Made.terminal (h : Made run past entry x) : entry.terminal = true ↔ x.Final := by
  obtain ⟨p, version, now, id, id', -, rfl, rfl⟩ := h
  exact decide_eq_true_iff

theorem Made.mono (h : Made run past entry x) (l : Label) : Made run (past ++ [l]) entry x := by
  obtain ⟨p, version, now, id, id', hmem, hentry, hx⟩ := h
  exact ⟨p, version, now, id, id', List.mem_append_left _ hmem, hentry, hx⟩

theorem Made.of_snoc (h : Made run (past ++ [l]) entry x)
    (hl : ∀ p version now id id', l ≠ .enqueue p version now id (.ok id')) :
    Made run past entry x := by
  obtain ⟨p, version, now, id, id', hmem, hentry, hx⟩ := h
  rcases List.mem_append.mp hmem with hmem | hmem
  · exact ⟨p, version, now, id, id', hmem, hentry, hx⟩
  · exact absurd (List.mem_singleton.mp hmem).symm (hl p version now id id')

/-- **The post of an entry delivers its update** to the run's card. -/
theorem Made.call {epoch authorityEpoch : Int} {authorityNode : String} {body : Json}
    {req : RelayRequest} (h : Made run past entry x) (hbody : requestBody entry epoch = some body)
    (hreq : RelayRequest.ofBody body = some req) :
    req.call entry.key.threadId authorityEpoch authorityNode =
      run.card.call ⟨some epoch, authorityEpoch, authorityNode⟩ x := by
  obtain ⟨p, version, now, id, id', -, rfl, rfl⟩ := h
  have hloads : requestBody (run.enqueueArgs version p now).row.entry epoch =
      some (postBody (relayPayload run p).sortKeys run.id version epoch) := by
    simp only [requestBody, Outbox.EnqueueArgs.row, Outbox.EnqueueArgs.data, Run.enqueueArgs,
      Run.key, Json.loads_dumpsCompact, Option.map_some]
  rw [hloads] at hbody
  rw [← Option.some.inj hbody] at hreq
  rw [← (ofBody_postBody.mp hreq).2]
  exact call_request run version epoch authorityEpoch authorityNode p

/-! ### The invariant -/

/-- What becomes of an accepted entry: its row stands, or its update is covered, or it is
not terminal and a higher version was accepted. -/
def Accounted (run : Run) (past : List Label) (o : Outbox.State) (held : Option Update)
    (entry : Outbox.Entry) (x : Update) : Prop :=
  (∃ id r, o.row id = some r ∧ r.entry = entry) ∨ ¬ Takes held x ∨
    (¬ x.Final ∧ ∃ entry' x', Made run past entry' x' ∧ x.version < x'.version)

/-- The two stores joined; `held` is the update the authority shows. -/
structure Synced (env : Env) (b : Outbox.Bounds) (run : Run) (past : List Label) (s : System)
    (held : Option Update) : Prop where
  outbox : Outbox.Inv b s.outbox
  card : Shows env run.card s.db held
  kept : WellKept s.drawn s.db
  heldMade : ∀ x, held = some x → ∃ entry, Made run past entry x
  /-- A row of the run is an accepted entry, and covered once it is delivered. -/
  rows : ∀ id r, s.outbox.row id = some r → r.entry.key = run.key →
    ∃ x, Made run past r.entry x ∧ (r.status = .delivered → ¬ Takes held x)
  /-- A claim names the entry of its row. -/
  claims : ∀ id entry, (id, entry) ∈ s.claims → id ∈ s.outbox.issued ∧
    ∀ r, s.outbox.row id = some r → r.entry = entry
  claimMade : ∀ id entry, (id, entry) ∈ s.claims → entry.key = run.key →
    ∃ x, Made run past entry x
  posted : ∀ id entry, (id, entry) ∈ s.posted → (id, entry) ∈ s.claims ∧ entry.key = run.key
  answered : ∀ id ∈ s.answered, ∃ entry x, (id, entry) ∈ s.claims ∧ Made run past entry x ∧
    ¬ Takes held x
  accounted : ∀ entry x, Made run past entry x → Accounted run past s.outbox held entry x
  versions : ∀ entry x, Made run past entry x → 1 ≤ x.version ∧ x.version ≤ s.cardVersion
  /-- An accepted version is one entry and one update. -/
  unique : ∀ entry x entry' x', Made run past entry x → Made run past entry' x' →
    x.version = x'.version → entry = entry' ∧ x = x'

theorem not_made_nil : ¬ Made run [] entry x := by
  rintro ⟨p, version, now, id, id', hmem, -, -⟩
  exact absurd hmem (by simp)

theorem System.new_synced {messages : Table String Message} {fence : Option EpochFence}
    (hfree : messages.get? (runCardId run.id) = none) :
    Synced env b run [] (.new messages fence) none where
  outbox := Outbox.emptyOutbox_inv b
  card := ⟨rfl, hfree⟩
  kept := .new messages fence
  heldMade := fun _ h => nomatch h
  rows := fun _ _ h => nomatch h
  claims := fun _ _ h => nomatch h
  claimMade := fun _ _ h => nomatch h
  posted := fun _ _ h => nomatch h
  answered := fun _ h => nomatch h
  accounted := fun _ _ h => absurd h not_made_nil
  versions := fun _ _ h => absurd h not_made_nil
  unique := fun _ _ _ _ h => absurd h not_made_nil

/-! ### Steps of the outbox -/

theorem Synced.row_cases (h : Synced env b run past s held) {e : Outbox.Event}
    {o : Outbox.State} (step : Outbox.Step b s.outbox e o)
    (hack : ∀ id now, e.call = .markDelivered id now →
      ∀ r, s.outbox.row id = some r → r.entry.key = run.key → id ∈ s.answered)
    {id : String} {r : Outbox.Row} (hr : o.row id = some r) (hkey : r.entry.key = run.key) :
    (∃ x, Made run past r.entry x ∧ (r.status = .delivered → ¬ Takes held x)) ∨
      ∃ a, e.call = .enqueue a id ∧ e.reply = .enqueued (.ok id) ∧ r = a.row ∧
        Outbox.findVersion s.outbox.table a.key a.version = none := by
  have hch := step.rowChange h.outbox.issued_row id
  rw [hr] at hch
  by_cases hins : ∃ a, e.call = .enqueue a id ∧ e.reply = .enqueued (.ok id) ∧ r = a.row ∧
      Outbox.findVersion s.outbox.table a.key a.version = none
  · exact .inr hins
  · left
    obtain ⟨r₀, hr₀, he⟩ : ∃ r₀, s.outbox.row id = some r₀ ∧ r.entry = r₀.entry := by
      generalize s.outbox.row id = r₁ at hch
      cases hch with
      | same _ => exact ⟨r, rfl, rfl⟩
      | inserted a hc hreply hv => exact absurd ⟨a, hc, hreply, rfl, hv⟩ hins
      | claimed r₀ _ _ _ _ => exact ⟨r₀, rfl, rfl⟩
      | marked r₀ _ _ he _ _ => exact ⟨r₀, rfl, he⟩
      | recovered r₀ _ => exact ⟨r₀, rfl, rfl⟩
    obtain ⟨x, hmade, hcov⟩ := h.rows id r₀ hr₀ (he ▸ hkey)
    refine ⟨x, he ▸ hmade, fun hd => ?_⟩
    rcases hch.delivered hd with hold | ⟨r₁, now, hr₁, hc, he₁⟩
    · obtain rfl := Option.some.inj (hr₀.symm.trans hold)
      exact hcov hd
    · -- it is marked on an answer to a post of its own entry
      obtain ⟨entry, y, hclaim, hmade', hnot⟩ :=
        h.answered id (hack id now hc r₀ hr₀ (he ▸ hkey))
      have heq : r₀.entry = entry := (h.claims id entry hclaim).2 r₀ hr₀
      have hver : x.version = y.version := by
        rw [← hmade.version, ← hmade'.version, heq]
      obtain ⟨-, rfl⟩ := h.unique _ _ _ _ hmade hmade' hver
      exact hnot

theorem Synced.accounted_step (h : Synced env b run past s held) {e : Outbox.Event}
    {o : Outbox.State} (step : Outbox.Step b s.outbox e o) (hmade : Made run past entry x) :
    Accounted run past o held entry x ∨
      (¬ x.Final ∧ ∃ a id, e.Accepts a id ∧ a.key = run.key ∧ x.version < a.version) := by
  rcases h.accounted entry x hmade with ⟨id, r, hr, rfl⟩ | hnot | hhigher
  · have hstands : Outbox.Stands b id r.entry s.outbox := ⟨h.outbox, r, hr, rfl⟩
    rcases hstands.step step with ⟨-, r', hr', he⟩ | ⟨r', hr', hd⟩ | ⟨hterm, a, id', ha, hk, hv⟩
    · exact .inl (.inl ⟨id, r', hr', he⟩)
    · obtain rfl := Option.some.inj (hr.symm.trans hr')
      obtain ⟨y, hmade', hcov⟩ := h.rows id r hr hmade.key
      have hver : x.version = y.version := by rw [← hmade.version, ← hmade'.version]
      obtain ⟨-, rfl⟩ := h.unique _ _ _ _ hmade hmade' hver
      exact .inl (.inr (.inl (hcov hd)))
    · right
      refine ⟨fun hx => ?_, a, id', ha, hk.trans hmade.key, hmade.version ▸ hv⟩
      rw [hmade.terminal.mpr hx] at hterm
      exact absurd hterm (by simp)
  · exact .inl (.inr (.inl hnot))
  · exact .inl (.inr (.inr hhigher))

theorem Synced.claims_step (h : Synced env b run past s held) {e : Outbox.Event}
    {o : Outbox.State} (step : Outbox.Step b s.outbox e o) {id : String}
    (hid : id ∈ s.outbox.issued) (hrow : ∀ r, s.outbox.row id = some r → r.entry = entry) :
    id ∈ o.issued ∧ ∀ r, o.row id = some r → r.entry = entry := by
  refine ⟨by rw [step.issued_eq]; exact List.mem_append_right _ hid, fun r hr => ?_⟩
  obtain ⟨r₀, hr₀, he⟩ := step.entry_eq h.outbox hid hr
  rw [he, hrow r₀ hr₀]

theorem mem_entries {e : Outbox.Event} {o o' : Outbox.State} (step : Outbox.Step b o e o')
    {id : String} (hmem : (id, entry) ∈ entries e.reply) :
    ∃ r, o.row id = some r ∧ r.entry = entry := by
  rw [step.reply_eq] at hmem
  cases hc : e.call with
  | claimDue limit now =>
    rw [hc] at hmem
    simp only [Outbox.exec, Outbox.claimDue, entries, List.map_map] at hmem
    obtain ⟨⟨id', r⟩, hr, heq⟩ := List.mem_map.mp hmem
    obtain ⟨rfl, rfl⟩ := Prod.ext_iff.mp heq
    exact ⟨r, (Outbox.of_mem_claimed hr).1, rfl⟩
  | _ => rw [hc] at hmem; exact absurd hmem (by simp [Outbox.exec, entries])

/-! ### One step -/

theorem Accounted.mono {o : Outbox.State} (h : Accounted run past o held entry x) (l : Label)
    (hmove : Move Update.version Update.Final held held') :
    Accounted run (past ++ [l]) o held' entry x := by
  rcases h with hrow | hnot | ⟨hx, entry', x', hmade, hlt⟩
  · exact .inl hrow
  · exact .inr (.inl (hmove.covered hnot))
  · exact .inr (.inr ⟨hx, entry', x', hmade.mono l, hlt⟩)

theorem made_enqueue (run : Run) (past : List Label) (p : Progress) (version now : Int)
    (id id' : String) :
    Made run (past ++ [.enqueue p version now id (.ok id')])
      (run.enqueueArgs version p now).row.entry (run.update version p) :=
  ⟨p, version, now, id, id', List.mem_append_right _ (by simp), rfl, rfl⟩

/-- An entry accepted so far was accepted before, or is the new one. -/
theorem made_snoc {p : Progress} {version now : Int} {id id' : String}
    (h : Made run (past ++ [.enqueue p version now id (.ok id')]) entry x) :
    Made run past entry x ∨
      (entry = (run.enqueueArgs version p now).row.entry ∧ x = run.update version p) := by
  obtain ⟨p', version', now', id₁, id₂, hmem, hentry, hx⟩ := h
  rcases List.mem_append.mp hmem with hmem | hmem
  · exact .inl ⟨p', version', now', id₁, id₂, hmem, hentry, hx⟩
  · obtain ⟨rfl, rfl, rfl, rfl, -⟩ := Label.enqueue.inj (List.mem_singleton.mp hmem)
    exact .inr ⟨hentry, hx⟩

/-- A step in which no update of the run is accepted. -/
private theorem Synced.keep (h : Synced env b run past s held)
    (hl : ∀ p version now id id', l ≠ .enqueue p version now id (.ok id'))
    {e : Outbox.Event} {o : Outbox.State} (step : Outbox.Step b s.outbox e o)
    (hack : ∀ id now, e.call = .markDelivered id now →
      ∀ r, s.outbox.row id = some r → r.entry.key = run.key → id ∈ s.answered)
    (hother : ∀ a id id', e.call = .enqueue a id → e.reply = .enqueued (.ok id') →
      a.key ≠ run.key) {v : Int} (hv : s.cardVersion ≤ v) :
    Synced env b run (past ++ [l])
      { s with outbox := o, cardVersion := v, claims := s.claims ++ entries e.reply } held := by
  -- a row of the run has the entry of a row from before the step
  have hrows : ∀ id r, o.row id = some r → r.entry.key = run.key →
      ∃ x, Made run past r.entry x ∧ (r.status = .delivered → ¬ Takes held x) := by
    intro id r hr hkey
    rcases h.row_cases step hack hr hkey with hold | ⟨a, hc, hreply, rfl, -⟩
    · exact hold
    · exact absurd hkey (hother a id id hc hreply)
  have hhand : ∀ id entry, (id, entry) ∈ entries e.reply →
      ∃ r, s.outbox.row id = some r ∧ r.entry = entry := fun _ _ => mem_entries step
  exact {
    outbox := h.outbox.step step
    card := h.card
    kept := h.kept
    heldMade := by
      intro x hx
      obtain ⟨entry, hmade⟩ := h.heldMade x hx
      exact ⟨entry, hmade.mono l⟩
    rows := by
      intro id r hr hkey
      obtain ⟨x, hmade, hcov⟩ := hrows id r hr hkey
      exact ⟨x, hmade.mono l, hcov⟩
    claims := by
      intro id entry hmem
      rcases List.mem_append.mp hmem with hmem | hmem
      · obtain ⟨hid, hrow⟩ := h.claims id entry hmem
        exact h.claims_step step hid hrow
      · obtain ⟨r, hr, he⟩ := hhand id entry hmem
        refine h.claims_step step (h.outbox.issued_row id r hr) fun r' hr' => ?_
        rw [← Option.some.inj (hr.symm.trans hr'), he]
    claimMade := by
      intro id entry hmem hkey
      rcases List.mem_append.mp hmem with hmem | hmem
      · obtain ⟨x, hmade⟩ := h.claimMade id entry hmem hkey
        exact ⟨x, hmade.mono l⟩
      · obtain ⟨r, hr, rfl⟩ := hhand id entry hmem
        obtain ⟨x, hmade, -⟩ := h.rows id r hr hkey
        exact ⟨x, hmade.mono l⟩
    posted := by
      intro id entry hmem
      obtain ⟨hclaim, hkey⟩ := h.posted id entry hmem
      exact ⟨List.mem_append_left _ hclaim, hkey⟩
    answered := by
      intro id hmem
      obtain ⟨entry, x, hclaim, hmade, hnot⟩ := h.answered id hmem
      exact ⟨entry, x, List.mem_append_left _ hclaim, hmade.mono l, hnot⟩
    accounted := by
      intro entry x hmade
      rcases h.accounted_step step (hmade.of_snoc hl) with hacc | ⟨-, a, id, ha, hk, -⟩
      · exact hacc.mono l (.refl held)
      · obtain ⟨⟨fresh, hc⟩, hreply⟩ := ha
        exact absurd hk (hother a fresh id hc hreply)
    versions := by
      intro entry x hmade
      obtain ⟨hpos, hle⟩ := h.versions entry x (hmade.of_snoc hl)
      exact ⟨hpos, hle.trans hv⟩
    unique := by
      intro entry x entry' x' hmade hmade'
      exact h.unique entry x entry' x' (hmade.of_snoc hl) (hmade'.of_snoc hl) }

private theorem Synced.accept (h : Synced env b run past s held) {p : Progress}
    {version now : Int} {id id' : String} {o : Outbox.State} (higher : s.cardVersion < version)
    (step : Outbox.Step b s.outbox
      ⟨.enqueue (run.enqueueArgs version p now) id, .enqueued (.ok id')⟩ o) :
    Synced env b run (past ++ [.enqueue p version now id (.ok id')])
      { s with outbox := o, cardVersion := version } held := by
  have hnew := made_enqueue run past p version now id id'
  have hmono : ∀ {entry x}, Made run past entry x →
      Made run (past ++ [.enqueue p version now id (.ok id')]) entry x := fun hm => hm.mono _
  have hok : (Outbox.enqueue b (run.enqueueArgs version p now) id s.outbox.table).1 = .ok id' :=
    (Outbox.Reply.enqueued.inj step.reply_eq).symm
  have hpos : 1 ≤ version := Outbox.one_le_of_enqueue_ok hok
  -- the version is higher than every accepted one, so its row is new
  have hlow : ∀ entry x, Made run past entry x → x.version < version := fun entry x hm =>
    (h.versions entry x hm).2.trans_lt higher
  have hinserted : ∃ r, o.row id' = some r ∧
      r.entry = (run.enqueueArgs version p now).row.entry := by
    have hch := step.rowChange h.outbox.issued_row id'
    obtain ⟨r, hr, hkey, hver⟩ := Outbox.row_of_accepts step h.outbox ⟨⟨id, rfl⟩, rfl⟩
    rcases h.row_cases step (fun _ _ hc => nomatch hc) hr hkey with
      ⟨x, hmade, -⟩ | ⟨a, hc, -, rfl, -⟩
    · have := hlow _ _ hmade
      rw [← hmade.version, hver] at this
      exact absurd this (lt_irrefl _)
    · rw [← (Outbox.Call.enqueue.inj hc).1] at hr
      exact ⟨_, hr, rfl⟩
  exact {
    outbox := h.outbox.step step
    card := h.card
    kept := h.kept
    heldMade := by
      intro x hx
      obtain ⟨entry, hmade⟩ := h.heldMade x hx
      exact ⟨entry, hmono hmade⟩
    rows := by
      intro id r hr hkey
      rcases h.row_cases step (fun _ _ hc => nomatch hc) hr hkey with
        ⟨x, hmade, hcov⟩ | ⟨a, hc, -, rfl, -⟩
      · exact ⟨x, hmono hmade, hcov⟩
      · obtain rfl := (Outbox.Call.enqueue.inj hc).1
        exact ⟨_, hnew, fun hd => absurd hd (by simp [Outbox.EnqueueArgs.row])⟩
    claims := by
      intro id entry hmem
      obtain ⟨hid, hrow⟩ := h.claims id entry hmem
      exact h.claims_step step hid hrow
    claimMade := by
      intro id entry hmem hkey
      obtain ⟨x, hmade⟩ := h.claimMade id entry hmem hkey
      exact ⟨x, hmono hmade⟩
    posted := h.posted
    answered := by
      intro id hmem
      obtain ⟨entry, x, hclaim, hmade, hnot⟩ := h.answered id hmem
      exact ⟨entry, x, hclaim, hmono hmade, hnot⟩
    accounted := by
      intro entry x hmade
      rcases made_snoc hmade with hmade | ⟨rfl, rfl⟩
      · rcases h.accounted_step step hmade with hacc | ⟨hx, a, id, ha, -, hlt⟩
        · exact hacc.mono _ (.refl held)
        · exact .inr (.inr ⟨hx, _, _, hnew, hlow _ _ hmade⟩)
      · obtain ⟨r, hr, he⟩ := hinserted
        exact .inl ⟨id', r, hr, he⟩
    versions := by
      intro entry x hmade
      rcases made_snoc hmade with hmade | ⟨-, rfl⟩
      · exact ⟨(h.versions entry x hmade).1, (hlow entry x hmade).le⟩
      · exact ⟨hpos, le_rfl⟩
    unique := by
      intro entry x entry' x' hmade hmade' hver
      rcases made_snoc hmade with hmade | ⟨rfl, rfl⟩
      · rcases made_snoc hmade' with hmade' | ⟨rfl, rfl⟩
        · exact h.unique entry x entry' x' hmade hmade' hver
        · exact absurd hver (hlow entry x hmade).ne
      · rcases made_snoc hmade' with hmade' | ⟨rfl, rfl⟩
        · exact absurd hver.symm (hlow entry' x' hmade').ne
        · exact ⟨rfl, rfl⟩ }

private theorem Synced.serve (h : Synced env b run past s held)
    (hl : ∀ p version now id id', l ≠ .enqueue p version now id (.ok id'))
    {posted : List (String × Outbox.Entry)} {answered drawn : List String} {db : Db}
    (hmove : Move Update.version Update.Final held held') (card : Shows env run.card db held')
    (kept : WellKept drawn db) (heldMade : ∀ x, held' = some x → ∃ entry, Made run past entry x)
    (hposted : ∀ id entry, (id, entry) ∈ posted → (id, entry) ∈ s.claims ∧ entry.key = run.key)
    (hanswered : ∀ id ∈ answered, ∃ entry x, (id, entry) ∈ s.claims ∧ Made run past entry x ∧
      ¬ Takes held' x) :
    Synced env b run (past ++ [l])
      { s with posted := posted, answered := answered, db := db, drawn := drawn } held' where
  outbox := h.outbox
  card := card
  kept := kept
  heldMade := by
    intro x hx
    obtain ⟨entry, hmade⟩ := heldMade x hx
    exact ⟨entry, hmade.mono l⟩
  rows := by
    intro id r hr hkey
    obtain ⟨x, hmade, hcov⟩ := h.rows id r hr hkey
    exact ⟨x, hmade.mono l, fun hd => hmove.covered (hcov hd)⟩
  claims := h.claims
  claimMade := by
    intro id entry hmem hkey
    obtain ⟨x, hmade⟩ := h.claimMade id entry hmem hkey
    exact ⟨x, hmade.mono l⟩
  posted := hposted
  answered := by
    intro id hmem
    obtain ⟨entry, x, hclaim, hmade, hnot⟩ := hanswered id hmem
    exact ⟨entry, x, hclaim, hmade.mono l, hnot⟩
  accounted := fun entry x hmade => (h.accounted entry x (hmade.of_snoc hl)).mono l hmove
  versions := fun entry x hmade => h.versions entry x (hmade.of_snoc hl)
  unique := fun entry x entry' x' hmade hmade' =>
    h.unique entry x entry' x' (hmade.of_snoc hl) (hmade'.of_snoc hl)

/-- **The answer to a post is a delivery** of the update of its entry. -/
theorem Synced.delivery (h : Synced env b run past s held) {id : String}
    {epoch authorityEpoch : Int} {authorityNode : String} {body : Json} {req : RelayRequest}
    {d : Draw} {reply : Except BarbError Reply} {db' : Db} (posted : (id, entry) ∈ s.posted)
    (sent : requestBody entry epoch = some body) (valid : RelayRequest.ofBody body = some req)
    (fresh : d.receiptId ∉ s.drawn)
    (applied : applyRunCardUpdate env d
      (req.call entry.key.threadId authorityEpoch authorityNode) s.db = (reply, db')) :
    ∃ x held', Made run past entry x ∧
      Delivery env run.card d ⟨some epoch, authorityEpoch, authorityNode⟩ x s.db held reply db'
        held' ∧
      Shows env run.card db' held' ∧ WellKept (d.receiptId :: s.drawn) db' := by
  obtain ⟨hclaim, hkey⟩ := h.posted id entry posted
  obtain ⟨x, hmade⟩ := h.claimMade id entry hclaim hkey
  rw [hmade.call sent valid] at applied
  obtain ⟨held', hdel, hshows, hkept⟩ :=
    deliver h.kept h.card (h.versions entry x hmade).1 fresh applied
  exact ⟨x, held', hmade, hdel, hshows, hkept⟩

/-- **Every step keeps the invariant**, and moves the register of the card. -/
theorem Synced.step (h : Synced env b run past s held) (hs : SystemStep env b run s l t) :
    ∃ held', Synced env b run (past ++ [l]) t held' ∧
      Move Update.version Update.Final held held' := by
  cases hs with
  | @enqueue p version now id reply o higher step =>
    refine ⟨held, ?_, .refl held⟩
    -- a refused update leaves the outbox as it was
    cases reply with
    | ok id' => exact h.accept higher step
    | error e =>
      have := h.keep (l := .enqueue p version now id (.error e))
        (fun _ _ _ _ _ hl => nomatch (Label.enqueue.inj hl).2.2.2.2) step
        (fun _ _ hc => nomatch hc)
        (fun _ _ _ _ hr => nomatch Outbox.Reply.enqueued.inj hr) higher.le
      rwa [show s.claims ++ entries (.enqueued (.error e)) = s.claims from List.append_nil _]
        at this
  | outbox other acknowledged step =>
    exact ⟨held, h.keep (fun _ _ _ _ _ => by simp) step acknowledged
      (fun a id _ hc _ => other a id hc) le_rfl, .refl held⟩
  | @post id entry claimed key =>
    refine ⟨held, h.serve (fun _ _ _ _ _ => by simp) (.refl held) h.card h.kept h.heldMade ?_
      h.answered, .refl held⟩
    intro id' entry' hmem
    rcases List.mem_cons.mp hmem with heq | hmem
    · obtain ⟨rfl, rfl⟩ := Prod.ext_iff.mp heq
      exact ⟨claimed, key⟩
    · exact h.posted id' entry' hmem
  | unavailable =>
    exact ⟨held, h.serve (fun _ _ _ _ _ => by simp) (.refl held) h.card h.kept h.heldMade
      h.posted h.answered, .refl held⟩
  | @answer id entry _ _ _ _ _ _ reply _ posted sent valid fresh applied =>
    obtain ⟨x, held', hmade, hdel, hshows, hkept⟩ := h.delivery posted sent valid fresh applied
    refine ⟨held', h.serve (fun _ _ _ _ _ => by simp) hdel.move hshows hkept ?_ h.posted ?_,
      hdel.move⟩
    · intro y hy
      cases hdel with
      | refused => exact h.heldMade y hy
      | covered => exact h.heldMade y hy
      | taken => exact ⟨entry, by rwa [← Option.some.inj hy]⟩
    · -- an update that the card does not take stays one
      have hold : ∀ id' ∈ s.answered, ∃ entry x, (id', entry) ∈ s.claims ∧
          Made run past entry x ∧ ¬ Takes held' x := by
        intro id' hmem
        obtain ⟨entry', y, hclaim, hmade', hnot⟩ := h.answered id' hmem
        exact ⟨entry', y, hclaim, hmade', hdel.move.covered hnot⟩
      intro id' hmem
      split at hmem
      · next hack =>
        obtain ⟨r, rfl⟩ := acknowledges_iff.mp hack
        rcases List.mem_cons.mp hmem with rfl | hmem
        · exact ⟨entry, x, (h.posted id' entry posted).1, hmade, hdel.not_takes⟩
        · exact hold id' hmem
      · exact hold id' hmem

theorem synced_of_path {messages : Table String Message} {fence : Option EpochFence}
    (hfree : messages.get? (runCardId run.id) = none)
    (p : Path (SystemStep env b run) (.new messages fence) past s) :
    ∃ held, Synced env b run past s held :=
  p.history (I := fun past s => ∃ held, Synced env b run past s held)
    (fun _ _ _ _ ⟨_, h⟩ hs => let ⟨held', h', _⟩ := h.step hs; ⟨held', h'⟩)
    ⟨none, System.new_synced hfree⟩

/-! ### The card of the authority -/

def ChangesCard (run : Run) (s t : System) : Prop :=
  t.db.versions.get? run.id ≠ s.db.versions.get? run.id ∨
    t.db.messages.get? (runCardId run.id) ≠ s.db.messages.get? (runCardId run.id)

theorem not_changesCard (hv : t.db.versions = s.db.versions)
    (hm : t.db.messages = s.db.messages) : ¬ ChangesCard run s t := by
  rintro (h | h)
  · exact h (by rw [hv])
  · exact h (by rw [hm])

theorem Synced.currentVersion_le (h : Synced env b run past s held)
    (hs : SystemStep env b run s l t) :
    currentVersion s.db run.id ≤ currentVersion t.db run.id := by
  obtain ⟨held', h', hmove⟩ := h.step hs
  have hcur : currentVersion s.db run.id = _ := h.card.currentVersion_eq
  have hcur' : currentVersion t.db run.id = _ := h'.card.currentVersion_eq
  rw [hcur, hcur']
  cases held with
  | some y =>
    obtain ⟨z, rfl, hle⟩ := hmove.version_le rfl
    exact hle
  | none =>
    cases held' with
    | none => exact le_rfl
    | some z =>
      obtain ⟨entry, hmade⟩ := h'.heldMade z rfl
      have := (h'.versions entry z hmade).1
      simp only [Option.map_none, Option.getD_none, Option.map_some, Option.getD_some]
      omega

/-- **Only a higher version changes the card**, and it is stored then. -/
theorem Synced.changes (h : Synced env b run past s held) (hs : SystemStep env b run s l t)
    (hc : ChangesCard run s t) :
    ∃ id v reply, l = .answer id v reply ∧ currentVersion s.db run.id < v ∧
      currentVersion t.db run.id = v := by
  cases hs with
  | enqueue => exact absurd hc (not_changesCard rfl rfl)
  | outbox => exact absurd hc (not_changesCard rfl rfl)
  | post => exact absurd hc (not_changesCard rfl rfl)
  | unavailable => exact absurd hc (not_changesCard rfl rfl)
  | @answer id entry _ _ _ _ _ _ reply _ posted sent valid fresh applied =>
    obtain ⟨x, held', hmade, hdel, hshows, -⟩ := h.delivery posted sent valid fresh applied
    refine ⟨id, entry.version, reply, rfl, ?_⟩
    have hcur : currentVersion s.db run.id = _ := h.card.currentVersion_eq
    cases hdel with
    | refused => exact absurd hc (not_changesCard rfl rfl)
    | covered _ _ frame _ =>
      -- at most the fence changed
      exact absurd hc (not_changesCard (by rw [frame]) (by rw [frame]))
    | taken hacc =>
      rw [hmade.version]
      refine ⟨?_, hshows.currentVersion_eq⟩
      rw [hcur]
      cases held with
      | none =>
        have := (h.versions entry x hmade).1
        simp only [Option.map_none, Option.getD_none]
        omega
      | some y => exact (hacc y rfl).1

theorem Synced.currentVersion_le_of_path (h : Synced env b run past s held) {ls : List Label}
    (p : Path (SystemStep env b run) s ls t) :
    currentVersion s.db run.id ≤ currentVersion t.db run.id := by
  refine p.monotone (I := fun s => ∃ past held, Synced env b run past s held)
    (fun s => currentVersion s.db run.id) ?_ ?_ ⟨past, held, h⟩
  · rintro s l t ⟨past, held, h⟩ hs
    obtain ⟨held', h', -⟩ := h.step hs
    exact ⟨past ++ [l], held', h'⟩
  · rintro s l t ⟨past, held, h⟩ hs
    exact h.currentVersion_le hs

/-- **When nothing is left to deliver** the card is the accepted update of the highest
version, if that is terminal or none is. -/
theorem Synced.holds (h : Synced env b run past s held) (hmade : Made run past entry x)
    (hmax : ∀ entry' y, Made run past entry' y → y.version ≤ x.version)
    (hfinal : x.Final ∨ ∀ entry' y, Made run past entry' y → ¬ y.Final)
    (hdone : ∀ id r, s.outbox.row id = some r → r.entry.key = run.key → r.status = .delivered) :
    Holds env run.card s.db x := by
  have hcovered : ¬ Takes held x := by
    rcases h.accounted entry x hmade with ⟨id, r, hr, rfl⟩ | hnot | ⟨-, entry', y, hmade', hlt⟩
    · obtain ⟨y, hmade', hcov⟩ := h.rows id r hr hmade.key
      have hver : x.version = y.version := by rw [← hmade.version, ← hmade'.version]
      obtain ⟨-, rfl⟩ := h.unique _ _ _ _ hmade hmade' hver
      exact hcov (hdone id r hr hmade.key)
    · exact hnot
    · exact absurd hlt (not_lt.mpr (hmax entry' y hmade'))
  have hheld : held = some x := by
    refine eq_of_covered (S := fun y => ∃ entry', Made run past entry' y) h.heldMade ?_ ?_ ?_
      hcovered
    · rintro y ⟨entry', hmade'⟩ hver
      exact (h.unique _ _ _ _ hmade' hmade hver).2
    · rintro y ⟨entry', hmade'⟩
      exact hmax entry' y hmade'
    · rcases hfinal with hx | hnone
      · exact .inl hx
      · exact .inr fun y ⟨entry', hmade'⟩ => hnone entry' y hmade'
  have hcard := h.card
  rw [hheld] at hcard
  exact hcard

def Label.stages : Label → Bool
  | .enqueue _ _ _ _ _ => true
  | _ => false

/-- Without another `enqueue` nothing is accepted. -/
theorem Made.of_append {before after : List Label} (h : Made run (before ++ after) entry x)
    (hquiet : ∀ l ∈ after, l.stages = false) : Made run before entry x := by
  obtain ⟨p, version, now, id, id', hmem, hentry, hx⟩ := h
  rcases List.mem_append.mp hmem with hmem | hmem
  · exact ⟨p, version, now, id, id', hmem, hentry, hx⟩
  · exact absurd (hquiet _ hmem) (by simp [Label.stages])

/-- **Delivery refines the newest card.**  In every state of every run of a replica and its
authority: no step lowers the stored version; a step that changes the card answers a post,
and no earlier step changed it for the same version; and if the update staged last was
accepted, and is terminal or none accepted is, then once every row of the run is delivered
the card of the authority is that update. -/
theorem delivery_refines {messages : Table String Message} {fence : Option EpochFence}
    (hfree : messages.get? (runCardId run.id) = none)
    (path : Path (SystemStep env b run) (.new messages fence) past s) :
    (∀ l t, SystemStep env b run s l t →
      currentVersion s.db run.id ≤ currentVersion t.db run.id) ∧
    (∀ l t, SystemStep env b run s l t → ChangesCard run s t →
      ∃ id v reply, l = .answer id v reply ∧
        ∀ before u id' reply' u' after, past = before ++ .answer id' v reply' :: after →
          Path (SystemStep env b run) (.new messages fence) before u →
          SystemStep env b run u (.answer id' v reply') u' →
          Path (SystemStep env b run) u' after s → ¬ ChangesCard run u u') ∧
    (∀ before p version now id id' after,
      past = before ++ .enqueue p version now id (.ok id') :: after →
      (∀ l ∈ after, l.stages = false) →
      (p.status ∈ terminalStatuses ∨
        ∀ p' version' now' i i', Label.enqueue p' version' now' i (.ok i') ∈ past →
          p'.status ∉ terminalStatuses) →
      (∀ id r, s.outbox.row id = some r → r.entry.key = run.key → r.status = .delivered) →
      Holds env run.card s.db (run.update version p)) := by
  obtain ⟨held, h⟩ := synced_of_path hfree path
  refine ⟨fun l t hs => h.currentVersion_le hs, ?_, ?_⟩
  · intro l t hs hc
    obtain ⟨id, v, reply, hl, hlt, -⟩ := h.changes hs hc
    refine ⟨id, v, reply, hl, ?_⟩
    intro before u id' reply' u' after hpast q hs' q' hc'
    -- the version was stored then, and is not lower now
    obtain ⟨heldu, hu⟩ := synced_of_path hfree q
    obtain ⟨heldu', hu', -⟩ := hu.step hs'
    obtain ⟨_, _, _, hl', -, hver⟩ := hu.changes hs' hc'
    obtain ⟨-, rfl, -⟩ := Label.answer.inj hl'
    have hle := hu'.currentVersion_le_of_path q'
    omega
  · intro before p version now id id' after hpast hquiet hterm hdone
    have hsplit : past = (before ++ [.enqueue p version now id (.ok id')]) ++ after := by
      rw [hpast, List.append_assoc, List.singleton_append]
    have hmade : Made run past (run.enqueueArgs version p now).row.entry
        (run.update version p) :=
      ⟨p, version, now, id, id', by rw [hpast]; simp, rfl, rfl⟩
    refine h.holds hmade ?_ ?_ hdone
    · -- nothing higher was accepted before it, and nothing after it
      intro entry y hy
      rw [hsplit] at hy path
      obtain ⟨u, q, -⟩ := path_append_iff.mp path
      obtain ⟨heldu, hu⟩ := synced_of_path hfree q
      obtain ⟨w, -, hlast⟩ := path_append_iff.mp q
      obtain ⟨w', hstep, hend⟩ := path_cons_iff.mp hlast
      obtain rfl := path_nil_iff.mp hend
      have hcur : w'.cardVersion = version := by
        cases hstep
        rfl
      rw [← hcur]
      exact (hu.versions entry y (hy.of_append hquiet)).2
    · rcases hterm with hx | hnone
      · exact .inl hx
      · right
        rintro entry y ⟨p', version', now', i, i', hmem, -, rfl⟩
        exact hnone p' version' now' i i' hmem

/-! ### A run -/

def sampleRun : Run := ⟨"run-1", "coder", "thread-1"⟩

def sampleProgress : Progress where
  status := "succeeded"
  machine := "node-1"
  provider := ""
  repo := ""
  targetRef := ""
  branch := ""
  question := none
  summary := none
  error := ""
  failureClass := ""

def sampleArgs : Outbox.EnqueueArgs := sampleRun.enqueueArgs 1 sampleProgress 5

def sampleBounds : Outbox.Bounds :=
  ⟨1, max 1 sampleArgs.size, max 1 sampleArgs.size, by simp⟩

def sampleTable (r : Outbox.Row) : Outbox.Store := ⟨[("obx", r)], by simp⟩

def sampleBody : Json := postBody (relayPayload sampleRun sampleProgress).sortKeys "run-1" 1 1

def sampleDraw : Draw := ⟨"receipt", "m", "t", "t", "t", 0, 0⟩

def sampleAnswer : Except BarbError Reply × Db :=
  applyRunCardUpdate (.default id) sampleDraw
    ((sampleRun.request 1 1 sampleProgress).call "thread-1" 1 "hub") (.new .empty none)

private theorem exec_enqueue :
    Outbox.exec sampleBounds .empty (.enqueue sampleArgs "obx") =
      (.enqueued (.ok "obx"), sampleTable sampleArgs.row) := by
  have hsize : ¬ sampleBounds.maxEntryBytes < sampleArgs.size := by simp [sampleBounds]
  have hok : ¬ (sampleArgs.key.kind = "" ∨ sampleArgs.key.threadId = "" ∨
      sampleArgs.version < 1) := by decide
  have hroom : ¬ (sampleBounds.maxEntries < 0 + 1 ∨
      sampleBounds.maxBytes < 0 + sampleArgs.size) := by simp [sampleBounds]
  have henq : Outbox.enqueueBody sampleBounds sampleArgs "obx" .empty =
      .ok ("obx", sampleTable sampleArgs.row) := by
    simp only [Outbox.enqueueBody]
    exact if_neg hroom
  simp only [Outbox.exec, Outbox.enqueue, if_neg hok, if_neg hsize, immediateTxn, henq]

private theorem exec_claimDue :
    Outbox.exec sampleBounds (sampleTable sampleArgs.row) (.claimDue 1 5) =
      (.claimed [("obx", { sampleArgs.row with status := .delivering })],
        sampleTable { sampleArgs.row with status := .delivering }) := by
  have hdue : Outbox.due (sampleTable sampleArgs.row) 5 sampleArgs.row = true := by decide
  have hclaimed : Outbox.claimed (sampleTable sampleArgs.row) 1 5 = [("obx", sampleArgs.row)] := by
    have hfilter : ((sampleTable sampleArgs.row).rows.filter fun x =>
        Outbox.due (sampleTable sampleArgs.row) 5 x.2) = [("obx", sampleArgs.row)] := by
      simp only [sampleTable, List.filter_cons, List.filter_nil] at hdue ⊢
      rw [if_pos hdue]
    rw [Outbox.claimed, hfilter, List.mergeSort_singleton]
    rfl
  simp only [Outbox.exec, Outbox.claimDue, hclaimed]
  rfl

private theorem exec_markDelivered (r : Outbox.Row) :
    Outbox.exec sampleBounds (sampleTable r) (.markDelivered "obx" 6) =
      (.none, sampleTable { r with status := .delivered, deliveredAt := some 6 }) := by
  simp [Outbox.exec, Outbox.markDelivered, Outbox.setStatus, sampleTable, Table.update]

private theorem acknowledges_answer : acknowledges sampleAnswer.1 = true := by
  obtain ⟨reply, h⟩ : ∃ reply, (applyRunCardUpdate (.default id) sampleDraw
      (sampleRun.card.call ⟨some 1, 1, "hub"⟩ (sampleRun.update 1 sampleProgress))
      (.new .empty none)).1 = .ok reply :=
    deliver_isOk (.new .empty none) (show Shows _ _ _ none from ⟨rfl, rfl⟩) le_rfl
      (List.not_mem_nil) (by rfl) ⟨_, rfl⟩ (by decide) (fun _ => .inl rfl)
      fun _ db => ⟨db, if_neg (by decide)⟩
  refine acknowledges_iff.mpr ⟨reply, ?_⟩
  rw [← call_request] at h
  exact h

def sampleClaim : String × Outbox.Entry := ("obx", sampleArgs.row.entry)

/-- The system, once the entry was handed out and posted. -/
def samplePosted : System where
  outbox := ⟨sampleTable { sampleArgs.row with status := .delivering }, ["obx"], ["obx"]⟩
  cardVersion := 1
  claims := [sampleClaim]
  posted := [sampleClaim]
  answered := []
  db := .new .empty none
  drawn := []

def sampleAnswered : System :=
  { samplePosted with answered := ["obx"], db := sampleAnswer.2, drawn := ["receipt"] }

def sampleMarked : System :=
  { sampleAnswered with
    outbox := ⟨sampleTable { sampleArgs.row with
      status := .delivered
      deliveredAt := some 6 }, [], ["obx"]⟩ }

def sampleLabels : List Label :=
  [.enqueue sampleProgress 1 5 "obx" (.ok "obx"),
    .outbox ⟨.claimDue 1 5, .claimed [("obx", { sampleArgs.row with status := .delivering })]⟩,
    .post "obx", .answer "obx" 1 sampleAnswer.1, .outbox ⟨.markDelivered "obx" 6, .none⟩]

private theorem path_posted :
    Path (SystemStep (.default id) sampleBounds sampleRun) (.new .empty none)
      (sampleLabels.take 3) samplePosted := by
  let o₁ : Outbox.State := ⟨sampleTable sampleArgs.row, [], ["obx"]⟩
  have step₁ : Outbox.Step sampleBounds Outbox.emptyOutbox
      ⟨.enqueue sampleArgs "obx", .enqueued (.ok "obx")⟩ o₁ :=
    ⟨by simp [Outbox.Call.marks], by simp [Outbox.emptyOutbox], exec_enqueue, rfl, rfl⟩
  have step₂ : Outbox.Step sampleBounds o₁
      ⟨.claimDue 1 5, .claimed [("obx", { sampleArgs.row with status := .delivering })]⟩
      samplePosted.outbox :=
    ⟨by simp [Outbox.Call.marks], by simp [Outbox.Call.draws], exec_claimDue, rfl, rfl⟩
  have h₁ : SystemStep (.default id) sampleBounds sampleRun (.new .empty none)
      (.enqueue sampleProgress 1 5 "obx" (.ok "obx"))
      ⟨o₁, 1, [], [], [], .new .empty none, []⟩ := .enqueue (by decide) step₁
  have h₂ : SystemStep (.default id) sampleBounds sampleRun
      ⟨o₁, 1, [], [], [], .new .empty none, []⟩
      (.outbox ⟨.claimDue 1 5, .claimed [("obx", { sampleArgs.row with status := .delivering })]⟩)
      { samplePosted with posted := [] } := .outbox (by simp) (by simp) step₂
  exact .cons h₁ (.cons h₂ (.single (.post (List.mem_singleton.mpr rfl) rfl)))

private theorem path_marked :
    Path (SystemStep (.default id) sampleBounds sampleRun) (.new .empty none) sampleLabels
      sampleMarked := by
  have hbody : requestBody sampleArgs.row.entry 1 = some sampleBody := by
    simp only [requestBody, sampleArgs, Outbox.EnqueueArgs.row, Outbox.EnqueueArgs.data,
      Run.enqueueArgs, Json.loads_dumpsCompact, Option.map_some]
    rfl
  have hreq : RelayRequest.ofBody sampleBody = some (sampleRun.request 1 1 sampleProgress) :=
    ofBody_postBody.mpr ⟨⟨by unfold Fits; decide, le_rfl, le_rfl⟩, rfl⟩
  have hanswer : SystemStep (.default id) sampleBounds sampleRun samplePosted
      (.answer "obx" 1 sampleAnswer.1) sampleAnswered := by
    have happlied : applyRunCardUpdate (.default id) sampleDraw
        ((sampleRun.request 1 1 sampleProgress).call "thread-1" 1 "hub") (.new .empty none) =
        (sampleAnswer.1, sampleAnswer.2) := Prod.mk.eta.symm
    have : SystemStep _ _ sampleRun _ _ _ := .answer (b := sampleBounds) (s := samplePosted)
      (List.mem_singleton.mpr rfl : sampleClaim ∈ samplePosted.posted) hbody hreq
      (List.not_mem_nil : sampleDraw.receiptId ∉ samplePosted.drawn) happlied
    rwa [if_pos acknowledges_answer] at this
  have hmark : Outbox.Step sampleBounds sampleAnswered.outbox ⟨.markDelivered "obx" 6, .none⟩
      sampleMarked.outbox :=
    ⟨by simp [Outbox.Call.marks, sampleAnswered, samplePosted], by simp [Outbox.Call.draws],
      exec_markDelivered _, rfl, rfl⟩
  refine path_posted.append (.cons hanswer (.single (.outbox (by simp) ?_ hmark)))
  rintro id now hc - - -
  obtain ⟨rfl, -⟩ := Outbox.Call.markDelivered.inj hc
  exact List.mem_singleton.mpr rfl

/-- The update is staged, claimed, posted, applied and marked delivered: it is the card. -/
theorem delivery_refines_once :
    Holds (.default id) sampleRun.card sampleMarked.db (sampleRun.update 1 sampleProgress) := by
  refine (delivery_refines (by rfl) path_marked).2.2 [] _ _ _ _ _ _ rfl ?_
    (.inl (by decide)) ?_
  · simp [Label.stages]
  · intro id r hr _
    have hmem := Table.get?_eq_some_iff.mp hr
    obtain ⟨rfl, rfl⟩ := Prod.ext_iff.mp (List.mem_singleton.mp hmem)
    rfl

end Barb
