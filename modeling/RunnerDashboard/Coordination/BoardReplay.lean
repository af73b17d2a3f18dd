import RunnerDashboard.Lib.Json
import RunnerDashboard.Lib.PyStr
import RunnerDashboard.Lib.Regex
import RunnerDashboard.Lib.Table

/-!
# Replaying the comments of the board

The comments of the board are read page by page.  A comment may have a fenced block with an envelope
in it, and the envelopes that announce or end a presence are replayed in order.  What is no envelope
is passed over, but an exception that the replay does not expect ends the whole read.

## Main results

* `faithful_iff` — **the read is complete with the sessions of the replay exactly if no comment
  raises**.
-/

namespace BoardReplay

open Sql

/-- What `json.loads` makes of a text. -/
inductive Loaded (Value : Type*)
  | value (v : Value)
  | valueError
  /-- The `RecursionError` of a text that is nested too deeply. -/
  | recursionError

/-- What `datetime.fromisoformat` reads: the instant in microseconds, as far as there is an
offset. -/
inductive Stamp
  | aware (instant : Int)
  | naive
  deriving DecidableEq

/-- What the interpreter computes for the module. -/
structure Python (Value : Type*) where
  loads : String → Loaded Value
  /-- The items of a `dict`, `none` for another value. -/
  items? : Value → Option (List (String × Value))
  truthy : Value → Bool
  /-- `str(value)`. -/
  str : Value → String
  /-- `datetime.fromisoformat`, `none` where it raises `ValueError`. -/
  fromisoformat : String → Option Stamp

/-- The exceptions that the replay does not catch. -/
inductive Fault
  | recursionError
  /-- A `datetime` without an offset is compared with one that has one. -/
  | typeError
  deriving DecidableEq

/-- A comment: a `dict` with its body, or another value. -/
inductive Comment
  | dict (body : Option String)
  | other

/-- `str(comment.get("body") or "")`. -/
def Comment.body : Comment → String
  | .dict (some body) => body
  | .dict none => ""
  | .other => ""

def fencedAgentMsg : Regex.Pattern :=
  .seqAll
    [.text "```json".toList, .some_ Py.isSpace, .text "agent-msg".toList, .many Py.isSpace,
      .text "\n".toList, .group "1" (.lazyMany fun _ => true), .text "\n```".toList]

def fenced? (c : Comment) : Option String :=
  (Regex.search fencedAgentMsg c.body.toList).map fun m => String.ofList ((m.group? "1").getD [])

def sessionKeys : List String :=
  ["session", "agent", "repo", "issue", "branch", "paths", "goals", "expires", "at"]

/-- A session of the board: the values under `SESSION_KEYS`, and its source. -/
structure Session (Value : Type*) where
  values : List (String × Option Value)
  source : String := "board"
  deriving DecidableEq

/-- `_session`. -/
def sessionOf {Value : Type*} (raw : List (String × Value)) : Session Value :=
  { values := sessionKeys.map fun k => (k, raw.lookup k) }

variable {Value : Type*}

abbrev Active (Value : Type*) := Table String (Session Value)

/-- `active.pop(sess, None)`. -/
def pop (active : Active Value) (sess : String) : Active Value := active.delete fun k _ => k = sess

section Code

variable (P : Python Value)

/-- `str(env.get(key) or "")`. -/
def textOr (env : List (String × Value)) (key : String) : String :=
  match env.lookup key with
  | some v => if P.truthy v then P.str v else ""
  | none => ""

/-- `s.replace("Z", "+00:00")`. -/
def replaceZ (s : String) : String :=
  String.ofList (s.toList.flatMap fun c => if c = 'Z' then "+00:00".toList else [c])

def replayEnvelope (refNow : Int) (active : Active Value) (env : List (String × Value))
    (kind sess : String) : Except Fault (Active Value) :=
  if kind = "release" then .ok (pop active sess)
  else if kind = "presence" then
    let expRaw := textOr P env "expires"
    if expRaw = "" then .ok (active.put sess (sessionOf env))
    else
      match P.fromisoformat (replaceZ expRaw) with
      | none => .ok (active.put sess (sessionOf env))
      | some .naive => .error .typeError
      | some (.aware instant) =>
        if instant ≤ refNow then .ok (pop active sess)
        else .ok (active.put sess (sessionOf env))
  else .ok active

/-- The body of the loop over the comments of a page. -/
def replayComment (refNow : Int) (active : Active Value) (comment : Comment) :
    Except Fault (Active Value) :=
  match fenced? comment with
  | none => .ok active
  | some text =>
    match P.loads text with
    | .recursionError => .error .recursionError
    | .valueError => .ok active
    | .value v =>
      match P.items? v with
      | none => .ok active
      | some env =>
        let kind := textOr P env "kind"
        let sess := textOr P env "session"
        if sess = "" then .ok active else replayEnvelope P refNow active env kind sess

def replayBatch (refNow : Int) : Active Value → List Comment → Except Fault (Active Value)
  | active, [] => .ok active
  | active, c :: batch =>
    match replayComment P refNow active c with
    | .error e => .error e
    | .ok active' => replayBatch refNow active' batch

/-- What the loop over the pages has so far. -/
structure Progress (Value : Type*) where
  active : Active Value := Table.empty
  warnings : List String := []
  complete : Bool := true
  totalComments : ℕ := 0

abbrev BoardPageFetcher := ℕ → ℕ → Except String (Option (List Comment))

def loop (refNow : Int) (fetchPage : BoardPageFetcher) (perPage : ℕ) (maxPages : Int) :
    ℕ → ℕ → Progress Value → Except Fault (Progress Value)
  | 0, _, p => .ok { p with
      complete := false
      warnings := p.warnings ++
        ["Board page limit (" ++ toString maxPages ++ " pages) reached; view is incomplete"] }
  | left + 1, page, p =>
    match fetchPage page perPage with
    | .error exc => .ok { p with
        complete := false
        warnings := p.warnings ++
          ["Board comment pagination failed on page " ++ toString page ++ ": " ++ exc] }
    | .ok none => .ok { p with
        complete := false
        warnings := p.warnings ++
          ["Board comment page " ++ toString page ++ " returned invalid payload"] }
    | .ok (some batch) =>
      match replayBatch P refNow p.active batch with
      | .error e => .error e
      | .ok active =>
        let p' := { p with active := active, totalComments := p.totalComments + batch.length }
        if batch.length < perPage then .ok p'
        else loop refNow fetchPage perPage maxPages left (page + 1) p'

structure BoardRead (Value : Type*) where
  available : Bool := true
  complete : Bool
  commentLimitExceeded : Bool
  commentCount : ℕ
  sessions : List (Session Value)
  warnings : List String

def boardCommentLimit : ℕ := 1000

def paginateBoardComments (fetchPage : BoardPageFetcher) (perPage : ℕ) (maxPages refNow : Int) :
    Except Fault (BoardRead Value) :=
  match loop P refNow fetchPage perPage maxPages (max 1 maxPages).toNat 1 {} with
  | .error e => .error e
  | .ok p => .ok {
      complete := p.complete
      commentLimitExceeded := !p.complete && boardCommentLimit ≤ p.totalComments
      commentCount := p.totalComments
      sessions := p.active.rows.map Prod.snd
      warnings := p.warnings }

end Code

/-! ### The replay without pages and exceptions -/

/-- An envelope that is replayed; the instant of its expiry is `none` if it does not expire. -/
inductive Envelope (Value : Type*)
  | release (sess : String)
  | presence (sess : String) (expires : Option Int) (record : Session Value)

def Envelope.session : Envelope Value → String
  | .release sess => sess
  | .presence sess _ _ => sess

def Envelope.apply (refNow : Int) (active : Active Value) : Envelope Value → Active Value
  | .release sess => pop active sess
  | .presence sess expires record =>
    if expires.any (· ≤ refNow) then pop active sess else active.put sess record

variable (P : Python Value)

def instant? (text : String) : Option Int :=
  match P.fromisoformat (replaceZ text) with
  | some (.aware instant) => some instant
  | _ => none

/-- The envelope in a comment; `none` for a comment without a well-formed presence or release. -/
def envelope? (c : Comment) : Option (Envelope Value) :=
  match (fenced? c).map P.loads with
  | some (.value v) =>
    (P.items? v).bind fun env =>
      let sess := textOr P env "session"
      let expires := textOr P env "expires"
      if sess = "" then none
      else if textOr P env "kind" = "release" then some (.release sess)
      else if textOr P env "kind" = "presence" then
        some (.presence sess (if expires = "" then none else instant? P expires) (sessionOf env))
      else none
  | _ => none

def replay (refNow : Int) (comments : List Comment) : Active Value :=
  (comments.filterMap (envelope? P)).foldl (Envelope.apply refNow) Table.empty

/-- The comments whose replay raises: a JSON text that is nested too deeply, or a presence with an
expiry that has no offset. -/
def Raises (c : Comment) : Prop :=
  ∃ text, fenced? c = some text ∧ (P.loads text = .recursionError ∨
    ∃ v env, P.loads text = .value v ∧ P.items? v = some env ∧ textOr P env "session" ≠ "" ∧
      textOr P env "kind" = "presence" ∧ textOr P env "expires" ≠ "" ∧
        P.fromisoformat (replaceZ (textOr P env "expires")) = some .naive)

def serve (comments : List Comment) : BoardPageFetcher := fun page perPage =>
  .ok (some ((comments.drop ((page - 1) * perPage)).take perPage))

def Faithful (comments : List Comment) (perPage : ℕ) (maxPages refNow : Int) : Prop :=
  ∃ r, paginateBoardComments P (serve comments) perPage maxPages refNow = .ok r ∧
    r.complete = true ∧ r.sessions = (replay P refNow comments).rows.map Prod.snd

variable {P} {refNow : Int} {active : Active Value} {c : Comment} {comments batch : List Comment}
  {perPage : ℕ}

/-! ### One comment -/

/-- The sessions after a comment that does not raise. -/
def after (P : Python Value) (refNow : Int) (active : Active Value) (c : Comment) : Active Value :=
  match envelope? P c with
  | none => active
  | some e => e.apply refNow active

theorem replayEnvelope_presence (env : List (String × Value)) (sess : String)
    (h : ¬ (textOr P env "expires" ≠ "" ∧
      P.fromisoformat (replaceZ (textOr P env "expires")) = some .naive)) :
    replayEnvelope P refNow active env "presence" sess = .ok ((Envelope.presence sess
      (if textOr P env "expires" = "" then none else instant? P (textOr P env "expires"))
        (sessionOf env)).apply refNow active) := by
  unfold replayEnvelope Envelope.apply
  rw [if_neg (by decide), if_pos rfl]
  dsimp only
  by_cases hempty : textOr P env "expires" = ""
  · rw [if_pos hempty, if_pos hempty]
    rfl
  · rw [if_neg hempty, if_neg hempty]
    unfold instant?
    cases hstamp : P.fromisoformat (replaceZ (textOr P env "expires")) with
    | none => rfl
    | some stamp =>
      cases stamp with
      | naive => exact absurd ⟨hempty, hstamp⟩ h
      | aware instant =>
        dsimp only
        by_cases hle : instant ≤ refNow
        · simp [hle]
        · simp [hle]

/-- **A comment raises, or its envelope is applied.** -/
theorem replayComment_eq (P : Python Value) (refNow : Int) (active : Active Value) (c : Comment) :
    (Raises P c ∧ ∃ e, replayComment P refNow active c = .error e) ∨
      (¬ Raises P c ∧ replayComment P refNow active c = .ok (after P refNow active c)) := by
  unfold Raises replayComment after envelope?
  cases htext : fenced? c with
  | none => exact .inr ⟨by simp, rfl⟩
  | some text =>
    rw [Option.map_some]
    dsimp only
    cases hload : P.loads text with
    | valueError => exact .inr ⟨by simp [hload], rfl⟩
    | recursionError => exact .inl ⟨⟨text, rfl, .inl hload⟩, _, rfl⟩
    | value v =>
      dsimp only
      cases hitems : P.items? v with
      | none => exact .inr ⟨by simp [hload, hitems], rfl⟩
      | some env =>
        rw [Option.bind_some]
        dsimp only
        by_cases hsess : textOr P env "session" = ""
        · rw [if_pos hsess, if_pos hsess]
          exact .inr ⟨by simp [hload, hitems, hsess], rfl⟩
        rw [if_neg hsess, if_neg hsess]
        by_cases hrelease : textOr P env "kind" = "release"
        · rw [if_pos hrelease, hrelease]
          exact .inr ⟨by simp [hload, hitems, hrelease], rfl⟩
        rw [if_neg hrelease]
        by_cases hpresence : textOr P env "kind" = "presence"
        · rw [if_pos hpresence, hpresence]
          -- an expiry without an offset cannot be compared with the clock
          by_cases hnaive : textOr P env "expires" ≠ "" ∧
              P.fromisoformat (replaceZ (textOr P env "expires")) = some .naive
          · refine .inl ⟨⟨text, rfl, .inr ⟨v, env, hload, hitems, hsess, hpresence, hnaive⟩⟩,
              .typeError, ?_⟩
            unfold replayEnvelope
            rw [if_neg (by decide), if_pos rfl]
            dsimp only
            rw [if_neg hnaive.1, hnaive.2]
          · refine .inr ⟨?_, replayEnvelope_presence env _ hnaive⟩
            rintro ⟨text', ⟨⟩, hraise | ⟨v', env', hload', hitems', -, -, hnaive'⟩⟩
            · rw [hload] at hraise
              cases hraise
            · rw [hload] at hload'
              obtain rfl := Loaded.value.inj hload'
              rw [hitems] at hitems'
              obtain rfl := Option.some.inj hitems'
              exact hnaive hnaive'
        · rw [if_neg hpresence]
          refine .inr ⟨by simp [hload, hitems, hpresence], ?_⟩
          unfold replayEnvelope
          rw [if_neg hrelease, if_neg hpresence]

/-! ### All comments -/

theorem replayBatch_cons : replayBatch P refNow active (c :: batch) =
    match replayComment P refNow active c with
    | .error e => .error e
    | .ok active' => replayBatch P refNow active' batch := rfl

theorem replayBatch_append : replayBatch P refNow active (comments ++ batch) =
    match replayBatch P refNow active comments with
    | .error e => .error e
    | .ok active' => replayBatch P refNow active' batch := by
  induction comments generalizing active with
  | nil => rfl
  | cons c comments ih =>
    rw [List.cons_append, replayBatch_cons, replayBatch_cons]
    cases replayComment P refNow active c with
    | error e => rfl
    | ok active' => exact ih

/-- **The comments raise, or their envelopes are applied one after the other.** -/
theorem replayBatch_eq (P : Python Value) (refNow : Int) (active : Active Value)
    (comments : List Comment) :
    ((∃ c ∈ comments, Raises P c) ∧ ∃ e, replayBatch P refNow active comments = .error e) ∨
      ((∀ c ∈ comments, ¬ Raises P c) ∧ replayBatch P refNow active comments =
        .ok ((comments.filterMap (envelope? P)).foldl (Envelope.apply refNow) active)) := by
  induction comments generalizing active with
  | nil => exact .inr ⟨nofun, rfl⟩
  | cons c comments ih =>
    rw [replayBatch_cons]
    rcases replayComment_eq P refNow active c with ⟨hraise, e, heq⟩ | ⟨hnot, heq⟩ <;> rw [heq]
    · exact .inl ⟨⟨c, List.mem_cons_self, hraise⟩, e, rfl⟩
    · dsimp only
      rcases ih (after P refNow active c) with ⟨⟨x, hx, hraise⟩, herr⟩ | ⟨hall, hok⟩
      · exact .inl ⟨⟨x, List.mem_cons_of_mem c hx, hraise⟩, herr⟩
      · refine .inr ⟨List.forall_mem_cons.mpr ⟨hnot, hall⟩, hok.trans ?_⟩
        unfold after
        cases henv : envelope? P c with
        | none => rw [List.filterMap_cons_none henv]
        | some e => rw [List.filterMap_cons_some henv, List.foldl_cons]

/-! ### All pages -/

/-- **The pages are one replay of all comments.** -/
theorem loop_serve (P : Python Value) (refNow maxPages : Int) (hpage : 0 < perPage)
    (p : Progress Value) {left page : ℕ} {rest : List Comment} (hone : 1 ≤ page)
    (hrest : comments.drop ((page - 1) * perPage) = rest)
    (hleft : rest.length / perPage + 1 ≤ left) :
    loop P refNow (serve comments) perPage maxPages left page p =
      match replayBatch P refNow p.active rest with
      | .error e => .error e
      | .ok active => .ok { p with
          active := active
          totalComments := p.totalComments + rest.length } := by
  induction left generalizing page p rest with
  | zero => exact absurd hleft (Nat.not_succ_le_zero _)
  | succ left ih =>
    unfold loop serve
    dsimp only
    rw [hrest]
    by_cases hlen : rest.length < perPage
    · -- the last page
      rw [List.take_of_length_le hlen.le]
      cases replayBatch P refNow p.active rest with
      | error e => rfl
      | ok active => exact if_pos hlen
    · have hsplit : replayBatch P refNow p.active (rest.take perPage ++ rest.drop perPage) = _ :=
        replayBatch_append
      rw [List.take_append_drop] at hsplit
      rw [hsplit]
      cases replayBatch P refNow p.active (rest.take perPage) with
      | error e => rfl
      | ok active =>
        have htake : (rest.take perPage).length = perPage := by
          rw [List.length_take]
          omega
        have hdrop : comments.drop ((page + 1 - 1) * perPage) = rest.drop perPage := by
          rw [← hrest, List.drop_drop, Nat.add_sub_cancel]
          congr 1
          obtain ⟨n, rfl⟩ := Nat.exists_eq_add_of_le' hone
          rw [Nat.add_sub_cancel, Nat.succ_mul]
        have hfewer : (rest.drop perPage).length / perPage + 1 ≤ left := by
          rw [List.length_drop, ← Nat.div_eq_sub_div hpage (Nat.le_of_not_lt hlen)]
          exact Nat.le_of_succ_le_succ hleft
        dsimp only
        rw [htake, if_neg (Nat.lt_irrefl perPage)]
        refine (ih _ (Nat.le_add_left 1 page) hdrop hfewer).trans ?_
        dsimp only
        cases replayBatch P refNow active (rest.drop perPage) with
        | error e => rfl
        | ok active' =>
          dsimp only
          rw [List.length_drop, Nat.add_assoc, Nat.add_sub_cancel' (Nat.le_of_not_lt hlen)]

theorem paginateBoardComments_serve {maxPages : Int} (hpage : 1 ≤ perPage)
    (hpages : ((comments.length / perPage : ℕ) : Int) + 1 ≤ maxPages) :
    paginateBoardComments P (serve comments) perPage maxPages refNow =
      match replayBatch P refNow Table.empty comments with
      | .error e => .error e
      | .ok active => .ok {
          complete := true
          commentLimitExceeded := false
          commentCount := 0 + comments.length
          sessions := active.rows.map Prod.snd
          warnings := [] } := by
  have hdrop : comments.drop ((1 - 1) * perPage) = comments := by
    rw [Nat.sub_self, Nat.zero_mul, List.drop_zero]
  have hleft : comments.length / perPage + 1 ≤ (max 1 maxPages).toNat := by omega
  have hloop := loop_serve P refNow maxPages hpage {} (Nat.le_refl 1) hdrop hleft
  unfold paginateBoardComments
  rw [hloop]
  dsimp only
  cases replayBatch P refNow Table.empty comments with
  | error e => rfl
  | ok active => rfl

theorem not_faithful_of_raises {maxPages : Int} (hpage : 1 ≤ perPage)
    (hpages : ((comments.length / perPage : ℕ) : Int) + 1 ≤ maxPages) (hc : c ∈ comments)
    (hraise : Raises P c) : ¬ Faithful P comments perPage maxPages refNow := by
  unfold Faithful
  rw [paginateBoardComments_serve hpage hpages]
  rcases replayBatch_eq P refNow Table.empty comments with ⟨-, e, heq⟩ | ⟨hall, -⟩
  · rw [heq]
    rintro ⟨r, hr, -⟩
    cases hr
  · exact absurd hraise (hall c hc)

/-- **The read is complete with the sessions of the replay exactly if no comment raises.** -/
theorem faithful_iff (P : Python Value) (comments : List Comment) (perPage : ℕ)
    (maxPages refNow : Int) (hpage : 1 ≤ perPage)
    (hpages : ((comments.length / perPage : ℕ) : Int) + 1 ≤ maxPages) :
    Faithful P comments perPage maxPages refNow ↔ ∀ c ∈ comments, ¬ Raises P c := by
  refine ⟨fun h c hc hraise => not_faithful_of_raises hpage hpages hc hraise h, fun h => ?_⟩
  unfold Faithful
  rw [paginateBoardComments_serve hpage hpages]
  rcases replayBatch_eq P refNow Table.empty comments with ⟨⟨c, hc, hraise⟩, -⟩ | ⟨-, heq⟩
  · exact absurd hraise (h c hc)
  · rw [heq]
    exact ⟨_, rfl, rfl, rfl⟩

/-- The interpreter on texts without fractions, and on two timestamps. -/
def python : Python Json where
  loads text := match Json.loads text with
    | some v => .value v
    | none => .valueError
  items? v := match v with
    | .obj fields => some fields
    | _ => none
  truthy := Json.truthy
  str v := match v with
    | .str s => s
    | v => v.dumps
  fromisoformat s :=
    if s = "2099-01-01T00:00:00" then some .naive
    else if s = "2099-01-01T00:00:00+00:00" then some (.aware 4070908800000000)
    else none

def presenceEnvelope (session expires : String) : Json :=
  .obj [("kind", .str "presence"), ("session", .str session), ("expires", .str expires)]

def presenceComment (session expires : String) : Comment :=
  .dict (some ("```json agent-msg\n" ++ (presenceEnvelope session expires).dumps ++ "\n```"))

theorem loads_presence (session expires : String) :
    python.loads (presenceEnvelope session expires).dumps =
      .value (presenceEnvelope session expires) := by
  simp only [python, Json.loads_dumps]

theorem not_raises_presence {session expires : String}
    (hfenced : fenced? (presenceComment session expires) =
      some (presenceEnvelope session expires).dumps)
    (haware : ∀ env, python.items? (presenceEnvelope session expires) = some env →
      python.fromisoformat (replaceZ (textOr python env "expires")) ≠ some .naive) :
    ¬ Raises python (presenceComment session expires) := by
  rintro ⟨text, htext, hraise⟩
  obtain rfl := Option.some.inj (hfenced.symm.trans htext)
  rw [loads_presence] at hraise
  rcases hraise with hraise | ⟨v, env, hload, hitems, -, -, -, hnaive⟩
  · cases hraise
  · obtain rfl := Loaded.value.inj hload
    exact haware env hitems hnaive

def twoPresences : List Comment :=
  [presenceComment "s1" "2099-01-01T00:00:00Z", presenceComment "s2" "2099-01-01T00:00:00Z"]

theorem faithful_presence : Faithful python twoPresences 100 1 0 := by
  refine (faithful_iff python twoPresences 100 1 0 (by decide) (by decide)).mpr ?_
  intro c hc
  rcases List.mem_pair.mp hc with rfl | rfl
  · refine not_raises_presence (by decide +kernel) ?_
    rintro env ⟨⟩
    decide +kernel
  · refine not_raises_presence (by decide +kernel) ?_
    rintro env ⟨⟩
    decide +kernel

/-- A presence whose expiry has no offset ends the read. -/
theorem not_faithful_naive :
    ¬ Faithful python [presenceComment "s1" "2099-01-01T00:00:00"] 100 1 0 := by
  have hfenced : fenced? (presenceComment "s1" "2099-01-01T00:00:00") =
      some (presenceEnvelope "s1" "2099-01-01T00:00:00").dumps := by decide +kernel
  refine not_faithful_of_raises (by decide) (by decide) List.mem_cons_self ⟨_, hfenced, .inr ?_⟩
  exact ⟨_, _, loads_presence _ _, rfl, by decide +kernel, by decide +kernel, by decide +kernel,
    by decide +kernel⟩

end BoardReplay
