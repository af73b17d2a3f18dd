import Mathlib.Data.List.Nodup
import Mathlib.Logic.Function.Basic
import RunnerDashboard.Lib.Json
import RunnerDashboard.Lib.PyStr

/-!
# Operator directives

The directives are a list in one JSON file.  An operator replaces the whole list and names the
version of the list that was edited; the reconcile of the managed directives loads the list,
changes the managed rows and writes the list back.  What `load` cannot read as a directive it
skips.

## Main results

* `Env.load_of_items` — written rows are loaded as they were written.
* `find?_reconcileRows` — the reconcile keeps the rows that are not managed.
-/

namespace Directives

/-! ### One directive -/

structure Directive where
  id : String
  text : String
  setBy : String
  repo : String
  priority : Int
  expires : String
  setOn : String
  active : Bool
  managed : Bool
  deriving DecidableEq

/-- The `ValueError`s. -/
inductive Invalid
  | expires (text : String)
  | textMissing
  | textLong
  | textLines
  | setBy
  | repo
  | priorityKind
  | priorityRange
  | notObject
  | duplicate (id : String)
  deriving DecidableEq

def maxText : ℕ := 500

def maxSetBy : ℕ := 120

def minPriority : Int := 1

def maxPriority : Int := 5

def defaultPriority : Int := 3

def allRepos : String := "*"

/-- The text of the error, where `repr` writes a string literal. -/
def Invalid.message (repr : String → String) : Invalid → String
  | expires text => s!"expires must be an ISO-8601 timestamp, got {repr text}"
  | textMissing => "directive text is required"
  | textLong => s!"directive text longer than {maxText} characters"
  | textLines => "directive text must be a single line (no CR/LF); put checklists in the issue"
  | setBy => s!"set_by is required (at most {maxSetBy} characters)"
  | repo => "repo must be '*' or a bare repository name (no owner, no path)"
  | priorityKind => "priority must be an integer"
  | priorityRange => s!"priority must be between {minPriority} and {maxPriority}"
  | notObject => "not an object"
  | duplicate id => s!"duplicate directive id {id}"

/-- What reading a directive may raise. -/
inductive Fault
  | invalid (error : Invalid)
  /-- The instant of `expires` in UTC is outside the calendar. -/
  | overflow
  deriving DecidableEq

/-- A JSON object, as `dict.get` reads it. -/
abbrev Item := String → Option Json

/-- What the interpreter computes for the module. -/
structure Env where
  /-- `str(value)`. -/
  str : Json → String
  str_text : ∀ s, str (.str s) = s
  str_ne : ∀ v, v.truthy = true → str v ≠ ""
  /-- `str.lower`. -/
  lower : String → String
  /-- The SHA-256 of a text, in hexadecimal digits. -/
  hexdigest : String → String
  /-- `_now()` at a moment. -/
  now : ℕ → String
  now_ne : ∀ t, now t ≠ ""
  /-- `_iso_z(datetime.fromisoformat(..))` of an expiry; nothing where the text is refused, and
  `some none` where the conversion to UTC leaves the calendar. -/
  instant : String → Option (Option String)
  instant_idem : ∀ s z, instant s = some (some z) →
    z ≠ "" ∧ Py.strip z = z ∧ instant z = some (some z)
  /-- The instant of an expiry is after the moment. -/
  after : String → ℕ → Bool

namespace Env

variable (E : Env)

/-- `str(value or default)`. -/
def textOr (value : Option Json) (default : String) : String :=
  match value with
  | some v => if v.truthy then E.str v else default
  | none => default

def directiveId (text repo : String) : String :=
  "dir-" ++ String.ofList
    ((E.hexdigest (E.lower (Py.strip text) ++ "|" ++ repo)).toList.take 10)

def parseExpiry (value : Option Json) : Except Fault String :=
  let text := Py.strip (E.textOr value "")
  if text = "" then .ok ""
  else
    match E.instant text with
    | none => .error (.invalid (.expires text))
    | some none => .error .overflow
    | some (some z) => .ok z

def parseText (value : Option Json) : Except Fault String :=
  let text := Py.strip (E.textOr value "")
  if text = "" then .error (.invalid .textMissing)
  else if maxText < text.length then .error (.invalid .textLong)
  else if '\r' ∈ text.toList ∨ '\n' ∈ text.toList then .error (.invalid .textLines)
  else .ok text

/-- A character of `_BARE_REPO`. -/
def repoChar (c : Char) : Bool :=
  c.isAlphanum || c = '.' || c = '_' || c = '-'

/-- `_BARE_REPO` matches a stripped text: `$` has no last newline to stand before. -/
def bareRepo (s : String) : Bool :=
  s ≠ "" && s.length ≤ 100 && s.toList.all repoChar

def parseRepo (value : Option Json) : Except Fault String :=
  let repo := Py.strip (E.textOr value allRepos)
  if repo ≠ allRepos ∧ (bareRepo repo = false ∨ repo = "." ∨ repo = "..") then
    .error (.invalid .repo)
  else .ok repo

def parsePriority : Option Json → Except Fault Int
  | none | some .null => .ok defaultPriority
  | some (.num n) =>
    if minPriority ≤ n ∧ n ≤ maxPriority then .ok n else .error (.invalid .priorityRange)
  | some _ => .error (.invalid .priorityKind)

/-- The check of `set_by` in `from_dict`. -/
def parseSetBy (value : Option Json) : Except Fault String :=
  let setBy := Py.strip (E.textOr value "")
  if setBy = "" ∨ maxSetBy < setBy.length then .error (.invalid .setBy) else .ok setBy

def fromDict (t : ℕ) (data : Item) : Except Fault Directive := do
  let text ← E.parseText (data "text")
  let setBy ← E.parseSetBy (data "set_by")
  let repo ← E.parseRepo (data "repo")
  let priority ← parsePriority (data "priority")
  let expires ← E.parseExpiry (data "expires")
  .ok
    { id := E.textOr (data "id") (E.directiveId text repo)
      text, setBy, repo, priority, expires
      setOn := E.textOr (data "set_on") (E.now t)
      active := ((data "active").map Json.truthy).getD true
      managed := ((data "managed").map Json.truthy).getD false }

def isActive (d : Directive) (t : ℕ) : Bool :=
  d.active && (d.expires = "" || E.after d.expires t)

end Env

def Directive.toDict (d : Directive) : List (String × Json) :=
  [("id", .str d.id), ("text", .str d.text), ("set_by", .str d.setBy), ("repo", .str d.repo),
    ("priority", .num d.priority), ("expires", .str d.expires), ("set_on", .str d.setOn),
    ("active", .bool d.active), ("managed", .bool d.managed)]

def Directive.toJson (d : Directive) : Json := .obj d.toDict

/-! ### The file -/

/-- The file of the directives. -/
inductive Content
  | missing
  /-- No JSON text, or not readable. -/
  | unreadable
  | json (v : Json)

/-- The entries of the file. -/
def Content.items : Content → List Json
  | json (.arr items) => items
  | json (.obj fields) =>
    match fields.lookup "directives" with
    | some (.arr items) => items
    | _ => []
  | _ => []

namespace Env

variable (E : Env)

/-- `_valid`: only a `ValueError` is caught. -/
def valid (t : ℕ) : Json → Except Fault (Option Directive)
  | .obj fields =>
    match E.fromDict t fun k => fields.lookup k with
    | .ok d => .ok (some d)
    | .error (.invalid _) => .ok none
    | .error .overflow => .error .overflow
  | _ => .ok none

/-- The directives of the entries, without those skipped. -/
def loadItems (t : ℕ) : List Json → Except Fault (List Directive)
  | [] => .ok []
  | item :: items =>
    match E.valid t item with
    | .error e => .error e
    | .ok none => loadItems t items
    | .ok (some d) => (d :: ·) <$> loadItems t items

def load (t : ℕ) (content : Content) : Except Fault (List Directive) := E.loadItems t content.items

def versionOf (directives : List Directive) : String :=
  String.ofList ((E.hexdigest
    (Json.arr (directives.map Directive.toJson)).sortKeys.dumpsCompact).toList.take 16)

def write (t : ℕ) (directives : List Directive) : Content :=
  .json (.obj [("directives", .arr (directives.map Directive.toJson)),
    ("updated_at", .str (E.now t))])

end Env

namespace Env

variable (E : Env)

/-! ### What a replace writes -/

/-- What `replace` raises before it writes. -/
inductive ReplaceError
  /-- `VersionConflictError`. -/
  | conflict
  | fault (f : Fault)

def attributed (author : Option String) (stored : List Directive) (item : Item) : Item :=
  match author with
  | none => item
  | some author =>
    let text := Py.strip (E.textOr (item "text") "")
    let repo := Py.strip (E.textOr (item "repo") allRepos)
    let same := stored.find? fun d =>
      decide (d.text = text ∧ d.repo = repo) &&
        (match item "id" with
        | none => true
        | some (.str id) => id = d.id
        | some _ => false)
    Function.update item "set_by" (some (.str ((same.map Directive.setBy).getD author)))

def firstDuplicate : List String → List String → Option String
  | _, [] => none
  | seen, id :: ids => if id ∈ seen then some id else firstDuplicate (id :: seen) ids

/-- `replace` between its load and its write. -/
def replaceRows (t : ℕ) (author expectedVersion : Option String) (items : List Item)
    (stored : List Directive) : Except ReplaceError (List Directive) :=
  if expectedVersion ≠ none ∧ expectedVersion ≠ some (E.versionOf stored) then .error .conflict
  else
    match items.mapM fun item => E.fromDict t (E.attributed author stored item) with
    | .error f => .error (.fault f)
    | .ok directives =>
      match firstDuplicate [] (directives.map Directive.id) with
      | some id => .error (.fault (.invalid (.duplicate id)))
      | none => .ok directives

def directiveFromYaml (t : ℕ) (item : Item) : Except Fault Directive := do
  let directive ← E.fromDict t (Function.update item "managed" (some (.bool true)))
  .ok (if directive.expires ≠ "" ∧ E.isActive directive t = false then
    { directive with active := false } else directive)

end Env

/-! ### What a reconcile writes -/

/-- `DirectivesReconcileDiff`. -/
structure Diff where
  added : List String
  deactivated : List String
  updated : List String
  unchanged : List String

def Diff.changed (d : Diff) : Bool := d.added ≠ [] || d.deactivated ≠ [] || d.updated ≠ []

/-- `desired_by_id`: the last directive of an identifier. -/
def desiredById (desired : List Directive) (id : String) : Option Directive :=
  desired.reverse.find? fun d => d.id = id

/-- The row with the fields of the managed directive. -/
def updateRow (want row : Directive) : Directive :=
  { row with
    text := want.text, repo := want.repo, priority := want.priority, expires := want.expires
    setBy := want.setBy, active := want.active }

/-- The row that the reconcile keeps for a stored one. -/
def reconcileRow (desired : List Directive) (row : Directive) : Directive :=
  if row.managed = false then row
  else
    match desiredById desired row.id with
    | none => { row with active := false }
    | some want => updateRow want row

/-- What the difference notes for a stored row. -/
def Diff.note (desired : List Directive) (diff : Diff) (row : Directive) : Diff :=
  if row.managed = false then diff
  else
    match desiredById desired row.id with
    | none =>
      if row.active then { diff with deactivated := diff.deactivated ++ [row.text] }
      else { diff with unchanged := diff.unchanged ++ [row.text] }
    | some want =>
      if updateRow want row ≠ row then { diff with updated := diff.updated ++ [want.text] }
      else { diff with unchanged := diff.unchanged ++ [want.text] }

def missingRows (desired stored : List Directive) : List Directive :=
  desired.filter fun d => d.id ∉ (stored.filter Directive.managed).map Directive.id

/-- The loops of `reconcile_directives`. -/
def reconcileRows (desired stored : List Directive) : Diff × List Directive :=
  let diff := stored.foldl (Diff.note desired) ⟨[], [], [], []⟩
  let added := missingRows desired stored
  ({ diff with added := added.map Directive.text },
    stored.map (reconcileRow desired) ++ added)

/-! ### What was written reads back -/

section

variable {E : Env} {t : ℕ} {d : Directive} {rows : List Directive} {content : Content}

/-- The fields of a directive pass their own checks. -/
structure Valid (E : Env) (d : Directive) : Prop where
  id : d.id ≠ ""
  text : E.parseText (some (.str d.text)) = .ok d.text
  setBy : E.parseSetBy (some (.str d.setBy)) = .ok d.setBy
  repo : E.parseRepo (some (.str d.repo)) = .ok d.repo
  priority : Env.parsePriority (some (.num d.priority)) = .ok d.priority
  expires : E.parseExpiry (some (.str d.expires)) = .ok d.expires
  setOn : d.setOn ≠ ""

theorem textOr_str {s : String} (h : s ≠ "") (default : String) :
    E.textOr (some (.str s)) default = s := by
  have htruthy : (Json.str s).truthy = true := decide_eq_true h
  rw [Env.textOr, if_pos htruthy, E.str_text]

@[simp] theorem textOr_empty (default : String) : E.textOr (some (.str "")) default = default := rfl

theorem textOr_ne (v : Option Json) {default : String} (h : default ≠ "") :
    E.textOr v default ≠ "" := by
  unfold Env.textOr
  cases v with
  | none => exact h
  | some v =>
    dsimp only
    split_ifs with hv
    · exact E.str_ne v hv
    · exact h

theorem textOr_text (s : String) : E.textOr (some (.str s)) "" = s := by
  by_cases h : s = ""
  · rw [h, textOr_empty]
  · exact textOr_str h ""

theorem parseText_text {v : Option Json} {s : String} (h : E.parseText v = .ok s) :
    E.parseText (some (.str s)) = .ok s := by
  unfold Env.parseText at h
  dsimp only at h
  split_ifs at h with hne hlong hlines
  obtain rfl := Except.ok.inj h
  unfold Env.parseText
  dsimp only
  rw [textOr_text, Py.strip_strip, if_neg hne, if_neg hlong, if_neg hlines]

theorem parseSetBy_text {v : Option Json} {s : String} (h : E.parseSetBy v = .ok s) :
    E.parseSetBy (some (.str s)) = .ok s := by
  unfold Env.parseSetBy at h
  dsimp only at h
  split_ifs at h with hbad
  obtain rfl := Except.ok.inj h
  unfold Env.parseSetBy
  dsimp only
  rw [textOr_text, Py.strip_strip, if_neg hbad]

theorem parseRepo_text {v : Option Json} {s : String} (h : E.parseRepo v = .ok s) :
    E.parseRepo (some (.str s)) = .ok s := by
  unfold Env.parseRepo at h
  dsimp only at h
  split_ifs at h with hbad
  obtain rfl := Except.ok.inj h
  have hne : Py.strip (E.textOr v allRepos) ≠ "" := by
    -- the empty text is no name of a repository
    intro he
    rw [he] at hbad
    exact hbad ⟨by decide, .inl (by decide)⟩
  unfold Env.parseRepo
  dsimp only
  rw [textOr_str hne, Py.strip_strip, if_neg hbad]

theorem parsePriority_num {v : Option Json} {n : Int} (h : Env.parsePriority v = .ok n) :
    Env.parsePriority (some (.num n)) = .ok n := by
  unfold Env.parsePriority at h
  split at h
  · obtain rfl := Except.ok.inj h
    rfl
  · obtain rfl := Except.ok.inj h
    rfl
  · split_ifs at h with hrange
    obtain rfl := Except.ok.inj h
    exact if_pos hrange
  · cases h

theorem parseExpiry_text {v : Option Json} {s : String} (h : E.parseExpiry v = .ok s) :
    E.parseExpiry (some (.str s)) = .ok s := by
  unfold Env.parseExpiry at h ⊢
  dsimp only at h ⊢
  rw [textOr_text]
  split_ifs at h with he
  · obtain rfl := Except.ok.inj h
    rfl
  · split at h
    · cases h
    · cases h
    · rename_i z hz
      obtain rfl := Except.ok.inj h
      obtain ⟨hne, hstrip, hinstant⟩ := E.instant_idem _ _ hz
      rw [hstrip, if_neg hne, hinstant]

/-- What `from_dict` returns, and the checks that it passed. -/
theorem fromDict_eq_ok_iff {data : Item} :
    E.fromDict t data = .ok d ↔
      E.parseText (data "text") = .ok d.text ∧ E.parseSetBy (data "set_by") = .ok d.setBy ∧
      E.parseRepo (data "repo") = .ok d.repo ∧ Env.parsePriority (data "priority") =
        .ok d.priority ∧
      E.parseExpiry (data "expires") = .ok d.expires ∧
      d.id = E.textOr (data "id") (E.directiveId d.text d.repo) ∧
      d.setOn = E.textOr (data "set_on") (E.now t) ∧
      d.active = ((data "active").map Json.truthy).getD true ∧
      d.managed = ((data "managed").map Json.truthy).getD false := by
  unfold Env.fromDict
  constructor
  · intro h
    cases htext : E.parseText (data "text") with
    | error e => rw [htext] at h; cases h
    | ok text =>
      cases hset : E.parseSetBy (data "set_by") with
      | error e => rw [htext, hset] at h; cases h
      | ok setBy =>
        cases hrepo : E.parseRepo (data "repo") with
        | error e => rw [htext, hset, hrepo] at h; cases h
        | ok repo =>
          cases hprio : Env.parsePriority (data "priority") with
          | error e => rw [htext, hset, hrepo, hprio] at h; cases h
          | ok priority =>
            cases hexp : E.parseExpiry (data "expires") with
            | error e => rw [htext, hset, hrepo, hprio, hexp] at h; cases h
            | ok expires =>
              rw [htext, hset, hrepo, hprio, hexp] at h
              obtain rfl := Except.ok.inj h
              exact ⟨rfl, rfl, rfl, rfl, rfl, rfl, rfl, rfl, rfl⟩
  · rintro ⟨htext, hset, hrepo, hprio, hexp, hid, hon, hactive, hmanaged⟩
    rw [htext, hset, hrepo, hprio, hexp]
    cases d
    dsimp only at hid hon hactive hmanaged
    subst hid hon hactive hmanaged
    rfl

theorem directiveId_ne (text repo : String) : E.directiveId text repo ≠ "" := by
  intro h
  have hlist : (E.directiveId text repo).toList = [] := by rw [h]; rfl
  rw [Env.directiveId, String.toList_append] at hlist
  cases hlist

theorem valid_of_fromDict {data : Item} (h : E.fromDict t data = .ok d) : Valid E d := by
  obtain ⟨htext, hset, hrepo, hprio, hexp, hid, hon, -, -⟩ := fromDict_eq_ok_iff.mp h
  refine ⟨?_, parseText_text htext, parseSetBy_text hset, parseRepo_text hrepo,
    parsePriority_num hprio, parseExpiry_text hexp, ?_⟩
  · rw [hid]
    exact textOr_ne _ (directiveId_ne _ _)
  · rw [hon]
    exact textOr_ne _ (E.now_ne t)

/-- The entry of a directive is read as that directive, at every moment. -/
theorem fromDict_toDict (h : Valid E d) (t : ℕ) :
    E.fromDict t (fun k => d.toDict.lookup k) = .ok d := by
  refine fromDict_eq_ok_iff.mpr ⟨h.text, h.setBy, h.repo, h.priority, h.expires, ?_, ?_, rfl, rfl⟩
  · exact (textOr_str h.id _).symm
  · exact (textOr_str h.setOn _).symm

theorem valid_toJson (h : Valid E d) (t : ℕ) : E.valid t d.toJson = .ok (some d) := by
  unfold Env.valid Directive.toJson
  dsimp only
  rw [fromDict_toDict h]

theorem loadItems_map (h : ∀ d ∈ rows, Valid E d) (t : ℕ) :
    E.loadItems t (rows.map Directive.toJson) = .ok rows := by
  induction rows with
  | nil => rfl
  | cons d rows ih =>
    obtain ⟨hd, hrows⟩ := List.forall_mem_cons.mp h
    rw [List.map_cons, Env.loadItems, valid_toJson hd]
    dsimp only
    rw [ih hrows]
    rfl

/-- Entries that the code wrote are loaded as they were written. -/
theorem load_of_items (h : ∀ d ∈ rows, Valid E d)
    (hitems : content.items = rows.map Directive.toJson)
    (t : ℕ) : E.load t content = .ok rows := by
  rw [Env.load, hitems, loadItems_map h]

@[simp] theorem items_write (t : ℕ) (rows : List Directive) :
    (E.write t rows).items = rows.map Directive.toJson := rfl

theorem valid_of_loadItems {items : List Json} (h : E.loadItems t items = .ok rows) :
    ∀ d ∈ rows, Valid E d := by
  induction items generalizing rows with
  | nil =>
    obtain rfl := Except.ok.inj h
    exact fun d hd => absurd hd List.not_mem_nil
  | cons item items ih =>
    rw [Env.loadItems] at h
    cases hvalid : E.valid t item with
    | error e => rw [hvalid] at h; cases h
    | ok found =>
      rw [hvalid] at h
      cases found with
      | none => exact ih h
      | some d =>
        dsimp only at h
        cases hrest : E.loadItems t items with
        | error e => rw [hrest] at h; cases h
        | ok rest =>
          rw [hrest] at h
          obtain rfl := Except.ok.inj h
          refine List.forall_mem_cons.mpr ⟨?_, ih hrest⟩
          -- an entry that is kept passed `from_dict`
          unfold Env.valid at hvalid
          split at hvalid
          · split at hvalid
            · rename_i d' hdict
              obtain rfl := Option.some.inj (Except.ok.inj hvalid)
              exact valid_of_fromDict hdict
            · cases hvalid
            · cases hvalid
          · cases hvalid

theorem valid_of_load (h : E.load t content = .ok rows) : ∀ d ∈ rows, Valid E d :=
  valid_of_loadItems h

end

/-! ### What a replace keeps -/

section

variable {α β ε : Type*} {f : α → Except ε β} {l : List α} {l' : List β}

theorem mapM_cons_eq_ok_iff {x : α} :
    (x :: l).mapM f = .ok l' ↔ ∃ y ys, f x = .ok y ∧ l.mapM f = .ok ys ∧ l' = y :: ys := by
  rw [List.mapM_cons]
  cases f x with
  | error e => exact ⟨fun h => (by cases h), fun ⟨_, _, h, _⟩ => (by cases h)⟩
  | ok y =>
    cases l.mapM f with
    | error e => exact ⟨fun h => (by cases h), fun ⟨_, _, _, h, _⟩ => (by cases h)⟩
    | ok ys =>
      constructor
      · intro h
        exact ⟨y, ys, rfl, rfl, (Except.ok.inj h).symm⟩
      · rintro ⟨_, _, ⟨⟩, ⟨⟩, rfl⟩
        rfl

theorem exists_of_mem_mapM (h : l.mapM f = .ok l') {x : α} (hx : x ∈ l) :
    ∃ y ∈ l', f x = .ok y := by
  induction l generalizing l' with
  | nil => cases hx
  | cons a l ih =>
    obtain ⟨y, ys, hy, hys, rfl⟩ := mapM_cons_eq_ok_iff.mp h
    cases hx with
    | head => exact ⟨y, List.mem_cons_self, hy⟩
    | tail _ hx =>
      obtain ⟨z, hz, hfz⟩ := ih hys hx
      exact ⟨z, List.mem_cons_of_mem y hz, hfz⟩

theorem exists_of_mem_mapM_result (h : l.mapM f = .ok l') {y : β} (hy : y ∈ l') :
    ∃ x ∈ l, f x = .ok y := by
  induction l generalizing l' with
  | nil =>
    obtain rfl := Except.ok.inj h
    cases hy
  | cons a l ih =>
    obtain ⟨z, zs, hz, hzs, rfl⟩ := mapM_cons_eq_ok_iff.mp h
    cases hy with
    | head => exact ⟨a, List.mem_cons_self, hz⟩
    | tail _ hy =>
      obtain ⟨x, hx, hfx⟩ := ih hzs hy
      exact ⟨x, List.mem_cons_of_mem a hx, hfx⟩

end

section

variable {E : Env} {t : ℕ} {d : Directive} {stored rows desired : List Directive}
  {author expectedVersion : Option String} {items : List Item} {item : Item}

theorem firstDuplicate_eq_none_iff {seen ids : List String} :
    Env.firstDuplicate seen ids = none ↔ ids.Nodup ∧ ∀ id ∈ ids, id ∉ seen := by
  induction ids generalizing seen with
  | nil => exact iff_of_true rfl ⟨List.nodup_nil, fun _ h => absurd h List.not_mem_nil⟩
  | cons id ids ih =>
    rw [Env.firstDuplicate, List.nodup_cons, List.forall_mem_cons]
    by_cases hmem : id ∈ seen
    · rw [if_pos hmem]
      exact iff_of_false (Option.some_ne_none id) fun h => h.2.1 hmem
    · rw [if_neg hmem, ih]
      constructor
      · rintro ⟨hnodup, hseen⟩
        refine ⟨⟨fun hid => hseen id hid List.mem_cons_self, hnodup⟩, hmem, ?_⟩
        exact fun x hx hs => hseen x hx (List.mem_cons_of_mem id hs)
      · rintro ⟨⟨hid, hnodup⟩, -, hseen⟩
        refine ⟨hnodup, fun x hx hs => ?_⟩
        cases hs with
        | head => exact hid hx
        | tail _ hs => exact hseen x hx hs

theorem replaceRows_eq_ok_iff :
    E.replaceRows t author expectedVersion items stored = .ok rows ↔
      (∀ v, expectedVersion = some v → v = E.versionOf stored) ∧
      items.mapM (fun item => E.fromDict t (E.attributed author stored item)) = .ok rows ∧
      (rows.map Directive.id).Nodup := by
  unfold Env.replaceRows
  have hversion : (expectedVersion ≠ none ∧ expectedVersion ≠ some (E.versionOf stored)) ↔
      ¬ ∀ v, expectedVersion = some v → v = E.versionOf stored := by
    cases expectedVersion with
    | none => simp
    | some v => simp
  split_ifs with h
  · exact iff_of_false (fun he => by cases he) fun he => hversion.mp h he.1
  · have hv := not_not.mp (mt hversion.mpr h)
    cases hmap : items.mapM fun item => E.fromDict t (E.attributed author stored item) with
    | error f => exact iff_of_false (fun he => by cases he) fun he => by cases he.2.1
    | ok directives =>
      dsimp only
      cases hdup : Env.firstDuplicate [] (directives.map Directive.id) with
      | some id =>
        refine iff_of_false (fun he => by cases he) ?_
        rintro ⟨-, hrows, hnodup⟩
        obtain rfl := Except.ok.inj hrows
        have hnone := firstDuplicate_eq_none_iff.mpr ⟨hnodup, fun _ _ => List.not_mem_nil⟩
        rw [hdup] at hnone
        cases hnone
      | none =>
        constructor
        · intro he
          obtain rfl := Except.ok.inj he
          exact ⟨hv, rfl, (firstDuplicate_eq_none_iff.mp hdup).1⟩
        · rintro ⟨-, hrows, -⟩
          exact congrArg _ (Except.ok.inj hrows)

theorem valid_of_replaceRows (h : E.replaceRows t author expectedVersion items stored = .ok rows) :
    ∀ d ∈ rows, Valid E d := by
  intro d hd
  obtain ⟨-, hmap, -⟩ := replaceRows_eq_ok_iff.mp h
  obtain ⟨item, -, hdict⟩ := exists_of_mem_mapM_result hmap hd
  exact valid_of_fromDict hdict

/-- The caller sends the directive as it is stored, with its identifier or with the fields that
give it; who wrote it is up to the server if the server knows its caller. -/
def Restates (E : Env) (t : ℕ) (author : Option String) (item : Item) (d : Directive) : Prop :=
  match author with
  | none => E.fromDict t item = .ok d
  | some _ => E.fromDict t (Function.update item "set_by" (some (.str d.setBy))) = .ok d

/-- The caller names the directive by its identifier; or names none, and the first stored directive
with its text and repository has its author. -/
def Named (stored : List Directive) (item : Item) (d : Directive) : Prop :=
  item "id" = some (.str d.id) ∨
    item "id" = none ∧ ∀ x, stored.find? (fun x => x.text = d.text ∧ x.repo = d.repo) = some x →
      x.setBy = d.setBy

theorem text_of_parseText {v : Option Json} {s : String} (h : E.parseText v = .ok s) :
    Py.strip (E.textOr v "") = s := by
  unfold Env.parseText at h
  dsimp only at h
  split_ifs at h
  exact Except.ok.inj h

theorem text_of_parseRepo {v : Option Json} {s : String} (h : E.parseRepo v = .ok s) :
    Py.strip (E.textOr v allRepos) = s := by
  unfold Env.parseRepo at h
  dsimp only at h
  split_ifs at h
  exact Except.ok.inj h

/-- The first row that passes a test passes a weaker one first, or another row does. -/
theorem find?_of_imp {α : Type*} {p q : α → Bool} {l : List α} {x : α} (h : l.find? p = some x)
    (hq : q x = true) (himp : ∀ y ∈ l, q y = true → p y = true) : l.find? q = some x := by
  induction l with
  | nil => cases h
  | cons y l ih =>
    rw [List.find?_cons] at h ⊢
    cases hp : p y with
    | true =>
      rw [hp] at h
      obtain rfl := Option.some.inj h
      rw [hq]
    | false =>
      rw [hp] at h
      have hqy : q y = false := by
        cases hy : q y with
        | false => rfl
        | true => rw [himp y List.mem_cons_self hy] at hp; cases hp
      rw [hqy]
      exact ih h fun z hz => himp z (List.mem_cons_of_mem y hz)

/-- A row that the caller sends as it is stored, and names, keeps its author. -/
theorem fromDict_attributed (hfirst : stored.find? (fun x => x.id = d.id) = some d)
    (h : Restates E t author item d) (hnamed : author ≠ none → Named stored item d) :
    E.fromDict t (E.attributed author stored item) = .ok d := by
  cases author with
  | none => exact h
  | some author =>
    have hdict : E.fromDict t (Function.update item "set_by" (some (.str d.setBy))) = .ok d := h
    obtain ⟨htext, -, hrepo, -⟩ := fromDict_eq_ok_iff.mp hdict
    rw [Function.update_of_ne (by decide)] at htext hrepo
    unfold Env.attributed
    dsimp only
    rw [text_of_parseText htext, text_of_parseRepo hrepo]
    rcases hnamed (by simp) with hid | ⟨hid, hauthor⟩
    · rw [hid, find?_of_imp hfirst (by simp)]
      · exact hdict
      · intro x _ hx
        simp only [Bool.and_eq_true, decide_eq_true_eq] at hx
        exact decide_eq_true hx.2.symm
    · -- without an identifier the first of the text and the repository is found
      rw [hid]
      simp only [Bool.and_true]
      cases hsame : stored.find? fun x => x.text = d.text ∧ x.repo = d.repo with
      | none =>
        have hd := List.find?_eq_none.mp hsame d (List.mem_of_find?_eq_some hfirst)
        exact absurd (decide_eq_true ⟨rfl, rfl⟩) hd
      | some x =>
        rw [Option.map_some, Option.getD_some, hauthor x hsame]
        exact hdict

theorem mem_of_replaceRows (h : E.replaceRows t author expectedVersion items stored = .ok rows)
    (hfirst : stored.find? (fun x => x.id = d.id) = some d) (hmem : item ∈ items)
    (hitem : Restates E t author item d) (hnamed : author ≠ none → Named stored item d) :
    d ∈ rows := by
  obtain ⟨-, hmap, -⟩ := replaceRows_eq_ok_iff.mp h
  obtain ⟨d', hd', hdict⟩ := exists_of_mem_mapM hmap hmem
  rw [fromDict_attributed hfirst hitem hnamed] at hdict
  obtain rfl := Except.ok.inj hdict
  exact hd'

theorem find?_of_nodup (h : (rows.map Directive.id).Nodup) (hd : d ∈ rows) :
    rows.find? (fun x => x.id = d.id) = some d := by
  induction rows with
  | nil => cases hd
  | cons x rows ih =>
    rw [List.map_cons, List.nodup_cons] at h
    cases hd with
    | head => exact List.find?_cons_of_pos (decide_eq_true rfl)
    | tail _ hd =>
      have hne : x.id ≠ d.id := fun he => h.1 (he ▸ List.mem_map_of_mem hd)
      rw [List.find?_cons_of_neg (by simpa using hne)]
      exact ih h.2 hd

/-! ### What a reconcile keeps -/

@[simp] theorem id_reconcileRow (desired : List Directive) (row : Directive) :
    (reconcileRow desired row).id = row.id := by
  unfold reconcileRow
  split_ifs
  · rfl
  · cases desiredById desired row.id <;> rfl

theorem reconcileRow_of_not_managed (h : d.managed = false) : reconcileRow desired d = d := if_pos h

/-- The first row of an identifier, if it is not managed, is the first afterwards too. -/
theorem find?_reconcileRows (hfirst : stored.find? (fun x => x.id = d.id) = some d)
    (h : d.managed = false) :
    (reconcileRows desired stored).2.find? (fun x => x.id = d.id) = some d := by
  have hmap : (stored.map (reconcileRow desired)).find? (fun x => x.id = d.id) = some d := by
    rw [List.find?_map]
    have hp : (fun x : Directive => decide (x.id = d.id)) ∘ reconcileRow desired =
        fun x => decide (x.id = d.id) := by
      funext x
      rw [Function.comp_apply, id_reconcileRow]
    rw [hp, hfirst, Option.map_some, reconcileRow_of_not_managed h]
  show (stored.map (reconcileRow desired) ++ missingRows desired stored).find? _ = some d
  rw [List.find?_append, hmap]
  rfl

theorem valid_reconcileRow (hdesired : ∀ d ∈ desired, Valid E d) (h : Valid E d) :
    Valid E (reconcileRow desired d) := by
  unfold reconcileRow
  split_ifs
  · exact h
  · cases hwant : desiredById desired d.id with
    | none => exact ⟨h.id, h.text, h.setBy, h.repo, h.priority, h.expires, h.setOn⟩
    | some want =>
      have hw := hdesired want (List.mem_reverse.mp (List.mem_of_find?_eq_some hwant))
      exact ⟨h.id, hw.text, hw.setBy, hw.repo, hw.priority, hw.expires, h.setOn⟩

theorem valid_reconcileRows (hdesired : ∀ d ∈ desired, Valid E d)
    (hstored : ∀ d ∈ stored, Valid E d) : ∀ d ∈ (reconcileRows desired stored).2, Valid E d := by
  intro d hd
  rcases List.mem_append.mp hd with hd | hd
  · obtain ⟨row, hrow, rfl⟩ := List.mem_map.mp hd
    exact valid_reconcileRow hdesired (hstored row hrow)
  · exact hdesired d (List.mem_of_mem_filter hd)

theorem valid_directiveFromYaml (h : E.directiveFromYaml t item = .ok d) : Valid E d := by
  unfold Env.directiveFromYaml at h
  cases hdict : E.fromDict t (Function.update item "managed" (some (.bool true))) with
  | error f => rw [hdict] at h; cases h
  | ok directive =>
    rw [hdict] at h
    obtain rfl := Except.ok.inj h
    have hv := valid_of_fromDict hdict
    split_ifs
    · exact ⟨hv.id, hv.text, hv.setBy, hv.repo, hv.priority, hv.expires, hv.setOn⟩
    · exact hv

end

end Directives
