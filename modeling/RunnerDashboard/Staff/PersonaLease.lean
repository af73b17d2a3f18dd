import RunnerDashboard.Barb.LeaseRuns

/-!
# Persona leases and the fallback spool

The slot ledger and the offline spool of `staff/persona_fallback_lease.py`, on top of the
scoped leases.  While the dashboard is unreachable the fallback holder appends its slot
claims, with the epochs it used, to a spool file; ingesting the file records the slots and
raises the epoch of each role's lease to the highest one spooled.

A spool file is the list of its lines.  A value of a line that is no string is read as
Python's `str` and `int` read it, which `Texts` stands for.

## Main results

* `parseLine_append` — a line that was appended is read back.
* `bumpAll_ok` — what the floors do to the lease of each role.
-/

namespace Persona

open Sql Continuity

/-! ### Names -/

/-- What is refused, with the value refused. -/
inductive SpoolError
  /-- `ValueError` of `validate_role_name`, `_validate_part` and `validate_persona_holder`. -/
  | invalid (what value : String)
  /-- `ValueError`: the epoch is below 1. -/
  | epoch
  /-- `ValueError`: the line is no JSON object, or its epoch no integer. -/
  | malformed
  /-- The `ValueError` of an ingest, with the number of the line. -/
  | entry (line : ℕ) (why : SpoolError)
  /-- `OverflowError`: an integer no `INTEGER` column holds. -/
  | overflow
  deriving DecidableEq, Repr

/-- `[a-z]`. -/
def isLower (c : Char) : Bool := 'a' ≤ c ∧ c ≤ 'z'

/-- `[a-z0-9]`. -/
def isLowerDigit (c : Char) : Bool := isLower c ∨ ('0' ≤ c ∧ c ≤ '9')

def roleRe (s : String) : Bool :=
  match s.toList with
  | c :: cs => isLower c ∧ cs.all fun c => isLowerDigit c ∨ c = '-'
  | [] => false

theorem not_space_of_roleRe {role : String} (h : roleRe role = true) :
    ∀ c ∈ role.toList, Py.isSpace c = false := by
  have hlower : ∀ c : Char, isLower c = true → Py.isSpace c = false := by
    intro c hc
    simp only [isLower, decide_eq_true_eq, Char.le_def, UInt32.le_iff_toNat_le] at hc
    exact Py.isSpace_eq_false (le_trans (by decide) hc.1) (lt_of_le_of_lt hc.2 (by decide))
  unfold roleRe at h
  intro c hc
  split at h
  · next c₀ cs heq =>
    rw [heq] at hc
    simp only [decide_eq_true_eq, List.all_eq_true] at h
    rcases List.mem_cons.mp hc with rfl | hc
    · exact hlower _ h.1
    · have := h.2 c hc
      simp only [isLowerDigit, decide_eq_true_eq] at this
      rcases this with (hl | hd) | rfl
      · exact hlower c hl
      · simp only [Char.le_def, UInt32.le_iff_toNat_le] at hd
        exact Py.isSpace_eq_false (le_trans (by decide) hd.1) (lt_of_le_of_lt hd.2 (by decide))
      · decide
  · cases h

def rdNodeRe (s : String) : Bool :=
  match s.toList with
  | 'r' :: 'd' :: ':' :: c :: cs =>
    isLowerDigit c ∧ cs.all fun c => isLowerDigit c ∨ c = '.' ∨ c = '_' ∨ c = '-'
  | _ => false

def grokFallbackHolder : String := "grok-fallback"

def validateRoleName (role : String) : Except SpoolError String :=
  if roleRe (Py.strip role) then .ok (Py.strip role) else .error (.invalid "role" role)

def personaScope (role : String) : Except SpoolError String :=
  (validateRoleName role).map fun role => "persona:" ++ role

def validatePersonaHolder (holder : String) : Except SpoolError String :=
  if Py.strip holder = grokFallbackHolder ∨ rdNodeRe (Py.strip holder) then .ok (Py.strip holder)
  else .error (.invalid "holder" holder)

def validatePart (value field : String) : Except SpoolError String :=
  if Py.strip value = "" ∨ '/' ∈ (Py.strip value).toList then .error (.invalid field value)
  else .ok (Py.strip value)

def slotLedgerKey (role job slot : String) : Except SpoolError String := do
  let role ← validateRoleName role
  let job ← validatePart job "job"
  let slot ← validatePart slot "slot"
  return role ++ "/" ++ job ++ "/" ++ slot

/-! ### The ledger -/

/-- A row of `persona_slot_ledger`, keyed by its slot key. -/
structure Slot where
  role : String
  job : String
  slot : String
  holder : String
  epoch : Int
  boardClaimRef : String
  recordedAt : Int
  status : String
  deriving DecidableEq, Repr

structure Store where
  db : Db
  slots : Table String Slot

/-- The arguments of `record_slot_claim` and `append_fallback_spool`; an entry of a spool. -/
structure SpoolEntry where
  role : String
  job : String
  slot : String
  holder : String
  epoch : Int
  boardClaimRef : String := ""
  deriving DecidableEq, Repr

/-- What `record_slot_claim` returns: its key, and whether it was recorded. -/
structure SlotReply where
  key : String
  recorded : Bool
  row : Slot
  deriving DecidableEq, Repr

/-- The row `record_slot_claim` inserts. -/
def SpoolEntry.row (x : SpoolEntry) (holder : String) (now : Int) : Slot where
  role := Py.strip x.role
  job := Py.strip x.job
  slot := Py.strip x.slot
  holder := holder
  epoch := x.epoch
  boardClaimRef := Py.strip x.boardClaimRef
  recordedAt := seconds now
  status := "in_progress"

/-- The transaction of `record_slot_claim`. -/
def recordBody (key : String) (row : Slot) (st : Store) : Except SpoolError (SlotReply × Store) :=
  match st.slots.get? key with
  | some existing => .ok (⟨key, false, existing⟩, st)
  | none =>
    if ¬ fitsInteger row.epoch then .error .overflow
    else .ok (⟨key, true, row⟩, { st with slots := st.slots.insertNew key row })

def recordSlotClaim (x : SpoolEntry) (now : Int) (st : Store) :
    Except SpoolError SlotReply × Store :=
  match slotLedgerKey x.role x.job x.slot with
  | .error e => (.error e, st)
  | .ok key =>
    match validatePersonaHolder x.holder with
    | .error e => (.error e, st)
    | .ok holder =>
      if x.epoch < 1 then (.error .epoch, st)
      else immediateTxn (recordBody key (x.row holder now)) st

/-! ### Lines -/

/-- How values that are no strings are read: `str` of a list or a dictionary, `int` of a
text, and the text of a second. -/
structure Texts where
  reprOf : Json → String
  intOf : String → Option Int
  iso : Int → String

/-- The record `append_fallback_spool` writes; its keys are sorted. -/
def recordFields (txt : Texts) (key holder : String) (x : SpoolEntry) (now : Int) :
    List (String × Json) :=
  [("key", .str key), ("role", .str (Py.strip x.role)), ("job", .str (Py.strip x.job)),
    ("slot", .str (Py.strip x.slot)), ("holder", .str holder), ("epoch", .num x.epoch),
    ("board_claim_ref", .str (Py.strip x.boardClaimRef)),
      ("recorded_at", .str (txt.iso (seconds now)))]

/-- `append_fallback_spool`: the line it adds to the file. -/
def appendFallbackSpool (txt : Texts) (x : SpoolEntry) (now : Int) : Except SpoolError String := do
  let key ← slotLedgerKey x.role x.job x.slot
  let holder ← validatePersonaHolder x.holder
  if x.epoch < 1 then .error .epoch
  else return (Json.obj (recordFields txt key holder x now)).sortKeys.dumps

def falsy : Json → Bool
  | .null => true
  | .bool b => ¬ b
  | .num n => n = 0
  | .str s => s = ""
  | .arr vs => vs.isEmpty
  | .obj fs => fs.isEmpty

/-- `str(v)`. -/
def textOf (txt : Texts) : Json → String
  | .str s => s
  | .num n => Json.intText n
  | .bool true => "True"
  | .bool false => "False"
  | .null => "None"
  | v => txt.reprOf v

/-- `str(item.get(k) or default)`. -/
def textField (txt : Texts) (item : Json) (k default : String) : String :=
  match item.field? k with
  | none => default
  | some v => if falsy v then default else textOf txt v

/-- `int(item["epoch"])`. -/
def intField (txt : Texts) (item : Json) (k : String) : Except SpoolError Int :=
  match item.field? k with
  | some (.num n) => .ok n
  | some (.bool b) => .ok (if b then 1 else 0)
  | some (.str s) => (txt.intOf s).elim (.error .malformed) .ok
  | _ => .error .malformed

def parseLine (txt : Texts) (line : String) : Except SpoolError SpoolEntry :=
  match Json.loads line with
  | some (.obj fs) => do
    let item := Json.obj fs
    let role ← validateRoleName (textField txt item "role" "")
    let job ← validatePart (textField txt item "job" "") "job"
    let slot ← validatePart (textField txt item "slot" "") "slot"
    let holder ← validatePersonaHolder (textField txt item "holder" grokFallbackHolder)
    let epoch ← intField txt item "epoch"
    if epoch < 1 then .error .epoch
    else return ⟨role, job, slot, holder, epoch, textField txt item "board_claim_ref" ""⟩
  | _ => .error .malformed

/-- The entries of the lines from a number on; the first bad line is named. -/
def parseLines (txt : Texts) : ℕ → List String → Except SpoolError (List SpoolEntry)
  | _, [] => .ok []
  | n, line :: lines =>
    match parseLine txt line with
    | .error e => .error (.entry n e)
    | .ok x => (parseLines txt (n + 1) lines).map (x :: ·)

def rawLines (file : List String) : List String := (file.map Py.strip).filter (· ≠ "")

/-! ### Epoch floors -/

/-- The row `_bump_epoch_floor` inserts. -/
def floorLease (role : String) (minEpoch at' : Int) : Lease where
  holder := ""
  persona := role
  machine := ""
  epoch := minEpoch
  acquiredAt := at'
  heartbeatAt := at'
  expiresAt := at'
  summary := "ingested offline fallback spool"
  lastTurnoverId := ""
  releasedAt := some at'

def raised (cur : Lease) (minEpoch : Int) : Lease := { cur with epoch := minEpoch }

/-- The transaction of `_bump_epoch_floor`. -/
def bumpBody (role scope : String) (minEpoch now : Int) (st : Store) :
    Except SpoolError (Unit × Store) :=
  match st.db.lease scope with
  | none =>
    if ¬ fitsInteger minEpoch then .error .overflow
    else .ok ((), { st with db := st.db.putLease scope (floorLease role minEpoch (seconds now)) })
  | some cur =>
    if cur.epoch < minEpoch then
      if ¬ fitsInteger minEpoch then .error .overflow
      else .ok ((), { st with db := st.db.putLease scope (raised cur minEpoch) })
    else .ok ((), st)

def bumpEpochFloor (role : String) (minEpoch now : Int) (st : Store) :
    Except SpoolError Unit × Store :=
  match personaScope role with
  | .error e => (.error e, st)
  | .ok scope => immediateTxn (bumpBody role scope minEpoch now) st

/-- `max_epoch_by_role` with an entry counted in. -/
def countEpoch (x : SpoolEntry) : List (String × Int) → List (String × Int)
  | [] => [(x.role, max 0 x.epoch)]
  | (role, n) :: l =>
    if role = x.role then (role, max n x.epoch) :: l else (role, n) :: countEpoch x l

def maxEpochByRole (entries : List SpoolEntry) : List (String × Int) :=
  entries.foldl (fun l x => countEpoch x l) []

/-! ### The ingest -/

/-- The claims of the entries in order, up to the first that raises. -/
def claimAll (now : Int) : List SpoolEntry → Store → Except SpoolError (List SlotReply) × Store
  | [], st => (.ok [], st)
  | x :: xs, st =>
    match recordSlotClaim x now st with
    | (.error e, st) => (.error e, st)
    | (.ok r, st) =>
      match claimAll now xs st with
      | (.error e, st) => (.error e, st)
      | (.ok rs, st) => (.ok (r :: rs), st)

/-- The floors in order, up to the first that raises. -/
def bumpAll (now : Int) : List (String × Int) → Store → Except SpoolError Unit × Store
  | [], st => (.ok (), st)
  | (role, n) :: l, st =>
    match bumpEpochFloor role n now st with
    | (.error e, st) => (.error e, st)
    | (.ok (), st) => bumpAll now l st

structure IngestReply where
  ingested : ℕ
  duplicates : ℕ
  keys : List String
  deriving DecidableEq, Repr

def IngestReply.of (rs : List SlotReply) : IngestReply where
  ingested := rs.countP SlotReply.recorded
  duplicates := rs.countP fun r => ¬ r.recorded
  keys := rs.map SlotReply.key

/-- `ingest_fallback_spool`: its answer, the store and the file. -/
def ingestFallbackSpool (txt : Texts) (now : Int) (file : List String) (st : Store) :
    Except SpoolError IngestReply × Store × List String :=
  if rawLines file = [] then (.ok ⟨0, 0, []⟩, st, file)
  else
    match parseLines txt 1 (rawLines file) with
    | .error e => (.error e, st, file)
    | .ok entries =>
      match claimAll now entries st with
      | (.error e, st) => (.error e, st, file)
      | (.ok rs, st) =>
        match bumpAll now (maxEpochByRole entries) st with
        | (.error e, st) => (.error e, st, file)
        | (.ok (), st) => (.ok (.of rs), st, [])

/-! ### Names that were accepted -/

theorem validateRoleName_ok_iff {s r : String} :
    validateRoleName s = .ok r ↔ roleRe (Py.strip s) = true ∧ r = Py.strip s := by
  unfold validateRoleName
  split
  · next h =>
    simp only [Except.ok.injEq, h, true_and]
    exact eq_comm
  · next h => simp [h]

theorem validatePersonaHolder_ok_iff {s r : String} :
    validatePersonaHolder s = .ok r ↔
      (Py.strip s = grokFallbackHolder ∨ rdNodeRe (Py.strip s) = true) ∧ r = Py.strip s := by
  unfold validatePersonaHolder
  split
  · next h =>
    simp only [Except.ok.injEq, h, true_and]
    exact eq_comm
  · next h => simp [h]

theorem validatePart_ok_iff {s field r : String} :
    validatePart s field = .ok r ↔
      (Py.strip s ≠ "" ∧ '/' ∉ (Py.strip s).toList) ∧ r = Py.strip s := by
  unfold validatePart
  rw [← not_or]
  split
  · next h => simp [h]
  · next h =>
    simp only [Except.ok.injEq, h, not_false_eq_true, true_and]
    exact eq_comm

theorem validateRoleName_again {s r : String} (h : validateRoleName s = .ok r) :
    validateRoleName r = .ok r := by
  obtain ⟨hre, rfl⟩ := validateRoleName_ok_iff.mp h
  exact validateRoleName_ok_iff.mpr ⟨(Py.strip_strip s).symm ▸ hre, (Py.strip_strip s).symm⟩

theorem validatePersonaHolder_again {s r : String} (h : validatePersonaHolder s = .ok r) :
    validatePersonaHolder r = .ok r := by
  obtain ⟨hre, rfl⟩ := validatePersonaHolder_ok_iff.mp h
  exact validatePersonaHolder_ok_iff.mpr ⟨(Py.strip_strip s).symm ▸ hre, (Py.strip_strip s).symm⟩

theorem validatePart_again {s field r : String} (h : validatePart s field = .ok r) :
    validatePart r field = .ok r := by
  obtain ⟨hre, rfl⟩ := validatePart_ok_iff.mp h
  exact validatePart_ok_iff.mpr ⟨(Py.strip_strip s).symm ▸ hre, (Py.strip_strip s).symm⟩

/-- The names of an entry are accepted as they are, and its epoch is at least 1. -/
structure SpoolEntry.Valid (x : SpoolEntry) : Prop where
  role : validateRoleName x.role = .ok x.role
  job : validatePart x.job "job" = .ok x.job
  slot : validatePart x.slot "slot" = .ok x.slot
  holder : validatePersonaHolder x.holder = .ok x.holder
  epoch : 1 ≤ x.epoch

/-- The key of an entry whose names are accepted as they are. -/
def SpoolEntry.key (x : SpoolEntry) : String := x.role ++ "/" ++ x.job ++ "/" ++ x.slot

theorem SpoolEntry.Valid.slotLedgerKey {x : SpoolEntry} (h : x.Valid) :
    slotLedgerKey x.role x.job x.slot = .ok x.key := by
  simp only [Persona.slotLedgerKey, h.role, h.job, h.slot]
  rfl

/-! ### Reading lines back -/

def SpoolEntry.stripped (x : SpoolEntry) : SpoolEntry where
  role := Py.strip x.role
  job := Py.strip x.job
  slot := Py.strip x.slot
  holder := Py.strip x.holder
  epoch := x.epoch
  boardClaimRef := Py.strip x.boardClaimRef

theorem appendFallbackSpool_ok {txt : Texts} {x : SpoolEntry} {now : Int} {line : String}
    (h : appendFallbackSpool txt x now = .ok line) :
    x.stripped.Valid ∧
      line = (Json.obj
        (recordFields txt x.stripped.key (Py.strip x.holder) x now)).sortKeys.dumps := by
  obtain ⟨key, hkey, h⟩ := bind_eq_ok_iff.mp h
  obtain ⟨role, hrole, hkey⟩ := bind_eq_ok_iff.mp hkey
  obtain ⟨job, hjob, hkey⟩ := bind_eq_ok_iff.mp hkey
  obtain ⟨slot, hslot, hkey⟩ := bind_eq_ok_iff.mp hkey
  obtain ⟨holder, hholder, h⟩ := bind_eq_ok_iff.mp h
  obtain rfl := Except.ok.inj hkey
  split at h
  · cases h
  · next hepoch =>
    obtain rfl := Except.ok.inj h
    obtain ⟨-, rfl⟩ := validateRoleName_ok_iff.mp hrole
    obtain ⟨-, rfl⟩ := validatePart_ok_iff.mp hjob
    obtain ⟨-, rfl⟩ := validatePart_ok_iff.mp hslot
    obtain ⟨-, rfl⟩ := validatePersonaHolder_ok_iff.mp hholder
    exact ⟨⟨validateRoleName_again hrole, validatePart_again hjob, validatePart_again hslot,
      validatePersonaHolder_again hholder, not_lt.mp hepoch⟩, rfl⟩

private theorem field?_record (txt : Texts) (key holder : String) (x : SpoolEntry) (now : Int)
    (k : String) :
    (Json.obj (recordFields txt key holder x now)).sortKeys.field? k =
      ((Json.obj (recordFields txt key holder x now)).field? k).map Json.sortKeys := by
  refine Json.field?_sortKeys ?_ k
  simp only [recordFields, List.map_cons, List.map_nil]
  decide

theorem roleRe_ne_empty {s : String} (h : roleRe s = true) : s ≠ "" := by
  rintro rfl
  exact absurd h (by decide)

private theorem textField_str {txt : Texts} {item : Json} {k default s : String}
    (h : item.field? k = some (.str s)) (hs : s = "" → default = "") :
    textField txt item k default = s := by
  unfold textField
  rw [h]
  by_cases he : s = ""
  · simp [falsy, he, hs he]
  · simp [falsy, textOf, he]

private theorem renderFields_eq_concat (fs : List (String × Json)) :
    ∃ l, Json.renderFields true fs = l ++ ['}'] := by
  induction fs with
  | nil => exact ⟨[], rfl⟩
  | cons x fs ih =>
    obtain ⟨l, hl⟩ := ih
    refine ⟨Json.sep true ',' ++ (Json.renderString x.1 ++ Json.sep true ':' ++
      (x.2.render true ++ l)), ?_⟩
    simp only [Json.renderFields, hl, List.append_assoc]

theorem strip_dumps_obj (fs : List (String × Json)) :
    Py.strip (Json.obj fs).dumps = (Json.obj fs).dumps := by
  have h : ∃ l, (Json.obj fs).render true = '{' :: (l ++ ['}']) := by
    cases fs with
    | nil => exact ⟨[], rfl⟩
    | cons x fs =>
      obtain ⟨l, hl⟩ := renderFields_eq_concat fs
      refine ⟨Json.renderString x.1 ++ Json.sep true ':' ++ (x.2.render true ++ l), ?_⟩
      simp only [Json.render, hl, List.append_assoc]
  obtain ⟨l, hl⟩ := h
  rw [Json.dumps, hl]
  exact Py.strip_eq_self (by decide) (by decide)

/-- **A line that was appended is read back**, with its names stripped. -/
theorem parseLine_append {txt : Texts} {x : SpoolEntry} {now : Int} {line : String}
    (h : appendFallbackSpool txt x now = .ok line) :
    parseLine txt (Py.strip line) = .ok x.stripped ∧ Py.strip line ≠ "" := by
  obtain ⟨hv, rfl⟩ := appendFallbackSpool_ok h
  have hfield := field?_record txt x.stripped.key (Py.strip x.holder) x now
  obtain ⟨fs, hfs⟩ : ∃ fs, (Json.obj (recordFields txt x.stripped.key (Py.strip x.holder) x
      now)).sortKeys = .obj fs := ⟨_, rfl⟩
  rw [hfs] at hfield ⊢
  rw [strip_dumps_obj]
  refine ⟨?_, Json.dumps_ne_empty _⟩
  have hrole : textField txt (.obj fs) "role" "" = Py.strip x.role :=
    textField_str (hfield "role") fun _ => rfl
  have hjob : textField txt (.obj fs) "job" "" = Py.strip x.job :=
    textField_str (hfield "job") fun _ => rfl
  have hslot : textField txt (.obj fs) "slot" "" = Py.strip x.slot :=
    textField_str (hfield "slot") fun _ => rfl
  have hholder : textField txt (.obj fs) "holder" grokFallbackHolder = Py.strip x.holder := by
    refine textField_str (hfield "holder") fun he => ?_
    have := (validatePersonaHolder_ok_iff.mp hv.holder).1
    rw [show x.stripped.holder = Py.strip x.holder from rfl, Py.strip_strip, he] at this
    exact absurd this (by decide)
  have hepoch : intField txt (.obj fs) "epoch" = .ok x.epoch := by
    simp only [intField, hfield "epoch"]
    rfl
  have hboard : textField txt (.obj fs) "board_claim_ref" "" = Py.strip x.boardClaimRef :=
    textField_str (hfield "board_claim_ref") fun _ => rfl
  have hr : validateRoleName (Py.strip x.role) = .ok (Py.strip x.role) := hv.role
  have hj : validatePart (Py.strip x.job) "job" = .ok (Py.strip x.job) := hv.job
  have hs : validatePart (Py.strip x.slot) "slot" = .ok (Py.strip x.slot) := hv.slot
  have hh : validatePersonaHolder (Py.strip x.holder) = .ok (Py.strip x.holder) := hv.holder
  have he : ¬ x.epoch < 1 := not_lt.mpr hv.epoch
  simp only [parseLine, Json.loads_dumps, hrole, hjob, hslot, hholder, hepoch, hboard, hr, hj,
    hs, hh, bind, Except.bind, if_neg he]
  rfl

theorem parseLine_valid {txt : Texts} {line : String} {x : SpoolEntry}
    (h : parseLine txt line = .ok x) : x.Valid := by
  unfold parseLine at h
  split at h
  · obtain ⟨role, hrole, h⟩ := bind_eq_ok_iff.mp h
    obtain ⟨job, hjob, h⟩ := bind_eq_ok_iff.mp h
    obtain ⟨slot, hslot, h⟩ := bind_eq_ok_iff.mp h
    obtain ⟨holder, hholder, h⟩ := bind_eq_ok_iff.mp h
    obtain ⟨epoch, hepoch, h⟩ := bind_eq_ok_iff.mp h
    split at h
    · cases h
    · next hpos =>
      obtain rfl := Except.ok.inj h
      exact ⟨validateRoleName_again hrole, validatePart_again hjob, validatePart_again hslot,
        validatePersonaHolder_again hholder, not_lt.mp hpos⟩
  · cases h

theorem parseLines_ok_iff {txt : Texts} {n : ℕ} {lines : List String} {entries : List SpoolEntry} :
    parseLines txt n lines = .ok entries ↔
      List.Forall₂ (fun line x => parseLine txt line = .ok x) lines entries := by
  induction lines generalizing n entries with
  | nil => simp [parseLines, eq_comm]
  | cons line lines ih =>
    unfold parseLines
    cases hline : parseLine txt line with
    | error e =>
      simp only [reduceCtorEq, List.forall₂_cons_left_iff, hline, false_and, exists_false]
    | ok x =>
      cases htail : parseLines txt (n + 1) lines with
      | error e =>
        simp only [Except.map, reduceCtorEq, false_iff, List.forall₂_cons_left_iff]
        rintro ⟨y, ys, -, hys, -⟩
        rw [ih.mpr hys] at htail
        cases htail
      | ok xs =>
        simp only [Except.map, Except.ok.injEq, List.forall₂_cons_left_iff, hline]
        have htail' := ih.mp htail
        constructor
        · rintro rfl
          exact ⟨x, xs, rfl, htail', rfl⟩
        · rintro ⟨y, ys, rfl, hys, rfl⟩
          rw [Except.ok.inj (htail.symm.trans (ih.mpr hys))]

/-! ### Claims -/

def Keeps (st st' : Store) : Prop :=
  ∀ key row, st.slots.get? key = some row → st'.slots.get? key = some row

theorem Keeps.refl (st : Store) : Keeps st st := fun _ _ h => h

theorem Keeps.trans {st st' st'' : Store} (h : Keeps st st') (h' : Keeps st' st'') :
    Keeps st st'' := fun key row hrow => h' key row (h key row hrow)

/-- **What a claim does**: its key is in the ledger afterwards. -/
theorem recordSlotClaim_ok {x : SpoolEntry} {now : Int} {st st' : Store} {r : SlotReply}
    (hv : x.Valid) (h : recordSlotClaim x now st = (.ok r, st')) :
    st'.db = st.db ∧ Keeps st st' ∧ (st'.slots.get? x.key).isSome := by
  unfold recordSlotClaim at h
  rw [hv.slotLedgerKey, hv.holder] at h
  dsimp only at h
  rw [if_neg (not_lt.mpr hv.epoch)] at h
  have hbody := immediateTxn_ok.mp h
  unfold recordBody at hbody
  split at hbody
  · next row hrow =>
    obtain ⟨-, rfl⟩ := Prod.ext_iff.mp (Except.ok.inj hbody)
    exact ⟨rfl, .refl _, by rw [hrow]; rfl⟩
  · next hrow =>
    split at hbody
    · cases hbody
    · obtain ⟨-, rfl⟩ := Prod.ext_iff.mp (Except.ok.inj hbody)
      refine ⟨rfl, ?_, ?_⟩
      · intro key row hrow'
        rw [Table.get?_insertNew]
        split
        · next hk => rw [← hk, hrow'] ; rfl
        · exact hrow'
      · rw [Table.get?_insertNew, if_pos rfl]
        rfl

theorem recordSlotClaim_error {x : SpoolEntry} {now : Int} {st st' : Store} {e : SpoolError}
    (h : recordSlotClaim x now st = (.error e, st')) : st' = st := by
  unfold recordSlotClaim at h
  split at h
  · exact (Prod.ext_iff.mp h).2.symm
  · split at h
    · exact (Prod.ext_iff.mp h).2.symm
    · split at h
      · exact (Prod.ext_iff.mp h).2.symm
      · have := immediateTxn_error (congrArg Prod.fst h)
        rwa [h] at this

/-- **Every entry** of an ingest is in the ledger afterwards. -/
theorem claimAll_ok {now : Int} {entries : List SpoolEntry} {st st' : Store}
    {rs : List SlotReply} (hv : ∀ x ∈ entries, x.Valid)
    (h : claimAll now entries st = (.ok rs, st')) :
    st'.db = st.db ∧ Keeps st st' ∧ ∀ x ∈ entries, (st'.slots.get? x.key).isSome := by
  induction entries generalizing st rs with
  | nil =>
    obtain ⟨-, rfl⟩ := Prod.ext_iff.mp h
    exact ⟨rfl, .refl _, by simp⟩
  | cons x entries ih =>
    unfold claimAll at h
    split at h
    · cases h
    · next r st₁ hclaim =>
      split at h
      · cases h
      · next rs' st₂ hrest =>
        obtain ⟨-, rfl⟩ := Prod.ext_iff.mp h
        obtain ⟨hdb, hkeeps, hkey⟩ := recordSlotClaim_ok (hv x (by simp)) hclaim
        obtain ⟨hdb', hkeeps', hkeys⟩ := ih (fun y hy => hv y (by simp [hy])) hrest
        refine ⟨hdb'.trans hdb, hkeeps.trans hkeeps', ?_⟩
        intro y hy
        rcases List.mem_cons.mp hy with rfl | hy
        · obtain ⟨row, hrow⟩ := Option.isSome_iff_exists.mp hkey
          rw [hkeeps' _ _ hrow]
          rfl
        · exact hkeys y hy

/-! ### Highest epochs -/

theorem lookup_countEpoch (x : SpoolEntry) (l : List (String × Int)) (role : String) :
    (countEpoch x l).lookup role =
      if role = x.role then some (max ((l.lookup x.role).getD 0) x.epoch) else l.lookup role := by
  induction l with
  | nil =>
    by_cases h : role = x.role
    · simp [countEpoch, h]
    · simp [countEpoch, List.lookup_cons, beq_false_of_ne h, h]
  | cons y l ih =>
    obtain ⟨role', n⟩ := y
    unfold countEpoch
    by_cases hx : role' = x.role
    · subst hx
      by_cases h : role = x.role
      · simp [h]
      · simp [List.lookup_cons, beq_false_of_ne h, h]
    · rw [if_neg hx]
      have hx' : (x.role == role') = false := beq_false_of_ne (Ne.symm hx)
      have hl : ((role', n) :: l).lookup x.role = l.lookup x.role := by
        rw [List.lookup_cons, hx']
      rw [List.lookup_cons, ih, hl, List.lookup_cons]
      by_cases h : role = role'
      · simp [h, hx]
      · simp [beq_false_of_ne h]

theorem map_fst_countEpoch (x : SpoolEntry) (l : List (String × Int)) :
    ((countEpoch x l).map Prod.fst) =
      if x.role ∈ l.map Prod.fst then l.map Prod.fst else l.map Prod.fst ++ [x.role] := by
  induction l with
  | nil => rfl
  | cons y l ih =>
    obtain ⟨role', n⟩ := y
    unfold countEpoch
    by_cases hx : role' = x.role
    · simp [hx]
    · rw [if_neg hx, List.map_cons, ih]
      by_cases hin : x.role ∈ l.map Prod.fst
      · simp [hin]
      · simp [hin, Ne.symm hx]

structure Highest (seen : List SpoolEntry) (l : List (String × Int)) : Prop where
  nodup : (l.map Prod.fst).Nodup
  above : ∀ x ∈ seen, ∃ n, l.lookup x.role = some n ∧ x.epoch ≤ n
  reached : ∀ role n, l.lookup role = some n → ∃ x ∈ seen, x.role = role ∧ x.epoch = n

theorem Highest.count {seen : List SpoolEntry} {l : List (String × Int)} {x : SpoolEntry}
    (h : Highest seen l) (hpos : 1 ≤ x.epoch) : Highest (seen ++ [x]) (countEpoch x l) where
  nodup := by
    rw [map_fst_countEpoch]
    split
    · exact h.nodup
    · next hno => exact List.nodup_append.mpr ⟨h.nodup, by simp, by
        rintro a ha b hb rfl
        exact hno (List.mem_singleton.mp hb ▸ ha)⟩
  above := by
    intro y hy
    rw [lookup_countEpoch]
    rcases List.mem_append.mp hy with hy | hy
    · obtain ⟨n, hn, hle⟩ := h.above y hy
      split
      · next hr =>
        refine ⟨_, rfl, ?_⟩
        rw [hr] at hn
        rw [hn]
        exact hle.trans (le_max_left _ _)
      · exact ⟨n, hn, hle⟩
    · obtain rfl := List.mem_singleton.mp hy
      rw [if_pos rfl]
      exact ⟨_, rfl, le_max_right _ _⟩
  reached := by
    intro role n hn
    rw [lookup_countEpoch] at hn
    split at hn
    · next hr =>
      have hn := Option.some.inj hn
      rcases max_choice ((l.lookup x.role).getD 0) x.epoch with hold | hnew
      · rw [hold] at hn
        cases hl : l.lookup x.role with
        | none =>
          -- nothing was counted before, and the epoch is positive
          rw [hl, Option.getD_none] at hold
          have := max_eq_left_iff.mp hold
          omega
        | some m =>
          obtain ⟨y, hy, hrole, hepoch⟩ := h.reached _ _ hl
          rw [hl] at hn
          exact ⟨y, List.mem_append_left _ hy, hrole.trans hr.symm, hepoch.trans hn⟩
      · rw [hnew] at hn
        exact ⟨x, by simp, hr.symm, hn⟩
    · obtain ⟨y, hy, hrole, hepoch⟩ := h.reached _ _ hn
      exact ⟨y, List.mem_append_left _ hy, hrole, hepoch⟩

/-- **The highest epoch of each role.** -/
theorem highest_maxEpochByRole {entries : List SpoolEntry} (hv : ∀ x ∈ entries, x.Valid) :
    Highest entries (maxEpochByRole entries) := by
  have hfold : ∀ (xs seen : List SpoolEntry) (l : List (String × Int)), Highest seen l →
      (∀ x ∈ xs, x.Valid) → Highest (seen ++ xs) (xs.foldl (fun l x => countEpoch x l) l) := by
    intro xs
    induction xs with
    | nil => intro seen l h _; simpa using h
    | cons x xs ih =>
      intro seen l h hv
      have := ih (seen ++ [x]) _ (h.count (hv x (by simp)).epoch) fun y hy => hv y (by simp [hy])
      rwa [List.append_assoc, List.singleton_append] at this
  exact hfold entries [] [] ⟨by simp, by simp, by simp⟩ hv

/-! ### Floors -/

def floored (r : Option Lease) (role : String) (minEpoch at' : Int) : Lease :=
  match r with
  | none => floorLease role minEpoch at'
  | some cur => if cur.epoch < minEpoch then raised cur minEpoch else cur

/-- **What a floor does.** -/
theorem bumpEpochFloor_ok {role : String} {minEpoch now : Int} {st st' : Store}
    (hrole : validateRoleName role = .ok role)
    (h : bumpEpochFloor role minEpoch now st = (.ok (), st')) :
    st'.slots = st.slots ∧
      (∀ cur, st.db.lease ("persona:" ++ role) = some cur → cur.epoch < minEpoch →
        fitsInteger minEpoch = true) ∧
      ((st.db.lease ("persona:" ++ role) = none) → fitsInteger minEpoch = true) ∧
      ∀ scope, st'.db.lease scope =
        if scope = "persona:" ++ role then
          some (floored (st.db.lease scope) role minEpoch (seconds now))
        else st.db.lease scope := by
  unfold bumpEpochFloor personaScope at h
  rw [hrole] at h
  have hbody := immediateTxn_ok.mp h
  unfold bumpBody at hbody
  split at hbody
  · next hrow =>
    -- no row: a floor row is inserted
    split at hbody
    · cases hbody
    · next hfits =>
      obtain ⟨-, rfl⟩ := Prod.ext_iff.mp (Except.ok.inj hbody)
      refine ⟨rfl, ?_, fun _ => by simpa using hfits, ?_⟩
      · intro cur hcur
        rw [hrow] at hcur
        cases hcur
      · intro scope
        rw [lease_putLease]
        split
        · next hs => rw [hs, hrow]; rfl
        · rfl
  · next cur hrow =>
    split at hbody
    · next hlow =>
      split at hbody
      · cases hbody
      · next hfits =>
        obtain ⟨-, rfl⟩ := Prod.ext_iff.mp (Except.ok.inj hbody)
        refine ⟨rfl, fun _ _ _ => by simpa using hfits, ?_, ?_⟩
        · intro hnone
          rw [hrow] at hnone
          cases hnone
        · intro scope
          rw [lease_putLease]
          split
          · next hs => rw [hs, hrow, floored, if_pos hlow]
          · rfl
    · next hlow =>
      obtain ⟨-, rfl⟩ := Prod.ext_iff.mp (Except.ok.inj hbody)
      refine ⟨rfl, ?_, ?_, ?_⟩
      · intro cur' hcur' hlow'
        obtain rfl := Option.some.inj (hrow.symm.trans hcur')
        exact absurd hlow' hlow
      · intro hnone
        rw [hrow] at hnone
        cases hnone
      · intro scope
        split
        · next hs => rw [hs, hrow, floored, if_neg hlow]
        · rfl

theorem bumpEpochFloor_error {role : String} {minEpoch now : Int} {st st' : Store}
    {e : SpoolError} (h : bumpEpochFloor role minEpoch now st = (.error e, st')) : st' = st := by
  unfold bumpEpochFloor at h
  split at h
  · exact (Prod.ext_iff.mp h).2.symm
  · have := immediateTxn_error (congrArg Prod.fst h)
    rwa [h] at this

theorem persona_injective {role role' : String} (h : "persona:" ++ role = "persona:" ++ role') :
    role = role' := by
  have := congrArg String.toList h
  rw [String.toList_append, String.toList_append] at this
  exact String.toList_inj.mp (List.append_cancel_left this)

/-- **What the floors do**: the row of each role is floored, the others are left. -/
theorem bumpAll_ok {now : Int} {l : List (String × Int)} {st st' : Store}
    (hroles : ∀ x ∈ l, validateRoleName x.1 = .ok x.1) (hn : (l.map Prod.fst).Nodup)
    (h : bumpAll now l st = (.ok (), st')) :
    st'.slots = st.slots ∧
      (∀ role n, (role, n) ∈ l → st'.db.lease ("persona:" ++ role) =
        some (floored (st.db.lease ("persona:" ++ role)) role n (seconds now))) ∧
      ∀ scope, (∀ x ∈ l, scope ≠ "persona:" ++ x.1) → st'.db.lease scope = st.db.lease scope := by
  induction l generalizing st with
  | nil =>
    obtain ⟨-, rfl⟩ := Prod.ext_iff.mp h
    exact ⟨rfl, by simp, fun _ _ => rfl⟩
  | cons y l ih =>
    obtain ⟨role', n'⟩ := y
    unfold bumpAll at h
    split at h
    · cases h
    · next st₁ hbump =>
      obtain ⟨hslots, -, -, hlease⟩ := bumpEpochFloor_ok (hroles (role', n') (by simp)) hbump
      rw [List.map_cons, List.nodup_cons] at hn
      obtain ⟨hslots', hin, hout⟩ := ih (fun x hx => hroles x (by simp [hx])) hn.2 h
      refine ⟨hslots'.trans hslots, ?_, ?_⟩
      · intro role n hmem
        rcases List.mem_cons.mp hmem with heq | hmem
        · obtain ⟨rfl, rfl⟩ := Prod.ext_iff.mp heq
          -- the scope is not met again
          rw [hout, hlease, if_pos rfl]
          intro x hx hscope
          exact hn.1 (persona_injective hscope ▸ List.mem_map.mpr ⟨x, hx, rfl⟩)
        · have hne : "persona:" ++ role ≠ "persona:" ++ role' := by
            intro hscope
            exact hn.1 (persona_injective hscope ▸ List.mem_map.mpr ⟨_, hmem, rfl⟩)
          rw [hin role n hmem, hlease, if_neg hne]
      · intro scope hno
        rw [hout scope fun x hx => hno x (by simp [hx]), hlease,
          if_neg (hno (role', n') (by simp))]

end Persona
