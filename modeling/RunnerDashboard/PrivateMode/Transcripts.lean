import RunnerDashboard.Lib.PyStr
import RunnerDashboard.Lib.Value

/-!
# Encrypted transcripts

A thread is a file of lines.  A line holds a sequence number, a nonce and a ciphertext, and the
associated data of the encryption name the thread and the number.  A reader takes the numbers to be
those of the lines.

## Main definitions

* `Cipher`, `decrypt` — the encryption of a thread, and its idealised decryption.
* `appendChunk`, `readChunks` — an append on its own, and the reader.

## Main results

* `parseRecord_chunkLine` — the record of a written line.
* `chunkAad_injective` — the associated data tell the number.
-/

namespace Transcripts

open Py (Value pyInt)

/-! ### Bytes -/

abbrev Bytes := List UInt8

/-- `b.hex()`. -/
def hexDigits (b : Bytes) : List Char :=
  b.flatMap fun x => [(x.toNat / 16).digitChar, (x.toNat % 16).digitChar]

def toHex (b : Bytes) : String := String.ofList (hexDigits b)

def isAsciiSpace (c : Char) : Bool := c = ' ' || (9 ≤ c.toNat && c.toNat ≤ 13)

/-- `bytes.fromhex`, which skips blanks between two bytes. -/
def fromHex : List Char → Option Bytes
  | [] => some []
  | [c] => if isAsciiSpace c then some [] else none
  | c :: d :: cs =>
    if isAsciiSpace c then fromHex (d :: cs)
    else
      match Json.hexVal c, Json.hexVal d with
      | some h, some l => (fromHex cs).map (UInt8.ofNat (16 * h + l) :: ·)
      | _, _ => none

def nonceLen : ℕ := 12

/-- A nonce as `secrets.token_bytes` makes it. -/
abbrev Nonce := { b : Bytes // b.length = nonceLen }

/-! ### Encryptions -/

def chunkRecord (seq : ℕ) (nonce ciphertext : Bytes) : Json :=
  .obj [("seq", .num seq), ("nonce", .str (toHex nonce)), ("ciphertext", .str (toHex ciphertext))]

def chunkLine (seq : ℕ) (nonce ciphertext : Bytes) : List Char :=
  (chunkRecord seq nonce ciphertext).render true

/-- `AESGCM(dek).encrypt` for the key of a thread, `int` of a string, and `json.loads`, which reads
the record of a written line, and of any other line what it likes. -/
structure Cipher where
  encrypt : Bytes → Bytes → String → Bytes
  intOf : String → Option Int
  loads : String → Option Value
  loads_line : ∀ seq nonce ciphertext, loads (String.ofList (chunkLine seq nonce ciphertext)) =
    some (Value.ofJson (chunkRecord seq nonce ciphertext))

/-- An encryption that was made. -/
structure Sealed where
  nonce : Nonce
  plaintext : Bytes
  aad : String
  ciphertext : Bytes
  deriving DecidableEq

/-- `AESGCM(dek).decrypt`: it succeeds on the nonce, the ciphertext and the associated data of an
encryption under the key, and raises `InvalidTag` on any others. -/
def decrypt (boxes : List Sealed) (nonce ciphertext : Bytes) (aad : String) : Option Bytes :=
  (boxes.find? fun b => b.nonce.1 = nonce && (b.ciphertext = ciphertext && b.aad = aad)).map
    Sealed.plaintext

/-! ### Threads -/

structure ThreadMetadata where
  level : String
  expiresAt : Int
  authorizedPrincipals : List String

/-- What `_load_metadata` finds beside the tombstones. -/
inductive MetaFile
  | missing
  | malformed
  | valid (md : ThreadMetadata)

/-- A thread of a store, with the encryptions under its key. -/
structure Thread where
  threadId : String
  enabled : Bool
  shredded : Bool
  metaFile : MetaFile
  /-- The reason why the key cannot be unwrapped. -/
  unavailable : Option String
  /-- The text of the chunk file. -/
  chunks : Option String
  boxes : List Sealed

/-- The errors of the store. -/
inductive Error
  | value (text : String)
  | unavailable (reason : String)
  | authz (text : String)
  | integrity (text : String)
  | shredded (text : String)
  | expired (text : String)
  deriving DecidableEq

def chunkAad (threadId level : String) (seq : ℕ) : String :=
  "pm8:v1:" ++ threadId ++ ":" ++ level ++ ":seq:" ++ Json.intText seq

def linesOf (text : String) : List (List Char) := Py.splitLines text.toList

def countChunks (text : String) : ℕ := (linesOf text).countP fun l => Py.stripChars l ≠ []

/-- `_validate_thread_id`: `$` matches before a line end at the end, too. -/
def validThreadId (threadId : String) : Bool :=
  let alnum := fun c : Char => c.isAlphanum
  let l := threadId.toList
  let l := if l.getLast? = some '\n' then l.dropLast else l
  match l with
  | [] => false
  | c :: cs => alnum c && cs.length ≤ 127 &&
      cs.all fun c => alnum c || c = '.' || c = '_' || c = '-'

def loadMetadata (th : Thread) : Except Error ThreadMetadata :=
  if th.shredded then .error (.shredded ("thread " ++ th.threadId ++ " has been crypto-shredded"))
  else
    match th.metaFile with
    | .missing => .error (.integrity ("missing metadata for thread " ++ th.threadId))
    | .malformed => .error (.integrity "malformed thread metadata")
    | .valid md => .ok md

/-- `bytes.fromhex(v)`. -/
def pyFromHex : Value → Option Bytes
  | .str s => fromHex s.toList
  | _ => none

section Code

variable (C : Cipher)

/-- The last part of `append_chunk`: encrypt under a number and append the line. -/
def writeChunk (th : Thread) (md : ThreadMetadata) (text : String) (seq : ℕ) (nonce : Nonce)
    (plaintext : Bytes) : Thread :=
  let aad := chunkAad th.threadId md.level seq
  let ciphertext := C.encrypt nonce.1 plaintext aad
  { th with
    chunks := some (text ++ String.ofList (chunkLine seq nonce.1 ciphertext ++ ['\n']))
    boxes := th.boxes ++ [⟨nonce, plaintext, aad, ciphertext⟩] }

/-- `append_chunk`, when no other append comes between its steps. -/
def appendChunk (th : Thread) (plaintext : Bytes) (nonce : Nonce) (now : Int) :
    Except Error (ℕ × Thread) :=
  if !validThreadId th.threadId then
    .error (.value "thread_id must be 1..128 safe characters ([A-Za-z0-9._-])")
  else if plaintext = [] then .error (.value "append_chunk: plaintext must be non-empty bytes")
  else if !th.enabled then .error (.unavailable "flag-disabled")
  else
    match loadMetadata th with
    | .error e => .error e
    | .ok md =>
      if md.expiresAt ≤ now then .error (.expired ("thread " ++ th.threadId ++ " expired"))
      else
        match th.chunks with
        | none => .error (.integrity ("missing chunk stream for thread " ++ th.threadId))
        | some text =>
          let seq := countChunks text
          match th.unavailable with
          | some reason => .error (.unavailable reason)
          | none => .ok (seq, writeChunk C th md text seq nonce plaintext)

/-- The record of a line; `none` for a malformed one, and where `int` of a float overflows. -/
def parseRecord (line : List Char) : Option (Int × Bytes × Bytes) := do
  let rec_ ← C.loads (String.ofList line)
  let seq ← (rec_.get "seq").bind (pyInt C.intOf)
  let nonce ← (rec_.get "nonce").bind pyFromHex
  let ciphertext ← (rec_.get "ciphertext").bind pyFromHex
  some (seq, nonce, ciphertext)

/-- The loop of `read_chunks` from a line on. -/
def readLines (th : Thread) (md : ThreadMetadata) : ℕ → List (List Char) →
    Except Error (List Bytes)
  | _, [] => .ok []
  | expectedSeq, line :: lines =>
    match parseRecord C line with
    | none => .error (.integrity "malformed chunk record")
    | some (seq, nonce, ciphertext) =>
      if seq ≠ expectedSeq ∨ nonce.length ≠ nonceLen then
        .error (.integrity ("chunk sequence mismatch at " ++ Json.intText expectedSeq))
      else
        match decrypt th.boxes nonce ciphertext (chunkAad th.threadId md.level expectedSeq) with
        | none => .error (.integrity ("AEAD tag verification failed at seq " ++
            Json.intText expectedSeq))
        | some plaintext => (readLines th md (expectedSeq + 1) lines).map (plaintext :: ·)

/-- Whether a caller may read, by `_authorizer` if there is one. -/
def allowed (authorizer : Option (String → String → List String → Bool)) (threadId caller : String)
    (md : ThreadMetadata) : Bool :=
  match authorizer with
  | some authorized => authorized threadId caller md.authorizedPrincipals
  | none => caller ∈ md.authorizedPrincipals

def readChunks (authorizer : Option (String → String → List String → Bool)) (th : Thread)
    (principal : String) (now : Int) : Except Error (List Bytes) :=
  if !validThreadId th.threadId then
    .error (.value "thread_id must be 1..128 safe characters ([A-Za-z0-9._-])")
  else if Py.strip principal = "" then
    .error (.value "read_chunks: principal must be a non-empty string")
  else if !th.enabled then .error (.unavailable "flag-disabled")
  else
    match loadMetadata th with
    | .error e => .error e
    | .ok md =>
      let caller := Py.strip principal
      if !allowed authorizer th.threadId caller md then
        .error (.authz ("principal not authorized for thread " ++ th.threadId))
      else if md.expiresAt ≤ now then .error (.expired ("thread " ++ th.threadId ++ " expired"))
      else
        match th.unavailable with
        | some reason => .error (.unavailable reason)
        | none =>
          match th.chunks with
          | none => .error (.integrity ("missing chunk stream for thread " ++ th.threadId))
          | some text => readLines C th md 0 (linesOf text)

end Code

/-! ### What was written is read -/

theorem isAsciiSpace_digitChar : ∀ d < 16, isAsciiSpace d.digitChar = false := by decide

/-- **`bytes.fromhex(b.hex())` is `b`.** -/
theorem fromHex_hexDigits (b : Bytes) : fromHex (hexDigits b) = some b := by
  induction b with
  | nil => rfl
  | cons x b ih =>
    have hlt := x.toNat_lt
    have hhigh : x.toNat / 16 < 16 := by omega
    have hlow : x.toNat % 16 < 16 := Nat.mod_lt _ (by decide)
    have hcons : hexDigits (x :: b)
        = (x.toNat / 16).digitChar :: (x.toNat % 16).digitChar :: hexDigits b := rfl
    rw [hcons, fromHex, isAsciiSpace_digitChar _ hhigh, Json.hexVal_digitChar _ hhigh,
      Json.hexVal_digitChar _ hlow, ih]
    simp [Nat.div_add_mod]

theorem fromHex_toHex (b : Bytes) : fromHex (toHex b).toList = some b := by
  rw [toHex, String.toList_ofList, fromHex_hexDigits]

theorem map_loads_chunkLine (seq : ℕ) (nonce ciphertext : Bytes) :
    (Json.loads (String.ofList (chunkLine seq nonce ciphertext))).map Value.ofJson =
      some (Value.ofJson (chunkRecord seq nonce ciphertext)) :=
  congrArg (Option.map Value.ofJson) (Json.loads_dumps _)

/-- **The record of a written line.** -/
theorem parseRecord_chunkLine (C : Cipher) (seq : ℕ) (nonce ciphertext : Bytes) :
    parseRecord C (chunkLine seq nonce ciphertext) = some ((seq : Int), nonce, ciphertext) := by
  have hloads := C.loads_line seq nonce ciphertext
  simp [parseRecord, hloads, chunkRecord, Value.ofJson, Value.ofFields, Value.get,
    List.lookup_cons, pyInt, pyFromHex, fromHex_toHex]

/-- **The associated data tell the number.** -/
theorem chunkAad_injective (threadId level : String) :
    Function.Injective (chunkAad threadId level) := by
  intro seq seq' h
  unfold chunkAad at h
  have htext := String.append_right_inj _ |>.mp h
  exact Int.ofNat.inj (Json.intText_injective htext)

theorem isLineBreak_chunkLine (seq : ℕ) (nonce ciphertext : Bytes) :
    ∀ c ∈ chunkLine seq nonce ciphertext, Py.isLineBreak c = false := by
  intro c hc
  obtain ⟨hlow, hhigh⟩ := Json.printable_render true _ c hc
  simp only [Py.isLineBreak]
  simp
  omega

theorem stripChars_chunkLine (seq : ℕ) (nonce ciphertext : Bytes) :
    Py.stripChars (chunkLine seq nonce ciphertext) ≠ [] := by
  intro hblank
  have hbrace : '{' ∈ chunkLine seq nonce ciphertext := List.mem_cons_self
  exact absurd (Py.stripChars_eq_nil_iff.mp hblank '{' hbrace) (by decide)

end Transcripts
