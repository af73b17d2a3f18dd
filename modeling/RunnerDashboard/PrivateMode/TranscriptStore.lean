import RunnerDashboard.Lib.Table
import RunnerDashboard.PrivateMode.Transcripts

/-!
# The store of the transcripts

A thread has a metadata file and a chunk file.  The metadata hold the key of the thread, wrapped by
the key of the host under the name of the thread and the text of its expiry, and beside it the
level, the expiry and who may read.  A tombstone outlives the files.

## Main results

* `parseMetadata_payload` — what was written is read.
* `wrapContext_threadId` — a wrapped key is bound to its thread.
-/

namespace TranscriptStore

open Transcripts
open Py (Value pyInt)

/-! ### The standard library -/

/-- What the standard library makes of texts and values, and the ciphertexts. -/
structure Runtime where
  /-- `int(s)`. -/
  intOf : String → Option ℤ
  /-- `float(s)`. -/
  floatOf : String → Option PyFloat
  /-- `float(n)`. -/
  floatOfInt : ℤ → Option PyFloat
  /-- `str(v)` of what is no text. -/
  strOf : Value → String
  /-- The length of `json.dumps(v, sort_keys=True)`. -/
  dumpsSize : Value → ℕ
  rounding : Rounding
  /-- `json.loads` of a line of the chunk file. -/
  loads : String → Option Value
  loads_line : ∀ seq nonce ciphertext, loads (String.ofList (chunkLine seq nonce ciphertext)) =
    some (Value.ofJson (chunkRecord seq nonce ciphertext))
  /-- `AESGCM(dek).encrypt`. -/
  encrypt : Bytes → Bytes → Bytes → String → Bytes
  /-- `AESGCM(kek).encrypt` of a key; there is a tag, so it is not empty. -/
  wrapEncrypt : Bytes → Bytes → String → { c : Bytes // c ≠ [] }

namespace Runtime

variable (rt : Runtime)

/-- The encryption of the chunks under a key. -/
def cipher (dek : Bytes) : Cipher := ⟨rt.encrypt dek, rt.intOf, rt.loads, rt.loads_line⟩

/-- `float(v)`. -/
def pyFloat : Value → Option PyFloat
  | .float x => some x
  | .int n => rt.floatOfInt n
  | .bool b => some (.fin (if b then 1 else 0))
  | .str s => rt.floatOf s
  | _ => none

/-- `str(v)`. -/
def pyStr : Value → String
  | .str s => s
  | v => rt.strOf v

end Runtime

/-! ### Wrapped keys -/

def backends : List String := ["vault", "host_key"]

def envelopeVersion : ℤ := 1

/-- A key that is wrapped, as `__post_init__` lets it be. -/
structure WrappedKey where
  version : ℤ
  backend : String
  nonce : Bytes
  ciphertext : Bytes
  hbackend : backend ∈ backends
  hnonce : nonce.length = nonceLen
  hciphertext : ciphertext ≠ []
  deriving DecidableEq

/-- `WrappedKey(..)`; `none` where it raises. -/
def WrappedKey.ofParts (version : ℤ) (backend : String) (nonce ciphertext : Bytes) :
    Option WrappedKey :=
  if h : backend ∈ backends ∧ nonce.length = nonceLen ∧ ciphertext ≠ [] then
    some ⟨version, backend, nonce, ciphertext, h.1, h.2.1, h.2.2⟩
  else none

/-- A wrapping that was made under the key of the host. -/
structure Wrap where
  nonce : Bytes
  ciphertext : Bytes
  aad : String
  dek : Bytes

/-- A provider, and why its key cannot be loaded if it cannot. -/
structure Provider where
  enabled : Bool
  backend : String
  hbackend : backend ∈ backends
  kekFailure : Option String

/-- `_aad`. -/
def wrapAad (version : ℤ) (backend context : String) : String :=
  "pm7:v" ++ toString version ++ ":" ++ backend ++ ":" ++ context

/-- `wrap_key`, with the wrapping that is made; the reason where it is not. -/
def wrapKey (rt : Runtime) (provider : Provider) (dek : Bytes) (nonce : Nonce) (context : String) :
    Except String (WrappedKey × Wrap) :=
  if !provider.enabled then .error "flag-disabled"
  else
    match provider.kekFailure with
    | some reason => .error reason
    | none =>
      let aad := wrapAad envelopeVersion provider.backend context
      let ciphertext := rt.wrapEncrypt dek nonce.1 aad
      .ok (⟨envelopeVersion, provider.backend, nonce.1, ciphertext.1, provider.hbackend, nonce.2,
        ciphertext.2⟩, ⟨nonce.1, ciphertext.1, aad, dek⟩)

/-- `unwrap_key`, where the key of the host opens the wrappings that were made and no others. -/
def unwrapKey (provider : Provider) (wraps : List Wrap) (wrapped : WrappedKey) (context : String) :
    Except String Bytes :=
  if !provider.enabled then .error "flag-disabled"
  else if wrapped.backend ≠ provider.backend then .error "backend-mismatch"
  else if wrapped.version ≠ envelopeVersion then .error "version-skew"
  else
    match provider.kekFailure with
    | some reason => .error reason
    | none =>
      match wraps.find? fun w => w.nonce = wrapped.nonce && (w.ciphertext = wrapped.ciphertext &&
          w.aad = wrapAad wrapped.version wrapped.backend context) with
      | none => .error "unwrap-failed"
      | some w => if w.dek.length ≠ 32 then .error "unwrap-failed" else .ok w.dek

def wrapContext (threadId : String) (expiresAt : PyFloat) : String :=
  "pm8:thread:" ++ threadId ++ ":exp:" ++ expiresAt.fixed 6

/-! ### Metadata -/

inductive Level
  | pub
  | internal
  | sensitive
  deriving DecidableEq

def Level.name : Level → String
  | .pub => "PUBLIC"
  | .internal => "INTERNAL"
  | .sensitive => "SENSITIVE"

/-- `Level[name]`. -/
def Level.ofName? (name : String) : Option Level :=
  [Level.pub, .internal, .sensitive].find? fun level => level.name = name

def schemaVersion : ℤ := 1

/-- `ThreadMetadata`. -/
structure Metadata where
  level : Level
  createdAt : PyFloat
  expiresAt : PyFloat
  authorizedPrincipals : List String
  wrappedDek : WrappedKey
  deriving DecidableEq

/-- The reader's part of the metadata, with the whole seconds of the expiry. -/
def Metadata.base (md : Metadata) : ThreadMetadata :=
  ⟨md.level.name, md.expiresAt.trunc.getD 0, md.authorizedPrincipals⟩

def parseWrapped (rt : Runtime) (raw : Value) : Option WrappedKey := do
  let w ← raw.get "wrapped_dek"
  let version ← (w.get "version").bind (pyInt rt.intOf)
  let backend ← w.get "backend"
  let nonce ← (w.get "nonce").bind pyFromHex
  let ciphertext ← (w.get "ciphertext").bind pyFromHex
  WrappedKey.ofParts version (rt.pyStr backend) nonce ciphertext

def parsePrincipals (rt : Runtime) (raw : Value) : Option (List String) := do
  let items ← (raw.get "authorized_principals").bind Value.iter
  some ((items.map rt.pyStr).filter fun p => Py.strip p ≠ "")

/-- The body of `_load_metadata`; `none` for malformed metadata. -/
def parseMetadata (rt : Runtime) (threadId : String) (raw : Value) : Option Metadata := do
  let wrapped ← parseWrapped rt raw
  let level ← (raw.get "level").bind fun v => Level.ofName? (rt.pyStr v)
  let principals ← parsePrincipals rt raw
  let version ← (raw.get "schema_version").bind (pyInt rt.intOf)
  let name ← raw.get "thread_id"
  if version ≠ schemaVersion ∨ name.isText threadId = false ∨ principals = [] then none
  else do
    let created ← (raw.get "created_at").bind rt.pyFloat
    let expires ← (raw.get "expires_at").bind rt.pyFloat
    some ⟨level, created, expires, principals, wrapped⟩

/-- What `create_thread` writes. -/
def payload (threadId : String) (md : Metadata) : Value :=
  .obj [("schema_version", .int schemaVersion), ("thread_id", .str threadId),
    ("level", .str md.level.name), ("created_at", .float md.createdAt),
    ("expires_at", .float md.expiresAt),
    ("authorized_principals", .arr (md.authorizedPrincipals.map .str)),
    ("wrapped_dek", .obj [("version", .int md.wrappedDek.version),
      ("backend", .str md.wrappedDek.backend), ("nonce", .str (toHex md.wrappedDek.nonce)),
      ("ciphertext", .str (toHex md.wrappedDek.ciphertext))])]

/-! ### The directory -/

/-- A metadata file: what `json.loads` makes of it, if it does, and its size. -/
structure File where
  value : Option Value
  size : ℕ
  pos : value ≠ none → 0 < size

/-- A file of `n` zeros. -/
def File.zeros (n : ℕ) : File := ⟨none, n, fun h => absurd rfl h⟩

structure Tombstone where
  threadId : String
  shreddedAt : PyFloat
  reason : String

/-- The directory, with the encryptions under the key of the host and under the keys of the
threads. -/
structure State where
  tombstones : List Tombstone
  metas : Sql.Table String File
  chunks : String → Option String
  wraps : List Wrap
  boxes : Bytes → List Sealed

/-- What a store is made with. -/
structure Config where
  privateMode : Bool
  provider : Provider
  authorizer : Option (String → String → List String → Bool)
  maxTtlSeconds : ℤ

def Config.isEnabled (cfg : Config) : Bool := cfg.privateMode && cfg.provider.enabled

section Code

variable (rt : Runtime) (cfg : Config)

def isShredded (s : State) (threadId : String) : Bool :=
  s.tombstones.any fun t => t.threadId = threadId

def loadMetadata (s : State) (threadId : String) : Except Error Metadata :=
  if isShredded s threadId then
    .error (.shredded ("thread " ++ threadId ++ " has been crypto-shredded"))
  else
    match s.metas.get? threadId with
    | none => .error (.integrity ("missing metadata for thread " ++ threadId))
    | some file =>
      match file.value.bind (parseMetadata rt threadId) with
      | none => .error (.integrity "malformed thread metadata")
      | some md => .ok md

def cleanedPrincipals (authorizedPrincipals : List String) : List String :=
  (authorizedPrincipals.map Py.strip).filter fun p => p ≠ ""

/-- `sorted(set(principals))`. -/
def sortedSet (principals : List String) : List String :=
  principals.dedup.mergeSort fun p q => p ≤ q

def writeThread (s : State) (threadId : String) (value : Value) (wrap : Wrap) : State :=
  { s with
    metas := s.metas.put threadId
      ⟨some value, rt.dumpsSize value + 1, fun _ => Nat.succ_pos _⟩
    chunks := Function.update s.chunks threadId (some "")
    wraps := s.wraps ++ [wrap] }

/-- `create_thread`, with the key and the nonce that it draws. -/
def createThread (s : State) (threadId : String) (level : Level)
    (authorizedPrincipals : List String) (ttlSeconds : ℤ) (now : PyFloat) (dek : Bytes)
    (nonce : Nonce) : Except Error Metadata × State :=
  if !validThreadId threadId then
    (.error (.value "thread_id must be 1..128 safe characters ([A-Za-z0-9._-])"), s)
  else if level ≠ .sensitive then
    (.error (.value "create_thread: level must be Level.SENSITIVE"), s)
  else
    let cleaned := cleanedPrincipals authorizedPrincipals
    if cleaned = [] ∨ ¬ (0 < ttlSeconds ∧ ttlSeconds ≤ cfg.maxTtlSeconds) then
      (.error (.value
        "create_thread: valid authorized_principals and ttl_seconds are required"), s)
    else if !cfg.isEnabled then (.error (.unavailable "flag-disabled"), s)
    else if isShredded s threadId then
      (.error (.shredded ("thread " ++ threadId ++ " has been crypto-shredded")), s)
    else if (s.metas.get? threadId).isSome ∨ (s.chunks threadId).isSome then
      (.error (.value ("create_thread: thread " ++ threadId ++ " already exists")), s)
    else
      match rt.floatOfInt ttlSeconds with
      | none => (.error (.value "int too large to convert to float"), s)
      | some ttl =>
        let expiresAt := PyFloat.add rt.rounding now ttl
        match wrapKey rt cfg.provider dek nonce (wrapContext threadId expiresAt) with
        | .error reason => (.error (.unavailable reason), s)
        | .ok (wrapped, wrap) =>
          let s' := writeThread rt s threadId
            (payload threadId ⟨level, now, expiresAt, sortedSet cleaned, wrapped⟩) wrap
          (loadMetadata rt s' threadId, s')

def unwrapThreadDek (s : State) (threadId : String) (md : Metadata) : Except Error Bytes :=
  match unwrapKey cfg.provider s.wraps md.wrappedDek (wrapContext threadId md.expiresAt) with
  | .error reason => .error (.unavailable reason)
  | .ok dek => .ok dek

def openThread (s : State) (threadId : String) (md : Metadata) (dek : Bytes) (text : String) :
    Thread where
  threadId := threadId
  enabled := cfg.isEnabled
  shredded := isShredded s threadId
  metaFile := .valid md.base
  unavailable := none
  chunks := some text
  boxes := s.boxes dek

/-- What an append has changed. -/
def storeThread (s : State) (threadId : String) (dek : Bytes) (th : Thread) : State :=
  { s with
    chunks := Function.update s.chunks threadId th.chunks
    boxes := Function.update s.boxes dek th.boxes }

def appendChunk (s : State) (threadId : String) (plaintext : Bytes) (nonce : Nonce)
    (now : PyFloat) : Except Error ℕ × State :=
  if !validThreadId threadId then
    (.error (.value "thread_id must be 1..128 safe characters ([A-Za-z0-9._-])"), s)
  else if plaintext = [] then
    (.error (.value "append_chunk: plaintext must be non-empty bytes"), s)
  else if !cfg.isEnabled then (.error (.unavailable "flag-disabled"), s)
  else
    match loadMetadata rt s threadId with
    | .error e => (.error e, s)
    | .ok md =>
      if md.expiresAt.le now then (.error (.expired ("thread " ++ threadId ++ " expired")), s)
      else
        match s.chunks threadId with
        | none => (.error (.integrity ("missing chunk stream for thread " ++ threadId)), s)
        | some text =>
          let seq := countChunks text
          match unwrapThreadDek cfg s threadId md with
          | .error e => (.error e, s)
          | .ok dek =>
            (.ok seq, storeThread s threadId dek (writeChunk (rt.cipher dek)
              (openThread cfg s threadId md dek text) md.base text seq nonce plaintext))

def readChunks (s : State) (threadId principal : String) (now : PyFloat) :
    Except Error (List Bytes) :=
  if !validThreadId threadId then
    .error (.value "thread_id must be 1..128 safe characters ([A-Za-z0-9._-])")
  else if Py.strip principal = "" then
    .error (.value "read_chunks: principal must be a non-empty string")
  else if !cfg.isEnabled then .error (.unavailable "flag-disabled")
  else
    match loadMetadata rt s threadId with
    | .error e => .error e
    | .ok md =>
      if !allowed cfg.authorizer threadId (Py.strip principal) md.base then
        .error (.authz ("principal not authorized for thread " ++ threadId))
      else if md.expiresAt.le now then .error (.expired ("thread " ++ threadId ++ " expired"))
      else
        match unwrapThreadDek cfg s threadId md with
        | .error e => .error e
        | .ok dek =>
          match s.chunks threadId with
          | none => .error (.integrity ("missing chunk stream for thread " ++ threadId))
          | some text =>
            readLines (rt.cipher dek) (openThread cfg s threadId md dek text) md.base 0
              (linesOf text)

/-! ### File operations -/

/-- An operation on the files.  A file that is written is emptied first. -/
inductive FileOp
  | appendTombstone (tombstone : Tombstone)
  | writeMeta (threadId : String) (zeros : ℕ)
  | unlinkMeta (threadId : String)
  | writeChunks (threadId : String) (zeros : ℕ)
  | unlinkChunks (threadId : String)

/-- What an operation does. -/
def FileOp.apply (s : State) : FileOp → State
  | .appendTombstone t => { s with tombstones := s.tombstones ++ [t] }
  | .writeMeta threadId n => { s with metas := s.metas.put threadId (.zeros n) }
  | .unlinkMeta threadId => { s with metas := s.metas.delete fun k _ => k = threadId }
  | .writeChunks threadId n =>
    { s with
      chunks := Function.update s.chunks threadId
        (some (String.ofList (List.replicate n (Char.ofNat 0)))) }
  | .unlinkChunks threadId => { s with chunks := Function.update s.chunks threadId none }

/-- Operations, one after the other. -/
def runOps (s : State) (ops : List FileOp) : State := ops.foldl FileOp.apply s

/-- The operations on the metadata file in `crypto_shred`. -/
def metaOps (s : State) (threadId : String) : List FileOp :=
  match s.metas.get? threadId with
  | none => []
  | some file =>
    (if 0 < file.size then [.writeMeta threadId 0, .writeMeta threadId file.size] else []) ++
      [.unlinkMeta threadId]

/-- The operations on the chunk file in `crypto_shred`. -/
def chunkOps (s : State) (threadId : String) : List FileOp :=
  match s.chunks threadId with
  | none => []
  | some text =>
    (if 0 < text.utf8ByteSize then
      [.writeChunks threadId 0, .writeChunks threadId text.utf8ByteSize] else []) ++
      [.unlinkChunks threadId]

/-- The operations of `crypto_shred`. -/
def shredOps (s : State) (threadId reason : String) (now : PyFloat) : List FileOp :=
  (if isShredded s threadId then [] else [.appendTombstone ⟨threadId, now, Py.strip reason⟩]) ++
    (metaOps s threadId ++ chunkOps s threadId)

/-- `crypto_shred`: its operations, or what it raises. -/
def cryptoShred (s : State) (threadId reason : String) (now : PyFloat) :
    Except Error (List FileOp) :=
  if !validThreadId threadId then
    .error (.value "thread_id must be 1..128 safe characters ([A-Za-z0-9._-])")
  else if Py.strip reason = "" then
    .error (.value "crypto_shred: reason must be a non-empty string")
  else .ok (shredOps s threadId reason now)

def metaName (threadId : String) : String := threadId ++ ".meta.json"

/-- The threads of `sorted(self._store_dir.glob("*.meta.json"))`. -/
def metaThreads (s : State) : List String :=
  (s.metas.rows.map Prod.fst).mergeSort fun i j => metaName i ≤ metaName j

/-- The loop of `purge_expired`: its operations, and the purged threads or what it raises. -/
def purgeLoop (now : PyFloat) : List String → State → List FileOp × Except Error (List String)
  | [], _ => ([], .ok [])
  | threadId :: threadIds, s =>
    if isShredded s threadId then purgeLoop now threadIds s
    else
      match loadMetadata rt s threadId with
      | .error e => ([], .error e)
      | .ok md =>
        if !md.expiresAt.le now then purgeLoop now threadIds s
        else
          match cryptoShred s threadId "ttl-expired" now with
          | .error e => ([], .error e)
          | .ok ops =>
            let rest := purgeLoop now threadIds (runOps s ops)
            (ops ++ rest.1, rest.2.map (threadId :: ·))

def purgeExpired (s : State) (now : PyFloat) : List FileOp × Except Error (List String) :=
  if !cfg.isEnabled then ([], .error (.unavailable "flag-disabled"))
  else purgeLoop rt now (metaThreads s) s

end Code

/-! ### What was written is read -/

theorem ofName?_name (level : Level) : Level.ofName? level.name = some level := by
  cases level <;> rfl

theorem ofParts_self (wrapped : WrappedKey) :
    WrappedKey.ofParts wrapped.version wrapped.backend wrapped.nonce wrapped.ciphertext
      = some wrapped :=
  dif_pos ⟨wrapped.hbackend, wrapped.hnonce, wrapped.hciphertext⟩

/-- **What was written is read.** -/
theorem parseMetadata_payload (rt : Runtime) (threadId : String) {md : Metadata}
    (hprincipals : md.authorizedPrincipals ≠ [])
    (hnamed : ∀ p ∈ md.authorizedPrincipals, Py.strip p ≠ "") :
    parseMetadata rt threadId (payload threadId md) = some md := by
  have hmap : (md.authorizedPrincipals.map Value.str).map rt.pyStr = md.authorizedPrincipals := by
    rw [List.map_map]
    exact List.map_id' _
  have hfilter : md.authorizedPrincipals.filter (fun p => Py.strip p ≠ "")
      = md.authorizedPrincipals :=
    List.filter_eq_self.mpr fun p hp => decide_eq_true (hnamed p hp)
  have hwrapped : parseWrapped rt (payload threadId md) = some md.wrappedDek := by
    simp [parseWrapped, payload, Value.get, List.lookup_cons, pyInt, Runtime.pyStr,
      pyFromHex, fromHex_toHex, ofParts_self]
  have hparsed : parsePrincipals rt (payload threadId md) = some md.authorizedPrincipals := by
    have hget : (payload threadId md).get "authorized_principals"
        = some (.arr (md.authorizedPrincipals.map .str)) := by
      simp [payload, Value.get, List.lookup_cons]
    rw [parsePrincipals, hget, Option.bind_some, Value.iter, Option.bind_eq_bind, Option.bind_some,
      hmap, hfilter]
  rw [parseMetadata, hwrapped, hparsed]
  simp [payload, Value.get, List.lookup_cons, pyInt, Runtime.pyStr, Runtime.pyFloat,
    ofName?_name, Value.isText, hprincipals]

theorem strip_of_parsePrincipals {rt : Runtime} {raw : Value} {principals : List String}
    (h : parsePrincipals rt raw = some principals) : ∀ p ∈ principals, Py.strip p ≠ "" := by
  obtain ⟨items, -, h⟩ := Option.bind_eq_some_iff.mp h
  rw [← Option.some.inj h]
  intro p hp
  simpa using (List.mem_filter.mp hp).2

theorem strip_of_parseMetadata {rt : Runtime} {threadId : String} {raw : Value} {md : Metadata}
    (h : parseMetadata rt threadId raw = some md) :
    ∀ p ∈ md.authorizedPrincipals, Py.strip p ≠ "" := by
  obtain ⟨wrapped, -, h⟩ := Option.bind_eq_some_iff.mp h
  obtain ⟨level, -, h⟩ := Option.bind_eq_some_iff.mp h
  obtain ⟨principals, hprincipals, h⟩ := Option.bind_eq_some_iff.mp h
  obtain ⟨version, -, h⟩ := Option.bind_eq_some_iff.mp h
  obtain ⟨name, -, h⟩ := Option.bind_eq_some_iff.mp h
  split at h
  · cases h
  · obtain ⟨created, -, h⟩ := Option.bind_eq_some_iff.mp h
    obtain ⟨expires, -, h⟩ := Option.bind_eq_some_iff.mp h
    rw [← Option.some.inj h]
    exact strip_of_parsePrincipals hprincipals

theorem mem_cleanedPrincipals_iff {principals : List String} {p : String} :
    p ∈ cleanedPrincipals principals ↔ p ≠ "" ∧ ∃ q ∈ principals, Py.strip q = p := by
  simp [cleanedPrincipals, and_comm]

theorem mem_sortedSet_iff {principals : List String} {p : String} :
    p ∈ sortedSet principals ↔ p ∈ principals := by
  simp [sortedSet]

theorem sortedSet_ne_nil {principals : List String} (h : principals ≠ []) :
    sortedSet principals ≠ [] := by
  obtain ⟨p, hp⟩ := List.exists_mem_of_ne_nil principals h
  exact List.ne_nil_of_mem (mem_sortedSet_iff.mpr hp)

theorem strip_of_mem_cleaned {principals : List String} {p : String}
    (h : p ∈ sortedSet (cleanedPrincipals principals)) : Py.strip p ≠ "" := by
  obtain ⟨hne, q, -, rfl⟩ := mem_cleanedPrincipals_iff.mp (mem_sortedSet_iff.mp h)
  rwa [Py.strip_strip]

/-! ### What a wrapped key is bound to -/

theorem colon_not_mem {threadId : String} (h : validThreadId threadId = true) :
    ':' ∉ threadId.toList := by
  intro hcolon
  unfold validThreadId at h
  dsimp only at h
  have hmem : ':' ∈ if threadId.toList.getLast? = some '\n' then threadId.toList.dropLast
      else threadId.toList := by
    split
    · next hlast =>
      have hsplit := List.dropLast_append_getLast? '\n' hlast
      rw [← hsplit] at hcolon
      rcases List.mem_append.mp hcolon with hmem | hmem
      · exact hmem
      · cases List.mem_singleton.mp hmem
    · exact hcolon
  generalize (if threadId.toList.getLast? = some '\n' then threadId.toList.dropLast
    else threadId.toList) = l at h hmem
  cases l with
  | nil => cases hmem
  | cons c cs =>
    simp only [Bool.and_eq_true, List.all_eq_true] at h
    rcases List.mem_cons.mp hmem with rfl | hmem
    · exact absurd h.1.1 (by decide)
    · exact absurd (h.2 ':' hmem) (by decide)

theorem wrapAad_injective (version : ℤ) (backend : String) :
    Function.Injective (wrapAad version backend) := by
  intro context other h
  exact String.append_right_inj _ |>.mp h

/-- **A wrapped key is bound to its thread.** -/
theorem wrapContext_threadId {threadId other : String} {e e' : PyFloat}
    (hvalid : validThreadId threadId = true) (hother : validThreadId other = true)
    (h : wrapContext threadId e = wrapContext other e') : threadId = other := by
  have htake : ∀ {l rest : List Char}, ':' ∉ l →
      (l ++ ':' :: rest).takeWhile (· ≠ ':') = l := by
    intro l rest hl
    rw [List.takeWhile_append_of_pos fun c hc => by
      simpa using fun heq : c = ':' => hl (heq ▸ hc)]
    simp
  have hlists := congrArg String.toList h
  simp only [wrapContext, String.toList_append, List.append_assoc, List.append_cancel_left_eq]
    at hlists
  have hids := congrArg (List.takeWhile (· ≠ ':')) hlists
  have hmarker : ":exp:".toList = ':' :: "exp:".toList := rfl
  rw [hmarker, List.cons_append, List.cons_append, htake (colon_not_mem hvalid),
    htake (colon_not_mem hother)] at hids
  exact String.toList_inj.mp hids

/-! ### What the operations do -/

section Cases

variable {rt : Runtime} {cfg : Config} {s : State} {threadId : String}

/-- A thread is made, with the metadata `md` and the wrapping `wrap` of its key. -/
structure Made (rt : Runtime) (cfg : Config) (s : State) (threadId : String)
    (principals : List String) (ttlSeconds : ℤ) (now : PyFloat) (dek : Bytes) (md : Metadata)
    (wrap : Wrap) : Prop where
  valid : validThreadId threadId = true
  unshredded : isShredded s threadId = false
  noMeta : s.metas.get? threadId = none
  noChunks : s.chunks threadId = none
  enabled : cfg.isEnabled = true
  kek : cfg.provider.kekFailure = none
  level : md.level = .sensitive
  named : cleanedPrincipals principals ≠ []
  principals : md.authorizedPrincipals = sortedSet (cleanedPrincipals principals)
  expires : ∃ ttl, rt.floatOfInt ttlSeconds = some ttl ∧
    md.expiresAt = PyFloat.add rt.rounding now ttl
  version : md.wrappedDek.version = envelopeVersion
  backend : md.wrappedDek.backend = cfg.provider.backend
  wrap : wrap = ⟨md.wrappedDek.nonce, md.wrappedDek.ciphertext,
    wrapAad envelopeVersion cfg.provider.backend (wrapContext threadId md.expiresAt), dek⟩

theorem Made.parse {principals : List String} {ttlSeconds : ℤ} {now : PyFloat} {dek : Bytes}
    {md : Metadata} {wrap : Wrap}
    (h : Made rt cfg s threadId principals ttlSeconds now dek md wrap) :
    parseMetadata rt threadId (payload threadId md) = some md := by
  apply parseMetadata_payload
  · rw [h.principals]
    exact sortedSet_ne_nil h.named
  · intro p hp
    rw [h.principals] at hp
    exact strip_of_mem_cleaned hp

theorem loadMetadata_writeThread {value : Value} {wrap : Wrap} {md : Metadata}
    (hunshredded : isShredded s threadId = false)
    (hparse : parseMetadata rt threadId value = some md) :
    loadMetadata rt (writeThread rt s threadId value wrap) threadId = .ok md := by
  unfold loadMetadata
  rw [if_neg (by simpa [writeThread, isShredded] using hunshredded)]
  simp [writeThread, hparse]

theorem wrapKey_eq_ok {provider : Provider} {dek : Bytes} {nonce : Nonce} {context : String}
    {wrapped : WrappedKey} {wrap : Wrap}
    (h : wrapKey rt provider dek nonce context = .ok (wrapped, wrap)) :
    provider.kekFailure = none ∧ wrapped.version = envelopeVersion ∧
      wrapped.backend = provider.backend ∧ wrap = ⟨wrapped.nonce, wrapped.ciphertext,
        wrapAad envelopeVersion provider.backend context, dek⟩ := by
  unfold wrapKey at h
  split at h
  · cases h
  · split at h
    · cases h
    · next hkek =>
      cases h
      exact ⟨hkek, rfl, rfl, rfl⟩

/-- **What `create_thread` does.** -/
theorem createThread_cases (rt : Runtime) (cfg : Config) (s : State) (threadId : String)
    (level : Level) (principals : List String) (ttlSeconds : ℤ) (now : PyFloat) (dek : Bytes)
    (nonce : Nonce) :
    (∃ e, createThread rt cfg s threadId level principals ttlSeconds now dek nonce
        = (.error e, s)) ∨
      ∃ md wrap, Made rt cfg s threadId principals ttlSeconds now dek md wrap ∧
        createThread rt cfg s threadId level principals ttlSeconds now dek nonce
          = (.ok md, writeThread rt s threadId (payload threadId md) wrap) := by
  unfold createThread
  dsimp only
  split
  · exact .inl ⟨_, rfl⟩
  next hvalid =>
  split
  · exact .inl ⟨_, rfl⟩
  next hlevel =>
  split
  · exact .inl ⟨_, rfl⟩
  next hargs =>
  split
  · exact .inl ⟨_, rfl⟩
  next henabled =>
  split
  · exact .inl ⟨_, rfl⟩
  next hunshredded =>
  split
  · exact .inl ⟨_, rfl⟩
  next hfiles =>
  split
  · exact .inl ⟨_, rfl⟩
  next ttl httl =>
  split
  · exact .inl ⟨_, rfl⟩
  next wrapped wrap hwrap =>
  obtain ⟨hkek, hversion, hbackend, hwrap⟩ := wrapKey_eq_ok hwrap
  obtain ⟨hnoMeta, hnoChunks⟩ := not_or.mp hfiles
  have hmade : Made rt cfg s threadId principals ttlSeconds now dek
      ⟨level, now, PyFloat.add rt.rounding now ttl, sortedSet (cleanedPrincipals principals),
        wrapped⟩ wrap :=
    { valid := by simpa using hvalid
      unshredded := by simpa using hunshredded
      noMeta := Option.not_isSome_iff_eq_none.mp hnoMeta
      noChunks := Option.not_isSome_iff_eq_none.mp hnoChunks
      enabled := by simpa using henabled
      kek := hkek
      level := not_ne_iff.mp hlevel
      named := (not_or.mp hargs).1
      principals := rfl
      expires := ⟨ttl, httl, rfl⟩
      version := hversion
      backend := hbackend
      wrap := hwrap }
  refine .inr ⟨_, wrap, hmade, Prod.ext ?_ rfl⟩
  exact loadMetadata_writeThread hmade.unshredded hmade.parse

/-- **What `append_chunk` does.** -/
theorem appendChunk_cases (rt : Runtime) (cfg : Config) (s : State) (threadId : String)
    (plaintext : Bytes) (nonce : Nonce) (now : PyFloat) :
    (∃ e, appendChunk rt cfg s threadId plaintext nonce now = (.error e, s)) ∨
      ∃ md text dek, validThreadId threadId = true ∧ loadMetadata rt s threadId = .ok md ∧
        s.chunks threadId = some text ∧ unwrapThreadDek cfg s threadId md = .ok dek ∧
        appendChunk rt cfg s threadId plaintext nonce now = (.ok (countChunks text),
          storeThread s threadId dek (writeChunk (rt.cipher dek)
            (openThread cfg s threadId md dek text) md.base text (countChunks text) nonce
            plaintext)) := by
  unfold appendChunk
  dsimp only
  split
  · exact .inl ⟨_, rfl⟩
  next hvalid =>
  split
  · exact .inl ⟨_, rfl⟩
  split
  · exact .inl ⟨_, rfl⟩
  split
  · exact .inl ⟨_, rfl⟩
  next md hload =>
  split
  · exact .inl ⟨_, rfl⟩
  split
  · exact .inl ⟨_, rfl⟩
  next text htext =>
  split
  · exact .inl ⟨_, rfl⟩
  next dek hdek => exact .inr ⟨md, text, dek, by simpa using hvalid, hload, htext, hdek, rfl⟩

theorem unwrapKey_eq_ok {provider : Provider} {wraps : List Wrap} {wrapped : WrappedKey}
    {context : String} {dek : Bytes} (h : unwrapKey provider wraps wrapped context = .ok dek) :
    wrapped.version = envelopeVersion ∧ wrapped.backend = provider.backend ∧
      ∃ w ∈ wraps, w.nonce = wrapped.nonce ∧ w.ciphertext = wrapped.ciphertext ∧
        w.aad = wrapAad envelopeVersion provider.backend context ∧ w.dek = dek := by
  unfold unwrapKey at h
  split at h
  · cases h
  split at h
  · cases h
  next hbackend =>
  split at h
  · cases h
  next hversion =>
  split at h
  · cases h
  split at h
  · cases h
  next w hfind =>
  split at h
  · cases h
  have hw := List.find?_some hfind
  simp only [Bool.and_eq_true, decide_eq_true_eq] at hw
  rw [not_ne_iff.mp hbackend, not_ne_iff.mp hversion] at hw
  exact ⟨not_ne_iff.mp hversion, not_ne_iff.mp hbackend, w, List.mem_of_find?_eq_some hfind,
    hw.1, hw.2.1, hw.2.2, Except.ok.inj h⟩

theorem unwrapThreadDek_eq_ok_iff {md : Metadata} {dek : Bytes} :
    unwrapThreadDek cfg s threadId md = .ok dek ↔
      unwrapKey cfg.provider s.wraps md.wrappedDek (wrapContext threadId md.expiresAt) =
        .ok dek := by
  unfold unwrapThreadDek
  split
  · next heq => simp [heq]
  · next heq => simp [heq]

theorem loadMetadata_eq_ok_iff {md : Metadata} :
    loadMetadata rt s threadId = .ok md ↔ isShredded s threadId = false ∧
      ∃ file, s.metas.get? threadId = some file ∧
        file.value.bind (parseMetadata rt threadId) = some md := by
  unfold loadMetadata
  constructor
  · intro h
    split at h
    · cases h
    next hunshredded =>
    split at h
    · cases h
    next file hfile =>
    split at h
    · cases h
    next hparse =>
    exact ⟨by simpa using hunshredded, file, hfile, hparse.trans (congrArg some (Except.ok.inj h))⟩
  · rintro ⟨hunshredded, file, hfile, hparse⟩
    rw [if_neg (by simp [hunshredded]), hfile]
    dsimp only
    rw [hparse]

/-- **What `read_chunks` needs.** -/
theorem readChunks_eq_ok_iff {principal : String} {now : PyFloat} {out : List Bytes} :
    readChunks rt cfg s threadId principal now = .ok out ↔
      (validThreadId threadId = true ∧ Py.strip principal ≠ "" ∧ cfg.isEnabled = true) ∧
      ∃ md dek text, loadMetadata rt s threadId = .ok md ∧
        allowed cfg.authorizer threadId (Py.strip principal) md.base = true ∧
        md.expiresAt.le now = false ∧ unwrapThreadDek cfg s threadId md = .ok dek ∧
        s.chunks threadId = some text ∧
        readLines (rt.cipher dek) (openThread cfg s threadId md dek text) md.base 0 (linesOf text)
          = .ok out := by
  unfold readChunks
  constructor
  · intro h
    split at h
    · cases h
    next hvalid =>
    split at h
    · cases h
    next hnamed =>
    split at h
    · cases h
    next henabled =>
    split at h
    · cases h
    next md hload =>
    split at h
    · cases h
    next hallowed =>
    split at h
    · cases h
    next hlive =>
    split at h
    · cases h
    next dek hdek =>
    split at h
    · cases h
    next text htext =>
    exact ⟨⟨by simpa using hvalid, hnamed, by simpa using henabled⟩, md, dek, text, hload,
      by simpa using hallowed, by simpa using hlive, hdek, htext, h⟩
  · rintro ⟨⟨hvalid, hnamed, henabled⟩, md, dek, text, hload, hallowed, hlive, hdek, htext, hread⟩
    rw [hvalid, henabled, hload]
    dsimp only
    rw [hallowed, hlive, hdek, htext]
    simp [hnamed, hread]

end Cases

end TranscriptStore
