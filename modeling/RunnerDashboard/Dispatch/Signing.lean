import RunnerDashboard.Lib.Json
import RunnerDashboard.Lib.PyStr

/-!
# The signing of dispatch envelopes

The signature of an envelope is a MAC over the canonical text of twelve of its fields, followed by
the hash of its payload.  An approval has a MAC of its own, over the identifier of the envelope and
the action.

## Main results

* `signEnvelopePayload_inj` — **the signature tells the fields and the payload**.
-/

namespace Envelope

/-- The parts of the standard library that the signing uses, and how the process is configured. -/
structure Env where
  /-- `hmac.new(secret, message, sha256).hexdigest()`. -/
  hmac : String → String → String
  /-- `hashlib.sha256(text).hexdigest()`. -/
  sha256 : String → String
  /-- `repr` of a list or a dictionary. -/
  repr : Json → String
  /-- `int` of a string. -/
  intOf : String → Option Int
  /-- `datetime.fromisoformat`: the instant in microseconds, in UTC unless there is an offset. -/
  fromisoformat : String → Option Int
  signingSecret : String
  approvalSecret : String
  /-- `DISPATCH_ALLOW_UNSIGNED_APPROVAL`. -/
  allowUnsignedApproval : Bool

/-- Different texts have different hashes, and different MACs under one secret. -/
structure Env.Ideal (E : Env) : Prop where
  hmac_injective : ∀ secret, Function.Injective (E.hmac secret)
  sha256_injective : Function.Injective E.sha256

structure SignedFields where
  action : String
  source : String
  target : String
  requestedBy : String
  issuedAt : String
  envelopeVersion : Int
  principal : String
  onBehalfOf : String
  correlationId : String
  envelopeId : String
  reason : String
  schemaVersion : String
  deriving DecidableEq

/-- The dictionary of `_build_canonical_json`. -/
def canonicalFields (f : SignedFields) : List (String × Json) :=
  [("action", .str f.action), ("source", .str f.source), ("target", .str f.target),
    ("requested_by", .str f.requestedBy), ("issued_at", .str f.issuedAt),
    ("envelope_version", .num f.envelopeVersion), ("principal", .str f.principal),
    ("on_behalf_of", .str f.onBehalfOf), ("correlation_id", .str f.correlationId),
    ("envelope_id", .str f.envelopeId), ("reason", .str f.reason),
    ("schema_version", .str f.schemaVersion)]

def buildCanonicalJson (f : SignedFields) : String :=
  (Json.obj (canonicalFields f)).sortKeys.dumpsCompact

inductive TimestampValidationResult
  | valid
  | tooOld
  | tooNew
  | invalidFormat
  deriving DecidableEq

section Code

variable (E : Env)

def hashPayload (payload : List (String × Json)) : String :=
  E.sha256 (Json.obj payload).sortKeys.dumpsCompact

def signPayload (canonicalJson secret : String) : String := E.hmac secret canonicalJson

def signEnvelopePayload (f : SignedFields) (secret payloadHash : String) : String :=
  let canonical := buildCanonicalJson f
  let canonical := if payloadHash ≠ "" then canonical ++ payloadHash else canonical
  signPayload E canonical secret

def verifyEnvelopeSignature (f : SignedFields) (signature secret payloadHash : String) : Bool :=
  signEnvelopePayload E f secret payloadHash = signature

def computeApprovalHmac (envelopeId action secret : String) : String :=
  E.hmac secret ("approve:" ++ envelopeId ++ ":" ++ action)

/-- `verify_approval_hmac`, of the `approval_hmac` of a confirmation. -/
def verifyApprovalHmac (storedHmac envelopeId action : String) : Bool :=
  let secret := E.approvalSecret
  if storedHmac = "" then
    if secret = "" then false else E.allowUnsignedApproval
  else if secret = "" then false
  else storedHmac = computeApprovalHmac E envelopeId action secret

/-- `timestamp_str.replace("Z", "+00:00")`. -/
def replaceZ (s : String) : String :=
  String.ofList (s.toList.flatMap fun c => if c = 'Z' then "+00:00".toList else [c])

/-- `validate_timestamp_freshness`, at the time `now` in microseconds. -/
def validateTimestampFreshness (now : Int) (timestampStr : String) (ttlSeconds : Int) :
    TimestampValidationResult :=
  let text :=
    if timestampStr.toList.getLast? = some 'Z' then replaceZ timestampStr else timestampStr
  match E.fromisoformat text with
  | none => .invalidFormat
  | some ts =>
    if ttlSeconds * 1000000 < |now - ts| then (if ts < now then .tooOld else .tooNew) else .valid

end Code

/-! ### What a signature tells -/

theorem nodup_canonicalFields (f : SignedFields) : ((canonicalFields f).map Prod.fst).Nodup := by
  simp [canonicalFields]

theorem sortKeys_canonicalFields_inj {f f' : SignedFields}
    (h : (Json.obj (canonicalFields f)).sortKeys = (Json.obj (canonicalFields f')).sortKeys) :
    f = f' := by
  have hfield : ∀ k, ((Json.obj (canonicalFields f)).field? k).map Json.sortKeys
      = ((Json.obj (canonicalFields f')).field? k).map Json.sortKeys := by
    intro k
    rw [← Json.field?_sortKeys (nodup_canonicalFields f), h,
      Json.field?_sortKeys (nodup_canonicalFields f')]
  have haction := hfield "action"
  have hsource := hfield "source"
  have htarget := hfield "target"
  have hrequested := hfield "requested_by"
  have hissued := hfield "issued_at"
  have hversion := hfield "envelope_version"
  have hprincipal := hfield "principal"
  have hbehalf := hfield "on_behalf_of"
  have hcorrelation := hfield "correlation_id"
  have hid := hfield "envelope_id"
  have hreason := hfield "reason"
  have hschema := hfield "schema_version"
  simp [Json.field?, canonicalFields, List.lookup_cons, Json.sortKeys] at *
  cases f
  cases f'
  simp_all

theorem exists_sortKeys_canonicalFields (f : SignedFields) :
    ∃ x xs, (Json.obj (canonicalFields f)).sortKeys = .obj (x :: xs) := by
  rw [Json.sortKeys]
  have hlength : ((Json.sortKeysFields (canonicalFields f)).mergeSort fun a b => a.1 ≤ b.1).length
      = 12 := by
    rw [List.length_mergeSort]
    rfl
  cases hl : (Json.sortKeysFields (canonicalFields f)).mergeSort fun a b => a.1 ≤ b.1 with
  | nil => simp [hl] at hlength
  | cons x xs => exact ⟨x, xs, rfl⟩

theorem head?_buildCanonicalJson (f : SignedFields) :
    (buildCanonicalJson f).toList.head? = some '{' := by
  obtain ⟨⟨k, v⟩, xs, hx⟩ := exists_sortKeys_canonicalFields f
  simp [buildCanonicalJson, Json.dumpsCompact, hx, Json.render]

/-- **The canonical text tells the fields, whatever follows it.** -/
theorem buildCanonicalJson_append_inj {f f' : SignedFields} {s s' : String}
    (h : buildCanonicalJson f ++ s = buildCanonicalJson f' ++ s') : f = f' ∧ s = s' := by
  obtain ⟨x, xs, hx⟩ := exists_sortKeys_canonicalFields f
  obtain ⟨x', xs', hx'⟩ := exists_sortKeys_canonicalFields f'
  have hchars := congrArg String.toList h
  simp only [buildCanonicalJson, Json.dumpsCompact, String.toList_append, String.toList_ofList, hx,
    hx'] at hchars
  obtain ⟨hfields, hrest⟩ := Json.render_obj_append_inj hchars
  refine ⟨sortKeys_canonicalFields_inj ?_, String.toList_injective hrest⟩
  rw [hx, hx', hfields]

/-- A payload hash that is empty is appended just as well. -/
theorem signEnvelopePayload_eq (E : Env) (f : SignedFields) (secret payloadHash : String) :
    signEnvelopePayload E f secret payloadHash
      = E.hmac secret (buildCanonicalJson f ++ payloadHash) := by
  unfold signEnvelopePayload
  dsimp only
  split
  · rfl
  · rename_i hs
    rw [not_ne_iff.mp hs, String.append_empty]
    rfl

/-- **The signature tells the fields and, but for the order of keys, the payload.** -/
theorem signEnvelopePayload_inj {E : Env} (hE : E.Ideal) {f f' : SignedFields} {secret : String}
    {payload payload' : List (String × Json)}
    (h : signEnvelopePayload E f secret (hashPayload E payload)
      = signEnvelopePayload E f' secret (hashPayload E payload')) :
    f = f' ∧ (Json.obj payload).sortKeys = (Json.obj payload').sortKeys := by
  rw [signEnvelopePayload_eq, signEnvelopePayload_eq] at h
  have htext := hE.hmac_injective secret h
  obtain ⟨hf, hhash⟩ := buildCanonicalJson_append_inj htext
  exact ⟨hf, Json.dumpsCompact_injective (hE.sha256_injective hhash)⟩

end Envelope
