import RunnerDashboard.Dispatch.Signing

/-!
# Dispatch envelopes

An envelope is read from a body, and is accepted if its signature, its times and the MAC of its
approval are right.  The fields of the envelope are under the signature, directly or in the payload.
 Who approved it, and when, are under no MAC: the MAC of the approval is over the envelope and the
 action alone.

## Main results

* `unaltered_iff` — **another accepted body with the same signature has the same fields exactly if
  the body carries no confirmation and its `pr_lifecycle` does not depend on the order of keys**.
-/

namespace Envelope

structure DispatchConfirmation where
  approvedBy : String
  approvedAt : String
  envelopeId : String := ""
  approvalHmac : String := ""
  note : String := ""
  deriving DecidableEq

/-- `CommandEnvelope`, as the reader fills it. -/
structure CommandEnvelope where
  action : String
  source : String
  target : String
  requestedBy : String
  reason : String
  payload : List (String × Json)
  confirmation : Option DispatchConfirmation
  envelopeId : String
  schemaVersion : String
  envelopeVersion : Int
  issuedAt : String
  signature : String
  principal : String
  onBehalfOf : String
  correlationId : String
  signatureAuthentic : Bool
  prLifecycle : String
  effort : String

structure CryptoValidationResult where
  valid : Bool
  reason : String
  deriving DecidableEq

/-- What a request finds: a new identifier, the time as text and the time in microseconds. -/
structure Moment where
  uuid : String
  nowIso : String
  now : Int

/-- `SCHEMA_VERSION`, the one of `SUPPORTED_SCHEMA_VERSIONS`. -/
def schemaVersion : String := "dispatch-envelope.v2"

def envelopeVersion : Int := 1

def effortLevels : List String := ["low", "medium", "high"]

mutual

/-- The value with a number in place of every boolean, as `==` sees it. -/
def numeric : Json → Json
  | .bool b => .num (if b then 1 else 0)
  | .arr vs => .arr (numericItems vs)
  | .obj fs => .obj (numericFields fs)
  | v => v

/-- `numeric` for the items of a list. -/
def numericItems : List Json → List Json
  | [] => []
  | v :: vs => numeric v :: numericItems vs

/-- `numeric` for the values of a dictionary. -/
def numericFields : List (String × Json) → List (String × Json)
  | [] => []
  | (k, v) :: fs => (k, numeric v) :: numericFields fs

end

/-- `==`: `True` is `1`, and the order of keys does not matter. -/
def pyEq (v w : Json) : Bool :=
  (numeric v).sortKeys.dumpsCompact = (numeric w).sortKeys.dumpsCompact

section Code

variable (E : Env)

/-- `str(v)`. -/
def pyStr : Json → String
  | .str s => s
  | .null => "None"
  | .bool b => if b then "True" else "False"
  | .num n => Json.intText n
  | v => E.repr v

/-- `int(v)`. -/
def pyInt : Json → Option Int
  | .num n => some n
  | .bool b => some (if b then 1 else 0)
  | .str s => E.intOf s
  | _ => none

/-! ### Reading -/

/-- `_required_string`; `none` where it raises. -/
def requiredString (data : Json) (key : String) : Option String :=
  match data.field? key with
  | none => none
  | some .null => none
  | some value =>
    let text := pyStr E value
    if Py.strip text = "" then none else some text

/-- `str(data.get(key, default))`. -/
def getStr (data : Json) (key default : String) : String :=
  ((data.field? key).map (pyStr E)).getD default

/-- `DispatchConfirmation.from_dict`. -/
def confirmationFromDict (data : Json) : Option DispatchConfirmation := do
  let approvedBy ← requiredString E data "approved_by"
  let approvedAt ← requiredString E data "approved_at"
  some { approvedBy := approvedBy
         approvedAt := approvedAt
         envelopeId := getStr E data "envelope_id" ""
         approvalHmac := getStr E data "approval_hmac" ""
         note := match data.field? "note" with
           | none => ""
           | some .null => ""
           | some note => pyStr E note }

/-- `DispatchConfirmation.from_dict(data) if data is not None else None`. -/
def optConfirmation : Option Json → Option (Option DispatchConfirmation)
  | none => some none
  | some .null => some none
  | some data => (confirmationFromDict E data).map some

/-- `int(data.get(key, default))`. -/
def getInt (data : Json) (key : String) (default : Int) : Option Int :=
  match data.field? key with
  | none => some default
  | some v => pyInt E v

def ensureDict : Option Json → Option (List (String × Json))
  | none => some []
  | some .null => some []
  | some (.obj payload) => some payload
  | some _ => none

def validateEffort : Json → Option String
  | .str s => if s ∈ effortLevels then some s else none
  | _ => none

def signedValue (data : Json) (key : String) : Option Json :=
  match (data.field? "payload").bind fun payload => payload.field? key with
  | some .null => none
  | v => v

def signedField (data : Json) (key : String) (validate : Json → Option String)
    (default : String) : Option String :=
  match signedValue data key with
  | none => validate (.str default)
  | some signed =>
    match data.field? key with
    | none => validate signed
    | some .null => validate signed
    | some unsigned => if pyEq unsigned signed then validate signed else none

def fromDict (m : Moment) (data : Json) : Option CommandEnvelope := do
  let confirmation ← optConfirmation E (data.field? "confirmation")
  let wireSignature := getStr E data "signature" ""
  let action ← requiredString E data "action"
  let source ← requiredString E data "source"
  let target ← requiredString E data "target"
  let requestedBy ← requiredString E data "requested_by"
  let payload ← ensureDict (data.field? "payload")
  let envelopeVersion ← getInt E data "envelope_version" envelopeVersion
  let prLifecycle ← signedField data "pr_lifecycle" (fun v => some (pyStr E v)) "arm_and_exit"
  let effort ← signedField data "effort" validateEffort "medium"
  some { action := action
         source := source
         target := target
         requestedBy := requestedBy
         reason := getStr E data "reason" ""
         payload := payload
         confirmation := confirmation
         envelopeId := getStr E data "envelope_id" m.uuid
         schemaVersion := getStr E data "schema_version" schemaVersion
         envelopeVersion := envelopeVersion
         issuedAt := getStr E data "issued_at" m.nowIso
         signature := wireSignature
         principal := getStr E data "principal" ""
         onBehalfOf := getStr E data "on_behalf_of" ""
         correlationId := getStr E data "correlation_id" ""
         signatureAuthentic := wireSignature ≠ ""
         prLifecycle := prLifecycle
         effort := effort }

/-! ### Checking -/

def CommandEnvelope.signed (e : CommandEnvelope) : SignedFields where
  action := e.action
  source := e.source
  target := e.target
  requestedBy := e.requestedBy
  issuedAt := e.issuedAt
  envelopeVersion := e.envelopeVersion
  principal := e.principal
  onBehalfOf := e.onBehalfOf
  correlationId := e.correlationId
  envelopeId := e.envelopeId
  reason := e.reason
  schemaVersion := e.schemaVersion

def verifySignature (e : CommandEnvelope) : Bool :=
  e.signature ≠ "" &&
    verifyEnvelopeSignature E e.signed e.signature E.signingSecret (hashPayload E e.payload)

def staleReason (what : String) : TimestampValidationResult → String
  | .tooOld => what ++ " timestamp too old"
  | .tooNew => what ++ " timestamp in future"
  | .invalidFormat => what ++ " timestamp invalid format"
  | .valid => "unknown timestamp error"

def validateEnvelopeCrypto (m : Moment) (e : CommandEnvelope) : CryptoValidationResult :=
  if e.schemaVersion ≠ schemaVersion then ⟨false, "unsupported schema version"⟩
  else if !e.signatureAuthentic then ⟨false, "envelope signature missing"⟩
  else if e.signature = "" then ⟨false, "envelope signature missing"⟩
  else if !verifySignature E e then ⟨false, "envelope signature invalid"⟩
  else
    let issuedAtResult := validateTimestampFreshness E m.now e.issuedAt 300
    if issuedAtResult ≠ .valid then ⟨false, staleReason "envelope issued_at" issuedAtResult⟩
    else
      match e.confirmation with
      | none => ⟨true, "signature and timestamps valid"⟩
      | some confirmation =>
        let approvedAtResult := validateTimestampFreshness E m.now confirmation.approvedAt 300
        if approvedAtResult ≠ .valid then
          ⟨false, staleReason "confirmation approved_at" approvedAtResult⟩
        else if !verifyApprovalHmac E confirmation.approvalHmac e.envelopeId e.action then
          ⟨false, "confirmation approval_hmac invalid or does not match envelope"⟩
        else ⟨true, "signature and timestamps valid"⟩

/-! ### Two envelopes -/

/-- The body is read as the envelope, and the envelope is accepted. -/
structure Accepted (m : Moment) (data : Json) (e : CommandEnvelope) : Prop where
  read : fromDict E m data = some e
  valid : (validateEnvelopeCrypto E m e).valid = true

end Code

/-- The same signature, and the same MAC of the approval, if there is one. -/
structure SameMarks (e e' : CommandEnvelope) : Prop where
  signature : e.signature = e'.signature
  approvalHmac : e.confirmation.map DispatchConfirmation.approvalHmac
    = e'.confirmation.map DispatchConfirmation.approvalHmac

/-- What the dispatcher uses or records is the same; a payload is the same in any order of keys. -/
structure SameFields (e e' : CommandEnvelope) : Prop where
  action : e.action = e'.action
  source : e.source = e'.source
  target : e.target = e'.target
  requestedBy : e.requestedBy = e'.requestedBy
  reason : e.reason = e'.reason
  payload : (Json.obj e.payload).sortKeys = (Json.obj e'.payload).sortKeys
  envelopeId : e.envelopeId = e'.envelopeId
  principal : e.principal = e'.principal
  onBehalfOf : e.onBehalfOf = e'.onBehalfOf
  correlationId : e.correlationId = e'.correlationId
  prLifecycle : e.prLifecycle = e'.prLifecycle
  effort : e.effort = e'.effort
  approvedBy : e.confirmation.map DispatchConfirmation.approvedBy
    = e'.confirmation.map DispatchConfirmation.approvedBy
  approvedAt : e.confirmation.map DispatchConfirmation.approvedAt
    = e'.confirmation.map DispatchConfirmation.approvedAt

/-! ### What an envelope takes from its body -/

def resolved (payload : List (String × Json)) (key default : String) : Json :=
  match payload.lookup key with
  | none => .str default
  | some .null => .str default
  | some v => v

def confirmed (data : Json) : Bool :=
  match data.field? "confirmation" with
  | none => false
  | some .null => false
  | some _ => true

section Reading

variable {E : Env} {m : Moment} {data data' : Json} {e : CommandEnvelope}

theorem signedValue_eq {payload : List (String × Json)}
    (h : ensureDict (data.field? "payload") = some payload) (key default : String) :
    (signedValue data key).getD (.str default) = resolved payload key default := by
  unfold signedValue resolved
  rcases hp : data.field? "payload" with _ | p
  · obtain rfl : [] = payload := by simpa [hp, ensureDict] using h
    rfl
  · cases p with
    | null =>
      obtain rfl : [] = payload := by simpa [hp, ensureDict] using h
      rfl
    | obj fs =>
      obtain rfl : fs = payload := by simpa [hp, ensureDict] using h
      rw [Option.bind_some, Json.field?]
      rcases fs.lookup key with _ | v
      · rfl
      · cases v <;> rfl
    | _ => exact absurd h (by simp [hp, ensureDict])

theorem signedField_eq {payload : List (String × Json)} {key default s : String}
    {validate : Json → Option String} (h : ensureDict (data.field? "payload") = some payload)
    (hs : signedField data key validate default = some s) :
    validate (resolved payload key default) = some s := by
  rw [← signedValue_eq h]
  unfold signedField at hs
  split at hs
  · rename_i hnone
    rwa [hnone]
  · rename_i signed hsome
    rw [hsome]
    dsimp only [Option.getD_some]
    split at hs
    · exact hs
    · exact hs
    · split at hs
      · exact hs
      · exact absurd hs (by simp)

/-- What the envelope takes from the body, field by field. -/
structure Reads (E : Env) (m : Moment) (data : Json) (e : CommandEnvelope) : Prop where
  confirmation : optConfirmation E (data.field? "confirmation") = some e.confirmation
  action : requiredString E data "action" = some e.action
  source : requiredString E data "source" = some e.source
  target : requiredString E data "target" = some e.target
  requestedBy : requiredString E data "requested_by" = some e.requestedBy
  payload : ensureDict (data.field? "payload") = some e.payload
  envelopeVersion : getInt E data "envelope_version" Envelope.envelopeVersion =
    some e.envelopeVersion
  prLifecycle : signedField data "pr_lifecycle" (fun v => some (pyStr E v)) "arm_and_exit"
    = some e.prLifecycle
  effort : signedField data "effort" validateEffort "medium" = some e.effort
  reason : getStr E data "reason" "" = e.reason
  envelopeId : getStr E data "envelope_id" m.uuid = e.envelopeId
  schemaVersion : getStr E data "schema_version" Envelope.schemaVersion = e.schemaVersion
  issuedAt : getStr E data "issued_at" m.nowIso = e.issuedAt
  signature : getStr E data "signature" "" = e.signature
  principal : getStr E data "principal" "" = e.principal
  onBehalfOf : getStr E data "on_behalf_of" "" = e.onBehalfOf
  correlationId : getStr E data "correlation_id" "" = e.correlationId
  signatureAuthentic : decide (e.signature ≠ "") = e.signatureAuthentic

theorem fromDict_eq_some_iff : fromDict E m data = some e ↔ Reads E m data e := by
  simp only [fromDict, Option.bind_eq_bind, Option.bind_eq_some_iff, Option.some.injEq]
  constructor
  · rintro ⟨confirmation, hconf, action, ha, source, hs, target, ht, requestedBy, hr, payload, hp,
      version, hv, lifecycle, hl, effort, he, rfl⟩
    exact ⟨hconf, ha, hs, ht, hr, hp, hv, hl, he, rfl, rfl, rfl, rfl, rfl, rfl, rfl, rfl, rfl⟩
  · intro h
    refine ⟨_, h.confirmation, _, h.action, _, h.source, _, h.target, _, h.requestedBy,
      _, h.payload,
      _, h.envelopeVersion, _, h.prLifecycle, _, h.effort, ?_⟩
    rw [h.reason, h.envelopeId, h.schemaVersion, h.issuedAt, h.signature, h.principal, h.onBehalfOf,
      h.correlationId, h.signatureAuthentic]

theorem Reads.unconfirmed (h : Reads E m data e) (hno : confirmed data = false) :
    e.confirmation = none := by
  have hconf := h.confirmation
  unfold confirmed at hno
  split at hno
  · rename_i hnone
    simpa [hnone, optConfirmation, eq_comm] using hconf
  · rename_i hnull
    simpa [hnull, optConfirmation, eq_comm] using hconf
  · exact absurd hno (by simp)

theorem Reads.prLifecycle_eq (h : Reads E m data e) :
    e.prLifecycle = pyStr E (resolved e.payload "pr_lifecycle" "arm_and_exit") :=
  (Option.some.inj (signedField_eq h.payload h.prLifecycle)).symm

theorem Reads.effort_eq (h : Reads E m data e) :
    validateEffort (resolved e.payload "effort" "medium") = some e.effort :=
  signedField_eq h.payload h.effort

/-- Another body that differs in what is not copied as it stands. -/
theorem Reads.congr (h : Reads E m data e) {confirmation : Option DispatchConfirmation}
    {payload : List (String × Json)} {prLifecycle : String}
    (hkeys : ∀ k, k ≠ "confirmation" → k ≠ "payload" → k ≠ "pr_lifecycle" →
      data'.field? k = data.field? k)
    (hconf : optConfirmation E (data'.field? "confirmation") = some confirmation)
    (hpayload : ensureDict (data'.field? "payload") = some payload)
    (hlifecycle : signedField data' "pr_lifecycle" (fun v => some (pyStr E v)) "arm_and_exit"
      = some prLifecycle)
    (heffort : signedField data' "effort" validateEffort "medium" = some e.effort) :
    Reads E m data' { e with confirmation := confirmation, payload := payload,
                             prLifecycle := prLifecycle } := by
  have hrequired : ∀ k, k ≠ "confirmation" → k ≠ "payload" → k ≠ "pr_lifecycle" →
      requiredString E data' k = requiredString E data k := by
    intro k h₁ h₂ h₃
    rw [requiredString, requiredString, hkeys k h₁ h₂ h₃]
  have hstr : ∀ k default, k ≠ "confirmation" → k ≠ "payload" → k ≠ "pr_lifecycle" →
      getStr E data' k default = getStr E data k default := by
    intro k default h₁ h₂ h₃
    rw [getStr, getStr, hkeys k h₁ h₂ h₃]
  have hint : getInt E data' "envelope_version" Envelope.envelopeVersion
      = getInt E data "envelope_version" Envelope.envelopeVersion := by
    rw [getInt, getInt, hkeys _ (by decide) (by decide) (by decide)]
  exact
    { confirmation := hconf
      payload := hpayload
      prLifecycle := hlifecycle
      effort := heffort
      envelopeVersion := hint.trans h.envelopeVersion
      signatureAuthentic := h.signatureAuthentic
      action := (hrequired _ (by decide) (by decide) (by decide)).trans h.action
      source := (hrequired _ (by decide) (by decide) (by decide)).trans h.source
      target := (hrequired _ (by decide) (by decide) (by decide)).trans h.target
      requestedBy := (hrequired _ (by decide) (by decide) (by decide)).trans h.requestedBy
      reason := (hstr _ _ (by decide) (by decide) (by decide)).trans h.reason
      envelopeId := (hstr _ _ (by decide) (by decide) (by decide)).trans h.envelopeId
      schemaVersion := (hstr _ _ (by decide) (by decide) (by decide)).trans h.schemaVersion
      issuedAt := (hstr _ _ (by decide) (by decide) (by decide)).trans h.issuedAt
      signature := (hstr _ _ (by decide) (by decide) (by decide)).trans h.signature
      principal := (hstr _ _ (by decide) (by decide) (by decide)).trans h.principal
      onBehalfOf := (hstr _ _ (by decide) (by decide) (by decide)).trans h.onBehalfOf
      correlationId := (hstr _ _ (by decide) (by decide) (by decide)).trans h.correlationId }

private theorem valid_refuse_iff {c : Prop} [Decidable c] {reason : String}
    {r : CryptoValidationResult} :
    (if c then ⟨false, reason⟩ else r).valid = true ↔ ¬ c ∧ r.valid = true := by
  by_cases h : c
  · simp [h]
  · simp [h]

theorem valid_iff : (validateEnvelopeCrypto E m e).valid = true ↔
    e.schemaVersion = schemaVersion ∧ e.signatureAuthentic = true ∧ e.signature ≠ "" ∧
      verifySignature E e = true ∧ validateTimestampFreshness E m.now e.issuedAt 300 = .valid ∧
      ∀ c, e.confirmation = some c →
        validateTimestampFreshness E m.now c.approvedAt 300 = .valid ∧
          verifyApprovalHmac E c.approvalHmac e.envelopeId e.action = true := by
  rw [validateEnvelopeCrypto, valid_refuse_iff, valid_refuse_iff, valid_refuse_iff,
    valid_refuse_iff]
  dsimp only
  rw [valid_refuse_iff]
  cases e.confirmation with
  | none => simp only [ne_eq, Decidable.not_not, Bool.not_eq_true', Bool.not_eq_false,
      reduceCtorEq, false_implies, implies_true]
  | some c =>
    dsimp only
    rw [valid_refuse_iff, valid_refuse_iff]
    simp only [ne_eq, Decidable.not_not, Bool.not_eq_true', Bool.not_eq_false, and_true,
      Option.some.injEq, forall_eq']

/-- **The signature of an accepted body tells the signed fields and the payload.** -/
theorem signed_of_accepted {m' : Moment} {e' : CommandEnvelope} (hE : E.Ideal)
    (h : Accepted E m data e) (h' : Accepted E m' data' e') (hsig : e.signature = e'.signature) :
    e.signed = e'.signed ∧ (Json.obj e.payload).sortKeys = (Json.obj e'.payload).sortKeys := by
  obtain ⟨-, -, -, hver, -⟩ := valid_iff.mp h.valid
  obtain ⟨-, -, -, hver', -⟩ := valid_iff.mp h'.valid
  simp only [verifySignature, verifyEnvelopeSignature, Bool.and_eq_true, decide_eq_true_eq]
    at hver hver'
  exact signEnvelopePayload_inj hE (hver.2.trans (hsig.trans hver'.2.symm))

/-! ### What an alteration must keep -/

/-- The text of the value is the same in any order of its keys. -/
def OrderFree (E : Env) (v : Json) : Prop :=
  ∀ w : Json, w.Distinct → w.sortKeys = v.sortKeys → pyStr E w = pyStr E v

theorem eq_str_of_sortKeys {w : Json} {s : String} (h : w.sortKeys = .str s) : w = .str s := by
  cases w <;> simp_all [Json.sortKeys]

theorem eq_null_of_sortKeys {w : Json} (h : w.sortKeys = .null) : w = .null := by
  cases w <;> simp_all [Json.sortKeys]

theorem sortKeys_ne_null {v : Json} (h : v ≠ .null) : v.sortKeys ≠ .null :=
  fun hnull => h (eq_null_of_sortKeys hnull)

theorem orderFree_str (s : String) : OrderFree E (.str s) :=
  fun w _ hw => by rw [eq_str_of_sortKeys (hw.trans rfl)]

/-- What a payload signs is the same, but for the order of keys, if the payload is. -/
theorem sortKeys_resolved {p p' : List (String × Json)} (hn : (p.map Prod.fst).Nodup)
    (hn' : (p'.map Prod.fst).Nodup) (h : (Json.obj p).sortKeys = (Json.obj p').sortKeys)
    (key default : String) :
    (resolved p key default).sortKeys = (resolved p' key default).sortKeys := by
  have hlookup : (p.lookup key).map Json.sortKeys = (p'.lookup key).map Json.sortKeys := by
    have hleft := Json.field?_sortKeys hn key
    rw [h, Json.field?_sortKeys hn'] at hleft
    exact hleft.symm
  have hresolved : ∀ p : List (String × Json), (resolved p key default).sortKeys
      = match (p.lookup key).map Json.sortKeys with
        | none => .str default
        | some .null => .str default
        | some v => v := by
    intro p
    unfold resolved
    rcases p.lookup key with _ | v
    · rfl
    · cases v <;> rfl
  rw [hresolved, hresolved, hlookup]

theorem distinct_payload {p : List (String × Json)} (hd : data.Distinct)
    (h : ensureDict (data.field? "payload") = some p) : (Json.obj p).Distinct := by
  rcases hp : data.field? "payload" with _ | v
  · obtain rfl : [] = p := by simpa [hp, ensureDict] using h
    exact ⟨List.nodup_nil, trivial⟩
  · have hv := hd.field hp
    cases v with
    | null =>
      obtain rfl : [] = p := by simpa [hp, ensureDict] using h
      exact ⟨List.nodup_nil, trivial⟩
    | obj fs =>
      obtain rfl : fs = p := by simpa [hp, ensureDict] using h
      exact hv
    | _ => exact absurd h (by simp [hp, ensureDict])

theorem distinct_resolved {p : List (String × Json)} (h : (Json.obj p).Distinct)
    (key default : String) : (resolved p key default).Distinct := by
  unfold resolved
  split
  · trivial
  · trivial
  · rename_i v _ hv
    exact Json.Distinct.field (v := .obj p) h hv

theorem eq_of_validateEffort {v : Json} {s : String} (h : validateEffort v = some s) :
    v = .str s := by
  cases v with
  | str t =>
    simp only [validateEffort, Option.ite_none_right_eq_some, Option.some.injEq] at h
    rw [h.2]
  | _ => exact absurd h (by simp [validateEffort])

/-- **Without a confirmation, and with a `pr_lifecycle` that is the same in any order of keys, the
signature tells all fields.** -/
theorem sameFields_of_unconfirmed {m' : Moment} {e' : CommandEnvelope} (hE : E.Ideal)
    (hd : data.Distinct) (hd' : data'.Distinct) (h : Accepted E m data e)
    (h' : Accepted E m' data' e') (hmarks : SameMarks e e') (hno : confirmed data = false)
    (hfree : OrderFree E (resolved e.payload "pr_lifecycle" "arm_and_exit")) : SameFields e e' := by
  have hr := fromDict_eq_some_iff.mp h.read
  have hr' := fromDict_eq_some_iff.mp h'.read
  obtain ⟨hsigned, hpayload⟩ := signed_of_accepted hE h h' hmarks.signature
  simp only [CommandEnvelope.signed, SignedFields.mk.injEq] at hsigned
  obtain ⟨haction, hsource, htarget, hrequested, -, -, hprincipal, hbehalf, hcorrelation, hid,
    hreason, -⟩ := hsigned
  have hp := distinct_payload hd hr.payload
  have hp' := distinct_payload hd' hr'.payload
  have hnone := hr.unconfirmed hno
  have hnone' : e'.confirmation = none := by
    have := hmarks.approvalHmac
    rw [hnone, Option.map_none, eq_comm, Option.map_eq_none_iff] at this
    exact this
  have heffort : e.effort = e'.effort := by
    have hstr := eq_of_validateEffort hr.effort_eq
    have hsort := sortKeys_resolved hp.1 hp'.1 hpayload "effort" "medium"
    rw [hstr] at hsort
    have hstr' := eq_str_of_sortKeys (hsort.symm.trans rfl)
    exact Json.str.inj (hstr'.symm.trans (eq_of_validateEffort hr'.effort_eq))
  have hlifecycle : e.prLifecycle = e'.prLifecycle := by
    rw [hr.prLifecycle_eq, hr'.prLifecycle_eq]
    exact (hfree _ (distinct_resolved hp' _ _)
      (sortKeys_resolved hp.1 hp'.1 hpayload _ _).symm).symm
  exact
    { action := haction
      source := hsource
      target := htarget
      requestedBy := hrequested
      reason := hreason
      payload := hpayload
      envelopeId := hid
      principal := hprincipal
      onBehalfOf := hbehalf
      correlationId := hcorrelation
      prLifecycle := hlifecycle
      effort := heffort
      approvedBy := by rw [hnone, hnone']
      approvedAt := by rw [hnone, hnone'] }

theorem strip_ne_of_requiredString {key s : String} (h : requiredString E data key = some s) :
    Py.strip s ≠ "" := by
  unfold requiredString at h
  split at h
  · exact absurd h (by simp)
  · exact absurd h (by simp)
  · simp only [Option.ite_none_left_eq_some, Option.some.injEq] at h
    rw [← h.2]
    exact h.1

theorem requiredString_str {key s : String} (h : data.field? key = some (.str s))
    (hs : Py.strip s ≠ "") : requiredString E data key = some s := by
  simp [requiredString, h, pyStr, hs]

theorem exists_obj_of_read (h : Reads E m data e) : ∃ fs, data = .obj fs := by
  cases data with
  | obj fs => exact ⟨fs, rfl⟩
  | _ => exact absurd h.action (by simp [requiredString, Json.field?])

/-! ### The alterations -/

/-- The confirmation of another person, with the same time and the same MAC. -/
def otherApprover (c : DispatchConfirmation) : Json :=
  .obj [("approved_by", .str (c.approvedBy ++ "x")), ("approved_at", .str c.approvedAt),
    ("approval_hmac", .str c.approvalHmac)]

theorem optConfirmation_otherApprover {c : DispatchConfirmation}
    (hat : Py.strip c.approvedAt ≠ "") :
    optConfirmation E (some (otherApprover c))
      = some (some { approvedBy := c.approvedBy ++ "x", approvedAt := c.approvedAt,
                     approvalHmac := c.approvalHmac }) := by
  have hby : Py.strip (c.approvedBy ++ "x") ≠ "" := by
    intro hblank
    have := Py.strip_eq_empty_iff.mp hblank 'x' (by simp)
    exact absurd this (by decide)
  have hby' : requiredString E (otherApprover c) "approved_by" = some (c.approvedBy ++ "x") :=
    requiredString_str rfl hby
  have hat' : requiredString E (otherApprover c) "approved_at" = some c.approvedAt :=
    requiredString_str rfl hat
  rw [otherApprover] at hby' hat' ⊢
  simp only [optConfirmation, confirmationFromDict, hby', hat', Option.bind_eq_bind,
    Option.bind_some, Option.map_some]
  rfl

theorem optConfirmation_of_ne_null {v : Json} (h : v ≠ .null) :
    optConfirmation E (some v) = (confirmationFromDict E v).map some := by
  cases v with
  | null => exact absurd rfl h
  | _ => rfl

theorem accepted_otherApprover (hd : data.Distinct) (h : Accepted E m data e)
    (hconf : confirmed data = true) :
    ∃ c data', e.confirmation = some c ∧ data'.Distinct ∧
      Accepted E m data' { e with confirmation := some { approvedBy := c.approvedBy ++ "x",
                                                         approvedAt := c.approvedAt,
                                                         approvalHmac := c.approvalHmac } } := by
  have hr := fromDict_eq_some_iff.mp h.read
  obtain ⟨fs, rfl⟩ := exists_obj_of_read hr
  obtain ⟨v, hv⟩ : ∃ v, fs.lookup "confirmation" = some v := by
    rcases hv : fs.lookup "confirmation" with _ | v
    · simp [confirmed, Json.field?, hv] at hconf
    · exact ⟨v, rfl⟩
  obtain ⟨c, hc, hread⟩ : ∃ c, e.confirmation = some c ∧ confirmationFromDict E v = some c := by
    have hopt := hr.confirmation
    have hnull : v ≠ .null := by
      rintro rfl
      simp [confirmed, Json.field?, hv] at hconf
    rw [Json.field?, hv, optConfirmation_of_ne_null hnull] at hopt
    obtain ⟨c, hc, heq⟩ := Option.map_eq_some_iff.mp hopt
    exact ⟨c, heq.symm, hc⟩
  have hat : Py.strip c.approvedAt ≠ "" := by
    simp only [confirmationFromDict, Option.bind_eq_bind, Option.bind_eq_some_iff,
      Option.some.injEq] at hread
    obtain ⟨by_, -, at_, hat, rfl⟩ := hread
    exact strip_ne_of_requiredString hat
  -- every other field is left as it was, and the signature is over those
  have hsame : ∀ k, k ≠ "confirmation" →
      (Json.obj (Json.replaceField fs "confirmation" (otherApprover c))).field? k
        = (Json.obj fs).field? k := by
    intro k hk
    rw [Json.field?, Json.field?, Json.lookup_replaceField]
    simp [hk]
  have hcopy : ∀ key validate default, key ≠ "confirmation" →
      signedField (.obj (Json.replaceField fs "confirmation" (otherApprover c))) key
        validate default
        = signedField (.obj fs) key validate default := by
    intro key validate default hk
    rw [signedField, signedField, signedValue, signedValue, hsame _ hk, hsame _ (by decide)]
  refine ⟨c, .obj (Json.replaceField fs "confirmation" (otherApprover c)), hc, ?_, ?_, ?_⟩
  · exact hd.replaceField _ ⟨by simp, by simp [Json.DistinctFields, Json.Distinct]⟩
  · rw [fromDict_eq_some_iff]
    apply hr.congr fun k hk _ _ => hsame k hk
    · rw [Json.field?, Json.lookup_replaceField, hv]
      exact optConfirmation_otherApprover hat
    · rw [hsame _ (by decide)]
      exact hr.payload
    · rw [hcopy _ _ _ (by decide)]
      exact hr.prLifecycle
    · rw [hcopy _ _ _ (by decide)]
      exact hr.effort
  · obtain ⟨hschema, hauth, hsig, hver, hissued, hcheck⟩ := valid_iff.mp h.valid
    refine valid_iff.mpr ⟨hschema, hauth, hsig, hver, hissued, fun c' hc' => ?_⟩
    obtain rfl := Option.some.inj hc'
    exact hcheck c hc

theorem lookup_of_signedValue {p : List (String × Json)} {key : String} {v : Json}
    (h : ensureDict (data.field? "payload") = some p) (hv : signedValue data key = some v) :
    data.field? "payload" = some (.obj p) ∧ p.lookup key = some v ∧ v ≠ .null := by
  unfold signedValue at hv
  rcases hp : data.field? "payload" with _ | u
  · simp [hp] at hv
  · cases u with
    | obj fs =>
      obtain rfl : fs = p := by simpa [hp, ensureDict] using h
      rw [hp, Option.bind_some, Json.field?] at hv
      split at hv
      · exact absurd hv (by simp)
      · rename_i hnull
        exact ⟨rfl, hv, fun heq => hnull (heq ▸ hv)⟩
    | _ =>
      rw [hp] at hv
      simp [Json.field?] at hv

theorem accepted_reordered (hd : data.Distinct) (h : Accepted E m data e) {v w : Json}
    (hv : signedValue data "pr_lifecycle" = some v) (hw : w.Distinct)
    (hsort : w.sortKeys = v.sortKeys) :
    ∃ data', data'.Distinct ∧
      Accepted E m data' { e with payload := Json.replaceField e.payload "pr_lifecycle" w,
                                  prLifecycle := pyStr E w } := by
  have hr := fromDict_eq_some_iff.mp h.read
  obtain ⟨fs, rfl⟩ := exists_obj_of_read hr
  obtain ⟨hpayload, hlookup, hnull⟩ := lookup_of_signedValue hr.payload hv
  set p' := Json.replaceField e.payload "pr_lifecycle" w with hp'
  have hwnull : w ≠ .null := by
    rintro rfl
    exact sortKeys_ne_null hnull hsort.symm
  have hpd := distinct_payload hd hr.payload
  -- the top-level field goes, the signed one is reordered
  set data' := Json.replaceField (Json.replaceField fs "payload" (.obj p')) "pr_lifecycle" .null
    with hdata'
  have hother : ∀ k, k ≠ "payload" → k ≠ "pr_lifecycle" →
      (Json.obj data').field? k = (Json.obj fs).field? k := by
    intro k hk hk'
    rw [Json.field?, Json.field?, hdata', Json.lookup_replaceField, Json.lookup_replaceField]
    simp [hk, hk']
  have hpay : (Json.obj data').field? "payload" = some (.obj p') := by
    rw [Json.field?] at hpayload
    rw [Json.field?, hdata', Json.lookup_replaceField, Json.lookup_replaceField, hpayload]
    simp
  have htop : (Json.obj data').field? "pr_lifecycle" = none ∨
      (Json.obj data').field? "pr_lifecycle" = some .null := by
    rw [Json.field?, hdata', Json.lookup_replaceField]
    rcases List.lookup "pr_lifecycle" (Json.replaceField fs "payload" (.obj p')) with _ | u
    · exact .inl rfl
    · exact .inr (by simp)
  have hsigned : signedValue (.obj data') "pr_lifecycle" = some w := by
    have hfield : (Json.obj p').field? "pr_lifecycle" = some w := by
      rw [Json.field?, hp', Json.lookup_replaceField, hlookup]
      simp
    rw [signedValue, hpay, Option.bind_some, hfield]
    cases w with
    | null => exact absurd rfl hwnull
    | _ => rfl
  have heffort : signedValue (.obj data') "effort" = signedValue (.obj fs) "effort" := by
    have hfield : (Json.obj p').field? "effort" = (Json.obj e.payload).field? "effort" := by
      rw [Json.field?, Json.field?, hp', Json.lookup_replaceField]
      simp
    rw [signedValue, signedValue, hpay, hpayload, Option.bind_some, Option.bind_some, hfield]
  refine ⟨.obj data', (hd.replaceField _ (hpd.replaceField _ hw)).replaceField _ trivial, ?_, ?_⟩
  · rw [fromDict_eq_some_iff]
    apply hr.congr fun k _ hk hk' => hother k hk hk'
    · rw [hother _ (by decide) (by decide)]
      exact hr.confirmation
    · rw [hpay]
      rfl
    · rw [signedField, hsigned]
      rcases htop with htop | htop <;> rw [htop]
    · rw [signedField, heffort, hother _ (by decide) (by decide)]
      exact hr.effort
  · have hhash : (Json.obj p').sortKeys = (Json.obj e.payload).sortKeys :=
      Json.sortKeys_replaceField hpd.1 hlookup hsort
    obtain ⟨hschema, hauth, hsig, hver, hissued, hcheck⟩ := valid_iff.mp h.valid
    refine valid_iff.mpr ⟨hschema, hauth, hsig, ?_, hissued, hcheck⟩
    rw [verifySignature, hashPayload] at hver ⊢
    rw [hhash]
    exact hver

/-- **Every other accepted body with the same marks has the same fields exactly if the body has no
confirmation, and a `pr_lifecycle` that is the same in any order of keys.** -/
theorem unaltered_iff (hE : E.Ideal) (hd : data.Distinct) (h : Accepted E m data e) :
    (∀ m' data' e', data'.Distinct → Accepted E m' data' e' → SameMarks e e' → SameFields e e') ↔
      confirmed data = false ∧
        ∀ v, signedValue data "pr_lifecycle" = some v → OrderFree E v := by
  have hr := fromDict_eq_some_iff.mp h.read
  constructor
  · intro hsame
    refine ⟨?_, fun v hv w hw hsort => ?_⟩
    · by_contra hconf
      obtain ⟨c, data', hc, hd', h'⟩ := accepted_otherApprover hd h (by simpa using hconf)
      have hby := (hsame m data' _ hd' h' ⟨rfl, by simp [hc]⟩).approvedBy
      have hlength := congrArg (fun o => (o.map String.length).getD 0) hby
      simp [hc] at hlength
    · obtain ⟨data', hd', h'⟩ := accepted_reordered hd h hv hw hsort
      have hl := (hsame m data' _ hd' h' ⟨rfl, rfl⟩).prLifecycle
      rw [hr.prLifecycle_eq, ← signedValue_eq hr.payload, hv] at hl
      exact hl.symm
  · rintro ⟨hno, hfree⟩ m' data' e' hd' h' hmarks
    apply sameFields_of_unconfirmed hE hd hd' h h' hmarks hno
    rw [← signedValue_eq hr.payload]
    rcases hv : signedValue data "pr_lifecycle" with _ | v
    · exact orderFree_str _
    · exact hfree v hv

end Reading

/-! ### One envelope -/

def startFields : SignedFields where
  action := "control.runner.start"
  source := "hub"
  target := "node-1"
  requestedBy := "alice"
  issuedAt := "2026-09-27T12:00:00Z"
  envelopeVersion := 1
  principal := ""
  onBehalfOf := ""
  correlationId := ""
  envelopeId := "e1"
  reason := ""
  schemaVersion := schemaVersion

/-- The SHA-256 digest of `{}`. -/
def emptyHash : String := "44136fa355b3678a1146ad16f7e8649e94fb4fc21fe77e8310c060f61caaff8a"

/-- The signature of the envelope under the secret `k`. -/
def startSignature : String := "1b524ca0606f97a4a7bd3a0d2f966f271b509144943c0acd2688e3eff87a7555"

/-- The MAC of its approval under the secret `k`. -/
def startApproval : String := "bdc942a67c20b804bdf6415a02746cc3eb4bde3dd2b537ec7d91c11ff4a9e3d0"

/-- Two texts with their own images, and every other with one that starts with a question mark. -/
def twoImages (a x b y s : String) : String :=
  if s = a then x else if s = b then y else "?" ++ s

theorem twoImages_injective {a x b y : String} (hx : '?' ∉ x.toList) (hy : '?' ∉ y.toList)
    (hxy : x ≠ y) : Function.Injective (twoImages a x b y) := by
  have hother : ∀ s z : String, '?' ∉ z.toList → "?" ++ s ≠ z := by
    rintro s z hz rfl
    simp at hz
  intro s t h
  unfold twoImages at h
  split_ifs at h
  · simp_all
  · exact absurd h hxy
  · exact absurd h.symm (hother t x hx)
  · exact absurd h.symm hxy
  · simp_all
  · exact absurd h.symm (hother t y hy)
  · exact absurd h (hother s x hx)
  · exact absurd h (hother s y hy)
  · exact String.append_right_inj _ |>.mp h

/-- A process with the secret `k`, as far as the envelope reaches. -/
def startEnv : Env where
  hmac := fun _ => twoImages (buildCanonicalJson startFields ++ emptyHash) startSignature
    "approve:e1:control.runner.start" startApproval
  sha256 := twoImages "{}" emptyHash "{}" startApproval
  repr := fun _ => ""
  intOf := fun _ => none
  fromisoformat := fun s => if s = "2026-09-27T12:00:00+00:00" then some 1790510400000000 else none
  signingSecret := "k"
  approvalSecret := "k"
  allowUnsignedApproval := false

theorem ideal_startEnv : startEnv.Ideal where
  hmac_injective := fun _ => twoImages_injective (by decide) (by decide) (by decide)
  sha256_injective := twoImages_injective (by decide) (by decide) (by decide)

def atOnce : Moment where
  uuid := "0"
  nowIso := "2026-09-27T12:00:00Z"
  now := 1790510400000000

def startBody (confirmation : Json) : Json :=
  .obj [("action", .str "control.runner.start"), ("source", .str "hub"), ("target", .str "node-1"),
    ("requested_by", .str "alice"), ("envelope_id", .str "e1"),
    ("issued_at", .str "2026-09-27T12:00:00Z"), ("signature", .str startSignature),
    ("confirmation", confirmation)]

def approval (approvedBy : String) : DispatchConfirmation where
  approvedBy := approvedBy
  approvedAt := "2026-09-27T12:00:00Z"
  approvalHmac := startApproval

/-- The confirmation as it is sent. -/
def approvalBody (approvedBy : String) : Json :=
  .obj [("approved_by", .str approvedBy), ("approved_at", .str "2026-09-27T12:00:00Z"),
    ("approval_hmac", .str startApproval)]

def startEnvelope (confirmation : Option DispatchConfirmation) : CommandEnvelope where
  action := "control.runner.start"
  source := "hub"
  target := "node-1"
  requestedBy := "alice"
  reason := ""
  payload := []
  confirmation := confirmation
  envelopeId := "e1"
  schemaVersion := schemaVersion
  envelopeVersion := 1
  issuedAt := "2026-09-27T12:00:00Z"
  signature := startSignature
  principal := ""
  onBehalfOf := ""
  correlationId := ""
  signatureAuthentic := true
  prLifecycle := "arm_and_exit"
  effort := "medium"

theorem hashPayload_nil : hashPayload startEnv [] = emptyHash := by
  simp [hashPayload, Json.sortKeys, Json.sortKeysFields, Json.dumpsCompact, Json.render, startEnv,
    twoImages]

/-- The envelope is accepted with any approval that is read. -/
theorem accepted_startBody {c : Json} {confirmation : Option DispatchConfirmation}
    (hread : optConfirmation startEnv (some c) = some confirmation)
    (hcheck : ∀ a, confirmation = some a →
      a.approvedAt = "2026-09-27T12:00:00Z" ∧ a.approvalHmac = startApproval) :
    Accepted startEnv atOnce (startBody c) (startEnvelope confirmation) := by
  have hfresh : validateTimestampFreshness startEnv atOnce.now "2026-09-27T12:00:00Z" 300 =
    .valid := by
    decide +kernel
  constructor
  · rw [fromDict_eq_some_iff]
    constructor
    · exact hread
    all_goals rfl
  · have happroval : "approve:e1:control.runner.start"
        ≠ buildCanonicalJson startFields ++ emptyHash := by
      intro heq
      have hhead := congrArg (fun s => s.toList.head?) heq
      simp [head?_buildCanonicalJson] at hhead
    refine valid_iff.mpr ⟨rfl, rfl, (by decide : startSignature ≠ ""), ?_, hfresh, fun a ha => ?_⟩
    · have hsign : signEnvelopePayload startEnv startFields "k" emptyHash = startSignature := by
        rw [signEnvelopePayload_eq]
        exact if_pos rfl
      have hver :
        verifyEnvelopeSignature startEnv startFields startSignature "k" emptyHash = true :=
        decide_eq_true hsign
      have hne : startSignature ≠ "" := by decide
      rw [← hashPayload_nil] at hver
      exact Bool.and_eq_true_iff.mpr ⟨decide_eq_true hne, hver⟩
    · obtain ⟨hat, hmac⟩ := hcheck a ha
      have hcompute : startEnv.hmac "k" "approve:e1:control.runner.start" = startApproval :=
        (if_neg happroval).trans (if_pos rfl)
      rw [hat, hmac]
      exact ⟨hfresh, decide_eq_true hcompute.symm⟩

/-- The name of the approver is altered, and nothing tells. -/
theorem not_unaltered_approver :
    ¬ ∀ (E : Env), E.Ideal → ∀ m m' data data' e e', data.Distinct → data'.Distinct →
      Accepted E m data e → Accepted E m' data' e' → SameMarks e e' → SameFields e e' := by
  intro h
  have haccepted : ∀ who, Py.strip who ≠ "" → Accepted startEnv atOnce
      (startBody (approvalBody who)) (startEnvelope (some (approval who))) := by
    intro who hwho
    apply accepted_startBody
    · have hby : requiredString startEnv (approvalBody who) "approved_by" = some who :=
        requiredString_str rfl hwho
      rw [approvalBody] at hby ⊢
      simp only [optConfirmation, confirmationFromDict, hby, Option.bind_eq_bind, Option.bind_some]
      rfl
    · intro a ha
      obtain rfl := Option.some.inj ha
      exact ⟨rfl, rfl⟩
  have hdistinct : ∀ who, (startBody (approvalBody who)).Distinct := by
    intro who
    simp [startBody, approvalBody, Json.Distinct, Json.DistinctFields]
  have hsame := h startEnv ideal_startEnv atOnce atOnce _ _ _ _ (hdistinct "alice")
    (hdistinct "mallory") (haccepted "alice" (by decide)) (haccepted "mallory" (by decide))
    ⟨rfl, rfl⟩
  exact absurd hsame.approvedBy (by decide)

/-- Without a confirmation nothing of the envelope can be altered. -/
theorem unaltered_start :
    confirmed (startBody .null) = false ∧
      ∀ m' data' e', data'.Distinct → Accepted startEnv m' data' e' →
        SameMarks (startEnvelope none) e' → SameFields (startEnvelope none) e' := by
  have haccepted : Accepted startEnv atOnce (startBody .null) (startEnvelope none) :=
    accepted_startBody rfl (by simp)
  have hdistinct : (startBody .null).Distinct := by
    simp [startBody, Json.Distinct, Json.DistinctFields]
  refine ⟨rfl, (unaltered_iff ideal_startEnv hdistinct haccepted).mpr ⟨rfl, fun v hv => ?_⟩⟩
  have hnone : signedValue (startBody .null) "pr_lifecycle" = none := rfl
  rw [hnone] at hv
  exact absurd hv (by simp)

end Envelope
