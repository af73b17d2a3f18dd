import RunnerDashboard.PrivateMode.TranscriptHistory
import RunnerDashboard.PrivateMode.TranscriptRuns

/-!
# Metadata that are edited

The wrapped key opens under the name of its thread and the text of its expiry, and the chunks open
under the level.  Nothing binds the principals, and the text of the expiry has six digits after the
point.  So whoever writes to the metadata file lets in whom they want, for a little longer.

## Main results

* `intact_path` — a thread that was made stays intact, or has a tombstone.
* `authorised_iff` — **when an edit lets nobody else in.**
-/

namespace TranscriptStore

open Transcripts Lts
open Py (Value pyInt)

variable {rt : Runtime} {cfg : Config} {s s' : State} {threadId : String} {now : PyFloat}
  {md md' : Metadata} {wrap : Wrap} {l : List (ℕ × Sealed)}

/-! ### Keys that are drawn -/

/-- A key that is drawn is new. -/
def Act.Fresh (s : State) : Act → Prop
  | .create _ _ _ _ _ dek _ => dek.length = 32 ∧ s.boxes dek = [] ∧ ∀ w ∈ s.wraps, w.dek ≠ dek
  | _ => True

/-- A step of a history in which keys are not drawn twice. -/
def KeyStep (rt : Runtime) (cfg : Config) (s : State) (a : Act) (s' : State) : Prop :=
  a.Fresh s ∧ Step rt cfg s a s'

def State.empty : State := ⟨[], .empty, fun _ => none, [], fun _ => []⟩

/-- The associated data of the wrapped key of a thread. -/
def threadAad (cfg : Config) (threadId : String) (expiresAt : PyFloat) : String :=
  wrapAad envelopeVersion cfg.provider.backend (wrapContext threadId expiresAt)

theorem threadAad_eq {other : String} {e e' : PyFloat} (hvalid : validThreadId threadId = true)
    (hother : validThreadId other = true) (h : threadAad cfg threadId e = threadAad cfg other e') :
    threadId = other :=
  wrapContext_threadId hvalid hother (wrapAad_injective _ _ h)

/-- Every key was wrapped for a thread that has metadata or a tombstone. -/
def Accounted (cfg : Config) (s : State) : Prop :=
  ∀ w ∈ s.wraps, ∃ threadId e, validThreadId threadId = true ∧ w.aad = threadAad cfg threadId e ∧
    (isShredded s threadId = true ∨ s.metas.get? threadId ≠ none)

/-- The wrappings of a step: those before it, and that of a thread that is made. -/
theorem wraps_run (rt : Runtime) (cfg : Config) (s : State) (a : Act) :
    ((a.run rt cfg s).wraps = s.wraps) ∨
    ∃ threadId level principals ttlSeconds now dek nonce md wrap,
      a = .create threadId level principals ttlSeconds now dek nonce ∧
      Made rt cfg s threadId principals ttlSeconds now dek md wrap ∧
      a.run rt cfg s = writeThread rt s threadId (payload threadId md) wrap := by
  cases a with
  | create id level principals ttlSeconds now dek nonce =>
    rcases createThread_cases rt cfg s id level principals ttlSeconds now dek nonce with
      ⟨e, he⟩ | ⟨md, wrap, hmade, he⟩
    · left
      rw [Act.run, he]
    · exact .inr ⟨id, level, principals, ttlSeconds, now, dek, nonce, md, wrap, rfl, hmade,
        congrArg Prod.snd he⟩
  | append id plaintext nonce now =>
    left
    rcases appendChunk_cases rt cfg s id plaintext nonce now with
      ⟨e, he⟩ | ⟨md, text, dek, -, -, -, -, he⟩
    · rw [Act.run, he]
    · rw [Act.run, he]
      rfl
  | shred id reason now k =>
    exact .inl (wraps_shred rt cfg s id reason now k).1
  | purge now k => exact .inl (runOps_wraps _ _).1

theorem accounted_run (a : Act) (h : Accounted cfg s) : Accounted cfg (a.run rt cfg s) := by
  have hkept : ∀ threadId, isShredded s threadId = true ∨ s.metas.get? threadId ≠ none →
      isShredded (a.run rt cfg s) threadId = true ∨
        (a.run rt cfg s).metas.get? threadId ≠ none := by
    rintro threadId (hshredded | hmetas)
    · exact .inl (isShredded_run a hshredded)
    · obtain ⟨file, hfile⟩ := Option.ne_none_iff_exists'.mp hmetas
      rcases metas_run rt cfg a hfile with hshredded | hfile
      · exact .inl hshredded
      · exact .inr (by simp [hfile])
  have hold : ∀ w ∈ s.wraps, ∃ threadId e, validThreadId threadId = true ∧
      w.aad = threadAad cfg threadId e ∧ (isShredded (a.run rt cfg s) threadId = true ∨
        (a.run rt cfg s).metas.get? threadId ≠ none) := by
    intro w hw
    obtain ⟨threadId, e, hvalid, haad, hfiles⟩ := h w hw
    exact ⟨threadId, e, hvalid, haad, hkept threadId hfiles⟩
  intro w hw
  rcases wraps_run rt cfg s a with hwraps |
    ⟨threadId, level, principals, ttlSeconds, now, dek, nonce, md, wrap, rfl, hmade, hrun⟩
  · exact hold w (hwraps ▸ hw)
  · rw [hrun] at hw
    rcases List.mem_append.mp hw with hw | hw
    · exact hold w hw
    · rw [List.mem_singleton.mp hw]
      refine ⟨threadId, md.expiresAt, hmade.valid, by rw [hmade.wrap]; rfl, .inr ?_⟩
      rw [hrun]
      simp [writeThread]

theorem accounted_path {acts : List Act} (path : Path (KeyStep rt cfg) .empty acts s) :
    Accounted cfg s := by
  refine path.invariant (I := Accounted cfg) ?_ nofun
  rintro s a t hs ⟨-, rfl⟩
  exact accounted_run a hs

/-! ### A thread that was made -/

/-- **What stays of a thread that was made**: its metadata, its chunks and its key. -/
structure Intact (rt : Runtime) (cfg : Config) (s : State) (threadId : String) (md : Metadata)
    (wrap : Wrap) (l : List (ℕ × Sealed)) : Prop where
  metas : WellFormed rt s threadId md
  chunks : s.chunks threadId = some (String.ofList (fileOf l))
  boxes : s.boxes wrap.dek = l.map Prod.snd
  aad : ∀ x ∈ l, x.2.aad = chunkAad threadId md.level.name x.1
  inOrder : InOrder l
  own : wrap ∈ s.wraps
  sole : ∀ w ∈ s.wraps, w.dek = wrap.dek ∨ (∃ e, w.aad = threadAad cfg threadId e) → w = wrap

theorem Intact.written (h : Intact rt cfg s threadId md wrap l) (hlevel : md'.level = md.level) :
    Written md'.base (openThread cfg s threadId md' wrap.dek (String.ofList (fileOf l))) l :=
  ⟨rfl, h.boxes, fun x hx => by
    rw [h.aad x hx, ← hlevel]
    rfl⟩

theorem intact_writeThread {principals : List String} {ttlSeconds : ℤ} {dek : Bytes}
    (haccounted : Accounted cfg s) (hboxes : s.boxes dek = []) (hnew : ∀ w ∈ s.wraps, w.dek ≠ dek)
    (hmade : Made rt cfg s threadId principals ttlSeconds now dek md wrap) :
    Intact rt cfg (writeThread rt s threadId (payload threadId md) wrap) threadId md wrap [] where
  metas := wellFormed_writeThread hmade.parse
  chunks := Function.update_self _ _ _
  boxes := by
    rw [hmade.wrap]
    exact hboxes
  aad := nofun
  inOrder := nofun
  own := List.mem_append_right _ List.mem_cons_self
  sole := by
    intro w hw hmatch
    rcases List.mem_append.mp hw with hw | hw
    · exfalso
      rcases hmatch with hdek | ⟨e, haad⟩
      · rw [hmade.wrap] at hdek
        exact hnew w hw hdek
      · obtain ⟨other, e', hvalid, haad', hfiles⟩ := haccounted w hw
        obtain rfl := threadAad_eq hmade.valid hvalid (haad.symm.trans haad')
        rcases hfiles with hshredded | hmetas
        · exact absurd (hshredded.symm.trans hmade.unshredded) (by simp)
        · exact hmetas hmade.noMeta
    · exact List.mem_singleton.mp hw

theorem Intact.of_spared (h : Intact rt cfg s threadId md wrap l) (hsame : SameFiles s s' threadId)
    (hwraps : s'.wraps = s.wraps) (hboxes : s'.boxes = s.boxes) :
    Intact rt cfg s' threadId md wrap l := by
  obtain ⟨file, hfile, hparse⟩ := h.metas
  exact ⟨⟨file, hsame.metas.trans hfile, hparse⟩, hsame.chunks.trans h.chunks,
    by rw [hboxes, h.boxes], h.aad, h.inOrder, hwraps ▸ h.own, hwraps ▸ h.sole⟩

theorem Intact.create {other : String} {principals : List String} {ttlSeconds : ℤ} {dek : Bytes}
    {md' : Metadata} {wrap' : Wrap} (h : Intact rt cfg s threadId md wrap l)
    (hvalid : validThreadId threadId = true) (hnew : ∀ w ∈ s.wraps, w.dek ≠ dek)
    (hmade : Made rt cfg s other principals ttlSeconds now dek md' wrap') :
    Intact rt cfg (writeThread rt s other (payload other md') wrap') threadId md wrap l := by
  obtain ⟨file, hfile, hparse⟩ := h.metas
  have hne : threadId ≠ other := by
    rintro rfl
    exact absurd (hfile.symm.trans hmade.noMeta) (by simp)
  refine ⟨⟨file, (Sql.Table.get?_put_of_ne _ hne _).trans hfile, hparse⟩,
    (Function.update_of_ne hne _ _).trans h.chunks, h.boxes, h.aad, h.inOrder,
    List.mem_append_left _ h.own, ?_⟩
  intro w hw hmatch
  rcases List.mem_append.mp hw with hw | hw
  · exact h.sole w hw hmatch
  · exfalso
    rw [List.mem_singleton.mp hw, hmade.wrap] at hmatch
    rcases hmatch with hdek | ⟨e, haad⟩
    · exact hnew wrap h.own hdek.symm
    · exact hne (threadAad_eq hmade.valid hvalid haad).symm

theorem Intact.append {other : String} {md' : Metadata} {text : String} {dek plaintext : Bytes}
    {nonce : Nonce} (h : Intact rt cfg s threadId md wrap l)
    (hvalid : validThreadId threadId = true) (hother : validThreadId other = true)
    (hwrap : ∃ e, wrap.aad = threadAad cfg threadId e)
    (hload : loadMetadata rt s other = .ok md') (htext : s.chunks other = some text)
    (hdek : unwrapThreadDek cfg s other md' = .ok dek) :
    ∃ l', Intact rt cfg (storeThread s other dek (writeChunk (rt.cipher dek)
      (openThread cfg s other md' dek text) md'.base text (countChunks text) nonce plaintext))
      threadId md wrap l' := by
  obtain ⟨-, -, w, hw, -, -, haad, rfl⟩ := unwrapKey_eq_ok (unwrapThreadDek_eq_ok_iff.mp hdek)
  by_cases hne : threadId = other
  · subst hne
    obtain rfl := wellFormed_unique (loadMetadata_eq_ok_iff.mp hload).2 h.metas
    obtain rfl := h.sole w hw (.inr ⟨_, haad⟩)
    obtain rfl := Option.some.inj (htext.symm.trans h.chunks)
    obtain ⟨b, -, hwritten⟩ := written_writeChunk (C := rt.cipher w.dek) (h.written rfl)
      (countChunks (String.ofList (fileOf l))) nonce plaintext
    refine ⟨l ++ [(countChunks (String.ofList (fileOf l)), b)], h.metas, ?_, ?_, hwritten.aad,
      inOrder_snoc h.inOrder (countChunks_fileOf l), h.own, h.sole⟩
    · exact (Function.update_self _ _ _).trans hwritten.chunks
    · exact (Function.update_self _ _ _).trans hwritten.boxes
  · have hdeks : wrap.dek ≠ w.dek := by
      intro heq
      obtain rfl := h.sole w hw (.inl heq.symm)
      obtain ⟨e, he⟩ := hwrap
      exact hne (threadAad_eq hvalid hother (he.symm.trans haad))
    exact ⟨l, h.metas, (Function.update_of_ne hne _ _).trans h.chunks,
      (Function.update_of_ne hdeks _ _).trans h.boxes, h.aad, h.inOrder, h.own, h.sole⟩

theorem intact_step {a : Act} (h : Intact rt cfg s threadId md wrap l)
    (hvalid : validThreadId threadId = true) (hwrap : ∃ e, wrap.aad = threadAad cfg threadId e)
    (hstep : KeyStep rt cfg s a s') :
    isShredded s' threadId = true ∨ ∃ l', Intact rt cfg s' threadId md wrap l' := by
  obtain ⟨hfresh, rfl⟩ := hstep
  cases a with
  | create id level principals ttlSeconds now dek nonce =>
    right
    obtain ⟨-, -, hnew⟩ := hfresh
    rcases createThread_cases rt cfg s id level principals ttlSeconds now dek nonce with
      ⟨e, he⟩ | ⟨md', wrap', hmade, he⟩
    · rw [Act.run, he]
      exact ⟨l, h⟩
    · rw [Act.run, he]
      exact ⟨l, h.create hvalid hnew hmade⟩
  | append id plaintext nonce now =>
    right
    rcases appendChunk_cases rt cfg s id plaintext nonce now with
      ⟨e, he⟩ | ⟨md', text, dek, hother, hload, htext, hdek, he⟩
    · rw [Act.run, he]
      exact ⟨l, h⟩
    · rw [Act.run, he]
      exact h.append hvalid hother hwrap hload htext hdek
  | shred id reason now k =>
    rcases spared_shred rt cfg s id reason now k threadId with hshredded | hsame
    · exact .inl hshredded
    · obtain ⟨hwraps, hboxes⟩ := wraps_shred rt cfg s id reason now k
      exact .inr ⟨l, h.of_spared hsame hwraps hboxes⟩
  | purge now k =>
    rcases spared_purge rt cfg s now k threadId with hshredded | hsame
    · exact .inl hshredded
    · exact .inr ⟨l, h.of_spared hsame (runOps_wraps _ _).1 (runOps_wraps _ _).2⟩

/-! ### What the keys notice -/

/-- The key of a thread is wrapped under its metadata, and can be unwrapped. -/
structure Bound (cfg : Config) (threadId : String) (md : Metadata) (wrap : Wrap) : Prop where
  valid : validThreadId threadId = true
  enabled : cfg.isEnabled = true
  kek : cfg.provider.kekFailure = none
  version : md.wrappedDek.version = envelopeVersion
  backend : md.wrappedDek.backend = cfg.provider.backend
  nonce : wrap.nonce = md.wrappedDek.nonce
  ciphertext : wrap.ciphertext = md.wrappedDek.ciphertext
  aad : wrap.aad = threadAad cfg threadId md.expiresAt
  length : wrap.dek.length = 32

theorem Made.bound {principals : List String} {ttlSeconds : ℤ} {dek : Bytes}
    (h : Made rt cfg s threadId principals ttlSeconds now dek md wrap) (hdek : dek.length = 32) :
    Bound cfg threadId md wrap :=
  ⟨h.valid, h.enabled, h.kek, h.version, h.backend, by rw [h.wrap], by rw [h.wrap],
    by rw [h.wrap]; rfl, by rw [h.wrap]; exact hdek⟩

theorem wrappedKey_ext {a b : WrappedKey} (hversion : a.version = b.version)
    (hbackend : a.backend = b.backend) (hnonce : a.nonce = b.nonce)
    (hciphertext : a.ciphertext = b.ciphertext) : a = b := by
  cases a
  cases b
  cases hversion
  cases hbackend
  cases hnonce
  cases hciphertext
  rfl

/-- **What the key of the host notices**: the wrapped key is that of the thread, and the expiry has
its text. -/
theorem unwrapThreadDek_iff (hbound : Bound cfg threadId md wrap)
    (h : Intact rt cfg s threadId md wrap l) {dek : Bytes} :
    unwrapThreadDek cfg s threadId md' = .ok dek ↔ dek = wrap.dek ∧
      md'.wrappedDek = md.wrappedDek ∧
      wrapContext threadId md'.expiresAt = wrapContext threadId md.expiresAt := by
  rw [unwrapThreadDek_eq_ok_iff]
  constructor
  · intro hdek
    obtain ⟨hversion, hbackend, w, hw, hnonce, hciphertext, haad, rfl⟩ := unwrapKey_eq_ok hdek
    obtain rfl := h.sole w hw (.inr ⟨_, haad⟩)
    refine ⟨rfl, wrappedKey_ext (hversion.trans hbound.version.symm)
      (hbackend.trans hbound.backend.symm) (hnonce.symm.trans hbound.nonce)
      (hciphertext.symm.trans hbound.ciphertext), ?_⟩
    exact wrapAad_injective _ _ (haad.symm.trans hbound.aad)
  · rintro ⟨rfl, hwrapped, hcontext⟩
    have henabled : cfg.provider.enabled = true := by
      have := hbound.enabled
      unfold Config.isEnabled at this
      exact (Bool.and_eq_true _ _ ▸ this).2
    -- the search finds a wrapping of the thread, and there is only one
    have hfind : (s.wraps.find? fun w => w.nonce = md.wrappedDek.nonce &&
        (w.ciphertext = md.wrappedDek.ciphertext && w.aad = threadAad cfg threadId md.expiresAt))
        = some wrap := by
      have hsome : (s.wraps.find? fun w => w.nonce = md.wrappedDek.nonce &&
          (w.ciphertext = md.wrappedDek.ciphertext &&
            w.aad = threadAad cfg threadId md.expiresAt)).isSome = true := by
        rw [List.find?_isSome]
        exact ⟨wrap, h.own, by simp [hbound.nonce, hbound.ciphertext, hbound.aad]⟩
      obtain ⟨w, hw⟩ := Option.isSome_iff_exists.mp hsome
      have hmatch := List.find?_some hw
      simp only [Bool.and_eq_true, decide_eq_true_eq] at hmatch
      rw [hw, h.sole w (List.mem_of_find?_eq_some hw) (.inr ⟨_, hmatch.2.2⟩)]
    unfold unwrapKey
    rw [henabled, hwrapped, hcontext, hbound.version, hbound.backend, hbound.kek]
    unfold threadAad at hfind
    simp [hfind, hbound.length]

theorem chunkAad_level {level level' : Level} {i j : ℕ}
    (h : chunkAad threadId level.name i = chunkAad threadId level'.name j) : level = level' := by
  have hlists := congrArg String.toList h
  simp only [chunkAad, String.toList_append, List.append_assoc,
    List.append_cancel_left_eq] at hlists
  cases level with
  | pub => cases level' <;> first | rfl | simp [Level.name] at hlists
  | internal => cases level' <;> first | rfl | simp [Level.name] at hlists
  | sensitive => cases level' <;> first | rfl | simp [Level.name] at hlists

/-- **What the key of the thread notices**: the level, as soon as there is a chunk. -/
theorem level_of_readLines (h : Intact rt cfg s threadId md wrap l) (hl : l ≠ []) {text : String}
    {out : List Bytes} (hread : readLines (rt.cipher wrap.dek)
      (openThread cfg s threadId md' wrap.dek text) md'.base 0
      (linesOf (String.ofList (fileOf l))) = .ok out) : md'.level = md.level := by
  obtain ⟨x, xs, rfl⟩ := List.exists_cons_of_ne_nil hl
  rw [linesOf_fileOf, List.map_cons, readLines, parseRecord_chunkLine] at hread
  dsimp only at hread
  split at hread
  · cases hread
  split at hread
  · cases hread
  next plaintext hdecrypt =>
  unfold decrypt at hdecrypt
  obtain ⟨b, hfind, -⟩ := Option.map_eq_some_iff.mp hdecrypt
  have hmatch := List.find?_some hfind
  simp only [Bool.and_eq_true, decide_eq_true_eq] at hmatch
  have hb := List.mem_of_find?_eq_some hfind
  change b ∈ s.boxes wrap.dek at hb
  rw [h.boxes] at hb
  obtain ⟨y, hy, rfl⟩ := List.mem_map.mp hb
  exact chunkAad_level (hmatch.2.2.symm.trans (h.aad y hy))

/-! ### Edits -/

def edit (s : State) (threadId : String) (file : File) : State :=
  { s with metas := s.metas.put threadId file }

def Admits (md : Metadata) (principal : String) (t : ℚ) : Prop :=
  principal ∈ md.authorizedPrincipals ∧ md.expiresAt.le (.fin t) = false

/-- **What is promised of the readers**: what they read was made for them, and is not expired. -/
def Authorised (rt : Runtime) (cfg : Config) (s : State) (threadId : String)
    (principals : List String) (expiresAt : PyFloat) : Prop :=
  ∀ principal t out, readChunks rt cfg s threadId principal (.fin t) = .ok out → out ≠ [] →
    Py.strip principal ∈ cleanedPrincipals principals ∧ expiresAt.le (.fin t) = false

/-- The keys do not notice the edit: it is of a thread with chunks, and well formed, with the
wrapped key, the level and the text of the expiry as they were. -/
structure Accepted (rt : Runtime) (s : State) (threadId : String) (md : Metadata) (file : File)
    (md' : Metadata) : Prop where
  unshredded : isShredded s threadId = false
  chunks : s.chunks threadId ≠ some ""
  parse : file.value.bind (parseMetadata rt threadId) = some md'
  wrapped : md'.wrappedDek = md.wrappedDek
  level : md'.level = md.level
  expiry : md'.expiresAt.fixed 6 = md.expiresAt.fixed 6

/-- Where the keys do not notice the edit, it admits nobody who was not admitted. -/
def EditHarmless (rt : Runtime) (s : State) (threadId : String) (md : Metadata) (file : File) :
    Prop :=
  ∀ md', Accepted rt s threadId md file md' → ∀ principal t, Py.strip principal = principal →
    Admits md' principal t → Admits md principal t

theorem wrapContext_eq_iff {e e' : PyFloat} :
    wrapContext threadId e = wrapContext threadId e' ↔ e.fixed 6 = e'.fixed 6 :=
  String.append_right_inj _

theorem loadMetadata_edit_iff {file : File} :
    loadMetadata rt (edit s threadId file) threadId = .ok md' ↔
      isShredded s threadId = false ∧ file.value.bind (parseMetadata rt threadId) = some md' := by
  rw [loadMetadata_eq_ok_iff]
  exact and_congr Iff.rfl (by simp [edit])

theorem fileOf_eq_empty_iff : String.ofList (fileOf l) = "" ↔ l = [] := by
  constructor
  · intro h
    have hcount := countChunks_fileOf l
    rw [h] at hcount
    exact List.length_eq_zero_iff.mp hcount.symm
  · rintro rfl
    rfl

/-- **A reader of an edited thread**: the keys did not notice the edit, and it admits the reader. -/
theorem accepted_of_readChunks {file : File} (hauth : cfg.authorizer = none)
    (hbound : Bound cfg threadId md wrap) (h : Intact rt cfg s threadId md wrap l)
    {principal : String} {t : ℚ} {out : List Bytes} (hout : out ≠ [])
    (hread : readChunks rt cfg (edit s threadId file) threadId principal (.fin t) = .ok out) :
    ∃ md', Accepted rt s threadId md file md' ∧ Admits md' (Py.strip principal) t := by
  obtain ⟨-, md', dek, text, hload, hallowed, hlive, hdek, htext, hlines⟩ :=
    readChunks_eq_ok_iff.mp hread
  obtain ⟨hunshredded, hparse⟩ := loadMetadata_edit_iff.mp hload
  obtain ⟨rfl, hwrapped, hcontext⟩ := (unwrapThreadDek_iff hbound h).mp hdek
  obtain rfl := Option.some.inj (h.chunks.symm.trans htext)
  have hl : l ≠ [] := by
    rintro rfl
    exact hout (Except.ok.inj hlines).symm
  refine ⟨md', ⟨hunshredded, ?_, hparse, hwrapped, level_of_readLines h hl hlines,
    wrapContext_eq_iff.mp hcontext⟩, ?_, hlive⟩
  · rw [h.chunks]
    exact fun heq => hl (fileOf_eq_empty_iff.mp (Option.some.inj heq))
  · rw [hauth] at hallowed
    exact of_decide_eq_true hallowed

/-- **Whoever an edit admits that the keys do not notice reads the chunks.** -/
theorem readChunks_of_accepted {file : File} (hauth : cfg.authorizer = none)
    (hbound : Bound cfg threadId md wrap) (h : Intact rt cfg s threadId md wrap l)
    (haccepted : Accepted rt s threadId md file md') {principal : String} {t : ℚ}
    (hstrip : Py.strip principal = principal) (hadmits : Admits md' principal t) :
    readChunks rt cfg (edit s threadId file) threadId principal (.fin t)
      = .ok (l.map fun x => x.2.plaintext) := by
  obtain ⟨raw, -, hparse⟩ := Option.bind_eq_some_iff.mp haccepted.parse
  refine readChunks_eq_ok_iff.mpr ⟨⟨hbound.valid, strip_of_parseMetadata hparse _ hadmits.1,
    hbound.enabled⟩, md', wrap.dek, String.ofList (fileOf l),
    loadMetadata_edit_iff.mpr ⟨haccepted.unshredded, haccepted.parse⟩, ?_, hadmits.2, ?_,
    h.chunks, ?_⟩
  · rw [hauth, hstrip]
    exact decide_eq_true hadmits.1
  · exact (unwrapThreadDek_iff hbound h).mpr ⟨rfl, haccepted.wrapped,
      wrapContext_eq_iff.mpr haccepted.expiry⟩
  · exact readLines_fileOf (h.written haccepted.level) h.inOrder

theorem authorised_edit_iff {file : File} {principals : List String} (hauth : cfg.authorizer = none)
    (hprincipals : md.authorizedPrincipals = sortedSet (cleanedPrincipals principals))
    (hbound : Bound cfg threadId md wrap)
    (h : isShredded s threadId = true ∨ ∃ l, Intact rt cfg s threadId md wrap l) :
    Authorised rt cfg (edit s threadId file) threadId principals md.expiresAt ↔
      EditHarmless rt s threadId md file := by
  have hmem : ∀ p, p ∈ md.authorizedPrincipals ↔ p ∈ cleanedPrincipals principals := by
    intro p
    rw [hprincipals, mem_sortedSet_iff]
  rcases h with hshredded | ⟨l, h⟩
  · -- a thread with a tombstone is not read
    constructor
    · intro _ md' haccepted
      exact absurd (hshredded.symm.trans haccepted.unshredded) (by simp)
    · intro _ principal t out hread
      have hrefused : Refused rt cfg (edit s threadId file) threadId :=
        refused_of_isShredded rt cfg hshredded
      obtain ⟨e, he⟩ := hrefused.read principal (.fin t)
      exact absurd (hread.symm.trans he) (by simp)
  · constructor
    · intro hread md' haccepted principal t hstrip hadmits
      have hl : l.map (fun x => x.2.plaintext) ≠ [] := by
        intro hnil
        rw [List.map_eq_nil_iff.mp hnil] at h
        exact haccepted.chunks h.chunks
      obtain ⟨hp, ht⟩ := hread principal t _
        (readChunks_of_accepted hauth hbound h haccepted hstrip hadmits) hl
      rw [hstrip] at hp
      exact ⟨(hmem principal).mpr hp, ht⟩
    · intro hedit principal t out hread hout
      obtain ⟨md', haccepted, hadmits⟩ := accepted_of_readChunks hauth hbound h hout hread
      obtain ⟨hp, ht⟩ := hedit md' haccepted _ t (Py.strip_strip principal) hadmits
      exact ⟨(hmem _).mp hp, ht⟩

/-- **A thread that was made stays intact, or has a tombstone.** -/
theorem intact_path {acts : List Act} (hbound : Bound cfg threadId md wrap)
    (path : Path (KeyStep rt cfg) s acts s') (h : Intact rt cfg s threadId md wrap l) :
    isShredded s' threadId = true ∨ ∃ l', Intact rt cfg s' threadId md wrap l' := by
  refine path.invariant (I := fun s => isShredded s threadId = true ∨
    ∃ l, Intact rt cfg s threadId md wrap l) ?_ (.inr ⟨l, h⟩)
  rintro s a t (hshredded | ⟨l, h⟩) hstep
  · obtain ⟨-, rfl⟩ := hstep
    exact .inl (isShredded_run a hshredded)
  · exact intact_step h hbound.valid ⟨_, hbound.aad⟩ hstep

/-- **An edit lets nobody else in if and only if** the keys notice it, or it admits nobody who was
not admitted when the thread was made. -/
theorem authorised_iff {before after : List Act} {s₀ s₁ : State} {level : Level}
    {principals : List String} {ttlSeconds : ℤ} {dek : Bytes} {nonce : Nonce} (file : File)
    (hauth : cfg.authorizer = none) (hbefore : Path (KeyStep rt cfg) .empty before s₀)
    (hfresh : (Act.create threadId level principals ttlSeconds now dek nonce).Fresh s₀)
    (hmade : createThread rt cfg s₀ threadId level principals ttlSeconds now dek nonce
      = (.ok md, s₁))
    (hafter : Path (KeyStep rt cfg) s₁ after s) :
    Authorised rt cfg (edit s threadId file) threadId principals md.expiresAt ↔
      EditHarmless rt s threadId md file := by
  obtain ⟨hlength, hboxes, hnew⟩ := hfresh
  rcases createThread_cases rt cfg s₀ threadId level principals ttlSeconds now dek nonce with
    ⟨e, he⟩ | ⟨md', wrap, hmd, he⟩
  · rw [he] at hmade
    cases hmade
  · rw [he] at hmade
    cases hmade
    have hbound := hmd.bound hlength
    have hintact := intact_writeThread (accounted_path hbefore) hboxes hnew hmd
    exact authorised_edit_iff hauth hmd.principals hbound (intact_path hbound hafter hintact)

/-- For numbers, an edit admits nobody else if its principals are some of those that were given, and
its expiry is not later. -/
theorem admits_imp_iff {e e' : ℚ} (he : md.expiresAt = .fin e) (he' : md'.expiresAt = .fin e') :
    (∀ principal t, Py.strip principal = principal → Admits md' principal t →
        Admits md principal t) ↔
      ∀ principal ∈ md'.authorizedPrincipals, Py.strip principal = principal →
        principal ∈ md.authorizedPrincipals ∧ e' ≤ e := by
  simp only [Admits, he, he', PyFloat.le_fin_fin, decide_eq_false_iff_not, not_le]
  constructor
  · intro h principal hp hstrip
    refine ⟨(h principal (e' - 1) hstrip ⟨hp, sub_one_lt e'⟩).1, le_of_not_gt fun hlt => ?_⟩
    exact lt_irrefl e (h principal e hstrip ⟨hp, hlt⟩).2
  · rintro h principal t hstrip ⟨hp, ht⟩
    obtain ⟨hmem, hle⟩ := h principal hp hstrip
    exact ⟨hmem, ht.trans_le hle⟩

/-! ### A thread of its own -/

def firstKey : Bytes := List.replicate 32 7

/-- The thread `b` is made for `p`, and expires at `9.0000001`. -/
def firstAct : Act := .create "b" .sensitive ["p"] 9 (.fin (1 / 10000000)) firstKey zeroNonce

def firstState : State := firstAct.run plainRuntime vaultConfig .empty

def firstMetadata : Metadata where
  level := .sensitive
  createdAt := .fin (1 / 10000000)
  expiresAt := .fin (90000001 / 10000000)
  authorizedPrincipals := ["p"]
  wrappedDek := ⟨1, "vault", List.replicate 12 0, [1], vault_mem_backends, length_zeroBytes,
    oneByte_ne_nil⟩

def secondState : State :=
  (Act.append "b" [1] zeroNonce (.fin 1)).run plainRuntime vaultConfig firstState

def fileWith (md : Metadata) : File := ⟨some (payload "b" md), 1, fun _ => Nat.one_pos⟩

theorem path_append : Path (KeyStep plainRuntime vaultConfig) firstState
    [.append "b" [1] zeroNonce (.fin 1)] secondState :=
  .single ⟨trivial, rfl⟩

theorem path_secondState : Path (KeyStep plainRuntime vaultConfig) .empty
    [firstAct, .append "b" [1] zeroNonce (.fin 1)] secondState :=
  .cons ⟨⟨rfl, rfl, nofun⟩, rfl⟩ path_append

theorem createThread_first : createThread plainRuntime vaultConfig .empty "b" .sensitive ["p"] 9
    (.fin (1 / 10000000)) firstKey zeroNonce = (.ok firstMetadata, firstState) :=
  Prod.ext (by decide +kernel) rfl

/-- Metadata that are written back let nobody else in. -/
theorem authorised_unchanged : Authorised plainRuntime vaultConfig
    (edit secondState "b" (fileWith firstMetadata)) "b" ["p"] firstMetadata.expiresAt := by
  refine (authorised_iff (fileWith firstMetadata) rfl (.nil _) ⟨rfl, rfl, nofun⟩ createThread_first
    path_append).mpr ?_
  intro md' haccepted principal t _ hadmits
  have hparse : parseMetadata plainRuntime "b" (payload "b" firstMetadata) = some firstMetadata :=
    parseMetadata_payload plainRuntime "b" (by simp [firstMetadata]) (by
      intro p hp
      rw [List.mem_singleton.mp hp]
      decide +kernel)
  rwa [Option.some.inj (haccepted.parse.symm.trans hparse)] at hadmits

/-- **Whoever is written into the metadata reads the thread**, and an expiry with the same six
digits lets a reader in for longer. -/
theorem not_authorised :
    Path (KeyStep plainRuntime vaultConfig) .empty
      [firstAct, .append "b" [1] zeroNonce (.fin 1)] secondState ∧
    ¬ Authorised plainRuntime vaultConfig
      (edit secondState "b" (fileWith { firstMetadata with authorizedPrincipals := ["p", "q"] }))
      "b" ["p"] firstMetadata.expiresAt ∧
    ¬ Authorised plainRuntime vaultConfig
      (edit secondState "b"
        (fileWith { firstMetadata with expiresAt := .fin (90000004 / 10000000) }))
      "b" ["p"] firstMetadata.expiresAt := by
  refine ⟨path_secondState, fun h => ?_, fun h => ?_⟩
  · have hq := (h "q" 2 [[1]] (by decide +kernel) (by simp)).1
    exact absurd hq (by decide +kernel)
  · have hlate := (h "p" (90000002 / 10000000) [[1]] (by decide +kernel) (by simp)).2
    exact absurd hlate (by decide +kernel)

end TranscriptStore
