import RunnerDashboard.Lib.Path
import RunnerDashboard.PrivateMode.TranscriptStore

/-!
# Histories of the store of the transcripts

Threads are made, written and destroyed, one call after the other; a call that destroys may be
killed after any of its file operations.  The tombstone comes before anything else that is done to
the files of a thread, so a thread is either as it was or has a tombstone.

## Main results

* `isShredded_path` — a tombstone stays.
* `wellFormed_path` — **what was well formed is so, or has a tombstone.**
-/

namespace TranscriptStore

open Transcripts Lts
open Py (Value pyInt)

/-! ### Operations on other threads -/

/-- The thread whose files an operation changes. -/
def FileOp.thread? : FileOp → Option String
  | .appendTombstone _ => none
  | .writeMeta threadId _ => some threadId
  | .unlinkMeta threadId => some threadId
  | .writeChunks threadId _ => some threadId
  | .unlinkChunks threadId => some threadId

structure SameFiles (s s' : State) (threadId : String) : Prop where
  metas : s'.metas.get? threadId = s.metas.get? threadId
  chunks : s'.chunks threadId = s.chunks threadId

variable {rt : Runtime} {cfg : Config} {s s' t : State} {threadId other : String}
  {ops ops' : List FileOp} {now : PyFloat}

theorem SameFiles.refl (s : State) (threadId : String) : SameFiles s s threadId := ⟨rfl, rfl⟩

theorem SameFiles.trans (h : SameFiles s t threadId) (h' : SameFiles t s' threadId) :
    SameFiles s s' threadId :=
  ⟨h'.metas.trans h.metas, h'.chunks.trans h.chunks⟩

@[simp] theorem runOps_nil (s : State) : runOps s [] = s := rfl

@[simp] theorem runOps_cons (s : State) (op : FileOp) (ops : List FileOp) :
    runOps s (op :: ops) = runOps (op.apply s) ops := rfl

theorem runOps_append (s : State) (ops ops' : List FileOp) :
    runOps s (ops ++ ops') = runOps (runOps s ops) ops' := List.foldl_append

theorem sameFiles_apply {op : FileOp} (h : op.thread? ≠ some threadId) :
    SameFiles s (op.apply s) threadId := by
  cases op with
  | appendTombstone t => exact ⟨rfl, rfl⟩
  | writeMeta id n =>
    have hne : threadId ≠ id := fun heq => h (congrArg some heq.symm)
    exact ⟨Sql.Table.get?_put_of_ne _ hne _, rfl⟩
  | unlinkMeta id =>
    have hne : threadId ≠ id := fun heq => h (congrArg some heq.symm)
    refine ⟨?_, rfl⟩
    rw [FileOp.apply, Sql.Table.get?_delete]
    cases s.metas.get? threadId with
    | none => rfl
    | some file => simp [hne]
  | writeChunks id n =>
    have hne : threadId ≠ id := fun heq => h (congrArg some heq.symm)
    exact ⟨rfl, Function.update_of_ne hne _ _⟩
  | unlinkChunks id =>
    have hne : threadId ≠ id := fun heq => h (congrArg some heq.symm)
    exact ⟨rfl, Function.update_of_ne hne _ _⟩

theorem sameFiles_runOps (h : ∀ op ∈ ops, op.thread? ≠ some threadId) :
    SameFiles s (runOps s ops) threadId := by
  induction ops generalizing s with
  | nil => exact .refl s threadId
  | cons op ops ih =>
    have hop := sameFiles_apply (s := s) (h op List.mem_cons_self)
    exact hop.trans (ih fun op' hop' => h op' (List.mem_cons_of_mem op hop'))

theorem isShredded_apply (op : FileOp) (h : isShredded s threadId = true) :
    isShredded (op.apply s) threadId = true := by
  cases op with
  | appendTombstone t =>
    simp only [isShredded, FileOp.apply, List.any_append, Bool.or_eq_true]
    exact .inl h
  | _ => exact h

theorem isShredded_runOps (ops : List FileOp) (h : isShredded s threadId = true) :
    isShredded (runOps s ops) threadId = true := by
  induction ops generalizing s with
  | nil => exact h
  | cons op ops ih => exact ih (isShredded_apply op h)

theorem runOps_wraps (s : State) (ops : List FileOp) :
    (runOps s ops).wraps = s.wraps ∧ (runOps s ops).boxes = s.boxes := by
  induction ops generalizing s with
  | nil => exact ⟨rfl, rfl⟩
  | cons op ops ih =>
    rw [runOps_cons, (ih _).1, (ih _).2]
    cases op <;> exact ⟨rfl, rfl⟩

theorem isShredded_runOps_of_ne
    (h : ∀ t, FileOp.appendTombstone t ∈ ops → t.threadId ≠ threadId) :
    isShredded (runOps s ops) threadId = isShredded s threadId := by
  induction ops generalizing s with
  | nil => rfl
  | cons op ops ih =>
    rw [runOps_cons, ih fun t ht => h t (List.mem_cons_of_mem op ht)]
    cases op with
    | appendTombstone t =>
      have hne := h t List.mem_cons_self
      simp [isShredded, FileOp.apply, hne]
    | _ => rfl

/-! ### One thread is destroyed -/

theorem mem_metaOps {op : FileOp} (h : op ∈ metaOps s threadId) : op.thread? = some threadId := by
  unfold metaOps at h
  split at h
  · cases h
  · rcases List.mem_append.mp h with h | h
    · split at h
      · rcases List.mem_cons.mp h with rfl | h
        · rfl
        · rw [List.mem_singleton.mp h]
          rfl
      · cases h
    · rw [List.mem_singleton.mp h]
      rfl

theorem mem_chunkOps {op : FileOp} (h : op ∈ chunkOps s threadId) : op.thread? = some threadId := by
  unfold chunkOps at h
  split at h
  · cases h
  · rcases List.mem_append.mp h with h | h
    · split at h
      · rcases List.mem_cons.mp h with rfl | h
        · rfl
        · rw [List.mem_singleton.mp h]
          rfl
      · cases h
    · rw [List.mem_singleton.mp h]
      rfl

theorem mem_shredOps {op : FileOp} {reason : String} (h : op ∈ shredOps s threadId reason now) :
    op = .appendTombstone ⟨threadId, now, Py.strip reason⟩ ∨ op.thread? = some threadId := by
  unfold shredOps at h
  rcases List.mem_append.mp h with h | h
  · split at h
    · cases h
    · exact .inl (List.mem_singleton.mp h)
  · rcases List.mem_append.mp h with h | h
    · exact .inr (mem_metaOps h)
    · exact .inr (mem_chunkOps h)

theorem not_touched_of_mem_shredOps {op : FileOp} {reason : String} (hne : other ≠ threadId)
    (h : op ∈ shredOps s threadId reason now) : op.thread? ≠ some other := by
  rcases mem_shredOps h with rfl | h
  · exact nofun
  · rw [h]
    exact fun heq => hne (Option.some.inj heq).symm

theorem tombstone_of_mem_shredOps {t : Tombstone} {reason : String}
    (h : .appendTombstone t ∈ shredOps s threadId reason now) : t.threadId = threadId := by
  rcases mem_shredOps h with heq | h
  · cases heq
    rfl
  · cases h

/-- The files of a thread are left alone, or it has a tombstone. -/
def Spared (s s' : State) (threadId : String) : Prop :=
  isShredded s' threadId = true ∨ SameFiles s s' threadId

/-- **The tombstone comes first**, wherever the operations end. -/
theorem spared_shredOps (s : State) (threadId reason : String) (now : PyFloat) (k : ℕ)
    (other : String) :
    Spared s (runOps s ((shredOps s threadId reason now).take k)) other := by
  by_cases hne : other = threadId
  · subst hne
    cases hshredded : isShredded s other with
    | true => exact .inl (isShredded_runOps _ hshredded)
    | false =>
      cases k with
      | zero => exact .inr (.refl s other)
      | succ k =>
        left
        rw [shredOps, hshredded, if_neg Bool.false_ne_true, List.singleton_append,
          List.take_succ_cons, runOps_cons]
        apply isShredded_runOps
        simp [isShredded, FileOp.apply]
  · exact .inr (sameFiles_runOps fun op hop =>
      not_touched_of_mem_shredOps hne (List.mem_of_mem_take hop))

/-! ### Expired threads are destroyed -/

/-- Where a sequence of operations is killed: in its first part, or after it. -/
theorem runOps_take_append (s : State) (ops ops' : List FileOp) (k : ℕ) :
    runOps s ((ops ++ ops').take k) = runOps s (ops.take k) ∨
      runOps s ((ops ++ ops').take k)
        = runOps (runOps s ops) (ops'.take (k - ops.length)) := by
  rw [List.take_append]
  rcases Nat.le_total k ops.length with hle | hle
  · left
    rw [Nat.sub_eq_zero_of_le hle, List.take_zero, List.append_nil]
  · right
    rw [List.take_of_length_le hle, runOps_append]

theorem cryptoShred_eq_ok {reason : String} (h : cryptoShred s threadId reason now = .ok ops) :
    validThreadId threadId = true ∧ ops = shredOps s threadId reason now := by
  unfold cryptoShred at h
  split at h
  · cases h
  next hvalid =>
  split at h
  · cases h
  exact ⟨by simpa using hvalid, (Except.ok.inj h).symm⟩

/-- **A purge that is killed leaves the files of a thread alone, or its tombstone.** -/
theorem spared_purgeLoop (now : PyFloat) (ids : List String) (s : State) (k : ℕ) (other : String) :
    Spared s (runOps s ((purgeLoop rt now ids s).1.take k)) other := by
  induction ids generalizing s k with
  | nil =>
    right
    rw [purgeLoop, List.take_nil]
    exact .refl s other
  | cons threadId ids ih =>
    unfold purgeLoop
    split
    · exact ih s k
    split
    · right
      rw [List.take_nil]
      exact .refl s other
    split
    · exact ih s k
    split
    · right
      rw [List.take_nil]
      exact .refl s other
    next ops hops =>
    obtain ⟨-, rfl⟩ := cryptoShred_eq_ok hops
    dsimp only
    rcases runOps_take_append s (shredOps s threadId "ttl-expired" now)
      (purgeLoop rt now ids (runOps s (shredOps s threadId "ttl-expired" now))).1 k with h | h
    · rw [h]
      exact spared_shredOps s threadId "ttl-expired" now k other
    · rw [h]
      have hfirst := spared_shredOps s threadId "ttl-expired" now
        (shredOps s threadId "ttl-expired" now).length other
      rw [List.take_length] at hfirst
      rcases hfirst with hfirst | hfirst
      · exact .inl (isShredded_runOps _ hfirst)
      · rcases ih (runOps s (shredOps s threadId "ttl-expired" now))
          (k - (shredOps s threadId "ttl-expired" now).length) with hrest | hrest
        · exact .inl hrest
        · exact .inr (hfirst.trans hrest)

/-! ### Calls -/

/-- A call.  One that destroys does its first `ops` operations. -/
inductive Act
  | create (threadId : String) (level : Level) (principals : List String) (ttlSeconds : ℤ)
    (now : PyFloat) (dek : Bytes) (nonce : Nonce)
  | append (threadId : String) (plaintext : Bytes) (nonce : Nonce) (now : PyFloat)
  | shred (threadId reason : String) (now : PyFloat) (ops : ℕ)
  | purge (now : PyFloat) (ops : ℕ)

/-- What a call does. -/
def Act.run (rt : Runtime) (cfg : Config) (s : State) : Act → State
  | .create threadId level principals ttlSeconds now dek nonce =>
    (createThread rt cfg s threadId level principals ttlSeconds now dek nonce).2
  | .append threadId plaintext nonce now => (appendChunk rt cfg s threadId plaintext nonce now).2
  | .shred threadId reason now k =>
    match cryptoShred s threadId reason now with
    | .error _ => s
    | .ok ops => runOps s (ops.take k)
  | .purge now k => runOps s ((purgeExpired rt cfg s now).1.take k)

def Step (rt : Runtime) (cfg : Config) (s : State) (a : Act) (s' : State) : Prop :=
  s' = a.run rt cfg s

/-- A call that destroys leaves the files of a thread alone, or its tombstone. -/
theorem spared_shred (rt : Runtime) (cfg : Config) (s : State) (threadId reason : String)
    (now : PyFloat) (k : ℕ) (other : String) :
    Spared s ((Act.shred threadId reason now k).run rt cfg s) other := by
  unfold Act.run
  dsimp only
  split
  · exact .inr (.refl s other)
  · next hops =>
    rw [(cryptoShred_eq_ok hops).2]
    exact spared_shredOps s threadId reason now k other

theorem wraps_shred (rt : Runtime) (cfg : Config) (s : State) (threadId reason : String)
    (now : PyFloat) (k : ℕ) :
    ((Act.shred threadId reason now k).run rt cfg s).wraps = s.wraps ∧
      ((Act.shred threadId reason now k).run rt cfg s).boxes = s.boxes := by
  unfold Act.run
  dsimp only
  split
  · exact ⟨rfl, rfl⟩
  · exact runOps_wraps _ _

theorem spared_purge (rt : Runtime) (cfg : Config) (s : State) (now : PyFloat) (k : ℕ)
    (other : String) : Spared s ((Act.purge now k).run rt cfg s) other := by
  simp only [Act.run, purgeExpired]
  split
  · right
    rw [List.take_nil]
    exact .refl s other
  · exact spared_purgeLoop now (metaThreads s) s k other

theorem isShredded_run (a : Act) (h : isShredded s threadId = true) :
    isShredded (a.run rt cfg s) threadId = true := by
  cases a with
  | create id level principals ttlSeconds now dek nonce =>
    rcases createThread_cases rt cfg s id level principals ttlSeconds now dek nonce with
      ⟨e, he⟩ | ⟨md, wrap, -, he⟩
    · rwa [Act.run, he]
    · rwa [Act.run, he]
  | append id plaintext nonce now =>
    rcases appendChunk_cases rt cfg s id plaintext nonce now with
      ⟨e, he⟩ | ⟨md, text, dek, -, -, -, -, he⟩
    · rwa [Act.run, he]
    · rwa [Act.run, he]
  | shred id reason now k =>
    unfold Act.run
    dsimp only
    split
    · exact h
    · exact isShredded_runOps _ h
  | purge now k => exact isShredded_runOps _ h

/-- The metadata file of a thread stays, or there is a tombstone. -/
theorem metas_run (rt : Runtime) (cfg : Config) (a : Act) {file : File}
    (h : s.metas.get? threadId = some file) : isShredded (a.run rt cfg s) threadId = true ∨
      (a.run rt cfg s).metas.get? threadId = some file := by
  have hspared : ∀ s', Spared s s' threadId →
      isShredded s' threadId = true ∨ s'.metas.get? threadId = some file := by
    rintro s' (hshredded | hsame)
    · exact .inl hshredded
    · exact .inr (hsame.metas.trans h)
  cases a with
  | create id level principals ttlSeconds now dek nonce =>
    right
    rcases createThread_cases rt cfg s id level principals ttlSeconds now dek nonce with
      ⟨e, he⟩ | ⟨md, wrap, hmade, he⟩
    · rwa [Act.run, he]
    · rw [Act.run, he]
      have hne : threadId ≠ id := by
        rintro rfl
        exact absurd (h.symm.trans hmade.noMeta) (by simp)
      exact (Sql.Table.get?_put_of_ne _ hne _).trans h
  | append id plaintext nonce now =>
    right
    rcases appendChunk_cases rt cfg s id plaintext nonce now with
      ⟨e, he⟩ | ⟨md, text, dek, -, -, -, -, he⟩
    · rwa [Act.run, he]
    · rwa [Act.run, he]
  | shred id reason now k => exact hspared _ (spared_shred rt cfg s id reason now k threadId)
  | purge now k => exact hspared _ (spared_purge rt cfg s now k threadId)

/-! ### Histories -/

def WellFormed (rt : Runtime) (s : State) (threadId : String) (md : Metadata) : Prop :=
  ∃ file, s.metas.get? threadId = some file ∧
    file.value.bind (parseMetadata rt threadId) = some md

variable {acts : List Act} {md : Metadata}

theorem wellFormed_writeThread {value : Value} {wrap : Wrap}
    (h : parseMetadata rt threadId value = some md) :
    WellFormed rt (writeThread rt s threadId value wrap) threadId md :=
  ⟨⟨some value, rt.dumpsSize value + 1, fun _ => Nat.succ_pos _⟩, by simp [writeThread], h⟩

theorem wellFormed_congr (h : SameFiles s s' threadId) :
    WellFormed rt s' threadId md ↔ WellFormed rt s threadId md := by
  unfold WellFormed
  rw [h.metas]

theorem wellFormed_unique {md' : Metadata} (h : WellFormed rt s threadId md)
    (h' : WellFormed rt s threadId md') : md = md' := by
  obtain ⟨file, hfile, hparse⟩ := h
  obtain ⟨file', hfile', hparse'⟩ := h'
  obtain rfl := Option.some.inj (hfile.symm.trans hfile')
  exact Option.some.inj (hparse.symm.trans hparse')

theorem isShredded_path (path : Path (Step rt cfg) s acts s')
    (h : isShredded s threadId = true) : isShredded s' threadId = true := by
  refine path.invariant (I := fun s => isShredded s threadId = true) ?_ h
  rintro s a t hs rfl
  exact isShredded_run a hs

/-- **What was well formed is so, or has a tombstone.** -/
theorem wellFormed_path (path : Path (Step rt cfg) s acts s') (h : WellFormed rt s threadId md) :
    isShredded s' threadId = true ∨ WellFormed rt s' threadId md := by
  refine path.invariant (I := fun s => isShredded s threadId = true ∨ WellFormed rt s threadId md)
    ?_ (.inr h)
  rintro s a t (hs | ⟨file, hfile, hparse⟩) rfl
  · exact .inl (isShredded_run a hs)
  · rcases metas_run rt cfg a hfile with hshredded | hfile
    · exact .inl hshredded
    · exact .inr ⟨file, hfile, hparse⟩

/-! ### Threads with a tombstone -/

/-- A thread is not read, written or made. -/
structure Refused (rt : Runtime) (cfg : Config) (s : State) (threadId : String) : Prop where
  read : ∀ principal now, ∃ e, readChunks rt cfg s threadId principal now = .error e
  append : ∀ plaintext nonce now, ∃ e, appendChunk rt cfg s threadId plaintext nonce now
    = (.error e, s)
  create : ∀ level principals ttlSeconds now dek nonce, ∃ e,
    createThread rt cfg s threadId level principals ttlSeconds now dek nonce = (.error e, s)

/-- **A thread with a tombstone is not read, written or made.** -/
theorem refused_of_isShredded (rt : Runtime) (cfg : Config) (h : isShredded s threadId = true) :
    Refused rt cfg s threadId := by
  have hload : ∀ md, loadMetadata rt s threadId ≠ .ok md := by
    intro md hmd
    have hunshredded := (loadMetadata_eq_ok_iff.mp hmd).1
    exact absurd (h.symm.trans hunshredded) (by simp)
  refine ⟨fun principal now => ?_, fun plaintext nonce now => ?_,
    fun level principals ttlSeconds now dek nonce => ?_⟩
  · cases hread : readChunks rt cfg s threadId principal now with
    | error e => exact ⟨e, rfl⟩
    | ok out =>
      obtain ⟨-, md, dek, text, hmd, -⟩ := readChunks_eq_ok_iff.mp hread
      exact absurd hmd (hload md)
  · rcases appendChunk_cases rt cfg s threadId plaintext nonce now with
      he | ⟨md, text, dek, -, hmd, -⟩
    · exact he
    · exact absurd hmd (hload md)
  · rcases createThread_cases rt cfg s threadId level principals ttlSeconds now dek nonce with
      he | ⟨md, wrap, hmade, -⟩
    · exact he
    · exact absurd (h.symm.trans hmade.unshredded) (by simp)

/-! ### A store of its own -/

theorem vault_mem_backends : "vault" ∈ backends := by simp [backends]

theorem length_zeroBytes : (List.replicate 12 0 : Bytes).length = nonceLen := rfl

theorem oneByte_ne_nil : ([1] : Bytes) ≠ [] := by simp

/-- A runtime that reads no numbers from texts, and hides nothing. -/
def plainRuntime : Runtime where
  intOf := fun _ => none
  floatOf := fun _ => none
  floatOfInt := fun n => some (.fin n)
  strOf := fun _ => ""
  dumpsSize := fun _ => 0
  rounding := .exact
  loads := fun s => (Json.loads s).map Value.ofJson
  loads_line := map_loads_chunkLine
  encrypt := fun _ _ plaintext _ => plaintext
  wrapEncrypt := fun _ _ _ => ⟨[1], by simp⟩

def vaultConfig : Config where
  privateMode := true
  provider := ⟨true, "vault", by simp [backends], none⟩
  authorizer := none
  maxTtlSeconds := 604800

end TranscriptStore
