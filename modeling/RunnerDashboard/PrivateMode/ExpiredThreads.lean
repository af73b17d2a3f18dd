import Mathlib.Data.String.Basic
import RunnerDashboard.PrivateMode.TranscriptHistory

/-!
# Threads that expire are destroyed

A purge goes through the metadata files in the order of their names.  It passes over threads with a
tombstone, even if their files are left, and ends at the first file that it cannot read and that has
no tombstone.  So a thread that was well formed and is expired loses its files unless its own
destruction was broken off after the tombstone, or such a file comes before its own.

## Main results

* `gone_purgeLoop_iff` — which threads a purge destroys.
* `destroyed_iff` — **when a purge destroys all expired threads.**
-/

namespace TranscriptStore

open Transcripts Lts
open Py (Value pyInt)

variable {rt : Runtime} {cfg : Config} {s s' : State} {threadId other : String}
  {now : PyFloat} {md : Metadata} {ids : List String}

/-- Neither the wrapped key nor the chunks are left. -/
def Gone (s : State) (threadId : String) : Prop :=
  s.metas.get? threadId = none ∧ s.chunks threadId = none

/-- A metadata file without a tombstone at which a purge ends: it is malformed, or the thread is
expired and its name is not one of a thread. -/
def Blocks (rt : Runtime) (now : PyFloat) (s : State) (threadId : String) : Prop :=
  isShredded s threadId = false ∧
    ((∀ md, ¬ WellFormed rt s threadId md) ∨
      validThreadId threadId = false ∧ ∃ md, WellFormed rt s threadId md ∧ md.expiresAt.le now)

/-! ### The loop -/

theorem metas_runOps_metaOps {s t : State} (h : t.metas.get? threadId = s.metas.get? threadId) :
    (runOps t (metaOps s threadId)).metas.get? threadId = none := by
  unfold metaOps
  split
  · next hnone => rw [runOps_nil, h, hnone]
  · rw [runOps_append, runOps_cons, runOps_nil, FileOp.apply, Sql.Table.get?_delete]
    cases (runOps t _).metas.get? threadId with
    | none => rfl
    | some file => simp

theorem chunks_runOps_chunkOps {s t : State} (h : t.chunks threadId = s.chunks threadId) :
    (runOps t (chunkOps s threadId)).chunks threadId = none := by
  unfold chunkOps
  split
  · next hnone => rw [runOps_nil, h, hnone]
  · rw [runOps_append, runOps_cons, runOps_nil, FileOp.apply]
    exact Function.update_self _ _ _

theorem chunks_runOps_metaOps (s t : State) (threadId : String) :
    (runOps t (metaOps s threadId)).chunks = t.chunks := by
  unfold metaOps
  split
  · rfl
  · split
    · rfl
    · rfl

theorem metas_runOps_chunkOps (s t : State) (threadId : String) :
    (runOps t (chunkOps s threadId)).metas = t.metas := by
  unfold chunkOps
  split
  · rfl
  · split
    · rfl
    · rfl

/-- **`crypto_shred` destroys the files.** -/
theorem gone_runOps_shredOps (s : State) (threadId reason : String) (now : PyFloat) :
    Gone (runOps s (shredOps s threadId reason now)) threadId := by
  have htombstone : SameFiles s
      (runOps s (if isShredded s threadId then []
        else [.appendTombstone ⟨threadId, now, Py.strip reason⟩])) threadId := by
    split
    · exact .refl s threadId
    · exact ⟨rfl, rfl⟩
  rw [shredOps, runOps_append, runOps_append]
  constructor
  · rw [metas_runOps_chunkOps]
    exact metas_runOps_metaOps htombstone.metas
  · apply chunks_runOps_chunkOps
    rw [chunks_runOps_metaOps]
    exact htombstone.chunks

theorem not_gone_of_wellFormed (h : WellFormed rt s threadId md) : ¬ Gone s threadId := by
  obtain ⟨file, hfile, -⟩ := h
  intro hgone
  exact absurd (hfile.symm.trans hgone.1) (by simp)

/-- What the destruction of one thread leaves of another. -/
theorem sameFiles_shredOps (s : State) {threadId : String} (reason : String) (now : PyFloat)
    (hne : other ≠ threadId) : SameFiles s (runOps s (shredOps s threadId reason now)) other :=
  sameFiles_runOps fun _ hop => not_touched_of_mem_shredOps hne hop

theorem isShredded_shredOps (s : State) {threadId : String} (reason : String) (now : PyFloat)
    (hne : other ≠ threadId) :
    isShredded (runOps s (shredOps s threadId reason now)) other = isShredded s other :=
  isShredded_runOps_of_ne fun _ ht heq => hne (heq.symm.trans (tombstone_of_mem_shredOps ht))

theorem blocks_shredOps (s : State) {threadId : String} (reason : String) (now ts : PyFloat)
    (hne : other ≠ threadId) :
    Blocks rt ts (runOps s (shredOps s threadId reason now)) other ↔ Blocks rt ts s other := by
  have hsame := sameFiles_shredOps s reason now hne
  simp only [Blocks, isShredded_shredOps s reason now hne, wellFormed_congr hsame]

/-- **What the loop does with a file**: it passes over it, ends, or destroys the thread. -/
theorem purgeLoop_cons_cases (rt : Runtime) (now : PyFloat) (n : String) (ids : List String)
    (s : State) :
    (¬ Blocks rt now s n ∧
        (∀ md, isShredded s n = false → WellFormed rt s n md → md.expiresAt.le now = false) ∧
        (purgeLoop rt now (n :: ids) s).1 = (purgeLoop rt now ids s).1) ∨
      (Blocks rt now s n ∧ (purgeLoop rt now (n :: ids) s).1 = []) ∨
      (isShredded s n = false ∧ ¬ Blocks rt now s n ∧
        (purgeLoop rt now (n :: ids) s).1 = shredOps s n "ttl-expired" now ++
          (purgeLoop rt now ids (runOps s (shredOps s n "ttl-expired" now))).1) := by
  cases hshredded : isShredded s n with
  | true =>
    left
    refine ⟨fun h => absurd (hshredded.symm.trans h.1) (by simp), nofun, ?_⟩
    rw [purgeLoop, if_pos hshredded]
  | false =>
    rw [purgeLoop, hshredded, if_neg Bool.false_ne_true]
    cases hload : loadMetadata rt s n with
    -- what cannot be read ends the loop
    | error e =>
      right
      left
      refine ⟨⟨hshredded, .inl fun md hwell => ?_⟩, rfl⟩
      have hok := loadMetadata_eq_ok_iff.mpr ⟨hshredded, hwell⟩
      exact absurd (hload.symm.trans hok) (by simp)
    | ok md =>
      obtain ⟨-, hwell⟩ := loadMetadata_eq_ok_iff.mp hload
      have hunique : ∀ md', WellFormed rt s n md' → md' = md := fun md' hwell' =>
        wellFormed_unique hwell' hwell
      dsimp only
      cases hexpired : md.expiresAt.le now with
      | false =>
        left
        have hlive : ∀ md', WellFormed rt s n md' → md'.expiresAt.le now = false := by
          intro md' hwell'
          rw [hunique md' hwell', hexpired]
        refine ⟨?_, fun md' _ hwell' => hlive md' hwell', rfl⟩
        rintro ⟨-, hmalformed | ⟨-, md', hwell', hexpired'⟩⟩
        · exact hmalformed md hwell
        · exact absurd (hexpired'.symm.trans (hlive md' hwell')) (by simp)
      | true =>
        right
        cases hvalid : validThreadId n with
        | false =>
          left
          refine ⟨⟨hshredded, .inr ⟨hvalid, md, hwell, hexpired⟩⟩, ?_⟩
          simp [cryptoShred, hvalid]
        | true =>
          right
          refine ⟨rfl, ?_, ?_⟩
          · rintro ⟨-, hmalformed | ⟨hinvalid, -⟩⟩
            · exact hmalformed md hwell
            · exact absurd (hvalid.symm.trans hinvalid) (by simp)
          · have hops : cryptoShred s n "ttl-expired" now =
                .ok (shredOps s n "ttl-expired" now) := by
              have hreason : Py.strip "ttl-expired" ≠ "" := by decide +kernel
              simp [cryptoShred, hvalid, hreason]
            rw [hops]
            rfl

/-- A purge leaves other threads alone, and those with a tombstone. -/
theorem sameFiles_purgeLoop (rt : Runtime) (now : PyFloat) (ids : List String)
    (h : threadId ∈ ids → isShredded s threadId = true) :
    SameFiles s (runOps s (purgeLoop rt now ids s).1) threadId := by
  induction ids generalizing s with
  | nil => exact .refl s threadId
  | cons n ids ih =>
    have hids : threadId ∈ ids → isShredded s threadId = true := fun hmem =>
      h (List.mem_cons_of_mem n hmem)
    rcases purgeLoop_cons_cases rt now n ids s with
      ⟨-, -, hops⟩ | ⟨-, hops⟩ | ⟨hunshredded, -, hops⟩
    · rw [hops]
      exact ih hids
    · rw [hops]
      exact .refl s threadId
    · have hne : threadId ≠ n := by
        rintro rfl
        exact absurd ((h List.mem_cons_self).symm.trans hunshredded) (by simp)
      rw [hops, runOps_append]
      refine (sameFiles_shredOps s "ttl-expired" now hne).trans (ih fun hmem => ?_)
      exact isShredded_runOps _ (hids hmem)

/-- **Which threads a purge destroys**: those before which nothing blocks it. -/
theorem gone_purgeLoop_iff (hsorted : ids.Pairwise fun i j => metaName i < metaName j)
    (hmem : threadId ∈ ids) (hunshredded : isShredded s threadId = false)
    (hwell : WellFormed rt s threadId md) (hexpired : md.expiresAt.le now = true) :
    Gone (runOps s (purgeLoop rt now ids s).1) threadId ↔
      ∀ other ∈ ids, metaName other ≤ metaName threadId → ¬ Blocks rt now s other := by
  induction ids generalizing s with
  | nil => cases hmem
  | cons n ids ih =>
    obtain ⟨hhead, htail⟩ := List.pairwise_cons.mp hsorted
    have hle : metaName n ≤ metaName threadId := by
      rcases List.mem_cons.mp hmem with rfl | hmem
      · exact le_rfl
      · exact (hhead threadId hmem).le
    rw [List.forall_mem_cons]
    rcases purgeLoop_cons_cases rt now n ids s with
      ⟨hblocks, hlive, hops⟩ | ⟨hblocks, hops⟩ | ⟨-, hblocks, hops⟩
    · -- the thread is another one, which the rest of the loop comes to
      have hmem : threadId ∈ ids := by
        rcases List.mem_cons.mp hmem with rfl | hmem
        · exact absurd (hexpired.symm.trans (hlive md hunshredded hwell)) (by simp)
        · exact hmem
      rw [hops, ih htail hmem hunshredded hwell]
      exact ⟨fun h => ⟨fun _ => hblocks, h⟩, fun h => h.2⟩
    · -- the loop ends here, and the files of the thread stay
      rw [hops, runOps_nil]
      constructor
      · intro hgone
        exact absurd hgone (not_gone_of_wellFormed hwell)
      · rintro ⟨hn, -⟩
        exact absurd hblocks (hn hle)
    · -- this thread is destroyed: it is the one, or leaves it alone
      rw [hops, runOps_append]
      by_cases hn : threadId = n
      · subst hn
        have hgone := gone_runOps_shredOps s threadId "ttl-expired" now
        have hsame := sameFiles_purgeLoop rt now ids
          (s := runOps s (shredOps s threadId "ttl-expired" now))
          fun hmem => absurd (hhead threadId hmem) (lt_irrefl _)
        refine iff_of_true ⟨hsame.metas.trans hgone.1, hsame.chunks.trans hgone.2⟩
          ⟨fun _ => hblocks, fun other hother hle => ?_⟩
        exact absurd (hhead other hother) hle.not_gt
      · have hmem : threadId ∈ ids := (List.mem_cons.mp hmem).resolve_left hn
        have hsame := sameFiles_shredOps s "ttl-expired" now hn
        rw [ih htail hmem ((isShredded_shredOps s "ttl-expired" now hn).trans hunshredded)
          ((wellFormed_congr hsame).mpr hwell)]
        have hother : ∀ other ∈ ids,
            Blocks rt now (runOps s (shredOps s n "ttl-expired" now)) other ↔
              Blocks rt now s other := fun other hother =>
          blocks_shredOps s "ttl-expired" now now fun heq =>
            lt_irrefl (metaName n) (heq ▸ hhead other hother)
        constructor
        · intro h
          exact ⟨fun _ => hblocks, fun other hmem hle =>
            (hother other hmem).not.mp (h other hmem hle)⟩
        · rintro ⟨-, h⟩ other hmem hle
          exact (hother other hmem).not.mpr (h other hmem hle)

/-! ### The order of the files -/

theorem metaName_injective : Function.Injective metaName := fun _ _ h =>
  String.append_left_inj _ |>.mp h

theorem mem_metaThreads_iff : threadId ∈ metaThreads s ↔ s.metas.get? threadId ≠ none := by
  simp [metaThreads, Sql.Table.get?_eq_none_iff]

theorem sorted_metaThreads (s : State) :
    (metaThreads s).Pairwise fun i j => metaName i < metaName j := by
  have hle : (metaThreads s).Pairwise fun i j => metaName i ≤ metaName j := by
    have hsorted := @List.pairwise_mergeSort _ (fun i j => decide (metaName i ≤ metaName j))
      (fun i j k hij hjk => by
        simp only [decide_eq_true_eq] at hij hjk ⊢
        exact hij.trans hjk)
      (fun i j => by
        simp only [Bool.or_eq_true, decide_eq_true_eq]
        exact le_total _ _) (s.metas.rows.map Prod.fst)
    exact hsorted.imp fun h => of_decide_eq_true h
  have hnodup : (metaThreads s).Nodup := (List.mergeSort_perm _ _).nodup_iff.mpr s.metas.nodupKeys
  refine (hle.and hnodup).imp fun h => lt_of_le_of_ne h.1 fun heq => h.2 (metaName_injective heq)

/-! ### What is promised -/

/-- Somewhere in a history the metadata of a thread were well formed, with an expiry until `ts`. -/
def Seen (rt : Runtime) (cfg : Config) (ts : PyFloat) (s : State) (acts : List Act) (s' : State)
    (threadId : String) : Prop :=
  ∃ before after t md, acts = before ++ after ∧ Path (Step rt cfg) s before t ∧
    Path (Step rt cfg) t after s' ∧ WellFormed rt t threadId md ∧ md.expiresAt.le ts = true

/-- **What is promised of a purge at `ts` after a history**: of no thread that was well formed and
is expired are files left, and a thread with a tombstone is refused from then on. -/
structure Destroyed (rt : Runtime) (cfg : Config) (ts : PyFloat) (s : State) (acts : List Act)
    (s' : State) : Prop where
  gone : ∀ threadId, Seen rt cfg ts s acts s' threadId →
    Gone (runOps s' (purgeExpired rt cfg s' ts).1) threadId
  refused : ∀ threadId acts' t, isShredded s' threadId = true → Path (Step rt cfg) s' acts' t →
    Refused rt cfg t threadId

/-- Of no thread with a tombstone are files left, and no file blocks the way to another one. -/
def Purgeable (rt : Runtime) (cfg : Config) (ts : PyFloat) (s : State) (acts : List Act)
    (s' : State) : Prop :=
  ∀ threadId, Seen rt cfg ts s acts s' threadId →
    (isShredded s' threadId = true → Gone s' threadId) ∧
    (isShredded s' threadId = false → ∀ other, s'.metas.get? other ≠ none →
      metaName other ≤ metaName threadId → ¬ Blocks rt ts s' other)

/-- **A purge destroys all expired threads if and only if** no thread with a tombstone has files
left and no file blocks the way to another thread. -/
theorem destroyed_iff {acts : List Act} {ts : PyFloat} (henabled : cfg.isEnabled = true) :
    Destroyed rt cfg ts s acts s' ↔ Purgeable rt cfg ts s acts s' := by
  have hpurge : (purgeExpired rt cfg s' ts).1 = (purgeLoop rt ts (metaThreads s') s').1 := by
    simp [purgeExpired, henabled]
  have hgone : ∀ threadId, Seen rt cfg ts s acts s' threadId →
      (Gone (runOps s' (purgeExpired rt cfg s' ts).1) threadId ↔
        (isShredded s' threadId = true → Gone s' threadId) ∧
        (isShredded s' threadId = false → ∀ other, s'.metas.get? other ≠ none →
          metaName other ≤ metaName threadId → ¬ Blocks rt ts s' other)) := by
    rintro threadId ⟨before, after, t, md, rfl, -, hafter, hwell, hexpired⟩
    rw [hpurge]
    cases hshredded : isShredded s' threadId with
    | true =>
      have hsame := sameFiles_purgeLoop rt ts (metaThreads s') fun _ => hshredded
      simp [Gone, hsame.metas, hsame.chunks]
    | false =>
      have hwell := (wellFormed_path hafter hwell).resolve_left (by simp [hshredded])
      have hmem : threadId ∈ metaThreads s' := by
        obtain ⟨file, hfile, -⟩ := hwell
        exact mem_metaThreads_iff.mpr (by simp [hfile])
      rw [gone_purgeLoop_iff (sorted_metaThreads s') hmem hshredded hwell hexpired]
      simp [mem_metaThreads_iff]
  constructor
  · intro h threadId hseen
    exact (hgone threadId hseen).mp (h.gone threadId hseen)
  · intro h
    refine ⟨fun threadId hseen => (hgone threadId hseen).mpr (h threadId hseen), ?_⟩
    intro threadId acts' t hshredded path'
    exact refused_of_isShredded rt cfg (isShredded_path path' hshredded)

/-! ### A directory of its own -/

def shortMetadata : Metadata where
  level := .sensitive
  createdAt := .fin 0
  expiresAt := .fin 9
  authorizedPrincipals := ["p"]
  wrappedDek := ⟨1, "vault", List.replicate 12 0, [1], vault_mem_backends, length_zeroBytes,
    oneByte_ne_nil⟩

/-- A directory with the metadata files `rows`, and a chunk file of the thread `b`. -/
def dirOf (rows : Sql.Table String File) : State where
  tombstones := []
  metas := rows
  chunks := Function.update (fun _ => none) "b" (some "")
  wraps := []
  boxes := fun _ => []

def shortFile (threadId : String) : File :=
  ⟨some (payload threadId shortMetadata), 1, fun _ => Nat.one_pos⟩

/-- The thread `b` alone. -/
def oneThread : State := dirOf ⟨[("b", shortFile "b")], by simp⟩

/-- The threads `b` and `c`. -/
def twoThreads : State := dirOf ⟨[("b", shortFile "b"), ("c", shortFile "c")], by simp⟩

/-- The thread `b`, and before it a file of zeros. -/
def zeroedNeighbour : State := dirOf ⟨[("a", .zeros 3), ("b", shortFile "b")], by simp⟩

theorem wellFormed_of_shortFile {s : State} {threadId : String}
    (h : s.metas.get? threadId = some (shortFile threadId)) :
    WellFormed plainRuntime s threadId shortMetadata := by
  refine ⟨_, h, parseMetadata_payload plainRuntime threadId (by simp [shortMetadata]) ?_⟩
  intro p hp
  rw [List.mem_singleton.mp hp]
  decide +kernel

theorem wellFormed_oneThread : WellFormed plainRuntime oneThread "b" shortMetadata :=
  wellFormed_of_shortFile rfl

theorem wellFormed_zeroedNeighbour : WellFormed plainRuntime zeroedNeighbour "b" shortMetadata :=
  wellFormed_of_shortFile rfl

theorem expired_shortMetadata : shortMetadata.expiresAt.le (.fin 9) = true := by
  simp [shortMetadata]

/-- Two expired threads are destroyed. -/
theorem destroyed_twoThreads :
    Destroyed plainRuntime vaultConfig (.fin 9) twoThreads [] twoThreads := by
  refine (destroyed_iff rfl).mpr ?_
  intro threadId hseen
  refine ⟨nofun, fun _ other hother _ => ?_⟩
  have hcases : other = "b" ∨ other = "c" := by
    by_contra hne
    obtain ⟨hb, hc⟩ := not_or.mp hne
    have hb : (other == "b") = false := beq_eq_false_iff_ne.mpr hb
    have hc : (other == "c") = false := beq_eq_false_iff_ne.mpr hc
    exact hother (by simp [twoThreads, dirOf, Sql.Table.get?, List.lookup_cons, hb, hc])
  rintro ⟨-, hmalformed | ⟨hinvalid, -⟩⟩
  · rcases hcases with rfl | rfl
    · exact hmalformed _ (wellFormed_of_shortFile rfl)
    · exact hmalformed _ (wellFormed_of_shortFile rfl)
  · rcases hcases with rfl | rfl
    · exact absurd hinvalid (by decide +kernel)
    · exact absurd hinvalid (by decide +kernel)

/-- **A purge is stopped by a file of zeros, and passes over a thread whose destruction was broken
off after its tombstone.** -/
theorem not_destroyed :
    ¬ Destroyed plainRuntime vaultConfig (.fin 9) zeroedNeighbour [] zeroedNeighbour ∧
    ∃ s', Path (Step plainRuntime vaultConfig) oneThread [.shred "b" "requested" (.fin 1) 1] s' ∧
      ¬ Destroyed plainRuntime vaultConfig (.fin 9) oneThread [.shred "b" "requested" (.fin 1) 1]
        s' := by
  constructor
  · intro h
    have hgone := h.gone "b" ⟨[], [], zeroedNeighbour, shortMetadata, rfl, .nil _, .nil _,
      wellFormed_zeroedNeighbour, expired_shortMetadata⟩
    have hblocks := (gone_purgeLoop_iff (sorted_metaThreads _)
      (mem_metaThreads_iff.mpr (by simp [zeroedNeighbour, dirOf, Sql.Table.get?, List.lookup_cons]))
      rfl wellFormed_zeroedNeighbour expired_shortMetadata).mp hgone "a"
      (mem_metaThreads_iff.mpr (by simp [zeroedNeighbour, dirOf, Sql.Table.get?]))
      (by decide +kernel)
    refine hblocks ⟨rfl, .inl ?_⟩
    rintro md ⟨file, hfile, hparse⟩
    cases hfile
    cases hparse
  · refine ⟨_, .single rfl, fun h => ?_⟩
    have hgone := h.gone "b" ⟨[], _, oneThread, shortMetadata, rfl, .nil _, .single rfl,
      wellFormed_oneThread, expired_shortMetadata⟩
    generalize hs : Act.run plainRuntime vaultConfig oneThread (.shred "b" "requested" (.fin 1) 1)
      = s' at hgone
    have hshredded : isShredded s' "b" = true := by
      rw [← hs]
      decide +kernel
    have hfile : s'.metas.get? "b" = some (shortFile "b") := by
      rw [← hs]
      rfl
    have hsame := sameFiles_purgeLoop plainRuntime (.fin 9) (metaThreads s') fun _ => hshredded
    exact absurd ((hsame.metas.trans hfile).symm.trans hgone.1) (by simp)

end TranscriptStore
