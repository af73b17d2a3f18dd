import RunnerDashboard.Staff.SpoolEpochs
import Mathlib.Logic.Function.Basic

/-!
# Writers and ingesters of a spool

Writers append lines to a spool file; ingesters read the file, record its entries and raise
the floors one by one, and empty the file at the end.  No lock is shared, and an ingester may
crash between any two of its steps and start again.

A line is safe while it is in the file or its slot is in the ledger.  Emptying the file is
safe when the ingester had read every line the file has then; a line appended after the read
is lost.

## Main results

* `Synced.step` — what holds of the ingesters is kept by every step.
* `kept_of_covering` — no record is lost while only files that were read are emptied.
-/

namespace Persona

open Sql Lts Continuity

/-! ### Steps -/

/-- Where an ingester is. -/
inductive Worker
  | idle
  | claiming (read : List String) (entries todo : List SpoolEntry)
  | flooring (read : List String) (todo : List (String × Int))
  | truncating (read : List String)

/-- The floors left to raise; after them the file is emptied. -/
def Worker.floors (read : List String) : List (String × Int) → Worker
  | [] => .truncating read
  | y :: todo => .flooring read (y :: todo)

/-- The claims left to make; after them come the floors. -/
def Worker.claims (read : List String) (entries : List SpoolEntry) : List SpoolEntry → Worker
  | [] => Worker.floors read (maxEpochByRole entries)
  | x :: todo => .claiming read entries (x :: todo)

/-- An ingester that has read the file: it is done if there is nothing, or raises. -/
def Worker.read (txt : Texts) (file : List String) : Worker :=
  if rawLines file = [] then .idle
  else
    match parseLines txt 1 (rawLines file) with
    | .error _ => .idle
    | .ok entries => .claims file entries entries

/-- The spool file, the store, and the ingesters. -/
structure System where
  file : List String
  store : Store
  workers : ℕ → Worker

/-- What happens in a step. -/
inductive Label
  /-- An append returned, having written the line. -/
  | append (x : SpoolEntry) (line : String)
  | read (i : ℕ)
  | claim (i : ℕ)
  | floor (i : ℕ)
  /-- The file is emptied, and the ingest has completed. -/
  | truncate (i : ℕ)
  | crash (i : ℕ)

inductive SpoolStep (txt : Texts) : System → Label → System → Prop
  | append {s : System} {x : SpoolEntry} {now : Int} {line : String}
      (written : appendFallbackSpool txt x now = .ok line) :
      SpoolStep txt s (.append x line) { s with file := s.file ++ [line] }
  | read {s : System} {i : ℕ} (at' : s.workers i = .idle) :
      SpoolStep txt s (.read i)
        { s with workers := Function.update s.workers i (.read txt s.file) }
  /-- The next claim; when it raises, the ingest is over. -/
  | claim {s : System} {i : ℕ} {read : List String} {entries todo : List SpoolEntry}
      {x : SpoolEntry} {now : Int} {r : Except SpoolError SlotReply} {st : Store}
      (at' : s.workers i = .claiming read entries (x :: todo))
      (done : recordSlotClaim x now s.store = (r, st)) :
      SpoolStep txt s (.claim i)
        { s with
          store := st
          workers := Function.update s.workers i
            (if r.isOk then .claims read entries todo else .idle) }
  /-- The next floor; when it raises, the ingest is over. -/
  | floor {s : System} {i : ℕ} {read : List String} {todo : List (String × Int)}
      {role : String} {n now : Int} {r : Except SpoolError Unit} {st : Store}
      (at' : s.workers i = .flooring read ((role, n) :: todo))
      (done : bumpEpochFloor role n now s.store = (r, st)) :
      SpoolStep txt s (.floor i)
        { s with
          store := st
          workers := Function.update s.workers i
            (if r.isOk then .floors read todo else .idle) }
  | truncate {s : System} {i : ℕ} {read : List String} (at' : s.workers i = .truncating read) :
      SpoolStep txt s (.truncate i)
        { s with file := [], workers := Function.update s.workers i .idle }
  | crash {s : System} {i : ℕ} :
      SpoolStep txt s (.crash i) { s with workers := Function.update s.workers i .idle }

/-- An empty file, and no ingest. -/
def System.new (st : Store) : System := ⟨[], st, fun _ => .idle⟩

/-- **No appended record is lost**: its line is in the file, or an ingest completed since and
its slot is in the ledger. -/
def Kept (past : List Label) (s : System) : Prop :=
  ∀ before x line after, past = before ++ .append x line :: after →
    line ∈ s.file ∨
      ((∃ i, Label.truncate i ∈ after) ∧ (s.store.slots.get? x.stripped.key).isSome)

def Covering (s : System) (l : Label) : Prop :=
  ∀ i read, l = .truncate i → s.workers i = .truncating read → ∀ line ∈ s.file, line ∈ read

/-! ### Ingesters -/

/-- The slots of the entries that were read are in the ledger, but for those left. -/
def Recorded (txt : Texts) (st : Store) (read : List String) (todo : List SpoolEntry) : Prop :=
  ∃ entries, parseLines txt 1 (rawLines read) = .ok entries ∧
    ∀ x ∈ entries, x ∈ todo ∨ (st.slots.get? x.key).isSome

/-- What an ingester has recorded. -/
def Worker.Sound (txt : Texts) (st : Store) : Worker → Prop
  | .idle => True
  | .claiming read entries todo =>
    Recorded txt st read todo ∧ (∀ x ∈ todo, x ∈ entries) ∧ ∀ x ∈ entries, x.Valid
  | .flooring read todo =>
    Recorded txt st read [] ∧ ∀ y ∈ todo, validateRoleName y.1 = .ok y.1
  | .truncating read => Recorded txt st read []

variable {txt : Texts} {st st' : Store} {s t : System} {l : Label} {past : List Label}
  {read : List String} {entries todo : List SpoolEntry}

theorem Recorded.mono (h : Recorded txt st read todo) (hk : Keeps st st') :
    Recorded txt st' read todo := by
  obtain ⟨entries, hparse, hrec⟩ := h
  refine ⟨entries, hparse, fun x hx => ?_⟩
  rcases hrec x hx with htodo | hkey
  · exact .inl htodo
  · obtain ⟨row, hrow⟩ := Option.isSome_iff_exists.mp hkey
    exact .inr (by rw [hk _ _ hrow]; rfl)

theorem Worker.Sound.mono {w : Worker} (h : w.Sound txt st) (hk : Keeps st st') :
    w.Sound txt st' := by
  cases w with
  | idle => trivial
  | claiming read entries todo => exact ⟨h.1.mono hk, h.2⟩
  | flooring read todo => exact ⟨h.1.mono hk, h.2⟩
  | truncating read => exact Recorded.mono h hk

theorem Worker.sound_floors {todo : List (String × Int)} (h : Recorded txt st read [])
    (hroles : ∀ y ∈ todo, validateRoleName y.1 = .ok y.1) :
    (Worker.floors read todo).Sound txt st := by
  cases todo with
  | nil => exact h
  | cons y todo => exact ⟨h, hroles⟩

theorem Worker.sound_claims (h : Recorded txt st read todo) (hin : ∀ x ∈ todo, x ∈ entries)
    (hv : ∀ x ∈ entries, x.Valid) : (Worker.claims read entries todo).Sound txt st := by
  cases todo with
  | nil =>
    refine sound_floors h fun y hy => ?_
    have hhigh := highest_maxEpochByRole hv
    obtain ⟨role, n⟩ := y
    obtain ⟨x, hx, rfl, -⟩ := hhigh.reached role n
      (Table.get?_eq_some_iff (t := ⟨maxEpochByRole entries, hhigh.nodup⟩).mpr hy)
    exact (hv x hx).role
  | cons x todo => exact ⟨h, hin, hv⟩

theorem Worker.sound_read (txt : Texts) (st : Store) (file : List String) :
    (Worker.read txt file).Sound txt st := by
  unfold Worker.read
  split
  · trivial
  · cases hparse : parseLines txt 1 (rawLines file) with
    | error e => trivial
    | ok entries =>
      exact sound_claims ⟨entries, hparse, fun x hx => .inl hx⟩ (fun _ hx => hx)
        (parseLines_valid hparse)

theorem exists_of_parseLines {n : ℕ} {lines : List String} {line : String}
    (h : parseLines txt n lines = .ok entries) (hline : line ∈ lines) :
    ∃ y ∈ entries, parseLine txt line = .ok y := by
  have hall := parseLines_ok_iff.mp h
  clear h
  induction hall with
  | nil => exact absurd hline (by simp)
  | cons hy _ ih =>
    rcases List.mem_cons.mp hline with rfl | hline
    · exact ⟨_, List.mem_cons_self, hy⟩
    · obtain ⟨y, hmem, hparse⟩ := ih hline
      exact ⟨y, List.mem_cons_of_mem _ hmem, hparse⟩

theorem Recorded.of_mem (h : Recorded txt st read []) {x : SpoolEntry} {now : Int}
    {line : String} (hline : line ∈ read) (happend : appendFallbackSpool txt x now = .ok line) :
    (st.slots.get? x.stripped.key).isSome := by
  obtain ⟨entries, hparse, hrec⟩ := h
  obtain ⟨hx, hne⟩ := parseLine_append happend
  have hraw : Py.strip line ∈ rawLines read :=
    List.mem_filter.mpr ⟨List.mem_map.mpr ⟨line, hline, rfl⟩, by simpa using hne⟩
  obtain ⟨y, hy, hyx⟩ := exists_of_parseLines hparse hraw
  obtain rfl := Except.ok.inj (hx.symm.trans hyx)
  exact (hrec _ hy).resolve_left (by simp)

/-! ### The invariant -/

/-- Every ingester has recorded what it has claimed, and no record is lost. -/
structure Synced (txt : Texts) (past : List Label) (s : System) : Prop where
  workers : ∀ i, (s.workers i).Sound txt s.store
  kept : Kept past s
  appended : ∀ x line, Label.append x line ∈ past →
    ∃ now, appendFallbackSpool txt x now = .ok line

theorem Synced.new (st : Store) : Synced txt [] (.new st) where
  workers := fun _ => trivial
  kept := by
    intro before x line after h
    exact absurd h (by simp)
  appended := by
    intro x line h
    exact absurd h (by simp)

private theorem sound_update {w : Worker} {i : ℕ} (h : ∀ j, (s.workers j).Sound txt s.store)
    (hk : Keeps s.store st') (hw : w.Sound txt st') (j : ℕ) :
    (Function.update s.workers i w j).Sound txt st' := by
  by_cases hj : j = i
  · rw [hj, Function.update_self]
    exact hw
  · rw [Function.update_of_ne hj]
    exact (h j).mono hk

/-- Records are kept in a step that neither appends nor empties the file. -/
private theorem Kept.keep (h : Kept past s) (hfile : t.file = s.file)
    (hk : Keeps s.store t.store) (hl : ∀ x line, l ≠ .append x line) :
    Kept (past ++ [l]) t := by
  intro before x line after hpast
  rcases snoc_eq_append_cons_iff.mp hpast with ⟨-, heq, -⟩ | ⟨after', rfl, hold⟩
  · exact absurd heq.symm (hl x line)
  rcases h before x line after' hold with hin | ⟨⟨i, hi⟩, hkey⟩
  · exact .inl (hfile ▸ hin)
  · obtain ⟨row, hrow⟩ := Option.isSome_iff_exists.mp hkey
    exact .inr ⟨⟨i, List.mem_append_left _ hi⟩, by rw [hk _ _ hrow]; rfl⟩

/-- **Every step keeps the invariant**, if a file that is emptied has only lines that were
read. -/
theorem Synced.step (h : Synced txt past s) (hs : SpoolStep txt s l t) (hc : Covering s l) :
    Synced txt (past ++ [l]) t := by
  -- the other steps append nothing
  have happended : (∀ x line, l ≠ .append x line) → ∀ x line, Label.append x line ∈ past ++ [l] →
      ∃ now, appendFallbackSpool txt x now = .ok line := by
    intro hl x line hmem
    rcases List.mem_append.mp hmem with hmem | hmem
    · exact h.appended x line hmem
    · exact absurd (List.mem_singleton.mp hmem).symm (hl x line)
  cases hs with
  | @append x now line written =>
    refine ⟨h.workers, ?_, ?_⟩
    · intro before x' line' after hpast
      rcases snoc_eq_append_cons_iff.mp hpast with ⟨-, heq, -⟩ | ⟨after', rfl, hold⟩
      · obtain ⟨-, rfl⟩ := Label.append.inj heq
        exact .inl (List.mem_append_right _ (by simp))
      · rcases h.kept before x' line' after' hold with hin | ⟨⟨i, hi⟩, hkey⟩
        · exact .inl (List.mem_append_left _ hin)
        · exact .inr ⟨⟨i, List.mem_append_left _ hi⟩, hkey⟩
    · intro x' line' hmem
      rcases List.mem_append.mp hmem with hmem | hmem
      · exact h.appended x' line' hmem
      · obtain ⟨rfl, rfl⟩ := Label.append.inj (List.mem_singleton.mp hmem)
        exact ⟨now, written⟩
  | @read i at' =>
    exact ⟨sound_update h.workers (.refl _) (Worker.sound_read txt s.store s.file),
      h.kept.keep rfl (.refl _) (by simp), happended (by simp)⟩
  | @claim i read entries todo x now r st at' done =>
    have hw := h.workers i
    rw [at'] at hw
    obtain ⟨⟨entries', hparse, hrec⟩, hin, hv⟩ := hw
    cases r with
    | error e =>
      obtain rfl := recordSlotClaim_error done
      exact ⟨sound_update h.workers (.refl _) trivial, h.kept.keep rfl (.refl _) (by simp),
        happended (by simp)⟩
    | ok r =>
      obtain ⟨-, hk, hkey⟩ := recordSlotClaim_ok (hv x (hin x (by simp))) done
      refine ⟨sound_update h.workers hk ?_, h.kept.keep rfl hk (by simp), happended (by simp)⟩
      refine Worker.sound_claims ⟨entries', hparse, fun y hy => ?_⟩
        (fun y hy => hin y (List.mem_cons_of_mem _ hy)) hv
      rcases hrec y hy with htodo | hslot
      · rcases List.mem_cons.mp htodo with rfl | htodo
        · exact .inr hkey
        · exact .inl htodo
      · obtain ⟨row, hrow⟩ := Option.isSome_iff_exists.mp hslot
        exact .inr (by rw [hk _ _ hrow]; rfl)
  | @floor i read todo role n now r st at' done =>
    have hw := h.workers i
    rw [at'] at hw
    obtain ⟨hrec, hroles⟩ := hw
    cases r with
    | error e =>
      obtain rfl := bumpEpochFloor_error done
      exact ⟨sound_update h.workers (.refl _) trivial, h.kept.keep rfl (.refl _) (by simp),
        happended (by simp)⟩
    | ok u =>
      obtain ⟨hslots, -⟩ := bumpEpochFloor_ok (hroles (role, n) (by simp)) done
      have hk : Keeps s.store st := fun key row hrow => by rwa [hslots]
      refine ⟨sound_update h.workers hk ?_, h.kept.keep rfl hk (by simp), happended (by simp)⟩
      exact Worker.sound_floors (hrec.mono hk) fun y hy => hroles y (List.mem_cons_of_mem _ hy)
  | @truncate i read at' =>
    have hw := h.workers i
    rw [at'] at hw
    refine ⟨sound_update h.workers (.refl _) trivial, ?_, happended (by simp)⟩
    intro before x line after hpast
    rcases snoc_eq_append_cons_iff.mp hpast with ⟨-, heq, -⟩ | ⟨after', rfl, hold⟩
    · cases heq
    · refine .inr ⟨⟨i, List.mem_append_right _ (by simp)⟩, ?_⟩
      rcases h.kept before x line after' hold with hin | ⟨-, hkey⟩
      · -- the line was read, so it was recorded
        obtain ⟨now, happend⟩ := h.appended x line (by rw [hold]; simp)
        exact Recorded.of_mem hw (hc i read rfl at' line hin) happend
      · exact hkey
  | @crash i =>
    exact ⟨sound_update h.workers (.refl _) trivial, h.kept.keep rfl (.refl _) (by simp),
      happended (by simp)⟩

/-- **No appended record is lost** in a run in which every file that is emptied has only
lines the ingester had read. -/
theorem kept_of_covering (st : Store)
    (p : Path (fun s l t => SpoolStep txt s l t ∧ Covering s l) (.new st) past s) :
    Kept past s :=
  (p.history (I := fun past s => Synced txt past s)
    (fun _ _ _ _ h hs => h.step hs.1 hs.2) (.new st)).kept

/-! ### A line appended after the read -/

def lateEntry : SpoolEntry := { sampleEntry with slot := "dusk" }

def lateLine : String :=
  (Json.obj (recordFields sampleTexts lateEntry.key "rd:desk" lateEntry 0)).sortKeys.dumps

/-- The system in which the first ingester has read the sample line and recorded nothing. -/
def claimingSystem (file : List String) : System where
  file := file
  store := sampleStore
  workers := Function.update (fun _ => .idle) 0
    (.claiming [sampleLine] [sampleEntry] [sampleEntry])

def flooringSystem (file : List String) : System where
  file := file
  store := { sampleStore with
    slots := Table.empty.insertNew "bob/daily-note/noon" (sampleEntry.row "rd:desk" 1000000) }
  workers := Function.update (claimingSystem file).workers 0
    (.flooring [sampleLine] [("bob", 3)])

/-- The system in which the floor is raised, and the file about to be emptied. -/
def truncatingSystem (file : List String) : System where
  file := file
  store := sampleIngested
  workers := Function.update (flooringSystem file).workers 0 (.truncating [sampleLine])

def emptiedSystem (file : List String) : System where
  file := []
  store := sampleIngested
  workers := Function.update (truncatingSystem file).workers 0 .idle

private theorem read_sample :
    SpoolStep sampleTexts ⟨[sampleLine], sampleStore, fun _ => .idle⟩ (.read 0)
      (claimingSystem [sampleLine]) := by
  have hraw : rawLines [sampleLine] ≠ [] := by
    intro h
    have := parse_sample
    rw [h] at this
    cases this
  have hread : Worker.read sampleTexts [sampleLine] =
      .claiming [sampleLine] [sampleEntry] [sampleEntry] := by
    unfold Worker.read
    rw [if_neg hraw, parse_sample]
    rfl
  unfold claimingSystem
  rw [← hread]
  exact .read rfl

/-- The entry that was read is recorded, whatever was appended since. -/
private theorem claim_sample (file : List String) :
    SpoolStep sampleTexts (claimingSystem file) (.claim 0) (flooringSystem file) :=
  @SpoolStep.claim sampleTexts (claimingSystem file) 0 [sampleLine] [sampleEntry] [] sampleEntry
    1000000 _ _ rfl rfl

private theorem floor_sample (file : List String) :
    SpoolStep sampleTexts (flooringSystem file) (.floor 0) (truncatingSystem file) :=
  @SpoolStep.floor sampleTexts (flooringSystem file) 0 [sampleLine] [] "bob" 3 1000000 _ _ rfl rfl

private theorem truncate_sample (file : List String) :
    SpoolStep sampleTexts (truncatingSystem file) (.truncate 0) (emptiedSystem file) :=
  @SpoolStep.truncate sampleTexts (truncatingSystem file) 0 [sampleLine] rfl

private theorem Covering.of_ne {s : System} {l : Label} (h : ∀ i, l ≠ .truncate i) :
    Covering s l :=
  fun i _ hl => absurd hl (h i)

theorem kept_of_covering_sample :
    Kept [.append sampleEntry sampleLine, .read 0, .claim 0, .floor 0, .truncate 0]
      (emptiedSystem [sampleLine]) := by
  refine @kept_of_covering sampleTexts _ _ sampleStore ?_
  refine .cons ⟨@SpoolStep.append _ _ sampleEntry 0 sampleLine rfl, .of_ne (by simp)⟩ ?_
  refine .cons ⟨read_sample, .of_ne (by simp)⟩ ?_
  refine .cons ⟨claim_sample [sampleLine], .of_ne (by simp)⟩ ?_
  refine .cons ⟨floor_sample [sampleLine], .of_ne (by simp)⟩ ?_
  refine .single ⟨truncate_sample [sampleLine], ?_⟩
  intro i read hl hat
  obtain rfl := Label.truncate.inj hl
  obtain rfl := Worker.truncating.inj hat
  exact fun line h => h

/-- A line is appended after the file was read, and the file is emptied: the line is in
neither the file nor the ledger. -/
theorem not_kept_of_late_append :
    ∃ past s, Path (SpoolStep sampleTexts) (.new sampleStore) past s ∧ ¬ Kept past s := by
  refine ⟨[.append sampleEntry sampleLine, .read 0, .append lateEntry lateLine, .claim 0,
    .floor 0, .truncate 0], emptiedSystem [sampleLine, lateLine], ?_, fun hkept => ?_⟩
  · have hlate : appendFallbackSpool sampleTexts lateEntry 0 = .ok lateLine := rfl
    refine .cons (@SpoolStep.append _ _ sampleEntry 0 sampleLine rfl) ?_
    refine .cons read_sample ?_
    refine .cons (@SpoolStep.append _ _ lateEntry 0 lateLine hlate) ?_
    refine .cons (claim_sample [sampleLine, lateLine]) ?_
    exact .cons (floor_sample _) (.single (truncate_sample _))
  · rcases hkept [.append sampleEntry sampleLine, .read 0] lateEntry lateLine _ rfl with
      hin | ⟨-, hkey⟩
    · cases hin
    · exact absurd hkey (by decide)

end Persona
