import Mathlib.Logic.Function.Basic
import RunnerDashboard.RmSync.Pathspec

/-!
# The quarantine of a dirty checkout

The changed files are copied to a directory of the call, where the manifest is written as well.
Then the tracked paths are restored and the untracked ones removed.  The copies take a path of the
status as a file name; `git restore` and `git clean` take the same path as a pattern.

## Main results

* `kept_iff` — **work is kept just when all that is taken away was named.**
* `not_kept_star` — a file named by a pattern.
-/

namespace RmSync

/-! ### Checkouts -/

/-- The file that a path names below the root, and nothing for a path that leads out of it. -/
def relName? (path : List Char) : Option Name :=
  let parts := (path.splitOn '/').filter fun part => part ≠ [] ∧ part ≠ ['.']
  if path.head? = some '/' ∨ parts = [] ∨ ['.', '.'] ∈ parts then none
  else some (['/'].intercalate parts)

/-- A checkout with contents `C`. -/
structure Checkout (C : Type) where
  head : Name → Option C
  index : Name → Option C
  worktree : Name → Option C
  ignored : Name → Bool
  /-- The names there are, in the order in which the status lists them. -/
  names : List Name
  clean : ∀ n ∈ names, relName? n = some n
  all : ∀ n, n ∉ names → head n = none ∧ index n = none ∧ worktree n = none
  /-- One of the contents is a link, or a file of another kind. -/
  typeChanged : C → C → Bool
  /-- The path of `HEAD` that `git` takes for the earlier name of one in the index. -/
  source : Name → Option Name
  source_spec : ∀ n old, source n = some old →
    head n = none ∧ index n ≠ none ∧ head old ≠ none ∧ index old = none

namespace Checkout

variable {C : Type} [DecidableEq C] (co : Checkout C)

/-- The letter for a path with these contents. -/
def letter (old new : Option C) : Letter :=
  match old, new with
  | none, none => .unmodified
  | none, some _ => .added
  | some _, none => .deleted
  | some a, some b =>
    if a = b then .unmodified else if co.typeChanged a b then .typeChanged else .modified

/-- The index against `HEAD`. -/
def letterX (n : Name) : Letter := co.letter (co.head n) (co.index n)

def letterY (n : Name) : Letter :=
  if co.index n = none then .unmodified else co.letter (co.index n) (co.worktree n)

/-- The line of a tracked path, if it has one. -/
def trackedChange (n : Name) : Option Change :=
  match co.source n with
  | some old => some (.renamed (co.letterY n) old n)
  | none =>
    if co.names.any fun new => co.source new = some n then none
    else if co.letterX n = .unmodified ∧ co.letterY n = .unmodified then none
    else some (.tracked (co.letterX n) (co.letterY n) n)

def isUntracked (n : Name) : Bool :=
  (co.worktree n).isSome && (co.index n).isNone && !co.ignored n

/-- What `git status --untracked-files=all` lists. -/
def changes : List Change :=
  co.names.filterMap co.trackedChange ++ (co.names.filter co.isUntracked).map .untracked

end Checkout

/-! ### The call -/

/-- What the operating system and `git` do in one call. -/
structure Answers where
  /-- The directory was made, and the copies and the manifest were written. -/
  copied : Bool
  /-- The files that `git restore` comes to. -/
  restoreReaches : Name → Bool
  restored : Bool
  /-- The files that `git clean` comes to. -/
  cleanReaches : Name → Bool
  cleaned : Bool

/-- A file in the directory of the call. -/
inductive Held (C : Type)
  | copy (content : C)
  | manifest (entries : List Entry)

/-- How the call ends. -/
inductive Outcome
  | nothing
  | raised
  | quarantined (entries : List Entry)

/-- The files after the call. -/
structure Result (C : Type) where
  worktree : Name → Option C
  quarantine : Name → Option (Held C)
  outcome : Outcome

/-- One of the files would be below the other. -/
def collides (m n : Name) : Bool :=
  (n ++ ['/']).isPrefixOf m || (m ++ ['/']).isPrefixOf n

/-- `manifest.json`. -/
def manifestName : Name := "manifest.json".toList

section Call

variable {C : Type} [DecidableEq C] (G : Git) (a : Answers) (co : Checkout C)

/-- The directory after one more path was copied. -/
def copyPath (dest : Name → Option C) (path : List Char) : Name → Option C :=
  match relName? path with
  | none => dest
  | some rel => fun m => if under rel m && (co.worktree m).isSome then co.worktree m else dest m

def copies (paths : List (List Char)) : Name → Option C := paths.foldl (copyPath co) fun _ => none

/-- The directory with the manifest, which is written last. -/
def quarantineDir (entries : List Entry) : Name → Option (Held C) :=
  Function.update (fun m => (copies co (entries.map Entry.path) m).map .copy) manifestName
    (some (.manifest entries))

/-- `git restore` writes or removes the file. -/
def restores (paths : List (List Char)) (n : Name) : Bool :=
  G.selects paths n && a.restoreReaches n && ((co.head n).isSome || (co.index n).isSome)

/-- The file makes room for one that is restored. -/
def displaces (paths : List (List Char)) (m : Name) : Bool :=
  co.names.any fun n => restores G a co paths n && (co.head n).isSome && collides m n

/-- `git restore --source=HEAD --worktree`; it fails, with nothing done, where a pattern matches no
path of `HEAD` and of the index. -/
def gitRestore (paths : List (List Char)) : (Name → Option C) × Bool :=
  if G.refuses paths ||
      G.misses paths (co.names.filter fun n => (co.head n).isSome || (co.index n).isSome) then
    (co.worktree, false)
  else
    (fun m =>
      if displaces G a co paths m then none
      else if restores G a co paths m then co.head m
      else co.worktree m, a.restored)

/-- `git clean -fd`. -/
def gitClean (paths : List (List Char)) (worktree : Name → Option C) : (Name → Option C) × Bool :=
  if G.refuses paths then (worktree, false)
  else
    (fun m =>
      if co.isUntracked m && G.selects paths m && a.cleanReaches m then none else worktree m,
      a.cleaned)

def quarantineDirtyWorktree : Result C :=
  let porcelain := Py.stripChars (statusText co.changes)
  if porcelain = [] then ⟨co.worktree, fun _ => none, .nothing⟩
  else
    let entries := readStatus (statusText co.changes)
    let restorePaths := (entries.filter fun e => !e.isUntracked).map Entry.path
    let cleanPaths := (entries.filter Entry.isUntracked).map Entry.path
    if entries = [] then ⟨co.worktree, fun _ => none, .nothing⟩
    else if a.copied = false then ⟨co.worktree, fun _ => none, .raised⟩
    else
      let dir := quarantineDir co entries
      let (restored, ok) :=
        if restorePaths = [] then (co.worktree, true) else gitRestore G a co restorePaths
      if ok = false then ⟨restored, dir, .raised⟩
      else
        let (cleaned, ok) :=
          if cleanPaths = [] then (restored, true) else gitClean G a co cleanPaths restored
        ⟨cleaned, dir, if ok then .quarantined entries else .raised⟩

/-! ### Work that is kept -/

/-- The file is untracked, or has not the content of `HEAD`. -/
def OwnWork (m : Name) (c : C) : Prop :=
  co.worktree m = some c ∧ (co.head m ≠ some c ∨ co.index m = none)

/-- All work is still at its path, or in the directory under its path. -/
def Kept (r : Result C) : Prop :=
  ∀ m c, OwnWork co m c → r.worktree m = some c ∨ r.quarantine m = some (.copy c)

/-- The paths read from the lines of tracked changes. -/
def Checkout.restorePaths : List (List Char) :=
  (co.changes.filter fun ch => !ch.isUntracked).map Change.path

/-- The paths read from the lines of untracked files. -/
def Checkout.cleanPaths : List (List Char) :=
  (co.changes.filter Change.isUntracked).map Change.path

/-- `git restore` is called and goes to work. -/
structure RestoreRuns : Prop where
  copied : a.copied = true
  called : co.restorePaths ≠ []
  accepted : G.refuses co.restorePaths = false
  matched : G.misses co.restorePaths
    (co.names.filter fun n => (co.head n).isSome || (co.index n).isSome) = false

/-- `git clean` is called and goes to work. -/
structure CleanRuns : Prop where
  copied : a.copied = true
  before : co.restorePaths = [] ∨ RestoreRuns G a co ∧ a.restored = true
  called : co.cleanPaths ≠ []
  accepted : G.refuses co.cleanPaths = false

/-- `git` takes the content of the file away: a file of `HEAD` takes its place, it is overwritten
or removed with the tracked files, or it is removed as an untracked one. -/
inductive Discarded (m : Name) (c : C) : Prop
  | displaced (h : RestoreRuns G a co) (hm : displaces G a co co.restorePaths m = true)
  | overwritten (h : RestoreRuns G a co) (hm : restores G a co co.restorePaths m = true)
      (hc : co.head m ≠ some c)
  | cleaned (h : CleanRuns G a co) (hm : co.isUntracked m = true)
      (hsel : G.selects co.cleanPaths m = true) (hreach : a.cleanReaches m = true)

/-- One of the paths, as it was read, is that of the file or of a directory above. -/
def Checkout.Named (m : Name) : Prop :=
  ∃ ch ∈ co.changes, ∃ rel, relName? ch.path = some rel ∧ under rel m = true

end Call

/-! ### The paths of the call -/

section

variable {C : Type} {co : Checkout C} {m : Name} {c : C}

theorem ne_nil_of_mem_names (h : m ∈ co.names) : m ≠ [] := by
  rintro rfl
  have hclean := co.clean [] h
  revert hclean
  decide

theorem mem_names_of_head (h : co.head m ≠ none) : m ∈ co.names := by
  by_contra hm
  exact h (co.all m hm).1

theorem mem_names_of_worktree (h : co.worktree m = some c) : m ∈ co.names := by
  by_contra hm
  rw [(co.all m hm).2.2] at h
  cases h

section

variable [DecidableEq C]

theorem proper_of_mem_changes {ch : Change} (h : ch ∈ co.changes) : ch.Proper := by
  rcases List.mem_append.mp h with h | h
  · obtain ⟨n, hn, hch⟩ := List.mem_filterMap.mp h
    unfold Checkout.trackedChange at hch
    cases hsource : co.source n with
    | some old =>
      rw [hsource] at hch
      obtain rfl := Option.some.inj hch
      obtain ⟨-, -, hold, -⟩ := co.source_spec n old hsource
      exact ⟨ne_nil_of_mem_names (mem_names_of_head hold), ne_nil_of_mem_names hn⟩
    | none =>
      rw [hsource] at hch
      dsimp only at hch
      split_ifs at hch with hhidden hsame
      obtain rfl := Option.some.inj hch
      exact ⟨ne_nil_of_mem_names hn, fun hx hy => hsame ⟨hx, hy⟩⟩
  · obtain ⟨n, hn, rfl⟩ := List.mem_map.mp h
    exact ne_nil_of_mem_names (List.mem_of_mem_filter hn)

/-- The second components of the pairs with the first one. -/
theorem map_filter_eq {α β : Type*} (l : List α) (u : α → Bool) (p : α → β) :
    (l.filter u).map p = ((l.map fun x => (u x, p x)).filter Prod.fst).map Prod.snd := by
  rw [List.filter_map, List.map_map]
  rfl

/-- The entries are those of the changes, but for the letters of the first. -/
theorem entries_spec (co : Checkout C) :
    (readStatus (statusText co.changes)).map (fun e => (e.isUntracked, e.path)) =
      co.changes.map fun ch => (ch.isUntracked, ch.path) :=
  map_readStatus fun _ h => proper_of_mem_changes h

theorem cleanPaths_eq (co : Checkout C) :
    ((readStatus (statusText co.changes)).filter Entry.isUntracked).map Entry.path =
      co.cleanPaths := by
  rw [map_filter_eq, entries_spec, ← map_filter_eq]
  rfl

theorem restorePaths_eq (co : Checkout C) :
    ((readStatus (statusText co.changes)).filter fun e => !e.isUntracked).map Entry.path =
      co.restorePaths := by
  have h := congrArg (List.map fun x : Bool × List Char => (!x.1, x.2)) (entries_spec co)
  rw [List.map_map, List.map_map] at h
  rw [map_filter_eq]
  refine (congrArg (fun l => (List.filter Prod.fst l).map Prod.snd) h).trans ?_
  exact (map_filter_eq co.changes (fun ch => !ch.isUntracked) Change.path).symm

theorem map_path_entries (co : Checkout C) :
    (readStatus (statusText co.changes)).map Entry.path = co.changes.map Change.path := by
  have h := congrArg (List.map Prod.snd) (entries_spec co)
  rw [List.map_map, List.map_map] at h
  exact h

theorem entries_eq_nil_iff (co : Checkout C) :
    readStatus (statusText co.changes) = [] ↔ co.changes = [] := by
  rw [← List.map_eq_nil_iff, map_path_entries, List.map_eq_nil_iff]

/-- The output is empty only where nothing has changed. -/
theorem stripChars_eq_nil_iff (co : Checkout C) :
    Py.stripChars (statusText co.changes) = [] ↔ co.changes = [] := by
  constructor
  · intro h
    rw [← entries_eq_nil_iff, readStatus, h]
    rfl
  · intro h
    rw [h]
    rfl

/-! ### What is taken away -/

variable {G : Git} {a : Answers}

/-- The worktree after the restoring, and whether the call goes on. -/
def afterRestore (G : Git) (a : Answers) (co : Checkout C) : (Name → Option C) × Bool :=
  if co.restorePaths = [] then (co.worktree, true) else gitRestore G a co co.restorePaths

/-- The worktree after the removal of the untracked files, and whether the call returns. -/
def afterClean (G : Git) (a : Answers) (co : Checkout C) : (Name → Option C) × Bool :=
  if co.cleanPaths = [] then ((afterRestore G a co).1, true)
  else gitClean G a co co.cleanPaths (afterRestore G a co).1

theorem quarantine_eq (h : co.changes ≠ []) (hcopied : a.copied = true) :
    quarantineDirtyWorktree G a co =
      if (afterRestore G a co).2 = false then
        ⟨(afterRestore G a co).1, quarantineDir co (readStatus (statusText co.changes)), .raised⟩
      else
        ⟨(afterClean G a co).1, quarantineDir co (readStatus (statusText co.changes)),
          if (afterClean G a co).2 then .quarantined (readStatus (statusText co.changes))
          else .raised⟩ := by
  unfold quarantineDirtyWorktree
  dsimp only
  rw [if_neg (mt (stripChars_eq_nil_iff co).mp h), if_neg (mt (entries_eq_nil_iff co).mp h),
    if_neg (by rw [hcopied]; decide), restorePaths_eq, cleanPaths_eq]
  rfl

theorem quarantine_of_not_copied (h : co.changes = [] ∨ a.copied = false) :
    (quarantineDirtyWorktree G a co).worktree = co.worktree := by
  unfold quarantineDirtyWorktree
  dsimp only
  by_cases hnil : co.changes = []
  · rw [if_pos ((stripChars_eq_nil_iff co).mpr hnil)]
  · rw [if_neg (mt (stripChars_eq_nil_iff co).mp hnil), if_neg (mt (entries_eq_nil_iff co).mp hnil),
      if_pos (h.resolve_left hnil)]

theorem afterRestore_ok_iff (hcopied : a.copied = true) :
    (afterRestore G a co).2 = true ↔
      co.restorePaths = [] ∨ RestoreRuns G a co ∧ a.restored = true := by
  unfold afterRestore gitRestore
  by_cases hnil : co.restorePaths = []
  · rw [if_pos hnil]
    exact iff_of_true rfl (.inl hnil)
  · rw [if_neg hnil, or_iff_right hnil]
    split_ifs with hfail
    · refine iff_of_false (by simp) fun h => ?_
      rw [h.1.accepted, h.1.matched] at hfail
      cases hfail
    · rw [Bool.not_eq_true, Bool.or_eq_false_iff] at hfail
      exact ⟨fun h => ⟨⟨hcopied, hnil, hfail.1, hfail.2⟩, h⟩, fun h => h.2⟩

theorem afterRestore_iff (hcopied : a.copied = true) (hm : co.worktree m = some c) :
    (afterRestore G a co).1 m = some c ↔ ¬ (RestoreRuns G a co ∧
      (displaces G a co co.restorePaths m = true ∨
        restores G a co co.restorePaths m = true ∧ co.head m ≠ some c)) := by
  unfold afterRestore gitRestore
  by_cases hnil : co.restorePaths = []
  · rw [if_pos hnil]
    exact iff_of_true hm fun h => h.1.called hnil
  · rw [if_neg hnil]
    split_ifs with hfail
    · refine iff_of_true hm fun h => ?_
      rw [h.1.accepted, h.1.matched] at hfail
      cases hfail
    · rw [Bool.not_eq_true, Bool.or_eq_false_iff] at hfail
      have hruns : RestoreRuns G a co := ⟨hcopied, hnil, hfail.1, hfail.2⟩
      rw [and_iff_right hruns]
      dsimp only
      split_ifs with hdisplaced hrestored
      · exact iff_of_false (by simp) fun h => h (.inl hdisplaced)
      · constructor
        · rintro hc (h | h)
          · exact hdisplaced h
          · exact h.2 hc
        · exact fun h => by_contra fun hc => h (.inr ⟨hrestored, hc⟩)
      · exact iff_of_true hm fun h => h.elim hdisplaced fun h => hrestored h.1

theorem afterClean_iff (hcopied : a.copied = true) (hok : (afterRestore G a co).2 = true) :
    (afterClean G a co).1 m = some c ↔ (afterRestore G a co).1 m = some c ∧
      ¬ (CleanRuns G a co ∧ co.isUntracked m = true ∧ G.selects co.cleanPaths m = true ∧
        a.cleanReaches m = true) := by
  unfold afterClean gitClean
  by_cases hnil : co.cleanPaths = []
  · rw [if_pos hnil]
    exact (and_iff_left fun h => h.1.called hnil).symm
  · rw [if_neg hnil]
    split_ifs with hrefused
    · refine (and_iff_left fun h => ?_).symm
      rw [h.1.accepted] at hrefused
      cases hrefused
    · rw [Bool.not_eq_true] at hrefused
      have hruns : CleanRuns G a co :=
        ⟨hcopied, (afterRestore_ok_iff hcopied).mp hok, hnil, hrefused⟩
      rw [and_iff_right hruns]
      dsimp only
      split_ifs with hsel
      · simp only [Bool.and_eq_true] at hsel
        exact iff_of_false (by simp) fun h => h.2 ⟨hsel.1.1, hsel.1.2, hsel.2⟩
      · refine (and_iff_left fun h => hsel ?_).symm
        rw [h.1, h.2.1, h.2.2]
        rfl

theorem changes_ne_nil_of_paths (h : co.restorePaths ≠ [] ∨ co.cleanPaths ≠ []) :
    co.changes ≠ [] := by
  intro hnil
  unfold Checkout.restorePaths Checkout.cleanPaths at h
  rw [hnil] at h
  exact h.elim (fun h => h rfl) fun h => h rfl

/-- Nothing is taken away before the changes are found and copied. -/
theorem Discarded.begun (h : Discarded G a co m c) : co.changes ≠ [] ∧ a.copied = true := by
  cases h with
  | displaced h _ => exact ⟨changes_ne_nil_of_paths (.inl h.called), h.copied⟩
  | overwritten h _ _ => exact ⟨changes_ne_nil_of_paths (.inl h.called), h.copied⟩
  | cleaned h _ _ _ => exact ⟨changes_ne_nil_of_paths (.inr h.called), h.copied⟩

theorem discarded_iff : Discarded G a co m c ↔
    (RestoreRuns G a co ∧ (displaces G a co co.restorePaths m = true ∨
      restores G a co co.restorePaths m = true ∧ co.head m ≠ some c)) ∨
    CleanRuns G a co ∧ co.isUntracked m = true ∧ G.selects co.cleanPaths m = true ∧
      a.cleanReaches m = true := by
  constructor
  · intro h
    cases h with
    | displaced h hm => exact .inl ⟨h, .inl hm⟩
    | overwritten h hm hc => exact .inl ⟨h, .inr ⟨hm, hc⟩⟩
    | cleaned h hm hsel hreach => exact .inr ⟨h, hm, hsel, hreach⟩
  · rintro (⟨h, hm | ⟨hm, hc⟩⟩ | ⟨h, hm, hsel, hreach⟩)
    · exact .displaced h hm
    · exact .overwritten h hm hc
    · exact .cleaned h hm hsel hreach

theorem worktree_iff (hm : co.worktree m = some c) :
    (quarantineDirtyWorktree G a co).worktree m = some c ↔ ¬ Discarded G a co m c := by
  by_cases hbegun : co.changes ≠ [] ∧ a.copied = true
  · obtain ⟨hchanges, hcopied⟩ := hbegun
    rw [quarantine_eq hchanges hcopied, discarded_iff, not_or]
    by_cases hok : (afterRestore G a co).2 = false
    · -- the clean is not called
      rw [if_pos hok, ← afterRestore_iff hcopied hm]
      refine (and_iff_left fun h => ?_).symm
      rw [(afterRestore_ok_iff hcopied).mpr h.1.before] at hok
      cases hok
    · rw [if_neg hok, ← afterRestore_iff hcopied hm]
      exact afterClean_iff hcopied (by simpa using hok)
  · rw [quarantine_of_not_copied]
    · exact iff_of_true hm fun h => hbegun h.begun
    · by_cases hnil : co.changes = []
      · exact .inl hnil
      · exact .inr (by simpa using fun hc => hbegun ⟨hnil, hc⟩)

end

/-! ### What is copied -/

theorem copyPath_eq_some_iff {dest : Name → Option C} {path : List Char}
    (hdest : ∀ c, dest m = some c → co.worktree m = some c) :
    copyPath co dest path m = some c ↔ dest m = some c ∨
      co.worktree m = some c ∧ ∃ rel, relName? path = some rel ∧ under rel m = true := by
  unfold copyPath
  cases hrel : relName? path with
  | none => exact (or_iff_left fun h => by obtain ⟨-, rel, h, -⟩ := h; cases h).symm
  | some rel =>
    dsimp only
    split_ifs with hcopy
    · rw [Bool.and_eq_true] at hcopy
      constructor
      · exact fun hc => .inr ⟨hc, rel, rfl, hcopy.1⟩
      · exact fun h => h.elim (hdest c) And.left
    · refine (or_iff_left fun h => hcopy ?_).symm
      obtain ⟨hc, rel', hrel', hunder⟩ := h
      obtain rfl := Option.some.inj hrel'
      rw [hunder, hc]
      rfl

theorem foldl_copyPath_iff {paths : List (List Char)} {dest : Name → Option C}
    (hdest : ∀ c, dest m = some c → co.worktree m = some c) :
    paths.foldl (copyPath co) dest m = some c ↔ dest m = some c ∨
      co.worktree m = some c ∧ ∃ path ∈ paths, ∃ rel,
        relName? path = some rel ∧ under rel m = true := by
  induction paths generalizing dest with
  | nil => exact (or_iff_left fun h => by obtain ⟨-, path, h, -⟩ := h; cases h).symm
  | cons path paths ih =>
    have hnext : ∀ c, copyPath co dest path m = some c → co.worktree m = some c := fun c hc =>
      ((copyPath_eq_some_iff hdest).mp hc).elim (hdest c) And.left
    rw [List.foldl_cons, ih hnext, copyPath_eq_some_iff hdest, or_assoc, ← and_or_left]
    simp only [List.mem_cons, exists_eq_or_imp]

theorem copies_eq_some_iff {paths : List (List Char)} :
    copies co paths m = some c ↔ co.worktree m = some c ∧ ∃ path ∈ paths, ∃ rel,
      relName? path = some rel ∧ under rel m = true := by
  unfold copies
  rw [foldl_copyPath_iff fun c h => by cases h]
  exact or_iff_right fun h => by cases h

section

variable [DecidableEq C] {G : Git} {a : Answers}

theorem quarantineDir_iff (hm : co.worktree m = some c) :
    quarantineDir co (readStatus (statusText co.changes)) m = some (.copy c) ↔
      m ≠ manifestName ∧ co.Named m := by
  unfold quarantineDir
  by_cases hname : m = manifestName
  · rw [hname, Function.update_self]
    exact iff_of_false (by simp) fun h => h.1 rfl
  · rw [Function.update_of_ne hname, and_iff_right hname, map_path_entries, Option.map_eq_some_iff]
    constructor
    · rintro ⟨c', hc', -⟩
      obtain ⟨-, path, hpath, rel, hrel, hunder⟩ := copies_eq_some_iff.mp hc'
      obtain ⟨ch, hch, rfl⟩ := List.mem_map.mp hpath
      exact ⟨ch, hch, rel, hrel, hunder⟩
    · rintro ⟨ch, hch, rel, hrel, hunder⟩
      exact ⟨c, copies_eq_some_iff.mpr ⟨hm, _, List.mem_map_of_mem hch, rel, hrel, hunder⟩, rfl⟩

theorem quarantine_of_copied (h : co.changes ≠ []) (hcopied : a.copied = true) :
    (quarantineDirtyWorktree G a co).quarantine =
      quarantineDir co (readStatus (statusText co.changes)) := by
  rw [quarantine_eq h hcopied]
  split_ifs <;> rfl

/-- **Work is kept** just when each file whose content `git` takes away was named by a line of the
status, as it was read, and is not in the place of the manifest. -/
theorem kept_iff (G : Git) (a : Answers) (co : Checkout C) :
    Kept co (quarantineDirtyWorktree G a co) ↔
      ∀ m c, OwnWork co m c → Discarded G a co m c → m ≠ manifestName ∧ co.Named m := by
  unfold Kept
  refine forall₂_congr fun m c => forall_congr' fun hown => ?_
  rw [worktree_iff hown.1, ← imp_iff_not_or]
  refine forall_congr' fun hdiscarded => ?_
  obtain ⟨hchanges, hcopied⟩ := hdiscarded.begun
  rw [quarantine_of_copied hchanges hcopied, quarantineDir_iff hown.1]

/-! ### Plain names -/

theorem exists_change (hown : OwnWork co m c) (hignored : co.ignored m = false) :
    ∃ ch ∈ co.changes, ch.name = m := by
  obtain ⟨hm, hdiff⟩ := hown
  have hnames := mem_names_of_worktree hm
  cases hindex : co.index m with
  | none =>
    refine ⟨.untracked m, List.mem_append_right _ (List.mem_map_of_mem ?_), rfl⟩
    refine List.mem_filter.mpr ⟨hnames, ?_⟩
    rw [Checkout.isUntracked, hm, hindex, hignored]
    rfl
  | some i =>
    have hhead : co.head m ≠ some c := hdiff.resolve_right (by rw [hindex]; simp)
    suffices h : ∃ ch, co.trackedChange m = some ch ∧ ch.name = m by
      obtain ⟨ch, hch, hname⟩ := h
      exact ⟨ch, List.mem_append_left _ (List.mem_filterMap.mpr ⟨m, hnames, hch⟩), hname⟩
    unfold Checkout.trackedChange
    cases hsource : co.source m with
    | some old => exact ⟨_, rfl, rfl⟩
    | none =>
      have hhidden : (co.names.any fun new => co.source new = some m) = false := by
        -- what a path was renamed from is not in the index
        refine List.any_eq_false.mpr fun new _ h => ?_
        obtain ⟨-, -, -, hno⟩ := co.source_spec new m (of_decide_eq_true h)
        rw [hindex] at hno
        cases hno
      have hletters : ¬ (co.letterX m = .unmodified ∧ co.letterY m = .unmodified) := by
        rintro ⟨hx, hy⟩
        unfold Checkout.letterX Checkout.letter at hx
        unfold Checkout.letterY Checkout.letter at hy
        rw [hindex] at hx
        rw [if_neg (by rw [hindex]; simp), hindex, hm] at hy
        dsimp only at hy
        split_ifs at hy with hic
        cases hh : co.head m with
        | none => rw [hh] at hx; cases hx
        | some x =>
          rw [hh] at hx
          dsimp only at hx
          split_ifs at hx with hxi
          exact hhead (by rw [hh, hxi, hic])
      dsimp only
      rw [hhidden, if_neg hletters]
      exact ⟨_, rfl, rfl⟩

/-- Nothing is lost of a checkout with plain names, where no file is ignored and the manifest takes
the place of none. -/
theorem kept_of_plain (G : Git) (a : Answers) (hplain : ∀ ch ∈ co.changes, ch.Plain)
    (hignored : ∀ m, co.ignored m = false) (hmanifest : ∀ c, ¬ OwnWork co manifestName c) :
    Kept co (quarantineDirtyWorktree G a co) := by
  intro m c hown
  rw [worktree_iff hown.1, ← imp_iff_not_or]
  intro hdiscarded
  obtain ⟨hchanges, hcopied⟩ := hdiscarded.begun
  rw [quarantine_of_copied hchanges hcopied, quarantineDir_iff hown.1]
  refine ⟨?_, ?_⟩
  · rintro rfl
    exact hmanifest c hown
  · obtain ⟨ch, hch, rfl⟩ := exists_change hown (hignored m)
    refine ⟨ch, hch, ch.name, ?_, by simp [under]⟩
    rw [path_of_plain (hplain ch hch)]
    exact co.clean _ (mem_names_of_worktree hown.1)

end

end

/-! ### A file named by a pattern -/

/-- An untracked file `a*` and an untracked file `a b`. -/
def starCheckout : Checkout String where
  head _ := none
  index _ := none
  worktree n := [("a b".toList, "plan"), ("a*".toList, "list")].lookup n
  ignored _ := false
  names := ["a b".toList, "a*".toList]
  clean := by decide
  all n hn := by
    refine ⟨rfl, rfl, ?_⟩
    refine List.lookup_eq_none_iff.mpr fun x hx => ?_
    have hkey : x.1 ∈ ["a b".toList, "a*".toList] := List.mem_map_of_mem hx
    rw [bne_iff_ne]
    rintro rfl
    exact hn hkey
  typeChanged _ _ := false
  source _ := none
  source_spec n old h := by cases h

def noFault : Answers := ⟨true, fun _ => true, true, fun _ => true, true⟩

/-- An untracked file `notes`. -/
def plainCheckout : Checkout String where
  head _ := none
  index _ := none
  worktree n := if n = "notes".toList then some "plan" else none
  ignored _ := false
  names := ["notes".toList]
  clean := by decide
  all n hn := ⟨rfl, rfl, if_neg fun h => hn (List.mem_singleton.mpr h)⟩
  typeChanged _ _ := false
  source _ := none
  source_spec n old h := by cases h

/-- The file is found in the quarantine, or left where it is. -/
theorem kept_plainCheckout :
    Kept plainCheckout (quarantineDirtyWorktree .glob noFault plainCheckout) := by
  have hchanges : plainCheckout.changes = [.untracked "notes".toList] := rfl
  refine kept_of_plain .glob noFault (fun ch hch => ?_) (fun _ => rfl) fun c hown => ?_
  · rw [hchanges, List.mem_singleton] at hch
    subst hch
    exact (by decide : plain "notes".toList = true)
  · have hworktree : plainCheckout.worktree manifestName = none := by decide
    rw [hown.1] at hworktree
    cases hworktree

/-- The blank puts the one name between quotes, so that it is not copied; the star of the other
one removes it. -/
theorem not_kept_star : ¬ ∀ (co : Checkout String) (a : Answers),
    Kept co (quarantineDirtyWorktree .glob a co) := by
  intro h
  have hown : OwnWork starCheckout "a b".toList "plan" := ⟨by decide, .inr rfl⟩
  rcases h starCheckout noFault _ _ hown with hw | hq
  · revert hw
    decide
  · have hnone : ((quarantineDirtyWorktree .glob noFault starCheckout).quarantine
        "a b".toList).isNone = true := by decide
    rw [hq] at hnone
    cases hnone

end RmSync
