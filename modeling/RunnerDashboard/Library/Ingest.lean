import Mathlib.Data.List.Lex
import Mathlib.Data.List.Sort
import Mathlib.Data.Prod.Lex
import Mathlib.Data.Rat.Defs
import Mathlib.Data.String.Basic
import RunnerDashboard.Lib.PyStr
import RunnerDashboard.Lib.Sweep
import RunnerDashboard.Lib.Table

/-!
# Library ingest

The files of a source are recorded in the table `files`, and their contents in the table `works`.  A
pass visits some of the files, in the order of the traversal, and the next pass goes on behind the
last one. The pass that reaches the end marks the files that are gone, and retires the works that no
file has.

## Main results

* `nodup_eligiblePaths` — a file is visited once.
* `snd_ingestFiles` — a pass visits one file after the other.
-/

namespace Library

open Sql

/-! ### The files of a source -/

/-- A path below the root of the source, by its names. -/
abbrev RelPath := List String

def RelPath.asPosix (p : RelPath) : String := "/".intercalate p

def RelPath.name (p : RelPath) : String := p.getLast?.getD ""

/-- A name, cut at its last dot; no cut at the first or behind the last character. -/
def splitName (name : String) : List Char × List Char :=
  let chars := name.toList
  let ext := (chars.reverse.takeWhile (· ≠ '.')).reverse
  let base := (chars.reverse.dropWhile (· ≠ '.')).tail.reverse
  if base = [] ∨ ext = [] then (chars, []) else (base, '.' :: ext)

/-- `path.suffix.lower()`. -/
def RelPath.suffix (p : RelPath) : String := Py.lower (String.ofList (splitName p.name).2)

def RelPath.stem (p : RelPath) : String := String.ofList (splitName p.name).1

/-- A file: its content, and when it was changed. -/
structure SourceFile (C : Type*) where
  mtime : ℚ
  raw : C

abbrev Tree (C : Type*) := Table RelPath (SourceFile C)

/-- A source: the paths that its globs match, and what is read from contents. -/
structure Source (C : Type*) where
  /-- `matches_source_globs`. -/
  matchesGlobs : String → Bool
  /-- `len(raw)`, which is also `st_size`. -/
  size : C → ℕ
  sha256 : C → String
  /-- `len(reader.pages)`, `none` where the reader raises. -/
  pdfPages : C → Option ℕ
  /-- `len(chapters)`, `none` where the reader raises. -/
  epubChapters : C → Option ℕ
  /-- `len(extract_text_passages(raw, fmt))`. -/
  textPassages : C → String → ℕ

def ingestSuffixes : List String := [".pdf", ".epub", ".md", ".markdown", ".txt"]

/-- The order of the traversal: the files of a directory, then its directories, both by name. -/
def walkKey : RelPath → List (Bool ×ₗ String)
  | [] => []
  | [name] => [toLex (false, name)]
  | directory :: path => toLex (true, directory) :: walkKey path

section Paths

variable {C : Type*}

def Source.eligible (src : Source C) (p : RelPath) : Bool :=
  p.suffix ∈ ingestSuffixes && src.matchesGlobs p.asPosix

def Source.eligiblePaths (src : Source C) (tree : Tree C) : List (RelPath × SourceFile C) :=
  (tree.matching fun p _ => src.eligible p).insertionSort fun x y => walkKey x.1 ≤ walkKey y.1

end Paths

/-! ### Tables -/

inductive FileStatus
  | present
  | removed
  deriving DecidableEq

inductive WorkStatus
  | active
  | retired
  deriving DecidableEq

/-- A row of `files`.  The work is referred to by its digest, which is unique. -/
structure FileRow where
  work : String
  mtime : ℚ
  size : ℕ
  sha256 : String
  status : FileStatus
  deriving DecidableEq

/-- The tables `files` and `works`. -/
structure LibraryDb where
  files : Table RelPath FileRow
  works : Table String WorkStatus

def LibraryDb.empty : LibraryDb := ⟨.empty, .empty⟩

def FileRow.isPresent (r : FileRow) : Bool := r.status = .present

namespace LibraryDb

/-- `_ensure_work`: the work with a digest. -/
def ensureWork (lib : LibraryDb) (digest : String) : LibraryDb :=
  { lib with works := lib.works.insertNew digest .active }

def upsertFile (lib : LibraryDb) (p : RelPath) (mtime : ℚ) (size : ℕ) (digest : String) :
    LibraryDb :=
  { lib with files := lib.files.put p ⟨digest, mtime, size, digest, .present⟩ }

def markRemovals (lib : LibraryDb) (seen : List RelPath) : LibraryDb :=
  { lib with
    files := lib.files.update (fun p r => r.isPresent && decide (p ∉ seen))
      fun _ r => { r with status := .removed } }

def referred (lib : LibraryDb) (digest : String) : Bool :=
  0 < lib.files.count fun _ r => r.isPresent && r.work = digest

def retireOrphanWorks (lib : LibraryDb) : LibraryDb :=
  { lib with
    works := lib.works.update (fun digest status => status = .active && !lib.referred digest)
      fun _ _ => .retired }

end LibraryDb

/-! ### A pass -/

def maxFileBytes : ℕ := 10 * 1024 * 1024

def minPdfBytes : ℕ := 4096

/-- What became of a file. -/
inductive Outcome
  | skipped
  | rejected (reason : String)
  | indexed
  deriving DecidableEq

/-- What a pass returns. -/
structure IngestResult where
  filesSeen : ℕ
  filesIndexed : ℕ
  filesSkipped : ℕ
  filesRejected : ℕ
  filesRemoved : ℕ
  scanComplete : Bool
  nextCursor : Option RelPath

section Pass

variable {C : Type*} (src : Source C)

def rejectReason (suffix : String) (raw : C) : Option String :=
  if maxFileBytes < src.size raw then some "file_too_large"
  else if suffix ≠ ".pdf" ∨ minPdfBytes ≤ src.size raw then none
  else
    match src.pdfPages raw with
    | some (_ + 1) => none
    | _ => some "too_small"

/-- The tests of `_index_pdf`, `_index_epub` and `_index_text`. -/
def indexReason (suffix : String) (raw : C) : Option String :=
  if suffix = ".pdf" then
    match src.pdfPages raw with
    | none => some "corrupt_pdf"
    | some 0 => some "zero_pages"
    | some _ => none
  else if suffix = ".epub" then
    match src.epubChapters raw with
    | none => some "corrupt_epub"
    | some 0 => some "empty_epub"
    | some _ => none
  else if src.textPassages raw (if suffix = ".txt" then "txt" else "md") = 0 then some "empty_file"
  else none

/-- Why a file is not taken. -/
def rejection (p : RelPath) (raw : C) : Option String :=
  (rejectReason src p.suffix raw).or (indexReason src p.suffix raw)

/-- `_should_skip`: the file is recorded with its time and size. -/
def shouldSkip (lib : LibraryDb) (x : RelPath × SourceFile C) : Bool :=
  (lib.files.get? x.1).any fun r => r.mtime = x.2.mtime && r.size = src.size x.2.raw && r.isPresent

def ingestFile (lib : LibraryDb) (x : RelPath × SourceFile C) : Outcome × LibraryDb :=
  if shouldSkip src lib x then (.skipped, lib)
  else
    match rejection src x.1 x.2.raw with
    | some reason => (.rejected reason, lib)
    | none =>
      let digest := src.sha256 x.2.raw
      (.indexed, (lib.ensureWork digest).upsertFile x.1 x.2.mtime (src.size x.2.raw) digest)

def ingestFiles (lib : LibraryDb) : List (RelPath × SourceFile C) → List Outcome × LibraryDb
  | [] => ([], lib)
  | x :: xs =>
    let (outcome, next) := ingestFile src lib x
    let (outcomes, last) := ingestFiles next xs
    (outcome :: outcomes, last)

/-- The order of a pass without a bound: names with an author come first. -/
def readingOrder (x y : RelPath × SourceFile C) : Bool :=
  let rank := fun z : RelPath × SourceFile C => if Py.contains " - " z.1.stem then 0 else 1
  toLex (rank x, x.1.asPosix) ≤ toLex (rank y, y.1.asPosix)

/-- The files of a pass, and whether all files were seen. -/
def selectPaths (paths : List (RelPath × SourceFile C)) (maxFiles : Option ℕ)
    (startAfter : Option RelPath) : List (RelPath × SourceFile C) × Bool :=
  match maxFiles with
  | none => (paths.insertionSort fun x y => readingOrder x y, true)
  | some m => Sweep.batch Prod.fst paths m startAfter

/-- The end of a pass that has seen all files. -/
def reconcile (tree : Tree C) (lib : LibraryDb) : LibraryDb :=
  (lib.markRemovals ((src.eligiblePaths tree).map Prod.fst)).retireOrphanWorks

def ingestDirectory (lib : LibraryDb) (tree : Tree C) (maxFiles : Option ℕ)
    (startAfter : Option RelPath) : Except String (IngestResult × LibraryDb) :=
  if maxFiles = some 0 then .error "max_files must be a positive integer"
  else
    let all := src.eligiblePaths tree
    let (paths, scanComplete) := selectPaths all maxFiles startAfter
    let (outcomes, visited) := ingestFiles src lib paths
    let removed := visited.files.count fun p r => r.isPresent && decide (p ∉ all.map Prod.fst)
    .ok ({ filesSeen := paths.length
           filesIndexed := outcomes.count .indexed
           filesSkipped := outcomes.count .skipped
           filesRejected := outcomes.countP fun o => o ≠ .indexed && o ≠ .skipped
           filesRemoved := if scanComplete then removed else 0
           scanComplete
           nextCursor :=
             if scanComplete then none else (paths.getLast?.map Prod.fst).or startAfter },
      if scanComplete then reconcile src tree visited else visited)

end Pass

/-! ### What a pass visits -/

section Visits

variable {C : Type*} {src : Source C} {tree : Tree C} {lib : LibraryDb}
  {xs : List (RelPath × SourceFile C)}

/-- **A file is visited once.** -/
theorem nodup_eligiblePaths : ((src.eligiblePaths tree).map Prod.fst).Nodup := by
  have hperm := List.perm_insertionSort
    (fun x y : RelPath × SourceFile C => walkKey x.1 ≤ walkKey y.1)
    (tree.matching fun p _ => src.eligible p)
  refine ((hperm.map Prod.fst).nodup_iff).mpr ?_
  exact tree.nodupKeys.sublist (List.filter_sublist.map Prod.fst)

/-- **A pass visits one file after the other.** -/
theorem snd_ingestFiles : (ingestFiles src lib xs).2 =
    xs.foldl (fun lib x => (ingestFile src lib x).2) lib := by
  induction xs generalizing lib with
  | nil => rfl
  | cons x xs ih => exact ih

end Visits

end Library
