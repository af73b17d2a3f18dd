import Mathlib.Data.List.Basic
import RunnerDashboard.Deploy.CheckRuns
import RunnerDashboard.Lib.Attempt

/-!
# The state of a deployment

Before the switch the mutable state of the running tree is copied into the staged one: documented
directories and files, and files that look like state, but nothing behind a symbolic link.  Each
operation on the file system may raise, wherever the copy is by then.
-/

namespace Deploy

open Attempt

/-! ### Trees -/

/-- What a symbolic link inside a tree leads to. -/
inductive LinkTarget
  | nothing
  | file (text : String)
  | dir
  | other
  deriving DecidableEq, Repr

/-- A file or a directory. -/
inductive Node where
  | file (text : String)
  /-- A symbolic link; it leads out of the trees of the deployment. -/
  | link (target : LinkTarget)
  /-- A socket, a pipe or a device. -/
  | other
  | dir (entries : List (String × Node))

def Node.isSymlink : Node → Bool
  | .link _ => true
  | _ => false

/-- `exists`, which follows a link. -/
def Node.exists : Node → Bool
  | .link target => target ≠ .nothing
  | _ => true

/-- `is_dir`, which follows a link. -/
def Node.isDir : Node → Bool
  | .dir _ => true
  | .link target => target = .dir
  | _ => false

/-- The text of a file, also where a link leads to it; a node has one where `is_file` holds. -/
def Node.text? : Node → Option String
  | .file text => some text
  | .link (.file text) => some text
  | _ => none

def Node.at : List String → Node → Option Node
  | [], node => some node
  | name :: rest, .dir entries => (entries.lookup name).bind (Node.at rest)
  | _ :: _, _ => none

def putEntry (name : String) (node : Node) (entries : List (String × Node)) :
    List (String × Node) :=
  if (entries.lookup name).isSome then entries.map fun x => if x.1 = name then (name, node) else x
  else entries ++ [(name, node)]

/-- A node is put at a path whose parent is a directory. -/
def Node.set : List String → Node → Node → Option Node
  | [], node, _ => some node
  | [name], node, .dir entries => some (.dir (putEntry name node entries))
  | name :: rest, node, .dir entries =>
    (entries.lookup name).bind fun child =>
      (Node.set rest node child).map fun child => .dir (putEntry name child entries)
  | _ :: _, _, _ => none

/-- `mkdir(parents=True, exist_ok=True)`. -/
def Node.mkdirs : List String → Node → Option Node
  | [], node => if node.isDir then some node else none
  | name :: rest, .dir entries =>
    (Node.mkdirs rest ((entries.lookup name).getD (.dir []))).map fun child =>
      .dir (putEntry name child entries)
  | _ :: _, _ => none

/-! ### What may go wrong -/

/-- The operations of `_atomic_pointer`. -/
inductive PointerOp
  | resolve
  | exists
  | isSymlink
  | create
  | replace
  /-- `tmp.is_symlink()` and `tmp.unlink()` of the `finally`. -/
  | left
  | unlink
  deriving DecidableEq, Repr

/-- The operations by which `activate_release` moves a plain directory back. -/
inductive UndoOp
  | isDir
  | exists
  | replace
  deriving DecidableEq, Repr

/-- The operations that find out what live leads to, before anything is stopped. -/
inductive SourceOp
  | parent
  | home
  | isSymlink
  | resolve
  deriving DecidableEq, Repr

/-- An operation on the file system, at its place in the source.  A number tells the operations of
one place apart; no two operations of a transaction have the same site. -/
inductive Site
  | validate (k : ℕ)
  | source (op : SourceOp)
  | copy (k : ℕ)
  | recheck (k : ℕ)
  | rename
  | retain (k : ℕ)
  | pointer (op : PointerOp)
  | undo (op : UndoOp)
  | restore (k : ℕ)
  | restorePointer (op : PointerOp)
  deriving DecidableEq, Repr

/-- The three times at which the service is handled. -/
inductive Round
  | switch
  | rollback
  | resume
  deriving DecidableEq, Repr

inductive Call
  | checkIdle
  | checkQuiesced
  | stop (round : Round)
  | restart (round : Round)
  | healthy (round : Round)
  deriving DecidableEq, Repr

inductive Reply
  | returned (value : Bool)
  | raised (text : String)
  deriving DecidableEq, Repr

/-- What happens around a transaction. -/
structure Env where
  /-- The text of the error that an operation raises, where it raises one. -/
  fails : Site → Option String
  reply : Call → Reply
  /-- The text of an error that the state of a path is the reason of. -/
  osError : String → String
  /-- `MACHINE_REGISTRY_PATH` is set. -/
  registryOverride : Bool := false

/-- An operation that may raise. -/
def Env.fault {σ : Type} (env : Env) (site : Site) : EStateM String σ Unit :=
  match env.fails site with
  | none => pure ()
  | some text => throw text

/-! ### Copies -/

/-- The staged tree, the registry of the user's configuration, and how many operations were done. -/
structure CopyState where
  target : Node
  registry : Option Node
  step : ℕ

abbrev Copy := EStateM String CopyState

/-- The names of the two trees, for texts. -/
structure Roots where
  source : String
  target : String

def pathText (root : String) (path : List String) : String := "/".intercalate (root :: path)

section Copying

variable (env : Env) (roots : Roots)

def copyOp : Copy Unit := do
  let s ← get
  set { s with step := s.step + 1 }
  env.fault (.copy s.step)

/-- The walk of `_reject_symlink_components`, from the end of a path up to its root. -/
def rejectUp (root : String) (tree : Node) : List String → Copy Unit
  | [] => copyOp env
  | name :: up => do
    copyOp env
    raiseIf ((tree.at (name :: up).reverse).any Node.isSymlink)
      ("refusing mutable-state symlink: " ++ pathText root (name :: up).reverse)
    rejectUp root tree up

/-- `_reject_symlink_components`, in both trees. -/
def rejectSymlinkComponents (source : Node) (path : List String) : Copy Unit := do
  rejectUp env roots.source source path.reverse
  let s ← get
  rejectUp env roots.target s.target path.reverse

/-- `mkdir(parents=True, exist_ok=True)`. -/
def mkdirs (path : List String) : Copy Unit := do
  copyOp env
  let s ← get
  match s.target.mkdirs path with
  | some target => set { s with target }
  | none => throw (env.osError (pathText roots.target path))

def writeText (path : List String) (text : String) : Copy Unit := do
  let s ← get
  let node ←
    match s.target.at path with
    | some (.dir _) | some .other | some (.link .dir) | some (.link .other) =>
      throw (env.osError (pathText roots.target path))
    | some (.link _) => pure (Node.link (.file text))
    | some (.file _) | none => pure (.file text)
  match Node.set path node s.target with
  | some target => set { s with target }
  | none => throw (env.osError (pathText roots.target path))

/-- `shutil.copy2`: a file is copied into a directory that stands at its place. -/
def copy2 (path : List String) (text : String) : Copy Unit := do
  let s ← get
  let path :=
    match s.target.at path with
    | some (.dir _) => path ++ [path.getLastD ""]
    | _ => path
  copyOp env
  writeText env roots path ""
  copyOp env
  writeText env roots path text
  copyOp env

mutual

def copyTreeContents (source : Node) (path : List String) : Node → Copy Unit
  | .dir entries => do
    rejectSymlinkComponents env roots source path
    copyOp env
    mkdirs env roots path
    copyOp env
    copyTreeEntries source path entries
  | .file _ | .link _ | .other => do
    rejectSymlinkComponents env roots source path
    copyOp env

/-- The loop of `_copy_tree_contents`. -/
def copyTreeEntries (source : Node) (path : List String) : List (String × Node) → Copy Unit
  | [] => pure ()
  | (name, item) :: rest => do
    rejectSymlinkComponents env roots source (path ++ [name])
    copyOp env
    if item.isDir then
      copyTreeContents source (path ++ [name]) item
    else
      copyOp env
      match item.text? with
      | some text =>
        mkdirs env roots path
        copy2 env roots (path ++ [name]) text
      | none =>
        throw ("unsupported mutable-state entry: " ++ pathText roots.source (path ++ [name]))
    copyTreeEntries source path rest

end

def immutableDirectories : List String :=
  [".cache", ".git", ".venv", "__pycache__", "env", "node_modules", "uv-bootstrap",
    "venv", "wheels"]

def mutableSuffixes : List String :=
  [".db", ".db-wal", ".db-shm", ".db-journal", ".sqlite", ".sqlite-wal", ".sqlite-shm",
    ".sqlite-journal", ".sqlite3", ".sqlite3-wal", ".sqlite3-shm", ".sqlite3-journal", ".ndjson",
    ".jsonl"]

/-- `name.endswith(suffix)`. -/
def endsWith (name suffix : String) : Bool := suffix.toList.isSuffixOf name.toList

def isMutableRootFile (name : String) : Bool :=
  (Py.startsWith name "." && endsWith name "_state.json") || endsWith name "_history.json" ||
    mutableSuffixes.any (endsWith name)

mutual

def copyRuntimeArtifacts (source : Node) (path : List String) : Node → Copy Unit
  | .dir entries => do
    rejectUp env roots.source source path.reverse
    copyOp env
    copyRuntimeEntries source path entries
  | .file _ | .link _ | .other => do
    rejectUp env roots.source source path.reverse
    throw (env.osError (pathText roots.source path))

/-- The loop of `_copy_runtime_artifacts`. -/
def copyRuntimeEntries (source : Node) (path : List String) : List (String × Node) → Copy Unit
  | [] => pure ()
  | (name, item) :: rest => do
    copyOp env
    if item.isDir && decide (name ∈ immutableDirectories) then
      copyRuntimeEntries source path rest
    else
      rejectSymlinkComponents env roots source (path ++ [name])
      copyOp env
      if item.isDir then
        copyRuntimeArtifacts source (path ++ [name]) item
      else
        copyOp env
        match item.text? with
        | some text =>
          if isMutableRootFile name then
            mkdirs env roots path
            copy2 env roots (path ++ [name]) text
        | none => pure ()
      copyRuntimeEntries source path rest

end

def mutableTrees : List (List String) := [["config"], ["backend", "data"]]

def mutableFiles : List (List String) :=
  [["backend", "machine_registry.yml"], ["agent_profiles.json"], ["local_apps.json"]]

/-- A file of `_MUTABLE_FILES`. -/
def copyMutableFile (source : Node) (path : List String) : Copy Unit := do
  rejectSymlinkComponents env roots source path
  copyOp env
  match (source.at path).bind Node.text? with
  | some text =>
    mkdirs env roots path.dropLast
    copy2 env roots path text
  | none => pure ()

/-- The `.env` file, whose parent is the staged tree. -/
def copyEnvFile (source : Node) : Copy Unit := do
  rejectSymlinkComponents env roots source [".env"]
  copyOp env
  match (source.at [".env"]).bind Node.text? with
  | some text => copy2 env roots [".env"] text
  | none => pure ()

/-- `_migrate_machine_registry_to_local_config`: the registry is copied to the configuration of the
user, where there is none yet. -/
def migrateMachineRegistryToLocalConfig (source : Node) : Copy Unit := do
  copyOp env
  if (source.at ["backend"]).any Node.isDir && !env.registryOverride then
    copyOp env
    copyOp env
    let s ← get
    if (s.registry.bind Node.text?).isNone then
      copyOp env
      match (source.at ["backend", "machine_registry.yml"]).bind Node.text? with
      | none => pure ()
      | some text =>
        copyOp env
        if text ≠ "" then
          -- `mkdir`, `chmod`, `copy2` to a staging file, `chmod`, `os.replace`
          copyOp env
          copyOp env
          copyOp env
          copyOp env
          copyOp env
          let s ← get
          raiseIf (s.registry.any Node.isDir) (env.osError "machine_registry.yml")
          set { s with registry := some (.file text) }

/-- `copy_mutable_state`, from a tree that may be missing; `same` tells whether it is the staged
one. -/
def copyMutableState (source : Option Node) (same : Bool) : Copy Unit := do
  copyOp env
  match source with
  | none => throw (env.osError roots.source)
  | some source =>
    migrateMachineRegistryToLocalConfig env source
    copyOp env
    raiseIf same "source and candidate must differ"
    mutableTrees.forM fun path =>
      copyTreeContents env roots source path ((source.at path).getD .other)
    mutableFiles.forM fun path => copyMutableFile env roots source path
    copyEnvFile env roots source
    copyRuntimeArtifacts env roots source [] source

end Copying

end Deploy
