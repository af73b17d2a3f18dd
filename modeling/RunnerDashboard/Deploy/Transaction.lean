import RunnerDashboard.Deploy.StateCopy
import RunnerDashboard.Lib.Table

/-!
# The switch of a deployment

A transaction stops the service, copies the state into the staged release, gives the release its
name and switches the live path to it.  What fails on the way is undone at three places: inside of
`activate_release`, after it with a receipt, and without one where the old release was never left.
-/

namespace Deploy

open Attempt Sql

/-! ### Directories -/

/-- What kind of a path the live directory is. -/
inductive LiveDir
  | relative
  | unnamed
  /-- A root of the file system. -/
  | anchor
  | home
  | ordinary
  deriving DecidableEq, Repr

/-- What stands at a path beside the release root: at the live path, and at the temporary
pointer. -/
inductive Live
  | absent
  | dir (entries : List (String × Node))
  /-- A file, or something else. -/
  | other
  /-- A symbolic link, with the path inside of the release root that it resolves to. -/
  | link (release : String) (inner : List String)
  /-- A symbolic link that leads somewhere else. -/
  | foreign (dangling : Bool)

def Live.isSymlink : Live → Bool
  | .link _ _ | .foreign _ => true
  | _ => false

/-- The directories of a deployment. -/
structure Files where
  liveDir : LiveDir := .ordinary
  /-- The text of the parent of the live path, and its name. -/
  parent : String
  name : String
  live : Live
  /-- `<name>.switch.tmp`. -/
  pointer : Live := .absent
  rootIsSymlink : Bool := false
  /-- The entries of the release root. -/
  releases : Table String Node
  /-- The machine registry in the configuration of the user. -/
  registry : Option Node := none

/-- A path that is given for a release: whether it is absolute, whether its parent is the release
root, and its name. -/
structure Place where
  absolute : Bool := true
  inRoot : Bool := true
  name : String
  deriving DecidableEq, Repr

/-- `legacy-pre-auto-deploy`. -/
def legacyName : String := "legacy-pre-auto-deploy"

def Files.livePath (files : Files) : String := files.parent ++ "/" ++ files.name

def Files.releasePath (files : Files) (name : String) : String :=
  files.parent ++ "/dashboard-releases/" ++ name

/-- What a path inside of the release root leads to. -/
def Files.lookup (files : Files) (release : String) (inner : List String) : Option Node :=
  (files.releases.get? release).bind (Node.at inner)

/-- `exists` of a path beside the release root, which follows a link. -/
def Files.exists (files : Files) : Live → Bool
  | .absent => false
  | .dir _ | .other => true
  | .link release inner => (files.lookup release inner).any Node.exists
  | .foreign dangling => !dangling

/-! ### Outcomes -/

inductive TransactionResult
  | success
  | skipped
  | failed
  | rollback
  | rollbackFailed
  deriving DecidableEq, Repr

/-- `SwitchReceipt`: paths are inside of the release root. -/
structure SwitchReceipt where
  previousTarget : Option (String × List String)
  previousWasPlainDirectory : Bool
  migratedTarget : Option String
  deriving DecidableEq, Repr

structure TransactionOutcome where
  result : TransactionResult
  message : String
  previousTarget : Option (String × List String) := none
  deriving DecidableEq, Repr

/-- The state of a transaction: the directories, the calls with what they returned, and how many
operations were done. -/
structure World where
  files : Files
  log : List (Call × Reply) := []
  step : ℕ := 0

abbrev Action := EStateM String World

/-- An action that looks at the directories, and leaves them as they are. -/
abbrev Check := EStateM String ℕ

def check {α : Type} (m : Files → Check α) : Action α := fun w =>
  zoom World.step (fun step w => { w with step }) (m w.files) w

section Steps

variable (env : Env)

def call (c : Call) : Action Bool := do
  modify fun w => { w with log := w.log ++ [(c, env.reply c)] }
  match env.reply c with
  | .returned value => pure value
  | .raised text => throw text

def checkOp (site : ℕ → Site) : Check Unit := do
  let k ← get
  set (k + 1)
  env.fault (site k)

/-! ### Checks -/

/-- `_live_path`, with what it asks the file system. -/
def livePath {σ : Type} (parent home : EStateM String σ Unit) (liveDir : LiveDir) :
    EStateM String σ Unit :=
  match liveDir with
  | .relative => throw "live directory must be an absolute path"
  | .unnamed => throw "invalid live directory"
  | .anchor => do
    parent
    throw "live directory cannot be a filesystem root or the user's home"
  | .home => do
    parent
    home
    throw "live directory cannot be a filesystem root or the user's home"
  | .ordinary => do
    parent
    home

variable (site : ℕ → Site) (files : Files)

/-- `_live_path` of a check. -/
def checkLivePath : Check Unit := livePath (checkOp env site) (checkOp env site) files.liveDir

/-- `_release_root`; the parent of a directory that is no link is the parent of the live path. -/
def releaseRoot : Check Unit := do
  checkLivePath env site files
  checkOp env site
  raiseIf files.rootIsSymlink "release root must not be a symlink"
  checkOp env site
  checkLivePath env site files
  checkOp env site

/-- The name of a release is a full commit id. -/
def isReleaseName (name : String) : Bool := name.toList.length = 40 && name.toList.all isHex

/-- The place of the migrated directory is free. -/
def checkLegacy : Check Unit := do
  checkOp env site
  raiseIf ((files.releases.get? legacyName).any Node.exists)
    ("legacy migration target already exists: " ++ files.releasePath legacyName)
  checkOp env site
  raiseIf ((files.releases.get? legacyName).any Node.isSymlink)
    ("legacy migration target already exists: " ++ files.releasePath legacyName)

/-- What live leads to is a directory inside of the release root. -/
def checkPrior (release : String) (inner : List String) : Check Unit := do
  checkOp env site
  match files.lookup release inner with
  | none => throw (env.osError files.livePath)
  | some node =>
    checkOp env site
    raiseIf (!node.isDir || node.isSymlink)
      "current live symlink must resolve inside the release root"

/-- A link that leads somewhere else. -/
def rejectForeign (dangling : Bool) : Check Unit := do
  checkOp env site
  raiseIf dangling (env.osError files.livePath)
  checkOp env site
  throw "current live symlink must resolve inside the release root"

def ensureCandidateAvailable (candidate : Place) : Check Unit := do
  checkLivePath env site files
  releaseRoot env site files
  raiseIf (!candidate.absolute) "candidate must be an absolute path"
  checkOp env site
  raiseIf (!candidate.inRoot) "candidate must be a direct child of the dashboard release root"
  checkOp env site
  raiseIf (!isReleaseName candidate.name)
    "candidate release directory must be a full lowercase commit SHA"
  checkOp env site
  raiseIf ((files.releases.get? candidate.name).any Node.isSymlink)
    "candidate path must not be a symlink"
  checkOp env site
  raiseIf ((files.releases.get? candidate.name).any Node.exists)
    ("candidate release already exists: " ++ files.releasePath candidate.name)
  checkOp env site
  match files.live with
  | .link release inner => checkPrior env site files release inner
  | .foreign dangling => rejectForeign env site files dangling
  | .other => do
    checkOp env site
    checkOp env site
    throw "live path must be a directory or release symlink"
  | .dir _ => do
    checkOp env site
    checkOp env site
    checkOp env site
    checkLegacy env site files
  | .absent => do
    checkOp env site
    checkOp env site

def checkedExistingCandidate (place : Place) : Check Unit := do
  checkLivePath env site files
  releaseRoot env site files
  checkOp env site
  raiseIf (place.inRoot && (files.releases.get? place.name).any Node.isSymlink)
    "candidate must be a real directory inside the release root"
  checkOp env site
  raiseIf (!place.inRoot) "candidate must be a real directory inside the release root"
  checkOp env site
  raiseIf (!(files.releases.get? place.name).any Node.isDir)
    "candidate must be a real directory inside the release root"

end Steps

section Actions

variable (env : Env)

def change (f : Files → Files) : Action Unit := modify fun w => { w with files := f w.files }

/-! ### The switch of the live path -/

/-- `os.replace(tmp, live)` of a pointer. -/
def replacePointer (site : PointerOp → Site) : Action Unit := do
  env.fault (site .replace)
  let w ← get
  match w.files.live with
  | .dir _ => throw (env.osError w.files.livePath)
  | _ => change fun files => { files with live := files.pointer, pointer := .absent }

/-- The `finally` of `_atomic_pointer`. -/
def dropPointer (site : PointerOp → Site) : Action Unit := do
  env.fault (site .left)
  let w ← get
  if w.files.pointer.isSymlink then
    env.fault (site .unlink)
    change fun files => { files with pointer := .absent }

/-- `_atomic_pointer`, to a path inside of the release root. -/
def atomicPointer (site : PointerOp → Site) (release : String) (inner : List String) :
    Action Unit := do
  env.fault (site .exists)
  let w ← get
  raiseIf (w.files.exists w.files.pointer)
    ("temporary live pointer already exists: " ++ w.files.livePath ++ ".switch.tmp")
  env.fault (site .isSymlink)
  raiseIf w.files.pointer.isSymlink
    ("temporary live pointer already exists: " ++ w.files.livePath ++ ".switch.tmp")
  env.fault (site .create)
  change fun files => { files with pointer := .link release inner }
  ensuring (replacePointer env site) (dropPointer env site)

/-- `activate_release`, up to the switch: the old release is kept, a plain directory as a
release. -/
def retainPrevious (candidate : Place) : Action SwitchReceipt := do
  check fun files => checkedExistingCandidate env .retain files candidate
  check fun _ => checkOp env .retain
  let w ← get
  match w.files.live with
  | .link release inner =>
    check fun files => checkPrior env .retain files release inner
    pure ⟨some (release, inner), false, none⟩
  | .foreign dangling =>
    check fun files => rejectForeign env .retain files dangling
    throw "current live symlink must resolve inside the release root"
  | .dir entries =>
    check fun _ => checkOp env .retain
    check fun files => checkLegacy env .retain files
    -- `mkdir` and `os.replace(live, legacy)`
    check fun _ => checkOp env .retain
    check fun _ => checkOp env .retain
    change fun files =>
      { files with live := .absent, releases := files.releases.put legacyName (.dir entries) }
    pure ⟨some (legacyName, []), true, some legacyName⟩
  | .other =>
    check fun _ => checkOp env .retain
    check fun _ => checkOp env .retain
    throw "live path must be a directory or release symlink"
  | .absent =>
    check fun _ => checkOp env .retain
    check fun _ => checkOp env .retain
    pure ⟨none, false, none⟩

/-- A directory of the release root is moved to the live path, which is free. -/
def moveToLive (release : String) : Action Unit := do
  let w ← get
  match w.files.live, w.files.releases.get? release with
  | .absent, some (.dir entries) =>
    change fun files =>
      { files with live := .dir entries, releases := files.releases.delete fun name _ =>
        name = release }
  | _, _ => throw (env.osError w.files.livePath)

/-- The `except` of `activate_release`: a plain directory is moved back. -/
def undoMigration (receipt : SwitchReceipt) : Action Unit :=
  match receipt.previousWasPlainDirectory, receipt.migratedTarget with
  | true, some legacy => do
    env.fault (.undo .isDir)
    let w ← get
    if (w.files.releases.get? legacy).any Node.isDir then
      env.fault (.undo .exists)
      if !w.files.exists w.files.live then
        env.fault (.undo .replace)
        moveToLive env legacy
  | _, _ => pure ()

/-- The `try` of `activate_release`. -/
def pointAt (candidate : Place) : Action Unit := do
  env.fault (.pointer .resolve)
  atomicPointer env .pointer candidate.name []

def activateRelease (candidate : Place) : Action SwitchReceipt := do
  let receipt ← retainPrevious env candidate
  match ← attempt (pointAt env candidate) with
  | .ok () => pure receipt
  | .error exc =>
    undoMigration env receipt
    throw exc

/-- A link at the live path is removed; what is no link is refused. -/
def clearLive (message : String) : Action Unit := do
  check fun _ => checkOp env .restore
  let w ← get
  if w.files.live.isSymlink then
    check fun _ => checkOp env .restore
    change fun files => { files with live := .absent }
  else
    check fun _ => checkOp env .restore
    raiseIf (w.files.exists w.files.live) message

/-- A previous target inside of the release root is restored. -/
def restoreRelease (plain : Bool) (release : String) (inner : List String) : Action Unit :=
  if plain then do
    check fun _ => checkOp env .restore
    check fun files => releaseRoot env .restore files
    raiseIf (inner ≠ []) "migrated legacy target escaped the release root"
    clearLive env "live path is occupied during rollback"
    check fun _ => checkOp env .restore
    moveToLive env release
  else do
    check fun files => releaseRoot env .restore files
    atomicPointer env .restorePointer release inner

def restorePreviousTarget (receipt : SwitchReceipt) : Action Unit := do
  check fun files => checkLivePath env .restore files
  match receipt.previousTarget with
  | none => clearLive env "cannot remove a non-symlink live path during rollback"
  | some (release, inner) =>
    check fun _ => checkOp env .restore
    let w ← get
    match w.files.lookup release inner with
    | none => throw (env.osError (w.files.releasePath release))
    | some node =>
      check fun _ => checkOp env .restore
      raiseIf (!node.isDir) "previous target is not a directory"
      restoreRelease env receipt.previousWasPlainDirectory release inner

/-! ### The transaction -/

def validate (candidate staged : Place) : Action Unit := check fun files => do
  ensureCandidateAvailable env .validate files candidate
  checkedExistingCandidate env .validate files staged

/-- What live leads to: `none` is the live path itself. -/
def readSource : Action (Option (String × List String)) := do
  let w ← get
  livePath (env.fault (.source .parent)) (env.fault (.source .home)) w.files.liveDir
  env.fault (.source .isSymlink)
  match w.files.live with
  | .link release inner =>
    env.fault (.source .resolve)
    raiseIf (w.files.lookup release inner).isNone (env.osError w.files.livePath)
    pure (some (release, inner))
  | .foreign _ =>
    env.fault (.source .resolve)
    throw (env.osError w.files.livePath)
  | _ => pure none

def Files.sourceTree (files : Files) : Option (String × List String) → Option Node
  | some (release, inner) => files.lookup release inner
  | none =>
    match files.live with
    | .dir entries => some (.dir entries)
    | .other => some .other
    | _ => none

/-- `copy_mutable_state`, into the staged release. -/
def copyState (source : Option (String × List String)) (staged : Place) : Action Unit := fun w =>
  let roots : Roots :=
    ⟨(source.map fun path => pathText (w.files.releasePath path.1) path.2).getD w.files.livePath,
      w.files.releasePath staged.name⟩
  match w.files.releases.get? staged.name with
  | none => .error (env.osError roots.target) w
  | some target =>
    zoom (fun w => ⟨target, w.files.registry, w.step⟩)
      (fun copied w =>
        { w with
          files :=
            { w.files with
              releases := w.files.releases.put staged.name copied.target
              registry := copied.registry }
          step := copied.step })
      (copyMutableState env roots (w.files.sourceTree source) (source = some (staged.name, []))) w

/-- `os.rename(staged_candidate, candidate)`. -/
def renameStaged (candidate staged : Place) : Action Unit := do
  env.fault .rename
  let w ← get
  match w.files.releases.get? staged.name, w.files.releases.get? candidate.name with
  | some tree, none =>
    change fun files =>
      { files with
        releases :=
          (files.releases.delete fun name _ => name = staged.name).put candidate.name tree }
  | _, _ => throw (env.osError (w.files.releasePath candidate.name))

/-- The first part of the transaction, up to the switch. -/
def prepare (source : Option (String × List String)) (candidate staged : Place) : Action Unit := do
  let _ ← call env (.stop .switch)
  let quiesced ← call env .checkQuiesced
  raiseIf (!quiesced) "staff/chat activity remains after service stop"
  copyState env source staged
  check fun files => ensureCandidateAvailable env .recheck files candidate
  renameStaged env candidate staged

def startService (round : Round) (message : String) : Action Unit := do
  let _ ← call env (.restart round)
  let ok ← call env (.healthy round)
  raiseIf (!ok) message

def rollBack (receipt : SwitchReceipt) (exc : String) : Action TransactionOutcome := do
  let restored ← attempt do
    let _ ← call env (.stop .rollback)
    restorePreviousTarget env receipt
    startService env .rollback "previous release health check failed after rollback"
  match restored with
  | .ok () =>
    pure ⟨.rollback, exc ++ "; previous target restored and restarted", receipt.previousTarget⟩
  | .error rollbackExc =>
    pure ⟨.rollbackFailed, exc ++ "; rollback failed: " ++ rollbackExc, receipt.previousTarget⟩

/-- The recovery without a receipt. -/
def resumeService (exc : String) : Action TransactionOutcome := do
  match ← attempt
    (startService env .resume "previous release health check failed after resume") with
  | .ok () => pure ⟨.failed, exc, none⟩
  | .error resumeExc =>
    pure ⟨.rollbackFailed, exc ++ "; old service restart failed: " ++ resumeExc, none⟩

/-- The transaction, once nothing is in flight. -/
def switchRelease (source : Option (String × List String)) (candidate staged : Place) :
    Action TransactionOutcome := do
  let activated ← attempt do
    prepare env source candidate staged
    activateRelease env candidate
  match activated with
  | .error exc => resumeService env exc
  | .ok receipt =>
    match ← attempt (startService env .switch "health check failed after restart") with
    | .ok () =>
      pure ⟨.success, "release switched and health verified", receipt.previousTarget⟩
    | .error exc => rollBack env receipt exc

def runDeploymentTransaction (candidate staged : Place) : Action TransactionOutcome := do
  match ← attempt (validate env candidate staged) with
  | .error exc => pure ⟨.failed, "candidate validation failed: " ++ exc, none⟩
  | .ok () =>
    match ← attempt (call env .checkIdle) with
    | .error exc => pure ⟨.failed, "activity check unavailable: " ++ exc, none⟩
    | .ok false => pure ⟨.skipped, "staff or chat activity remains in flight", none⟩
    | .ok true =>
      let source ← readSource env
      switchRelease env source candidate staged

end Actions

end Deploy
