/-
**The restore service.**

`restore` unpacks an archive beside each approved root, moves the roots out of the way and the
unpacked trees in, and keeps a journal of how far it has come.  `finalize` or `rollback` ends it,
and `reconcile` deals with the journals that an interrupted one has left.

Every call is a sequence of steps on the directory tree and the journals.  An oracle says of each
step whether it is done, raises, or is the one at which the process is killed; `shutil.rmtree` and
the extraction can be killed half way.

Main definitions:

* `Restore.Service`, `Restore.Target`, `Restore.Record` — roots, targets and journals;
* `Restore.Moment`, `Restore.Proc` — what a step meets, and calls as coroutines;
* `Restore.restore`, `Restore.finalize`, `Restore.rollback`, `Restore.reconcile`.
-/

import Horizon.Coroutine
import Horizon.FileTree
import Mathlib.Data.List.Dedup
import Mathlib.Logic.Function.Basic

namespace Horizon

namespace Restore

open Coroutine.Coro (raise tryExcept)
open Coroutine (Coro)
open FileTree (Path Node)

abbrev Bytes := List UInt8

abbrev Tree := Node Bytes

/-! ### Roots and targets -/

/-- `_root_id`, from the digest of `_root_identity`. -/
def rootIdOf (identity : Path → String) (root : Path) : String :=
  "root-" ++ String.ofList ((identity root).toList.take 24)

/-- A service of one profile.  The digests of its roots do not collide. -/
structure Service where
  /-- `_approved_roots`. -/
  approved : List Path
  /-- `_root_identity`. -/
  identity : Path → String
  healthCheck : Option (Tree → Path → Bool)
  approved_nonempty : approved ≠ []
  approved_nodup : approved.Nodup
  approved_absolute : ∀ root ∈ approved, root ≠ []
  rootId_inj : ∀ root ∈ approved, ∀ other ∈ approved,
    rootIdOf identity root = rootIdOf identity other → root = other

def Service.rootId (s : Service) (root : Path) : String := rootIdOf s.identity root

/-- An entry of `roots` in a manifest. -/
structure Descriptor where
  id : String
  identity : String
  deriving DecidableEq

inductive Failure
  /-- `SafeError`. -/
  | safe (code message : String)
  /-- Any other exception. -/
  | error
  /-- The process is gone. -/
  | killed
  deriving DecidableEq

/-- What `restore` finds in an archive. -/
structure Archive where
  backupId : String
  /-- What the validation raises. -/
  refusal : Option Failure
  /-- `roots` for schema 2; schema 1 has none. -/
  descriptors : Option (List Descriptor)
  /-- What the extraction raises. -/
  flaw : Option Failure
  /-- What the extraction leaves in the staging directory of a root. -/
  image : String → List (String × Tree)

/-- `_RestoreTarget`. -/
structure Target where
  id : String
  path : Path
  /-- `inode != 0`. -/
  existed : Bool
  deriving DecidableEq

/-- The random parts of the names that a restore draws. -/
structure Names where
  staging : String → String
  rollback : String → String
  journal : ℕ

/-- `tempfile.mkdtemp`, beside the root. -/
def Names.stagingPath (names : Names) (t : Target) : Path :=
  t.path.dropLast ++ [".restore-" ++ t.id ++ "-" ++ names.staging t.id]

def Names.rollbackPath (names : Names) (t : Target) : Path :=
  t.path.dropLast ++ [".rollback-" ++ names.rollback t.id]

/-! ### Journals -/

inductive Phase
  | staged
  | displacing
  | displaced
  | publishing
  | activated
  | committed
  deriving DecidableEq

structure Item where
  rootId : String
  destination : Path
  staging : Path
  rollback : Option Path
  originalExists : Bool
  deriving DecidableEq

structure Record where
  phase : Phase
  backupId : String
  activated : List String
  displaced : List String
  roots : List Item
  deriving DecidableEq

section Validation

variable (s : Service) (r : Record)

/-- The identifiers that a journal may use for a root. -/
def Service.expectedIds (root : Path) : List String :=
  s.rootId root :: if s.approved.length = 1 then ["root-0"] else []

/-- A staging or rollback path is a named child of the directory of the root. -/
def pathAllowed (destination : Path) (start : String) (candidate : Path) : Bool :=
  candidate.dropLast = destination.dropLast &&
    match candidate.getLast? with
    | none => false
    | some name => start.toList.isPrefixOf name.toList && name ≠ start

/-- The loop of `_validate_journal`; it returns the destinations it has seen. -/
def validateItems : List Item → List Path → Except String (List Path)
  | [], seen => .ok seen
  | item :: rest, seen =>
    if item.destination ∉ s.approved ∨ item.rootId ∉ s.expectedIds item.destination ∨
        item.destination ∈ seen then
      .error "restore journal destination is invalid"
    else if !pathAllowed item.destination (".restore-" ++ item.rootId ++ "-") item.staging ||
        !item.rollback.all (pathAllowed item.destination ".rollback-") then
      .error "restore journal path is invalid"
    else validateItems rest (item.destination :: seen)

/-- `activated` or `displaced`. -/
def validateIds (ids : List String) : Bool :=
  decide ids.Nodup && ids.all fun id => (r.roots.map (·.rootId)).contains id

/-- `_validate_journal`. -/
def validateJournal : Except String Unit :=
  if r.roots.length ≠ s.approved.length then .error "restore journal roots are invalid"
  else
    match validateItems s r.roots [] with
    | .error message => .error message
    | .ok seen =>
      if ∃ root ∈ s.approved, root ∉ seen then .error "restore journal roots are incomplete"
      else if !validateIds r r.activated || !validateIds r r.displaced then
        .error "restore journal state is invalid"
      else .ok ()

end Validation

/-! ### Steps -/

/-- The directories, and the journals in `backup_root`. -/
structure Disk where
  tree : Tree
  journals : List (ℕ × Record)
  /-- Every journal that was ever written; nothing reads it. -/
  written : List Record

namespace Disk

variable (d : Disk)

def put (p : Path) (x : Option Tree) : Disk := { d with tree := d.tree.put p x }

def move (source target : Path) : Disk := { d with tree := d.tree.move source target }

/-- `_write_json_fsync`. -/
def setJournal (id : ℕ) (r : Record) : Disk :=
  { d with journals := (id, r) :: d.journals.filter (·.1 ≠ id), written := d.written ++ [r] }

def unlinkJournal (id : ℕ) : Disk := { d with journals := d.journals.filter (·.1 ≠ id) }

def «exists» (p : Path) : Bool := (d.tree.get p).isSome

end Disk

inductive Fate
  | go
  | fail
  | kill
  deriving DecidableEq

structure Moment where
  fate : Fate
  /-- `lease_check()`. -/
  owned : Bool
  /-- Any other condition that is looked at. -/
  holds : Bool
  /-- What is gone if `shutil.rmtree` does not come to its end. -/
  removed : Path → Bool
  /-- What is there if the extraction does not come to its end. -/
  part : String → List (String × Tree)

abbrev Oracle := ℕ → Moment

/-- The variables of `restore` that its `except` clause reads. -/
structure Locals where
  displaced : List Target
  activated : List Target
  rollbackByRoot : String → Option Path
  rollbacks : List (Option Path)

def Locals.new : Locals := ⟨[], [], fun _ => none, []⟩

structure State where
  disk : Disk
  locals : Locals
  moments : ℕ
  alive : Bool

abbrev Proc := Coro State Failure

section Steps

variable {α : Type} (ω : Oracle) (p : Path)

/-- One step.  If it raises or the process is killed there, `undone` says what it has done. -/
def step (undone : Moment → Disk → Disk) (f : Moment → Disk → Except Failure (α × Disk)) : Proc α :=
  fun s =>
    if s.alive then
      let m := ω s.moments
      let s' := { s with moments := s.moments + 1 }
      match m.fate with
      | .kill => (.error .killed, { s' with disk := undone m s.disk, alive := false })
      | .fail => (.error .error, { s' with disk := undone m s.disk })
      | .go =>
        match f m s.disk with
        | .error e => (.error e, s')
        | .ok (a, d) => (.ok a, { s' with disk := d })
    else (.error .killed, s)

def keep (_ : Moment) (d : Disk) : Disk := d

def write (f : Disk → Disk) : Proc Unit := step ω keep fun _ d => .ok ((), f d)

/-- A step that changes nothing here: `os.chmod`, `os.chown`, `_fsync_dir`. -/
def touch : Proc Unit := write ω id

/-- A condition that is no matter of the directories. -/
def assure (code message : String) : Proc Unit :=
  step ω keep fun m d => if m.holds then .ok ((), d) else .error (.safe code message)

/-- `_assert_lease`. -/
def assertLease : Proc Unit :=
  step ω keep fun m d =>
    if m.owned then .ok ((), d)
    else .error (.safe "slot_conflict" "operation lease was lost before publication")

def raiseIf : Option Failure → Proc Unit
  | none => pure ()
  | some e => raise e

/-- What is read without a step of its own. -/
def look (f : Disk → α) : Proc α := fun s => (.ok (f s.disk), s)

def assign (f : Locals → Locals) : Proc Unit := Coro.modify fun s => { s with locals := f s.locals }

def currentLocals : Proc Locals := fun s => (.ok s.locals, s)

/-- `shutil.rmtree`. -/
def rmtree : Proc Unit :=
  step ω (fun m d => d.put p ((d.tree.get p).map (·.prune m.removed))) fun _ d =>
    match d.tree.get p with
    | some (.dir _) => .ok ((), d.put p none)
    | _ => .error .error

/-- A directory can take the place of an empty one, and a file that of a file. -/
def replaceable : Option Tree → Option Tree → Bool
  | _, none => true
  | some (.dir _), some (.dir []) => true
  | some (.file _), some (.file _) => true
  | _, _ => false

/-- `os.replace` succeeds. -/
def canReplace (t : Tree) (source target : Path) : Bool :=
  (t.get source).isSome && ((t.get target.dropLast).any (·.isDir)) && !source.isPrefixOf target &&
    replaceable (t.get source) (t.get target)

/-- `os.replace`. -/
def replace (source target : Path) : Proc Unit :=
  step ω keep fun _ d =>
    if canReplace d.tree source target then .ok ((), d.move source target) else .error .error

/-- `if path.exists(): shutil.rmtree(path)`. -/
def removeIfExists : Proc Unit := do
  let present ← look (·.exists p)
  if present then rmtree ω p else pure ()

/-- `shutil.rmtree(path, ignore_errors=True)`. -/
def removeIgnoringErrors : Proc Unit :=
  tryExcept (removeIfExists ω p) fun e =>
    match e with
    | .killed => raise .killed
    | _ => pure ()

end Steps

/-! ### `restore` -/

/-- `RestoreResult`. -/
structure Result where
  backupId : String
  destinations : List Path
  rollbacks : List (Option Path)
  journal : ℕ
  deriving DecidableEq

section Restore

variable (s : Service) (ω : Oracle) (a : Archive) (names : Names) (targets : List Target)
  (t : Target) (result : Result) (phase : Phase)

/-- The roots of the manifest with their identifiers, in its order. -/
def mapRoots : Except Failure (List (String × Path)) :=
  match a.descriptors with
  | none =>
    match s.approved with
    | [root] => .ok [("root-0", root)]
    | _ => .error (.safe "invalid_backup" "legacy backup is ambiguous for multiple roots")
  | some descriptors =>
    let found := descriptors.filterMap fun item =>
      (s.approved.find? fun root => s.identity root = item.identity).map fun root => (item.id, root)
    -- the identities are those of the approved roots, and the identifiers are theirs
    if found.length = descriptors.length ∧ (∀ root ∈ s.approved, root ∈ found.map (·.2)) ∧
        ∀ entry ∈ found, entry.1 = s.rootId entry.2 then
      .ok found.reverse.dedup.reverse
    else .error (.safe "invalid_backup" "backup root mapping is invalid")

/-- `_read_target`; what is looked at is the link count of the directory, which has to be two above
the number of directories in it. -/
def readTarget (entry : String × Path) : Proc Target :=
  step ω keep fun m d =>
    match d.tree.get entry.2 with
    | none =>
      if (d.tree.get entry.2.dropLast).any (·.isDir) then .ok (⟨entry.1, entry.2, false⟩, d)
      else .error (.safe "invalid_destination" "restore destination is unavailable")
    | some (.file _) =>
      .error (.safe "invalid_destination" "restore destination is not a directory")
    | some (.dir _) =>
      if m.holds then .ok (⟨entry.1, entry.2, true⟩, d)
      else .error (.safe "invalid_destination" "restore destination has unsafe links")

def readEach : List (String × Path) → Proc (List Target)
  | [] => pure []
  | entry :: rest => do
    let target ← readTarget ω entry
    let targets ← readEach rest
    pure (target :: targets)

/-- `_read_targets`. -/
def readTargets : Proc (List Target) :=
  match mapRoots s a with
  | .error e => raise e
  | .ok entries => readEach ω entries

def Target.item (l : Locals) (t : Target) : Item :=
  ⟨t.id, t.path, names.stagingPath t, l.rollbackByRoot t.id, t.existed⟩

def journalRecord (l : Locals) : Record where
  phase := phase
  backupId := a.backupId
  activated := if phase = .publishing then l.activated.map (·.id) else []
  displaced := if phase = .displacing then l.displaced.map (·.id) else []
  roots := targets.map (·.item names l)

/-- `_write_json_fsync(journal, …)`. -/
def writeJournal : Proc Unit := do
  let l ← currentLocals
  write ω fun d => d.setJournal names.journal (journalRecord a names targets phase l)

/-- One directory of `stagings`. -/
def makeStaging : Proc Unit :=
  step ω keep fun _ d =>
    if !d.exists (names.stagingPath t) && (d.tree.get t.path.dropLast).any (·.isDir) then
      .ok ((), d.put (names.stagingPath t) (some Node.empty))
    else .error .error

/-- The staging directories with the given contents. -/
def fill (contents : String → List (String × Tree)) (targets : List Target) (d : Disk) : Disk :=
  targets.foldl (fun d t => d.put (names.stagingPath t) (some (.dir (contents t.id)))) d

/-- `_extract_multi` or `_extract_external_multi`. -/
def extract : Proc Unit := do
  step ω (fun m d => fill names m.part targets d) fun m d =>
    .ok ((), fill names (if a.flaw = none then a.image else m.part) targets d)
  raiseIf a.flaw

/-- `_assert_target_unchanged`, after the modes and the ownership of the staging directory. -/
def sealStaging : Proc Unit := do
  touch ω
  touch ω
  step ω keep fun _ d =>
    if ((d.tree.get t.path).any (·.isDir)) = t.existed ∧ d.exists t.path = t.existed then
      .ok ((), d)
    else .error (.safe "invalid_destination" "restore destination changed")

/-- The root is moved out of the way, if there is one. -/
def displaceRoot : Proc Unit := do
  let present ← look (·.exists t.path)
  if present then replace ω t.path (names.rollbackPath t)
  else assign fun l => { l with rollbackByRoot := Function.update l.rollbackByRoot t.id none }

/-- `_fsync_dir(target.path.parent)`, if something was moved. -/
def syncDisplaced : Proc Unit := do
  let l ← currentLocals
  if (l.rollbackByRoot t.id).isSome then touch ω else pure ()

def displace (t : Target) : Proc Unit := do
  assign fun l => { l with
    rollbackByRoot := Function.update l.rollbackByRoot t.id (some (names.rollbackPath t)) }
  writeJournal ω a names targets .displacing
  assertLease ω
  displaceRoot ω names t
  assign fun l => { l with
    rollbacks := l.rollbacks ++ [l.rollbackByRoot t.id], displaced := l.displaced ++ [t] }
  syncDisplaced ω t
  writeJournal ω a names targets .displacing

def publish (t : Target) : Proc Unit := do
  writeJournal ω a names targets .publishing
  assertLease ω
  replace ω (names.stagingPath t) t.path
  assign fun l => { l with activated := l.activated ++ [t] }
  touch ω
  writeJournal ω a names targets .publishing

def undoActivated : Proc Unit := do
  let present ← look (·.exists t.path)
  if present then do
    rmtree ω t.path
    touch ω
  else pure ()

/-- A rollback directory takes its place again. -/
def moveBack (rollback path : Path) : Proc Unit := do
  replace ω rollback path
  touch ω

def undoDisplaced : Proc Unit := do
  let l ← currentLocals
  match l.rollbackByRoot t.id with
  | none => pure ()
  | some rollback =>
    let present ← look (·.exists rollback)
    if present then moveBack ω rollback t.path else pure ()

/-- The `except Exception` clause of the publication. -/
def undo : Proc Unit := do
  let l ← currentLocals
  l.activated.forM (undoActivated ω)
  l.displaced.forM (undoDisplaced ω)

/-- Both loops, and the journal between them. -/
def publication : Proc Unit := do
  targets.forM (displace ω a names targets)
  writeJournal ω a names targets .displaced
  targets.forM (publish ω a names targets)

def removeStagings : Proc Unit := targets.forM fun t => removeIgnoringErrors ω (names.stagingPath t)

/-- One rollback directory of `finalize`. -/
def discardRollback (rollback : Option Path) : Proc Unit :=
  match rollback with
  | none => pure ()
  | some p => do
    removeIfExists ω p
    touch ω

def commitJournal (journal : ℕ) : Proc Unit := do
  let record ← look fun d => (d.journals.find? (·.1 = journal)).map (·.2)
  match record with
  | none =>
    raise (.safe "restore_finalize_failed" "restore journal commit could not be recorded")
  | some r => write ω fun d => d.setJournal journal { r with phase := .committed }

def finalize : Proc Unit := do
  commitJournal ω result.journal
  result.rollbacks.forM (discardRollback ω)
  write ω (·.unlinkJournal result.journal)
  touch ω

def rollbackCreated (destination : Path) : Proc Unit := do
  let present ← look (·.exists destination)
  if present then do
    removeIgnoringErrors ω destination
    touch ω
  else pure ()

/-- One root of `rollback`. -/
def rollbackRoot (entry : Path × Option Path) : Proc Unit :=
  match entry.2 with
  | none => rollbackCreated ω entry.1
  | some rollback => do
    let present ← look (·.exists rollback)
    if present then do
      removeIfExists ω entry.1
      moveBack ω rollback entry.1
    else pure ()

def rollback : Proc Unit := do
  (result.destinations.zip result.rollbacks).forM (rollbackRoot ω)
  write ω (·.unlinkJournal result.journal)

/-- Every destination passes the health check, if there is one. -/
def Service.healthy (d : Disk) (destinations : List Path) : Bool :=
  match s.healthCheck with
  | none => false
  | some check => destinations.all (check d.tree)

def finalizeIfHealthy : Proc Unit := do
  let healthy ← look fun d => s.healthy d result.destinations
  if healthy then finalize ω result else pure ()

/-- The block that is left with `finally`. -/
def stageAndPublish : Proc Result := do
  extract ω a names targets
  targets.forM (sealStaging ω)
  tryExcept (publication ω a names targets) fun e => do
    undo ω
    raise e
  let l ← currentLocals
  let result : Result := ⟨a.backupId, targets.map (·.path), l.rollbacks, names.journal⟩
  writeJournal ω a names targets .activated
  finalizeIfHealthy s ω result
  pure result

def restoreTargets : Proc Result := do
  assure ω "insufficient_space" "insufficient free space for restore"
  assure ω "backup_failed" "backup could not be verified"
  targets.forM (makeStaging ω names)
  writeJournal ω a names targets .staged
  touch ω
  Coro.tryFinally
    (tryExcept (stageAndPublish s ω a names targets) fun e =>
      match e with
      | .safe code message => do
        removeStagings ω names targets
        raise (.safe code message)
      | e => raise e)
    fun _ => removeStagings ω names targets

/-- Other exceptions become a `SafeError`. -/
def asSafeError {α : Type} (code message : String) (c : Proc α) : Proc α :=
  tryExcept c fun e =>
    match e with
    | .error => raise (.safe code message)
    | e => raise e

def restore : Proc Result := do
  assure ω "profile_running" "profile is running; it must be stopped before restore"
  assure ω "invalid_backup" "backup archive is not approved"
  assure ω "backup_not_found" "backup payload is not locally available"
  assure ω "backup_not_found" "backup archive was not found"
  asSafeError "restore_failed" "restore could not be completed" do
    assure ω "invalid_backup" "backup manifest is invalid"
    raiseIf a.refusal
    let targets ← readTargets s ω a
    restoreTargets s ω a names targets

end Restore

/-! ### `reconcile` -/

section Reconcile

variable (s : Service) (ω : Oracle) (r : Record) (item : Item)

def cleanStaging : Proc Unit := removeIfExists ω item.staging

def cleanRollback : Proc Unit := discardRollback ω item.rollback

/-- A root that was not there before is removed if the restore can have put it there. -/
def removeCreated : Proc Unit := do
  let d ← look id
  if item.originalExists = false ∧ (item.rootId ∈ r.activated ∨ item.rootId ∈ r.displaced ∨
      (d.exists item.staging = false ∧ d.exists item.destination = true)) then
    undoActivated ω ⟨item.rootId, item.destination, false⟩
  else pure ()

/-- `rollback and Path(rollback).exists()`. -/
def rollbackFound (d : Disk) (item : Item) : Option Path := item.rollback.filter (d.exists ·)

/-- The destination of an item goes back to what it was. -/
def revertItem : Proc Unit := do
  let found ← look fun d => rollbackFound d item
  match found with
  | some rollback => do
    removeIfExists ω item.destination
    moveBack ω rollback item.destination
  | none => removeCreated ω r item

def recoverItem (healthy : Bool) (item : Item) : Proc Unit :=
  match r.phase with
  | .staged => cleanStaging ω item
  | .committed => do
    cleanRollback ω item
    cleanStaging ω item
  | .activated =>
    if healthy then cleanRollback ω item
    else do
      revertItem ω r item
      cleanStaging ω item
  | _ => do
    revertItem ω r item
    cleanStaging ω item

/-- The mark is written if an activated restore is found healthy. -/
def markHealthy (journal : ℕ) (r : Record) (healthy : Bool) : Proc Unit :=
  if r.phase = .activated ∧ healthy = true then
    write ω fun d => d.setJournal journal { r with phase := .committed }
  else pure ()

def reconcileJournal (entry : ℕ × Record) : Proc Unit := do
  assure ω "restore_reconcile_failed" "restore journal is not trusted"
  assure ω "restore_reconcile_failed" "restore journal changed"
  match validateJournal s entry.2 with
  | .error message => raise (.safe "restore_reconcile_failed" message)
  | .ok () => do
    let healthy ← look fun d => s.healthy d (entry.2.roots.map (·.destination))
    markHealthy ω entry.1 entry.2 healthy
    entry.2.roots.forM (recoverItem ω entry.2 healthy)
    write ω (·.unlinkJournal entry.1)
    touch ω

def reconcile : Proc Unit := do
  let journals ← look (·.journals)
  asSafeError "restore_reconcile_failed" "restore journal is corrupt"
    (journals.forM (reconcileJournal s ω))

end Reconcile

/-! ### Runs -/

def State.start (d : Disk) : State := ⟨d, Locals.new, 0, true⟩

/-- How the caller ends a restore that has returned. -/
inductive Ending
  | finalize
  | rollback
  deriving DecidableEq

/-- `restore`, and then `finalize` or `rollback`. -/
def restoreAndEnd (s : Service) (ω : Oracle) (a : Archive) (names : Names) (ending : Ending) :
    Proc Unit := do
  let result ← restore s ω a names
  match ending with
  | .finalize => finalize ω result
  | .rollback => rollback ω result

/-- Reconciliations one after the other, each in a process of its own. -/
def reconcileAll (s : Service) (oracles : List Oracle) (d : Disk) : Disk :=
  oracles.foldl (fun d ω => ((reconcile s ω).run (State.start d)).2.disk) d

end Restore

end Horizon
