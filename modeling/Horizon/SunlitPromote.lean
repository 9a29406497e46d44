/-
**Promotion of a staged release.**

`sunlit_promote` publishes a candidate: the release directory, the state of its version, the active
link, the metadata.  Each publication is one rename inside the guard of the caller.  A call can be
refused by the guard, raise anywhere, or die; a later call finds what it left and resumes, or fails
closed.

A directory is a value: what it was built from, and the few facts about it that some check of the
code looks at.  Removing or copying a tree takes two steps, with an incomplete tree between them.
Whatever else a check looks at (owners, modes, devices, I/O errors) can make it fail at any time.

Main definitions:

* `Sunlit.Site` — the directories that a promotion reads and writes;
* `Sunlit.Fate`, `Sunlit.Fates` — how each step ends;
* `Sunlit.Publish` — a call on its way;
* `Sunlit.guarded`, `Sunlit.activateRelease`, `Sunlit.writeMetadata` — the publications;
* `Sunlit.alreadyPromoted`, `Sunlit.resumePublishedRelease`, `Sunlit.resumeUpgradePublication`,
  `Sunlit.promoteUpgrade`, `Sunlit.promoteFresh`, `Sunlit.promote`.
-/

import Horizon.Coroutine
import Mathlib.Logic.Function.Basic

namespace Horizon.Sunlit

open Coroutine (Coro)
open Function

abbrev Version := String

abbrev Digest := String

/-! ### Directories -/

/-- A runtime tree, as far as `_tree_digest` tells two of them apart. -/
structure Tree where
  content : ℕ
  /-- The links into the state lead to the production paths. -/
  bound : Bool
  /-- The modes are those of `_normalize_release_permissions`. -/
  normalized : Bool
  /-- Nothing is missing. -/
  whole : Bool
  deriving DecidableEq

/-- The state of one version, below `.versions`. -/
structure VersionState where
  content : ℕ
  /-- `_prepare_state_ownership` has run. -/
  owned : Bool
  deriving DecidableEq

/-- The members of `release.json` that are compared. -/
structure ReleaseRecord where
  version : Version
  manifest : Digest
  deriving DecidableEq

/-- The directory `.horizon`. -/
structure Metadata where
  manifest : Option Digest
  release : Option ReleaseRecord
  /-- Any other names. -/
  temporaries : List String
  deriving DecidableEq

/-- A state tree, in the candidate or in production. -/
structure StateTree where
  stable : ℕ
  versions : List (Version × VersionState)
  metadata : Option Metadata
  owned : Bool
  whole : Bool
  deriving DecidableEq

/-- The directory `candidate` of a staged version. -/
structure Candidate where
  record : Option ReleaseRecord
  runtime : Option Tree
  state : Option StateTree
  /-- `promotion.json`. -/
  report : Option ReleaseRecord
  deriving DecidableEq

def Candidate.absent : Candidate := ⟨none, none, none, none⟩

/-- Everything that a promotion reads or writes. -/
structure Site where
  releases : Version → Option Tree
  /-- `.{version}.promote.{pid}`. -/
  stages : Version → ℕ → Option Tree
  /-- `.{version}.rollback.{pid}`. -/
  rollbacks : Version → ℕ → Option Tree
  stateRoot : Option StateTree
  activeLink : Option Version
  candidates : Version → Candidate

namespace Site

variable (w : Site) (v : Version) (pid : ℕ)

/-- The release that the active link resolves to. -/
def activeRelease : Option Version :=
  w.activeLink.bind fun u => if (w.releases u).isSome then some u else none

def setRelease (t : Option Tree) : Site := { w with releases := update w.releases v t }

def setStage (t : Option Tree) : Site :=
  { w with stages := update w.stages v (update (w.stages v) pid t) }

def setRollback (t : Option Tree) : Site :=
  { w with rollbacks := update w.rollbacks v (update (w.rollbacks v) pid t) }

def setCandidate (f : Candidate → Candidate) : Site :=
  { w with candidates := update w.candidates v (f (w.candidates v)) }

def setRuntime (f : Tree → Option Tree) : Site :=
  w.setCandidate v fun c => { c with runtime := c.runtime.bind f }

def setState (f : StateTree → Option StateTree) : Site :=
  w.setCandidate v fun c => { c with state := c.state.bind f }

def runtime : Option Tree := (w.candidates v).runtime

def candidateState : Option StateTree := (w.candidates v).state

end Site

namespace StateTree

variable (t : StateTree) (v : Version)

def versionState : Option VersionState := t.versions.lookup v

def dropVersion : StateTree := { t with versions := t.versions.filter (·.1 ≠ v) }

def putVersion (x : VersionState) : StateTree :=
  { t with versions := (v, x) :: t.versions.filter (·.1 ≠ v) }

/-- `_prepare_state_ownership` of the whole tree. -/
def prepared : StateTree :=
  { t with owned := true, versions := t.versions.map fun p => (p.1, { p.2 with owned := true }) }

/-- `_prepare_state_ownership` of the state of one version. -/
def preparedVersion : StateTree :=
  { t with versions := t.versions.map fun p =>
      if p.1 = v then (p.1, { p.2 with owned := true }) else p }

end StateTree

/-! ### Steps -/

/-- How a step ends: as it should, with an error of the system or of a check, with an exception that
no clause expects, or not at all. -/
inductive Fate
  | go
  | fail
  | abort
  | die
  deriving DecidableEq

abbrev Fates := ℕ → Fate

/-- How a call ends without a report.  `raised` stands for `PromotionError`, `AssemblyError` and
`OSError`. -/
inductive Halt
  | raised (message : String)
  | refused
  | aborted
  | died
  deriving DecidableEq

/-- The local variables that the last clauses read. -/
structure Flags where
  releasePublished : Bool := false
  versionStateMoved : Bool := false
  stateMoved : Bool := false
  metadataAttempted : Bool := false
  activated : Bool := false
  deriving DecidableEq

structure Progress where
  site : Site
  flags : Flags
  steps : ℕ
  alive : Bool

abbrev Publish := Coro Progress Halt

structure Context where
  version : Version
  manifest : Digest
  pid : ℕ
  deriving DecidableEq

section Steps

variable {α : Type} (φ : Fates) (message : String) (precondition : Publish Unit) (f : Site → Site)
  (release : Version) (expected : Option Version)

/-- One step; a process that has died takes none. -/
def step (f : Site → Except String Site) : Publish Unit := fun s =>
  if s.alive then
    match φ s.steps with
    | .die => (.error .died, { s with alive := false })
    | .abort => (.error .aborted, { s with steps := s.steps + 1 })
    | .fail => (.error (.raised message), { s with steps := s.steps + 1 })
    | .go =>
      match f s.site with
      | .ok w => (.ok (), { s with site := w, steps := s.steps + 1 })
      | .error e => (.error (.raised e), { s with steps := s.steps + 1 })
  else (.error .died, s)

def act : Publish Unit := step φ message fun w => .ok (f w)

def check (p : Site → Bool) : Publish Unit :=
  step φ message fun w => if p w then .ok w else .error message

def fsync : Publish Unit := act φ "fsync" id

def look (f : Site → α) : Publish α := fun s => (.ok (f s.site), s)

def flag (f : Flags → Flags) : Publish Unit := fun s => (.ok (), { s with flags := f s.flags })

/-- `_publication`: the guard can refuse, and what is raised inside it is a refusal as well. -/
def guarded (body : Publish α) : Publish α :=
  Coro.tryExcept
    (do
      check φ "guard" fun _ => true
      body)
    fun e =>
      match e with
      | .raised _ => Coro.raise .refused
      | e => Coro.raise e

/-- `_guarded_replace`. -/
def guardedReplace : Publish Unit :=
  guarded φ do
    precondition
    act φ "rename" f
    fsync φ

/-- `activate_release`: after the swap an exception puts the prior link back. -/
def activateRelease : Publish Unit := do
  check φ "release target is outside the reviewed root" fun w => (w.releases release).isSome
  check φ "active release changed before activation" fun w => w.activeLink = expected
  act φ "symlink" id
  fsync φ
  act φ "rename" fun w => { w with activeLink := some release }
  Coro.tryExcept (fsync φ) fun e => do
    act φ "rename" fun w => { w with activeLink := expected }
    fsync φ
    Coro.raise e

/-- `_guarded_activate`. -/
def guardedActivate : Publish Unit :=
  guarded φ do
    precondition
    activateRelease φ release expected

end Steps

variable (c : Context) (φ : Fates) (w : Site) (name : String) (m : Metadata)

/-! ### Metadata -/

/-- Where `_write_metadata` is asked to write. -/
inductive Place
  | candidate
  | production
  deriving DecidableEq

def Site.stateAt (c : Context) : Place → Option StateTree
  | .candidate => w.candidateState c.version
  | .production => w.stateRoot

def Site.mapStateAt (c : Context) (f : StateTree → StateTree) : Place → Site
  | .candidate => w.setState c.version fun t => some (f t)
  | .production => { w with stateRoot := w.stateRoot.map f }

def Site.metadataAt (c : Context) (place : Place) : Option Metadata :=
  (w.stateAt c place).bind (·.metadata)

def Site.mapMetadata (c : Context) (place : Place) (f : Metadata → Metadata) : Site :=
  w.mapStateAt c (fun t => { t with metadata := t.metadata.map f }) place

def Context.releaseRecord : ReleaseRecord := ⟨c.version, c.manifest⟩

def Metadata.addTemporary : Metadata :=
  { m with temporaries := name :: m.temporaries.filter (· ≠ name) }

def Metadata.dropTemporary : Metadata := { m with temporaries := m.temporaries.filter (· ≠ name) }

def manifestTemporary : String := ".manifest.json.promote"

def releaseTemporary : String := ".release.json.promote"

variable (place : Place) (v : Version) (message : String) (prior : Version)

/-- The two renames of `_write_metadata`. -/
def publishMetadata : Publish Unit := do
  act φ "rename" fun w => w.mapMetadata c place fun m =>
    { m.dropTemporary manifestTemporary with manifest := some c.manifest }
  act φ "rename" fun w => w.mapMetadata c place fun m =>
    { m.dropTemporary releaseTemporary with release := some c.releaseRecord }
  fsync φ

/-- `_write_metadata`; only the production metadata is published under the guard. -/
def writeMetadata : Publish Unit := do
  let metadata ← look fun w => w.metadataAt c place
  match metadata with
  | some m =>
    check φ "candidate metadata directory contains unexpected files" fun _ => m.temporaries.isEmpty
  | none =>
    act φ "mkdir" fun w =>
      w.mapStateAt c (fun t => { t with metadata := some ⟨none, none, []⟩ }) place
  -- the last clause covers the two renames only: an exception before them leaves the temporaries
  act φ "copyfile" fun w => w.mapMetadata c place (·.addTemporary manifestTemporary)
  act φ "write_text" fun w => w.mapMetadata c place (·.addTemporary releaseTemporary)
  act φ "chown" id
  Coro.tryFinally
    (match place with
      | .candidate => publishMetadata c φ place
      | .production => guarded φ (publishMetadata c φ place))
    fun _ => do
      act φ "unlink" fun w => w.mapMetadata c place (·.dropTemporary manifestTemporary)
      act φ "unlink" fun w => w.mapMetadata c place (·.dropTemporary releaseTemporary)

/-- One file of `_restore_metadata`: the copy that is put in place under the guard. -/
def prepareRestore (present : Bool) : Publish Unit :=
  if present then act φ "write_bytes" fun w => w.mapMetadata c .production (·.addTemporary name)
  else pure ()

/-- `_restore_metadata`, with what `_metadata_backup` has kept. -/
def restoreMetadata (manifest : Option Digest) (release : Option ReleaseRecord) : Publish Unit := do
  act φ "mkdir" fun w => w.mapStateAt c (fun t =>
    { t with metadata := some (t.metadata.getD ⟨none, none, []⟩) }) .production
  prepareRestore c φ ".manifest.json.rollback" manifest.isSome
  prepareRestore c φ ".release.json.rollback" release.isSome
  Coro.tryFinally
    (guarded φ do
      act φ "rename" fun w => w.mapMetadata c .production fun m =>
        { m.dropTemporary ".manifest.json.rollback" with manifest := manifest }
      act φ "rename" fun w => w.mapMetadata c .production fun m =>
        { m.dropTemporary ".release.json.rollback" with release := release }
      fsync φ)
    fun _ => do
      act φ "unlink" fun w =>
        w.mapMetadata c .production (·.dropTemporary ".manifest.json.rollback")
      act φ "unlink" fun w => w.mapMetadata c .production (·.dropTemporary ".release.json.rollback")

/-! ### The candidate -/

/-- `_trusted_directory`. -/
def trustedDirectory (p : Site → Bool) : Publish Unit := check φ "promotion directory is unsafe" p

/-- `_bind_candidate_links`. -/
def bindCandidateLinks : Publish Unit := do
  check φ "candidate symlink set is not exact" fun w => (w.runtime c.version).any (·.whole)
  act φ "symlink" fun w => w.setRuntime c.version fun t => some { t with bound := true }

/-- `_normalize_release_permissions`. -/
def normalizeReleasePermissions : Publish Unit :=
  act φ "chmod" fun w => w.setRuntime c.version fun t => some { t with normalized := true }

/-- `_verify_release_ownership` of the runtime. -/
def verifyRuntimeOwnership : Publish Unit :=
  check φ "candidate release ownership is unsafe" fun w => (w.runtime c.version).any (·.normalized)

/-- `_verify_release_ownership` of the published release. -/
def verifyReleaseOwnership : Publish Unit :=
  check φ "candidate release ownership is unsafe" fun w => (w.releases c.version).any (·.normalized)

/-- `shutil.rmtree(runtime)`. -/
def removeRuntime : Publish Unit := do
  act φ "rmtree" fun w => w.setRuntime c.version fun t => some { t with whole := false }
  act φ "rmtree" fun w => w.setRuntime c.version fun _ => none

/-- `shutil.rmtree(state)`. -/
def removeState : Publish Unit := do
  act φ "rmtree" fun w => w.setState c.version fun t => some { t with whole := false }
  act φ "rmtree" fun w => w.setState c.version fun _ => none

/-- `_candidate_matches_existing_state`. -/
def candidateMatchesExistingState (allowMovedVersion : Bool) : Publish Unit := do
  check φ "candidate state member set is not exact" fun w =>
    (w.candidateState c.version).any fun t => t.whole && t.metadata.isNone
  check φ "candidate stable state changed" fun w =>
    (w.candidateState c.version).any fun t => w.stateRoot.any fun r => t.stable = r.stable
  check φ "candidate version state is not exact" fun w =>
    (w.candidateState c.version).any fun t =>
      (allowMovedVersion && t.versions.isEmpty) || t.versions.map (·.1) = [c.version]

/-- `_verify_production_version_state`. -/
def verifyProductionVersionState : Publish Unit :=
  check φ "version state is unsafe" fun w =>
    w.stateRoot.any fun r => (r.versionState c.version).any (·.owned)

/-- `_verify_fresh_state_tree`. -/
def verifyFreshStateTree : Publish Unit :=
  check φ "fresh state is unsafe" fun w =>
    (w.stateAt c place).any fun t => t.owned && t.whole &&
      (t.versions.map (·.1) = [c.version]) && t.versions.all (·.2.owned) &&
      t.metadata = some ⟨some c.manifest, some c.releaseRecord, []⟩

/-- `_publish_report`. -/
def publishReport : Publish Unit := do
  act φ "write_text" fun w =>
    w.setCandidate c.version fun k => { k with report := some c.releaseRecord }
  fsync φ

/-- The end of a promotion that finds the link in place: what is left of the candidate has to match
what was published, and is removed. -/
def finishCandidate : Publish Unit := do
  let runtime ← look fun w => w.runtime c.version
  if runtime.isSome then
    trustedDirectory φ fun w => (w.runtime c.version).isSome
    bindCandidateLinks c φ
    check φ message fun w => w.runtime c.version = w.releases c.version
    removeRuntime c φ
  let state ← look fun w => w.candidateState c.version
  if state.isSome then
    trustedDirectory φ fun w => (w.candidateState c.version).isSome
    candidateMatchesExistingState c φ true
    removeState c φ

/-- The renames of a version state and of a whole state tree. -/
def Site.moveVersionState : Site :=
  match (w.candidateState v).bind (·.versionState v) with
  | none => w
  | some x =>
    { w.setState v fun t => some (t.dropVersion v) with
      stateRoot := w.stateRoot.map (·.putVersion v x) }

def Site.moveVersionStateBack : Site :=
  match w.stateRoot.bind (·.versionState v) with
  | none => w
  | some x =>
    { w.setState v fun t => some (t.putVersion v x) with
      stateRoot := w.stateRoot.map (·.dropVersion v) }

def Site.moveState : Site := { w.setState v fun _ => none with stateRoot := w.candidateState v }

def Site.moveStateBack : Site :=
  { w.setCandidate v fun k => { k with state := w.stateRoot } with stateRoot := none }

/-- `os.replace(release_stage, context.release)`. -/
def Site.moveRelease (c : Context) : Site :=
  (w.setRelease c.version (w.stages c.version c.pid)).setStage c.version c.pid none

/-- `os.replace(context.release, rollback_release)`. -/
def Site.moveReleaseBack (c : Context) : Site :=
  (w.setRollback c.version c.pid (w.releases c.version)).setRelease c.version none

/-! ### The paths of `_promote` -/

/-- `_already_promoted`; the answer says that the call is complete. -/
def alreadyPromoted : Publish Bool := do
  let site ← look id
  if site.activeRelease = some c.version then
    trustedDirectory φ fun w => (w.releases c.version).isSome
    trustedDirectory φ fun w => w.stateRoot.isSome
    finishCandidate c φ "active promotion retained a mismatched candidate"
    let metadata ← look fun w => w.metadataAt c .production
    if metadata.bind (·.release) ≠ some c.releaseRecord then writeMetadata c φ .production
    let report ← look fun w => (w.candidates c.version).report
    if report.isNone then publishReport c φ
    else check φ "active promotion record mismatch" fun _ => report = some c.releaseRecord
    pure true
  else pure false

/-- The precondition of the rename of a fresh state. -/
def assertFreshStateMove : Publish Unit :=
  check φ "publication path identity changed" fun w =>
    (w.candidateState c.version).isSome && w.stateRoot.isNone

/-- The precondition of the first activation. -/
def assertFreshActivation : Publish Unit := do
  check φ "publication destination is not absent" fun w =>
    w.stateRoot.isSome && (w.candidateState c.version).isNone && w.activeLink.isNone
  verifyFreshStateTree c φ .production

/-- `_resume_published_release`. -/
def resumePublishedRelease : Publish Bool := do
  let site ← look id
  if (site.releases c.version).isSome && (site.runtime c.version).isSome &&
      site.activeLink.isNone then
    check φ "candidate and production state collide" fun w =>
      !((w.candidateState c.version).isSome && w.stateRoot.isSome)
    verifyReleaseOwnership c φ
    bindCandidateLinks c φ
    check φ "published release does not match the reviewed candidate" fun w =>
      w.runtime c.version = w.releases c.version
    if (site.candidateState c.version).isSome then
      verifyFreshStateTree c φ .candidate
      guardedReplace φ (assertFreshStateMove c φ) fun w => w.moveState c.version
      verifyFreshStateTree c φ .production
    else
      check φ "fresh publication state is unavailable" fun w => w.stateRoot.isSome
      verifyFreshStateTree c φ .production
    guardedActivate φ (assertFreshActivation c φ) c.version none
    removeRuntime c φ
    fsync φ
    publishReport c φ
    pure true
  else pure false

/-- The end that the two branches of `_resume_upgrade_publication` share. -/
def finishUpgrade : Publish Unit := do
  writeMetadata c φ .production
  finishCandidate c φ message
  fsync φ
  publishReport c φ

/-- The version state of an upgrade that is resumed before its activation. -/
def resumeVersionState (productionPresent candidatePresent : Bool) (state : Option StateTree) :
    Publish Unit := do
  if productionPresent then
    check φ "candidate and production version state collide" fun _ => !candidatePresent
    if state.isSome then candidateMatchesExistingState c φ true
    verifyProductionVersionState c φ
  else
    check φ "upgrade version state is unavailable for resume" fun w =>
      (w.candidateState c.version).isSome
    candidateMatchesExistingState c φ false
    act φ "chown" fun w => w.setState c.version fun t => some (t.preparedVersion c.version)
    guardedReplace φ (pure ()) fun w => w.moveVersionState c.version
    verifyProductionVersionState c φ

/-- `_resume_upgrade_publication`. -/
def resumeUpgradePublication : Publish Bool := do
  let site ← look id
  if site.stateRoot.isSome && site.activeLink.isSome && (site.releases c.version).isSome then
    trustedDirectory φ fun w => w.stateRoot.isSome
    verifyReleaseOwnership c φ
    check φ "resolve" fun w => w.activeRelease.isSome
    trustedDirectory φ fun w => w.stateRoot.isSome
    let production := (site.stateRoot.bind (·.versionState c.version)).isSome
    let candidate := ((site.candidateState c.version).bind (·.versionState c.version)).isSome
    if site.activeRelease = some c.version then
      check φ "active upgrade version state is unavailable" fun _ => production
      check φ "candidate and production version state collide" fun _ => !candidate
      verifyProductionVersionState c φ
      finishUpgrade c φ "active upgrade retained a mismatched candidate"
      pure true
    else
      check φ "active upgrade target is unsafe" fun w => w.activeRelease.isSome
      resumeVersionState c φ production candidate (site.candidateState c.version)
      guardedActivate φ (pure ()) c.version site.activeLink
      finishUpgrade c φ "resumed upgrade retained a mismatched candidate"
      pure true
  else pure false

/-- A private copy that an earlier refusal has left. -/
def clearReleaseStage : Publish Unit := do
  let site ← look id
  if (site.stages c.version c.pid).isSome then
    check φ "release staging path already exists" fun w => (w.releases c.version).isNone
    act φ "rmtree" fun w => w.setStage c.version c.pid none

/-- `shutil.copytree(runtime, release_stage)`. -/
def copyRelease : Publish Unit := do
  act φ "copytree" fun w => w.setStage c.version c.pid
    ((w.runtime c.version).map fun t => { t with whole := false })
  act φ "copytree" fun w => w.setStage c.version c.pid (w.runtime c.version)
  check φ "candidate release ownership is unsafe" fun w =>
    (w.stages c.version c.pid).any (·.normalized)
  fsync φ

def rollbackRelease : Publish Unit := do
  let site ← look id
  if (site.releases c.version).isSome then
    check φ "release rollback path already exists" fun w => (w.rollbacks c.version c.pid).isNone
    guardedReplace φ (pure ()) fun w => w.moveReleaseBack c
    act φ "rmtree" fun w => w.setRollback c.version c.pid none

def removeReleaseStage : Publish Unit := do
  let site ← look id
  if (site.stages c.version c.pid).isSome then
    act φ "rmtree" fun w => w.setStage c.version c.pid none

/-- The forward part of `_promote_upgrade`. -/
def upgradeForward : Publish Unit := do
  copyRelease c φ
  act φ "chown" fun w => w.setState c.version fun t => some (t.preparedVersion c.version)
  guardedReplace φ (pure ()) fun w => w.moveRelease c
  flag fun f => { f with releasePublished := true }
  guardedReplace φ (pure ()) fun w => w.moveVersionState c.version
  flag fun f => { f with versionStateMoved := true }
  verifyProductionVersionState c φ
  guardedActivate φ (pure ()) c.version (some prior)
  flag fun f => { f with activated := true, metadataAttempted := true }
  writeMetadata c φ .production

/-- The rollback of `_promote_upgrade`. -/
def upgradeRollback (backup : Option Metadata) : Publish Unit := do
  let s ← Coro.get
  if s.flags.activated && s.site.activeLink.isSome then
    guardedActivate φ (pure ()) prior s.site.activeLink
  if s.flags.metadataAttempted then
    restoreMetadata c φ (backup.bind (·.manifest)) (backup.bind (·.release))
  let site ← look id
  if s.flags.versionStateMoved && (site.stateRoot.bind (·.versionState c.version)).isSome &&
      ((site.candidateState c.version).bind (·.versionState c.version)).isNone then
    guardedReplace φ (pure ()) fun w => w.moveVersionStateBack c.version
  if s.flags.releasePublished then rollbackRelease c φ
  removeReleaseStage c φ

/-- A rollback is not attempted after a refusal, and a dead process attempts nothing. -/
def orRollback (forward rollback : Publish Unit) : Publish Unit :=
  Coro.tryExcept forward fun e =>
    match e with
    | .refused => Coro.raise .refused
    | e => do
      rollback
      Coro.raise e

/-- `_promote_upgrade`. -/
def promoteUpgrade : Publish Unit := do
  trustedDirectory φ fun w => w.stateRoot.isSome
  let site ← look id
  match site.activeLink with
  | none => Coro.raise (.raised "existing deployment is not eligible for an upgrade")
  | some prior =>
    check φ "existing deployment is not eligible for an upgrade" fun w =>
      (w.releases c.version).isNone
    check φ "active release target is unsafe" fun w => (w.releases prior).isSome
    candidateMatchesExistingState c φ false
    trustedDirectory φ fun w => w.stateRoot.isSome
    check φ "production version state already exists" fun w =>
      (w.stateRoot.bind (·.versionState c.version)).isNone
    check φ "version state promotion requires one filesystem" fun _ => true
    bindCandidateLinks c φ
    normalizeReleasePermissions c φ
    verifyRuntimeOwnership c φ
    trustedDirectory φ fun w => w.stateRoot.isSome
    let backup ← look fun w => w.metadataAt c .production
    clearReleaseStage c φ
    orRollback (upgradeForward c φ prior) (upgradeRollback c φ prior backup)
    removeRuntime c φ
    removeState c φ
    fsync φ
    publishReport c φ

/-- The forward part of a fresh installation. -/
def freshForward : Publish Unit := do
  copyRelease c φ
  guardedReplace φ (pure ()) fun w => w.moveRelease c
  flag fun f => { f with releasePublished := true }
  verifyFreshStateTree c φ .candidate
  guardedReplace φ (assertFreshStateMove c φ) fun w => w.moveState c.version
  flag fun f => { f with stateMoved := true }
  verifyFreshStateTree c φ .production
  guardedActivate φ (assertFreshActivation c φ) c.version none

def freshRollback : Publish Unit := do
  let s ← Coro.get
  if s.site.activeLink.isSome then
    guarded φ do
      act φ "unlink" fun w => { w with activeLink := none }
      fsync φ
  if s.flags.releasePublished then rollbackRelease c φ
  removeReleaseStage c φ
  let site ← look id
  if s.flags.stateMoved && site.stateRoot.isSome && (site.candidateState c.version).isNone then
    guardedReplace φ (pure ()) fun w => w.moveStateBack c.version

/-- The end of `_promote`: nothing of this profile has been published yet. -/
def promoteFresh : Publish Unit := do
  check φ "production candidate destination already exists" fun w =>
    (w.releases c.version).isNone && w.stateRoot.isNone && w.activeLink.isNone
  check φ "state promotion requires one filesystem" fun _ => true
  bindCandidateLinks c φ
  normalizeReleasePermissions c φ
  writeMetadata c φ .candidate
  act φ "chown" fun w => w.setState c.version fun t => some t.prepared
  verifyRuntimeOwnership c φ
  clearReleaseStage c φ
  orRollback (freshForward c φ) (freshRollback c φ)
  removeRuntime c φ
  fsync φ
  publishReport c φ

/-- `_promote`. -/
def promote : Publish Unit := do
  check φ "Sunlit is not in the required inactive state" fun _ => true
  check φ "promotion manifest identity mismatch" fun _ => true
  trustedDirectory φ fun _ => true
  check φ "candidate record identity mismatch" fun w =>
    (w.candidates c.version).record = some c.releaseRecord
  trustedDirectory φ fun _ => true
  check φ "Sunlit account is unavailable" fun _ => true
  let completed ← alreadyPromoted c φ
  if completed then pure ()
  else
    trustedDirectory φ fun w => (w.runtime c.version).isSome
    let resumed ← resumePublishedRelease c φ
    if resumed then pure ()
    else
      let resumed ← resumeUpgradePublication c φ
      if resumed then pure ()
      else
        trustedDirectory φ fun w => (w.candidateState c.version).isSome
        let site ← look id
        if site.stateRoot.isSome && site.activeLink.isSome then promoteUpgrade c φ
        else promoteFresh c φ

end Horizon.Sunlit
