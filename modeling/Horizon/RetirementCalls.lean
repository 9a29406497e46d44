/-
**The three phases of a retirement.**

`quarantine`, `purge` and `rollback` are run to their end over the payload files and the ledger.
Between any two of its steps a call meets a *moment*: the oracle gives what the rest of the system
looks like at that moment (the catalog, the protections, the confirmations, the jobs, the lease, the
sender's lock), which statements of a ledger write raise, or nothing at all, and then the call is
stopped there.  Each call has a connection of its own, which is closed when the call ends: what it
has not committed is gone.

Main definitions:

* `RetirementService` — the backup roots of the profiles and the manifests;
* `Moment`, `Oracle` — what a call meets;
* `observe`, `renameNoreplace`, `unlinkPayload`, `record` — the four kinds of step;
* `quarantine`, `purge`, `rollback`;
* `RetirementCall.run` — one call, as far as it gets.
-/

import Horizon.Coroutine
import Horizon.Retirement

namespace Horizon.Retirement

open Sqlite (Conn Schedule)
open Coroutine (Coro)

/-! ### The service and its surroundings -/

/-- A manifest is found under its own digest, so an operation has one manifest for ever. -/
structure RetirementService where
  backupRoot : ProfileId → Option Path
  manifests : OperationId → Option RetirementManifest
  receiptDigest : String → ℤ → List RemoteMember → String
  loaded : ∀ op m, manifests op = some m →
    m.operationId = op ∧ parseManifest receiptDigest m.entries m.receipt = .ok ()

/-- No backup root lies below another one; the registry does not check this. -/
def RetirementService.RootsApart (svc : RetirementService) : Prop :=
  ∀ p q r s, svc.backupRoot p = some r → svc.backupRoot q = some s → r <+: s → p = q

/-- The columns of `backups` that are read. -/
structure CatalogRow where
  id : BackupId
  profileId : ProfileId
  sizeBytes : ℕ
  verified : Bool
  isProtected : Bool
  deriving DecidableEq

/-- The columns of `backup_protections` that are read. -/
structure ProtectionRow where
  backupId : BackupId
  pruneState : String
  deriving DecidableEq

/-- Why `_ensure_private_dir` refuses a directory. -/
inductive DirectoryRefusal
  | pathUnavailable
  | symlinkAncestor
  | notApproved
  | parentUnavailable
  | parentNotDirectory
  | parentNotTrusted
  | notTrusted
  | permissionsNotTrusted
  | notSecured
  deriving DecidableEq

def DirectoryRefusal.message : DirectoryRefusal → String
  | .pathUnavailable => "path is unavailable"
  | .symlinkAncestor => "path has a symlink ancestor"
  | .notApproved => "quarantine directory is not approved"
  | .parentUnavailable => "quarantine parent is unavailable"
  | .parentNotDirectory => "quarantine parent is not a directory"
  | .parentNotTrusted => "quarantine parent is not trusted"
  | .notTrusted => "quarantine directory is not trusted"
  | .permissionsNotTrusted => "quarantine directory permissions are not trusted"
  | .notSecured => "quarantine directory could not be secured"

structure Moment where
  now : ℕ
  leaseHeld : Bool
  senderFree : Bool
  directoryRefusal : Path → Option DirectoryRefusal
  /-- `lstat` fails, and not because there is no file. -/
  unreadable : Path → Bool
  backups : List CatalogRow
  protections : List ProtectionRow
  confirmations : List ConfirmationRow
  /-- The stored text of a payload is `LIKE '%{id}%'`. -/
  mentions : JsonDict → BackupId → Bool
  jobs : List JobRow
  /-- The statements that raise, if the step is a ledger write. -/
  faults : Schedule

/-- The moments of one call; at `none` the call is stopped. -/
abbrev Oracle := ℕ → Option Moment

structure PayloadStore where
  files : PayloadFiles
  ledger : Ledger

/-- What `lstat` finds at a path. -/
def Moment.look (v : Moment) (w : PayloadStore) (path : Path) : Option PayloadFile :=
  if v.unreadable path then none else w.files path

theorem Moment.look_eq_some {v : Moment} {w : PayloadStore} {path : Path} {f : PayloadFile}
    (h : v.look w path = some f) : w.files path = some f := by
  unfold Moment.look at h
  split at h
  · cases h
  · exact h

/-- `_absent`: there is provably no file. -/
def Moment.absent (v : Moment) (w : PayloadStore) (path : Path) : Bool :=
  (w.files path).isNone && !v.unreadable path

structure CallState where
  files : PayloadFiles
  ledger : Conn Ledger
  moments : ℕ

namespace CallState

variable (s : CallState)

def store : PayloadStore := ⟨s.files, s.ledger.working⟩

/-- What is there when the call has ended here. -/
def durable : PayloadStore := ⟨s.files, s.ledger.committed⟩

def next : CallState := { s with moments := s.moments + 1 }

end CallState

inductive Failure
  | stopped
  | safe (error : SafeError)
  deriving DecidableEq

abbrev Call := Coro CallState Failure

def refuse {α : Type} (message : String) : Call α := Coro.raise (.safe (retirementFailed message))

/-! ### The steps of a call -/

section Steps

variable {α : Type} (ω : Oracle) (path : Path)

def observe (f : Moment → PayloadStore → Except SafeError α) : Call α := fun s =>
  match ω s.moments with
  | none => (.error .stopped, s)
  | some v =>
    match f v s.store with
    | .ok a => (.ok a, s.next)
    | .error e => (.error (.safe e), s.next)

/-- `rename_noreplace`. -/
def renameNoreplace (source target : Path) : Call Unit := fun s =>
  match ω s.moments with
  | none => (.error .stopped, s)
  | some v =>
    match Filesystem.rename (PayloadFile.moved v.now) source target s.files with
    | .ok files => (.ok (), { s.next with files := files })
    | .error .targetExists => (.error (.safe (retirementFailed "target already exists")), s.next)
    | .error .noSource => (.error (.safe (retirementFailed "no-overwrite rename failed")), s.next)

/-- `os.unlink`. -/
def unlinkPayload : Call Unit := fun s =>
  match ω s.moments with
  | none => (.error .stopped, s)
  | some _ =>
    match Filesystem.unlink path s.files with
    | some files => (.ok (), { s.next with files := files })
    | none => (.error .stopped, s.next)

/-- `_fsync_dir`. -/
def fsyncDir : Call Unit := observe ω fun _ _ => .ok ()

/-- `_assert_lease`. -/
def assertLease : Call Unit :=
  observe ω fun v _ =>
    if v.leaseHeld then .ok ()
    else .error ⟨.slotConflict, "operation lease was lost before payload retirement", true, none⟩

/-- `SenderInterlock.acquire`. -/
def acquireSender : Call Unit :=
  observe ω fun v _ =>
    if v.senderFree then .ok () else .error (retirementFailed "laptop sender is active" true)

def absent : Call Bool := observe ω fun v w => .ok (v.absent w path)

/-- `path.exists()`. -/
def present : Call Bool := observe ω fun v w => .ok (v.look w path).isSome

/-- `_verify_payload`. -/
def verify (entry : ManifestEntry) (path : Path) (checkCtime : Bool) : Call Unit :=
  observe ω fun v w => verifyPayload entry checkCtime (v.look w path)

end Steps

/-! ### The plan -/

structure PlanEntry where
  entry : ManifestEntry
  archive : Path
  quarantine : Path
  deriving DecidableEq

namespace RetirementService

variable (svc : RetirementService) (m : RetirementManifest)

/-- `_profile` and the paths of one entry. -/
def planEntry (entry : ManifestEntry) : Except SafeError PlanEntry :=
  match svc.backupRoot entry.profileId with
  | none => .error (retirementFailed "profile is not registered")
  | some root =>
    if (archivePath root entry.backupId).dropLast = root then
      .ok ⟨entry, archivePath root entry.backupId, quarantinePath root m.operationId entry.backupId⟩
    else .error (retirementFailed "archive path is not approved")

def planEntries (m : RetirementManifest) : List ManifestEntry → Except SafeError (List PlanEntry)
  | [] => .ok []
  | entry :: rest => do
    let item ← svc.planEntry m entry
    let items ← planEntries m rest
    .ok (item :: items)

/-- `_plan`. -/
def plan : Except SafeError (List PlanEntry) := svc.planEntries m m.entries

end RetirementService

/-- `_row`. -/
def rowOf (m : RetirementManifest) (item : PlanEntry) (state : PayloadState)
    (error : Option String) (stamp : ℕ) : LedgerRow where
  operationId := m.operationId
  backupId := item.entry.backupId
  profileId := item.entry.profileId
  state := state
  path := .payload item.entry.backupId
  quarantinePath := quarantinePath [] m.operationId item.entry.backupId
  expectedDevice := item.entry.device
  expectedInode := item.entry.inode
  expectedSize := item.entry.sizeBytes
  expectedMtimeNs := item.entry.mtimeNs
  expectedCtimeNs := item.entry.ctimeNs
  expectedSha256 := item.entry.sha256
  manifestSha256 := m.operationId
  createdAt := stamp
  updatedAt := stamp
  errorCode := error

/-- A ledger write; the connection stays as the callback leaves it. -/
def record (ω : Oracle) (m : RetirementManifest) (item : PlanEntry) (state : PayloadState)
    (error : Option String := none) : Call Unit := fun s =>
  match ω s.moments with
  | none => (.error .stopped, s)
  | some v =>
    match (ledgerWrite (rowOf m item state error v.now)).exec v.faults s.ledger with
    | (c, .value _) => (.ok (), { s.next with ledger := c })
    | (c, .raised e) => (.error (.safe e), { s.next with ledger := c })
    | (c, .sqliteError) => (.error .stopped, { s.next with ledger := c })

/-! ### The checks -/

/-- `_assert_catalog_eligible`. -/
def Moment.catalogEligible (v : Moment) (entry : ManifestEntry) : Except SafeError Unit :=
  match v.backups.find? (·.id = entry.backupId) with
  | none => .error (retirementFailed "backup is not in the catalog")
  | some row => do
    rejectWhen (row.profileId ≠ entry.profileId) "backup profile does not match the plan"
    rejectWhen (row.sizeBytes ≠ entry.sizeBytes) "backup size does not match the plan"
    rejectWhen (!row.verified || row.isProtected)
      "backup is not an unprotected verified catalog row"
    rejectWhen (v.protections.any fun r => r.backupId = entry.backupId ∧ r.pruneState ≠ "deleted")
      "backup still has a remote protection row"
    rejectWhen (v.confirmations.any fun r => r.action = "restore" ∧ r.consumedAt = none ∧
      v.mentions r.payload entry.backupId = true) "backup has a live restore confirmation"

/-- `_assert_jobs_idle`. -/
def Moment.jobsIdle (v : Moment) (ownJob : Option ℕ) : Except SafeError Unit :=
  if v.jobs.any fun r => r.finishedAt = none ∧ ownJob ≠ some r.id then
    .error (retirementFailed "an unrelated operation is still running" true)
  else .ok ()

/-- `_assert_confirmations_clear`. -/
def Moment.confirmationsClear (v : Moment) : Except SafeError Unit :=
  rejectWhen (v.confirmations.any fun r => r.action = "restore" ∧ r.consumedAt = none)
    "a restore confirmation is pending"

variable (row : LedgerRow)

/-- The comparison of a row with the entry of its backup. -/
def bindRow (entry : ManifestEntry) : Except SafeError Unit := do
  rejectWhen (row.profileId ≠ entry.profileId || row.expectedSha256 ≠ entry.sha256)
    "ledger entry is bound to a different plan"
  rejectWhen (row.expectedDevice ≠ entry.device || row.expectedInode ≠ entry.inode ||
    row.expectedSize ≠ entry.sizeBytes || row.expectedMtimeNs ≠ entry.mtimeNs ||
    row.expectedCtimeNs ≠ entry.ctimeNs) "ledger identity does not match the plan"

namespace RetirementManifest

variable (m : RetirementManifest)

def ids : List BackupId := m.entries.map (·.backupId)

/-- `_assert_operation_binding`. -/
def operationBinding (exact : Bool) (l : Ledger) : Except SafeError Unit :=
  let rows := l.rowsOf m.operationId
  let observed := rows.map (·.backupId)
  if rows.isEmpty then .ok ()
  else do
    rejectWhen (!observed.all (· ∈ m.ids) || (exact && !m.ids.all (· ∈ observed)))
      "ledger membership does not match the plan"
    rows.forM fun row =>
      match lastBy (·.backupId) m.entries row.backupId with
      | none => .error (retirementFailed "ledger membership does not match the plan")
      | some entry => bindRow row entry

/-- `_assert_phase_admissible`. -/
def phaseAdmissible (phase : Phase) (l : Ledger) : Except SafeError Unit :=
  (l.rowsOf m.operationId).forM fun row =>
    rejectWhen (row.state ∉ phase.resumable)
      ("operation cannot resume phase " ++ phase.value ++ " from ledger state " ++ row.state.value)

/-- `_assert_receipt`. -/
def assertReceipt : Except SafeError Unit := do
  rejectWhen (!m.receipt.verified) "verified-copy receipt is not verified"
  rejectWhen (!sameSet (m.receipt.members.map (·.backupId)) m.ids)
    "verified-copy receipt membership does not match the plan"
  m.entries.forM fun entry =>
    matchMember "verified-copy receipt does not match the plan"
      "verified-copy receipt does not match the plan"
      "verified-copy receipt does not match the plan" entry
      (lastBy (·.backupId) m.receipt.members entry.backupId)

/-- `_assert_no_purge_intent`. -/
def noPurgeIntent (l : Ledger) : Except SafeError Unit :=
  (l.rowsOf m.operationId).forM fun row =>
    rejectWhen row.state.purgeIntent "rollback is impossible after purge intent"

end RetirementManifest

/-! ### The report -/

inductive Classification
  | unknownProfile
  | preparedSourceIntact
  | quarantineCompleted
  | quarantinedIntact
  | sourcePresent
  | purgePending
  | purgedProven
  | failed
  | ambiguous
  deriving DecidableEq

structure RetirementReport where
  operationId : OperationId
  counts : List (PayloadState × ℕ)
  entries : List LedgerRow
  reconciled : List (LedgerRow × Classification)
  availability : List (BackupId × PayloadState)
  isPartial : Bool := false

/-- `_matches`. -/
def matchesRow : Option PayloadFile → Bool
  | none => false
  | some f => f.regular && f.links = 1 && f.device = row.expectedDevice &&
      f.inode = row.expectedInode && f.sizeBytes = row.expectedSize &&
      f.mtimeNs = row.expectedMtimeNs

/-- `_classify` of one row, given where its payload is; rows in the other states are passed over. -/
def classify (archiveOk quarantineOk bothAbsent : Bool) : Option Classification :=
  match row.state with
  | .prepared => some <|
      if archiveOk then .preparedSourceIntact
      else if quarantineOk then .quarantineCompleted else .failed
  | .quarantined => some <|
      if quarantineOk then .quarantinedIntact else if archiveOk then .sourcePresent else .failed
  | .purgePrepared => some <|
      if quarantineOk then .purgePending else if bothAbsent then .purgedProven else .ambiguous
  | _ => none

/-- `dict[key] = value`. -/
def assign {κ α : Type} [DecidableEq κ] (d : List (κ × α)) (key : κ) (value : α) : List (κ × α) :=
  if d.any (·.1 = key) then d.map fun p => if p.1 = key then (key, value) else p
  else d ++ [(key, value)]

namespace RetirementService

variable (svc : RetirementService) (v : Moment) (w : PayloadStore)

/-- `_classify` of one row. -/
def classifyRow (row : LedgerRow) : Option (LedgerRow × Classification) :=
  match svc.backupRoot row.profileId with
  | none => (classify row false false false).map fun _ => (row, .unknownProfile)
  | some root =>
    let archive := archivePath root row.backupId
    let quarantine := root ++ row.quarantinePath
    (classify row (matchesRow row (v.look w archive)) (matchesRow row (v.look w quarantine))
      (v.absent w archive && v.absent w quarantine)).map fun c => (row, c)

/-- `availability_map`. -/
def availabilityMap : List (BackupId × PayloadState) :=
  w.ledger.rows.foldl (fun d row =>
    if row.state ∈ PayloadState.blockingStates then assign d row.backupId row.state
    else
      match svc.backupRoot row.profileId with
      | none => assign d row.backupId .failed
      | some root =>
        if matchesRow row (v.look w (archivePath root row.backupId)) then d
        else assign d row.backupId .failed) []

/-- `status`. -/
def status (operationId : OperationId) : RetirementReport where
  operationId := operationId
  counts := (w.ledger.rowsOf operationId).foldl
    (fun d row => assign d row.state (((d.lookup row.state).getD 0) + 1)) []
  entries := (w.ledger.rowsOf operationId).mergeSort fun a b => a.backupId ≤ b.backupId
  reconciled := ((w.ledger.rowsOf operationId).filterMap (svc.classifyRow v w)).mergeSort
    fun a b => a.1.backupId ≤ b.1.backupId
  availability := svc.availabilityMap v w

end RetirementService

/-! ### The three calls -/

section Calls

variable (svc : RetirementService) (ω : Oracle) (operationId : OperationId) (m : RetirementManifest)
  (ownJob : Option ℕ) (item : PlanEntry) (prior : List (OperationId × BackupId))

/-- `load`. -/
def load : Call RetirementManifest :=
  observe ω fun _ _ =>
    match svc.manifests operationId with
    | some m => .ok m
    | none => .error (retirementFailed "retirement manifest was not found")

/-- `_states_by_id(…).get(id)`. -/
def stateOf : Call (Option PayloadState) :=
  observe ω fun _ w => .ok (w.ledger.stateOf m.operationId item.entry.backupId)

/-- `_prior_ops`. -/
def priorOps : Call (List (OperationId × BackupId)) :=
  observe ω fun _ w => .ok (w.ledger.rows.map LedgerRow.key)

def assertCatalogEligible (entry : ManifestEntry) : Call Unit :=
  observe ω fun v _ => v.catalogEligible entry

/-- `_assert_boundaries`. -/
def assertBoundaries : Call Unit := do
  observe ω fun v _ => v.jobsIdle ownJob
  observe ω fun v _ => v.confirmationsClear

def planOf : Call (List PlanEntry) := observe ω fun _ _ => svc.plan m

/-- The change time counts only until the operation has a row for the payload. -/
def checkCtime (item : PlanEntry) : Bool := (m.operationId, item.entry.backupId) ∉ prior

/-- The part of `_assert_preflight` on one payload. -/
def preflightItem (item : PlanEntry) : Call Unit := do
  let archiveAbsent ← absent ω item.archive
  let quarantineAbsent ← absent ω item.quarantine
  if !archiveAbsent && !quarantineAbsent then
    refuse "both source and quarantine payloads exist"
  else if !quarantineAbsent then verify ω item.entry item.quarantine false
  else if !archiveAbsent then verify ω item.entry item.archive (checkCtime m prior item)
  else refuse "backup payload is unavailable"

/-- `_assert_preflight`. -/
def assertPreflight : Call Unit := do
  m.entries.forM (assertCatalogEligible ω)
  let prior ← priorOps ω
  let items ← planOf svc ω m
  items.forM (preflightItem ω m prior)

/-- `_ensure_private_dir`. -/
def ensurePrivateDir (directory : Path) : Call Unit :=
  observe ω fun v _ =>
    match v.directoryRefusal directory with
    | some refusal => .error (retirementFailed refusal.message)
    | none => .ok ()

def ensureQuarantine : Call Unit := do
  ensurePrivateDir ω item.quarantine.dropLast.dropLast
  ensurePrivateDir ω item.quarantine.dropLast

/-- The first loop of `quarantine`: a durable intent for every payload. -/
def prepareItem : Call Unit := do
  let state ← stateOf ω m item
  if state = none ∨ state = some .rolledBack then
    assertLease ω
    record ω m item .prepared

/-- The second loop of `quarantine`. -/
def quarantineItem (item : PlanEntry) : Call Unit := do
  assertLease ω
  assertCatalogEligible ω item.entry
  let state ← stateOf ω m item
  if state = some .quarantined then verify ω item.entry item.quarantine false
  else
    let moved ← present ω item.quarantine
    if moved then
      -- stopped between the rename and the ledger write: only the latter is missing
      verify ω item.entry item.quarantine false
      assertLease ω
      record ω m item .quarantined
    else
      verify ω item.entry item.archive (checkCtime m prior item)
      assertLease ω
      renameNoreplace ω item.archive item.quarantine
      fsyncDir ω
      fsyncDir ω
      record ω m item .quarantined

def quarantine : Call RetirementReport := do
  let m ← load svc ω operationId
  observe ω fun _ w => m.operationBinding false w.ledger
  observe ω fun _ w => m.phaseAdmissible .quarantine w.ledger
  acquireSender ω
  assertBoundaries ω ownJob
  let prior ← priorOps ω
  assertPreflight svc ω m
  let items ← planOf svc ω m
  assertBoundaries ω ownJob
  items.forM (ensureQuarantine ω)
  items.forM (prepareItem ω m)
  items.forM (quarantineItem ω m prior)
  observe ω fun v w => .ok (svc.status v w operationId)

/-- The part of `_assert_purge_ready` on one payload. -/
def purgeReadyItem : Call Unit := do
  let state ← stateOf ω m item
  let quarantineAbsent ← absent ω item.quarantine
  let archiveAbsent ← absent ω item.archive
  if state = some .purged then
    if !quarantineAbsent then refuse "a purged payload reappeared on disk" else pure ()
  else if state = some .purgePrepared then
    if !quarantineAbsent then verify ω item.entry item.quarantine false
    else if !archiveAbsent then refuse "source payload is still present before purge"
    else pure ()
  else if quarantineAbsent then refuse "quarantined payload is missing before purge"
  else verify ω item.entry item.quarantine false

/-- `_assert_purge_ready`. -/
def assertPurgeReady : Call Unit := do
  observe ω fun _ w =>
    rejectWhen (!sameSet ((w.ledger.rowsOf m.operationId).map (·.backupId)) m.ids)
      "purge plan does not match the quarantined set"
  let items ← planOf svc ω m
  items.forM (purgeReadyItem ω m)

/-- The first loop of `purge`: a durable intent for every payload. -/
def intendItem : Call Unit := do
  let state ← stateOf ω m item
  if state = some .quarantined then
    assertLease ω
    record ω m item .purgePrepared

/-- The second loop of `purge`. -/
def purgeItem : Call Unit := do
  assertLease ω
  assertCatalogEligible ω item.entry
  let state ← stateOf ω m item
  let quarantineAbsent ← absent ω item.quarantine
  if state = some .purged then
    if !quarantineAbsent then refuse "a purged payload reappeared on disk" else pure ()
  else if quarantineAbsent then
    if state ≠ some .purgePrepared then refuse "payload missing without a purge intent"
    else
      let archiveAbsent ← absent ω item.archive
      if !archiveAbsent then refuse "source payload is still present before purge"
      else record ω m item .purged
  else
    verify ω item.entry item.quarantine false
    assertLease ω
    unlinkPayload ω item.quarantine
    fsyncDir ω
    record ω m item .purged

def purge : Call RetirementReport := do
  let m ← load svc ω operationId
  observe ω fun _ w => m.operationBinding true w.ledger
  observe ω fun _ w => m.phaseAdmissible .purge w.ledger
  acquireSender ω
  assertBoundaries ω ownJob
  observe ω fun _ _ => m.assertReceipt
  m.entries.forM (assertCatalogEligible ω)
  assertPurgeReady svc ω m
  let items ← planOf svc ω m
  assertBoundaries ω ownJob
  items.forM (intendItem ω m)
  items.forM (purgeItem ω m)
  observe ω fun v w => .ok (svc.status v w operationId)

/-- The loop of `rollback`; the answer says that the payload is missing. -/
def rollbackItem (item : PlanEntry) : Call Bool := do
  assertLease ω
  let state ← stateOf ω m item
  if state = some .prepared ∨ state = some .quarantined then
    let quarantineAbsent ← absent ω item.quarantine
    let archiveAbsent ← absent ω item.archive
    if !quarantineAbsent then
      verify ω item.entry item.quarantine false
      assertLease ω
      renameNoreplace ω item.quarantine item.archive
      fsyncDir ω
      fsyncDir ω
      record ω m item .rolledBack
      pure false
    else if !archiveAbsent then
      verify ω item.entry item.archive (checkCtime m prior item)
      record ω m item .rolledBack
      pure false
    else
      record ω m item .failed (some "payload_missing")
      pure true
  else pure false

def rollbackItems (m : RetirementManifest) (prior : List (OperationId × BackupId)) :
    List PlanEntry → Call Bool
  | [] => pure false
  | item :: rest => do
    let missing ← rollbackItem ω m prior item
    let more ← rollbackItems m prior rest
    pure (missing || more)

def rollback : Call RetirementReport := do
  let m ← load svc ω operationId
  observe ω fun _ w => m.operationBinding false w.ledger
  observe ω fun _ w => m.phaseAdmissible .rollback w.ledger
  acquireSender ω
  assertBoundaries ω ownJob
  observe ω fun _ w => m.noPurgeIntent w.ledger
  let prior ← priorOps ω
  let items ← planOf svc ω m
  let missing ← rollbackItems ω m prior items
  let report ← observe ω fun v w => .ok (svc.status v w operationId)
  pure { report with isPartial := missing }

end Calls

/-! ### Sequences of calls -/

/-- A confirmed phase of an operation, and what it meets on its way. -/
structure RetirementCall where
  phase : Phase
  operationId : OperationId
  ownJob : Option ℕ
  oracle : Oracle

/-- One call on a connection of its own, which is closed at the end. -/
def RetirementCall.run (svc : RetirementService) (c : RetirementCall) (w : PayloadStore) :
    Except Failure RetirementReport × PayloadStore :=
  let body : Call RetirementReport :=
    match c.phase with
    | .quarantine => quarantine svc c.oracle c.operationId c.ownJob
    | .purge => purge svc c.oracle c.operationId c.ownJob
    | .rollback => rollback svc c.oracle c.operationId c.ownJob
  let ended := body.run ⟨w.files, .opened w.ledger, 0⟩
  (ended.1, ended.2.durable)

/-- The calls one after the other: the sender's lock is held for the length of each. -/
def RetirementService.runAll (svc : RetirementService) (calls : List RetirementCall)
    (w : PayloadStore) : PayloadStore :=
  calls.foldl (fun w c => (c.run svc w).2) w

end Horizon.Retirement
