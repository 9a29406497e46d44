/-
**Planning a replacement reconciliation.**

The catalog of backups, the table of protections, the local archives and the remote objects are
changed by different programs.  `build_fixed_plan` captures all four, refuses whatever it cannot
explain, and otherwise says what has to be uploaded, imported, corrected and pruned so that each
retained profile has its newest generations at the destination.

`reconcile` is modelled in its replacement mode, the one of `build_fixed_plan`.  A dictionary of
generations is the list of its values; refusals are collected in a list, for the set of the source.

Main definitions:

* `Reconcile.World` — the two tables, the archives and the remote objects;
* `Reconcile.Evidence`, `Reconcile.capture` — what is captured;
* `Reconcile.Plan`, `Reconcile.reconcile`, `Reconcile.buildFixedPlan` — planning.
-/

import Horizon.Protection
import Horizon.Sqlite

namespace Horizon.Reconcile

open ObjectStore (Store)
open Protection (Reader Manifest Row Protections PruneState Failure isSha256 isGeneration
  backupGeneration profilePrefix remoteKey inPrefix archiveSuffix)

/-! ### The world -/

/-- `RETAINED_PROFILE_IDS`. -/
def retainedProfileIds : List String :=
  ["minecraft-sunlit-cobblemon", "terraria-vanilla", "terraria-tmod"]

/-- `RETENTION`. -/
def retention : ℕ := 2

/-- `MAX_REMOTE_ORPHANS_PER_PROFILE`. -/
def maxRemoteOrphansPerProfile : ℕ := 1

/-- `MAX_STAGED_BYTES`. -/
def maxStagedBytes : ℤ := 8 * 1024 * 1024 * 1024

/-- A row of `backups`. -/
structure CatalogRow where
  id : String
  profileId : String
  sizeBytes : ℤ
  verified : Bool
  isProtected : Bool
  deriving DecidableEq

abbrev Catalog := Sqlite.Table CatalogRow.id

structure World (β : Type) where
  catalog : Catalog
  protections : Protections
  /-- The regular file of a generation in `FIXED_BACKUP_ROOTS`. -/
  archives : String → String → Option β
  /-- The regular file of a generation in `FIXED_REMOTE_STAGING_ROOT`. -/
  staged : String → String → Option β
  remote : Store β

/-- `SafeError("backup_reconciliation_refused", message)`. -/
def refused (message : String) : Failure := .safe "backup_reconciliation_refused" message

/-! ### Evidence -/

structure CatalogGeneration where
  backupId : String
  profileId : String
  sizeBytes : ℤ
  sha256 : String
  verified : Bool
  isProtected : Bool
  archiveSizeBytes : Option ℤ
  deriving DecidableEq

/-- The methods that `build_fixed_plan` writes. -/
inductive VerificationMethod
  | cryptcheck
  | manifest
  | manifestCryptcheck
  deriving DecidableEq

structure RemoteGeneration where
  profileId : String
  backupId : String
  sizeBytes : ℤ
  sha256 : String
  remoteKey : String
  manifestProfileId : Option String
  manifestBackupId : Option String
  manifestVerified : Bool
  downloadedSizeBytes : Option ℤ
  verificationMethod : VerificationMethod
  deriving DecidableEq

variable (c : CatalogGeneration)

def CatalogGeneration.key : String × String := (c.profileId, c.backupId)

def RemoteGeneration.key (r : RemoteGeneration) : String × String := (r.profileId, r.backupId)

variable (r : Row) (rows : List Row)

def rowKey : String × String := (r.profileId, r.backupId)

structure Evidence where
  catalog : List CatalogGeneration
  protections : List Row
  remote : List RemoteGeneration

/-- `_archive_size`. -/
def archiveSize : ℤ := c.archiveSizeBytes.getD c.sizeBytes

section Capture

variable {β : Type} [DecidableEq β] (R : Reader β) (w : World β)

/-- `_local_archive_metadata`. -/
def localArchiveMetadata : Option β → ℤ × String
  | none => (-1, "")
  | some b => (R.size b, R.sha256 b)

def identifies (m : Manifest) (profileId backupId : String) : Bool :=
  m.schema = 1 ∧ m.profileId = profileId ∧ m.backupId = backupId

/-- `_validate_archive_manifest`. -/
def validateArchiveManifest (b : β) (profileId backupId : String) : Except Failure Unit :=
  match R.manifest b with
  | .error text => .error (refused text)
  | .ok m => if identifies m profileId backupId then .ok () else
      .error (refused "local manifest identity mismatch")

/-- The evidence of one row of the catalog. -/
def captureRow (c : CatalogRow) : Except Failure CatalogGeneration :=
  let file := w.archives c.profileId c.id
  let generation := {
    backupId := c.id
    profileId := c.profileId
    sizeBytes := c.sizeBytes
    sha256 := (localArchiveMetadata R file).2
    verified := c.verified
    isProtected := c.isProtected
    archiveSizeBytes := some (localArchiveMetadata R file).1 }
  match file with
  | none => .ok generation
  | some b => (validateArchiveManifest R b c.profileId c.id).map fun _ => generation

def basename (key : List Char) : List Char := (key.reverse.takeWhile (· ≠ '/')).reverse

/-- `_remote_backup_id`, for the prefix of a profile. -/
def remoteBackupId (profileId key : String) : String :=
  if ¬ inPrefix profileId key ∨
      key.toList.count '/' ≠ (profilePrefix profileId).toList.count '/' + 1 then
    "invalid-remote-key"
  else if ¬ archiveSuffix.toList.isSuffixOf (basename key.toList) then "invalid-remote-key"
  else String.ofList ((basename key.toList).take
    ((basename key.toList).length - archiveSuffix.toList.length))

/-- `_verify_staged_manifest`: what is staged, of which the digest and the size are returned. -/
def verifyStagedManifest (b st : β) (profileId backupId : String) : Except Failure β :=
  if R.size st ≠ R.size b then .error (refused "staged remote archive changed")
  else
    match validateArchiveManifest R st profileId backupId with
    | .error e => .error e
    | .ok () =>
      if st = b then .ok st
      else .error (.safe "backup_protection_failed" "remote backup operation failed")

/-- `_download_and_verify_manifest`: what is downloaded. -/
def downloadAndVerifyManifest (b : β) (profileId backupId : String) : Except Failure β :=
  if (R.size b : ℤ) > maxStagedBytes then
    .error (refused "remote archive exceeds staging bound")
  else
    match R.manifest b with
    | .error text => .error (refused text)
    | .ok m => if identifies m profileId backupId then .ok b else
        .error (refused "remote manifest identity mismatch")

/-- The evidence of an object of a generation in the catalog. -/
def knownObject (l : CatalogGeneration) (profileId : String) (o : String × β) : RemoteGeneration :=
  let backupId := remoteBackupId profileId o.1
  let checked := (R.size o.2 : ℤ) = archiveSize l ∧ w.archives profileId backupId = some o.2
  { profileId := profileId
    backupId := backupId
    sizeBytes := R.size o.2
    sha256 := if checked then l.sha256 else ""
    remoteKey := o.1
    manifestProfileId := none
    manifestBackupId := none
    manifestVerified := false
    downloadedSizeBytes := none
    verificationMethod := if checked then .cryptcheck else .manifest }

omit [DecidableEq β] in
/-- The evidence of an object whose manifest has been read. -/
def provenObject (profileId : String) (o : String × β) (method : VerificationMethod) (b : β) :
    RemoteGeneration where
  profileId := profileId
  backupId := remoteBackupId profileId o.1
  sizeBytes := R.size o.2
  sha256 := R.sha256 b
  remoteKey := o.1
  manifestProfileId := some profileId
  manifestBackupId := some (remoteBackupId profileId o.1)
  manifestVerified := true
  downloadedSizeBytes := some (R.size b)
  verificationMethod := method

def captureObject (catalog : List CatalogGeneration) (profileId : String) (o : String × β) :
    Except Failure RemoteGeneration :=
  let backupId := remoteBackupId profileId o.1
  match catalog.find? fun c => c.key = (profileId, backupId) with
  | some l => .ok (knownObject R w l profileId o)
  | none =>
    match w.staged profileId backupId with
    | some st => (verifyStagedManifest R o.2 st profileId backupId).map
        (provenObject R profileId o .manifestCryptcheck)
    | none => (downloadAndVerifyManifest R o.2 profileId backupId).map
        (provenObject R profileId o .manifest)

/-- `_assert_fixed_profile_scope`. -/
def scopeExact : Bool :=
  w.catalog.rows.all (fun c => c.profileId ∈ retainedProfileIds) &&
    w.protections.rows.all fun r => r.profileId ∈ retainedProfileIds

/-- What `build_fixed_plan` captures before it plans. -/
def capture : Except Failure Evidence := do
  if ¬ scopeExact w then
    throw (refused "fixed profile scope is not exact")
  let catalog ← w.catalog.rows.mapM (captureRow R w)
  let remote ← retainedProfileIds.mapM fun profileId =>
    (w.remote.under (profilePrefix profileId ++ "/")).mapM (captureObject R w catalog profileId)
  pure ⟨catalog, w.protections.rows, remote.flatten⟩

end Capture

/-! ### The plan -/

structure ImportProtection where
  profileId : String
  backupId : String
  sizeBytes : ℤ
  sha256 : String
  remoteKey : String
  deriving DecidableEq

structure ProtectedFlagCorrection where
  profileId : String
  backupId : String
  targetProtected : Bool
  deriving DecidableEq

inductive PruneKind
  | older
  | orphan
  deriving DecidableEq

structure PruneCandidate where
  profileId : String
  backupId : String
  sizeBytes : ℤ
  sha256 : String
  kind : PruneKind
  remoteKey : String
  deriving DecidableEq

structure ReplacementCandidate where
  profileId : String
  backupId : String
  sizeBytes : ℤ
  sha256 : String
  deriving DecidableEq

structure PrunedProtectionCorrection where
  profileId : String
  backupId : String
  remoteKey : String
  sha256 : String
  deriving DecidableEq

structure Plan where
  imports : List ImportProtection
  protectedFlagCorrections : List ProtectedFlagCorrection
  pruneCandidates : List PruneCandidate
  refusals : List String
  remoteEvidence : List RemoteGeneration
  replacementCandidates : List ReplacementCandidate
  prunedProtectionCorrections : List PrunedProtectionCorrection

def Plan.ready (plan : Plan) : Bool := plan.refusals.isEmpty

/-- What one part of the planning contributes to the plan. -/
structure Findings where
  imports : List ImportProtection := []
  corrections : List ProtectedFlagCorrection := []
  pruned : List PrunedProtectionCorrection := []
  candidates : List PruneCandidate := []
  replacements : List ReplacementCandidate := []
  refusals : List String := []

namespace Findings

instance : Append Findings where
  append a b := {
    imports := a.imports ++ b.imports
    corrections := a.corrections ++ b.corrections
    pruned := a.pruned ++ b.pruned
    candidates := a.candidates ++ b.candidates
    replacements := a.replacements ++ b.replacements
    refusals := a.refusals ++ b.refusals }

def refuse (text : String) : Findings := { refusals := [text] }

def sum {α : Type} (l : List α) (f : α → Findings) : Findings where
  imports := l.flatMap fun a => (f a).imports
  corrections := l.flatMap fun a => (f a).corrections
  pruned := l.flatMap fun a => (f a).pruned
  candidates := l.flatMap fun a => (f a).candidates
  replacements := l.flatMap fun a => (f a).replacements
  refusals := l.flatMap fun a => (f a).refusals

end Findings

/-- `_generation_sort_key(a) <= _generation_sort_key(b)`. -/
def KeyLe (a b : String) : Prop :=
  backupGeneration a < backupGeneration b ∨ (backupGeneration a = backupGeneration b ∧ a ≤ b)

instance : DecidableRel KeyLe := fun _ _ => inferInstanceAs (Decidable (_ ∨ _))

/-- `min(ids, key=_generation_sort_key)`. -/
def oldest : List String → String
  | [] => ""
  | a :: l => l.foldl (fun m b => if KeyLe m b then m else b) a

/-! ### Indexing -/

/-- The loop of `_index_catalog`, `_index_protections` and `_index_remote`: refused rows are left
out, skipped ones too, and of several rows with one key the first is kept. -/
def collect {ρ : Type} (refuse : ρ → Option String) (skip : ρ → Bool) (key : ρ → String × String)
    (duplicate : String) (seen : List ρ) : List ρ → List ρ × List String
  | [] => (seen, [])
  | item :: rest =>
    match refuse item with
    | some text =>
      let r := collect refuse skip key duplicate seen rest
      (r.1, text :: r.2)
    | none =>
      if skip item then collect refuse skip key duplicate seen rest
      else if seen.any fun o => key o = key item then
        let r := collect refuse skip key duplicate seen rest
        (r.1, duplicate :: r.2)
      else collect refuse skip key duplicate (seen ++ [item]) rest

/-- The two checks that every index makes first. -/
def outOfScope (unknown invalid : String) (key : String × String) : Option String :=
  if key.1 ∉ retainedProfileIds then some unknown
  else if ¬ isGeneration key.2 then some invalid
  else none

/-- `_index_catalog`. -/
def indexCatalog (rows : List CatalogGeneration) : List CatalogGeneration × List String :=
  collect (fun c => outOfScope "unknown catalog profile" "catalog generation ID is invalid" c.key)
    (fun _ => false) CatalogGeneration.key "duplicate catalog generation" [] rows

/-- `_index_protections`: deleted rows are left out. -/
def indexProtections : List Row × List String :=
  collect (fun r => outOfScope "unknown protection profile" "protection generation ID is invalid"
    (rowKey r)) (fun r => r.pruneState = .deleted) rowKey "duplicate protection row" [] rows

/-- `_index_remote`. -/
def indexRemote (rows : List RemoteGeneration) : List RemoteGeneration × List String :=
  collect (fun r => outOfScope "unknown remote profile" "remote generation ID is invalid" r.key)
    (fun _ => false) RemoteGeneration.key "duplicate remote generation" [] rows

def indexDeleted : List Row × List String :=
  collect (fun _ => none) (fun r => r.pruneState ≠ .deleted) rowKey
    "duplicate deleted protection row" [] rows

structure Index where
  catalogs : List CatalogGeneration
  protections : List Row
  deleted : List Row
  remotes : List RemoteGeneration

namespace Index

variable (x : Index) (key : String × String) (profileId : String)

def catalog : Option CatalogGeneration := x.catalogs.find? fun c => c.key = key

def protection : Option Row := x.protections.find? fun r => rowKey r = key

def deletedProtection : Option Row := x.deleted.find? fun r => rowKey r = key

def remote : Option RemoteGeneration := x.remotes.find? fun r => r.key = key

/-- The generations of a profile in the catalog. -/
def localIds : List String :=
  (x.catalogs.filter fun c => c.profileId = profileId).map CatalogGeneration.backupId

/-- The generations of a profile at the destination. -/
def remoteIds : List String :=
  (x.remotes.filter fun r => r.profileId = profileId).map RemoteGeneration.backupId

/-- The newest generations of a profile in the catalog. -/
def retained : List String :=
  ((x.localIds profileId).insertionSort fun a b => KeyLe b a).take retention

/-- The other generations of the profile in the catalog. -/
def older : List String :=
  ((x.localIds profileId).filter fun i => i ∉ x.retained profileId).insertionSort KeyLe

end Index

/-! ### What the evidence proves -/

/-- `_manifest_proves_orphan`. -/
def manifestProvesOrphan (r : RemoteGeneration) : Bool :=
  r.manifestVerified ∧ r.manifestProfileId = some r.profileId ∧
    r.manifestBackupId = some r.backupId ∧ r.downloadedSizeBytes = some r.sizeBytes ∧
    isSha256 r.sha256 ∧ r.verificationMethod ∈ [.manifest, .manifestCryptcheck]

/-- The columns of a row that both kinds of proof read. -/
def verificationRecorded : Bool :=
  r.localVerified ∧ r.remoteVerified ∧ r.comparisonState = .verified ∧
    r.uploadState = .succeeded ∧ r.errorCode = none

/-- The row proves that its object has been verified and is not pruned. -/
def verificationProven : Bool :=
  verificationRecorded r ∧ r.pruneState ∈ [PruneState.notStarted, .succeeded]

/-- The row has the key and the digest of the generation. -/
def describes (c : CatalogGeneration) : Bool :=
  r.remoteKey = remoteKey c.profileId c.backupId ∧ r.localSha256 = c.sha256

/-- `_protection_proves_cryptcheck`. -/
def protectionProvesCryptcheck (protection : Option Row) (c : CatalogGeneration)
    (remote : RemoteGeneration) : Bool :=
  protection.any fun r => describes r c ∧ verificationProven r ∧
    remote.remoteKey = remoteKey c.profileId c.backupId ∧ remote.sizeBytes = archiveSize c ∧
    remote.sha256 = c.sha256 ∧ remote.verificationMethod ∈ [.cryptcheck, .manifestCryptcheck]

/-- `_deleted_protection_proves_prune`. -/
def deletedProtectionProvesPrune (c : CatalogGeneration) : Bool :=
  r.profileId = c.profileId ∧ r.backupId = c.backupId ∧ describes r c ∧ verificationRecorded r ∧
    r.pruneState = .deleted

/-! ### `reconcile` -/

def refuseIf (condition : Bool) (text : String) : List String := if condition then [text] else []

def catalogRefusals : List String :=
  refuseIf (c.archiveSizeBytes.any (· ≠ c.sizeBytes)) "local archive size differs from catalog" ++
  refuseIf (c.sizeBytes < 0 ∨ ¬ isSha256 c.sha256) "local archive metadata is invalid" ++
  refuseIf (¬ c.verified) "unverified catalog generation is in scope"

/-- A remote generation without a row in the catalog that may be pruned. -/
def isOrphan (x : Index) (r : RemoteGeneration) : Bool :=
  (x.catalog r.key).isNone ∧ r.remoteKey = remoteKey r.profileId r.backupId ∧ 0 ≤ r.sizeBytes ∧
    r.sizeBytes ≤ maxStagedBytes ∧ manifestProvesOrphan r

def remoteRefusals (x : Index) (r : RemoteGeneration) : List String :=
  match x.catalog r.key with
  | none => refuseIf (¬ isOrphan x r) "unknown remote generation"
  | some expected =>
    refuseIf (r.remoteKey ≠ remoteKey r.profileId r.backupId ∨ r.sizeBytes < 0 ∨
      r.sizeBytes ≠ archiveSize expected ∨ r.sha256 ≠ expected.sha256 ∨ ¬ isSha256 r.sha256 ∨
      (r.manifestVerified ∧ ¬ manifestProvesOrphan r))
      "remote archive does not match verified catalog"

def protectionRefusals (x : Index) (r : Row) : List String :=
  match x.catalog (rowKey r) with
  | none => ["unknown protection row"]
  | some expected =>
    refuseIf (r.remoteKey ≠ remoteKey r.profileId r.backupId)
      "protection destination is not canonical" ++
    refuseIf (r.localSha256 ≠ expected.sha256) "protection checksum differs from catalog" ++
    refuseIf (¬ verificationProven r) "protection verification state is not proven" ++
    refuseIf ((x.remote (rowKey r)).isNone ∧ ¬ verificationProven r)
      "protection row has no matching remote generation"

def deletedRefusals (x : Index) (r : Row) : List String :=
  refuseIf (x.catalog (rowKey r)).isNone "deleted protection row has no catalog generation" ++
  refuseIf (¬ (x.catalog (rowKey r)).any fun c => deletedProtectionProvesPrune r c)
    "deleted protection state is not proven"

def retainedFindings (x : Index) (profileId backupId : String) : Findings :=
  match x.catalog (profileId, backupId) with
  | none => {}
  | some item =>
    let protection := x.protection (profileId, backupId)
    let deleted := x.deletedProtection (profileId, backupId)
    match x.remote (profileId, backupId) with
    | some remote =>
      (match protection with
        | some _ =>
          { refusals := refuseIf (¬ protectionProvesCryptcheck protection item remote)
              "retained generation lacks canonical cryptcheck proof" }
        | none =>
          if deleted.isSome then
            .refuse "deleted protection has matching remote generation"
          else { imports := [⟨profileId, backupId, archiveSize item, item.sha256,
            remote.remoteKey⟩] }) ++
      (if item.isProtected then {}
        else if protectionProvesCryptcheck protection item remote then
          { corrections := [⟨profileId, backupId, true⟩] }
        else .refuse "unprotected retained generation lacks canonical cryptcheck proof")
    | none =>
      if deleted.isSome then .refuse "deleted retained generation cannot be replacement"
      else if ¬ item.isProtected then
        .refuse "unprotected local generation cannot be replacement"
      else if ¬ item.archiveSizeBytes.any (0 ≤ ·) ∨ item.sha256 = "" then
        .refuse "replacement archive is unavailable"
      else { replacements := [⟨profileId, backupId, archiveSize item, item.sha256⟩] }

/-- A generation beyond the retention that is in the catalog and at the destination. -/
def olderRemoteFindings (x : Index) (profileId backupId : String) : Findings :=
  match x.catalog (profileId, backupId), x.remote (profileId, backupId) with
  | some item, some remote =>
    let protection := x.protection (profileId, backupId)
    if (x.deletedProtection (profileId, backupId)).isSome then
      .refuse "deleted protection has matching remote generation"
    else if ¬ protectionProvesCryptcheck protection item remote then
      .refuse "older remote generation lacks active protection"
    else {
      candidates := [⟨profileId, backupId, archiveSize item, item.sha256, .older, remote.remoteKey⟩]
      corrections := if item.isProtected then [⟨profileId, backupId, false⟩] else [] }
  | _, _ => {}

/-- A generation beyond the retention that is in the catalog only. -/
def olderLocalFindings (x : Index) (profileId backupId : String) : Findings :=
  match x.catalog (profileId, backupId) with
  | none => {}
  | some item =>
    let protection := x.protection (profileId, backupId)
    let deleted := x.deletedProtection (profileId, backupId)
    { pruned := match protection with
        | some r => [⟨profileId, backupId, r.remoteKey, item.sha256⟩]
        | none => []
      refusals := refuseIf (protection.isNone ∧ deleted.any fun r =>
        ¬ deletedProtectionProvesPrune r item) "deleted protection state is not proven"
      corrections := if item.isProtected then [⟨profileId, backupId, false⟩] else [] }

/-- An orphan: it is pruned when it is older than what is retained. -/
def orphanFindings (x : Index) (profileId : String) (r : RemoteGeneration) : Findings :=
  if KeyLe (oldest (x.retained profileId)) r.backupId then
    .refuse "remote orphan recency is ambiguous"
  else { candidates := [⟨profileId, r.backupId, r.sizeBytes, r.sha256, .orphan, r.remoteKey⟩] }

def orphans (x : Index) (profileId : String) : List RemoteGeneration :=
  x.remotes.filter fun r => r.profileId = profileId ∧ isOrphan x r

/-- What is planned for the generations of a profile. -/
def generationFindings (x : Index) (profileId : String) : Findings :=
  .sum (orphans x profileId) (orphanFindings x profileId) ++
  .sum (x.retained profileId) (retainedFindings x profileId) ++
  .sum ((x.older profileId).filter fun i => i ∈ x.remoteIds profileId)
    (olderRemoteFindings x profileId) ++
  .sum ((x.older profileId).filter fun i => i ∉ x.remoteIds profileId)
    (olderLocalFindings x profileId)

/-- The generations that the plan leaves at the destination. -/
def finalIds (x : Index) (profileId : String) (f : Findings) : List String :=
  ((x.remoteIds profileId ++ f.replacements.map ReplacementCandidate.backupId).filter fun i =>
    i ∉ f.candidates.map PruneCandidate.backupId).dedup

/-- The body of the loop of `_reconcile_replacement_mode` over the profiles. -/
def profileFindings (x : Index) (profileId : String) : Findings :=
  if (orphans x profileId).length > maxRemoteOrphansPerProfile then
    .refuse "remote orphan count exceeds bound"
  else if x.retained profileId = [] then
    { refusals := refuseIf (x.remoteIds profileId ≠ [])
        "remote inventory has no catalog retention set" }
  else
    let f := generationFindings x profileId
    let left := finalIds x profileId f
    let inexact := ¬ (left ⊆ x.retained profileId ∧ x.retained profileId ⊆ left) ∨
      left.length ≠ min retention (x.localIds profileId).length
    f ++ { refusals := refuseIf inexact "canonical retention result is not exact" }

/-- `_profile_order`. -/
def profileOrder (profileId : String) : ℕ := retainedProfileIds.idxOf profileId

/-- `sorted(items, key=lambda item: (_profile_order(item.profile_id), item.backup_id))`. -/
def planOrder {ρ : Type} (key : ρ → String × String) (items : List ρ) : List ρ :=
  items.insertionSort fun a b => profileOrder (key a).1 < profileOrder (key b).1 ∨
    (profileOrder (key a).1 = profileOrder (key b).1 ∧ (key a).2 ≤ (key b).2)

/-- The remote evidence in the order of the profiles and generations. -/
def evidenceOrder (items : List RemoteGeneration) : List RemoteGeneration :=
  items.insertionSort fun a b => profileOrder a.profileId < profileOrder b.profileId ∨
    (profileOrder a.profileId = profileOrder b.profileId ∧ KeyLe a.backupId b.backupId)

/-- The indexed evidence and what the four indexes refuse. -/
def indexEvidence (e : Evidence) : Index × List String :=
  ({ catalogs := (indexCatalog e.catalog).1
     protections := (indexProtections e.protections).1
     deleted := (indexDeleted e.protections).1
     remotes := (indexRemote e.remote).1 },
    (indexDeleted e.protections).2 ++ (indexCatalog e.catalog).2 ++
      (indexProtections e.protections).2 ++ (indexRemote e.remote).2)

/-- Everything that is refused before the profiles are planned. -/
def evidenceRefusals (x : Index) : List String :=
  x.catalogs.flatMap catalogRefusals ++ x.remotes.flatMap (remoteRefusals x) ++
    x.protections.flatMap (protectionRefusals x) ++ x.deleted.flatMap (deletedRefusals x)

/-- `reconcile(…, replacement_mode=True)`. -/
def reconcile (e : Evidence) : Plan :=
  let x := (indexEvidence e).1
  let f := Findings.sum retainedProfileIds (profileFindings x)
  let refusals := (indexEvidence e).2 ++ evidenceRefusals x ++ f.refusals
  let evidence := evidenceOrder e.remote
  if refusals ≠ [] then {
    imports := []
    protectedFlagCorrections := []
    pruneCandidates := []
    refusals := refusals.dedup.insertionSort (· ≤ ·)
    remoteEvidence := evidence
    replacementCandidates := []
    prunedProtectionCorrections := [] }
  else {
    imports := planOrder (fun i => (i.profileId, i.backupId)) f.imports
    protectedFlagCorrections := planOrder (fun c => (c.profileId, c.backupId)) f.corrections
    pruneCandidates := planOrder (fun c => (c.profileId, c.backupId)) f.candidates
    refusals := []
    remoteEvidence := evidence
    replacementCandidates := planOrder (fun c => (c.profileId, c.backupId)) f.replacements
    prunedProtectionCorrections := planOrder (fun c => (c.profileId, c.backupId)) f.pruned }

/-- `build_fixed_plan`. -/
def buildFixedPlan {β : Type} [DecidableEq β] (R : Reader β) (w : World β) : Except Failure Plan :=
  (capture R w).map reconcile

end Horizon.Reconcile
