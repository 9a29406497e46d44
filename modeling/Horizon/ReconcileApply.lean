/-
**Applying a replacement plan.**

`apply_replacement_plan` checks the rows that the plan speaks of, takes the remote inventory,
uploads and verifies what is missing, takes the inventory again, deletes the objects to be pruned,
takes the inventory once more and then changes both tables in one transaction.  Uploads, deletions
and the transaction are effects; the process may be killed before any of them.

Main definitions:

* `Reconcile.Running`, `Reconcile.effect` — a process that is killed after some number of effects;
* `Reconcile.checkRows`, `Reconcile.fixedInventory` — what is checked;
* `Reconcile.applyCatalogTransitions` — the transaction;
* `Reconcile.applyReplacementPlan`.
-/

import Horizon.ReconcilePlan

namespace Horizon.Reconcile

open List
open Coroutine (Coro)
open ObjectStore (Store)
open Protection (Reader Row Protections Failure isGeneration profilePrefix remoteKey)

/-! ### A process that may be killed -/

inductive Stop
  | raised (e : Failure)
  | killed
  deriving DecidableEq

structure Running (β : Type) where
  world : World β
  /-- How many effects come before the process is killed; `none` when it is not. -/
  budget : Option ℕ
  /-- The worlds before each effect, the last one first. -/
  trail : List (World β)

abbrev Action (β : Type) : Type → Type := Coro (Running β) Stop

variable {β : Type} (w : World β) (R : Reader β) (item : ReplacementCandidate) (plan : Plan)

def effect (f : World β → World β) : Action β Unit := fun s =>
  match s.budget with
  | none => (.ok (), ⟨f s.world, none, s.world :: s.trail⟩)
  | some 0 => (.error .killed, s)
  | some (n + 1) => (.ok (), ⟨f s.world, some n, s.world :: s.trail⟩)

/-- What is computed from the world, or raised. -/
def consult {α : Type} (f : World β → Except Failure α) : Action β α := fun s =>
  match f s.world with
  | .ok a => (.ok a, s)
  | .error e => (.error (.raised e), s)

/-- `raise SafeError("backup_reconciliation_refused", message)` under a condition. -/
def refuseWhen (condition : Bool) (message : String) : Except Failure Unit :=
  if condition then .error (refused message) else .ok ()

/-! ### The rows -/

def replacementRowChanged : Bool :=
  ¬ (w.catalog.find item.backupId).any fun c => c.profileId = item.profileId ∧
    c.sizeBytes = item.sizeBytes ∧ c.verified ∧ c.isProtected

/-- The two tables joined on the generation. -/
def joined (profileId backupId : String) : Option (CatalogRow × Row) :=
  match w.catalog.find backupId, w.protections.find backupId with
  | some c, some r => if c.profileId = profileId then some (c, r) else none
  | _, _ => none

def prunedRowChanged (item : PrunedProtectionCorrection) : Bool :=
  ¬ (joined w item.profileId item.backupId).any fun row =>
    (row.1.isProtected → plan.protectedFlagCorrections.any fun c =>
      c.profileId = item.profileId ∧ c.backupId = item.backupId ∧ ¬ c.targetProtected) ∧
    row.1.verified ∧ row.2.remoteKey = item.remoteKey ∧ row.2.localSha256 = item.sha256 ∧
    verificationProven row.2

def pruneRowChanged (item : PruneCandidate) : Bool :=
  item.kind ≠ .orphan ∧ ¬ (joined w item.profileId item.backupId).any fun row =>
    row.1.isProtected ∧ row.1.verified ∧ row.1.sizeBytes = item.sizeBytes ∧
    row.2.remoteKey = item.remoteKey ∧ row.2.localSha256 = item.sha256 ∧ verificationProven row.2

/-- The checks of catalog and protection rows. -/
def checkRows (w : World β) : Except Failure Unit := do
  refuseWhen (plan.replacementCandidates.any (replacementRowChanged w))
    "replacement catalog row changed"
  refuseWhen (plan.prunedProtectionCorrections.any (prunedRowChanged w plan))
    "already-pruned protection changed"
  let pruneKeys := plan.pruneCandidates.map PruneCandidate.remoteKey
  refuseWhen (pruneKeys.any (· = "") ∨ ¬ pruneKeys.Nodup) "prune plan is not unique"
  refuseWhen (plan.pruneCandidates.any (pruneRowChanged w)) "prune protection changed"

/-! ### The remote inventory -/

def inventoryObject (profileId : String) (inventory : Store ℤ) (o : String × β) :
    Except Failure (Store ℤ) :=
  let backupId := remoteBackupId profileId o.1
  if ¬ isGeneration backupId ∨ o.1 ≠ remoteKey profileId backupId then
    .error (refused "remote inventory contains an invalid object")
  else if (R.size o.2 : ℤ) > maxStagedBytes then
    .error (refused "remote inventory size is invalid")
  else if (inventory.get o.1).isSome then
    .error (refused "remote inventory contains a duplicate")
  else .ok (inventory.put o.1 (R.size o.2))

/-- `_fixed_inventory`. -/
def fixedInventory (w : World β) : Except Failure (Store ℤ) :=
  retainedProfileIds.foldlM (fun inventory profileId =>
    (w.remote.under (profilePrefix profileId ++ "/")).foldlM (inventoryObject R profileId)
      inventory) .empty

/-- The dictionary with the given entries; the last entry of a key counts. -/
def dictionary (entries : List (String × ℤ)) (d : Store ℤ) : Store ℤ :=
  entries.foldl (fun d e => d.put e.1 e.2) d

def sameEntries (a b : Store ℤ) : Bool :=
  (a.objects.all fun o => b.get o.1 = some o.2) && b.objects.all fun o => a.get o.1 = some o.2

/-! ### Uploads and deletions -/

variable [DecidableEq β] (t : Protections) (p : Row → Bool)

/-- Upload one archive, unless it was in the inventory, and verify it. -/
def replace (R : Reader β) (before : Store ℤ) (item : ReplacementCandidate) : Action β Unit := do
  let source ← consult fun w =>
    match w.archives item.profileId item.backupId with
    | none => .error (refused "replacement archive is unavailable")
    | some b => .ok b
  consult fun _ => refuseWhen ((R.size source : ℤ) ≠ item.sizeBytes ∨ R.sha256 source ≠ item.sha256)
    "replacement archive changed"
  consult fun _ => validateArchiveManifest R source item.profileId item.backupId
  let key := remoteKey item.profileId item.backupId
  match before.get key with
  | none => effect fun w => { w with remote := w.remote.put key source }
  | some size => consult (fun _ =>
    refuseWhen (size ≠ item.sizeBytes) "replacement remote size changed")
  consult fun w => if w.remote.get key = some source then .ok () else
    .error (.safe "backup_protection_failed" "remote backup operation failed")

omit [DecidableEq β] in
/-- Delete one object that the inventory still has. -/
def pruneObject (after : Store ℤ) (item : PruneCandidate) : Action β Unit := do
  consult fun _ => refuseWhen ((after.get item.remoteKey).isNone) "prune candidate disappeared"
  consult fun _ => refuseWhen (after.get item.remoteKey ≠ some item.sizeBytes)
    "prune candidate changed"
  effect fun w => { w with remote := w.remote.delete item.remoteKey }

/-! ### The transaction -/

structure Tables where
  catalog : Catalog
  protections : Protections

/-- The row that is inserted for a proven object. -/
def importRow (item : ImportProtection) : Row where
  backupId := item.backupId
  profileId := item.profileId
  remoteKey := item.remoteKey
  localSha256 := item.sha256
  localVerified := true
  uploadState := .succeeded
  remoteVerified := true
  comparisonState := .verified
  pruneState := .notStarted
  errorCode := none

/-- `_insert_protection`; the row is new where `upsert` is reached. -/
def insertProtection (item : ImportProtection) : Except Failure Protections :=
  match t.find item.backupId with
  | some r =>
    if r.profileId = item.profileId ∧ r.remoteKey = item.remoteKey ∧
        r.localSha256 = item.sha256 ∧ verificationProven r then .ok t
    else .error (refused "existing protection row differs from proven evidence")
  | none =>
    match t.upsert (importRow item) with
    | some t' => .ok t'
    | none => .error .other

/-- One correction of a flag; the update changes the row that the transaction has just read. -/
def correctFlag (t : Catalog) (item : ProtectedFlagCorrection) : Except Failure Catalog :=
  match (t.find item.backupId).filter fun c => c.profileId = item.profileId with
  | none => .error (refused "catalog row changed before protected-flag correction")
  | some c =>
    if c.isProtected = item.targetProtected then .ok t
    else if ¬ c.verified then
      .error (refused "unverified catalog row cannot change protected state")
    else .ok (t.update (fun r => r.id = item.backupId)
      (fun r => { r with isProtected := item.targetProtected }) fun _ => rfl)

/-- `UPDATE … SET prune_state='deleted', error_code=NULL`, for rows that satisfy `p`. -/
def setDeleted : Protections where
  rows := t.rows.map fun r =>
    if p r then { r with pruneState := .deleted, errorCode := none } else r
  ids := by
    rw [map_map]
    refine (map_congr_left fun r _ => ?_ : _ = t.rows.map Row.backupId) ▸ t.ids
    simp only [Function.comp_apply]
    split
    · rfl
    · rfl
  keys := by
    rw [map_map]
    refine (map_congr_left fun r _ => ?_ : _ = t.rows.map Row.remoteKey) ▸ t.keys
    simp only [Function.comp_apply]
    split
    · rfl
    · rfl

/-- An update that has to change exactly one row. -/
def markDeleted (message : String) : Except Failure Protections :=
  if t.rows.countP p ≠ 1 then .error (refused message) else .ok (setDeleted t p)

def markPruned (item : PruneCandidate) : Except Failure Protections :=
  if item.kind = .orphan then .ok t
  else markDeleted t (fun r => r.backupId = item.backupId ∧ r.profileId = item.profileId ∧
    r.remoteKey = item.remoteKey) "prune protection changed before catalog commit"

def markAlreadyPruned (item : PrunedProtectionCorrection) : Except Failure Protections :=
  markDeleted t (fun r => r.backupId = item.backupId ∧ r.profileId = item.profileId ∧
    r.remoteKey = item.remoteKey ∧ r.localSha256 = item.sha256 ∧ verificationProven r)
    "already-pruned protection changed before catalog commit"

def ReplacementCandidate.asImport : ImportProtection :=
  ⟨item.profileId, item.backupId, item.sizeBytes, item.sha256,
    remoteKey item.profileId item.backupId⟩

/-- `_apply_catalog_transitions`, with replacements and prunes. -/
def applyCatalogTransitions (t : Tables) (plan : Plan) : Except Failure Tables := do
  let protections ← plan.imports.foldlM insertProtection t.protections
  let catalog ← plan.protectedFlagCorrections.foldlM correctFlag t.catalog
  let protections ← (plan.replacementCandidates.map ReplacementCandidate.asImport).foldlM
    insertProtection protections
  let protections ← plan.pruneCandidates.foldlM markPruned protections
  let protections ← plan.prunedProtectionCorrections.foldlM markAlreadyPruned protections
  pure ⟨catalog, protections⟩

/-! ### `apply_replacement_plan` -/

def applyReplacementPlan (R : Reader β) (plan : Plan) : Action β Unit := do
  consult fun _ => refuseWhen (¬ plan.ready) "backup reconciliation was refused"
  consult (checkRows plan)
  let before ← consult (fixedInventory R)
  let expectedBefore := dictionary ((plan.remoteEvidence.filter (·.remoteKey ≠ "")).map fun r =>
    (r.remoteKey, r.sizeBytes)) .empty
  consult fun _ => refuseWhen (¬ sameEntries before expectedBefore)
    "remote inventory changed before replacement"
  plan.replacementCandidates.forM (replace R before)
  let after ← consult (fixedInventory R)
  let expectedAfter := dictionary (plan.replacementCandidates.map fun item =>
    (remoteKey item.profileId item.backupId, item.sizeBytes)) expectedBefore
  consult fun _ => refuseWhen (¬ sameEntries after expectedAfter)
    "remote inventory changed after replacement"
  plan.pruneCandidates.forM (pruneObject after)
  let left ← consult (fixedInventory R)
  let expectedLeft := plan.pruneCandidates.foldl (fun d item => d.delete item.remoteKey) after
  consult fun _ => refuseWhen (¬ sameEntries left expectedLeft) "remote prune could not be verified"
  let tables ← consult fun w => applyCatalogTransitions ⟨w.catalog, w.protections⟩ plan
  effect fun w => { w with catalog := tables.catalog, protections := tables.protections }

end Horizon.Reconcile
