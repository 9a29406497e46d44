/-
**Protection of backups at the remote destination.**

`B2ProtectionService.protect` uploads a locally verified archive, verifies the stored object,
deletes the oldest verified generations of the profile beyond the retention and records each stage
in `backup_protections`.  A statement and a transport call may fail, before or after it has taken
effect; what the service does then is part of the model.

The rows are those of the destination `horizon-b2` and the class `application`: `b2_prefix` refuses
every other class before anything is written.  A query returns the rows in the order in which they
were inserted.

Main definitions:

* `Protection.Reader` — what is read from the contents of an archive;
* `Protection.Row`, `Protection.Protections` — the table, with both of its constraints;
* `Protection.protect`, `Protection.prune` — the service.
-/

import Horizon.Coroutine
import Horizon.ObjectStore
import Mathlib.Data.String.Basic

namespace Horizon.Protection

open List
open Coroutine.Coro (get raise tryExcept)
open Coroutine (Coro)
open ObjectStore (Store)

/-! ### Names -/

/-- `re.fullmatch` for a sequence of character classes. -/
def fullmatch : List (Char → Bool) → List Char → Bool
  | [], [] => true
  | p :: ps, c :: cs => p c && fullmatch ps cs
  | _, _ => false

/-- `[0-9a-f]`. -/
def isHex (c : Char) : Bool := c.isDigit || ('a' ≤ c && c ≤ 'f')

/-- `SHA256_RE`. -/
def isSha256 (s : String) : Bool := fullmatch (replicate 64 isHex) s.toList

def generationPattern : List (Char → Bool) :=
  replicate 8 Char.isDigit ++ [(· == 'T')] ++ replicate 12 Char.isDigit ++
    [(· == 'Z'), (· == '-')] ++ replicate 12 isHex

/-- `GENERATION_RE`. -/
def isGeneration (s : String) : Bool := fullmatch generationPattern s.toList

/-- `_backup_generation`: the text before the first dash. -/
def backupGeneration (backupId : String) : String :=
  String.ofList (backupId.toList.takeWhile (· ≠ '-'))

inductive BackupClass
  | application
  | fullLxc
  deriving DecidableEq

/-- An exception: a `SafeError` or any other. -/
inductive Failure
  | safe (code message : String)
  | other
  deriving DecidableEq

/-- `_B2_PROFILES`. -/
def b2Profiles : List String := ["minecraft-sunlit-cobblemon", "terraria-vanilla", "terraria-tmod"]

def b2PrefixRoot : String := "helios/horizon/app"

def archiveSuffix : String := ".tar.zst"

def profilePrefix (profileId : String) : String := b2PrefixRoot ++ "/" ++ profileId

/-- The key of a generation of an approved profile. -/
def remoteKey (profileId backupId : String) : String :=
  profilePrefix profileId ++ "/" ++ backupId ++ archiveSuffix

/-- `b2_prefix`. -/
def b2Prefix (profileId : String) (backupClass : BackupClass) : Except Failure String :=
  if profileId ∉ b2Profiles ∨ backupClass ≠ .application then
    .error (.safe "invalid_backup_destination" "backup destination is not approved")
  else .ok (profilePrefix profileId)

/-- `key.startswith(prefix + "/")`, for the prefix of a profile. -/
def inPrefix (profileId key : String) : Bool :=
  (profilePrefix profileId ++ "/").toList.isPrefixOf key.toList

theorem inPrefix_remoteKey (profileId backupId : String) :
    inPrefix profileId (remoteKey profileId backupId) = true := by
  have hkey : (remoteKey profileId backupId).toList =
      (profilePrefix profileId ++ "/").toList ++ (backupId ++ archiveSuffix).toList := by
    rw [← String.toList_append, remoteKey, String.append_assoc]
  rw [inPrefix, hkey, isPrefixOf_iff_prefix]
  exact prefix_append _ _

/-! ### Archives -/

/-- The fields of a manifest that identify an archive. -/
structure Manifest where
  schema : ℤ
  profileId : String
  backupId : String
  deriving DecidableEq

/-- What is read from the contents of an archive. -/
structure Reader (β : Type) where
  size : β → ℕ
  sha256 : β → String
  /-- `_read_manifest`, or the text with which it refuses the archive. -/
  manifest : β → Except String Manifest
  sha256_hex : ∀ b, isSha256 (sha256 b) = true

/-! ### The table of protections -/

inductive UploadState
  | notStarted
  | pending
  | succeeded
  | failed
  deriving DecidableEq

inductive ComparisonState
  | notStarted
  | pending
  | verified
  | failed
  deriving DecidableEq

inductive PruneState
  | notStarted
  | pending
  | succeeded
  | failed
  | deleted
  deriving DecidableEq

/-- A row of `backup_protections`. -/
structure Row where
  backupId : String
  profileId : String
  remoteKey : String
  localSha256 : String
  localVerified : Bool
  uploadState : UploadState
  remoteVerified : Bool
  comparisonState : ComparisonState
  pruneState : PruneState
  errorCode : Option String
  deriving DecidableEq

/-- `remote_verified and comparison_state == "verified"`. -/
def Row.verified (r : Row) : Bool := r.remoteVerified && r.comparisonState == .verified

/-- The table: `backup_id` is the primary key for this destination and class, and `remote_key` is
unique. -/
structure Protections where
  rows : List Row
  ids : (rows.map Row.backupId).Nodup
  keys : (rows.map Row.remoteKey).Nodup

namespace Protections

variable (t : Protections)

def empty : Protections := ⟨[], nodup_nil, nodup_nil⟩

def find (backupId : String) : Option Row := t.rows.find? fun r => r.backupId = backupId

end Protections

variable (row : Row)

/-- The rows after `INSERT … ON CONFLICT … DO UPDATE`: a row that exists keeps its profile. -/
def upsertRows (rows : List Row) : List Row :=
  if row.backupId ∈ rows.map Row.backupId then
    rows.map fun old => if old.backupId = row.backupId then
      { row with profileId := old.profileId } else old
  else rows ++ [row]

/-- The rows after `UPDATE … SET prune_state=? WHERE backup_id=?`. -/
def markRows (backupId : String) (pruneState : PruneState) (rows : List Row) : List Row :=
  rows.map fun r => if r.backupId = backupId then { r with pruneState := pruneState } else r

theorem map_upsertRows_ids (rows : List Row) :
    (upsertRows row rows).map Row.backupId =
      if row.backupId ∈ rows.map Row.backupId then rows.map Row.backupId
      else rows.map Row.backupId ++ [row.backupId] := by
  rw [upsertRows]
  split
  · rw [map_map]
    refine map_congr_left fun old _ => ?_
    simp only [Function.comp_apply]
    split
    · rename_i h
      exact h.symm
    · rfl
  · simp

theorem nodup_upsertRows_ids {rows : List Row} (h : (rows.map Row.backupId).Nodup) :
    ((upsertRows row rows).map Row.backupId).Nodup := by
  rw [map_upsertRows_ids]
  split
  · exact h
  · rename_i hrow
    rw [nodup_append]
    refine ⟨h, by simp, ?_⟩
    intro a ha b hb hab
    rw [mem_singleton] at hb
    exact hrow (hb ▸ hab ▸ ha)

theorem map_markRows {γ : Type} (f : Row → γ) (hf : ∀ r p, f { r with pruneState := p } = f r)
    (backupId : String) (pruneState : PruneState) (rows : List Row) :
    (markRows backupId pruneState rows).map f = rows.map f := by
  rw [markRows, map_map]
  refine map_congr_left fun r _ => ?_
  simp only [Function.comp_apply]
  split
  · exact hf r pruneState
  · rfl

namespace Protections

variable (t : Protections)

/-- `INSERT … ON CONFLICT … DO UPDATE`; a key that another row holds violates the constraint. -/
def upsert (row : Row) : Option Protections :=
  if h : ((upsertRows row t.rows).map Row.remoteKey).Nodup then
    some ⟨upsertRows row t.rows, nodup_upsertRows_ids row t.ids, h⟩
  else none

/-- `UPDATE … SET prune_state=? WHERE backup_id=?`. -/
def mark (backupId : String) (pruneState : PruneState) : Protections :=
  ⟨markRows backupId pruneState t.rows,
    (map_markRows Row.backupId (fun _ _ => rfl) backupId pruneState t.rows).symm ▸ t.ids,
    (map_markRows Row.remoteKey (fun _ _ => rfl) backupId pruneState t.rows).symm ▸ t.keys⟩

end Protections

/-! ### The service -/

section Service

variable {β : Type} [DecidableEq β]

/-- A statement or a call of the transport fails before or after it takes effect, or not at all. -/
inductive Fault
  | none
  | before (e : Failure)
  | after (e : Failure)

structure Env (β : Type) where
  reader : Reader β
  /-- `availability`: whether the payload is present. -/
  availability : Option (String → Bool)
  /-- What happens at each statement and each call of the transport. -/
  faults : ℕ → Fault

structure State (β : Type) where
  table : Protections
  remote : Store β
  moment : ℕ

abbrev Action (β : Type) : Type → Type := Coro (State β) Failure

/-- The columns of a `BackupRecord` that the service reads, and the file at its path. -/
structure BackupRecord (β : Type) where
  id : String
  profileId : String
  verified : Bool
  file : Option β

variable (env : Env β) (profileId : String) (record : BackupRecord β) (file : β)

/-- One statement or one call of the transport. -/
def act (f : State β → State β) : Action β Unit := fun s =>
  match env.faults s.moment with
  | .none => (.ok (), { f s with moment := s.moment + 1 })
  | .before e => (.error e, { s with moment := s.moment + 1 })
  | .after e => (.error e, { f s with moment := s.moment + 1 })

def protectionFailed (message : String) : Failure := .safe "backup_protection_failed" message

def upload (key : String) : Action β Unit :=
  act env fun s => { s with remote := s.remote.put key file }

def verify (key : String) : Action β Unit := do
  act env id
  let s ← get
  if s.remote.get key = some file then pure ()
  else raise (protectionFailed "remote backup operation failed")

def list : Action β (List (String × β)) := do
  act env id
  let s ← get
  pure (s.remote.under (profilePrefix profileId ++ "/"))

def delete (key : String) : Action β Unit :=
  act env fun s => { s with remote := s.remote.delete key }

/-- The stages that `_save` writes. -/
structure Stage where
  uploadState : UploadState
  remoteVerified : Bool
  comparisonState : ComparisonState
  pruneState : PruneState
  errorCode : Option String

def stageRow (key digest : String) (stage : Stage) : Row where
  backupId := record.id
  profileId := record.profileId
  remoteKey := key
  localSha256 := digest
  localVerified := record.verified
  uploadState := stage.uploadState
  remoteVerified := stage.remoteVerified
  comparisonState := stage.comparisonState
  pruneState := stage.pruneState
  errorCode := stage.errorCode

/-- `_save`. -/
def save (row : Row) : Action β Row := do
  let s ← get
  match s.table.upsert row with
  | none => raise .other
  | some table =>
    act env fun s => { s with table := table }
    pure row

/-- `_save_by_protection`. -/
def saveByProtection (item : Row) (pruneState : PruneState) : Action β Unit :=
  act env fun s => { s with table := s.table.mark item.backupId pruneState }

/-- `_records`. -/
def records : Action β (List Row) := do
  act env id
  let s ← get
  pure (s.table.rows.filter fun r => r.profileId = profileId)

/-- `B2_DESTINATION.retention`. -/
def retention : ℕ := 2

/-- `a` does not come after `b` when the newest generation comes first. -/
def NewestFirst (a b : Row) : Prop := backupGeneration b.backupId ≤ backupGeneration a.backupId

instance : DecidableRel NewestFirst := fun a b =>
  inferInstanceAs (Decidable (backupGeneration b.backupId ≤ backupGeneration a.backupId))

/-- The rows that take part in the pruning of a profile, when `exact` are the stored keys. -/
def prunable (exact : List String) (rows : List Row) : List Row :=
  rows.filter fun r => r.verified ∧ r.remoteKey ∈ exact ∧ inPrefix profileId r.remoteKey

/-- `_prune`. -/
def prune (current : BackupRecord β) (key : String) : Action β Unit := do
  let objects ← list env current.profileId
  let exact := (objects.map Prod.fst).filter fun k => inPrefix current.profileId k
  let rows ← records env current.profileId
  let peers := prunable current.profileId exact rows
  if ¬ peers.any (fun r => r.remoteKey = key) then
    raise (protectionFailed "new remote generation is not verified")
  else
    ((peers.insertionSort NewestFirst).drop retention).forM fun item => do
      delete env item.remoteKey
      saveByProtection env item .deleted

/-- What every stage does with an exception: it is recorded, and an unexpected one is replaced. -/
def onFailure (row : Row) (message : String) : Failure → Action β Unit
  | .safe code text => do
    let _ ← save env row
    raise (.safe code text)
  | .other => do
    let _ ← save env row
    raise (protectionFailed message)

/-- The stages after the archive has been found verified. -/
def protectVerified (key : String) : Action β Row := do
  let row := stageRow record key (env.reader.sha256 file)
  let _ ← save env (row ⟨.pending, false, .pending, .notStarted, none⟩)
  tryExcept (upload env file key)
    (onFailure env (row ⟨.failed, false, .failed, .notStarted, some "upload_failed"⟩)
      "remote backup upload failed")
  let _ ← save env (row ⟨.succeeded, false, .pending, .notStarted, none⟩)
  tryExcept (verify env file key)
    (onFailure env (row ⟨.succeeded, false, .failed, .notStarted, some "remote_check_failed"⟩)
      "remote backup verification failed")
  let _ ← save env (row ⟨.succeeded, true, .verified, .pending, none⟩)
  tryExcept (prune env record key)
    (onFailure env (row ⟨.succeeded, true, .verified, .failed, some "prune_failed"⟩)
      "remote backup pruning failed")
  save env (row ⟨.succeeded, true, .verified, .succeeded, none⟩)

/-- `protect`. -/
def protect (backupClass : BackupClass) : Action β Row :=
  match b2Prefix record.profileId .application, b2Prefix record.profileId backupClass with
  | .error e, _ => raise e
  | _, .error e => raise e
  | .ok _, .ok _ =>
    let key := remoteKey record.profileId record.id
    -- admission precedes any read of the payload
    if env.availability.any (fun present => !present record.id) then
      raise (protectionFailed "local backup payload is not available")
    else
      match record.file with
      | none => raise .other
      | some file =>
        if record.verified then protectVerified env record file key
        else do
          let _ ← save env (stageRow record key (env.reader.sha256 file)
            ⟨.notStarted, false, .notStarted, .notStarted, some "local_unverified"⟩)
          raise (protectionFailed "local backup is not verified")

end Service

end Horizon.Protection
