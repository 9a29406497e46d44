/-
**Retirement: manifests, the ledger, and what a payload is checked for.**

A retirement operation is named by the digest of its manifest.  The manifest lists the local
payloads to retire, each with its identity, and a receipt for a verified copy of every one of them.
The ledger has one row for each operation and backup; `ledger_write` refuses a row whose identity is
another one, a transition that is not in the table, and a first row for a payload that another
operation has not given back.

Paths are lists of segments below the backup root of a profile: the archive `{id}.tar.zst`, and for
each operation the quarantine path `.retired/{operation}/{id}.tar.zst`.

Main results:

* `exec_ledgerWrite` — **a ledger write is committed or has not happened**.
-/

import Horizon.Filesystem
import Horizon.StateDb

namespace Horizon.Retirement

open List
open Sqlite (Table Prog Conn Schedule)

/-! ### The two tables of states -/

inductive PayloadState
  | prepared
  | quarantined
  | purgePrepared
  | purged
  | rolledBack
  | failed
  | ambiguous
  deriving DecidableEq

namespace PayloadState

def value : PayloadState → String
  | prepared => "prepared"
  | quarantined => "quarantined"
  | purgePrepared => "purge_prepared"
  | purged => "purged"
  | rolledBack => "rolled_back"
  | failed => "failed"
  | ambiguous => "ambiguous"

/-- `BLOCKING_STATES`: the payload is not available for a local restore. -/
def blockingStates : List PayloadState :=
  [prepared, quarantined, purgePrepared, purged, failed, ambiguous]

/-- `_TRANSITIONS`. -/
def transitions : PayloadState → List PayloadState
  | prepared => [prepared, quarantined, failed]
  | quarantined => [quarantined, purgePrepared, rolledBack, failed]
  | purgePrepared => [purgePrepared, purged, failed]
  | purged => [purged]
  | rolledBack => [rolledBack, prepared, failed]
  | failed => [failed, prepared]
  | ambiguous => [ambiguous, prepared]

/-- The payload may be removed, or has been. -/
def purgeIntent : PayloadState → Bool
  | purgePrepared | purged => true
  | _ => false

/-- The table gives up the intent to purge only for `failed`. -/
theorem purgeIntent_of_transition {s t : PayloadState} (h : t ∈ s.transitions)
    (hs : s.purgeIntent = true) (ht : t ≠ failed) : t.purgeIntent = true := by
  cases s <;> simp [purgeIntent] at hs <;> revert h ht <;> cases t <;> decide

end PayloadState

/-- `RETIREMENT_PHASES`. -/
inductive Phase
  | quarantine
  | purge
  | rollback
  deriving DecidableEq

def Phase.value : Phase → String
  | quarantine => "quarantine"
  | purge => "purge"
  | rollback => "rollback"

/-- `_PHASE_RESUMABLE`. -/
def Phase.resumable : Phase → List PayloadState
  | quarantine => [.prepared, .quarantined, .rolledBack]
  | purge => [.quarantined, .purgePrepared, .purged]
  | rollback => [.prepared, .quarantined, .rolledBack]

/-! ### Manifests -/

abbrev BackupId := String

/-- The SHA-256 of a manifest, in hexadecimal. -/
abbrev OperationId := String

abbrev SafeError := RpcError

/-- `SafeError("retirement_failed", message)`. -/
def retirementFailed (message : String) (retryable : Bool := false) : SafeError :=
  ⟨.retirementFailed, message, retryable, none⟩

/-- `_reject`. -/
def rejectWhen (condition : Bool) (message : String) : Except SafeError Unit :=
  if condition then .error (retirementFailed message) else .ok ()

theorem rejectWhen_bind {α : Type} {condition : Bool} {message : String} {a : α}
    {k : Unit → Except SafeError α} (h : (rejectWhen condition message >>= k) = .ok a) :
    condition = false ∧ k () = .ok a := by
  cases condition with
  | false => exact ⟨rfl, h⟩
  | true => cases h

theorem rejectWhen_ok {condition : Bool} {message : String} {u : Unit}
    (h : rejectWhen condition message = .ok u) : condition = false := by
  cases condition with
  | false => rfl
  | true => cases h

structure ManifestEntry where
  backupId : BackupId
  profileId : ProfileId
  device : ℕ
  inode : ℕ
  sizeBytes : ℕ
  mtimeNs : ℕ
  ctimeNs : ℕ
  sha256 : String
  deriving DecidableEq

structure RemoteMember where
  backupId : BackupId
  profileId : ProfileId
  sizeBytes : ℕ
  sha256 : String
  deriving DecidableEq

structure RemoteReceipt where
  destinationId : String
  verified : Bool
  verifiedAt : ℤ
  receiptSha256 : String
  members : List RemoteMember
  deriving DecidableEq

structure RetirementManifest where
  operationId : OperationId
  proposalSha256 : String
  entries : List ManifestEntry
  receipt : RemoteReceipt
  deriving DecidableEq

/-- `{key(a): a for a in l}.get(k)`: of two elements with one key the later one stays. -/
def lastBy {α κ : Type} [DecidableEq κ] (key : α → κ) (l : List α) (k : κ) : Option α :=
  l.reverse.find? fun a => key a = k

theorem lastBy_eq_some {α κ : Type} [DecidableEq κ] {key : α → κ} {l : List α} {k : κ} {a : α}
    (h : lastBy key l k = some a) : a ∈ l ∧ key a = k := by
  refine ⟨mem_reverse.mp (mem_of_find?_eq_some h), ?_⟩
  simpa using find?_some h

def sameSet (l l' : List BackupId) : Bool := l.all (· ∈ l') && l'.all (· ∈ l)

/-- `MAX_MANIFEST_ENTRIES`. -/
def maxManifestEntries : ℕ := 4096

/-- The receipt member of an entry, compared field by field. -/
def matchMember (profile size digest : String) (entry : ManifestEntry) :
    Option RemoteMember → Except SafeError Unit
  | none => .error (retirementFailed profile)
  | some member => do
    rejectWhen (member.profileId ≠ entry.profileId) profile
    rejectWhen (member.sizeBytes ≠ entry.sizeBytes) size
    rejectWhen (member.sha256 ≠ entry.sha256) digest

/-- `parse_manifest`, after the shape of the JSON text; `digest` is `receipt_digest`. -/
def parseManifest (digest : String → ℤ → List RemoteMember → String)
    (entries : List ManifestEntry) (receipt : RemoteReceipt) : Except SafeError Unit := do
  rejectWhen (entries.isEmpty || maxManifestEntries < entries.length)
    "retirement manifest entries are invalid"
  rejectWhen (¬ (entries.map (·.backupId)).Nodup) "retirement manifest has duplicate entries"
  rejectWhen (¬ (entries.map fun e => (e.profileId, e.backupId)).Nodup)
    "retirement manifest has duplicate profile entries"
  rejectWhen (!receipt.verified) "receipt is not verified"
  rejectWhen (¬ (receipt.members.map (·.backupId)).Nodup) "receipt has duplicate members"
  rejectWhen (!sameSet (receipt.members.map (·.backupId)) (entries.map (·.backupId)))
    "receipt membership does not match the plan"
  entries.forM fun entry =>
    matchMember "receipt profile does not match the plan" "receipt size does not match the plan"
      "receipt digest does not match the plan" entry
      (lastBy (·.backupId) receipt.members entry.backupId)
  rejectWhen (digest receipt.destinationId receipt.verifiedAt receipt.members ≠
    receipt.receiptSha256) "receipt digest does not bind its content"

/-! ### Paths -/

/-- A name in a path: `.retired`, `{operation}`, `{id}.tar.zst`, or another one. -/
inductive Segment
  | name (text : String)
  | retired
  | operation (id : OperationId)
  | payload (id : BackupId)
  deriving DecidableEq

abbrev Path := List Segment

/-- `_archive`. -/
def archivePath (root : Path) (id : BackupId) : Path := root ++ [.payload id]

/-- The payload below `_quarantine_root`. -/
def quarantinePath (root : Path) (operationId : OperationId) (id : BackupId) : Path :=
  root ++ [.retired, .operation operationId, .payload id]

/-! ### Payload files -/

/-- What `lstat` and the digest say about the file at a path. -/
structure PayloadFile where
  regular : Bool
  links : ℕ
  device : ℕ
  inode : ℕ
  sizeBytes : ℕ
  mtimeNs : ℕ
  ctimeNs : ℕ
  sha256 : String
  deriving DecidableEq

abbrev PayloadFiles := Filesystem.Files Path PayloadFile

def PayloadFile.moved (now : ℕ) (f : PayloadFile) : PayloadFile := { f with ctimeNs := now }

/-- The identity of the manifest, without the change time. -/
def PayloadFile.HasIdentity (e : ManifestEntry) (f : PayloadFile) : Prop :=
  f.device = e.device ∧ f.inode = e.inode ∧ f.sizeBytes = e.sizeBytes ∧ f.mtimeNs = e.mtimeNs ∧
    f.sha256 = e.sha256

instance (e : ManifestEntry) (f : PayloadFile) : Decidable (f.HasIdentity e) :=
  inferInstanceAs (Decidable (_ ∧ _))

@[simp] theorem PayloadFile.hasIdentity_moved (e : ManifestEntry) (now : ℕ) (f : PayloadFile) :
    (f.moved now).HasIdentity e ↔ f.HasIdentity e := Iff.rfl

/-- `_verify_payload` on what is found at the path. -/
def verifyPayload (entry : ManifestEntry) (checkCtime : Bool) :
    Option PayloadFile → Except SafeError Unit
  | none => .error (retirementFailed "backup payload is unavailable")
  | some file => do
    rejectWhen (!file.regular) "backup payload is not a regular file"
    rejectWhen (file.links ≠ 1) "backup payload has multiple links"
    rejectWhen (file.device ≠ entry.device || file.inode ≠ entry.inode)
      "backup payload identity changed"
    rejectWhen (file.sizeBytes ≠ entry.sizeBytes || file.mtimeNs ≠ entry.mtimeNs)
      "backup payload metadata changed"
    rejectWhen (checkCtime && file.ctimeNs ≠ entry.ctimeNs) "backup payload metadata changed"
    rejectWhen (file.sha256 ≠ entry.sha256) "backup payload digest changed"

/-- A regular file with one link and the identity of the manifest. -/
structure PayloadFile.Intact (e : ManifestEntry) (f : PayloadFile) : Prop where
  regular : f.regular = true
  links : f.links = 1
  identity : f.HasIdentity e

theorem PayloadFile.Intact.moved {e : ManifestEntry} {f : PayloadFile} (h : f.Intact e) (now : ℕ) :
    (f.moved now).Intact e := ⟨h.regular, h.links, h.identity⟩

variable {entry : ManifestEntry}

theorem verifyPayload_ok {checkCtime : Bool} {found : Option PayloadFile} {u : Unit}
    (h : verifyPayload entry checkCtime found = .ok u) : ∃ f, found = some f ∧ f.Intact entry := by
  cases found with
  | none => cases h
  | some f =>
    obtain ⟨hregular, h⟩ := rejectWhen_bind h
    obtain ⟨hlinks, h⟩ := rejectWhen_bind h
    obtain ⟨hinode, h⟩ := rejectWhen_bind h
    obtain ⟨hmeta, h⟩ := rejectWhen_bind h
    obtain ⟨-, h⟩ := rejectWhen_bind h
    have hdigest := rejectWhen_ok h
    simp only [Bool.not_eq_false', Bool.or_eq_false_iff, decide_eq_false_iff_not, not_not] at *
    exact ⟨f, rfl, hregular, hlinks, hinode.1, hinode.2, hmeta.1, hmeta.2, hdigest⟩

/-- Without the change time, the check passes on every intact file. -/
theorem verifyPayload_intact {f : PayloadFile} (h : f.Intact entry) :
    verifyPayload entry false (some f) = .ok () := by
  obtain ⟨hdevice, hinode, hsize, hmtime, hdigest⟩ := h.identity
  simp [verifyPayload, rejectWhen, h.regular, h.links, hdevice, hinode, hsize, hmtime, hdigest]
  rfl

/-! ### The ledger -/

/-- A row of `backup_payload_retirement`. -/
structure LedgerRow where
  operationId : OperationId
  backupId : BackupId
  profileId : ProfileId
  state : PayloadState
  path : Segment
  quarantinePath : Path
  expectedDevice : ℕ
  expectedInode : ℕ
  expectedSize : ℕ
  expectedMtimeNs : ℕ
  expectedCtimeNs : ℕ
  expectedSha256 : String
  manifestSha256 : OperationId
  createdAt : ℕ
  updatedAt : ℕ
  errorCode : Option String
  deriving DecidableEq

def LedgerRow.key (r : LedgerRow) : OperationId × BackupId := (r.operationId, r.backupId)

abbrev Ledger := Table LedgerRow.key

/-- `_same_identity`, over `_IMMUTABLE_FIELDS`. -/
def LedgerRow.sameIdentity (existing row : LedgerRow) : Bool :=
  existing.profileId = row.profileId ∧ existing.path = row.path ∧
    existing.expectedDevice = row.expectedDevice ∧ existing.expectedInode = row.expectedInode ∧
    existing.expectedSize = row.expectedSize ∧ existing.expectedMtimeNs = row.expectedMtimeNs ∧
    existing.expectedCtimeNs = row.expectedCtimeNs ∧
    existing.expectedSha256 = row.expectedSha256 ∧ existing.manifestSha256 = row.manifestSha256

/-- The new values of a row that is there: its profile and its time of creation stay. -/
def LedgerRow.over (row existing : LedgerRow) : LedgerRow :=
  { row with
    operationId := existing.operationId, backupId := existing.backupId,
    profileId := existing.profileId, createdAt := existing.createdAt }

theorem LedgerRow.over_key (row existing : LedgerRow) :
    (row.over existing).key = existing.key := rfl

theorem LedgerRow.over_state (row existing : LedgerRow) :
    (row.over existing).state = row.state := rfl

namespace Ledger

variable (l : Ledger) (row : LedgerRow) (operationId : OperationId) (id : BackupId)

/-- The state of a payload under an operation. -/
def stateOf : Option PayloadState := (l.find (operationId, id)).map (·.state)

/-- `ledger_rows(connection, operation_id)`. -/
def rowsOf : List LedgerRow := l.rows.filter fun r => r.operationId = operationId

/-- Another operation has not given the payload back. -/
def heldByAnother : Bool :=
  l.rows.any fun r => r.backupId = row.backupId ∧ r.operationId ≠ row.operationId ∧
    r.state ∈ PayloadState.blockingStates

/-- `INSERT … ON CONFLICT(operation_id, backup_id) DO UPDATE`. -/
def upsert : Ledger :=
  match l.insert row with
  | some l' => l'
  | none => l.update (fun r => r.key = row.key) row.over row.over_key

variable {l row}

theorem stateOf_eq_some {operationId : OperationId} {id : BackupId} {state : PayloadState}
    (h : l.stateOf operationId id = some state) :
    ∃ r ∈ l.rowsOf operationId, r.backupId = id ∧ r.state = state := by
  obtain ⟨r, hfind, hstate⟩ := Option.map_eq_some_iff.mp h
  have hkey := Table.find_key hfind
  refine ⟨r, mem_filter.mpr ⟨Table.find_mem hfind, ?_⟩, congrArg Prod.snd hkey, hstate⟩
  exact decide_eq_true (congrArg Prod.fst hkey)

theorem stateOf_of_mem {operationId : OperationId} {r : LedgerRow} (h : r ∈ l.rowsOf operationId) :
    l.stateOf operationId r.backupId = some r.state := by
  obtain ⟨hmem, hop⟩ := mem_filter.mp h
  obtain rfl : r.operationId = operationId := by simpa using hop
  exact Option.map_eq_some_iff.mpr ⟨r, Table.find_of_mem hmem, rfl⟩

theorem stateOf_upsert :
    (l.upsert row).stateOf operationId id =
      if (operationId, id) = row.key then some row.state else l.stateOf operationId id := by
  unfold upsert stateOf
  cases hins : l.insert row with
  | some l' =>
    simp only [Table.find_insert hins]
    by_cases hk : (operationId, id) = row.key
    · simp [hk]
    · simp [hk, Ne.symm hk]
  | none =>
    by_cases hk : (operationId, id) = row.key
    · -- the insertion failed, so the key is taken
      obtain ⟨r, hr⟩ : ∃ r, l.find row.key = some r := by
        cases hfind : l.find row.key with
        | some r => exact ⟨r, rfl⟩
        | none =>
          obtain ⟨l', hl'⟩ := Table.insert_of_find hfind
          exact absurd (hins.symm.trans hl') (by simp)
      rw [Table.find_update, hk, hr, if_pos rfl, Option.map_some, Option.map_some,
        if_pos (decide_eq_true (Table.find_key hr)), LedgerRow.over_state]
    · rw [if_neg hk, Table.find_update_of_ne _ _ _ hk fun r hr => of_decide_eq_true hr]

end Ledger

/-- What `ledger_write` lets through. -/
def Ledger.Admits (l : Ledger) (row : LedgerRow) : Prop :=
  match l.find row.key with
  | some current => current.sameIdentity row = true ∧ row.state ∈ current.state.transitions
  | none => l.heldByAnother row = false

/-- The last two statements of `ledger_write`. -/
def upsertAndCommit (row : LedgerRow) : Prog Ledger SafeError Unit :=
  .write (fun l => some (l.upsert row, 1)) fun _ => .commit (.done ())

/-- `ledger_write`. -/
def ledgerWrite (row : LedgerRow) : Prog Ledger SafeError Unit :=
  .select fun l =>
    match l.find row.key with
    | some current =>
      if current.sameIdentity row then
        if row.state ∈ current.state.transitions then upsertAndCommit row
        else .raise (retirementFailed "ledger state transition is not permitted")
      else .raise (retirementFailed "ledger identity does not match the plan")
    | none =>
      .select fun l =>
        if l.heldByAnother row then
          .raise (retirementFailed "payload belongs to another active retirement operation")
        else upsertAndCommit row

/-- How a ledger write can end on a connection with no transaction open: the row is committed, or
nothing is. -/
def WriteEnds (l : Ledger) (row : LedgerRow) : Conn Ledger × Sqlite.Result SafeError Unit → Prop
  | (c, .value _) => c = .opened (l.upsert row) ∧ l.Admits row
  | (c, .raised _) => c.committed = l
  | (c, .sqliteError) => c.committed = l

theorem exec_upsertAndCommit {l : Ledger} {row : LedgerRow} (s : Schedule) (h : l.Admits row) :
    WriteEnds l row ((upsertAndCommit row).exec s (.opened l)) := by
  simp only [upsertAndCommit, Prog.exec, Conn.opened_working]
  cases h0 : s 0 with
  | some f => exact Conn.fail_committed _ f
  | none =>
    cases h1 : s 1 with
    | some f =>
      exact Conn.fail_committed _ f
    | none =>
      exact ⟨rfl, h⟩

/-- **A ledger write is committed or has not happened**, whatever statement of it raises. -/
theorem exec_ledgerWrite (l : Ledger) (row : LedgerRow) (s : Schedule) :
    WriteEnds l row ((ledgerWrite row).exec s (.opened l)) := by
  simp only [ledgerWrite, Prog.exec, Conn.opened_working]
  cases h0 : s 0 with
  | some f => exact Conn.fail_committed _ f
  | none =>
    cases hfind : l.find row.key with
    | some current =>
      by_cases hsame : current.sameIdentity row = true
      · by_cases hnext : row.state ∈ current.state.transitions
        · simp only [hsame, hnext, if_true]
          refine exec_upsertAndCommit _ ?_
          simp only [Ledger.Admits, hfind]
          exact ⟨hsame, hnext⟩
        · simp only [hsame, hnext, if_true, if_false]
          rfl
      · simp only [hsame]
        rfl
    | none =>
      simp only [Prog.exec, Conn.opened_working]
      cases h1 : s 1 with
      | some f =>
        exact Conn.fail_committed _ f
      | none =>
        by_cases hheld : l.heldByAnother row = true
        · simp only [hheld, if_true]
          rfl
        · simp only [hheld]
          refine exec_upsertAndCommit _ ?_
          simp only [Ledger.Admits, hfind]
          exact Bool.eq_false_iff.mpr hheld

theorem exec_ledgerWrite_noFault {l : Ledger} {row : LedgerRow} (h : l.Admits row) :
    (ledgerWrite row).exec Sqlite.noFault (.opened l) = (.opened (l.upsert row), .value ()) := by
  simp only [ledgerWrite, Prog.exec, Conn.opened_working, Sqlite.noFault]
  unfold Ledger.Admits at h
  cases hfind : l.find row.key with
  | some current =>
    rw [hfind] at h
    simp only [h.1, h.2, if_true]
    rfl
  | none =>
    rw [hfind] at h
    simp only [Prog.exec, Conn.opened_working, h]
    rfl

end Horizon.Retirement
