/-
**Backup archives.**

`create` walks the roots of a stopped profile, stages every regular file that is not excluded and
packs the staged files with a manifest that says for each of them where it came from.  `restore`
validates an archive and unpacks it into staging directories.  There are two readers, one for a
Python that can read zstd itself and one that runs the decompressor, and two schemas, one for a
single root and one for several.

`tar` and `zstd` reproduce the names and the contents of the members, and JSON reproduces the
manifest.

Main definitions:

* `Backup.SourceTree`, `Backup.walkChildren`, `Backup.snapshot` — what is backed up;
* `Backup.create`, `Backup.verifyNative`, `Backup.verifyExternal` — packing;
* `Backup.validate`, `Backup.unpack` — reading, by both readers;
* `Backup.asArchive` — an archive as a restore finds it.
-/

import Horizon.PosixPath
import Horizon.RestoreService
import Mathlib.Data.List.Sort
import Mathlib.Data.String.Basic

namespace Horizon.Backup

open FileTree (Path Node)
open PosixPath (IsName render isAbsolute parts)
open Restore (Bytes Tree Service Descriptor Failure)

/-! ### Sources -/

structure File where
  bytes : Bytes
  uid : ℕ
  gid : ℕ
  deriving DecidableEq

inductive Leaf
  | regular (f : File)
  | symlink
  /-- A socket, a pipe or a device. -/
  | special
  deriving DecidableEq

structure SourceTree where
  children : List (String × Node Leaf)
  named : (Node.dir children).Named IsName

def SourceTree.node (t : SourceTree) : Node Leaf := .dir t.children

structure Profile where
  service : Service
  id : String
  mutableRoot : Path
  sha256 : Bytes → String
  /-- The owner of the files that the service writes itself. -/
  uid : ℕ
  gid : ℕ

/-- `name.endswith(".partial")`. -/
def isPartial (name : String) : Bool := ".partial".toList.isSuffixOf name.toList

mutual

/-- What `_walk` yields at and below one entry of a directory. -/
def walkEntry (name : String) : Node Leaf → List (Path × File)
  | .file (.regular f) => [([name], f)]
  | .file _ => []
  | .dir children => (walkChildren [] children).map fun e => (name :: e.1, e.2)

/-- `_walk`.  The order is of no importance, as the entries are sorted in the end. -/
def walkChildren (excludedTopLevel : List String) : List (String × Node Leaf) → List (Path × File)
  | [] => []
  | (name, n) :: rest =>
    if name ∈ excludedTopLevel ∨ isPartial name = true then walkChildren excludedTopLevel rest
    else walkEntry name n ++ walkChildren excludedTopLevel rest

end

section Sources

variable (p : Profile) (root : Path)

/-- The mutable root of the profile whose server makes backups of its own. -/
def Profile.isSunlit : Bool := p.id = "minecraft-sunlit-cobblemon" && root = p.mutableRoot

/-- `_SUNLIT_REDUNDANT_BACKUP_DIRS`. -/
def redundantBackupDirs : List String := ["backups"]

def isVersionedBackup (parts : Path) : Bool :=
  4 ≤ parts.length && parts[0]? = some ".versions" && parts[2]? = some "backups"

/-- `_walk_source`. -/
def walkSource (t : SourceTree) : List (Path × File) :=
  if p.isSunlit root then
    (walkChildren redundantBackupDirs t.children).filter fun e => !isVersionedBackup e.1
  else walkChildren [] t.children

end Sources

/-! ### Manifests -/

/-- An element of `entries`. -/
structure Entry where
  path : String
  rootId : String
  archivePath : String
  size : ℕ
  uid : ℕ
  gid : ℕ
  sha256 : String
  deriving DecidableEq

structure Manifest where
  profileId : String
  backupId : String
  /-- `roots` for schema 2; schema 1 has none. -/
  roots : Option (List Descriptor)
  entries : List Entry
  deriving DecidableEq

/-- The text of a manifest stands for what it says. -/
inductive Content
  | manifest (m : Manifest)
  | data (bytes : Bytes)
  deriving DecidableEq

inductive Kind
  | file
  | directory
  /-- A link, a device or a pipe. -/
  | link
  deriving DecidableEq

structure Member where
  name : String
  kind : Kind
  uid : ℕ
  gid : ℕ
  content : Content
  deriving DecidableEq

def Member.data (m : Member) : Option Bytes :=
  match m.content with
  | .manifest _ => none
  | .data bytes => some bytes

def manifestName : String := "manifest.json"

/-- An entry with the file that was staged for it. -/
structure Staged where
  entry : Entry
  bytes : Bytes
  deriving DecidableEq

def Staged.member (f : Staged) : Member :=
  ⟨f.entry.archivePath, .file, f.entry.uid, f.entry.gid, .data f.bytes⟩

section Snapshot

variable (p : Profile) (sources : Path → Option SourceTree) (root : Path)

def Profile.single : Bool := p.service.approved.length = 1

/-- One file of `_snapshot`. -/
def stage (e : Path × File) : Staged where
  entry :=
    { path := render e.1
      rootId := p.service.rootId root
      archivePath :=
        if p.single then "payload/" ++ render e.1
        else "payload/" ++ p.service.rootId root ++ "/" ++ render e.1
      size := e.2.bytes.length
      uid := e.2.uid
      gid := e.2.gid
      sha256 := p.sha256 e.2.bytes }
  bytes := e.2.bytes

def stageRoot : List Staged :=
  match sources root with
  | none => []
  | some t => ((walkSource p root t).filter fun e => !e.1.any isPartial).map (stage p root)

/-- `_snapshot`. -/
def snapshot : List Staged :=
  (p.service.approved.flatMap (stageRoot p sources)).insertionSort
    fun a b => a.entry.path ≤ b.entry.path

def descriptors : List Descriptor :=
  p.service.approved.map fun root => ⟨p.service.rootId root, p.service.identity root⟩

def manifest (backupId : String) (files : List Staged) : Manifest where
  profileId := p.id
  backupId := backupId
  roots := if p.single then none else some (descriptors p)
  entries := files.map (·.entry)

/-- What `tar` packs. -/
def pack (m : Manifest) (files : List Staged) : List Member :=
  ⟨manifestName, .file, p.uid, p.gid, .manifest m⟩ :: files.map Staged.member

end Snapshot

/-! ### Checks -/

def require (c : Prop) [Decidable c] (code message : String) : Except Failure Unit :=
  if c then .ok () else .error (.safe code message)

/-- `_bounded_id`. -/
def boundedId (value : ℕ) (code : String) : Except Failure Unit :=
  require (value ≤ 2 ^ 32 - 1) code "ownership metadata is invalid"

/-- `_entry_owner`. -/
def entryOwner (e : Entry) (code : String) : Except Failure Unit := do
  boundedId e.uid code
  boundedId e.gid code

/-- A relative path that does not lead upwards. -/
def SafePath (text : String) : Prop :=
  text ≠ "" ∧ Char.ofNat 0 ∉ text.toList ∧ isAbsolute text = false ∧
    ".." ∉ parts text

instance (text : String) : Decidable (SafePath text) := inferInstanceAs (Decidable (_ ∧ _))

/-- `_validate_member`. -/
def validateMember (m : Member) : Except Failure Unit := do
  require (SafePath m.name) "invalid_backup" "backup contains an unsafe path"
  require (m.kind ≠ .link) "invalid_backup" "backup contains an unsafe member"
  require (m.kind = .file ∨ m.name = manifestName) "invalid_backup"
    "backup contains an unsupported member"
  boundedId m.uid "invalid_backup"
  boundedId m.gid "invalid_backup"

/-- `{member.name: member for member in members}`, and `getmember`. -/
def memberNamed (members : List Member) (name : String) : Option Member :=
  members.reverse.find? (·.name = name)

/-- `{entry["archive_path"]: entry for entry in entries}`. -/
def entryNamed (entries : List Entry) (name : String) : Option Entry :=
  entries.reverse.find? (·.archivePath = name)

/-- The members are the manifest and the payload of every entry. -/
def SameNames (members : List Member) (entries : List Entry) : Prop :=
  (∀ m ∈ members, m.name ∈ manifestName :: entries.map (·.archivePath)) ∧
    ∀ name ∈ manifestName :: entries.map (·.archivePath), name ∈ members.map (·.name)

instance (members : List Member) (entries : List Entry) : Decidable (SameNames members entries) :=
  inferInstanceAs (Decidable (_ ∧ _))

section Verify

variable (p : Profile) (m : Manifest) (members : List Member)

/-- One entry in `_verify_archive`. -/
def verifyEntry (e : Entry) : Except Failure Unit :=
  match memberNamed members e.archivePath with
  | none => .error (.safe "backup_failed" "backup archive could not be verified")
  | some member => do
    require (member.kind = .file) "backup_failed" "backup contains an invalid member"
    entryOwner e "backup_failed"
    require (member.uid = e.uid ∧ member.gid = e.gid) "backup_failed"
      "backup ownership metadata changed"
    require (member.data.map p.sha256 = some e.sha256) "backup_failed"
      "backup checksum verification failed"

/-- `_verify_archive`. -/
def verifyNative : Except Failure Unit := do
  members.forM validateMember
  require (manifestName ∈ members.map (·.name)) "backup_failed" "backup manifest is missing"
  require (SameNames members m.entries) "backup_failed" "backup archive contents changed"
  m.entries.forM (verifyEntry p members)

def readStream (code : String) (check : Member → Except Failure Unit) :
    List Member → List String → Except Failure Unit
  | [], _ => .ok ()
  | member :: rest, seen => do
    require (seen.length < 1000000 ∧ member.name.length ≤ 4096) code "backup archive is too large"
    require (member.name ∉ seen) code "backup contains duplicate members"
    validateMember member
    check member
    readStream code check rest (member.name :: seen)

/-- One member in `_verify_zstd_stream`. -/
def verifyMember (member : Member) : Except Failure Unit :=
  if member.name = manifestName then .ok ()
  else
    match entryNamed m.entries member.name with
    | none => .error (.safe "backup_failed" "backup archive contents changed")
    | some e => do
      require (member.kind = .file ∧ member.data.map List.length = some e.size) "backup_failed"
        "backup archive contents changed"
      entryOwner e "backup_failed"
      require (member.uid = e.uid ∧ member.gid = e.gid) "backup_failed"
        "backup ownership metadata changed"
      require (member.data.map p.sha256 = some e.sha256) "backup_failed"
        "backup checksum verification failed"

/-- `_verify_zstd_stream`. -/
def verifyExternal : Except Failure Unit := do
  m.entries.forM (entryOwner · "backup_failed")
  readStream "backup_failed" (verifyMember p m) members []
  require (SameNames members m.entries) "backup_failed" "backup archive contents changed"

end Verify

inductive Reader
  | native
  | external
  deriving DecidableEq

/-- A new identifier, from the time and a random part. -/
def newBackupId (stamp token : String) : String := stamp ++ "-" ++ token

/-- `create`, up to the catalogue. -/
def create (p : Profile) (reader : Reader) (stamp token : String)
    (sources : Path → Option SourceTree) : Except Failure (List Member) :=
  let files := snapshot p sources
  let m := manifest p (newBackupId stamp token) files
  let members := pack p m files
  match reader with
  | .native => (verifyNative p m members).map fun _ => members
  | .external => (verifyExternal p m members).map fun _ => members

/-! ### Validation -/

section Validate

variable (p : Profile) (members : List Member) (m : Manifest) (e : Entry)

/-- The identifier of the root of an entry is one of the manifest. -/
def RootListed : Prop := ∀ listed ∈ m.roots, e.rootId ∈ listed.map (·.id)

instance (m : Manifest) (e : Entry) : Decidable (RootListed m e) :=
  inferInstanceAs (Decidable (∀ listed ∈ m.roots, e.rootId ∈ listed.map (·.id)))

/-- One entry in `_validate_archive`. -/
def validateEntry : Except Failure Unit :=
  match memberNamed members e.archivePath with
  | none => .error (.safe "invalid_backup" "backup manifest is invalid")
  | some member => do
    require (SafePath e.path) "invalid_backup" "backup manifest contains an unsafe path"
    require (RootListed m e) "invalid_backup" "backup root mapping is invalid"
    require (member.kind = .file) "invalid_backup" "backup contains an invalid member"
    entryOwner e "ownership_mismatch"
    require (e.archivePath ≠ manifestName ∧ member.uid = e.uid ∧ member.gid = e.gid)
      "ownership_mismatch" "backup ownership does not match profile"
    require (member.data.map List.length = some e.size) "checksum_mismatch"
      "backup size verification failed"
    require (member.data.map p.sha256 = some e.sha256) "checksum_mismatch"
      "backup checksum verification failed"

/-- One entry in `_validate_external`, which does not look for a NUL and for the manifest. -/
def validateEntryExternal : Except Failure Unit :=
  match memberNamed members e.archivePath with
  | none => .error (.safe "invalid_backup" "backup manifest contains an unsafe path")
  | some member => do
    require (e.path ≠ "" ∧ isAbsolute e.path = false ∧ ".." ∉ parts e.path)
      "invalid_backup" "backup manifest contains an unsafe path"
    require (RootListed m e) "invalid_backup" "backup root mapping is invalid"
    require (member.kind = .file) "invalid_backup" "backup contains an invalid member"
    entryOwner e "ownership_mismatch"
    require (member.uid = e.uid ∧ member.gid = e.gid)
      "ownership_mismatch" "backup ownership does not match profile"
    require (member.data.map List.length = some e.size) "checksum_mismatch"
      "backup size verification failed"
    require (member.data.map p.sha256 = some e.sha256) "checksum_mismatch"
      "backup checksum verification failed"

def readManifest : Except Failure Manifest :=
  match members.find? (·.name = manifestName) with
  | none => .error (.safe "invalid_backup" "backup manifest is missing")
  | some member =>
    match member.content with
    | .data _ => .error (.safe "invalid_backup" "backup manifest is invalid")
    | .manifest m =>
      if m.profileId = p.id then .ok m
      else .error (.safe "wrong_profile" "backup belongs to another profile")

def validateWhole : Except Failure Unit := do
  require ((m.entries.map (·.archivePath)).Nodup ∧ (∀ e ∈ m.entries, e.archivePath ≠ manifestName) ∧
    SameNames members m.entries) "invalid_backup" "backup manifest does not match archive"
  require (∀ e ∈ m.entries, RootListed m e) "invalid_backup" "backup root mapping is invalid"
  require (m.backupId ≠ "") "invalid_backup" "backup manifest is invalid"

/-- `_validate_archive`, or `_ExternalArchive` and `_validate_external`. -/
def validate : Reader → Except Failure Manifest
  | .native => do
    require (members.map (·.name)).Nodup "invalid_backup" "backup contains duplicate members"
    members.forM validateMember
    let m ← readManifest p members
    m.entries.forM (validateEntry p members m)
    validateWhole members m
    pure m
  | .external => do
    readStream "invalid_backup" (fun _ => .ok ()) members []
    require (members.map (·.name)).Nodup "invalid_backup" "backup contains duplicate members"
    let m ← readManifest p members
    m.entries.forM (validateEntryExternal p members m)
    validateWhole members m
    pure m

end Validate

/-! ### Extraction -/

section Unpack

variable (m : Manifest) (members : List Member) (stagings : String → Tree) (e : Entry)

/-- The key of the staging directory of an entry. -/
def stagingKey : String :=
  match m.roots with
  | none => "root-0"
  | some _ => e.rootId

/-- Where `_extract` and `_extract_multi` put an entry. -/
def relativePath : String :=
  if m.roots = none ∧ PosixPath.startsWith "0/" e.path = true then PosixPath.dropStart "0/" e.path
  else e.path

/-- One file is written into its staging directory. -/
def place (exclusive : Bool) (missing : Failure) (content : Option Bytes) (id relative : String)
    (stagings : String → Tree) : Except Failure (String → Tree) :=
  if isAbsolute relative = true then
    .error (.safe "invalid_backup" "backup path escapes destination")
  else
    match content with
    | none => .error missing
    | some bytes =>
      match (stagings id).addFile exclusive bytes (parts relative) with
      | none => .error .error
      | some t => .ok (Function.update stagings id t)

/-- One member in `_extract` or `_extract_multi`. -/
def unpackMember (member : Member) : Except Failure (String → Tree) :=
  if member.name = manifestName then .ok stagings
  else
    match entryNamed m.entries member.name with
    | none => .error .error
    | some e =>
      place true (.safe "restore_failed" "backup member could not be read") member.data
        (stagingKey m e) (relativePath m e) stagings

/-- One entry in `_extract_external`, which overwrites, or in `_extract_external_multi`. -/
def unpackEntry : Except Failure (String → Tree) :=
  place m.roots.isSome (.safe "invalid_backup" "backup member could not be read")
    ((members.find? (·.name = e.archivePath)).bind Member.data) (stagingKey m e) e.path stagings

/-- The staging directories after the extraction. -/
def unpack : Reader → Except Failure (String → Tree)
  | .native => members.foldlM (unpackMember m) fun _ => Node.empty
  | .external => m.entries.foldlM (unpackEntry m members) fun _ => Node.empty

end Unpack

def asArchive (p : Profile) (reader : Reader) (members : List Member) : Restore.Archive :=
  match validate p members reader with
  | .error e => ⟨"", some e, some [], none, fun _ => []⟩
  | .ok m =>
    match unpack m members reader with
    | .error e => ⟨m.backupId, none, m.roots, some e, fun _ => []⟩
    | .ok stagings => ⟨m.backupId, none, m.roots, none, fun id => (stagings id).children⟩

end Horizon.Backup
