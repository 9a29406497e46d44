/-
**The reservation file: what is stored, when it is live, and the transactions on it.**

`slot.py` keeps one reservation in one JSON file.  This module embeds the record, its encoding and
decoding, the liveness test and the body of every `ReservationStore` method that runs while
`operation.lock` is held.  Each such body is a function from the entry at `reservation_path` to the
method's outcome and the entry it leaves, so that a schedule of critical sections is a composition
of these functions; `Horizon/ReservationRuns.lean` composes them.

Instants and durations are counted in nanoseconds, the resolution of the clock `time.time` reads.
A `float` that is not finite is `none`.

Main results:

* `reservationFromJson_payload` — **the file round trip**: what is written is read back
  exactly when it passes the reader's own checks, and is read as no reservation otherwise.
-/

import Mathlib.Tactic

namespace Horizon

open Option

/-! ### Profiles and operation kinds -/

/-- `models.ProfileId`. -/
inductive ProfileId
  | minecraft
  | minecraftSunlitCobblemon
  | pzRising
  | terrariaVanilla
  | terrariaTmod
  | terrariaTmod145Candidate
  deriving DecidableEq

namespace ProfileId

def value : ProfileId → String
  | minecraft => "minecraft"
  | minecraftSunlitCobblemon => "minecraft-sunlit-cobblemon"
  | pzRising => "pz-rising"
  | terrariaVanilla => "terraria-vanilla"
  | terrariaTmod => "terraria-tmod"
  | terrariaTmod145Candidate => "terraria-tmod-145-candidate"

/-- The members, in the order of the source. -/
def members : List ProfileId :=
  [minecraft, minecraftSunlitCobblemon, pzRising, terrariaVanilla, terrariaTmod,
    terrariaTmod145Candidate]

/-- `slot._profile` on a string: the member with that value. -/
def ofValue (s : String) : Option ProfileId := members.find? fun p => p.value = s

@[simp] theorem ofValue_value (p : ProfileId) : ofValue p.value = some p := by
  cases p <;> decide

end ProfileId

/-- `Reservation.operation_kind`. -/
inductive OperationKind
  | lifecycle
  | update
  deriving DecidableEq

namespace OperationKind

def value : OperationKind → String
  | lifecycle => "lifecycle"
  | update => "update"

/-- Membership in the set of the two kinds. -/
def ofValue (s : String) : Option OperationKind :=
  if s = "lifecycle" then some lifecycle else if s = "update" then some update else none

@[simp] theorem ofValue_value (k : OperationKind) : ofValue k.value = some k := by
  cases k <;> decide

end OperationKind

/-! ### The record -/

/-- `MAX_RESERVATION_TTL`, thirty seconds. -/
def maxReservationTtl : ℤ := 30000000000

/-- `slot.Reservation`.  `expiresAt` is a `float`; `none` is one that is not finite. -/
structure Reservation where
  profileId : ProfileId
  operationId : String
  stateGeneration : ℤ
  controllerPid : ℤ
  controllerStartTicks : ℤ
  expiresAt : Option ℤ
  operationKind : OperationKind
  capabilitySha256 : Option String
  deriving DecidableEq

/-- The five fields the ownership tests compare. -/
structure LeaseKey where
  profileId : ProfileId
  operationId : String
  stateGeneration : ℤ
  controllerPid : ℤ
  controllerStartTicks : ℤ
  deriving DecidableEq

/-- The identity under which a reservation is stored. -/
def Reservation.key (r : Reservation) : LeaseKey :=
  ⟨r.profileId, r.operationId, r.stateGeneration, r.controllerPid, r.controllerStartTicks⟩

/-! ### The file's content -/

/-- A JSON value as far as the readers tell them apart.  `other` is a list or an object. -/
inductive JsonValue
  | null
  | bool (b : Bool)
  | int (n : ℤ)
  | float (x : Option ℤ)
  | str (s : String)
  | other
  deriving DecidableEq

/-- A JSON object: its members, in some order. -/
abbrev JsonDict := List (String × JsonValue)

/-- The integers that `float` converts without an `OverflowError`. -/
def floatRange : ℤ := 2 ^ 1024 - 2 ^ 970

namespace JsonValue

def str? : JsonValue → Option String
  | str s => some s
  | _ => none

/-- A value that is an `int` and not a `bool`. -/
def int? : JsonValue → Option ℤ
  | int n => some n
  | _ => none

/-- A value that is an `int` or a `float`, converted by `float`; `none` when it is no number, is
not finite or does not fit. -/
def finite? : JsonValue → Option ℤ
  | int n => if -floatRange < n ∧ n < floatRange then some (n * 1000000000) else none
  | float x => x
  | _ => none

end JsonValue

variable (raw : JsonDict) (key : String) (kind : OperationKind) (s : String)

/-- The member `key`, if it is a string. -/
def strAt : Option String := (raw.lookup key).bind JsonValue.str?

/-- The member `key`, if it is an `int`. -/
def intAt : Option ℤ := (raw.lookup key).bind JsonValue.int?

/-- The member `key`, if it is a finite number. -/
def finiteAt : Option ℤ := (raw.lookup key).bind JsonValue.finite?

/-- Every character is a lower-case hexadecimal digit, and there are 64 of them. -/
def isHexDigest : Bool := s.length = 64 && s.toList.all fun c => c ∈ "0123456789abcdef".toList

/-- The check of `capability_sha256`: absent or null, or a digest under an update kind. -/
def capabilityFromJson : Option JsonValue → Option (Option String)
  | none => some none
  | some .null => some none
  | some (.str s) => if kind = .update ∧ isHexDigest s then some (some s) else none
  | some _ => none

/-- The check of `operation_kind`, with its default. -/
def kindFromJson : Option JsonValue → Option OperationKind
  | none => some .lifecycle
  | some v => v.str?.bind OperationKind.ofValue

/-- `slot._reservation_from_json`. -/
def reservationFromJson (raw : Option JsonDict) : Option Reservation := do
  let raw ← raw
  let profileId ← (strAt raw "profile_id").bind ProfileId.ofValue
  let operationId ← strAt raw "operation_id"
  let generation ← intAt raw "state_generation"
  let pid ← intAt raw "controller_pid"
  let ticks ← intAt raw "controller_start_ticks"
  let expiry ← finiteAt raw "expires_at"
  let operationKind ← kindFromJson (raw.lookup "operation_kind")
  let capability ← capabilityFromJson operationKind (raw.lookup "capability_sha256")
  if operationId ≠ "" ∧ 0 ≤ generation ∧ 0 < pid ∧ 0 ≤ ticks then
    some ⟨profileId, operationId, generation, pid, ticks, some expiry, operationKind, capability⟩
  else none

/-- `slot._reservation_payload`. -/
def reservationPayload (r : Reservation) : JsonDict :=
  [("profile_id", .str r.profileId.value),
   ("operation_id", .str r.operationId),
   ("state_generation", .int r.stateGeneration),
   ("controller_pid", .int r.controllerPid),
   ("controller_start_ticks", .int r.controllerStartTicks),
   ("expires_at", .float r.expiresAt),
   ("operation_kind", .str r.operationKind.value)] ++
  (match r.capabilitySha256 with
   | some digest => [("capability_sha256", .str digest)]
   | none => [])

/-- What the reader demands of a record it returns. -/
def Reservation.Readable (r : Reservation) : Prop :=
  r.operationId ≠ "" ∧ 0 ≤ r.stateGeneration ∧ 0 < r.controllerPid ∧
    0 ≤ r.controllerStartTicks ∧ r.expiresAt.isSome ∧
    ∀ digest ∈ r.capabilitySha256, r.operationKind = .update ∧ isHexDigest digest

instance (r : Reservation) : Decidable r.Readable := by
  unfold Reservation.Readable; infer_instance

section Payload

variable (r : Reservation)

theorem profileId_payload :
    strAt (reservationPayload r) "profile_id" = some r.profileId.value := rfl

theorem operationId_payload :
    strAt (reservationPayload r) "operation_id" = some r.operationId := rfl

theorem stateGeneration_payload :
    intAt (reservationPayload r) "state_generation" = some r.stateGeneration := rfl

theorem controllerPid_payload :
    intAt (reservationPayload r) "controller_pid" = some r.controllerPid := rfl

theorem controllerStartTicks_payload :
    intAt (reservationPayload r) "controller_start_ticks" = some r.controllerStartTicks := rfl

theorem expiresAt_payload : finiteAt (reservationPayload r) "expires_at" = r.expiresAt := rfl

theorem operationKind_payload :
    (reservationPayload r).lookup "operation_kind" = some (.str r.operationKind.value) := rfl

theorem capabilitySha256_payload :
    (reservationPayload r).lookup "capability_sha256" = r.capabilitySha256.map .str := by
  obtain ⟨p, op, g, pid, ticks, expires, kind, cap⟩ := r
  cases cap <;> rfl

end Payload

theorem capabilityFromJson_map (cap : Option String) :
    capabilityFromJson kind (cap.map .str) =
      if ∀ digest ∈ cap, kind = .update ∧ isHexDigest digest then some cap else none := by
  cases cap <;> simp [capabilityFromJson]

/-- **The file round trip.**  A written record is read back exactly when it passes the reader's
checks; otherwise the file reads as no reservation. -/
theorem reservationFromJson_payload (r : Reservation) :
    reservationFromJson (some (reservationPayload r)) = if r.Readable then some r else none := by
  unfold reservationFromJson
  rw [bind_eq_bind, bind_some, profileId_payload, operationId_payload,
    stateGeneration_payload, controllerPid_payload, controllerStartTicks_payload,
    expiresAt_payload, operationKind_payload, capabilitySha256_payload]
  simp only [bind_eq_bind, bind_some, kindFromJson, JsonValue.str?,
    ProfileId.ofValue_value, OperationKind.ofValue_value, capabilityFromJson_map]
  obtain ⟨p, op, g, pid, ticks, expires, kind, cap⟩ := r
  cases expires with
  | none => simp [Reservation.Readable]
  | some e =>
    by_cases hc : ∀ digest ∈ cap, kind = .update ∧ isHexDigest digest
    · simp only [bind_some, Reservation.Readable, isSome_some, eq_true hc,
        if_true, and_true]
    · simp only [bind_some, bind_none, Reservation.Readable, hc, and_false, if_false]

/-! ### The path and its readers -/

/-- The exceptions the store raises, with their messages. -/
inductive PyError
  | permissionError (message : String)
  | valueError (message : String)
  | blockingIOError (message : String)
  | other (message : String)
  deriving DecidableEq

/-- The part of `lstat` that admission looks at.  `mode` is `S_IMODE`; `resolves` is false for a
symbolic link that leads nowhere. -/
structure FileInfo where
  resolves : Bool
  symlink : Bool
  regular : Bool
  nlink : ℕ
  uid : ℕ
  mode : ℕ
  size : ℕ
  deriving DecidableEq

/-- The file-safety test of `_read_for_admission`. -/
def FileInfo.unsafeForAdmission (info : FileInfo) : Bool :=
  info.symlink || !info.regular || info.nlink ≠ 1 || info.uid ≠ 0 ||
    info.mode &&& 0o022 ≠ 0 || info.mode &&& 0o400 = 0 || info.size > 64 * 1024

/-- What is at `reservation_path`.  `raw` is what `_read_json` makes of a file: the decoded object,
or `none` when the bytes are no JSON object. -/
inductive Entry
  | absent
  | file (info : FileInfo) (raw : Option JsonDict)
  deriving DecidableEq

namespace Entry

/-- `ReservationStore.read`: a file that does not decode reads as no reservation. -/
def read : Entry → Option Reservation
  | absent => none
  | file _ raw => reservationFromJson raw

/-- `ReservationStore._read_for_admission`: corruption is not absence. -/
def readForAdmission : Entry → Except PyError (Option Reservation)
  | absent => .ok none
  | file info raw =>
    if info.unsafeForAdmission then .error (.valueError "reservation state is unsafe")
    else match reservationFromJson raw with
      | none => .error (.valueError "reservation state is malformed")
      | some r => .ok (some r)

/-- `Path.exists`. -/
def exists? : Entry → Bool
  | absent => false
  | file info _ => info.resolves

/-- The entry `_atomic_json` leaves: a private file of `root`, mode `0644`, with the payload. -/
def written (size : ℕ) (r : Reservation) : Entry :=
  .file ⟨true, false, true, 1, 0, 0o644, size⟩ (some (reservationPayload r))

theorem read_written (size : ℕ) (r : Reservation) :
    (written size r).read = if r.Readable then some r else none :=
  reservationFromJson_payload r

/-- Admission returns a reservation only if it is the one every reader sees. -/
theorem read_of_readForAdmission {e : Entry} {r : Option Reservation}
    (h : e.readForAdmission = .ok r) : e.read = r := by
  cases e with
  | absent => cases h; rfl
  | file info raw =>
    simp only [readForAdmission] at h
    split at h
    · cases h
    · split at h <;> cases h
      assumption

end Entry

theorem read_written_key {size : ℕ} {r r' : Reservation}
    (h : (Entry.written size r).read = some r') : r' = r := by
  rw [Entry.read_written] at h
  split at h
  · exact (some.inj h).symm
  · cases h

/-! ### Liveness -/

/-- `pid_start_ticks`: the start time of the process that has this pid now. -/
abbrev PidTable := ℤ → Option ℤ

variable (now : ℤ)

/-- `ReservationStore._live`. -/
def live (pidStartTicks : PidTable) (r : Reservation) : Bool :=
  match r.expiresAt with
  | none => false
  | some expires =>
    now < expires && expires ≤ now + maxReservationTtl &&
      pidStartTicks r.controllerPid = some r.controllerStartTicks

theorem live_iff {now : ℤ} {pids : PidTable} {r : Reservation} :
    live now pids r = true ↔ ∃ e, r.expiresAt = some e ∧ now < e ∧ e ≤ now + maxReservationTtl ∧
      pids r.controllerPid = some r.controllerStartTicks := by
  cases h : r.expiresAt <;> simp [live, h, and_assoc]

/-! ### Before the lock: argument checks -/

/-- The arguments of `reserve_if_available`, with what the process asks the system for. -/
structure ReserveRequest where
  euid : ℕ
  getpid : ℤ
  profile : String
  operationId : String
  ttl : Option ℤ
  stateGeneration : ℤ
  controllerPid : Option ℤ
  controllerStartTicks : Option ℤ
  operationKind : String
  capabilitySha256 : Option String

/-- A reservation that has passed the argument checks and waits for the lock. -/
structure Draft where
  profileId : ProfileId
  operationId : String
  ttl : ℤ
  stateGeneration : ℤ
  controllerPid : ℤ
  controllerStartTicks : ℤ
  operationKind : OperationKind
  capabilitySha256 : Option String
  deriving DecidableEq

/-- `slot._profile`. -/
def profileOf : Except PyError ProfileId :=
  match ProfileId.ofValue s with
  | some p => .ok p
  | none => .error (.valueError "invalid profile id")

variable (pidStartTicks : PidTable) (k : LeaseKey) (pids : PidTable) (e : Entry)

/-- The checks of `reserve_if_available` before `operation_transaction`. -/
def prepareReserve (q : ReserveRequest) : Except PyError Draft := do
  if q.euid ≠ 0 then throw (.permissionError "only root may create reservations")
  let profileId ← profileOf q.profile
  if q.operationId = "" then throw (.valueError "invalid operation id")
  let some ttl := q.ttl | throw (.valueError "invalid reservation ttl")
  if ¬ (0 < ttl ∧ ttl ≤ maxReservationTtl) then
    throw (.valueError "reservation ttl must be at most 30 seconds")
  if q.stateGeneration < 0 then throw (.valueError "invalid state generation")
  let some operationKind := OperationKind.ofValue q.operationKind
    | throw (.valueError "invalid operation kind")
  if ¬ ∀ digest ∈ q.capabilitySha256, operationKind = .update ∧ isHexDigest digest then
    throw (.valueError "invalid handoff capability")
  let pid := q.controllerPid.getD q.getpid
  let some ticks := q.controllerStartTicks.or (pidStartTicks pid)
    | throw (.valueError "controller process does not exist")
  return ⟨profileId, q.operationId, ttl, q.stateGeneration, pid, ticks, operationKind,
    q.capabilitySha256⟩

/-- The arguments that the owner-only methods share. -/
structure OwnerRequest where
  getpid : ℤ
  profile : String
  operationId : String
  stateGeneration : ℤ
  controllerPid : Option ℤ
  controllerStartTicks : Option ℤ

/-- `ReservationStore._expected_controller`. -/
def expectedController (q : OwnerRequest) : Except PyError (ℤ × ℤ) :=
  let pid := q.controllerPid.getD q.getpid
  match q.controllerStartTicks.or (pidStartTicks pid) with
  | some ticks =>
    if 0 < pid ∧ 0 ≤ ticks then .ok (pid, ticks)
    else .error (.valueError "controller identity cannot be proven")
  | none => .error (.valueError "controller identity cannot be proven")

/-- The identity an owner-only method looks for, fixed before it takes the lock. -/
def prepareOwner (q : OwnerRequest) : Except PyError LeaseKey := do
  let profileId ← profileOf q.profile
  let (pid, ticks) ← expectedController pidStartTicks q
  return ⟨profileId, q.operationId, q.stateGeneration, pid, ticks⟩

/-- `_capability_digest`, over the hash function of the standard library. -/
def capabilityDigest (sha256 : String → String) (token : String) : Except PyError String :=
  if isHexDigest token then .ok (sha256 token)
  else .error (.valueError "handoff capability is malformed")

/-! ### Under the lock: the transactions

Each takes the entry it finds and returns the outcome with the entry it leaves.  `now` is the clock
when the body tests liveness, `stamp` the clock when it computes the new expiry, and `size` the
length of the file that `_atomic_json` writes. -/

/-- What the two callbacks of `reserve_if_available` return inside the transaction; `none` when the
caller passes no callback. -/
structure Admission where
  availabilityCheck : Option (Except PyError Bool) := none
  generationProvider : Option (Except PyError ℤ) := none

/-- The outcome of `availability_check`. -/
def Admission.available (a : Admission) : Except PyError Unit :=
  match a.availabilityCheck with
  | none => .ok ()
  | some (.error e) => .error e
  | some (.ok true) => .ok ()
  | some (.ok false) => .error (.blockingIOError "reservation precondition is not satisfied")

/-- The generation that is stored: the caller's, or the provider's when it is a valid one. -/
def Admission.generation (a : Admission) (stateGeneration : ℤ) : Except PyError ℤ :=
  match a.generationProvider with
  | none => .ok stateGeneration
  | some (.error e) => .error e
  | some (.ok g) => if g < 0 then .error (.valueError "invalid state generation") else .ok g

def Draft.reservation (d : Draft) (stateGeneration stamp : ℤ) : Reservation :=
  ⟨d.profileId, d.operationId, stateGeneration, d.controllerPid, d.controllerStartTicks,
    some (stamp + d.ttl), d.operationKind, d.capabilitySha256⟩

/-- `reserve_if_available`, inside its transaction, up to the record it writes. -/
def admitDraft (now stamp : ℤ) (pids : PidTable) (a : Admission) (d : Draft) (e : Entry) :
    Except PyError Reservation := do
  let current ← e.readForAdmission
  if current.any (live now pids) then throw (.blockingIOError "reservation is already live")
  a.available
  let g ← a.generation d.stateGeneration
  return d.reservation g stamp

/-- `reserve_if_available`, inside its transaction. -/
def reserveIfAvailable (now stamp : ℤ) (pids : PidTable) (a : Admission) (size : ℕ) (d : Draft)
    (e : Entry) : Except PyError Reservation × Entry :=
  match admitDraft now stamp pids a d e with
  | .error err => (.error err, e)
  | .ok r => (.ok r, .written size r)

/-- The ownership test that `renew`, `transfer` and `release` share.  `kind` is the optional
`operation_kind` filter. -/
def owned (kind : Option OperationKind) (r : Reservation) : Bool :=
  r.key = k && kind.all (r.operationKind = ·)

/-- `release_if_owned`, inside its transaction: liveness is not asked for. -/
def releaseIfOwned (kind : Option OperationKind) (e : Entry) : Bool × Entry :=
  if e.read.any (owned k kind) then (true, .absent) else (false, e)

/-- `release_if_owned_locked`: the same body, run by a caller that already holds the lock. -/
def releaseIfOwnedLocked (kind : Option OperationKind) (e : Entry) : Bool × Entry :=
  releaseIfOwned k kind e

def Reservation.transferred (r : Reservation) (target : ProfileId) (targetOperationId : String)
    (expiresAt : Option ℤ) : Reservation :=
  { r with profileId := target, operationId := targetOperationId, expiresAt := expiresAt }

/-- `transfer_if_owned`, inside its transaction: neither liveness nor `ttl` is checked. -/
def transferIfOwned (stamp : ℤ) (k : LeaseKey) (target : ProfileId) (targetOperationId : String)
    (ttl : Option ℤ) (size : ℕ) (e : Entry) : Except PyError Reservation × Entry :=
  match e.read.filter (owned k none) with
  | none => (.error (.blockingIOError "reservation ownership changed"), e)
  | some r =>
    let renewed := r.transferred target targetOperationId (ttl.map (stamp + ·))
    (.ok renewed, .written size renewed)

/-- `renew_if_owned`, inside its transaction: the owned reservation must still be live. -/
def renewIfOwned (now stamp : ℤ) (pids : PidTable) (k : LeaseKey) (kind : Option OperationKind)
    (ttl : Option ℤ) (size : ℕ) (e : Entry) : Except PyError Reservation × Entry :=
  match e.read.filter fun r => owned k kind r && live now pids r with
  | none => (.error (.blockingIOError "reservation ownership changed"), e)
  | some r =>
    let renewed := { r with expiresAt := ttl.map (stamp + ·) }
    (.ok renewed, .written size renewed)

/-- `authorize_handoff`, inside its transaction: it only reads. -/
def authorizeHandoff (profileId : ProfileId) (kind : OperationKind) (expected : String)
    (e : Entry) : Except PyError Reservation := do
  let current ← e.readForAdmission
  match current.filter fun r => live now pids r && r.profileId = profileId &&
      r.operationKind = kind && r.capabilitySha256 = some expected with
  | some r => return r
  | none => throw (.blockingIOError "handoff capability does not match the live reservation")

/-- `owns_live_locked`: exact ownership of a live update reservation, read under the caller's
lock. -/
def ownsLiveLocked (k : LeaseKey) (e : Entry) : Bool :=
  e.read.any fun r => owned k (some .update) r && live now pids r

/-- The first, unlocked read of `reconcile`: does it go on to the transaction? -/
def reconcileProceeds : Bool := !e.read.any (live now pids)

/-- `reconcile`, inside its transaction. -/
def reconcileLocked : Bool × Entry :=
  if e.read.any (live now pids) then (false, e)
  else if e.exists? then (true, .absent) else (false, e)

end Horizon
