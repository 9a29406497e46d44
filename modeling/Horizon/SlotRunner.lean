/-
**The game slot: runners, inspectors, reservations and publication guards.**

`game-slot-run` shares `operation.lock`, checks the reservation, takes `slot.lock`, writes the slot
metadata, gives `operation.lock` back and becomes the game, which keeps `slot.lock` until it exits.
`SlotInspector.observe` tries `slot.lock` and, if it gets it, removes the metadata.  The store's
calls and the updater's `publication_guard` own `operation.lock`; the guard then demands a live
update reservation and an inactive service with no slot metadata before its body runs.

Each of these is a small program over two locks and two files.  A state says where every process is
in its program; an event is one step of one process.  A process may end at any place, and then its
locks are free.  Nothing is assumed about the clock: `tick` sets it to any value.

Main definitions:

* `runnerAdmitted`, `reservationStatus` — the check of a runner;
* `RunnerPlace`, `InspectorPlace`, `StorePlace`, `GuardPlace` — where a process is in its program;
* `SlotWorld`, `SlotEvent`, `slotStep` — the state and one event.
-/

import Horizon.Flock
import Horizon.ReservationRuns

namespace Horizon

open Option
open Function

/-! ### The runner's reservation check -/

/-- The fields the runner reads from the reservation file. -/
structure RunnerView where
  profileId : ProfileId
  controllerPid : ℤ
  controllerStartTicks : ℤ
  expiry : ℤ
  operationKind : OperationKind
  deriving DecidableEq

/-- The decoding inside `_reservation_status`.  The capability is not looked at. -/
def runnerView (raw : Option JsonDict) : Option RunnerView := do
  let raw ← raw
  let profileId ← (strAt raw "profile_id").bind ProfileId.ofValue
  let operationId ← strAt raw "operation_id"
  let generation ← intAt raw "state_generation"
  let pid ← intAt raw "controller_pid"
  let ticks ← intAt raw "controller_start_ticks"
  let expiry ← finiteAt raw "expires_at"
  let operationKind ← kindFromJson (raw.lookup "operation_kind")
  if operationId ≠ "" ∧ 0 ≤ generation ∧ 0 < pid ∧ 0 ≤ ticks then
    some ⟨profileId, pid, ticks, expiry, operationKind⟩
  else none

/-- `_secure_regular`. -/
def FileInfo.secureRegular (info : FileInfo) : Bool :=
  info.regular && info.uid = 0 && info.mode &&& 0o022 = 0

/-- `_reservation_status`: `none` when no live reservation is found. -/
def reservationStatus (now : ℤ) (pids : PidTable) (profile : ProfileId) : Entry → Option Bool
  | .absent => none
  | .file info raw =>
    if info.secureRegular then
      match runnerView raw with
      | none => none
      | some v =>
        if now < v.expiry ∧ v.expiry ≤ now + maxReservationTtl ∧
            pids v.controllerPid = some v.controllerStartTicks then
          some (v.profileId = profile && v.operationKind = .lifecycle)
        else none
    else none

/-- The runner goes on to `slot.lock`.  `required` is `_reservation_required()`. -/
def runnerAdmitted (required : Bool) (status : Option Bool) : Bool :=
  !(status = some false || (required && status ≠ some true))

theorem runnerView_of_reservationFromJson {raw : Option JsonDict} {r : Reservation}
    (h : reservationFromJson raw = some r) :
    ∃ e, r.expiresAt = some e ∧ runnerView raw =
      some ⟨r.profileId, r.controllerPid, r.controllerStartTicks, e, r.operationKind⟩ := by
  unfold reservationFromJson at h
  simp only [bind_eq_bind, bind_eq_some_iff, ite_none_right_eq_some,
    some.injEq] at h
  obtain ⟨d, rfl, p, ⟨v, hv, hp⟩, op, hop, g, hg, pid, hpid, t, ht, e, he, k, hk, c, -, hok,
    rfl⟩ := h
  refine ⟨e, rfl, ?_⟩
  unfold runnerView
  simp only [bind_eq_bind, bind_some, hv, hp, hop, hg, hpid, ht, he, hk, if_pos hok]

/-! ### Processes and their places -/

inductive Actor
  | runner (i : ℕ)
  | inspector (i : ℕ)
  | store (i : ℕ)
  | guard (i : ℕ)
  deriving DecidableEq

/-- What a runner's reservation check saw: the clock, the processes and the file. -/
structure Check where
  now : ℤ
  pids : PidTable
  entry : Entry

/-- Where a `game-slot-run` process is in `main`. -/
inductive RunnerPlace
  | idle
  /-- It shares `operation.lock`. -/
  | shared (profile : ProfileId) (required : Bool)
  /-- It passed the reservation check. -/
  | admitted (profile : ProfileId) (check : Check)
  /-- It holds `slot.lock` too. -/
  | slotted (profile : ProfileId)
  /-- It has written the metadata. -/
  | published (profile : ProfileId)
  /-- It gave `operation.lock` back and is, or is about to be, the game. -/
  | running (profile : ProfileId)

namespace RunnerPlace

/-- How `operation.lock` is held there. -/
def operation : RunnerPlace → Option Flock.Mode
  | shared _ _ | admitted _ _ | slotted _ | published _ => some .shared
  | _ => none

/-- How `slot.lock` is held there. -/
def slot : RunnerPlace → Option Flock.Mode
  | slotted _ | published _ | running _ => some .exclusive
  | _ => none

def metadataPassed : RunnerPlace → Bool
  | published _ | running _ => true
  | _ => false

end RunnerPlace

/-- Where a `SlotInspector.observe` call is: before its lock, holding `slot.lock`, or done with the
metadata. -/
inductive InspectorPlace
  | idle
  | holding
  | cleared
  deriving DecidableEq

/-- Where a call of the reservation store is. -/
inductive StorePlace
  | idle
  | waiting (call : Call)
  | locked (call : Call)
  | leaving

/-- Where a `publication_guard` is.  It carries the identity of the update lease. -/
inductive GuardPlace
  | idle
  | locked (k : LeaseKey)
  | owned (k : LeaseKey)
  | body (k : LeaseKey)

def GuardPlace.operation : GuardPlace → Option Flock.Mode
  | idle => none
  | _ => some .exclusive

def StorePlace.operation : StorePlace → Option Flock.Mode
  | locked _ | leaving => some .exclusive
  | _ => none

def InspectorPlace.slot : InspectorPlace → Option Flock.Mode
  | idle => none
  | _ => some .exclusive

/-- What `_inactive` reads besides the slot metadata: the unit's state as `systemctl` prints it and
the two queries; `readable` is false when one of the reads fails. -/
structure ServiceView where
  readable : Bool
  state : String
  activeSession : Bool
  activeJob : Bool

/-- `_inactive`; an unreadable observation raises, which ends the guard as `false` does. -/
def inactive (metadata : Option JsonDict) (v : ServiceView) : Bool :=
  v.readable && v.state = "inactive" && metadata.isNone && !v.activeSession && !v.activeJob

/-- The payload of `_metadata`. -/
def metadataPayload (pid : ℤ) (profile : ProfileId) (ticks : ℤ) : JsonDict :=
  [("pid", .int pid), ("profile_id", .str profile.value), ("proc_start_ticks", .int ticks)]

/-! ### The machine -/

/-- The clock, the processes, the two locks, the two files and everyone's place.  `named` are the
`(pid, start_ticks)` pairs that have named a process. -/
structure SlotWorld where
  clock : ℤ
  pids : PidTable
  named : List (ℤ × ℤ)
  operation : Flock.Lock Actor
  slot : Flock.Lock Actor
  entry : Entry
  metadata : Option JsonDict
  runners : ℕ → RunnerPlace
  inspectors : ℕ → InspectorPlace
  stores : ℕ → StorePlace
  guards : ℕ → GuardPlace

/-- One step of the machine or of one process. -/
inductive SlotEvent
  | tick (now : ℤ)
  | spawn (pid ticks : ℤ)
  | exit (pid : ℤ)
  | runnerShare (i : ℕ) (profile : ProfileId) (required : Bool)
  | runnerCheck (i : ℕ)
  | runnerSlot (i : ℕ)
  | runnerMetadata (i : ℕ) (pid ticks : ℤ)
  | runnerUnlock (i : ℕ)
  | runnerExit (i : ℕ)
  | inspectorTry (i : ℕ)
  | inspectorClear (i : ℕ)
  | inspectorExit (i : ℕ)
  | storeBegin (i : ℕ) (q : Request)
  | storeLock (i : ℕ)
  | storeCommit (i : ℕ) (x : Section)
  | storeExit (i : ℕ)
  | guardLock (i : ℕ) (k : LeaseKey)
  | guardOwned (i : ℕ)
  | guardInactive (i : ℕ) (v : ServiceView)
  | guardRelease (i : ℕ)
  | guardExit (i : ℕ)

namespace SlotWorld

variable (w : SlotWorld) (i : ℕ)

def setRunner (p : RunnerPlace) : SlotWorld := { w with runners := update w.runners i p }

def setInspector (p : InspectorPlace) : SlotWorld :=
  { w with inspectors := update w.inspectors i p }

def setStore (p : StorePlace) : SlotWorld := { w with stores := update w.stores i p }

def setGuard (p : GuardPlace) : SlotWorld := { w with guards := update w.guards i p }

/-- A process ends and its descriptions are closed. -/
def drop (a : Actor) : SlotWorld :=
  { w with operation := w.operation.unlock a, slot := w.slot.unlock a }

end SlotWorld

/-- The effect of one event; `none` when the event is not possible or would have to wait. -/
def slotStep (sha256 : String → String) (w : SlotWorld) : SlotEvent → Option SlotWorld
  | .tick now => some { w with clock := now }
  | .spawn pid ticks =>
    some { w with pids := update w.pids pid (some ticks),
                  named := (pid, ticks) :: w.named }
  | .exit pid => some { w with pids := update w.pids pid none }
  | .runnerShare i profile required =>
    match w.runners i, w.operation.lockShared (.runner i) with
    | .idle, some l => some ({ w with operation := l }.setRunner i (.shared profile required))
    | _, _ => none
  | .runnerCheck i =>
    match w.runners i with
    | .shared profile required =>
      if runnerAdmitted required (reservationStatus w.clock w.pids profile w.entry) then
        some (w.setRunner i (.admitted profile ⟨w.clock, w.pids, w.entry⟩))
      else some ((w.drop (.runner i)).setRunner i .idle)
    | _ => none
  | .runnerSlot i =>
    match w.runners i, w.slot.lockExclusive (.runner i) with
    | .admitted profile _, some l => some ({ w with slot := l }.setRunner i (.slotted profile))
    | _, _ => none
  | .runnerMetadata i pid ticks =>
    match w.runners i with
    | .slotted profile =>
      some ({ w with metadata := some (metadataPayload pid profile ticks) }.setRunner i
        (.published profile))
    | _ => none
  | .runnerUnlock i =>
    match w.runners i with
    | .published profile =>
      some ({ w with operation := w.operation.unlock (.runner i) }.setRunner i (.running profile))
    | _ => none
  | .runnerExit i => some ((w.drop (.runner i)).setRunner i .idle)
  | .inspectorTry i =>
    match w.inspectors i, w.slot.lockExclusive (.inspector i) with
    | .idle, some l => some ({ w with slot := l }.setInspector i .holding)
    | _, _ => none
  | .inspectorClear i =>
    match w.inspectors i with
    | .holding => some ({ w with metadata := none }.setInspector i .cleared)
    | _ => none
  | .inspectorExit i => some ((w.drop (.inspector i)).setInspector i .idle)
  | .storeBegin i q =>
    match w.stores i, prepare sha256 w.clock w.pids w.entry q with
    | .idle, .ok (some call) => some (w.setStore i (.waiting call))
    | _, _ => none
  | .storeLock i =>
    match w.stores i, w.operation.lockExclusive (.store i) with
    | .waiting call, some l => some ({ w with operation := l }.setStore i (.locked call))
    | _, _ => none
  | .storeCommit i x =>
    match w.stores i with
    | .locked call =>
      some ({ w with clock := x.stamp
                     entry := (perform w.clock w.pids x w.entry call).2 }.setStore i .leaving)
    | _ => none
  | .storeExit i => some ((w.drop (.store i)).setStore i .idle)
  | .guardLock i k =>
    match w.guards i, w.operation.lockExclusive (.guard i) with
    | .idle, some l => some ({ w with operation := l }.setGuard i (.locked k))
    | _, _ => none
  | .guardOwned i =>
    match w.guards i with
    | .locked k =>
      if ownsLiveLocked w.clock w.pids k w.entry then some (w.setGuard i (.owned k))
      else some ((w.drop (.guard i)).setGuard i .idle)
    | _ => none
  | .guardInactive i v =>
    match w.guards i with
    | .owned k =>
      if inactive w.metadata v then some (w.setGuard i (.body k))
      else some ((w.drop (.guard i)).setGuard i .idle)
    | _ => none
  | .guardRelease i =>
    match w.guards i with
    | .body k => some { w with entry := (releaseIfOwnedLocked k (some .update) w.entry).2 }
    | _ => none
  | .guardExit i => some ((w.drop (.guard i)).setGuard i .idle)

end Horizon
