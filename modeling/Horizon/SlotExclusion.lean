/-
**A publication and a running game exclude each other.**

The places of `Horizon/SlotRunner.lean` say which lock each process believes it holds; the locks
grant at least that (`LocksHeld`).  From it follow the two facts that carry the exclusion.  The
metadata of a runner past its metadata phase is present, because an inspector removes it only while
it holds `slot.lock` (`Fenced`).  And the reservation a runner was admitted by is still stored,
because every writer of it owns `operation.lock` (`Admitted`).

Main results:

* `slotStep_locksHeld`, `slotStep_fenced`, `slotStep_admitted` — the step lemmas.
-/

import Horizon.SlotRunner

namespace Horizon

open Function

/-! ### The locks grant what the places say -/

variable {p : RunnerPlace}

namespace SlotWorld

/-- How each process's place holds `operation.lock`. -/
def operationPlaces (w : SlotWorld) : Actor → Option Flock.Mode
  | .runner i => (w.runners i).operation
  | .inspector _ => none
  | .store i => (w.stores i).operation
  | .guard i => (w.guards i).operation

/-- How each process's place holds `slot.lock`. -/
def slotPlaces (w : SlotWorld) : Actor → Option Flock.Mode
  | .runner i => (w.runners i).slot
  | .inspector i => (w.inspectors i).slot
  | .store _ => none
  | .guard _ => none

structure LocksHeld (w : SlotWorld) : Prop where
  operation : w.operation.Covers w.operationPlaces
  slot : w.slot.Covers w.slotPlaces

section Places

variable (w : SlotWorld) (i : ℕ)

theorem operationPlaces_setRunner (p : RunnerPlace) :
    (w.setRunner i p).operationPlaces = update w.operationPlaces (.runner i) p.operation := by
  funext a
  cases a <;> simp [operationPlaces, setRunner, update_apply]
  split <;> rfl

theorem slotPlaces_setRunner (p : RunnerPlace) :
    (w.setRunner i p).slotPlaces = update w.slotPlaces (.runner i) p.slot := by
  funext a
  cases a <;> simp [slotPlaces, setRunner, update_apply]
  split <;> rfl

theorem operationPlaces_setInspector (p : InspectorPlace) :
    (w.setInspector i p).operationPlaces = w.operationPlaces := by
  funext a
  cases a <;> rfl

theorem slotPlaces_setInspector (p : InspectorPlace) :
    (w.setInspector i p).slotPlaces = update w.slotPlaces (.inspector i) p.slot := by
  funext a
  cases a <;> simp [slotPlaces, setInspector, update_apply]
  split <;> rfl

theorem operationPlaces_setStore (p : StorePlace) :
    (w.setStore i p).operationPlaces = update w.operationPlaces (.store i) p.operation := by
  funext a
  cases a <;> simp [operationPlaces, setStore, update_apply]
  split <;> rfl

theorem slotPlaces_setStore (p : StorePlace) : (w.setStore i p).slotPlaces = w.slotPlaces := by
  funext a
  cases a <;> rfl

theorem operationPlaces_setGuard (p : GuardPlace) :
    (w.setGuard i p).operationPlaces = update w.operationPlaces (.guard i) p.operation := by
  funext a
  cases a <;> simp [operationPlaces, setGuard, update_apply]
  split <;> rfl

theorem slotPlaces_setGuard (p : GuardPlace) : (w.setGuard i p).slotPlaces = w.slotPlaces := by
  funext a
  cases a <;> rfl

/-! A process that ends. -/

variable {w} (h : w.LocksHeld)

include h

theorem LocksHeld.dropRunner : ((w.drop (.runner i)).setRunner i .idle).LocksHeld := by
  constructor
  · rw [operationPlaces_setRunner]; exact h.operation.unlock _
  · rw [slotPlaces_setRunner]; exact h.slot.unlock _

theorem LocksHeld.dropInspector : ((w.drop (.inspector i)).setInspector i .idle).LocksHeld := by
  constructor
  · rw [operationPlaces_setInspector]
    exact h.operation.unlock_of_eq_none rfl
  · rw [slotPlaces_setInspector]; exact h.slot.unlock _

theorem LocksHeld.dropStore : ((w.drop (.store i)).setStore i .idle).LocksHeld := by
  constructor
  · rw [operationPlaces_setStore]; exact h.operation.unlock _
  · rw [slotPlaces_setStore]
    exact h.slot.unlock_of_eq_none rfl

theorem LocksHeld.dropGuard : ((w.drop (.guard i)).setGuard i .idle).LocksHeld := by
  constructor
  · rw [operationPlaces_setGuard]; exact h.operation.unlock _
  · rw [slotPlaces_setGuard]
    exact h.slot.unlock_of_eq_none rfl

end Places

/-! A process that moves on. -/

variable {w : SlotWorld} (h : w.LocksHeld) {i : ℕ}

include h

theorem LocksHeld.moveRunner (ho : p.operation = (w.runners i).operation ∨ p.operation = none)
    (hs : p.slot = (w.runners i).slot ∨ p.slot = none) : (w.setRunner i p).LocksHeld := by
  constructor
  · rw [operationPlaces_setRunner]; exact h.operation.keep ho
  · rw [slotPlaces_setRunner]; exact h.slot.keep hs

theorem LocksHeld.moveInspector {p : InspectorPlace} (hs : p.slot = (w.inspectors i).slot) :
    (w.setInspector i p).LocksHeld := by
  constructor
  · rw [operationPlaces_setInspector]; exact h.operation
  · rw [slotPlaces_setInspector]; exact h.slot.keep (.inl hs)

theorem LocksHeld.moveStore {p : StorePlace} (ho : p.operation = (w.stores i).operation) :
    (w.setStore i p).LocksHeld := by
  constructor
  · rw [operationPlaces_setStore]; exact h.operation.keep (.inl ho)
  · rw [slotPlaces_setStore]; exact h.slot

theorem LocksHeld.moveGuard {p : GuardPlace} (ho : p.operation = (w.guards i).operation) :
    (w.setGuard i p).LocksHeld := by
  constructor
  · rw [operationPlaces_setGuard]; exact h.operation.keep (.inl ho)
  · rw [slotPlaces_setGuard]; exact h.slot

end SlotWorld

/-! ### What a step can do -/

/-- The successful steps, one constructor for each outcome of each event. -/
inductive SlotMove (sha256 : String → String) (w : SlotWorld) : SlotEvent → SlotWorld → Prop
  | tick (now : ℤ) : SlotMove sha256 w (.tick now) { w with clock := now }
  | spawn (pid ticks : ℤ) : SlotMove sha256 w (.spawn pid ticks)
      { w with pids := update w.pids pid (some ticks), named := (pid, ticks) :: w.named }
  | exit (pid : ℤ) : SlotMove sha256 w (.exit pid) { w with pids := update w.pids pid none }
  | share {i : ℕ} {profile : ProfileId} {required : Bool} {l : Flock.Lock Actor}
      (hi : w.runners i = .idle) (hl : w.operation.lockShared (.runner i) = some l) :
      SlotMove sha256 w (.runnerShare i profile required)
        ({ w with operation := l }.setRunner i (.shared profile required))
  | pass {i : ℕ} {profile : ProfileId} {required : Bool}
      (hi : w.runners i = .shared profile required)
      (hs : runnerAdmitted required (reservationStatus w.clock w.pids profile w.entry) = true) :
      SlotMove sha256 w (.runnerCheck i)
        (w.setRunner i (.admitted profile ⟨w.clock, w.pids, w.entry⟩))
  | refuse (i : ℕ) : SlotMove sha256 w (.runnerCheck i) ((w.drop (.runner i)).setRunner i .idle)
  | takeSlot {i : ℕ} {profile : ProfileId} {check : Check} {l : Flock.Lock Actor}
      (hi : w.runners i = .admitted profile check)
      (hl : w.slot.lockExclusive (.runner i) = some l) :
      SlotMove sha256 w (.runnerSlot i) ({ w with slot := l }.setRunner i (.slotted profile))
  | publish {i : ℕ} {profile : ProfileId} (pid ticks : ℤ) (hi : w.runners i = .slotted profile) :
      SlotMove sha256 w (.runnerMetadata i pid ticks)
        ({ w with metadata := some (metadataPayload pid profile ticks) }.setRunner i
          (.published profile))
  | start {i : ℕ} {profile : ProfileId} (hi : w.runners i = .published profile) :
      SlotMove sha256 w (.runnerUnlock i)
        ({ w with operation := w.operation.unlock (.runner i) }.setRunner i (.running profile))
  | runnerExit (i : ℕ) : SlotMove sha256 w (.runnerExit i) ((w.drop (.runner i)).setRunner i .idle)
  | inspect {i : ℕ} {l : Flock.Lock Actor} (hi : w.inspectors i = .idle)
      (hl : w.slot.lockExclusive (.inspector i) = some l) :
      SlotMove sha256 w (.inspectorTry i) ({ w with slot := l }.setInspector i .holding)
  | clear {i : ℕ} (hi : w.inspectors i = .holding) :
      SlotMove sha256 w (.inspectorClear i) ({ w with metadata := none }.setInspector i .cleared)
  | inspectorExit (i : ℕ) :
      SlotMove sha256 w (.inspectorExit i) ((w.drop (.inspector i)).setInspector i .idle)
  | storeBegin {i : ℕ} {q : Request} {call : Call} (hi : w.stores i = .idle)
      (hq : prepare sha256 w.clock w.pids w.entry q = .ok (some call)) :
      SlotMove sha256 w (.storeBegin i q) (w.setStore i (.waiting call))
  | storeLock {i : ℕ} {call : Call} {l : Flock.Lock Actor} (hi : w.stores i = .waiting call)
      (hl : w.operation.lockExclusive (.store i) = some l) :
      SlotMove sha256 w (.storeLock i) ({ w with operation := l }.setStore i (.locked call))
  | storeCommit {i : ℕ} {call : Call} (x : Section) (hi : w.stores i = .locked call) :
      SlotMove sha256 w (.storeCommit i x)
        ({ w with clock := x.stamp
                  entry := (perform w.clock w.pids x w.entry call).2 }.setStore i .leaving)
  | storeExit (i : ℕ) : SlotMove sha256 w (.storeExit i) ((w.drop (.store i)).setStore i .idle)
  | guardLock {i : ℕ} {l : Flock.Lock Actor} (k : LeaseKey) (hi : w.guards i = .idle)
      (hl : w.operation.lockExclusive (.guard i) = some l) :
      SlotMove sha256 w (.guardLock i k) ({ w with operation := l }.setGuard i (.locked k))
  | guardOwned {i : ℕ} {k : LeaseKey} (hi : w.guards i = .locked k)
      (ho : ownsLiveLocked w.clock w.pids k w.entry = true) :
      SlotMove sha256 w (.guardOwned i) (w.setGuard i (.owned k))
  | guardLost (i : ℕ) : SlotMove sha256 w (.guardOwned i) ((w.drop (.guard i)).setGuard i .idle)
  | guardBody {i : ℕ} {k : LeaseKey} {v : ServiceView} (hi : w.guards i = .owned k)
      (hv : inactive w.metadata v = true) :
      SlotMove sha256 w (.guardInactive i v) (w.setGuard i (.body k))
  | guardActive (i : ℕ) (v : ServiceView) :
      SlotMove sha256 w (.guardInactive i v) ((w.drop (.guard i)).setGuard i .idle)
  | guardRelease {i : ℕ} {k : LeaseKey} (hi : w.guards i = .body k) :
      SlotMove sha256 w (.guardRelease i)
        { w with entry := (releaseIfOwnedLocked k (some .update) w.entry).2 }
  | guardExit (i : ℕ) : SlotMove sha256 w (.guardExit i) ((w.drop (.guard i)).setGuard i .idle)

/-- **Every step is one of the moves.** -/
theorem slotStep_move {sha256 : String → String} {w w' : SlotWorld} {ev : SlotEvent}
    (h : slotStep sha256 w ev = some w') : SlotMove sha256 w ev w' := by
  cases ev <;> simp only [slotStep] at h
  case tick now => cases h; exact .tick now
  case spawn pid ticks => cases h; exact .spawn pid ticks
  case exit pid => cases h; exact .exit pid
  case runnerExit i => cases h; exact .runnerExit i
  case inspectorExit i => cases h; exact .inspectorExit i
  case storeExit i => cases h; exact .storeExit i
  case guardExit i => cases h; exact .guardExit i
  case runnerCheck i =>
      split at h
      · rename_i hi
        split at h <;> cases h
        · exact .pass hi ‹_›
        · exact .refuse i
      · cases h
  case guardOwned i =>
      split at h
      · rename_i hi
        split at h <;> cases h
        · exact .guardOwned hi ‹_›
        · exact .guardLost i
      · cases h
  case guardInactive i v =>
      split at h
      · rename_i hi
        split at h <;> cases h
        · exact .guardBody hi ‹_›
        · exact .guardActive i v
      · cases h
  case runnerShare => split at h <;> cases h; exact .share ‹_› ‹_›
  case runnerSlot => split at h <;> cases h; exact .takeSlot ‹_› ‹_›
  case runnerMetadata pid ticks => split at h <;> cases h; exact .publish pid ticks ‹_›
  case runnerUnlock => split at h <;> cases h; exact .start ‹_›
  case inspectorTry => split at h <;> cases h; exact .inspect ‹_› ‹_›
  case inspectorClear => split at h <;> cases h; exact .clear ‹_›
  case storeBegin => split at h <;> cases h; exact .storeBegin ‹_› ‹_›
  case storeLock => split at h <;> cases h; exact .storeLock ‹_› ‹_›
  case storeCommit x => split at h <;> cases h; exact .storeCommit x ‹_›
  case guardLock k => split at h <;> cases h; exact .guardLock k ‹_› ‹_›
  case guardRelease => split at h <;> cases h; exact .guardRelease ‹_›

variable {e : Entry}

variable {sha256 : String → String} {w w' : SlotWorld} {ev : SlotEvent}

open SlotWorld

theorem slotStep_locksHeld (h : w.LocksHeld) (hs : slotStep sha256 w ev = some w') :
    w'.LocksHeld := by
  cases slotStep_move hs with
  | tick | spawn | exit | guardRelease => exact ⟨h.operation, h.slot⟩
  | refuse i | runnerExit i => exact h.dropRunner i
  | inspectorExit i => exact h.dropInspector i
  | storeExit i => exact h.dropStore i
  | guardLost i | guardActive i | guardExit i => exact h.dropGuard i
  | share hi hl =>
    constructor
    · rw [operationPlaces_setRunner]; exact h.operation.lockShared hl
    · rw [slotPlaces_setRunner]; exact h.slot.keep (.inr rfl)
  | pass hi => exact h.moveRunner (.inl (by rw [hi]; rfl)) (.inr rfl)
  | takeSlot hi hl =>
    constructor
    · rw [operationPlaces_setRunner]
      exact h.operation.keep (.inl (by simp [operationPlaces, hi, RunnerPlace.operation]))
    · rw [slotPlaces_setRunner]; exact h.slot.lockExclusive hl
  | publish pid ticks hi =>
    refine .moveRunner ?_ (.inl ?_) (.inl ?_)
    · exact ⟨h.operation, h.slot⟩
    · simp [hi, RunnerPlace.operation]
    · simp [hi, RunnerPlace.slot]
  | start hi =>
    constructor
    · rw [operationPlaces_setRunner]; exact h.operation.unlock _
    · rw [slotPlaces_setRunner]
      exact h.slot.keep (.inl (by simp [slotPlaces, hi, RunnerPlace.slot]))
  | inspect hi hl =>
    constructor
    · rw [operationPlaces_setInspector]; exact h.operation
    · rw [slotPlaces_setInspector]; exact h.slot.lockExclusive hl
  | clear hi =>
    refine .moveInspector ?_ ?_
    · exact ⟨h.operation, h.slot⟩
    · simp [hi, InspectorPlace.slot]
  | storeBegin hi => exact h.moveStore (by rw [hi]; rfl)
  | storeLock hi hl =>
    constructor
    · rw [operationPlaces_setStore]; exact h.operation.lockExclusive hl
    · rw [slotPlaces_setStore]; exact h.slot
  | storeCommit x hi =>
    refine .moveStore ?_ ?_
    · exact ⟨h.operation, h.slot⟩
    · simp [hi, StorePlace.operation]
  | guardLock k hi hl =>
    constructor
    · rw [operationPlaces_setGuard]; exact h.operation.lockExclusive hl
    · rw [slotPlaces_setGuard]; exact h.slot
  | guardOwned hi | guardBody hi => exact h.moveGuard (by rw [hi]; rfl)

/-- While a guard is past its lock, no runner shares `operation.lock`. -/
theorem runner_operation_of_guard (h : w.LocksHeld) {g : ℕ}
    (hg : (w.guards g).operation = some .exclusive) (i : ℕ) : (w.runners i).operation = none := by
  by_contra hne
  cases h.operation.exclusion (i := .guard g) (j := .runner i) hg hne

/-- While a store call is in its critical section, no runner shares `operation.lock`. -/
theorem runner_operation_of_store (h : w.LocksHeld) {c : ℕ}
    (hc : (w.stores c).operation = some .exclusive) (i : ℕ) : (w.runners i).operation = none := by
  by_contra hne
  cases h.operation.exclusion (i := .store c) (j := .runner i) hc hne

/-! ### The metadata and the guard's body -/

/-- Past its metadata phase a runner's metadata is there, and no guard's body runs. -/
structure SlotWorld.Fenced (w : SlotWorld) : Prop where
  metadata : ∀ i, (w.runners i).metadataPassed = true → w.metadata ≠ none
  body : ∀ g k, w.guards g = .body k → ∀ i, (w.runners i).metadataPassed = false

variable {i : ℕ}

theorem SlotWorld.Fenced.setRunner (h : w.Fenced)
    (hp : p.metadataPassed = true → (w.runners i).metadataPassed = true) :
    (w.setRunner i p).Fenced := by
  have hle : ∀ j, ((w.setRunner i p).runners j).metadataPassed = true →
      (w.runners j).metadataPassed = true := by
    intro j hj
    by_cases hji : j = i
    · subst hji
      exact hp (by simpa [SlotWorld.setRunner] using hj)
    · simpa [SlotWorld.setRunner, hji] using hj
  refine ⟨fun j hj => h.metadata j (hle j hj), fun g k hg j => ?_⟩
  have := h.body g k hg j
  by_contra hne
  rw [hle j (by simpa using hne)] at this
  cases this

theorem SlotWorld.Fenced.setGuard (h : w.Fenced) {p : GuardPlace}
    (hp : ∀ k, p = .body k → ∀ j, (w.runners j).metadataPassed = false) :
    (w.setGuard i p).Fenced := by
  refine ⟨h.metadata, fun g k hg j => ?_⟩
  by_cases hgi : g = i
  · subst hgi
    exact hp k (by simpa [SlotWorld.setGuard] using hg) j
  · exact h.body g k (by simpa [SlotWorld.setGuard, hgi] using hg) j

theorem slotStep_fenced (hl : w.LocksHeld) (h : w.Fenced) (hs : slotStep sha256 w ev = some w') :
    w'.Fenced := by
  cases slotStep_move hs with
  | tick | spawn | exit | guardRelease | inspect | storeBegin | storeLock | storeCommit |
    inspectorExit | storeExit => exact ⟨h.metadata, h.body⟩
  | share | pass | takeSlot | refuse | runnerExit =>
    refine .setRunner ?_ nofun
    exact ⟨h.metadata, h.body⟩
  | publish pid ticks hi =>
    -- the runner still shares `operation.lock`, so no guard is in its body
    refine ⟨fun _ _ hnone => (by cases hnone), fun g k hg j => ?_⟩
    have := runner_operation_of_guard hl (by
      have hg : w.guards g = .body k := hg
      rw [hg]; rfl)
    cases hi ▸ this _
  | start hi =>
    refine .setRunner ?_ fun _ => ?_
    · exact ⟨h.metadata, h.body⟩
    · simp [hi, RunnerPlace.metadataPassed]
  | @clear i hi =>
    -- the inspector owns `slot.lock`, so no runner is past its metadata phase
    have hnot : ∀ j, (w.runners j).metadataPassed = false := by
      intro j
      by_contra hne
      have hslot : (w.runners j).slot ≠ none := by
        cases hp : w.runners j <;> simp_all [RunnerPlace.metadataPassed, RunnerPlace.slot]
      have hins : w.slotPlaces (.inspector i) = some .exclusive := by
        simp [slotPlaces, hi, InspectorPlace.slot]
      cases hl.slot.exclusion hins (j := .runner j) hslot
    refine ⟨fun j hj => ?_, h.body⟩
    exact absurd (hnot j) (by rw [show (w.runners j).metadataPassed = true from hj]; simp)
  | guardLost | guardActive | guardExit | guardLock | guardOwned =>
    refine .setGuard ?_ fun k hk => by cases hk
    exact ⟨h.metadata, h.body⟩
  | guardBody hi hv =>
    refine h.setGuard fun _ _ j => ?_
    by_contra hne
    refine h.metadata j (by simpa using hne) ?_
    simp only [inactive, Bool.and_eq_true] at hv
    exact Option.isNone_iff_eq_none.1 hv.1.1.2

/-! ### The reservation a runner was admitted by -/

def Entry.Stored (e : Entry) : Prop := e = .absent ∨ ∃ size r, e = .written size r

theorem Entry.Stored.perform (h : e.Stored) (now : ℤ) (pids : PidTable) (x : Section)
    (call : Call) : (perform now pids x e call).2.Stored := by
  obtain hsame | ⟨r, hw, -⟩ | ⟨r, k, hw, -⟩ | ⟨k, hw, -⟩ | ⟨hw, -⟩ :=
    perform_cases now pids x e call
  · rw [hsame.1]; exact h
  · exact .inr ⟨_, _, hw⟩
  · exact .inr ⟨_, _, hw⟩
  · exact .inl hw
  · exact .inl hw

/-- A reservation that stands in the way of a runner for `profile`: live, and for another profile
or of the update kind. -/
def Blocking (now : ℤ) (pids : PidTable) (profile : ProfileId) (e : Entry) : Prop :=
  ∃ r, e.read = some r ∧ live now pids r = true ∧
    (r.profileId ≠ profile ∨ r.operationKind = .update)

variable {profile : ProfileId} {pids : PidTable} {now : ℤ}

/-- The runner's check reports every live reservation of a file the store left. -/
theorem reservationStatus_of_live {r : Reservation} (hst : e.Stored) (hr : e.read = some r)
    (hlive : live now pids r = true) :
    reservationStatus now pids profile e =
      some (r.profileId = profile && r.operationKind = .lifecycle) := by
  obtain rfl | ⟨size, r', rfl⟩ := hst
  · cases hr
  obtain ⟨t, ht, hlt, hle, hpid⟩ := live_iff.1 hlive
  obtain ⟨t', ht', hview⟩ := runnerView_of_reservationFromJson hr
  obtain rfl : t = t' := Option.some.inj (ht.symm.trans ht')
  have hsecure : (⟨true, false, true, 1, 0, 0o644, size⟩ : FileInfo).secureRegular = true := by
    simp [FileInfo.secureRegular]
  simp only [reservationStatus, Entry.written, hsecure, if_true, hview, hlt, hle, hpid, and_self]

/-- A blocking reservation makes the check answer `False`. -/
theorem Blocking.status (hst : e.Stored) (h : Blocking now pids profile e) :
    reservationStatus now pids profile e = some false := by
  obtain ⟨r, hr, hlive, hor⟩ := h
  rw [reservationStatus_of_live hst hr hlive]
  rcases hor with hp | hk
  · simp [hp]
  · simp [hk]

/-- What a runner was admitted by is still stored. -/
structure SlotWorld.Admitted (w : SlotWorld) : Prop where
  stored : w.entry.Stored
  check : ∀ i profile c, w.runners i = .admitted profile c →
    c.entry = w.entry ∧ reservationStatus c.now c.pids profile c.entry ≠ some false

theorem SlotWorld.Admitted.setRunner (h : w.Admitted) (hp : ∀ profile c, p = .admitted profile c →
      c.entry = w.entry ∧ reservationStatus c.now c.pids profile c.entry ≠ some false) :
    (w.setRunner i p).Admitted := by
  refine ⟨h.stored, fun j profile c hj => ?_⟩
  by_cases hji : j = i
  · subst hji
    exact hp profile c (by simpa [SlotWorld.setRunner] using hj)
  · exact h.check j profile c (by simpa [SlotWorld.setRunner, hji] using hj)

/-- Nobody is admitted while `operation.lock` is owned. -/
theorem not_admitted {c : Check} (h : (w.runners i).operation = none) :
    w.runners i ≠ .admitted profile c := by
  intro hi
  rw [hi] at h
  cases h

theorem ne_some_false_of_runnerAdmitted {required : Bool} {status : Option Bool}
    (h : runnerAdmitted required status = true) : status ≠ some false := by
  rintro rfl
  simp [runnerAdmitted] at h

theorem slotStep_admitted (hl : w.LocksHeld) (h : w.Admitted)
    (hs : slotStep sha256 w ev = some w') : w'.Admitted := by
  cases slotStep_move hs with
  | tick | spawn | exit | inspect | clear | inspectorExit | storeBegin | storeLock | storeExit |
    guardLock | guardOwned | guardLost | guardBody | guardActive | guardExit =>
      exact ⟨h.stored, h.check⟩
  | share | takeSlot | publish | start | refuse | runnerExit =>
    refine .setRunner ?_ fun _ _ hp => by cases hp
    exact ⟨h.stored, h.check⟩
  | pass hi hpass =>
    refine h.setRunner fun profile c hc => ?_
    cases hc
    exact ⟨rfl, ne_some_false_of_runnerAdmitted hpass⟩
  | @storeCommit i call x hi =>
    have hop : (w.stores i).operation = some .exclusive := by rw [hi]; rfl
    exact ⟨h.stored.perform _ _ _ call, fun j profile c hj =>
      absurd hj (not_admitted (runner_operation_of_store hl hop j))⟩
  | @guardRelease i k hi =>
    have hop : (w.guards i).operation = some .exclusive := by rw [hi]; rfl
    refine ⟨?_, fun j profile c hj => absurd hj (not_admitted (runner_operation_of_guard hl hop j))⟩
    exact h.stored.perform w.clock w.pids { stamp := 0 } (.releaseLocked k (some .update))

end Horizon
