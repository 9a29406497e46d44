/-
**The inspector sees the running game.**

`SlotInspector.observe` tries `slot.lock`.  If it gets the lock it removes the metadata; otherwise
it reads the metadata and compares the start ticks that it finds there with those of the process.
From the moment a runner has written its metadata until it ends, it owns the lock, so nobody else
touches the metadata or the slot.

Main results:

* `inspector_sees_game` — **every observation in that time names the runner**.
-/

import Horizon.SlotPublication

namespace Horizon

open Transition (run)
open Function

/-! ### Observations -/

structure SlotObservation where
  owner : Option ProfileId
  pid : Option ℤ := none
  procStartTicks : Option ℤ := none
  inconsistent : Bool := false
  deriving DecidableEq

/-- The checks of `_observe_held_slot`.  A `bool` is an `int`, but there is no process of that
name. -/
def readOwner (raw : JsonDict) (pids : PidTable) : Option SlotObservation := do
  let owner ← ((raw.lookup "profile_id").or (raw.lookup "profile")).bind JsonValue.str?
  let owner ← ProfileId.ofValue owner
  let pid ← intAt raw "pid"
  let ticks ← intAt raw "proc_start_ticks"
  if 0 < pid ∧ 0 ≤ ticks ∧ pids pid = some ticks then some ⟨some owner, some pid, some ticks, false⟩
  else none

def observeHeldSlot (metadata : Option JsonDict) (pids : PidTable) : SlotObservation :=
  (metadata.bind (readOwner · pids)).getD { owner := none, inconsistent := true }

/-- `SlotInspector.observe`, with the states in which it tries the lock, reads the metadata and
reads the process table. -/
def observe (i : ℕ) (tried read checked : SlotWorld) : SlotObservation :=
  match tried.slot.lockExclusive (.inspector i) with
  | some _ => { owner := none }
  | none => observeHeldSlot read.metadata checked.pids

theorem readOwner_metadataPayload {pids : PidTable} {profile : ProfileId} {pid ticks : ℤ}
    (hpid : 0 < pid) (hticks : 0 ≤ ticks) (halive : pids pid = some ticks) :
    readOwner (metadataPayload pid profile ticks) pids =
      some ⟨some profile, some pid, some ticks, false⟩ := by
  have hprofile : (metadataPayload pid profile ticks).lookup "profile_id" =
      some (.str profile.value) := by rfl
  have hid : intAt (metadataPayload pid profile ticks) "pid" = some pid := by rfl
  have hstart : intAt (metadataPayload pid profile ticks) "proc_start_ticks" = some ticks := by rfl
  simp [readOwner, hprofile, hid, hstart, JsonValue.str?, hpid, hticks, halive]

/-! ### While the runner lives -/

/-- The event does not end the runner `i`, and the pid of its process is not given to another. -/
def SlotEvent.Spares (i : ℕ) (pid : ℤ) : SlotEvent → Prop
  | .runnerExit j => j ≠ i
  | .spawn p _ | .exit p => p ≠ pid
  | _ => True

/-- The runner `i` is past its metadata phase, and what it wrote is there and true. -/
structure SlotWorld.Shows (w : SlotWorld) (i : ℕ) (profile : ProfileId) (pid ticks : ℤ) : Prop where
  locks : w.LocksHeld
  place : w.runners i = .published profile ∨ w.runners i = .running profile
  metadata : w.metadata = some (metadataPayload pid profile ticks)
  alive : w.pids pid = some ticks

section Shows

variable {sha256 : String → String} {w w' : SlotWorld} {ev : SlotEvent} {i : ℕ}
  {profile : ProfileId} {pid ticks : ℤ}

theorem SlotWorld.Shows.slotPlaces (h : w.Shows i profile pid ticks) :
    w.slotPlaces (.runner i) = some .exclusive := by
  rcases h.place with hi | hi <;> simp [SlotWorld.slotPlaces, hi, RunnerPlace.slot]

/-- A runner whose place shows that it has not written the metadata is another one. -/
theorem SlotWorld.Shows.ne (h : w.Shows i profile pid ticks) {j : ℕ} {p : RunnerPlace}
    (hj : w.runners j = p) (hp : p.metadataPassed = false) : i ≠ j := by
  rintro rfl
  rcases h.place with hi | hi
  all_goals
    rw [← hj, hi] at hp
    cases hp

theorem runnerCheck_shared {j : ℕ} (h : slotStep sha256 w (.runnerCheck j) = some w') :
    ∃ p required, w.runners j = .shared p required := by
  simp only [slotStep] at h
  split at h
  · next hj => exact ⟨_, _, hj⟩
  · cases h

/-- **No step takes away what the runner shows.** -/
theorem slotStep_shows (h : w.Shows i profile pid ticks) (hs : slotStep sha256 w ev = some w')
    (hspares : ev.Spares i pid) : w'.Shows i profile pid ticks := by
  have hlocks := slotStep_locksHeld h.locks hs
  have hother {j : ℕ} {p : RunnerPlace} (hne : i ≠ j) : update w.runners j p i =
      .published profile ∨ update w.runners j p i = .running profile := by
    rw [update_of_ne hne]
    exact h.place
  cases slotStep_move hs with
  | tick | inspect | inspectorExit | storeBegin | storeLock | storeCommit | storeExit | guardLock |
    guardOwned | guardLost | guardBody | guardActive | guardRelease | guardExit =>
    exact ⟨hlocks, h.place, h.metadata, h.alive⟩
  | spawn | exit =>
    exact ⟨hlocks, h.place, h.metadata, (update_of_ne (Ne.symm hspares) _ _).trans h.alive⟩
  | share hj | pass hj | takeSlot hj =>
    exact ⟨hlocks, hother (h.ne hj rfl), h.metadata, h.alive⟩
  | refuse j =>
    obtain ⟨p, required, hj⟩ := runnerCheck_shared hs
    exact ⟨hlocks, hother (h.ne hj rfl), h.metadata, h.alive⟩
  | runnerExit j =>
    exact ⟨hlocks, hother (Ne.symm hspares), h.metadata, h.alive⟩
  | @publish j q p t hj =>
    -- it would hold `slot.lock` too
    have hslot : w.slotPlaces (.runner j) ≠ none := by
      simp [SlotWorld.slotPlaces, hj, RunnerPlace.slot]
    cases h.locks.slot.exclusion h.slotPlaces hslot
    exact absurd rfl (h.ne hj rfl)
  | @start j q hj =>
    by_cases hij : i = j
    · subst hij
      have hq : q = profile := by
        rcases h.place with hi | hi
        · exact RunnerPlace.published.inj (hj.symm.trans hi)
        · cases hj.symm.trans hi
      exact ⟨hlocks, .inr (by simp [SlotWorld.setRunner, hq]), h.metadata, h.alive⟩
    · exact ⟨hlocks, hother hij, h.metadata, h.alive⟩
  | @clear j hj =>
    have hslot : w.slotPlaces (.inspector j) ≠ none := by
      simp [SlotWorld.slotPlaces, hj, InspectorPlace.slot]
    cases h.locks.slot.exclusion h.slotPlaces hslot

theorem run_shows (h : w.Shows i profile pid ticks) {es : List SlotEvent}
    (hrun : run (slotStep sha256) w es = some w') (hspares : ∀ ev ∈ es, ev.Spares i pid) :
    w'.Shows i profile pid ticks :=
  Transition.along_invariant (C := fun _ ev _ => ev.Spares i pid)
    (fun _ _ _ h hs hspares => slotStep_shows h hs hspares) h
    (Transition.along_of_forall _ fun ev hev _ _ => hspares ev hev) hrun

/-- **Every observation names the runner** that has written its metadata, as long as it lives: the
metadata stays, and no other runner has the slot. -/
theorem inspector_sees_game {w₀ w₁ : SlotWorld} {before : List SlotEvent} (h₀ : w₀.Idle)
    (hrun : run (slotStep sha256) w₀ before = some w)
    (hstep : slotStep sha256 w (.runnerMetadata i pid ticks) = some w₁)
    (hpid : 0 < pid) (hticks : 0 ≤ ticks) (halive : w.pids pid = some ticks) :
    ∃ profile, w.runners i = .slotted profile ∧
      ∀ es₁ es₂ es₃ tried read checked, run (slotStep sha256) w₁ es₁ = some tried →
        run (slotStep sha256) tried es₂ = some read →
        run (slotStep sha256) read es₃ = some checked →
        (∀ ev ∈ es₁ ++ es₂ ++ es₃, ev.Spares i pid) →
        (∀ j, observe j tried read checked = ⟨some profile, some pid, some ticks, false⟩) ∧
          tried.metadata = some (metadataPayload pid profile ticks) ∧
          ∀ j, j ≠ i → (tried.runners j).slot = none := by
  have hlocks := slotStep_locksHeld (run_slot_invariant h₀ hrun).1 hstep
  cases slotStep_move hstep with
  | @publish _ profile _ _ hi =>
    refine ⟨profile, hi, fun es₁ es₂ es₃ tried read checked htried hread hchecked hspares => ?_⟩
    simp only [List.forall_mem_append] at hspares
    obtain ⟨⟨hspares₁, hspares₂⟩, hspares₃⟩ := hspares
    have h₁ : tried.Shows i profile pid ticks :=
      run_shows ⟨hlocks, .inl (by simp [SlotWorld.setRunner]), rfl, halive⟩ htried hspares₁
    have h₂ := run_shows h₁ hread hspares₂
    have h₃ := run_shows h₂ hchecked hspares₃
    refine ⟨fun j => ?_, h₁.metadata, fun j hj => ?_⟩
    · have howner := (h₁.locks.slot (.runner i)).1 h₁.slotPlaces
      have hlock : tried.slot.lockExclusive (.inspector j) = none := by
        simp [Flock.Lock.lockExclusive, howner]
      rw [observe, hlock]
      show observeHeldSlot read.metadata checked.pids = _
      rw [observeHeldSlot, h₂.metadata, Option.bind_some,
        readOwner_metadataPayload hpid hticks h₃.alive, Option.getD_some]
    · by_contra hne
      cases h₁.locks.slot.exclusion h₁.slotPlaces (j := .runner j) hne
      exact hj rfl

end Shows

/-- A runner for Minecraft on the idle machine, up to `slot.lock`. -/
def soloRunner : List SlotEvent := [.runnerShare 0 .minecraft false, .runnerCheck 0, .runnerSlot 0]

/-- An inspector that looks when the game has started sees it. -/
theorem inspector_sees_minecraft :
    ∃ w w₁ w₂, run (slotStep id) idleMachine soloRunner = some w ∧
      slotStep id w (.runnerMetadata 0 1 7) = some w₁ ∧
      run (slotStep id) w₁ [.runnerUnlock 0, .tick 5] = some w₂ ∧
      ∃ profile, observe 3 w₂ w₂ w₂ = ⟨some profile, some 1, some 7, false⟩ := by
  obtain ⟨w, w₁, w₂, hw, hw₁, hw₂, halive⟩ : ∃ w w₁ w₂,
      run (slotStep id) idleMachine soloRunner = some w ∧
      slotStep id w (.runnerMetadata 0 1 7) = some w₁ ∧
      run (slotStep id) w₁ [.runnerUnlock 0, .tick 5] = some w₂ ∧ w.pids 1 = some 7 :=
    ⟨_, _, _, rfl, rfl, rfl, rfl⟩
  obtain ⟨profile, -, hsees⟩ :=
    inspector_sees_game idleMachine_idle hw hw₁ (by decide) (by decide) halive
  have hspares : ∀ ev ∈ [.runnerUnlock 0, .tick 5] ++ [] ++ [], SlotEvent.Spares 0 1 ev := by
    simp [SlotEvent.Spares]
  exact ⟨w, w₁, w₂, hw, hw₁, hw₂, profile, (hsees _ _ _ _ _ _ hw₂ rfl rfl hspares).1 3⟩

end Horizon
