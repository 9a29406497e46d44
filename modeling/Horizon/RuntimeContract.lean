/-
**The release record of a Sunlit game that starts.**

`_sunlit_runtime_contract` resolves the active link and compares the version in `release.json` with
the release it found; only then does `main` ask for its locks.  The updater publishes the link and
the record in separate bodies of `publication_guard` and may end between them.  From the time it
shares `operation.lock` until its game has ended a runner excludes these bodies, before that it
excludes nothing: the check is about the files as they were, not as they are.

Main results:

* `RuntimeContract.starts_matching` — **a game starts with a matching record** if nothing was
  published between its check and its lock;
* `RuntimeContract.started_unmatched` — and without that it may not.
-/

import Horizon.SlotPublication

namespace Horizon.RuntimeContract

open Function Transition

/-- How far `_sunlit_runtime_contract` is in a runner. -/
inductive Progress
  | unread
  /-- The link was resolved to this release. -/
  | linked (release : String)
  | passed
  deriving DecidableEq

/-- `active` is the release that the active link resolves to, `record` the version in
`release.json`, and `taken` the active release when the runner got `slot.lock`. -/
structure World where
  slots : SlotWorld
  active : Option String
  record : Option String
  progress : ℕ → Progress
  taken : ℕ → Option String

inductive Event
  | slot (ev : SlotEvent)
  | readLink (i : ℕ)
  | readRecord (i : ℕ)
  | publishLink (g : ℕ) (release : Option String)
  | publishRecord (g : ℕ) (version : Option String)

abbrev sunlit : ProfileId := .minecraftSunlitCobblemon

namespace World

variable (w : World)

/-- A runner for Sunlit asks for `operation.lock` after its check. -/
def allows : SlotEvent → Bool
  | .runnerShare i profile _ => profile ≠ sunlit || w.progress i = .passed
  | _ => true

/-- The world after a step of the slot. -/
def move (s : SlotWorld) : SlotEvent → World
  | .runnerShare i _ _ | .runnerExit i =>
    { w with slots := s, progress := update w.progress i .unread }
  | .runnerSlot i => { w with slots := s, taken := update w.taken i w.active }
  | _ => { w with slots := s }

end World

variable (sha256 : String → String)

def step (w : World) : Event → Option World
  | .slot ev => if w.allows ev then (slotStep sha256 w.slots ev).map (w.move · ev) else none
  | .readLink i =>
    match w.slots.runners i, w.progress i, w.active with
    | .idle, .unread, some release =>
      some { w with progress := update w.progress i (.linked release) }
    | _, _, _ => none
  | .readRecord i =>
    match w.progress i with
    | .linked release =>
      let next := if w.record = some release then .passed else .unread
      some { w with progress := update w.progress i next }
    | _ => none
  | .publishLink g release =>
    match w.slots.guards g with
    | .body _ => some { w with active := release }
    | _ => none
  | .publishRecord g version =>
    match w.slots.guards g with
    | .body _ => some { w with record := version }
    | _ => none

/-- Nothing is published while a runner is between its check and its lock. -/
def Undisturbed (w : World) : Event → World → Prop
  | .publishLink _ _, _ | .publishRecord _ _, _ => ∀ i, w.progress i = .unread
  | _, _ => True

/-! ### What the check is worth -/

/-- What a runner has found is still so. -/
def Current (record active : Option String) : Progress → Prop
  | .unread => True
  | .linked release => active = some release
  | .passed => ∃ v, record = some v ∧ active = some v

/-- The record names the active release, for a runner at this place; from `slot.lock` on, the
release that was active then. -/
def Fits (record active taken : Option String) : RunnerPlace → Prop
  | .idle => True
  | .shared p _ | .admitted p _ => p = sunlit → Current record active .passed
  | .slotted p | .published p | .running p => p = sunlit → Current record taken .passed

structure Bound (w : World) : Prop where
  locks : w.slots.LocksHeld
  fenced : w.slots.Fenced
  current : ∀ i, Current w.record w.active (w.progress i)
  fits : ∀ i, Fits w.record w.active (w.taken i) (w.slots.runners i)

variable {sha256} {w w' : World} (h : Bound w) {i : ℕ} {k : LeaseKey} {p : RunnerPlace}
include h

/-- While a guard's body runs, nobody is past `operation.lock`. -/
theorem Bound.idle {g : ℕ} (hg : w.slots.guards g = .body k) (i : ℕ) :
    w.slots.runners i = .idle := by
  have hop := runner_operation_of_guard h.locks (by rw [hg]; rfl) i
  have hmeta := h.fenced.body g k hg i
  cases hp : w.slots.runners i <;> simp_all [RunnerPlace.operation, RunnerPlace.metadataPassed]

/-- A body may publish anything if nobody relies on a check. -/
theorem Bound.publish {g : ℕ} (hg : w.slots.guards g = .body k) (hw : ∀ i, w.progress i = .unread)
    (active record : Option String) : Bound { w with active := active, record := record } := by
  refine ⟨h.locks, h.fenced, fun i => ?_, fun i => ?_⟩
  · show Current record active (w.progress i)
    rw [hw i]
    trivial
  · show Fits record active (w.taken i) (w.slots.runners i)
    rw [h.idle hg i]
    trivial

theorem Bound.current_update {p : Progress} (hp : Current w.record w.active p) :
    ∀ j, Current w.record w.active (update w.progress i p j) :=
  (forall_update_iff _ fun _ => Current w.record w.active).2 ⟨hp, fun j _ => h.current j⟩

theorem Bound.fits_at (hi : w.slots.runners i = p) :
    Fits w.record w.active (w.taken i) p := hi ▸ h.fits i

theorem Bound.fits_update (hp : Fits w.record w.active (w.taken i) p) :
    ∀ j, Fits w.record w.active (w.taken j) (update w.slots.runners i p j) :=
  (forall_update_iff _ fun j => Fits w.record w.active (w.taken j)).2 ⟨hp, fun j _ => h.fits j⟩

theorem slot_bound {ev : SlotEvent} {s : SlotWorld} (hallows : w.allows ev = true)
    (hs : slotStep sha256 w.slots ev = some s) : Bound (w.move s ev) := by
  have hl := slotStep_locksHeld h.locks hs
  have hf := slotStep_fenced h.locks h.fenced hs
  cases slotStep_move hs with
  | tick | spawn | exit | inspect | clear | inspectorExit | storeBegin | storeLock | storeCommit |
    storeExit | guardLock | guardOwned | guardLost | guardBody | guardActive | guardRelease |
    guardExit => exact ⟨hl, hf, h.current, h.fits⟩
  | @share i profile required l hi =>
    refine ⟨hl, hf, h.current_update trivial, h.fits_update ?_⟩
    rintro rfl
    have hpassed := h.current i
    rwa [show w.progress i = .passed by simpa [World.allows] using hallows] at hpassed
  | runnerExit i => exact ⟨hl, hf, h.current_update trivial, h.fits_update trivial⟩
  | refuse i => exact ⟨hl, hf, h.current, h.fits_update trivial⟩
  | @takeSlot i profile check l hi =>
    refine ⟨hl, hf, h.current, fun j => ?_⟩
    show Fits w.record w.active (update w.taken i w.active j)
      (update w.slots.runners i (.slotted profile) j)
    by_cases hji : j = i
    · rw [hji, update_self, update_self]
      exact h.fits_at hi
    · rw [update_of_ne hji, update_of_ne hji]
      exact h.fits j
  | pass hi | publish pid ticks hi | start hi =>
    exact ⟨hl, hf, h.current, h.fits_update (h.fits_at hi :)⟩

theorem step_bound {ev : Event} (hs : step sha256 w ev = some w') (hw : Undisturbed w ev w') :
    Bound w' := by
  cases ev with
  | slot ev =>
    simp only [step, Option.ite_none_right_eq_some, Option.map_eq_some_iff] at hs
    obtain ⟨hallows, s, hs, rfl⟩ := hs
    exact slot_bound h hallows hs
  | readLink i =>
    simp only [step] at hs
    split at hs <;> cases hs
    next hactive => exact ⟨h.locks, h.fenced, h.current_update hactive, h.fits⟩
  | readRecord i =>
    simp only [step] at hs
    split at hs <;> cases hs
    next release hlinked =>
    have hactive := h.current i
    rw [hlinked] at hactive
    refine ⟨h.locks, h.fenced, h.current_update ?_, h.fits⟩
    split
    · next hrecord => exact ⟨release, hrecord, hactive⟩
    · trivial
  | publishLink g release =>
    simp only [step] at hs
    split at hs <;> cases hs
    next k hg => exact h.publish hg hw release w.record
  | publishRecord g version =>
    simp only [step] at hs
    split at hs <;> cases hs
    next k hg => exact h.publish hg hw w.active version

/-! ### Every run -/

omit h

/-- **A game starts with a matching record.**  In every run from an idle machine in which nothing is
published between the check of a Sunlit runner and its lock: when a Sunlit runner has become the
game, the version in `release.json` is the release that was active when it got `slot.lock`. -/
theorem starts_matching {sha256 : String → String} {w₀ w : World} {es : List Event}
    (h₀ : w₀.slots.Idle) (hunread : ∀ i, w₀.progress i = .unread)
    (hrun : run (step sha256) w₀ es = some w) (hquiet : Along (step sha256) Undisturbed w₀ es)
    {i : ℕ} (hi : w.slots.runners i = .running sunlit) :
    ∃ v, w.record = some v ∧ w.taken i = some v := by
  obtain ⟨hl, hf, -⟩ := @run_slot_invariant sha256 _ _ [] h₀ rfl
  have hbound : Bound w := by
    refine along_invariant (fun _ _ _ h hs hw => step_bound h hs hw)
      ⟨hl, hf, fun j => ?_, fun j => ?_⟩ hquiet hrun
    · rw [hunread j]
      trivial
    · rw [h₀.runners j]
      trivial
  exact hbound.fits_at hi rfl

/-- Release `1.0` is active and recorded. -/
def deployed : World := ⟨idleMachine, some "1.0", some "1.0", fun _ => .unread, fun _ => none⟩

/-- The runner checks release `1.0`. -/
def check : List Event := [.readLink 0, .readRecord 0]

/-- From `operation.lock` to the game. -/
def startUp : List Event :=
  [.slot (.runnerShare 0 sunlit false), .slot (.runnerCheck 0), .slot (.runnerSlot 0),
   .slot (.runnerMetadata 0 9 9), .slot (.runnerUnlock 0)]

/-- The updater reserves. -/
def reservation : List Event :=
  [.slot (.storeBegin 0 (.reserve ⟨0, 1, "minecraft-sunlit-cobblemon", "op", some 1, 0, none, none,
    "update", none⟩)), .slot (.storeLock 0), .slot (.storeCommit 0 { stamp := 0 }),
   .slot (.storeExit 0)]

/-- A guard with one publication in its body. -/
def publication (ev : Event) : List Event :=
  [.slot (.guardLock 0 ⟨sunlit, "op", 0, 1, 7⟩), .slot (.guardOwned 0),
   .slot (.guardInactive 0 ⟨true, "inactive", false, false⟩), ev, .slot (.guardExit 0)]

/-- The updater publishes the link to release `2.0` and its record, and its process ends. -/
def wholeUpdate : List Event :=
  reservation ++ publication (.publishLink 0 (some "2.0")) ++
    publication (.publishRecord 0 (some "2.0")) ++ [.slot (.exit 1)]

/-- After an update the game starts with the new release. -/
theorem starts_matching_updated :
    ∃ w, run (step id) deployed (wholeUpdate ++ check ++ startUp) = some w ∧
      w.taken 0 = some "2.0" ∧ ∃ v, w.record = some v ∧ w.taken 0 = some v := by
  refine ⟨_, rfl, rfl, @starts_matching id deployed _ (wholeUpdate ++ check ++ startUp)
    idleMachine_idle (fun _ => rfl) rfl ?_ 0 rfl⟩
  iterate 7 refine (along_cons_of_some rfl).2 ⟨trivial, ?_⟩
  refine (along_cons_of_some rfl).2 ⟨fun _ => rfl, ?_⟩
  iterate 4 refine (along_cons_of_some rfl).2 ⟨trivial, ?_⟩
  refine (along_cons_of_some rfl).2 ⟨fun _ => rfl, ?_⟩
  exact along_of_forall _ (by simp [check, startUp, Undisturbed])

/-- The updater publishes the link to release `2.0` under its reservation, and its process ends. -/
def halfUpdate : List Event :=
  reservation ++ publication (.publishLink 0 (some "2.0")) ++ [.slot (.exit 1)]

/-- After its check of release `1.0` the game starts with release `2.0` and the old record. -/
theorem started_unmatched :
    ∃ w, run (step id) deployed (check ++ halfUpdate ++ startUp) = some w ∧
      w.slots.runners 0 = .running sunlit ∧ w.record = some "1.0" ∧ w.taken 0 = some "2.0" :=
  ⟨_, rfl, rfl, rfl, rfl⟩

end Horizon.RuntimeContract
