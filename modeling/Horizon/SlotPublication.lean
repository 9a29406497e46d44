/-
**No publication under a running game, in every run.**

The exclusion of a guard's body and a started game needs nothing of the clock.  That a runner's
reservation check is still right when the runner gets `slot.lock` does: a reservation that was not
live at the check must not be live a moment later.  It cannot become so when the clock does not go
back, no `(pid, start_ticks)` pair names a second process, reservations are made for processes that
exist, and no call asks for more than the maximal lifetime (`Timed`); `Timely` is the invariant.

Main results:

* `publication_excludes_runners` — the exclusion in every run from an idle machine;
* `slot_taken_under_reservation` — a clock that is set back between the check and the lock
  lets a runner take the slot under a live reservation for another profile.
-/

import Horizon.SlotExclusion

namespace Horizon

open Function

/-! ### Time and processes -/

def LeaseKey.process (k : LeaseKey) : ℤ × ℤ := (k.controllerPid, k.controllerStartTicks)

/-- A call that asks for at most the maximal lifetime and reserves for a process that exists. -/
def Call.Timely (named : List (ℤ × ℤ)) (call : Call) : Prop :=
  (∀ t, call.ttl = some t → t ≤ maxReservationTtl) ∧
    ∀ d, call = .reserve d → (d.controllerPid, d.controllerStartTicks) ∈ named

/-- The step does not set the clock back, does not reuse a pair and begins timely calls only. -/
def Timed (w : SlotWorld) (ev : SlotEvent) (w' : SlotWorld) : Prop :=
  match ev with
  | .tick now => w.clock ≤ now
  | .spawn pid ticks => (pid, ticks) ∉ w.named
  | .storeBegin i _ => ∀ call, w'.stores i = .waiting call → call.Timely w.named
  | .storeCommit _ x => w.clock ≤ x.stamp
  | _ => True

/-- A stored reservation expires within the maximal lifetime and names a process that exists or
existed; and what a runner's check found dead is dead. -/
structure SlotWorld.Timely (w : SlotWorld) : Prop where
  expiry : ∀ r t, w.entry.read = some r → r.expiresAt = some t → t ≤ w.clock + maxReservationTtl
  process : ∀ k, w.entry.key = some k → k.process ∈ w.named
  calls : ∀ i call, (w.stores i = .waiting call ∨ w.stores i = .locked call) → call.Timely w.named
  check : ∀ i profile c, w.runners i = .admitted profile c → c.now ≤ w.clock ∧
    ∀ r, w.entry.read = some r →
      (∀ t, r.expiresAt = some t → t ≤ c.now + maxReservationTtl) ∧
      (w.pids r.controllerPid = some r.controllerStartTicks →
        c.pids r.controllerPid = some r.controllerStartTicks)

theorem Entry.key_of_read {e : Entry} {r : Reservation} (h : e.read = some r) :
    e.key = some r.key := by rw [Entry.key, h]; rfl

theorem Draft.process_of_key {d : Draft} {a : Admission} {k : LeaseKey} (h : d.key a = some k) :
    k.process = (d.controllerPid, d.controllerStartTicks) := by
  simp only [Draft.key] at h
  split at h <;> cases h
  rfl

section Critical

variable {now : ℤ} {pids : PidTable} {x : Section} {e : Entry} {named : List (ℤ × ℤ)} {call : Call}

/-- The process of a reservation stored anew: the draft's, or the one of the identity handed
over. -/
theorem Call.process_of_acquires {k k' : LeaseKey} (hcall : call.Timely named)
    (hk : call.ownerOnly = true → call.key x.admission = some k ∧ k.process ∈ named)
    (hacq : call.acquires x.admission = some k') : k'.process ∈ named := by
  cases call with
  | reserve d =>
    rw [Draft.process_of_key hacq]
    exact hcall.2 d rfl
  | transfer k₀ target targetOperationId ttl =>
    obtain ⟨hkey, hmem⟩ := hk rfl
    cases hkey
    cases hacq
    exact hmem
  | renew | release | releaseLocked | authorize | reconcile => cases hacq

theorem perform_process (hcall : call.Timely named)
    (hold : ∀ k, e.key = some k → k.process ∈ named) {k : LeaseKey}
    (hk : (perform now pids x e call).2.key = some k) : k.process ∈ named := by
  obtain hsame | ⟨r, hw, -, howner, hacq, -⟩ | ⟨r, k', hw, hk', hkey, hor, -⟩ | ⟨-, hw, -⟩ |
      ⟨hw, -⟩ := perform_cases now pids x e call
  · exact hold k (hsame.1 ▸ hk)
  · rw [hw] at hk
    rw [← Entry.key_written hk]
    exact Call.process_of_acquires (k := k) hcall (fun h => by rw [howner] at h; cases h) hacq
  · rw [hw] at hk
    rw [← Entry.key_written hk]
    rcases hor with hr | hacq
    · rw [hr]; exact hold k' hk'
    · exact Call.process_of_acquires hcall (fun _ => ⟨hkey, hold k' hk'⟩) hacq
  · rw [hw] at hk; cases hk
  · rw [hw] at hk; cases hk

/-- A critical section stores reservations that expire within the maximal lifetime. -/
theorem perform_expiry (hcall : call.Timely named) (hclock : now ≤ x.stamp)
    (hold : ∀ r t, e.read = some r → r.expiresAt = some t → t ≤ now + maxReservationTtl)
    {r : Reservation} {t : ℤ} (hr : (perform now pids x e call).2.read = some r)
    (ht : r.expiresAt = some t) : t ≤ x.stamp + maxReservationTtl := by
  have hnew : ∀ r', (perform now pids x e call).2 = .written x.size r' →
      r'.expiresAt = call.ttl.map (x.stamp + ·) → t ≤ x.stamp + maxReservationTtl := by
    intro r' hw hexp
    rw [hw] at hr
    rw [read_written_key hr, hexp] at ht
    obtain ⟨ttl, httl, rfl⟩ := Option.map_eq_some_iff.1 ht
    have := hcall.1 ttl httl
    omega
  obtain hsame | ⟨r', hw, -, -, -, hexp⟩ | ⟨r', k, hw, -, -, -, hexp⟩ | ⟨-, hw, -⟩ | ⟨hw, -⟩ :=
    perform_cases now pids x e call
  · have := hold r t (hsame.1 ▸ hr) ht
    omega
  · exact hnew r' hw hexp
  · exact hnew r' hw hexp
  · rw [hw] at hr; cases hr
  · rw [hw] at hr; cases hr

variable {sha256 : String → String} {w w' : SlotWorld} {ev : SlotEvent}

open SlotWorld

theorem SlotWorld.Timely.setRunner (h : w.Timely) {i : ℕ} {p : RunnerPlace}
    (hp : ∀ profile c, p = .admitted profile c → c = ⟨w.clock, w.pids, w.entry⟩) :
    (w.setRunner i p).Timely := by
  refine ⟨h.expiry, h.process, h.calls, fun j profile c hj => ?_⟩
  by_cases hji : j = i
  · subst hji
    obtain rfl := hp profile c (by simpa [SlotWorld.setRunner] using hj)
    exact ⟨le_rfl, fun r hr => ⟨fun t ht => h.expiry r t hr ht, id⟩⟩
  · exact h.check j profile c (by simpa [SlotWorld.setRunner, hji] using hj)

theorem SlotWorld.Timely.setStore (h : w.Timely) {i : ℕ} {p : StorePlace}
    (hp : ∀ call, p = .waiting call ∨ p = .locked call → call.Timely w.named) :
    (w.setStore i p).Timely := by
  refine ⟨h.expiry, h.process, fun j call hj => ?_, h.check⟩
  by_cases hji : j = i
  · subst hji
    exact hp call (by simpa [SlotWorld.setStore] using hj)
  · exact h.calls j call (by simpa [SlotWorld.setStore, hji] using hj)

/-- A critical section keeps the invariant: nobody is admitted while it runs. -/
theorem SlotWorld.Timely.perform (h : w.Timely)
    (hcall : call.Timely w.named) (hclock : w.clock ≤ x.stamp)
    (hnone : ∀ i profile c, w.runners i ≠ .admitted profile c) :
    SlotWorld.Timely { w with clock := x.stamp
                              entry := (Horizon.perform w.clock w.pids x w.entry call).2 } :=
  ⟨fun _ _ hr ht => perform_expiry hcall hclock h.expiry hr ht,
    fun _ hk => perform_process hcall h.process hk, h.calls,
    fun i profile c hi => absurd hi (hnone i profile c)⟩

/-- The process table may change as long as no stored reservation's process comes to life. -/
theorem SlotWorld.Timely.setPids (h : w.Timely)
    (hpids : ∀ r, w.entry.read = some r → pids r.controllerPid = some r.controllerStartTicks →
      w.pids r.controllerPid = some r.controllerStartTicks)
    (hnamed : w.named ⊆ named) : SlotWorld.Timely { w with pids := pids, named := named } := by
  refine ⟨h.expiry, fun k hk => hnamed (h.process k hk), fun i call hi => ?_,
    fun i profile c hi => ?_⟩
  · obtain ⟨httl, hdraft⟩ := h.calls i call hi
    exact ⟨httl, fun d hd => hnamed (hdraft d hd)⟩
  · obtain ⟨hnow, hold⟩ := h.check i profile c hi
    exact ⟨hnow, fun r hr => ⟨(hold r hr).1, fun hpid => (hold r hr).2 (hpids r hr hpid)⟩⟩

theorem slotStep_timely (hl : w.LocksHeld) (h : w.Timely) (hs : slotStep sha256 w ev = some w')
    (ht : Timed w ev w') : w'.Timely := by
  cases slotStep_move hs with
  | inspect | clear | inspectorExit | guardLock | guardOwned | guardLost | guardBody |
    guardActive | guardExit => exact ⟨h.expiry, h.process, h.calls, h.check⟩
  | tick now =>
    have hclock : w.clock ≤ now := ht
    refine ⟨fun r t hr ht => ?_, h.process, h.calls, fun i profile c hi => ?_⟩
    · have := h.expiry r t hr ht
      show t ≤ now + maxReservationTtl
      omega
    · obtain ⟨hnow, hold⟩ := h.check i profile c hi
      exact ⟨le_trans hnow hclock, hold⟩
  | spawn pid ticks =>
    refine h.setPids (fun r hr hpid => ?_) (List.subset_cons_self _ _)
    by_cases heq : r.controllerPid = pid
    · -- the new process cannot be the reservation's: its pair is taken
      rw [heq, update_self, Option.some_inj] at hpid
      have hmem : r.key.process ∈ w.named := h.process r.key (Entry.key_of_read hr)
      exact absurd (show (pid, ticks) ∈ w.named by rw [← heq, hpid]; exact hmem) ht
    · rwa [update_of_ne heq] at hpid
  | exit pid =>
    refine h.setPids (fun r _ hpid => ?_) (List.Subset.refl _)
    by_cases heq : r.controllerPid = pid
    · rw [heq, update_self] at hpid
      cases hpid
    · rwa [update_of_ne heq] at hpid
  | share | takeSlot | publish | start | refuse | runnerExit =>
    refine .setRunner ?_ fun _ _ hp => by cases hp
    exact ⟨h.expiry, h.process, h.calls, h.check⟩
  | pass hi hpass => exact h.setRunner fun profile c hc => by cases hc; rfl
  | @storeBegin i q call hi hq =>
    refine h.setStore fun call' hc => ?_
    have hw : (w.setStore i (.waiting call)).stores i = .waiting call := by
      simp [SlotWorld.setStore]
    rcases hc with hc | hc <;> cases hc
    exact ht call hw
  | storeLock hi _ =>
    refine .setStore ?_ fun call' hc => ?_
    · exact ⟨h.expiry, h.process, h.calls, h.check⟩
    · rcases hc with hc | hc <;> cases hc
      exact h.calls _ _ (.inl hi)
  | storeExit i =>
    refine .setStore ?_ fun call' hc => by rcases hc with hc | hc <;> cases hc
    exact ⟨h.expiry, h.process, h.calls, h.check⟩
  | @storeCommit i call x hi =>
    refine .setStore ?_ fun call' hc => by rcases hc with hc | hc <;> cases hc
    refine h.perform (h.calls i call (.inr hi)) ht fun j profile c => ?_
    exact not_admitted (runner_operation_of_store hl (by rw [hi]; rfl) j)
  | @guardRelease i k hi =>
    have hcall : (Call.releaseLocked k (some .update)).Timely w.named :=
      ⟨fun t ht => (by cases ht), fun d hd => (by cases hd)⟩
    refine h.perform (x := { stamp := w.clock }) hcall le_rfl fun j profile c => ?_
    exact not_admitted (runner_operation_of_guard hl (by rw [hi]; rfl) j)

end Critical

/-! ### Whole runs -/

/-- Nobody runs and nothing is reserved.  Slot metadata may be lying about. -/
structure SlotWorld.Idle (w : SlotWorld) : Prop where
  runners : ∀ i, w.runners i = .idle
  inspectors : ∀ i, w.inspectors i = .idle
  stores : ∀ i, w.stores i = .idle
  guards : ∀ i, w.guards i = .idle
  entry : w.entry = .absent

variable {sha256 : String → String} {w₀ w : SlotWorld} {es : List SlotEvent}

open SlotWorld Transition

theorem SlotWorld.Idle.locksHeld (h : w.Idle) : w.LocksHeld := by
  refine ⟨fun a => ?_, fun a => ?_⟩
  · cases a <;> simp [operationPlaces, h.runners, h.stores, h.guards, RunnerPlace.operation,
      StorePlace.operation, GuardPlace.operation]
  · cases a <;> simp [slotPlaces, h.runners, h.inspectors, RunnerPlace.slot, InspectorPlace.slot]

/-- The three invariants that need no assumption on time hold in every run. -/
theorem run_slot_invariant (h₀ : w₀.Idle) (hrun : run (slotStep sha256) w₀ es = some w) :
    w.LocksHeld ∧ w.Fenced ∧ w.Admitted := by
  refine run_invariant (I := fun s => s.LocksHeld ∧ s.Fenced ∧ s.Admitted) ?_ ?_ hrun
  · rintro s ev s' ⟨hl, hf, ha⟩ hstep
    exact ⟨slotStep_locksHeld hl hstep, slotStep_fenced hl hf hstep, slotStep_admitted hl ha hstep⟩
  · refine ⟨h₀.locksHeld, ⟨fun i hi => ?_, fun g k hg => ?_⟩, .inl h₀.entry,
      fun i profile c hi => ?_⟩
    · rw [h₀.runners i] at hi; cases hi
    · rw [h₀.guards g] at hg; cases hg
    · rw [h₀.runners i] at hi; cases hi

theorem run_timely (h₀ : w₀.Idle) (hrun : run (slotStep sha256) w₀ es = some w)
    (ht : Along (slotStep sha256) Timed w₀ es) : w.Timely := by
  have hI : w.LocksHeld ∧ w.Timely := by
    refine along_invariant (I := fun s => s.LocksHeld ∧ s.Timely) ?_ ?_ ht hrun
    · rintro s ev s' ⟨hl, hs⟩ hstep hC
      exact ⟨slotStep_locksHeld hl hstep, slotStep_timely hl hs hstep hC⟩
    · refine ⟨h₀.locksHeld, fun r t hr => ?_, fun k hk => ?_, fun i call hi => ?_,
        fun i profile c hi => ?_⟩
      · rw [h₀.entry] at hr; cases hr
      · rw [h₀.entry] at hk; cases hk
      · rw [h₀.stores i] at hi
        rcases hi with hi | hi <;> cases hi
      · rw [h₀.runners i] at hi; cases hi
  exact hI.2

theorem blocking_at_check (h : w.Timely) {i : ℕ} {profile : ProfileId} {c : Check}
    (hi : w.runners i = .admitted profile c) (hb : Blocking w.clock w.pids profile w.entry) :
    Blocking c.now c.pids profile w.entry := by
  obtain ⟨r, hr, hlive, hor⟩ := hb
  obtain ⟨t, ht, hlt, -, hpid⟩ := live_iff.1 hlive
  obtain ⟨hnow, hold⟩ := h.check i profile c hi
  refine ⟨r, hr, live_iff.2 ⟨t, ht, ?_, (hold r hr).1 t ht, (hold r hr).2 hpid⟩, hor⟩
  omega

/-- **No publication under a running game.**  In every run from an idle machine: while a guard's
body runs, no runner is past its metadata phase.  And a runner that takes `slot.lock` was admitted
by a check of the file that is still stored, in which nothing blocked it; so, if time and processes
behave, nothing blocks it when it takes the lock. -/
theorem publication_excludes_runners (sha256 : String → String) (w₀ w : SlotWorld)
    (es : List SlotEvent) (h₀ : w₀.Idle) (hrun : run (slotStep sha256) w₀ es = some w) :
    (∀ g k, w.guards g = .body k → ∀ i,
      ¬ (w.slot.owner = some (.runner i) ∧ (w.runners i).metadataPassed = true)) ∧
    (∀ i w', slotStep sha256 w (.runnerSlot i) = some w' →
      ∃ profile c, w.runners i = .admitted profile c ∧ c.entry = w.entry ∧
        ¬ Blocking c.now c.pids profile w.entry ∧
        (Along (slotStep sha256) Timed w₀ es → ¬ Blocking w.clock w.pids profile w.entry)) := by
  obtain ⟨-, hf, ha⟩ := run_slot_invariant h₀ hrun
  refine ⟨fun g k hg i ⟨_, hi⟩ => ?_, fun i w' hstep => ?_⟩
  · rw [hf.body g k hg i] at hi
    cases hi
  · cases slotStep_move hstep with
    | @takeSlot _ profile c _ hi _ =>
      obtain ⟨hentry, hstatus⟩ := ha.check i profile c hi
      rw [hentry] at hstatus
      have hcheck : ¬ Blocking c.now c.pids profile w.entry :=
        fun hb => hstatus (hb.status ha.stored)
      exact ⟨profile, c, hi, hentry, hcheck,
        fun ht hb => hcheck (blocking_at_check (run_timely h₀ hrun ht) hi hb)⟩

/-! ### A clock that is set back -/

/-- A machine with one controller process and nobody at work. -/
def idleMachine : SlotWorld where
  clock := 0
  pids := fun pid => if pid = 1 then some 7 else none
  named := [(1, 7)]
  operation := .free
  slot := .free
  entry := .absent
  metadata := none
  runners := fun _ => .idle
  inspectors := fun _ => .idle
  stores := fun _ => .idle
  guards := fun _ => .idle

theorem idleMachine_idle : idleMachine.Idle :=
  ⟨fun _ => rfl, fun _ => rfl, fun _ => rfl, fun _ => rfl, rfl⟩

/-- The controller reserves `minecraft` at instant `0` until instant `1`; at instant `1` a runner
for `pz-rising` checks the reservation. -/
def checkedAtExpiry : List SlotEvent :=
  [.storeBegin 0 soloReserve, .storeLock 0, .storeCommit 0 { stamp := 0 }, .storeExit 0, .tick 1,
   .runnerShare 0 .pzRising false, .runnerCheck 0]

/-- The runner takes the slot at instant `1`, when the reservation is not live. -/
theorem publication_excludes_runners_at_expiry :
    ∃ w, run (slotStep id) idleMachine checkedAtExpiry = some w ∧
      ∃ w', slotStep id w (.runnerSlot 0) = some w' ∧
        ∃ profile c, w.runners 0 = .admitted profile c ∧ c.entry = w.entry ∧
          ¬ Blocking c.now c.pids profile w.entry := by
  have hsome : (run (slotStep id) idleMachine (checkedAtExpiry ++ [.runnerSlot 0])).isSome := by
    decide
  obtain ⟨w', hw'⟩ := Option.isSome_iff_exists.1 hsome
  obtain ⟨w, hw, hstep⟩ := run_snoc.1 hw'
  obtain ⟨profile, c, hi, hentry, hcheck, -⟩ :=
    (publication_excludes_runners id idleMachine w checkedAtExpiry idleMachine_idle hw).2 0 w' hstep
  exact ⟨w, hw, w', hstep, profile, c, hi, hentry, hcheck⟩

/-- If the clock is set back to instant `0` after the check, the runner takes the slot while the
reservation for the other profile is live. -/
theorem slot_taken_under_reservation :
    ∃ w w', run (slotStep id) idleMachine (checkedAtExpiry ++ [.tick 0]) = some w ∧
      slotStep id w (.runnerSlot 0) = some w' ∧
      w'.slot.owner = some (.runner 0) ∧ Blocking w.clock w.pids .pzRising w.entry :=
  ⟨_, _, rfl, rfl, rfl,
    ⟨.minecraft, "op", 0, 1, 7, some 1, .lifecycle, none⟩, by decide, by decide, .inl (by decide)⟩

/-- **One game at a time.**  In every run from an idle machine, while a runner has taken the slot no
other runner has, and no inspector is at the metadata. -/
theorem one_game (sha256 : String → String) (w₀ w : SlotWorld) (es : List SlotEvent)
    (h₀ : w₀.Idle) (hrun : run (slotStep sha256) w₀ es = some w) {i : ℕ}
    (hi : (w.runners i).slot = some .exclusive) :
    (∀ j, (w.runners j).slot ≠ none → j = i) ∧ ∀ k, (w.inspectors k).slot = none := by
  obtain ⟨hl, -⟩ := run_slot_invariant h₀ hrun
  have hslot : w.slotPlaces (.runner i) = some .exclusive := hi
  refine ⟨fun j hj => Actor.runner.inj (hl.slot.exclusion (j := .runner j) hslot hj), fun k => ?_⟩
  by_contra hk
  cases hl.slot.exclusion (j := .inspector k) hslot hk

/-- A second runner has passed its check when the first one takes the slot. -/
def contended : List SlotEvent :=
  checkedAtExpiry ++ [.runnerShare 1 .pzRising false, .runnerCheck 1, .runnerSlot 0]

theorem one_game_contended :
    ∃ w, run (slotStep id) idleMachine contended = some w ∧
      (∃ c, w.runners 1 = .admitted .pzRising c) ∧ slotStep id w (.runnerSlot 1) = none ∧
      ∀ j, (w.runners j).slot ≠ none → j = 0 :=
  ⟨_, rfl, ⟨_, rfl⟩, rfl, (one_game id idleMachine _ contended idleMachine_idle rfl rfl).1⟩

end Horizon
