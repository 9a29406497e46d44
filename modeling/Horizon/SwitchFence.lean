/-
**What a confirmed switch acts on.**

`_confirm_switch` consumes its confirmation, records a job, acquires the slot lease and then stops
the running profile.  These are three critical sections with awaits in between: the consumption
compares the generation of the root state with the confirmation, and nothing compares it again when
the lease is there.  A job of another handler that finishes in between has changed the state that
the confirmation was made for.

The calls run beside the transactions of the other handlers, which are those of the confirmation
fence, and beside any calls on the reservation store.  A daemon serves calls only after its startup
reconciliation.

Main results:

* `switch_acts_on_confirmed_state_iff` — when the source is stopped, no other job has finished
  since the confirmation was created exactly when the generation at the acquisition of the lease was
  the one that the confirmation carries.
-/

import Horizon.Confirmation
import Horizon.ReservationRuns

namespace Horizon

open Option
open Transition (run)
open Function

/-! ### The calls -/

/-- What `_confirm_switch` knows after the consumption. -/
structure SwitchCall where
  confirmationId : ℕ
  actor : String
  payload : JsonDict
  source : ProfileId
  target : ProfileId
  deriving DecidableEq

/-- What held when `reserve_if_available` stored the lease: the jobs that had finished, and the
generation. -/
structure LeaseTime where
  finished : ℕ
  generation : ℤ
  deriving DecidableEq

/-- Where a call of `_confirm_switch` is. -/
inductive SwitchPlace
  | idle
  /-- The confirmation is consumed. -/
  | consumed (s : SwitchCall)
  /-- The job is recorded. -/
  | accepted (s : SwitchCall) (jobId : ℕ)
  /-- `_reserve` has read the generation and waits for the store. -/
  | reserving (s : SwitchCall) (jobId : ℕ) (draft : Draft)
  | leased (s : SwitchCall) (jobId : ℕ) (at_ : LeaseTime)
  /-- `graceful_stop` is called on the source. -/
  | stopping (s : SwitchCall) (jobId : ℕ) (at_ : LeaseTime)
  | ended

/-- The call has consumed its confirmation and has no lease yet. -/
def SwitchPlace.waiting : SwitchPlace → Option SwitchCall
  | consumed s | accepted s _ | reserving s _ _ => some s
  | _ => none

def SwitchPlace.holding : SwitchPlace → Option (SwitchCall × LeaseTime)
  | leased s _ at_ | stopping s _ at_ => some (s, at_)
  | _ => none

/-- The two profiles of the payload; a missing or unknown one raises. -/
def switchProfiles (payload : JsonDict) : Option (ProfileId × ProfileId) := do
  let source ← (strAt payload "source_profile_id").bind ProfileId.ofValue
  let target ← (strAt payload "target_profile_id").bind ProfileId.ofValue
  return (source, target)

/-- `uuid4().hex`: thirty-two hexadecimal digits. -/
def uuidHex (n : ℕ) : String :=
  let digits := Nat.toDigits 16 n
  String.ofList (List.replicate (32 - digits.length) '0' ++ digits)

/-- The arguments with which `_reserve` calls the store, from a daemon with process id `pid`. -/
def leaseRequest (pid : ℤ) (target : ProfileId) (leaseId : String) (generation : ℤ) :
    ReserveRequest :=
  ⟨0, pid, target.value, leaseId, some (30 * 1000000000), generation, none, none, "lifecycle", none⟩

/-- The fence, whether the daemon serves, the reservation store, and the calls. -/
structure SwitchWorld (τ : Type) where
  fence : FenceWorld τ
  serving : Bool
  store : StoreWorld
  switches : ℕ → SwitchPlace

inductive SwitchEvent
  /-- A transaction of another handler or of the startup. -/
  | fence (ev : FenceEvent)
  /-- `_job_intent` of another handler. -/
  | intent (job auditAt : Draw) (actor action : String) (profileId : Option ProfileId)
  /-- The reservation store and its processes. -/
  | store (ev : StoreEvent)
  | confirm (c : ℕ) (now stamp : ℤ) (auditAt : Draw) (actor : String) (id : ℕ)
  | accept (c : ℕ) (job auditAt : Draw)
  | reserve (c : ℕ) (pid : ℤ)
  | acquire (c : ℕ) (stamp : ℤ) (size : ℕ)
  | stop (c : ℕ)
  /-- The call raises or is cancelled, or it has gone on to its end. -/
  | leave (c : ℕ)
  | crash

section Switch

variable {R τ : Type} (codec : ResponseCodec R τ) (sha256 : String → String)

namespace SwitchWorld

variable (w : SwitchWorld τ)

def setSwitch (c : ℕ) (p : SwitchPlace) : SwitchWorld τ :=
  { w with switches := update w.switches c p }

def setDb (db : Db τ) : SwitchWorld τ := { w with fence := { w.fence with db := db } }

end SwitchWorld

def afterConsume (id : ℕ) (actor : String) (payload : JsonDict) : SwitchPlace :=
  match switchProfiles payload with
  | some (source, target) => .consumed ⟨id, actor, payload, source, target⟩
  | none => .ended

def switchStep (w : SwitchWorld τ) : SwitchEvent → Option (SwitchWorld τ)
  | .fence .crash => none
  | .fence (.markIncomplete now) =>
    if w.serving then none
    else (fenceStep codec w.fence (.markIncomplete now)).map fun f => { w with fence := f }
  | .fence .reconciled =>
    if w.serving then none
    else (fenceStep codec w.fence .reconciled).map fun f => { w with fence := f, serving := true }
  | .fence ev => (fenceStep codec w.fence ev).map fun f => { w with fence := f }
  | .intent job auditAt actor action profileId =>
    match (jobIntent job auditAt actor action profileId).transact w.fence.db with
    | some (db, .value _) => some (w.setDb db)
    | _ => none
  | .store ev => (storeStep sha256 w.store ev).map fun s => { w with store := s }
  | .confirm c now stamp auditAt actor id =>
    match w.switches c, w.serving with
    | .idle, true =>
      match (consume now stamp auditAt actor "switch" id).transact w.fence.db with
      | some (db, .value payload) =>
        let counted := update w.fence.consumed id (w.fence.consumed id + 1)
        some ({ w with fence := { w.fence with db := db, consumed := counted } }.setSwitch c
          (afterConsume id actor payload))
      | some (db, _) => some ((w.setDb db).setSwitch c .ended)
      | none => none
    | _, _ => none
  | .accept c job auditAt =>
    match w.switches c with
    | .consumed s =>
      match (jobIntent job auditAt s.actor "switch" (some s.target)).transact w.fence.db with
      | some (db, .value jobId) => some ((w.setDb db).setSwitch c (.accepted s jobId))
      | _ => none
    | _ => none
  | .reserve c pid =>
    match w.switches c with
    | .accepted s jobId =>
      match prepareReserve w.store.pids (leaseRequest pid s.target (uuidHex s.confirmationId)
          w.fence.db.currentGeneration) with
      | .ok draft => some (w.setSwitch c (.reserving s jobId draft))
      | .error _ => some (w.setSwitch c .ended)
    | _ => none
  | .acquire c stamp size =>
    match w.switches c, decide (w.store.clock ≤ stamp) with
    | .reserving s jobId draft, true =>
      match reserveIfAvailable w.store.clock stamp w.store.pids {} size draft w.store.entry with
      | (.ok _, entry) =>
        some ({ w with store := { w.store with clock := stamp, entry := entry } }.setSwitch c
          (.leased s jobId ⟨w.fence.finished, w.fence.db.currentGeneration⟩))
      | (.error _, _) => some (w.setSwitch c .ended)
    | _, _ => none
  | .stop c =>
    match w.switches c with
    | .leased s jobId at_ => some (w.setSwitch c (.stopping s jobId at_))
    | _ => none
  | .leave c =>
    match w.switches c with
    | .idle => none
    | _ => some (w.setSwitch c .ended)
  | .crash =>
    some { w with fence := { w.fence with drafts := fun _ => none }, serving := false
                  switches := fun _ => .idle }

/-! ### What happens to the fence -/

variable {codec} {sha256} {f f' : FenceWorld τ} {db : Db τ} {s : SwitchCall}

/-- The fence stays sound, and confirmations keep their generation and their creation. -/
structure Keeps (f f' : FenceWorld τ) : Prop where
  sound : f.Sound → f'.Sound
  rows : ∀ id row, f.db.confirmations.find id = some row →
    ∃ row', f'.db.confirmations.find id = some row' ∧ row'.stateGeneration = row.stateGeneration
  creations : ∀ id row, f.db.confirmations.find id = some row → f'.creations id = f.creations id

/-- While the daemon serves, moreover, the generation grows by one for each job that finishes. -/
structure Serves (f f' : FenceWorld τ) : Prop extends Keeps f f' where
  exact : f.db.currentGeneration + f'.finished = f'.db.currentGeneration + f.finished

/-- A transaction that touches neither confirmations nor generation. -/
theorem Serves.of_db (hc : db.confirmations = f.db.confirmations)
    (hg : db.applicationId = f.db.applicationId) : Serves f { f with db := db } := by
  have hgen := currentGeneration_congr hg
  refine ⟨⟨fun hs => ?_, fun id row hrow => ⟨row, ?_, rfl⟩, fun id row hrow => rfl⟩, ?_⟩
  · exact hs.frame (.of_eq rfl rfl hgen.ge) hs.drafts hc rfl rfl
  · show db.confirmations.find id = some row
    rw [hc, hrow]
  · show _ + _ = db.currentGeneration + _
    rw [hgen]

theorem Keeps.of_step {ev : FenceEvent} (hstep : fenceStep codec f ev = some f')
    (hb : f.db.currentGeneration < maxGeneration) : Keeps f f' := by
  refine ⟨fun hs => fenceStep_sound hs hstep hb, fun id row hrow => ?_, fun id row hrow => ?_⟩
  · cases fenceStep_move hstep with
    | record | refused | reconciled | crash => exact ⟨row, hrow, rfl⟩
    | insert hc ht =>
      refine ⟨row, ?_, rfl⟩
      have hne := (Sqlite.Table.insert_eq_some ht).1
      show Sqlite.Table.find _ id = some row
      rw [Sqlite.Table.find_insert ht, if_neg, hrow]
      rintro rfl
      rw [hrow] at hne
      cases hne
    | consumed hrow' haction hactor hnew hlive hgen =>
      rename_i now stamp auditAt actor action id' row'
      by_cases hid : id = id'
      · subst hid
        obtain rfl := some.inj (hrow.symm.trans hrow')
        exact ⟨_, find_consumeRow_self stamp hrow hnew, rfl⟩
      · exact ⟨row, (find_consumeRow_of_ne stamp _ hid).trans hrow, rfl⟩
    | finish hc hg | marked hc hg => exact ⟨row, by rw [hc, hrow], rfl⟩
  · cases fenceStep_move hstep with
    | insert hc ht =>
      have hne := (Sqlite.Table.insert_eq_some ht).1
      refine update_of_ne ?_ _ _
      rintro rfl
      rw [hrow] at hne
      cases hne
    | record | consumed | refused | finish | marked | reconciled | crash => rfl

def FenceEvent.isStartup : FenceEvent → Bool
  | .markIncomplete _ | .reconciled => true
  | _ => false

theorem Serves.of_step {ev : FenceEvent} (hstep : fenceStep codec f ev = some f')
    (hev : ev.isStartup = false) (hb : f.db.currentGeneration < maxGeneration) : Serves f f' := by
  refine ⟨.of_step hstep hb, ?_⟩
  have hbump := currentGeneration_bump hb
  cases fenceStep_move hstep with
  | finish hc hg =>
    have hgen := currentGeneration_congr hg
    simp only [hgen, hbump]
    push_cast
    ring
  | marked hc hg => cases hev
  | reconciled => cases hev
  | record | insert | consumed | refused | crash => rfl

/-! ### What a step can do -/

/-- The confirmation is consumed, and since its creation the generation has grown by one for each
job that finished. -/
def Confirmed (f : FenceWorld τ) (s : SwitchCall) : Prop :=
  ∃ row k, f.db.confirmations.find s.confirmationId = some row ∧
    f.creations s.confirmationId = some k ∧
    f.db.currentGeneration + k.finished = row.stateGeneration + f.finished

def Held (f : FenceWorld τ) (s : SwitchCall) (at_ : LeaseTime) : Prop :=
  ∃ row k, f.db.confirmations.find s.confirmationId = some row ∧
    f.creations s.confirmationId = some k ∧
    at_.generation + k.finished = row.stateGeneration + at_.finished

theorem Confirmed.serves (h : Confirmed f s) (hf : Serves f f') : Confirmed f' s := by
  obtain ⟨row, k, hrow, hk, hgen⟩ := h
  obtain ⟨row', hrow', heq⟩ := hf.rows _ row hrow
  have hexact := hf.exact
  refine ⟨row', k, hrow', (hf.creations _ row hrow).trans hk, ?_⟩
  omega

theorem Held.keeps {at_ : LeaseTime} (h : Held f s at_) (hf : Keeps f f') : Held f' s at_ := by
  obtain ⟨row, k, hrow, hk, hgen⟩ := h
  obtain ⟨row', hrow', heq⟩ := hf.rows _ row hrow
  refine ⟨row', k, hrow', (hf.creations _ row hrow).trans hk, ?_⟩
  rw [heq]
  exact hgen

inductive SwitchMove (w : SwitchWorld τ) : SwitchWorld τ → Prop
  | handler {f : FenceWorld τ} (hf : Serves w.fence f) : SwitchMove w { w with fence := f }
  | startup {f : FenceWorld τ} (b : Bool) (hs : w.serving = false) (hf : Keeps w.fence f) :
      SwitchMove w { w with fence := f, serving := b }
  | store (s : StoreWorld) : SwitchMove w { w with store := s }
  | consumed {c : ℕ} {f : FenceWorld τ} {p : SwitchPlace} (hs : w.serving = true)
      (hf : Serves w.fence f) (hp : w.fence.Sound → ∀ s, p.waiting = some s → Confirmed f s)
      (hh : p.holding = none) : SwitchMove w ({ w with fence := f }.setSwitch c p)
  | advance {c : ℕ} {f : FenceWorld τ} {p : SwitchPlace} (hf : Serves w.fence f)
      (hp : ∀ s, p.waiting = some s → (w.switches c).waiting = some s)
      (hh : p.holding = none) : SwitchMove w ({ w with fence := f }.setSwitch c p)
  | leased {c : ℕ} {s : SwitchCall} (store : StoreWorld) (jobId : ℕ)
      (hc : (w.switches c).waiting = some s) :
      SwitchMove w ({ w with store := store }.setSwitch c
        (.leased s jobId ⟨w.fence.finished, w.fence.db.currentGeneration⟩))
  | stop {c : ℕ} {s : SwitchCall} {jobId : ℕ} {at_ : LeaseTime}
      (hc : w.switches c = .leased s jobId at_) :
      SwitchMove w (w.setSwitch c (.stopping s jobId at_))
  | crash (hf : Keeps w.fence { w.fence with drafts := fun _ => none }) :
      SwitchMove w { w with fence := { w.fence with drafts := fun _ => none }
                            serving := false, switches := fun _ => .idle }

variable {w w' : SwitchWorld τ} {ev : SwitchEvent} {c : ℕ} {p : SwitchPlace}

theorem Serves.refl (f : FenceWorld τ) : Serves f f :=
  ⟨⟨fun hs => hs, fun _ row hrow => ⟨row, hrow, rfl⟩, fun _ _ _ => rfl⟩, rfl⟩

/-- A call that only moves on keeps the fence. -/
theorem SwitchMove.place (hp : ∀ s, p.waiting = some s → (w.switches c).waiting = some s)
    (hh : p.holding = none) : SwitchMove w (w.setSwitch c p) :=
  .advance (.refl w.fence) hp hh

/-- `_job_intent` touches neither confirmations nor generation. -/
theorem Serves.of_jobIntent {job auditAt : Draw} {actor action : String}
    {profileId : Option ProfileId} {id : ℕ}
    (h : (jobIntent job auditAt actor action profileId).transact f.db = some (db, .value id)) :
    Serves f { f with db := db } := by
  obtain ⟨he, -⟩ := Sqlite.Prog.transact_eq_some (seals_jobIntent _ _ _ _ _) h
  obtain ⟨-, tj, ta, -, rfl⟩ := eval_jobIntent he
  exact .of_db rfl rfl

/-- After a consumption the confirmation carries the present generation, and no job has finished
since it was recorded. -/
theorem confirmed_of_consume {now stamp : ℤ} {auditAt : Draw} {actor : String} {id : ℕ}
    {payload : JsonDict}
    (h : (consume now stamp auditAt actor "switch" id).transact f.db = some (db, .value payload))
    (hs : f.Sound) (hid : s.confirmationId = id) :
    Confirmed { f with db := db, consumed := update f.consumed id (f.consumed id + 1) } s := by
  obtain ⟨he, hne⟩ := Sqlite.Prog.transact_eq_some (seals_consume _ _ _ _ _ _) h
  rcases eval_consume he hne with ⟨row, hrow, -, -, hnew, -, hgen, -, rfl⟩ | ⟨-, e, hr⟩
  · obtain ⟨k, hk, hrec⟩ := hs.rows id row hrow
    obtain ⟨hfinished, -⟩ := hrec.current hgen
    subst hid
    refine ⟨row.consumed stamp, k, find_consumeRow_self stamp hrow hnew, hk, ?_⟩
    show f.db.currentGeneration + _ = row.stateGeneration + _
    rw [hgen, hfinished]
  · cases hr

/-- Every step is one of the moves, as long as the generation has room. -/
theorem switchStep_move (h : switchStep codec sha256 w ev = some w')
    (hb : w.fence.db.currentGeneration < maxGeneration) : SwitchMove w w' := by
  cases ev with
  | fence ev =>
    have hhandler (hev : ev.isStartup = false)
        (h : (fenceStep codec w.fence ev).map (fun f => { w with fence := f }) = some w') :
        SwitchMove w w' := by
      obtain ⟨f, hf, rfl⟩ := map_eq_some_iff.1 h
      exact .handler (.of_step hf hev hb)
    cases ev with
    | record | insert | consume | finish => exact hhandler rfl h
    | markIncomplete now =>
      simp only [switchStep] at h
      split at h
      · cases h
      · rename_i hs
        obtain ⟨f, hf, rfl⟩ := map_eq_some_iff.1 h
        exact .startup w.serving (by simpa using hs) (.of_step hf hb)
    | reconciled =>
      simp only [switchStep] at h
      split at h
      · cases h
      · rename_i hs
        obtain ⟨f, hf, rfl⟩ := map_eq_some_iff.1 h
        exact .startup true (by simpa using hs) (.of_step hf hb)
    | crash => cases h
  | intent job auditAt actor action profileId =>
    simp only [switchStep] at h
    split at h <;> cases h
    exact .handler (.of_jobIntent ‹_›)
  | store ev =>
    obtain ⟨s, -, rfl⟩ := map_eq_some_iff.1 h
    exact .store s
  | confirm c now stamp auditAt actor id =>
    simp only [switchStep] at h
    split at h
    · rename_i hidle hserving
      cases ho : (consume now stamp auditAt actor "switch" id).transact w.fence.db with
      | none => rw [ho] at h; cases h
      | some out =>
        obtain ⟨db, r⟩ := out
        rw [ho] at h
        obtain ⟨he, hne⟩ := Sqlite.Prog.transact_eq_some (seals_consume _ _ _ _ _ _) ho
        cases r with
        | sqliteError => exact absurd rfl hne
        | value payload =>
          cases h
          have hfence : fenceStep codec w.fence (.consume now stamp auditAt actor "switch" id) =
              some { w.fence with
                db := db, consumed := update w.fence.consumed id (w.fence.consumed id + 1) } := by
            simp only [fenceStep, ho]
          refine .consumed hserving (.of_step hfence rfl hb) (fun hs s hp => ?_) ?_
          · -- the place records the id it consumed
            have hid : s.confirmationId = id := by
              unfold afterConsume at hp
              split at hp <;> cases hp
              rfl
            exact confirmed_of_consume ho hs hid
          · unfold afterConsume
            split <;> rfl
        | raised e =>
          cases h
          have hfence : fenceStep codec w.fence (.consume now stamp auditAt actor "switch" id) =
              some { w.fence with db := db } := by
            simp only [fenceStep, ho]
          exact .advance (.of_step hfence rfl hb) (fun _ hp => by cases hp) rfl
    · cases h
  | accept c job auditAt =>
    simp only [switchStep] at h
    split at h
    · rename_i s hc
      split at h <;> cases h
      refine .advance (.of_jobIntent ‹_›) (fun s' hp => ?_) rfl
      rw [hc]
      exact hp
    · cases h
  | reserve c pid =>
    simp only [switchStep] at h
    split at h
    · rename_i s jobId hc
      split at h
      · cases h
        refine .place (fun s' hp => ?_) rfl
        rw [hc]
        exact hp
      · cases h
        exact .place (fun _ hp => by cases hp) rfl
    · cases h
  | acquire c stamp size =>
    simp only [switchStep] at h
    split at h
    · rename_i s jobId draft hc hclock
      split at h
      · rename_i r entry hres
        cases h
        exact .leased { w.store with clock := stamp, entry := entry } jobId (by rw [hc]; rfl)
      · cases h
        exact .place (fun _ hp => by cases hp) rfl
    · cases h
  | stop c =>
    simp only [switchStep] at h
    split at h <;> cases h
    exact .stop ‹_›
  | leave c =>
    simp only [switchStep] at h
    split at h <;> cases h
    exact .place (fun _ hp => by cases hp) rfl
  | crash =>
    cases h
    have hcrash : fenceStep codec w.fence .crash =
        some { w.fence with drafts := fun _ => none } := rfl
    exact .crash (.of_step hcrash hb)

/-! ### The invariant -/

/-- The fence is sound, a call that waits for its lease is tracked by the generation, and so was a
call that holds it; no call waits in a daemon that does not serve. -/
structure SwitchWorld.Sound (w : SwitchWorld τ) : Prop where
  fence : w.fence.Sound
  waiting : ∀ c s, (w.switches c).waiting = some s → Confirmed w.fence s
  holding : ∀ c s at_, (w.switches c).holding = some (s, at_) → Held w.fence s at_
  idle : w.serving = false → ∀ c, (w.switches c).waiting = none

/-- A run starts with a fresh fence and no calls. -/
structure SwitchWorld.Fresh (w : SwitchWorld τ) : Prop where
  fence : w.fence.Fresh
  switches : ∀ c, w.switches c = .idle

theorem SwitchWorld.Fresh.sound (h : w.Fresh) : w.Sound := by
  refine ⟨h.fence.sound, fun c s hc => ?_, fun c s at_ hc => ?_, fun _ c => ?_⟩
  · rw [h.switches] at hc
    cases hc
  · rw [h.switches] at hc
    cases hc
  · rw [h.switches]
    rfl

/-- One call moves and the others stay: what the new place of the call needs. -/
theorem SwitchWorld.Sound.set (h : w.Sound) (hf : Serves w.fence w'.fence)
    (hserving : w'.serving = w.serving) (hsw : w'.switches = update w.switches c p)
    (hw : ∀ s, p.waiting = some s → w.serving = true ∧ Confirmed w'.fence s)
    (hh : ∀ s at_, p.holding = some (s, at_) → Held w'.fence s at_) : w'.Sound := by
  refine ⟨hf.sound h.fence, fun c' s hc => ?_, fun c' s at_ hc => ?_, fun hs c' => ?_⟩
  · rw [hsw] at hc
    by_cases he : c' = c
    · subst he
      rw [update_self] at hc
      exact (hw s hc).2
    · rw [update_of_ne he] at hc
      exact (h.waiting c' s hc).serves hf
  · rw [hsw] at hc
    by_cases he : c' = c
    · subst he
      rw [update_self] at hc
      exact hh s at_ hc
    · rw [update_of_ne he] at hc
      exact (h.holding c' s at_ hc).keeps hf.toKeeps
  · rw [hserving] at hs
    rw [hsw]
    by_cases he : c' = c
    · subst he
      rw [update_self]
      cases hp : p.waiting with
      | none => rfl
      | some s =>
        have htrue := (hw s hp).1
        rw [hs] at htrue
        cases htrue
    · rw [update_of_ne he]
      exact h.idle hs c'

theorem SwitchWorld.Sound.serving_of_waiting (h : w.Sound) (hc : (w.switches c).waiting = some s) :
    w.serving = true := by
  cases hs : w.serving with
  | true => rfl
  | false =>
    rw [h.idle hs c] at hc
    cases hc

/-- **The invariant is kept by every step**, as long as the generation has room. -/
theorem switchStep_sound (h : w.Sound) (hstep : switchStep codec sha256 w ev = some w')
    (hb : w.fence.db.currentGeneration < maxGeneration) : w'.Sound := by
  cases switchStep_move hstep hb with
  | handler hf =>
    exact ⟨hf.sound h.fence, fun c s hc => (h.waiting c s hc).serves hf,
      fun c s at_ hc => (h.holding c s at_ hc).keeps hf.toKeeps, h.idle⟩
  | startup b hs hf =>
    refine ⟨hf.sound h.fence, fun c s hc => ?_, fun c s at_ hc => (h.holding c s at_ hc).keeps hf,
      fun _ c => h.idle hs c⟩
    rw [h.idle hs c] at hc
    cases hc
  | store s => exact ⟨h.fence, h.waiting, h.holding, h.idle⟩
  | consumed hs hf hp hh =>
    refine h.set hf rfl rfl (fun s hw => ⟨hs, hp h.fence s hw⟩) (fun s at_ hc => ?_)
    rw [hh] at hc
    cases hc
  | advance hf hp hh =>
    refine h.set hf rfl rfl (fun s hw => ?_) (fun s at_ hc => ?_)
    · have hwait := hp s hw
      exact ⟨h.serving_of_waiting hwait, (h.waiting _ s hwait).serves hf⟩
    · rw [hh] at hc
      cases hc
  | leased store jobId hc =>
    refine h.set (.refl w.fence) rfl rfl (fun s hw => by cases hw) (fun s at_ hheld => ?_)
    cases hheld
    exact h.waiting _ _ hc
  | stop hc =>
    refine h.set (.refl w.fence) rfl rfl (fun s hw => by cases hw) (fun s at_ hheld => ?_)
    exact h.holding _ s at_ (by rw [hc]; exact hheld)
  | crash hf =>
    refine ⟨hf.sound h.fence, fun c s hc => ?_, fun c s at_ hc => ?_, fun _ c => rfl⟩
    · cases hc
    · cases hc

/-- **A confirmed switch acts on the state that was confirmed exactly when the generation has not
moved.**  In every run in which the generation has room, when `graceful_stop` is called, no job has
finished between the recording of the consumed confirmation and the acquisition of the lease if and
only if the generation at that acquisition was the one that the confirmation carries.  The job of
the switch itself is not finished before. -/
theorem switch_acts_on_confirmed_state_iff (codec : ResponseCodec R τ) (sha256 : String → String)
    (w₀ w : SwitchWorld τ) (es : List SwitchEvent) (h₀ : w₀.Fresh)
    (hrun : run (switchStep codec sha256) w₀ es = some w)
    (hroom : Transition.Along (switchStep codec sha256)
      (fun s _ _ => s.fence.db.currentGeneration < maxGeneration) w₀ es) (c : ℕ) (s : SwitchCall)
    (jobId : ℕ) (at_ : LeaseTime) (hc : w.switches c = .stopping s jobId at_) :
    ∃ row k, w.fence.db.confirmations.find s.confirmationId = some row ∧
      w.fence.creations s.confirmationId = some k ∧
      (at_.finished = k.finished ↔ at_.generation = row.stateGeneration) := by
  have hsound : w.Sound :=
    Transition.along_invariant (fun _ _ _ hs hstep hb => switchStep_sound hs hstep hb)
      h₀.sound hroom hrun
  obtain ⟨row, k, hrow, hk, hgen⟩ := hsound.holding c s at_ (by rw [hc]; rfl)
  refine ⟨row, k, hrow, hk, ?_⟩
  omega

end Switch

/-! ### A command that finishes between consumption and lease -/

/-- A daemon that serves, as process one, on a new database and with no reservation. -/
def newSwitches : SwitchWorld (Option (RpcResponse ℕ)) :=
  ⟨newFence, true, ⟨0, update (fun _ => none) 1 (some 1), .absent, fun _ => none, [(1, 1)]⟩,
    fun _ => .idle⟩

theorem newSwitches_fresh : newSwitches.Fresh := ⟨newFence_fresh, fun _ => rfl⟩

/-- A switch is prepared; another client's command has been accepted; the switch is confirmed. -/
def switchConfirmed : List SwitchEvent :=
  [.fence (.record 0 ⟨70, 0⟩ "web:admin" "switch" .minecraft
      [("source_profile_id", .str "minecraft"), ("target_profile_id", .str "pz-rising")]),
   .fence (.insert 0),
   .intent ⟨5, 1⟩ ⟨100, 1⟩ "web:operator" "command" (some .minecraft),
   .confirm 0 2 2 ⟨101, 2⟩ "web:admin" 70]

/-- The rest of the switch up to the stop of the source. -/
def switchStopped : List SwitchEvent :=
  [.accept 0 ⟨6, 4⟩ ⟨103, 4⟩, .reserve 0 1, .acquire 0 5 256, .stop 0]

def commandFinished : SwitchEvent :=
  .fence (.finish 3 ⟨102, 3⟩ 5 "web:operator" "command" (some .minecraft) ⟨true, none, "", none⟩)

/-- When the command is still running, the switch acts on the state that was confirmed. -/
theorem switch_acts_on_confirmed_state_iff_undisturbed :
    ∃ w s jobId at_ k, run (switchStep (.plain ℕ) id) newSwitches
        (switchConfirmed ++ switchStopped) = some w ∧
      w.switches 0 = .stopping s jobId at_ ∧ w.fence.creations s.confirmationId = some k ∧
      at_.finished = k.finished := by
  obtain ⟨w, s, jobId, at_, hw, hc, hrow⟩ : ∃ w s jobId at_,
      run (switchStep (.plain ℕ) id) newSwitches
        (switchConfirmed ++ switchStopped) = some w ∧
      w.switches 0 = .stopping s jobId at_ ∧
      (w.fence.db.confirmations.find s.confirmationId).map ConfirmationRow.stateGeneration =
        some at_.generation :=
    ⟨_, _, _, _, rfl, rfl, rfl⟩
  obtain ⟨row, k, hfind, hk, hiff⟩ := switch_acts_on_confirmed_state_iff (.plain ℕ) id newSwitches w
    _ newSwitches_fresh hw (by decide) 0 s jobId at_ hc
  rw [hfind] at hrow
  exact ⟨w, s, jobId, at_, k, hw, hc, hk, hiff.2 (some.inj hrow).symm⟩

/-- When the command finishes after the consumption, the switch stops the source all the same. -/
theorem switch_after_finished_command :
    ∃ w s jobId at_ k, run (switchStep (.plain ℕ) id) newSwitches
        (switchConfirmed ++ commandFinished :: switchStopped) = some w ∧
      w.switches 0 = .stopping s jobId at_ ∧ w.fence.creations s.confirmationId = some k ∧
      k.finished < at_.finished :=
  ⟨_, _, _, _, _, rfl, rfl, rfl, by decide⟩

end Horizon
