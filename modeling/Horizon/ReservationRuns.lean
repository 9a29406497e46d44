/-
**Runs of the reservation store: leases are exclusive.**

Any number of processes call the methods of `ReservationStore` on one file.  A call checks its
arguments and fixes the identity it acts for before it waits for `operation.lock`; the rest of it
is one critical section.  So a call is two events, `begin` and `commit`, and between them anything
may happen to the clock, to the processes and to the file.  `reconcile` reads the file in its first
event as well.  A process that exits takes its waiting calls with it.

Main results:

* `storeStep_live_unchanged` — **a live reservation is only touched by its owner**;
* `lease_exclusive` — the same over whole runs, with what becomes of an identity that is
  no longer stored.
-/

import Horizon.Transition
import Horizon.Reservation

namespace Horizon

open Option
open Function Transition

/-! ### The two halves of a call -/

inductive Request
  | reserve (q : ReserveRequest)
  | renew (q : OwnerRequest) (kind : Option OperationKind) (ttl : Option ℤ)
  | transfer (q : OwnerRequest) (target targetOperationId : String) (ttl : Option ℤ)
  | release (q : OwnerRequest) (kind : Option OperationKind)
  | releaseLocked (q : OwnerRequest) (kind : Option OperationKind)
  | authorize (profile token operationKind : String)
  | reconcile (euid : ℕ)

/-- A call that has passed its checks and waits for `operation.lock`. -/
inductive Call
  | reserve (d : Draft)
  | renew (k : LeaseKey) (kind : Option OperationKind) (ttl : Option ℤ)
  | transfer (k : LeaseKey) (target : ProfileId) (targetOperationId : String) (ttl : Option ℤ)
  | release (k : LeaseKey) (kind : Option OperationKind)
  | releaseLocked (k : LeaseKey) (kind : Option OperationKind)
  | authorize (profileId : ProfileId) (kind : OperationKind) (expected : String)
  | reconcile
  deriving DecidableEq

/-- The first half of a call.  `none` is `reconcile` returning at its unlocked read. -/
def prepare (sha256 : String → String) (now : ℤ) (pids : PidTable) (e : Entry) :
    Request → Except PyError (Option Call)
  | .reserve q => do return some (.reserve (← prepareReserve pids q))
  | .renew q kind ttl => do return some (.renew (← prepareOwner pids q) kind ttl)
  | .transfer q target targetOperationId ttl => do
    let _ ← profileOf q.profile
    let target ← profileOf target
    return some (.transfer (← prepareOwner pids q) target targetOperationId ttl)
  | .release q kind => do return some (.release (← prepareOwner pids q) kind)
  | .releaseLocked q kind => do return some (.releaseLocked (← prepareOwner pids q) kind)
  | .authorize profile token operationKind => do
    let profileId ← profileOf profile
    let some kind := OperationKind.ofValue operationKind
      | throw (.valueError "invalid operation kind")
    return some (.authorize profileId kind (← capabilityDigest sha256 token))
  | .reconcile euid =>
    if euid ≠ 0 then throw (.permissionError "only root may reconcile reservations")
    else return if reconcileProceeds now pids e then some .reconcile else none

/-- What the environment supplies to a critical section: the clock when the new expiry is computed,
the callbacks' results and the length of the file written. -/
structure Section where
  stamp : ℤ
  admission : Admission := {}
  size : ℕ := 0

inductive Outcome
  | reservation (r : Reservation)
  | flag (b : Bool)
  | raised (e : PyError)
  deriving DecidableEq

def Outcome.ofExcept : Except PyError Reservation → Outcome
  | .ok r => .reservation r
  | .error e => .raised e

/-- A call that obtained a reservation, or reported that it removed one. -/
def Outcome.succeeded : Outcome → Bool
  | .reservation _ => true
  | .flag b => b
  | .raised _ => false

/-- The second half of a call: its critical section. -/
def perform (now : ℤ) (pids : PidTable) (x : Section) (e : Entry) : Call → Outcome × Entry
  | .reserve d =>
    let out := reserveIfAvailable now x.stamp pids x.admission x.size d e
    (.ofExcept out.1, out.2)
  | .renew k kind ttl =>
    let out := renewIfOwned now x.stamp pids k kind ttl x.size e
    (.ofExcept out.1, out.2)
  | .transfer k target targetOperationId ttl =>
    let out := transferIfOwned x.stamp k target targetOperationId ttl x.size e
    (.ofExcept out.1, out.2)
  | .release k kind => let out := releaseIfOwned k kind e; (.flag out.1, out.2)
  | .releaseLocked k kind => let out := releaseIfOwnedLocked k kind e; (.flag out.1, out.2)
  | .authorize profileId kind expected =>
    (.ofExcept (authorizeHandoff now pids profileId kind expected e), e)
  | .reconcile => let out := reconcileLocked now pids e; (.flag out.1, out.2)

/-! ### Identities -/

/-- The identity a reserve call stores, if its generation is a valid one. -/
def Draft.key (d : Draft) (a : Admission) : Option LeaseKey :=
  match a.generation d.stateGeneration with
  | .ok g => some ⟨d.profileId, d.operationId, g, d.controllerPid, d.controllerStartTicks⟩
  | .error _ => none

def Call.key (a : Admission) : Call → Option LeaseKey
  | .reserve d => d.key a
  | .renew k _ _ => some k
  | .transfer k _ _ _ => some k
  | .release k _ => some k
  | .releaseLocked k _ => some k
  | .authorize _ _ _ => none
  | .reconcile => none

/-- The identity a transfer hands the lease to. -/
def LeaseKey.handedTo (k : LeaseKey) (target : ProfileId) (targetOperationId : String) : LeaseKey :=
  { k with profileId := target, operationId := targetOperationId }

/-- The identity under which a call may store a reservation that was not stored before. -/
def Call.acquires (a : Admission) : Call → Option LeaseKey
  | .reserve d => d.key a
  | .transfer k target targetOperationId _ => some (k.handedTo target targetOperationId)
  | _ => none

/-- The lifetime a call asks for; `none` for a call that writes nothing and for a lifetime that is
not finite. -/
def Call.ttl : Call → Option ℤ
  | .reserve d => some d.ttl
  | .renew _ _ ttl => ttl
  | .transfer _ _ _ ttl => ttl
  | _ => none

/-- `renew`, `transfer` and `release` calls. -/
def Call.ownerOnly : Call → Bool
  | .renew _ _ _ | .transfer _ _ _ _ | .release _ _ | .releaseLocked _ _ => true
  | _ => false

def Entry.key (e : Entry) : Option LeaseKey := e.read.map Reservation.key

variable {k : LeaseKey} {r : Reservation} {a : Admission} {d : Draft}

theorem Entry.key_written {size : ℕ} (h : (Entry.written size r).key = some k) : r.key = k := by
  obtain ⟨r', hr', rfl⟩ := map_eq_some_iff.1 h
  rw [read_written_key hr']

theorem owned_key {kind : Option OperationKind} (h : owned k kind r = true) : r.key = k := by
  simp only [owned, Bool.and_eq_true, decide_eq_true_eq] at h
  exact h.1

theorem Draft.key_reservation {g : ℤ} (stamp : ℤ) (h : a.generation d.stateGeneration = .ok g) :
    d.key a = some (d.reservation g stamp).key := by
  simp [Draft.key, h, Draft.reservation, Reservation.key]

/-! ### What a critical section does to the file -/

section Sections

variable {now stamp : ℤ} {pids : PidTable} {x : Section} {e : Entry}

/-- An admitted draft found no live reservation and becomes a record under its own identity. -/
theorem admitDraft_ok (h : admitDraft now stamp pids a d e = .ok r) :
    e.read.any (live now pids) = false ∧ d.key a = some r.key ∧
      r.expiresAt = some (stamp + d.ttl) := by
  unfold admitDraft at h
  rcases hread : e.readForAdmission with err | current
  · rw [hread] at h; cases h
  rw [hread] at h
  rw [Entry.read_of_readForAdmission hread]
  cases hlive : current.any (live now pids) with
  | true => simp [hlive, throw, throwThe, MonadExceptOf.throw, bind, Except.bind] at h
  | false =>
    rcases hav : a.available with err | u
    · simp [hlive, hav, bind, Except.bind] at h
    rcases hgen : a.generation d.stateGeneration with err | g
    · simp [hlive, hav, hgen, bind, Except.bind] at h
    · simp only [hlive, hav, hgen, bind, Except.bind, pure, Except.pure, Bool.false_eq_true,
        if_false, Except.ok.injEq] at h
      exact ⟨rfl, h ▸ Draft.key_reservation stamp hgen, h ▸ rfl⟩

/-- **Everything a critical section can do to the file**: leave it; store a draft where nothing was
live; rewrite a live reservation in the name of its owner; hand an owned one over; remove an owned
one; remove one that is not live. -/
theorem perform_cases (now : ℤ) (pids : PidTable) (x : Section) (e : Entry) (call : Call) :
    ((perform now pids x e call).2 = e ∧
      ((perform now pids x e call).1.succeeded = true → call.ownerOnly = false)) ∨
    (∃ r, (perform now pids x e call).2 = .written x.size r ∧ e.read.any (live now pids) = false ∧
      call.ownerOnly = false ∧ call.acquires x.admission = some r.key ∧
      r.expiresAt = call.ttl.map (x.stamp + ·)) ∨
    (∃ r k, (perform now pids x e call).2 = .written x.size r ∧ e.key = some k ∧
      call.key x.admission = some k ∧ (r.key = k ∨ call.acquires x.admission = some r.key) ∧
      r.expiresAt = call.ttl.map (x.stamp + ·)) ∨
    (∃ k, (perform now pids x e call).2 = .absent ∧ e.key = some k ∧
      call.key x.admission = some k) ∨
    ((perform now pids x e call).2 = .absent ∧ e.read.any (live now pids) = false ∧
      call.ownerOnly = false) := by
  cases call with
  | reserve d =>
    simp only [perform, reserveIfAvailable]
    cases h : admitDraft now x.stamp pids x.admission d e with
    | error err => exact .inl ⟨rfl, fun h => by cases h⟩
    | ok r =>
      obtain ⟨hdead, hkey, hexp⟩ := admitDraft_ok h
      exact .inr (.inl ⟨r, rfl, hdead, rfl, hkey, hexp⟩)
  | renew k kind ttl =>
    simp only [perform, renewIfOwned]
    cases h : e.read.filter (fun r => owned k kind r && live now pids r) with
    | none => exact .inl ⟨rfl, fun h => by cases h⟩
    | some r =>
      obtain ⟨hr, hown⟩ := filter_eq_some_iff.1 h
      have hk : r.key = k := owned_key (Bool.and_eq_true_iff.1 hown).1
      exact .inr (.inr (.inl ⟨_, k, rfl, by rw [Entry.key, hr, map_some, hk], rfl,
        .inl hk, rfl⟩))
  | transfer k target targetOperationId ttl =>
    simp only [perform, transferIfOwned]
    cases h : e.read.filter (owned k none) with
    | none => exact .inl ⟨rfl, fun h => by cases h⟩
    | some r =>
      obtain ⟨hr, hown⟩ := filter_eq_some_iff.1 h
      have hk : r.key = k := owned_key hown
      refine .inr (.inr (.inl ⟨_, k, rfl, by rw [Entry.key, hr, map_some, hk], rfl,
        .inr ?_, rfl⟩))
      rw [← hk]; rfl
  | release k kind | releaseLocked k kind =>
    simp only [perform, releaseIfOwnedLocked, releaseIfOwned]
    split
    · rename_i h
      obtain ⟨r, hr, hown⟩ := (any_eq_true _ _).1 h
      exact .inr (.inr (.inr (.inl ⟨k, rfl,
        by rw [Entry.key, hr, map_some, owned_key hown], rfl⟩)))
    · exact .inl ⟨rfl, fun h => by cases h⟩
  | authorize profileId kind expected => exact .inl ⟨rfl, fun _ => rfl⟩
  | reconcile =>
    simp only [perform, reconcileLocked]
    split
    · exact .inl ⟨rfl, fun h => by cases h⟩
    · rename_i hlive
      split
      · exact .inr (.inr (.inr (.inr ⟨rfl, by simpa using hlive, rfl⟩)))
      · exact .inl ⟨rfl, fun h => by cases h⟩

end Sections

/-! ### Interleavings -/

/-- The machine: its clock, its processes, the file, the calls that wait for the lock with the
process each belongs to, and the `(pid, start_ticks)` pairs that have named a process. -/
structure StoreWorld where
  clock : ℤ
  pids : PidTable
  entry : Entry
  calls : ℕ → Option (ℤ × Call)
  named : List (ℤ × ℤ)

inductive StoreEvent
  | tick (now : ℤ)
  | spawn (pid ticks : ℤ)
  | exit (pid : ℤ)
  | begin (c : ℕ) (pid : ℤ) (q : Request)
  | commit (c : ℕ) (x : Section)

/-- The clock does not go back and no `(pid, start_ticks)` pair names two processes. -/
def storeStep (sha256 : String → String) (w : StoreWorld) : StoreEvent → Option StoreWorld
  | .tick now => if w.clock ≤ now then some { w with clock := now } else none
  | .spawn pid ticks =>
    if w.pids pid = none ∧ (pid, ticks) ∉ w.named then
      some { w with pids := update w.pids pid (some ticks),
                    named := (pid, ticks) :: w.named }
    else none
  | .exit pid =>
    some { w with pids := update w.pids pid none,
                  calls := fun c => (w.calls c).filter fun call => call.1 ≠ pid }
  | .begin c pid q =>
    if w.calls c = none ∧ (w.pids pid).isSome then
      match prepare sha256 w.clock w.pids w.entry q with
      | .ok (some call) => some { w with calls := update w.calls c (some (pid, call)) }
      | _ => some w
    else none
  | .commit c x =>
    match w.calls c with
    | some (_, call) =>
      if w.clock ≤ x.stamp then
        some { w with clock := x.stamp
                      entry := (perform w.clock w.pids x w.entry call).2
                      calls := update w.calls c none }
      else none
    | none => none

/-- The call whose critical section an event runs. -/
def StoreWorld.committed (w : StoreWorld) : StoreEvent → Option (Call × Section)
  | .commit c x => (w.calls c).map fun call => (call.2, x)
  | _ => none

section Steps

variable {sha256 : String → String} {w w' : StoreWorld} {ev : StoreEvent}

/-- The file changes in critical sections only. -/
theorem storeStep_entry (h : storeStep sha256 w ev = some w') :
    w'.entry = w.entry ∨ ∃ call x, w.committed ev = some (call, x) ∧
      w'.entry = (perform w.clock w.pids x w.entry call).2 := by
  cases ev with
  | tick | spawn =>
    simp only [storeStep, ite_none_right_eq_some, some.injEq] at h
    exact .inl (h.2 ▸ rfl)
  | exit pid => exact .inl (some.inj h ▸ rfl)
  | begin c pid q =>
    simp only [storeStep, ite_none_right_eq_some] at h
    split at h <;> exact .inl (some.inj h.2 ▸ rfl)
  | commit c x =>
    cases hc : w.calls c with
    | none => simp [storeStep, hc] at h
    | some call =>
      simp only [storeStep, hc, ite_none_right_eq_some, some.injEq] at h
      exact .inr ⟨call.2, x, by simp [StoreWorld.committed, hc], h.2 ▸ rfl⟩

/-- The event is made with identity `k`. -/
def StoreWorld.actsFor (w : StoreWorld) (ev : StoreEvent) (k : LeaseKey) : Prop :=
  ∃ call x, w.committed ev = some (call, x) ∧ call.key x.admission = some k

/-- The event may store a reservation under identity `k` anew. -/
def StoreWorld.acquires (w : StoreWorld) (ev : StoreEvent) (k : LeaseKey) : Prop :=
  ∃ call x, w.committed ev = some (call, x) ∧ call.acquires x.admission = some k

/-- **A live reservation is only touched by its owner.** -/
theorem storeStep_live_unchanged (h : storeStep sha256 w ev = some w')
    (hr : w.entry.read = some r) (hlive : live w.clock w.pids r = true)
    (hother : ¬ w.actsFor ev r.key) : w'.entry = w.entry := by
  obtain heq | ⟨call, x, hcall, heq⟩ := storeStep_entry h
  · exact heq
  have hany : w.entry.read.any (live w.clock w.pids) = true := by rw [hr]; exact hlive
  have hkey : ∀ k, w.entry.key = some k → call.key x.admission ≠ some k := by
    intro k hk hc
    rw [Entry.key, hr] at hk
    exact hother ⟨call, x, hcall, by rw [hc, ← hk]; rfl⟩
  rw [heq]
  obtain hsame | ⟨r', -, hdead, -⟩ | ⟨r', k, -, hk, hc, -⟩ | ⟨k, -, hk, hc⟩ | ⟨-, hdead, -⟩ :=
    perform_cases w.clock w.pids x w.entry call
  · exact hsame.1
  · rw [hany] at hdead; cases hdead
  · exact absurd hc (hkey k hk)
  · exact absurd hc (hkey k hk)
  · rw [hany] at hdead; cases hdead

/-- An identity that comes to be stored is one the event's call acquires. -/
theorem storeStep_acquires (h : storeStep sha256 w ev = some w') (hk : w.entry.key ≠ some k)
    (hstored : w'.entry.key = some k) : w.acquires ev k := by
  obtain heq | ⟨call, x, hcall, heq⟩ := storeStep_entry h
  · exact absurd (heq ▸ hstored) hk
  rw [heq] at hstored
  obtain hsame | ⟨r, hw, -, -, hc, -⟩ | ⟨r, k', hw, hk', -, hor, -⟩ | ⟨-, hw, -⟩ | ⟨hw, -⟩ :=
    perform_cases w.clock w.pids x w.entry call
  · exact absurd (hsame.1 ▸ hstored) hk
  · rw [hw] at hstored
    exact ⟨call, x, hcall, by rw [hc, Entry.key_written hstored]⟩
  · rw [hw] at hstored
    rw [Entry.key_written hstored] at hor
    obtain rfl | hor := hor
    · exact absurd hk' hk
    · exact ⟨call, x, hcall, hor⟩
  · rw [hw] at hstored; cases hstored
  · rw [hw] at hstored; cases hstored

/-- An owner-only call made with an identity that is not stored fails and leaves the file. -/
theorem perform_ownerOnly_of_key_ne {now : ℤ} {pids : PidTable} {x : Section} {e : Entry}
    {call : Call} (howner : call.ownerOnly = true) (hcall : call.key x.admission = some k)
    (hk : e.key ≠ some k) :
    (perform now pids x e call).1.succeeded = false ∧ (perform now pids x e call).2 = e := by
  have hne : ∀ k', e.key = some k' → call.key x.admission ≠ some k' := by
    intro k' hk' hc
    rw [hcall] at hc
    exact hk (hc ▸ hk')
  obtain ⟨hsame, hsucc⟩ | ⟨r, -, -, hno, -⟩ | ⟨r, k', -, hk', hc, -⟩ | ⟨k', -, hk', hc⟩ |
      ⟨-, -, hno⟩ := perform_cases now pids x e call
  · refine ⟨?_, hsame⟩
    cases hs : (perform now pids x e call).1.succeeded with
    | false => rfl
    | true => rw [hsucc hs] at howner; cases howner
  · rw [howner] at hno; cases hno
  · exact absurd hc (hne k' hk')
  · exact absurd hc (hne k' hk')
  · rw [howner] at hno; cases hno

end Steps

/-! ### Whole runs -/

/-- The step stores a reservation under identity `k` that was not stored before it. -/
def StoresAnew (k : LeaseKey) (s : StoreWorld) (ev : StoreEvent) (s' : StoreWorld) : Prop :=
  s.acquires ev k ∧ s'.entry.key = some k

theorem not_storesAnew {s s' : StoreWorld} {ev : StoreEvent} (h : s.committed ev = none) :
    ¬ StoresAnew k s ev s' := by
  rintro ⟨⟨call, x, hcall, -⟩, -⟩
  rw [h] at hcall
  cases hcall

/-- An identity that is not stored stays so along every run in which no call stores it anew. -/
theorem run_key_ne {sha256 : String → String} {w w' : StoreWorld} {es : List StoreEvent}
    (hrun : run (storeStep sha256) w es = some w') (hk : w.entry.key ≠ some k)
    (hnew : Along (storeStep sha256) (fun s ev s' => ¬ StoresAnew k s ev s') w es) :
    w'.entry.key ≠ some k := by
  refine along_invariant (I := fun s => s.entry.key ≠ some k) ?_ hk hnew hrun
  intro s ev s' hs hstep hno hstored
  exact hno ⟨storeStep_acquires hstep hs hstored, hstored⟩

/-- **Leases are exclusive.**  Along every run, a step not made with the identity of the live
reservation leaves the file as it is.  And an identity that is not stored, and that no call stores
anew, stays out of the file; every renewal, transfer or release made with it fails and leaves the
file as it is. -/
theorem lease_exclusive (sha256 : String → String) (w w' : StoreWorld) (es : List StoreEvent)
    (hrun : run (storeStep sha256) w es = some w') :
    (∀ ev w'' r, storeStep sha256 w' ev = some w'' → w'.entry.read = some r →
      live w'.clock w'.pids r = true → ¬ w'.actsFor ev r.key → w''.entry = w'.entry) ∧
    (∀ k, w.entry.key ≠ some k →
      Along (storeStep sha256) (fun s ev s' => ¬ StoresAnew k s ev s') w es →
      w'.entry.key ≠ some k ∧
      ∀ ev call x, w'.committed ev = some (call, x) → call.ownerOnly = true →
        call.key x.admission = some k →
        (perform w'.clock w'.pids x w'.entry call).1.succeeded = false ∧
        (perform w'.clock w'.pids x w'.entry call).2 = w'.entry) := by
  refine ⟨fun ev w'' r hstep hr hlive hother => storeStep_live_unchanged hstep hr hlive hother, ?_⟩
  intro k hk hnew
  have hk' : w'.entry.key ≠ some k := run_key_ne hrun hk hnew
  exact ⟨hk', fun ev call x _ howner hcall => perform_ownerOnly_of_key_ne howner hcall hk'⟩

/-! ### One controller and one operation id -/

/-- A machine with one process, and nothing reserved. -/
def soloWorld : StoreWorld where
  clock := 0
  pids := fun pid => if pid = 1 then some 7 else none
  entry := .absent
  calls := fun _ => none
  named := [(1, 7)]

/-- The process reserves `minecraft` for the operation `"op"`. -/
def soloReserve : Request :=
  .reserve ⟨0, 1, "minecraft", "op", some 1, 0, none, none, "lifecycle", none⟩

def soloRelease : Request := .release ⟨1, "minecraft", "op", 0, none, none⟩ none

def soloKey : LeaseKey := ⟨.minecraft, "op", 0, 1, 7⟩

/-- The first part of the run: reserve and release. -/
def soloFirst : List StoreEvent :=
  [.begin 0 1 soloReserve, .commit 0 { stamp := 0 },
   .begin 0 1 soloRelease, .commit 0 { stamp := 0 }]

/-- The second part: the same reservation again, and a release that waits for the lock. -/
def soloSecond : List StoreEvent :=
  [.begin 0 1 soloReserve, .commit 0 { stamp := 0 }, .begin 0 1 soloRelease]

/-- A second process wants the slot for another profile. -/
def rivalReserve : Request :=
  .reserve ⟨0, 2, "pz-rising", "other", some 1, 0, none, none, "lifecycle", none⟩

def rivalKey : LeaseKey := ⟨.pzRising, "other", 0, 2, 9⟩

/-- The rival waits for the lock while the first reservation is live. -/
def rivalWaits : List StoreEvent :=
  [.spawn 2 9, .begin 0 1 soloReserve, .commit 0 { stamp := 0 }, .begin 1 2 rivalReserve]

/-- The rival's call is over, and the first process has released. -/
def releasedWorld : StoreWorld :=
  (run (storeStep id) soloWorld
    (rivalWaits ++ .commit 1 { stamp := 0 } :: soloFirst.drop 2)).getD soloWorld

/-- The rival gets the slot, and the first process asks once more for its release. -/
def rivalStores : List StoreEvent :=
  [.begin 1 2 rivalReserve, .commit 1 { stamp := 0 }, .begin 0 1 soloRelease]

/-- The rival's call leaves the live reservation alone.  When that has been released and the rival
is stored, a late release by the first process fails. -/
theorem lease_exclusive_rival :
    ∃ w₁ w₂ w₃, run (storeStep id) soloWorld rivalWaits = some w₁ ∧
      w₁.entry.key = some soloKey ∧ storeStep id w₁ (.commit 1 { stamp := 0 }) = some w₂ ∧
      w₂.entry = w₁.entry ∧ run (storeStep id) w₂ (soloFirst.drop 2) = some releasedWorld ∧
      run (storeStep id) releasedWorld rivalStores = some w₃ ∧ w₃.entry.key = some rivalKey ∧
      w₃.committed (.commit 0 { stamp := 0 }) = some (.release soloKey none, { stamp := 0 }) ∧
      (perform w₃.clock w₃.pids { stamp := 0 } w₃.entry (.release soloKey none)).1.succeeded =
        false ∧
      (perform w₃.clock w₃.pids { stamp := 0 } w₃.entry (.release soloKey none)).2 = w₃.entry := by
  refine ⟨_, _, _, rfl, by decide, rfl, ?_, rfl, rfl, by decide, rfl, ?_⟩
  · refine (lease_exclusive id soloWorld _ rivalWaits rfl).1 (.commit 1 { stamp := 0 }) _
      ⟨.minecraft, "op", 0, 1, 7, some 1, .lifecycle, none⟩ rfl (by decide) (by decide) ?_
    rintro ⟨call, x, hcall, hkey⟩
    cases hcall
    cases hkey
  · refine ((lease_exclusive id releasedWorld _ rivalStores rfl).2 soloKey (by decide) ?_).2
      (.commit 0 { stamp := 0 }) _ { stamp := 0 } rfl rfl rfl
    -- the only critical section stores the rival's identity
    refine fun s hs => ⟨not_storesAnew rfl, fun s' hs' =>
      ⟨?_, fun s'' _ => ⟨not_storesAnew rfl, along_nil _ _⟩⟩⟩
    rintro ⟨⟨call, x, hcall, hkey⟩, -⟩
    cases hs
    cases hcall
    cases hkey

/-- An identity can be stored twice: after it was released and reserved again, a release made with
it succeeds and removes the second reservation. -/
theorem released_identity_stored_again :
    ∃ w₁ w₂, run (storeStep id) soloWorld (soloFirst.take 2) = some w₁ ∧
      w₁.entry.key = some soloKey ∧
      ∃ w, run (storeStep id) w₁ (soloFirst.drop 2) = some w ∧ w.entry = .absent ∧
        run (storeStep id) w soloSecond = some w₂ ∧
        w₂.committed (.commit 0 { stamp := 0 }) =
          some (.release soloKey none, { stamp := 0 }) ∧
        (perform w₂.clock w₂.pids { stamp := 0 } w₂.entry (.release soloKey none)) =
          (.flag true, .absent) :=
  ⟨_, _, rfl, by decide, _, rfl, rfl, rfl, rfl, by decide⟩

end Horizon
