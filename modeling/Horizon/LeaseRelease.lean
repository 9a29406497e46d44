/-
**The handlers with a last block.**

A call is over when its handler and the worker that it created have ended.  Then the reservation
file should carry no lease of the call, and no renewal task of it should run.  The handlers with a
last block give this however their awaits end, but for one case: at every await the local variables
name what the call has acquired, and the last block releases what they name.  The case is a store
call that raises after it has replaced the file: its caller never receives the lease.

Main results:

* `releaseOwn_ended` — from an accounted state the last block leaves a stranded lease at most;
* `start_ended`, …, `confirmSwitch_ended` — the handlers.
-/

import Horizon.Handlers

namespace Horizon

open Coroutine Coroutine.Coro
open Leases
open Function

/-! ### Stranded leases -/

/-- Does the file carry a lease that no variable received, after this await?  `left` is the answer
before it; a store call that writes the file writes over what was there. -/
def Happened.strands (left : Bool) : Happened → Bool
  | .store _ o =>
    match o.effect with
    | .stored => false
    | .refused => left
    | .storedThenRaised => true
  | _ => left

def stranded (trace : List Happened) : Bool := trace.foldl Happened.strands false

theorem stranded_concat (trace : List Happened) (h : Happened) :
    stranded (trace ++ [h]) = h.strands (stranded trace) :=
  List.foldl_concat ..

/-- The leases of a call, with the question whether the one in the file is stranded. -/
structure Seen extends Leases where
  stranded : Bool

def HandlerState.seen (s : HandlerState) : Seen := ⟨s.toLeases, stranded s.trace⟩

/-! ### What awaits and transactions keep -/

section Frame

variable (ω : Oracle) {J K : Seen → Prop} (site : TxSite)

abbrev onLeases (J : Seen → Prop) : HandlerState → Prop := fun s => J s.seen

theorem note_triple {h : Happened}
    (hJ : ∀ s : Seen, J s → K { s with stranded := h.strands s.stranded })
    {E : Exc → HandlerState → Prop} :
    Triple (onLeases J) (note h) (fun _ => onLeases K) E := by
  refine .modify fun s hs => ?_
  show K ⟨s.toLeases, Horizon.stranded (s.trace ++ [h])⟩
  rw [stranded_concat]
  exact hJ s.seen hs

theorem note_keeps {h : Happened} (hh : ∀ left, h.strands left = left) :
    Keeps (onLeases J) (note h) :=
  note_triple fun s hs => by
    rw [hh]
    exact hs

theorem await_keeps (site : Site) : Keeps (onLeases J) (await ω site) := by
  refine (note_keeps fun _ => rfl).next ?_
  cases ω.await site with
  | returned b => exact .pure b
  | raised e => exact .raise e

theorem transaction_keeps {effect : HandlerState → HandlerState}
    (heffect : ∀ s, (effect s).seen = s.seen) :
    Keeps (onLeases J) (transaction ω site effect) := by
  have hmodify : Keeps (onLeases J) (modify effect : Handle Unit) := by
    refine .modify fun s hs => ?_
    show J (effect s).seen
    rw [heffect]
    exact hs
  refine (note_keeps fun _ => rfl).next ?_
  cases ω.tx site with
  | done => exact hmodify
  | before e => exact .raise e
  | after e => exact hmodify.next (.raise e)

theorem record_keeps : Keeps (onLeases J) (record ω site) := transaction_keeps ω site fun _ => rfl

theorem finishTx_keeps (state : JobState) : Keeps (onLeases J) (finishTx ω site state) :=
  transaction_keeps ω site fun _ => rfl

theorem jobIntentTx_keeps : Keeps (onLeases J) (jobIntentTx ω) := by
  refine .next (transaction_keeps ω .intent fun _ => rfl) ?_
  exact .modify fun _ hs => hs

theorem wait_keeps (site : Site) : Keeps (onLeases J) (wait ω site) :=
  (await_keeps ω site).next (.pure ())

theorem onlyIf_keeps (b : Bool) {m : Handle Unit} (h : Keeps (onLeases J) m) :
    Keeps (onLeases J) (onlyIf b m) :=
  .ite h (.pure ())

theorem exceptException_keeps {h : Exc → Handle Unit} (hh : ∀ e, Keeps (onLeases J) (h e))
    (e : Exc) : Keeps (onLeases J) (exceptException h e) :=
  .ite (.raise e) (hh e)

theorem logged_keeps (site : Site) : Keeps (onLeases J) (logged ω site) :=
  .tryExcept (wait_keeps ω site) (exceptException_keeps fun _ => .pure ())

theorem startWithFreeRetry_keeps (first free second : Site) :
    Keeps (onLeases J) (startWithFreeRetry ω first free second) := by
  refine .tryExcept (wait_keeps ω first) fun e => ?_
  refine .ite ((await_keeps ω free).bind fun b => ?_) (.raise e)
  exact .ite (wait_keeps ω second) (.raise _)

end Frame

/-! ### Acquiring and releasing -/

/-- The file carries a lease of this call that no variable names exactly when it is stranded, and
whatever renewal task runs is in a variable. -/
structure Seen.Accounted (s : Seen) : Prop where
  stored : ∀ l, s.stored = some l →
    (s.stranded = true ↔ ¬ (s.lease = some l ∨ s.rollbackLease = some l))
  stranded : s.stranded = true → s.stored ≠ none
  renewing : ∀ l, s.renewing l = true → s.renewal = some l ∨ s.rollbackTask = some l

/-- How a call should end: no renewal task runs, and only a stranded lease is left. -/
structure Seen.Ended (s : Seen) : Prop where
  stored : s.stored ≠ none ↔ s.stranded = true
  renewing : ∀ l, s.renewing l = false

/-- The variables are empty, before the acquisition or after a failed one. -/
structure Seen.Idle (s : Seen) : Prop extends s.Ended where
  lease : s.lease = none
  rollbackLease : s.rollbackLease = none
  rollbackTask : s.rollbackTask = none

/-- Before a rollback its variables are empty. -/
structure Seen.Straight (s : Seen) : Prop extends s.Accounted where
  lease : s.lease ≠ some .rollback
  rollbackLease : s.rollbackLease = none
  rollbackTask : s.rollbackTask = none

/-- The lease and the renewal task of the operation, in the store and in the variables. -/
structure Seen.Own (s : Seen) : Prop where
  stored : s.stored = some .operation
  stranded : s.stranded = false
  lease : s.lease = some .operation
  renewal : s.renewal = some .operation
  renewing : ∀ l, s.renewing l = true → l = .operation
  rollbackLease : s.rollbackLease = none
  rollbackTask : s.rollbackTask = none

def Seen.Clean (s : Seen) : Prop := s.Idle ∧ s.stranded = false

variable {s : Seen}

theorem Seen.Ended.released_iff (h : s.Ended) : s.Released ↔ s.stranded = false := by
  have hstored : s.stored = none ↔ s.stranded = false := by
    rw [← not_iff_not, ← ne_eq, h.stored, Bool.not_eq_false]
  exact ⟨fun hs => hstored.1 hs.1, fun hs => ⟨hstored.2 hs, h.renewing⟩⟩

theorem Seen.Idle.straight (h : s.Idle) : s.Straight := by
  refine ⟨⟨fun l hl => ?_, h.stored.2, fun l hl => ?_⟩, ?_, h.rollbackLease, h.rollbackTask⟩
  · rw [← h.stored, hl, h.lease, h.rollbackLease]
    simp
  · rw [h.renewing l] at hl
    cases hl
  · rw [h.lease]
    simp

theorem Seen.Own.straight (h : s.Own) : s.Straight := by
  refine ⟨⟨fun l hl => ?_, fun hs => ?_, fun l hl => ?_⟩, ?_, h.rollbackLease, h.rollbackTask⟩
  · rw [h.stranded, h.lease, ← h.stored, hl]
    simp
  · rw [h.stored]
    simp
  · rw [h.renewal, h.renewing l hl]
    exact .inl rfl
  · rw [h.lease]
    simp

/-! #### The effects of `_release_lease` -/

section Effects

variable (s : Leases) (o : Option Lease) {l : Lease}

@[simp] theorem Leases.drained_stored : (s.drained o).stored = s.stored := by
  cases o <;> rfl

@[simp] theorem Leases.cleared_renewing : (s.cleared o).renewing = s.renewing := by
  cases o <;> rfl

theorem Leases.drained_renewing (h : (s.drained o).renewing l = true) :
    s.renewing l = true ∧ o ≠ some l := by
  cases o with
  | none => exact ⟨h, by simp⟩
  | some l' =>
    change update s.renewing l' false l = true at h
    by_cases hl : l = l'
    · rw [hl, update_self] at h
      cases h
    · rw [update_of_ne hl] at h
      exact ⟨h, fun he => hl (Option.some.inj he).symm⟩

theorem Leases.cleared_stored : (s.cleared o).stored = some l ↔ s.stored = some l ∧ o ≠ some l := by
  cases o with
  | none => exact ⟨fun h => ⟨h, by simp⟩, And.left⟩
  | some l' =>
    show (if s.stored = some l' then none else s.stored) = some l ↔ _
    split
    · rename_i heq
      rw [heq]
      simp
    · rename_i hne
      refine ⟨fun h => ⟨h, fun he => hne ?_⟩, And.left⟩
      rw [h, he]

/-- The release of one lease touches no variable of the rollback. -/
theorem Leases.released_rollback (o' : Option Lease) :
    ((s.drained o).cleared o').rollbackLease = s.rollbackLease ∧
      ((s.drained o).cleared o').rollbackTask = s.rollbackTask := by
  cases o <;> cases o' <;> exact ⟨rfl, rfl⟩

end Effects

/-- The two calls of `_release_lease` release what is accounted for. -/
theorem Seen.Accounted.ended (h : s.Accounted) :
    Seen.Ended { s with toLeases := (((s.drained s.renewal).cleared s.lease).drained
      s.rollbackTask).cleared s.rollbackLease } := by
  refine ⟨?_, fun l => Bool.eq_false_iff.2 fun hl => ?_⟩
  · show _ ≠ none ↔ s.stranded = true
    rw [Option.ne_none_iff_exists']
    constructor
    · rintro ⟨l, hl⟩
      rw [cleared_stored, drained_stored, cleared_stored, drained_stored] at hl
      exact (h.stored l hl.1.1).2 (not_or.2 ⟨hl.1.2, hl.2⟩)
    · intro hs
      obtain ⟨l, hl⟩ := Option.ne_none_iff_exists'.1 (h.stranded hs)
      obtain ⟨hlease, hrollback⟩ := not_or.1 ((h.stored l hl).1 hs)
      refine ⟨l, ?_⟩
      rw [cleared_stored, drained_stored, cleared_stored, drained_stored]
      exact ⟨⟨hl, hlease⟩, hrollback⟩
  · rw [cleared_renewing] at hl
    obtain ⟨hrun, hne⟩ := drained_renewing _ _ hl
    rw [cleared_renewing] at hrun
    obtain ⟨hrun, hne'⟩ := drained_renewing _ _ hrun
    exact (h.renewing l hrun).elim hne' hne

/-- Without a rollback the first call is enough. -/
theorem Seen.Straight.ended (h : s.Straight) :
    Seen.Ended { s with toLeases := (s.drained s.renewal).cleared s.lease } := by
  have hended := h.toAccounted.ended
  rw [h.rollbackLease, h.rollbackTask] at hended
  exact hended

variable (ω : Oracle) {J K : Seen → Prop} (site : ReleaseSite) (primary : Bool)

/-- What a call on the store leaves: the lease when it returns, and a stranded one at most when it
raises. -/
theorem reservationIo_triple {E : Seen → Prop} (site : StoreSite) (l : Lease)
    (hstored : ∀ s : Seen, J s → K { s with stored := some l, stranded := false })
    (hcleared : ∀ s : Seen, J s → E { s with stored := none, stranded := false })
    (hrefused : ∀ s : Seen, J s → E s)
    (hstranded : ∀ s : Seen, J s → E { s with stored := some l, stranded := true }) :
    Triple (onLeases J) (reservationIo ω site l) (fun _ => onLeases K) (fun _ => onLeases E) := by
  unfold reservationIo
  cases heffect : (ω.store site).effect with
  | stored =>
    refine .next (note_triple (K := fun s => K { s with stored := some l } ∧
      E { s with stored := none }) fun s hs => ?_) ?_
    · simp only [Happened.strands, heffect]
      exact ⟨hstored s hs, hcleared s hs⟩
    refine .seq (onLeases fun s => K s ∧ E { s with stored := none }) (.modify same) fun _ => ?_
    refine .ite (.seq (onLeases E) (.modify fun s hs => hs.2) fun _ => .raise same) ?_
    exact .pure fun _ hs => hs.1
  | refused =>
    refine .next (note_triple (K := E) fun s hs => ?_) (.raise same)
    simp only [Happened.strands, heffect]
    exact hrefused s hs
  | storedThenRaised =>
    refine .next (note_triple (K := fun s => E { s with stored := some l }) fun s hs => ?_) ?_
    · simp only [Happened.strands, heffect]
      exact hstranded s hs
    exact .seq (onLeases E) (.modify same) fun _ => .raise same

/-- The `except` clause of `_reserve` writes its records and raises. -/
theorem reserve_triple {E : Seen → Prop} {site : StoreSite} {l : Lease} (event audit : TxSite)
    (h : Triple (onLeases J) (reservationIo ω site l) (fun _ => onLeases K)
      (fun _ => onLeases E)) :
    Triple (onLeases J) (reserve ω site l event audit) (fun _ => onLeases K)
      (fun _ => onLeases E) := by
  refine .tryExcept h fun e => .ite (.raise same) ?_
  exact .next (record_keeps ω event) (.next (record_keeps ω audit) (.raise same))

/-- An acquisition gives the lease with its renewal task, or nothing that a variable names. -/
theorem acquire_triple : Triple (onLeases Seen.Clean) (acquire ω) (fun _ => onLeases Seen.Own)
    (fun _ => onLeases Seen.Idle) := by
  have hio : Triple (onLeases Seen.Clean) (reservationIo ω .reserve .operation)
      (fun _ => onLeases fun s => s.stored = some .operation ∧ s.stranded = false ∧
        (∀ l, s.renewing l = false) ∧ s.rollbackLease = none ∧ s.rollbackTask = none)
      (fun _ => onLeases Seen.Idle) := by
    refine reservationIo_triple ω .reserve .operation ?_ ?_ (fun s hs => hs.1) ?_
    · rintro s ⟨hs, -⟩
      exact ⟨rfl, rfl, hs.renewing, hs.rollbackLease, hs.rollbackTask⟩
    all_goals
      rintro s ⟨hs, -⟩
      exact ⟨⟨by simp, hs.renewing⟩, hs.lease, hs.rollbackLease, hs.rollbackTask⟩
  refine .bind (reserve_triple ω _ _ hio) fun _ => ?_
  -- no await comes between the assignments
  rintro s ⟨hstored, hstranded, hidle, hlease, htask⟩
  refine ⟨hstored, hstranded, rfl, rfl, fun l hl => ?_, hlease, htask⟩
  change update s.renewing .operation true l = true at hl
  by_contra hne
  rw [update_of_ne hne, show s.renewing l = false from hidle l] at hl
  cases hl

/-- What `_release_lease` leaves; it raises only when no other exception is on its way. -/
theorem releaseLease_triple (lease renewal : Option Lease) (primary : Bool)
    (hJ : ∀ s : Seen, J s → K { s with toLeases := (s.drained renewal).cleared lease }) :
    Triple (onLeases J) (releaseLease ω site lease renewal primary) (fun _ => onLeases K)
      (fun _ s => primary = false ∧ K s.seen) := by
  -- neither the note nor the two effects raise
  refine .next
    (note_triple (J := J) (K := J) (h := .release site (ω.release site)) fun _ hs => hs) ?_
  refine .seq (onLeases fun s => K { s with toLeases := s.cleared lease })
    (.modify fun s hs => hJ s.seen hs) fun _ => ?_
  refine .seq (onLeases K) (.modify fun s hs => hs) fun _ => ?_
  cases primary with
  | true => exact .pure same
  | false =>
    cases releaseError lease renewal (ω.release site) with
    | none => exact .pure same
    | some e => exact .raise fun _ hs => ⟨rfl, hs⟩

/-- What the last block leaves, but for the variables `lease` and `renewal_task`. -/
def Seen.OwnReleased (s : Seen) : Prop :=
  s.Ended ∧ s.rollbackLease = none ∧ s.rollbackTask = none

theorem releaseOwn_triple : Triple (onLeases Seen.Straight) (releaseOwn ω site primary)
    (fun _ => onLeases Seen.OwnReleased) (fun _ s => primary = false ∧ s.seen.OwnReleased) := by
  refine .get fun t => ?_
  refine (releaseLease_triple ω (J := fun s => s.Straight ∧ s = t.seen) site t.lease t.renewal
    primary ?_).pre ?_
  · rintro s ⟨hs, rfl⟩
    obtain ⟨hlease, htask⟩ := released_rollback t.toLeases t.renewal t.lease
    exact ⟨hs.ended, hlease.trans hs.rollbackLease, htask.trans hs.rollbackTask⟩
  · rintro s ⟨hs, rfl⟩
    exact ⟨hs, rfl⟩

/-- **From an accounted state the last block leaves a stranded lease at most**, whether or not it
raises. -/
theorem releaseOwn_ended :
    Ends (onLeases Seen.Straight) (releaseOwn ω site primary) (onLeases Seen.Ended) :=
  (releaseOwn_triple ω site primary).conseq (fun _ hs => hs) (fun _ _ hs => hs.1)
    (fun _ _ hs => hs.2.1)

/-! ### The handlers with a last block -/

/-- A block that acquires and then keeps the account, and a last block that releases. -/
theorem ended_of_block {P : HandlerState → Prop} {m : Handle Unit}
    (h : Ends P m (onLeases Seen.Straight)) :
    Ends P (tryFinally m (releaseOwn ω site)) (onLeases Seen.Ended) :=
  .tryFinally h (fun _ => releaseOwn_ended ω site false) (fun _ => releaseOwn_ended ω site true)

theorem acquire_straight : Ends (onLeases Seen.Clean) (acquire ω) (onLeases Seen.Straight) :=
  (acquire_triple ω).conseq (fun _ hs => hs) (fun _ _ hs => hs.straight)
    (fun _ _ hs => hs.straight)

theorem startBody_straight : Ends (onLeases Seen.Clean) (startBody ω) (onLeases Seen.Straight) := by
  refine .next (acquire_straight ω) ?_
  refine (jobIntentTx_keeps ω).next ((await_keeps ω _).bind fun free => ?_)
  refine .ite ?_ (.raise _)
  refine .next (.modify fun _ hs => hs) ?_
  refine (logged_keeps ω _).next ((wait_keeps ω _).next ?_)
  refine (wait_keeps ω _).next ((await_keeps ω _).bind fun ready => ?_)
  exact .ite ((finishTx_keeps ω _ _).next (logged_keeps ω _)) (.raise _)

theorem startFailed_straight : Keeps (onLeases Seen.Straight) (startFailed ω) := by
  refine .get fun t => ?_
  refine (onlyIf_keeps _ (logged_keeps ω _)).next ?_
  exact (onlyIf_keeps _ (finishTx_keeps ω _ _)).next (.raise _)

theorem start_ended : Ends (onLeases Seen.Clean) (start ω) (onLeases Seen.Ended) := by
  refine .ite ?_ (.raise fun _ hs => hs.1.toEnded)
  refine ended_of_block ω .lease (.tryExcept (startBody_straight ω) ?_)
  exact exceptException_keeps fun _ => startFailed_straight ω

theorem acquireStopFence_straight :
    Ends (onLeases Seen.Clean) (acquireStopFence ω) (onLeases Seen.Straight) := by
  refine .tryExcept (F := fun _ => onLeases Seen.Straight) ?_ fun e => ?_
  · refine .next (acquire_straight ω) ?_
    exact (wait_keeps ω _).next ((wait_keeps ω _).bind fun _ => wait_keeps ω _)
  · refine .bind
      ((releaseOwn_triple ω .acquisition true).exc (fun _ _ hs => by cases hs.1)) fun _ => ?_
    refine .seq (onLeases Seen.Idle) (.modify ?_) fun _ => .raise fun _ hs => hs.straight
    rintro s ⟨hs, hlease, htask⟩
    exact ⟨⟨hs.stored, hs.renewing⟩, rfl, hlease, htask⟩

theorem stopWithFence_ended :
    Ends (onLeases Seen.Clean) (stopWithFence ω) (onLeases Seen.Ended) := by
  refine ended_of_block ω .lease (.tryExcept (F := fun _ => onLeases Seen.Straight)
    ?_ (exceptException_keeps fun _ => ?_))
  · refine .next (acquireStopFence_straight ω) ?_
    refine (jobIntentTx_keeps ω).next ((wait_keeps ω _).next ?_)
    exact finishTx_keeps ω _ _
  · refine .get fun t => ?_
    exact (onlyIf_keeps _ (finishTx_keeps ω _ _)).next (.raise _)

/-- `async with self._operation_lease(…)` leaves a stranded lease at most, if its block touches no
lease. -/
theorem operationLease_ended {body : Handle Unit} (hbody : Keeps (onLeases Seen.Straight) body) :
    Ends (onLeases Seen.Clean) (operationLease ω body) (onLeases Seen.Ended) := by
  refine .bind ((acquire_triple ω).conseq (fun _ hs => hs) (fun _ _ hs => hs.straight)
    (fun _ _ hs => hs.toEnded)) fun _ => ?_
  exact ended_of_block ω .lease ((wait_keeps ω _).next hbody)

theorem runScheduledBackup_ended :
    Ends (onLeases Seen.Clean) (runScheduledBackup ω) (onLeases Seen.Ended) := by
  refine .ite (operationLease_ended ω ?_) (.raise fun _ hs => hs.1.toEnded)
  refine (jobIntentTx_keeps ω).bind fun _ => .bind (.tryExcept (wait_keeps ω _) fun e => ?_)
    fun _ => finishTx_keeps ω _ _
  exact (finishTx_keeps ω _ _).bind fun _ => .raise e

theorem runBoundMaintenanceJob_keeps : Keeps (onLeases J) (runBoundMaintenanceJob ω) := by
  refine (jobIntentTx_keeps ω).bind fun _ => .bind (.tryExcept (wait_keeps ω _) fun e => ?_)
    fun _ => finishTx_keeps ω _ _
  exact (finishTx_keeps ω _ _).bind fun _ => .raise _

theorem setProfileConfig_ended :
    Ends (onLeases Seen.Clean) (setProfileConfig ω) (onLeases Seen.Ended) := by
  refine operationLease_ended ω ((wait_keeps ω _).next (.ite ?_ (.raise _)))
  refine .next (.tryExcept (wait_keeps ω _) fun e => .ite (.raise _) (.raise _)) ?_
  exact (record_keeps ω _).next (record_keeps ω _)

/-! ### The switch and its rollback -/

theorem stopSource_keeps : Keeps (onLeases J) (stopSource ω) := by
  refine .tryExcept (wait_keeps ω _) fun e => ?_
  exact .ite (.ite (wait_keeps ω _) (.raise _)) (.raise _)

theorem stopTarget_keeps : Keeps (onLeases J) (stopTarget ω) :=
  .tryExcept (wait_keeps ω _) fun _ => .ite (wait_keeps ω _) (.raise _)

theorem switchBody_straight :
    Ends (onLeases Seen.Clean) (switchBody ω) (onLeases Seen.Straight) := by
  refine .next (acquire_straight ω) ?_
  refine (stopSource_keeps ω).next ((wait_keeps ω _).next ?_)
  refine (await_keeps ω _).bind fun free => .ite ?_ (.raise _)
  have hbackup : Keeps (onLeases Seen.Straight) (switchBackup ω) :=
    (wait_keeps ω _).next (wait_keeps ω _)
  refine (wait_keeps ω _).next ((onlyIf_keeps _ hbackup).next ?_)
  refine .next (.modify fun _ hs => hs) ((logged_keeps ω _).next ?_)
  refine (startWithFreeRetry_keeps ω _ _ _).next ((wait_keeps ω _).next ?_)
  refine (await_keeps ω _).bind fun ready => .ite ?_ (.raise _)
  exact (finishTx_keeps ω _ _).next (logged_keeps ω _)

/-- The lease of the rollback is there, and its renewal task is not. -/
structure Seen.Handed (s : Seen) : Prop where
  stored : s.stored = some .rollback
  stranded : s.stranded = false
  rollbackLease : s.rollbackLease = some .rollback
  renewing : ∀ l, s.renewing l = true → s.renewal = some l

theorem Seen.Handed.accounted (h : s.Handed) : Seen.Accounted
    { s with renewing := update s.renewing .rollback true, rollbackTask := some .rollback } := by
  refine ⟨fun l hl => ?_, fun hs => ?_, fun l hl => ?_⟩
  · show s.stranded = true ↔ ¬ (s.lease = some l ∨ s.rollbackLease = some l)
    rw [h.stranded, h.rollbackLease, ← h.stored, show s.stored = some l from hl]
    simp
  · show s.stored ≠ none
    rw [h.stored]
    simp
  · by_cases he : l = .rollback
    · rw [he]
      exact .inr rfl
    · change update s.renewing .rollback true l = true at hl
      rw [update_of_ne he] at hl
      exact .inl (h.renewing l hl)

theorem Seen.Straight.renewal (h : s.Straight) (l : Lease) (hl : s.renewing l = true) :
    s.renewal = some l := by
  have hrun := h.renewing l hl
  rw [h.rollbackTask] at hrun
  exact hrun.resolve_right (by simp)

/-- A store call for the lease of the rollback: a lease that is stored and not stranded is the
rollback's, and what a cancelled call leaves in `lease` is no longer stored. -/
theorem reservationIo_rollback (site : StoreSite) :
    Triple (onLeases Seen.Straight) (reservationIo ω site .rollback)
      (fun _ => onLeases fun s => s.stored = some .rollback ∧ s.stranded = false ∧
        ∀ l, s.renewing l = true → s.renewal = some l)
      (fun _ => onLeases Seen.Accounted) := by
  refine reservationIo_triple ω site .rollback (fun s hs => ⟨rfl, rfl, hs.renewal⟩) (fun s hs => ?_)
    (fun s hs => hs.toAccounted) fun s hs => ?_
  · exact ⟨fun l hl => (by cases hl), fun hs => (by cases hs), hs.renewing⟩
  · refine ⟨fun l hl => ?_, fun _ => Option.some_ne_none _, hs.renewing⟩
    obtain rfl : Lease.rollback = l := Option.some.inj hl
    refine iff_of_true rfl (not_or.2 ⟨hs.lease, ?_⟩)
    rw [show s.rollbackLease = none from hs.rollbackLease]
    simp

/-- The lease of the rollback is the one of the switch, transferred, or a new one. -/
theorem rollbackAcquire_triple :
    Triple (onLeases Seen.Straight) (rollbackAcquire ω) (fun _ => onLeases Seen.Handed)
      (fun _ => onLeases Seen.Accounted) := by
  refine .get fun t => .ite ?_ ?_
  · refine .bind ((reservationIo_rollback ω .transfer).pre fun _ hs => hs.1) fun _ => .modify ?_
    rintro s ⟨hstored, hstranded, hrun⟩
    exact ⟨hstored, hstranded, rfl, hrun⟩
  · refine .bind (reserve_triple ω _ _ (reservationIo_rollback ω .reserveRollback) |>.pre
      fun _ hs => hs.1) fun _ => .modify ?_
    rintro s ⟨hstored, hstranded, hrun⟩
    exact ⟨hstored, hstranded, rfl, hrun⟩

theorem rollbackBody_triple :
    Ends (onLeases Seen.Straight) (rollbackBody ω) (onLeases Seen.Accounted) := by
  refine .get fun t => ?_
  refine .seq (onLeases Seen.Straight)
    ((onlyIf_keeps _ (stopTarget_keeps ω)).conseq (fun _ hs => hs.1) (fun _ _ hs => hs)
      (fun _ _ hs => hs.toAccounted)) fun _ => ?_
  refine .next (rollbackAcquire_triple ω) ?_
  -- the task is created and assigned without an await in between
  refine .seq (onLeases fun s => Seen.Accounted { s with rollbackTask := some .rollback })
    (.modify fun _ hs => Seen.Handed.accounted hs) fun _ => ?_
  refine .seq (onLeases Seen.Accounted) (.modify same) fun _ => ?_
  refine (await_keeps ω _).bind fun free => .ite ?_ (.raise _)
  refine (startWithFreeRetry_keeps ω _ _ _).next ((await_keeps ω _).bind fun ready => ?_)
  exact .ite (.pure ()) (.raise _)

theorem rollbackSource_triple :
    Ends (onLeases Seen.Straight) (rollbackSource ω) (onLeases Seen.Accounted) := by
  have hrecord (site : TxSite) : Stays (onLeases Seen.Straight) (record ω site)
      (fun _ => onLeases Seen.Accounted) :=
    (record_keeps ω site).exc (fun _ _ hs => hs.toAccounted)
  refine .next (hrecord _) (.next (hrecord _) ?_)
  refine .seq (onLeases Seen.Accounted)
    (.tryExcept (.next (rollbackBody_triple ω) (.pure same))
      fun e => .ite (.raise same) (.pure same)) fun restored => ?_
  have hpair (first second : TxSite) : Keeps (onLeases Seen.Accounted)
      (do
        record ω first
        record ω second) := (record_keeps ω first).next (record_keeps ω second)
  exact .ite (hpair _ _) (hpair _ _)

/-- The `except` clause always raises. -/
theorem switchFailed_triple (Q : Unit → HandlerState → Prop) :
    Triple (onLeases Seen.Straight) (switchFailed ω) Q (fun _ => onLeases Seen.Accounted) := by
  have hrollback : Ends (onLeases Seen.Straight) (onlyIf (ω.flag .rollbackOnFailure)
      (rollbackSource ω)) (onLeases Seen.Accounted) :=
    .ite (rollbackSource_triple ω) (.pure fun _ hs => hs.toAccounted)
  refine .next hrollback (.next (finishTx_keeps ω _ _) ?_)
  exact .raise same

/-- The last block of a switch leaves a stranded lease at most.  With an exception on its way the
first release does not raise, so the second one runs; without one there is no rollback to
release. -/
theorem switchReleases_ended (haccount : ∀ s, J s → s.Accounted)
    (hstraight : primary = false → ∀ s, J s → s.Straight) :
    Ends (onLeases J) (switchReleases ω primary) (onLeases Seen.Ended) := by
  refine .get fun t => ?_
  refine .seq (onLeases fun s => J t.seen ∧
      s = { t.seen with toLeases := (t.toLeases.drained t.renewal).cleared t.lease }) ?_ fun _ => ?_
  · refine (releaseLease_triple ω (J := fun s => J s ∧ s = t.seen) (K := fun s => J t.seen ∧
      s = { t.seen with toLeases := (t.toLeases.drained t.renewal).cleared t.lease }) .lease
      t.lease t.renewal primary ?_).conseq ?_ (fun _ _ hs => hs) ?_
    · rintro s ⟨hs, rfl⟩
      exact ⟨hs, rfl⟩
    · rintro s ⟨hs, rfl⟩
      exact ⟨hs, rfl⟩
    · rintro e s ⟨hprimary, hs, heq⟩
      show s.seen.Ended
      rw [heq]
      exact (hstraight hprimary _ hs).ended
  · refine (releaseLease_triple ω .rollback t.rollbackLease t.rollbackTask
      primary ?_).exc (fun _ _ hs => hs.2)
    rintro s ⟨hs, rfl⟩
    exact (haccount _ hs).ended

theorem confirmSwitch_ended :
    Ends (onLeases Seen.Clean) (confirmSwitch ω) (onLeases Seen.Ended) := by
  have hclean {α : Type} {m : Handle α} (h : Keeps (onLeases Seen.Clean) m) :
      Stays (onLeases Seen.Clean) m (fun _ => onLeases Seen.Ended) :=
    h.exc (fun _ _ hs => hs.1.toEnded)
  refine .next (hclean (record_keeps ω _)) ?_
  refine .ite ?_ (.raise fun _ hs => hs.1.toEnded)
  refine .next (hclean (jobIntentTx_keeps ω)) ?_
  refine .tryFinally (R := fun _ => onLeases Seen.Straight)
    (F := fun _ => onLeases Seen.Accounted) ?_ (fun _ => ?_) (fun _ => ?_)
  · refine .tryExcept (switchBody_straight ω) fun e => ?_
    exact .ite (.raise fun _ hs => hs.toAccounted) (switchFailed_triple ω _)
  · exact switchReleases_ended ω false (fun _ hs => hs.toAccounted) fun _ _ hs => hs
  · exact switchReleases_ended ω true (fun _ hs => hs) nofun

end Horizon
