/-
**What a call does to the row of its job.**

A handler inserts a row with `_job_intent` and ends it with `_finish`.  It should do both or
neither, and the second once.  The clauses that end the row after a failure catch `Exception`, and a
cancellation is not one: at most awaits between the two transactions a cancellation leaves the row
open.  The module lists the ends of awaits after which the row stays open, and shows for the
handlers but the switch and the benchmark that one of them has occurred exactly when the row is left
open.

Main results:

* `JobSettled.iff` — in a settled state the row is ended if and only if no await has abandoned it;
* `start_jobs`, `stopWithFence_jobs`, `command_jobs`, `runScheduledBackup_jobs` — these handlers end
  settled.
-/

import Horizon.HandlerTrace

namespace Horizon

open Coroutine Coroutine.Coro

/-! ### The ends that abandon a row -/

/-- The exceptions of an await that leave the row open.  A cancellation passes the clauses of the
handlers, except at awaits before the row is inserted, after it has ended, and in the blocks whose
clauses also end the row of a cancelled job. -/
def abandonsAwait : Site → Exc → Bool
  | .assertAcquired, _ | .stopPreflight, _ | .assertPreflight, _ | .handoffCheck, _
  | .statusSnapshot, _ | .writeConfig, _ | .proveIdle, _ => false
  | .startupEstimate, _ => false
  | .service, _ | .preflight, _ => false
  -- a task that is cancelled before its first step runs no clause
  | .workerStart, _ => true
  | _, e => e = .cancelled

/-- The caller was cancelled before or after the callback. -/
def TxOutcome.passes (o : TxOutcome) : Bool := o = .before .cancelled || o = .after .cancelled

/-- The first `_finish` of the handler stands in a block whose clause finishes the job as failed. -/
def Handler.catches : Handler → Bool
  | .start | .stopWithFence | .confirmSwitch => true
  | _ => false

def Handler.abandonsTx (h : Handler) : TxSite → TxOutcome → Bool
  -- the row is there, and `job_id` is not assigned
  | .intent, .after _ => true
  | .finish, .before e => !h.catches || e = .cancelled
  | .finishFailed, .before _ | .workerFinish, .before _ | .workerFinishFailed, .before _ => true
  -- `_reserve` comes after the intent in a switch only
  | .slotEvent, o | .slotAudit, o => h = .confirmSwitch && o.passes
  | .rollbackSlotEvent, o | .rollbackSlotAudit, o => o.passes
  -- in the clause of a switch, before its `_finish`
  | .rollbackEvent, o | .rollbackAudit, o | .rollbackFailedEvent, o | .rollbackFailedAudit, o
  | .rollbackDoneEvent, o | .rollbackDoneAudit, o => o ≠ .done
  | _, _ => false

def Handler.abandonsStore (h : Handler) : StoreSite → StoreOutcome → Bool
  | .reserve, o => h = .confirmSwitch && o.cancelled
  | .transfer, o | .reserveRollback, o => o.cancelled

/-- The end of an await after which no statement of the handler ends the row. -/
def Handler.abandons (h : Handler) : Happened → Bool
  | .await site (.raised e) => abandonsAwait site e
  | .await _ (.returned _) => false
  | .tx site o => h.abandonsTx site o
  | .store site o => h.abandonsStore site o
  -- `aclose` came first: the lease is released and the row is not ended
  | .release .closed _ => true
  | .release _ _ => false

/-! ### The phases of a row -/

/-- A call inserted no row, or it inserted one and ended it once. -/
def JobsEnded (jobs : List JobOp) : Prop :=
  jobs = [] ∨ ∃ state, jobs = [.intent, .finish state] ∧ state.isOpen = false

theorem not_jobsEnded_intent : ¬ JobsEnded [.intent] := by
  rintro (h | ⟨state, h, -⟩)
  · cases h
  · cases h

variable (c : CallState)

def CallState.Absent : Prop := c.jobs = [] ∧ c.jobId = false ∧ c.started = false

def CallState.Open : Prop := c.jobs = [.intent] ∧ c.jobId = true

def CallState.Ended : Prop := ∃ state, c.jobs = [.intent, .finish state] ∧ state.isOpen = false

section Phases

variable (h : Handler)

/-- The row is ended and no await has abandoned it, or it is open for good. -/
def JobSettled (s : HandlerState) : Prop :=
  (JobsEnded s.jobs ∧ s.Clear h.abandons) ∨ (¬ JobsEnded s.jobs ∧ ¬ s.Clear h.abandons)

/-- What a block leaves when it raises: a cancellation passes the clauses, so the row is settled;
every other exception is caught, so the state still has to be one of `I`. -/
def Raised (I : HandlerState → Prop) (e : Exc) (s : HandlerState) : Prop :=
  (e = .cancelled → JobSettled h s) ∧ (e ≠ .cancelled → I s)

variable {h}

variable {s : HandlerState}

theorem JobSettled.iff (hs : JobSettled h s) : JobsEnded s.jobs ↔ s.Clear h.abandons := by
  rcases hs with ⟨hended, hclear⟩ | ⟨hended, hclear⟩
  · exact iff_of_true hended hclear
  · exact iff_of_false hended hclear

theorem settled_of_absent (hs : Unmarked h.abandons CallState.Absent s) : JobSettled h s :=
  .inl ⟨.inl hs.1.1, hs.2⟩

theorem settled_of_ended (hs : Unmarked h.abandons CallState.Ended s) : JobSettled h s :=
  .inl ⟨.inr hs.1, hs.2⟩

theorem settled_of_abandoned
    (hs : Marked h.abandons (fun c => c.jobs = [.intent]) true s) : JobSettled h s := by
  refine .inr ⟨?_, hs.not_clear⟩
  rw [hs.1]
  exact not_jobsEnded_intent

theorem abandoned_of_open (hs : Marked h.abandons CallState.Open true s) : JobSettled h s :=
  settled_of_abandoned ⟨hs.1.1, hs.2⟩

/-- An await that is bad exactly when it is cancelled. -/
theorem raised_of_marked {e : Exc}
    (hs : Marked h.abandons CallState.Open (decide (e = .cancelled)) s) :
    Raised h (Unmarked h.abandons CallState.Open) e s := by
  refine ⟨fun he => ?_, fun he => ?_⟩
  · rw [decide_eq_true he] at hs
    exact abandoned_of_open hs
  · rw [decide_eq_false he] at hs
    exact hs.unmarked

end Phases

/-- The phases, while no await has abandoned the row. -/
abbrev Handler.NoRow (h : Handler) : HandlerState → Prop := Unmarked h.abandons CallState.Absent

abbrev Handler.OpenRow (h : Handler) : HandlerState → Prop := Unmarked h.abandons CallState.Open

abbrev Handler.EndedRow (h : Handler) : HandlerState → Prop := Unmarked h.abandons CallState.Ended

/-! ### Awaits and transactions in a phase -/

variable {J : CallState → Prop}

section Rules

variable {h : Handler} (ω : Oracle)

variable {site : Site}

theorem wait_harmless (hsite : ∀ e, abandonsAwait site e = false) :
    Keeps (Unmarked h.abandons J) (wait ω site) := by
  refine (wait_marked ω site fun _ => rfl).exc ?_
  intro e s hs
  have hfalse : h.abandons (.await site (.raised e)) = false := hsite e
  rw [hfalse] at hs
  exact hs.unmarked

/-- Of what the await can raise, only a cancellation abandons the row. -/
abbrev CancelOnly (site : Site) : Prop := ∀ e, abandonsAwait site e = decide (e = .cancelled)

/-- An await under an open row that abandons it when it is cancelled. -/
theorem await_open (hsite : CancelOnly site) :
    Stays h.OpenRow (await ω site) (Raised h h.OpenRow) := by
  refine (await_marked ω site fun _ => rfl).exc ?_
  intro e s hs
  have hcancel : h.abandons (.await site (.raised e)) = decide (e = .cancelled) := hsite e
  rw [hcancel] at hs
  exact raised_of_marked hs

theorem wait_open (hsite : CancelOnly site) :
    Stays h.OpenRow (wait ω site) (Raised h h.OpenRow) :=
  .next (await_open ω hsite) (.pure same)

variable {α : Type} {e : Exc}

theorem raise_open {Q : α → HandlerState → Prop} (he : e ≠ .cancelled) :
    Triple h.OpenRow (raise e : Handle α) Q (Raised h h.OpenRow) :=
  .raise fun _ hs => ⟨fun hc => absurd hc he, fun _ => hs⟩

theorem logged_open (hsite : CancelOnly site) :
    Stays h.OpenRow (logged ω site) (fun e s => e = .cancelled ∧ JobSettled h s) := by
  refine .tryExcept (wait_open ω hsite) fun e => ?_
  unfold exceptException
  split_ifs with he
  · exact .raise fun _ hs => ⟨he, hs.1 he⟩
  · exact .pure fun _ hs => hs.2 he

variable {I : HandlerState → Prop} {s : HandlerState} {state : JobState}

theorem Raised.of_cancelled (hs : e = .cancelled ∧ JobSettled h s) : Raised h I e s :=
  ⟨fun _ => hs.2, fun hne => absurd hs.1 hne⟩

/-- The clause for exceptions: a cancellation passes with a settled row. -/
theorem exceptException_settled {clause : Exc → Handle Unit}
    {Q : Unit → HandlerState → Prop}
    (hclause : ∀ e, Triple I (clause e) Q (fun _ => JobSettled h)) (e : Exc) :
    Triple (Raised h I e) (exceptException clause e) Q (fun _ => JobSettled h) := by
  unfold exceptException
  split_ifs with he
  · exact .raise fun _ hs => hs.1 he
  · exact (hclause e).pre (fun _ hs => hs.2 he)

/-- A settled row with nothing more to do is what a cancellation leaves. -/
theorem raised_of_settled (hI : ∀ s, I s → JobSettled h s) (hs : I s) : Raised h I e s :=
  ⟨fun _ => hI s hs, fun _ => hs⟩

theorem Raised.settled (hI : ∀ s, I s → JobSettled h s) (hs : Raised h I e s) : JobSettled h s := by
  by_cases he : e = .cancelled
  · exact hs.1 he
  · exact hI s (hs.2 he)

/-- A transaction that writes events or audit rows, and abandons nothing. -/
theorem record_harmless {site : TxSite} (hsite : ∀ o, h.abandonsTx site o = false) :
    Keeps (Unmarked h.abandons J) (record ω site) := by
  have hfalse (o : TxOutcome) : h.abandons (.tx site o) = false := hsite o
  refine (record_marked ω site (hfalse _)).exc ?_
  rintro e s (⟨-, hs⟩ | ⟨-, hs⟩)
  all_goals
    rw [hfalse] at hs
    exact hs.unmarked

theorem record_last {site : TxSite} (hsite : ∀ o, h.abandonsTx site o = decide (o ≠ .done)) :
    Stays h.OpenRow (record ω site) (fun _ => JobSettled h) := by
  have hbad (o : TxOutcome) : h.abandons (.tx site o) = decide (o ≠ .done) := hsite o
  refine (record_marked ω site (hbad _)).exc ?_
  rintro e s (⟨-, hs⟩ | ⟨-, hs⟩)
  all_goals
    rw [hbad] at hs
    exact abandoned_of_open hs

theorem CallState.Open.finish (hstate : state.isOpen = false) (hs : s.toCallState.Open) :
    (s.op (.finish state)).toCallState.Ended := by
  refine ⟨state, ?_, hstate⟩
  show s.jobs ++ [.finish state] = _
  rw [hs.1, List.singleton_append]

section Finish

variable {site : TxSite} (hstate : state.isOpen = false)
  (hbefore : ∀ e, h.abandonsTx site (.before e) = true)
  (hother : h.abandonsTx site .done = false ∧ ∀ e, h.abandonsTx site (.after e) = false)
include hstate hbefore hother

/-- A `_finish` outside every block for exceptions. -/
theorem finishTx_last :
    Triple h.OpenRow (finishTx ω site state) (fun _ => h.EndedRow) (fun _ => JobSettled h) := by
  have hbad (o : TxOutcome) : h.abandons (.tx site o) = h.abandonsTx site o := rfl
  refine (opTx_marked ω site (.finish state) (fun _ => CallState.Open.finish hstate)
    ((hbad _).trans hother.1)).exc ?_
  rintro e s (⟨-, hs⟩ | ⟨-, hs⟩)
  · rw [hbad, hbefore] at hs
    exact abandoned_of_open hs
  · rw [hbad, hother.2] at hs
    exact settled_of_ended hs.unmarked

theorem finishTx_settled : Ends h.OpenRow (finishTx ω site state) (JobSettled h) :=
  (finishTx_last ω hstate hbefore hother).post fun _ _ hs => settled_of_ended hs

end Finish

/-- The lock of a transaction is released without an error: what is raised after the commit is a
cancellation. -/
def Oracle.Unlocks (ω : Oracle) : Prop := ∀ site e, ω.tx site = .after e → e = .cancelled

variable {ω} (hω : ω.Unlocks)
include hω

/-- A record under an open row that abandons it when the caller is cancelled. -/
theorem record_open {site : TxSite} (hsite : ∀ o, h.abandonsTx site o = o.passes) :
    Stays h.OpenRow (record ω site) (Raised h h.OpenRow) := by
  have hbad (o : TxOutcome) : h.abandons (.tx site o) = o.passes := hsite o
  refine (record_marked ω site (hbad _)).exc ?_
  rintro e s (⟨-, hs⟩ | ⟨hafter, hs⟩)
  · rw [hbad] at hs
    have hpasses : TxOutcome.passes (.before e) = decide (e = .cancelled) := by
      simp [TxOutcome.passes]
    rw [hpasses] at hs
    exact raised_of_marked hs
  · rw [hbad] at hs
    have he := hω site e hafter
    subst he
    exact raised_of_marked hs

/-- `_job_intent`: no row, an open row, or one that is abandoned at once. -/
theorem jobIntentTx_open :
    Triple h.NoRow (jobIntentTx ω) (fun _ => h.OpenRow) (Raised h h.NoRow) := by
  have htx : Triple h.NoRow (transaction ω .intent fun s => s.op .intent)
      (fun _ => Unmarked h.abandons fun c => c.jobs = [.intent]) (Raised h h.NoRow) := by
    have hdone : h.abandons (.tx .intent .done) = false := rfl
    refine (opTx_marked ω .intent .intent ?_ hdone).exc ?_
    · intro s hs
      show s.jobs ++ [.intent] = [.intent]
      rw [hs.1, List.nil_append]
    · rintro e s (⟨-, hs⟩ | ⟨hafter, hs⟩)
      · exact raised_of_settled (fun _ => settled_of_absent) hs.unmarked
      · have he := hω _ e hafter
        exact ⟨fun _ => settled_of_abandoned hs, fun hne => absurd he hne⟩
  exact .next htx (.modify fun s hs => ⟨⟨hs.1, rfl⟩, hs.2⟩)

/-- The first `_finish` of a handler that catches exceptions: one that is raised before the commit
is followed by the clause. -/
theorem finishTx_caught (hcatches : h.catches = true) :
    Triple h.OpenRow (finishTx ω .finish .succeeded) (fun _ => h.EndedRow)
      (Raised h h.OpenRow) := by
  have hdone : h.abandons (.tx .finish .done) = false := rfl
  refine (opTx_marked ω .finish (.finish .succeeded) (fun _ => CallState.Open.finish rfl)
    hdone).exc ?_
  rintro e s (⟨-, hs⟩ | ⟨hafter, hs⟩)
  · have hbad : h.abandons (.tx .finish (.before e)) = decide (e = .cancelled) := by
      simp [Handler.abandons, Handler.abandonsTx, hcatches]
    rw [hbad] at hs
    exact raised_of_marked hs
  · have he := hω _ e hafter
    exact ⟨fun _ => settled_of_ended hs.unmarked, fun hne => absurd he hne⟩

end Rules

/-! ### Leases do not matter -/

variable {h : Handler} (ω : Oracle) {e : Happened}

theorem note_harmless (he : h.abandons e = false) : Keeps (Unmarked h.abandons J) (note e) := by
  have hnote : Triple (Unmarked h.abandons J) (note e)
      (fun _ => Marked h.abandons J (h.abandons e)) (fun _ => Unmarked h.abandons J) :=
    note_marked e
  rw [he] at hnote
  exact hnote.post (fun _ _ hs => hs.unmarked)

theorem note_jobSettled (he : h.abandons e = false) : Keeps (JobSettled h) (note e) := by
  refine .modify fun s hs => ?_
  have hclear : ({ s with trace := s.trace ++ [e] } : HandlerState).Clear h.abandons ↔
      s.Clear h.abandons := by
    rw [HandlerState.clear_append, he]
    exact and_iff_left rfl
  unfold JobSettled
  rw [hclear]
  exact hs

variable {site : ReleaseSite}

theorem releaseOwn_jobSettled (hsite : ∀ o, h.abandons (.release site o) = false) (primary : Bool) :
    Keeps (JobSettled h) (releaseOwn ω site primary) :=
  .get fun t => releaseLease_ends ω (fun _ _ hs => hs) site t.lease t.renewal primary
    (note_jobSettled (hsite _))

theorem releaseOwn_noRow (hsite : ∀ o, h.abandons (.release site o) = false) (primary : Bool) :
    Keeps h.NoRow (releaseOwn ω site primary) :=
  .get fun t => releaseLease_ends ω (fun _ _ hs => hs) site t.lease t.renewal primary
    (note_harmless (hsite _))

theorem acquire_noRow (hh : h ≠ .confirmSwitch) : Keeps h.NoRow (acquire ω) := by
  have hstore (o : StoreOutcome) : h.abandons (.store .reserve o) = false := by
    simp [Handler.abandons, Handler.abandonsStore, hh]
  have hevent (o : TxOutcome) : h.abandonsTx .slotEvent o = false := by
    cases o <;> simp [Handler.abandonsTx, hh]
  have haudit (o : TxOutcome) : h.abandonsTx .slotAudit o = false := by
    cases o <;> simp [Handler.abandonsTx, hh]
  exact acquire_keeps ω (fun _ _ hs => hs) (note_harmless (hstore _)) (record_harmless ω hevent)
    (record_harmless ω haudit)

theorem tryFinally_jobSettled {P : HandlerState → Prop} {m : Handle Unit}
    (hsite : ∀ o, h.abandons (.release site o) = false)
    (hm : Ends P m (JobSettled h)) : Ends P (tryFinally m (releaseOwn ω site)) (JobSettled h) :=
  .tryFinally hm (fun _ => releaseOwn_jobSettled ω hsite false)
    (fun _ => releaseOwn_jobSettled ω hsite true)

theorem operationLease_jobSettled (hh : h ≠ .confirmSwitch) {body : Handle Unit}
    (hbody : Ends h.NoRow body (JobSettled h)) :
    Ends h.NoRow (operationLease ω body) (JobSettled h) := by
  have hsettle {α : Type} {m : Handle α} (hm : Keeps h.NoRow m) :
      Stays h.NoRow m (fun _ => JobSettled h) :=
    hm.exc (fun _ _ hs => settled_of_absent hs)
  refine .next (hsettle (acquire_noRow ω hh)) ?_
  refine tryFinally_jobSettled ω (fun _ => rfl) (.next (hsettle ?_) hbody)
  exact wait_harmless ω fun _ => rfl

/-! ### The handlers -/

variable {ω} {s : HandlerState}

/-- A row that is not there, or is open, when a clause for exceptions begins. -/
def Handler.Caught (h : Handler) (s : HandlerState) : Prop := h.NoRow s ∨ h.OpenRow s

theorem Raised.caught_of_noRow {e : Exc} (hs : Raised h h.NoRow e s) : Raised h h.Caught e s :=
  ⟨hs.1, fun he => .inl (hs.2 he)⟩

theorem Raised.caught_of_open {e : Exc} (hs : Raised h h.OpenRow e s) : Raised h h.Caught e s :=
  ⟨hs.1, fun he => .inr (hs.2 he)⟩

theorem startupEstimate_settled :
    Triple h.EndedRow (logged ω .startupEstimate) (fun _ => JobSettled h) (Raised h h.OpenRow) := by
  refine .tryExcept (F := fun _ => h.EndedRow) ?_ fun e => ?_
  · exact (wait_harmless ω fun _ => rfl).post (fun _ _ hs => settled_of_ended hs)
  · unfold exceptException
    split_ifs with he
    · exact .raise fun _ hs => .of_cancelled ⟨he, settled_of_ended hs⟩
    · exact .pure fun _ hs => settled_of_ended hs

variable {Q : Unit → HandlerState → Prop}

theorem finishFailed_settled {b : Bool} (hb : b = true) :
    Triple h.OpenRow (do
        onlyIf b (finishTx ω .finishFailed .failed)
        raise .controllerFailure) Q (fun _ => JobSettled h) := by
  subst hb
  refine .next (finishTx_settled ω rfl (fun _ => rfl) ⟨rfl, fun _ => rfl⟩) ?_
  exact .raise same

theorem startFailed_jobs :
    Triple Handler.start.Caught (startFailed ω) Q (fun _ => JobSettled .start) := by
  refine .get fun t => .assume fun s ⟨hs, heq⟩ => ?_
  subst heq
  rcases hs with hnone | hopen
  · -- nothing was started and there is no row
    obtain ⟨⟨-, hid, hstarted⟩, -⟩ := id hnone
    rw [hid, hstarted]
    rintro t rfl
    exact settled_of_absent hnone
  · rw [hopen.1.2]
    have hcleanup : Stays Handler.start.OpenRow (onlyIf s.started (logged ω .cleanupStart))
        (fun _ => JobSettled .start) :=
      .ite ((logged_open ω fun _ => rfl).exc fun _ _ hs => hs.2) (.pure same)
    refine (Triple.next hcleanup (finishFailed_settled rfl)).pre ?_
    rintro t rfl
    exact hopen

theorem stopFailed_jobs :
    Triple Handler.stopWithFence.Caught (stopFailed ω) Q (fun _ => JobSettled .stopWithFence) := by
  refine .get fun t => .assume fun s ⟨hs, heq⟩ => ?_
  subst heq
  rcases hs with hnone | hopen
  · obtain ⟨⟨-, hid, -⟩, -⟩ := id hnone
    rw [hid]
    rintro t rfl
    exact settled_of_absent hnone
  · refine (finishFailed_settled hopen.1.2).pre ?_
    rintro t rfl
    exact hopen

variable (hω : ω.Unlocks)
include hω

/-- The part of a block before the intent: whatever it raises, there is no row. -/
theorem intent_caught {first rest : Handle Unit} (hfirst : Keeps h.NoRow first)
    (hrest : Triple h.OpenRow rest (fun _ => JobSettled h) (Raised h h.OpenRow)) :
    Triple h.NoRow (do
        first
        jobIntentTx ω
        rest) (fun _ => JobSettled h) (Raised h h.Caught) := by
  refine .bind (hfirst.exc fun _ _ hs =>
    (raised_of_settled (fun _ => settled_of_absent) hs).caught_of_noRow) fun _ => ?_
  refine .next ((jobIntentTx_open hω).exc fun _ _ hs => hs.caught_of_noRow) ?_
  exact hrest.exc fun _ _ hs => hs.caught_of_open

theorem startBody_jobs : Triple Handler.start.NoRow (startBody ω) (fun _ => JobSettled .start)
    (Raised .start Handler.start.Caught) := by
  refine intent_caught hω (acquire_noRow ω (by decide)) ?_
  refine .bind (await_open ω fun _ => rfl) fun free => .ite ?_ (raise_open (by decide))
  refine .seq Handler.start.OpenRow (.modify same) fun _ => ?_
  refine .next ((logged_open ω fun _ => rfl).exc fun _ _ hs => .of_cancelled hs) ?_
  refine .next (wait_open ω fun _ => rfl) ?_
  refine .next (wait_open ω fun _ => rfl) ?_
  refine .bind (await_open ω fun _ => rfl) fun ready => .ite ?_ (raise_open (by decide))
  exact .next (finishTx_caught hω rfl) startupEstimate_settled

theorem start_jobs : Ends Handler.start.NoRow (start ω) (JobSettled .start) := by
  refine .ite ?_ (.raise fun _ hs => settled_of_absent hs)
  refine tryFinally_jobSettled ω (fun _ => rfl) (.tryExcept (startBody_jobs hω) ?_)
  exact exceptException_settled fun _ => startFailed_jobs

theorem stopWithFence_jobs :
    Ends Handler.stopWithFence.NoRow (stopWithFence ω) (JobSettled .stopWithFence) := by
  have hfence : Keeps Handler.stopWithFence.NoRow (acquireStopFence ω) := by
    refine .tryExcept ?_ fun e => ?_
    · refine (acquire_noRow ω (by decide)).bind fun _ =>
        (wait_harmless ω fun _ => rfl).next ?_
      exact (wait_harmless ω fun _ => rfl).next (wait_harmless ω fun _ => rfl)
    · refine (releaseOwn_noRow ω (fun _ => rfl) true).next ?_
      exact .next (.modify fun _ hs => hs) (.raise e)
  have hstop : Triple Handler.stopWithFence.OpenRow (do
      wait ω .adapterStop
      finishTx ω .finish .succeeded) (fun _ => JobSettled .stopWithFence)
      (Raised .stopWithFence Handler.stopWithFence.OpenRow) := by
    refine .next (wait_open ω fun _ => rfl) ?_
    exact (finishTx_caught hω rfl).post (fun _ _ hs => settled_of_ended hs)
  refine tryFinally_jobSettled ω (fun _ => rfl) (.tryExcept (intent_caught hω hfence hstop) ?_)
  exact exceptException_settled fun _ => stopFailed_jobs

theorem jobIntentTx_settled :
    Triple h.NoRow (jobIntentTx ω) (fun _ => h.OpenRow) (fun _ => JobSettled h) :=
  (jobIntentTx_open hω).exc fun _ _ hs => hs.settled fun _ => settled_of_absent

theorem command_jobs : Ends Handler.command.NoRow (command ω) (JobSettled .command) := by
  refine .ite ?_ (.raise fun _ hs => settled_of_absent hs)
  refine .bind (jobIntentTx_settled hω) fun _ => .bind ?_ fun _ =>
    finishTx_settled ω rfl (fun _ => rfl) ⟨rfl, fun _ => rfl⟩
  refine .tryExcept (wait_open ω fun _ => rfl) (exceptException_settled fun _ => ?_)
  refine .next (finishTx_settled ω rfl (fun _ => rfl) ⟨rfl, fun _ => rfl⟩) ?_
  exact .raise same

/-- A job around one service whose clauses catch everything, cancellations too. -/
theorem serviceJob_settled (hh : h.catches = false) {ending : Exc → JobState}
    (hending : ∀ e, (ending e).isOpen = false) {translate : Exc → Exc} :
    Ends h.NoRow (do
        jobIntentTx ω
        tryExcept (wait ω .service) fun e => do
          finishTx ω .finishFailed (ending e)
          raise (translate e)
        finishTx ω .finish .succeeded) (JobSettled h) := by
  have hbefore (e : Exc) : h.abandonsTx .finish (.before e) = true := by
    simp [Handler.abandonsTx, hh]
  refine .next (jobIntentTx_settled hω) ?_
  refine .seq h.OpenRow (.tryExcept (F := fun _ => h.OpenRow)
    (wait_harmless ω fun _ => rfl) fun e => ?_) fun _ => ?_
  · refine .next (finishTx_settled ω (hending e) (fun _ => rfl) ⟨rfl, fun _ => rfl⟩) ?_
    exact .raise same
  · exact finishTx_settled ω rfl hbefore ⟨rfl, fun _ => rfl⟩

omit hω in
theorem backupEnding_isOpen (e : Exc) : (backupEnding e).isOpen = false := by
  cases e with
  | safe deferred => cases deferred <;> rfl
  | _ => rfl

theorem runScheduledBackup_jobs : Ends Handler.runScheduledBackup.NoRow (runScheduledBackup ω)
    (JobSettled .runScheduledBackup) := by
  refine .ite ?_ (.raise fun _ hs => settled_of_absent hs)
  refine operationLease_jobSettled ω (by decide) ?_
  exact serviceJob_settled hω rfl backupEnding_isOpen

theorem runBoundMaintenanceJob_jobs (hh : h.catches = false) :
    Ends h.NoRow (runBoundMaintenanceJob ω) (JobSettled h) :=
  serviceJob_settled hω hh fun _ => rfl

theorem runHandoffMaintenanceJob_jobs :
    Ends Handler.runHandoffMaintenanceJob.NoRow (runHandoffMaintenanceJob ω)
      (JobSettled .runHandoffMaintenanceJob) := by
  have hcheck : Stays Handler.runHandoffMaintenanceJob.NoRow (await ω .handoffCheck)
      (fun _ => JobSettled .runHandoffMaintenanceJob) :=
    (await_marked ω .handoffCheck fun _ => rfl).exc fun _ _ hs => settled_of_absent
      (Marked.unmarked hs)
  refine .bind hcheck fun matching => ?_
  exact .ite (runBoundMaintenanceJob_jobs hω rfl) (.raise fun _ hs => settled_of_absent hs)

omit hω in
theorem setProfileConfig_jobs :
    Ends Handler.setProfileConfig.NoRow (setProfileConfig ω) (JobSettled .setProfileConfig) := by
  refine operationLease_jobSettled ω (by decide) ?_
  have hbody : Keeps Handler.setProfileConfig.NoRow (do
      wait ω .statusSnapshot
      if ω.flag .configurable then
        tryExcept (wait ω .writeConfig) fun e =>
          if e = .cancelled ∨ e = .other then raise e else raise .controllerFailure
        record ω .configEvent
        record ω .configAudit
      else raise .controllerFailure) := by
    refine (wait_harmless ω fun _ => rfl).next (.ite ?_ (.raise _))
    refine .bind (.tryExcept (wait_harmless ω fun _ => rfl) fun e => .ite (.raise _) (.raise _))
      fun _ => ?_
    exact (record_harmless ω fun o => by cases o <;> rfl).bind fun _ =>
      record_harmless ω fun o => by cases o <;> rfl
  exact hbody.conseq (fun _ hs => hs) (fun _ _ hs => settled_of_absent hs)
    (fun _ _ hs => settled_of_absent hs)

end Horizon
