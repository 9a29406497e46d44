/-
**Abandoned jobs, exactly.**

The two handlers with the longest way between `_job_intent` and `_finish`: a switch, whose clause
for exceptions first rolls the switch back, and a benchmark, whose row is ended by its worker.  With
the handlers of `JobEnds` this gives the result for all of them.

Main results:

* `jobsEnded_iff` — a call leaves its row open exactly when an await has abandoned it.
-/

import Horizon.JobEnds

namespace Horizon

open Coroutine Coroutine.Coro

/-! ### The switch -/

variable {Q : Unit → HandlerState → Prop}

section Switch

variable {ω : Oracle} (hω : ω.Unlocks)

abbrev SwitchOpen : HandlerState → Prop := Handler.confirmSwitch.OpenRow

/-- What a part of a switch leaves when it raises. -/
abbrev SwitchRaised : Exc → HandlerState → Prop := Raised .confirmSwitch SwitchOpen

/-- A call on the store: a cancelled caller abandons the row, and a refusal is the code's own. -/
theorem note_store_open (site : StoreSite)
    (hsite : ∀ o, Handler.confirmSwitch.abandonsStore site o = o.cancelled)
    {E : Exc → HandlerState → Prop} :
    Triple SwitchOpen (note (.store site (ω.store site)))
      (fun _ => Marked Handler.confirmSwitch.abandons CallState.Open (ω.store site).cancelled)
      E := by
  have hbad : Handler.confirmSwitch.abandons (.store site (ω.store site)) =
      (ω.store site).cancelled := hsite _
  rw [← hbad]
  exact note_marked _

theorem raise_cancelled : Triple (Marked Handler.confirmSwitch.abandons CallState.Open true)
    (raise .cancelled : Handle Unit) Q SwitchRaised :=
  .raise fun _ hs => .of_cancelled ⟨rfl, abandoned_of_open hs⟩

theorem setStored_marked (o : Option Lease) (b : Bool) :
    Stays (Marked Handler.confirmSwitch.abandons CallState.Open b) (setStored o) SwitchRaised :=
  .modify same

theorem storeRaised_open (b : Bool) :
    Triple (Marked Handler.confirmSwitch.abandons CallState.Open b) (storeRaised b) Q
      SwitchRaised := by
  cases b with
  | true => exact raise_cancelled
  | false => exact (raise_open (by decide)).pre (fun _ hs => Marked.unmarked hs)

theorem reservationIo_open {site : StoreSite} {l : Lease}
    (hsite : ∀ o, Handler.confirmSwitch.abandonsStore site o = o.cancelled) :
    Stays SwitchOpen (reservationIo ω site l) SwitchRaised := by
  refine .next (note_store_open site hsite) ?_
  cases (ω.store site).effect with
  | stored =>
    refine .next (setStored_marked _ _) ?_
    cases (ω.store site).cancelled with
    | true => exact .next (setStored_marked _ _) raise_cancelled
    | false => exact .pure fun _ hs => Marked.unmarked hs
  | refused => exact storeRaised_open _
  | storedThenRaised => exact .next (setStored_marked _ _) (storeRaised_open _)

include hω in
theorem reserve_open {site : StoreSite} {l : Lease} {event audit : TxSite}
    (hsite : ∀ o, Handler.confirmSwitch.abandonsStore site o = o.cancelled)
    (hevent : ∀ o, Handler.confirmSwitch.abandonsTx event o = o.passes)
    (haudit : ∀ o, Handler.confirmSwitch.abandonsTx audit o = o.passes) :
    Stays SwitchOpen (reserve ω site l event audit) SwitchRaised := by
  refine .tryExcept (reservationIo_open hsite) fun e => ?_
  unfold exceptException
  split_ifs with he
  · exact .raise same
  · refine .next ((record_open hω hevent).pre (fun _ hs => hs.2 he)) ?_
    exact .next (record_open hω haudit) (raise_open (by decide))

include hω in
theorem acquire_open : Stays SwitchOpen (acquire ω) SwitchRaised := by
  have hmodify (f : HandlerState → HandlerState) (hf : ∀ s, SwitchOpen s → SwitchOpen (f s)) :
      Stays SwitchOpen (modify f : Handle Unit) SwitchRaised :=
    .modify hf
  refine .bind (reserve_open hω (fun _ => rfl) (fun o => by cases o <;> rfl)
    fun o => by cases o <;> rfl) fun _ => ?_
  refine .next (hmodify _ fun _ hs => hs) ?_
  exact .next (hmodify _ fun _ hs => hs) (hmodify _ fun _ hs => hs)

theorem transferLease_open : Stays SwitchOpen (transferLease ω) SwitchRaised :=
  .bind (reservationIo_open fun _ => rfl) fun _ => .modify same

theorem startWithFreeRetry_open {first free second : Site}
    (hfirst : CancelOnly first) (hfree : CancelOnly free) (hsecond : CancelOnly second) :
    Stays SwitchOpen (startWithFreeRetry ω first free second) SwitchRaised := by
  refine .tryExcept (wait_open ω hfirst) fun e => ?_
  split_ifs with he
  · have hne : e ≠ .cancelled := by
      rw [he]
      decide
    refine .bind ((await_open ω hfree).pre (fun _ hs => hs.2 hne)) fun b => ?_
    exact .ite (wait_open ω hsecond) (raise_open (by decide))
  · exact .raise same

/-- A stop that is followed by force after a timeout, or by an exception. -/
theorem stop_open {first second : Site} {q : Prop} [Decidable q] {e' : Exc}
    (hfirst : CancelOnly first) (hsecond : CancelOnly second) (he' : e' ≠ .cancelled) :
    Stays SwitchOpen (tryExcept (wait ω first) fun e =>
        if e = .timeout then if q then wait ω second else raise e' else raise e)
      SwitchRaised := by
  refine .tryExcept (wait_open ω hfirst) fun e => ?_
  split
  · rename_i he
    have hne : e ≠ .cancelled := by
      rw [he]
      decide
    have hcaught (s : HandlerState) (hs : SwitchRaised e s) : SwitchOpen s := hs.2 hne
    exact .ite ((wait_open ω hsecond).pre hcaught) ((raise_open he').pre hcaught)
  · exact .raise same

include hω in
theorem switchBody_open :
    Triple SwitchOpen (switchBody ω) (fun _ => JobSettled .confirmSwitch) SwitchRaised := by
  have hbackup : Stays SwitchOpen (onlyIf (ω.flag .createBackup) (switchBackup ω)) SwitchRaised :=
    .ite (.next (wait_open ω fun _ => rfl) (wait_open ω fun _ => rfl)) (.pure same)
  refine .next (acquire_open hω) ?_
  refine .next (stop_open (fun _ => rfl) (fun _ => rfl) (by decide)) ?_
  refine .next (wait_open ω fun _ => rfl) ?_
  refine .bind (await_open ω fun _ => rfl) fun free => .ite ?_ (raise_open (by decide))
  refine .next (wait_open ω fun _ => rfl) (.next hbackup ?_)
  refine .seq SwitchOpen (.modify same) fun _ => ?_
  refine .next ((logged_open ω fun _ => rfl).exc fun _ _ hs => .of_cancelled hs) ?_
  refine .next (startWithFreeRetry_open (fun _ => rfl) (fun _ => rfl) fun _ => rfl) ?_
  refine .next (wait_open ω fun _ => rfl) ?_
  refine .bind (await_open ω fun _ => rfl) fun ready => .ite ?_ (raise_open (by decide))
  exact .next (finishTx_caught hω rfl) startupEstimate_settled

theorem stopTarget_open : Stays SwitchOpen (stopTarget ω) SwitchRaised := by
  refine .tryExcept (wait_open ω fun _ => rfl) fun e => ?_
  split_ifs with he
  · have hne : e ≠ .cancelled := by
      rw [he.1]
      decide
    exact (wait_open ω fun _ => rfl).pre (fun _ hs => hs.2 hne)
  · exact .raise same

include hω in
theorem rollbackBody_open : Stays SwitchOpen (rollbackBody ω) SwitchRaised := by
  have hmodify (f : HandlerState → HandlerState) (hf : ∀ s, SwitchOpen s → SwitchOpen (f s)) :
      Stays SwitchOpen (modify f : Handle Unit) SwitchRaised :=
    .modify hf
  have hreserve : Stays SwitchOpen (reserveRollback ω) SwitchRaised :=
    .bind (reserve_open hω (fun _ => rfl) (fun o => by cases o <;> rfl)
      fun o => by cases o <;> rfl) fun _ => hmodify _ fun _ hs => hs
  have hacquire : Stays SwitchOpen (rollbackAcquire ω) SwitchRaised := by
    refine .get fun t => .ite ?_ ?_
    · exact transferLease_open.pre (fun _ hs => hs.1)
    · exact hreserve.pre (fun _ hs => hs.1)
  have htarget (b : Bool) :
      Stays SwitchOpen (onlyIf b (stopTarget ω)) SwitchRaised :=
    .ite stopTarget_open (.pure same)
  refine .get fun t => ?_
  refine .next ((htarget _).pre (fun _ hs => hs.1)) (.next hacquire ?_)
  refine .next (hmodify _ fun _ hs => hs) ?_
  refine .next (hmodify _ fun _ hs => hs) ?_
  refine .bind (await_open ω fun _ => rfl) fun free => .ite ?_ (raise_open (by decide))
  refine .next (startWithFreeRetry_open (fun _ => rfl) (fun _ => rfl) fun _ => rfl) ?_
  refine .bind (await_open ω fun _ => rfl) fun ready => ?_
  exact .ite (.pure same) (raise_open (by decide))

include hω in
/-- A rollback that is not cancelled comes back with the row still open. -/
theorem rollbackSource_open :
    Stays SwitchOpen (rollbackSource ω) (fun _ => JobSettled .confirmSwitch) := by
  have hrecord {site : TxSite}
      (hsite : ∀ o, Handler.confirmSwitch.abandonsTx site o = decide (o ≠ .done)) :
      Stays SwitchOpen (record ω site) (fun _ => JobSettled .confirmSwitch) := record_last ω hsite
  refine .next (hrecord fun o => by cases o <;> rfl) ?_
  refine .next (hrecord fun o => by cases o <;> rfl) ?_
  refine .seq SwitchOpen (.tryExcept (.bind
    (rollbackBody_open hω) fun _ => (.pure same)) fun e => ?_) fun restored => .ite ?_ ?_
  · split_ifs with he
    · exact .raise fun _ hs => hs.1 he
    · exact .pure fun _ hs => hs.2 he
  all_goals exact .next (hrecord fun o => by cases o <;> rfl) (hrecord fun o => by cases o <;> rfl)

include hω in
theorem confirmSwitch_jobs :
    Ends Handler.confirmSwitch.NoRow (confirmSwitch ω) (JobSettled .confirmSwitch) := by
  have hconsume : Stays Handler.confirmSwitch.NoRow (record ω .consume)
      (fun _ => JobSettled .confirmSwitch) :=
    (record_harmless ω fun o => by cases o <;> rfl).exc fun _ _ hs => settled_of_absent hs
  have hfailed : Ends SwitchOpen (switchFailed ω) (JobSettled .confirmSwitch) := by
    refine .seq SwitchOpen (.ite (rollbackSource_open hω) (.pure same)) fun _ => ?_
    refine .next (finishTx_settled ω rfl (fun _ => rfl) ⟨rfl, fun _ => rfl⟩) ?_
    exact .raise same
  have hreleases (primary : Bool) :
      Keeps (JobSettled .confirmSwitch) (switchReleases ω primary) := by
    refine .get fun t => .bind ?_ fun _ => ?_
    · exact releaseLease_ends ω (fun _ _ hs => hs) .lease t.lease t.renewal primary
        (note_jobSettled rfl)
    · exact releaseLease_ends ω (fun _ _ hs => hs) .rollback t.rollbackLease t.rollbackTask primary
        (note_jobSettled rfl)
  refine .next hconsume (.ite ?_ (.raise fun _ hs => settled_of_absent hs))
  refine .next (jobIntentTx_settled hω) ?_
  refine .tryFinally (.tryExcept (switchBody_open hω)
    (exceptException_settled fun _ => hfailed)) (fun _ => hreleases false) fun _ => hreleases true

end Switch

/-! ### The benchmark -/

section Benchmark

variable {ω : Oracle} (hω : ω.Unlocks)

abbrev BenchmarkSettled : HandlerState → Prop := JobSettled .benchmark

/-- A release before the row is inserted, and the exception after it. -/
theorem releaseAndRaise_noRow {site : ReleaseSite}
    (hsite : ∀ o, Handler.benchmark.abandons (.release site o) = false) (primary : Bool) (e : Exc) :
    Keeps Handler.benchmark.NoRow (releaseAndRaise ω site primary e) :=
  (releaseOwn_noRow ω hsite primary).next (.raise e)

theorem operationLeaseAcquire_noRow : Keeps Handler.benchmark.NoRow (operationLeaseAcquire ω) := by
  refine (acquire_noRow ω (by decide)).next ?_
  refine .tryExcept (wait_harmless ω fun _ => rfl) fun e => ?_
  exact releaseAndRaise_noRow (fun _ => rfl) true e

theorem proveIdle_noRow : Keeps Handler.benchmark.NoRow (proveIdle ω) := by
  refine .tryExcept (wait_harmless ω fun _ => rfl) fun e => ?_
  exact .ite (.raise e) (releaseAndRaise_noRow (fun _ => rfl) true _)

/-- The clauses of the preparation end the row, whatever was raised. -/
theorem prepareBenchmark_open :
    Stays Handler.benchmark.OpenRow (prepareBenchmark ω) (fun _ => BenchmarkSettled) := by
  refine .tryExcept (F := fun _ => Handler.benchmark.OpenRow) ?_ fun e => ?_
  · refine .next (wait_harmless ω fun _ => rfl) ?_
    exact .ite (record_harmless ω fun o => by cases o <;> rfl) (.raise same)
  · refine .next (finishTx_settled ω rfl (fun _ => rfl) ⟨rfl, fun _ => rfl⟩) ?_
    refine .next (releaseOwn_jobSettled ω (fun _ => rfl) true) ?_
    exact .raise same

/-- A controller that is closed releases the lease and leaves the row. -/
theorem closed_settled :
    Triple Handler.benchmark.OpenRow (releaseAndRaise ω .closed false .controllerFailure) Q
      (fun _ => BenchmarkSettled) := by
  have hnote : Ends Handler.benchmark.OpenRow (note (.release .closed (ω.release .closed)))
      BenchmarkSettled :=
    (note_marked (.release .closed (ω.release .closed))).post (fun _ _ hs => abandoned_of_open hs)
  refine .next (.get fun t => ?_) (.raise same)
  exact (releaseLease_ends ω (fun _ _ hs => hs) .closed t.lease t.renewal false hnote).pre
    fun _ hs => hs.1

include hω in
theorem runBenchmark_open :
    Triple Handler.benchmark.NoRow (runBenchmark ω) (fun _ => Handler.benchmark.OpenRow)
      (fun _ => BenchmarkSettled) := by
  have hsettle {α : Type} {m : Handle α} (hm : Keeps Handler.benchmark.NoRow m) :
      Stays Handler.benchmark.NoRow m (fun _ => BenchmarkSettled) :=
    hm.exc (fun _ _ hs => settled_of_absent hs)
  refine .ite ?_ (.raise fun _ hs => settled_of_absent hs)
  refine .next (hsettle operationLeaseAcquire_noRow) ?_
  refine .next (hsettle proveIdle_noRow) (.ite ?_ ?_)
  · refine .next (hsettle (releaseOwn_noRow ω (fun _ => rfl) false)) ?_
    exact .raise fun _ hs => settled_of_absent hs
  · refine .next (jobIntentTx_settled hω) ?_
    refine .next prepareBenchmark_open ?_
    exact .ite closed_settled (.modify same)

theorem benchmarkFailed_jobs :
    Ends Handler.benchmark.OpenRow (benchmarkFailed ω) BenchmarkSettled := by
  refine .next ((logged_open ω fun _ => rfl).exc fun _ _ hs => hs.2) ?_
  refine .next (finishTx_settled ω rfl (fun _ => rfl) ⟨rfl, fun _ => rfl⟩) ?_
  exact releaseOwn_jobSettled ω (fun _ => rfl) true

theorem benchmarkCompleted_jobs :
    Ends Handler.benchmark.OpenRow (benchmarkCompleted ω) BenchmarkSettled := by
  refine tryFinally_jobSettled ω (fun _ => rfl) ?_
  refine .next ((logged_open ω fun _ => rfl).exc fun _ _ hs => hs.2) ?_
  exact finishTx_settled ω rfl (fun _ => rfl) ⟨rfl, fun _ => rfl⟩

theorem benchmarkRun_jobs :
    Triple Handler.benchmark.OpenRow (benchmarkRun ω)
      (fun ok s => (ok = true → Handler.benchmark.OpenRow s) ∧ (ok = false → BenchmarkSettled s))
      (fun _ => BenchmarkSettled) := by
  refine .tryExcept (F := Raised .benchmark Handler.benchmark.OpenRow) ?_ fun e => ?_
  · refine .next (wait_open ω fun _ => rfl) ?_
    refine .next (wait_open ω fun _ => rfl) ?_
    exact .pure fun _ hs => ⟨fun _ => hs, fun hok => by cases hok⟩
  · split_ifs with he
    · -- the worker was cancelled: it releases the lease and leaves the row
      refine .bind ((releaseOwn_jobSettled ω (fun _ => rfl) true).pre fun _ hs => hs.1 he)
        fun _ => ?_
      exact .raise same
    · refine .next (benchmarkFailed_jobs.pre (fun _ hs => hs.2 he)) ?_
      exact .pure fun _ hs => ⟨fun hok => (by cases hok), fun _ => hs⟩

include hω in
theorem benchmark_jobs : Ends Handler.benchmark.NoRow (benchmark ω) BenchmarkSettled := by
  have hstart : Stays Handler.benchmark.OpenRow (wait ω .workerStart) (fun _ => BenchmarkSettled) :=
    (wait_marked ω .workerStart fun _ => rfl).exc fun _ _ hs => abandoned_of_open hs
  refine .next (runBenchmark_open hω) (.next hstart ?_)
  refine .bind benchmarkRun_jobs fun ok => ?_
  cases ok with
  | true =>
    exact benchmarkCompleted_jobs.pre (fun _ hs => hs.1 rfl)
  | false => exact .pure fun _ hs => hs.2 rfl

end Benchmark

/-! ### Every handler -/

/-- **Abandoned jobs, exactly.**  Where the lock of a transaction is released without an error, a
call inserts no row, or inserts one and ends it once, if and only if no await that it performed has
abandoned the row. -/
theorem jobsEnded_iff (h : Handler) {ω : Oracle} (hω : ω.Unlocks) :
    JobsEnded (h.run ω).jobs ↔ ∀ e ∈ (h.run ω).trace, h.abandons e = false := by
  have hinit : h.NoRow {} := ⟨⟨rfl, rfl, rfl⟩, HandlerState.clear_init _⟩
  suffices hsettled : JobSettled h (h.run ω) from hsettled.iff
  cases h with
  | start => exact Triple.final (start_jobs hω) hinit
  | stopWithFence => exact Triple.final (stopWithFence_jobs hω) hinit
  | command => exact Triple.final (command_jobs hω) hinit
  | confirmSwitch => exact Triple.final (confirmSwitch_jobs hω) hinit
  | runScheduledBackup => exact Triple.final (runScheduledBackup_jobs hω) hinit
  | runMaintenanceJob =>
    exact Triple.final (operationLease_jobSettled ω (by decide)
      (runBoundMaintenanceJob_jobs hω rfl)) hinit
  | runHandoffMaintenanceJob => exact Triple.final (runHandoffMaintenanceJob_jobs hω) hinit
  | setProfileConfig => exact Triple.final setProfileConfig_jobs hinit
  | benchmark => exact Triple.final (benchmark_jobs hω) hinit

end Horizon
