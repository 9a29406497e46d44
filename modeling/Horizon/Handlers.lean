/-
**The controller's handlers, await by await.**

A handler is a coroutine over the part of the world that it must leave in order: whether the
reservation file carries one of its leases, which of its renewal tasks run, and what it has done to
the row of its job.  Its local variables are part of the state, since its last block reads what the
blocks before have assigned.

Every await can end in several ways, and an oracle says in which: it returns, it raises an
exception, it is cancelled.  A transaction can moreover be cancelled, or fail to unlock, after its
callback has committed.  A call on the reservation store runs in a worker thread that is always
drained: it takes effect, it refuses, or it raises when the directory cannot be flushed after the
file was replaced, whether or not the caller is cancelled meanwhile.  `release_if_owned` does not
fail.  The state keeps the awaits that were performed with their ends.

Main definitions:

* `Oracle`, `Leases`, `HandlerState`, `Happened`;
* `reserve`, `releaseLease`, `operationLease` — what the handlers share;
* `start`, `stopWithFence`, `command`, `confirmSwitch`,
  `runScheduledBackup`, `runMaintenanceJob`, `runHandoffMaintenanceJob`,
  `setProfileConfig`, `runBenchmark`, `benchmarkWorker`;
* `Handler`, `Handler.run`.
-/

import Horizon.Coroutine
import Horizon.StateDb

namespace Horizon

open Coroutine Coroutine.Coro

/-! ### How an await can end -/

/-- What a handler can raise, as far as its `except` clauses tell it apart. -/
inductive Exc
  /-- `asyncio.CancelledError`, which `except Exception` does not catch. -/
  | cancelled
  | timeout
  /-- `SafeError`; is its code `profile_running`? -/
  | safe (profileRunning : Bool)
  /-- An adapter error with return code 75. -/
  | busySlot
  | controllerFailure
  | other
  deriving DecidableEq

/-- An await that is neither a transaction nor a call on the store. -/
inductive AwaitOutcome
  | returned (flag : Bool)
  | raised (e : Exc)
  deriving DecidableEq

/-- A `_transaction`: it commits and returns, raises before its callback runs, or commits and then
raises while it unlocks. -/
inductive TxOutcome
  | done
  | before (e : Exc)
  | after (e : Exc)
  deriving DecidableEq

inductive StoreEffect
  | stored
  | refused
  /-- `_atomic_json` has replaced the file and raises while it flushes the directory. -/
  | storedThenRaised
  deriving DecidableEq

/-- A call on the store through `_reservation_io`: what did it do, and was the caller cancelled
while the worker thread ran? -/
structure StoreOutcome where
  effect : StoreEffect
  cancelled : Bool
  deriving DecidableEq

/-- `_release_lease`: had the renewal task failed, and was the caller cancelled while it was
drained, or while the reservation was released? -/
structure ReleaseOutcome where
  renewalFailed : Bool
  drainCancelled : Bool
  clearCancelled : Bool
  deriving DecidableEq

/-- The awaits of the handlers, other than transactions and store calls. -/
inductive Site
  | assertAcquired | stopPreflight | assertPreflight | waitFree | assertFree | versionHint
  | adapterStart | retryFree | adapterRestart | assertStarted | probeHealth | startupEstimate
  | cleanupStart | adapterStop | forceStop | assertStopped | createBackup | assertBackup
  | sendCommand | stopTarget | forceStopTarget | rollbackFree | rollbackStart | rollbackRetryFree
  | rollbackRestart | rollbackProbe | service | handoffCheck | statusSnapshot | writeConfig
  | proveIdle | preflight | workerStart | assertWorker | runBenchmark | failService | regression
  deriving DecidableEq

inductive TxSite
  | slotEvent | slotAudit | consume | intent | finish | finishFailed | rollbackEvent
  | rollbackAudit | rollbackSlotEvent | rollbackSlotAudit | rollbackFailedEvent
  | rollbackFailedAudit | rollbackDoneEvent | rollbackDoneAudit | configEvent | configAudit
  | prepareFrozen | workerFinishFailed | workerFinish
  deriving DecidableEq

/-- The calls that can store a reservation. -/
inductive StoreSite
  | reserve | transfer | reserveRollback
  deriving DecidableEq

/-- The calls of `_release_lease`. -/
inductive ReleaseSite
  | acquisition | lease | rollback | idleProof | activeJob | preparation | closed | worker
  deriving DecidableEq

/-- What the handlers read without waiting. -/
inductive Flag
  /-- The checks before the lease: profile, permitted operation, services, and for a start that no
  benchmark runs. -/
  | admitted
  /-- The profiles of a consumed payload are known. -/
  | payloadKnown
  | forceAfterTimeout | createBackup | rollbackOnFailure
  /-- The profile is observed and not in transition. -/
  | configurable
  /-- Some job is accepted or running. -/
  | jobActive
  /-- `frozen` is a mapping. -/
  | frozenMapping
  | backgroundClosed
  deriving DecidableEq

/-- How every await of a call ends, and what it reads. -/
structure Oracle where
  await : Site → AwaitOutcome
  tx : TxSite → TxOutcome
  store : StoreSite → StoreOutcome
  release : ReleaseSite → ReleaseOutcome
  flag : Flag → Bool

inductive Happened
  | await (site : Site) (o : AwaitOutcome)
  | tx (site : TxSite) (o : TxOutcome)
  | store (site : StoreSite) (o : StoreOutcome)
  | release (site : ReleaseSite) (o : ReleaseOutcome)
  deriving DecidableEq

/-! ### The state of a call -/

/-- The identities under which a call reserves the slot: that of its operation, and that of the
rollback of a switch. -/
inductive Lease
  | operation
  | rollback
  deriving DecidableEq

/-- What a call does to the row of its job. -/
inductive JobOp
  | intent
  | finish (state : JobState)
  deriving DecidableEq

/-- The leases of a call, outside and in its local variables. -/
structure Leases where
  /-- The lease of this call that the reservation file carries. -/
  stored : Option Lease := none
  /-- The renewal tasks of this call that run. -/
  renewing : Lease → Bool := fun _ => false
  -- local variables
  lease : Option Lease := none
  renewal : Option Lease := none
  rollbackLease : Option Lease := none
  rollbackTask : Option Lease := none

/-- The effects of a call, and its local variables. -/
structure CallState extends Leases where
  jobId : Bool := false
  /-- `start_attempted_by_request`, or `target_started`. -/
  started : Bool := false
  /-- The worker was created. -/
  spawned : Bool := false
  /-- What the call did to the row of its job. -/
  jobs : List JobOp := []

structure HandlerState extends CallState where
  /-- The awaits that were performed. -/
  trace : List Happened := []

abbrev Handle (α : Type) := Coro HandlerState Exc α

/-- Nothing of the call is left: no reservation under one of its identities, no renewal task. -/
def Leases.Released (s : Leases) : Prop := s.stored = none ∧ ∀ l, s.renewing l = false

/-! ### What the handlers share -/

section Shared

variable (ω : Oracle) (site : TxSite) (s : Leases)

def note (h : Happened) : Handle Unit := modify fun s => { s with trace := s.trace ++ [h] }

def await (site : Site) : Handle Bool := do
  note (.await site (ω.await site))
  match ω.await site with
  | .returned b => pure b
  | .raised e => raise e

def onlyIf (b : Bool) (m : Handle Unit) : Handle Unit := if b then m else pure ()

/-- The rest of an `except Exception` clause: a cancellation passes. -/
def exceptException (h : Exc → Handle Unit) (e : Exc) : Handle Unit :=
  if e = .cancelled then raise e else h e

def wait (site : Site) : Handle Unit := do
  let _ ← await ω site

/-- A part whose exceptions are caught and logged; a cancellation passes. -/
def logged (site : Site) : Handle Unit := tryExcept (wait ω site) (exceptException fun _ => pure ())

/-- `_transaction`, with the effect of its callback. -/
def transaction (effect : HandlerState → HandlerState) : Handle Unit := do
  note (.tx site (ω.tx site))
  match ω.tx site with
  | .done => modify effect
  | .before e => raise e
  | .after e => do
    modify effect
    raise e

/-- A transaction that writes an event or an audit row only. -/
def record : Handle Unit := transaction ω site id

def HandlerState.op (s : HandlerState) (o : JobOp) : HandlerState :=
    { s with jobs := s.jobs ++ [o] }

/-- `job_id = await self._transaction(lambda: self._job_intent(…))`. -/
def jobIntentTx : Handle Unit := do
  transaction ω .intent fun s => s.op .intent
  modify fun s => { s with jobId := true }

/-- `await self._transaction(lambda: self._finish(…))`. -/
def finishTx (state : JobState) : Handle Unit := transaction ω site fun s => s.op (.finish state)

def setStored (l : Option Lease) : Handle Unit := modify fun s => { s with stored := l }

/-- An exception of the worker thread is a cancellation for a caller that was cancelled. -/
def storeRaised (cancelled : Bool) : Handle Unit := raise (if cancelled then .cancelled else .other)

/-- `cancel_cleanup`: a cancelled caller releases what the worker thread has stored. -/
def takenBack : Handle Unit := do
  setStored none
  raise .cancelled

/-- `_reservation_io` around a call that stores `l`. -/
def reservationIo (site : StoreSite) (l : Lease) : Handle Unit := do
  note (.store site (ω.store site))
  match (ω.store site).effect with
  | .stored =>
    setStored (some l)
    onlyIf (ω.store site).cancelled takenBack
  | .refused => storeRaised (ω.store site).cancelled
  | .storedThenRaised =>
    setStored (some l)
    storeRaised (ω.store site).cancelled

/-- The `except` clause of `_reserve`. -/
def reserveFailed (event audit : TxSite) : Handle Unit := do
  record ω event
  record ω audit
  raise .controllerFailure

/-- `_reserve`. -/
def reserve (site : StoreSite) (l : Lease) (event audit : TxSite) : Handle Unit :=
  tryExcept (reservationIo ω site l) (exceptException fun _ => reserveFailed ω event audit)

/-- `_lease_renewal`. -/
def leaseRenewal (l : Lease) : Handle Unit :=
  modify fun s => { s with renewing := Function.update s.renewing l true }

/-- The renewal task is cancelled and drained. -/
def Leases.drained : Option Lease → Leases
  | none => s
  | some l => { s with renewing := Function.update s.renewing l false }

/-- `release_if_owned`. -/
def Leases.cleared : Option Lease → Leases
  | none => s
  | some l => { s with stored := if s.stored = some l then none else s.stored }

def onHandlerLeases (f : Leases → Leases) : Handle Unit :=
  modify fun s => { s with toLeases := f s.toLeases }

/-- The error that `_release_lease` raises, if any. -/
def releaseError (lease renewal : Option Lease) (out : ReleaseOutcome) : Option Exc :=
  if lease.isSome ∧ out.clearCancelled then some .cancelled
  else if renewal.isSome ∧ out.drainCancelled then some .cancelled
  else if renewal.isSome ∧ out.renewalFailed then some .other
  else none

/-- `_release_lease`: the renewal task is drained and the reservation released whatever happens; an
error of the two is raised unless another one is on its way. -/
def releaseLease (site : ReleaseSite) (lease renewal : Option Lease) (primary : Bool) :
    Handle Unit := do
  note (.release site (ω.release site))
  onHandlerLeases fun s => s.drained renewal
  onHandlerLeases fun s => s.cleared lease
  match primary, releaseError lease renewal (ω.release site) with
  | false, some e => raise e
  | _, _ => pure ()

/-- `lease = await self._reserve(…)` and `renewal_task = self._lease_renewal(lease)`. -/
def acquire : Handle Unit := do
  reserve ω .reserve .operation .slotEvent .slotAudit
  modify fun s => { s with lease := some .operation }
  leaseRenewal .operation
  modify fun s => { s with renewal := some .operation }

/-- The last block of a handler with one lease. -/
def releaseOwn (site : ReleaseSite) (primary : Bool) : Handle Unit := do
  let s ← get
  releaseLease ω site s.lease s.renewal primary

/-- `async with self._operation_lease(…)`. -/
def operationLease (body : Handle Unit) : Handle Unit := do
  acquire ω
  tryFinally
    (do
      wait ω .assertAcquired
      body)
    (releaseOwn ω .lease)

/-- `_start_with_free_retry`: an adapter that finds the slot busy is tried once more. -/
def startWithFreeRetry (first free second : Site) : Handle Unit :=
  tryExcept (wait ω first) fun e =>
    if e = .busySlot then do
      if ← await ω free then wait ω second
      else raise .controllerFailure
    else raise e

/-! ### Start and stop -/

/-- The block of `_start`. -/
def startBody : Handle Unit := do
  acquire ω
  jobIntentTx ω
  if ← await ω .waitFree then
    modify fun s => { s with started := true }
    logged ω .versionHint
    wait ω .adapterStart
    wait ω .assertStarted
    if ← await ω .probeHealth then
      finishTx ω .finish .succeeded
      logged ω .startupEstimate
    else raise .other
  else raise .controllerFailure

/-- Both `except` clauses of `_start`: they differ in the error code only. -/
def startFailed : Handle Unit := do
  let s ← get
  onlyIf s.started (logged ω .cleanupStart)
  onlyIf s.jobId (finishTx ω .finishFailed .failed)
  raise .controllerFailure

/-- `_start`. -/
def start : Handle Unit := do
  if ω.flag .admitted then
    tryFinally
      (tryExcept (startBody ω) (exceptException fun _ => startFailed ω))
      (releaseOwn ω .lease)
  else raise .controllerFailure

/-- `_acquire_stop_fence`: it releases what it has when its own checks fail. -/
def acquireStopFence : Handle Unit :=
  tryExcept
    (do
      acquire ω
      wait ω .assertAcquired
      wait ω .stopPreflight
      wait ω .assertPreflight)
    fun e => do
      releaseOwn ω .acquisition true
      -- the caller never receives the lease
      modify fun s => { s with lease := none, renewal := none }
      raise e

/-- The block of `_stop_with_fence`, graceful or forced. -/
def stopBody : Handle Unit := do
  acquireStopFence ω
  jobIntentTx ω
  wait ω .adapterStop
  finishTx ω .finish .succeeded

/-- Both `except` clauses of `_stop_with_fence`. -/
def stopFailed : Handle Unit := do
  let s ← get
  onlyIf s.jobId (finishTx ω .finishFailed .failed)
  raise .controllerFailure

/-- `_stop_with_fence`. -/
def stopWithFence : Handle Unit :=
  tryFinally
    (tryExcept (stopBody ω) (exceptException fun _ => stopFailed ω))
    (releaseOwn ω .lease)

/-- Both `except` clauses of `_command`. -/
def commandFailed : Handle Unit := do
  finishTx ω .finishFailed .failed
  raise .controllerFailure

/-- `_command`. -/
def command : Handle Unit := do
  if ω.flag .admitted then
    jobIntentTx ω
    tryExcept (wait ω .sendCommand) (exceptException fun _ => commandFailed ω)
    finishTx ω .finish .succeeded
  else raise .controllerFailure

/-! ### The switch -/

/-- The source is stopped; a timeout is followed by force if the payload says so. -/
def stopSource : Handle Unit :=
  tryExcept (wait ω .adapterStop) fun e =>
    if e = .timeout then
      if ω.flag .forceAfterTimeout then wait ω .forceStop else raise .controllerFailure
    else raise e

/-- The backup that the payload may ask for. -/
def switchBackup : Handle Unit := do
  wait ω .createBackup
  wait ω .assertBackup

/-- The block of `_confirm_switch`. -/
def switchBody : Handle Unit := do
  acquire ω
  stopSource ω
  wait ω .assertStopped
  if ← await ω .waitFree then
    wait ω .assertFree
    onlyIf (ω.flag .createBackup) (switchBackup ω)
    modify fun s => { s with started := true }
    logged ω .versionHint
    startWithFreeRetry ω .adapterStart .retryFree .adapterRestart
    wait ω .assertStarted
    if ← await ω .probeHealth then
      finishTx ω .finish .succeeded
      logged ω .startupEstimate
    else raise .other
  else raise .controllerFailure

/-- The target is stopped before a rollback; here a timeout without force ends the rollback. -/
def stopTarget : Handle Unit :=
  tryExcept (wait ω .stopTarget) fun e =>
    if e = .timeout ∧ ω.flag .forceAfterTimeout then wait ω .forceStopTarget else raise e

/-- `transfer_if_owned`. -/
def transferLease : Handle Unit := do
  reservationIo ω .transfer .rollback
  modify fun s => { s with rollbackLease := some .rollback, lease := none }

def reserveRollback : Handle Unit := do
  reserve ω .reserveRollback .rollback .rollbackSlotEvent .rollbackSlotAudit
  modify fun s => { s with rollbackLease := some .rollback }

/-- The lease of the rollback: the one of the switch, transferred, or a new one. -/
def rollbackAcquire : Handle Unit := do
  let s ← get
  if s.lease.isSome then transferLease ω else reserveRollback ω

def rollbackBody : Handle Unit := do
  let s ← get
  onlyIf s.started (stopTarget ω)
  rollbackAcquire ω
  leaseRenewal .rollback
  modify fun s => { s with rollbackTask := some .rollback }
  if ← await ω .rollbackFree then
    startWithFreeRetry ω .rollbackStart .rollbackRetryFree .rollbackRestart
    if ← await ω .rollbackProbe then pure () else raise .other
  else raise .other

/-- The rollback and its records.  The records of a success stand in the `else` clause, outside the
handler of the failures: the flag says which of the two is due. -/
def rollbackSource : Handle Unit := do
  record ω .rollbackEvent
  record ω .rollbackAudit
  let restored ← tryExcept
    (do
      rollbackBody ω
      pure true)
    fun e => if e = .cancelled then raise e else pure false
  if restored then
    record ω .rollbackDoneEvent
    record ω .rollbackDoneAudit
  else
    record ω .rollbackFailedEvent
    record ω .rollbackFailedAudit

/-- The `except` clause of `_confirm_switch`. -/
def switchFailed : Handle Unit := do
  onlyIf (ω.flag .rollbackOnFailure) (rollbackSource ω)
  finishTx ω .finishFailed .failed
  raise .controllerFailure

/-- The last block of `_confirm_switch`. -/
def switchReleases (primary : Bool) : Handle Unit := do
  let s ← get
  releaseLease ω .lease s.lease s.renewal primary
  releaseLease ω .rollback s.rollbackLease s.rollbackTask primary

/-- `_confirm_switch`. -/
def confirmSwitch : Handle Unit := do
  record ω .consume
  if ω.flag .payloadKnown then
    jobIntentTx ω
    tryFinally
      (tryExcept (switchBody ω) (exceptException fun _ => switchFailed ω))
      (switchReleases ω)
  else raise .controllerFailure

/-! ### Backups, maintenance, configuration -/

/-- The state in which a scheduled backup that raised `e` ends: `deferred` while the profile
runs. -/
def backupEnding : Exc → JobState
  | .safe true => .deferred
  | _ => .failed

/-- `_run_scheduled_backup`.  Its three `except` clauses finish the job and raise again. -/
def runScheduledBackup : Handle Unit := do
  if ω.flag .admitted then
    operationLease ω do
      jobIntentTx ω
      tryExcept (wait ω .service) fun e => do
        finishTx ω .finishFailed (backupEnding e)
        raise e
      finishTx ω .finish .succeeded
  else raise .controllerFailure

/-- `_maintenance_failure`: a cancellation passes, every other exception is translated. -/
def maintenanceFailure (e : Exc) : Exc := if e = .cancelled then e else .controllerFailure

/-- `_run_bound_maintenance_job`. -/
def runBoundMaintenanceJob : Handle Unit := do
  jobIntentTx ω
  tryExcept (wait ω .service) fun e => do
    finishTx ω .finishFailed .failed
    raise (maintenanceFailure e)
  finishTx ω .finish .succeeded

/-- `_run_maintenance_job`. -/
def runMaintenanceJob : Handle Unit := operationLease ω (runBoundMaintenanceJob ω)

/-- `_run_handoff_maintenance_job`: under the reservation of an updater, with no lease of its
own. -/
def runHandoffMaintenanceJob : Handle Unit := do
  if ← await ω .handoffCheck then runBoundMaintenanceJob ω
  else raise .controllerFailure

/-- `_set_profile_config`, which has no job. -/
def setProfileConfig : Handle Unit :=
  operationLease ω do
    wait ω .statusSnapshot
    if ω.flag .configurable then
      tryExcept (wait ω .writeConfig) fun e =>
        if e = .cancelled ∨ e = .other then raise e else raise .controllerFailure
      record ω .configEvent
      record ω .configAudit
    else raise .controllerFailure

/-! ### Benchmarks -/

/-- `_operation_lease_acquire`. -/
def operationLeaseAcquire : Handle Unit := do
  acquire ω
  tryExcept (wait ω .assertAcquired) fun e => do
    releaseOwn ω .acquisition true
    raise e

/-- `_operation_lease_release`, after which the handler raises `e`.  Inside an `except` clause an
exception is on its way. -/
def releaseAndRaise (site : ReleaseSite) (primary : Bool) (e : Exc) : Handle Unit := do
  releaseOwn ω site primary
  raise e

/-- A `SafeError` is translated, every other exception is raised again. -/
def benchmarkFailure : Exc → Exc
  | .safe _ => .controllerFailure
  | e => e

/-- `prove_idle`.  The clauses catch `SafeError` and `Exception`. -/
def proveIdle : Handle Unit :=
  tryExcept (wait ω .proveIdle) <| exceptException fun e =>
    releaseAndRaise ω .idleProof true (benchmarkFailure e)

/-- The preparation of a run.  The three clauses finish the job, release the lease, and raise. -/
def prepareBenchmark : Handle Unit :=
  tryExcept
    (do
      wait ω .preflight
      if ω.flag .frozenMapping then record ω .prepareFrozen
      else raise (.safe false))
    fun e => do
      finishTx ω .finishFailed .failed
      releaseAndRaise ω .preparation true (benchmarkFailure e)

/-- `_run_benchmark`, up to the creation of the worker. -/
def runBenchmark : Handle Unit := do
  if ω.flag .admitted then
    operationLeaseAcquire ω
    proveIdle ω
    if ω.flag .jobActive then releaseAndRaise ω .activeJob false .controllerFailure
    else
      jobIntentTx ω
      prepareBenchmark ω
      if ω.flag .backgroundClosed then releaseAndRaise ω .closed false .controllerFailure
      else modify fun s => { s with spawned := true }
  else raise .controllerFailure

/-- The failure clause of `_benchmark_worker`. -/
def benchmarkFailed : Handle Unit := do
  logged ω .failService
  finishTx ω .workerFinishFailed .failed
  releaseOwn ω .worker true

/-- The last part of `_benchmark_worker`. -/
def benchmarkCompleted : Handle Unit :=
  tryFinally
    (do
      logged ω .regression
      finishTx ω .workerFinish .succeeded)
    (releaseOwn ω .worker)

def benchmarkRun : Handle Bool :=
  tryExcept
    (do
      wait ω .assertWorker
      wait ω .runBenchmark
      pure true)
    fun e =>
      if e = .cancelled then do
        releaseOwn ω .worker true
        raise e
      else do
        benchmarkFailed ω
        pure false

/-- `_benchmark_worker`.  A task that is cancelled before its first step runs nothing at all. -/
def benchmarkWorker : Handle Unit := do
  wait ω .workerStart
  if ← benchmarkRun ω then benchmarkCompleted ω else pure ()

/-- A benchmark until its handler and its worker have ended. -/
def benchmark : Handle Unit := do
  runBenchmark ω
  benchmarkWorker ω

end Shared

/-! ### All of them -/

inductive Handler
  | start
  | stopWithFence
  | command
  | confirmSwitch
  | runScheduledBackup
  | runMaintenanceJob
  | runHandoffMaintenanceJob
  | setProfileConfig
  | benchmark
  deriving DecidableEq

def Handler.body : Handler → Oracle → Handle Unit
  | start => Horizon.start
  | stopWithFence => Horizon.stopWithFence
  | command => Horizon.command
  | confirmSwitch => Horizon.confirmSwitch
  | runScheduledBackup => Horizon.runScheduledBackup
  | runMaintenanceJob => Horizon.runMaintenanceJob
  | runHandoffMaintenanceJob => Horizon.runHandoffMaintenanceJob
  | setProfileConfig => Horizon.setProfileConfig
  | benchmark => Horizon.benchmark

/-- What a call leaves when it, and the worker it created, have ended. -/
def Handler.run (h : Handler) (ω : Oracle) : HandlerState := ((h.body ω).run {}).2

end Horizon
