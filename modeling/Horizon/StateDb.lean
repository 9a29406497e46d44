/-
**The state database and the controller's callbacks on it.**

The tables that the controller writes, and the callbacks it passes to `_transaction`, statement by
statement.  What a callback draws while it runs, the ids of `uuid4` and the readings of the clock,
is an argument.  The generation of the root state is the header field `application_id`, a signed
32-bit number: SQLite stores zero when it is given a number that does not fit.

Main results:

* `eval_jobIntent`, `eval_finish`, `eval_writeConfirmation`,
  `eval_consume`, `eval_markIncomplete` — what the callbacks do to the tables.
-/

import Horizon.Sqlite
import Horizon.Reservation
import Horizon.RpcReplay

namespace Horizon

open Sqlite (Table Prog)

/-! ### Rows -/

inductive JobState
  | accepted
  | running
  | succeeded
  | failed
  | deferred
  deriving DecidableEq

/-- The states `accepted` and `running`. -/
def JobState.isOpen : JobState → Bool
  | accepted | running => true
  | _ => false

structure JobRow where
  id : ℕ
  profileId : Option ProfileId
  operation : String
  state : JobState
  createdAt : ℤ
  finishedAt : Option ℤ
  completionSeq : Option ℕ
  detail : Option String
  deriving DecidableEq

variable (state : JobState)

/-- The row after `_finish`. -/
def JobRow.ended (now : ℤ) (seq : ℕ) (detail : String) (r : JobRow) : JobRow :=
  { r with
    state := state, finishedAt := some now, completionSeq := some seq, detail := some detail }

variable (now : ℤ)

/-- The row of a job that a restart has interrupted. -/
def JobRow.interrupted (r : JobRow) : JobRow :=
  { r with state := .failed, finishedAt := some now, detail := some "controller restarted" }

@[simp] theorem JobRow.ended_id (now : ℤ) (seq : ℕ) (detail : String) (r : JobRow) :
    (r.ended state now seq detail).id = r.id := rfl

@[simp] theorem JobRow.interrupted_id (r : JobRow) : (r.interrupted now).id = r.id := rfl

structure ConfirmationRow where
  id : ℕ
  actor : String
  action : String
  profileId : ProfileId
  payload : JsonDict
  expiresAt : ℤ
  consumedAt : Option ℤ
  stateGeneration : ℤ
  deriving DecidableEq

variable (stamp : ℤ)

def ConfirmationRow.consumed (r : ConfirmationRow) : ConfirmationRow :=
  { r with consumedAt := some stamp }

@[simp] theorem ConfirmationRow.consumed_id (r : ConfirmationRow) :
    (r.consumed stamp).id = r.id := rfl

/-- `result` is one of `accepted`, `rejected`, `succeeded` and `failed`. -/
structure AuditRow where
  id : ℕ
  timestamp : ℤ
  actor : String
  action : String
  profileId : Option ProfileId
  result : String
  errorCode : Option ErrorCode
  detail : String
  deriving DecidableEq

structure EventRow where
  id : ℕ
  timestamp : ℤ
  profileId : Option ProfileId
  code : String
  message : String
  deriving DecidableEq

inductive BenchmarkState
  | running
  | succeeded
  | failed
  deriving DecidableEq

/-- The columns of `benchmark_runs` that the controller writes. -/
structure BenchmarkRow where
  id : ℕ
  state : BenchmarkState
  finishedAt : Option ℤ
  errorCode : Option String
  deriving DecidableEq

/-- The row of a run that a restart has interrupted. -/
def BenchmarkRow.interrupted (r : BenchmarkRow) : BenchmarkRow :=
  { r with state := .failed, finishedAt := some now, errorCode := some "controller_restarted" }

@[simp] theorem BenchmarkRow.interrupted_id (r : BenchmarkRow) :
    (r.interrupted now).id = r.id := rfl

/-- A row of `rpc_idempotency` with its key. -/
structure ReplayEntry (τ : Type) where
  requestId : ℕ
  row : ReplayRow τ
  deriving DecidableEq

def ReplayEntry.mapRow {τ : Type} (f : ReplayRow τ → ReplayRow τ) (e : ReplayEntry τ) :
    ReplayEntry τ :=
  { e with row := f e.row }

@[simp] theorem ReplayEntry.mapRow_id {τ : Type} (f : ReplayRow τ → ReplayRow τ)
    (e : ReplayEntry τ) : (e.mapRow f).requestId = e.requestId := rfl

/-- The state database.  The table of benchmark runs may be missing. -/
structure Db (τ : Type) where
  jobs : Table JobRow.id
  confirmations : Table ConfirmationRow.id
  audit : Table AuditRow.id
  events : Table EventRow.id
  replay : Table (ReplayEntry.requestId (τ := τ))
  benchmarkRuns : Option (Table BenchmarkRow.id)
  applicationId : ℤ

def Db.new (τ : Type) : Db τ := ⟨.empty, .empty, .empty, .empty, .empty, some .empty, 0⟩

/-! ### The generation -/

section Generation

variable {τ : Type} (d : Db τ)

/-- `_current_generation`. -/
def Db.currentGeneration : ℤ := max 0 d.applicationId

def maxGeneration : ℤ := 2 ^ 31 - 1

/-- `PRAGMA application_id = n`, for a number that is not negative. -/
def Db.setApplicationId (n : ℤ) : Db τ :=
  { d with applicationId := if n ≤ maxGeneration then n else 0 }

/-- `_bump_generation`, on the database. -/
def Db.bump : Db τ := d.setApplicationId (d.currentGeneration + 1)

@[simp] theorem bump_jobs : d.bump.jobs = d.jobs := rfl

theorem currentGeneration_nonneg : 0 ≤ d.currentGeneration := le_max_left _ _

theorem currentGeneration_bump {d : Db τ} (h : d.currentGeneration < maxGeneration) :
    d.bump.currentGeneration = d.currentGeneration + 1 := by
  have hnonneg := currentGeneration_nonneg d
  show max 0 (if d.currentGeneration + 1 ≤ maxGeneration then _ else _) = _
  rw [if_pos (by omega), max_eq_right (by omega)]

theorem applicationId_lt_bump {d : Db τ} (h : d.currentGeneration < maxGeneration) :
    d.applicationId < d.bump.applicationId := by
  have hle : d.applicationId ≤ d.currentGeneration := le_max_right _ _
  show _ < if d.currentGeneration + 1 ≤ maxGeneration then _ else _
  rw [if_pos (by omega)]
  omega

end Generation

/-! ### Statements -/

/-- What a callback draws for a row: an id of `uuid4` and a reading of the clock. -/
structure Draw where
  id : ℕ
  now : ℤ
  deriving DecidableEq

/-- `text[:512]`. -/
def clip (text : String) : String := (text.take 512).toString

namespace Db

variable {τ : Type} (d : Db τ)

def insertJob (row : JobRow) : Option (Db τ × ℕ) :=
  (d.jobs.insert row).map fun t => ({ d with jobs := t }, 1)

def insertAudit (row : AuditRow) : Option (Db τ × ℕ) :=
  (d.audit.insert row).map fun t => ({ d with audit := t }, 1)

def insertEvent (row : EventRow) : Option (Db τ × ℕ) :=
  (d.events.insert row).map fun t => ({ d with events := t }, 1)

def insertConfirmation (row : ConfirmationRow) : Option (Db τ × ℕ) :=
  (d.confirmations.insert row).map fun t => ({ d with confirmations := t }, 1)

def insertReplay (e : ReplayEntry τ) : Option (Db τ × ℕ) :=
  (d.replay.insert e).map fun t => ({ d with replay := t }, 1)

/-- `SELECT COALESCE(MAX(completion_seq), 0) FROM jobs`. -/
def lastCompletion : ℕ := (d.jobs.rows.filterMap JobRow.completionSeq).foldr max 0

/-- The `UPDATE` of `_finish`. -/
def finishJob (jobId : ℕ) (state : JobState) (now : ℤ) (detail : String) : Db τ × ℕ :=
  let mine : JobRow → Bool := fun r => decide (r.id = jobId)
  let ended := JobRow.ended state now (d.lastCompletion + 1) detail
  ({ d with jobs := d.jobs.update mine ended (JobRow.ended_id _ _ _ _) }, d.jobs.count mine)

/-- The `UPDATE` of `consume`. -/
def consumeRow (id : ℕ) (stamp generation : ℤ) : Db τ × ℕ :=
  let mine : ConfirmationRow → Bool := fun r =>
    decide (r.id = id) && (r.consumedAt.isNone && decide (r.stateGeneration = generation))
  let consumed := ConfirmationRow.consumed stamp
  ({ d with confirmations := d.confirmations.update mine consumed (ConfirmationRow.consumed_id _) },
    d.confirmations.count mine)

/-- The `UPDATE` of `mark_incomplete` on the jobs. -/
def failOpenJobs (now : ℤ) : Db τ × ℕ :=
  let mine : JobRow → Bool := fun r => r.state.isOpen
  ({ d with jobs := d.jobs.update mine (JobRow.interrupted now) (JobRow.interrupted_id now) },
    d.jobs.count mine)

/-- The `UPDATE` of `mark_incomplete` on the benchmark runs. -/
def failRunningBenchmarks (now : ℤ) : Db τ × ℕ :=
  let mine : BenchmarkRow → Bool := fun r => decide (r.state = .running)
  let failed (t : Table BenchmarkRow.id) :=
    t.update mine (BenchmarkRow.interrupted now) (BenchmarkRow.interrupted_id now)
  ({ d with benchmarkRuns := d.benchmarkRuns.map failed },
    (d.benchmarkRuns.map fun t => t.count mine).getD 0)

/-- An `UPDATE` of the row of one request. -/
def updateReplay (requestId : ℕ) (f : ReplayRow τ → ReplayRow τ) : Db τ × ℕ :=
  let mine : ReplayEntry τ → Bool := fun e => decide (e.requestId = requestId)
  ({ d with replay := d.replay.update mine (ReplayEntry.mapRow f) (ReplayEntry.mapRow_id f) },
    d.replay.count mine)

end Db

/-! ### Callbacks -/

section Callbacks

variable {R τ α : Type} (codec : ResponseCodec R τ)

/-- `_ControllerFailure`. -/
abbrev ControllerFailure := RpcError

/-- `_audit`, and what follows it. -/
def audit (at_ : Draw) (actor action : String) (profileId : Option ProfileId) (result : String)
    (code : Option ErrorCode) (detail : String) (k : Prog (Db τ) ControllerFailure α) :
    Prog (Db τ) ControllerFailure α :=
  .write (fun d => d.insertAudit
    ⟨at_.id, at_.now, actor, action, profileId, result, code, clip detail⟩) fun _ => k

/-- `_audit_rejection_sync` followed by the failure it reports. -/
def rejectSync (at_ : Draw) (actor action : String) (profileId : Option ProfileId)
    (code : ErrorCode) (detail : String) : Prog (Db τ) ControllerFailure α :=
  audit at_ actor action profileId "rejected" (some code) detail
    (.commit (.raise ⟨code, detail, false, none⟩))

/-- `_bump_generation`, and what follows it. -/
def bumpGeneration (k : Prog (Db τ) ControllerFailure α) : Prog (Db τ) ControllerFailure α :=
  .select fun d => .pragma (fun d' => d'.setApplicationId (d.currentGeneration + 1)) k

/-- The callback of `_claim_request`. -/
def claim (now : ℤ) (q : RpcRequest) : Prog (Db τ) ControllerFailure (ClaimResult R) :=
  .select fun d =>
    match d.replay.find q.requestId with
    | none => .write (fun d' => d'.insertReplay
          ⟨q.requestId, ⟨q.canonical, codec.blank, .pending, now⟩⟩) fun _ =>
        .commit (.done .claimed)
    | some e => .done (claimRow codec now q (some e.row)).1

/-- The callback of `_store_replay`. -/
def storeReplay (q : RpcRequest) (r : RpcResponse R) : Prog (Db τ) ControllerFailure Unit :=
  .write (fun d => some (d.updateReplay q.requestId (storeRow codec q r))) fun _ =>
    .commit (.done ())

/-- `_job_intent`. -/
def jobIntent (job auditAt : Draw) (actor action : String) (profileId : Option ProfileId) :
    Prog (Db τ) ControllerFailure ℕ :=
  .write (fun d => d.insertJob ⟨job.id, profileId, action, .accepted, job.now, none, none, none⟩)
    fun _ => audit auditAt actor action profileId "accepted" none "job accepted"
      (.commit (.done job.id))

/-- How a job ends: the arguments `ok`, `code`, `detail` and `state` of `_finish`. -/
structure Ending where
  ok : Bool
  code : Option ErrorCode := none
  detail : String := ""
  state : Option JobState := none
  deriving DecidableEq

/-- `state or ("succeeded" if ok else "failed")`. -/
def Ending.finalState (e : Ending) : JobState := e.state.getD (if e.ok then .succeeded else .failed)

/-- `_finish`. -/
def finish (now : ℤ) (auditAt : Draw) (jobId : ℕ) (actor action : String)
    (profileId : Option ProfileId) (e : Ending) : Prog (Db τ) ControllerFailure Unit :=
  .write (fun d => some (d.finishJob jobId e.finalState now (clip e.detail))) fun _ =>
    audit auditAt actor action profileId (if e.ok then "succeeded" else "failed") e.code
      (if e.detail = "" then "completed" else e.detail)
      (bumpGeneration (.commit (.done ())))

/-- The five minutes of `_create_confirmation`, in nanoseconds. -/
def confirmationLifetime : ℤ := 300 * 1000000000

/-- `write_confirmation`. -/
def writeConfirmation (row : ConfirmationRow) : Prog (Db τ) ControllerFailure Unit :=
  .write (fun d => d.insertConfirmation row) fun _ => .commit (.done ())

/-- The callback of `_consume_confirmation`.  The clock is read for the comparison, and again for
the row that is written. -/
def consume (now stamp : ℤ) (auditAt : Draw) (actor action : String) (id : ℕ) :
    Prog (Db τ) ControllerFailure JsonDict :=
  .select fun d =>
    match d.confirmations.find id with
    | none => rejectSync auditAt actor action none .confirmationMismatch
        "confirmation does not match"
    | some row =>
      let reject := rejectSync auditAt actor action (some row.profileId)
      if row.action ≠ action ∨ row.actor ≠ actor then
        rejectSync auditAt actor action none .confirmationMismatch "confirmation does not match"
      else if row.consumedAt.isSome then
        reject .confirmationMismatch "confirmation was already consumed"
      else if row.expiresAt ≤ now then reject .confirmationExpired "confirmation expired"
      else .select fun d' =>
        if row.stateGeneration ≠ d'.currentGeneration then
          reject .confirmationMismatch "confirmation is stale"
        else .write (fun d'' => some (d''.consumeRow id stamp row.stateGeneration)) fun updated =>
          if updated ≠ 1 then reject .confirmationMismatch "confirmation was already consumed"
          else .commit (.done row.payload)

/-- `write_event`: an equal event of the last five minutes is not repeated. -/
def writeEvent (since : ℤ) (at_ : Draw) (profileId : Option ProfileId) (code message : String) :
    Prog (Db τ) ControllerFailure Unit :=
  .select fun d =>
    if d.events.rows.any fun e => e.profileId = profileId && e.code = code &&
        e.message = clip message && decide (since ≤ e.timestamp) then .done ()
    else .write (fun d' => d'.insertEvent ⟨at_.id, at_.now, profileId, code, clip message⟩) fun _ =>
      .commit (.done ())

/-- `write_audit`. -/
def writeAudit (at_ : Draw) (actor action : String) (profileId : Option ProfileId)
    (result : String) (code : Option ErrorCode) (detail : String) :
    Prog (Db τ) ControllerFailure Unit :=
  audit at_ actor action profileId result code detail (.commit (.done ()))

def Db.pendingRequests (d : Db τ) : List ℕ :=
  (d.replay.rows.filter fun e => e.row.status = .pending).map ReplayEntry.requestId

/-- The last statements of `mark_incomplete`. -/
def markChanged (changed : ℕ) : Prog (Db τ) ControllerFailure ℕ :=
  if changed ≠ 0 then bumpGeneration (.commit (.done changed)) else .commit (.done changed)

/-- `mark_incomplete` of `reconcile_startup`. -/
def markIncomplete (now : ℤ) : Prog (Db τ) ControllerFailure ℕ :=
  .write (fun d => some (d.failOpenJobs now)) fun jobs =>
    .select fun d =>
      let rest (benchmarks : ℕ) : Prog (Db τ) ControllerFailure ℕ :=
        .select fun d' => d'.pendingRequests.foldr
          (fun id k => .write (fun d'' => some (d''.updateReplay id (interruptRow codec id)))
            fun _ => k)
          (markChanged (jobs + benchmarks))
      if d.benchmarkRuns.isSome then
        .write (fun d' => some (d'.failRunningBenchmarks now)) rest
      else rest 0

/-- The last transaction of `reconcile_startup`. -/
def bumpAndCommit : Prog (Db τ) ControllerFailure Unit := bumpGeneration (.commit (.done ()))

/-! ### What the callbacks do -/

variable {d d' : Db τ}

theorem insertAudit_eq (d : Db τ) (row : AuditRow) :
    d.insertAudit row = none ∨ ∃ t, d.insertAudit row = some ({ d with audit := t }, 1) := by
  unfold Db.insertAudit
  cases d.audit.insert row with
  | none => exact .inl rfl
  | some t => exact .inr ⟨t, rfl⟩

variable {profileId : Option ProfileId}

variable {at_ : Draw} {actor action : String} {k : Prog (Db τ) ControllerFailure α}
  {r : Sqlite.Result ControllerFailure α} {code : Option ErrorCode} {result detail : String}

theorem eval_audit (h : (audit at_ actor action profileId result code detail k).eval d = (d', r))
    (hr : r ≠ .sqliteError) : ∃ t, k.eval { d with audit := t } = (d', r) := by
  simp only [audit, Prog.eval] at h
  obtain hnone | ⟨t, ht⟩ := insertAudit_eq d
    ⟨at_.id, at_.now, actor, action, profileId, result, code, clip detail⟩
  · rw [hnone] at h
    exact absurd (Prod.ext_iff.1 h).2.symm hr
  · rw [ht] at h
    exact ⟨t, h⟩

theorem eval_rejectSync {code : ErrorCode}
    (h : (rejectSync at_ actor action profileId code detail).eval d = (d', r))
    (hr : r ≠ .sqliteError) :
    (∃ t, d' = { d with audit := t }) ∧ r = .raised ⟨code, detail, false, none⟩ := by
  obtain ⟨t, ht⟩ := eval_audit h hr
  obtain ⟨rfl, rfl⟩ := Prod.ext_iff.1 ht
  exact ⟨⟨t, rfl⟩, rfl⟩

@[simp] theorem eval_bumpGeneration (k : Prog (Db τ) ControllerFailure α) (d : Db τ) :
    (bumpGeneration k).eval d = k.eval d.bump := rfl

@[simp] theorem eval_bumpAndCommit (d : Db τ) : bumpAndCommit.eval d = (d.bump, .value ()) := rfl

variable {auditAt : Draw} {id : ℕ}

theorem eval_jobIntent {job : Draw}
    (h : (jobIntent job auditAt actor action profileId).eval d = (d', .value id)) :
    id = job.id ∧ ∃ tj ta,
      d.jobs.insert ⟨job.id, profileId, action, .accepted, job.now, none, none, none⟩ = some tj ∧
      d' = { d with jobs := tj, audit := ta } := by
  simp only [jobIntent, Prog.eval, Db.insertJob] at h
  cases hins : d.jobs.insert ⟨job.id, profileId, action, .accepted, job.now, none, none, none⟩ with
  | none => rw [hins] at h; cases h
  | some tj =>
    rw [hins] at h
    obtain ⟨ta, hta⟩ := eval_audit h (by simp)
    cases hta
    exact ⟨rfl, tj, ta, rfl, rfl⟩

/-- `_finish` ends the row and bumps the generation. -/
theorem eval_finish {now : ℤ} {jobId : ℕ} {e : Ending}
    (h : (finish now auditAt jobId actor action profileId e).eval d = (d', .value ())) :
    ∃ t, d' = Db.bump
      { (d.finishJob jobId e.finalState now (clip e.detail)).1 with audit := t } := by
  obtain ⟨t, ht⟩ := eval_audit h (by simp)
  exact ⟨t, (Prod.ext_iff.1 ht).1.symm⟩

theorem find_finishJob_self {row : JobRow} (now : ℤ) (detail : String)
    (hrow : d.jobs.find id = some row) :
    (d.finishJob id state now detail).1.jobs.find id =
      some (row.ended state now (d.lastCompletion + 1) detail) := by
  have hid := Table.find_key hrow
  simp only [Db.finishJob]
  rw [Table.find_update, hrow]
  simp [hid]

theorem find_finishJob_of_ne {k : ℕ} (now : ℤ) (detail : String) (hne : k ≠ id) :
    (d.finishJob id state now detail).1.jobs.find k = d.jobs.find k := by
  simp only [Db.finishJob]
  exact Table.find_update_of_ne _ _ _ hne fun r hr => of_decide_eq_true hr

variable {row : ConfirmationRow}

theorem eval_writeConfirmation (h : (writeConfirmation row).eval d = (d', .value ())) :
    ∃ t, d.confirmations.insert row = some t ∧ d' = { d with confirmations := t } := by
  simp only [writeConfirmation, Prog.eval, Db.insertConfirmation] at h
  cases hins : d.confirmations.insert row with
  | none => rw [hins] at h; cases h
  | some t =>
    rw [hins] at h
    exact ⟨t, rfl, (Prod.ext_iff.1 h).1.symm⟩

/-- The row that `consume` selects meets every condition of its `UPDATE`. -/
theorem consumeRow_count (hrow : d.confirmations.find id = some row)
    (hnew : row.consumedAt.isSome = false) : (d.consumeRow id stamp row.stateGeneration).2 = 1 := by
  have hnone : row.consumedAt.isNone = true := by
    cases hc : row.consumedAt <;> simp_all
  have hcount := Table.count_key (t := d.confirmations) id
    fun r => r.consumedAt.isNone && decide (r.stateGeneration = row.stateGeneration)
  rw [hrow] at hcount
  simpa [Db.consumeRow, hnone] using hcount

theorem find_consumeRow_self (hrow : d.confirmations.find id = some row)
    (hnew : row.consumedAt = none) :
    (d.consumeRow id stamp row.stateGeneration).1.confirmations.find id =
      some (row.consumed stamp) := by
  have hid := Table.find_key hrow
  simp only [Db.consumeRow]
  rw [Table.find_update, hrow]
  simp [hid, hnew]

theorem find_consumeRow_of_ne {k : ℕ} (stamp generation : ℤ) (hne : k ≠ id) :
    (d.consumeRow id stamp generation).1.confirmations.find k = d.confirmations.find k := by
  simp only [Db.consumeRow]
  refine Table.find_update_of_ne _ _ _ hne fun r hr => ?_
  exact of_decide_eq_true (Bool.and_eq_true_iff.1 hr).1

/-- `consume` returns the payload of a row that matches the call, is not consumed, has not expired
and carries the present generation, and marks it; or it is refused and writes an audit row only. -/
theorem eval_consume {now stamp : ℤ} {r : Sqlite.Result ControllerFailure JsonDict}
    (h : (consume now stamp auditAt actor action id).eval d = (d', r)) (hr : r ≠ .sqliteError) :
    (∃ row, d.confirmations.find id = some row ∧ row.action = action ∧ row.actor = actor ∧
      row.consumedAt = none ∧ now < row.expiresAt ∧ row.stateGeneration = d.currentGeneration ∧
      r = .value row.payload ∧ d' = (d.consumeRow id stamp row.stateGeneration).1) ∨
    ((∃ t, d' = { d with audit := t }) ∧ ∃ e, r = .raised e) := by
  have hreject {profileId : Option ProfileId} {code : ErrorCode} {detail : String}
      (h : (rejectSync auditAt actor action profileId code detail).eval d = (d', r)) :
      (∃ t, d' = { d with audit := t }) ∧ ∃ e, r = .raised e := by
    obtain ⟨ht, hraised⟩ := eval_rejectSync h hr
    exact ⟨ht, _, hraised⟩
  simp only [consume, Prog.eval] at h
  cases hrow : d.confirmations.find id with
  | none => rw [hrow] at h; exact .inr (hreject h)
  | some row =>
    rw [hrow] at h
    simp only at h
    split at h
    · exact .inr (hreject h)
    rename_i hmatch
    split at h
    · exact .inr (hreject h)
    rename_i hnew
    split at h
    · exact .inr (hreject h)
    rename_i hlive
    simp only [Prog.eval] at h
    split at h
    · exact .inr (hreject h)
    rename_i hgen
    rw [Bool.not_eq_true] at hnew
    simp only [Prog.eval, consumeRow_count stamp hrow hnew, ne_eq, not_true_eq_false, if_false] at h
    obtain ⟨rfl, rfl⟩ := Prod.ext_iff.1 h
    push Not at hmatch
    exact .inl ⟨row, rfl, hmatch.1, hmatch.2, by simpa using hnew, not_le.1 hlive,
      not_not.1 hgen, rfl, rfl⟩

theorem eval_interrupts (k : Prog (Db τ) ControllerFailure α) (ids : List ℕ) (d : Db τ) :
    ∃ t, (ids.foldr (fun id k => Prog.write
        (fun d => some (d.updateReplay id (interruptRow codec id))) fun _ => k) k).eval d =
      k.eval { d with replay := t } := by
  induction ids generalizing d with
  | nil => exact ⟨d.replay, rfl⟩
  | cons id ids ih =>
    obtain ⟨t, ht⟩ := ih (d.updateReplay id (interruptRow codec id)).1
    exact ⟨t, ht⟩

/-- `mark_incomplete` fails the open jobs; it leaves the confirmations, and it bumps the generation
or leaves it. -/
theorem eval_markIncomplete (now : ℤ) (d : Db τ) :
    ∃ replay runs changed,
      let marked := { (d.failOpenJobs now).1 with replay := replay, benchmarkRuns := runs }
      (markIncomplete codec now).eval d = (marked, .value changed) ∨
        (markIncomplete codec now).eval d = (marked.bump, .value changed) := by
  have hmark (changed : ℕ) (d : Db τ) : (markChanged changed).eval d = (d, .value changed) ∨
      (markChanged changed).eval d = (d.bump, .value changed) := by
    unfold markChanged
    split
    · exact .inr rfl
    · exact .inl rfl
  simp only [markIncomplete, Prog.eval]
  split
  · simp only [Prog.eval]
    obtain ⟨t, ht⟩ := eval_interrupts codec (markChanged ((d.failOpenJobs now).2 +
      ((d.failOpenJobs now).1.failRunningBenchmarks now).2))
      ((d.failOpenJobs now).1.failRunningBenchmarks now).1.pendingRequests
      ((d.failOpenJobs now).1.failRunningBenchmarks now).1
    rw [ht]
    exact ⟨_, _, _, hmark _ _⟩
  · simp only [Prog.eval]
    obtain ⟨t, ht⟩ := eval_interrupts codec (markChanged ((d.failOpenJobs now).2 + 0))
      (d.failOpenJobs now).1.pendingRequests (d.failOpenJobs now).1
    rw [ht]
    exact ⟨_, _, _, hmark _ _⟩

/-! ### They end with a commit -/

open Sqlite.Prog (Seals)

theorem seals_audit (h : Seals k) : Seals (audit at_ actor action profileId result code detail k) :=
  .write fun _ => h

theorem seals_rejectSync {code : ErrorCode} :
    Seals (rejectSync at_ actor action profileId code detail : Prog (Db τ) ControllerFailure α) :=
  seals_audit (.commit_raise _)

theorem seals_bumpGeneration (h : Seals k) : Seals (bumpGeneration k) := .select fun _ => .pragma h

theorem seals_jobIntent (job auditAt : Draw) (actor action : String)
    (profileId : Option ProfileId) :
    Seals (jobIntent job auditAt actor action profileId : Prog (Db τ) ControllerFailure ℕ) :=
  .write fun _ => seals_audit (.commit_done _)

theorem seals_finish (auditAt : Draw) (jobId : ℕ) (actor action : String)
    (profileId : Option ProfileId) (e : Ending) :
    Seals
      (finish now auditAt jobId actor action profileId e : Prog (Db τ) ControllerFailure Unit) :=
  .write fun _ => seals_audit (seals_bumpGeneration (.commit_done _))

theorem seals_writeConfirmation (row : ConfirmationRow) :
    Seals (writeConfirmation row : Prog (Db τ) ControllerFailure Unit) :=
  .write fun _ => .commit_done _

theorem seals_consume (now stamp : ℤ) (auditAt : Draw) (actor action : String) (id : ℕ) :
    Seals (consume now stamp auditAt actor action id : Prog (Db τ) ControllerFailure JsonDict) := by
  refine .select fun d => ?_
  cases d.confirmations.find id with
  | none => exact seals_rejectSync
  | some row =>
    refine .ite seals_rejectSync (.ite seals_rejectSync (.ite seals_rejectSync ?_))
    refine .select fun _ => .ite seals_rejectSync (.write fun _ => ?_)
    exact .ite seals_rejectSync (.commit_done _)

theorem seals_bumpAndCommit : Seals (bumpAndCommit : Prog (Db τ) ControllerFailure Unit) :=
  seals_bumpGeneration (.commit_done _)

theorem seals_markIncomplete (now : ℤ) : Seals (markIncomplete codec now) := by
  have hmark (changed : ℕ) : Seals (markChanged changed : Prog (Db τ) ControllerFailure ℕ) :=
    .ite (seals_bumpGeneration (.commit_done _)) (.commit_done _)
  have hrest (changed : ℕ) (ids : List ℕ) : Seals (ids.foldr (fun id k => Prog.write
      (fun d => some (d.updateReplay id (interruptRow codec id))) fun _ => k)
      (markChanged changed : Prog (Db τ) ControllerFailure ℕ)) := by
    induction ids with
    | nil => exact hmark changed
    | cons id ids ih => exact .write fun _ => ih
  refine .write fun _ => .select fun d => .ite (.write fun _ => ?_) ?_
  · exact .select fun _ => hrest _ _
  · exact .select fun _ => hrest _ _

end Callbacks

end Horizon
