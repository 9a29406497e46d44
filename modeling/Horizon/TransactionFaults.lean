/-
**Failed transactions.**

`_transaction` runs a callback on the one connection of the controller and has no clause for an
exception of SQLite.  The callbacks commit themselves, so when a statement raises after others have
changed rows, these changes stay in the open transaction, and the next callback that commits, of
whatever handler, commits them too.  `StateDatabase.transaction`, which no callback uses, rolls
back.

A statement that raises may take the whole transaction with it, when SQLite rolls back on its own.
The result says that this is the only way in which the changes of a failed callback disappear.

Main results:

* `leaves_nothing_iff` — a failed callback leaves nothing exactly when SQLite rolls back, or
  when no statement before the one that raised has changed a row.
-/

import Horizon.StateDb

namespace Horizon

open List
open Sqlite (Table Prog Conn Fault Schedule noFault single)

/-! ### The callbacks -/

/-- The callbacks that the handlers give to `_transaction`, with what they draw. -/
inductive Callback (R : Type)
  | claim (now : ℤ) (q : RpcRequest)
  | storeReplay (q : RpcRequest) (r : RpcResponse R)
  | jobIntent (job auditAt : Draw) (actor action : String) (profileId : Option ProfileId)
  | finish (now : ℤ) (auditAt : Draw) (jobId : ℕ) (actor action : String)
      (profileId : Option ProfileId) (ending : Ending)
  | writeConfirmation (row : ConfirmationRow)
  | consume (now stamp : ℤ) (auditAt : Draw) (actor action : String) (id : ℕ)
  | writeEvent (since : ℤ) (at_ : Draw) (profileId : Option ProfileId) (code message : String)
  | writeAudit (at_ : Draw) (actor action : String) (profileId : Option ProfileId)
      (result : String) (code : Option ErrorCode) (detail : String)

section Callbacks

variable {R τ : Type} (codec : ResponseCodec R τ) (cb : Callback R)

def Callback.Answer : Callback R → Type
  | claim _ _ => ClaimResult R
  | jobIntent _ _ _ _ _ => ℕ
  | consume _ _ _ _ _ _ => JsonDict
  | _ => Unit

def Callback.prog :
    (cb : Callback R) → Prog (Db τ) ControllerFailure cb.Answer
  | claim now q => Horizon.claim codec now q
  | storeReplay q r => Horizon.storeReplay codec q r
  | jobIntent job auditAt actor action profileId =>
    Horizon.jobIntent job auditAt actor action profileId
  | finish now auditAt jobId actor action profileId ending =>
    Horizon.finish now auditAt jobId actor action profileId ending
  | writeConfirmation row => Horizon.writeConfirmation row
  | consume now stamp auditAt actor action id => Horizon.consume now stamp auditAt actor action id
  | writeEvent since at_ profileId code message =>
    Horizon.writeEvent since at_ profileId code message
  | writeAudit at_ actor action profileId result code detail =>
    Horizon.writeAudit at_ actor action profileId result code detail

/-- `_transaction` on the connection: there is no clause for exceptions. -/
def Callback.exec (s : Schedule) (c : Conn (Db τ)) : Conn (Db τ) := ((cb.prog codec).exec s c).1

/-- Later transactions, none of whose statements is made to raise. -/
def laterTransactions (later : List (Callback R)) (c : Conn (Db τ)) : Conn (Db τ) :=
  later.foldl (fun c cb => cb.exec codec noFault c) c

/-- Statement `i` of the callback raises, on a connection with no transaction open: whatever
transactions follow, what is committed after them is what they commit without the callback. -/
def LeavesNothing (d : Db τ) (i : ℕ) (f : Fault) : Prop :=
  ∀ later, (laterTransactions codec later
      (cb.exec codec (single i f) (.opened d))).committed =
    (laterTransactions codec later (.opened d)).committed

/-- The conditions of `consume` on the row itself. -/
def ConfirmationRow.presentable (row : ConfirmationRow) (now : ℤ) (actor action : String) : Bool :=
  row.action = action && row.actor = actor && row.consumedAt.isNone && now < row.expiresAt

/-- The number of the first statement of a callback that changes a row of `d`. -/
def Callback.firstChange (d : Db τ) : Callback R → ℕ
  -- after the `SELECT`
  | claim _ _ => 1
  -- the `UPDATE` of a row that is pending, or the commit
  | storeReplay q _ =>
    if (d.replay.find q.requestId).any fun e =>
      e.row.canonicalRequest = q.canonical && e.row.status = .pending then 0 else 1
  | jobIntent _ _ _ _ _ => 0
  -- the `UPDATE` of a job that is there, or the audit row
  | finish _ _ jobId _ _ _ _ => if (d.jobs.find jobId).isSome then 0 else 1
  | writeConfirmation _ => 0
  -- the generation is read for a row that can be presented; otherwise the audit row comes next
  | consume now _ _ actor action id =>
    if (d.confirmations.find id).any fun row => row.presentable now actor action then 2 else 1
  | writeEvent _ _ _ _ _ => 1
  | writeAudit _ _ _ _ _ _ _ => 0

/-! ### What a callback has changed when a statement starts -/

variable {α : Type} {d d₁ : Db τ} {i : ℕ}

/-- Up to statement `m` nothing has changed, and from then on something has. -/
def ChangedAfter (d d₁ : Db τ) (i m : ℕ) : Prop := (i ≤ m ∧ d₁ = d) ∨ (m < i ∧ d₁ ≠ d)

theorem ChangedAfter.iff {m : ℕ} (h : ChangedAfter d d₁ i m) : d₁ = d ↔ i ≤ m := by
  rcases h with ⟨hle, heq⟩ | ⟨hlt, hne⟩
  · exact iff_of_true heq hle
  · exact iff_of_false hne (by omega)

/-- A statement that only reads comes before. -/
theorem ChangedAfter.succ {m : ℕ} (h : ChangedAfter d d₁ i m) :
    ChangedAfter d d₁ (i + 1) (m + 1) := by
  rcases h with ⟨hle, heq⟩ | ⟨hlt, hne⟩
  · exact .inl ⟨by omega, heq⟩
  · exact .inr ⟨by omega, hne⟩

theorem ne_of_audit_length (h : d₁.audit.rows.length = d.audit.rows.length + 1) : d₁ ≠ d := by
  rintro rfl
  omega

variable {actor action : String} {profileId : Option ProfileId}

variable {at_ : Draw} {detail : String} {k : Prog (Db τ) ControllerFailure α} {b : Bool}
  {code : Option ErrorCode} {result : String}

/-- A row is inserted into a table, and the commit is the statement after that. -/
theorem before_insert_commit {ρ κ : Type} [DecidableEq κ] {key : ρ → κ} {row : ρ}
    (table : Db τ → Table key) {put : Db τ → Table key → Db τ} (hput : ∀ t, table (put d t) = t)
    (h : (Prog.write (fun d => ((table d).insert row).map fun t => (put d t, 1)) fun _ =>
      .commit k).before b i d = some d₁) : ChangedAfter d d₁ i 0 := by
  rcases Prog.before_write h with ⟨rfl, heq⟩ | ⟨n, e, rows, rfl, hins, hcommit⟩
  · exact .inl ⟨le_rfl, heq⟩
  · obtain ⟨-, rfl⟩ := Prog.before_commit hcommit
    obtain ⟨t, ht, heq⟩ := Option.map_eq_some_iff.1 hins
    cases heq
    refine .inr ⟨by omega, fun heq => ?_⟩
    have hlen := Table.insert_length ht
    rw [← hput t, heq] at hlen
    omega

/-- `_audit` comes to its own statement, or has added a row. -/
theorem before_audit
    (h : (audit at_ actor action profileId result code detail k).before b i d = some d₁) :
    (i = 0 ∧ d₁ = d) ∨ ∃ n t, i = n + 1 ∧ t.rows.length = d.audit.rows.length + 1 ∧
      k.before true n { d with audit := t } = some d₁ := by
  rcases Prog.before_write h with hzero | ⟨n, e, rows, hi, hins, hrest⟩
  · exact .inl hzero
  · obtain ⟨t, ht, heq⟩ := Option.map_eq_some_iff.1 hins
    cases heq
    exact .inr ⟨n, t, hi, Table.insert_length ht, hrest⟩

/-- An audit row and a commit: the commit is the statement after the change. -/
theorem before_audit_commit
    (h : (audit at_ actor action profileId result code detail (.commit k)).before b i d = some d₁) :
    ChangedAfter d d₁ i 0 :=
  before_insert_commit Db.audit (fun _ => rfl) h

theorem before_rejectSync {code : ErrorCode}
    (h : (rejectSync at_ actor action profileId code detail :
      Prog (Db τ) ControllerFailure α).before b i d = some d₁) : ChangedAfter d d₁ i 0 :=
  before_audit_commit h

variable {now : ℤ} {q : RpcRequest} {codec : ResponseCodec R τ}

theorem before_claim (h : (claim codec now q).before false i d = some d₁) :
    ChangedAfter d d₁ i 1 := by
  rcases Prog.before_select h with ⟨rfl, heq⟩ | ⟨n, rfl, hrest⟩
  · exact .inl ⟨by omega, heq⟩
  · split at hrest
    · exact (before_insert_commit Db.replay (fun _ => rfl) hrest).succ
    · cases hrest

variable {r : RpcResponse R}

/-- `_store_replay` changes the row that is pending under its request. -/
theorem updateReplay_ne {entry : ReplayEntry τ} (hentry : d.replay.find q.requestId = some entry)
    (hcanonical : entry.row.canonicalRequest = q.canonical)
    (hpending : entry.row.status = .pending) :
    (d.updateReplay q.requestId (storeRow codec q r)).1 ≠ d := by
  intro heq
  have hkey := Table.find_key hentry
  have hfind : (d.updateReplay q.requestId (storeRow codec q r)).1.replay.find q.requestId =
      some (entry.mapRow (storeRow codec q r)) := by
    simp only [Db.updateReplay]
    rw [Table.find_update, hentry]
    simp [hkey]
  rw [heq, hentry, Option.some_inj] at hfind
  have hstatus := congrArg (fun e => e.row.status) hfind
  simp [ReplayEntry.mapRow, storeRow, hcanonical, hpending] at hstatus

theorem updateReplay_eq (h : ∀ entry, d.replay.find q.requestId = some entry →
      ¬ (entry.row.canonicalRequest = q.canonical ∧ entry.row.status = .pending)) :
    (d.updateReplay q.requestId (storeRow codec q r)).1 = d := by
  simp only [Db.updateReplay]
  rw [Table.update_eq_self]
  intro entry hmem hid
  have hfind := Table.find_of_mem hmem
  rw [of_decide_eq_true hid] at hfind
  unfold ReplayEntry.mapRow storeRow
  rw [if_neg (h entry hfind)]

theorem before_storeReplay (h : (storeReplay codec q r).before false i d = some d₁) :
    ChangedAfter d d₁ i (Callback.firstChange d (.storeReplay q r)) := by
  rcases Prog.before_write h with ⟨rfl, heq⟩ | ⟨n, e, rows, rfl, hup, hrest⟩
  · exact .inl ⟨Nat.zero_le _, heq⟩
  obtain ⟨rfl, rfl⟩ := Prog.before_commit hrest
  obtain rfl : (d.updateReplay q.requestId (storeRow codec q r)).1 = d₁ :=
    congrArg Prod.fst (Option.some.inj hup)
  simp only [Callback.firstChange, Option.any_eq_true, Bool.and_eq_true, decide_eq_true_eq]
  split
  · rename_i hpending
    obtain ⟨entry, hentry, hcanonical, hstatus⟩ := hpending
    exact .inr ⟨by omega, updateReplay_ne hentry hcanonical hstatus⟩
  · rename_i hnone
    refine .inl ⟨le_rfl, updateReplay_eq fun entry hentry hrow => ?_⟩
    exact hnone ⟨entry, hentry, hrow⟩

variable {auditAt : Draw}

theorem before_jobIntent {job : Draw}
    (h : (jobIntent job auditAt actor action profileId).before false i d = some d₁) :
    ChangedAfter d d₁ i 0 := by
  rcases Prog.before_write h with ⟨rfl, heq⟩ | ⟨n, e, rows, rfl, hins, hrest⟩
  · exact .inl ⟨le_rfl, heq⟩
  obtain ⟨t, ht, heq⟩ := Option.map_eq_some_iff.1 hins
  cases heq
  have hlen := Table.insert_length ht
  -- the audit row leaves the jobs alone
  have hjobs : d₁.jobs = t := by
    rcases before_audit hrest with ⟨-, rfl⟩ | ⟨m, t', -, -, hcommit⟩
    · rfl
    · obtain ⟨-, rfl⟩ := Prog.before_commit hcommit
      rfl
  refine .inr ⟨by omega, fun heq => ?_⟩
  rw [← hjobs, heq] at hlen
  omega

theorem le_lastCompletion {row : JobRow} {n : ℕ} (hrow : row ∈ d.jobs.rows)
    (hseq : row.completionSeq = some n) : n ≤ d.lastCompletion := by
  have hmem : n ∈ d.jobs.rows.filterMap JobRow.completionSeq :=
    mem_filterMap.2 ⟨row, hrow, hseq⟩
  unfold Db.lastCompletion
  generalize d.jobs.rows.filterMap JobRow.completionSeq = seqs at hmem
  induction seqs with
  | nil => cases hmem
  | cons m seqs ih =>
    rcases mem_cons.1 hmem with rfl | hmem
    · exact le_max_left _ _
    · exact le_trans (ih hmem) (le_max_right _ _)

variable {jobId : ℕ}

/-- `_finish` gives the row a number that no row has. -/
theorem finishJob_jobs_ne {row : JobRow} (hrow : d.jobs.find jobId = some row) (state : JobState)
    (now : ℤ) (detail : String) : (d.finishJob jobId state now detail).1.jobs ≠ d.jobs := by
  intro heq
  have hfind := find_finishJob_self state now detail hrow
  rw [heq, hrow, Option.some_inj] at hfind
  have hseq : row.completionSeq = some (d.lastCompletion + 1) := congrArg JobRow.completionSeq hfind
  have hle := le_lastCompletion (Table.find_mem hrow) hseq
  omega

theorem finishJob_eq (hrow : d.jobs.find jobId = none) (state : JobState) (now : ℤ)
    (detail : String) : (d.finishJob jobId state now detail).1 = d := by
  simp only [Db.finishJob]
  rw [Table.update_eq_self]
  intro row hmem hid
  have hfind := Table.find_of_mem hmem
  rw [of_decide_eq_true hid, hrow] at hfind
  cases hfind

/-- The statements of `_bump_generation` leave the audit rows alone. -/
theorem before_bumpGeneration {n : ℕ} {e : Db τ}
    (h : (bumpGeneration (.commit k)).before true n e = some d₁) : d₁.audit = e.audit := by
  rcases Prog.before_select h with ⟨-, rfl⟩ | ⟨m, -, hpragma⟩
  · rfl
  · rcases Prog.before_pragma hpragma with ⟨-, rfl⟩ | ⟨l, -, hcommit⟩
    · rfl
    · obtain ⟨-, rfl⟩ := Prog.before_commit hcommit
      rfl

theorem before_finish {ending : Ending}
    (h : (finish now auditAt jobId actor action profileId ending).before false i d = some d₁) :
    ChangedAfter d d₁ i (if (d.jobs.find jobId).isSome then 0 else 1) := by
  have hbound : (if (d.jobs.find jobId).isSome then 0 else 1) ≤ 1 := by split <;> omega
  rcases Prog.before_write h with ⟨rfl, heq⟩ | ⟨n, e, rows, rfl, hup, hrest⟩
  · exact .inl ⟨Nat.zero_le _, heq⟩
  obtain rfl : (d.finishJob jobId ending.finalState now (clip ending.detail)).1 = e :=
    congrArg Prod.fst (Option.some.inj hup)
  rcases before_audit hrest with ⟨rfl, rfl⟩ | ⟨m, t, rfl, hlen, hbump⟩
  · -- the audit row raises: only the job has changed, if it is there
    cases hrow : d.jobs.find jobId with
    | none => exact .inl ⟨le_rfl, finishJob_eq hrow _ _ _⟩
    | some row =>
      refine .inr ⟨zero_lt_one, fun heq => ?_⟩
      exact finishJob_jobs_ne hrow _ _ _ (congrArg Db.jobs heq)
  · refine .inr ⟨by omega, ne_of_audit_length ?_⟩
    rw [before_bumpGeneration hbump]
    exact hlen

variable {row : ConfirmationRow} {stamp : ℤ} {id : ℕ}

theorem before_writeConfirmation
    (h : (writeConfirmation row).before false i d = some d₁) : ChangedAfter d d₁ i 0 :=
  before_insert_commit Db.confirmations (fun _ => rfl) h

theorem before_writeEvent {since : ℤ} {code message : String}
    (h : (writeEvent since at_ profileId code message).before false i d = some d₁) :
    ChangedAfter d d₁ i 1 := by
  rcases Prog.before_select h with ⟨rfl, heq⟩ | ⟨n, rfl, hrest⟩
  · exact .inl ⟨Nat.zero_le _, heq⟩
  split at hrest
  · cases hrest
  · exact (before_insert_commit Db.events (fun _ => rfl) hrest).succ

/-- The checks of `consume` on the row are those of `presentable`. -/
theorem presentable_iff : row.presentable now actor action = true ↔
    row.action = action ∧ row.actor = actor ∧ row.consumedAt = none ∧ now < row.expiresAt := by
  simp [ConfirmationRow.presentable, and_assoc]

theorem before_consumeRow (hrow : d.confirmations.find id = some row)
    (hnew : row.consumedAt = none) (h : (Prog.select fun d' : Db τ =>
      if row.stateGeneration ≠ d'.currentGeneration then
        rejectSync auditAt actor action (some row.profileId) .confirmationMismatch
          "confirmation is stale"
      else .write (fun d'' => some (d''.consumeRow id stamp row.stateGeneration)) fun updated =>
        if updated ≠ 1 then
          rejectSync auditAt actor action (some row.profileId) .confirmationMismatch
            "confirmation was already consumed"
        else (.commit (.done row.payload) : Prog (Db τ) ControllerFailure JsonDict)).before
      false i d = some d₁) : ChangedAfter d d₁ i 1 := by
  rcases Prog.before_select h with ⟨rfl, heq⟩ | ⟨n, rfl, hrest⟩
  · exact .inl ⟨Nat.zero_le _, heq⟩
  split at hrest
  · exact (before_rejectSync hrest).succ
  · rcases Prog.before_write hrest with ⟨rfl, heq⟩ | ⟨m, e, rows, rfl, hup, hcommit⟩
    · exact .inl ⟨le_rfl, heq⟩
    · have hcount := consumeRow_count stamp hrow (by rw [hnew]; rfl)
      obtain ⟨he, hrows⟩ := Prod.ext_iff.1 (Option.some.inj hup)
      rw [if_neg (not_not.2 (hrows.symm.trans hcount))] at hcommit
      obtain ⟨-, rfl⟩ := Prog.before_commit hcommit
      refine .inr ⟨by omega, fun heq => ?_⟩
      have hfind := find_consumeRow_self stamp hrow hnew
      rw [he, heq, hrow, Option.some_inj] at hfind
      have hconsumed := congrArg ConfirmationRow.consumedAt hfind
      rw [hnew] at hconsumed
      cases hconsumed

theorem before_consume
    (h : (consume now stamp auditAt actor action id).before false i d = some d₁) :
    ChangedAfter d d₁ i (if (d.confirmations.find id).any
      fun row => row.presentable now actor action then 2 else 1) := by
  rcases Prog.before_select h with ⟨rfl, heq⟩ | ⟨n, rfl, hrest⟩
  · exact .inl ⟨Nat.zero_le _, heq⟩
  cases hrow : d.confirmations.find id with
  | none =>
    rw [hrow] at hrest
    exact (before_rejectSync hrest).succ
  | some row =>
    rw [hrow] at hrest
    rw [Option.any_some]
    simp only at hrest
    by_cases hp : row.presentable now actor action = true
    · obtain ⟨haction, hactor, hnew, hlive⟩ := presentable_iff.1 hp
      rw [if_pos hp]
      rw [if_neg (by simp [haction, hactor]), if_neg (by simp [hnew]), if_neg (by omega)] at hrest
      exact (before_consumeRow hrow hnew hrest).succ
    · rw [if_neg hp]
      rw [presentable_iff] at hp
      split at hrest
      · exact (before_rejectSync hrest).succ
      rename_i hmatch
      split at hrest
      · exact (before_rejectSync hrest).succ
      rename_i hnew
      split at hrest
      · exact (before_rejectSync hrest).succ
      rename_i hlive
      push Not at hmatch
      exact absurd ⟨hmatch.1, hmatch.2, by simpa using hnew, by omega⟩ hp

/-- **What a callback has changed when a statement starts.** -/
theorem before_eq_iff (codec : ResponseCodec R τ) (cb : Callback R)
    (h : (cb.prog codec).before false i d = some d₁) : d₁ = d ↔ i ≤ cb.firstChange d := by
  suffices hchanged : ChangedAfter d d₁ i (cb.firstChange d) from hchanged.iff
  cases cb with
  | claim now q => exact before_claim h
  | storeReplay q r => exact before_storeReplay h
  | jobIntent job auditAt actor action profileId => exact before_jobIntent h
  | finish now auditAt jobId actor action profileId ending => exact before_finish h
  | writeConfirmation row => exact before_writeConfirmation h
  | consume now stamp auditAt actor action id => exact before_consume h
  | writeEvent since at_ profileId code message => exact before_writeEvent h
  | writeAudit at_ actor action profileId result code detail => exact before_audit_commit h

/-! ### Later transactions -/

variable (codec)

theorem Callback.covered (cb : Callback R) : (cb.prog codec).Covered := by
  cases cb with
  | claim now q =>
    intro d
    cases hrow : d.replay.find q.requestId <;> simp only [hrow] <;> trivial
  | storeReplay | jobIntent | finish | writeConfirmation | writeAudit => trivial
  | consume now stamp auditAt actor action id =>
    intro d
    cases hrow : d.confirmations.find id with
    | none => simp only [hrow]; trivial
    | some row =>
      simp only [hrow]
      refine .ite trivial (.ite trivial (.ite trivial fun d' => ?_))
      exact .ite trivial trivial
  | writeEvent since at_ profileId code message => exact fun d => .ite trivial trivial

/-- A transaction that is open and has changed nothing makes no difference later. -/
theorem laterTransactions_agrees (later : List (Callback R)) {c c' : Conn (Db τ)}
    (h : c.Agrees c') :
    (laterTransactions codec later c).Agrees (laterTransactions codec later c') := by
  induction later generalizing c c' with
  | nil => exact h
  | cons cb later ih => exact ih (Prog.exec_agrees _ _ (cb.covered codec) h)

/-- An audit row under a new id is committed together with all that the connection sees. -/
theorem exec_writeAudit {c : Conn (Db τ)} (hnew : c.working.audit.find id = none) :
    ∃ t, t.rows = c.working.audit.rows ++ [⟨id, 0, "", "", none, "", none, clip ""⟩] ∧
      (Callback.writeAudit ⟨id, 0⟩ "" "" none "" none "" : Callback R).exec codec noFault c =
        .opened { c.working with audit := t } := by
  obtain ⟨t, ht⟩ : ∃ t, c.working.audit.insert ⟨id, 0, "", "", none, "", none, clip ""⟩ = some t :=
    Table.insert_of_find hnew
  have hins : c.working.insertAudit ⟨id, 0, "", "", none, "", none, clip ""⟩ =
      some ({ c.working with audit := t }, 1) := by
    rw [Db.insertAudit, ht]
    rfl
  refine ⟨t, (Table.insert_eq_some ht).2, ?_⟩
  have hcloses : (writeAudit ⟨id, 0⟩ "" "" none "" none "").closes c.inTransaction c.working =
      true := by
    simp only [writeAudit, audit, Prog.closes, hins]
    rfl
  have heval : ((writeAudit ⟨id, 0⟩ "" "" none "" none "").eval c.working).1 =
      { c.working with audit := t } := by
    simp only [writeAudit, audit, Prog.eval, hins]
  show ((writeAudit ⟨id, 0⟩ "" "" none "" none "").exec noFault c).1 = _
  rw [Prog.exec_closes _ c hcloses, heval]

theorem exists_new_audit (t t' : Table AuditRow.id) :
    ∃ id, t.find id = none ∧ t'.find id = none := by
  obtain ⟨id, hid⟩ := Infinite.exists_notMem_finset
    ((t.rows.map AuditRow.id).toFinset ∪ (t'.rows.map AuditRow.id).toFinset)
  rw [Finset.mem_union, not_or, mem_toFinset, mem_toFinset] at hid
  exact ⟨id, Table.find_eq_none_iff.2 hid.1, Table.find_eq_none_iff.2 hid.2⟩

/-- What differs before an audit row is committed differs after it. -/
theorem eq_of_audit_committed {t t₁ : Table AuditRow.id} {row : AuditRow}
    (ht : t.rows = d.audit.rows ++ [row]) (ht₁ : t₁.rows = d₁.audit.rows ++ [row])
    (h : { d₁ with audit := t₁ } = { d with audit := t }) : d₁ = d := by
  obtain ⟨jobs, confirmations, audit, events, replay, runs, appId⟩ := d
  obtain ⟨jobs', confirmations', audit', events', replay', runs', appId'⟩ := d₁
  obtain ⟨rfl, rfl, rfl, rfl, rfl, rfl, rfl⟩ := h
  rw [ht] at ht₁
  obtain rfl := Table.eq_of_rows (append_cancel_right ht₁)
  rfl

/-- **Failed transactions, exactly.**  A callback comes to statement `i` without a commit, and the
statement raises.  Whatever transactions follow, none of the earlier statements of the callback
shows in what they commit, if and only if SQLite undoes the transaction or no earlier statement has
changed a row. -/
theorem leaves_nothing_iff (cb : Callback R) (d : Db τ) (i : ℕ) (f : Fault)
    (hreached : ((cb.prog codec).before false i d).isSome = true) :
    LeavesNothing codec cb d i f ↔ f = .transaction ∨ i ≤ cb.firstChange d := by
  obtain ⟨d₁, hbefore⟩ := Option.isSome_iff_exists.1 hreached
  obtain ⟨-, hcommitted, hworking⟩ := Prog.exec_single (cb.prog codec) f i (.opened d) d₁ hbefore
  rw [← before_eq_iff codec cb hbefore]
  constructor
  · intro hnothing
    cases f with
    | transaction => exact .inl rfl
    | statement =>
      -- a later audit row commits what the callback has left
      obtain ⟨id, hnew, hnew₁⟩ := exists_new_audit d.audit d₁.audit
      obtain ⟨t, ht, hexec⟩ := exec_writeAudit codec (R := R) (c := .opened d) hnew
      obtain ⟨t₁, ht₁, hexec₁⟩ := exec_writeAudit codec (R := R)
        (c := cb.exec codec (single i .statement) (.opened d))
        (by rw [Callback.exec, hworking]; exact hnew₁)
      have hlater := hnothing [.writeAudit ⟨id, 0⟩ "" "" none "" none ""]
      simp only [laterTransactions, foldl_cons, foldl_nil, hexec, hexec₁,
        Conn.opened_committed, Conn.opened_working] at hlater
      rw [show (cb.exec codec (single i .statement) (.opened d)).working = d₁ from
        hworking] at hlater ht₁
      exact .inr (eq_of_audit_committed ht ht₁ hlater)
  · intro hcase later
    refine (laterTransactions_agrees codec later ⟨?_, hcommitted⟩).2
    refine hworking.trans ?_
    cases f with
    | transaction => rfl
    | statement =>
      rcases hcase with hf | heq
      · cases hf
      · exact heq

end Callbacks

def oneJob : Db (Option (RpcResponse Unit)) :=
  { Db.new _ with
    jobs := ⟨[⟨5, some .minecraft, "start", .accepted, 1, none, none, none⟩], by simp⟩ }

/-- `_finish` of that job. -/
def finishStart : Callback Unit :=
  .finish 2 ⟨60, 2⟩ 5 "web:admin" "start" (some .minecraft) ⟨true, none, "", none⟩

def auditCommand : Callback Unit :=
  .writeAudit ⟨61, 3⟩ "web:admin" "command" none "accepted" none ""

/-- When the commit of a `_finish` takes the transaction with it, nothing is left; when the `UPDATE`
itself raises, neither. -/
theorem leaves_nothing_iff_finish :
    LeavesNothing (.plain Unit) finishStart oneJob 4 .transaction ∧
      LeavesNothing (.plain Unit) finishStart oneJob 0 .statement :=
  ⟨(leaves_nothing_iff (.plain Unit) finishStart oneJob 4 .transaction rfl).2 (.inl rfl),
    (leaves_nothing_iff (.plain Unit) finishStart oneJob 0 .statement rfl).2 (.inr (Nat.zero_le _))⟩

/-- The audit row of a `_finish` raises.  A handler that records a command commits the end of the
job, without its audit row and without a new generation. -/
theorem half_finish_committed :
    let c := laterTransactions (.plain Unit) [auditCommand]
      (finishStart.exec (.plain Unit) (single 1 .statement) (.opened oneJob))
    (c.committed.jobs.find 5).map JobRow.state = some .succeeded ∧
      c.committed.audit.rows.map AuditRow.id = [61] ∧ c.committed.applicationId = 0 ∧
      ((laterTransactions (.plain Unit) [auditCommand] (.opened oneJob)).committed.jobs.find 5).map
        JobRow.state = some .accepted := by
  decide

end Horizon
