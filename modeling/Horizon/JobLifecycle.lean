/-
**Jobs end, and end once.**

The handlers run at the same time, each in its own task, and share the table `jobs`.  A call is
described by the transactions on its row that lie ahead, as its handler and its oracle determine
them; they are executed one after the other, with the transactions of other calls in between.
`_cancel_benchmark` is a call of another kind: it looks at the row of a benchmark, and when the row
is open it cancels the process and, later, finishes the row itself, which the worker will finish
too.

Main results:

* `jobs_end_once` — in every orderly run an open row belongs to a call that still executes, and
  a row that has ended does not change.
-/

import Horizon.AbandonedJobs

namespace Horizon

open List
open Function Transition
open Sqlite (Table)

/-! ### The calls and the table -/

/-- Where a call is.  Its number is not used twice. -/
inductive JobPlace
  | idle
  /-- It has the row `job`, and `rest` lies ahead. -/
  | executing (job : Option ℕ) (rest : List JobOp)
  | over

structure JobWorld (τ : Type) where
  db : Db τ
  calls : ℕ → JobPlace
  /-- The call that inserted a row. -/
  creator : ℕ → Option ℕ
  /-- The calls of `_cancel_benchmark` that found their row open, with its id and profile. -/
  cancelling : ℕ → Option (ℕ × Option ProfileId)

inductive JobEvent (τ : Type)
  /-- A request is handled: the oracle says how its awaits will end. -/
  | call (c : ℕ) (h : Handler) (ω : Oracle)
  /-- The transaction of `_job_intent`. -/
  | intent (c : ℕ) (job auditAt : Draw) (actor action : String) (profileId : Option ProfileId)
  /-- A transaction of `_finish`. -/
  | finish (c : ℕ) (now : ℤ) (auditAt : Draw) (actor action : String)
      (profileId : Option ProfileId) (ending : Ending)
  /-- The handler, and the worker that it created, have ended. -/
  | ended (c : ℕ)
  /-- `_cancel_benchmark` up to its first await. -/
  | cancelBenchmark (k jobId : ℕ)
  /-- The `_finish` of `_cancel_benchmark`. -/
  | finishCancelled (k : ℕ) (now : ℤ) (auditAt : Draw) (actor : String)
  /-- `_cancel_benchmark` raises at its await. -/
  | dropped (k : ℕ)
  /-- A transaction that does not touch the jobs. -/
  | other (confirmations : Table ConfirmationRow.id) (audit : Table AuditRow.id)
      (events : Table EventRow.id) (replay : Table (ReplayEntry.requestId (τ := τ)))

section Steps

variable {τ : Type} (w : JobWorld τ) (c : ℕ)

def JobWorld.setCall (p : JobPlace) : JobWorld τ := { w with calls := update w.calls c p }

@[simp] theorem setCall_calls (p : JobPlace) : (w.setCall c p).calls = update w.calls c p := rfl

/-- How `_cancel_benchmark` finishes a job. -/
def benchmarkCancelled : Ending := ⟨false, some .benchmarkFailed, "benchmark cancelled", none⟩

def jobStep : JobEvent τ → Option (JobWorld τ)
  | .call c h ω =>
    match w.calls c with
    | .idle => some (w.setCall c (.executing none (h.run ω).jobs))
    | _ => none
  | .intent c job auditAt actor action profileId =>
    match w.calls c with
    | .executing _ (.intent :: rest) =>
      match (jobIntent job auditAt actor action profileId).transact w.db with
      | some (db, .value id) =>
        some { w with
          db := db
          calls := update w.calls c (.executing (some id) rest)
          creator := update w.creator id (some c) }
      | _ => none
    | _ => none
  | .finish c now auditAt actor action profileId ending =>
    match w.calls c with
    | .executing (some id) (.finish state :: rest) =>
      if ending.finalState = state then
        match (finish now auditAt id actor action profileId ending).transact w.db with
        | some (db, .value _) =>
          some { w with
            db := db, calls := update w.calls c (.executing (some id) rest) }
        | _ => none
      else none
    | _ => none
  | .ended c =>
    match w.calls c with
    | .executing _ [] => some (w.setCall c .over)
    | _ => none
  | .cancelBenchmark k jobId =>
    match w.db.jobs.find jobId with
    | some row =>
      if row.operation = "benchmark" ∧ row.state.isOpen then
        some { w with cancelling := update w.cancelling k (some (jobId, row.profileId)) }
      else some w
    | none => some w
  | .finishCancelled k now auditAt actor =>
    match w.cancelling k with
    | some (id, profileId) =>
      match (finish now auditAt id actor "benchmark" profileId benchmarkCancelled).transact
          w.db with
      | some (db, .value _) => some { w with db := db, cancelling := update w.cancelling k none }
      | _ => none
    | none => none
  | .dropped k => some { w with cancelling := update w.cancelling k none }
  | .other confirmations audit events replay =>
    some { w with db := { w.db with
      confirmations := confirmations, audit := audit, events := events, replay := replay } }

/-- The condition on a step: a call releases its locks without an error and ends no await in a way
that abandons its row, and `_cancel_benchmark` does not come to its `_finish`. -/
def Orderly (_w : JobWorld τ) (ev : JobEvent τ) (_w' : JobWorld τ) : Prop :=
  match ev with
  | .call _ h ω => ω.Unlocks ∧ ∀ e ∈ (h.run ω).trace, h.abandons e = false
  | .finishCancelled _ _ _ _ => False
  | _ => True

def JobWorld.Executing : Prop := ∃ job rest, w.calls c = .executing job rest

/-- A process has started: no call so far, and the rows of earlier processes in the table. -/
def JobWorld.started (db : Db τ) : JobWorld τ := ⟨db, fun _ => .idle, fun _ => none, fun _ => none⟩

/-! ### What one step preserves -/

variable {w} {w' : JobWorld τ} {ev : JobEvent τ} {rest : List JobOp} {profileId : Option ProfileId}
  {actor action : String} {job : Option ℕ} {d d' : Db τ} {c} {id : ℕ} {state : JobState}

def JobWorld.OpenRow (w : JobWorld τ) (id : ℕ) : Prop :=
  ∃ row, w.db.jobs.find id = some row ∧ row.state.isOpen = true

/-- The row is there and has ended in this state and with this number. -/
def JobWorld.EndedRow (w : JobWorld τ) (id : ℕ) (state : JobState) (seq : Option ℕ) : Prop :=
  ∃ row, w.db.jobs.find id = some row ∧ row.state.isOpen = false ∧ row.state = state ∧
    row.completionSeq = seq

/-- The transactions ahead of a call: both, the second, or none. -/
inductive JobWorld.Ahead (w : JobWorld τ) (c : ℕ) : Option ℕ → List JobOp → Prop
  | both {state : JobState} (hstate : state.isOpen = false) :
      w.Ahead c none [.intent, .finish state]
  | last {id : ℕ} {state : JobState} (hstate : state.isOpen = false)
      (hcreator : w.creator id = some c) (hopen : w.OpenRow id) :
      w.Ahead c (some id) [.finish state]
  | nothing (job : Option ℕ) : w.Ahead c job []

/-- Every call has at most one row ahead of it, and every open row of this process has a call. -/
structure JobWorld.Sound (w : JobWorld τ) : Prop where
  ahead : ∀ c job rest, w.calls c = .executing job rest → w.Ahead c job rest
  opened : ∀ id c, w.creator id = some c → w.OpenRow id →
    ∃ state, w.calls c = .executing (some id) [.finish state]

theorem sound_started (db : Db τ) : (JobWorld.started db).Sound := by
  refine ⟨fun c job rest h => ?_, fun id c h => ?_⟩
  · cases h
  · cases h

theorem ahead_of_jobsEnded {jobs : List JobOp} (c : ℕ) (h : JobsEnded jobs) :
    w.Ahead c none jobs := by
  rcases h with rfl | ⟨state, rfl, hstate⟩
  · exact .nothing none
  · exact .both hstate

/-- What lies ahead of a call does not depend on other calls, as long as its row stays open. -/
theorem JobWorld.Ahead.congr (h : w.Ahead c job rest)
    (hrow : ∀ id, w.creator id = some c → w.OpenRow id → w'.creator id = some c ∧ w'.OpenRow id) :
    w'.Ahead c job rest := by
  cases h with
  | both hstate => exact .both hstate
  | last hstate hcreator hopen =>
    obtain ⟨hcreator', hopen'⟩ := hrow _ hcreator hopen
    exact .last hstate hcreator' hopen'
  | nothing job => exact .nothing job

theorem JobWorld.Sound.frame (h : w.Sound) (hjobs : w'.db.jobs = w.db.jobs)
    (hcalls : w'.calls = w.calls) (hcreator : w'.creator = w.creator) : w'.Sound := by
  have hopen (id : ℕ) : w'.OpenRow id ↔ w.OpenRow id := by
    unfold JobWorld.OpenRow
    rw [hjobs]
  refine ⟨fun c job rest hc => ?_, fun id c hid hrow => ?_⟩
  · rw [hcalls] at hc
    refine (h.ahead c job rest hc).congr fun id hid hrow => ?_
    rw [hcreator]
    exact ⟨hid, (hopen id).2 hrow⟩
  · rw [hcreator] at hid
    rw [hcalls]
    exact h.opened id c hid ((hopen id).1 hrow)

/-- What a step of an orderly run does to the jobs and the calls. -/
inductive JobMove (w w' : JobWorld τ) : Prop
  | quiet (hjobs : w'.db.jobs = w.db.jobs) (hcalls : w'.calls = w.calls)
      (hcreator : w'.creator = w.creator)
  | called (c : ℕ) (jobs : List JobOp) (hidle : w.calls c = .idle) (hjobs : JobsEnded jobs)
      (hw : w' = w.setCall c (.executing none jobs))
  | ended (c : ℕ) (job : Option ℕ) (hc : w.calls c = .executing job [])
      (hw : w' = w.setCall c .over)
  | inserted (c : ℕ) (job : Option ℕ) (rest : List JobOp) (id : ℕ) (row : JobRow)
      (hc : w.calls c = .executing job (.intent :: rest)) (hopen : row.state.isOpen = true)
      (hnew : w.db.jobs.find id = none)
      (hfind : ∀ k, w'.db.jobs.find k = if id = k then some row else w.db.jobs.find k)
      (hcalls : w'.calls = update w.calls c (.executing (some id) rest))
      (hcreator : w'.creator = update w.creator id (some c))
  | finished (c id : ℕ) (state : JobState) (rest : List JobOp)
      (hc : w.calls c = .executing (some id) (.finish state :: rest))
      (hself : ∀ row, w'.db.jobs.find id = some row → row.state = state)
      (hother : ∀ k, k ≠ id → w'.db.jobs.find k = w.db.jobs.find k)
      (hcalls : w'.calls = update w.calls c (.executing (some id) rest))
      (hcreator : w'.creator = w.creator)

/-- `_job_intent` adds an open row under a new id. -/
theorem find_jobIntent {job auditAt : Draw}
    (h : (jobIntent job auditAt actor action profileId).transact d = some (d', .value id)) :
    ∃ row : JobRow, row.state.isOpen = true ∧ d.jobs.find id = none ∧
      ∀ k, d'.jobs.find k = if id = k then some row else d.jobs.find k := by
  obtain ⟨heval, -⟩ := Sqlite.Prog.transact_eq_some (seals_jobIntent _ _ _ _ _) h
  obtain ⟨rfl, tj, ta, hins, rfl⟩ := eval_jobIntent heval
  exact ⟨_, rfl, (Table.insert_eq_some hins).1, fun k => Table.find_insert hins k⟩

/-- `_finish` ends its row, if there is one, and leaves the others. -/
theorem find_finish {now : ℤ} {auditAt : Draw} {jobId : ℕ} {e : Ending}
    (h : (finish now auditAt jobId actor action profileId e).transact d = some (d', .value ())) :
    (∀ row, d'.jobs.find jobId = some row → row.state = e.finalState) ∧
      ∀ k, k ≠ jobId → d'.jobs.find k = d.jobs.find k := by
  obtain ⟨heval, -⟩ := Sqlite.Prog.transact_eq_some (seals_finish _ _ _ _ _ _ _) h
  obtain ⟨t, rfl⟩ := eval_finish heval
  simp only [bump_jobs]
  refine ⟨fun row hrow => ?_, fun k hk => find_finishJob_of_ne _ _ _ hk⟩
  cases hold : d.jobs.find jobId with
  | none =>
    have hnone : (d.finishJob jobId e.finalState now (clip e.detail)).1.jobs.find jobId = none := by
      simp only [Db.finishJob]
      rw [Table.find_update, hold]
      rfl
    rw [hnone] at hrow
    cases hrow
  | some old =>
    rw [find_finishJob_self _ _ _ hold] at hrow
    cases hrow
    rfl

theorem jobStep_move (h : jobStep w ev = some w') (hC : Orderly w ev w') : JobMove w w' := by
  cases ev with
  | call c handler ω =>
    simp only [jobStep] at h
    split at h <;> cases h
    exact .called c _ ‹_› ((jobsEnded_iff handler hC.1).2 hC.2) rfl
  | intent c job auditAt actor action profileId =>
    simp only [jobStep] at h
    split at h
    · split at h <;> cases h
      rename_i hc _ _ _ hdb
      obtain ⟨row, hopen, hnew, hfind⟩ := find_jobIntent hdb
      exact .inserted c _ _ _ row hc hopen hnew hfind rfl rfl
    · cases h
  | finish c now auditAt actor action profileId ending =>
    simp only [jobStep] at h
    split at h
    · rename_i hc
      split at h
      · rename_i hstate
        split at h <;> cases h
        obtain ⟨hself, hother⟩ := find_finish ‹_›
        rw [hstate] at hself
        exact .finished c _ _ _ hc hself hother rfl rfl
      · cases h
    · cases h
  | ended c =>
    simp only [jobStep] at h
    split at h <;> cases h
    exact .ended c _ ‹_› rfl
  | cancelBenchmark k jobId =>
    simp only [jobStep] at h
    split at h
    · split at h <;> cases h <;> exact .quiet rfl rfl rfl
    · cases h
      exact .quiet rfl rfl rfl
  | finishCancelled k now auditAt actor => exact absurd hC id
  | dropped | other =>
    cases h
    exact .quiet rfl rfl rfl

theorem JobWorld.Sound.setCall {p : JobPlace} (h : w.Sound)
    (hno : ∀ id state, w.calls c ≠ .executing (some id) [.finish state])
    (hp : ∀ job rest, p = .executing job rest → w.Ahead c job rest) : (w.setCall c p).Sound := by
  refine ⟨fun c' job rest hc' => ?_, fun id c' hid hrow => ?_⟩
  · have hahead : w.Ahead c' job rest := by
      by_cases hcc : c' = c
      · subst hcc
        rw [setCall_calls, update_self] at hc'
        exact hp job rest hc'
      · rw [setCall_calls, update_of_ne hcc] at hc'
        exact h.ahead c' job rest hc'
    exact hahead.congr fun _ hcreator hopen => ⟨hcreator, hopen⟩
  · obtain ⟨state, hstate⟩ := h.opened id c' hid hrow
    refine ⟨state, ?_⟩
    have hcc : c' ≠ c := by
      rintro rfl
      exact hno id state hstate
    rw [setCall_calls, update_of_ne hcc]
    exact hstate

/-- The row of an insertion is new, so it is not the row of another call. -/
theorem JobWorld.Sound.inserted {row : JobRow} (h : w.Sound)
    (hc : w.calls c = .executing job (.intent :: rest)) (hopen : row.state.isOpen = true)
    (hnew : w.db.jobs.find id = none)
    (hfind : ∀ k, w'.db.jobs.find k = if id = k then some row else w.db.jobs.find k)
    (hcalls : w'.calls = update w.calls c (.executing (some id) rest))
    (hcreator : w'.creator = update w.creator id (some c)) : w'.Sound := by
  have hne {k : ℕ} (hk : w.OpenRow k) : id ≠ k := by
    rintro rfl
    obtain ⟨old, hold, -⟩ := hk
    rw [hnew] at hold
    cases hold
  have hrow : w'.OpenRow id := ⟨row, by rw [hfind, if_pos rfl], hopen⟩
  refine ⟨fun c' job' rest' hc' => ?_, fun k c' hk hkopen => ?_⟩
  · rw [hcalls] at hc'
    by_cases hcc : c' = c
    · subst hcc
      rw [update_self] at hc'
      cases hc'
      -- the intent was the first of two
      have hahead := h.ahead _ _ _ hc
      cases hahead with
      | both hstate =>
        refine .last hstate ?_ hrow
        rw [hcreator, update_self]
    · rw [update_of_ne hcc] at hc'
      refine (h.ahead c' job' rest' hc').congr fun k hk hkopen => ?_
      have hidk := hne hkopen
      obtain ⟨old, hold, hstate⟩ := hkopen
      refine ⟨?_, old, ?_, hstate⟩
      · rw [hcreator, update_of_ne hidk.symm]
        exact hk
      · rw [hfind, if_neg hidk]
        exact hold
  · rw [hcreator] at hk
    rw [hcalls]
    by_cases hkid : k = id
    · subst hkid
      rw [update_self, Option.some_inj] at hk
      subst hk
      have hahead := h.ahead _ _ _ hc
      cases hahead with
      | both hstate => exact ⟨_, update_self ..⟩
    · rw [update_of_ne hkid] at hk
      obtain ⟨old, hold, hstate⟩ := hkopen
      rw [hfind, if_neg (Ne.symm hkid)] at hold
      obtain ⟨state, hplace⟩ := h.opened k c' hk ⟨old, hold, hstate⟩
      refine ⟨state, ?_⟩
      have hcc : c' ≠ c := by
        rintro rfl
        rw [hc] at hplace
        cases hplace
      rw [update_of_ne hcc]
      exact hplace

theorem JobWorld.Sound.finished (h : w.Sound)
    (hc : w.calls c = .executing (some id) (.finish state :: rest))
    (hself : ∀ row, w'.db.jobs.find id = some row → row.state = state)
    (hother : ∀ k, k ≠ id → w'.db.jobs.find k = w.db.jobs.find k)
    (hcalls : w'.calls = update w.calls c (.executing (some id) rest))
    (hcreator : w'.creator = w.creator) : w'.Sound := by
  obtain ⟨hrest, hstate, hmine⟩ : rest = [] ∧ state.isOpen = false ∧ w.creator id = some c := by
    have hahead := h.ahead _ _ _ hc
    cases hahead with
    | last hstate hmine _ => exact ⟨rfl, hstate, hmine⟩
  subst hrest
  refine ⟨fun c' job' rest' hc' => ?_, fun k c' hk hkopen => ?_⟩
  · rw [hcalls] at hc'
    by_cases hcc : c' = c
    · subst hcc
      rw [update_self] at hc'
      cases hc'
      exact .nothing _
    · rw [update_of_ne hcc] at hc'
      refine (h.ahead c' job' rest' hc').congr fun k hk ⟨old, hold, hopen⟩ => ?_
      have hkid : k ≠ id := by
        rintro rfl
        rw [hmine, Option.some_inj] at hk
        exact hcc hk.symm
      rw [hcreator]
      exact ⟨hk, old, by rw [hother k hkid, hold], hopen⟩
  · rw [hcreator] at hk
    obtain ⟨row, hrow, hopen⟩ := hkopen
    have hkid : k ≠ id := by
      rintro rfl
      rw [hself row hrow, hstate] at hopen
      cases hopen
    rw [hother k hkid] at hrow
    obtain ⟨state', hplace⟩ := h.opened k c' hk ⟨row, hrow, hopen⟩
    refine ⟨state', ?_⟩
    have hcc : c' ≠ c := by
      rintro rfl
      rw [hc] at hplace
      cases hplace
      exact hkid rfl
    rw [hcalls, update_of_ne hcc]
    exact hplace

theorem jobStep_sound (h : w.Sound) (hstep : jobStep w ev = some w') (hC : Orderly w ev w') :
    w'.Sound := by
  cases jobStep_move hstep hC with
  | quiet hjobs hcalls hcreator => exact h.frame hjobs hcalls hcreator
  | called c jobs hidle hjobs hw =>
    subst hw
    refine h.setCall (fun id state hc => ?_) fun job rest hp => ?_
    · rw [hidle] at hc
      cases hc
    · cases hp
      exact ahead_of_jobsEnded c hjobs
  | ended c job hc hw =>
    subst hw
    refine h.setCall (fun id state hc' => ?_) fun job' rest hp => ?_
    · rw [hc] at hc'
      cases hc'
    · cases hp
  | inserted c job rest id row hc hopen hnew hfind hcalls hcreator =>
    exact h.inserted hc hopen hnew hfind hcalls hcreator
  | finished c id state rest hc hself hother hcalls hcreator =>
    exact h.finished hc hself hother hcalls hcreator

theorem jobStep_keepsEnded {seq : Option ℕ} (h : w.Sound)
    (hstep : jobStep w ev = some w') (hC : Orderly w ev w') (hended : w.EndedRow id state seq) :
    w'.EndedRow id state seq := by
  obtain ⟨row, hrow, hclosed, hstate, hseq⟩ := hended
  suffices hsame : w'.db.jobs.find id = some row from ⟨row, hsame, hclosed, hstate, hseq⟩
  cases jobStep_move hstep hC with
  | quiet hjobs hcalls hcreator => rw [hjobs, hrow]
  | called c jobs hidle hjobs hw | ended c job hc hw =>
    subst hw
    exact hrow
  | inserted c job rest id' row' hc hopen hnew hfind hcalls hcreator =>
    have hne : id' ≠ id := by
      rintro rfl
      rw [hnew] at hrow
      cases hrow
    rw [hfind, if_neg hne]
    exact hrow
  | finished c id' state' rest hc hself hother hcalls hcreator =>
    -- the row that is finished was open
    have hahead := h.ahead _ _ _ hc
    cases hahead with
    | last _ _ hopen =>
      obtain ⟨old, hold, hopen⟩ := hopen
      have hne : id ≠ id' := by
        rintro rfl
        rw [hrow] at hold
        cases hold
        rw [hclosed] at hopen
        cases hopen
      rw [hother id hne]
      exact hrow

/-! ### Runs -/

/-- **Jobs end, and end once.**  In every orderly run of a process, a row that the process inserted
is open only while the call that inserted it executes, and from then on a row that has ended keeps
its state and its number. -/
theorem jobs_end_once (db : Db τ) (before after : List (JobEvent τ)) (w w' : JobWorld τ)
    (hrun : run jobStep (.started db) before = some w)
    (hbefore : Along jobStep Orderly (.started db) before) (hrun' : run jobStep w after = some w')
    (hafter : Along jobStep Orderly w after) :
    (∀ id row c, w.db.jobs.find id = some row → w.creator id = some c → row.state.isOpen = true →
        w.Executing c) ∧
      ∀ id row, w.db.jobs.find id = some row → row.state.isOpen = false →
        ∃ row', w'.db.jobs.find id = some row' ∧ row'.state = row.state ∧
          row'.completionSeq = row.completionSeq := by
  have hsound : w.Sound := along_invariant
    (fun _ _ _ hs hstep hC => jobStep_sound hs hstep hC) (sound_started db) hbefore hrun
  refine ⟨fun id row c hrow hcreator hopen => ?_, fun id row hrow hclosed => ?_⟩
  · obtain ⟨state, hplace⟩ := hsound.opened id c hcreator ⟨row, hrow, hopen⟩
    exact ⟨_, _, hplace⟩
  · have hended : w.EndedRow id row.state row.completionSeq := ⟨row, hrow, hclosed, rfl, rfl⟩
    obtain ⟨-, row', hrow', -, hstate, hseq⟩ := along_invariant
      (I := fun v => v.Sound ∧ v.EndedRow id row.state row.completionSeq)
      (fun _ _ _ hs hstep hC => ⟨jobStep_sound hs.1 hstep hC,
        jobStep_keepsEnded hs.1 hstep hC hs.2⟩) ⟨hsound, hended⟩ hafter hrun'
    exact ⟨row', hrow', hstate, hseq⟩

end Steps

/-- Everything succeeds, but for one await. -/
def exceptFor (site : Site) (o : AwaitOutcome) : Oracle where
  await s := if s = site then o else .returned true
  tx _ := .done
  store _ := ⟨.stored, false⟩
  release _ := ⟨false, false, false⟩
  flag f := f = .admitted || f = .frozenMapping

def accept (c id : ℕ) (action : String) : JobEvent ℕ :=
  .intent c ⟨id, 1⟩ ⟨100 + id, 1⟩ "web:admin" action (some .minecraft)

def conclude (c id : ℕ) (action : String) (ok : Bool) : JobEvent ℕ :=
  .finish c 2 ⟨200 + id, 2⟩ "web:admin" action (some .minecraft) ⟨ok, none, "", none⟩

/-- A start that has finished, and a command that has not. -/
def finishedAndOpen : List (JobEvent ℕ) :=
  [.call 1 .start (exceptFor .startupEstimate (.returned true)), accept 1 40 "start",
    conclude 1 40 "start" true, .call 2 .command (exceptFor .sendCommand (.raised .timeout)),
    accept 2 41 "command"]

def bothEnded : List (JobEvent ℕ) := [.ended 1, conclude 2 41 "command" false, .ended 2]

/-- The command whose row is open executes, and the row of the start stays as it is when the command
finishes. -/
theorem jobs_end_once_two_calls :
    ∃ w w', run jobStep (.started (.new ℕ)) finishedAndOpen = some w ∧
      run jobStep w bothEnded = some w' ∧ w.Executing 2 ∧
      ∃ row, w'.db.jobs.find 40 = some row ∧ row.state = .succeeded ∧
        row.completionSeq = some 1 := by
  obtain ⟨w, w', row, row', hw, hw', hrow, hopen, hcreator, hrow', hclosed, hstate, hseq⟩ :
      ∃ w w' row row', run jobStep (.started (.new ℕ)) finishedAndOpen = some w ∧
        run jobStep w bothEnded = some w' ∧ w.db.jobs.find 41 = some row ∧
        row.state.isOpen = true ∧ w.creator 41 = some 2 ∧ w.db.jobs.find 40 = some row' ∧
        row'.state.isOpen = false ∧ row'.state = .succeeded ∧ row'.completionSeq = some 1 :=
    ⟨_, _, _, _, rfl, rfl, rfl, rfl, rfl, rfl, rfl, rfl, rfl⟩
  have hunlocks (site : Site) (o : AwaitOutcome) : (exceptFor site o).Unlocks := by
    intro tx e he
    cases he
  have hbefore : Along jobStep Orderly (.started (.new ℕ)) finishedAndOpen := by
    refine along_of_forall _ fun ev hev w w' => ?_
    simp only [finishedAndOpen, mem_cons, not_mem_nil, or_false] at hev
    rcases hev with rfl | rfl | rfl | rfl | rfl
    · exact ⟨hunlocks _ _, by decide⟩
    · trivial
    · trivial
    · exact ⟨hunlocks _ _, by decide⟩
    · trivial
  have hafter : Along jobStep Orderly w bothEnded := by
    refine along_of_forall _ fun ev hev w w' => ?_
    simp only [bothEnded, mem_cons, not_mem_nil, or_false] at hev
    rcases hev with rfl | rfl | rfl <;> trivial
  obtain ⟨hexecuting, hended⟩ := jobs_end_once (.new ℕ) _ _ w w' hw hbefore hw' hafter
  obtain ⟨last, hlast, hstate', hseq'⟩ := hended 40 row' hrow' hclosed
  exact ⟨w, w', hw, hw', hexecuting 41 row 2 hrow hcreator hopen, last, hlast,
    hstate'.trans hstate, hseq'.trans hseq⟩

/-- A start that is cancelled while the adapter starts the profile. -/
def cancelledStart : List (JobEvent ℕ) :=
  [.call 1 .start (exceptFor .adapterStart (.raised .cancelled)), accept 1 40 "start", .ended 1]

/-- A benchmark that is cancelled by `_cancel_benchmark`: its process ends, so its run raises. -/
def cancelledBenchmark : List (JobEvent ℕ) :=
  [.call 1 .benchmark (exceptFor .runBenchmark (.raised .other)), accept 1 40 "benchmark",
    .cancelBenchmark 7 40, .finishCancelled 7 2 ⟨340, 2⟩ "web:admin"]

def JobWorld.outcome {τ : Type} (w : JobWorld τ) (id : ℕ) : Option (JobState × Option ℕ) :=
  (w.db.jobs.find id).map fun row => (row.state, row.completionSeq)

/-- The start is over and its row is still accepted.  The row of the benchmark has ended with the
number 1, and its worker then ends it with the number 2. -/
theorem open_after_end_and_finished_twice :
    (∃ w, run jobStep (.started (.new ℕ)) cancelledStart = some w ∧
      w.outcome 40 = some (.accepted, none) ∧ w.creator 40 = some 1 ∧ w.calls 1 = .over) ∧
    ∃ w w', run jobStep (.started (.new ℕ)) cancelledBenchmark = some w ∧
      run jobStep w [conclude 1 40 "benchmark" false] = some w' ∧
      w.outcome 40 = some (.failed, some 1) ∧ w'.outcome 40 = some (.failed, some 2) := by
  refine ⟨⟨_, rfl, rfl, rfl, rfl⟩, ?_⟩
  exact ⟨_, _, rfl, rfl, rfl, rfl⟩

end Horizon
