/-
**One active retirement per payload.**

`ledger_write` looks for other operations only when it writes the first row of an operation for a
payload.  A row that was rolled back can become `prepared` again without that look, so an operation
that was given back and is quarantined once more can meet one that has taken the payload since.

The rest of the ledger keeps the operations apart: if no quarantine call finds a row of its own that
is rolled back, for a payload that another operation holds, then no payload is ever held by two.

Main results:

* `one_active_retirement` — **runs that meet the condition**;
* `two_active_retirements` — a run that does not.
-/

import Horizon.PayloadSafety

namespace Horizon.Retirement

open List
open PayloadState (blockingStates)

/-- The operation has a row for the payload in a blocking state. -/
def ActiveUnder (l : Ledger) (op : OperationId) (id : BackupId) : Prop :=
  ∃ state, l.stateOf op id = some state ∧ state ∈ blockingStates

def OneActive (w : PayloadStore) : Prop :=
  ∀ id op op', ActiveUnder w.ledger op id → ActiveUnder w.ledger op' id → op = op'

/-- No payload that the operation has rolled back is held by another one. -/
def Ungrabbed (op : OperationId) (w : PayloadStore) : Prop :=
  ∀ id, w.ledger.stateOf op id = some .rolledBack → ∀ op', op' ≠ op → ¬ ActiveUnder w.ledger op' id

/-- The condition on a call: a quarantine finds its own rolled-back payloads free. -/
def Unclaimed (c : RetirementCall) (w : PayloadStore) : Prop :=
  c.phase = .quarantine → Ungrabbed c.operationId w

/-! ### One ledger write -/

section Write

variable {l : Ledger} {row : LedgerRow} {op : OperationId} {id : BackupId}

theorem activeUnder_upsert (h : ActiveUnder (l.upsert row) op id) :
    ((op, id) = row.key ∧ row.state ∈ blockingStates) ∨
      ((op, id) ≠ row.key ∧ ActiveUnder l op id) := by
  obtain ⟨state, hstate, hblocking⟩ := h
  rw [Ledger.stateOf_upsert] at hstate
  by_cases hkey : (op, id) = row.key
  · rw [if_pos hkey] at hstate
    cases hstate
    exact .inl ⟨hkey, hblocking⟩
  · rw [if_neg hkey] at hstate
    exact .inr ⟨hkey, state, hstate, hblocking⟩

theorem not_active_of_unheld (h : l.heldByAnother row = false) (hop : op ≠ row.operationId) :
    ¬ ActiveUnder l op row.backupId := by
  rintro ⟨state, hstate, hblocking⟩
  obtain ⟨r, hr, hid, rfl⟩ := Ledger.stateOf_eq_some hstate
  obtain ⟨hmem, hrop⟩ := mem_filter.mp hr
  have hrow := any_eq_false.mp h r hmem
  simp only [decide_eq_true_eq, not_and] at hrow hrop
  exact hrow hid (hrop ▸ hop) hblocking

/-- **What one ledger write does**: two operations can meet only when a rolled-back row is taken
up again. -/
theorem oneActive_upsert {w : PayloadStore} (hw : OneActive w) (hadmits : w.ledger.Admits row)
    (hagain : row.state ∈ blockingStates →
      w.ledger.stateOf row.operationId row.backupId = some .rolledBack →
      ∀ op', op' ≠ row.operationId → ¬ ActiveUnder w.ledger op' row.backupId) :
    OneActive ⟨w.files, w.ledger.upsert row⟩ := by
  -- nobody else holds the payload of the row, if the row becomes blocking
  have hother (hblocking : row.state ∈ blockingStates) (op' : OperationId)
      (hop : op' ≠ row.operationId) : ¬ ActiveUnder w.ledger op' row.backupId := by
    cases hfind : w.ledger.find row.key with
    | none =>
      simp only [Ledger.Admits, hfind] at hadmits
      exact not_active_of_unheld hadmits hop
    | some current =>
      have hstate : w.ledger.stateOf row.operationId row.backupId = some current.state :=
        Option.map_eq_some_iff.mpr ⟨current, hfind, rfl⟩
      by_cases hcurrent : current.state ∈ blockingStates
      · intro hactive
        exact hop (hw _ _ _ hactive ⟨current.state, hstate, hcurrent⟩)
      · have hrolled : current.state = .rolledBack := by
          revert hcurrent
          cases current.state <;> decide
        rw [hrolled] at hstate
        exact hagain hblocking hstate op' hop
  intro id op op' h h'
  rcases activeUnder_upsert h with ⟨hkey, hblocking⟩ | ⟨hkey, hactive⟩ <;>
    rcases activeUnder_upsert h' with ⟨hkey', hblocking'⟩ | ⟨hkey', hactive'⟩
  · exact (congrArg Prod.fst hkey).trans (congrArg Prod.fst hkey').symm
  · obtain ⟨rfl, rfl⟩ := Prod.mk.inj hkey
    by_contra hne
    exact hother hblocking op' (Ne.symm hne) hactive'
  · obtain ⟨rfl, rfl⟩ := Prod.mk.inj hkey'
    by_contra hne
    exact hother hblocking' op hne hactive
  · exact hw id op op' hactive hactive'

/-! ### The three calls -/

variable {svc : RetirementService} {ω : Oracle} {m : RetirementManifest} {item : PlanEntry}
  {X : PayloadStore → Prop} (prior : List (OperationId × BackupId)) (operationId : OperationId)
  (ownJob : Option ℕ)

/-- A state that no rolled-back row goes to, or one that does not block. -/
theorem record_oneActive {state : PayloadState} (hstate : state ≠ .prepared ∧ state ≠ .failed) :
    Safely OneActive X (record ω m item state) fun _ _ => True := by
  refine .record fun now w hw _ hadmits => ⟨oneActive_upsert hw hadmits ?_, trivial⟩
  intro hblocking hrolled
  obtain ⟨current, hfind, hcurrent⟩ := Option.map_eq_some_iff.mp hrolled
  have hfind' : w.ledger.find (rowOf m item state none now).key = some current := hfind
  simp only [Ledger.Admits, hfind', hcurrent] at hadmits
  have htransition : state ∈ PayloadState.rolledBack.transitions := hadmits.2
  have hblocks : state ∈ blockingStates := hblocking
  exfalso
  revert hstate htransition hblocks
  cases state <;> decide

theorem rename_oneActive {source target : Path} :
    Safely OneActive X (renameNoreplace ω source target) fun _ _ => True :=
  Safely.rename fun _ _ _ hw _ _ => ⟨hw, trivial⟩

/-- The first loop of `quarantine` takes up rolled-back rows; they are free. -/
theorem prepareItem_oneActive : Safely OneActive (Ungrabbed m.operationId) (prepareItem ω m item)
    fun _ => Ungrabbed m.operationId := by
  refine .look fun state => .ite (fun _ => ?_) fun _ => ?_
  · refine .look fun _ => ?_
    refine .record fun now w hw hfree hadmits => ⟨?_, ?_⟩
    · exact oneActive_upsert hw hadmits fun _ hrolled => hfree _ hrolled
    · -- the row that is written is no longer rolled back, and the others are as they were
      intro id hrolled op' hop hactive
      rw [Ledger.stateOf_upsert] at hrolled
      by_cases hkey : (m.operationId, id) = (rowOf m item .prepared none now).key
      · rw [if_pos hkey] at hrolled
        cases hrolled
      · rw [if_neg hkey] at hrolled
        rcases activeUnder_upsert hactive with ⟨hkey', -⟩ | ⟨-, hactive'⟩
        · exact hop (congrArg Prod.fst hkey')
        · exact hfree id hrolled op' hop hactive'
  · exact .pure fun _ _ h => h

theorem quarantineItem_oneActive :
    Safely OneActive (fun _ => True) (quarantineItem ω m prior item) fun _ _ => True := by
  exact .quarantineItem (record_oneActive (by decide)) rename_oneActive

/-- Under the condition `Ungrabbed`, as far as the call gets. -/
theorem quarantine_oneActive :
    Safely OneActive (Ungrabbed operationId) (quarantine svc ω operationId ownJob)
      fun _ _ => True := by
  refine .quarantine (fun m _ _ => reads_assertPreflight svc ω m _ _)
    (B := fun _ _ _ => True) (fun m items _ hop _ => ?_) fun m items prior _ _ _ =>
      .forM (fun _ _ => True) items fun _ _ _ _ => quarantineItem_oneActive prior
  subst hop
  have hloop := Safely.forM (fun _ => Ungrabbed m.operationId) (f := prepareItem ω m) items
    fun _ _ _ _ => prepareItem_oneActive
  exact hloop.post fun _ _ _ => trivial

theorem purge_oneActive :
    Safely OneActive (fun _ => True) (purge svc ω operationId ownJob) fun _ _ => True := by
  refine .purge (fun m item => record_oneActive (by decide)) fun m item => ?_
  exact .purgeItem (record_oneActive (by decide)) (.unlink fun _ _ hw _ _ => ⟨hw, trivial⟩)

theorem rollbackItem_oneActive :
    Safely OneActive (fun _ => True) (rollbackItem ω m prior item) fun _ _ => True := by
  refine .rollbackItem rename_oneActive (record_oneActive (by decide)) fun state hstate => ?_
  refine .record fun now w hw hX hadmits =>
    ⟨oneActive_upsert hw hadmits fun _ hrolled => ?_, trivial⟩
  have hsame : some PayloadState.rolledBack = state := hrolled.symm.trans hX.2
  subst hsame
  rcases hstate with h | h <;> cases h

theorem rollback_oneActive :
    Safely OneActive (fun _ => True) (rollback svc ω operationId ownJob) fun _ _ => True := by
  exact .rollback fun m items prior _ _ _ => .rollbackItems (X := fun _ _ => True) items
    fun _ item _ _ => rollbackItem_oneActive prior

end Write

/-! ### Runs -/

theorem run_oneActive {svc : RetirementService} {c : RetirementCall} {w : PayloadStore}
    (hw : OneActive w) (hc : Unclaimed c w) : OneActive (c.run svc w).2 := by
  obtain ⟨phase, operationId, ownJob, ω⟩ := c
  cases phase with
  | quarantine => exact (quarantine_oneActive operationId ownJob).ended hw (hc rfl)
  | purge => exact (purge_oneActive operationId ownJob).ended hw trivial
  | rollback => exact (rollback_oneActive operationId ownJob).ended hw trivial

/-- **One active retirement per payload**, in every run whose calls all meet the condition, and
wherever each of them is stopped. -/
theorem one_active_retirement (svc : RetirementService) (w : PayloadStore) (hw : OneActive w)
    (calls : List RetirementCall)
    (hcalls : ∀ before c after, calls = before ++ c :: after → Unclaimed c (svc.runAll before w)) :
    OneActive (svc.runAll calls w) := by
  induction calls generalizing w with
  | nil => exact hw
  | cons c calls ih =>
    refine ih (c.run svc w).2 (run_oneActive hw (hcalls [] c calls rfl)) ?_
    intro before d after hsplit
    exact hcalls (c :: before) d after (by rw [hsplit, cons_append])

/-- `A` takes the payload and gives it back, then `B`, and then `A` takes it again. -/
def alternatingCalls : List RetirementCall :=
  [⟨.quarantine, "A", none, uninterrupted⟩, ⟨.rollback, "A", none, uninterrupted⟩,
    ⟨.quarantine, "B", none, uninterrupted⟩, ⟨.rollback, "B", none, uninterrupted⟩,
    ⟨.quarantine, "A", none, uninterrupted⟩]

theorem alternatingCalls_free {before after : List RetirementCall} {c : RetirementCall}
    (h : alternatingCalls = before ++ c :: after) (hphase : c.phase = .quarantine) :
    ∀ r ∈ (sampleService.runAll before sampleStore).ledger.rows, r.state ∉ blockingStates := by
  have hbefore : before = alternatingCalls.take before.length := by simp [h]
  have hc : alternatingCalls[before.length]? = some c := by simp [h]
  have hlength : before.length < 5 := (List.getElem?_eq_some_iff.1 hc).1
  rw [hbefore]
  -- the calls before a quarantine leave no row in a blocking state
  have hrollback (operationId : OperationId)
      (hc : some (RetirementCall.mk .rollback operationId none uninterrupted) = some c) :
      False := by
    cases hc
    cases hphase
  interval_cases before.length
  · decide
  · exact (hrollback "A" hc).elim
  · decide
  · exact (hrollback "B" hc).elim
  · decide

theorem one_active_retirement_alternating :
    OneActive sampleStore ∧
      (sampleService.runAll alternatingCalls sampleStore).ledger.stateOf "A" "b1" =
        some .quarantined ∧
      (sampleService.runAll alternatingCalls sampleStore).ledger.stateOf "B" "b1" =
        some .rolledBack ∧
      OneActive (sampleService.runAll alternatingCalls sampleStore) := by
  have hempty : OneActive sampleStore := by
    rintro id op op' ⟨state, hstate, -⟩
    cases hstate
  refine ⟨hempty, by rfl, by rfl, one_active_retirement sampleService sampleStore hempty _ ?_⟩
  rintro before c after hsplit hphase id - op' - ⟨state, hstate, hblocking⟩
  obtain ⟨r, hr, -, rfl⟩ := Ledger.stateOf_eq_some hstate
  exact alternatingCalls_free hsplit hphase r (mem_filter.mp hr).1 hblocking

/-- `B` takes the payload after `A` has given it back, and is stopped before the rename; `A` is
quarantined again. -/
def overlappingCalls : List RetirementCall :=
  [⟨.quarantine, "A", none, uninterrupted⟩, ⟨.rollback, "A", none, uninterrupted⟩,
    ⟨.quarantine, "B", none, stoppedAfter 21⟩, ⟨.quarantine, "A", none, uninterrupted⟩]

/-- Two operations hold one payload. -/
theorem two_active_retirements :
    sampleStore.ledger.rows = [] ∧
      (sampleService.runAll overlappingCalls sampleStore).ledger.stateOf "A" "b1" =
        some .quarantined ∧
      (sampleService.runAll overlappingCalls sampleStore).ledger.stateOf "B" "b1" =
        some .prepared ∧
      ¬ OneActive (sampleService.runAll overlappingCalls sampleStore) := by
  have hA : (sampleService.runAll overlappingCalls sampleStore).ledger.stateOf "A" "b1" =
      some .quarantined := by rfl
  have hB : (sampleService.runAll overlappingCalls sampleStore).ledger.stateOf "B" "b1" =
      some .prepared := by rfl
  refine ⟨rfl, hA, hB, fun hone => ?_⟩
  have hsame : "A" = "B" := hone "b1" "A" "B" ⟨_, hA, by decide⟩ ⟨_, hB, by decide⟩
  exact absurd hsame (by decide)

end Horizon.Retirement
