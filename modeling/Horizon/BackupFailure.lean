/-
**What a failed backup leaves.**

`create` and `create_online` stage the files, write the archive under a partial name, check it, move
it to its place, insert its row and, if asked, send it to the remote store.  Two clauses clean up:
one for `SafeError`, one for the listed families; any other exception passes both, so that only the
staging directory is removed.  `sqlite3.Error`, which the insertion raises, is of no listed family.

Main results:

* `BackupFailure.cleans_up_iff` — **when row and archive agree after a call that raised.**.
-/

import Horizon.Coroutine
import Mathlib.Tactic

namespace Horizon.BackupFailure

open Coroutine (Coro)
open Coroutine.Coro

/-- A `SafeError`; an `OSError`, `SubprocessError`, `TarError` or `ValueError`; another
exception. -/
inductive Fault
  | safeError
  | listed
  | other
  deriving DecidableEq

/-- The steps that can raise; those without an effect in between stand under one name. -/
inductive Point
  /-- The snapshot of the roots; online also the calls that stop and resume the saves. -/
  | snapshot
  /-- The manifest and the list of files. -/
  | manifest
  | tar
  /-- Flushing and verifying the partial file, and the lease. -/
  | verify
  | rename
  /-- Flushing the directory, the size of the archive, and the lease. -/
  | settle
  | insert
  | commit
  /-- The lease before the remote phase. -/
  | lease
  | protect
  /-- The leases at the end. -/
  | last
  deriving DecidableEq

/-- How a call fails: the step that raises, what a `tar` that fails and a commit that fails leave,
and whether the remote store is the destination. -/
structure Attempt where
  point : Point
  fault : Fault
  tarLeaves : Bool
  commitKeeps : Bool
  remote : Bool

/-- The files of the backup, its row as the connection sees it, and the two flags. -/
structure Files where
  staging : Bool := true
  partialFile : Bool := false
  archive : Bool := false
  row : Bool := false
  catalogInserted : Bool := false
  remoteStarted : Bool := false
  deriving DecidableEq

variable (a : Attempt) (online : Bool)

/-- A step with its effect, and with what it leaves when it raises. -/
def step (p : Point) (effect : Files → Files) (residue : Files → Files := id) :
    Coro Files Fault Unit := fun s =>
  if a.point = p then (.error a.fault, residue s) else (.ok (), effect s)

/-- From `tar` to the end of the block. -/
def archive : Coro Files Fault Unit := do
  step a .tar ({ · with partialFile := true }) ({ · with partialFile := a.tarLeaves })
  step a .verify id
  step a .rename ({ · with partialFile := false, archive := true })
  step a .settle id
  step a .insert ({ · with row := true })
  step a .commit id ({ · with row := a.commitKeeps })
  modify ({ · with catalogInserted := true })
  if a.remote then
    step a .lease id
    modify ({ · with remoteStarted := true })
    step a .protect id
  step a .last id

/-- The two clauses, which differ in the exception that they raise. -/
def cleanUp : Fault → Coro Files Fault Unit
  | .other => raise .other
  | _ => do
    modify ({ · with partialFile := false })
    let s ← get
    if !s.remoteStarted then
      modify ({ · with archive := false })
      if s.catalogInserted then
        modify ({ · with row := false })
    raise .safeError

/-- In `create_online` every exception of the snapshot becomes a `SafeError`. -/
def quiesce : Coro Files Fault Unit := tryExcept (step a .snapshot id) fun _ => raise .safeError

/-- The block of `create`, or of `create_online`. -/
def block : Coro Files Fault Unit := do
  if online then quiesce a else step a .snapshot id
  step a .manifest id
  archive a

/-- `create`, or `create_online`, from its `try` on. -/
def create : Coro Files Fault Unit :=
  tryFinally (tryExcept (block a online) cleanUp) fun _ => modify ({ · with staging := false })

/-- There is a row exactly when there is an archive, and nothing else is left. -/
def Files.Consistent (s : Files) : Prop :=
  s.row = s.archive ∧ s.partialFile = false ∧ s.staging = false

instance (s : Files) : Decidable s.Consistent := inferInstanceAs (Decidable (_ ∧ _))

/-- If the call raises, what it leaves is consistent. -/
def CleansUp : Prop := ∀ e s, (create a online).run {} = (.error e, s) → s.Consistent

/-- A fault that a clause catches is covered unless a commit has failed and left its transaction
open; another one only where there is nothing yet or both the row and the archive. -/
def Covered : Prop :=
  match a.fault with
  | .other => a.point ∈ [.snapshot, .manifest, .lease, .protect, .last] ∨
      (a.point = .tar ∧ a.tarLeaves = false) ∨ (a.point = .commit ∧ a.commitKeeps = true)
  | _ => ¬ (a.point = .commit ∧ a.commitKeeps = true)

variable {a}

/-! ### The clauses -/

/-- What is left of `s` when the block has raised `e`. -/
def left (e : Fault) (s : Files) : Files := { ((cleanUp e).run s).2 with staging := false }

theorem create_raises {e : Fault} {s : Files} (h : (block a online).run {} = (.error e, s)) :
    ∃ e', (create a online).run {} = (.error e', left e s) := by
  rw [create, run_tryFinally, run_tryExcept, h]
  cases e with
  | other => exact ⟨_, rfl⟩
  | safeError | listed =>
    obtain ⟨_, _, _, _, inserted, started⟩ := s
    cases inserted <;> cases started <;> exact ⟨_, rfl⟩

theorem cleansUp_of_raises {e : Fault} {s : Files} (h : (block a online).run {} = (.error e, s)) :
    CleansUp a online ↔ (left e s).Consistent := by
  obtain ⟨e', hcreate⟩ := create_raises online h
  refine ⟨fun hclean => hclean e' _ hcreate, fun hleft e'' s' he => ?_⟩
  rw [hcreate] at he
  cases he
  exact hleft

/-- No clause catches it: what the block has done stays. -/
theorem consistent_other (s : Files) :
    (left .other s).Consistent ↔ s.row = s.archive ∧ s.partialFile = false :=
  ⟨fun h => ⟨h.1, h.2.1⟩, fun h => ⟨h.1, h.2, rfl⟩⟩

/-- A clause catches it: before the remote phase the archive goes, and the row if the flag says that
there is one. -/
theorem consistent_caught {e : Fault} (he : e ≠ .other) (s : Files) : (left e s).Consistent ↔
    if s.remoteStarted then s.row = s.archive else s.catalogInserted = false → s.row = false := by
  obtain ⟨_, _, _, _, inserted, started⟩ := s
  cases e with
  | other => exact absurd rfl he
  | safeError | listed =>
    cases started with
    | true => exact ⟨fun h => h.1, fun h => ⟨h, rfl, rfl⟩⟩
    | false =>
      cases inserted with
      | true => exact iff_of_true ⟨rfl, rfl, rfl⟩ nofun
      | false => exact ⟨fun h _ => h.1, fun h => ⟨h rfl, rfl, rfl⟩⟩

theorem cleansUp_of_returns {s : Files} (h : (block a online).run {} = (.ok (), s)) :
    CleansUp a online := by
  intro e s' he
  rw [create, run_tryFinally, run_tryExcept, h] at he
  cases he

/-! ### The phases -/

variable (a) in
/-- What the block has done when it raises. -/
def reached : Files :=
  match a.point with
  | .snapshot | .manifest => {}
  | .tar => { partialFile := a.tarLeaves }
  | .verify | .rename => { partialFile := true }
  | .settle | .insert => { archive := true }
  | .commit => { archive := true, row := a.commitKeeps }
  | .lease => { archive := true, row := true, catalogInserted := true }
  | .protect => { archive := true, row := true, catalogInserted := true, remoteStarted := true }
  | .last => { archive := true, row := true, catalogInserted := true, remoteStarted := a.remote }

variable (a) in
/-- What the block raises. -/
def raised : Fault := if online ∧ a.point = .snapshot then .safeError else a.fault

theorem block_raises (h : a.point ∈ [.lease, .protect] → a.remote = true) :
    (block a online).run {} = (.error (raised a online), reached a) := by
  obtain ⟨p, e, leaves, keeps, remote⟩ := a
  cases p with
  | lease | protect =>
    cases h (by simp)
    cases online <;> rfl
  | last => cases remote <;> cases online <;> rfl
  | _ => cases online <;> rfl

section Phases

variable {e : Fault} {s : Files} (h : (block a online).run {} = (.error e, s))

include h

/-- Before the rename there is neither a row nor an archive: only the partial file can be left. -/
theorem cleansUp_before_rename (hrow : s.row = false) (harchive : s.archive = false) :
    CleansUp a online ↔ (e = .other → s.partialFile = false) := by
  rw [cleansUp_of_raises online h]
  by_cases he : e = .other
  · rw [he, consistent_other, hrow, harchive]
    simp
  · rw [consistent_caught he, hrow, harchive]
    simp [he]

/-- Before the insertion is recorded the clauses remove the archive and leave a row: the two agree
if a clause runs and there is no row, or none runs and there is one. -/
theorem cleansUp_before_insertion (harchive : s.archive = true) (hpart : s.partialFile = false)
    (hinserted : s.catalogInserted = false) (hstarted : s.remoteStarted = false) :
    CleansUp a online ↔ (e = .other ↔ s.row = true) := by
  rw [cleansUp_of_raises online h]
  by_cases he : e = .other
  · rw [he, consistent_other, harchive, hpart]
    simp
  · rw [consistent_caught he, hinserted, hstarted]
    simp [he]

/-- After the insertion the clauses remove both the row and the archive, or neither. -/
theorem cleansUp_after_insertion (hrow : s.row = true) (harchive : s.archive = true)
    (hpart : s.partialFile = false) (hinserted : s.catalogInserted = true) :
    CleansUp a online := by
  rw [cleansUp_of_raises online h]
  by_cases he : e = .other
  · rw [he, consistent_other, hrow, harchive, hpart]
    simp
  · rw [consistent_caught he, hrow, harchive, hinserted]
    simp

end Phases

/-- **When row and archive agree after a call that raised.** -/
theorem cleans_up_iff (a : Attempt) (online : Bool) : CleansUp a online ↔ Covered a := by
  obtain ⟨p, e, leaves, keeps, remote⟩ := a
  cases p with
  | snapshot | manifest | tar | verify | rename =>
    rw [cleansUp_before_rename online (block_raises online (by simp)) rfl rfl]
    cases e <;> simp [Covered, raised, reached]
  | settle | insert | commit =>
    rw [cleansUp_before_insertion online (block_raises online (by simp)) rfl rfl rfl rfl]
    cases e <;> simp [Covered, raised, reached]
  | lease | protect =>
    refine iff_of_true ?_ (by cases e <;> simp [Covered])
    cases remote with
    | true =>
      exact cleansUp_after_insertion online (block_raises online fun _ => rfl) rfl rfl rfl rfl
    | false =>
      -- for a local destination the step is not reached
      refine cleansUp_of_returns online
        (s := { archive := true, row := true, catalogInserted := true }) ?_
      cases online <;> rfl
  | last =>
    refine iff_of_true ?_ (by cases e <;> simp [Covered])
    exact cleansUp_after_insertion online (block_raises online (by simp)) rfl rfl rfl rfl

/-- The insertion raises `sqlite3.Error`: the archive is in place and has no row. -/
theorem archive_without_row :
    (create ⟨.insert, .other, false, false, false⟩ false).run {} =
        (.error .other, { staging := false, archive := true }) ∧
      ¬ CleansUp ⟨.insert, .other, false, false, false⟩ false := by
  refine ⟨rfl, fun h => ?_⟩
  have hrow := (h _ _ rfl).1
  cases hrow

end Horizon.BackupFailure
