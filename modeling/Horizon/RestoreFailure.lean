/-
**A failed restore and the data that comes after it.**

A restore that raises while it displaces or publishes puts the roots back in the same process and
leaves its journal behind.  The journal is looked at again by every later reconciliation, whatever
the profile has written in the meantime.  Of a root that was there before the restore the journal
only names a rollback directory, which is not there any more; a root that was absent is removed.

Main results:

* `Restore.failed_restore_harmless` — **later data is safe if all roots were there**.
-/

import Horizon.RestoreAtomic

namespace Horizon.Restore

open List
open Coroutine (forall_mem_concat)
open FileTree (Path)

/-! ### What happens after the failure -/

/-- The renames of the restore have been undone: every root is as it was, and no rollback directory
is left. -/
def Undone (s : Service) (a : Archive) (names : Names) (origin d : Disk) : Prop :=
  ∀ root ∈ s.approved, d.tree.get root = origin.tree.get root ∧
    d.tree.get (root.dropLast ++ [names.drawn (a.rootId s root) .rollback]) = none

/-- The profile writes below a root, or the service is started again. -/
inductive Afterwards
  | changed (root : Path) (x : Option Tree)
  | reconciled (ω : Oracle)

def Afterwards.Approved (s : Service) : Afterwards → Prop
  | changed root _ => root ∈ s.approved
  | reconciled _ => True

def Afterwards.perform (s : Service) (d : Disk) : Afterwards → Disk
  | changed root x => d.put root x
  | reconciled ω => ((reconcile s ω).run (State.start d)).2.disk

def afterwards (s : Service) (events : List Afterwards) (d : Disk) : Disk :=
  events.foldl (Afterwards.perform s) d

/-! ### The journals of a restore -/

namespace Plan

/-- The variables and the journals are about the targets. -/
structure Noted (p : Plan) (d : Disk) (l : Locals) : Prop where
  base : p.Base d
  journals : ∀ e ∈ d.journals, e.2 ∈ d.written
  proper : p.Proper l
  displaced : ∀ t ∈ l.displaced, t ∈ p.targets
  activated : ∀ t ∈ l.activated, t ∈ p.targets
  rollbacks : ∀ q ∈ l.rollbacks, q = none ∨ ∃ t ∈ p.targets, q = some (p.names.rollbackPath t)

variable {p : Plan} {d : Disk} {l : Locals} {t : Target}

theorem Noted.put (h : p.Noted d l) (ht : t ∈ p.targets) (k : Slot)
    (x : Option Tree) : p.Noted (d.put (slotPath p.names t k) x) l :=
  ⟨h.base.put ht k x, h.journals, h.proper, h.displaced, h.activated, h.rollbacks⟩

theorem Noted.move (h : p.Noted d l) (ht : t ∈ p.targets) (k j : Slot) :
    p.Noted (d.move (slotPath p.names t k) (slotPath p.names t j)) l :=
  ⟨h.base.move ht k j, h.journals, h.proper, h.displaced, h.activated, h.rollbacks⟩

theorem journals_setJournal (h : ∀ e ∈ d.journals, e.2 ∈ d.written) (id : ℕ) (r : Record) :
    ∀ e ∈ (d.setJournal id r).journals, e.2 ∈ (d.setJournal id r).written := by
  intro e he
  simp only [Disk.setJournal, mem_cons, mem_filter, mem_append] at he ⊢
  rcases he with rfl | ⟨hold, -⟩
  · exact .inr (.inl rfl)
  · exact .inl (h e hold)

theorem Noted.setJournal (h : p.Noted d l) (id : ℕ) {r : Record} (hr : p.Logs r) :
    p.Noted (d.setJournal id r) l :=
  ⟨h.base.setJournal hr, journals_setJournal h.journals id r, h.proper, h.displaced, h.activated,
    h.rollbacks⟩

theorem Noted.unlinkJournal (h : p.Noted d l) (id : ℕ) : p.Noted (d.unlinkJournal id) l := by
  refine ⟨h.base.unlinkJournal id, ?_, h.proper, h.displaced, h.activated, h.rollbacks⟩
  intro e he
  exact h.journals e (mem_filter.1 he).1

theorem Noted.fill (h : p.Noted d l) (contents : String → List (String × Tree)) :
    p.Noted (fill p.names contents p.targets d) l := by
  refine ⟨h.base.fill contents, ?_, h.proper, h.displaced, h.activated, h.rollbacks⟩
  rw [fill_journals, fill_written]
  exact h.journals

end Plan

/-- The call keeps what is known of the variables and the journals. -/
def Notes {α : Type} (p : Plan) (c : Proc α) : Prop := Leads p.Noted c (fun _ => p.Noted) p.Noted

section Notes

variable {p : Plan} (ω : Oracle) {t : Target} (s : Service)

theorem notes_forM {β : Type} (list : List β) {f : β → Proc PUnit} (h : ∀ b ∈ list, Notes p (f b)) :
    Notes p (list.forM f) :=
  .forM (fun _ => p.Noted) list fun _ b _ hl => h b (by simp [hl])

theorem notes_touch : Notes p (touch ω) := .touch fun _ _ h => h

theorem notes_assure (code message : String) : Notes p (assure ω code message) :=
  .assure fun _ _ h => h

theorem notes_removeIfExists (ht : t ∈ p.targets) (k : Slot) :
    Notes p (removeIfExists ω (slotPath p.names t k)) :=
  .removeIfExists (fun _ _ h => h) (fun _ _ x h _ => h.put ht k x)
    (fun _ _ h _ => h.put ht k none) fun _ _ h _ => h

theorem notes_writeJournal (phase : Phase) :
    Notes p (writeJournal ω p.archive p.names p.targets phase) :=
  writeJournal_judged nofun _ _ _ _ (fun _ _ _ h => h) fun _ _ h =>
    h.setJournal _ (Plan.logs_record h.proper)

theorem notes_makeStaging (ht : t ∈ p.targets) : Notes p (makeStaging ω p.names t) := by
  refine .step (fun _ _ h => h) (fun _ _ _ h => h) fun m d l a d' h he => ?_
  split at he <;> cases he
  exact h.put ht .staging _

theorem notes_extract : Notes p (extract ω p.archive p.names p.targets) := by
  refine .seq p.Noted ?_ fun _ =>
    .post (.raiseIf fun _ _ h => h) fun _ _ _ h => h.2
  refine .step (fun _ _ h => h) (fun m d l h => h.fill m.part) fun m d l a d' h he => ?_
  cases he
  exact h.fill _

theorem notes_sealStaging (t : Target) : Notes p (sealStaging ω t) :=
  (notes_touch ω).next ((notes_touch ω).next (.guard fun _ _ h => h))

theorem notes_displace (ht : t ∈ p.targets) :
    Notes p (displace ω p.archive p.names p.targets t) := by
  have hset : ∀ (x : Option Path), (x = none ∨ x = some (p.names.rollbackPath t)) →
      ∀ d l, p.Noted d l → p.Noted d (Plan.setRollback t x l) := by
    intro x hx d l h
    exact ⟨h.base, h.journals, Plan.proper_setRollback h.proper ht hx, h.displaced, h.activated,
      h.rollbacks⟩
  refine .seq p.Noted (.assign (hset _ (.inr rfl))) fun _ => ?_
  refine (notes_writeJournal ω .displacing).next ?_
  refine .next (.assertLease fun _ _ h => h) ?_
  refine .seq p.Noted ?_ fun _ => ?_
  · refine .seq p.Noted (.look fun _ _ h => h) fun present => ?_
    refine .ite (fun _ => ?_) fun _ => .assign (hset none (.inl rfl))
    exact .replace (fun _ _ h => h) fun d l h => h.move ht .root .rollback
  refine .seq p.Noted (.assign fun d l h => ?_) fun _ => ?_
  · exact ⟨h.base, h.journals, h.proper, forall_mem_concat h.displaced ht, h.activated,
      forall_mem_concat h.rollbacks ((h.proper t ht).imp id fun hpath => ⟨t, ht, hpath⟩)⟩
  refine .seq p.Noted ?_ fun _ => notes_writeJournal ω .displacing
  refine .seq p.Noted (.currentLocals fun _ _ h => h) fun l => ?_
  exact .ite (fun _ => notes_touch ω) fun _ => .pure same

theorem notes_publish (ht : t ∈ p.targets) : Notes p (publish ω p.archive p.names p.targets t) := by
  refine (notes_writeJournal ω .publishing).next ?_
  refine .next (.assertLease fun _ _ h => h) ?_
  refine .seq p.Noted (.replace (fun _ _ h => h) fun d l h => h.move ht .staging .root) fun _ => ?_
  refine .seq p.Noted (.assign fun d l h => ?_) fun _ => ?_
  · exact ⟨h.base, h.journals, h.proper, h.displaced, forall_mem_concat h.activated ht, h.rollbacks⟩
  exact (notes_touch ω).next (notes_writeJournal ω .publishing)

theorem notes_undoActivated (ht : t ∈ p.targets) : Notes p (undoActivated ω t) := by
  refine .seq p.Noted (.look fun _ _ h => h) fun present => ?_
  refine .ite (fun _ => ?_) fun _ => .pure same
  refine .seq p.Noted ?_ fun _ => notes_touch ω
  exact .rmtree (fun _ _ h => h) (fun _ _ x h => h.put ht .root x) fun _ _ h => h.put ht .root none

theorem notes_undoDisplaced (ht : t ∈ p.targets) : Notes p (undoDisplaced ω t) := by
  refine .bind (Q := fun l' d l => p.Proper l' ∧ p.Noted d l)
    (.currentLocals fun d l h => ⟨h.proper, h⟩) fun l' => .given fun hl => ?_
  rcases hl t ht with hnone | hsome
  · rw [hnone]
    exact .pure same
  · rw [hsome]
    refine .seq p.Noted (.look fun _ _ h => h) fun present => ?_
    refine .ite (fun _ => ?_) fun _ => .pure same
    refine .seq p.Noted ?_ fun _ => notes_touch ω
    exact .replace (fun _ _ h => h) fun d l h => h.move ht .rollback .root

theorem notes_undo : Notes p (undo ω) := by
  refine .bind (Q := fun l' d l => ((∀ t ∈ l'.activated, t ∈ p.targets) ∧
    ∀ t ∈ l'.displaced, t ∈ p.targets) ∧ p.Noted d l)
    (.currentLocals fun d l h => ⟨⟨h.activated, h.displaced⟩, h⟩) fun l' =>
    .given fun hl => ?_
  refine .next (notes_forM l'.activated fun t ht => notes_undoActivated ω (hl.1 t ht)) ?_
  exact notes_forM l'.displaced fun t ht => notes_undoDisplaced ω (hl.2 t ht)

theorem notes_removeStagings : Notes p (removeStagings ω p.names p.targets) := by
  refine notes_forM p.targets fun t ht => ?_
  exact .removeIgnoringErrors fun d l x h _ => h.put ht .staging x

theorem notes_finalize {result : Result} (hresult : ∀ q ∈ result.rollbacks, q = none ∨
    ∃ t ∈ p.targets, q = some (p.names.rollbackPath t)) : Notes p (finalize ω result) := by
  refine .seq p.Noted ?_ fun _ => ?_
  · refine .bind (Q := fun record d l => (∀ r, record = some r → p.Logs r) ∧ p.Noted d l)
      (.look fun d l h => ⟨fun r hr => ?_, h⟩) fun record => .given fun hrecord => ?_
    · obtain ⟨e, he, rfl⟩ := Option.map_eq_some_iff.1 hr
      exact h.base.written _ (h.journals e (mem_of_find?_eq_some he))
    · cases record with
      | none => exact .raise same
      | some r =>
        refine .write (fun _ _ h => h) fun d l h => ?_
        exact h.setJournal _ (hrecord r rfl)
  refine .next (notes_forM result.rollbacks fun q hq => ?_) ?_
  · rcases hresult q hq with rfl | ⟨t, ht, rfl⟩
    · exact .pure same
    · exact (notes_removeIfExists ω ht .rollback).next (notes_touch ω)
  · refine .seq p.Noted ?_ fun _ => notes_touch ω
    exact .write (fun _ _ h => h) fun d l h => h.unlinkJournal _

theorem notes_stageAndPublish : Notes p (stageAndPublish s ω p.archive p.names p.targets) := by
  refine (notes_extract ω).next ?_
  refine (notes_forM p.targets fun t _ => notes_sealStaging ω t).next ?_
  refine .seq p.Noted (.tryExcept (E := p.Noted) ?_ fun e => ?_) fun _ => ?_
  · refine (notes_forM p.targets fun t ht => notes_displace ω ht).next ?_
    refine (notes_writeJournal ω .displaced).next ?_
    exact notes_forM p.targets fun t ht => notes_publish ω ht
  · exact (notes_undo ω).next (.raise same)
  refine .bind (Q := fun l' d l => (∀ q ∈ l'.rollbacks, q = none ∨ ∃ t ∈ p.targets,
    q = some (p.names.rollbackPath t)) ∧ p.Noted d l)
    (.currentLocals fun d l h => ⟨h.rollbacks, h⟩) fun l' => .given fun hl => ?_
  refine (notes_writeJournal ω .activated).next ?_
  refine .seq p.Noted ?_ fun _ => .pure same
  refine .seq p.Noted (.look fun _ _ h => h) fun healthy => ?_
  exact .ite (fun _ => notes_finalize ω hl) fun _ => .pure same

theorem notes_restoreTargets : Notes p (restoreTargets s ω p.archive p.names p.targets) := by
  refine (notes_assure ω _ _).next ((notes_assure ω _ _).next ?_)
  refine (notes_forM p.targets fun t ht => notes_makeStaging ω ht).next ?_
  refine (notes_writeJournal ω .staged).next ((notes_touch ω).next ?_)
  refine .tryFinally (R := fun _ => p.Noted) ?_
    (fun _ => notes_removeStagings ω) (notes_removeStagings ω)
  refine .tryExcept (notes_stageAndPublish ω s) fun e => ?_
  cases e with
  | killed | error => exact .raise same
  | safe code message =>
    exact (notes_removeStagings ω).next (.raise same)

end Notes

/-! ### Harmless journals -/

/-- The journals are about targets that were all there, and no rollback directory is left. -/
structure Plan.Harmless (p : Plan) (d : Disk) : Prop where
  base : p.Base d
  journals : ∀ e ∈ d.journals, e.2 ∈ d.written
  rollback : ∀ t ∈ p.targets, p.found d t .rollback = none

namespace Plan

variable {p : Plan} {d : Disk} {t : Target}

theorem Harmless.put (h : p.Harmless d) (ht : t ∈ p.targets) {k : Slot}
    (hk : k ≠ .rollback) (x : Option Tree) : p.Harmless (d.put (slotPath p.names t k) x) := by
  refine ⟨h.base.put ht k x, h.journals, ?_⟩
  intro u hu
  exact (slot_put_other p.separate ht hu _ (.inr hk) x).trans (h.rollback u hu)

/-- Every root has the tree that it had in `d₀`. -/
def SameRoots (p : Plan) (d₀ d : Disk) : Prop :=
  ∀ t ∈ p.targets, p.found d t .root = p.found d₀ t .root

theorem SameRoots.put {d₀ : Disk} (h : p.SameRoots d₀ d) (ht : t ∈ p.targets) {k : Slot}
    (hk : k ≠ .root) (x : Option Tree) : p.SameRoots d₀ (d.put (slotPath p.names t k) x) := by
  intro u hu
  exact (slot_put_other p.separate ht hu _ (.inr hk) x).trans (h u hu)

end Plan

def Spares {α : Type} (p : Plan) (d₀ : Disk) (c : Proc α) : Prop :=
  Leads (fun d _ => p.Harmless d ∧ p.SameRoots d₀ d) c
    (fun _ d _ => p.Harmless d ∧ p.SameRoots d₀ d) fun d _ => p.Harmless d ∧ p.SameRoots d₀ d

abbrev Plan.Spared (p : Plan) (d₀ : Disk) : Fact := fun d _ => p.Harmless d ∧ p.SameRoots d₀ d

section Spares

variable {p : Plan} {d₀ : Disk} (ω : Oracle) {t : Target} {l : Locals} (s : Service)

theorem spares_touch : Spares p d₀ (touch ω) := .touch fun _ _ h => h

variable (ht : t ∈ p.targets)
include ht

theorem spares_cleanStaging (l : Locals) : Spares p d₀ (cleanStaging ω (t.item p.names l)) := by
  have hput : ∀ (d : Disk) (x : Option Tree), p.Harmless d ∧ p.SameRoots d₀ d →
      p.Harmless (d.put (p.names.stagingPath t) x) ∧
        p.SameRoots d₀ (d.put (p.names.stagingPath t) x) := by
    intro d x h
    exact ⟨h.1.put ht (k := .staging) (by decide) x, h.2.put ht (k := .staging) (by decide) x⟩
  exact .removeIfExists (fun _ _ h => h) (fun d _ x h _ => hput d x h)
    (fun d _ h _ => hput d none h) fun _ _ h _ => h

theorem exists_rollback {d : Disk} (h : p.Harmless d) :
    d.exists (p.names.rollbackPath t) = false := by
  have hnone := h.rollback t ht
  exact Option.isSome_eq_false_iff.2 (Option.isNone_iff_eq_none.2 hnone)

theorem spares_cleanRollback (hl : p.Proper l) :
    Spares p d₀ (cleanRollback ω (t.item p.names l)) := by
  unfold cleanRollback
  rcases hl t ht with hnone | hsome
  · rw [show (t.item p.names l).rollback = none from hnone]
    exact .pure same
  · rw [show (t.item p.names l).rollback = _ from hsome]
    refine .seq (p.Spared d₀) ?_ fun _ => spares_touch ω
    refine .removeIfExists (fun _ _ h => h) (fun d _ x h hd => ?_) (fun d _ h hd => ?_)
      fun _ _ h _ => h
    all_goals
      rw [exists_rollback ht h.1] at hd
      cases hd

theorem spares_revertItem (he : t.existed = true) (hl : p.Proper l)
    (r : Record) : Spares p d₀ (revertItem ω r (t.item p.names l)) := by
  refine .bind (Q := fun found d _ => found = none ∧ p.Harmless d ∧ p.SameRoots d₀ d)
    (.look fun d _ h => ⟨?_, h⟩) fun found => .given ?_
  · unfold rollbackFound
    rcases hl t ht with hnone | hsome
    · rw [show (t.item p.names l).rollback = none from hnone]
      rfl
    · rw [show (t.item p.names l).rollback = _ from hsome]
      simp [Option.filter, exists_rollback ht h.1]
  · rintro rfl
    refine .seq (p.Spared d₀) (.look fun _ _ h => h) fun d' => ?_
    rw [if_neg (by simp [Target.item, he])]
    exact .pure same

theorem spares_recoverItem (he : t.existed = true) (hl : p.Proper l)
    (r : Record) (healthy : Bool) : Spares p d₀ (recoverItem ω r healthy (t.item p.names l)) := by
  have hrevert : Spares p d₀ (revertItem ω r (t.item p.names l) >>= fun _ =>
      cleanStaging ω (t.item p.names l)) :=
    (spares_revertItem ω ht he hl r).next (spares_cleanStaging ω ht l)
  unfold recoverItem
  cases r.phase with
  | staged => exact spares_cleanStaging ω ht l
  | displacing | displaced | publishing => exact hrevert
  | activated => exact .ite (fun _ => spares_cleanRollback ω ht hl) fun _ => hrevert
  | committed =>
    exact (spares_cleanRollback ω ht hl).next (spares_cleanStaging ω ht l)

omit ht

theorem spares_reconcileJournal (hall : ∀ t ∈ p.targets, t.existed = true) {entry : ℕ × Record}
    (hentry : p.Logs entry.2) : Spares p d₀ (reconcileJournal s ω entry) := by
  refine .next (.assure fun _ _ h => h) ?_
  refine .next (.assure fun _ _ h => h) ?_
  cases validateJournal s entry.2 with
  | error message => exact .raise same
  | ok u =>
    refine .seq (p.Spared d₀) (.look fun _ _ h => h) fun healthy => ?_
    refine .seq (p.Spared d₀) ?_ fun _ => ?_
    · refine .ite (fun _ => ?_) fun _ => .pure same
      refine .write (fun _ _ h => h) fun d _ h => ⟨⟨?_, ?_, h.1.rollback⟩, h.2⟩
      · exact h.1.base.setJournal hentry
      · exact Plan.journals_setJournal h.1.journals _ _
    refine .bind (.forM (fun _ => p.Spared d₀)
      entry.2.roots fun done item rest hl => ?_) fun _ => ?_
    · obtain ⟨t, ht, l, hproper, rfl⟩ := hentry item (by simp [hl])
      exact spares_recoverItem ω ht (hall t ht) hproper _ _
    · refine .seq (p.Spared d₀) ?_ fun _ => spares_touch ω
      refine .write (fun _ _ h => h) fun d _ h => ?_
      refine ⟨⟨h.1.base.unlinkJournal _, fun e he => ?_, h.1.rollback⟩, h.2⟩
      exact h.1.journals e (mem_filter.1 he).1

/-- **A harmless journal does not touch a root.** -/
theorem reconcile_harmless (hall : ∀ t ∈ p.targets, t.existed = true) :
    Spares p d₀ (reconcile s ω) := by
  refine .bind (Q := fun journals d _ => (∀ e ∈ journals, p.Logs e.2) ∧ p.Harmless d ∧
    p.SameRoots d₀ d) (.look fun d _ h => ⟨fun e he => ?_, h⟩) fun journals =>
    .given fun hlogs => ?_
  · exact h.1.base.written _ (h.1.journals e he)
  · refine .asSafeError (.forM (fun _ => p.Spared d₀) journals fun done entry rest hl => ?_)
    exact spares_reconcileJournal ω s hall (hlogs entry (by simp [hl]))

end Spares

/-! ### Later data -/

section Data

variable {s : Service} {a : Archive} {names : Names} {d₀ : Disk}

/-- No journal is there, or those that are there are harmless. -/
def Quiet (s : Service) (a : Archive) (names : Names) (d₀ d : Disk) : Prop :=
  d.journals = [] ∨ ∃ (hn : s.NotNested) (hf : names.Fresh s a d₀) (targets : List Target)
    (ht : TargetsOf s a d₀ targets), (planOf hn hf ht).Harmless d

/-- No journal is there, or those that are there are about the targets. -/
def JournalsNoted (hn : s.NotNested) (hf : names.Fresh s a d₀) (d : Disk) : Prop :=
  d.journals = [] ∨ ∃ (targets : List Target) (ht : TargetsOf s a d₀ targets) (l : Locals),
    (planOf hn hf ht).Noted d l

/-- Wherever a restore stops, its journals are about its targets. -/
theorem restore_noted (hn : s.NotNested) (hf : names.Fresh s a d₀) (hclean : d₀.journals = [])
    (hwritten : d₀.written = []) (ω : Oracle) :
    Leads (fun d l => d = d₀ ∧ l = .new) (restore s ω a names)
      (fun _ d _ => JournalsNoted hn hf d) (fun d _ => JournalsNoted hn hf d) := by
  refine .restore nofun (fun d l h => .inl (h.1 ▸ hclean)) fun _ targets ht => ?_
  refine (notes_restoreTargets (p := planOf hn hf ht) ω s).conseq ?_
    (fun _ d l h => .inr ⟨targets, ht, l, h⟩) fun d l h => .inr ⟨targets, ht, l, h⟩
  rintro d l ⟨rfl, rfl⟩
  refine ⟨⟨ht.parents, by simp [hwritten]⟩, by simp [hclean], Plan.proper_new, ?_, ?_, ?_⟩
  all_goals simp [Locals.new]

theorem quiet_of_undone (hn : s.NotNested) (hf : names.Fresh s a d₀) (hclean : d₀.journals = [])
    (hwritten : d₀.written = []) (ω : Oracle)
    (hundone : Undone s a names d₀ ((restore s ω a names).run (.start d₀)).2.disk) :
    Quiet s a names d₀ ((restore s ω a names).run (.start d₀)).2.disk := by
  have hnoted := (restore_noted hn hf hclean hwritten ω).final ⟨rfl, rfl⟩
  rcases hnoted with hnone | ⟨targets, ht, l, hnoted⟩
  · exact .inl hnone
  · refine .inr ⟨hn, hf, targets, ht, hnoted.base, hnoted.journals, ?_⟩
    intro t htt
    have hvacant := (hundone t.path (ht.approved t htt)).2
    rw [← ht.id t htt] at hvacant
    exact hvacant

section Roots

variable (hroots : ∀ root ∈ s.approved, d₀.exists root = true) {d : Disk}
include hroots

theorem reconcile_quiet (ω : Oracle) (h : Quiet s a names d₀ d) :
    Quiet s a names d₀ ((reconcile s ω).run (.start d)).2.disk ∧ ∀ root ∈ s.approved,
      ((reconcile s ω).run (.start d)).2.disk.tree.get root = d.tree.get root := by
  rcases h with hnone | ⟨hn, hf, targets, ht, hharmless⟩
  · have hsame := (reconcile_no_journal s hnone ω).final rfl
    rw [hsame]
    exact ⟨.inl hnone, fun _ _ => rfl⟩
  · have hall : ∀ t ∈ targets, t.existed = true := by
      intro t htt
      rw [ht.existed t htt]
      exact hroots t.path (ht.approved t htt)
    have hspares : Spares (planOf hn hf ht) d (reconcile s ω) := reconcile_harmless ω s hall
    have hend := hspares.final ⟨hharmless, fun _ _ => rfl⟩
    refine ⟨.inr ⟨hn, hf, targets, ht, hend.1⟩, ?_⟩
    intro root hroot
    obtain ⟨t, htt, rfl⟩ := ht.complete root hroot
    exact hend.2 t htt

theorem perform_quiet {event : Afterwards} (hevent : event.Approved s) (h : Quiet s a names d₀ d) :
    Quiet s a names d₀ (event.perform s d) := by
  cases event with
  | reconciled ω => exact (reconcile_quiet hroots ω h).1
  | changed root x =>
    rcases h with hnone | ⟨hn, hf, targets, ht, hharmless⟩
    · exact .inl hnone
    · obtain ⟨t, htt, rfl⟩ := ht.complete root hevent
      exact .inr ⟨hn, hf, targets, ht, hharmless.put htt (k := .root) (by decide) x⟩

theorem afterwards_quiet (events : List Afterwards) (hevents : ∀ event ∈ events, event.Approved s)
    (h : Quiet s a names d₀ d) : Quiet s a names d₀ (afterwards s events d) := by
  induction events generalizing d with
  | nil => exact h
  | cons event events ih =>
    have hfirst := perform_quiet hroots (hevents event (.head _)) h
    exact ih (fun e he => hevents e (.tail _ he)) hfirst

theorem reconcileAll_quiet (oracles : List Oracle) (h : Quiet s a names d₀ d) :
    ∀ root ∈ s.approved, (reconcileAll s oracles d).tree.get root = d.tree.get root := by
  induction oracles generalizing d with
  | nil => exact fun _ _ => rfl
  | cons ω oracles ih =>
    intro root hroot
    obtain ⟨hquiet, hsame⟩ := reconcile_quiet hroots ω h
    exact (ih hquiet root hroot).trans (hsame root hroot)

end Roots

/-- **Later data is safe if all roots were there.**  Every approved root exists and none lies inside
another when a restore starts; the renames it has made have been undone when it ends.  Then whatever
is below a root at any later time, after any writes of the profile and any reconciliations, is
unchanged after any number of further reconciliations, each of which may be killed. -/
theorem failed_restore_harmless (s : Service) (hn : s.NotNested) (a : Archive) (names : Names)
    (d : Disk) (hclean : d.journals = []) (hwritten : d.written = []) (hf : names.Fresh s a d)
    (hroots : ∀ root ∈ s.approved, d.exists root = true) (ω : Oracle)
    (hundone : Undone s a names d ((restore s ω a names).run (State.start d)).2.disk)
    (events : List Afterwards) (hevents : ∀ event ∈ events, event.Approved s)
    (oracles : List Oracle) :
    let later := afterwards s events ((restore s ω a names).run (State.start d)).2.disk
    ∀ root ∈ s.approved, ∀ file : Path,
      (reconcileAll s oracles later).tree.get (root ++ file) = later.tree.get (root ++ file) := by
  intro later root hroot file
  have hquiet : Quiet s a names d later :=
    afterwards_quiet hroots events hevents (quiet_of_undone hn hf hclean hwritten ω hundone)
  rw [FileTree.get_append, FileTree.get_append, reconcileAll_quiet hroots oracles hquiet root hroot]

end Data

/-! ### A lost lease -/

/-- The lease is lost from the given step on. -/
def lostAt (step : ℕ) : Oracle := fun k => { calm k with owned := k < step }

def fullDisk : Disk :=
  ⟨.dir [("srv", .dir [("world", .dir [("level.dat", .file [0])]), ("mods", .dir [])])], [], []⟩

def leaseLost : Failure := .safe "slot_conflict" "operation lease was lost before publication"

theorem sampleNames_fresh_full :
    sampleNames.Fresh sampleService (sampleArchive sampleRoots) fullDisk := by
  refine ⟨sampleNames_fresh.unused, sampleNames_fresh.distinct, ?_⟩
  have h : ∀ root ∈ sampleRoots, fullDisk.tree.get (root.dropLast ++
      [sampleNames.drawn ((sampleArchive sampleRoots).rootId sampleService root) .rollback]) =
        none := by
    decide +kernel
  exact h

/-- The lease is lost between the two publications. -/
def lostLease (d : Disk) : Except Failure Result × State :=
  (restore sampleService (lostAt 31) (sampleArchive sampleRoots) sampleNames).run (State.start d)

theorem lostLease_undone (d : Disk)
    (h : ∀ root ∈ sampleRoots, (lostLease d).2.disk.tree.get root = d.tree.get root ∧
      (lostLease d).2.disk.tree.get (root.dropLast ++
        [sampleNames.drawn ((sampleArchive sampleRoots).rootId sampleService root) .rollback]) =
        none) :
    Undone sampleService (sampleArchive sampleRoots) sampleNames d (lostLease d).2.disk := h

/-- The world is written, and a reconciliation is killed. -/
def laterWorld : List Afterwards :=
  [.changed ["srv", "world"] (some (.dir [("level.dat", .file [7])])), .reconciled (killedAt 1)]

theorem laterWorld_approved : ∀ event ∈ laterWorld, event.Approved sampleService := by
  intro event hevent
  simp only [laterWorld, mem_cons, not_mem_nil, or_false] at hevent
  rcases hevent with rfl | rfl
  · exact .head _
  · trivial

/-- The journal of a restore whose lease was lost is harmless, since both roots were there. -/
theorem failed_restore_harmless_lost_lease :
    (lostLease fullDisk).1 = .error leaseLost ∧
      (afterwards sampleService laterWorld (lostLease fullDisk).2.disk).journals.length = 1 ∧
      ∀ file : Path, (reconcileAll sampleService [calm]
        (afterwards sampleService laterWorld (lostLease fullDisk).2.disk)).tree.get
          (["srv", "world"] ++ file) =
        (afterwards sampleService laterWorld (lostLease fullDisk).2.disk).tree.get
          (["srv", "world"] ++ file) := by
  have hroots : ∀ root ∈ sampleService.approved, fullDisk.exists root = true := by decide +kernel
  have hundone := lostLease_undone fullDisk (by decide +kernel)
  refine ⟨by decide +kernel, by decide +kernel, fun file => ?_⟩
  unfold lostLease at hundone ⊢
  exact failed_restore_harmless sampleService sampleService_notNested (sampleArchive sampleRoots)
    sampleNames fullDisk rfl rfl sampleNames_fresh_full hroots (lostAt 31) hundone laterWorld
    laterWorld_approved [calm] ["srv", "world"] (.head _) file

/-- Mods are installed after the lease was lost. -/
def laterMods : Afterwards := .changed ["srv", "mods"] (some (.dir [("new.jar", .file [7])]))

/-- One of the roots was not there before the restore: the mods that come after the failure are gone
after the next reconciliation. -/
theorem lost_lease_removes_later_mods :
    let later := afterwards sampleService [laterMods] (lostLease sampleDisk).2.disk
    (lostLease sampleDisk).1 = .error leaseLost ∧
      Undone sampleService (sampleArchive sampleRoots) sampleNames sampleDisk
        (lostLease sampleDisk).2.disk ∧
      later.tree.get ["srv", "mods", "new.jar"] = some (.file [7]) ∧
      ((reconcile sampleService calm).run (State.start later)).1 = .ok () ∧
      (reconcileAll sampleService [calm] later).tree.get ["srv", "mods", "new.jar"] = none := by
  refine ⟨by decide +kernel, lostLease_undone sampleDisk (by decide +kernel), by decide +kernel,
    by decide +kernel, by decide +kernel⟩

end Horizon.Restore
