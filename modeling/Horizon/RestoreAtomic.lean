/-
**A restore is atomic across crashes.**

`finalize`, `rollback` and `reconcile` go from one recoverable form of the disk to another at every
step, so it does not matter how often they are killed.  A reconciliation that comes to its end
leaves all roots as they were or all restored, and neither a journal nor anything that a journal has
named.

Main results:

* `Restore.reconcile_leads` — **reconciliation settles what an interrupted restore has left**;
* `Restore.restore_atomic` — a restore and any number of interrupted reconciliations.
-/

import Horizon.RestorePublication

namespace Horizon.Restore

open Judged
open Option
open List
open Plan
open State (start)
open Coroutine (forall_mem_concat)
open FileTree (Path)

/-! ### Completing -/

namespace Plan

/-- The restored roots stay; the places in `gone` have been removed. -/
structure Cleaning (p : Plan) (l : Locals) (gone : Target → Slot → Prop) (d : Disk) : Prop where
  base : p.Base d
  proper : p.Proper l
  journal : p.Journal d { p.record .activated l with phase := .committed }
  root : ∀ t ∈ p.targets, p.found d t .root = p.restored t
  named : ∀ t ∈ p.targets, p.found d t .rollback = none ∨
    l.rollbackByRoot t.id = some (p.names.rollbackPath t)
  cleared : ∀ t ∈ p.targets, ∀ k, gone t k → p.found d t k = none

variable {p : Plan} {l : Locals} {gone : Target → Slot → Prop} {d : Disk} {t : Target}

theorem Cleaning.safe (h : p.Cleaning l gone d) (l' : Locals) : p.Safe d l' :=
  ⟨h.base, .committed l h.proper h.journal h.root h.named⟩

theorem Cleaning.mono {more : Target → Slot → Prop} (h : p.Cleaning l gone d)
    (hmore : ∀ t ∈ p.targets, ∀ k, more t k → gone t k ∨ p.found d t k = none) :
    p.Cleaning l more d :=
  { h with cleared := fun t ht k hk => (hmore t ht k hk).elim (h.cleared t ht k) id }

theorem Cleaning.put (h : p.Cleaning l gone d) (ht : t ∈ p.targets) {k : Slot}
    (hk : k ≠ .root) (hd : p.found d t k ≠ none) (x : Option Tree) :
    p.Cleaning l (fun u j => (gone u j ∧ (t ≠ u ∨ k ≠ j)) ∨ (x = none ∧ u = t ∧ j = k))
      (d.put (slotPath p.names t k) x) := by
  refine ⟨h.base.put ht k x, h.proper, h.journal, fun u hu => ?_, fun u hu => ?_,
    fun u hu j hj => ?_⟩
  · exact (slot_put_other p.separate ht hu _ (.inr hk) x).trans (h.root u hu)
  · by_cases hsame : t = u ∧ k = .rollback
    · obtain ⟨rfl, rfl⟩ := hsame
      exact .inr ((h.named t ht).resolve_left hd)
    · have hne : t ≠ u ∨ k ≠ .rollback := by
        by_contra hcon
        push Not at hcon
        exact hsame hcon
      rw [show p.found (d.put (slotPath p.names t k) x) u .rollback = p.found d u .rollback from
        slot_put_other p.separate ht hu _ hne x]
      exact h.named u hu
  · rcases hj with ⟨hgone, hne⟩ | ⟨rfl, rfl, rfl⟩
    · exact (slot_put_other p.separate ht hu _ hne x).trans (h.cleared u hu j hgone)
    · exact slot_put_self p.separate h.base.parents ht j none

end Plan

section Complete

variable (p : Plan) (ω : Oracle) {l : Locals} {t : Target} {gone : Target → Slot → Prop}

/-- `if path.exists(): shutil.rmtree(path)` for a staging or rollback directory. -/
theorem clean_leads (ht : t ∈ p.targets) {k : Slot} (hk : k ≠ .root) :
    Leads (fun d _ => p.Cleaning l gone d) (removeIfExists ω (slotPath p.names t k))
      (fun _ d _ => p.Cleaning l (fun u j => gone u j ∨ (u = t ∧ j = k)) d) p.Safe := by
  refine .removeIfExists (fun d l' h => h.safe l') (fun d l' x h hd => ?_) (fun d l' h hd => ?_)
    fun d l' h hd => ?_
  · exact (h.put ht hk (found_ne_none hd) x).safe l'
  · refine (h.put ht hk (found_ne_none hd) none).mono fun u hu j hj => .inl ?_
    by_cases hsame : u = t ∧ j = k
    · exact .inr ⟨rfl, hsame⟩
    · refine .inl ⟨hj.resolve_right hsame, ?_⟩
      by_contra hcon
      push Not at hcon
      exact hsame ⟨hcon.1.symm, hcon.2.symm⟩
  · refine h.mono fun u hu j hj => hj.imp id ?_
    rintro ⟨rfl, rfl⟩
    exact found_eq_none hd

theorem discardRollback_leads (hl : p.Proper l) (ht : t ∈ p.targets) :
    Leads (fun d _ => p.Cleaning l gone d) (discardRollback ω (l.rollbackByRoot t.id))
      (fun _ d _ => p.Cleaning l (fun u j => gone u j ∨ (u = t ∧ j = .rollback)) d) p.Safe := by
  rcases hl t ht with hnone | hsome
  · rw [hnone]
    refine .pure fun d l' h => h.mono fun u hu j hj => hj.imp id ?_
    rintro ⟨rfl, rfl⟩
    refine (h.named u hu).resolve_right fun hnamed => ?_
    rw [hnone] at hnamed
    cases hnamed
  · rw [hsome]
    refine (clean_leads p ω ht (k := .rollback) (by decide)).next ?_
    exact .touch fun d l' h => h.safe l'

theorem unlink_cleaned {d : Disk} (h : p.Cleaning l gone d)
    (hgone : ∀ t ∈ p.targets, ∀ k, k ≠ .root → gone t k) :
    p.Base (d.unlinkJournal p.names.journal) ∧ p.Recoverable (d.unlinkJournal p.names.journal) :=
  ⟨h.base.unlinkJournal _, .replaced h.journal.unlink h.root
    (fun t ht => h.cleared t ht .staging (hgone t ht .staging (by decide)))
    fun t ht => h.cleared t ht .rollback (hgone t ht .rollback (by decide))⟩

theorem finalize_leads {result : Result} :
    Leads (fun d _ => p.Published result d) (finalize ω result) (fun _ => p.Safe) p.Safe := by
  refine .assume fun d₀ l₀ h₀ => ?_
  obtain ⟨l, hj, hl⟩ := h₀.journal
  have hid := h₀.id
  have hproper := proper_of_rollbackOf hl
  refine .seq (fun d _ => p.Cleaning l (fun _ k => k = .staging) d) ?_ fun _ => ?_
  · refine .bind (Q := fun record d l' => record = some (p.record .activated l) ∧
      d = d₀ ∧ l' = l₀) (.look fun d l' h => ⟨?_, h⟩) fun record => .given ?_
    · obtain ⟨rfl, -⟩ := h
      rw [show d.journals = _ from hj, hid]
      simp
    · rintro rfl
      refine .write (fun d l' h => ?_) fun d l' h => ?_
      · obtain ⟨rfl, rfl⟩ := h
        exact h₀.safe l'
      · obtain ⟨rfl, rfl⟩ := h
        rw [hid]
        refine ⟨h₀.base.setJournal (logs_record hproper), hproper, hj.setJournal _,
          fun t ht => (h₀.places t ht).1, fun t ht => ?_, fun t ht k hk => ?_⟩
        · by_cases he : t.existed = true
          · exact .inr (by rw [hl t ht, rollbackOf_existed he])
          · have he' : t.existed = false := by simpa using he
            exact .inl ((h₀.places t ht).2.2.trans (original_eq_none ht he'))
        · subst hk
          exact (h₀.places t ht).2.1
  have hrollbacks : result.rollbacks = p.targets.map fun t => l.rollbackByRoot t.id := by
    rw [h₀.rollbacks]
    exact map_congr_left fun t ht => (hl t ht).symm
  rw [hrollbacks, hid]
  refine .bind (.pre (.forM_map (fun done d _ => p.Cleaning l
    (fun t k => k = .staging ∨ (t ∈ done ∧ k = .rollback)) d) p.targets fun done t rest hlist => ?_)
    fun d l' h => h.mono fun u hu k hk => .inl (by simpa using hk)) fun _ => ?_
  · have ht : t ∈ p.targets := by simp [hlist]
    refine (discardRollback_leads p ω hproper ht).post fun _ d l' h =>
      h.mono fun u hu k hk => .inl ?_
    rcases hk with rfl | ⟨hmem, rfl⟩
    · exact .inl (.inl rfl)
    · rcases mem_append.1 hmem with hold | hnew
      · exact .inl (.inr ⟨hold, rfl⟩)
      · exact .inr ⟨mem_singleton.1 hnew, rfl⟩
  · refine .seq p.Safe (.write (fun d l' h => h.safe l') fun d l' h => ?_)
      fun _ => .touch fun _ _ h => h
    refine unlink_cleaned p h fun t ht k hk => ?_
    cases k with
    | root => exact absurd rfl hk
    | staging => exact .inl rfl
    | rollback => exact .inr ⟨ht, rfl⟩

end Complete

/-! ### Undoing -/

namespace Plan

/-- The journal is undecided, and every root can be brought back. -/
structure Open (p : Plan) (phase : Phase) (l : Locals) (d : Disk) : Prop where
  base : p.Base d
  proper : p.Proper l
  journal : p.Journal d (p.record phase l)
  undoable : ∀ t ∈ p.targets, p.Undoable (p.record phase l) l d t

/-- A fact that does not concern these places of a target. -/
def Frame (p : Plan) (t : Target) (places : List Slot) (F : Disk → Prop) : Prop :=
  ∀ d d', (∀ u ∈ p.targets, ∀ k, (t ≠ u ∨ k ∉ places) → p.found d' u k = p.found d u k) → F d → F d'

variable {p : Plan} {phase : Phase} {l : Locals} {d : Disk} {t : Target} {F : Disk → Prop}
  {places : List Slot}

theorem Open.safe (h : p.Open phase l d) (hphase : phase.Undecided) (l' : Locals) : p.Safe d l' :=
  ⟨h.base, .undecided phase l hphase h.proper h.journal h.undoable⟩

variable (ht : t ∈ p.targets)
include ht

theorem Open.put_root (h : p.Open phase l d) (hd : p.found d t .root ≠ none)
    (hself : t.existed = true → p.found d t .rollback = p.original t ∧
      l.rollbackByRoot t.id = some (p.names.rollbackPath t)) (x : Option Tree) :
    p.Open phase l (d.put t.path x) :=
  ⟨h.base.put ht .root x, h.proper, h.journal, fun u hu =>
    (h.undoable u hu).put_root ht hu hd hself x⟩

theorem Open.put_staging (h : p.Open phase l d) (hd : p.found d t .staging ≠ none)
    (x : Option Tree) : p.Open phase l (d.put (p.names.stagingPath t) x) :=
  ⟨h.base.put ht .staging x, h.proper, h.journal, fun u hu =>
    (h.undoable u hu).put_staging ht hu hd x⟩

theorem Open.move_back (h : p.Open phase l d) (hd : p.found d t .rollback ≠ none) :
    p.Open phase l (d.move (p.names.rollbackPath t) t.path) :=
  ⟨h.base.move ht .rollback .root, h.proper, h.journal, fun u hu =>
    (h.undoable u hu).move_back h.base.parents ht hu hd⟩

theorem Undoable.settled {r : Record} (h : p.Undoable r l d t) (he : t.existed = true)
    (hnone : p.found d t .rollback = none) : p.found d t .root = p.original t := by
  rcases h.existing he with ⟨horiginal, -⟩ | ⟨-, hroot⟩
  · rw [hnone] at horiginal
    exact absurd horiginal.symm (original_ne_none ht he)
  · exact hroot

theorem Frame.put (hF : p.Frame t places F) {k : Slot} (hk : k ∈ places)
    (x : Option Tree) (hd : F d) : F (d.put (slotPath p.names t k) x) := by
  refine hF d _ (fun u hu j hj => slot_put_other p.separate ht hu _ ?_ x) hd
  rcases hj with hne | hj
  · exact .inl hne
  · exact .inr fun hkj => hj (hkj ▸ hk)

/-- A write to a root that did not exist. -/
theorem Frame.put_created (hF : p.Frame t places F) (hroot : .root ∈ places)
    (he : t.existed = false) (h : p.Open phase l d) (hf : F d) (hd : d.exists t.path = true)
    (x : Option Tree) : p.Open phase l (d.put t.path x) ∧ F (d.put t.path x) :=
  ⟨h.put_root ht (found_ne_none hd) (fun h => by simp [he] at h) x, hF.put ht hroot x hf⟩

theorem Frame.move (hF : p.Frame t places F) {k j : Slot} (hk : k ∈ places)
    (hj : j ∈ places) (hd : F d) : F (d.move (slotPath p.names t k) (slotPath p.names t j)) := by
  refine hF d _ (fun u hu i hi => slot_move_other p.separate ht hu ?_ ?_) hd
  · rcases hi with hne | hi
    · exact .inl hne
    · exact .inr fun hki => hi (hki ▸ hk)
  · rcases hi with hne | hi
    · exact .inl hne
    · exact .inr fun hji => hi (hji ▸ hj)

end Plan

section Revert

variable (p : Plan) (ω : Oracle) {phase : Phase} (hphase : phase.Undecided) {l : Locals}
  {t : Target} (ht : t ∈ p.targets) {F : Disk → Prop} (hF : p.Frame t [.root, .rollback] F)

/-- What a target looks like that has been brought back. -/
def Plan.Back (p : Plan) (d : Disk) (t : Target) : Prop :=
  p.found d t .root = p.original t ∧ p.found d t .rollback = none

include hphase ht hF

/-- The root is removed and its rollback directory put in its place. -/
theorem swapBack_leads (he : t.existed = true)
    (hnamed : l.rollbackByRoot t.id = some (p.names.rollbackPath t)) :
    Leads (fun d _ => (p.Open phase l d ∧ F d) ∧ p.found d t .rollback = p.original t)
      (removeIfExists ω t.path >>= fun _ => moveBack ω (p.names.rollbackPath t) t.path)
      (fun _ d _ => (p.Open phase l d ∧ F d) ∧ p.Back d t) p.Safe := by
  refine .seq (fun d _ => (p.Open phase l d ∧ F d) ∧
    p.found d t .rollback = p.original t) ?_ fun _ => ?_
  · have hput : ∀ (d : Disk) (x : Option Tree), (p.Open phase l d ∧ F d) ∧
        p.found d t .rollback = p.original t → d.exists t.path = true →
        (p.Open phase l (d.put t.path x) ∧ F (d.put t.path x)) ∧
          p.found (d.put t.path x) t .rollback = p.original t := by
      intro d x h hd
      refine ⟨⟨h.1.1.put_root ht (found_ne_none hd) (fun _ => ⟨h.2, hnamed⟩) x,
        hF.put ht (k := .root) (by simp) x h.1.2⟩, ?_⟩
      exact (slot_put_other p.separate ht ht .root (.inr (by decide)) x).trans h.2
    exact .removeIfExists (fun d l' h => h.1.1.safe hphase l')
      (fun d l' x h hd => (hput d x h hd).1.1.safe hphase l') (fun d l' h hd => hput d none h hd)
      fun _ _ h _ => h
  · refine .seq (fun d _ => (p.Open phase l d ∧ F d) ∧ p.Back d t)
      (.replace (fun d l' h => h.1.1.safe hphase l') fun d l' h => ?_) fun _ => ?_
    · have hne : p.found d t .rollback ≠ none := by
        rw [h.2]
        exact original_ne_none ht he
      refine ⟨⟨h.1.1.move_back ht hne, hF.move ht (k := .rollback) (j := .root) (by simp) (by simp)
        h.1.2⟩, ?_, ?_⟩
      · exact (slot_move_target (j := .root) p.separate h.1.1.base.parents ht (by decide)).trans h.2
      · exact slot_move_source (k := .rollback) (j := .root) p.separate h.1.1.base.parents ht
          (by decide)
    · exact .touch fun d l' h => h.1.1.safe hphase l'

theorem removeCreated_leads :
    Leads (fun d _ => (p.Open phase l d ∧ F d) ∧ p.found d t .rollback = none)
      (removeCreated ω (p.record phase l) (t.item p.names l))
      (fun _ d _ => (p.Open phase l d ∧ F d) ∧ p.Back d t) p.Safe := by
  refine .bind (Q := fun d' d _ => d' = d ∧ (p.Open phase l d ∧ F d) ∧
    p.found d t .rollback = none) (.look fun d l' h => ⟨rfl, h⟩) fun d' => ?_
  by_cases he : t.existed = true
  · rw [if_neg (by simp [Target.item, he])]
    refine .pure fun d l' h => ?_
    obtain ⟨-, ⟨hopen, hf⟩, hnone⟩ := h
    exact ⟨⟨hopen, hf⟩, (hopen.undoable t ht).settled ht he hnone, hnone⟩
  · have he' : t.existed = false := by simpa using he
    have horiginal := original_eq_none ht he'
    refine .ite (fun _ => ?_) fun hcond => ?_
    · -- the restore can have put it there
      have hput := fun {d} (x : Option Tree) (h : p.Open phase l d ∧ F d) hd =>
        hF.put_created ht (by simp) he' h.1 h.2 hd x
      refine .bind (Q := fun present d _ => ((p.Open phase l d ∧ F d) ∧
        p.found d t .rollback = none) ∧ d.exists t.path = present)
        (.look fun d l' h => ⟨h.2, rfl⟩) fun present => ?_
      cases present with
      | false =>
        refine .pure fun d l' h => ⟨h.1.1, ?_, h.1.2⟩
        rw [horiginal]
        exact found_eq_none h.2
      | true =>
        refine .seq (fun d _ => (p.Open phase l d ∧ F d) ∧ p.Back d t)
          (.rmtree (fun d l' h => h.1.1.1.safe hphase l')
            (fun d l' x h => (hput x h.1.1 h.2).1.safe hphase l') fun d l' h => ?_) fun _ => ?_
        · refine ⟨hput none h.1.1 h.2, ?_, ?_⟩
          · rw [horiginal]
            exact slot_put_self p.separate h.1.1.1.base.parents ht .root none
          · exact (slot_put_other p.separate ht ht .root (.inr (by decide)) none).trans h.1.2
        · exact .touch fun d l' h => h.1.1.safe hphase l'
    · refine .pure fun d l' h => ?_
      obtain ⟨rfl, ⟨hopen, hf⟩, hnone⟩ := h
      refine ⟨⟨hopen, hf⟩, ?_, hnone⟩
      rw [horiginal]
      by_contra hroot
      refine hcond ⟨he', ?_⟩
      rcases ((hopen.undoable t ht).absent he').2 with hn | hn | hn | hn
      · exact absurd hn hroot
      · refine .inr (.inr ⟨?_, ?_⟩)
        · exact isSome_eq_false_iff.2 (isNone_iff_eq_none.2 hn)
        · exact isSome_iff_ne_none.2 hroot
      · exact .inl hn
      · exact .inr (.inl hn)

/-- **The root of an undecided journal goes back to what it was.** -/
theorem revertItem_leads (hl : p.Proper l) :
    Leads (fun d _ => p.Open phase l d ∧ F d)
      (revertItem ω (p.record phase l) (t.item p.names l))
      (fun _ d _ => (p.Open phase l d ∧ F d) ∧ p.Back d t) p.Safe := by
  refine .look_bind fun found => ?_
  rcases hl t ht with hnone | hsome
  · have hfound : ∀ d, rollbackFound d (t.item p.names l) = none := by
      intro d
      simp [rollbackFound, Target.item, hnone]
    cases found with
    | some rollback =>
      refine .impossible fun d l' h => ?_
      rw [hfound] at h
      cases h.2
    | none =>
      refine (removeCreated_leads p ω hphase ht hF).pre fun d l' h => ⟨h.1, ?_⟩
      by_contra hne
      by_cases he : t.existed = true
      · rcases (h.1.1.undoable t ht).existing he with ⟨-, hnamed⟩ | ⟨hn, -⟩
        · rw [hnone] at hnamed
          cases hnamed
        · exact hne hn
      · exact hne ((h.1.1.undoable t ht).absent (by simpa using he)).1
  · have hfound : ∀ d, rollbackFound d (t.item p.names l) =
        if d.exists (p.names.rollbackPath t) = true then some (p.names.rollbackPath t)
        else none := by
      intro d
      simp [rollbackFound, Target.item, hsome, Option.filter]
    cases found with
    | some rollback =>
      by_cases he : t.existed = true
      · by_cases hr : rollback = p.names.rollbackPath t
        · subst hr
          refine (swapBack_leads p ω hphase ht hF he hsome).pre fun d l' h => ⟨h.1, ?_⟩
          rw [hfound] at h
          have hexists : d.exists (p.names.rollbackPath t) = true := by
            by_contra hn
            rw [if_neg hn] at h
            cases h.2
          rcases (h.1.1.undoable t ht).existing he with ⟨horiginal, -⟩ | ⟨hn, -⟩
          · exact horiginal
          · exact absurd hn (found_ne_none hexists)
        · refine .impossible fun d l' h => ?_
          rw [hfound] at h
          split at h
          · exact hr (some.inj h.2).symm
          · cases h.2
      · refine .impossible fun d l' h => ?_
        have hn := ((h.1.1.undoable t ht).absent (by simpa using he)).1
        rw [hfound, if_neg] at h
        · cases h.2
        · rw [show d.exists (p.names.rollbackPath t) = (p.found d t .rollback).isSome from rfl, hn]
          simp
    | none =>
      refine (removeCreated_leads p ω hphase ht hF).pre fun d l' h => ⟨h.1, ?_⟩
      rw [hfound] at h
      refine found_eq_none ?_
      by_contra hn
      have hexists : d.exists (p.names.rollbackPath t) = true := by simpa [slotPath] using hn
      rw [if_pos hexists] at h
      cases h.2

end Revert

/-! ### `rollback` -/

variable {done : List Target} (step : ℕ)

section Rollback

variable (p : Plan) (ω : Oracle) {t : Target} {d : Disk}

/-- `rollback` has handled the targets in `done`. -/
def Plan.Returned (p : Plan) (done : List Target) (d : Disk) : Prop :=
  (∀ t ∈ p.targets, p.found d t .staging = none) ∧ (∀ t ∈ done, p.Back d t) ∧
    ∀ t ∈ p.targets, t ∉ done → p.found d t .root = p.restored t ∧
      p.found d t .rollback = p.original t

/-- What `rollback` knows of the other targets. -/
def Plan.ReturnedBut (p : Plan) (done : List Target) (t : Target) (d : Disk) : Prop :=
  (∀ u ∈ p.targets, p.found d u .staging = none) ∧ (∀ u ∈ done, p.Back d u) ∧
    ∀ u ∈ p.targets, u ∉ done → t ≠ u → p.found d u .root = p.restored u ∧
      p.found d u .rollback = p.original u

theorem frame_returnedBut (hdone : ∀ u ∈ done, u ∈ p.targets) (hnot : t ∉ done) :
    p.Frame t [.root, .rollback] (p.ReturnedBut done t) := by
  intro d d' hsame h
  refine ⟨fun u hu => ?_, fun u hu => ?_, fun u hu hn hne => ?_⟩
  · rw [hsame u hu .staging (.inr (by decide))]
    exact h.1 u hu
  · have hne : t ≠ u := fun htu => hnot (htu ▸ hu)
    unfold Plan.Back
    rw [hsame u (hdone u hu) .root (.inl hne), hsame u (hdone u hu) .rollback (.inl hne)]
    exact h.2.1 u hu
  · rw [hsame u hu .root (.inl hne), hsame u hu .rollback (.inl hne)]
    exact h.2.2 u hu hn hne

theorem returned_concat (h : p.ReturnedBut done t d) (hback : p.Back d t) :
    p.Returned (done ++ [t]) d := by
  refine ⟨h.1, forall_mem_concat h.2.1 hback, fun u hu hn => ?_⟩
  refine h.2.2 u hu (fun hold => hn (mem_append_left _ hold)) fun htu => hn ?_
  rw [htu]
  simp

variable (hω : ω.NeverFails) {l : Locals} {phase : Phase}

theorem rollbackCreated_leads (hω : ω.NeverFails) (hdone : ∀ u ∈ done, u ∈ p.targets)
    (ht : t ∈ p.targets) (hnot : t ∉ done) (he : t.existed = false) :
    Leads (fun d _ => p.Open .activated l d ∧ p.Returned done d) (rollbackCreated ω t.path)
      (fun _ d _ => p.Open .activated l d ∧ p.Returned (done ++ [t]) d) p.Safe := by
  have horiginal := original_eq_none ht he
  have hframe := frame_returnedBut p hdone hnot
  have hput := fun {d} (x : Option Tree) (h : p.Open .activated l d ∧ p.Returned done d) hd =>
    hframe.put_created ht (by simp) he h.1 ⟨h.2.1, h.2.2.1, fun u hu hn _ => h.2.2.2 u hu hn⟩ hd x
  have hnone : ∀ (d : Disk) (l' : Locals), p.Open .activated l d ∧ p.Returned done d →
      d.exists t.path = false → p.Open .activated l d ∧ p.Returned (done ++ [t]) d := by
    intro d l' h hd
    refine ⟨h.1, returned_concat p ⟨h.2.1, h.2.2.1, fun u hu hn _ => h.2.2.2 u hu hn⟩ ⟨?_, ?_⟩⟩
    · rw [horiginal]
      exact found_eq_none hd
    · exact (h.2.2.2 t ht hnot).2.trans horiginal
  refine .look_bind fun present => ?_
  cases present with
  | false => exact .pure fun d l' h => hnone d l' h.1 h.2
  | true =>
    refine .seq (fun d _ => p.Open .activated l d ∧ p.Returned (done ++ [t]) d)
      (.removeIgnoringErrors_done nofun hω (fun _ d l' h => h.1.1.safe trivial l')
        (fun _ d l' x h hd => (hput x h.1 hd).1.safe trivial l') (fun d l' h hd => ?_)
        (fun d l' h hd => hnone d l' h.1 hd) fun d l' c h hn => ?_) fun _ => ?_
    · refine ⟨(hput none h.1 hd).1, returned_concat p (hput none h.1 hd).2 ⟨?_, ?_⟩⟩
      · rw [horiginal]
        exact slot_put_self p.separate h.1.1.base.parents ht .root none
      · exact (slot_put_other p.separate ht ht .root (.inr (by decide)) none).trans
          ((h.1.2.2.2 t ht hnot).2.trans horiginal)
    · have hroot := (h.1.2.2.2 t ht hnot).1
      rw [show p.found d t .root = d.tree.get t.path from rfl, hn] at hroot
      cases hroot
    · exact .touch fun d l' h => h.1.safe trivial l'

theorem rollbackRoot_leads (hω : ω.NeverFails)
    (hl : ∀ t ∈ p.targets, l.rollbackByRoot t.id = p.rollbackOf t)
    (hdone : ∀ u ∈ done, u ∈ p.targets) (ht : t ∈ p.targets) (hnot : t ∉ done) :
    Leads (fun d _ => p.Open .activated l d ∧ p.Returned done d)
      (rollbackRoot ω (t.path, p.rollbackOf t))
      (fun _ d _ => p.Open .activated l d ∧ p.Returned (done ++ [t]) d) p.Safe := by
  by_cases he : t.existed = true
  · rw [rollbackOf_existed he]
    refine .look_bind fun present => ?_
    cases present with
    | false =>
      refine .impossible fun d l' h => ?_
      have hnone : p.found d t .rollback = none := found_eq_none h.2
      rw [(h.1.2.2.2 t ht hnot).2] at hnone
      exact original_ne_none ht he hnone
    | true =>
      have hnamed : l.rollbackByRoot t.id = some (p.names.rollbackPath t) := by
        rw [hl t ht, rollbackOf_existed he]
      refine (swapBack_leads p ω (show Phase.Undecided .activated from trivial) ht
        (frame_returnedBut p hdone hnot) he hnamed).conseq
        (fun d l' h => ?_) (fun _ d l' h => ⟨h.1.1, returned_concat p h.1.2 h.2⟩)
        fun _ _ h => h
      exact ⟨⟨h.1.1, h.1.2.1, h.1.2.2.1, fun u hu hn _ => h.1.2.2.2 u hu hn⟩,
        (h.1.2.2.2 t ht hnot).2⟩
  · have he' : t.existed = false := by simpa using he
    rw [rollbackOf_absent he']
    exact rollbackCreated_leads p ω hω hdone ht hnot he'

theorem unlink_back (h : p.Open phase l d) (hback : ∀ t ∈ p.targets, p.Back d t)
    (hstaging : ∀ t ∈ p.targets, p.found d t .staging = none) :
    p.Base (d.unlinkJournal p.names.journal) ∧ p.Recoverable (d.unlinkJournal p.names.journal) :=
  ⟨h.base.unlinkJournal _, .reverted h.journal.unlink hback hstaging⟩

theorem rollback_leads (hω : ω.NeverFails) {result : Result} :
    Leads (fun d _ => p.Published result d) (rollback ω result) (fun _ => p.Safe) p.Safe := by
  refine .assume fun d₀ l₀ h₀ => ?_
  obtain ⟨l, hj, hl⟩ := h₀.journal
  have hzip : result.destinations.zip result.rollbacks =
      p.targets.map fun t => (t.path, p.rollbackOf t) := by
    rw [h₀.destinations, h₀.rollbacks]
    exact zip_map'
  unfold rollback
  rw [hzip, h₀.id]
  refine .bind (.pre (.forM_map (fun done d _ => p.Open .activated l d ∧
    p.Returned done d) p.targets fun done t rest hlist => ?_) fun d l' h => ?_) fun _ => ?_
  · obtain ⟨ht, hnot⟩ := not_mem_done p hlist
    refine rollbackRoot_leads p ω hω hl (fun u hu => ?_) ht hnot
    rw [hlist]
    exact mem_append_left _ hu
  · obtain ⟨rfl, rfl⟩ := h
    have hsafe := h₀.safe l'
    refine ⟨⟨h₀.base, proper_of_rollbackOf hl, hj, fun t ht => ?_⟩, fun t ht =>
      (h₀.places t ht).2.1, by simp, fun t ht _ => ⟨(h₀.places t ht).1, (h₀.places t ht).2.2⟩⟩
    exact h₀.undoable hl t ht
  · refine .write (fun d l' h => h.1.safe trivial l') fun d l' h => ?_
    exact unlink_back p h.1 h.2.2.1 h.2.1

/-! ### `reconcile` -/

/-- No journal is left. -/
abbrev Plan.AtRest (p : Plan) : Fact := fun d l => p.Safe d l ∧ d.journals = []

variable (s : Service) (hs : s.healthCheck = none) (p : Plan) (ω : Oracle) {t : Target} {l : Locals}
include hs

theorem reconcileJournal_of_loop {P R : Fact} {r : Record} (hP : ∀ d l, P d l → p.Safe d l)
    (hR : ∀ d l, R d l → p.Safe d l)
    (hloop : Leads P (r.roots.forM (recoverItem ω r false)) (fun _ => R) p.Safe)
    (hend : ∀ d l, R d l → p.AtRest (d.unlinkJournal p.names.journal) l) :
    Leads P (reconcileJournal s ω (p.names.journal, r)) (fun _ => p.AtRest) p.Safe := by
  refine (Judged.assure hP).next ((Judged.assure hP).next ?_)
  cases validateJournal s r with
  | error message => exact .raise hP
  | ok u =>
    refine .bind (Q := fun healthy d l => healthy = false ∧ P d l)
      (.look fun d l h => ⟨by simp [Service.healthy, hs], h⟩) fun healthy => .given ?_
    rintro rfl
    refine .seq P ?_ fun _ => ?_
    · unfold markHealthy
      rw [if_neg (by simp)]
      exact .pure same
    refine hloop.next ?_
    refine .seq p.AtRest (.write hR hend) fun _ => ?_
    exact .touch fun d l h => h.1

omit hs

/-- Every target of the list has been brought back, and its staging directory removed. -/
def Plan.Cleared (p : Plan) (done : List Target) (d : Disk) : Prop :=
  ∀ t ∈ done, p.Back d t ∧ p.found d t .staging = none

theorem frame_cleared (hdone : ∀ u ∈ done, u ∈ p.targets) (hnot : t ∉ done) (places : List Slot) :
    p.Frame t places (p.Cleared done) := by
  intro d d' hsame h u hu
  have hne : t ≠ u := fun htu => hnot (htu ▸ hu)
  unfold Plan.Back
  rw [hsame u (hdone u hu) .root (.inl hne), hsame u (hdone u hu) .rollback (.inl hne),
    hsame u (hdone u hu) .staging (.inl hne)]
  exact h u hu

theorem cleared_concat (h : p.Cleared done d) (hback : p.Back d t)
    (hstaging : p.found d t .staging = none) : p.Cleared (done ++ [t]) d :=
  forall_mem_concat h ⟨hback, hstaging⟩

theorem done_mem {done rest : List Target} (h : p.targets = done ++ t :: rest) :
    ∀ u ∈ done, u ∈ p.targets := by
  intro u hu
  rw [h]
  exact mem_append_left _ hu

theorem recover_undecided (hphase : phase.Undecided) (hl : p.Proper l) :
    Leads (fun d _ => p.Open phase l d)
      ((p.record phase l).roots.forM (recoverItem ω (p.record phase l) false))
      (fun _ d _ => p.Open phase l d ∧ p.Cleared p.targets d) p.Safe := by
  refine .pre (.forM_map (fun done d _ => p.Open phase l d ∧ p.Cleared done d)
    p.targets fun done t rest hlist => ?_) (fun d l' h => ⟨h, by simp [Plan.Cleared]⟩)
  obtain ⟨ht, hnot⟩ := not_mem_done p hlist
  have hdone := done_mem p hlist
  have heq : recoverItem ω (p.record phase l) false (t.item p.names l) =
      (revertItem ω (p.record phase l) (t.item p.names l) >>= fun _ =>
        cleanStaging ω (t.item p.names l)) := by
    cases phase with
    | staged | committed => exact hphase.elim
    | displacing | displaced | publishing | activated => rfl
  rw [heq]
  refine (revertItem_leads p ω hphase ht (frame_cleared p hdone hnot _) hl).next ?_
  refine .removeIfExists (fun d l' h => h.1.1.safe hphase l') (fun d l' x h hd => ?_)
    (fun d l' h hd => ?_) fun d l' h hd => ?_
  · exact (h.1.1.put_staging ht (found_ne_none hd) x).safe hphase l'
  · refine ⟨h.1.1.put_staging ht (found_ne_none hd) none,
      cleared_concat p ((frame_cleared p hdone hnot [.staging]).put ht (k := .staging) (by simp)
        none h.1.2) ⟨?_, ?_⟩ ?_⟩
    · exact (slot_put_other p.separate ht ht .staging (.inr (by decide)) none).trans h.2.1
    · exact (slot_put_other p.separate ht ht .staging (.inr (by decide)) none).trans h.2.2
    · exact slot_put_self p.separate h.1.1.base.parents ht .staging none
  · exact ⟨h.1.1, cleared_concat p h.1.2 h.2 (found_eq_none hd)⟩

/-- The journal of `d` is `staged`, and nothing has been moved. -/
def Plan.Staging (p : Plan) (l : Locals) (d : Disk) : Prop :=
  p.Base d ∧ p.Journal d (p.record .staged l) ∧ p.Intact d

theorem recover_staged (hl : p.Proper l) :
    Leads (fun d _ => p.Staging l d)
      ((p.record .staged l).roots.forM (recoverItem ω (p.record .staged l) false))
      (fun _ d _ => p.Staging l d ∧ ∀ t ∈ p.targets, p.found d t .staging = none) p.Safe := by
  have hsafe : ∀ d (l' : Locals), p.Staging l d → p.Safe d l' :=
    fun d l' h => ⟨h.1, .staged l hl h.2.1 h.2.2⟩
  have hput : ∀ (d : Disk) (t : Target) (x : Option Tree), t ∈ p.targets → p.Staging l d →
      p.Staging l (d.put (p.names.stagingPath t) x) := fun d t x ht h =>
    ⟨h.1.put ht .staging x, h.2.1, h.2.2.put_staging ht x⟩
  refine .pre (.forM_map (fun done d _ => p.Staging l d ∧
    ∀ t ∈ done, p.found d t .staging = none) p.targets fun done t rest hlist => ?_)
    (fun d l' h => ⟨h, by simp⟩)
  obtain ⟨ht, hnot⟩ := not_mem_done p hlist
  have hdone := done_mem p hlist
  refine .removeIfExists (fun d l' h => hsafe d l' h.1)
    (fun d l' x h _ => hsafe _ l' (hput d t x ht h.1)) (fun d l' h hd => ?_)
    fun d l' h hd => ⟨h.1, forall_mem_concat h.2 (found_eq_none hd)⟩
  refine ⟨hput d t none ht h.1, forall_mem_concat (fun u hold => ?_)
    (slot_put_self p.separate h.1.1.parents ht .staging none)⟩
  have hne : t ≠ u := fun htu => hnot (htu ▸ hold)
  exact (slot_put_other p.separate ht (hdone u hold) .staging (.inl hne) none).trans (h.2 u hold)

/-- The loop of a journal that says that the restored roots stay. -/
theorem recover_committed (hl : p.Proper l) :
    Leads (fun d _ => p.Cleaning l (fun _ _ => False) d)
      ((p.record .activated l).roots.forM
        (recoverItem ω { p.record .activated l with phase := .committed } false))
      (fun _ d _ => p.Cleaning l (fun t k => t ∈ p.targets ∧ k ≠ .root) d) p.Safe := by
  refine .pre (.forM_map (fun done d _ => p.Cleaning l
    (fun t k => t ∈ done ∧ k ≠ .root) d) p.targets fun done t rest hlist => ?_)
    fun d l' h => h.mono fun u hu k hk => by simp at hk
  obtain ⟨ht, -⟩ := not_mem_done p hlist
  refine (discardRollback_leads p ω hl ht).next ?_
  refine (clean_leads p ω ht (k := .staging) (by decide)).post fun _ d l' h =>
    h.mono fun u hu k hk => .inl ?_
  rcases mem_append.1 hk.1 with hold | hnew
  · exact .inl (.inl ⟨hold, hk.2⟩)
  · have hut := mem_singleton.1 hnew
    cases k with
    | root => exact absurd rfl hk.2
    | staging => exact .inr ⟨hut, rfl⟩
    | rollback => exact .inl (.inr ⟨hut, rfl⟩)

/-- **Reconciliation settles what an interrupted restore has left.** -/
theorem reconcile_leads (hs : s.healthCheck = none) :
    Leads p.Safe (reconcile s ω) (fun _ => p.AtRest) p.Safe := by
  refine .assume fun d₀ l₀ h₀ => ?_
  refine .bind (Q := fun journals d l => journals = d₀.journals ∧ d = d₀ ∧ l = l₀)
    (.look fun d l h => ⟨by rw [h.1], h⟩) fun journals => .given ?_
  rintro rfl
  refine .asSafeError ?_
  have hnone : d₀.journals = [] → Leads (fun d l => d = d₀ ∧ l = l₀)
      (d₀.journals.forM (reconcileJournal s ω)) (fun _ => p.AtRest) p.Safe := by
    intro hj
    rw [hj]
    refine .pure fun d l h => ?_
    obtain ⟨rfl, rfl⟩ := h
    exact ⟨h₀, hj⟩
  have hone : ∀ r, p.Journal d₀ r → Leads (fun d l => d = d₀ ∧ l = l₀)
      (reconcileJournal s ω (p.names.journal, r)) (fun _ => p.AtRest)
      p.Safe → Leads (fun d l => d = d₀ ∧ l = l₀) (d₀.journals.forM (reconcileJournal s ω))
      (fun _ => p.AtRest) p.Safe := by
    intro r hj h
    rw [show d₀.journals = _ from hj]
    exact h.next (.pure same)
  obtain ⟨hbase, hform⟩ := h₀
  rcases hform with ⟨hj, hw, hi⟩ | ⟨hj, hi, hst⟩ | ⟨hj, hr, hst, hb⟩ | ⟨l, hp, hj, hi⟩ |
    ⟨phase, l, hphase, hp, hj, hu⟩ | ⟨l, hp, hj, hr, hn⟩
  · exact hnone hj
  · exact hnone hj
  · exact hnone hj
  · refine hone _ hj (.pre (reconcileJournal_of_loop s hs p ω
      (fun d l' h => ⟨h.1, .staged l hp h.2.1 h.2.2⟩)
      (fun d l' h => ⟨h.1.1, .staged l hp h.1.2.1 h.1.2.2⟩) (recover_staged p ω hp)
      fun d l' h => ?_) fun d l' h => ?_)
    · exact ⟨⟨h.1.1.unlinkJournal _, .reverted h.1.2.1.unlink h.1.2.2 h.2⟩, h.1.2.1.unlink⟩
    · obtain ⟨rfl, -⟩ := h
      exact ⟨hbase, hj, hi⟩
  · refine hone _ hj (.pre (reconcileJournal_of_loop s hs p ω
      (fun d l' h => h.safe hphase l') (fun d l' h => h.1.safe hphase l')
      (recover_undecided p ω hphase hp) fun d l' h => ?_) fun d l' h => ?_)
    · exact ⟨unlink_back p h.1 (fun t ht => (h.2 t ht).1) fun t ht => (h.2 t ht).2,
        h.1.journal.unlink⟩
    · obtain ⟨rfl, -⟩ := h
      exact ⟨hbase, hp, hj, hu⟩
  · refine hone _ hj (.pre (reconcileJournal_of_loop s hs p ω
      (fun d l' h => h.safe l') (fun d l' h => h.safe l') (recover_committed p ω hp)
      fun d l' h => ?_) fun d l' h => ?_)
    · exact ⟨unlink_cleaned p h fun t ht k hk => ⟨ht, hk⟩, h.journal.unlink⟩
    · obtain ⟨rfl, -⟩ := h
      exact ⟨hbase, hp, hj, hr, hn, fun _ _ _ h => h.elim⟩

end Rollback

/-! ### A whole restore -/

section Whole

variable {s : Service} {a : Archive} {names : Names} {d₀ : Disk} {d : Disk}

/-- The plan that a restore follows once its targets have been read. -/
def planOf (hn : s.NotNested) (hf : names.Fresh s a d₀) {targets : List Target}
    (ht : TargetsOf s a d₀ targets) : Plan where
  archive := a
  names := names
  targets := targets
  origin := d₀
  separate := separate_of_fresh hn hf ht
  nodup := ht.nodup
  ids := fun t htt u hu hid => ht.ext htt hu (ht.pathOfId t htt u hu hid)
  existed := ht.existed

/-- All roots are old or all are restored, and neither a journal is left nor anything that a journal
has named. -/
structure Settled (s : Service) (a : Archive) (origin d : Disk) : Prop where
  journals : d.journals = []
  roots : (∀ root ∈ s.approved, d.tree.get root = origin.tree.get root) ∨
    ∀ root ∈ s.approved, d.tree.get root = some (.dir (a.image (a.rootId s root)))
  named : ∀ r ∈ d.written, ∀ item ∈ r.roots, d.tree.get item.staging = none ∧
    ∀ rollback, item.rollback = some rollback → d.tree.get rollback = none

/-- What a restore or a reconciliation may leave. -/
def Left (s : Service) (a : Archive) (names : Names) (d₀ d : Disk) : Prop :=
  d = d₀ ∨ ∃ (hn : s.NotNested) (hf : names.Fresh s a d₀) (targets : List Target)
    (ht : TargetsOf s a d₀ targets), (planOf hn hf ht).Base d ∧ (planOf hn hf ht).Recoverable d

theorem Plan.Base.named {p : Plan} (h : p.Base d)
    (hstaging : ∀ t ∈ p.targets, p.found d t .staging = none)
    (hrollback : ∀ t ∈ p.targets, p.found d t .rollback = none) :
    ∀ r ∈ d.written, ∀ item ∈ r.roots, d.tree.get item.staging = none ∧
      ∀ rollback, item.rollback = some rollback → d.tree.get rollback = none := by
  intro r hr item hitem
  obtain ⟨t, ht, l, hproper, rfl⟩ := h.written r hr item hitem
  refine ⟨hstaging t ht, fun rollback hsome => ?_⟩
  rcases hproper t ht with hnone | hpath
  · rw [show (t.item p.names l).rollback = none from hnone] at hsome
    cases hsome
  · rw [show (t.item p.names l).rollback = _ from hpath] at hsome
    rw [← some.inj hsome]
    exact hrollback t ht

/-- **Without a journal the roots are settled.** -/
theorem Left.settled (h : Left s a names d₀ d) (hclean : d₀.journals = [])
    (hwritten : d₀.written = []) (hj : d.journals = []) : Settled s a d₀ d := by
  rcases h with rfl | ⟨hn, hf, targets, ht, hbase, hform⟩
  · exact ⟨hclean, .inl fun _ _ => rfl, by simp [hwritten]⟩
  · have hold : (planOf hn hf ht).Intact d →
        ∀ root ∈ s.approved, d.tree.get root = d₀.tree.get root := by
      intro hi root hroot
      obtain ⟨t, htt, rfl⟩ := ht.complete root hroot
      exact (hi t htt).1
    have hsome : ∀ r, ¬ (planOf hn hf ht).Journal d r := by
      intro r hr
      unfold Plan.Journal at hr
      rw [hj] at hr
      cases hr
    rcases hform with ⟨-, hw, hi⟩ | ⟨-, hi, hst⟩ | ⟨-, hr, hst, hb⟩ | ⟨l, -, hjr, -⟩ |
      ⟨phase, l, -, -, hjr, -⟩ | ⟨l, -, hjr, -⟩
    · exact ⟨hj, .inl (hold hi), by simp [hw]⟩
    · exact ⟨hj, .inl (hold hi), hbase.named hst fun t htt => (hi t htt).2⟩
    · refine ⟨hj, .inr fun root hroot => ?_, hbase.named hst hb⟩
      obtain ⟨t, htt, rfl⟩ := ht.complete root hroot
      rw [← ht.id t htt]
      exact hr t htt
    all_goals exact absurd hjr (hsome _)

/-- The checks of a restore and its targets; from then on it is about them. -/
theorem Judged.restore {S : Prop} {ω : Oracle} (hω : S → ω.Undisturbed) {R : Result → Fact}
    {E : Fact} (hE : ∀ d l, d = d₀ ∧ l = .new → E d l)
    (hrest : a.refusal = none → ∀ targets, TargetsOf s a d₀ targets →
      Judged S (fun d l => d = d₀ ∧ l = .new) (restoreTargets s ω a names targets) R E) :
    Judged S (fun d l => d = d₀ ∧ l = .new) (restore s ω a names) R E := by
  refine (perform_assure hω hE).next ((perform_assure hω hE).next ?_)
  refine (perform_assure hω hE).next ((perform_assure hω hE).next ?_)
  refine asSafeError ((perform_assure hω hE).next ?_)
  refine (raiseIf hE).bind fun _ => .given fun haccepted => ?_
  refine ((readTargets_judged s a hω).leave hE).bind fun targets => ?_
  exact .given (hrest haccepted targets)

/-- A restore that returns has published, and one that stops is recoverable. -/
theorem restore_leads (hs : s.healthCheck = none) (hn : s.NotNested) (hf : names.Fresh s a d₀)
    (hclean : d₀.journals = []) (hwritten : d₀.written = []) (ω : Oracle) :
    Leads (fun d l => d = d₀ ∧ l = .new) (restore s ω a names)
      (fun result d _ => ∃ (targets : List Target) (ht : TargetsOf s a d₀ targets),
        (planOf hn hf ht).Published result d) (fun d _ => Left s a names d₀ d) := by
  refine .restore nofun (fun _ _ h => .inl h.1) fun _ targets ht => ?_
  refine (restoreTargets_leads s hs (planOf hn hf ht) ω hclean hwritten ht.parents ?_).conseq
    (fun _ _ h => h) (fun _ _ _ h => ⟨targets, ht, h⟩) fun d l h => ?_
  · intro t htt
    have hvacant := hf.vacant t.path (ht.approved t htt)
    rw [← ht.id t htt] at hvacant
    exact hvacant
  · exact .inr ⟨hn, hf, targets, ht, h⟩

theorem restoreAndEnd_leads (hs : s.healthCheck = none) (hn : s.NotNested)
    (hf : names.Fresh s a d₀) (hclean : d₀.journals = []) (hwritten : d₀.written = []) (ω : Oracle)
    (hω : ω.NeverFails) (ending : Ending) :
    Leads (fun d l => d = d₀ ∧ l = .new) (restoreAndEnd s ω a names ending)
      (fun _ d _ => Left s a names d₀ d) (fun d _ => Left s a names d₀ d) := by
  refine (restore_leads hs hn hf hclean hwritten ω).bind fun result => ?_
  intro st hst
  obtain ⟨hlive, targets, ht, hpublished⟩ := hst
  have hleft : ∀ d l, (planOf hn hf ht).Safe d l → Left s a names d₀ d :=
    fun d l h => .inr ⟨hn, hf, targets, ht, h⟩
  cases ending with
  | finalize =>
    exact ((finalize_leads (planOf hn hf ht) ω).conseq (fun _ _ h => h) (fun _ => hleft) hleft)
      st ⟨hlive, hpublished⟩
  | rollback =>
    exact ((rollback_leads (planOf hn hf ht) ω hω).conseq (fun _ _ h => h) (fun _ => hleft) hleft)
      st ⟨hlive, hpublished⟩

theorem reconcile_no_journal (s : Service) (hclean : d₀.journals = []) (ω : Oracle) :
    Leads (fun d _ => d = d₀) (reconcile s ω) (fun _ d _ => d = d₀) (fun d _ => d = d₀) := by
  refine .bind (Q := fun journals d _ => journals = [] ∧ d = d₀)
    (.look fun d l h => ⟨by rw [h, hclean], h⟩) fun journals => .given ?_
  rintro rfl
  exact .asSafeError (.pure same)

/-- A reconciliation leaves what is recoverable, and nothing undecided if it ends. -/
theorem reconcile_left (hs : s.healthCheck = none) (hclean : d₀.journals = []) (ω : Oracle) :
    Leads (fun d _ => Left s a names d₀ d) (reconcile s ω)
      (fun _ d _ => Left s a names d₀ d ∧ d.journals = []) (fun d _ => Left s a names d₀ d) := by
  intro st hst
  obtain ⟨hlive, hsame | ⟨hn, hf, targets, ht, hsafe⟩⟩ := hst
  · have hloop := reconcile_no_journal s hclean ω
    exact (hloop.conseq (fun _ _ h => h) (fun _ d l h => ⟨.inl h, by rw [h, hclean]⟩)
      fun d l h => .inl h) st ⟨hlive, hsame⟩
  · exact ((reconcile_leads s (planOf hn hf ht) ω hs).conseq (fun _ _ h => h)
      (fun _ d l h => ⟨.inr ⟨hn, hf, targets, ht, h.1⟩, h.2⟩)
      fun d l h => .inr ⟨hn, hf, targets, ht, h⟩) st ⟨hlive, hsafe⟩

theorem reconcileAll_left (hs : s.healthCheck = none) (hclean : d₀.journals = [])
    (oracles : List Oracle) (h : Left s a names d₀ d) :
    Left s a names d₀ (reconcileAll s oracles d) := by
  induction oracles generalizing d with
  | nil => exact h
  | cons ω oracles ih =>
    have hone : Leads (fun d _ => Left s a names d₀ d) (reconcile s ω)
        (fun _ d _ => Left s a names d₀ d) (fun d _ => Left s a names d₀ d) :=
      (reconcile_left hs hclean ω).post fun _ _ _ h => h.1
    exact ih (hone.final h)

/-- **A restore is atomic across crashes.**  A restore of roots that are not nested, followed by
`finalize` or `rollback`, is killed anywhere, and so are any number of reconciliations; the first
one that comes to its end leaves all roots as they were or all of them restored, and neither a
journal nor any directory that a journal has named. -/
theorem restore_atomic (s : Service) (hs : s.healthCheck = none) (hn : s.NotNested) (a : Archive)
    (names : Names) (d : Disk) (hclean : d.journals = []) (hwritten : d.written = [])
    (hf : names.Fresh s a d) (ω : Oracle) (hω : ω.NeverFails) (ending : Ending)
    (oracles : List Oracle) (last : Oracle) :
    let left := ((restoreAndEnd s ω a names ending).run (start d)).2.disk
    let ended := (reconcile s last).run (start (reconcileAll s oracles left))
    ended.1 = .ok () → Settled s a d ended.2.disk := by
  intro left ended hended
  have hleft : Left s a names d left :=
    final (restoreAndEnd_leads hs hn hf hclean hwritten ω hω ending) ⟨rfl, rfl⟩
  have hbefore := reconcileAll_left hs hclean oracles hleft
  have hlast := reconcile_left hs hclean last (start (reconcileAll s oracles left)) ⟨nofun, hbefore⟩
  rcases hrun : (reconcile s last).run (start (reconcileAll s oracles left)) with ⟨r, st⟩
  have hr : r = .ok () := by
    have h := hended
    simp only [ended, hrun] at h
    exact h
  rw [hrun, hr] at hlast
  have hst : ended.2.disk = st.disk := by simp only [ended, hrun]
  rw [hst]
  exact hlast.2.1.settled hclean hwritten hlast.2.2

end Whole

/-! ### Two interruptions -/

def sampleIdentity (root : Path) : String := root.foldl (· ++ ·) ""

def sampleRoots : List Path := [["srv", "world"], ["srv", "mods"]]

/-- A root and the directory that holds it. -/
def nestedRoots : List Path := [["srv", "game", "world"], ["srv", "game"]]

def sampleService : Service :=
  ⟨sampleRoots, sampleIdentity, none, by decide, by decide, by decide, by decide⟩

def nestedService : Service :=
  ⟨nestedRoots, sampleIdentity, none, by decide, by decide, by decide, by decide⟩

def sampleArchive (roots : List Path) : Archive :=
  ⟨"b1", none, some (roots.map fun root => ⟨rootIdOf sampleIdentity root, sampleIdentity root⟩),
    none, fun _ => [("level.dat", .file [1])]⟩

def sampleNames : Names := ⟨fun _ => "s", fun id => id, 5⟩

def sampleDisk : Disk := ⟨.dir [("srv", .dir [("world", .dir [("level.dat", .file [0])])])], [], []⟩

def nestedDisk : Disk :=
  ⟨.dir [("srv", .dir [("game", .dir [("world", .dir [("level.dat", .file [0])])])])], [], []⟩

def calm : Oracle := fun _ => ⟨.go, true, true, fun _ => false, fun _ => []⟩

/-- The process is killed at the given step. -/
def killedAt : Oracle := fun k => { calm k with fate := if k = step then .kill else .go }

theorem killedAt_neverFails : (killedAt step).NeverFails := by
  intro k
  unfold killedAt
  dsimp only
  split
  · decide
  · decide

theorem sampleService_notNested : sampleService.NotNested := by
  unfold Service.NotNested
  decide

instance {P : Slot → Prop} [DecidablePred P] : Decidable (∀ k, P k) :=
  decidable_of_iff (P .root ∧ P .staging ∧ P .rollback)
    ⟨fun h k => by cases k <;> simp_all, fun h => ⟨h _, h _, h _⟩⟩

theorem sampleNames_fresh :
    sampleNames.Fresh sampleService (sampleArchive sampleRoots) sampleDisk :=
  ⟨by decide, by decide, by decide⟩

/-- The restore is killed between the two publications, and the first reconciliation as well. -/
theorem restore_atomic_interrupted :
    let left := ((restoreAndEnd sampleService (killedAt 33) (sampleArchive sampleRoots) sampleNames
      .finalize).run (start sampleDisk)).2.disk
    let ended := (reconcile sampleService calm).run
      (start (reconcileAll sampleService [killedAt 4] left))
    left.journals.length = 1 ∧
      Settled sampleService (sampleArchive sampleRoots) sampleDisk ended.2.disk :=
  ⟨by decide +kernel,
    restore_atomic sampleService rfl sampleService_notNested (sampleArchive sampleRoots)
    sampleNames sampleDisk rfl rfl sampleNames_fresh (killedAt 33) (killedAt_neverFails 33)
    .finalize [killedAt 4] calm (by decide +kernel)⟩

/-- The outer root has been displaced, with the rollback directory of the inner one in it, when the
process is killed: the reconciliation comes to its end, and the inner root is gone. -/
theorem nested_root_lost :
    let left := ((restoreAndEnd nestedService (killedAt 28) (sampleArchive nestedRoots) sampleNames
      .finalize).run (start nestedDisk)).2.disk
    let ended := (reconcile nestedService calm).run (start left)
    ended.1 = .ok () ∧ nestedDisk.tree.get ["srv", "game", "world"] ≠ none ∧
      ended.2.disk.tree.get ["srv", "game", "world"] = none ∧
      ¬ Settled nestedService (sampleArchive nestedRoots) nestedDisk ended.2.disk := by
  intro left ended
  have hgone : ended.2.disk.tree.get ["srv", "game", "world"] = none :=
    isNone_iff_eq_none.1 (by decide +kernel)
  have hbefore : nestedDisk.tree.get ["srv", "game", "world"] ≠ none := nofun
  refine ⟨by decide +kernel, hbefore, hgone, fun h => ?_⟩
  have hmem : ["srv", "game", "world"] ∈ nestedService.approved := .head _
  rcases h.roots with hold | hnew
  · exact hbefore ((hold _ hmem).symm.trans hgone)
  · have hrestored := (hnew _ hmem).symm.trans hgone
    cases hrestored

end Horizon.Restore
