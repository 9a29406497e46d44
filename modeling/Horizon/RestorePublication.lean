/-
**Every step of a restore can be undone.**

Wherever a restore is killed, the disk is in one of six forms: no journal has been written, the
journal says that nothing has been moved, it names enough to undo what was moved, it says that the
restored roots stay, or there is no journal any more and all roots are the old ones or all are the
restored ones.

All this rests on the places of the targets being apart: an approved root inside another one is
moved away together with the rollback directory of the inner root.

Main results:

* `Restore.restoreTargets_leads` — **a restore stays recoverable from its first to its last step**.
-/

import Horizon.RestoreRules

namespace Horizon.Restore

open List
open Coroutine (forall_mem_concat)
open FileTree (Path)
open Function

/-! ### Forms of the disk -/

/-- A restore whose targets have been read. -/
structure Plan where
  archive : Archive
  names : Names
  targets : List Target
  /-- The disk before the restore. -/
  origin : Disk
  separate : Separate names targets
  nodup : targets.Nodup
  ids : ∀ t ∈ targets, ∀ u ∈ targets, t.id = u.id → t = u
  existed : ∀ t ∈ targets, t.existed = origin.exists t.path

/-- The phases in which it is open what becomes of the roots. -/
def Phase.Undecided : Phase → Prop
  | .staged => False
  | .committed => False
  | _ => True

variable {r : Record} {l' : Locals}

namespace Plan

variable (p : Plan)

def original (t : Target) : Option Tree := p.origin.tree.get t.path

def restored (t : Target) : Option Tree := some (.dir (p.archive.image t.id))

abbrev found (d : Disk) (t : Target) (k : Slot) : Option Tree := slot p.names d t k

abbrev record (phase : Phase) (l : Locals) : Record :=
  journalRecord p.archive p.names p.targets phase l

/-- The rollback directory that a target has once it is displaced. -/
def rollbackOf (t : Target) : Option Path :=
  if t.existed then some (p.names.rollbackPath t) else none

/-- The rollback directories in the variables are those of their targets. -/
def Proper (l : Locals) : Prop :=
  ∀ t ∈ p.targets, l.rollbackByRoot t.id = none ∨
    l.rollbackByRoot t.id = some (p.names.rollbackPath t)

def Logs (r : Record) : Prop :=
  ∀ item ∈ r.roots, ∃ t ∈ p.targets, ∃ l, p.Proper l ∧ item = t.item p.names l

structure Base (d : Disk) : Prop where
  parents : Parents p.targets d
  written : ∀ r ∈ d.written, p.Logs r

/-- The journal names enough to bring the root back. -/
structure Undoable (r : Record) (l : Locals) (d : Disk) (t : Target) : Prop where
  existing : t.existed = true →
    (p.found d t .rollback = p.original t ∧ l.rollbackByRoot t.id = some (p.names.rollbackPath t)) ∨
      (p.found d t .rollback = none ∧ p.found d t .root = p.original t)
  absent : t.existed = false → p.found d t .rollback = none ∧
    (p.found d t .root = none ∨ p.found d t .staging = none ∨ t.id ∈ r.activated ∨
      t.id ∈ r.displaced)

/-- All roots are as before, and nothing has been moved. -/
def Intact (d : Disk) : Prop :=
  ∀ t ∈ p.targets, p.found d t .root = p.original t ∧ p.found d t .rollback = none

/-- The journal of this restore is the only one. -/
def Journal (d : Disk) (r : Record) : Prop := d.journals = [(p.names.journal, r)]

inductive Recoverable (d : Disk) : Prop
  | unwritten (journals : d.journals = []) (written : d.written = []) (intact : p.Intact d)
  | reverted (journals : d.journals = []) (intact : p.Intact d)
      (staging : ∀ t ∈ p.targets, p.found d t .staging = none)
  | replaced (journals : d.journals = []) (root : ∀ t ∈ p.targets, p.found d t .root = p.restored t)
      (staging : ∀ t ∈ p.targets, p.found d t .staging = none)
      (rollback : ∀ t ∈ p.targets, p.found d t .rollback = none)
  | staged (l : Locals) (proper : p.Proper l) (journal : p.Journal d (p.record .staged l))
      (intact : p.Intact d)
  | undecided (phase : Phase) (l : Locals) (hphase : phase.Undecided) (proper : p.Proper l)
      (journal : p.Journal d (p.record phase l))
      (undoable : ∀ t ∈ p.targets, p.Undoable (p.record phase l) l d t)
  | committed (l : Locals) (proper : p.Proper l)
      (journal : p.Journal d { p.record .activated l with phase := .committed })
      (root : ∀ t ∈ p.targets, p.found d t .root = p.restored t)
      (named : ∀ t ∈ p.targets, p.found d t .rollback = none ∨
        l.rollbackByRoot t.id = some (p.names.rollbackPath t))

def Safe : Fact := fun d _ => p.Base d ∧ p.Recoverable d

/-! ### Small facts -/

variable {p}

variable {t : Target}

theorem original_eq_none (ht : t ∈ p.targets) (h : t.existed = false) : p.original t = none := by
  rw [p.existed t ht] at h
  simpa [Disk.exists, original] using h

theorem original_ne_none (ht : t ∈ p.targets) (h : t.existed = true) : p.original t ≠ none := by
  rw [p.existed t ht] at h
  simp only [Disk.exists, Option.isSome_iff_ne_none] at h
  exact h

theorem exists_eq (d : Disk) (t : Target) (k : Slot) :
    d.exists (slotPath p.names t k) = (p.found d t k).isSome := rfl

variable {d : Disk}

theorem found_eq_none {k : Slot}
    (h : d.exists (slotPath p.names t k) = false) : p.found d t k = none := by
  rw [exists_eq] at h
  simpa using h

theorem found_ne_none {k : Slot}
    (h : d.exists (slotPath p.names t k) = true) : p.found d t k ≠ none :=
  Option.isSome_iff_ne_none.1 h

variable {l : Locals} {phase : Phase} {x : Option Path} {d' : Disk}

theorem logs_record (h : p.Proper l) : p.Logs (p.record phase l) := by
  intro item hitem
  obtain ⟨t, ht, rfl⟩ := mem_map.1 hitem
  exact ⟨t, ht, l, h, rfl⟩

theorem Base.put (h : p.Base d) (ht : t ∈ p.targets) (k : Slot)
    (x : Option Tree) : p.Base (d.put (slotPath p.names t k) x) :=
  ⟨parents_put p.separate h.parents ht k x, h.written⟩

theorem Base.move (h : p.Base d) (ht : t ∈ p.targets) (k j : Slot) :
    p.Base (d.move (slotPath p.names t k) (slotPath p.names t j)) :=
  ⟨parents_move p.separate h.parents ht k j, h.written⟩

theorem Base.setJournal (h : p.Base d) {id : ℕ} (hr : p.Logs r) : p.Base (d.setJournal id r) :=
  ⟨h.parents, forall_mem_concat h.written hr⟩

theorem Base.unlinkJournal (h : p.Base d) (id : ℕ) : p.Base (d.unlinkJournal id) :=
  ⟨h.parents, h.written⟩

theorem Journal.setJournal {r' : Record} (h : p.Journal d r') (r : Record) :
    p.Journal (d.setJournal p.names.journal r) r := by
  unfold Journal at h ⊢
  simp [Disk.setJournal, h]

theorem Journal.unlink (h : p.Journal d r) : (d.unlinkJournal p.names.journal).journals = [] := by
  unfold Journal at h
  simp [Disk.unlinkJournal, h]

theorem Intact.put_staging (h : p.Intact d) (ht : t ∈ p.targets)
    (x : Option Tree) : p.Intact (d.put (p.names.stagingPath t) x) := by
  intro u hu
  have hroot := slot_put_other (j := .root) (d := d) p.separate ht hu .staging (.inr (by decide)) x
  have hrollback := slot_put_other (j := .rollback) (d := d) p.separate ht hu .staging
    (.inr (by decide)) x
  exact ⟨hroot.trans (h u hu).1, hrollback.trans (h u hu).2⟩

/-- What a staging directory holds is of no importance as long as it is there. -/
theorem Undoable.put_staging {u : Target} (h : p.Undoable r l d u) (ht : t ∈ p.targets)
    (hu : u ∈ p.targets) (hd : p.found d t .staging ≠ none) (x : Option Tree) :
    p.Undoable r l (d.put (p.names.stagingPath t) x) u := by
  have hroot : p.found (d.put (p.names.stagingPath t) x) u .root = p.found d u .root :=
    slot_put_other p.separate ht hu .staging (.inr (by decide)) x
  have hrollback : p.found (d.put (p.names.stagingPath t) x) u .rollback = p.found d u .rollback :=
    slot_put_other p.separate ht hu .staging (.inr (by decide)) x
  refine ⟨fun he => ?_, fun he => ?_⟩
  · rw [hroot, hrollback]
    exact h.existing he
  · rw [hroot, hrollback]
    refine ⟨(h.absent he).1, ?_⟩
    rcases (h.absent he).2 with hn | hn | hn
    · exact .inl hn
    · refine .inr (.inl ?_)
      have hne : t ≠ u := by
        rintro rfl
        exact hd hn
      exact (slot_put_other p.separate ht hu .staging (.inl hne) x).trans hn
    · exact .inr (.inr hn)

theorem Safe.put_staging (h : p.Safe d l) (ht : t ∈ p.targets) (hd : p.found d t .staging ≠ none)
    (x : Option Tree) : p.Safe (d.put (p.names.stagingPath t) x) l := by
  refine ⟨h.1.put ht .staging x, ?_⟩
  rcases h.2 with ⟨hj, hw, hi⟩ | ⟨hj, hi, hs⟩ | ⟨hj, hr, hs, hb⟩ | ⟨l', hp, hj, hi⟩ |
    ⟨phase, l', hphase, hp, hj, hu⟩ | ⟨l', hp, hj, hr, hn⟩
  · exact .unwritten hj hw (hi.put_staging ht x)
  · exact absurd (hs t ht) hd
  · exact absurd (hs t ht) hd
  · exact .staged l' hp hj (hi.put_staging ht x)
  · exact .undecided phase l' hphase hp hj fun u hu' => (hu u hu').put_staging ht hu' hd x
  · refine .committed l' hp hj (fun u hu => ?_) fun u hu => ?_
    · exact (slot_put_other p.separate ht hu .staging (.inr (by decide)) x).trans (hr u hu)
    · rcases hn u hu with hnone | hnamed
      · exact .inl ((slot_put_other p.separate ht hu .staging (.inr (by decide)) x).trans hnone)
      · exact .inr hnamed

/-! ### The publication -/

/-- Where a target stands, by the variables. -/
structure Placed (p : Plan) (d : Disk) (l : Locals) (t : Target) : Prop where
  activated : t ∈ l.activated → p.found d t .root = p.restored t ∧ p.found d t .staging = none ∧
    p.found d t .rollback = p.original t
  displaced : t ∉ l.activated → t ∈ l.displaced → p.found d t .root = none ∧
    p.found d t .staging = p.restored t ∧ p.found d t .rollback = p.original t
  waiting : t ∉ l.displaced → p.found d t .root = p.original t ∧
    p.found d t .staging = p.restored t ∧ p.found d t .rollback = none

/-- The journal names the rollback directory of every displaced target. -/
def Covered (p : Plan) (d : Disk) (l : Locals) : Prop :=
  (p.Journal d (p.record .staged Locals.new) ∧ l.displaced = []) ∨
    ∃ phase l', phase.Undecided ∧ p.Proper l' ∧ p.Journal d (p.record phase l') ∧
      ∀ t ∈ l.displaced, t.existed = true → l'.rollbackByRoot t.id = some (p.names.rollbackPath t)

/-- Between two steps of the publication; under `J` no other restore has a journal. -/
structure Midway (p : Plan) (J : Prop) (d : Disk) (l : Locals) : Prop where
  base : p.Base d
  placed : ∀ t ∈ p.targets, p.Placed d l t
  proper : p.Proper l
  rollback : ∀ t ∈ l.displaced, l.rollbackByRoot t.id = p.rollbackOf t
  rollbacks : l.rollbacks = l.displaced.map p.rollbackOf
  displaced : ∀ t ∈ l.displaced, t ∈ p.targets
  activated : ∀ t ∈ l.activated, t ∈ l.displaced
  covered : J → p.Covered d l

/-- The publication when it has displaced `done` and activated `act`. -/
def At (p : Plan) (J : Prop) (done act : List Target) (d : Disk) (l : Locals) : Prop :=
  p.Midway J d l ∧ l.displaced = done ∧ l.activated = act

theorem proper_new : p.Proper .new := fun _ _ => .inl rfl

theorem rollbackOf_existed (h : t.existed = true) :
    p.rollbackOf t = some (p.names.rollbackPath t) := if_pos h

theorem rollbackOf_absent (h : t.existed = false) : p.rollbackOf t = none := if_neg (by simp [h])

theorem Placed.undoable (h : p.Placed d l t) (ht : t ∈ p.targets)
    (hnamed : t ∈ l.displaced → t.existed = true →
      l'.rollbackByRoot t.id = some (p.names.rollbackPath t)) :
    p.Undoable r l' d t := by
  refine ⟨fun he => ?_, fun he => ?_⟩
  · by_cases hd : t ∈ l.displaced
    · by_cases ha : t ∈ l.activated
      · exact .inl ⟨(h.activated ha).2.2, hnamed hd he⟩
      · exact .inl ⟨(h.displaced ha hd).2.2, hnamed hd he⟩
    · exact .inr ⟨(h.waiting hd).2.2, (h.waiting hd).1⟩
  · have hnone := original_eq_none ht he
    by_cases ha : t ∈ l.activated
    · exact ⟨(h.activated ha).2.2.trans hnone, .inr (.inl (h.activated ha).2.1)⟩
    · by_cases hd : t ∈ l.displaced
      · exact ⟨(h.displaced ha hd).2.2.trans hnone, .inl (h.displaced ha hd).1⟩
      · exact ⟨(h.waiting hd).2.2, .inl ((h.waiting hd).1.trans hnone)⟩

variable {J : Prop}

theorem Midway.journal (h : p.Midway J d l) (hphase : phase.Undecided) :
    p.Midway J (d.setJournal p.names.journal (p.record phase l)) l ∧
      (J → p.Journal (d.setJournal p.names.journal (p.record phase l)) (p.record phase l)) := by
  have hj : J → p.Journal (d.setJournal p.names.journal (p.record phase l)) (p.record phase l) := by
    intro hJ
    rcases h.covered hJ with ⟨hj, -⟩ | ⟨_, _, _, _, hj, -⟩
    · exact hj.setJournal _
    · exact hj.setJournal _
  refine ⟨⟨h.base.setJournal (logs_record h.proper), ?_, h.proper, h.rollback, h.rollbacks,
    h.displaced, h.activated,
    fun hJ => .inr ⟨phase, l, hphase, h.proper, hj hJ, fun t ht he => ?_⟩⟩, hj⟩
  · exact fun t ht => ⟨(h.placed t ht).activated, (h.placed t ht).displaced,
      (h.placed t ht).waiting⟩
  · rw [h.rollback t ht, rollbackOf_existed he]

/-- The variables after a root has been displaced. -/
def advance (t : Target) (l : Locals) : Locals :=
  { l with rollbacks := l.rollbacks ++ [l.rollbackByRoot t.id], displaced := l.displaced ++ [t] }

/-- The variables with a rollback directory for a target. -/
def setRollback (t : Target) (x : Option Path) (l : Locals) : Locals :=
  { l with rollbackByRoot := update l.rollbackByRoot t.id x }

theorem proper_setRollback (h : p.Proper l) (ht : t ∈ p.targets)
    (hx : x = none ∨ x = some (p.names.rollbackPath t)) : p.Proper (setRollback t x l) := by
  intro u hu
  by_cases hid : u.id = t.id
  · have heq := p.ids u hu t ht hid
    subst heq
    simpa [setRollback] using hx
  · simpa [setRollback, update_of_ne hid] using h u hu

theorem Midway.setRollback (h : p.Midway J d l) (ht : t ∈ p.targets) (hnot : t ∉ l.displaced)
    (hx : x = none ∨ x = some (p.names.rollbackPath t)) : p.Midway J d (setRollback t x l) := by
  refine ⟨h.base, fun u hu => ?_, proper_setRollback h.proper ht hx, fun u hu => ?_, h.rollbacks,
    h.displaced, h.activated, h.covered⟩
  · exact ⟨(h.placed u hu).activated, (h.placed u hu).displaced, (h.placed u hu).waiting⟩
  · have hid : u.id ≠ t.id := fun hid => by
      rw [p.ids u (h.displaced u hu) t ht hid] at hu
      exact hnot hu
    exact (update_of_ne hid _ _).trans (h.rollback u hu)

/-- A root has been displaced, and nothing else has changed its place. -/
theorem placed_advance (h : ∀ u ∈ p.targets, p.Placed d l u) (hact : t ∉ l.activated)
    (hself : p.found d' t .root = none ∧ p.found d' t .staging = p.restored t ∧
      p.found d' t .rollback = p.original t)
    (hother : ∀ u ∈ p.targets, u ≠ t → ∀ k, p.found d' u k = p.found d u k) :
    ∀ u ∈ p.targets, p.Placed d' (advance t l) u := by
  intro u hu
  by_cases hut : u = t
  · subst hut
    refine ⟨fun ha => absurd ha hact, fun _ _ => hself, fun hn => ?_⟩
    exact absurd (mem_append_right _ (mem_singleton_self u)) hn
  · have hplaced := h u hu
    have hiff : u ∈ (Plan.advance t l).displaced ↔ u ∈ l.displaced := by
      simp [Plan.advance, hut]
    refine ⟨fun ha => ?_, fun ha hd => ?_, fun hn => ?_⟩
    · simp only [hother u hu hut]
      exact hplaced.activated ha
    · simp only [hother u hu hut]
      exact hplaced.displaced ha (hiff.1 hd)
    · simp only [hother u hu hut]
      exact hplaced.waiting fun hd => hn (hiff.2 hd)

theorem Placed.exists_root (h : p.Placed d l t) (ht : t ∈ p.targets) (hnot : t ∉ l.displaced) :
    d.exists t.path = t.existed := by
  rw [p.existed t ht]
  exact congrArg Option.isSome (h.waiting hnot).1

theorem placed_displace (h : ∀ u ∈ p.targets, p.Placed d l u) (hparents : Parents p.targets d)
    (ht : t ∈ p.targets) (hact : t ∉ l.activated) (hnot : t ∉ l.displaced) :
    ∀ u ∈ p.targets, p.Placed (d.move t.path (p.names.rollbackPath t)) (advance t l) u := by
  have hwaiting := (h t ht).waiting hnot
  refine placed_advance h hact ⟨?_, ?_, ?_⟩ fun u hu hne k => ?_
  · exact slot_move_source (k := .root) (j := .rollback) p.separate hparents ht (by decide)
  · exact (slot_move_other (k := .root) (j := .rollback) p.separate ht ht (.inr (by decide))
      (.inr (by decide))).trans hwaiting.2.1
  · exact (slot_move_target (j := .rollback) p.separate hparents ht (by decide)).trans hwaiting.1
  · exact slot_move_other (k := .root) (j := .rollback) p.separate ht hu (.inl hne.symm)
      (.inl hne.symm)

/-- There was nothing to displace. -/
theorem placed_missing (h : ∀ u ∈ p.targets, p.Placed d l u) (ht : t ∈ p.targets)
    (hact : t ∉ l.activated) (hnot : t ∉ l.displaced) (hroot : d.exists t.path = false) :
    ∀ u ∈ p.targets, p.Placed d (advance t l) u := by
  have hwaiting := (h t ht).waiting hnot
  have hnone : p.found d t .root = none := found_eq_none hroot
  have horiginal : p.original t = none := hwaiting.1.symm.trans hnone
  exact placed_advance h hact ⟨hnone, hwaiting.2.1, hwaiting.2.2.trans horiginal.symm⟩
    fun _ _ _ _ => rfl

theorem placed_activate (h : ∀ u ∈ p.targets, p.Placed d l u) (hparents : Parents p.targets d)
    (ht : t ∈ p.targets) (hact : t ∉ l.activated) (hdisplaced : t ∈ l.displaced) : ∀ u ∈ p.targets,
      p.Placed (d.move (p.names.stagingPath t) t.path) { l with activated := l.activated ++ [t] }
        u := by
  intro u hu
  have hout := (h t ht).displaced hact hdisplaced
  by_cases hut : u = t
  · subst hut
    refine ⟨fun _ => ⟨?_, ?_, ?_⟩, fun hn => absurd (by simp) hn, fun hn =>
      absurd hdisplaced hn⟩
    · exact (slot_move_target (j := .root) p.separate hparents ht (by decide)).trans hout.2.1
    · exact slot_move_source (k := .staging) (j := .root) p.separate hparents ht (by decide)
    · exact (slot_move_other (k := .staging) (j := .root) p.separate ht ht (.inr (by decide))
        (.inr (by decide))).trans hout.2.2
  · have hsame : ∀ k, p.found (d.move (p.names.stagingPath t) t.path) u k = p.found d u k :=
      fun k => slot_move_other (k := .staging) (j := .root) p.separate ht hu
        (.inl (Ne.symm hut)) (.inl (Ne.symm hut))
    have hiff : u ∈ l.activated ++ [t] ↔ u ∈ l.activated := by simp [hut]
    refine ⟨fun ha => ?_, fun ha hd => ?_, fun hn => ?_⟩
    · simp only [hsame]
      exact (h u hu).activated (hiff.1 ha)
    · simp only [hsame]
      exact (h u hu).displaced (fun h => ha (hiff.2 h)) hd
    · simp only [hsame]
      exact (h u hu).waiting hn

theorem Midway.advance (h : p.Midway J d l) (ht : t ∈ p.targets) (hbase : p.Base d')
    (hjournal : J → ∃ phase l', phase.Undecided ∧ p.Proper l' ∧ p.Journal d' (p.record phase l') ∧
      ∀ u ∈ l.displaced ++ [t], u.existed = true →
        l'.rollbackByRoot u.id = some (p.names.rollbackPath u))
    (hrollback : l.rollbackByRoot t.id = p.rollbackOf t)
    (hplaced : ∀ u ∈ p.targets, p.Placed d' (Plan.advance t l) u) :
    p.Midway J d' (advance t l) := by
  refine ⟨hbase, hplaced, h.proper, forall_mem_concat h.rollback hrollback, ?_,
    forall_mem_concat h.displaced ht, fun u hu => mem_append_left _ (h.activated u hu),
    fun hJ => .inr (hjournal hJ)⟩
  simp only [Plan.advance, h.rollbacks, hrollback, map_append, map_cons, map_nil]

end Plan

variable {L : Locals → Prop}

/-- A directory of a target can be moved to a free place of the target. -/
theorem canReplace_slot {p : Plan} {d : Disk} (hd : Parents p.targets d) {t : Target}
    (ht : t ∈ p.targets) {k j : Slot} (hkj : k ≠ j) (hsource : p.found d t k ≠ none)
    (htarget : p.found d t j = none) :
    canReplace d.tree (slotPath p.names t k) (slotPath p.names t j) = true := by
  have happ := p.separate.apart t ht t ht k j (.inr hkj)
  obtain ⟨n, hn, hdir⟩ := hd t ht
  have hfree : d.tree.get (slotPath p.names t j) = none := htarget
  unfold canReplace
  rw [dropLast_slotPath, hn, hfree, Option.any_some, hdir]
  have hsome : (d.tree.get (slotPath p.names t k)).isSome = true :=
    Option.isSome_iff_ne_none.2 hsource
  have hnot : (slotPath p.names t k).isPrefixOf (slotPath p.names t j) = false := by
    rw [Bool.eq_false_iff, ne_eq, isPrefixOf_iff_prefix]
    exact happ.1
  have hrep : ∀ x : Option Tree, replaceable x none = true := by
    intro x
    rcases x with _ | _ | _ <;> rfl
  rw [hsome, hnot, hrep]
  rfl

section Journal

variable {S : Prop} {ω : Oracle} (hω : S → ω.Undisturbed)
include hω

theorem writeJournal_judged {P Q E : Fact} (a : Archive) (names : Names) (targets : List Target)
    (phase : Phase) (hP : ¬ S → ∀ d l, P d l → E d l)
    (h : ∀ d l, P d l → Q (d.setJournal names.journal (journalRecord a names targets phase l)) l) :
    Judged S P (writeJournal ω a names targets phase) (fun _ => Q) E := by
  refine .currentLocals_bind fun l' => ?_
  refine .perform_write hω (fun h d l hs => hP h d l hs.1) fun d l hs => ?_
  obtain ⟨hs, rfl⟩ := hs
  exact h d l' hs

end Journal

/-! The publication is judged once for a restore that may stop anywhere and for one that nothing
disturbs: under `S` it does not stop. -/

section Publication

variable (p : Plan) {S J : Prop} {ω : Oracle} (hω : S → ω.Undisturbed) {t : Target}
  {done : List Target}

/-- The publication has stopped. -/
abbrev Plan.Stopped (p : Plan) (S J : Prop) (d : Disk) (l : Locals) : Prop := ¬ S ∧ p.Midway J d l

include hω

theorem writeJournal_midway (phase : Phase) (hphase : phase.Undecided) :
    Judged S (fun d l => p.Midway J d l ∧ L l) (writeJournal ω p.archive p.names p.targets phase)
      (fun _ d l => (p.Midway J d l ∧ L l) ∧ (J → p.Journal d (p.record phase l)))
      (p.Stopped S J) := by
  refine writeJournal_judged hω _ _ _ _ (fun h d l hs => ⟨h, hs.1⟩) fun d l hs => ?_
  have hnext := hs.1.journal hphase
  exact ⟨⟨hnext.1, hs.2⟩, hnext.2⟩

theorem displaceRoot_judged (ht : t ∈ p.targets) (hnot : t ∉ done) :
    Judged S (fun d l => (p.Midway J d l ∧ (l.displaced = done ∧ l.activated = []) ∧
        l.rollbackByRoot t.id = some (p.names.rollbackPath t)) ∧
        (J → p.Journal d (p.record .displacing l)))
      (displaceRoot ω p.names t)
      (fun _ d l => p.Midway J d (Plan.advance t l) ∧ l.displaced = done ∧ l.activated = [])
      (p.Stopped S J) := by
  refine .look_bind fun present => ?_
  have hnamed : ∀ {d : Disk} {l : Locals}, p.Midway J d l → l.displaced = done →
      l.rollbackByRoot t.id = some (p.names.rollbackPath t) →
      ∀ u ∈ l.displaced ++ [t], u.existed = true →
        l.rollbackByRoot u.id = some (p.names.rollbackPath u) := by
    intro d l hm hdone hrollback
    refine forall_mem_concat (fun u hu he => ?_) fun _ => hrollback
    rw [hm.rollback u hu, Plan.rollbackOf_existed he]
  cases present with
  | true =>
    rw [if_pos rfl]
    refine .perform_replace hω (fun h d l hs => ⟨h, hs.1.1.1⟩) (fun _ d l hs => ?_) fun d l hs => ?_
    · obtain ⟨⟨⟨hm, ⟨hdone, -⟩, -⟩, -⟩, hpresent⟩ := hs
      have hwaiting := (hm.placed t ht).waiting (hdone ▸ hnot)
      exact canReplace_slot (k := .root) hm.base.parents ht (by decide)
        (Plan.found_ne_none hpresent) hwaiting.2.2
    · obtain ⟨⟨⟨hm, ⟨hdone, hact⟩, hrollback⟩, hj⟩, hpresent⟩ := hs
      have hnot' : t ∉ l.displaced := by rwa [hdone]
      have hexisted := ((hm.placed t ht).exists_root ht hnot').symm.trans hpresent
      -- the journal on disk names the rollback directory before the root is moved there
      refine ⟨hm.advance ht (hm.base.move ht .root .rollback)
        (fun hJ => ⟨.displacing, l, trivial, hm.proper, hj hJ, hnamed hm hdone hrollback⟩) ?_
        (Plan.placed_displace hm.placed hm.base.parents ht (by simp [hact]) hnot'), hdone, hact⟩
      rw [hrollback, Plan.rollbackOf_existed hexisted]
  | false =>
    rw [if_neg (by simp)]
    refine .assign fun d l hs => ?_
    obtain ⟨⟨⟨hm, ⟨hdone, hact⟩, hrollback⟩, hj⟩, hpresent⟩ := hs
    have hnot' : t ∉ l.displaced := by rwa [hdone]
    have hexisted := ((hm.placed t ht).exists_root ht hnot').symm.trans hpresent
    have hm' := hm.setRollback ht hnot' (.inl rfl)
    refine ⟨hm'.advance ht hm.base
      (fun hJ => ⟨.displacing, l, trivial, hm.proper, hj hJ, hnamed hm hdone hrollback⟩) ?_
      (Plan.placed_missing hm'.placed ht (by simp [Plan.setRollback, hact]) hnot' hpresent), hdone,
      hact⟩
    rw [Plan.rollbackOf_absent hexisted]
    exact update_self _ _ _

theorem displace_judged (ht : t ∈ p.targets) (hnot : t ∉ done) :
    Judged S (p.At J done []) (displace ω p.archive p.names p.targets t)
      (fun _ => p.At J (done ++ [t]) []) (p.Stopped S J) := by
  refine .seq (fun d l => p.Midway J d l ∧ (l.displaced = done ∧ l.activated = []) ∧
    l.rollbackByRoot t.id = some (p.names.rollbackPath t)) (.assign fun d l hs => ?_) fun _ => ?_
  · obtain ⟨hm, hdone, hact⟩ := hs
    have hnot' : t ∉ l.displaced := by rwa [hdone]
    exact ⟨hm.setRollback ht hnot' (.inr rfl), ⟨hdone, hact⟩, update_self _ _ _⟩
  refine (writeJournal_midway p hω .displacing trivial).next ?_
  refine (Judged.perform_lease hω fun h d l hs => ⟨h, hs.1.1⟩).next ?_
  refine (displaceRoot_judged p hω ht hnot).next ?_
  refine .seq (p.At J (done ++ [t]) [])
    (.assign fun d l hs => ⟨hs.1, congrArg (· ++ [t]) hs.2.1, hs.2.2⟩) fun _ => ?_
  refine .seq (p.At J (done ++ [t]) []) ?_ fun _ => ?_
  · refine .seq (p.At J (done ++ [t]) []) (.currentLocals fun d l hs => hs) fun l' => ?_
    exact .ite (fun _ => .perform_touch hω fun h d l hs => ⟨h, hs.1⟩) fun _ => .pure same
  · exact (writeJournal_midway p hω .displacing trivial).post fun _ _ _ hs => hs.1

theorem publish_judged (ht : t ∈ p.targets) (hnot : t ∉ done) :
    Judged S (p.At J p.targets done) (publish ω p.archive p.names p.targets t)
      (fun _ => p.At J p.targets (done ++ [t])) (p.Stopped S J) := by
  refine (writeJournal_midway p hω .publishing trivial).next ?_
  refine (Judged.perform_lease hω fun h d l hs => ⟨h, hs.1.1⟩).next ?_
  refine Judged.seq (fun d l => p.Midway J d { l with activated := l.activated ++ [t] } ∧
    l.displaced = p.targets ∧ l.activated = done) ?_ fun _ => ?_
  · refine .perform_replace hω (fun h d l hs => ⟨h, hs.1.1⟩) (fun _ d l hs => ?_) fun d l hs => ?_
    · obtain ⟨⟨hm, hdis, hact⟩, -⟩ := hs
      have hplaced := (hm.placed t ht).displaced (hact ▸ hnot) (hdis ▸ ht)
      refine canReplace_slot (k := .staging) hm.base.parents ht (by decide) ?_ hplaced.1
      rw [hplaced.2.1]
      simp [Plan.restored]
    · obtain ⟨⟨hm, hdis, hact⟩, hj⟩ := hs
      have hnot' : t ∉ l.activated := by rwa [hact]
      have hdisplaced : t ∈ l.displaced := by rwa [hdis]
      refine ⟨⟨hm.base.move ht .staging .root,
        Plan.placed_activate hm.placed hm.base.parents ht hnot' hdisplaced, hm.proper, hm.rollback,
        hm.rollbacks, hm.displaced, forall_mem_concat hm.activated hdisplaced, ?_⟩, hdis, hact⟩
      exact fun hJ => .inr ⟨.publishing, l, trivial, hm.proper, hj hJ, fun u hu he => by
        rw [hm.rollback u hu, Plan.rollbackOf_existed he]⟩
  refine .seq (p.At J p.targets (done ++ [t]))
    (.assign fun d l hs => ⟨hs.1, hs.2.1, congrArg (· ++ [t]) hs.2.2⟩) fun _ => ?_
  refine (Judged.perform_touch hω fun h d l hs => ⟨h, hs.1⟩).next ?_
  exact (writeJournal_midway p hω .publishing trivial).post fun _ _ _ hs => hs.1

omit hω in
theorem not_mem_done {done rest : List Target} (h : p.targets = done ++ t :: rest) :
    t ∈ p.targets ∧ t ∉ done := by
  have hnodup := p.nodup
  rw [h] at hnodup ⊢
  refine ⟨by simp, fun hmem => ?_⟩
  exact (nodup_append.1 hnodup).2.2 t hmem t (.head _) rfl

/-- **Every step of the publication can be undone.** -/
theorem publication_judged : Judged S (p.At J [] []) (publication ω p.archive p.names p.targets)
    (fun _ => p.At J p.targets p.targets) (p.Stopped S J) := by
  refine .next (.forM (fun done => p.At J done []) p.targets fun done t rest hl => ?_) ?_
  · obtain ⟨ht, hnot⟩ := not_mem_done p hl
    exact displace_judged p hω ht hnot
  refine (writeJournal_midway p hω .displaced trivial).next ?_
  refine .pre (.forM (p.At J p.targets) p.targets fun done t rest hl => ?_) fun _ _ hs => hs.1
  obtain ⟨ht, hnot⟩ := not_mem_done p hl
  exact publish_judged p hω ht hnot

end Publication

/-! ### The way back -/

variable {activated : List Target} {result : Result}

namespace Plan

/-- The process undoes its own renames; the activated targets are those in the list. -/
def Undoing (p : Plan) (activated : List Target) (d : Disk) : Prop :=
  p.Base d ∧
    ((∃ l, p.Proper l ∧ p.Journal d (p.record .staged l) ∧ p.Intact d ∧ activated = []) ∨
      ∃ phase l, phase.Undecided ∧ p.Proper l ∧ p.Journal d (p.record phase l) ∧
        (∀ t ∈ p.targets, p.Undoable (p.record phase l) l d t) ∧
        ∀ t ∈ activated, t.existed = true → p.found d t .rollback = p.original t ∧
          l.rollbackByRoot t.id = some (p.names.rollbackPath t))

variable {p : Plan} {t : Target}

variable {d : Disk} {l : Locals}

theorem Undoing.safe (h : p.Undoing activated d) (l : Locals) : p.Safe d l := by
  obtain ⟨hbase, ⟨l', hp, hj, hi, -⟩ | ⟨phase, l', hphase, hp, hj, hu, -⟩⟩ := h
  · exact ⟨hbase, .staged l' hp hj hi⟩
  · exact ⟨hbase, .undecided phase l' hphase hp hj hu⟩

theorem Undoing.forget (h : p.Undoing activated d) : p.Undoing [] d := by
  obtain ⟨hbase, ⟨l', hp, hj, hi, -⟩ | ⟨phase, l', hphase, hp, hj, hu, -⟩⟩ := h
  · exact ⟨hbase, .inl ⟨l', hp, hj, hi, rfl⟩⟩
  · exact ⟨hbase, .inr ⟨phase, l', hphase, hp, hj, hu, fun t ht => absurd ht (by simp)⟩⟩

theorem Midway.undoing (h : p.Midway True d l) : p.Undoing l.activated d := by
  refine ⟨h.base, ?_⟩
  rcases h.covered trivial with ⟨hj, hnone⟩ | ⟨phase, l', hphase, hp, hj, hnamed⟩
  · refine .inl ⟨_, proper_new, hj, fun t ht => ?_, ?_⟩
    · have hwaiting := (h.placed t ht).waiting (by simp [hnone])
      exact ⟨hwaiting.1, hwaiting.2.2⟩
    · refine eq_nil_iff_forall_not_mem.2 fun t ht => ?_
      have hmem := h.activated t ht
      rw [hnone] at hmem
      simp at hmem
  · refine .inr ⟨phase, l', hphase, hp, hj, fun t ht => (h.placed t ht).undoable ht (hnamed t),
      fun t ht he => ?_⟩
    have hdisplaced := h.activated t ht
    exact ⟨((h.placed t (h.displaced t hdisplaced)).activated ht).2.2, hnamed t hdisplaced he⟩

theorem Midway.safe (h : p.Midway True d l) : p.Safe d l := h.undoing.safe l

/-- What is at a root does not matter if the root can be undone without it. -/
theorem Undoable.put_root {t u : Target} (h : p.Undoable r l d u) (ht : t ∈ p.targets)
    (hu : u ∈ p.targets) (hd : p.found d t .root ≠ none)
    (hself : t.existed = true → p.found d t .rollback = p.original t ∧
      l.rollbackByRoot t.id = some (p.names.rollbackPath t))
    (x : Option Tree) : p.Undoable r l (d.put t.path x) u := by
  have hstaging : p.found (d.put t.path x) u .staging = p.found d u .staging :=
    slot_put_other p.separate ht hu .root (.inr (by decide)) x
  have hrollback : p.found (d.put t.path x) u .rollback = p.found d u .rollback :=
    slot_put_other p.separate ht hu .root (.inr (by decide)) x
  by_cases hut : t = u
  · subst hut
    refine ⟨fun he => .inl ?_, fun he => ?_⟩
    · rw [hrollback]
      exact hself he
    · rw [hrollback, hstaging]
      refine ⟨(h.absent he).1, .inr ?_⟩
      exact (h.absent he).2.resolve_left hd
  · have hroot : p.found (d.put t.path x) u .root = p.found d u .root :=
      slot_put_other p.separate ht hu .root (.inl hut) x
    refine ⟨fun he => ?_, fun he => ?_⟩
    · rw [hrollback, hroot]
      exact h.existing he
    · rw [hrollback, hroot, hstaging]
      exact h.absent he

theorem Undoing.put_root (h : p.Undoing activated d) (hsub : ∀ t ∈ activated, t ∈ p.targets)
    (hmem : t ∈ activated) (hd : p.found d t .root ≠ none) (x : Option Tree) :
    p.Undoing activated (d.put t.path x) := by
  have ht := hsub t hmem
  refine ⟨h.1.put ht .root x, ?_⟩
  rcases h.2 with ⟨l', -, -, -, hnil⟩ | ⟨phase, l', hphase, hp, hj, hu, ha⟩
  · rw [hnil] at hmem
    simp at hmem
  · refine .inr ⟨phase, l', hphase, hp, hj, fun u hu' =>
      (hu u hu').put_root ht hu' hd (ha t hmem) x, fun u hu' he => ?_⟩
    refine ⟨Eq.trans ?_ (ha u hu' he).1, (ha u hu' he).2⟩
    exact slot_put_other p.separate ht (hsub u hu') .root (.inr (by decide)) x

theorem Undoable.move_back {t u : Target} (h : p.Undoable r l d u)
    (hparents : Parents p.targets d) (ht : t ∈ p.targets) (hu : u ∈ p.targets)
    (hd : p.found d t .rollback ≠ none) :
    p.Undoable r l (d.move (p.names.rollbackPath t) t.path) u := by
  by_cases hut : t = u
  · subst hut
    have hrollback : p.found (d.move (p.names.rollbackPath t) t.path) t .rollback = none :=
      slot_move_source (k := .rollback) (j := .root) p.separate hparents ht (by decide)
    have hroot : p.found (d.move (p.names.rollbackPath t) t.path) t .root = p.found d t .rollback :=
      slot_move_target (k := .rollback) (j := .root) p.separate hparents ht (by decide)
    refine ⟨fun he => .inr ⟨hrollback, ?_⟩, fun he => absurd (h.absent he).1 hd⟩
    rw [hroot]
    rcases h.existing he with ⟨horiginal, -⟩ | ⟨hnone, -⟩
    · exact horiginal
    · exact absurd hnone hd
  · have hsame : ∀ k, p.found (d.move (p.names.rollbackPath t) t.path) u k = p.found d u k :=
      fun k => slot_move_other (k := .rollback) (j := .root) p.separate ht hu (.inl hut) (.inl hut)
    refine ⟨fun he => ?_, fun he => ?_⟩
    · simp only [hsame]
      exact h.existing he
    · simp only [hsame]
      exact h.absent he

theorem Undoing.move_back (h : p.Undoing [] d) (ht : t ∈ p.targets)
    (hd : p.found d t .rollback ≠ none) :
    p.Undoing [] (d.move (p.names.rollbackPath t) t.path) := by
  refine ⟨h.1.move ht .rollback .root, ?_⟩
  rcases h.2 with ⟨l', -, -, hi, -⟩ | ⟨phase, l', hphase, hp, hj, hu, -⟩
  · exact absurd (hi t ht).2 hd
  · exact .inr ⟨phase, l', hphase, hp, hj, fun u hu' =>
      (hu u hu').move_back h.1.parents ht hu' hd, fun u hu' => absurd hu' (by simp)⟩

end Plan

section Undo

variable (p : Plan) (ω : Oracle) {t : Target}

theorem undoActivated_leads (hsub : ∀ t ∈ activated, t ∈ p.targets) (hmem : t ∈ activated) :
    Leads (fun d l => p.Undoing activated d ∧ L l) (undoActivated ω t)
      (fun _ d l => p.Undoing activated d ∧ L l) p.Safe := by
  refine .look_bind fun present => ?_
  cases present with
  | false => exact .pure fun d l hs => hs.1
  | true =>
    have hput : ∀ (d : Disk) (l : Locals) (x : Option Tree),
        (p.Undoing activated d ∧ L l) ∧ d.exists t.path = true →
        p.Undoing activated (d.put t.path x) := fun d l x hs =>
      hs.1.1.put_root hsub hmem (Plan.found_ne_none hs.2) x
    refine .seq (fun d l => p.Undoing activated d ∧ L l)
      (.rmtree (fun d l hs => hs.1.1.safe l) (fun d l x hs => (hput d l x hs).safe l)
        fun d l hs => ⟨hput d l none hs, hs.1.2⟩) fun _ => ?_
    exact .touch fun d l hs => hs.1.safe l

theorem moveBack_leads (ht : t ∈ p.targets) :
    Leads (fun d l => (p.Undoing [] d ∧ L l) ∧ d.exists (p.names.rollbackPath t) = true)
      (moveBack ω (p.names.rollbackPath t) t.path) (fun _ d l => p.Undoing [] d ∧ L l) p.Safe := by
  refine .seq (fun d l => p.Undoing [] d ∧ L l)
    (.replace (fun d l hs => hs.1.1.safe l) fun d l hs =>
      ⟨hs.1.1.move_back ht (Plan.found_ne_none hs.2), hs.1.2⟩) fun _ => ?_
  exact .touch fun d l hs => hs.1.safe l

theorem undoDisplaced_leads (hl : p.Proper l') (ht : t ∈ p.targets) :
    Leads (fun d l => p.Undoing [] d ∧ l = l') (undoDisplaced ω t)
      (fun _ d l => p.Undoing [] d ∧ l = l') p.Safe := by
  refine .bind (Q := fun l'' d l => l'' = l' ∧ p.Undoing [] d ∧ l = l')
    (.currentLocals fun d l hs => ⟨hs.2, hs⟩) fun l'' => .given ?_
  rintro rfl
  rcases hl t ht with hnone | hsome
  · rw [hnone]
    exact .pure same
  · rw [hsome]
    refine .look_bind fun present => ?_
    cases present with
    | true => exact moveBack_leads p ω ht
    | false => exact .pure fun d l hs => hs.1

/-- **Undoing can stop anywhere.** -/
theorem undo_leads : Leads (p.Midway True) (undo ω) (fun _ => p.Safe) p.Safe := by
  refine .bind (Q := fun l' d l => (p.Proper l' ∧ (∀ t ∈ l'.activated, t ∈ p.targets) ∧
    ∀ t ∈ l'.displaced, t ∈ p.targets) ∧ p.Undoing l'.activated d ∧ l = l')
    (.currentLocals fun d l hs => ⟨⟨hs.proper, fun t ht => hs.displaced t (hs.activated t ht),
      hs.displaced⟩, hs.undoing, rfl⟩) fun l' => .given ?_
  rintro ⟨hproper, hactivated, hdisplaced⟩
  refine .bind (.forM (fun _ d l => p.Undoing l'.activated d ∧ l = l') l'.activated
    fun done t rest hl => undoActivated_leads p ω hactivated (by simp [hl])) fun _ => ?_
  refine .conseq (.forM (fun _ d l => p.Undoing [] d ∧ l = l') l'.displaced
    fun done t rest hl => undoDisplaced_leads p ω hproper (hdisplaced t (by simp [hl])))
    (fun d l hs => ⟨hs.1.forget, hs.2⟩) (fun _ d l hs => hs.1.safe l) fun _ _ hs => hs

/-! ### The staging directories -/

variable {d : Disk} {l : Locals} (contents : String → List (String × Tree)) (list : List Target)

theorem fill_found (hlist : ∀ t ∈ list, t ∈ p.targets) (hd : Parents p.targets d) :
    Parents p.targets (fill p.names contents list d) ∧
      (∀ u ∈ p.targets, ∀ k, k ≠ .staging →
        p.found (fill p.names contents list d) u k = p.found d u k) ∧
      (∀ u ∈ p.targets, u ∉ list →
        p.found (fill p.names contents list d) u .staging = p.found d u .staging) ∧
      ∀ u ∈ list, p.found (fill p.names contents list d) u .staging =
        some (.dir (contents u.id)) := by
  induction list generalizing d with
  | nil => exact ⟨hd, fun _ _ _ _ => rfl, fun _ _ _ => rfl, fun u hu => absurd hu (by simp)⟩
  | cons t list ih =>
    have ht := hlist t (.head _)
    have hrest : ∀ u ∈ list, u ∈ p.targets := fun u hu => hlist u (.tail _ hu)
    obtain ⟨hparents, hother, hout, hin⟩ :=
      ih hrest (parents_put p.separate hd ht .staging (some (.dir (contents t.id))))
    refine ⟨hparents, fun u hu k hk => ?_, fun u hu hn => ?_, fun u hu => ?_⟩
    · exact (hother u hu k hk).trans (slot_put_other p.separate ht hu _ (.inr (Ne.symm hk)) _)
    · have hne : t ≠ u := fun h => hn (h ▸ .head _)
      exact (hout u hu fun h => hn (.tail _ h)).trans
        (slot_put_other p.separate ht hu _ (.inl hne) _)
    · by_cases hmem : u ∈ list
      · exact hin u hmem
      · have hut : u = t := (mem_cons.1 hu).resolve_right hmem
        subst hut
        exact (hout u ht hmem).trans (slot_put_self p.separate hd ht .staging _)

theorem fill_journals (d : Disk) : (fill p.names contents list d).journals = d.journals := by
  induction list generalizing d with
  | nil => rfl
  | cons t list ih => exact ih _

theorem fill_written (d : Disk) : (fill p.names contents list d).written = d.written := by
  induction list generalizing d with
  | nil => rfl
  | cons t list ih => exact ih _

theorem Plan.Base.fill {p : Plan} (h : p.Base d) : p.Base (fill p.names contents p.targets d) := by
  refine ⟨(fill_found p contents p.targets (fun _ h => h) h.parents).1, ?_⟩
  rw [fill_written]
  exact h.written

/-- The journal says that nothing has been moved. -/
structure Plan.Staged (p : Plan) (d : Disk) (l : Locals) : Prop where
  new : l = Locals.new
  base : p.Base d
  journal : p.Journal d (p.record .staged Locals.new)
  intact : p.Intact d

theorem Plan.Staged.safe {p : Plan} (h : p.Staged d l) : p.Safe d l :=
  ⟨h.base, .staged _ proper_new h.journal h.intact⟩

theorem Plan.Intact.fill {p : Plan} (h : p.Intact d) (hd : Parents p.targets d) :
    p.Intact (fill p.names contents p.targets d) := by
  obtain ⟨-, hother, -, -⟩ := fill_found p contents p.targets (fun _ h => h) hd
  intro t ht
  rw [hother t ht .root (by decide), hother t ht .rollback (by decide)]
  exact h t ht

theorem Plan.Staged.fill {p : Plan} (h : p.Staged d l) :
    p.Staged (fill p.names contents p.targets d) l :=
  ⟨h.new, h.base.fill contents, (fill_journals p contents p.targets d).trans h.journal,
    h.intact.fill contents h.base.parents⟩

theorem Plan.Base.extracted {p : Plan} {J : Prop} (h : p.Base d) (hi : p.Intact d)
    (hj : J → p.Journal d (p.record .staged .new)) :
    p.At J [] [] (Restore.fill p.names p.archive.image p.targets d) .new := by
  have hfilled := hi.fill p.archive.image h.parents
  obtain ⟨-, -, -, hin⟩ := fill_found p p.archive.image p.targets (fun _ h => h) h.parents
  refine ⟨⟨h.fill _, fun t ht => ?_, Plan.proper_new, by simp [Locals.new], rfl,
    by simp [Locals.new], by simp [Locals.new], fun hJ => .inl ⟨?_, rfl⟩⟩, rfl, rfl⟩
  · refine ⟨by simp [Locals.new], by simp [Locals.new], fun _ => ?_⟩
    exact ⟨(hfilled t ht).1, hin t ht, (hfilled t ht).2⟩
  · exact (fill_journals p _ p.targets d).trans (hj hJ)

theorem extract_leads :
    Leads p.Staged (extract ω p.archive p.names p.targets) (fun _ => p.At True [] [])
      p.Safe := by
  refine .seq (fun d l => p.Safe d l ∧ (p.archive.flaw = none → p.At True [] [] d l)) ?_ fun _ => ?_
  · refine .step (fun d l hs => hs.safe) (fun m d l hs => (hs.fill m.part).safe)
      fun m d l a d' hs he => ?_
    cases he
    refine ⟨(hs.fill _).safe, fun hflaw => ?_⟩
    rw [if_pos hflaw, hs.new]
    exact hs.base.extracted hs.intact fun _ => hs.journal
  · cases p.archive.flaw with
    | none => exact .pure fun d l hs => hs.2 rfl
    | some e => exact .raise fun d l hs => hs.1

theorem sealStaging_leads (t : Target) {P : Fact} (hP : ∀ d l, P d l → p.Safe d l) :
    Leads P (sealStaging ω t) (fun _ => P) p.Safe :=
  (Judged.touch hP).next ((Judged.touch hP).next (.guard hP))

theorem removeStagings_safe : Leads p.Safe (removeStagings ω p.names p.targets)
    (fun _ => p.Safe) p.Safe := by
  refine .forM (fun _ => p.Safe) p.targets fun done t rest hl => ?_
  have ht : t ∈ p.targets := by simp [hl]
  exact .removeIgnoringErrors fun d l x hs hd => hs.put_staging ht (Plan.found_ne_none hd) x

end Undo

/-! ### A restore that has come to its end -/

/-- The restored roots are in place, and the old ones are beside them. -/
structure Plan.Published (p : Plan) (result : Result) (d : Disk) : Prop where
  base : p.Base d
  journal : ∃ l, p.Journal d (p.record .activated l) ∧
    ∀ t ∈ p.targets, l.rollbackByRoot t.id = p.rollbackOf t
  places : ∀ t ∈ p.targets, p.found d t .root = p.restored t ∧ p.found d t .staging = none ∧
    p.found d t .rollback = p.original t
  destinations : result.destinations = p.targets.map (·.path)
  rollbacks : result.rollbacks = p.targets.map p.rollbackOf
  id : result.journal = p.names.journal

theorem Plan.proper_of_rollbackOf {p : Plan} {l : Locals}
    (h : ∀ t ∈ p.targets, l.rollbackByRoot t.id = p.rollbackOf t) : p.Proper l := by
  intro t ht
  rw [h t ht]
  unfold Plan.rollbackOf
  split
  · exact .inr rfl
  · exact .inl rfl

theorem Plan.Published.undoable {p : Plan} {d : Disk} (h : p.Published result d) {l : Locals}
    (hl : ∀ t ∈ p.targets, l.rollbackByRoot t.id = p.rollbackOf t) (t : Target)
    (ht : t ∈ p.targets) : p.Undoable (p.record .activated l) l d t := by
  obtain ⟨-, hstaging, hrollback⟩ := h.places t ht
  refine ⟨fun he => .inl ⟨hrollback, ?_⟩, fun he => ⟨?_, .inr (.inl hstaging)⟩⟩
  · rw [hl t ht, rollbackOf_existed he]
  · rw [hrollback, original_eq_none ht he]

theorem Plan.Published.safe {p : Plan} {d : Disk} (h : p.Published result d) (l : Locals) :
    p.Safe d l := by
  obtain ⟨l', hj, hl⟩ := h.journal
  exact ⟨h.base, .undecided .activated l' trivial (proper_of_rollbackOf hl) hj (h.undoable hl)⟩

variable (s : Service) (hs : s.healthCheck = none) (p : Plan) (ω : Oracle)
include hs

theorem finalizeIfHealthy_leads (result : Result) {P E : Fact} :
    Leads P (finalizeIfHealthy s ω result) (fun _ => P) E := by
  refine .bind (Q := fun healthy d l => healthy = false ∧ P d l)
    (.look fun d l h => ⟨by simp [Service.healthy, hs], h⟩) fun healthy => .given ?_
  rintro rfl
  exact .pure same

theorem stageAndPublish_leads : Leads p.Staged (stageAndPublish s ω p.archive p.names p.targets)
    (fun result d _ => p.Published result d) p.Safe := by
  refine (extract_leads p ω).next ?_
  refine .bind (.forM (fun _ => p.At True [] []) p.targets fun done t rest hl =>
      sealStaging_leads p ω t fun d l h => h.1.safe) fun _ => ?_
  refine .seq (p.At True p.targets p.targets)
    (.tryExcept (publication_judged p nofun) fun e => ?_) fun _ => ?_
  · exact ((undo_leads p ω).next (.raise same)).pre fun _ _ h => h.2
  refine .currentLocals_bind fun l' => ?_
  refine .seq (fun d _ => p.Published
    ⟨p.archive.backupId, p.targets.map (·.path), l'.rollbacks, p.names.journal⟩ d) ?_ fun _ => ?_
  · refine .conseq (writeJournal_midway p nofun .activated trivial
      (L := fun l => l' = l ∧ l.displaced = p.targets ∧ l.activated = p.targets))
      (fun d l h => ⟨h.1.1, h.2, h.1.2⟩) (fun _ d l h => ?_) fun d l h => h.2.safe
    obtain ⟨⟨hm, rfl, hdis, hact⟩, hj⟩ := h
    refine ⟨hm.base, ⟨l', hj trivial, fun t ht => hm.rollback t (by rwa [hdis])⟩,
      fun t ht => ?_, rfl, ?_, rfl⟩
    · exact (hm.placed t ht).activated (by rwa [hact])
    · rw [hm.rollbacks, hdis]
  · refine (finalizeIfHealthy_leads s hs ω _).next ?_
    exact .pure same

theorem restoreTargets_leads (hclean : p.origin.journals = []) (hwritten : p.origin.written = [])
    (hparents : Parents p.targets p.origin)
    (hvacant : ∀ t ∈ p.targets, p.found p.origin t .rollback = none) :
    Leads (fun d l => d = p.origin ∧ l = .new)
      (restoreTargets s ω p.archive p.names p.targets)
      (fun result d _ => p.Published result d) p.Safe := by
  have hsafe : ∀ d (l : Locals), (p.Base d ∧ d.journals = [] ∧ d.written = [] ∧ p.Intact d) ∧
      l = .new → p.Safe d l := fun d l h => ⟨h.1.1, .unwritten h.1.2.1 h.1.2.2.1 h.1.2.2.2⟩
  refine .pre (P := fun d l => (p.Base d ∧ d.journals = [] ∧ d.written = [] ∧
    p.Intact d) ∧ l = .new) ?_ fun d l h => ?_
  · refine (Judged.assure hsafe).next ((Judged.assure hsafe).next ?_)
    refine Judged.bind (Judged.forM (fun _ d l => (p.Base d ∧ d.journals = [] ∧
      d.written = [] ∧ p.Intact d) ∧ l = .new) p.targets fun done t rest hl => ?_) fun _ => ?_
    · have ht : t ∈ p.targets := by simp [hl]
      refine .step hsafe (fun _ d l h => hsafe d l h) fun m d l a d' h he => ?_
      split at he <;> cases he
      obtain ⟨⟨hbase, hj, hw, hi⟩, hl⟩ := h
      exact ⟨⟨hbase.put ht .staging _, hj, hw, hi.put_staging ht _⟩, hl⟩
    refine .seq p.Staged ?_ fun _ => ?_
    · refine writeJournal_judged nofun _ _ _ _ (fun _ => hsafe) fun d l h => ?_
      obtain ⟨⟨hbase, hj, hw, hi⟩, rfl⟩ := h
      refine ⟨rfl, hbase.setJournal (Plan.logs_record Plan.proper_new), ?_, hi⟩
      simp [Plan.Journal, Disk.setJournal, hj]
    refine (Judged.touch fun d l h => h.safe).next ?_
    refine Judged.tryFinally (R := fun result d _ => p.Published result d) ?_
      (fun result => ?_) (removeStagings_safe p ω)
    · refine .tryExcept (stageAndPublish_leads s hs p ω) fun e => ?_
      cases e with
      | killed | error => exact .raise same
      | safe code message =>
        exact (removeStagings_safe p ω).next (.raise same)
    · -- nothing is left in the staging directories
      refine .leave (.forM (fun _ d _ => p.Published result d)
        (E := fun d _ => p.Published result d) p.targets fun done t rest hl => ?_)
        fun d l h => h.safe l
      have ht : t ∈ p.targets := by simp [hl]
      refine .removeIgnoringErrors fun d l x h hd => ?_
      exact absurd (h.places t ht).2.1 (Plan.found_ne_none hd)
  · obtain ⟨rfl, rfl⟩ := h
    exact ⟨⟨⟨hparents, by simp [hwritten]⟩, hclean, hwritten, fun t ht => ⟨rfl, hvacant t ht⟩⟩, rfl⟩

end Horizon.Restore
