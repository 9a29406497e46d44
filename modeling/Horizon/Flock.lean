/-
**Advisory file locks.**

A lock as `flock` gives it: any number of holders share it, or one holder has it exclusively.  The
structure carries that alternative, so that a state in which both happen cannot be built.  Holders
are the open file descriptions; they are of an arbitrary type.

Main definitions:

* `Flock.Lock`, `Flock.Lock.free`;
* `Flock.Lock.lockExclusive`, `Flock.Lock.lockShared`, `Flock.Lock.unlock` — an attempt that would
  have to wait is `none`.

Main results:

* `Flock.Lock.Covers.exclusion` — **the exclusion rule** for programs: if the lock grants at least
  what every program's place says it holds, a place that needs the lock exclusively excludes every
  other place that needs it at all.  `Covers.lockExclusive`, `Covers.lockShared`, `Covers.unlock`
  and `Covers.keep` maintain the premise.
-/

import Mathlib.Tactic
import Mathlib.Data.Finset.Erase
import Mathlib.Data.Finset.Insert

namespace Flock

open Option
open Function

/-- A lock with its exclusive holder or its shared holders. -/
structure Lock (ι : Type) where
  owner : Option ι
  readers : Finset ι
  exclusive : owner = none ∨ readers = ∅

namespace Lock

variable {ι : Type} {l : Lock ι}

def free : Lock ι := ⟨none, ∅, .inl rfl⟩

/-- **While someone owns the lock, nobody shares it.** -/
theorem not_mem_readers {i j : ι} (h : l.owner = some i) : j ∉ l.readers := by
  obtain hnone | hempty := l.exclusive
  · rw [h] at hnone; cases hnone
  · rw [hempty]; exact Finset.notMem_empty j

variable [DecidableEq ι]

/-- `LOCK_EX`, granted when nobody holds the lock. -/
def lockExclusive (l : Lock ι) (i : ι) : Option (Lock ι) :=
  if l.owner = none ∧ l.readers = ∅ then some ⟨some i, ∅, .inr rfl⟩ else none

/-- `LOCK_SH`, granted when nobody owns the lock. -/
def lockShared (l : Lock ι) (i : ι) : Option (Lock ι) :=
  if l.owner = none then some ⟨none, insert i l.readers, .inl rfl⟩ else none

/-- `LOCK_UN`, or the last close of the description. -/
def unlock (l : Lock ι) (i : ι) : Lock ι where
  owner := if l.owner = some i then none else l.owner
  readers := l.readers.erase i
  exclusive := by
    obtain h | h := l.exclusive
    · exact .inl (by simp [h])
    · exact .inr (by rw [h, Finset.erase_empty])

theorem lockExclusive_eq_some {l l' : Lock ι} {i : ι} : l.lockExclusive i = some l' ↔
    l.owner = none ∧ l.readers = ∅ ∧ l'.owner = some i ∧ l'.readers = ∅ := by
  simp only [lockExclusive, ite_none_right_eq_some, some.injEq, and_assoc]
  refine and_congr_right fun _ => and_congr_right fun _ => ⟨?_, ?_⟩
  · rintro rfl; exact ⟨rfl, rfl⟩
  · obtain ⟨owner, readers, _⟩ := l'
    rintro ⟨rfl, rfl⟩; rfl

theorem lockShared_eq_some {l l' : Lock ι} {i : ι} : l.lockShared i = some l' ↔
    l.owner = none ∧ l'.owner = none ∧ l'.readers = insert i l.readers := by
  simp only [lockShared, ite_none_right_eq_some, some.injEq]
  refine and_congr_right fun _ => ⟨?_, ?_⟩
  · rintro rfl; exact ⟨rfl, rfl⟩
  · obtain ⟨owner, readers, _⟩ := l'
    rintro ⟨rfl, rfl⟩; rfl

theorem owner_unlock_of_ne {i j : ι} (h : l.owner = some j) (hne : j ≠ i) :
    (l.unlock i).owner = some j := by
  simp [unlock, h, hne]

theorem mem_readers_unlock {i j : ι} (h : j ∈ l.readers) (hne : j ≠ i) :
    j ∈ (l.unlock i).readers := Finset.mem_erase.2 ⟨hne, h⟩

/-! ### Places and locks -/

end Lock

inductive Mode
  | shared
  | exclusive
  deriving DecidableEq

namespace Lock

variable {ι : Type}

/-- The lock grants what the places `d` say is held. -/
def Covers (l : Lock ι) (d : ι → Option Mode) : Prop :=
  ∀ i, (d i = some .exclusive → l.owner = some i) ∧ (d i = some .shared → i ∈ l.readers)

namespace Covers

variable {l l' : Lock ι} {d : ι → Option Mode}

/-- **The exclusion rule.** -/
theorem exclusion (h : l.Covers d) {i j : ι} (hi : d i = some .exclusive) (hj : d j ≠ none) :
    j = i := by
  have howner := (h i).1 hi
  rcases hm : d j with _ | _ | _
  · exact absurd hm hj
  · exact absurd ((h j).2 hm) (not_mem_readers howner)
  · have := (h j).1 hm
    rw [howner] at this
    exact (some.inj this).symm

theorem eq_none_of_free (h : l.Covers d) (howner : l.owner = none) (hreaders : l.readers = ∅)
    (i : ι) : d i = none := by
  rcases hm : d i with _ | _ | _
  · rfl
  · have := (h i).2 hm
    rw [hreaders] at this
    exact absurd this (Finset.notMem_empty i)
  · have := (h i).1 hm
    rw [howner] at this
    cases this

variable [DecidableEq ι]

theorem keep (h : l.Covers d) {i : ι} {m : Option Mode} (hm : m = d i ∨ m = none) :
    l.Covers (update d i m) := by
  intro j
  by_cases hji : j = i
  · subst hji
    rw [update_self]
    rcases hm with rfl | rfl
    · exact h j
    · exact ⟨fun h => (by cases h), fun h => (by cases h)⟩
  · rw [update_of_ne hji]
    exact h j

theorem lockExclusive (h : l.Covers d) {i : ι} (hl : l.lockExclusive i = some l') :
    l'.Covers (update d i (some .exclusive)) := by
  obtain ⟨howner, hreaders, howner', -⟩ := lockExclusive_eq_some.1 hl
  intro j
  by_cases hji : j = i
  · subst hji
    rw [update_self]
    exact ⟨fun _ => howner', fun h => (by cases h)⟩
  · rw [update_of_ne hji, h.eq_none_of_free howner hreaders j]
    exact ⟨fun h => (by cases h), fun h => (by cases h)⟩

theorem lockShared (h : l.Covers d) {i : ι} (hl : l.lockShared i = some l') :
    l'.Covers (update d i (some .shared)) := by
  obtain ⟨howner, -, hreaders'⟩ := lockShared_eq_some.1 hl
  intro j
  by_cases hji : j = i
  · subst hji
    rw [update_self]
    exact ⟨fun h => (by cases h), fun _ => hreaders' ▸ Finset.mem_insert_self j _⟩
  · rw [update_of_ne hji]
    refine ⟨fun hj => ?_, fun hj => hreaders' ▸ Finset.mem_insert_of_mem ((h j).2 hj)⟩
    have := (h j).1 hj
    rw [howner] at this
    cases this

theorem unlock (h : l.Covers d) (i : ι) : (l.unlock i).Covers (update d i none) := by
  intro j
  by_cases hji : j = i
  · subst hji
    rw [update_self]
    exact ⟨fun h => (by cases h), fun h => (by cases h)⟩
  · rw [update_of_ne hji]
    exact ⟨fun hj => owner_unlock_of_ne ((h j).1 hj) hji,
      fun hj => mem_readers_unlock ((h j).2 hj) hji⟩

theorem unlock_of_eq_none (h : l.Covers d) {i : ι} (hi : d i = none) : (l.unlock i).Covers d := by
  have := h.unlock i
  rwa [← hi, Function.update_eq_self] at this

end Covers

end Lock

end Flock
