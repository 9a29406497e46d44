/-
**Files that are moved and removed.**

The files of a system are a partial map from paths.  `rename` is `renameat2` with
`RENAME_NOREPLACE`: the source must be there, the target must not, and the file arrives changed by
`touch` (a rename sets the change time).  `unlink` removes one file.

A set of paths *holds a file once* when exactly one of its paths has a file with a given property.
This survives every rename that stays inside the set or outside of it, and every removal of a path
that does not have the file.

Main definitions:

* `Filesystem.Files`, `Filesystem.rename`, `Filesystem.unlink`;
* `Filesystem.HeldAt`, `Filesystem.HeldOnce` — where a file is.

Main results:

* `Filesystem.HeldOnce.rename` — **a rename does not lose and does not duplicate**.
-/

import Mathlib.Data.Set.Basic
import Mathlib.Logic.ExistsUnique
import Mathlib.Logic.Function.Basic
import Mathlib.Tactic.Common

namespace Filesystem

open Function

variable {π φ : Type}

abbrev Files (π φ : Type) : Type := π → Option φ

inductive RenameError
  | noSource
  | targetExists
  deriving DecidableEq

section Operations

variable [DecidableEq π]

/-- Rename without replacing; the kernel looks for the source first. -/
def rename (touch : φ → φ) (source target : π) (fs : Files π φ) : Except RenameError (Files π φ) :=
  match fs source, fs target with
  | none, _ => .error .noSource
  | some _, some _ => .error .targetExists
  | some f, none => .ok (update (update fs source none) target (some (touch f)))

def unlink (path : π) (fs : Files π φ) : Option (Files π φ) :=
  match fs path with
  | none => none
  | some _ => some (update fs path none)

variable {fs fs' : Files π φ} {touch : φ → φ} {source target path : π}

theorem rename_eq_ok (h : rename touch source target fs = .ok fs') :
    ∃ f, fs source = some f ∧ fs target = none ∧
      fs' = update (update fs source none) target (some (touch f)) := by
  unfold rename at h
  cases hs : fs source with
  | none => rw [hs] at h; cases h
  | some f =>
    cases ht : fs target with
    | some g => rw [hs, ht] at h; cases h
    | none =>
      rw [hs, ht] at h
      exact ⟨f, rfl, rfl, (Except.ok.inj h).symm⟩

theorem unlink_eq_some (h : unlink path fs = some fs') :
    ∃ f, fs path = some f ∧ fs' = update fs path none := by
  unfold unlink at h
  cases hp : fs path with
  | none => rw [hp] at h; cases h
  | some f =>
    rw [hp] at h
    exact ⟨f, rfl, (Option.some.inj h).symm⟩

end Operations

/-! ### Where a file is -/

/-- The path has a file with property `q`. -/
def HeldAt (q : φ → Prop) (fs : Files π φ) (x : π) : Prop := ∃ f, fs x = some f ∧ q f

/-- Exactly one path of `P` has a file with property `q`. -/
def HeldOnce (P : Set π) (q : φ → Prop) (fs : Files π φ) : Prop := ∃! x, x ∈ P ∧ HeldAt q fs x

variable [DecidableEq π] {P : Set π} {q : φ → Prop} {fs fs' : Files π φ} {x : π}

/-- After a rename the file is at the target if it was at the source, and otherwise where it was. -/
theorem heldAt_rename {touch : φ → φ} {source target : π} (hq : ∀ f, q (touch f) ↔ q f)
    (h : rename touch source target fs = .ok fs') :
    HeldAt q fs' x ↔ if x = target then HeldAt q fs source else x ≠ source ∧ HeldAt q fs x := by
  obtain ⟨f, hs, ht, rfl⟩ := rename_eq_ok h
  unfold HeldAt
  by_cases hxt : x = target
  · subst hxt
    simp only [update_self, Option.some.injEq, exists_eq_left', if_true, hs]
    exact hq f
  · rw [if_neg hxt, update_of_ne hxt]
    by_cases hxs : x = source
    · subst hxs
      simp
    · rw [update_of_ne hxs]
      simp [hxs]

/-- **A rename does not lose and does not duplicate**: it leaves the set on neither side. -/
theorem HeldOnce.rename {touch : φ → φ} {source target : π} (hheld : HeldOnce P q fs)
    (hq : ∀ f, q (touch f) ↔ q f) (hP : source ∈ P ↔ target ∈ P)
    (h : rename touch source target fs = .ok fs') : HeldOnce P q fs' := by
  obtain ⟨x, ⟨hx, hxq⟩, hunique⟩ := hheld
  obtain ⟨f, hs, ht, -⟩ := rename_eq_ok h
  have hempty : ¬ HeldAt q fs target := by
    rintro ⟨g, hg, -⟩
    rw [ht] at hg
    cases hg
  have hxt : x ≠ target := fun he => hempty (he ▸ hxq)
  by_cases hxs : x = source
  · -- the file itself is moved
    subst hxs
    refine ⟨target, ⟨hP.mp hx, (heldAt_rename hq h).mpr (by rwa [if_pos rfl])⟩, ?_⟩
    rintro y ⟨hy, hyq⟩
    by_contra hyt
    rw [heldAt_rename hq h, if_neg hyt] at hyq
    exact hyq.1 (hunique y ⟨hy, hyq.2⟩)
  · -- another file is moved, and it is not one with the property
    refine ⟨x, ⟨hx, (heldAt_rename hq h).mpr (by rw [if_neg hxt]; exact ⟨hxs, hxq⟩)⟩, ?_⟩
    rintro y ⟨hy, hyq⟩
    rw [heldAt_rename hq h] at hyq
    by_cases hyt : y = target
    · rw [if_pos hyt] at hyq
      subst hyt
      exact absurd (hunique source ⟨hP.mpr hy, hyq⟩).symm hxs
    · rw [if_neg hyt] at hyq
      exact hunique y ⟨hy, hyq.2⟩

theorem HeldOnce.unlink {path : π} (hheld : HeldOnce P q fs) (hpath : path ∈ P → ¬ HeldAt q fs path)
    (h : unlink path fs = some fs') : HeldOnce P q fs' := by
  obtain ⟨x, ⟨hx, hxq⟩, hunique⟩ := hheld
  obtain ⟨f, -, rfl⟩ := unlink_eq_some h
  have hne : x ≠ path := by
    rintro rfl
    exact hpath hx hxq
  refine ⟨x, ⟨hx, ?_⟩, ?_⟩
  · unfold HeldAt
    rwa [update_of_ne hne]
  · rintro y ⟨hy, g, hg, hgq⟩
    by_cases hyp : y = path
    · subst hyp
      rw [update_self] at hg
      cases hg
    · rw [update_of_ne hyp] at hg
      exact hunique y ⟨hy, g, hg, hgq⟩

end Filesystem
