/-
**The performance collector.**

A tracker of slotd keeps the last `maxlen` values of a series and counts all of them.  A snapshot
has these values, and the positions in the series where they start and end.  The collector takes
from each snapshot the values after the end of the one before.  A restart of slotd begins a new
tracker, which counts from 0 again; nothing compares the instances.

What happened is kept beside the state: the values between the first poll and the last, and those
since.  Polls that raise for another reason change nothing and do not count.

Main results:

* `Probe.gathered_or_raised` — **every value is gathered once and in order, or an error is raised**,
  if no window of a new tracker contains the cursor;
* `Probe.replaced_unnoticed` — a window that does is taken for one of the old tracker.
-/

import Horizon.Transition

namespace Horizon.Probe

open List
open Transition (run Along along_invariant)

variable {α : Type} {maxlen : ℕ} {label : String}

/-- `_Window`, without its intervals. -/
structure Window (α : Type) where
  samples : List α := []
  totalCount : ℕ := 0

def Window.record (maxlen : ℕ) (w : Window α) (value : α) : Window α :=
  ⟨(w.samples ++ [value]).drop (w.samples.length + 1 - maxlen), w.totalCount + 1⟩

/-- The values of a series and its `sequence`. -/
structure Snapshot (α : Type) where
  values : List α
  start : ℤ
  stop : ℤ

def Window.snapshot (w : Window α) : Snapshot α :=
  ⟨w.samples, w.totalCount - w.samples.length, w.totalCount⟩

def maxEventLoopWindow : ℕ := 1024

def collectSequenceValues (s : Snapshot α) (cursor : Option ℤ) (label : String) :
    Except String (List α × ℤ) :=
  if maxEventLoopWindow < s.values.length ∨ s.start < 0 ∨ s.stop < s.start ∨
      s.stop - s.start ≠ s.values.length then
    .error ("malformed " ++ label ++ " sequence window")
  else match cursor with
    | none => .ok ([], s.stop)
    | some cursor =>
      if s.start > cursor ∨ s.stop < cursor then .error (label ++ " sequence gap or regression")
      else .ok (s.values.drop (cursor - s.start).toNat, s.stop)

/-- One series of `collect`, and what was recorded. -/
structure Collection (α : Type) where
  tracker : Window α := {}
  cursor : Option ℤ := none
  gathered : List α := []
  contractError : Bool := false
  /-- Between the first poll and the last. -/
  recorded : List α := []
  /-- Since the last poll. -/
  pending : List α := []
  /-- slotd was restarted since the last poll. -/
  replaced : Bool := false

inductive Event (α : Type)
  | record (value : α)
  | restart
  /-- It `commits` unless something after the sequence raises. -/
  | poll (commits : Bool)

def step (maxlen : ℕ) (label : String) (c : Collection α) : Event α → Option (Collection α)
  | .record value => some { c with tracker := c.tracker.record maxlen value
                                   pending := c.pending ++ [value] }
  | .restart => some { c with tracker := {}, replaced := true }
  | .poll commits =>
    match collectSequenceValues c.tracker.snapshot c.cursor label with
    | .error _ => some { c with gathered := [], contractError := true }
    | .ok (unseen, stop) =>
      if commits then
        some { c with cursor := some stop
                      gathered := c.gathered ++ unseen
                      recorded := c.recorded ++ if c.cursor.isSome then c.pending else []
                      pending := []
                      replaced := false }
      else some c

/-- The first window of a new tracker does not contain the cursor. -/
def told (c : Collection α) : Event α → Bool
  | .poll _ => !c.replaced || c.cursor.all fun cursor =>
      c.tracker.snapshot.start > cursor || c.tracker.snapshot.stop < cursor
  | _ => true

/-- The tracker has recorded `all`. -/
structure Sound (maxlen : ℕ) (c : Collection α) (all : List α) : Prop where
  samples : c.tracker.samples = all.drop (all.length - maxlen)
  totalCount : c.tracker.totalCount = all.length
  pending : c.replaced = false → ∀ k, c.cursor = some k →
    ∃ n : ℕ, k = n ∧ n ≤ all.length ∧ c.pending = all.drop n
  gathered : c.contractError = true ∨ c.gathered = c.recorded

variable {c c' : Collection α} {all : List α}

theorem Sound.record (h : Sound maxlen c all) (value : α) :
    Sound maxlen { c with tracker := c.tracker.record maxlen value
                          pending := c.pending ++ [value] } (all ++ [value]) where
  samples := by
    simp only [Window.record, h.samples, length_drop, length_append, length_singleton]
    rw [← drop_append_of_le_length (by omega), drop_drop]
    congr 1
    omega
  totalCount := by simp [Window.record, h.totalCount]
  pending := by
    intro hreplaced k hk
    obtain ⟨n, rfl, hn, hpending⟩ := h.pending hreplaced k hk
    refine ⟨n, rfl, by simp; omega, ?_⟩
    rw [hpending, drop_append_of_le_length hn]
  gathered := h.gathered

/-- What a poll takes is what was recorded since the last. -/
theorem Sound.unseen (h : Sound maxlen c all) {commits : Bool}
    (htold : told c (.poll commits) = true) {unseen : List α} {stop : ℤ}
    (hok : collectSequenceValues c.tracker.snapshot c.cursor label = .ok (unseen, stop)) :
    stop = all.length ∧ unseen = if c.cursor.isSome then c.pending else [] := by
  have hlength : c.tracker.samples.length = all.length - (all.length - maxlen) := by
    rw [h.samples, length_drop]
  unfold collectSequenceValues at hok
  split at hok
  · cases hok
  cases hcursor : c.cursor with
  | none =>
    rw [hcursor] at hok
    cases hok
    exact ⟨congrArg _ h.totalCount, rfl⟩
  | some cursor =>
    simp only [hcursor] at hok
    split at hok
    · cases hok
    rename_i hin
    cases hok
    have hsame : c.replaced = false := by
      by_contra hreplaced
      simp [told, hcursor, hreplaced] at htold
      exact hin htold
    obtain ⟨n, rfl, hn, hpending⟩ := h.pending hsame cursor hcursor
    refine ⟨congrArg _ h.totalCount, ?_⟩
    -- the window is the end of the series, and the cursor is in it
    simp only [Window.snapshot, h.totalCount, hlength] at hin ⊢
    rw [h.samples, drop_drop, Option.isSome_some, if_pos rfl, hpending]
    congr 1
    omega

theorem Sound.step {e : Event α} (h : Sound maxlen c all) (hstep : step maxlen label c e = some c')
    (htold : told c e = true) : ∃ all, Sound maxlen c' all := by
  cases e with
  | record value =>
    cases hstep
    exact ⟨_, h.record value⟩
  | restart =>
    cases hstep
    exact ⟨[], drop_nil.symm, rfl, nofun, h.gathered⟩
  | poll commits =>
    unfold Probe.step at hstep
    cases hcollect : collectSequenceValues c.tracker.snapshot c.cursor label with
    | error e =>
      simp only [hcollect] at hstep
      cases hstep
      exact ⟨all, h.samples, h.totalCount, h.pending, .inl rfl⟩
    | ok taken =>
      obtain ⟨unseen, stop⟩ := taken
      obtain ⟨rfl, rfl⟩ := h.unseen htold hcollect
      simp only [hcollect] at hstep
      cases commits with
      | false =>
        cases hstep
        exact ⟨all, h⟩
      | true =>
        cases hstep
        refine ⟨all, h.samples, h.totalCount, fun _ k hk => ?_, h.gathered.imp_right fun hg => ?_⟩
        · exact ⟨all.length, (Option.some.inj hk).symm, le_rfl, drop_length.symm⟩
        · rw [hg]

/-- **Every value that was recorded between the first poll and the last is gathered, once and in
order, or an error is raised**: an evicted value, or one lost with its tracker, is not gathered. -/
theorem gathered_or_raised (maxlen : ℕ) (label : String) (history : List (Event α))
    (htold : Along (step maxlen label) (fun c e _ => told c e = true) {} history)
    (hrun : run (step maxlen label) {} history = some c) :
    c.contractError = true ∨ c.gathered = c.recorded := by
  have hstart : Sound maxlen ({} : Collection α) [] :=
    ⟨drop_nil.symm, rfl, fun _ _ hk => (by cases hk), .inr rfl⟩
  obtain ⟨all, h⟩ := along_invariant (I := fun c => ∃ all, Sound maxlen c all)
    (fun _ _ _ ⟨_, h⟩ hstep htold => h.step hstep htold) ⟨[], hstart⟩ htold hrun
  exact h.gathered

/-- The tracker is replaced after two values were gathered, and the new one has fewer values. -/
def restarted : List (Event ℕ) :=
  [.record 10, .poll true, .record 20, .record 30, .poll true, .restart, .record 40, .poll true]

theorem gathered_or_raised_restarted : ∃ c, run (step 1024 "event-loop") {} restarted = some c ∧
    (c.contractError = true ∨ c.gathered = c.recorded) ∧ c.contractError = true ∧
    c.recorded = [20, 30] :=
  ⟨_, rfl, gathered_or_raised 1024 "event-loop" restarted (by decide) rfl, rfl, rfl⟩

/-- The new tracker has as many values as the old one had at the last poll. -/
theorem replaced_unnoticed : ∃ c, run (step 1024 "event-loop") {}
      [.record 10, .poll true, .record 20, .restart, .record 30, .poll true] = some c ∧
    c.contractError = false ∧ c.gathered = [] ∧ c.recorded = [20, 30] :=
  ⟨_, rfl, rfl, rfl, rfl⟩

end Horizon.Probe
