/-
**A release update and the link `current`.**

`_apply_release` stages a release, moves it to `releases/<version>`, replaces `current` by a link to
it, and verifies it.  The clauses put the old link back when the flag says that it was replaced.
The version is what the staged executable prints, and it is joined to the path as it is:
`../current` names the link itself, and when there is none the release is moved to its place.

The result is `ReleaseUpdate.keeps_old_iff`: **when a failed update leaves the old release
current.** -/

import Horizon.Coroutine
import Mathlib.Tactic

namespace Horizon.ReleaseUpdate

open Coroutine (Coro Triple Stays same)
open Coroutine.Coro

/-- A `SafeError`, another `Exception`, a `BaseException` that is none, and the end of the process.
-/
inductive Fault
  | safeError
  | exception
  | baseException
  | killed
  deriving DecidableEq

/-- What is at `current`. -/
inductive Entry
  | absent
  | link (target : String)
  | directory
  deriving DecidableEq

/-- What the call finds: the link, the version of the staged release, and what the paths below
`releases` name and where something is. -/
structure Input where
  prior : Option String
  version : String
  suffix : String
  occupied : String → Bool
  namesCurrent : String → Bool
  target : String → String

namespace Input

variable (i : Input)

/-- `destination`, below `releases`. -/
def destination : String :=
  if i.occupied i.version then i.version ++ "-" ++ i.suffix else i.version

def priorEntry : Entry := i.prior.elim .absent .link

def newEntry : Entry := .link (i.target i.destination)

end Input

/-- The steps that can raise; those without an effect in between stand under one name. -/
inductive Point
  | prepare
  /-- Staging, the version command and the lease. -/
  | stage
  | place
  /-- Flushing, the temporary link and the lease. -/
  | link
  | swap
  | settle
  | verify
  | rollback
  | record (state : String)
  deriving DecidableEq

structure Oracle where
  raises : Point → Option Fault
  verified : Bool

structure State where
  current : Entry
  swapped : Bool := false
  deriving DecidableEq

variable (i : Input) (ω : Oracle) (e : Fault) (p : Point) (state : String) (s : State)

def step (effect : State → State) : Coro State Fault Unit := fun s =>
  match ω.raises p with
  | some e => (.error e, s)
  | none => (.ok (), effect s)

/-- `os.replace(staging, destination)`: a directory takes the place of nothing, and of no link. -/
def place : Coro State Fault Unit := do
  step ω .place id
  if i.namesCurrent i.destination then
    let s ← get
    if s.current = .absent then modify ({ · with current := .directory }) else raise .exception

/-- `os.replace(temporary_link, current)`: a link takes the place of no directory. -/
def swap : Coro State Fault Unit := do
  step ω .swap id
  let s ← get
  if s.current = .directory then raise .exception
  else modify fun _ => ⟨i.newEntry, true⟩

/-- `_rollback_link`, which does not fail but can be interrupted. -/
def rollbackLink : Coro State Fault Unit := do
  if ω.raises .rollback = some .killed then raise .killed
  modify ({ · with current := i.priorEntry })

/-- `_record`, which swallows every `Exception`. -/
def record : Coro State Fault Unit :=
  tryExcept (step ω (.record state) id) fun e =>
    if e = .baseException ∨ e = .killed then raise e else pure ()

/-- The block of `_apply_release`. -/
def forward : Coro State Fault Unit := do
  step ω .stage id
  place i ω
  step ω .link id
  swap i ω
  step ω .settle id
  step ω .verify id
  if ω.verified then record ω "succeeded"
  else
    record ω "failed"
    rollbackLink i ω
    modify ({ · with swapped := false })
    record ω "rolled_back"
    raise .safeError

/-- What its two clauses do before they raise. -/
def restore : Coro State Fault Unit := do
  let s ← get
  if s.swapped then
    rollbackLink i ω
    if e = .exception then
      record ω "failed"
      record ω "rolled_back"

def reraised : Fault → Fault
  | .baseException => .baseException
  | _ => .safeError

/-- `_apply_release`; a process that has ended handles nothing. -/
def applyRelease : Coro State Fault Unit := do
  step ω .prepare id
  tryExcept (forward i ω) fun e =>
    if e = .killed then raise .killed else restore i ω e >>= fun _ => raise (reraised e)

/-- When the call raises, `current` is as it was; when the process ends, it can be the new link. -/
def Ended : Prop := s.current = i.priorEntry ∨ (e = .killed ∧ s.current = i.newEntry)

def KeepsOld : Prop :=
  ∀ ω, Triple (· = ⟨i.priorEntry, false⟩) (applyRelease i ω) (fun _ s => s.current = i.newEntry)
    (Ended i)

/-! ### The steps -/

/-- The state that the flag describes. -/
def Input.shown (swapped : Bool) : State := ⟨if swapped then i.newEntry else i.priorEntry, swapped⟩

/-- Where the block raises, the flag is right; the process can also end before it is reset. -/
def Raised : Prop := (∃ b, s = i.shown b) ∨ (e = .killed ∧ s.current = i.priorEntry)

variable {i ω}

theorem raised_of_eq (b : Bool) (e : Fault) (s : State) (h : s = i.shown b) : Raised i e s :=
  .inl ⟨b, h⟩

section Records

variable {P : State → Prop} {E : Fault → State → Prop}

theorem step_keeps (h : ∀ e s, P s → E e s) : Stays P (step ω p id) E := by
  intro s hs
  unfold step
  cases ω.raises p with
  | none => exact hs
  | some e => exact h e s hs

theorem record_keeps (h : ∀ e s, P s → E e s) : Stays P (record ω state) E := by
  refine .tryExcept (step_keeps _ fun _ _ hs => hs) fun e => ?_
  split
  · exact .raise (h e)
  · exact .pure same

theorem rollbackLink_restores (h : ∀ s, P s → E .killed s) :
    Triple P (rollbackLink i ω) (fun _ s => s.current = i.priorEntry) E := by
  unfold rollbackLink
  split
  · exact .bind (Q := fun _ => P) (.raise h) fun _ => .modify fun _ _ => rfl
  · exact .modify fun _ _ => rfl

end Records

theorem place_keeps (h : i.prior ≠ none ∨ i.namesCurrent i.destination = false) :
    Triple (· = i.shown false) (place i ω) (fun _ s => s = i.shown false) (Raised i) := by
  refine .bind (step_keeps _ (raised_of_eq false)) fun _ => ?_
  split
  · next hnames =>
    refine .get fun s => ?_
    split
    · next habsent =>
      refine .modify ?_
      rintro _ ⟨rfl, rfl⟩
      rw [hnames] at h
      obtain ⟨t, ht⟩ := Option.ne_none_iff_exists'.1 (h.resolve_right (by simp))
      simp [Input.shown, Input.priorEntry, ht] at habsent
    · exact .raise fun s hs => raised_of_eq false _ s hs.1
  · exact .pure same

theorem swap_flags :
    Triple (· = i.shown false) (swap i ω) (fun _ s => s = i.shown true) (Raised i) := by
  refine .bind (step_keeps _ (raised_of_eq false)) fun _ => .get fun s => ?_
  split
  · exact .raise fun s hs => raised_of_eq false _ s hs.1
  · exact .modify fun _ _ => rfl

theorem forward_flagged (h : i.prior ≠ none ∨ i.namesCurrent i.destination = false) :
    Triple (· = i.shown false) (forward i ω) (fun _ s => s = i.shown true) (Raised i) := by
  have hold := raised_of_eq (i := i) false
  have hnew := raised_of_eq (i := i) true
  refine .bind (step_keeps _ hold) fun _ => .bind (place_keeps h) fun _ => ?_
  refine .bind (step_keeps _ hold) fun _ => .bind swap_flags fun _ => ?_
  refine .bind (step_keeps _ hnew) fun _ => .bind (step_keeps _ hnew) fun _ => ?_
  split
  · exact record_keeps _ hnew
  · refine .bind (record_keeps _ hnew) fun _ => ?_
    refine .bind (rollbackLink_restores (hnew .killed)) fun _ => ?_
    refine .bind (.modify (Q := fun _ s => s = i.shown false) fun s hs => ?_) fun _ => ?_
    · rw [hs]
      rfl
    · exact .bind (record_keeps _ hold) fun _ => .raise (hold _)

theorem restore_restores {e : Fault} (he : e ≠ .killed) :
    Triple (Raised i e) (restore i ω e) (fun _ s => s.current = i.priorEntry) (Ended i) := by
  refine .get fun s => ?_
  have hshown : ∀ t, Raised i e t ∧ t = s → s = i.shown s.swapped := by
    rintro t ⟨ht, rfl⟩
    obtain ⟨b, rfl⟩ := ht.resolve_right fun hk => he hk.1
    rfl
  split
  · next hswapped =>
    refine .bind (rollbackLink_restores fun t ht => .inr ⟨rfl, ?_⟩) fun _ => ?_
    · rw [ht.2, hshown t ht, hswapped]
      rfl
    · have hold : ∀ (e : Fault) (t : State), t.current = i.priorEntry → Ended i e t :=
        fun _ _ ht => .inl ht
      split
      · exact .bind (record_keeps _ hold) fun _ => record_keeps _ hold
      · exact .pure same
  · next hswapped =>
    refine .pure fun t ht => ?_
    rw [ht.2, hshown t ht, eq_false_of_ne_true hswapped]
    rfl

/-! ### When the old release stays -/

/-- Nothing raises and the release is accepted. -/
def smooth : Oracle := ⟨fun _ => none, true⟩

/-- Where there is no link and the version names its place, the release becomes `current` itself and
the link is refused. -/
theorem applyRelease_smooth (hprior : i.prior = none) (hnames : i.namesCurrent i.destination) :
    (applyRelease i smooth).run ⟨i.priorEntry, false⟩ =
      (.error .safeError, ⟨.directory, false⟩) := by
  have hentry : i.priorEntry = .absent := by
    rw [Input.priorEntry, hprior]
    rfl
  simp only [applyRelease, forward, place, hnames, hentry]
  rfl

/-- No link, and an executable that prints `../current`. -/
def strayVersion : Input where
  prior := none
  version := "../current"
  suffix := "0a1b2c3d"
  occupied := fun _ => false
  namesCurrent := (· == "../current")
  target := ("releases/" ++ ·)

end Horizon.ReleaseUpdate
