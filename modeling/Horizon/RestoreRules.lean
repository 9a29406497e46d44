/-
**Rules for the restore service.**

A call is judged wherever it stops.  Each target has three places, the root itself, its staging
directory and its rollback directory; if no approved root lies inside another and the drawn names
are new, all these places are apart, and what is done at one of them leaves the others alone.

Main results:

* `Restore.separate_of_fresh` — **roots that are not nested are separate**.
-/

import Horizon.RestoreService

namespace Horizon.Restore

open List
open Coroutine (Coro Triple)
open FileTree

/-! ### Judgements -/

abbrev Fact := Disk → Locals → Prop

def Holds (P : Fact) (s : State) : Prop := P s.disk s.locals

theorem same {P : Fact} (d : Disk) (l : Locals) (h : P d l) : P d l := h

/-- The fact holds, and under `S` the process lives. -/
def Within (S : Prop) (P : Fact) (s : State) : Prop := (S → s.alive = true) ∧ Holds P s

/-- From `P` the call comes to `Q`, or it stops in `E`; under `S` the process lives on. -/
def Judged {α : Type} (S : Prop) (P : Fact) (c : Proc α) (Q : α → Fact) (E : Fact) : Prop :=
  Triple (Within S P) c (fun a => Within S (Q a)) fun _ => Within S E

/-- Wherever the call stops. -/
abbrev Leads {α : Type} (P : Fact) (c : Proc α) (Q : α → Fact) (E : Fact) : Prop :=
  Judged False P c Q E

/-- Steps are done, unless the process is killed. -/
def Oracle.NeverFails (ω : Oracle) : Prop := ∀ k, (ω k).fate ≠ .fail

/-- Every step is done, and the lease is kept; what the other conditions say is open. -/
structure Oracle.Undisturbed (ω : Oracle) : Prop where
  go : ∀ k, (ω k).fate = .go
  owned : ∀ k, (ω k).owned = true

theorem forM_map_eq {β γ : Type} (g : γ → β) (f : β → Proc PUnit) (list : List γ) :
    (list.map g).forM f = list.forM fun c => f (g c) := by
  induction list with
  | nil => rfl
  | cons c rest ih => exact congrArg (f (g c) >>= ·) (funext fun _ => ih)

namespace Judged

variable {α β : Type} {S : Prop} {ω : Oracle} {P E : Fact} {Q : α → Fact} {c : Proc α}
  {f : Moment → Disk → Except Failure (α × Disk)} {code message : String} {p : Path}
  {k : α → Proc β} {R : β → Fact}

theorem pure {a : α} (h : ∀ d l, P d l → Q a d l) : Judged S P (Pure.pure a) Q E :=
  Triple.pure fun _ hs => ⟨hs.1, h _ _ hs.2⟩

theorem raise {e : Failure} (h : ∀ d l, P d l → E d l) : Judged S P (Coro.raise e : Proc α) Q E :=
  Triple.raise fun _ hs => ⟨hs.1, h _ _ hs.2⟩

theorem bind (hc : Judged S P c Q E) (hk : ∀ a, Judged S (Q a) (k a) R E) :
    Judged S P (c >>= k) R E :=
  Triple.bind hc hk

theorem next {M : Fact} {n : Proc β} (hc : Judged S P c (fun _ => M) E) (hn : Judged S M n R E) :
    Judged S P (c >>= fun _ => n) R E :=
  Triple.next hc hn

theorem seq (M : Fact) (hc : Judged S P c (fun _ => M) E) (hk : ∀ a, Judged S M (k a) R E) :
    Judged S P (c >>= k) R E :=
  Triple.bind hc hk

section Consequence

variable {P' E' : Fact} {Q' : α → Fact}

theorem conseq (h : Judged S P c Q E) (hP : ∀ d l, P' d l → P d l)
    (hQ : ∀ a d l, Q a d l → Q' a d l) (hE : ∀ d l, E d l → E' d l) : Judged S P' c Q' E' :=
  Triple.conseq h (fun _ hs => ⟨hs.1, hP _ _ hs.2⟩) (fun a _ hs => ⟨hs.1, hQ a _ _ hs.2⟩)
    fun _ _ hs => ⟨hs.1, hE _ _ hs.2⟩

theorem pre (h : Judged S P c Q E) (hP : ∀ d l, P' d l → P d l) : Judged S P' c Q E :=
  h.conseq hP (fun _ _ _ h => h) fun _ _ h => h

theorem post (h : Judged S P c Q E) (hQ : ∀ a d l, Q a d l → Q' a d l) : Judged S P c Q' E :=
  h.conseq (fun _ _ h => h) hQ fun _ _ h => h

theorem leave (h : Judged S P c Q E) (hE : ∀ d l, E d l → E' d l) : Judged S P c Q E' :=
  h.conseq (fun _ _ h => h) (fun _ _ _ h => h) hE

end Consequence

theorem ite {q : Prop} [Decidable q] {c' : Proc α} (h : q → Judged S P c Q E)
    (h' : ¬ q → Judged S P c' Q E) : Judged S P (if q then c else c') Q E :=
  iteInduction (motive := fun c => Judged S P c Q E) h h'

theorem assume (h : ∀ d₀ l₀, P d₀ l₀ → Judged S (fun d l => d = d₀ ∧ l = l₀) c Q E) :
    Judged S P c Q E :=
  fun s hs => h s.disk s.locals hs.2 s ⟨hs.1, rfl, rfl⟩

theorem given {H : Prop} (h : H → Judged S P c Q E) : Judged S (fun d l => H ∧ P d l) c Q E :=
  fun s hs => h hs.2.1 s ⟨hs.1, hs.2.2⟩

theorem impossible (h : ∀ d l, ¬ P d l) : Judged S P c Q E := fun _ hs => (h _ _ hs.2).elim

theorem tryExcept {E' : Fact} {h : Failure → Proc α} (hc : Judged S P c Q E)
    (hh : ∀ e, Judged S E (h e) Q E') : Judged S P (Coro.tryExcept c h) Q E' :=
  Triple.tryExcept hc hh

theorem tryFinally {R : α → Fact} {F : Fact} {f : Bool → Proc Unit} (hc : Judged S P c R F)
    (hQ : ∀ a, Judged S (R a) (f false) (fun _ => Q a) E)
    (hE : Judged S F (f true) (fun _ => E) E) : Judged S P (.tryFinally c f) Q E :=
  Triple.tryFinally hc hQ fun _ => hE

/-- A loop: `I done` holds when the elements of `done` have been handled. -/
theorem forM (I : List β → Fact) {f : β → Proc PUnit} (list : List β)
    (h : ∀ done b rest, list = done ++ b :: rest →
      Judged S (I done) (f b) (fun _ => I (done ++ [b])) E) :
    Judged S (I []) (list.forM f) (fun _ => I list) E :=
  Triple.forM (I := fun done => Within S (I done)) list h

theorem forM_map {γ : Type} (I : List γ → Fact) {g : γ → β} {f : β → Proc PUnit} (list : List γ)
    (h : ∀ done c rest, list = done ++ c :: rest →
      Judged S (I done) (f (g c)) (fun _ => I (done ++ [c])) E) :
    Judged S (I []) ((list.map g).forM f) (fun _ => I list) E := by
  rw [forM_map_eq]
  exact forM I list h

theorem assign {f : Locals → Locals} {Q : Fact} (h : ∀ d l, P d l → Q d (f l)) :
    Judged S P (assign f) (fun _ => Q) E :=
  .modify fun _ hs => ⟨hs.1, h _ _ hs.2⟩

theorem look {f : Disk → α} (h : ∀ d l, P d l → Q (f d) d l) : Judged S P (look f) Q E :=
  fun _ hs => ⟨hs.1, h _ _ hs.2⟩

theorem look_bind {f : Disk → β} {k : β → Proc α}
    (h : ∀ b, Judged S (fun d l => P d l ∧ f d = b) (k b) Q E) :
    Judged S P (Restore.look f >>= k) Q E :=
  bind (Q := fun b d l => P d l ∧ f d = b) (look fun _ _ hs => ⟨hs, rfl⟩) h

theorem currentLocals {Q : Locals → Fact} (h : ∀ d l, P d l → Q l d l) :
    Judged S P Restore.currentLocals Q E :=
  fun _ hs => ⟨hs.1, h _ _ hs.2⟩

theorem currentLocals_bind {k : Locals → Proc α}
    (h : ∀ l', Judged S (fun d l => P d l ∧ l' = l) (k l') Q E) :
    Judged S P (Restore.currentLocals >>= k) Q E :=
  bind (Q := fun l' d l => P d l ∧ l' = l) (currentLocals fun _ _ hs => ⟨hs, rfl⟩) h

/-- **One step.** -/
theorem perform {undone : Moment → Disk → Disk} (hω : S → ω.Undisturbed)
    (hP : ¬ S → ∀ d l, P d l → E d l) (hE : ¬ S → ∀ m d l, P d l → E (undone m d) l)
    (hf : ∀ m d l a d', P d l → f m d = .ok (a, d') → Q a d' l)
    (he : ∀ k d l e, P d l → f (ω k) d = .error e → E d l) : Judged S P (step ω undone f) Q E := by
  rintro s ⟨hS, hs⟩
  -- a run that nothing disturbs meets no other fate than `go`
  have hnot {fate : Fate} (hfate : (ω s.moments).fate = fate) (hne : fate ≠ .go) : ¬ S :=
    fun h => hne (hfate.symm.trans ((hω h).go _))
  unfold Coro.run step
  by_cases halive : s.alive = true
  · rw [if_pos halive]
    dsimp only
    cases hfate : (ω s.moments).fate with
    | kill => exact ⟨fun h => absurd h (hnot hfate nofun), hE (hnot hfate nofun) _ _ _ hs⟩
    | fail => exact ⟨fun _ => halive, hE (hnot hfate nofun) _ _ _ hs⟩
    | go =>
      cases hfm : f (ω s.moments) s.disk with
      | error e => exact ⟨fun _ => halive, he _ _ _ e hs hfm⟩
      | ok out =>
        obtain ⟨a, d⟩ := out
        exact ⟨fun _ => halive, hf _ _ _ a d hs hfm⟩
  · rw [if_neg halive]
    exact ⟨hS, hP (fun h => halive (hS h)) _ _ hs⟩

section Performed

variable (hω : S → ω.Undisturbed) (hP : ¬ S → ∀ d l, P d l → E d l)
include hω hP

theorem perform_write {f : Disk → Disk} {Q : Fact} (hf : ∀ d l, P d l → Q (f d) l) :
    Judged S P (write ω f) (fun _ => Q) E := by
  refine perform hω hP (fun h _ => hP h) (fun m d l a d' hs he => ?_) fun k d l e hs he => ?_
  · cases he
    exact hf d l hs
  · cases he

theorem perform_touch : Judged S P (touch ω) (fun _ => P) E := perform_write hω hP fun _ _ hs => hs

theorem perform_guard {q : Moment → Disk → Prop} [∀ m d, Decidable (q m d)] {failure : Failure}
    (hE : ∀ k d l, P d l → ¬ q (ω k) d → E d l) :
    Judged S P (Restore.step ω keep fun m d => if q m d then .ok ((), d) else .error failure)
      (fun _ => P) E := by
  refine perform hω hP (fun h _ => hP h) (fun m d l a d' hs he => ?_) fun k d l e hs he => ?_
  · split at he <;> cases he
    exact hs
  · split at he
    · cases he
    · rename_i hq
      exact hE k d l hs hq

theorem perform_lease : Judged S P (assertLease ω) (fun _ => P) E := by
  refine perform_guard hω hP fun k d l hs hq => hP (fun h => ?_) d l hs
  exact hq ((hω h).owned k)

theorem perform_replace {source target : Path} {Q : Fact}
    (hcan : S → ∀ d l, P d l → canReplace d.tree source target = true)
    (hf : ∀ d l, P d l → Q (d.move source target) l) :
    Judged S P (replace ω source target) (fun _ => Q) E := by
  refine perform hω hP (fun h _ => hP h) (fun m d l a d' hs he => ?_) fun k d l e hs he => ?_
  · split at he <;> cases he
    exact hf d l hs
  · refine hP (fun h => ?_) d l hs
    rw [if_pos (hcan h d l hs)] at he
    cases he

end Performed

theorem perform_assure (hω : S → ω.Undisturbed) (hP : ∀ d l, P d l → E d l) :
    Judged S P (assure ω code message) (fun _ => P) E :=
  perform_guard hω (fun _ => hP) fun _ d l hs _ => hP d l hs

section Steps

variable (hP : ∀ d l, P d l → E d l)
include hP

theorem step {undone : Moment → Disk → Disk} (hE : ∀ m d l, P d l → E (undone m d) l)
    (hf : ∀ m d l a d', P d l → f m d = .ok (a, d') → Q a d' l) :
    Leads P (step ω undone f) Q E :=
  perform nofun (fun _ => hP) (fun _ => hE) hf fun _ d l _ hs _ => hP d l hs

theorem write {f : Disk → Disk} {Q : Fact} (hf : ∀ d l, P d l → Q (f d) l) :
    Leads P (write ω f) (fun _ => Q) E :=
  perform_write nofun (fun _ => hP) hf

theorem touch : Leads P (touch ω) (fun _ => P) E := perform_touch nofun fun _ => hP

theorem guard {q : Moment → Disk → Prop} [∀ m d, Decidable (q m d)] {failure : Failure} :
    Leads P (Restore.step ω keep fun m d => if q m d then .ok ((), d) else .error failure)
      (fun _ => P) E :=
  perform_guard nofun (fun _ => hP) fun _ d l hs _ => hP d l hs

theorem assure : Leads P (assure ω code message) (fun _ => P) E := perform_assure nofun hP

theorem assertLease : Leads P (assertLease ω) (fun _ => P) E := guard hP

/-- `shutil.rmtree`; if it stops, something is left. -/
theorem rmtree {Q : Fact} (hE : ∀ d l x, P d l → E (d.put p x) l)
    (hf : ∀ d l, P d l → Q (d.put p none) l) : Leads P (rmtree ω p) (fun _ => Q) E := by
  refine step hP (fun m d l hs => hE d l _ hs) fun m d l a d' hs he => ?_
  split at he <;> cases he
  exact hf d l hs

theorem replace {source target : Path} {Q : Fact} (hf : ∀ d l, P d l → Q (d.move source target) l) :
    Leads P (replace ω source target) (fun _ => Q) E :=
  perform_replace nofun (fun _ => hP) nofun hf

theorem removeIfExists {Q : Fact} (hE : ∀ d l x, P d l → d.exists p = true → E (d.put p x) l)
    (hf : ∀ d l, P d l → d.exists p = true → Q (d.put p none) l)
    (hn : ∀ d l, P d l → d.exists p = false → Q d l) :
    Leads P (removeIfExists ω p) (fun _ => Q) E := by
  refine look_bind fun present => ?_
  cases present with
  | true =>
    exact rmtree (fun d l hs => hP d l hs.1) (fun d l x hs => hE d l x hs.1 hs.2) fun d l hs =>
      hf d l hs.1 hs.2
  | false => exact pure fun d l hs => hn d l hs.1 hs.2

end Steps

/-- `rmtree(ignore_errors=True)` of something that may stay there. -/
theorem removeIgnoringErrors (hE : ∀ d l x, P d l → d.exists p = true → P (d.put p x) l) :
    Leads P (removeIgnoringErrors ω p) (fun _ => P) P := by
  refine tryExcept (removeIfExists (fun _ _ hs => hs) hE
    (fun d l hs hp => hE d l none hs hp) fun _ _ hs _ => hs) fun e => ?_
  cases e with
  | killed => exact raise fun _ _ hs => hs
  | error | safe => exact pure fun _ _ hs => hs

/-- The same if steps are done; what is no directory stays. -/
theorem removeIgnoringErrors_done {Q : Fact} (hω : S → ω.Undisturbed) (hgo : ω.NeverFails)
    (hP : ¬ S → ∀ d l, P d l → E d l)
    (hE : ¬ S → ∀ d l x, P d l → d.exists p = true → E (d.put p x) l)
    (hf : ∀ d l, P d l → d.exists p = true → Q (d.put p none) l)
    (hn : ∀ d l, P d l → d.exists p = false → Q d l)
    (hfile : ∀ d l c, P d l → d.tree.get p = some (.file c) → Q d l) :
    Judged S P (Restore.removeIgnoringErrors ω p) (fun _ => Q) E := by
  refine Triple.tryExcept (F := fun e s => (e = .killed ∧ Within S E s) ∨ e = .error ∧ Within S Q s)
    ?_ fun e => ?_
  · refine Triple.bind (Q := fun present s => Within S P s ∧ s.disk.exists p = present)
      (fun s hs => ⟨hs, rfl⟩) fun present => ?_
    cases present with
    | false => exact .pure fun s hs => ⟨hs.1.1, hn _ _ hs.1.2 hs.2⟩
    | true =>
      rintro s ⟨⟨hS, hs⟩, hp⟩
      unfold Coro.run
      simp only [if_pos, Restore.rmtree, Restore.step]
      by_cases halive : s.alive = true
      · rw [if_pos halive]
        cases hfate : (ω s.moments).fate with
        | kill =>
          have hnot : ¬ S := fun h => by simp [(hω h).go] at hfate
          exact .inl ⟨rfl, fun h => absurd h hnot, hE hnot _ _ _ hs hp⟩
        | fail => exact absurd hfate (hgo s.moments)
        | go =>
          cases hget : s.disk.tree.get p with
          | none => simp [Disk.exists, hget] at hp
          | some n =>
            cases n with
            | file content => exact .inr ⟨rfl, fun _ => halive, hfile _ _ content hs hget⟩
            | dir children => exact ⟨fun _ => halive, hf _ _ hs hp⟩
      · rw [if_neg halive]
        exact .inl ⟨rfl, hS, hP (fun h => halive (hS h)) _ _ hs⟩
  · cases e with
    | killed => exact .raise fun s hs => (hs.resolve_right nofun).2
    | error | safe => exact .pure fun s hs => (hs.resolve_left nofun).2

theorem raiseIf {x : Option Failure} (hP : ∀ d l, P d l → E d l) :
    Judged S P (raiseIf x) (fun _ d l => x = none ∧ P d l) E := by
  cases x with
  | none => exact pure fun _ _ hs => ⟨rfl, hs⟩
  | some e => exact raise hP

theorem asSafeError (h : Judged S P c Q E) : Judged S P (asSafeError code message c) Q E := by
  refine tryExcept h fun e => ?_
  cases e <;> exact raise same

theorem final {d : Disk} {I : Disk → Prop} (h : Leads P c (fun _ d _ => I d) fun d _ => I d)
    (hd : P d .new) : I (c.run (.start d)).2.disk :=
  (Triple.final (I := Within False fun d _ => I d) h (s := .start d) ⟨nofun, hd⟩).2

end Judged

/-! ### Places -/

inductive Slot
  | root
  | staging
  | rollback
  deriving DecidableEq

def slotPath (names : Names) (t : Target) : Slot → Path
  | .root => t.path
  | .staging => names.stagingPath t
  | .rollback => names.rollbackPath t

def slot (names : Names) (d : Disk) (t : Target) (k : Slot) : Option Tree :=
  d.tree.get (slotPath names t k)

/-- The places of the targets are apart, and the directories of the roots lie below none of them. -/
structure Separate (names : Names) (targets : List Target) : Prop where
  apart : ∀ t ∈ targets, ∀ u ∈ targets, ∀ k j, (t ≠ u ∨ k ≠ j) →
    Apart (slotPath names t k) (slotPath names u j)
  parents : ∀ t ∈ targets, ∀ u ∈ targets, ∀ k, ¬ slotPath names t k <+: u.path.dropLast

/-- The directories of the roots are there. -/
def Parents (targets : List Target) (d : Disk) : Prop :=
  ∀ t ∈ targets, IsDirAt d.tree t.path.dropLast

section Slots

variable {names : Names} {targets : List Target}

theorem dropLast_slotPath (t : Target) (k : Slot) :
    (slotPath names t k).dropLast = t.path.dropLast := by
  cases k with
  | root => rfl
  | staging | rollback => exact dropLast_concat

variable (hsep : Separate names targets) {d : Disk} (hd : Parents targets d) {t : Target}
  {k j : Slot}
include hsep

theorem slotPath_ne_nil (ht : t ∈ targets) (k : Slot) : slotPath names t k ≠ [] := by
  intro h
  refine hsep.parents t ht t ht k ?_
  rw [h]
  exact nil_prefix

theorem parents_put (hd : Parents targets d) (ht : t ∈ targets) (k : Slot) (x : Option Tree) :
    Parents targets (d.put (slotPath names t k) x) :=
  fun u hu => isDir_put (hsep.parents t ht u hu k) x (hd u hu)

theorem parents_move (hd : Parents targets d) (ht : t ∈ targets) (k j : Slot) :
    Parents targets (d.move (slotPath names t k) (slotPath names t j)) :=
  fun u hu => isDir_move (hsep.parents t ht u hu k) (hsep.parents t ht u hu j) (hd u hu)

include hd

theorem slot_put_self (ht : t ∈ targets) (k : Slot) (x : Option Tree) :
    slot names (d.put (slotPath names t k) x) t k = x := by
  refine get_put_self (slotPath_ne_nil hsep ht k) ?_ x
  rw [dropLast_slotPath]
  exact hd t ht

omit hd in
theorem slot_put_other {t u : Target} (ht : t ∈ targets) (hu : u ∈ targets) (k : Slot)
    (h : t ≠ u ∨ k ≠ j) (x : Option Tree) :
    slot names (d.put (slotPath names t k) x) u j = slot names d u j :=
  get_put_apart (hsep.apart t ht u hu k j h) x

theorem slot_move_target (ht : t ∈ targets) (h : k ≠ j) :
    slot names (d.move (slotPath names t k) (slotPath names t j)) t j = slot names d t k := by
  refine get_move_target (hsep.apart t ht t ht k j (.inr h)) ?_ ?_
  · rw [dropLast_slotPath]
    exact hd t ht
  · rw [dropLast_slotPath]
    exact hsep.parents t ht t ht k

theorem slot_move_source (ht : t ∈ targets) (h : k ≠ j) :
    slot names (d.move (slotPath names t k) (slotPath names t j)) t k = none := by
  refine get_move_source (hsep.apart t ht t ht k j (.inr h)) ?_
  rw [dropLast_slotPath]
  exact hd t ht

omit hd in
theorem slot_move_other {t u : Target} (ht : t ∈ targets) (hu : u ∈ targets) {k j i : Slot}
    (hk : t ≠ u ∨ k ≠ i) (hj : t ≠ u ∨ j ≠ i) :
    slot names (d.move (slotPath names t k) (slotPath names t j)) u i = slot names d u i :=
  get_move_apart (hsep.apart t ht u hu k i hk) (hsep.apart t ht u hu j i hj)

end Slots

/-! ### Drawn names -/

/-- The identifier that a restore of this archive uses for a root. -/
def Archive.rootId (s : Service) (a : Archive) (root : Path) : String :=
  match a.descriptors with
  | none => "root-0"
  | some _ => s.rootId root

/-- The last component of a staging or rollback path. -/
def Names.drawn (names : Names) (id : String) : Slot → String
  | .root => ""
  | .staging => ".restore-" ++ id ++ "-" ++ names.staging id
  | .rollback => ".rollback-" ++ names.rollback id

/-- The drawn names are new: they differ from one another and from every component of an approved
root, and nothing is at a rollback path. -/
structure Names.Fresh (names : Names) (s : Service) (a : Archive) (d : Disk) : Prop where
  unused : ∀ root ∈ s.approved, ∀ other ∈ s.approved, ∀ k, k ≠ .root →
    names.drawn (a.rootId s root) k ∉ other
  distinct : ∀ root ∈ s.approved, ∀ other ∈ s.approved, ∀ k j, k ≠ .root → j ≠ .root →
    (root ≠ other ∨ k ≠ j) → names.drawn (a.rootId s root) k ≠ names.drawn (a.rootId s other) j
  vacant : ∀ root ∈ s.approved,
    d.tree.get (root.dropLast ++ [names.drawn (a.rootId s root) .rollback]) = none

def Service.NotNested (s : Service) : Prop :=
  ∀ root ∈ s.approved, ∀ other ∈ s.approved, root <+: other → root = other

/-- What `_read_targets` finds. -/
structure TargetsOf (s : Service) (a : Archive) (d : Disk) (targets : List Target) : Prop where
  approved : ∀ t ∈ targets, t.path ∈ s.approved
  id : ∀ t ∈ targets, t.id = a.rootId s t.path
  existed : ∀ t ∈ targets, t.existed = d.exists t.path
  complete : ∀ root ∈ s.approved, ∃ t ∈ targets, t.path = root
  nodup : targets.Nodup
  parents : Parents targets d
  dirs : ∀ t ∈ targets, t.existed = true → IsDirAt d.tree t.path
  pathOfId : ∀ t ∈ targets, ∀ u ∈ targets, t.id = u.id → t.path = u.path

namespace TargetsOf

variable {s : Service} {a : Archive} {d : Disk} {targets : List Target}

theorem ext (h : TargetsOf s a d targets) {t u : Target} (ht : t ∈ targets) (hu : u ∈ targets)
    (hpath : t.path = u.path) : t = u := by
  have hid : t.id = u.id := by rw [h.id t ht, h.id u hu, hpath]
  have hexisted : t.existed = u.existed := by rw [h.existed t ht, h.existed u hu, hpath]
  cases t
  cases u
  cases hid
  cases hpath
  cases hexisted
  rfl

end TargetsOf

theorem slotPath_eq (names : Names) (t : Target) {k : Slot} (hk : k ≠ .root) :
    slotPath names t k = t.path.dropLast ++ [names.drawn t.id k] := by
  cases k with
  | root => exact absurd rfl hk
  | staging => rfl
  | rollback => rfl

/-- A path that ends in a name below another path contains the name. -/
theorem mem_of_concat_below {p q : Path} {name : String} (h : p ++ [name] <+: q) : name ∈ q :=
  h.subset (by simp)

theorem not_concat_below {p q : Path} {name other : String} (hq : name ∉ q) (h : name ≠ other) :
    ¬ p ++ [name] <+: q ++ [other] := by
  intro hpq
  have hmem := mem_of_concat_below hpq
  rcases mem_append.1 hmem with hin | hin
  · exact hq hin
  · exact h (mem_singleton.1 hin)

/-- **Roots that are not nested are separate.** -/
theorem separate_of_fresh {s : Service} {a : Archive} {d : Disk} {names : Names}
    {targets : List Target} (hn : s.NotNested) (hf : names.Fresh s a d)
    (ht : TargetsOf s a d targets) : Separate names targets := by
  have hbelow : ∀ t ∈ targets, ∀ u ∈ targets, ∀ k, ¬ slotPath names t k <+: u.path.dropLast := by
    intro t htt u hu k hlow
    by_cases hk : k = .root
    · subst hk
      have hroot : t.path <+: u.path := hlow.trans <| dropLast_prefix _
      have heq := hn _ (ht.approved t htt) _ (ht.approved u hu) hroot
      have hlen := hlow.length_le
      have hne := s.approved_absolute _ (ht.approved u hu)
      have hpos := length_pos_iff.2 hne
      simp only [slotPath, heq, length_dropLast] at hlen
      omega
    · rw [slotPath_eq names t hk, ht.id t htt] at hlow
      have hmem := (dropLast_subset _) (mem_of_concat_below hlow)
      exact hf.unused _ (ht.approved t htt) _ (ht.approved u hu) k hk hmem
  -- one direction of the separation; the other follows by exchanging the two places
  have hnot : ∀ t ∈ targets, ∀ u ∈ targets, ∀ k j, (t ≠ u ∨ k ≠ j) →
      ¬ slotPath names t k <+: slotPath names u j := by
    intro t htt u hu k j hkj hlow
    by_cases hk : k = .root
    · subst hk
      by_cases hj : j = .root
      · subst hj
        have heq := hn _ (ht.approved t htt) _ (ht.approved u hu) hlow
        rcases hkj with hne | hne
        · exact hne (ht.ext htt hu heq)
        · exact hne rfl
      · rw [slotPath_eq names u hj] at hlow
        rcases prefix_concat_iff.1 hlow with heq | hdir
        · have hmem : names.drawn u.id j ∈ t.path := by
            rw [show t.path = u.path.dropLast ++ [names.drawn u.id j] from heq]
            simp
          rw [ht.id u hu] at hmem
          exact hf.unused _ (ht.approved u hu) _ (ht.approved t htt) j hj hmem
        · exact hbelow t htt u hu .root hdir
    · by_cases hj : j = .root
      · subst hj
        rw [slotPath_eq names t hk, ht.id t htt] at hlow
        exact hf.unused _ (ht.approved t htt) _ (ht.approved u hu) k hk (mem_of_concat_below hlow)
      · rw [slotPath_eq names t hk, slotPath_eq names u hj] at hlow
        refine not_concat_below ?_ ?_ hlow
        · rw [ht.id t htt]
          intro hmem
          exact hf.unused _ (ht.approved t htt) _ (ht.approved u hu) k hk
            (dropLast_subset _ hmem)
        · rw [ht.id t htt, ht.id u hu]
          refine hf.distinct _ (ht.approved t htt) _ (ht.approved u hu) k j hk hj ?_
          rcases hkj with hne | hne
          · exact .inl fun heq => hne (ht.ext htt hu heq)
          · exact .inr hne
  exact ⟨fun t htt u hu k j hkj => ⟨hnot t htt u hu k j hkj, hnot u hu t htt j k
    (hkj.imp Ne.symm Ne.symm)⟩, hbelow⟩

/-! ### Reading the targets -/

variable (s : Service) (a : Archive) {entries : List (String × Path)}

theorem mapRoots_ok (h : mapRoots s a = .ok entries) :
    (entries.Nodup ∧ (∀ e ∈ entries, e.2 ∈ s.approved ∧ e.1 = a.rootId s e.2) ∧
      ∀ root ∈ s.approved, ∃ e ∈ entries, e.2 = root) ∧
      ∀ root ∈ s.approved, ∀ other ∈ s.approved, a.rootId s root = a.rootId s other →
        root = other := by
  unfold mapRoots at h
  cases hdesc : a.descriptors with
  | none =>
    rw [hdesc] at h
    have hid : ∀ root, a.rootId s root = "root-0" := by
      intro root
      simp [Archive.rootId, hdesc]
    cases happ : s.approved with
    | nil => exact absurd happ s.approved_nonempty
    | cons root rest =>
      cases rest with
      | cons other rest => simp [happ] at h
      | nil =>
        simp only [happ, Except.ok.injEq] at h
        subst h
        simp [hid]
  | some descriptors =>
    rw [hdesc] at h
    have hid : ∀ root, a.rootId s root = s.rootId root := by
      intro root
      simp [Archive.rootId, hdesc]
    have hinj : ∀ root ∈ s.approved, ∀ other ∈ s.approved,
        a.rootId s root = a.rootId s other → root = other := by
      intro root hroot other hother heq
      rw [hid, hid] at heq
      exact s.rootId_inj root hroot other hother heq
    dsimp only at h
    split at h
    · rename_i hcond
      obtain ⟨-, hcomplete, hids⟩ := hcond
      cases h
      refine ⟨⟨nodup_reverse.2 (nodup_dedup _), fun e he => ?_, fun root hroot => ?_⟩,
        hinj⟩
      · rw [mem_reverse, mem_dedup, mem_reverse] at he
        refine ⟨?_, (hids e he).trans (hid e.2).symm⟩
        obtain ⟨item, -, hitem⟩ := mem_filterMap.1 he
        obtain ⟨root, hroot, rfl⟩ := Option.map_eq_some_iff.1 hitem
        exact mem_of_find?_eq_some hroot
      · obtain ⟨e, he, hpath⟩ := mem_map.1 (hcomplete root hroot)
        refine ⟨e, ?_, hpath⟩
        rw [mem_reverse, mem_dedup, mem_reverse]
        exact he
    · cases h

variable {S : Prop} {ω : Oracle} (hω : S → ω.Undisturbed) {d₀ : Disk} {l₀ : Locals}

structure ReadAs (d₀ : Disk) (entries : List (String × Path)) (targets : List Target) : Prop where
  entries : targets.map (fun t => (t.id, t.path)) = entries
  existed : ∀ t ∈ targets, t.existed = d₀.exists t.path
  parents : Parents targets d₀
  dirs : ∀ t ∈ targets, t.existed = true → IsDirAt d₀.tree t.path

include hω

theorem readTarget_judged {entry : String × Path} (hne : entry.2 ≠ []) :
    Judged S (fun d l => d = d₀ ∧ l = l₀) (readTarget ω entry)
      (fun t d l => ((t.id, t.path) = entry ∧ t.existed = d₀.exists t.path ∧
        IsDirAt d₀.tree t.path.dropLast ∧ (t.existed = true → IsDirAt d₀.tree t.path)) ∧
        d = d₀ ∧ l = l₀) (fun d l => d = d₀ ∧ l = l₀) := by
  refine .perform hω (fun _ _ _ h => h) (fun _ _ _ _ h => h) (fun m d l t d' h he => ?_)
    fun _ _ _ _ h _ => h
  obtain ⟨rfl, rfl⟩ := h
  cases hget : d.tree.get entry.2 with
  | none =>
    rw [hget] at he
    dsimp only at he
    split at he <;> cases he
    refine ⟨⟨rfl, by simp [Disk.exists, hget], ?_, by simp⟩, rfl, rfl⟩
    obtain ⟨n, hn, hdir⟩ := (Option.any_eq_true _ _).1 ‹_›
    exact ⟨n, hn, hdir⟩
  | some n =>
    rw [hget] at he
    cases n with
    | file content => cases he
    | dir children =>
      dsimp only at he
      split at he <;> cases he
      refine ⟨⟨rfl, by simp [Disk.exists, hget], ?_, fun _ => ⟨_, hget, rfl⟩⟩, rfl, rfl⟩
      exact isDirAt_dropLast hne (by simp [hget])

theorem readEach_judged (hne : ∀ e ∈ entries, e.2 ≠ []) :
    Judged S (fun d l => d = d₀ ∧ l = l₀) (readEach ω entries)
      (fun targets d l => (d = d₀ ∧ l = l₀) ∧ ReadAs d₀ entries targets)
      (fun d l => d = d₀ ∧ l = l₀) := by
  induction entries with
  | nil => exact .pure fun _ _ h => ⟨h, rfl, by simp, by simp [Parents], by simp⟩
  | cons entry rest ih =>
    refine (readTarget_judged hω (hne entry (.head _))).bind fun t => .given fun ht => ?_
    obtain ⟨hentry, hexisted, hparent, hdir⟩ := ht
    refine (ih fun e he => hne e (.tail _ he)).bind fun targets => .pure fun d l h => ?_
    obtain ⟨hsame, hread⟩ := h
    refine ⟨hsame, by rw [map_cons, hread.entries, hentry], ?_, ?_, ?_⟩
    · exact forall_mem_cons.2 ⟨hexisted, hread.existed⟩
    · exact forall_mem_cons.2 ⟨hparent, hread.parents⟩
    · exact forall_mem_cons.2 ⟨hdir, hread.dirs⟩

theorem readTargets_judged :
    Judged S (fun d l => d = d₀ ∧ l = l₀) (readTargets s ω a)
      (fun targets d l => TargetsOf s a d₀ targets ∧ d = d₀ ∧ l = l₀)
      (fun d l => d = d₀ ∧ l = l₀) := by
  unfold readTargets
  cases hmap : mapRoots s a with
  | error e => exact .raise same
  | ok entries =>
    obtain ⟨⟨hnodup, hentries, hcomplete⟩, hinj⟩ := mapRoots_ok s a hmap
    have hne : ∀ e ∈ entries, e.2 ≠ [] := fun e he => s.approved_absolute _ (hentries e he).1
    refine (readEach_judged hω hne).post fun targets d l h => ⟨?_, h.1⟩
    obtain ⟨hsame, hread⟩ := h
    have hmem : ∀ t ∈ targets, (t.id, t.path) ∈ entries := by
      intro t ht
      rw [← hread.entries]
      exact mem_map_of_mem ht
    refine ⟨fun t ht => (hentries _ (hmem t ht)).1, fun t ht => (hentries _ (hmem t ht)).2,
      hread.existed, fun root hroot => ?_, ?_, hread.parents, hread.dirs, fun t ht u hu hid => ?_⟩
    · obtain ⟨e, he, rfl⟩ := hcomplete root hroot
      rw [← hread.entries] at he
      obtain ⟨t, ht, rfl⟩ := mem_map.1 he
      exact ⟨t, ht, rfl⟩
    · rw [← hread.entries] at hnodup
      exact hnodup.of_map _
    · obtain ⟨htapp, htid⟩ := hentries _ (hmem t ht)
      obtain ⟨huapp, huid⟩ := hentries _ (hmem u hu)
      exact hinj _ htapp _ huapp (htid.symm.trans (hid.trans huid))

end Horizon.Restore
