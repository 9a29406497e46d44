/-
**Coroutines that raise.**

A coroutine is run to its end on a state; it returns a value or raises, and the state it leaves is
there in both cases.  `tryExcept` and `tryFinally` are Python's statements: the handler of the first
sees the exception and may raise it again; the last block of the second runs in both cases, is told
whether an exception is on its way, and replaces it by its own.

Main definitions:

* `Coroutine.Coro` — with `raise`, `modify`, `tryExcept`, `tryFinally`;
* `Coroutine.Triple` — what holds before, after a return and after an exception;
* `Coroutine.Ends`, `Coroutine.Stays` — one condition after either, or before and after a return;
* `Coroutine.Keeps` — an invariant that holds however the coroutine ends.

Main results:

* `Coroutine.Triple.bind`, `Coroutine.Triple.forM`, `Coroutine.Triple.tryExcept`,
  `Coroutine.Triple.tryFinally` — the rules.
-/

import Mathlib.Tactic.Common

namespace Coroutine

variable {σ ε α β : Type}

/-- A computation on a state that returns or raises. -/
def Coro (σ ε α : Type) : Type := σ → Except ε α × σ

namespace Coro

instance : Monad (Coro σ ε) where
  pure a := fun s => (.ok a, s)
  bind m k := fun s =>
    match m s with
    | (.ok a, s') => k a s'
    | (.error e, s') => (.error e, s')

variable (m : Coro σ ε α) (f : Bool → Coro σ ε Unit)

def run (s : σ) : Except ε α × σ := m s

def raise (e : ε) : Coro σ ε α := fun s => (.error e, s)

def get : Coro σ ε σ := fun s => (.ok s, s)

def modify (f : σ → σ) : Coro σ ε Unit := fun s => (.ok (), f s)

/-- `try: m except …: h`; the handler raises again what it does not catch. -/
def tryExcept (h : ε → Coro σ ε α) : Coro σ ε α := fun s =>
  match m s with
  | (.ok a, s') => (.ok a, s')
  | (.error e, s') => h e s'

/-- `try: m finally: f`; the last block is told whether an exception is on its way. -/
def tryFinally : Coro σ ε α := fun s =>
  match m s with
  | (.ok a, s') =>
    match f false s' with
    | (.ok (), s'') => (.ok a, s'')
    | (.error e, s'') => (.error e, s'')
  | (.error e, s') =>
    match f true s' with
    | (.ok (), s'') => (.error e, s'')
    | (.error e', s'') => (.error e', s'')

theorem run_bind (k : α → Coro σ ε β) (s : σ) :
    (m >>= k).run s =
      match m.run s with
      | (.ok a, s') => (k a).run s'
      | (.error e, s') => (.error e, s') := rfl

theorem run_tryExcept (h : ε → Coro σ ε α) (s : σ) :
    (tryExcept m h).run s =
      match m.run s with
      | (.ok a, s') => (.ok a, s')
      | (.error e, s') => (h e).run s' := rfl

theorem run_tryFinally (s : σ) :
    (tryFinally m f).run s =
      match m.run s with
      | (.ok a, s') =>
        match (f false).run s' with
        | (.ok (), s'') => (.ok a, s'')
        | (.error e, s'') => (.error e, s'')
      | (.error e, s') =>
        match (f true).run s' with
        | (.ok (), s'') => (.error e, s'')
        | (.error e', s'') => (.error e', s'') := rfl

end Coro

open Coro

/-- From a state in `P`, the coroutine returns `a` in a state of `Q a`, or raises `e` in a state of
`E e`. -/
def Triple (P : σ → Prop) (m : Coro σ ε α) (Q : α → σ → Prop) (E : ε → σ → Prop) : Prop :=
  ∀ s, P s →
    match m.run s with
    | (.ok a, s') => Q a s'
    | (.error e, s') => E e s'

/-- From a state in `P` the coroutine ends in a state of `I`, whether it returns or raises. -/
abbrev Ends (P : σ → Prop) (m : Coro σ ε α) (I : σ → Prop) : Prop :=
  Triple P m (fun _ => I) (fun _ => I)

/-- The coroutine keeps `P` when it returns. -/
abbrev Stays (P : σ → Prop) (m : Coro σ ε α) (E : ε → σ → Prop) : Prop := Triple P m (fun _ => P) E

variable {k : α → Coro σ ε β} {f : β → Coro σ ε PUnit} {h : ε → Coro σ ε α} (l : List β)
  {m' : Coro σ ε α}

/-- An assertion that stays as it is. -/
theorem same {P : σ → Prop} (s : σ) (h : P s) : P s := h

namespace Triple

variable {P O : σ → Prop} {Q R : α → σ → Prop} {E F : ε → σ → Prop} {m : Coro σ ε α}

theorem elim (h : Triple P m Q E) {s s' : σ} {r : Except ε α} (hs : P s)
    (hr : m.run s = (r, s')) : (∃ a, r = .ok a ∧ Q a s') ∨ ∃ e, r = .error e ∧ E e s' := by
  have hpost := h s hs
  rw [hr] at hpost
  cases r with
  | ok a => exact .inl ⟨a, rfl, hpost⟩
  | error e => exact .inr ⟨e, rfl, hpost⟩

theorem final {I : σ → Prop} (h : Ends P m I) {s : σ} (hs : P s) : I (m.run s).2 := by
  rcases hr : m.run s with ⟨r, s'⟩
  rcases h.elim hs hr with ⟨_, _, hI⟩ | ⟨_, _, hI⟩
  · exact hI
  · exact hI

theorem conseq (h : Triple O m R F) (hP : ∀ s, P s → O s) (hQ : ∀ a s, R a s → Q a s)
    (hE : ∀ e s, F e s → E e s) : Triple P m Q E := by
  intro s hs
  have hpost := h s (hP s hs)
  rcases hr : m.run s with ⟨r, s'⟩
  rw [hr] at hpost
  cases r with
  | ok a => exact hQ a s' hpost
  | error e => exact hE e s' hpost

theorem pre (h : Triple O m Q E) (hP : ∀ s, P s → O s) : Triple P m Q E :=
  h.conseq hP (fun _ _ hs => hs) fun _ _ hs => hs

theorem post (h : Triple P m R E) (hQ : ∀ a s, R a s → Q a s) : Triple P m Q E :=
  h.conseq (fun _ hs => hs) hQ fun _ _ hs => hs

theorem exc (h : Triple P m Q F) (hE : ∀ e s, F e s → E e s) : Triple P m Q E :=
  h.conseq (fun _ hs => hs) (fun _ _ hs => hs) hE

theorem assume (h : ∀ t, P t → Triple (fun s => s = t) m Q E) : Triple P m Q E :=
  fun s hs => h s hs s rfl

protected theorem and (h : Triple P m Q E) (h' : Triple O m R F) :
    Triple (fun s => P s ∧ O s) m (fun a s => Q a s ∧ R a s) (fun e s => E e s ∧ F e s) := by
  rintro s ⟨hs, hs'⟩
  have hpost := h s hs
  have hpost' := h' s hs'
  rcases hr : m.run s with ⟨r, t⟩
  rw [hr] at hpost hpost'
  cases r <;> exact ⟨hpost, hpost'⟩

theorem pure {a : α} (h : ∀ s, P s → Q a s) : Triple P (pure a) Q E := h

theorem raise {e : ε} (h : ∀ s, P s → E e s) : Triple P (raise e : Coro σ ε α) Q E := h

theorem modify {f : σ → σ} {Q : Unit → σ → Prop} (h : ∀ s, P s → Q () (f s)) :
    Triple P (modify f) Q E := h

theorem bind {Q' : β → σ → Prop} (hm : Triple P m Q E) (hk : ∀ a, Triple (Q a) (k a) Q' E) :
    Triple P (m >>= k) Q' E := by
  intro s hs
  have hpost := hm s hs
  rw [run_bind]
  rcases hr : m.run s with ⟨r, s'⟩
  rw [hr] at hpost
  cases r with
  | ok a => exact hk a s' hpost
  | error e => exact hpost

/-- `bind` of a coroutine whose result is not used. -/
theorem next {M : σ → Prop} {R : β → σ → Prop} {n : Coro σ ε β} (hm : Triple P m (fun _ => M) E)
    (hn : Triple M n R E) : Triple P (m >>= fun _ => n) R E :=
  bind hm fun _ => hn

/-- `bind` with the assertion in between. -/
theorem seq {R : β → σ → Prop} (M : σ → Prop) (hm : Triple P m (fun _ => M) E)
    (hk : ∀ a, Triple M (k a) R E) : Triple P (m >>= k) R E :=
  bind hm hk

theorem get {k : σ → Coro σ ε α} (h : ∀ t, Triple (fun s => P s ∧ s = t) (k t) Q E) :
    Triple P (.get >>= k) Q E := by
  intro s hs
  exact h s s ⟨hs, rfl⟩

theorem ite {q : Prop} [Decidable q] (h : Triple P m Q E) (h' : Triple P m' Q E) :
    Triple P (if q then m else m') Q E := by
  split
  · exact h
  · exact h'

/-- A loop: `I done` holds when the elements of `done` have been handled. -/
theorem forM {I : List β → σ → Prop} (h : ∀ done a rest, l = done ++ a :: rest →
      Triple (I done) (f a) (fun _ => I (done ++ [a])) E) :
    Triple (I []) (l.forM f) (fun _ => I l) E := by
  -- generalised to the elements that remain after `done`
  suffices hrest : ∀ rest done, l = done ++ rest →
      Triple (I done) (rest.forM f) (fun _ => I l) E from hrest l [] rfl
  intro rest
  induction rest with
  | nil =>
    intro done hl
    rw [List.append_nil] at hl
    subst hl
    exact fun _ hs => hs
  | cons a rest ih =>
    intro done hl
    exact (h done a rest hl).bind fun _ => ih (done ++ [a]) (by simpa using hl)

theorem tryExcept (hm : Triple P m Q F) (hh : ∀ e, Triple (F e) (h e) Q E) :
    Triple P (tryExcept m h) Q E := by
  intro s hs
  have hpost := hm s hs
  rw [run_tryExcept]
  rcases hr : m.run s with ⟨r, s'⟩
  rw [hr] at hpost
  cases r with
  | ok a => exact hpost
  | error e => exact hh e s' hpost

theorem tryFinally {f : Bool → Coro σ ε Unit} (hm : Triple P m R F)
    (hok : ∀ a, Triple (R a) (f false) (fun _ => Q a) E)
    (herr : ∀ e, Triple (F e) (f true) (fun _ => E e) E) : Triple P (tryFinally m f) Q E := by
  intro s hs
  have hpost := hm s hs
  rw [run_tryFinally]
  rcases hr : m.run s with ⟨r, s'⟩
  rw [hr] at hpost
  cases r with
  | ok a =>
    have hlast := hok a s' hpost
    rcases hf : (f false).run s' with ⟨r', s''⟩
    cases r' <;> simpa only [hf] using hlast
  | error e =>
    have hlast := herr e s' hpost
    rcases hf : (f true).run s' with ⟨r', s''⟩
    cases r' <;> simpa only [hf] using hlast

end Triple

/-- What a loop has established, with one more element. -/
theorem forall_mem_concat {p : α → Prop} {l : List α} {a : α} (h : ∀ b ∈ l, p b) (ha : p a) :
    ∀ b ∈ l ++ [a], p b :=
  List.forall_mem_append.2 ⟨h, List.forall_mem_singleton.2 ha⟩

/-- The coroutine keeps `I`, however it ends. -/
def Keeps (I : σ → Prop) (m : Coro σ ε α) : Prop := Triple I m (fun _ => I) (fun _ => I)

namespace Keeps

variable {I : σ → Prop} {m : Coro σ ε α}

theorem pure (a : α) : Keeps I (Pure.pure a : Coro σ ε α) := fun _ hs => hs

theorem raise (e : ε) : Keeps I (Coro.raise e : Coro σ ε α) := fun _ hs => hs

theorem modify {f : σ → σ} (h : ∀ s, I s → I (f s)) : Keeps I (Coro.modify f : Coro σ ε Unit) := h

theorem bind (hm : Keeps I m) (hk : ∀ a, Keeps I (k a)) : Keeps I (m >>= k) := Triple.bind hm hk

theorem next {n : Coro σ ε β} (hm : Keeps I m) (hn : Keeps I n) : Keeps I (m >>= fun _ => n) :=
  Triple.next hm hn

theorem get {k : σ → Coro σ ε α} (h : ∀ t, Keeps I (k t)) : Keeps I (Coro.get >>= k) :=
  Triple.get fun t => (h t).pre (fun _ hs => hs.1)

theorem ite {q : Prop} [Decidable q] (h : Keeps I m) (h' : Keeps I m') :
    Keeps I (if q then m else m') :=
  Triple.ite h h'

theorem forM (h : ∀ a ∈ l, Keeps I (f a)) : Keeps I (l.forM f) :=
  Triple.forM (I := fun _ => I) l fun _ a _ hl => h a (by simp [hl])

theorem tryExcept (hm : Keeps I m) (hh : ∀ e, Keeps I (h e)) : Keeps I (Coro.tryExcept m h) :=
  Triple.tryExcept hm hh

end Keeps

end Coroutine
