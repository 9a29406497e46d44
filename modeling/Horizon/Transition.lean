/-
**Event-driven transition systems: runs, invariants and properties along a run.**

A system is given by a partial step function `step : σ → ε → Option σ`: an event `e` either is not
enabled in `s` (`none`) or takes the system to one next state.  All nondeterminism — which process
moves, what a clock shows, where a crash falls — is in the choice of the events, so a schedule is a
list of events and a statement about every interleaving is a statement about every such list.

Main definitions:

* `Transition.run` — the state after a list of events;
* `Transition.Along` — a condition on each step holds at every step of a run.

Main results:

* `Transition.run_invariant` — **the invariant rule**: what every step preserves, every run
  preserves.
-/

import Mathlib.Tactic

namespace Transition

universe u v

variable {σ : Type u} {ε : Type v} {step : σ → ε → Option σ}

/-! ### Runs -/

/-- The state reached from `s` by the events `es`, if each of them is enabled in turn. -/
def run (step : σ → ε → Option σ) : σ → List ε → Option σ
  | s, [] => some s
  | s, e :: es => (step s e).bind fun s' => run step s' es

@[simp] theorem run_nil (s : σ) : run step s [] = some s := rfl

theorem run_cons_eq (s : σ) (e : ε) (es : List ε) :
    run step s (e :: es) = (step s e).bind fun s' => run step s' es := rfl

variable {es : List ε} {e : ε} {s t : σ}

theorem run_cons :
    run step s (e :: es) = some t ↔ ∃ m, step s e = some m ∧ run step m es = some t := by
  rw [run_cons_eq, Option.bind_eq_some_iff]

/-- **A run splits at every point.** -/
theorem run_append {fs : List ε} :
    run step s (es ++ fs) = some t ↔ ∃ m, run step s es = some m ∧ run step m fs = some t := by
  induction es generalizing s with
  | nil => simp
  | cons e es ih =>
    rw [List.cons_append, run_cons]
    constructor
    · rintro ⟨m, hm, h⟩
      obtain ⟨k, hk, h⟩ := ih.1 h
      exact ⟨k, run_cons.2 ⟨m, hm, hk⟩, h⟩
    · rintro ⟨k, hk, h⟩
      obtain ⟨m, hm, hk⟩ := run_cons.1 hk
      exact ⟨m, hm, ih.2 ⟨k, hk, h⟩⟩

theorem run_snoc :
    run step s (es ++ [e]) = some t ↔ ∃ m, run step s es = some m ∧ step m e = some t := by
  rw [run_append]
  constructor
  · rintro ⟨m, hm, h⟩
    obtain ⟨t', ht', h⟩ := run_cons.1 h
    rw [run_nil, Option.some_inj] at h
    exact ⟨m, hm, h ▸ ht'⟩
  · rintro ⟨m, hm, h⟩
    exact ⟨m, hm, run_cons.2 ⟨t, h, run_nil t⟩⟩

/-! ### Conditions along a run -/

/-- Every step of the run of `es` from `s` meets `C`, which sees the state before the step, the
event and the state after it. -/
def Along (step : σ → ε → Option σ) (C : σ → ε → σ → Prop) : σ → List ε → Prop
  | _, [] => True
  | s, e :: es => ∀ s', step s e = some s' → C s e s' ∧ Along step C s' es

@[simp] theorem along_nil (C : σ → ε → σ → Prop) (s : σ) : Along step C s [] := trivial

variable {C : σ → ε → σ → Prop} {I : σ → Prop}

theorem Along.head {s m : σ} (h : Along step C s (e :: es)) (hm : step s e = some m) :
    C s e m := (h m hm).1

theorem Along.tail {s m : σ} (h : Along step C s (e :: es)) (hm : step s e = some m) :
    Along step C m es := (h m hm).2

theorem along_cons_of_none (h : step s e = none) : Along step C s (e :: es) := by
  intro m hm
  rw [h] at hm
  cases hm

theorem along_cons_of_some {s m : σ} (h : step s e = some m) :
    Along step C s (e :: es) ↔ C s e m ∧ Along step C m es := by
  constructor
  · intro ha
    exact ha m h
  · rintro ⟨hc, ha⟩ m' hm'
    rw [h, Option.some_inj] at hm'
    subst hm'
    exact ⟨hc, ha⟩

/-- A condition that can be decided at each step can be decided along a run. -/
instance decidableAlong (C : σ → ε → σ → Prop) [∀ s e s', Decidable (C s e s')] :
    (s : σ) → (es : List ε) → Decidable (Along step C s es)
  | _, [] => isTrue trivial
  | s, e :: es =>
    match h : step s e with
    | none => isTrue (along_cons_of_none h)
    | some m =>
      have := decidableAlong C m es
      decidable_of_iff (C s e m ∧ Along step C m es) (along_cons_of_some h).symm

/-! ### Invariants -/

/-- **The invariant rule under a condition**: what every step that meets `C` preserves, every run
along which `C` holds preserves. -/
theorem along_invariant (hstep : ∀ s e s', I s → step s e = some s' → C s e s' → I s') {s t : σ}
    (hI : I s) (hC : Along step C s es) (hrun : run step s es = some t) : I t := by
  induction es generalizing s with
  | nil =>
    rw [run_nil, Option.some_inj] at hrun
    exact hrun ▸ hI
  | cons e es ih =>
    obtain ⟨m, hm, hrun⟩ := run_cons.1 hrun
    exact ih (hstep s e m hI hm (hC.head hm)) (hC.tail hm) hrun

theorem along_of_forall (s : σ) (h : ∀ e ∈ es, ∀ s s', C s e s') : Along step C s es := by
  induction es generalizing s with
  | nil => trivial
  | cons e es ih =>
    refine fun m _ => ⟨h e (.head _) s m, ih m fun e' he' => ?_⟩
    exact h e' (List.mem_cons_of_mem e he')

/-- **The invariant rule**: what every step preserves, every run preserves. -/
theorem run_invariant (hstep : ∀ s e s', I s → step s e = some s' → I s') (hI : I s)
    (hrun : run step s es = some t) : I t :=
  along_invariant (fun s e s' hs h _ => hstep s e s' hs h) hI
    (along_of_forall s fun _ _ _ _ => trivial) hrun

end Transition
