/-
**Rules for runs of the updater.**

A run is judged wherever it stops.  Most of its steps do not concern the backup: they may stage a
candidate, draw a uuid or let time pass, but the authorities and requests stay as they are, and so
does what has been published.  A fact that such a step keeps is carried through all of them.

If nothing disturbs the run, the judgement also says that it does not die and raises nothing but
`UpdateError`; this part of it is switched on by the proposition `S`.

Main results:

* `Sunlit.Leads.perform`, `Sunlit.Leads.bind`, `Sunlit.Leads.tryFinally` — the rules;
* `Sunlit.stagedOperationId_idle`, `Sunlit.stage_idle`, `Sunlit.recordUpdate_idle` — the steps.
-/

import Horizon.SunlitUpdate

namespace Horizon.Sunlit

open Coroutine (Coro Triple)
open Function

/-! ### Steps that do not concern the backup -/

/-- A fact about the world and about what the run has reported. -/
abbrev Fact := UpdateWorld → List RunEvent → Prop

def Holds (P : Fact) (s : RunState) : Prop := P s.world s.log

theorem same {P : Fact} (w : UpdateWorld) (l : List RunEvent) (h : P w l) : P w l := h

/-- The releases, the state and the active link. -/
def Site.published (w : Site) : (Version → Option Tree) × Option StateTree × Option Version :=
  (w.releases, w.stateRoot, w.activeLink)

/-- Nothing is published, requests and authorities are as they were, rows can only go the way of the
controller, and nothing is drawn again. -/
structure Later (w w' : UpdateWorld) : Prop where
  published : w'.site.published = w.site.published
  requestId : ∀ v, (w'.staging v).requestId = (w.staging v).requestId
  authority : ∀ v, (w'.staging v).authority = (w.staging v).authority
  rows : ∀ id, w.rows id = none → w'.rows id = none
  completed : ∀ id o, w.rows id = some (.completed o) →
    w'.rows id = some (.completed o) ∨ w'.rows id = none
  drawn : w.drawn ≤ w'.drawn
  minted : w.minted ≤ w'.minted

namespace Later

variable {w w' : UpdateWorld}

theorem of_same (hpublished : w'.site.published = w.site.published)
    (hrequest : ∀ v, (w'.staging v).requestId = (w.staging v).requestId)
    (hauthority : ∀ v, (w'.staging v).authority = (w.staging v).authority)
    (hrows : w'.rows = w.rows) (hdrawn : w.drawn ≤ w'.drawn) (hminted : w.minted ≤ w'.minted) :
    Later w w' := by
  refine ⟨hpublished, hrequest, hauthority, fun id h => ?_, fun id o h => .inl ?_, hdrawn, hminted⟩
  · rw [hrows]
    exact h
  · rw [hrows]
    exact h

theorem advance (w : UpdateWorld) (m : RunMoment) : Later w (w.advance m) := by
  refine ⟨rfl, fun _ => rfl, fun _ => rfl, fun id h => ?_, fun id o h => ?_, Nat.le_refl _,
    Nat.le_refl _⟩
  · simp only [UpdateWorld.advance, h]
    rfl
  · simp only [UpdateWorld.advance, h]
    cases m.controller id with
    | none => exact .inr rfl
    | some row => exact .inl rfl

theorem candidate (w : UpdateWorld) (v : Version) (f : Candidate → Candidate) :
    Later w { w with site := w.site.setCandidate v f } :=
  .of_same rfl (fun _ => rfl) (fun _ => rfl) rfl (Nat.le_refl _) (Nat.le_refl _)

theorem staging {v : Version} {f : Staging → Staging}
    (hrequest : ∀ g, (f g).requestId = g.requestId)
    (hauthority : ∀ g, (f g).authority = g.authority) : Later w (w.setStaging v f) := by
  refine .of_same rfl (fun v' => ?_) (fun v' => ?_) rfl (Nat.le_refl _) (Nat.le_refl _)
  · simp only [UpdateWorld.setStaging]
    by_cases hv : v' = v
    · subst hv
      rw [update_self, hrequest]
    · rw [update_of_ne hv]
  · simp only [UpdateWorld.setStaging]
    by_cases hv : v' = v
    · subst hv
      rw [update_self, hauthority]
    · rw [update_of_ne hv]

end Later

def Lasting (P : Fact) : Prop := ∀ w w' l, Later w w' → P w l → P w' l

/-- What holds after `reserve_if_available`, without and with a reservation. -/
def Leased (P : Fact) (K : ℕ → Fact) : Option ℕ → Fact
  | none => P
  | some token => K token

theorem lasting_and {P : UpdateWorld → Prop} {L : List RunEvent → Prop}
    (h : ∀ w w', P w → Later w w' → P w') : Lasting fun w l => P w ∧ L l :=
  fun w w' _ hl hw => ⟨h w w' hw.1 hl, hw.2⟩

/-! ### Judgements -/

/-- The service is inactive, the profile can be reserved, and no step is disturbed. -/
structure RunMoment.Calm (m : RunMoment) : Prop where
  aborted : m.aborted = false
  broken : m.broken = false
  inactive : m.inactive = true
  available : m.available = true

def RunOracle.Steady (ω : RunOracle) : Prop := ∀ k, ∃ m, ω k = some m ∧ m.Calm

/-- From `P` the run comes to `Q`, or it ends in `E`; under `S` it ends with an `UpdateError`. -/
def Leads {α : Type} (S : Prop) (P : Fact) (c : Run α) (Q : α → Fact) (E : Fact) : Prop :=
  Triple (fun s => (S → s.alive = true) ∧ Holds P s) c
    (fun a s => (S → s.alive = true) ∧ Holds (Q a) s)
    fun e s => (S → s.alive = true ∧ ∃ message, e = .update message) ∧ Holds E s

def Idle {α : Type} (S : Prop) (c : Run α) : Prop := ∀ P, Lasting P → Leads S P c (fun _ => P) P

variable {message : String}

namespace Leads

variable {α β : Type} {S : Prop} {ω : RunOracle} {P E : Fact} {Q : α → Fact} {c : Run α}

theorem pure {a : α} (h : ∀ w l, P w l → Q a w l) : Leads S P (Pure.pure a) Q E :=
  Triple.pure fun _ hs => ⟨hs.1, h _ _ hs.2⟩

theorem raise {e : RunFailure} (he : S → ∃ message, e = .update message)
    (h : ∀ w l, P w l → E w l) : Leads S P (.raise e : Run α) Q E :=
  Triple.raise fun _ hs => ⟨fun hS => ⟨hs.1 hS, he hS⟩, h _ _ hs.2⟩

/-- `raise UpdateError(message)`. -/
theorem refuse (h : ∀ w l, P w l → E w l) : Leads S P (Coro.raise (.update message) : Run α) Q E :=
  raise (fun _ => ⟨message, rfl⟩) h

theorem bind {R : β → Fact} {k : α → Run β} (hc : Leads S P c Q E)
    (hk : ∀ a, Leads S (Q a) (k a) R E) : Leads S P (c >>= k) R E :=
  Triple.bind hc hk

theorem conseq {P' E' : Fact} {Q' : α → Fact} (h : Leads S P c Q E) (hP : ∀ w l, P' w l → P w l)
    (hQ : ∀ a w l, Q a w l → Q' a w l) (hE : ∀ w l, E w l → E' w l) : Leads S P' c Q' E' :=
  Triple.conseq h (fun _ hs => ⟨hs.1, hP _ _ hs.2⟩) (fun a _ hs => ⟨hs.1, hQ a _ _ hs.2⟩)
    fun _ _ hs => ⟨hs.1, hE _ _ hs.2⟩

theorem ite {q : Prop} [Decidable q] {c' : Run α} (h : q → Leads S P c Q E)
    (h' : ¬ q → Leads S P c' Q E) : Leads S P (if q then c else c') Q E :=
  iteInduction (motive := fun c => Leads S P c Q E) h h'

theorem impossible (h : ∀ w l, ¬ P w l) : Leads S P c Q E := fun _ hs => (h _ _ hs.2).elim

/-- One step; under `S` it ends in `E` only if it refuses by itself. -/
theorem perform {f : RunMoment → UpdateWorld → Except String (α × UpdateWorld × List RunEvent)}
    (hω : S → ω.Steady) (hP : Lasting P) (hE : ¬ S → ∀ w l, P w l → E w l)
    (hr : ∀ m w l e, P w l → (S → m.Calm) → f m w = .error e → E w l)
    (hf : ∀ m w l a w' events, P w l → (S → m.Calm) → f m w = .ok (a, w', events) →
      Q a w' (l ++ events)) : Leads S P (perform ω message f) Q E := by
  rintro s ⟨hS, hs⟩
  unfold Coro.run Sunlit.perform
  by_cases halive : s.alive = true
  · rw [if_pos halive]
    cases hm : ω s.moments with
    | none =>
      have hnot : ¬ S := fun h => by
        obtain ⟨m, hm', -⟩ := hω h s.moments
        rw [hm] at hm'
        cases hm'
      exact ⟨fun h => absurd h hnot, hE hnot _ _ hs⟩
    | some m =>
      have hcalm : S → m.Calm := fun h => by
        obtain ⟨m', hm', hcalm⟩ := hω h s.moments
        rw [hm] at hm'
        cases hm'
        exact hcalm
      have hs' : P (s.world.advance m) s.log := hP _ _ _ (.advance _ m) hs
      dsimp only
      by_cases haborted : m.aborted = true
      · have hnot : ¬ S := fun h => by simp [(hcalm h).aborted] at haborted
        rw [if_pos haborted]
        exact ⟨fun h => absurd h hnot, hE hnot _ _ hs'⟩
      · rw [if_neg haborted]
        by_cases hbroken : m.broken = true
        · have hnot : ¬ S := fun h => by simp [(hcalm h).broken] at hbroken
          rw [if_pos hbroken]
          exact ⟨fun h => absurd h hnot, hE hnot _ _ hs'⟩
        · rw [if_neg hbroken]
          cases hfm : f m (s.world.advance m) with
          | error e => exact ⟨fun h => ⟨hS h, e, rfl⟩, hr m _ _ e hs' hcalm hfm⟩
          | ok out =>
            obtain ⟨a, w', events⟩ := out
            exact ⟨hS, hf m _ _ a w' events hs' hcalm hfm⟩
  · have hnot : ¬ S := fun h => halive (hS h)
    rw [if_neg halive]
    exact ⟨fun h => absurd h hnot, hE hnot _ _ hs⟩

/-- A step that only looks: what it has seen. -/
theorem observe {f : RunMoment → UpdateWorld → Except String α} (hω : S → ω.Steady)
    (hP : Lasting P) (hE : ¬ S → ∀ w l, P w l → E w l)
    (hr : ∀ m w l e, P w l → f m w = .error e → E w l)
    (hf : ∀ m w l a, P w l → (S → m.Calm) → f m w = .ok a → Q a w l) :
    Leads S P (observe ω message f) Q E := by
  refine perform hω hP hE (fun m w l e hw _ he => ?_) fun m w l a w' events hw hm he => ?_
  · cases hfm : f m w with
    | error e => exact hr m w l e hw hfm
    | ok a => rw [hfm] at he; cases he
  · cases hfm : f m w with
    | error e => rw [hfm] at he; cases he
    | ok b =>
      rw [hfm] at he
      cases he
      rw [List.append_nil]
      exact hf m w l a hw hm hfm

theorem write {f : UpdateWorld → UpdateWorld} {Q : Fact} (hω : S → ω.Steady) (hP : Lasting P)
    (hE : ∀ w l, P w l → E w l) (hf : ∀ w l, P w l → Q (f w) l) :
    Leads S P (write ω message f) (fun _ => Q) E := by
  refine perform hω hP (fun _ => hE) (fun _ _ _ _ hw _ _ => hE _ _ hw)
    fun m w l a w' events hw _ he => ?_
  cases he
  rw [List.append_nil]
  exact hf w l hw

theorem tryExcept {E' : Fact} {h : RunFailure → Run α} (hc : Leads S P c Q E)
    (hh : ∀ e, (S → ∃ message, e = .update message) → Leads S E (h e) Q E') :
    Leads S P (Coro.tryExcept c h) Q E' :=
  Triple.tryExcept hc fun e s hs => hh e (fun hS => (hs.1 hS).2) s ⟨fun hS => (hs.1 hS).1, hs.2⟩

theorem tryFinally {f : Bool → Run Unit} (hc : Leads S P c Q E)
    (hQ : ∀ a, Leads S (Q a) (f false) (fun _ => Q a) E)
    (hE : Leads S E (f true) (fun _ => E) E) : Leads S P (.tryFinally c f) Q E := by
  refine Triple.tryFinally hc hQ fun e s hs => ?_
  have hlast := Triple.conseq hE (fun _ hs => hs)
    (fun _ s' hs' => (⟨fun hS => ⟨hs'.1 hS, (hs.1 hS).2⟩, hs'.2⟩ :
      (S → s'.alive = true ∧ ∃ message, e = .update message) ∧ Holds E s')) fun _ _ hs => hs
  exact hlast s ⟨fun hS => (hs.1 hS).1, hs.2⟩

theorem final {w : UpdateWorld} (h : Leads S P c (fun _ => E) E) (hw : P w []) :
    Holds E (c.run (UpdateRun.start w)).2 := by
  have hend := h (UpdateRun.start w) ⟨fun _ => rfl, hw⟩
  rcases hr : c.run (UpdateRun.start w) with ⟨r, s⟩
  rw [hr] at hend
  cases r with
  | ok a => exact hend.2
  | error e => exact hend.2

end Leads

namespace Idle

variable {α β : Type} {S : Prop} {ω : RunOracle} {c : Run α}

theorem leads (h : Idle S c) {P E : Fact} (hP : Lasting P) (hE : ∀ w l, P w l → E w l) :
    Leads S P c (fun _ => P) E :=
  (h P hP).conseq (fun _ _ hw => hw) (fun _ _ _ hw => hw) hE

theorem pure (a : α) : Idle S (Pure.pure a : Run α) := fun _ _ => Leads.pure same

theorem refuse (message : String) : Idle S (.raise (.update message) : Run α) :=
  fun _ _ => .refuse same

theorem bind {k : α → Run β} (hc : Idle S c) (hk : ∀ a, Idle S (k a)) : Idle S (c >>= k) :=
  fun P hP => (hc P hP).bind fun a => hk a P hP

theorem ite {q : Prop} [Decidable q] {c' : Run α} (h : Idle S c) (h' : Idle S c') :
    Idle S (if q then c else c') :=
  fun P hP => .ite (fun _ => h P hP) fun _ => h' P hP

theorem perform {f : RunMoment → UpdateWorld → Except String (α × UpdateWorld × List RunEvent)}
    (hω : S → ω.Steady)
    (hf : ∀ m w a w' events, f m w = .ok (a, w', events) → Later w w' ∧ events = []) :
    Idle S (perform ω message f) := by
  intro P hP
  refine .perform hω hP (fun _ _ _ hw => hw) (fun _ _ _ _ hw _ _ => hw)
    fun m w l a w' events hw _ he => ?_
  obtain ⟨hlater, rfl⟩ := hf m w a w' events he
  rw [List.append_nil]
  exact hP _ _ _ hlater hw

theorem observe (hω : S → ω.Steady) (message : String)
    (f : RunMoment → UpdateWorld → Except String α) : Idle S (observe ω message f) :=
  fun _ hP => .observe hω hP (fun _ _ _ hw => hw) (fun _ _ _ _ hw _ => hw) fun _ _ _ _ hw _ _ => hw

theorem write {f : UpdateWorld → UpdateWorld} (hω : S → ω.Steady) (hf : ∀ w, Later w (f w)) :
    Idle S (write ω message f) := by
  refine perform hω fun m w a w' events he => ?_
  cases he
  exact ⟨hf w, rfl⟩

theorem cleanup {h : Run Unit} {c : Run Unit} (hc : Idle S c) (hh : Idle S h) :
    Idle S (.tryExcept c fun e => do h; .raise e) := by
  intro P hP
  refine .tryExcept (hc P hP) fun e he => (hh P hP).bind fun _ => ?_
  exact .raise he fun _ _ hw => hw

end Idle

/-! ### The steps -/

variable {S : Prop} {ω : RunOracle} (hω : S → ω.Steady) (release : Release)
include hω

theorem require_idle (message : String) (p : RunMoment → UpdateWorld → Bool) :
    Idle S (require ω message p) := .observe hω _ _

theorem requireSpace_idle : Idle S (requireSpace ω release) := .observe hω _ _

theorem assertOwned_idle : Idle S (assertOwned ω) := require_idle hω _ _

theorem stagedOperationId_idle : Idle S (stagedOperationId ω release) := by
  refine (Idle.observe hω _ _).bind fun staging => ?_
  cases staging.operationId with
  | some stored =>
    cases stored with
    | malformed => exact .refuse _
    | stored id => exact .pure id
  | none =>
    refine .ite ?_ (.refuse _)
    refine .bind (.write hω ?_) fun _ => ?_
    · intro w
      exact .staging (fun _ => rfl) fun _ => rfl
    refine .perform hω fun m w a w' events he => ?_
    cases he
    have hstaging : Later w (w.setStaging release.version fun g =>
      { g with operationId := some (.stored w.drawn) }) := .staging (fun _ => rfl) fun _ => rfl
    exact ⟨.of_same rfl hstaging.requestId hstaging.authority rfl (Nat.le_succ _) (Nat.le_refl _),
      rfl⟩

theorem buildCandidate_idle : Idle S (buildCandidate ω release) := by
  refine .cleanup ?_ (.write hω fun w => .candidate w _ _)
  refine (require_idle hω _ _).bind fun _ => (require_idle hω _ _).bind fun _ => ?_
  refine (Idle.write hω fun w => Later.candidate w _ _).bind fun _ => ?_
  exact Idle.write hω fun w => Later.candidate w _ _

theorem stageManifest_idle (staging : Staging) (overlay : Version) :
    Idle S (stageManifest ω release staging overlay) := by
  unfold stageManifest
  cases staging.manifest with
  | some named => exact require_idle hω _ _
  | none =>
    refine .bind (.ite (.pure ()) (.write hω ?_)) fun _ => .write hω ?_
    all_goals exact fun w => .staging (fun _ => rfl) fun _ => rfl

theorem stage_idle : Idle S (stage ω release) := by
  refine (Idle.observe hω _ _).bind fun overlay => (Idle.observe hω _ _).bind fun staging => ?_
  refine (stageManifest_idle hω release staging overlay).bind fun _ => ?_
  refine (requireSpace_idle hω release).bind fun _ => (Idle.observe hω _ _).bind fun candidate => ?_
  exact Idle.ite (require_idle hω _ _) (buildCandidate_idle hω release)

theorem recordUpdate_idle (installed : Option Version) :
    Idle S (recordUpdate ω release installed) := by
  refine (require_idle hω _ _).bind fun _ => ?_
  refine .bind (.write hω ?_) fun _ => require_idle hω _ _
  intro w
  exact .of_same rfl (fun _ => rfl) (fun _ => rfl) rfl (Nat.le_refl _) (Nat.le_refl _)

theorem close_idle (failed : Bool) :
    Idle S (.tryExcept
      (require ω "Sunlit update reservation could not be released" fun _ _ => true)
      fun e => if failed && e ≠ .died then pure () else .raise e) := by
  intro P hP
  refine .tryExcept (require_idle hω _ _ P hP) fun e he => .ite (fun _ => ?_) fun _ => ?_
  · exact .pure same
  · exact .raise he fun _ _ hw => hw

end Horizon.Sunlit
