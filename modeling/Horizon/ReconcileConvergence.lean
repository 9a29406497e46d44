/-
**Reconciliation converges.**

A ready plan is applied in one pass, and a pass that is killed leaves a world from which a fresh
plan completes it.  Two things that only the applier checks stand in the way: an older generation
whose object is still stored has to be flagged as protected, and no archive may be larger than the
staging limit.  The planner asks for neither, so a plan can be ready and never be applied.

Main results:

* `Reconcile.apply_ok_iff` — **when a ready plan is applied**;
* `Reconcile.converges_iff` — **when reconciliation converges**.
-/

import Horizon.ReconcilePass

namespace Horizon.Reconcile

open List
open Coroutine (Triple Keeps)
open ObjectStore (Store)
open Protection (Reader Failure remoteKey inPrefix)

variable {β : Type} (size : ℕ) (flag : Bool)

/-! ### Convergence -/

/-- The objects of each retained profile are the archives of its newest generations in `w`. -/
def Converged (w v : World β) : Prop :=
  ∀ p ∈ retainedProfileIds, ∀ k b, inPrefix p k = true →
    (v.remote.get k = some b ↔ ∃ i ∈ w.retained p, k = remoteKey p i ∧ w.archives p i = some b)

/-- There is nothing to import, correct, replace or prune. -/
def Plan.Idle (plan : Plan) : Prop :=
  plan.imports = [] ∧ plan.protectedFlagCorrections = [] ∧ plan.replacementCandidates = [] ∧
    plan.pruneCandidates = [] ∧ plan.prunedProtectionCorrections = []

section Recovery

variable [DecidableEq β] (R : Reader β) (w : World β)

/-- From `v`, a fresh plan is applied and reaches what is retained in `w`, after which a further
plan is ready and idle. -/
def Recovers (v : World β) : Prop :=
  ∃ plan s, buildFixedPlan R v = .ok plan ∧ plan.ready = true ∧
    (applyReplacementPlan R plan).run ⟨v, none, []⟩ = (.ok (), s) ∧ Converged w s.world ∧
    ∃ next, buildFixedPlan R s.world = .ok next ∧ next.ready = true ∧ next.Idle

/-- No step of a pass loses a retained generation, a pass that returns has converged, and wherever a
pass is killed it can be recovered. -/
def Converges (plan : Plan) : Prop :=
  ∀ budget r s, (applyReplacementPlan R plan).run ⟨w, budget, []⟩ = (r, s) →
    ((s.world :: s.trail).IsChain fun after before => NoLoss w before after) ∧
    (r = .ok () → Converged w s.world) ∧ Recovers R w s.world

variable {R w} {v : World β} {plan : Plan}

omit [DecidableEq β] in
theorem Settled.converged (h : Settled R w v) (hw : Grounded R w) : Converged w v := by
  intro p hp k b hpre
  constructor
  · intro hget
    obtain ⟨c, _, _, hretained, hkey, hb⟩ := h.wanted_of_get hw hp hget hpre
    exact ⟨c.id, hretained, hkey, hb⟩
  · rintro ⟨i, hretained, rfl, hb⟩
    obtain ⟨c, hc, rfl, rfl⟩ := mem_retained hretained
    exact (h.stored c hc hretained).trans hb

theorem Settled.idle (h : Settled R w v) (hw : Sound R w) (hplan : PlanOf R v plan) :
    plan.Idle := by
  refine ⟨?_, ?_, ?_, ?_, ?_⟩ <;> refine eq_nil_iff_forall_not_mem.2 fun it hit => ?_
  · obtain ⟨_, hmem, hretained, _, hnone, _⟩ := (hplan.imports it).1 hit
    obtain ⟨c, hc, rfl⟩ := h.mem_catalog.1 hmem
    rw [h.retained_eq] at hretained
    have hrow := h.rows c hc
    rw [settledRow, if_pos (by exact hretained)] at hrow
    cases hrow.symm.trans hnone
  · obtain ⟨_, hmem, hflag, _⟩ := (hplan.corrections it).1 hit
    obtain ⟨c, hc, rfl⟩ := h.mem_catalog.1 hmem
    rw [h.retained_eq] at hflag
    exact hflag rfl
  · obtain ⟨_, hmem, hretained, hnone, _⟩ := (hplan.replacements it).1 hit
    obtain ⟨c, hc, rfl⟩ := h.mem_catalog.1 hmem
    rw [h.retained_eq] at hretained
    obtain ⟨b, hb, _⟩ := hw.archived c hc
    have hstored : v.object (settle w c) = some b := (h.stored c hc hretained).trans hb
    rw [hstored] at hnone
    cases hnone
  · rcases (hplan.candidates it).1 hit with ⟨p, hp, i, b, hi, hget, hforeign, _⟩ |
      ⟨_, hmem, hold, hobject, _⟩
    · exact h.not_foreign hw.toGrounded hp hi hget hforeign
    · obtain ⟨c, hc, rfl⟩ := h.mem_catalog.1 hmem
      rw [h.retained_eq] at hold
      exact h.older_gone hw.toGrounded hc hold hobject
  · obtain ⟨_, hmem, hold, _, hany, _⟩ := (hplan.pruned it).1 hit
    obtain ⟨c, hc, rfl⟩ := h.mem_catalog.1 hmem
    rw [h.retained_eq] at hold
    have hrow : v.protections.find (settle w c).id = (w.protections.find c.id).map deletedRow :=
      (h.rows c hc).trans (if_neg hold)
    rw [hrow] at hany
    cases hr : w.protections.find c.id with
    | none => simp [hr] at hany
    | some r => simp [hr, deletedRow] at hany

theorem Sound.apply_of_unlimited (h : Sound R w) (hplan : PlanOf R w plan) {r : Except Stop Unit}
    {s : Running β} (hrun : (applyReplacementPlan R plan).run ⟨w, none, []⟩ = (r, s)) :
    (r = .ok () ∧ Settled R w s.world ∧ OlderProtected w ∧ Bounded w) ∨
      (r ≠ .ok () ∧ ¬ (OlderProtected w ∧ Bounded w)) := by
  rcases (h.apply_spec hplan none).elim rfl hrun with ⟨_, rfl, hsettled, _, hcond⟩ |
    ⟨stop, rfl, hstopped⟩
  · exact .inl ⟨rfl, hsettled, hcond⟩
  · refine .inr ⟨by simp, ?_⟩
    cases stop with
    | killed => cases hstopped.killed rfl
    | raised e => exact hstopped.raised e rfl

/-- A world in which the applier has nothing to refuse is recovered. -/
theorem Sound.recovers (h : Sound R v) (hold : OlderProtected v) (hbounded : Bounded v)
    (hretained : ∀ p, v.retained p = w.retained p) (harchives : v.archives = w.archives) :
    Recovers R w v := by
  obtain ⟨plan, hbuilt, hplan⟩ := h.planOf
  rcases hrun : (applyReplacementPlan R plan).run ⟨v, none, []⟩ with ⟨r, s⟩
  rcases h.apply_of_unlimited hplan hrun with ⟨rfl, hsettled, _⟩ | ⟨_, hnot⟩
  · obtain ⟨next, hnext, hnextplan⟩ := (hsettled.sound h).planOf
    refine ⟨plan, s, hbuilt, hplan.ready, hrun, ?_, next, hnext, hnextplan.ready,
      hsettled.idle h hnextplan⟩
    intro p hp k b hpre
    rw [hsettled.converged h.toGrounded p hp k b hpre, hretained, harchives]
  · exact absurd ⟨hold, hbounded⟩ hnot

/-- What an unlimited pass that returns needs is needed for a recovery. -/
theorem Recovers.bounded (h : Recovers R w v) : Bounded v := by
  obtain ⟨plan, s, hbuilt, hready, hrun, _⟩ := h
  have hsound := sound_of_ready hbuilt hready
  obtain ⟨plan', hbuilt', hplan⟩ := hsound.planOf
  obtain rfl : plan' = plan := Except.ok.inj (hbuilt'.symm.trans hbuilt)
  rcases hsound.apply_of_unlimited hplan hrun with ⟨_, _, _, hbounded⟩ | ⟨hne, _⟩
  · exact hbounded
  · exact absurd rfl hne

omit [DecidableEq β] in
theorem consult_keeps {α : Type} {I : Running β → Prop} (f : World β → Except Failure α) :
    Keeps I (consult f) :=
  consult_triple (fun _ _ hs _ => hs) fun _ _ hs _ => hs

omit [DecidableEq β] in
theorem effect_keeps (v : World β) (f : World β → World β) :
    Keeps (fun s => s.world = v ∧ s.budget = some 0) (effect f) := by
  rintro ⟨world, budget, trail⟩ ⟨hworld, hbudget⟩
  obtain rfl : budget = some 0 := hbudget
  exact ⟨hworld, rfl⟩

/-- A pass that is killed before its first effect leaves the world as it is. -/
theorem apply_keeps (v : World β) (plan : Plan) :
    Keeps (fun s => s.world = v ∧ s.budget = some 0) (applyReplacementPlan R plan) := by
  have hreplace : ∀ before it,
      Keeps (fun s => s.world = v ∧ s.budget = some 0) (replace R before it) := by
    intro before it
    refine (consult_keeps _).bind fun source => (consult_keeps _).bind fun _ =>
      (consult_keeps _).next ?_
    dsimp only
    split
    · exact (effect_keeps v _).next (consult_keeps _)
    · exact (consult_keeps _).next (consult_keeps _)
  have hprune : ∀ after it,
      Keeps (fun s => s.world = v ∧ s.budget = some 0) (pruneObject after it) := fun after it =>
    (consult_keeps _).next ((consult_keeps _).bind fun _ => effect_keeps v _)
  exact (consult_keeps _).bind fun _ => (consult_keeps _).bind fun _ =>
    (consult_keeps _).bind fun before => (consult_keeps _).bind fun _ =>
    (Keeps.forM _ fun it _ => hreplace before it).bind fun _ =>
    (consult_keeps _).bind fun after => (consult_keeps _).bind fun _ =>
    (Keeps.forM _ fun it _ => hprune after it).bind fun _ =>
    (consult_keeps _).bind fun _ => (consult_keeps _).bind fun _ =>
    (consult_keeps _).bind fun _ => effect_keeps v _

/-- A pass that may be killed before its first effect has to be recovered from the start. -/
theorem Converges.bounded (h : Converges R w plan) : Bounded w := by
  rcases hrun : (applyReplacementPlan R plan).run ⟨w, some 0, []⟩ with ⟨r, s⟩
  have hworld := (Triple.final (apply_keeps (R := R) w plan) (s := ⟨w, some 0, []⟩) ⟨rfl, rfl⟩).1
  rw [hrun] at hworld
  exact hworld ▸ (h (some 0) r s hrun).2.2.bounded

theorem run_of_checkRows {budget : Option ℕ} {e : Failure} (hready : plan.ready = true)
    (hrows : checkRows plan w = .error e) :
    ((applyReplacementPlan R plan).run ⟨w, budget, []⟩).1 = .error (.raised e) := by
  have hstop : Triple (fun s => s = ⟨w, budget, []⟩) (applyReplacementPlan R plan)
      (fun _ _ => False) (fun stop _ => stop = .raised e) := by
    refine consult_bind () (fun _ _ => by rw [hready]; rfl)
      ((consult_triple (Q := fun _ _ => False) ?_ ?_).bind fun _ _ hs => hs.elim)
    · rintro s ⟨⟩ rfl hok
      cases hrows.symm.trans hok
    · rintro s e' rfl herror
      rw [Except.error.inj (hrows.symm.trans herror)]
  rcases hrun : (applyReplacementPlan R plan).run ⟨w, budget, []⟩ with ⟨r, s⟩
  rcases hstop.elim rfl hrun with ⟨_, _, hfalse⟩ | ⟨stop, rfl, rfl⟩
  · exact hfalse.elim
  · rfl

/-! ### The main results -/

variable (R) (w) (plan)

/-- **A ready plan is applied** exactly when every older generation with an object is protected and
no archive is larger than the limit. -/
theorem apply_ok_iff (hplan : buildFixedPlan R w = .ok plan) (hready : plan.ready = true) :
    ((applyReplacementPlan R plan).run ⟨w, none, []⟩).1 = .ok () ↔
      OlderProtected w ∧ Bounded w := by
  have hsound := sound_of_ready hplan hready
  obtain ⟨plan', hbuilt, hplanOf⟩ := hsound.planOf
  obtain rfl : plan' = plan := Except.ok.inj (hbuilt.symm.trans hplan)
  rcases hrun : (applyReplacementPlan R plan').run ⟨w, none, []⟩ with ⟨r, s⟩
  rcases hsound.apply_of_unlimited hplanOf hrun with ⟨hr, _, hcond⟩ | ⟨hr, hnot⟩
  · exact ⟨fun _ => hcond, fun _ => hr⟩
  · exact ⟨fun hok => absurd hok hr, fun hcond => absurd hcond hnot⟩

/-- **Reconciliation converges**, for a ready plan whose rows pass the checks, exactly when no
archive is larger than the limit. -/
theorem converges_iff (hplan : buildFixedPlan R w = .ok plan) (hready : plan.ready = true)
    (hrows : checkRows plan w = .ok ()) : Converges R w plan ↔ Bounded w := by
  have hsound := sound_of_ready hplan hready
  obtain ⟨plan', hbuilt, hplanOf⟩ := hsound.planOf
  obtain rfl : plan' = plan := Except.ok.inj (hbuilt.symm.trans hplan)
  have hold := (hsound.checkRows_iff hplanOf).1 hrows
  constructor
  · exact Converges.bounded
  · intro hbounded budget r s hrun
    rcases (hsound.apply_spec hplanOf budget).elim rfl hrun with
      ⟨_, rfl, hsettled, hloss, _⟩ | ⟨stop, rfl, hstopped⟩
    · exact ⟨hloss, fun _ => hsettled.converged hsound.toGrounded,
        (hsettled.sound hsound).recovers (hsettled.olderProtected hsound.toGrounded)
          (hsettled.bounded hsound.toGrounded hbounded) hsettled.retained_eq hsettled.archives⟩
    · have hbetween := hstopped.between
      exact ⟨hstopped.noLoss, fun hr => (by cases hr),
        (hbetween.sound hsound).recovers (hbetween.olderProtected hsound.toGrounded hold)
          (hbetween.bounded hsound.toGrounded hbounded) hbetween.retained_eq hbetween.archives⟩

end Recovery

/-! ### Three generations of one profile -/

structure SampleArchive where
  profileId : String
  backupId : String
  size : ℕ
  deriving DecidableEq

def sampleReader : Reader SampleArchive where
  size := SampleArchive.size
  sha256 := fun _ => String.ofList (replicate 64 '0')
  manifest := fun b => .ok ⟨1, b.profileId, b.backupId⟩
  sha256_hex := fun _ => by decide

def sampleId (day : String) : String := day ++ "T000000000000Z-000000000000"

/-- Archives of one size; the oldest has an object and a row, and a flag. -/
def sampleWorld : World SampleArchive where
  catalog :=
    { rows := [⟨sampleId "20260101", "terraria-vanilla", size, true, flag⟩,
        ⟨sampleId "20260102", "terraria-vanilla", size, true, true⟩,
        ⟨sampleId "20260103", "terraria-vanilla", size, true, true⟩]
      unique := by
        simp only [map_cons, map_nil]
        decide }
  protections :=
    { rows := [importRow ⟨"terraria-vanilla", sampleId "20260101", size,
        String.ofList (replicate 64 '0'), remoteKey "terraria-vanilla" (sampleId "20260101")⟩]
      ids := nodup_singleton _
      keys := nodup_singleton _ }
  archives := fun p i => some ⟨p, i, size⟩
  staged := fun _ _ => none
  remote := Store.empty.put (remoteKey "terraria-vanilla" (sampleId "20260101"))
    ⟨"terraria-vanilla", sampleId "20260101", size⟩

/-- The plan of a sample world, whether it is ready and whether its rows pass. -/
def samplePlan : Option (Bool × Except Failure Unit) :=
  (buildFixedPlan sampleReader (sampleWorld size flag)).toOption.map fun plan =>
    (plan.ready, checkRows plan (sampleWorld size flag))

theorem exists_samplePlan (flag ready : Bool) (rows : Except Failure Unit)
    (h : samplePlan size flag = some (ready, rows)) :
    ∃ plan, buildFixedPlan sampleReader (sampleWorld size flag) = .ok plan ∧
      plan.ready = ready ∧ checkRows plan (sampleWorld size flag) = rows := by
  rw [samplePlan] at h
  cases hbuilt : buildFixedPlan sampleReader (sampleWorld size flag) with
  | error e => simp [hbuilt, Except.toOption] at h
  | ok plan =>
    rw [hbuilt] at h
    have heq := Option.some.inj h
    rw [Prod.mk.injEq] at heq
    exact ⟨plan, rfl, heq⟩

/-- The plan for small archives is applied. -/
theorem apply_ok_small : ∃ plan, buildFixedPlan sampleReader (sampleWorld 1 true) = .ok plan ∧
    plan.ready = true ∧
    ((applyReplacementPlan sampleReader plan).run ⟨sampleWorld 1 true, none, []⟩).1 = .ok () := by
  obtain ⟨plan, hplan, hready, _⟩ := exists_samplePlan 1 true true (.ok ()) (by decide +kernel)
  refine ⟨plan, hplan, hready, (apply_ok_iff _ _ plan hplan hready).2 ⟨?_, ?_⟩⟩
  · unfold OlderProtected
    decide +kernel
  · unfold Bounded
    decide +kernel

/-- The flag of the oldest generation has been cleared, and the plan to prune it is refused. -/
theorem unprotected_older_refused :
    ∃ plan, buildFixedPlan sampleReader (sampleWorld 1 false) = .ok plan ∧ plan.ready = true ∧
      ((applyReplacementPlan sampleReader plan).run ⟨sampleWorld 1 false, none, []⟩).1 =
        .error (.raised (refused "prune protection changed")) := by
  obtain ⟨plan, hplan, hready, hrows⟩ := exists_samplePlan 1 false true
    (.error (refused "prune protection changed")) (by decide +kernel)
  exact ⟨plan, hplan, hready, run_of_checkRows hready hrows⟩

/-- Small archives converge. -/
theorem converges_small : ∃ plan, buildFixedPlan sampleReader (sampleWorld 1 true) = .ok plan ∧
    plan.ready = true ∧ checkRows plan (sampleWorld 1 true) = .ok () ∧
    Converges sampleReader (sampleWorld 1 true) plan := by
  obtain ⟨plan, hplan, hready, hrows⟩ := exists_samplePlan 1 true true (.ok ()) (by decide +kernel)
  refine ⟨plan, hplan, hready, hrows, (converges_iff _ _ plan hplan hready hrows).2 ?_⟩
  unfold Bounded
  decide +kernel

/-- Archives of more than 8 GiB are planned, and never stored. -/
theorem large_archive_stuck :
    ∃ plan, buildFixedPlan sampleReader (sampleWorld 8589934593 true) = .ok plan ∧
      plan.ready = true ∧ checkRows plan (sampleWorld 8589934593 true) = .ok () ∧
      ¬ Converges sampleReader (sampleWorld 8589934593 true) plan := by
  obtain ⟨plan, hplan, hready, hrows⟩ := exists_samplePlan 8589934593 true true (.ok ())
    (by decide +kernel)
  refine ⟨plan, hplan, hready, hrows, fun hconverges => ?_⟩
  have hlarge : ¬ Bounded (sampleWorld 8589934593 true) := by
    unfold Bounded
    decide +kernel
  exact hlarge hconverges.bounded

end Horizon.Reconcile
