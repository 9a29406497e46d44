/-
**One pass of a replacement plan.**

A pass uploads what is missing, deletes what is not retained and then settles the tables; it may be
killed before any effect.  Every world on the way is between the start and the end: its tables are
those of the start, each retained generation has the object it had or its archive, and every other
object is as it was or gone.  Such a world is as sound as the start.

Main results:

* `Reconcile.Sound.apply_spec` — what a pass does, however it ends.
-/

import Horizon.ReconcileTransaction

namespace Horizon.Reconcile

open Option hiding filter_map forall_mem_map map_map mem_map
open World (object)
open List
open Coroutine (Coro Triple)
open ObjectStore (Store)
open Protection (Reader Row Failure isGeneration remoteKey inPrefix)

variable {β : Type} {c : CatalogRow} {p i : String} {b : β} {k : String} {s : Running β}
  {it : PruneCandidate} {α : Type}

/-! ### Worlds on the way -/

def World.Wanted (w : World β) (k : String) : Prop :=
  ∃ c ∈ w.catalog.rows, c.id ∈ w.retained c.profileId ∧ k = remoteKey c.profileId c.id

/-- A world that a pass from `w` goes through. -/
structure Between (w v : World β) : Prop where
  catalog : v.catalog = w.catalog
  protections : v.protections = w.protections
  archives : v.archives = w.archives
  staged : v.staged = w.staged
  retained : ∀ c ∈ w.catalog.rows, c.id ∈ w.retained c.profileId →
    v.object c = w.object c ∨ (w.object c = none ∧ v.object c = w.archives c.profileId c.id)
  others : ∀ k, ¬ w.Wanted k → v.remote.get k = w.remote.get k ∨ v.remote.get k = none

/-- No object of a generation that is retained in `w` is lost or changed. -/
def NoLoss (w before after : World β) : Prop :=
  ∀ c ∈ w.catalog.rows, c.id ∈ w.retained c.profileId → (before.object c).isSome →
    after.object c = before.object c

section Keys

variable {R : Reader β} {w : World β}

theorem Grounded.key_inj (h : Grounded R w) {c c' : CatalogRow} (hc : c ∈ w.catalog.rows)
    (hc' : c' ∈ w.catalog.rows)
    (hkey : remoteKey c.profileId c.id = remoteKey c'.profileId c'.id) : c = c' := by
  obtain ⟨hp, hi⟩ := h.scope c hc
  obtain ⟨hp', hi'⟩ := h.scope c' hc'
  exact eq_of_id hc hc' (remoteKey_inj hp hp' hi hi' hkey).2

theorem Grounded.not_wanted (h : Grounded R w) (hc : c ∈ w.catalog.rows)
    (hold : c.id ∉ w.retained c.profileId) : ¬ w.Wanted (remoteKey c.profileId c.id) := by
  rintro ⟨c', hc', hretained, hkey⟩
  obtain rfl := h.key_inj hc hc' hkey
  exact hold hretained

/-- The key of a generation that is not in the catalog is not wanted. -/
theorem Grounded.not_wanted_of_unknown (h : Grounded R w) (hp : p ∈ retainedProfileIds)
    (hi : isGeneration i = true) (hunknown : ¬ w.Catalogued p i) : ¬ w.Wanted (remoteKey p i) := by
  rintro ⟨c, hc, _, hkey⟩
  obtain ⟨hp', hi'⟩ := h.scope c hc
  obtain ⟨rfl, rfl⟩ := remoteKey_inj hp hp' hi hi' hkey
  exact hunknown ⟨c, hc, rfl, rfl⟩

end Keys

namespace Between

variable {R : Reader β} {w v : World β}

theorem refl (w : World β) : Between w w :=
  ⟨rfl, rfl, rfl, rfl, fun _ _ _ => .inl rfl, fun _ _ => .inl rfl⟩

variable (h : Between w v)
include h

theorem retained_eq (p : String) : v.retained p = w.retained p := by
  rw [World.retained, World.retained, h.catalog]

theorem foreign_iff : Foreign R v p i b ↔ Foreign R w p i b := by
  have hknown : v.Catalogued p i ↔ w.Catalogued p i := by
    rw [World.Catalogued, World.Catalogued, h.catalog]
  constructor
  · intro hf
    exact ⟨hknown.not.1 hf.unknown, hf.size, hf.identified, h.staged ▸ hf.staged⟩
  · intro hf
    exact ⟨hknown.not.2 hf.unknown, hf.size, hf.identified, h.staged.symm ▸ hf.staged⟩

theorem get_of_not_wanted (hk : ¬ w.Wanted k) (hget : v.remote.get k = some b) :
    w.remote.get k = some b := by
  rcases h.others k hk with hsame | hgone
  · rwa [← hsame]
  · rw [hget] at hgone
    cases hgone

theorem isSome_of_older (hw : Grounded R w) (hc : c ∈ w.catalog.rows)
    (hold : c.id ∉ w.retained c.profileId) (hobject : (v.object c).isSome) :
    (w.object c).isSome := by
  obtain ⟨b, hb⟩ := isSome_iff_exists.1 hobject
  rw [object, h.get_of_not_wanted (hw.not_wanted hc hold) hb]
  rfl

theorem isSome_of_retained (hc : c ∈ w.catalog.rows) (hretained : c.id ∈ w.retained c.profileId)
    (hobject : (w.object c).isSome) : (v.object c).isSome := by
  rcases h.retained c hc hretained with hsame | ⟨hnone, _⟩
  · rwa [hsame]
  · rw [hnone] at hobject
    cases hobject

/-- **A world on the way is sound.** -/
theorem sound (hw : Sound R w) : Sound R v := by
  have hobjects : ∀ p ∈ retainedProfileIds, ∀ k b, v.remote.get k = some b →
      inPrefix p k = true → ∃ i, isGeneration i = true ∧ k = remoteKey p i ∧
        ((w.Catalogued p i ∧ w.archives p i = some b) ∨ Foreign R w p i b) := by
    intro p hp k b hget hpre
    by_cases hk : w.Wanted k
    · obtain ⟨c, hc, hretained, rfl⟩ := hk
      obtain ⟨hp', hi⟩ := hw.scope c hc
      obtain rfl := eq_of_inPrefix hp hp' hpre (Protection.inPrefix_remoteKey _ _)
      refine ⟨c.id, hi, rfl, .inl ⟨⟨c, hc, rfl, rfl⟩, ?_⟩⟩
      have hobject : v.object c = some b := hget
      rcases h.retained c hc hretained with hsame | ⟨_, harchive⟩
      · exact hw.owned hc (hsame ▸ hobject)
      · rw [← harchive, hobject]
    · exact hw.objects p hp k b (h.get_of_not_wanted hk hget) hpre
  have hforeign : ∀ {p i b}, p ∈ retainedProfileIds → isGeneration i = true →
      Foreign R v p i b → v.remote.get (remoteKey p i) = some b →
      Foreign R w p i b ∧ w.remote.get (remoteKey p i) = some b := by
    intro p i b hp hi hf hget
    have hf' := h.foreign_iff.1 hf
    exact ⟨hf', h.get_of_not_wanted (hw.not_wanted_of_unknown hp hi hf'.unknown) hget⟩
  have hplanned : ∀ p ∈ retainedProfileIds, Planned R v p := by
    intro p hp
    have hpw := hw.planned p hp
    constructor
    · intro i b hget hi hf
      obtain ⟨hf', hget'⟩ := hforeign hp hi hf hget
      rw [h.retained_eq]
      exact hpw.orphans i b hget' hi hf'
    · intro i j b b' hget hget' hf hf' hi hj
      obtain ⟨hfi, hgeti⟩ := hforeign hp hi hf hget
      obtain ⟨hfj, hgetj⟩ := hforeign hp hj hf' hget'
      exact hpw.single i j b b' hgeti hgetj hfi hfj hi hj
    · intro c hc hprofile hretained
      rw [h.catalog] at hc
      rw [h.retained_eq] at hretained
      obtain ⟨hstate, hflag⟩ := hpw.kept c hc hprofile hretained
      rw [Kept, h.protections]
      subst hprofile
      exact ⟨hstate, fun hnot => ⟨h.isSome_of_retained hc hretained (hflag hnot).1, (hflag hnot).2⟩⟩
    · intro c hc hprofile hold hobject
      rw [h.catalog] at hc
      rw [h.retained_eq] at hold
      rw [h.protections]
      subst hprofile
      exact hpw.older c hc rfl hold (h.isSome_of_older hw.toGrounded hc hold hobject)
  refine ⟨⟨?_, ?_, ?_, ?_, ?_, ?_⟩, hplanned⟩
  · rw [h.catalog]
    exact hw.scope
  · rw [h.catalog]
    exact hw.verified
  · rw [h.catalog, h.archives]
    exact hw.archived
  · rw [h.catalog, h.protections, h.archives]
    exact hw.described
  · rw [h.protections]
    exact hw.recorded
  · intro p hp k b hget hpre
    obtain ⟨i, hi, hk, hcases⟩ := hobjects p hp k b hget hpre
    refine ⟨i, hi, hk, ?_⟩
    rw [h.foreign_iff, World.Catalogued, h.catalog, h.archives]
    exact hcases

theorem olderProtected (hw : Grounded R w) (hold : OlderProtected w) : OlderProtected v := by
  intro c hc hnot hobject
  rw [h.catalog] at hc
  rw [h.retained_eq] at hnot
  exact hold c hc hnot (h.isSome_of_older hw hc hnot hobject)

theorem bounded (hw : Grounded R w) (hbounded : Bounded w) : Bounded v := by
  intro c hc hcases
  rw [h.catalog] at hc
  rw [h.retained_eq] at hcases
  by_cases hretained : c.id ∈ w.retained c.profileId
  · exact hbounded c hc (.inl hretained)
  · exact hbounded c hc (.inr (h.isSome_of_older hw hc hretained (hcases.resolve_left hretained)))

end Between

/-! ### The world at the end -/

/-- A world that a pass from `w` leaves when it returns. -/
structure Settled (R : Reader β) (w v : World β) : Prop where
  catalog : v.catalog.rows = w.catalog.rows.map (settle w)
  rows : ∀ c ∈ w.catalog.rows, v.protections.find c.id = settledRow R w c
  ids : ∀ r ∈ v.protections.rows, ∃ c ∈ w.catalog.rows, c.id = r.backupId
  archives : v.archives = w.archives
  staged : v.staged = w.staged
  stored : ∀ c ∈ w.catalog.rows, c.id ∈ w.retained c.profileId →
    v.object c = w.archives c.profileId c.id
  others : ∀ k, covered k = true → ¬ w.Wanted k → v.remote.get k = none

namespace Settled

variable {R : Reader β} {w v : World β}

variable (h : Settled R w v)
include h

theorem mem_catalog : c ∈ v.catalog.rows ↔ ∃ c' ∈ w.catalog.rows, settle w c' = c := by
  rw [h.catalog, mem_map]

theorem forall_catalog {P : CatalogRow → Prop} :
    (∀ c ∈ v.catalog.rows, P c) ↔ ∀ c ∈ w.catalog.rows, P (settle w c) := by
  rw [h.catalog, forall_mem_map]

theorem retained_eq (p : String) : v.retained p = w.retained p := by
  have hids : (v.catalog.rows.filter fun c => c.profileId = p).map CatalogRow.id =
      (w.catalog.rows.filter fun c => c.profileId = p).map CatalogRow.id := by
    rw [h.catalog, filter_map, map_map]
    rfl
  rw [World.retained, World.retained, hids]

theorem catalogued_iff : v.Catalogued p i ↔ w.Catalogued p i := by
  simp only [World.Catalogued, h.mem_catalog, exists_exists_and_eq_and]
  rfl

theorem older_gone (hw : Grounded R w) (hc : c ∈ w.catalog.rows)
    (hold : c.id ∉ w.retained c.profileId) : ¬ (v.object (settle w c)).isSome := by
  have hnone : v.object (settle w c) = none :=
    h.others (remoteKey c.profileId c.id) (covered_remoteKey _ (hw.scope c hc).1)
      (hw.not_wanted hc hold)
  simp [hnone]

theorem wanted_of_get (hw : Grounded R w) (hp : p ∈ retainedProfileIds)
    (hget : v.remote.get k = some b) (hpre : inPrefix p k = true) :
    ∃ c ∈ w.catalog.rows, c.profileId = p ∧ c.id ∈ w.retained p ∧ k = remoteKey p c.id ∧
      w.archives p c.id = some b := by
  by_cases hk : w.Wanted k
  · obtain ⟨c, hc, hretained, rfl⟩ := hk
    obtain rfl := eq_of_inPrefix (hw.scope c hc).1 hp (Protection.inPrefix_remoteKey _ _) hpre
    exact ⟨c, hc, rfl, hretained, rfl, (h.stored c hc hretained).symm.trans hget⟩
  · rw [h.others k (covered_iff.2 ⟨p, hp, hpre⟩) hk] at hget
    cases hget

theorem not_foreign (hw : Grounded R w) (hp : p ∈ retainedProfileIds) (hi : isGeneration i = true)
    (hget : v.remote.get (remoteKey p i) = some b) : ¬ Foreign R v p i b := by
  intro hf
  obtain ⟨c, hc, rfl, _, hkey, _⟩ := h.wanted_of_get hw hp hget (Protection.inPrefix_remoteKey _ _)
  obtain ⟨_, rfl⟩ := remoteKey_inj hp hp hi (hw.scope c hc).2 hkey
  exact hf.unknown (h.catalogued_iff.2 ⟨c, hc, rfl, rfl⟩)

theorem find_of_mem {r : Row} (hr : r ∈ v.protections.rows) :
    ∃ c ∈ w.catalog.rows, c.id = r.backupId ∧ settledRow R w c = some r := by
  obtain ⟨c, hc, hid⟩ := h.ids r hr
  refine ⟨c, hc, hid, ?_⟩
  rw [← h.rows c hc, hid]
  exact Reconcile.find_of_mem hr

omit h in
theorem row (hw : Sound R w) (hc : c ∈ w.catalog.rows) {r : Row} (hr : settledRow R w c = some r) :
    r.profileId = c.profileId ∧ r.remoteKey = remoteKey c.profileId c.id ∧
      r.localSha256 = (generationOf R w c).sha256 ∧ verificationRecorded r = true ∧
      (r.pruneState = .notStarted ∨ r.pruneState = .succeeded ∨ r.pruneState = .deleted) := by
  rw [settledRow] at hr
  split_ifs at hr with hretained
  · cases hr
    obtain ⟨hprofile, _, hkey, hsha, hproven⟩ := hw.importedRow_proves hc hretained
    rw [verificationProven, decide_eq_true_eq] at hproven
    refine ⟨hprofile, hkey, hsha, hproven.1, ?_⟩
    have hstate := hproven.2
    simp only [mem_cons, not_mem_nil, or_false] at hstate
    exact hstate.imp_right .inl
  · obtain ⟨r', hr', rfl⟩ := map_eq_some_iff.1 hr
    obtain ⟨hprofile, _, hkey, hsha, hrecorded, _⟩ := hw.row hc hr'
    refine ⟨hprofile, hkey, hsha, ?_, .inr (.inr rfl)⟩
    rw [verificationRecorded, decide_eq_true_eq] at hrecorded ⊢
    exact ⟨hrecorded.1, hrecorded.2.1, hrecorded.2.2.1, hrecorded.2.2.2.1, rfl⟩

/-- **The world at the end is sound.** -/
theorem sound (hw : Sound R w) : Sound R v := by
  have hkept : ∀ c ∈ w.catalog.rows, c.id ∈ w.retained c.profileId → Kept v (settle w c) := by
    intro c hc hretained
    refine ⟨fun r hr => ?_, fun hflag => ?_⟩
    · have hr' : settledRow R w c = some r := (h.rows c hc).symm.trans hr
      rw [settledRow, if_pos hretained] at hr'
      obtain rfl := some.inj hr'
      have hproven := (hw.importedRow_proves hc hretained).2.2.2.2
      rw [verificationProven, decide_eq_true_eq] at hproven
      intro hstate
      simp [hstate] at hproven
    · simp [settle, hretained] at hflag
  refine ⟨⟨?_, ?_, ?_, ?_, ?_, ?_⟩, fun p hp => ⟨?_, ?_, ?_, ?_⟩⟩
  · exact h.forall_catalog.2 hw.scope
  · exact h.forall_catalog.2 hw.verified
  · rw [h.archives]
    exact h.forall_catalog.2 hw.archived
  · intro r hr
    obtain ⟨c, hc, hid, hrow⟩ := h.find_of_mem hr
    obtain ⟨hprofile, hkey, hsha, _⟩ := row hw hc hrow
    obtain ⟨b, hb, _⟩ := hw.archived c hc
    refine ⟨settle w c, h.mem_catalog.2 ⟨c, hc, rfl⟩, hid, hprofile.symm, hkey, b, ?_, ?_⟩
    · rw [h.archives]
      exact hb
    · rw [hsha, generationOf, hb]
      rfl
  · intro r hr
    obtain ⟨c, hc, _, hrow⟩ := h.find_of_mem hr
    exact (row hw hc hrow).2.2.2
  · intro p hp k b hget hpre
    obtain ⟨c, hc, rfl, _, rfl, hb⟩ := h.wanted_of_get hw.toGrounded hp hget hpre
    refine ⟨c.id, (hw.scope c hc).2, rfl, .inl ⟨h.catalogued_iff.2 ⟨c, hc, rfl, rfl⟩, ?_⟩⟩
    rw [h.archives]
    exact hb
  · intro i b hget hi hf
    exact absurd hf (h.not_foreign hw.toGrounded hp hi hget)
  · intro i j b b' hget _ hf _ hi _
    exact absurd hf (h.not_foreign hw.toGrounded hp hi hget)
  · refine h.forall_catalog.2 fun c hc hprofile hretained => ?_
    subst hprofile
    rw [h.retained_eq] at hretained
    exact hkept c hc hretained
  · refine h.forall_catalog.2 fun c hc hprofile hold hobject => ?_
    subst hprofile
    rw [h.retained_eq] at hold
    exact absurd hobject (h.older_gone hw.toGrounded hc hold)

theorem olderProtected (hw : Grounded R w) : OlderProtected v := by
  refine h.forall_catalog.2 fun c hc hold hobject => ?_
  rw [h.retained_eq] at hold
  exact absurd hobject (h.older_gone hw hc hold)

theorem bounded (hw : Grounded R w) (hbounded : Bounded w) : Bounded v := by
  refine h.forall_catalog.2 fun c hc hcases => ?_
  rw [h.retained_eq] at hcases
  by_cases hretained : c.id ∈ w.retained c.profileId
  · exact hbounded c hc (.inl hretained)
  · exact absurd (hcases.resolve_left hretained) (h.older_gone hw hc hretained)

end Settled

/-! ### Rules -/

variable {P : Running β → Prop} {E : Stop → Running β → Prop} {Q : α → Running β → Prop}

theorem effect_triple {f : World β → World β} {Q : Unit → Running β → Prop}
    (hdone : ∀ s budget, P s → budget.isSome = s.budget.isSome →
      Q () ⟨f s.world, budget, s.world :: s.trail⟩)
    (hkilled : ∀ s, P s → s.budget.isSome = true → E .killed s) : Triple P (effect f) Q E := by
  rintro ⟨world, budget, trail⟩ hs
  cases budget with
  | none => exact hdone ⟨world, none, trail⟩ none hs rfl
  | some n =>
    cases n with
    | zero => exact hkilled ⟨world, some 0, trail⟩ hs rfl
    | succ n => exact hdone ⟨world, some (n + 1), trail⟩ (some n) hs rfl

theorem consult_triple {f : World β → Except Failure α}
    (hok : ∀ s a, P s → f s.world = .ok a → Q a s)
    (herror : ∀ s e, P s → f s.world = .error e → E (.raised e) s) : Triple P (consult f) Q E := by
  intro s hs
  rw [Coro.run, consult]
  cases hf : f s.world with
  | ok a => exact hok s a hs hf
  | error e => exact herror s e hs hf

theorem consult_bind {α γ : Type} {f : World β → Except Failure α} {k : α → Action β γ} (a : α)
    {Q : γ → Running β → Prop} (h : ∀ s, P s → f s.world = .ok a) (hk : Triple P (k a) Q E) :
    Triple P (consult f >>= k) Q E := by
  refine (consult_triple (Q := fun a' s => a' = a ∧ P s) ?_ ?_).bind ?_
  · intro s a' hs hf
    rw [h s hs] at hf
    exact ⟨(Except.ok.inj hf).symm, hs⟩
  · intro s e hs hf
    rw [h s hs] at hf
    cases hf
  · rintro a' s ⟨rfl, hs⟩
    exact hk s hs

theorem triple_pure {m : Action β α} {q : Prop} (h : q → Triple P m Q E) :
    Triple (fun s => P s ∧ q) m Q E :=
  fun s hs => h hs.2 s hs.1

/-! ### The pass -/

variable (R : Reader β) (w : World β) (budget : Option ℕ)

/-- The state of a pass from `w` before its transaction. -/
structure Passing (s : Running β) : Prop where
  budget_isSome : s.budget.isSome = budget.isSome
  between : Between w s.world
  noLoss : (s.world :: s.trail).IsChain fun after before => NoLoss w before after

/-- Why and where a pass from `w` stops. -/
structure Stopped (stop : Stop) (s : Running β) : Prop where
  between : Between w s.world
  noLoss : (s.world :: s.trail).IsChain fun after before => NoLoss w before after
  killed : stop = .killed → budget.isSome = true
  raised : ∀ e, stop = .raised e → ¬ (OlderProtected w ∧ Bounded w)

variable {R w budget} {v : World β}

theorem Passing.killed (h : Passing w budget s) (hs : s.budget.isSome = true) :
    Stopped w budget .killed s :=
  ⟨h.between, h.noLoss, fun _ => h.budget_isSome ▸ hs, fun _ he => by cases he⟩

theorem Passing.raised (h : Passing w budget s) {e : Failure}
    (hnot : ¬ (OlderProtected w ∧ Bounded w)) : Stopped w budget (.raised e) s :=
  ⟨h.between, h.noLoss, fun he => by (cases he), fun _ _ => hnot⟩

theorem Passing.step (h : Passing w budget s) {b : Option ℕ} (hb : b.isSome = s.budget.isSome)
    (hv : Between w v) (hloss : NoLoss w s.world v) :
    Passing w budget ⟨v, b, s.world :: s.trail⟩ :=
  ⟨hb.trans h.budget_isSome, hv, isChain_cons_cons.2 ⟨hloss, h.noLoss⟩⟩

theorem Sound.sizes_le (h : Sound R w) (hbounded : Bounded w) (k : String) (v : ℤ)
    (hv : sizes R w k = some v) : v ≤ maxStagedBytes := by
  obtain ⟨p, hp, hpre, b, hget, rfl⟩ := sizes_eq_some.1 hv
  obtain ⟨i, _, rfl, ⟨⟨c, hc, rfl, rfl⟩, harchive⟩ | hforeign⟩ := h.objects p hp k b hget hpre
  · obtain ⟨b', hb', hsize, _⟩ := h.archived c hc
    obtain rfl : b = b' := some.inj (harchive.symm.trans hb')
    rw [hsize]
    refine hbounded c hc (.inr ?_)
    rw [object, hget]
    rfl
  · exact hforeign.size

theorem Sound.inventory_spec (h : Sound R w) (P : Running β → Prop)
    (hP : ∀ s, P s → Passing w budget s) :
    Triple P (consult (fixedInventory R))
      (fun inventory s => P s ∧ (∀ k, inventory.get k = sizes R s.world k) ∧
        ∀ k v, sizes R s.world k = some v → v ≤ maxStagedBytes) (Stopped w budget) := by
  refine consult_triple (fun s inventory hs hok => ?_) (fun s e hs herror => ?_)
  · have hsound := (hP s hs).between.sound h
    have hle := fun k v => Reconcile.sizes_le hok (k := k) (v := v)
    obtain ⟨inventory', hok', hget⟩ := fixedInventory_eq hsound.canonical hle
    obtain rfl : inventory' = inventory := Except.ok.inj (hok'.symm.trans hok)
    exact ⟨hs, hget, hle⟩
  · refine (hP s hs).raised fun hnot => ?_
    have hbetween := (hP s hs).between
    have hsound := hbetween.sound h
    obtain ⟨_, hok, _⟩ := fixedInventory_eq hsound.canonical
      (hsound.sizes_le (hbetween.bounded h.toGrounded hnot.2))
    rw [hok] at herror
    cases herror

variable (R w) in
/-- The world when some archives have been uploaded. -/
structure Uploaded (done : List ReplacementCandidate) (v : World β) : Prop where
  stored : ∀ c ∈ w.catalog.rows, replacementOf R w c ∈ done →
    v.object c = w.archives c.profileId c.id
  others : ∀ k, (∀ it ∈ done, k ≠ remoteKey it.profileId it.backupId) →
    v.remote.get k = w.remote.get k

theorem object_put (v : World β) (c c' : CatalogRow) (b : β) :
    object { v with remote := v.remote.put (remoteKey c.profileId c.id) b } c' =
      if remoteKey c'.profileId c'.id = remoteKey c.profileId c.id then some b
      else v.object c' :=
  Store.get_put _ _ _

theorem Uploaded.put {done : List ReplacementCandidate} (h : Uploaded R w done v)
    (hw : Grounded R w) (hc : c ∈ w.catalog.rows) (hb : w.archives c.profileId c.id = some b) :
    Uploaded R w (done ++ [replacementOf R w c])
      { v with remote := v.remote.put (remoteKey c.profileId c.id) b } := by
  constructor
  · intro c' hc' hmem
    rw [object_put]
    split_ifs with hkey
    · obtain rfl := hw.key_inj hc' hc hkey
      exact hb.symm
    · rw [mem_append, mem_singleton] at hmem
      refine h.stored c' hc' (hmem.resolve_right fun heq => hkey ?_)
      have hid : c'.id = c.id := congrArg ReplacementCandidate.backupId heq
      rw [eq_of_id hc' hc hid]
  · intro k hk
    have hne : k ≠ remoteKey c.profileId c.id := hk (replacementOf R w c) (by simp)
    simp only [Store.get_put, if_neg hne]
    exact h.others k fun it hit => hk it (by simp [hit])

theorem Between.put (h : Between w v) (hw : Grounded R w) (hc : c ∈ w.catalog.rows)
    (hretained : c.id ∈ w.retained c.profileId) (hobject : w.object c = none)
    (hb : w.archives c.profileId c.id = some b) :
    Between w { v with remote := v.remote.put (remoteKey c.profileId c.id) b } ∧
      NoLoss w v { v with remote := v.remote.put (remoteKey c.profileId c.id) b } := by
  constructor
  · refine ⟨h.catalog, h.protections, h.archives, h.staged, ?_, ?_⟩
    · intro c' hc' hretained'
      rw [object_put]
      split_ifs with hkey
      · obtain rfl := hw.key_inj hc' hc hkey
        exact .inr ⟨hobject, hb.symm⟩
      · exact h.retained c' hc' hretained'
    · intro k hk
      have hne : k ≠ remoteKey c.profileId c.id := fun heq => hk ⟨c, hc, hretained, heq⟩
      simp only [Store.get_put, if_neg hne]
      exact h.others k hk
  · intro c' hc' hretained' hsome
    rw [object_put]
    split_ifs with hkey
    · obtain rfl := hw.key_inj hc' hc hkey
      rcases h.retained c' hc hretained with hsame | ⟨_, harchive⟩
      · rw [hsame, hobject] at hsome
        cases hsome
      · rw [harchive, hb]
    · rfl

variable [DecidableEq β]

theorem Sound.replace_spec (h : Sound R w) {before : Store ℤ}
    (hbefore : ∀ k, before.get k = sizes R w k) (hc : c ∈ w.catalog.rows)
    (hretained : c.id ∈ w.retained c.profileId) (hobject : w.object c = none)
    (done : List ReplacementCandidate) :
    Triple (fun s => Passing w budget s ∧ Uploaded R w done s.world)
      (replace R before (replacementOf R w c))
      (fun _ s => Passing w budget s ∧ Uploaded R w (done ++ [replacementOf R w c]) s.world)
      (Stopped w budget) := by
  obtain ⟨b, hb, hsize, hidentified⟩ := h.archived c hc
  obtain ⟨hp, _⟩ := h.scope c hc
  have hnone : before.get (remoteKey c.profileId c.id) = none := by
    have hget : w.remote.get (remoteKey c.profileId c.id) = none := hobject
    rw [hbefore, sizes_remoteKey _ hp, hget]
    rfl
  refine consult_bind b (fun s hs => ?_) (consult_bind () (fun s hs => ?_)
    (consult_bind () (fun s hs => ?_) ?_))
  · have harchives := hs.1.between.archives
    simp only [replacementOf, harchives, hb]
  · rw [refuseWhen_eq_ok, decide_eq_false_iff_not, not_or, not_not, not_not]
    constructor
    · rw [replacementOf, h.archiveSize_eq hc]
      exact hsize
    · rw [replacementOf, generationOf, hb]
      rfl
  · exact validateArchiveManifest_eq.2 hidentified
  · have hkey : remoteKey (replacementOf R w c).profileId (replacementOf R w c).backupId =
        remoteKey c.profileId c.id := rfl
    simp only [hkey, hnone]
    refine (effect_triple (fun s n hs hn => ?_) (fun s hs hn => hs.1.killed hn)).bind fun _ =>
      consult_triple (fun s _ hs _ => hs) (fun s e hs hf => ?_)
    · obtain ⟨hbetween, hloss⟩ := hs.1.between.put h.toGrounded hc hretained hobject hb
      exact ⟨hs.1.step hn hbetween hloss, hs.2.put h.toGrounded hc hb⟩
    · have hstored : s.world.remote.get (remoteKey c.profileId c.id) = some b :=
        (hs.2.stored c hc (by simp)).trans hb
      rw [if_pos hstored] at hf
      cases hf

/-! ### Deletions -/

omit [DecidableEq β] in
theorem Between.delete (h : Between w v) (hk : ¬ w.Wanted k) :
    Between w { v with remote := v.remote.delete k } ∧
      NoLoss w v { v with remote := v.remote.delete k } := by
  have hobject : ∀ c ∈ w.catalog.rows, c.id ∈ w.retained c.profileId →
      object { v with remote := v.remote.delete k } c = v.object c := by
    intro c hc hretained
    have hne : remoteKey c.profileId c.id ≠ k := fun heq => hk ⟨c, hc, hretained, heq.symm⟩
    exact (Store.get_delete _ _).trans (if_neg hne)
  constructor
  · refine ⟨h.catalog, h.protections, h.archives, h.staged, ?_, ?_⟩
    · intro c hc hretained
      rw [hobject c hc hretained]
      exact h.retained c hc hretained
    · intro k' hk'
      simp only [Store.get_delete]
      split
      · exact .inr rfl
      · exact h.others k' hk'
  · intro c hc hretained _
    exact hobject c hc hretained

/-- The world when some objects of `v` have been deleted. -/
def Deleted (v : World β) (done : List PruneCandidate) (u : World β) : Prop :=
  ∀ k, u.remote.get k = if k ∈ done.map PruneCandidate.remoteKey then none else v.remote.get k

omit [DecidableEq β] in
theorem pruneObject_spec {after : Store ℤ}
    (hafter : after.get it.remoteKey = some it.sizeBytes) (hk : ¬ w.Wanted it.remoteKey)
    (done : List PruneCandidate) :
    Triple (fun s => Passing w budget s ∧ Deleted v done s.world) (pruneObject after it)
      (fun _ s => Passing w budget s ∧ Deleted v (done ++ [it]) s.world) (Stopped w budget) := by
  refine consult_bind () (fun s hs => ?_) (consult_bind () (fun s hs => ?_)
    (effect_triple (fun s n hs hn => ?_) fun s hs hn => hs.1.killed hn))
  · rw [hafter]
    rfl
  · rw [hafter, refuseWhen_eq_ok]
    simp
  · obtain ⟨hbetween, hloss⟩ := hs.1.between.delete hk
    refine ⟨hs.1.step hn hbetween hloss, fun k => ?_⟩
    simp only [Store.get_delete, hs.2 k, map_append, mem_append, map_singleton,
      mem_singleton]
    by_cases hkey : k = it.remoteKey
    · simp [hkey]
    · simp [hkey]

/-! ### The whole pass -/

theorem Sound.expectedBefore (h : Sound R w) {plan : Plan} (hplan : PlanOf R w plan) (k : String) :
    (dictionary ((plan.remoteEvidence.filter (·.remoteKey ≠ "")).map fun r =>
      (r.remoteKey, r.sizeBytes)) .empty).get k = sizes R w k := by
  have hmem : ∀ {k v}, (k, v) ∈ (plan.remoteEvidence.filter (·.remoteKey ≠ "")).map
      (fun r => (r.remoteKey, r.sizeBytes)) ↔ sizes R w k = some v := by
    intro k v
    rw [mem_map, sizes_eq_some]
    simp only [mem_filter, hplan.evidence.mem_iff, mem_evidence_remote]
    constructor
    · rintro ⟨r, ⟨⟨p, hp, k', b, hget, hpre, rfl⟩, _⟩, heq⟩
      rw [objectOf_remoteKey, objectOf_sizeBytes, Prod.mk.injEq] at heq
      obtain ⟨rfl, rfl⟩ := heq
      exact ⟨p, hp, hpre, b, hget, rfl⟩
    · rintro ⟨p, hp, hpre, b, hget, rfl⟩
      refine ⟨_, ⟨⟨p, hp, k, b, hget, hpre, rfl⟩, ?_⟩, ?_⟩
      · obtain ⟨i, _, rfl⟩ := h.canonical p hp k b hget hpre
        rw [objectOf_remoteKey]
        exact decide_eq_true (remoteKey_ne_empty p i)
      · rw [objectOf_remoteKey, objectOf_sizeBytes]
  rw [get_dictionary (f := fun k => (sizes R w k).getD 0)]
  · split_ifs with hk
    · obtain ⟨e, he, rfl⟩ := mem_map.1 hk
      rw [hmem.1 he, getD_some]
    · cases hsize : sizes R w k with
      | none => rfl
      | some v => exact absurd (mem_map.2 ⟨(k, v), hmem.2 hsize, rfl⟩) hk
  · rintro ⟨k, v⟩ he
    rw [hmem.1 he, getD_some]

variable {plan : Plan} (h : Sound R w) (hplan : PlanOf R w plan)

include h hplan

omit h in
theorem PlanOf.replacement_wanted {it : ReplacementCandidate}
    (hit : it ∈ plan.replacementCandidates) : w.Wanted (remoteKey it.profileId it.backupId) := by
  obtain ⟨c, hc, hretained, _, rfl⟩ := (hplan.replacements it).1 hit
  exact ⟨c, hc, hretained, rfl⟩

theorem Sound.candidate_stored (hit : it ∈ plan.pruneCandidates) :
    ¬ w.Wanted it.remoteKey ∧ sizes R w it.remoteKey = some it.sizeBytes := by
  rcases (hplan.candidates it).1 hit with ⟨p, hp, i, b, hi, hget, hforeign, rfl⟩ |
    ⟨c, hc, hold, hobject, rfl⟩
  · refine ⟨h.not_wanted_of_unknown hp hi hforeign.unknown, ?_⟩
    rw [orphanOf, sizes_remoteKey i hp, hget]
    rfl
  · refine ⟨h.not_wanted hc hold, ?_⟩
    obtain ⟨b, hb⟩ := isSome_iff_exists.1 hobject
    obtain ⟨b', hb', hsize, _⟩ := h.archived c hc
    obtain rfl : b = b' := some.inj ((h.owned hc hb).symm.trans hb')
    rw [pruneOf, sizes_remoteKey _ (h.scope c hc).1, h.archiveSize_eq hc, ← hsize]
    exact congrArg (Option.map _) hb

variable (hv : Uploaded R w plan.replacementCandidates v)
include hv

omit h in
theorem PlanOf.get_of_uploaded (hk : ¬ w.Wanted k) : v.remote.get k = w.remote.get k :=
  hv.others k fun _ hit heq => hk (heq ▸ hplan.replacement_wanted hit)

theorem Sound.object_of_uploaded (hc : c ∈ w.catalog.rows)
    (hcases : c.id ∈ w.retained c.profileId ∨ (w.object c).isSome) :
    v.object c = w.archives c.profileId c.id := by
  by_cases hreplaced : replacementOf R w c ∈ plan.replacementCandidates
  · exact hv.stored c hc hreplaced
  · have hsome : (w.object c).isSome := by
      by_contra hnone
      rw [not_isSome_iff_eq_none] at hnone
      refine hreplaced ((hplan.replacements _).2 ⟨c, hc, ?_, hnone, rfl⟩)
      exact hcases.resolve_right (by rw [hnone]; simp)
    obtain ⟨b, hb⟩ := isSome_iff_exists.1 hsome
    have hsame : v.object c = w.object c := by
      refine hv.others _ fun it hit heq => ?_
      obtain ⟨c', hc', hretained', hobject', rfl⟩ := (hplan.replacements it).1 hit
      obtain rfl := h.key_inj hc hc' heq
      exact hreplaced hit
    rw [hsame, hb, h.owned hc hb]

/-- A pass that takes the second inventory has only objects within the limit. -/
theorem Sound.bounded_of_uploaded (hle : ∀ k n, sizes R v k = some n → n ≤ maxStagedBytes) :
    Bounded w := by
  intro c hc hcases
  obtain ⟨b, hb, hsize, _⟩ := h.archived c hc
  have hobject : v.remote.get (remoteKey c.profileId c.id) = some b :=
    (h.object_of_uploaded hplan hv hc hcases).trans hb
  refine hle (remoteKey c.profileId c.id) _ ?_
  rw [sizes_remoteKey _ (h.scope c hc).1, hobject, map_some, hsize]

theorem Sound.expectedAfter {d : Store ℤ} (hd : ∀ k, d.get k = sizes R w k) (k : String) :
    (dictionary (plan.replacementCandidates.map fun it =>
      (remoteKey it.profileId it.backupId, it.sizeBytes)) d).get k = sizes R v k := by
  have hentry : ∀ it ∈ plan.replacementCandidates,
      sizes R v (remoteKey it.profileId it.backupId) = some it.sizeBytes := by
    intro it hit
    obtain ⟨c, hc, hretained, _, rfl⟩ := (hplan.replacements it).1 hit
    obtain ⟨b, hb, hsize, _⟩ := h.archived c hc
    have hobject : v.remote.get (remoteKey c.profileId c.id) = some b :=
      (hv.stored c hc hit).trans hb
    rw [replacementOf, sizes_remoteKey _ (h.scope c hc).1, hobject, h.archiveSize_eq hc, ← hsize]
    rfl
  rw [get_dictionary (f := fun k => (sizes R v k).getD 0)]
  · split_ifs with hk
    · obtain ⟨_, he, rfl⟩ := mem_map.1 hk
      obtain ⟨it, hit, rfl⟩ := mem_map.1 he
      rw [hentry it hit, getD_some]
    · have hsame : v.remote.get k = w.remote.get k := hv.others k fun it hit heq =>
        hk (mem_map.2 ⟨_, mem_map.2 ⟨it, hit, rfl⟩, heq.symm⟩)
      rw [hd, sizes, sizes, hsame]
  · intro e he
    obtain ⟨it, hit, rfl⟩ := mem_map.1 he
    rw [hentry it hit, getD_some]

theorem Sound.get_of_deleted {u : World β} (hu : Deleted v plan.pruneCandidates u) :
    (∀ c ∈ w.catalog.rows, c.id ∈ w.retained c.profileId →
      u.object c = w.archives c.profileId c.id) ∧
    ∀ k, covered k = true → ¬ w.Wanted k → u.remote.get k = none := by
  constructor
  · intro c hc hretained
    have hkey : remoteKey c.profileId c.id ∉ plan.pruneCandidates.map PruneCandidate.remoteKey := by
      intro hmem
      obtain ⟨it, hit, heq⟩ := mem_map.1 hmem
      exact (h.candidate_stored hplan hit).1 (heq ▸ ⟨c, hc, hretained, rfl⟩)
    rw [object, hu, if_neg hkey]
    exact h.object_of_uploaded hplan hv hc (.inl hretained)
  · intro k hcovered hk
    rw [hu]
    split_ifs with hkey
    · rfl
    · rw [hplan.get_of_uploaded hv hk, eq_none_iff_forall_ne_some]
      intro b hget
      obtain ⟨p, hp, hpre⟩ := covered_iff.1 hcovered
      refine hkey ?_
      obtain ⟨i, hi, rfl, ⟨⟨c, hc, rfl, rfl⟩, _⟩ | hforeign⟩ := h.objects p hp k b hget hpre
      · have hold : c.id ∉ w.retained c.profileId := fun hretained => hk ⟨c, hc, hretained, rfl⟩
        refine mem_map.2 ⟨pruneOf R w c, (hplan.candidates _).2 (.inr ⟨c, hc, hold, ?_, rfl⟩), rfl⟩
        rw [object, hget]
        rfl
      · exact mem_map.2 ⟨orphanOf R p i b,
          (hplan.candidates _).2 (.inl ⟨p, hp, i, b, hi, hget, hforeign, rfl⟩), rfl⟩

omit hv in
/-- **A pass, however it ends.** -/
theorem Sound.apply_spec (budget : Option ℕ) :
    Triple (fun s => s = ⟨w, budget, []⟩) (applyReplacementPlan R plan)
      (fun _ s => Settled R w s.world ∧
        ((s.world :: s.trail).IsChain fun after before => NoLoss w before after) ∧
        OlderProtected w ∧ Bounded w)
      (Stopped w budget) := by
  -- the start and the rows
  have hstart : Passing w budget ⟨w, budget, []⟩ := ⟨rfl, .refl w, .singleton _⟩
  refine consult_bind () (fun _ _ => by rw [hplan.ready]; rfl) ?_
  refine (consult_triple (Q := fun _ s => s = ⟨w, budget, []⟩ ∧ OlderProtected w) ?_ ?_).bind
    fun _ => triple_pure fun holder => ?_
  · rintro s ⟨⟩ rfl hok
    exact ⟨rfl, (h.checkRows_iff hplan).1 hok⟩
  · rintro s e rfl herror
    refine hstart.raised fun hnot => ?_
    rw [(h.checkRows_iff hplan).2 hnot.1] at herror
    cases herror
  -- the first inventory and the uploads
  refine (h.inventory_spec _ fun s hs => hs ▸ hstart).bind fun before => ?_
  refine .assume fun t ht => ?_
  obtain ⟨rfl, hbefore, _⟩ := ht
  have hsame : ∀ {a b : Store ℤ}, (∀ k, a.get k = b.get k) → ∀ message,
      refuseWhen (¬ sameEntries a b) message = .ok () := by
    intro a b hab message
    rw [refuseWhen_eq_ok, sameEntries_iff.2 hab]
    rfl
  have hexpected := h.expectedBefore hplan
  refine consult_bind () (fun _ _ => hsame (fun k => (hbefore k).trans (hexpected k).symm) _) ?_
  refine (((Triple.forM (I := fun done s => Passing w budget s ∧ Uploaded R w done s.world)
    plan.replacementCandidates fun done it rest hl => ?_).pre ?_)).next ?_
  · obtain ⟨c, hc, hretained, hobject, rfl⟩ := (hplan.replacements it).1 (by simp [hl])
    exact h.replace_spec hbefore hc hretained hobject done
  · rintro s rfl
    exact ⟨hstart, nofun, fun _ _ => rfl⟩
  -- the second inventory and the deletions
  refine (h.inventory_spec _ fun s hs => hs.1).bind fun after => ?_
  refine .assume fun t ht => ?_
  obtain ⟨⟨hpassing, huploaded⟩, hafter, hle⟩ := ht
  have hbounded := h.bounded_of_uploaded hplan huploaded hle
  refine consult_bind () (fun _ _ => hsame (fun k =>
    (hafter k).trans (h.expectedAfter hplan huploaded hexpected k).symm) _) ?_
  refine (((Triple.forM (I := fun done s => Passing w budget s ∧ Deleted t.world done s.world)
    plan.pruneCandidates fun done it rest hl => ?_).pre ?_)).next ?_
  · obtain ⟨hk, hsize⟩ := h.candidate_stored hplan (show it ∈ plan.pruneCandidates by simp [hl])
    refine pruneObject_spec ?_ hk done
    rw [hafter, sizes, hplan.get_of_uploaded huploaded hk]
    exact hsize
  · rintro s rfl
    exact ⟨hpassing, fun k => rfl⟩
  -- the third inventory and the transaction
  refine (h.inventory_spec _ fun s hs => hs.1).bind fun left => ?_
  refine .assume fun u hu => ?_
  obtain ⟨⟨hpassing', hdeleted⟩, hleft, _⟩ := hu
  obtain ⟨tables, htables, hcatalog, hrows, hids⟩ := h.applyCatalogTransitions_eq hplan
  refine consult_bind () (fun _ _ => hsame (fun k => ?_) _)
    (consult_bind tables (fun s hs => ?_) (effect_triple (fun s n hs hn => ?_) fun s hs hn => ?_))
  · rw [hleft, get_foldl_delete, hafter, sizes, sizes, hdeleted]
    split
    · split
      · rfl
      · rfl
    · split
      · rfl
      · rfl
  · subst hs
    rw [hpassing'.between.catalog, hpassing'.between.protections]
    exact htables
  · subst hs
    obtain ⟨hstored, hothers⟩ := h.get_of_deleted hplan huploaded hdeleted
    refine ⟨⟨hcatalog, hrows, hids, hpassing'.between.archives, hpassing'.between.staged,
      hstored, hothers⟩, ?_, holder, hbounded⟩
    exact isChain_cons_cons.2 ⟨fun _ _ _ _ => rfl, hpassing'.noLoss⟩
  · subst hs
    exact hpassing'.killed hn

end Horizon.Reconcile
