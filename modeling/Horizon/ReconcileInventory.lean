/-
**What the applier checks.**

The applier takes the remote inventory three times and compares it with what the plan says, and it
checks the rows of both tables before it starts.  An inventory is the sizes of the stored objects,
unless one of them is larger than the limit; in a sound world the rows pass exactly when every older
generation that still has an object is flagged as protected.

Main results:

* `Reconcile.Sound.checkRows_iff` — when the rows pass.
-/

import Horizon.ReconcileReady

namespace Horizon.Reconcile

open List
open ObjectStore (Store)
open Protection (Reader Row Failure isGeneration profilePrefix remoteKey inPrefix)

/-! ### Loops that do not fail -/

variable {α σ : Type} {f : σ → α → Except Failure σ} {l : List α} (i : String)

theorem foldlM_ok {I : List α → σ → Prop}
    (h : ∀ done a rest t, l = done ++ a :: rest → I done t → ∃ t', f t a = .ok t' ∧
      I (done ++ [a]) t') {t : σ} (ht : I [] t) : ∃ t', l.foldlM f t = .ok t' ∧ I l t' := by
  -- generalised to the elements that remain after `done`
  suffices hrest : ∀ rest done t, l = done ++ rest → I done t →
      ∃ t', rest.foldlM f t = .ok t' ∧ I l t' from hrest l [] t rfl ht
  intro rest
  induction rest with
  | nil =>
    intro done t hl hI
    rw [append_nil] at hl
    exact ⟨t, rfl, hl ▸ hI⟩
  | cons a rest ih =>
    intro done t hl hI
    obtain ⟨t', hf, hI'⟩ := h done a rest t hl hI
    obtain ⟨t'', hloop, hI''⟩ := ih (done ++ [a]) t' (by simpa using hl) hI'
    exact ⟨t'', by rw [foldlM_cons]; exact bind_eq_ok.2 ⟨t', hf, hloop⟩, hI''⟩

theorem forall_of_foldlM {P : α → Prop} (h : ∀ a ∈ l, ∀ t t', f t a = .ok t' → P a) {t t' : σ}
    (hl : l.foldlM f t = .ok t') : ∀ a ∈ l, P a := by
  induction l generalizing t with
  | nil => exact fun _ ha => by cases ha
  | cons a l ih =>
    obtain ⟨t₁, hf, hrest⟩ := bind_eq_ok.1 hl
    exact forall_mem_cons.2 ⟨h a (.head _) t t₁ hf, ih (fun b hb => h b (.tail _ hb)) hrest⟩

/-! ### Dictionaries -/

theorem sameEntries_iff {a b : Store ℤ} : sameEntries a b = true ↔ ∀ k, a.get k = b.get k := by
  simp only [sameEntries, Bool.and_eq_true, all_eq_true, decide_eq_true_eq, Prod.forall,
    Store.mem_objects]
  constructor
  · rintro ⟨hab, hba⟩ k
    exact Option.ext fun v => ⟨hab k v, hba k v⟩
  · intro h
    exact ⟨fun k v hk => h k ▸ hk, fun k v hk => (h k).symm ▸ hk⟩

theorem get_dictionary {f : String → ℤ} {entries : List (String × ℤ)}
    (h : ∀ e ∈ entries, e.2 = f e.1) (d : Store ℤ) (k : String) :
    (dictionary entries d).get k = if k ∈ entries.map Prod.fst then some (f k) else d.get k := by
  induction entries generalizing d with
  | nil => rfl
  | cons e entries ih =>
    have he := h e (.head _)
    rw [dictionary, foldl_cons]
    rw [← dictionary, ih (fun e' he' => h e' (mem_cons_of_mem _ he')), map_cons,
      Store.get_put]
    by_cases hk : k ∈ entries.map Prod.fst
    · rw [if_pos hk, if_pos (mem_cons_of_mem _ hk)]
    · by_cases hek : k = e.1
      · rw [if_neg hk, if_pos hek, if_pos (hek ▸ mem_cons_self), he, hek]
      · rw [if_neg hk, if_neg hek, if_neg]
        rw [mem_cons, not_or]
        exact ⟨hek, hk⟩

theorem get_foldl_delete (key : α → String) (l : List α) (d : Store ℤ) (k : String) :
    (l.foldl (fun d item => d.delete (key item)) d).get k =
      if k ∈ l.map key then none else d.get k := by
  induction l generalizing d with
  | nil => rfl
  | cons a l ih =>
    rw [foldl_cons, ih, Store.get_delete, map_cons]
    by_cases hk : k ∈ l.map key
    · rw [if_pos hk, if_pos (mem_cons_of_mem _ hk)]
    · by_cases hak : k = key a
      · rw [if_neg hk, if_pos hak, if_pos (hak ▸ mem_cons_self)]
      · rw [if_neg hk, if_neg hak, if_neg]
        rw [mem_cons, not_or]
        exact ⟨hak, hk⟩

/-! ### The inventory -/

variable {β : Type} (R : Reader β) (w : World β)

def covered (k : String) : Bool := retainedProfileIds.any fun p => inPrefix p k

/-- The sizes of the objects of the retained profiles. -/
def sizes (k : String) : Option ℤ :=
  if covered k then (w.remote.get k).map fun b => (R.size b : ℤ) else none

variable {R w}

variable {k : String}

theorem covered_iff : covered k = true ↔ ∃ p ∈ retainedProfileIds, inPrefix p k = true :=
  any_eq_true

variable {p : String}

theorem covered_remoteKey (hp : p ∈ retainedProfileIds) : covered (remoteKey p i) = true :=
  covered_iff.2 ⟨p, hp, Protection.inPrefix_remoteKey p i⟩

theorem sizes_eq_some {v : ℤ} : sizes R w k = some v ↔
    ∃ p ∈ retainedProfileIds, inPrefix p k = true ∧ ∃ b, w.remote.get k = some b ∧
      v = R.size b := by
  rw [sizes]
  by_cases hk : covered k = true
  · obtain ⟨p, hp, hpre⟩ := covered_iff.1 hk
    rw [if_pos hk, Option.map_eq_some_iff]
    constructor
    · rintro ⟨b, hb, rfl⟩
      exact ⟨p, hp, hpre, b, hb, rfl⟩
    · rintro ⟨_, _, _, b, hb, rfl⟩
      exact ⟨b, hb, rfl⟩
  · rw [if_neg hk]
    refine ⟨fun h => (by cases h), ?_⟩
    rintro ⟨p, hp, hpre, _⟩
    exact absurd (covered_iff.2 ⟨p, hp, hpre⟩) hk

theorem sizes_remoteKey (hp : p ∈ retainedProfileIds) :
    sizes R w (remoteKey p i) = (w.remote.get (remoteKey p i)).map fun b => (R.size b : ℤ) :=
  if_pos (covered_remoteKey i hp)

variable {inventory : Store ℤ} {o : String × β}

theorem inventoryObject_ok {i : String} (hi : isGeneration i = true) (hkey : o.1 = remoteKey p i)
    (hsize : (R.size o.2 : ℤ) ≤ maxStagedBytes) (hnew : inventory.get o.1 = none) :
    inventoryObject R p inventory o = .ok (inventory.put o.1 (R.size o.2)) := by
  rw [inventoryObject, hkey, remoteBackupId_remoteKey p hi]
  rw [hkey] at hnew
  simp only [hi, not_true_eq_false, ne_eq, or_self, if_false, not_lt.2 hsize, hnew,
    Option.isSome_none, Bool.false_eq_true]

theorem size_le_of_inventoryObject {inventory' : Store ℤ}
    (h : inventoryObject R p inventory o = .ok inventory') : (R.size o.2 : ℤ) ≤ maxStagedBytes := by
  rw [inventoryObject] at h
  split at h
  · cases h
  · split at h
    · cases h
    · rename_i hsize
      exact not_lt.1 hsize

theorem inventory_profile (hcanonical : Canonical w) (hp : p ∈ retainedProfileIds)
    (hsize : ∀ o ∈ w.remote.under (profilePrefix p ++ "/"), (R.size o.2 : ℤ) ≤ maxStagedBytes)
      (hnew : ∀ k, inPrefix p k = true → inventory.get k = none) :
    ∃ inventory', (w.remote.under (profilePrefix p ++ "/")).foldlM (inventoryObject R p)
      inventory = .ok inventory' ∧ ∀ k v, inventory'.get k = some v ↔
        inventory.get k = some v ∨ ∃ b, (k, b) ∈ w.remote.under (profilePrefix p ++ "/") ∧
          v = R.size b := by
  refine foldlM_ok (I := fun done (t : Store ℤ) => ∀ k v, t.get k = some v ↔
    inventory.get k = some v ∨ ∃ b, (k, b) ∈ done ∧ v = R.size b) ?_ (by simp)
  rintro done ⟨k, b⟩ rest t hl hI
  have hmem : (k, b) ∈ w.remote.under (profilePrefix p ++ "/") := by simp [hl]
  obtain ⟨hget, hpre⟩ := Store.mem_under.1 hmem
  obtain ⟨i, hi, hkey⟩ := hcanonical p hp k b hget hpre
  -- each key is listed once
  have honce : ((w.remote.under (profilePrefix p ++ "/")).map Prod.fst).Nodup :=
    w.remote.unique.sublist (filter_sublist.map _)
  have hnot : ∀ b', (k, b') ∉ done := by
    intro b' hb'
    rw [hl, map_append, map_cons] at honce
    exact (nodup_cons.1 (nodup_middle.1 honce)).1
      (mem_append_left _ (mem_map.2 ⟨(k, b'), hb', rfl⟩))
  have hnone : t.get k = none := by
    rw [Option.eq_none_iff_forall_ne_some]
    intro v hv
    rcases (hI k v).1 hv with hold | ⟨b', hb', _⟩
    · rw [hnew k hpre] at hold
      cases hold
    · exact hnot b' hb'
  refine ⟨_, inventoryObject_ok hi hkey (hsize _ hmem) hnone, ?_⟩
  intro k' v
  rw [Store.get_put]
  by_cases hk : k' = k
  · subst hk
    rw [if_pos rfl, hnew k' hpre]
    simp [hnot, eq_comm]
  · rw [if_neg hk, hI]
    simp [hk]

/-- **The inventory is the sizes of the objects**, when none is too large. -/
theorem fixedInventory_eq (hcanonical : Canonical w)
    (hsize : ∀ k v, sizes R w k = some v → v ≤ maxStagedBytes) :
    ∃ inventory, fixedInventory R w = .ok inventory ∧ ∀ k, inventory.get k = sizes R w k := by
  have hloop : ∃ inventory, fixedInventory R w = .ok inventory ∧
      ∀ k v, inventory.get k = some v ↔ ∃ p ∈ retainedProfileIds, ∃ b,
        (k, b) ∈ w.remote.under (profilePrefix p ++ "/") ∧ v = R.size b := by
    refine foldlM_ok (I := fun done (t : Store ℤ) => ∀ k v, t.get k = some v ↔
      ∃ p ∈ done, ∃ b, (k, b) ∈ w.remote.under (profilePrefix p ++ "/") ∧ v = R.size b) ?_
      (by simp [Store.empty, Store.get])
    intro done p rest t hl hI
    have hp : p ∈ retainedProfileIds := by simp [hl]
    have hnew : ∀ k, inPrefix p k = true → t.get k = none := by
      intro k hk
      rw [Option.eq_none_iff_forall_ne_some]
      intro v hv
      obtain ⟨q, hq, b, hb, _⟩ := (hI k v).1 hv
      have hne : p ≠ q := by
        rintro rfl
        have honce : retainedProfileIds.Nodup := by decide
        rw [hl] at honce
        exact (nodup_cons.1 (nodup_middle.1 honce)).1 (mem_append_left _ hq)
      exact hne (eq_of_inPrefix hp (by simp [hl, hq]) hk (Store.mem_under.1 hb).2)
    obtain ⟨t', hok, ht'⟩ := inventory_profile hcanonical hp (fun o ho => by
      obtain ⟨hget, hpre⟩ := Store.mem_under.1 ho
      exact hsize o.1 _ (sizes_eq_some.2 ⟨p, hp, hpre, o.2, hget, rfl⟩)) hnew
    refine ⟨t', hok, fun k v => ?_⟩
    rw [ht', hI]
    simp [or_and_right, exists_or]
  obtain ⟨inventory, hok, hinventory⟩ := hloop
  refine ⟨inventory, hok, fun k => Option.ext fun v => ?_⟩
  rw [hinventory, sizes_eq_some]
  simp only [Store.mem_under]
  constructor
  · rintro ⟨p, hp, b, ⟨hget, hpre⟩, hv⟩
    exact ⟨p, hp, hpre, b, hget, hv⟩
  · rintro ⟨p, hp, hpre, b, hget, hv⟩
    exact ⟨p, hp, b, ⟨hget, hpre⟩, hv⟩

theorem sizes_le (h : fixedInventory R w = .ok inventory)
    {v : ℤ} (hv : sizes R w k = some v) : v ≤ maxStagedBytes := by
  obtain ⟨p, hp, hpre, b, hget, rfl⟩ := sizes_eq_some.1 hv
  have hprofile := forall_of_foldlM (P := fun p =>
    ∀ o ∈ w.remote.under (profilePrefix p ++ "/"), (R.size o.2 : ℤ) ≤ maxStagedBytes)
    (fun p _ t t' ht => forall_of_foldlM (fun o _ _ _ ho => size_le_of_inventoryObject ho) ht) h
  exact hprofile p hp (k, b) (Store.mem_under.2 ⟨hget, hpre⟩)

/-! ### The rows -/

/-- Every older generation with an object is flagged as protected. -/
def OlderProtected (w : World β) : Prop :=
  ∀ c ∈ w.catalog.rows, c.id ∉ w.retained c.profileId → (w.object c).isSome → c.isProtected = true

/-- No archive that is stored or has to be stored is larger than the limit. -/
def Bounded (w : World β) : Prop :=
  ∀ c ∈ w.catalog.rows, c.id ∈ w.retained c.profileId ∨ (w.object c).isSome →
    c.sizeBytes ≤ maxStagedBytes

theorem refuseWhen_eq_ok {condition : Bool} {message : String} :
    refuseWhen condition message = .ok () ↔ condition = false := by
  cases condition <;> simp [refuseWhen]

variable {c : CatalogRow}

theorem catalog_find (hc : c ∈ w.catalog.rows) : w.catalog.find c.id = some c :=
  Sqlite.Table.find_of_mem hc

theorem joined_of_mem (hc : c ∈ w.catalog.rows) {r : Row}
    (hr : w.protections.find c.id = some r) : joined w c.profileId c.id = some (c, r) := by
  rw [joined, catalog_find hc, hr]
  exact if_pos rfl

theorem Grounded.archiveSize_eq (h : Grounded R w) (hc : c ∈ w.catalog.rows) :
    archiveSize (generationOf R w c) = c.sizeBytes := by
  obtain ⟨b, hb, hsize, _⟩ := h.archived c hc
  rw [archiveSize, generationOf, hb]
  exact hsize

variable [DecidableEq β]

/-- **The rows pass** exactly when the older generations with an object are protected. -/
theorem Sound.checkRows_iff (h : Sound R w) {plan : Plan} (hplan : PlanOf R w plan) :
    checkRows plan w = .ok () ↔ OlderProtected w := by
  have hreplacements : plan.replacementCandidates.any (replacementRowChanged w) = false := by
    rw [any_eq_false]
    intro it hit
    obtain ⟨c, hc, hretained, hobject, rfl⟩ := (hplan.replacements it).1 hit
    have hprotected : c.isProtected = true := by
      by_contra hflag
      have hkept := ((h.planned _ (h.scope c hc).1).kept c hc rfl hretained).2
        (Bool.not_eq_true _ ▸ hflag)
      rw [hobject] at hkept
      cases hkept.1
    simp [replacementRowChanged, replacementOf, catalog_find hc, h.archiveSize_eq hc,
      h.verified c hc, hprotected]
  have hpruned : plan.prunedProtectionCorrections.any (prunedRowChanged w plan) = false := by
    rw [any_eq_false]
    intro it hit
    obtain ⟨c, hc, hold, hobject, hany, rfl⟩ := (hplan.pruned it).1 hit
    obtain ⟨r, hr, hstate⟩ := (Option.any_eq_true _ _).1 hany
    obtain ⟨_, _, hkey, hsha, _, hproven⟩ := h.row hc hr
    have hflag : c.isProtected = true → plan.protectedFlagCorrections.any (fun it =>
        it.profileId = c.profileId ∧ it.backupId = c.id ∧ ¬ it.targetProtected) = true := by
      intro hflag
      refine any_eq_true.2 ⟨⟨c.profileId, c.id, false⟩, ?_, by simp⟩
      refine (hplan.corrections _).2 ⟨c, hc, ?_, ?_⟩
      · simp [hflag, hold]
      · simp [hold]
    simp only [prunedRowChanged, prunedOf, joined_of_mem hc hr, Option.any_some]
    simpa [h.verified c hc, hkey, hsha, hproven (by simpa using hstate)] using hflag
  have hkeys : (decide ((plan.pruneCandidates.map PruneCandidate.remoteKey).any (· = "") ∨
      ¬ (plan.pruneCandidates.map PruneCandidate.remoteKey).Nodup)) = false := by
    rw [decide_eq_false_iff_not, not_or, not_not, Bool.not_eq_true, any_eq_false]
    refine ⟨?_, hplan.candidatesOnce⟩
    intro k hk
    obtain ⟨it, hit, rfl⟩ := mem_map.1 hk
    rcases (hplan.candidates it).1 hit with ⟨p, _, i, b, _, _, _, rfl⟩ | ⟨c, _, _, _, rfl⟩
    · exact decide_eq_true_iff.not.2 (remoteKey_ne_empty p i)
    · exact decide_eq_true_iff.not.2 (remoteKey_ne_empty c.profileId c.id)
  have hcandidates : plan.pruneCandidates.any (pruneRowChanged w) = false ↔ OlderProtected w := by
    rw [any_eq_false]
    constructor
    · intro hall c hc hold hobject
      have hit := hall _ ((hplan.candidates _).2 (.inr ⟨c, hc, hold, hobject, rfl⟩))
      obtain ⟨r, hr, _⟩ := (h.planned _ (h.scope c hc).1).older c hc rfl hold hobject
      simp only [pruneRowChanged, pruneOf, joined_of_mem hc hr, Option.any_some] at hit
      by_contra hflag
      simp [hflag] at hit
    · intro hall it hit
      rcases (hplan.candidates it).1 hit with ⟨p, _, i, b, _, _, _, rfl⟩ |
        ⟨c, hc, hold, hobject, rfl⟩
      · simp [pruneRowChanged, orphanOf]
      · obtain ⟨r, hr, hstate⟩ := (h.planned _ (h.scope c hc).1).older c hc rfl hold hobject
        obtain ⟨_, _, hkey, hsha, _, hproven⟩ := h.row hc hr
        simp [pruneRowChanged, pruneOf, joined_of_mem hc hr, h.archiveSize_eq hc,
          h.verified c hc, hkey, hsha, hproven hstate, hall c hc hold hobject]
  rw [checkRows, hreplacements, hpruned]
  simp only [hkeys]
  exact refuseWhen_eq_ok.trans hcandidates

end Horizon.Reconcile
