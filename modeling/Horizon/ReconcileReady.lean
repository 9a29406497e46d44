/-
**Plans that are ready.**

What the planner finds in a world whose rows, archives and objects describe each other, and which
refusals are left then.

Main results:

* `Reconcile.sound_of_ready` — **a plan that is ready comes from a sound world**;
* `Reconcile.Sound.planOf` — **a sound world has a plan that is ready**, with exactly the imports,
  corrections, prunes and replacements that the world calls for.
-/

import Horizon.ReconcileSound

namespace Horizon.Reconcile

open List.Nodup (of_map)
open RemoteGeneration (key)
open List
open ObjectStore (Store)
open Protection (Reader Row isSha256 isGeneration profilePrefix remoteKey)

variable {β : Type} {b : β} {x : Index} {text : String}

/-! ### What is refused -/

theorem refuseIf_eq_nil {condition : Bool} : refuseIf condition text = [] ↔ condition = false := by
  rw [refuseIf]
  cases condition <;> simp

theorem outOfScope_eq_none {unknown invalid : String} {key : String × String} :
    outOfScope unknown invalid key = none ↔
      key.1 ∈ retainedProfileIds ∧ isGeneration key.2 = true := by
  rw [outOfScope]
  by_cases hknown : key.1 ∈ retainedProfileIds
  · by_cases hvalid : isGeneration key.2 = true
    · simp [hknown, hvalid]
    · simp [hknown, hvalid]
  · simp [hknown]

theorem sorted_eq_nil {l : List String} : l.dedup.insertionSort (· ≤ ·) = [] ↔ l = [] := by
  rw [← length_eq_zero_iff, length_insertionSort, length_eq_zero_iff,
    dedup_eq_nil]

theorem reconcile_ready {e : Evidence} : (reconcile e).ready = true ↔
    (indexEvidence e).2 = [] ∧ evidenceRefusals (indexEvidence e).1 = [] ∧
      ∀ p ∈ retainedProfileIds, (profileFindings (indexEvidence e).1 p).refusals = [] := by
  have hsplit : (indexEvidence e).2 = [] ∧ evidenceRefusals (indexEvidence e).1 = [] ∧
      (∀ p ∈ retainedProfileIds, (profileFindings (indexEvidence e).1 p).refusals = []) ↔
      (indexEvidence e).2 ++ evidenceRefusals (indexEvidence e).1 ++
        (Findings.sum retainedProfileIds (profileFindings (indexEvidence e).1)).refusals = [] := by
    rw [append_eq_nil_iff, append_eq_nil_iff, and_assoc, Findings.sum, flatMap_eq_nil_iff]
  rw [hsplit, Plan.ready, reconcile]
  split
  · rw [List.isEmpty_iff, sorted_eq_nil]
  · simp_all

/-! ### Worlds that are grounded -/

variable {R : Reader β} {w : World β} {c : CatalogRow} {p i : String} {r : Row}

theorem sha256_ne_empty (R : Reader β) (b : β) : R.sha256 b ≠ "" := by
  intro hempty
  have hhex := R.sha256_hex b
  rw [hempty] at hhex
  exact absurd hhex (by decide)

theorem mem_retained (h : i ∈ w.retained p) : w.Catalogued p i := by
  have hmem := (mem_insertionSort _).1 (mem_of_mem_take h)
  obtain ⟨c, hc, hid⟩ := mem_map.1 hmem
  rw [mem_filter, decide_eq_true_eq] at hc
  exact ⟨c, hc.1, hc.2, hid⟩

theorem exists_catalogued {P : String → Prop} : (∃ i, w.Catalogued p i ∧ P i) ↔
    ∃ c ∈ w.catalog.rows, c.profileId = p ∧ P c.id := by
  simp [World.Catalogued, and_assoc]

theorem nodup_rowKeys (q : Row → Bool) : ((w.protections.rows.filter q).map rowKey).Nodup := by
  refine of_map Prod.snd ?_
  rw [map_map]
  exact w.protections.ids.sublist (filter_sublist.map _)

theorem nodup_local : ((w.catalog.rows.filter fun c => c.profileId = p).map CatalogRow.id).Nodup :=
  w.catalog.unique.sublist (filter_sublist.map _)

theorem nodup_retained : (w.retained p).Nodup :=
  ((perm_insertionSort _ _).nodup_iff.2 nodup_local).sublist (take_sublist _ _)

theorem archived_of_catalogRefusals (h : catalogRefusals (generationOf R w c) = []) :
    c.verified = true ∧ ∃ b, w.archives c.profileId c.id = some b ∧
      (R.size b : ℤ) = c.sizeBytes := by
  rw [catalogRefusals, append_eq_nil_iff, append_eq_nil_iff, refuseIf_eq_nil,
    refuseIf_eq_nil, refuseIf_eq_nil] at h
  obtain ⟨⟨hsize, hmeta⟩, hverified⟩ := h
  refine ⟨by simpa [generationOf] using hverified, ?_⟩
  have hequal : (localArchiveMetadata R (w.archives c.profileId c.id)).1 = c.sizeBytes :=
    not_not.1 (of_decide_eq_false hsize)
  rw [decide_eq_false_iff_not, not_or, not_lt] at hmeta
  cases hfile : w.archives c.profileId c.id with
  | none =>
    -- a missing archive has size -1
    rw [hfile] at hequal
    have hneg : -1 = c.sizeBytes := hequal
    have hpos : 0 ≤ c.sizeBytes := hmeta.1
    omega
  | some b =>
    rw [hfile] at hequal
    exact ⟨b, rfl, hequal⟩

theorem archived_of_sha
    (harchived : ∃ b, w.archives c.profileId c.id = some b ∧ (R.size b : ℤ) = c.sizeBytes)
    (h : text = (generationOf R w c).sha256) :
    ∃ b, w.archives c.profileId c.id = some b ∧ text = R.sha256 b := by
  obtain ⟨b, hb, _⟩ := harchived
  refine ⟨b, hb, ?_⟩
  rw [h, generationOf, hb]
  rfl

namespace Grounded

variable (h : Grounded R w)

include h

theorem attached : Attached w := by
  intro r hr
  obtain ⟨c, hc, hid, hprofile, _⟩ := h.described r hr
  exact ⟨c, hc, hid, hprofile⟩

theorem canonical : Canonical w := by
  intro p hp k b hget hpre
  obtain ⟨i, hi, hk, _⟩ := h.objects p hp k b hget hpre
  exact ⟨i, hi, hk⟩

theorem stored (hp : p ∈ retainedProfileIds) (hi : isGeneration i = true)
    (hget : w.remote.get (remoteKey p i) = some b) :
    (w.Catalogued p i ∧ w.archives p i = some b) ∨ Foreign R w p i b := by
  obtain ⟨j, hj, hkey, hcases⟩ := h.objects p hp _ b hget (Protection.inPrefix_remoteKey p i)
  obtain ⟨_, rfl⟩ := remoteKey_inj hp hp hi hj hkey
  exact hcases

theorem owned (hc : c ∈ w.catalog.rows) (hobject : w.object c = some b) :
    w.archives c.profileId c.id = some b := by
  obtain ⟨hp, hi⟩ := h.scope c hc
  rcases h.stored hp hi hobject with hcatalogued | hforeign
  · exact hcatalogued.2
  · exact absurd ⟨c, hc, rfl, rfl⟩ hforeign.unknown

theorem row (hc : c ∈ w.catalog.rows) (hr : w.protections.find c.id = some r) :
    r.profileId = c.profileId ∧ r.backupId = c.id ∧ r.remoteKey = remoteKey c.profileId c.id ∧
      r.localSha256 = (generationOf R w c).sha256 ∧ verificationRecorded r = true ∧
      (r.pruneState ≠ .deleted → verificationProven r = true) := by
  have hmem := mem_of_find?_eq_some hr
  have hid : r.backupId = c.id := by simpa using find?_some hr
  obtain ⟨c', hc', hid', hprofile, hkey, b, hb, hsha⟩ := h.described r hmem
  obtain ⟨hrecorded, hstate⟩ := h.recorded r hmem
  obtain rfl := inj_on_of_nodup_map w.catalog.unique hc' hc (hid'.trans hid)
  refine ⟨hprofile.symm, hid, hkey, ?_, hrecorded, ?_⟩
  · rw [hsha, generationOf, hb]
    rfl
  · intro hne
    rw [verificationProven, decide_eq_true_eq]
    refine ⟨hrecorded, ?_⟩
    rcases hstate with hstate | hstate | hstate
    · simp [hstate]
    · simp [hstate]
    · exact absurd hstate hne

theorem source (hr : r ∈ w.protections.rows) :
    ∃ c ∈ w.catalog.rows, w.protections.find c.id = some r := by
  obtain ⟨c, hc, hid, _⟩ := h.described r hr
  exact ⟨c, hc, hid ▸ find_of_mem hr⟩

theorem capturable : Capturable R w where
  scope := by
    rw [scopeExact, Bool.and_eq_true, all_eq_true, all_eq_true]
    refine ⟨fun c hc => decide_eq_true (h.scope c hc).1, fun r hr => decide_eq_true ?_⟩
    obtain ⟨c, hc, _, hprofile, _⟩ := h.described r hr
    exact hprofile ▸ (h.scope c hc).1
  archives := by
    intro c hc b hb
    obtain ⟨b', hb', _, hid⟩ := h.archived c hc
    rw [hb] at hb'
    cases hb'
    exact hid
  objects := by
    intro p hp k b hget hpre hnot
    obtain ⟨i, hi, rfl, hcases⟩ := h.objects p hp k b hget hpre
    rw [remoteBackupId_remoteKey p hi] at hnot ⊢
    rcases hcases with hcatalogued | hforeign
    · exact absurd hcatalogued.1 hnot
    · exact ⟨hforeign.identified, hforeign.staged.elim (fun hnone => .inr ⟨hnone, hforeign.size⟩)
        .inl⟩

/-- The generations of all profiles are those of the catalog. -/
theorem exists_profile {P : String → CatalogRow → Prop} :
    (∃ p ∈ retainedProfileIds, ∃ c ∈ w.catalog.rows, c.profileId = p ∧ P p c) ↔
      ∃ c ∈ w.catalog.rows, P c.profileId c := by
  constructor
  · rintro ⟨p, _, c, hc, rfl, hP⟩
    exact ⟨c, hc, hP⟩
  · rintro ⟨c, hc, hP⟩
    exact ⟨c.profileId, (h.scope c hc).1, c, hc, rfl, hP⟩

end Grounded

/-! ### What is indexed and accepted -/

variable [DecidableEq β]

/-- A world that no index refuses has the index that one would expect. -/
theorem index_of_nil (h : (indexEvidence (evidenceOf R w)).2 = []) :
    (indexEvidence (evidenceOf R w)).1 = indexOf R w ∧
      (∀ c ∈ w.catalog.rows, c.profileId ∈ retainedProfileIds ∧ isGeneration c.id = true) ∧
      ∀ r ∈ (evidenceOf R w).remote, isGeneration r.backupId = true := by
  rw [indexEvidence, append_eq_nil_iff, append_eq_nil_iff, append_eq_nil_iff] at h
  obtain ⟨⟨⟨hdeleted, hcatalog⟩, hprotections⟩, hremote⟩ := h
  obtain ⟨_, hdeleted⟩ := collect_of_nil hdeleted
  obtain ⟨hscope, hcatalog⟩ := collect_of_nil hcatalog
  obtain ⟨_, hprotections⟩ := collect_of_nil hprotections
  obtain ⟨hvalid, hremote⟩ := collect_of_nil hremote
  have hcatalogs : (indexCatalog (evidenceOf R w).catalog).1 = (evidenceOf R w).catalog :=
    hcatalog.trans (by simp)
  have hremotes : (indexRemote (evidenceOf R w).remote).1 = (evidenceOf R w).remote :=
    hremote.trans (by simp)
  have hactive : (indexProtections (evidenceOf R w).protections).1 =
      (indexOf R w).protections :=
    hprotections.trans (by simp [indexOf, evidenceOf])
  have hgone : (indexDeleted (evidenceOf R w).protections).1 = (indexOf R w).deleted :=
    hdeleted.trans (by simp [indexOf, evidenceOf])
  refine ⟨?_, ?_, fun r hr => (outOfScope_eq_none.1 (hvalid r hr)).2⟩
  · rw [indexEvidence, hcatalogs, hremotes, hactive, hgone]
    rfl
  · intro c hc
    exact outOfScope_eq_none.1 (hscope _ (mem_map_of_mem hc))

/-- The objects and the key of a generation agree when the evidence of the object is accepted. -/
theorem key_of_remoteRefusals {r : RemoteGeneration} (h : remoteRefusals (indexOf R w) r = []) :
    r.remoteKey = remoteKey r.profileId r.backupId := by
  rw [remoteRefusals] at h
  split at h
  · rw [refuseIf_eq_nil, decide_eq_false_iff_not, not_not, isOrphan, decide_eq_true_eq] at h
    exact h.2.1
  · rw [refuseIf_eq_nil, decide_eq_false_iff_not, not_or, not_not] at h
    exact h.1

theorem canonical_of_accepted
    (hvalid : ∀ r ∈ (evidenceOf R w).remote, isGeneration r.backupId = true)
    (hremote : ∀ r ∈ (evidenceOf R w).remote, remoteRefusals (indexOf R w) r = []) :
    Canonical w := by
  intro p hp k b hget hpre
  have hmem : objectOf R w p (k, b) ∈ (evidenceOf R w).remote :=
    mem_evidence_remote.2 ⟨p, hp, k, b, hget, hpre, rfl⟩
  have hkey := key_of_remoteRefusals (hremote _ hmem)
  have hpair := objectOf_key (R := R) (w := w) p (k, b)
  rw [key, Prod.mk.injEq] at hpair
  rw [objectOf_remoteKey, hpair.1, hpair.2] at hkey
  refine ⟨remoteBackupId p k, ?_, hkey⟩
  have := hvalid _ hmem
  rwa [hpair.2] at this

theorem described_of_accepted
    (harchived : ∀ c ∈ w.catalog.rows, ∃ b, w.archives c.profileId c.id = some b ∧
      (R.size b : ℤ) = c.sizeBytes)
    (hactive : ∀ r ∈ (indexOf R w).protections, protectionRefusals (indexOf R w) r = [])
    (hdeleted : ∀ r ∈ (indexOf R w).deleted, deletedRefusals (indexOf R w) r = [])
    (hr : r ∈ w.protections.rows) :
    (∃ c ∈ w.catalog.rows, c.id = r.backupId ∧ c.profileId = r.profileId ∧
      r.remoteKey = remoteKey c.profileId c.id ∧
      ∃ b, w.archives c.profileId c.id = some b ∧ r.localSha256 = R.sha256 b) ∧
    verificationRecorded r = true ∧
      (r.pruneState = .notStarted ∨ r.pruneState = .succeeded ∨ r.pruneState = .deleted) := by
  by_cases hstate : r.pruneState = .deleted
  · have h := hdeleted r (mem_filter.2 ⟨hr, decide_eq_true hstate⟩)
    rw [deletedRefusals, append_eq_nil_iff, refuseIf_eq_nil, refuseIf_eq_nil] at h
    rcases catalog_cases (R := R) r.profileId r.backupId with
      ⟨_, hnone⟩ | ⟨c, hc, hprofile, hid, hsome⟩
    · rw [rowKey, hnone] at h
      cases h.1
    · rw [rowKey, hsome] at h
      simp only [Option.any_some, decide_eq_false_iff_not, not_not, deletedProtectionProvesPrune,
        describes, decide_eq_true_eq] at h
      obtain ⟨_, _, _, ⟨hkey, hsha⟩, hrecorded, _⟩ := h
      exact ⟨⟨c, hc, hid, hprofile, hkey, archived_of_sha (harchived c hc) hsha⟩, hrecorded,
        .inr (.inr hstate)⟩
  · have h := hactive r (mem_filter.2 ⟨hr, decide_eq_true hstate⟩)
    rw [protectionRefusals] at h
    rcases catalog_cases (R := R) r.profileId r.backupId with
      ⟨_, hnone⟩ | ⟨c, hc, hprofile, hid, hsome⟩
    · rw [rowKey, hnone] at h
      cases h
    · rw [rowKey, hsome] at h
      simp only [append_eq_nil_iff, refuseIf_eq_nil, decide_eq_false_iff_not, not_not,
        verificationProven, decide_eq_true_eq, mem_cons, not_mem_nil, or_false] at h
      obtain ⟨⟨⟨hkey, hsha⟩, hrecorded, hprune⟩, _⟩ := h
      refine ⟨⟨c, hc, hid, hprofile, by rw [hprofile, hid]; exact hkey,
        archived_of_sha (harchived c hc) hsha⟩, hrecorded, ?_⟩
      rcases hprune with hprune | hprune
      · exact .inl hprune
      · exact .inr (.inl hprune)

theorem objectOf_known (hc : c ∈ w.catalog.rows) (hi : isGeneration c.id = true) (b : β) :
    objectOf R w c.profileId (remoteKey c.profileId c.id, b) =
      knownObject R w (generationOf R w c) c.profileId (remoteKey c.profileId c.id, b) := by
  have hfind := catalog_of_mem (R := R) hc
  rw [Index.catalog, indexOf] at hfind
  rw [objectOf, remoteBackupId_remoteKey c.profileId hi, hfind]

theorem objectOf_unknown (hi : isGeneration i = true) (h : ¬ w.Catalogued p i)
    (b : β) : ∃ method ∈ [VerificationMethod.manifest, .manifestCryptcheck],
      objectOf R w p (remoteKey p i, b) = provenObject R p (remoteKey p i, b) method b := by
  have hfind := find_generation (R := R).2 h
  rw [objectOf, remoteBackupId_remoteKey p hi, hfind]
  refine ⟨_, ?_, rfl⟩
  split
  · simp
  · simp

theorem grounded_of_accepted (hcap : Capturable R w)
    (hscope : ∀ c ∈ w.catalog.rows, c.profileId ∈ retainedProfileIds ∧ isGeneration c.id = true)
    (hvalid : ∀ r ∈ (evidenceOf R w).remote, isGeneration r.backupId = true)
    (hevidence : evidenceRefusals (indexOf R w) = []) : Grounded R w := by
  simp only [evidenceRefusals, append_eq_nil_iff, flatMap_eq_nil_iff] at hevidence
  obtain ⟨⟨⟨hcatalog, hremote⟩, hactive⟩, hdeleted⟩ := hevidence
  have harchived := fun c hc => archived_of_catalogRefusals (R := R) (c := c)
    (hcatalog _ (mem_map_of_mem hc))
  have hdescribed := fun r hr => described_of_accepted (fun c hc => (harchived c hc).2) hactive
    hdeleted (r := r) hr
  refine {
    scope := hscope
    verified := fun c hc => (harchived c hc).1
    archived := ?_
    described := fun r hr => (hdescribed r hr).1
    recorded := fun r hr => (hdescribed r hr).2
    objects := ?_ }
  · intro c hc
    obtain ⟨b, hb, hsize⟩ := (harchived c hc).2
    exact ⟨b, hb, hsize, hcap.archives c hc b hb⟩
  · intro p hp k b hget hpre
    obtain ⟨i, hi, rfl⟩ := canonical_of_accepted hvalid hremote p hp k b hget hpre
    refine ⟨i, hi, rfl, ?_⟩
    have hnil := hremote _ (mem_evidence_remote.2 ⟨p, hp, _, b, hget, hpre, rfl⟩)
    rw [remoteRefusals, objectOf_key, remoteBackupId_remoteKey p hi] at hnil
    rcases catalog_cases (R := R) p i with ⟨hnot, hnone⟩ | ⟨c, hc, rfl, rfl, hsome⟩
    · right
      rw [hnone] at hnil
      rw [refuseIf_eq_nil, decide_eq_false_iff_not, not_not, isOrphan, decide_eq_true_eq,
        objectOf_sizeBytes] at hnil
      have hobject := hcap.objects p hp (remoteKey p i) b hget hpre
      rw [remoteBackupId_remoteKey p hi] at hobject
      obtain ⟨hid, hstaged⟩ := hobject hnot
      exact ⟨hnot, hnil.2.2.2.1, hid, hstaged.elim .inr fun h => .inl h.1⟩
    · left
      refine ⟨⟨c, hc, rfl, rfl⟩, ?_⟩
      rw [hsome] at hnil
      simp only [refuseIf_eq_nil, decide_eq_false_iff_not, not_or, not_not,
        objectOf_known hc hi] at hnil
      -- an object that differs from the archive has no digest
      have hsha := hnil.2.2.2.2.1
      rw [knownObject] at hsha
      by_contra hne
      rw [remoteBackupId_remoteKey c.profileId hi, if_neg fun hchecked => hne hchecked.2] at hsha
      exact absurd hsha (show ¬ isSha256 "" = true by decide)

/-! ### What is found in a grounded world -/

/-- A row that is not deleted and a stored object prove a generation. -/
theorem Grounded.proves (h : Grounded R w) (hc : c ∈ w.catalog.rows)
    (hr : w.protections.find c.id = some r) (hstate : r.pruneState ≠ .deleted)
    (hobject : w.object c = some b) :
    protectionProvesCryptcheck (some r) (generationOf R w c)
      (objectOf R w c.profileId (remoteKey c.profileId c.id, b)) = true := by
  obtain ⟨_, hi⟩ := h.scope c hc
  obtain ⟨_, _, hkey, hsha, _, hproven⟩ := h.row hc hr
  have howned := h.owned hc hobject
  have hchecked : ((R.size b : ℕ) : ℤ) = archiveSize (generationOf R w c) ∧
      w.archives c.profileId c.id = some b := by
    refine ⟨?_, howned⟩
    rw [archiveSize, generationOf, howned]
    rfl
  rw [objectOf_known hc hi, knownObject, remoteBackupId_remoteKey c.profileId hi]
  simp only [protectionProvesCryptcheck, Option.any_some, decide_eq_true_eq, describes]
  refine ⟨⟨hkey, hsha⟩, hproven hstate, rfl, hchecked.1, if_pos hchecked, ?_⟩
  rw [if_pos hchecked]
  simp

variable (R w)

def importOf (c : CatalogRow) : ImportProtection :=
  ⟨c.profileId, c.id, archiveSize (generationOf R w c), (generationOf R w c).sha256,
    remoteKey c.profileId c.id⟩

def replacementOf (c : CatalogRow) : ReplacementCandidate :=
  ⟨c.profileId, c.id, archiveSize (generationOf R w c), (generationOf R w c).sha256⟩

def pruneOf (c : CatalogRow) : PruneCandidate :=
  ⟨c.profileId, c.id, archiveSize (generationOf R w c), (generationOf R w c).sha256, .older,
    remoteKey c.profileId c.id⟩

/-- The correction of the row of a generation whose object is gone. -/
def prunedOf (c : CatalogRow) : PrunedProtectionCorrection :=
  ⟨c.profileId, c.id, remoteKey c.profileId c.id, (generationOf R w c).sha256⟩

/-- What is found about a retained generation of a sound world. -/
def keptFindings (c : CatalogRow) : Findings where
  imports := if (w.object c).isSome ∧ w.protections.find c.id = none then [importOf R w c] else []
  replacements := if w.object c = none then [replacementOf R w c] else []
  corrections := if c.isProtected then [] else [⟨c.profileId, c.id, true⟩]

/-- What is found about an older generation with an object. -/
def pruneFindings (c : CatalogRow) : Findings where
  candidates := [pruneOf R w c]
  corrections := if c.isProtected then [⟨c.profileId, c.id, false⟩] else []

/-- What is found about an older generation without an object. -/
def goneFindings (c : CatalogRow) : Findings where
  pruned := if ((w.protections.find c.id).any fun r => r.pruneState ≠ .deleted) then
    [prunedOf R w c] else []
  corrections := if c.isProtected then [⟨c.profileId, c.id, false⟩] else []

variable {R w}

theorem Findings.append_def (a b : Findings) : a ++ b = {
    imports := a.imports ++ b.imports
    corrections := a.corrections ++ b.corrections
    pruned := a.pruned ++ b.pruned
    candidates := a.candidates ++ b.candidates
    replacements := a.replacements ++ b.replacements
    refusals := a.refusals ++ b.refusals } := rfl

open Findings (append_def refuse)

theorem Grounded.retainedFindings_eq (h : Grounded R w) (hc : c ∈ w.catalog.rows) :
    ((retainedFindings (indexOf R w) c.profileId c.id).refusals = [] ↔ Kept w c) ∧
    (Kept w c → retainedFindings (indexOf R w) c.profileId c.id = keptFindings R w c) := by
  obtain ⟨hp, hi⟩ := h.scope c hc
  obtain ⟨b₀, hb₀, _⟩ := h.archived c hc
  rw [retainedFindings, catalog_of_mem hc]
  simp only [protection_eq h.attached hc, deletedProtection_eq h.attached hc,
    remote_eq h.canonical hp hi]
  have hsha : (generationOf R w c).sha256 ≠ "" := by
    rw [generationOf, hb₀]
    exact sha256_ne_empty R b₀
  have hsize : (generationOf R w c).archiveSizeBytes.any (fun n => decide (0 ≤ n)) = true := by
    rw [generationOf, hb₀]
    simp [localArchiveMetadata]
  have hflag : (generationOf R w c).isProtected = c.isProtected := rfl
  unfold Kept keptFindings World.object
  cases hobject : w.remote.get (remoteKey c.profileId c.id) with
  | none =>
    cases hfind : w.protections.find c.id with
    | none =>
      cases hprotected : c.isProtected with
      | true => simp [hflag, hprotected, hsha, hsize, replacementOf]
      | false => simp [hflag, hprotected, refuse]
    | some r =>
      by_cases hstate : r.pruneState = .deleted
      · simp [hstate, refuse]
      · cases hprotected : c.isProtected with
        | true => simp [hflag, hprotected, hsha, hsize, hstate, replacementOf]
        | false => simp [hflag, hprotected, hstate, refuse]
  | some b =>
    cases hfind : w.protections.find c.id with
    | none =>
      cases hprotected : c.isProtected with
      | true => simp [hflag, hprotected, append_def, importOf, objectOf_remoteKey]
      | false =>
        simp [hflag, hprotected, append_def, protectionProvesCryptcheck, refuse]
    | some r =>
      by_cases hstate : r.pruneState = .deleted
      · simp [hstate, Option.filter, append_def, refuse]
      · have hproves := h.proves hc hfind hstate hobject
        cases hprotected : c.isProtected <;>
          simp [hflag, hprotected, hstate, hproves, Option.filter, append_def, refuseIf]

theorem Grounded.olderRemoteFindings_eq (h : Grounded R w)
    (hc : c ∈ w.catalog.rows) (hobject : (w.object c).isSome) :
    ((olderRemoteFindings (indexOf R w) c.profileId c.id).refusals = [] ↔
      ∃ r, w.protections.find c.id = some r ∧ r.pruneState ≠ .deleted) ∧
    ((∃ r, w.protections.find c.id = some r ∧ r.pruneState ≠ .deleted) →
      olderRemoteFindings (indexOf R w) c.profileId c.id = pruneFindings R w c) := by
  obtain ⟨hp, hi⟩ := h.scope c hc
  obtain ⟨b, hb⟩ := Option.isSome_iff_exists.1 hobject
  have hget : w.remote.get (remoteKey c.profileId c.id) = some b := hb
  rw [olderRemoteFindings, catalog_of_mem hc]
  simp only [protection_eq h.attached hc, deletedProtection_eq h.attached hc,
    remote_eq h.canonical hp hi, hget, Option.map_some]
  have hflag : (generationOf R w c).isProtected = c.isProtected := rfl
  cases hfind : w.protections.find c.id with
  | none => simp [refuse, protectionProvesCryptcheck]
  | some r =>
    by_cases hstate : r.pruneState = .deleted
    · simp [hstate, Option.filter, refuse]
    · have hproves := h.proves hc hfind hstate hb
      simp [hstate, Option.filter, hproves, hflag, pruneFindings, pruneOf, objectOf_remoteKey]

theorem Grounded.olderLocalFindings_eq (h : Grounded R w) (hc : c ∈ w.catalog.rows) :
    olderLocalFindings (indexOf R w) c.profileId c.id = goneFindings R w c := by
  have hflag : (generationOf R w c).isProtected = c.isProtected := rfl
  rw [olderLocalFindings, catalog_of_mem hc, goneFindings]
  simp only [protection_eq h.attached hc, deletedProtection_eq h.attached hc]
  cases hfind : w.protections.find c.id with
  | none => simp [hflag, refuseIf]
  | some r =>
    obtain ⟨hprofile, hid, hkey, hsha, hrecorded, _⟩ := h.row hc hfind
    by_cases hstate : r.pruneState = .deleted
    · have hproves : deletedProtectionProvesPrune r (generationOf R w c) = true := by
        simp only [deletedProtectionProvesPrune, describes, decide_eq_true_eq]
        exact ⟨hprofile, hid, ⟨hkey, hsha⟩, hrecorded, hstate⟩
      simp [hstate, Option.filter, hflag, hproves, refuseIf]
    · simp [hstate, Option.filter, hflag, refuseIf, prunedOf, hkey]

variable (R) in
def orphanOf (p i : String) (b : β) : PruneCandidate :=
  ⟨p, i, R.size b, R.sha256 b, .orphan, remoteKey p i⟩

theorem objectOf_foreign (hi : isGeneration i = true) (hforeign : Foreign R w p i b) :
    isOrphan (indexOf R w) (objectOf R w p (remoteKey p i, b)) = true := by
  obtain ⟨method, hmethod, hobject⟩ := objectOf_unknown (R := R) hi hforeign.unknown b
  have hid := remoteBackupId_remoteKey p hi
  have hsize : (0 : ℤ) ≤ R.size b := Int.natCast_nonneg _
  rw [hobject, isOrphan, key]
  simp only [provenObject, hid, catalog_none hforeign.unknown, manifestProvesOrphan,
    Option.isNone_none, decide_eq_true_eq, true_and]
  exact ⟨hsize, hforeign.size, R.sha256_hex b, hmethod⟩

theorem Grounded.mem_orphans (h : Grounded R w) (hp : p ∈ retainedProfileIds)
    {r : RemoteGeneration} : r ∈ orphans (indexOf R w) p ↔
      ∃ i b, isGeneration i = true ∧ w.remote.get (remoteKey p i) = some b ∧
        Foreign R w p i b ∧ r = objectOf R w p (remoteKey p i, b) := by
  rw [orphans, mem_filter, decide_eq_true_eq]
  constructor
  · rintro ⟨hr, hprofile, horphan⟩
    obtain ⟨q, hq, k, b, hget, hpre, rfl⟩ := mem_evidence_remote.1 hr
    obtain ⟨i, hi, rfl, hcases⟩ := h.objects q hq k b hget hpre
    rw [objectOf_profileId] at hprofile
    subst hprofile
    rcases hcases with ⟨⟨c, hc, rfl, rfl⟩, _⟩ | hforeign
    · -- a generation of the catalog is no orphan
      rw [isOrphan, decide_eq_true_eq, objectOf_key, remoteBackupId_remoteKey _ hi,
        catalog_of_mem hc] at horphan
      cases horphan.1
    · exact ⟨i, b, hi, hget, hforeign, rfl⟩
  · rintro ⟨i, b, hi, hget, hforeign, rfl⟩
    exact ⟨mem_evidence_remote.2 ⟨p, hp, _, b, hget, Protection.inPrefix_remoteKey p i, rfl⟩,
      objectOf_profileId _ _, objectOf_foreign hi hforeign⟩

theorem orphanFindings_eq (hi : isGeneration i = true) (hforeign : Foreign R w p i b) :
    orphanFindings (indexOf R w) p (objectOf R w p (remoteKey p i, b)) =
      if KeyLe (oldest (w.retained p)) i then .refuse "remote orphan recency is ambiguous"
      else { candidates := [orphanOf R p i b] } := by
  obtain ⟨method, _, hobject⟩ := objectOf_unknown (R := R) hi hforeign.unknown b
  have hid := remoteBackupId_remoteKey p hi
  rw [orphanFindings, retained_eq, hobject]
  simp only [provenObject, hid, orphanOf]

/-! ### A ready plan comes from a sound world -/

theorem mem_localIds : i ∈ (indexOf R w).localIds p ↔ w.Catalogued p i := by
  rw [localIds_eq, mem_map]
  constructor
  · rintro ⟨c, hc, hid⟩
    rw [mem_filter, decide_eq_true_eq] at hc
    exact ⟨c, hc.1, hc.2, hid⟩
  · rintro ⟨c, hc, hprofile, hid⟩
    exact ⟨c, mem_filter.2 ⟨hc, decide_eq_true hprofile⟩, hid⟩

theorem mem_older : i ∈ (indexOf R w).older p ↔ w.Catalogued p i ∧ i ∉ w.retained p := by
  rw [Index.older, mem_insertionSort, mem_filter, decide_eq_true_eq, mem_localIds, retained_eq]

theorem generationFindings_refusals : (generationFindings x p).refusals = [] ↔
      (∀ r ∈ orphans x p, (orphanFindings x p r).refusals = []) ∧
      (∀ i ∈ x.retained p, (retainedFindings x p i).refusals = []) ∧
      (∀ i ∈ x.older p, i ∈ x.remoteIds p → (olderRemoteFindings x p i).refusals = []) ∧
      ∀ i ∈ x.older p, i ∉ x.remoteIds p → (olderLocalFindings x p i).refusals = [] := by
  simp only [generationFindings, Findings.append_def, Findings.sum, append_eq_nil_iff,
    flatMap_eq_nil_iff, mem_filter, decide_eq_true_eq, and_imp, and_assoc]

theorem profileFindings_refusals : (profileFindings x p).refusals = [] ↔
      (orphans x p).length ≤ maxRemoteOrphansPerProfile ∧
      (x.retained p = [] → x.remoteIds p = []) ∧
      (x.retained p ≠ [] → (generationFindings x p).refusals = [] ∧
        (finalIds x p (generationFindings x p) ⊆ x.retained p ∧
          x.retained p ⊆ finalIds x p (generationFindings x p)) ∧
        (finalIds x p (generationFindings x p)).length = min retention (x.localIds p).length) := by
  rw [profileFindings]
  by_cases hcount : (orphans x p).length > maxRemoteOrphansPerProfile
  · rw [if_pos hcount]
    simp [Findings.refuse, not_le.2 hcount]
  · rw [if_neg hcount]
    by_cases hretained : x.retained p = []
    · rw [if_pos hretained]
      simp [hretained, refuseIf_eq_nil, not_lt.1 hcount]
    · rw [if_neg hretained]
      simp only [Findings.append_def, append_eq_nil_iff, refuseIf_eq_nil,
        decide_eq_false_iff_not, not_or, not_not, hretained, not_lt.1 hcount, false_imp_iff,
        ne_eq, not_false_eq_true, true_imp_iff, true_and]

theorem Grounded.planned_of_refusals (h : Grounded R w) (hp : p ∈ retainedProfileIds)
    (hnil : (profileFindings (indexOf R w) p).refusals = []) : Planned R w p := by
  obtain ⟨hcount, hempty, hfindings⟩ := profileFindings_refusals.1 hnil
  rw [retained_eq] at hempty hfindings
  have hstored : ∀ {i b}, isGeneration i = true → w.remote.get (remoteKey p i) = some b →
      w.retained p ≠ [] := by
    intro i b hi hget hretained
    have hmem := (mem_remoteIds (R := R) h.canonical hp).2 ⟨hi, by rw [hget]; rfl⟩
    rw [hempty hretained] at hmem
    cases hmem
  have hrefusals := fun hretained => generationFindings_refusals.1 (hfindings hretained).1
  refine { orphans := ?_, single := ?_, kept := ?_, older := ?_ }
  · intro i b hget hi hforeign
    have hretained := hstored hi hget
    refine ⟨hretained, ?_⟩
    have horphan := (hrefusals hretained).1 _ ((h.mem_orphans hp).2 ⟨i, b, hi, hget, hforeign, rfl⟩)
    rw [orphanFindings_eq hi hforeign] at horphan
    intro hle
    rw [if_pos hle] at horphan
    cases horphan
  · intro i j b b' hget hget' hforeign hforeign' hi hj
    have hmem := (h.mem_orphans hp).2 ⟨i, b, hi, hget, hforeign, rfl⟩
    have hmem' := (h.mem_orphans hp).2 ⟨j, b', hj, hget', hforeign', rfl⟩
    have hid : (objectOf R w p (remoteKey p i, b)).backupId =
        (objectOf R w p (remoteKey p j, b')).backupId := by
      rcases hlist : orphans (indexOf R w) p with _ | ⟨r, _ | ⟨r', rest⟩⟩
      · rw [hlist] at hmem
        cases hmem
      · rw [hlist, mem_singleton] at hmem hmem'
        rw [hmem, hmem']
      · rw [hlist] at hcount
        exact absurd hcount (by simp [maxRemoteOrphansPerProfile])
    rwa [objectOf_backupId p hi, objectOf_backupId p hj] at hid
  · rintro c hc rfl hid
    have hretained : w.retained c.profileId ≠ [] := ne_nil_of_mem hid
    rw [← (h.retainedFindings_eq hc).1]
    exact (hrefusals hretained).2.1 c.id (by rwa [retained_eq])
  · rintro c hc rfl hid hobject
    obtain ⟨b, hb⟩ := Option.isSome_iff_exists.1 hobject
    have hretained := hstored (h.scope c hc).2 hb
    rw [← (h.olderRemoteFindings_eq hc hobject).1]
    refine (hrefusals hretained).2.2.1 c.id (mem_older.2 ⟨⟨c, hc, rfl, rfl⟩, hid⟩) ?_
    exact (mem_remoteIds h.canonical hp).2 ⟨(h.scope c hc).2, hobject⟩

/-- **A plan that is ready comes from a sound world.** -/
theorem sound_of_ready {plan : Plan} (hplan : buildFixedPlan R w = .ok plan)
    (hready : plan.ready = true) : Sound R w := by
  obtain ⟨e, he, rfl⟩ := except_map_eq.1 hplan
  obtain ⟨rfl, hcap⟩ := capture_eq.1 he
  obtain ⟨hindex, hevidence, hprofiles⟩ := reconcile_ready.1 hready
  obtain ⟨hx, hscope, hvalid⟩ := index_of_nil hindex
  rw [hx] at hevidence hprofiles
  have hgrounded := grounded_of_accepted hcap hscope hvalid hevidence
  exact { hgrounded with
    planned := fun p hp => hgrounded.planned_of_refusals hp (hprofiles p hp) }

/-! ### A sound world can be indexed -/

theorem nodup_remoteKeys : ((evidenceOf R w).remote.map RemoteGeneration.remoteKey).Nodup := by
  have hmap : (evidenceOf R w).remote.map RemoteGeneration.remoteKey =
      (retainedProfileIds.map fun p =>
        (w.remote.under (profilePrefix p ++ "/")).map Prod.fst).flatten := by
    rw [evidenceOf, map_flatten, map_map]
    congr 1
    refine map_congr_left fun p _ => ?_
    rw [Function.comp_apply, map_map]
    exact map_congr_left fun o _ => objectOf_remoteKey p o
  rw [hmap, nodup_flatten]
  constructor
  · intro l hl
    obtain ⟨p, _, rfl⟩ := mem_map.1 hl
    exact w.remote.unique.sublist (filter_sublist.map _)
  · rw [pairwise_map]
    have hne : retainedProfileIds.Pairwise (· ≠ ·) := by decide
    refine hne.imp_of_mem fun {p q} hp hq hpq k hk hk' => hpq ?_
    obtain ⟨⟨_, b⟩, ho, rfl⟩ := mem_map.1 hk
    obtain ⟨⟨_, b'⟩, ho', hkey⟩ := mem_map.1 hk'
    subst hkey
    exact eq_of_inPrefix hp hq (Store.mem_under.1 ho).2 (Store.mem_under.1 ho').2

theorem Grounded.evidence_key (h : Grounded R w) {r : RemoteGeneration}
    (hr : r ∈ (evidenceOf R w).remote) :
    r.profileId ∈ retainedProfileIds ∧ isGeneration r.backupId = true ∧
      r.remoteKey = remoteKey r.profileId r.backupId := by
  obtain ⟨p, hp, k, b, hget, hpre, rfl⟩ := mem_evidence_remote.1 hr
  obtain ⟨i, hi, rfl, _⟩ := h.objects p hp k b hget hpre
  rw [objectOf_remoteKey, objectOf_profileId, objectOf_backupId p hi]
  exact ⟨hp, hi, rfl⟩

theorem Grounded.nodup_remote (h : Grounded R w) : ((evidenceOf R w).remote.map key).Nodup := by
  refine of_map (fun k => remoteKey k.1 k.2) ?_
  rw [map_map]
  have hsame : (evidenceOf R w).remote.map ((fun k => remoteKey k.1 k.2) ∘ key) =
      (evidenceOf R w).remote.map RemoteGeneration.remoteKey :=
    map_congr_left fun r hr => (h.evidence_key hr).2.2.symm
  rw [hsame]
  exact nodup_remoteKeys

theorem Grounded.index_eq (h : Grounded R w) :
    indexEvidence (evidenceOf R w) = (indexOf R w, []) := by
  have hcatalog : indexCatalog (evidenceOf R w).catalog = ((evidenceOf R w).catalog, []) := by
    refine (collect_of_nodup ?_ ?_).trans (by simp)
    · intro g hg
      obtain ⟨c, hc, rfl⟩ := mem_map.1 hg
      exact outOfScope_eq_none.2 (h.scope c hc)
    · have hunique : ((w.catalog.rows.map (generationOf R w)).map CatalogGeneration.key).Nodup := by
        refine of_map Prod.snd ?_
        rw [map_map, map_map]
        exact w.catalog.unique
      simpa [evidenceOf] using hunique
  have hremote : indexRemote (evidenceOf R w).remote = ((evidenceOf R w).remote, []) := by
    refine (collect_of_nodup ?_ ?_).trans (by simp)
    · intro r hr
      exact outOfScope_eq_none.2 ⟨(h.evidence_key hr).1, (h.evidence_key hr).2.1⟩
    · simpa using h.nodup_remote
  have hactive : indexProtections (evidenceOf R w).protections =
      ((indexOf R w).protections, []) := by
    refine (collect_of_nodup ?_ ?_).trans (by simp [indexOf, evidenceOf])
    · intro r hr
      obtain ⟨c, hc, hid, hprofile, _⟩ := h.described r hr
      refine outOfScope_eq_none.2 ?_
      rw [rowKey, ← hid, ← hprofile]
      exact h.scope c hc
    · exact nodup_rowKeys _
  have hdeleted : indexDeleted (evidenceOf R w).protections = ((indexOf R w).deleted, []) := by
    refine (collect_of_nodup (fun _ _ => rfl) ?_).trans (by simp [indexOf, evidenceOf])
    exact nodup_rowKeys _
  rw [indexEvidence, hcatalog, hremote, hactive, hdeleted]
  rfl

theorem Grounded.evidenceRefusals_eq (h : Grounded R w) : evidenceRefusals (indexOf R w) = [] := by
  simp only [evidenceRefusals, append_eq_nil_iff, flatMap_eq_nil_iff]
  refine ⟨⟨⟨?_, ?_⟩, ?_⟩, ?_⟩
  · intro g hg
    obtain ⟨c, hc, rfl⟩ := mem_map.1 hg
    obtain ⟨b, hb, hsize, _⟩ := h.archived c hc
    have hnonneg : 0 ≤ c.sizeBytes := hsize ▸ Int.natCast_nonneg _
    simp [catalogRefusals, refuseIf_eq_nil, generationOf, hb, localArchiveMetadata, hsize, hnonneg,
      R.sha256_hex b, h.verified c hc]
  · intro r hr
    obtain ⟨p, hp, k, b, hget, hpre, rfl⟩ := mem_evidence_remote.1 hr
    obtain ⟨i, hi, rfl, hcases⟩ := h.objects p hp k b hget hpre
    rw [remoteRefusals, objectOf_key, remoteBackupId_remoteKey p hi]
    rcases hcases with ⟨⟨c, hc, rfl, rfl⟩, howned⟩ | hforeign
    · rw [catalog_of_mem hc]
      have hsha : (generationOf R w c).sha256 = R.sha256 b := by
        rw [generationOf, howned]
        rfl
      have hsize : archiveSize (generationOf R w c) = R.size b := by
        rw [archiveSize, generationOf, howned]
        rfl
      simp [refuseIf_eq_nil, objectOf_known hc hi, knownObject, remoteBackupId_remoteKey _ hi,
        howned, hsha, hsize, R.sha256_hex b]
    · rw [catalog_none hforeign.unknown]
      simp [refuseIf_eq_nil, objectOf_foreign hi hforeign]
  · intro r hr
    rw [indexOf, mem_filter, decide_eq_true_eq] at hr
    obtain ⟨c, hc, hfind⟩ := h.source hr.1
    obtain ⟨hprofile, hid, hkey, hsha, _, hproven⟩ := h.row hc hfind
    rw [protectionRefusals, rowKey, hid, hprofile, catalog_of_mem hc]
    simp [refuseIf_eq_nil, hkey, hsha, hproven hr.2]
  · intro r hr
    rw [indexOf, mem_filter, decide_eq_true_eq] at hr
    obtain ⟨c, hc, hfind⟩ := h.source hr.1
    obtain ⟨hprofile, hid, hkey, hsha, hrecorded, _⟩ := h.row hc hfind
    rw [deletedRefusals, rowKey, hid, hprofile, catalog_of_mem hc]
    simp only [Option.isNone_some, Option.any_some, deletedProtectionProvesPrune, describes]
    simp [refuseIf, hkey, hsha, hrecorded, hr.2, generationOf, hid, hprofile]

/-! ### What is planned for a profile -/

variable {α γ : Type} {l : List α} {φ : Findings → List γ}

theorem nodup_flatMap_map {κ : Type} (f : α → List γ) (key : γ → κ) (name : α → κ)
    (hl : (l.map name).Nodup) (hf : ∀ a ∈ l, f a = [] ∨ ∃ c, f a = [c] ∧ key c = name a) :
    ((l.flatMap f).map key).Nodup ∧ ∀ k ∈ (l.flatMap f).map key, k ∈ l.map name := by
  induction l with
  | nil => simp
  | cons a l ih =>
    rw [map_cons, nodup_cons] at hl
    obtain ⟨hnodup, hsub⟩ := ih hl.2 fun b hb => hf b (.tail _ hb)
    rw [flatMap_cons]
    rcases hf a (.head _) with hnil | ⟨c, hc, hkey⟩
    · rw [hnil, nil_append]
      exact ⟨hnodup, fun k hk => .tail _ (hsub k hk)⟩
    · rw [hc, singleton_append, map_cons, hkey, nodup_cons]
      refine ⟨⟨fun hmem => hl.1 (hsub _ hmem), hnodup⟩, fun k hk => ?_⟩
      rcases mem_cons.1 hk with rfl | hk
      · exact .head _
      · exact .tail _ (hsub k hk)

theorem nodup_of_length {f : α → γ} (h : l.length ≤ 1) : (l.map f).Nodup := by
  rcases l with _ | ⟨a, _ | ⟨b, l⟩⟩
  · simp
  · simp
  · simp at h

/-- What is found about each generation of a profile. -/
def entries (x : Index) (p : String) : List (String × Findings) :=
  (orphans x p).map (fun r => (r.backupId, orphanFindings x p r)) ++
  (x.retained p).map (fun i => (i, retainedFindings x p i)) ++
  ((x.older p).filter fun i => i ∈ x.remoteIds p).map (fun i => (i, olderRemoteFindings x p i)) ++
  ((x.older p).filter fun i => i ∉ x.remoteIds p).map fun i => (i, olderLocalFindings x p i)

variable (R w) in
abbrev found (p : String) : Findings := generationFindings (indexOf R w) p

/-- A part of the findings is collected from the generations. -/
structure Part (φ : Findings → List γ) : Prop where
  append : ∀ a b, φ (a ++ b) = φ a ++ φ b := by exact fun _ _ => rfl
  sum : ∀ {α : Type} (l : List α) (f : α → Findings), φ (.sum l f) = l.flatMap (φ ∘ f) := by
    exact fun _ _ => rfl

theorem Part.generation (hφ : Part φ) (x : Index) (p : String) :
    φ (generationFindings x p) = (entries x p).flatMap (φ ∘ Prod.snd) := by
  simp only [generationFindings, entries, hφ.append, hφ.sum, flatMap_append, flatMap_map,
    Function.comp_def]

theorem Part.mem (hφ : Part φ) {it : γ} :
    it ∈ φ (generationFindings x p) ↔ ∃ e ∈ entries x p, it ∈ φ e.2 := by
  rw [hφ.generation, mem_flatMap]
  rfl

namespace Sound

variable (h : Sound R w) (hp : p ∈ retainedProfileIds)

include h hp

theorem exists_entry (P : String × Findings → Prop) : (∃ e ∈ entries (indexOf R w) p, P e) ↔
    (∃ i b, isGeneration i = true ∧ w.remote.get (remoteKey p i) = some b ∧
      Foreign R w p i b ∧ P (i, { candidates := [orphanOf R p i b] })) ∨
    (∃ c ∈ w.catalog.rows, c.profileId = p ∧ c.id ∈ w.retained p ∧
      P (c.id, keptFindings R w c)) ∨
    (∃ c ∈ w.catalog.rows, c.profileId = p ∧ c.id ∉ w.retained p ∧ (w.object c).isSome ∧
      P (c.id, pruneFindings R w c)) ∨
    ∃ c ∈ w.catalog.rows, c.profileId = p ∧ c.id ∉ w.retained p ∧ w.object c = none ∧
      P (c.id, goneFindings R w c) := by
  simp only [entries, mem_append, mem_map, or_and_right, exists_or, exists_exists_and_eq_and,
    or_assoc]
  simp only [mem_filter, decide_eq_true_eq, mem_older, mem_remoteIds h.canonical hp, retained_eq,
    and_assoc]
  refine or_congr ?_ (or_congr ?_ (or_congr ?_ ?_))
  · have hfound : ∀ {i b}, isGeneration i = true → w.remote.get (remoteKey p i) = some b →
        Foreign R w p i b → ((objectOf R w p (remoteKey p i, b)).backupId,
          orphanFindings (indexOf R w) p (objectOf R w p (remoteKey p i, b))) =
          (i, { candidates := [orphanOf R p i b] }) := fun hi hget hforeign => by
      rw [objectOf_backupId p hi, orphanFindings_eq hi hforeign,
        if_neg ((h.planned p hp).orphans _ _ hget hi hforeign).2]
    constructor
    · rintro ⟨r, hr, hP⟩
      obtain ⟨i, b, hi, hget, hforeign, rfl⟩ := (h.mem_orphans hp).1 hr
      exact ⟨i, b, hi, hget, hforeign, hfound hi hget hforeign ▸ hP⟩
    · rintro ⟨i, b, hi, hget, hforeign, hP⟩
      exact ⟨_, (h.mem_orphans hp).2 ⟨i, b, hi, hget, hforeign, rfl⟩,
        (hfound hi hget hforeign).symm ▸ hP⟩
  · refine (exists_congr fun i => (and_iff_right_of_imp fun hi => mem_retained hi.1).symm).trans ?_
    refine exists_catalogued.trans ?_
    refine exists_congr fun c => and_congr_right fun hc => and_congr_right ?_
    rintro rfl
    refine and_congr_right fun hi => ?_
    rw [(h.retainedFindings_eq hc).2 ((h.planned _ hp).kept c hc rfl hi)]
  · refine exists_catalogued.trans ?_
    refine exists_congr fun c => and_congr_right fun hc => and_congr_right ?_
    rintro rfl
    refine and_congr_right fun hold => ?_
    rw [and_iff_right (h.scope c hc).2]
    refine and_congr_right fun hobject => ?_
    rw [(h.olderRemoteFindings_eq hc hobject).2 ((h.planned _ hp).older c hc rfl hold hobject)]
  · refine exists_catalogued.trans ?_
    refine exists_congr fun c => and_congr_right fun hc => and_congr_right ?_
    rintro rfl
    rw [h.olderLocalFindings_eq hc, and_iff_right (h.scope c hc).2, Option.not_isSome_iff_eq_none]
    rfl

theorem generationFindings_refusals_eq : (found R w p).refusals = [] := by
  rw [eq_nil_iff_forall_not_mem]
  intro text htext
  rw [Part.mem {}, h.exists_entry hp fun e => text ∈ e.2.refusals] at htext
  simp [keptFindings, pruneFindings, goneFindings] at htext

theorem mem_candidates {it : PruneCandidate} :
    it ∈ (found R w p).candidates ↔
      (∃ i b, isGeneration i = true ∧ w.remote.get (remoteKey p i) = some b ∧
        Foreign R w p i b ∧ it = orphanOf R p i b) ∨
      ∃ c ∈ w.catalog.rows, c.profileId = p ∧ c.id ∉ w.retained p ∧ (w.object c).isSome ∧
        it = pruneOf R w c := by
  rw [Part.mem {}, h.exists_entry hp fun e => it ∈ e.2.candidates]
  simp [keptFindings, pruneFindings, goneFindings]

theorem mem_replacements {it : ReplacementCandidate} :
    it ∈ (found R w p).replacements ↔
      ∃ c ∈ w.catalog.rows, c.profileId = p ∧ c.id ∈ w.retained p ∧ w.object c = none ∧
        it = replacementOf R w c := by
  rw [Part.mem {}, h.exists_entry hp fun e => it ∈ e.2.replacements]
  simp [keptFindings, pruneFindings, goneFindings]

/-- The plan leaves exactly what is retained. -/
theorem mem_finalIds : i ∈ finalIds (indexOf R w) p (found R w p) ↔ i ∈ w.retained p := by
  simp only [finalIds, mem_dedup, mem_filter, mem_append, mem_map,
    decide_eq_true_eq, mem_remoteIds h.canonical hp, h.mem_replacements hp, h.mem_candidates hp,
    not_exists, not_and]
  constructor
  · rintro ⟨⟨hi, hsome⟩ | ⟨it, ⟨c, hc, rfl, hretained, _, rfl⟩, rfl⟩, hnot⟩
    · obtain ⟨b, hget⟩ := Option.isSome_iff_exists.1 hsome
      rcases h.stored hp hi hget with ⟨⟨c, hc, rfl, rfl⟩, _⟩ | hforeign
      · by_contra hretained
        exact hnot _ (.inr ⟨c, hc, rfl, hretained, hsome, rfl⟩) rfl
      · exact absurd rfl (hnot _ (.inl ⟨i, b, hi, hget, hforeign, rfl⟩))
    · exact hretained
  · intro hretained
    obtain ⟨c, hc, rfl, rfl⟩ := mem_retained hretained
    constructor
    · cases hobject : w.object c with
      | none => exact .inr ⟨_, ⟨c, hc, rfl, hretained, hobject, rfl⟩, rfl⟩
      | some b =>
        refine .inl ⟨(h.scope c hc).2, ?_⟩
        show (w.object c).isSome
        rw [hobject]
        rfl
    · rintro it (⟨i, b, hi, hget, hforeign, rfl⟩ | ⟨c', hc', hprofile, hold, _, rfl⟩) hid
      · exact hforeign.unknown ⟨c, hc, rfl, hid.symm⟩
      · obtain rfl := inj_on_of_nodup_map w.catalog.unique hc' hc hid
        exact hold hretained

theorem length_orphans : (orphans (indexOf R w) p).length ≤ maxRemoteOrphansPerProfile := by
  have hnodup : (orphans (indexOf R w) p).Nodup := h.nodup_remote.of_map.filter _
  have hsame : ∀ r ∈ orphans (indexOf R w) p, ∀ r' ∈ orphans (indexOf R w) p, r = r' := by
    intro r hr r' hr'
    obtain ⟨i, b, hi, hget, hforeign, rfl⟩ := (h.mem_orphans hp).1 hr
    obtain ⟨j, b', hj, hget', hforeign', rfl⟩ := (h.mem_orphans hp).1 hr'
    obtain rfl := (h.planned p hp).single i j b b' hget hget' hforeign hforeign' hi hj
    rw [hget] at hget'
    cases hget'
    rfl
  generalize orphans (indexOf R w) p = l at hnodup hsame
  rcases l with _ | ⟨r, _ | ⟨r', rest⟩⟩
  · simp
  · simp [maxRemoteOrphansPerProfile]
  · have hrr := hsame r (by simp) r' (by simp)
    simp [hrr] at hnodup

omit h hp in
theorem localIds_of_retained (hempty : w.retained p = []) : (indexOf R w).localIds p = [] := by
  rw [World.retained, take_eq_nil_iff] at hempty
  rcases hempty with hzero | hsort
  · cases hzero
  · have hperm := perm_insertionSort (fun a b => KeyLe b a)
      ((w.catalog.rows.filter fun c => c.profileId = p).map CatalogRow.id)
    rw [hsort] at hperm
    rw [localIds_eq, hperm.symm.eq_nil]

theorem remoteIds_of_retained (hempty : w.retained p = []) : (indexOf R w).remoteIds p = [] := by
  rw [eq_nil_iff_forall_not_mem]
  intro i hi
  obtain ⟨hi, hsome⟩ := (mem_remoteIds h.canonical hp).1 hi
  obtain ⟨b, hget⟩ := Option.isSome_iff_exists.1 hsome
  rcases h.stored hp hi hget with ⟨hcatalogued, _⟩ | hforeign
  · have hmem := mem_localIds (R := R).2 hcatalogued
    rw [localIds_of_retained hempty] at hmem
    cases hmem
  · exact ((h.planned p hp).orphans i b hget hi hforeign).1 hempty

omit h hp in
theorem length_retained :
    (w.retained p).length = min retention ((indexOf R w).localIds p).length := by
  rw [World.retained, length_take, length_insertionSort, localIds_eq]

/-- **Nothing is refused**, and the findings about the generations stand. -/
theorem profileFindings_eq : profileFindings (indexOf R w) p = found R w p := by
  rw [profileFindings, if_neg (not_lt.2 (h.length_orphans hp)), retained_eq]
  by_cases hempty : w.retained p = []
  · have horphans : orphans (indexOf R w) p = [] := by
      rw [eq_nil_iff_forall_not_mem]
      intro r hr
      obtain ⟨i, b, hi, hget, hforeign, _⟩ := (h.mem_orphans hp).1 hr
      exact ((h.planned p hp).orphans i b hget hi hforeign).1 hempty
    have holder : (indexOf R w).older p = [] := by
      rw [Index.older, localIds_of_retained hempty]
      rfl
    rw [if_pos hempty, found, generationFindings, retained_eq, hempty, horphans, holder,
      h.remoteIds_of_retained hp hempty]
    rfl
  · have hsub : finalIds (indexOf R w) p (found R w p) ⊆ w.retained p :=
      fun i hi => (h.mem_finalIds hp).1 hi
    have hsup : w.retained p ⊆ finalIds (indexOf R w) p (found R w p) :=
      fun i hi => (h.mem_finalIds hp).2 hi
    have hlength : (finalIds (indexOf R w) p (found R w p)).length =
        (w.retained p).length :=
      ((perm_ext_iff_of_nodup (nodup_dedup _) nodup_retained).2 fun i =>
        h.mem_finalIds hp).length_eq
    rw [if_neg hempty]
    simp only [hsub, hsup, hlength, length_retained (R := R), and_self, not_true_eq_false, ne_eq,
      or_self, decide_false, refuseIf, Bool.false_eq_true, if_false, Findings.append_def,
      append_nil]

omit h hp in
theorem nodup_older : ((indexOf R w).older p).Nodup := by
  refine (perm_insertionSort KeyLe _).nodup_iff.2 (List.Nodup.filter _ ?_)
  rw [localIds_eq]
  exact nodup_local

/-- Every generation is looked at once: the retained and the older ones are in the catalog, the
orphans are not. -/
theorem nodup_entries : ((entries (indexOf R w) p).map Prod.fst).Nodup := by
  have horphan : ∀ i ∈ (orphans (indexOf R w) p).map RemoteGeneration.backupId,
      ¬ w.Catalogued p i := by
    intro i hi
    obtain ⟨r, hr, rfl⟩ := mem_map.1 hi
    obtain ⟨j, b, hj, _, hforeign, rfl⟩ := (h.mem_orphans hp).1 hr
    rw [objectOf_backupId p hj]
    exact hforeign.unknown
  simp only [entries, map_append, map_map, Function.comp_def, map_id', retained_eq,
    nodup_append, mem_append, mem_filter, decide_eq_true_eq, mem_older]
  refine ⟨⟨⟨nodup_of_length (h.length_orphans hp), nodup_retained, ?_⟩, nodup_older.filter _, ?_⟩,
    nodup_older.filter _, ?_⟩
  · rintro i hi _ hj rfl
    exact horphan i hi (mem_retained hj)
  · rintro i (hi | hi) _ hj rfl
    · exact horphan i hi hj.1.1
    · exact hj.1.2 hi
  · rintro i ((hi | hi) | hi) _ hj rfl
    · exact horphan i hi hj.1.1
    · exact hj.1.2 hi
    · exact hj.2 hi.2

theorem nodup_part (hφ : Part φ) (key : γ → String)
    (horphan : ∀ i b, φ { candidates := [orphanOf R p i b] } = [] ∨
      ∃ it, φ { candidates := [orphanOf R p i b] } = [it] ∧ key it = i)
    (hkept : ∀ c, φ (keptFindings R w c) = [])
    (hprune : ∀ c, φ (pruneFindings R w c) = [] ∨
      ∃ it, φ (pruneFindings R w c) = [it] ∧ key it = c.id)
    (hgone : ∀ c, φ (goneFindings R w c) = [] ∨
      ∃ it, φ (goneFindings R w c) = [it] ∧ key it = c.id) :
    ((φ (found R w p)).map key).Nodup := by
  rw [hφ.generation]
  refine (nodup_flatMap_map _ key Prod.fst (h.nodup_entries hp) fun e he => ?_).1
  rcases (h.exists_entry hp (e = ·)).1 ⟨e, he, rfl⟩ with ⟨i, b, _, _, _, rfl⟩ | ⟨c, _, _, _, rfl⟩ |
    ⟨c, _, _, _, _, rfl⟩ | ⟨c, _, _, _, _, rfl⟩
  · exact horphan i b
  · exact .inl (hkept c)
  · exact hprune c
  · exact hgone c

theorem nodup_candidates : ((found R w p).candidates.map PruneCandidate.backupId).Nodup :=
  h.nodup_part hp {} _ (fun _ _ => .inr ⟨_, rfl, rfl⟩) (fun _ => rfl)
    (fun _ => .inr ⟨_, rfl, rfl⟩) fun _ => .inl rfl

theorem nodup_pruned : ((found R w p).pruned.map PrunedProtectionCorrection.backupId).Nodup := by
  refine h.nodup_part hp {} _ (fun _ _ => .inl rfl) (fun _ => rfl) (fun _ => .inl rfl) fun c => ?_
  dsimp only [goneFindings]
  split
  · exact .inr ⟨_, rfl, rfl⟩
  · exact .inl rfl

end Sound

/-! ### The plan of a sound world -/

variable (R w) in
/-- A plan that asks for what the world calls for. -/
structure PlanOf (plan : Plan) : Prop where
  ready : plan.ready = true
  evidence : plan.remoteEvidence.Perm (evidenceOf R w).remote
  imports : ∀ it, it ∈ plan.imports ↔ ∃ c ∈ w.catalog.rows, c.id ∈ w.retained c.profileId ∧
    (w.object c).isSome ∧ w.protections.find c.id = none ∧ it = importOf R w c
  replacements : ∀ it, it ∈ plan.replacementCandidates ↔ ∃ c ∈ w.catalog.rows,
    c.id ∈ w.retained c.profileId ∧ w.object c = none ∧ it = replacementOf R w c
  corrections : ∀ it, it ∈ plan.protectedFlagCorrections ↔ ∃ c ∈ w.catalog.rows,
    c.isProtected ≠ decide (c.id ∈ w.retained c.profileId) ∧
    it = ⟨c.profileId, c.id, decide (c.id ∈ w.retained c.profileId)⟩
  candidates : ∀ it, it ∈ plan.pruneCandidates ↔
    (∃ p ∈ retainedProfileIds, ∃ i b, isGeneration i = true ∧
      w.remote.get (remoteKey p i) = some b ∧ Foreign R w p i b ∧ it = orphanOf R p i b) ∨
    ∃ c ∈ w.catalog.rows, c.id ∉ w.retained c.profileId ∧ (w.object c).isSome ∧ it = pruneOf R w c
  pruned : ∀ it, it ∈ plan.prunedProtectionCorrections ↔ ∃ c ∈ w.catalog.rows,
    c.id ∉ w.retained c.profileId ∧ w.object c = none ∧
    ((w.protections.find c.id).any fun r => r.pruneState ≠ .deleted) ∧ it = prunedOf R w c
  candidatesOnce : (plan.pruneCandidates.map PruneCandidate.remoteKey).Nodup
  prunedOnce : plan.prunedProtectionCorrections.Nodup

variable (R w) in
abbrev foundAll : Findings := .sum retainedProfileIds (profileFindings (indexOf R w))

variable {ρ : Type}

theorem mem_planOrder {key : ρ → String × String} {l : List ρ} {it : ρ} :
    it ∈ planOrder key l ↔ it ∈ l :=
  mem_insertionSort _

theorem perm_planOrder (key : ρ → String × String) (l : List ρ) : (planOrder key l).Perm l :=
  perm_insertionSort _ l

namespace Sound

variable (h : Sound R w)

include h

theorem exists_plan (hφ : Part φ) {it : γ} :
    it ∈ φ (foundAll R w) ↔
      (∃ p ∈ retainedProfileIds, ∃ i b, isGeneration i = true ∧
        w.remote.get (remoteKey p i) = some b ∧ Foreign R w p i b ∧
        it ∈ φ { candidates := [orphanOf R p i b] }) ∨
      (∃ c ∈ w.catalog.rows, c.id ∈ w.retained c.profileId ∧ it ∈ φ (keptFindings R w c)) ∨
      (∃ c ∈ w.catalog.rows, c.id ∉ w.retained c.profileId ∧ (w.object c).isSome ∧
        it ∈ φ (pruneFindings R w c)) ∨
      ∃ c ∈ w.catalog.rows, c.id ∉ w.retained c.profileId ∧ w.object c = none ∧
        it ∈ φ (goneFindings R w c) := by
  have hentry (p : String) (hp : p ∈ retainedProfileIds) :
      it ∈ (φ ∘ profileFindings (indexOf R w)) p ↔ ∃ e ∈ entries (indexOf R w) p, it ∈ φ e.2 := by
    rw [Function.comp_apply, h.profileFindings_eq hp, hφ.mem]
  rw [hφ.sum, mem_flatMap, exists_congr fun p => and_congr_right fun hp =>
    (hentry p hp).trans (h.exists_entry hp fun e => it ∈ φ e.2)]
  simp only [and_or_left, exists_or]
  exact or_congr .rfl (or_congr h.exists_profile (or_congr h.exists_profile h.exists_profile))

theorem nodup_plan (hφ : Part φ) {profileId backupId : γ → String}
    (hprofile : ∀ p ∈ retainedProfileIds, ∀ it ∈ φ (found R w p),
      profileId it = p) (honce : ∀ p ∈ retainedProfileIds,
      ((φ (found R w p)).map backupId).Nodup) :
    ((φ (foundAll R w)).map fun it =>
      (profileId it, backupId it)).Nodup := by
  rw [hφ.sum, map_flatMap, nodup_flatMap]
  constructor
  · intro p hp
    rw [Function.comp_apply, h.profileFindings_eq hp]
    refine of_map Prod.snd ?_
    rw [map_map]
    exact honce p hp
  · have hne : retainedProfileIds.Pairwise (· ≠ ·) := by decide
    refine hne.imp_of_mem fun {p q} hp hq hpq k hk hk' => hpq ?_
    simp only [Function.comp_apply, h.profileFindings_eq hp, h.profileFindings_eq hq] at hk hk'
    obtain ⟨it, hit, rfl⟩ := mem_map.1 hk
    obtain ⟨it', hit', heq⟩ := mem_map.1 hk'
    rw [Prod.mk.injEq, hprofile p hp it hit, hprofile q hq it' hit'] at heq
    exact heq.1.symm

theorem mem_corrections {it : ProtectedFlagCorrection} :
    it ∈ (foundAll R w).corrections ↔
      ∃ c ∈ w.catalog.rows, c.isProtected ≠ decide (c.id ∈ w.retained c.profileId) ∧
        it = ⟨c.profileId, c.id, decide (c.id ∈ w.retained c.profileId)⟩ := by
  rw [h.exists_plan {}]
  constructor
  · rintro (⟨_, _, _, _, _, _, _, hit⟩ | ⟨c, hc, hretained, hit⟩ | ⟨c, hc, hold, _, hit⟩ |
      ⟨c, hc, hold, _, hit⟩)
    · cases hit
    · refine ⟨c, hc, ?_⟩
      cases hflag : c.isProtected <;> simp_all [keptFindings]
    · refine ⟨c, hc, ?_⟩
      cases hflag : c.isProtected <;> simp_all [pruneFindings]
    · refine ⟨c, hc, ?_⟩
      cases hflag : c.isProtected <;> simp_all [goneFindings]
  · rintro ⟨c, hc, hflag, rfl⟩
    by_cases hretained : c.id ∈ w.retained c.profileId
    · refine .inr (.inl ⟨c, hc, hretained, ?_⟩)
      simp [keptFindings, hretained] at hflag ⊢
      simp [hflag]
    · simp only [hretained, decide_false, ne_eq, Bool.not_eq_false] at hflag ⊢
      cases hobject : w.object c with
      | none =>
        refine .inr (.inr (.inr ⟨c, hc, hretained, hobject, ?_⟩))
        simp [goneFindings, hflag]
      | some b =>
        refine .inr (.inr (.inl ⟨c, hc, hretained, by rw [hobject]; rfl, ?_⟩))
        simp [pruneFindings, hflag]

theorem nodup_pruneKeys : ((foundAll R w).candidates.map PruneCandidate.remoteKey).Nodup := by
  have hkey : ∀ it ∈ (foundAll R w).candidates,
      it.profileId ∈ retainedProfileIds ∧ isGeneration it.backupId = true ∧
        it.remoteKey = remoteKey it.profileId it.backupId := by
    intro it hit
    rw [h.exists_plan {}] at hit
    simp only [keptFindings, pruneFindings, goneFindings, mem_singleton, not_mem_nil,
      and_false, exists_false, false_or, or_false] at hit
    rcases hit with ⟨p, hp, i, b, hi, _, _, rfl⟩ | ⟨c, hc, _, _, rfl⟩
    · exact ⟨hp, hi, rfl⟩
    · exact ⟨(h.scope c hc).1, (h.scope c hc).2, rfl⟩
  have hpairs := h.nodup_plan {}
    (fun p hp it hit => by
      rcases (h.mem_candidates hp).1 hit with ⟨i, b, _, _, _, rfl⟩ | ⟨c, _, rfl, _, _, rfl⟩
      · exact (rfl : (orphanOf R p i b).profileId = p)
      · exact (rfl : (pruneOf R w c).profileId = c.profileId))
    fun p hp => h.nodup_candidates hp
  rw [List.Nodup, pairwise_map] at hpairs ⊢
  refine hpairs.imp_of_mem fun {a b} ha hb hne heq => hne ?_
  obtain ⟨hap, hai, hak⟩ := hkey a ha
  obtain ⟨hbp, hbi, hbk⟩ := hkey b hb
  rw [hak, hbk] at heq
  obtain ⟨hprofile, hbackup⟩ := remoteKey_inj hap hbp hai hbi heq
  rw [hprofile, hbackup]

/-- **A sound world has a plan that is ready.** -/
theorem planOf : ∃ plan, buildFixedPlan R w = .ok plan ∧ PlanOf R w plan := by
  refine ⟨reconcile (evidenceOf R w),
    except_map_eq.2 ⟨_, capture_eq.2 ⟨rfl, h.capturable⟩, rfl⟩, ?_⟩
  have hrefusals : (foundAll R w).refusals = [] := by
    rw [foundAll, Findings.sum, flatMap_eq_nil_iff]
    intro p hp
    rw [h.profileFindings_eq hp, h.generationFindings_refusals_eq hp]
  have hplan : reconcile (evidenceOf R w) =
      (let f := foundAll R w
       { imports := planOrder (fun i => (i.profileId, i.backupId)) f.imports
         protectedFlagCorrections := planOrder (fun c => (c.profileId, c.backupId)) f.corrections
         pruneCandidates := planOrder (fun c => (c.profileId, c.backupId)) f.candidates
         refusals := []
         remoteEvidence := evidenceOrder (evidenceOf R w).remote
         replacementCandidates := planOrder (fun c => (c.profileId, c.backupId)) f.replacements
         prunedProtectionCorrections :=
          planOrder (fun c => (c.profileId, c.backupId)) f.pruned }) := by
    rw [reconcile, h.index_eq]
    simp only [h.evidenceRefusals_eq, hrefusals, append_nil, ne_eq, not_true_eq_false,
      if_false]
  rw [hplan]
  refine {
    ready := rfl
    evidence := perm_insertionSort _ _
    imports := fun it => ?imports
    replacements := fun it => ?replacements
    corrections := fun it => mem_planOrder.trans h.mem_corrections
    candidates := fun it => ?candidates
    pruned := fun it => ?pruned
    candidatesOnce := ((perm_planOrder _ _).map _).nodup_iff.2 h.nodup_pruneKeys
    prunedOnce := ?once }
  case imports | replacements | candidates | pruned =>
    refine mem_planOrder.trans ?_
    rw [h.exists_plan {}]
    simp [keptFindings, pruneFindings, goneFindings, and_assoc]
  case once =>
    have hprofile : ∀ p ∈ retainedProfileIds, ∀ it ∈ (found R w p).pruned, it.profileId = p := by
      intro p hp it hit
      rw [Part.mem {}, h.exists_entry hp fun e => it ∈ e.2.pruned] at hit
      simp only [keptFindings, pruneFindings, goneFindings, not_mem_nil, and_false,
        exists_false, false_or] at hit
      obtain ⟨c, _, rfl, _, _, hit⟩ := hit
      split at hit
      · rw [mem_singleton.1 hit, prunedOf]
      · cases hit
    have hpairs := h.nodup_plan {} hprofile fun p hp => h.nodup_pruned hp
    exact (perm_planOrder _ _).nodup_iff.2 hpairs.of_map

end Sound

end Horizon.Reconcile
