/-
**Retirement and reconciliation.**

A retirement moves the payload of a generation out of its backup root and then removes it; the row
in the catalog stays.  The planner asks for the archive of every row in the catalog.  So the plan
that is built after a retirement is never ready again, whichever generations were retired.

Main results:

* `Reconcile.ready_after_retirement_iff` — **when a plan is ready afterwards**.
-/

import Horizon.PayloadSafety
import Horizon.ReconcileConvergence

namespace Horizon

open Option
open List

namespace Retirement

open Safely (forM)
open Coroutine (forall_mem_concat)
open Function

/-! ### Archive paths stay empty -/

variable {svc : RetirementService} {ω : Oracle} {m : RetirementManifest} {I X : PayloadStore → Prop}
  {files files' : PayloadFiles} {r s : Path} {α : Type}

/-- A quarantine path of one profile is not an archive path of another. -/
theorem quarantinePath_ne_archivePath (hapart : svc.RootsApart) {p q : ProfileId}
    {op : OperationId} {id id' : BackupId} (hr : svc.backupRoot p = some r)
    (hs : svc.backupRoot q = some s) :
    quarantinePath r op id ≠ archivePath s id' := by
  intro heq
  have hsplit := prefix_of_quarantine_eq_archive heq
  obtain rfl := hapart p q r s hr hs (hsplit ▸ prefix_append _ _)
  obtain rfl : r = s := some.inj (hr.symm.trans hs)
  have hlength := congrArg length hsplit
  simp at hlength

theorem Planned.quarantine_ne_archive {item item' : PlanEntry} (h : Planned svc m item r)
    (h' : Planned svc m item' s) (hapart : svc.RootsApart) : item.quarantine ≠ item'.archive := by
  rw [h.quarantine, h'.archive]
  exact quarantinePath_ne_archivePath hapart h.registered h'.registered

/-- What does not depend on the store is taken out of the precondition. -/
theorem Safely.fact {c : Call α} {Y : α → PayloadStore → Prop} {q : Prop} (h : q → Safely I X c Y) :
    Safely I (fun w => q ∧ X w) c Y :=
  fun s hs => h hs.2.2.1 s ⟨hs.1, hs.2.1, hs.2.2.2⟩

theorem empty_rename {path source target : Path} {touch : PayloadFile → PayloadFile}
    (hne : path ≠ target) (h : files path = none)
    (hrename : Filesystem.rename touch source target files = .ok files') : files' path = none := by
  obtain ⟨f, _, _, rfl⟩ := Filesystem.rename_eq_ok hrename
  rw [update_of_ne hne]
  by_cases hsource : path = source
  · rw [hsource, update_self]
  · rw [update_of_ne hsource, h]

theorem empty_unlink {path target : Path} (h : files path = none)
    (hunlink : Filesystem.unlink target files = some files') : files' path = none := by
  obtain ⟨f, _, rfl⟩ := Filesystem.unlink_eq_some hunlink
  by_cases hpath : path = target
  · rw [hpath, update_self]
  · rw [update_of_ne hpath, h]

variable (svc ω) in
theorem quarantine_keeps_empty (hapart : svc.RootsApart) {p : ProfileId} {root : Path}
    (id : BackupId) (hroot : svc.backupRoot p = some root) (operationId : OperationId)
    (ownJob : Option ℕ) :
    Safely (fun w => w.files (archivePath root id) = none) (fun _ => True)
      (quarantine svc ω operationId ownJob) fun _ _ => True := by
  have hrecord : ∀ m item state, Safely (fun w => w.files (archivePath root id) = none)
      (fun _ => True) (record ω m item state) fun _ _ => True := fun m item state =>
    .record fun now w hw _ _ => ⟨hw, trivial⟩
  refine .quarantine (fun m _ _ => reads_assertPreflight svc ω m _ _) (B := fun _ _ _ => True)
    (fun m items _ _ _ => .forM (fun _ _ => True) items fun done item rest hitems => ?_)
    fun m items prior _ _ hplan => .forM (fun _ _ => True) items fun done item rest hitems => ?_
  · refine .look fun state => .ite (fun _ => ?_) fun _ => ?_
    · exact .look fun _ => hrecord m item .prepared
    · exact .pure fun _ _ _ => trivial
  · obtain ⟨r, hitem⟩ := (plan_planned hplan).2 item (by simp [hitems])
    have hne : archivePath root id ≠ item.quarantine := by
      rw [hitem.quarantine]
      exact (quarantinePath_ne_archivePath hapart hitem.registered hroot).symm
    exact .quarantineItem (hrecord m item _)
      (.rename fun now w files hw _ hrename => ⟨empty_rename hne hw hrename, trivial⟩)

variable (svc ω) in
theorem purge_keeps_empty (path : Path) (operationId : OperationId) (ownJob : Option ℕ) :
    Safely (fun w => w.files path = none) (fun _ => True) (purge svc ω operationId ownJob)
      fun _ _ => True := by
  have hrecord : ∀ m item state, Safely (fun w => w.files path = none) (fun _ => True)
      (record ω m item state) fun _ _ => True := fun m item state =>
    Safely.record fun now w hw _ _ => ⟨hw, trivial⟩
  refine .purge (fun m item => hrecord m item _) fun m item => .purgeItem (hrecord m item _) ?_
  exact .unlink fun w files hw _ hunlink => ⟨empty_unlink hw hunlink, trivial⟩

/-! ### What a quarantine leaves -/

def Apart (items : List PlanEntry) (w : PayloadStore) : Prop :=
  ∀ item ∈ items, w.files item.archive = none ∨ w.files item.quarantine = none

theorem preflightItem_apart (prior : List (OperationId × BackupId)) (item : PlanEntry) :
    Safely I X (preflightItem ω m prior item)
      fun _ w => X w ∧ (w.files item.archive = none ∨ w.files item.quarantine = none) := by
  have habsent : ∀ {v : Moment} {w : PayloadStore} {path : Path} {b : Bool},
      (.ok (v.absent w path) : Except SafeError Bool) = .ok b → b = true → w.files path = none := by
    intro v w path b hb htrue
    have hval := (Except.ok.inj hb).trans htrue
    rw [Moment.absent, Bool.and_eq_true] at hval
    exact isNone_iff_eq_none.1 hval.1
  refine (Safely.observe _).bind fun archiveAbsent => (Safely.observe _).bind fun away => ?_
  refine Safely.ite (fun _ => Safely.refuse _) fun hnot => ?_
  have hkeep : ∀ w, ((X w ∧ ∃ v : Moment, (.ok (v.absent w item.archive) :
      Except SafeError Bool) = .ok archiveAbsent) ∧ ∃ v : Moment,
      (.ok (v.absent w item.quarantine) : Except SafeError Bool) = .ok away) →
      X w ∧ (w.files item.archive = none ∨ w.files item.quarantine = none) := by
    rintro w ⟨⟨hX, v, harchive⟩, v', hquarantine⟩
    refine ⟨hX, ?_⟩
    cases archiveAbsent with
    | true => exact .inl (habsent harchive rfl)
    | false =>
      cases away with
      | true => exact .inr (habsent hquarantine rfl)
      | false => exact absurd rfl hnot
  refine .ite (fun _ => ?_) fun _ => .ite (fun _ => ?_) fun _ => .refuse _
  all_goals exact (Reads.observe _ _ _).post fun _ w hw => hkeep w hw

theorem quarantineItem_empties (hroots : svc.RootsApart) {items : List PlanEntry}
    (hitems : ∀ item ∈ items, ∃ root, Planned svc m item root)
    (prior : List (OperationId × BackupId)) {item : PlanEntry} (hitem : item ∈ items)
    {done : List PlanEntry} (hdone : ∀ other ∈ done, other ∈ items) :
    Safely (fun _ => True)
      (fun w => Apart items w ∧ ∀ other ∈ done, w.files other.archive = none)
      (quarantineItem ω m prior item)
      fun _ w => Apart items w ∧ ∀ other ∈ done ++ [item], w.files other.archive = none := by
  have hstay : ∀ {w : PayloadStore}, Apart items w → (w.files item.quarantine).isSome = true →
      (∀ other ∈ done, w.files other.archive = none) →
      ∀ other ∈ done ++ [item], w.files other.archive = none := by
    intro w hapart hsome hall
    refine forall_mem_concat hall ((hapart item hitem).resolve_right fun hnone => ?_)
    rw [hnone] at hsome
    cases hsome
  have hlook : ∀ {v : Moment} {w : PayloadStore} {path : Path},
      (v.look w path).isSome = true → (w.files path).isSome = true := by
    intro v w path hsome
    obtain ⟨f, hf⟩ := isSome_iff_exists.1 hsome
    rw [Moment.look_eq_some hf]
    rfl
  have hverified : ∀ {v : Moment} {w : PayloadStore} {path : Path} {u : Unit},
      verifyPayload item.entry false (v.look w path) = .ok u → (w.files path).isSome = true := by
    intro v w path u hverify
    obtain ⟨f, hf, _⟩ := verifyPayload_ok hverify
    exact hlook (by rw [hf]; rfl)
  refine .look fun _ => .look fun _ => ?_
  refine .look fun state => .ite (fun _ => ?_) fun _ => ?_
  · -- moved before, and verified there
    refine (Safely.observe _).post ?_
    rintro _ w ⟨⟨hapart, hall⟩, v, hverify⟩
    exact ⟨hapart, hstay hapart (hverified hverify) hall⟩
  refine .look fun moved => .ite (fun _ => ?_) fun _ => ?_
  · -- moved by a call that was stopped
    refine (Safely.observe _).bind fun _ => Safely.bind (Y := fun _ w => Apart items w ∧
      ∀ other ∈ done ++ [item], w.files other.archive = none) ?_ fun _ => ?_
    · refine (Reads.observe _ _ _).post ?_
      rintro _ w ⟨⟨hapart, hall⟩, v, hverify⟩
      exact ⟨hapart, hstay hapart (hverified hverify) hall⟩
    · exact .record fun now w _ hw _ => ⟨trivial, hw⟩
  · -- moved now
    refine .look fun _ => .look fun _ => ?_
    refine .bind (Y := fun _ w => Apart items w ∧
      ∀ other ∈ done ++ [item], w.files other.archive = none)
      (.rename fun now w files _ hw hrename => ⟨trivial, ?_⟩) fun _ => ?_
    · obtain ⟨hapart, hall⟩ := hw
      obtain ⟨r, hplanned⟩ := hitems item hitem
      have harchive : ∀ other ∈ items, w.files other.archive = none →
          files other.archive = none := by
        intro other hother hnone
        obtain ⟨r', hother'⟩ := hitems other hother
        exact empty_rename (hplanned.quarantine_ne_archive hother' hroots).symm hnone hrename
      have hmoved : files item.archive = none := by
        obtain ⟨f, _, _, rfl⟩ := Filesystem.rename_eq_ok hrename
        rw [update_of_ne (hplanned.quarantine_ne_archive hplanned hroots).symm, update_self]
      refine ⟨fun other hother => ?_, forall_mem_concat (fun other hother =>
        harchive other (hdone other hother) (hall other hother)) hmoved⟩
      rcases hapart other hother with hnone | hnone
      · exact .inl (harchive other hother hnone)
      · by_cases hsame : other.quarantine = item.quarantine
        · -- one quarantine path, one archive path
          obtain ⟨r', hother'⟩ := hitems other hother
          rw [hother'.quarantine, hplanned.quarantine] at hsame
          obtain ⟨hroot, _, hid⟩ := quarantinePath_inj hsame
          refine .inl ?_
          rw [hother'.archive, hroot, hid, ← hplanned.archive]
          exact hmoved
        · exact .inr (empty_rename hsame hnone hrename)
    · refine .look fun _ => .look fun _ => ?_
      exact .record fun now w _ hw _ => ⟨trivial, hw⟩

theorem eligible_entries (entries : List ManifestEntry) :
    Safely I X (entries.forM (assertCatalogEligible ω)) fun _ w => X w ∧
      ∀ e ∈ entries, ∃ n v, ω n = some v ∧ v.catalogEligible e = .ok () := by
  refine (forM (fun done w => X w ∧
    ∀ e ∈ done, ∃ n v, ω n = some v ∧ v.catalogEligible e = .ok ()) entries
    fun done e rest _ => ?_).conseq (fun w hw => ⟨hw, fun _ he => by cases he⟩) fun _ _ hw => hw
  refine (Safely.observe_moment _).post ?_
  rintro _ w ⟨⟨hX, hall⟩, n, v, hv, heligible⟩
  exact ⟨hX, forall_mem_concat hall ⟨n, v, hv, heligible⟩⟩

variable (svc ω) in
/-- **A quarantine that returns has emptied the archive paths** of generations that were in the
catalog. -/
theorem quarantine_absent (hapart : svc.RootsApart) (operationId : OperationId)
    (ownJob : Option ℕ) :
    Safely (fun _ => True) (fun _ => True) (quarantine svc ω operationId ownJob)
      fun _ w => ∃ m, svc.manifests operationId = some m ∧ ∀ e ∈ m.entries,
        (∃ root, svc.backupRoot e.profileId = some root ∧
          w.files (archivePath root e.backupId) = none) ∧
        ∃ n v, ω n = some v ∧ v.catalogEligible e = .ok () := by
  refine load_then fun m hm hop => ?_
  refine .look fun _ => .look fun _ => ?_
  refine .look fun _ => (reads_assertBoundaries ω ownJob).before fun _ => ?_
  refine .look fun prior => ?_
  -- what the checks have seen
  have hpreflight : Safely (fun _ => True) (fun _ => True) (assertPreflight svc ω m) fun _ w =>
      (∀ e ∈ m.entries, ∃ n v, ω n = some v ∧ v.catalogEligible e = .ok ()) ∧
        ∀ items, svc.plan m = .ok items → Apart items w := by
    refine (eligible_entries m.entries).bind fun _ => .look fun prior => ?_
    refine planOf_then fun items hplan => ?_
    refine (forM (fun done w => (True ∧ ∀ e ∈ m.entries, ∃ n v, ω n = some v ∧
      v.catalogEligible e = .ok ()) ∧ Apart done w) items fun done item rest _ => ?_).conseq
      (fun w hw => ⟨hw, fun _ hitem => by cases hitem⟩)
      fun _ w hw => ⟨hw.1.2, fun items' hplan' => ?_⟩
    · refine (preflightItem_apart prior item).post ?_
      rintro _ w ⟨⟨heligible, hdone⟩, hitem⟩
      exact ⟨heligible, forall_mem_concat hdone hitem⟩
    · obtain rfl : items = items' := Except.ok.inj (hplan.symm.trans hplan')
      exact hw.2
  refine hpreflight.bind fun _ => .fact fun heligible => ?_
  refine planOf_then fun items hplan => ?_
  obtain ⟨hentries, hplanned⟩ := plan_planned hplan
  refine (reads_assertBoundaries ω ownJob).before fun _ => ?_
  refine (Reads.forM items (reads_ensureQuarantine ω)).before fun _ => ?_
  refine .bind (Y := fun _ => Apart items) ?_ fun _ => ?_
  · refine (forM (fun _ => Apart items) items fun done item rest _ => ?_).conseq
      (fun w hw => hw items hplan) fun _ _ hw => hw
    refine .look fun state => Safely.ite (fun _ => ?_) fun _ => ?_
    · exact .look fun _ => .record fun now w _ hw _ => ⟨trivial, hw⟩
    · exact .pure fun _ _ h => h
  refine .bind (Y := fun _ w => ∀ item ∈ items, w.files item.archive = none) ?_ fun _ => ?_
  · refine (forM (fun done w => Apart items w ∧
      ∀ other ∈ done, w.files other.archive = none) items fun done item rest hitems => ?_).conseq
      (fun w hw => ⟨hw, fun _ hother => by cases hother⟩) fun _ _ hw => hw.2
    exact quarantineItem_empties hapart hplanned prior (by simp [hitems]) fun other hother => by
      simp [hitems, hother]
  · refine (Reads.observe _ _ _).post fun _ w hall => ?_
    refine ⟨m, hm, fun e he => ⟨?_, heligible e he⟩⟩
    rw [← hentries] at he
    obtain ⟨item, hitem, rfl⟩ := mem_map.1 he
    obtain ⟨root, hroot⟩ := hplanned item hitem
    exact ⟨root, hroot.registered, hroot.archive ▸ hall item hitem⟩

end Retirement

namespace Reconcile

open Protection (Reader)
open Retirement (RetirementService RetirementCall PayloadFile PayloadFiles PayloadStore Moment
  OperationId archivePath Safely quarantine_absent quarantine_keeps_empty purge_keeps_empty Path
  ManifestEntry RetirementReport)

/-! ### Retirements over a world -/

section Worlds

variable {β : Type} (svc : RetirementService) (read : PayloadFile → Option β)

/-- The archives that the planner finds in the backup roots; `read` gives the contents of a regular
file. -/
def archivesIn (files : PayloadFiles) (p i : String) : Option β :=
  (ProfileId.ofValue p).bind fun profile => (svc.backupRoot profile).bind fun root =>
    (files (archivePath root i)).bind read

/-- The row of `backups`, as retirement reads it. -/
def catalogRow (r : Retirement.CatalogRow) : CatalogRow :=
  ⟨r.id, r.profileId.value, r.sizeBytes, r.verified, r.isProtected⟩

/-- The text of `prune_state`. -/
def pruneText : Protection.PruneState → String
  | .notStarted => "not_started"
  | .pending => "pending"
  | .succeeded => "succeeded"
  | .failed => "failed"
  | .deleted => "deleted"

/-- A moment of a call shows the two tables of the world. -/
structure Shows (w : World β) (v : Moment) : Prop where
  backups : v.backups.map catalogRow = w.catalog.rows
  protections : v.protections = w.protections.rows.map fun r => ⟨r.backupId, pruneText r.pruneState⟩

/-- An operation on generations that are not retained is quarantined and then purged. -/
structure Retires (w : World β) (op : OperationId) (s s' : PayloadStore) : Prop where
  older : ∀ m, svc.manifests op = some m → ∀ e ∈ m.entries,
    e.backupId ∉ w.retained e.profileId.value
  runs : ∃ ownJob ω report s₁ ownJob' ω' report',
    (∀ n v, ω n = some v → Shows w v) ∧ (∀ n v, ω' n = some v → Shows w v) ∧
    (RetirementCall.mk .quarantine op ownJob ω).run svc s = (.ok report, s₁) ∧
    (RetirementCall.mk .purge op ownJob' ω').run svc s₁ = (.ok report', s')

inductive Retirements (w : World β) : List OperationId → PayloadStore → PayloadStore → Prop
  | nil (s : PayloadStore) : Retirements w [] s s
  | cons {op : OperationId} {ops : List OperationId} {s s₁ s' : PayloadStore} :
      Retires svc w op s s₁ → Retirements w ops s₁ s' → Retirements w (op :: ops) s s'

/-- A generation in the catalog has no archive. -/
def Missing (w : World β) (s : PayloadStore) : Prop :=
  ∃ c ∈ w.catalog.rows, ∃ profile root, c.profileId = profile.value ∧
    svc.backupRoot profile = some root ∧ s.files (archivePath root c.id) = none

variable {svc read} {w : World β} {op : OperationId} {s s' : PayloadStore}

theorem Retires.keeps (hapart : svc.RootsApart) (h : Retires svc w op s s') {profile : ProfileId}
    {root : Path} (hroot : svc.backupRoot profile = some root) {i : String}
    (hs : s.files (archivePath root i) = none) : s'.files (archivePath root i) = none := by
  obtain ⟨ownJob, ω, report, s₁, ownJob', ω', report', _, _, hq, hp⟩ := h.runs
  have hs₁ := (quarantine_keeps_empty svc ω hapart i hroot op ownJob).ended hs trivial
  obtain rfl := congrArg Prod.snd hq
  have hs' := (purge_keeps_empty svc ω' (archivePath root i) op ownJob').ended hs₁ trivial
  obtain rfl := congrArg Prod.snd hp
  exact hs'

theorem Shows.mem_catalog {v : Moment} (h : Shows w v) {e : ManifestEntry}
    (heligible : v.catalogEligible e = .ok ()) :
    ∃ c ∈ w.catalog.rows, c.id = e.backupId ∧ c.profileId = e.profileId.value := by
  rw [Moment.catalogEligible] at heligible
  cases hrow : v.backups.find? (·.id = e.backupId) with
  | none =>
    rw [hrow] at heligible
    cases heligible
  | some row =>
    rw [hrow] at heligible
    obtain ⟨hprofile, _⟩ := Retirement.rejectWhen_bind heligible
    rw [decide_eq_false_iff_not, not_not] at hprofile
    have hid : row.id = e.backupId := by simpa using find?_some hrow
    refine ⟨catalogRow row, ?_, hid, congrArg ProfileId.value hprofile⟩
    rw [← h.backups]
    exact mem_map_of_mem (mem_of_find?_eq_some hrow)

theorem exists_entry {m : Retirement.RetirementManifest} (hm : svc.manifests op = some m) :
    ∃ e, e ∈ m.entries := by
  obtain ⟨hempty, _⟩ := Retirement.rejectWhen_bind (svc.loaded op m hm).2
  rw [Bool.or_eq_false_iff, isEmpty_eq_false_iff] at hempty
  exact exists_mem_of_ne_nil _ hempty.1

theorem Retires.missing (hapart : svc.RootsApart) (h : Retires svc w op s s') :
    Missing svc w s' := by
  obtain ⟨ownJob, ω, report, s₁, ownJob', ω', report', hshows, _, hq, hp⟩ := h.runs
  obtain ⟨_, m, hm, hall⟩ := (quarantine_absent svc ω hapart op ownJob).returned trivial
    trivial (congrArg Prod.fst hq)
  obtain ⟨e, he⟩ := exists_entry hm
  obtain ⟨⟨root, hroot, hempty⟩, n, v, hv, heligible⟩ := hall e he
  obtain ⟨c, hc, hid, hprofile⟩ := (hshows n v hv).mem_catalog heligible
  have hs' := (purge_keeps_empty svc ω' (archivePath root e.backupId) op
    ownJob').ended hempty trivial
  obtain rfl := congrArg Prod.snd hq
  obtain rfl := congrArg Prod.snd hp
  exact ⟨c, hc, e.profileId, root, hprofile, hroot, hid.symm ▸ hs'⟩

theorem Retirements.missing (hapart : svc.RootsApart) {ops : List OperationId}
    (h : Retirements svc w ops s s') (hs : Missing svc w s) : Missing svc w s' := by
  induction h with
  | nil s => exact hs
  | cons hfirst _ ih =>
    obtain ⟨c, hc, profile, root, hprofile, hroot, hempty⟩ := hs
    exact ih ⟨c, hc, profile, root, hprofile, hroot, hfirst.keeps hapart hroot hempty⟩

theorem not_ready_of_missing [DecidableEq β] {R : Reader β} (h : Missing svc w s) :
    ¬ ∃ plan, buildFixedPlan R { w with archives := archivesIn svc read s.files } = .ok plan ∧
      plan.ready = true := by
  rintro ⟨plan, hplan, hready⟩
  obtain ⟨c, hc, profile, root, hprofile, hroot, hempty⟩ := h
  obtain ⟨b, hb, _⟩ := (sound_of_ready hplan hready).archived c hc
  have hnone : archivesIn svc read s.files c.profileId c.id = none := by
    rw [archivesIn, hprofile, ProfileId.ofValue_value, bind_some, hroot, bind_some,
      hempty, bind_none]
  cases hnone.symm.trans hb

end Worlds

/-- **Retirement blocks reconciliation**: after operations have been retired, the fixed plan is
ready exactly when there were none, if no backup root lies below another one. -/
theorem ready_after_retirement_iff {β : Type} [DecidableEq β] (R : Reader β)
    (svc : RetirementService) (hapart : svc.RootsApart) (read : PayloadFile → Option β)
    (w : World β) (ops : List OperationId) (s s' : PayloadStore) (plan : Plan)
    (hplan : buildFixedPlan R { w with archives := archivesIn svc read s.files } = .ok plan)
    (hready : plan.ready = true) (hrun : Retirements svc w ops s s') :
    (∃ plan', buildFixedPlan R { w with archives := archivesIn svc read s'.files } = .ok plan' ∧
      plan'.ready = true) ↔ ops = [] := by
  cases hrun with
  | nil => exact ⟨fun _ => rfl, fun _ => ⟨plan, hplan, hready⟩⟩
  | cons hfirst hrest =>
    refine ⟨fun hafter => absurd hafter ?_, fun hnil => by cases hnil⟩
    exact not_ready_of_missing (hrest.missing hapart (hfirst.missing hapart))

/-! ### Retiring the oldest of three generations -/

/-- The contents of a payload are the payload itself; its inode says which generation it is. -/
def payloadReader : Reader PayloadFile where
  size := PayloadFile.sizeBytes
  sha256 := fun _ => String.ofList (replicate 64 '0')
  manifest := fun f => .ok ⟨1, "terraria-vanilla", sampleId
    (if f.inode = 1 then "20260101" else if f.inode = 2 then "20260102" else "20260103")⟩
  sha256_hex := fun _ => by decide

def payloadRoot : Path := [.name "backups", .name "terraria-vanilla"]

def oldestEntry : ManifestEntry :=
  ⟨sampleId "20260101", .terrariaVanilla, 1, 1, 10, 5, 5, "d1"⟩

def oldestManifest : Retirement.RetirementManifest :=
  ⟨"A", "p1", [oldestEntry],
    ⟨"laptop", true, 0, "r1", [⟨sampleId "20260101", .terrariaVanilla, 10, "d1"⟩]⟩⟩

def oldestService : RetirementService where
  backupRoot := fun p => if p = .terrariaVanilla then some payloadRoot else none
  manifests := fun op => if op = "A" then some oldestManifest else none
  receiptDigest := fun _ _ _ => "r1"
  loaded := by
    intro op m h
    split at h
    · rename_i hop
      cases h
      exact ⟨hop.symm, rfl⟩
    · cases h

theorem oldestService_rootsApart : oldestService.RootsApart := by
  have hroot {p : ProfileId} {r : Path} (h : oldestService.backupRoot p = some r) :
      p = .terrariaVanilla :=
    (ite_none_right_eq_some.1 h).1
  exact fun p q r s hp hq _ => (hroot hp).trans (hroot hq).symm

def payloadOf (inode : ℕ) : PayloadFile := ⟨true, 1, 1, inode, 10, 5, 5, "d1"⟩

def threePayloads : PayloadStore where
  files := fun path =>
    if path = archivePath payloadRoot (sampleId "20260101") then some (payloadOf 1)
    else if path = archivePath payloadRoot (sampleId "20260102") then some (payloadOf 2)
    else if path = archivePath payloadRoot (sampleId "20260103") then some (payloadOf 3)
    else none
  ledger := .empty

/-- The two newest generations are protected and have to be uploaded. -/
def threeRows : World PayloadFile where
  catalog :=
    { rows := [⟨sampleId "20260101", "terraria-vanilla", 10, true, false⟩,
        ⟨sampleId "20260102", "terraria-vanilla", 10, true, true⟩,
        ⟨sampleId "20260103", "terraria-vanilla", 10, true, true⟩]
      unique := by decide }
  protections := .empty
  archives := fun _ _ => none
  staged := fun _ _ => none
  remote := .empty

def threeMoment (now : ℕ) : Moment where
  now := now
  leaseHeld := true
  senderFree := true
  directoryRefusal := fun _ => none
  unreadable := fun _ => false
  backups := [⟨sampleId "20260101", .terrariaVanilla, 10, true, false⟩,
    ⟨sampleId "20260102", .terrariaVanilla, 10, true, true⟩,
    ⟨sampleId "20260103", .terrariaVanilla, 10, true, true⟩]
  protections := []
  confirmations := []
  mentions := fun _ _ => false
  jobs := []
  faults := Sqlite.noFault

def afterQuarantine : Except Retirement.Failure RetirementReport × PayloadStore :=
  (RetirementCall.mk .quarantine "A" none fun n => some (threeMoment n)).run oldestService
    threePayloads

def afterPurge : Except Retirement.Failure RetirementReport × PayloadStore :=
  (RetirementCall.mk .purge "A" none fun n => some (threeMoment n)).run oldestService
    afterQuarantine.2

theorem exists_report {x : Except Retirement.Failure RetirementReport × PayloadStore}
    (h : x.1.toOption.isSome = true) : ∃ report, x = (.ok report, x.2) := by
  obtain ⟨r, s⟩ := x
  cases r with
  | error e => cases h
  | ok report => exact ⟨report, rfl⟩

theorem oldest_retired : Retirements oldestService threeRows ["A"] threePayloads afterPurge.2 := by
  have hshows : ∀ n v, (fun n => some (threeMoment n)) n = some v → Shows threeRows v := by
    rintro n _ ⟨⟩
    exact ⟨rfl, rfl⟩
  obtain ⟨report, hquarantine⟩ := exists_report (x := afterQuarantine) (by decide +kernel)
  obtain ⟨report', hpurge⟩ := exists_report (x := afterPurge) (by decide +kernel)
  refine .cons ⟨?_, none, _, report, _, none, _, report', hshows, hshows, hquarantine, hpurge⟩
    (.nil _)
  intro m hm e he
  cases hm
  obtain rfl := mem_singleton.1 he
  decide +kernel

theorem three_ready : ∃ plan, buildFixedPlan payloadReader
    { threeRows with archives := archivesIn oldestService some threePayloads.files } = .ok plan ∧
    plan.ready = true := by
  have hready : ((buildFixedPlan payloadReader { threeRows with
      archives := archivesIn oldestService some threePayloads.files }).toOption.map Plan.ready) =
      some true := by decide +kernel
  cases hplan : buildFixedPlan payloadReader
      { threeRows with archives := archivesIn oldestService some threePayloads.files } with
  | error e => simp [hplan, Except.toOption] at hready
  | ok plan =>
    rw [hplan] at hready
    exact ⟨plan, rfl, some.inj hready⟩

/-- A plan that is ready, and the retirement of the oldest generation. -/
theorem ready_after_retirement_iff_oldest :
    Retirements oldestService threeRows ["A"] threePayloads afterPurge.2 ∧
      ((∃ plan, buildFixedPlan payloadReader { threeRows with
        archives := archivesIn oldestService some afterPurge.2.files } = .ok plan ∧
        plan.ready = true) ↔ ["A"] = []) := by
  obtain ⟨plan, hplan, hready⟩ := three_ready
  exact ⟨oldest_retired, ready_after_retirement_iff payloadReader oldestService
    oldestService_rootsApart some threeRows ["A"] threePayloads afterPurge.2 plan hplan hready
    oldest_retired⟩

/-- After the retirement of the oldest generation no plan is ready. -/
theorem retired_generation_blocks :
    (∃ plan, buildFixedPlan payloadReader { threeRows with
      archives := archivesIn oldestService some threePayloads.files } = .ok plan ∧
      plan.ready = true) ∧
    Retirements oldestService threeRows ["A"] threePayloads afterPurge.2 ∧
    ¬ ∃ plan, buildFixedPlan payloadReader { threeRows with
      archives := archivesIn oldestService some afterPurge.2.files } = .ok plan ∧
      plan.ready = true := by
  refine ⟨three_ready, oldest_retired, ?_⟩
  have hapart := oldestService_rootsApart
  cases oldest_retired with
  | cons hfirst hrest =>
    exact not_ready_of_missing (hrest.missing hapart (hfirst.missing hapart))

end Reconcile

end Horizon
