/-
**Retirement never loses an unconfirmed payload.**

The payload of a manifest entry has one archive path, and one quarantine path for each operation.
At the start it is at exactly one of them.  The calls move it between these paths, with renames that
do not replace; and they remove it only when the ledger already has the intent to purge, under an
operation whose receipt lists a verified copy.  So it is at exactly one of its paths, or that row is
there, after any sequence of calls, however each of them ended.

Main results:

* `retirement_keeps_payloads` — **any sequence of calls**.
-/

import Horizon.RetirementRules

namespace Horizon.Retirement

open List
open Ledger (stateOf_upsert)
open Coroutine (forall_mem_concat)
open Filesystem (HeldOnce)

/-! ### Where a payload can be -/

/-- The archive path, and the quarantine path of each operation. -/
def places (root : Path) (id : BackupId) : Set Path :=
  { p | p = archivePath root id ∨ ∃ op, p = quarantinePath root op id }

variable {id id' : BackupId} {r s : Path}

theorem archivePath_inj (h : archivePath r id = archivePath s id') : r = s ∧ id = id' := by
  obtain ⟨hroot, hlast⟩ := append_inj' h rfl
  exact ⟨hroot, by simpa using hlast⟩

theorem quarantinePath_inj {op op' : OperationId}
    (h : quarantinePath r op id = quarantinePath s op' id') : r = s ∧ op = op' ∧ id = id' := by
  obtain ⟨hroot, hlast⟩ := append_inj' h rfl
  exact ⟨hroot, by simpa using hlast⟩

/-- The last part of each path is the payload's. -/
theorem id_eq_of_places {path : Path} (h : path ∈ places r id) (h' : path ∈ places s id') :
    id = id' := by
  have hlast {r : Path} {id : BackupId} (h : path ∈ places r id) :
      path.getLast? = some (.payload id) := by
    rcases h with rfl | ⟨op, rfl⟩
    · simp [archivePath]
    · simp [quarantinePath]
  simpa using (hlast h).symm.trans (hlast h')

/-- A quarantine path is an archive path only below another root. -/
theorem prefix_of_quarantine_eq_archive {op : OperationId}
    (h : quarantinePath r op id = archivePath s id') : s = r ++ [.retired, .operation op] := by
  have hsplit : (r ++ [.retired, .operation op]) ++ [.payload id] = s ++ [.payload id'] := by
    simpa [quarantinePath, archivePath] using h
  exact (append_inj' hsplit rfl).1.symm

namespace RetirementService

variable (svc : RetirementService) (e : ManifestEntry) (w : PayloadStore)

/-- The payload of `e` is at exactly one of its paths, with its identity. -/
def Present : Prop :=
  ∃ root, svc.backupRoot e.profileId = some root ∧
    HeldOnce (places root e.backupId) (PayloadFile.HasIdentity e) w.files

end RetirementService

/-- The receipt is for a verified copy of the payload of `e`. -/
def RemoteReceipt.Lists (r : RemoteReceipt) (e : ManifestEntry) : Prop :=
  r.verified = true ∧ ⟨e.backupId, e.profileId, e.sizeBytes, e.sha256⟩ ∈ r.members

namespace RetirementService

variable (svc : RetirementService) (e : ManifestEntry) (w : PayloadStore)

/-- The ledger has the intent to purge the payload of `e`, or has purged it, under an operation
whose receipt lists it. -/
def Confirmed : Prop :=
  ∃ op m state, svc.manifests op = some m ∧ m.receipt.Lists e ∧
    w.ledger.stateOf op e.backupId = some state ∧ state.purgeIntent = true

def Kept : Prop := svc.Present e w ∨ svc.Confirmed e w

end RetirementService

section Places

variable {svc : RetirementService} {m : RetirementManifest} {item : PlanEntry} {e : ManifestEntry}
  {root root' : Path} (hitem : Planned svc m item root')
  (hroot : svc.backupRoot e.profileId = some root)
include hitem hroot

theorem Planned.root_eq (hprofile : item.entry.profileId = e.profileId) : root' = root := by
  have hregistered := hitem.registered
  rw [hprofile, hroot] at hregistered
  exact (Option.some.inj hregistered).symm

variable (hapart : svc.RootsApart)
include hapart

theorem root_eq_of_append {rest : Path} (h : root' = root ++ rest) : rest = [] := by
  have hsame : e.profileId = item.entry.profileId :=
    hapart _ _ _ _ hroot hitem.registered (h ▸ prefix_append _ _)
  rw [hsame, hitem.registered] at hroot
  cases hroot
  simpa using h

/-- No root lies below another, so only the paths of the same payload meet. -/
theorem archive_mem_places : item.archive ∈ places root e.backupId ↔
      item.entry.profileId = e.profileId ∧ item.entry.backupId = e.backupId := by
  rw [hitem.archive]
  constructor
  · rintro (h | ⟨op, h⟩)
    · obtain ⟨rfl, hid⟩ := archivePath_inj h
      exact ⟨hapart _ _ _ _ hitem.registered hroot (prefix_refl _), hid⟩
    · have hbelow := prefix_of_quarantine_eq_archive h.symm
      cases root_eq_of_append hitem hroot hapart hbelow
  · rintro ⟨hprofile, hid⟩
    rw [hitem.root_eq hroot hprofile, hid]
    exact .inl rfl

theorem quarantine_mem_places : item.quarantine ∈ places root e.backupId ↔
      item.entry.profileId = e.profileId ∧ item.entry.backupId = e.backupId := by
  rw [hitem.quarantine]
  constructor
  · rintro (h | ⟨op, h⟩)
    · have hbelow := prefix_of_quarantine_eq_archive h
      have hsame : item.entry.profileId = e.profileId :=
        hapart _ _ _ _ hitem.registered hroot (hbelow ▸ prefix_append _ _)
      rw [hitem.root_eq hroot hsame] at hbelow
      exact absurd (congrArg length hbelow) (by simp)
    · obtain ⟨rfl, -, hid⟩ := quarantinePath_inj h
      exact ⟨hapart _ _ _ _ hitem.registered hroot (prefix_refl _), hid⟩
  · rintro ⟨hprofile, hid⟩
    rw [hitem.root_eq hroot hprofile, hid]
    exact .inr ⟨m.operationId, rfl⟩

end Places

/-! ### The steps that change something -/

variable {row : LedgerRow} (operationId : OperationId) {state : PayloadState} (ownJob : Option ℕ)
  (op : OperationId)

section Steps

variable {svc : RetirementService} {m : RetirementManifest} {item : PlanEntry} {e : ManifestEntry}
  {w : PayloadStore} {files : PayloadFiles} {root' : Path}

/-- A rename between two paths that are both the payload's or both not. -/
theorem kept_rename {now : ℕ} {source target : Path}
    (hpaths : ∀ root, svc.backupRoot e.profileId = some root →
      (source ∈ places root e.backupId ↔ target ∈ places root e.backupId)) (hw : svc.Kept e w)
    (h : Filesystem.rename (PayloadFile.moved now) source target w.files = .ok files) :
    svc.Kept e ⟨files, w.ledger⟩ := by
  rcases hw with ⟨root, hroot, hheld⟩ | hconfirmed
  · have hmoved := hheld.rename (PayloadFile.hasIdentity_moved e now) (hpaths root hroot) h
    exact .inl ⟨root, hroot, hmoved⟩
  · exact .inr hconfirmed

/-- A removal under the intent to purge, of a file that is the payload of the item. -/
theorem kept_unlink (hapart : svc.RootsApart) (hitem : Planned svc m item root')
    (hm : svc.manifests m.operationId = some m) (hlists : m.receipt.Lists item.entry)
    (hstate : w.ledger.stateOf m.operationId item.entry.backupId = some state)
    (hintent : state.purgeIntent = true) {f : PayloadFile} (hf : w.files item.quarantine = some f)
    (hidentity : f.HasIdentity item.entry) (hw : svc.Kept e w)
    (h : Filesystem.unlink item.quarantine w.files = some files) :
    svc.Kept e ⟨files, w.ledger⟩ := by
  rcases hw with ⟨root, hroot, hheld⟩ | hconfirmed
  · by_cases hmine : item.quarantine ∈ places root e.backupId ∧ f.HasIdentity e
    · -- the payload itself: its copy is confirmed by the receipt of this operation
      obtain ⟨hprofile, hid⟩ := (quarantine_mem_places hitem hroot hapart).mp hmine.1
      obtain ⟨-, -, hsize, -, hdigest⟩ := hmine.2
      obtain ⟨-, -, hsize', -, hdigest'⟩ := hidentity
      refine .inr ⟨m.operationId, m, state, hm, ⟨hlists.1, ?_⟩, ?_, hintent⟩
      · have hmember := hlists.2
        rwa [hid, hprofile, ← hsize', hsize, ← hdigest', hdigest] at hmember
      · rw [← hid]
        exact hstate
    · refine .inl ⟨root, hroot, hheld.unlink ?_ h⟩
      rintro hplace ⟨g, hg, hgidentity⟩
      rw [hf] at hg
      cases hg
      exact hmine ⟨hplace, hgidentity⟩
  · exact .inr hconfirmed

/-- A ledger write that does not turn the intent to purge into a failure. -/
theorem kept_record (hadmits : w.ledger.Admits row) (hfailed : row.state = .failed → ∀ state,
      w.ledger.stateOf row.operationId row.backupId = some state → state.purgeIntent = false)
    (hw : svc.Kept e w) : svc.Kept e ⟨w.files, w.ledger.upsert row⟩ := by
  rcases hw with hpresent | ⟨op, m', state, hm, hlists, hstate, hintent⟩
  · exact .inl hpresent
  · by_cases hkey : (op, e.backupId) = row.key
    · -- the row itself is written: the table of transitions keeps the intent
      refine .inr ⟨op, m', row.state, hm, hlists, ?_, ?_⟩
      · rw [stateOf_upsert, if_pos hkey]
      · obtain ⟨r, hfind, hr⟩ := Option.map_eq_some_iff.mp hstate
        have hnotFailed : row.state ≠ .failed := by
          intro hrow
          obtain ⟨hop, hid⟩ := Prod.mk.inj hkey
          rw [hop, hid] at hstate
          exact absurd (hfailed hrow state hstate) (by simp [hintent])
        rw [hkey] at hfind
        simp only [Ledger.Admits, hfind] at hadmits
        rw [hr] at hadmits
        exact PayloadState.purgeIntent_of_transition hadmits.2 hintent hnotFailed
    · refine .inr ⟨op, m', state, hm, hlists, ?_, hintent⟩
      rw [stateOf_upsert, if_neg hkey]
      exact hstate

/-! ### The three calls -/

variable {ω : Oracle} {X : PayloadStore → Prop}

/-- A ledger write of any state but `failed`. -/
theorem record_kept (hstate : state ≠ .failed) :
    Safely (svc.Kept e) X (record ω m item state) fun _ _ => True :=
  Safely.record fun _ _ hw _ hadmits =>
    ⟨kept_record hadmits (fun hfailed => absurd hfailed hstate) hw, trivial⟩

theorem rename_kept (hapart : svc.RootsApart) (hitem : Planned svc m item root') :
    Safely (svc.Kept e) X (renameNoreplace ω item.archive item.quarantine) (fun _ _ => True) ∧
      Safely (svc.Kept e) X (renameNoreplace ω item.quarantine item.archive) fun _ _ => True := by
  have hpaths (root : Path) (hroot : svc.backupRoot e.profileId = some root) :
      item.archive ∈ places root e.backupId ↔ item.quarantine ∈ places root e.backupId :=
    (archive_mem_places hitem hroot hapart).trans (quarantine_mem_places hitem hroot hapart).symm
  constructor
  · exact .rename fun _ _ _ hw _ h => ⟨kept_rename hpaths hw h, trivial⟩
  · exact .rename fun _ _ _ hw _ h =>
      ⟨kept_rename (fun root hroot => (hpaths root hroot).symm) hw h, trivial⟩

theorem prepareItem_kept :
    Safely (svc.Kept e) (fun _ => True) (prepareItem ω m item) fun _ _ => True := by
  refine .look fun state => .ite (fun _ => ?_) fun _ => ?_
  · exact .look fun _ => record_kept (by decide)
  · exact .pure fun _ _ h => h

theorem quarantineItem_kept (hapart : svc.RootsApart) (hitem : Planned svc m item root')
    (prior : List (OperationId × BackupId)) :
    Safely (svc.Kept e) (fun _ => True) (quarantineItem ω m prior item) fun _ _ => True := by
  exact .quarantineItem (record_kept (by decide)) (rename_kept hapart hitem).1

theorem quarantine_kept (hapart : svc.RootsApart) :
    Safely (svc.Kept e) (fun _ => True) (quarantine svc ω operationId ownJob) fun _ _ => True := by
  refine .quarantine (fun m _ _ => reads_assertPreflight svc ω m _ _)
    (fun m items _ _ _ => .forM (fun _ _ => True) items fun _ _ _ _ => prepareItem_kept)
    fun m items prior _ _ hplan => .forM (fun _ _ => True) items fun done item rest hitems => ?_
  obtain ⟨root, hitem⟩ := (plan_planned hplan).2 item (by simp [hitems])
  exact quarantineItem_kept hapart hitem prior

theorem rollbackItem_kept (hapart : svc.RootsApart) (hitem : Planned svc m item root')
    (prior : List (OperationId × BackupId)) :
    Safely (svc.Kept e) (fun _ => True) (rollbackItem ω m prior item) fun _ _ => True := by
  refine .rollbackItem (rename_kept hapart hitem).2 (record_kept (by decide)) fun state hstate => ?_
  -- the row that is given up was not one with the intent to purge
  refine .record fun now w hw hX hadmits =>
    ⟨kept_record hadmits (fun _ other hother => ?_) hw, trivial⟩
  have hsame : some other = state := hother.symm.trans hX.2
  subst hsame
  rcases hstate with h | h <;> cases h <;> rfl

theorem rollback_kept (hapart : svc.RootsApart) :
    Safely (svc.Kept e) (fun _ => True) (rollback svc ω operationId ownJob) fun _ _ => True := by
  refine .rollback fun m items prior _ _ hplan => ?_
  refine .rollbackItems (X := fun _ _ => True) items fun done item rest hitems => ?_
  obtain ⟨root, hplanned⟩ := (plan_planned hplan).2 item (by simp [hitems])
  exact rollbackItem_kept hapart hplanned prior

/-! ### Purge -/

theorem assertReceipt_lists {u : Unit} (h : m.assertReceipt = .ok u) :
    ∀ entry ∈ m.entries, m.receipt.Lists entry := by
  obtain ⟨hverified, h⟩ := rejectWhen_bind h
  obtain ⟨-, h⟩ := rejectWhen_bind h
  intro entry hentry
  have hmatch := forM_ok h entry hentry
  refine ⟨by simpa using hverified, ?_⟩
  cases hlast : lastBy (·.backupId) m.receipt.members entry.backupId with
  | none => rw [hlast] at hmatch; cases hmatch
  | some member =>
    rw [hlast] at hmatch
    obtain ⟨hprofile, hmatch⟩ := rejectWhen_bind hmatch
    obtain ⟨hsize, hmatch⟩ := rejectWhen_bind hmatch
    have hdigest := rejectWhen_ok hmatch
    simp only [decide_eq_false_iff_not, not_not] at hprofile hsize hdigest
    obtain ⟨hmem, hid⟩ := lastBy_eq_some hlast
    rw [← hid, ← hprofile, ← hsize, ← hdigest]
    exact hmem

/-- Every payload of the manifest has a row, and its state is one of `S`. -/
def RowsIn (m : RetirementManifest) (S : PayloadState → Prop) (w : PayloadStore) : Prop :=
  ∀ entry ∈ m.entries, ∃ state, w.ledger.stateOf m.operationId entry.backupId = some state ∧ S state

/-- Admission to `purge`, and the exact set of rows. -/
theorem rowsIn_of_checks {u u' : Unit} (hadmissible : m.phaseAdmissible .purge w.ledger = .ok u)
    (hset : rejectWhen (!sameSet ((w.ledger.rowsOf m.operationId).map (·.backupId)) m.ids)
      "purge plan does not match the quarantined set" = .ok u') :
    RowsIn m (· ∈ Phase.purge.resumable) w := by
  intro entry hentry
  have hsame := rejectWhen_ok hset
  simp only [Bool.not_eq_false', sameSet, Bool.and_eq_true, all_eq_true,
    decide_eq_true_eq] at hsame
  obtain ⟨row, hrow, hid⟩ := mem_map.mp (hsame.2 entry.backupId (mem_map_of_mem hentry))
  have hstate := rejectWhen_ok (forM_ok hadmissible row hrow)
  simp only [decide_eq_false_iff_not, not_not] at hstate
  refine ⟨row.state, ?_, hstate⟩
  rw [← hid]
  exact Ledger.stateOf_of_mem hrow

/-- A write for one payload of the manifest leaves the states of the others. -/
theorem rowsIn_upsert {S : PayloadState → Prop} (hw : RowsIn m S w) (hrow : S row.state) :
    RowsIn m S ⟨w.files, w.ledger.upsert row⟩ := by
  intro entry hentry
  by_cases hkey : (m.operationId, entry.backupId) = row.key
  · exact ⟨row.state, by rw [stateOf_upsert, if_pos hkey], hrow⟩
  · obtain ⟨state, hstate, hS⟩ := hw entry hentry
    exact ⟨state, by rw [stateOf_upsert, if_neg hkey]; exact hstate, hS⟩

/-- The payload of the item is one that may be removed. -/
def Intended (m : RetirementManifest) (item : PlanEntry) (w : PayloadStore) : Prop :=
  ∃ state, w.ledger.stateOf m.operationId item.entry.backupId = some state ∧
    state.purgeIntent = true

theorem intended_upsert {other : PlanEntry} (hw : Intended m other w)
    (hrow : row.state.purgeIntent = true) : Intended m other ⟨w.files, w.ledger.upsert row⟩ := by
  obtain ⟨state, hstate, hintent⟩ := hw
  by_cases hkey : (m.operationId, other.entry.backupId) = row.key
  · exact ⟨row.state, by rw [stateOf_upsert, if_pos hkey], hrow⟩
  · exact ⟨state, by rw [stateOf_upsert, if_neg hkey]; exact hstate, hintent⟩

/-- After the first loop every payload handled so far has its intent. -/
theorem intendItem_kept (hentry : item.entry ∈ m.entries) (done : List PlanEntry) :
    Safely (svc.Kept e)
      (fun w => RowsIn m (· ∈ Phase.purge.resumable) w ∧ ∀ other ∈ done, Intended m other w)
      (intendItem ω m item)
      fun _ w => RowsIn m (· ∈ Phase.purge.resumable) w ∧
        ∀ other ∈ done ++ [item], Intended m other w := by
  refine (Safely.observe _).bind fun state => Safely.ite (fun hquarantined => ?_) fun hother => ?_
  · refine .look fun _ => ?_
    refine .record fun now w hw hX hadmits => ?_
    obtain ⟨⟨hrows, hdone⟩, -⟩ := hX
    refine ⟨kept_record hadmits nofun hw, ?_, ?_⟩
    · exact rowsIn_upsert hrows (show .purgePrepared ∈ Phase.purge.resumable by decide)
    · refine forall_mem_concat (fun other hmem => intended_upsert (hdone other hmem) rfl) ?_
      exact ⟨.purgePrepared, by rw [stateOf_upsert]; exact if_pos rfl, rfl⟩
  · refine .pure fun w _ hw => ?_
    obtain ⟨⟨hrows, hdone⟩, v, hread⟩ := hw
    refine ⟨hrows, forall_mem_concat hdone ?_⟩
    obtain ⟨found, hfound, hresumable⟩ := hrows _ hentry
    have hstate : some found = state := hfound.symm.trans (Except.ok.inj hread)
    refine ⟨found, hfound, ?_⟩
    subst hstate
    -- of the three states of the phase only `quarantined` is without the intent
    revert hresumable hother
    cases found <;> decide

/-- The second loop: what is removed is the payload of the item, under its intent. -/
theorem purgeItem_kept (hapart : svc.RootsApart) (hitem : Planned svc m item root')
    (hm : svc.manifests m.operationId = some m) (hlists : m.receipt.Lists item.entry)
    {items : List PlanEntry} (hmem : item ∈ items) :
    Safely (svc.Kept e) (fun w => ∀ other ∈ items, Intended m other w) (purgeItem ω m item)
      fun _ w => ∀ other ∈ items, Intended m other w := by
  have hrecord : Safely (svc.Kept e) (fun w => ∀ other ∈ items, Intended m other w)
      (record ω m item .purged) fun _ w => ∀ other ∈ items, Intended m other w := by
    refine .record fun now w hw hX hadmits => ⟨?_, ?_⟩
    · exact kept_record hadmits nofun hw
    · exact fun other hother => intended_upsert (hX other hother) rfl
  refine .purgeItem hrecord (.unlink fun w files hw hX hunlink => ?_)
  obtain ⟨hintended, v, hverify⟩ := hX
  obtain ⟨f, hlook, hintact⟩ := verifyPayload_ok hverify
  have hf := Moment.look_eq_some hlook
  obtain ⟨found, hfound, hintent⟩ := hintended item hmem
  refine ⟨?_, hintended⟩
  exact kept_unlink hapart hitem hm hlists hfound hintent hf hintact.identity hw hunlink

theorem purge_kept (hapart : svc.RootsApart) :
    Safely (svc.Kept e) (fun _ => True) (purge svc ω operationId ownJob) fun _ _ => True := by
  refine load_then fun m hm hop => ?_
  subst hop
  refine .look fun _ => (Safely.observe _).bind fun _ => ?_
  refine .look fun _ => (reads_assertBoundaries ω ownJob).before fun _ => ?_
  refine .observe_pure fun hreceipt => ?_
  refine (Reads.forM _ fun _ => Reads.observe _).before fun _ => ?_
  refine .bind (Y := fun _ => RowsIn m (· ∈ Phase.purge.resumable)) ?_ fun _ => ?_
  · -- the readiness check: its first step has the exact set of rows
    refine .bind (Y := fun _ => RowsIn m (· ∈ Phase.purge.resumable)) ?_ fun _ => ?_
    · refine (Safely.observe _).post ?_
      rintro u w ⟨⟨-, v, hadmissible⟩, v', hset⟩
      exact rowsIn_of_checks hadmissible hset
    · refine .look fun items => ?_
      exact Reads.forM items (reads_purgeReadyItem ω m) _ _
  refine planOf_then fun items hplan => (reads_assertBoundaries ω ownJob).before fun _ => ?_
  have hplanned := (plan_planned hplan).2
  refine .bind (Y := fun _ w => ∀ other ∈ items, Intended m other w) ?_ fun _ => ?_
  · have hloop := Safely.forM (I := svc.Kept e)
      (fun done w => RowsIn m (· ∈ Phase.purge.resumable) w ∧
        ∀ other ∈ done, Intended m other w) (f := intendItem ω m) items
      fun done item rest hitems => by
        obtain ⟨root, hitem⟩ := hplanned item (by simp [hitems])
        exact intendItem_kept hitem.entry done
    exact hloop.conseq (fun w hw => ⟨hw, by simp⟩) fun _ w hw => hw.2
  · refine .bind (Y := fun _ w => ∀ other ∈ items, Intended m other w) ?_
      fun _ => (Reads.observe _ _ _).conseq (fun _ _ => trivial) fun _ _ hw => hw
    refine .forM (fun _ w => ∀ other ∈ items, Intended m other w) items
      fun done item rest hitems => ?_
    have hmem : item ∈ items := by simp [hitems]
    obtain ⟨root, hitem⟩ := hplanned item hmem
    exact purgeItem_kept hapart hitem hm (assertReceipt_lists hreceipt item.entry hitem.entry) hmem

/-! ### Sequences of calls -/

/-- **One call, stopped anywhere.** -/
theorem run_kept (hapart : svc.RootsApart) (c : RetirementCall) (hw : svc.Kept e w) :
    svc.Kept e (c.run svc w).2 := by
  obtain ⟨phase, operationId, ownJob, ω⟩ := c
  cases phase with
  | quarantine => exact (quarantine_kept operationId ownJob hapart).ended hw trivial
  | purge => exact (purge_kept operationId ownJob hapart).ended hw trivial
  | rollback => exact (rollback_kept operationId ownJob hapart).ended hw trivial

/-- **Retirement never loses an unconfirmed payload**, if no backup root lies below another one.
Whatever calls are made for whatever operations, and wherever each of them is stopped: a payload
that a manifest names, and that is at exactly one of its paths at the start (or confirmed already),
is at exactly one of its paths, or the ledger has the intent to purge it under an operation whose
receipt lists it. -/
theorem retirement_keeps_payloads (svc : RetirementService) (hapart : svc.RootsApart)
    (calls : List RetirementCall) (w : PayloadStore) :
    ∀ op m, svc.manifests op = some m → ∀ e ∈ m.entries,
      svc.Present e w ∨ svc.Confirmed e w →
      svc.Present e (svc.runAll calls w) ∨ svc.Confirmed e (svc.runAll calls w) := by
  intro op m _ e _ hw
  induction calls generalizing w with
  | nil => exact hw
  | cons c calls ih => exact ih (c.run svc w).2 (run_kept hapart c hw)

end Steps

/-! ### An example of a service -/

def sampleRoot : Path := [.name "backups", .name "minecraft"]

/-- One payload; the manifest of `B` was written after a rollback of `A`. -/
def sampleEntry : ManifestEntry := ⟨"b1", .minecraft, 1, 7, 10, 5, if op = "A" then 5 else 15, "d1"⟩

def sampleManifest : RetirementManifest :=
  ⟨op, "p1", [sampleEntry op], ⟨"laptop", true, 0, "r1", [⟨"b1", .minecraft, 10, "d1"⟩]⟩⟩

def sampleService : RetirementService where
  backupRoot := fun p => if p = .minecraft then some sampleRoot else none
  manifests := fun op => if op = "A" ∨ op = "B" then some (sampleManifest op) else none
  receiptDigest := fun _ _ _ => "r1"
  loaded := by
    intro op m h
    split at h
    · cases h
      exact ⟨rfl, rfl⟩
    · cases h

theorem sampleService_rootsApart : sampleService.RootsApart := by
  have hroot {p : ProfileId} {r : Path} (h : sampleService.backupRoot p = some r) :
      p = .minecraft :=
    (Option.ite_none_right_eq_some.1 h).1
  exact fun p q r s hp hq _ => (hroot hp).trans (hroot hq).symm

def calmMoment (now : ℕ) : Moment where
  now := now
  leaseHeld := true
  senderFree := true
  directoryRefusal := fun _ => none
  unreadable := fun _ => false
  backups := [⟨"b1", .minecraft, 10, true, false⟩]
  protections := []
  confirmations := []
  mentions := fun _ _ => false
  jobs := []
  faults := Sqlite.noFault

def uninterrupted : Oracle := fun k => some (calmMoment k)

def stoppedAfter (n : ℕ) : Oracle := fun k => if k < n then some (calmMoment k) else none

/-- The payload at its archive path, and an empty ledger. -/
def sampleStore : PayloadStore :=
  ⟨fun p => if p = archivePath sampleRoot "b1" then some ⟨true, 1, 1, 7, 10, 5, 5, "d1"⟩ else none,
    .empty⟩

theorem sampleStore_present : sampleService.Present (sampleEntry "A") sampleStore := by
  refine ⟨sampleRoot, rfl, archivePath sampleRoot "b1", ⟨.inl rfl, _, rfl, by decide⟩, ?_⟩
  rintro y ⟨-, f, hf, -⟩
  by_contra hy
  rw [show sampleStore.files y = none from if_neg hy] at hf
  cases hf

/-- A quarantine that is stopped between the rename and the ledger write, its repetition, and a
purge that is stopped between the removal and the ledger write. -/
def interruptedCalls : List RetirementCall :=
  [⟨.quarantine, "A", none, stoppedAfter 28⟩, ⟨.quarantine, "A", none, uninterrupted⟩,
    ⟨.purge, "A", none, stoppedAfter 27⟩]

/-- The payload is gone, and the ledger has the intent. -/
theorem retirement_keeps_payloads_interrupted :
    sampleService.Present (sampleEntry "A") sampleStore ∧
      (sampleService.runAll interruptedCalls sampleStore).files (archivePath sampleRoot "b1") =
        none ∧
      (sampleService.runAll interruptedCalls sampleStore).files
        (quarantinePath sampleRoot "A" "b1") = none ∧
      (sampleService.Present (sampleEntry "A") (sampleService.runAll interruptedCalls sampleStore) ∨
        sampleService.Confirmed (sampleEntry "A")
          (sampleService.runAll interruptedCalls sampleStore)) :=
  ⟨sampleStore_present, rfl, rfl,
    retirement_keeps_payloads sampleService sampleService_rootsApart interruptedCalls sampleStore
      "A" (sampleManifest "A") rfl (sampleEntry "A") (.head _) (.inl sampleStore_present)⟩

end Horizon.Retirement
