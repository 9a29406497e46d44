/-
**Which interrupted retirements can be rolled back.**

An operation is started by a quarantine that is stopped anywhere, and then rolled back any number of
times, each attempt stopped anywhere.  Between these calls every payload of the manifest is at its
archive path or in the quarantine of the operation, and its row is missing, `prepared`,
`quarantined` or `rolled_back`.

`rollback` admits all three states, but the table of transitions has no step from `prepared` to
`rolled_back`.  So an attempt ends with an exception at the first payload that is still `prepared`,
and no later one gets further; when there is none, and the profiles are registered, an attempt that
nothing disturbs brings every payload back.

Main results:

* `rollback_completes_iff` — **the last attempt succeeds exactly when no payload is `prepared`**;
* `rollback_refused_forever` — an operation for which it never does.
-/

import Horizon.PayloadSafety

namespace Horizon.Retirement

open Option hiding all_eq_true map_map mem_map
open Retirement (observe record)
open Safely (ite)
open List
open Function
open Coroutine (Coro Triple forall_mem_concat)

/-! ### Between two calls -/

/-- The row is the one that `_row` builds for the entry, up to its state and times. -/
structure BoundTo (m : RetirementManifest) (r : LedgerRow) (e : ManifestEntry) : Prop where
  backupId : r.backupId = e.backupId
  profileId : r.profileId = e.profileId
  path : r.path = .payload e.backupId
  device : r.expectedDevice = e.device
  inode : r.expectedInode = e.inode
  size : r.expectedSize = e.sizeBytes
  mtime : r.expectedMtimeNs = e.mtimeNs
  ctime : r.expectedCtimeNs = e.ctimeNs
  sha256 : r.expectedSha256 = e.sha256
  manifest : r.manifestSha256 = m.operationId

/-- Where the payload of `e` is, for a state of its row: `a` is the file at the archive path, `q`
the one in quarantine. -/
def SlotOk (e : ManifestEntry) (state : Option PayloadState) (a q : Option PayloadFile) : Prop :=
  match state with
  | none => q = none
  | some .prepared | some .quarantined =>
    ∃ f : PayloadFile, f.Intact e ∧ ((a = some f ∧ q = none) ∨ (a = none ∧ q = some f))
  | some .rolledBack => ∃ f : PayloadFile, f.Intact e ∧ a = some f ∧ q = none
  | some _ => False

/-- An operation that no call has been made for. -/
structure Unstarted (svc : RetirementService) (m : RetirementManifest) (w : PayloadStore) :
    Prop where
  rows : w.ledger.rowsOf m.operationId = []
  files : ∀ e ∈ m.entries, ∀ root, svc.backupRoot e.profileId = some root →
    w.files (quarantinePath root m.operationId e.backupId) = none

/-- The state of an operation between its calls. -/
structure Midway (svc : RetirementService) (m : RetirementManifest) (w : PayloadStore) :
    Prop where
  bound : ∀ r ∈ w.ledger.rowsOf m.operationId, ∃ e ∈ m.entries, BoundTo m r e
  resumable : ∀ r ∈ w.ledger.rowsOf m.operationId, r.state ∈ Phase.rollback.resumable
  slots : ∀ e ∈ m.entries, ∀ root, svc.backupRoot e.profileId = some root →
    SlotOk e (w.ledger.stateOf m.operationId e.backupId) (w.files (archivePath root e.backupId))
      (w.files (quarantinePath root m.operationId e.backupId))

theorem stateOf_of_no_rows {l : Ledger} {op : OperationId} (h : l.rowsOf op = [])
    (id : BackupId) : l.stateOf op id = none := by
  cases hstate : l.stateOf op id with
  | none => rfl
  | some state =>
    obtain ⟨r, hr, -⟩ := Ledger.stateOf_eq_some hstate
    rw [h] at hr
    cases hr

theorem Unstarted.midway {svc : RetirementService} {m : RetirementManifest} {w : PayloadStore}
    (h : Unstarted svc m w) : Midway svc m w where
  bound := by rw [h.rows]; intro r hr; cases hr
  resumable := by rw [h.rows]; intro r hr; cases hr
  slots := by
    intro e he root hroot
    rw [stateOf_of_no_rows h.rows]
    exact h.files e he root hroot

/-! ### One ledger write, one rename -/

variable {error : Option String} {now : ℕ} {w' : PayloadStore}

section Steps

variable {svc : RetirementService} {m : RetirementManifest} {item : PlanEntry}
  {w : PayloadStore} {root : Path}

theorem mem_upsert {l : Ledger} {row r : LedgerRow} (h : r ∈ (l.upsert row).rows) :
    r = row ∨ (∃ existing ∈ l.rows, existing.key = row.key ∧ r = row.over existing) ∨
      r ∈ l.rows := by
  unfold Ledger.upsert at h
  cases hins : l.insert row with
  | some l' =>
    rw [hins] at h
    rw [(Sqlite.Table.insert_eq_some hins).2] at h
    rcases mem_append.mp h with h | h
    · exact .inr (.inr h)
    · exact .inl (mem_singleton.mp h)
  | none =>
    rw [hins] at h
    obtain ⟨existing, hmem, rfl⟩ := mem_map.mp h
    by_cases hkey : existing.key = row.key
    · exact .inr (.inl ⟨existing, hmem, hkey, by simp [hkey]⟩)
    · exact .inr (.inr (by simpa [hkey] using hmem))

/-- The files at the paths of an item are those of a row in this state. -/
def InSlot (item : PlanEntry) (w : PayloadStore) (state : Option PayloadState) : Prop :=
  SlotOk item.entry state (w.files item.archive) (w.files item.quarantine)

theorem Planned.inSlot_iff (hitem : Planned svc m item root) {state : Option PayloadState} :
    InSlot item w state ↔ SlotOk item.entry state (w.files (archivePath root item.entry.backupId))
      (w.files (quarantinePath root m.operationId item.entry.backupId)) := by
  rw [InSlot, hitem.archive, hitem.quarantine]

theorem Midway.slot (hw : Midway svc m w) (hitem : Planned svc m item root) :
    InSlot item w (w.ledger.stateOf m.operationId item.entry.backupId) :=
  hitem.inSlot_iff.2 (hw.slots item.entry hitem.entry root hitem.registered)

theorem Planned.paths_ne (hitem : Planned svc m item root) : item.archive ≠ item.quarantine := by
  rw [hitem.archive, hitem.quarantine]
  intro h
  have hlength := congrArg length h
  simp [archivePath, quarantinePath] at hlength

variable (hm : svc.manifests m.operationId = some m)
include hm

theorem entries_nodup : (m.entries.map (·.backupId)).Nodup := by
  obtain ⟨-, hparsed⟩ := svc.loaded _ _ hm
  obtain ⟨-, hparsed⟩ := rejectWhen_bind hparsed
  obtain ⟨hnodup, -⟩ := rejectWhen_bind hparsed
  exact not_not.1 (of_decide_eq_false hnodup)

theorem entries_inj {e e' : ManifestEntry} (he : e ∈ m.entries) (he' : e' ∈ m.entries)
    (hid : e.backupId = e'.backupId) : e = e' :=
  inj_on_of_nodup_map (entries_nodup hm) he he' hid

variable (hitem : Planned svc m item root)
include hitem

/-- The two paths of an item are not those of another entry of the manifest. -/
theorem paths_apart {e : ManifestEntry} (he : e ∈ m.entries) (hne : e ≠ item.entry)
    {root' path : Path} (hpath : path = archivePath root' e.backupId ∨
      path = quarantinePath root' m.operationId e.backupId) :
    path ≠ item.archive ∧ path ≠ item.quarantine := by
  have hplace : path ∈ places root' e.backupId := by
    rcases hpath with rfl | rfl
    · exact .inl rfl
    · exact .inr ⟨m.operationId, rfl⟩
  have hother (hmine : path ∈ places root item.entry.backupId) : False :=
    hne (entries_inj hm he hitem.entry (id_eq_of_places hplace hmine))
  constructor
  · rintro rfl
    exact hother (.inl hitem.archive)
  · rintro rfl
    exact hother (.inr ⟨m.operationId, hitem.quarantine⟩)

theorem midway_upsert (hw : Midway svc m w) {state : PayloadState}
    (hstate : state ∈ Phase.rollback.resumable) (hslot : InSlot item w (some state)) :
    Midway svc m ⟨w.files, w.ledger.upsert (rowOf m item state error now)⟩ := by
  have hrow : BoundTo m (rowOf m item state error now) item.entry :=
    ⟨rfl, rfl, rfl, rfl, rfl, rfl, rfl, rfl, rfl, rfl⟩
  refine ⟨?_, ?_, ?_⟩
  · intro r hr
    obtain ⟨hmem, hop⟩ := mem_filter.mp hr
    rcases mem_upsert hmem with rfl | ⟨existing, hmem', hkey, rfl⟩ | hmem'
    · exact ⟨item.entry, hitem.entry, hrow⟩
    · -- of the row that was there the profile stays, and it was the right one
      obtain ⟨hop', hid'⟩ := Prod.mk.inj hkey
      have hthere : existing ∈ w.ledger.rowsOf m.operationId :=
        mem_filter.mpr ⟨hmem', decide_eq_true hop'⟩
      obtain ⟨e, he, hbound⟩ := hw.bound existing hthere
      obtain rfl : e = item.entry := entries_inj hm he hitem.entry (hbound.backupId.symm.trans hid')
      exact ⟨item.entry, hitem.entry, hbound.backupId, hbound.profileId, rfl, rfl, rfl, rfl, rfl,
        rfl, rfl, rfl⟩
    · exact hw.bound r (mem_filter.mpr ⟨hmem', hop⟩)
  · intro r hr
    obtain ⟨hmem, hop⟩ := mem_filter.mp hr
    rcases mem_upsert hmem with rfl | ⟨existing, -, -, rfl⟩ | hmem'
    · exact hstate
    · exact hstate
    · exact hw.resumable r (mem_filter.mpr ⟨hmem', hop⟩)
  · intro e he root' hroot
    rw [Ledger.stateOf_upsert]
    by_cases hkey : (m.operationId, e.backupId) = (rowOf m item state error now).key
    · rw [if_pos hkey]
      obtain rfl : e = item.entry := entries_inj hm he hitem.entry (congrArg Prod.snd hkey)
      rw [hitem.inSlot_iff, hitem.root_eq hroot rfl] at hslot
      exact hslot
    · rw [if_neg hkey]
      exact hw.slots e he root' hroot

theorem midway_files (hw : Midway svc m w) {files : PayloadFiles}
    (hother : ∀ path, path ≠ item.archive → path ≠ item.quarantine → files path = w.files path)
    (hslot : InSlot item ⟨files, w.ledger⟩ (w.ledger.stateOf m.operationId item.entry.backupId)) :
    Midway svc m ⟨files, w.ledger⟩ := by
  refine ⟨hw.bound, hw.resumable, ?_⟩
  intro e he root' hroot
  by_cases hsame : e = item.entry
  · subst hsame
    rw [hitem.inSlot_iff, hitem.root_eq hroot rfl] at hslot
    exact hslot
  · have ha := paths_apart hm hitem he hsame (.inl (Eq.refl (archivePath root' e.backupId)))
    have hq := paths_apart hm hitem he hsame
      (.inr (Eq.refl (quarantinePath root' m.operationId e.backupId)))
    have hslot' := hw.slots e he root' hroot
    rw [← hother _ ha.1 ha.2, ← hother _ hq.1 hq.2] at hslot'
    exact hslot'

end Steps

/-! ### The calls, as far as they get -/

section Calls

variable {svc : RetirementService} {ω : Oracle} {m : RetirementManifest} {item : PlanEntry}
  {w : PayloadStore} {root : Path} {X : PayloadStore → Prop} {I : PayloadStore → Prop}

/-- The payload of the item has been seen at one of its paths. -/
def Located (item : PlanEntry) (w : PayloadStore) : Prop :=
  ∃ f : PayloadFile, f.Intact item.entry ∧
    (w.files item.archive = some f ∨ w.files item.quarantine = some f)

/-- The row of the item is `prepared` or `quarantined`. -/
def Begun (m : RetirementManifest) (item : PlanEntry) (w : PayloadStore) : Prop :=
  w.ledger.stateOf m.operationId item.entry.backupId = some .prepared ∨
    w.ledger.stateOf m.operationId item.entry.backupId = some .quarantined

theorem Midway.state (hw : Midway svc m w) {id : BackupId} {state : PayloadState}
    (h : w.ledger.stateOf m.operationId id = some state) : state ∈ Phase.rollback.resumable := by
  obtain ⟨r, hr, -, rfl⟩ := Ledger.stateOf_eq_some h
  exact hw.resumable r hr

/-- Between the two states of a row that has begun the paths do not tell. -/
theorem Begun.inSlot_iff (h : Begun m item w) :
    InSlot item w' (w.ledger.stateOf m.operationId item.entry.backupId) ↔
      InSlot item w' (some .quarantined) := by
  rcases h with h | h
  · rw [h]
    rfl
  · rw [h]

theorem Midway.begun (hw : Midway svc m w) (hitem : Planned svc m item root)
    (h : Begun m item w) : InSlot item w (some .quarantined) :=
  h.inSlot_iff.1 (hw.slot hitem)

theorem begun_upsert {other : PlanEntry} {row : LedgerRow} (h : Begun m other w)
    (hrow : row.state = .prepared ∨ row.state = .quarantined) :
    Begun m other ⟨w.files, w.ledger.upsert row⟩ := by
  unfold Begun at *
  rw [Ledger.stateOf_upsert]
  by_cases hkey : (m.operationId, other.entry.backupId) = row.key
  · rw [if_pos hkey]
    rcases hrow with hrow | hrow
    · exact .inl (by rw [hrow])
    · exact .inr (by rw [hrow])
  · rw [if_neg hkey]
    exact h

theorem preflightItem_located (prior : List (OperationId × BackupId)) :
    Safely I X (preflightItem ω m prior item) fun _ w => X w ∧ Located item w := by
  refine .look fun archiveAbsent => ?_
  refine .look fun quarantineAbsent => ?_
  refine .ite (fun _ => .refuse _) fun _ => ?_
  have hverify (path : Path) (checkCtime : Bool)
      (hpath : path = item.archive ∨ path = item.quarantine) :
      Safely I X (verify ω item.entry path checkCtime) fun _ w => X w ∧ Located item w := by
    refine (Safely.observe _).post ?_
    rintro u w ⟨hX, v, hok⟩
    obtain ⟨f, hlook, hintact⟩ := verifyPayload_ok hok
    have hf := Moment.look_eq_some hlook
    refine ⟨hX, f, hintact, ?_⟩
    rcases hpath with rfl | rfl
    · exact .inl hf
    · exact .inr hf
  refine .ite (fun _ => hverify _ _ (.inr rfl)) fun _ => ?_
  exact ite (fun _ => hverify _ _ (.inl rfl)) fun _ => Safely.refuse _

theorem assertPreflight_located : Safely I (fun _ => True) (assertPreflight svc ω m) fun _ w =>
    ∀ items, svc.plan m = .ok items → ∀ item ∈ items, Located item w := by
  refine (Reads.forM _ fun entry => Reads.observe _).before fun _ => ?_
  refine .look fun prior => planOf_then fun items hplan => ?_
  have hloop := Safely.forM (I := I) (fun done w => ∀ item ∈ done, Located item w)
    (f := preflightItem ω m prior) items fun done item rest _ => by
      refine (preflightItem_located prior).post ?_
      rintro u w ⟨hdone, hitem⟩
      exact forall_mem_concat hdone hitem
  refine hloop.conseq (fun w _ item hitem => by cases hitem) ?_
  intro u w hall items' hplan'
  obtain rfl : items = items' := Except.ok.inj (hplan.symm.trans hplan')
  exact hall

/-- What has happened to the payloads that `rollback` has handled, and to the others, since the
store was `w₀`. -/
structure Handled (m : RetirementManifest) (w₀ : PayloadStore) (done : List PlanEntry)
    (w : PayloadStore) : Prop where
  settled : ∀ item ∈ done,
    w₀.ledger.stateOf m.operationId item.entry.backupId ≠ some .prepared ∧
      (w.ledger.stateOf m.operationId item.entry.backupId = some .rolledBack ∨
        w.ledger.stateOf m.operationId item.entry.backupId = none ∧
          w₀.ledger.stateOf m.operationId item.entry.backupId = none)
  rest : ∀ id, (∀ item ∈ done, item.entry.backupId ≠ id) →
    w.ledger.stateOf m.operationId id = w₀.ledger.stateOf m.operationId id

variable {items done : List PlanEntry} {w₀ : PayloadStore}

theorem Handled.of_ledger
    (h : Handled m w₀ done w) (hledger : w'.ledger = w.ledger) : Handled m w₀ done w' := by
  constructor
  · rw [hledger]
    exact h.settled
  · rw [hledger]
    exact h.rest

theorem Handled.start (m : RetirementManifest) (w : PayloadStore) : Handled m w [] w :=
  ⟨by simp, fun _ _ => rfl⟩

theorem Handled.keep (h : Handled m w₀ done w)
    (hnew : ∀ other ∈ done, other.entry.backupId ≠ item.entry.backupId)
    (hstate : w.ledger.stateOf m.operationId item.entry.backupId = some .rolledBack ∨
      w.ledger.stateOf m.operationId item.entry.backupId = none) :
    Handled m w₀ (done ++ [item]) w := by
  have hsame := h.rest _ hnew
  constructor
  · refine forall_mem_concat h.settled ?_
    rw [← hsame]
    rcases hstate with hstate | hstate
    · rw [hstate]
      exact ⟨by decide, .inl rfl⟩
    · rw [hstate]
      exact ⟨by decide, .inr ⟨rfl, rfl⟩⟩
  · intro id hid
    exact h.rest id fun other hother => hid other (mem_append_left _ hother)

theorem Handled.roll (h : Handled m w₀ done w)
    (hnew : ∀ other ∈ done, other.entry.backupId ≠ item.entry.backupId)
    (hstate : w.ledger.stateOf m.operationId item.entry.backupId = some .quarantined)
    (files : PayloadFiles) :
    Handled m w₀ (done ++ [item]) ⟨files, w.ledger.upsert (rowOf m item .rolledBack none now)⟩ := by
  have hsame := h.rest _ hnew
  have hother (id : BackupId) (hid : id ≠ item.entry.backupId) :
      (w.ledger.upsert (rowOf m item .rolledBack none now)).stateOf m.operationId id =
        w.ledger.stateOf m.operationId id := by
    rw [Ledger.stateOf_upsert, if_neg]
    intro hkey
    exact hid (congrArg Prod.snd hkey)
  constructor
  · refine forall_mem_concat (fun other hmem => ?_) ?_
    · rw [hother _ (hnew other hmem)]
      exact h.settled other hmem
    · rw [← hsame, hstate]
      refine ⟨by decide, .inl ?_⟩
      rw [Ledger.stateOf_upsert]
      exact if_pos rfl
  · intro id hid
    rw [hother id fun heq => hid item (by simp) heq.symm]
    exact h.rest id fun other hmem => hid other (mem_append_left _ hmem)

variable (hm : svc.manifests m.operationId = some m)
include hm

theorem items_new {rest : List PlanEntry} (hplan : svc.plan m = .ok items)
    (hitems : items = done ++ item :: rest) :
    ∀ other ∈ done, other.entry.backupId ≠ item.entry.backupId := by
  have hnodup := entries_nodup hm
  rw [← (plan_planned hplan).1, map_map, hitems, map_append, nodup_append] at hnodup
  intro other hother hid
  refine hnodup.2.2 _ (mem_map_of_mem hother) _ ?_ hid
  exact mem_map_of_mem (.head _)

variable (hitem : Planned svc m item root)
include hitem

/-- The first loop of `quarantine`. -/
theorem prepareItem_midway (hmem : item ∈ items) (done : List PlanEntry) :
    Safely (Midway svc m)
      (fun w => (∀ other ∈ items, Located other w) ∧ ∀ other ∈ done, Begun m other w)
      (prepareItem ω m item)
      fun _ w => (∀ other ∈ items, Located other w) ∧
        ∀ other ∈ done ++ [item], Begun m other w := by
  refine (Safely.observe _).bind fun state => ite (fun hnew => ?_) fun hold => ?_
  · refine .look fun _ => ?_
    refine .record fun now w hw hX _ => ?_
    obtain ⟨⟨hlocated, hdone⟩, v, hread⟩ := hX
    have hread : w.ledger.stateOf m.operationId item.entry.backupId = state := Except.ok.inj hread
    have hslot := hw.slot hitem
    rw [hread] at hslot
    refine ⟨midway_upsert hm hitem hw (by decide) ?_, hlocated, ?_⟩
    · rcases hnew with rfl | rfl
      · -- no row yet: the payload that was located is the one at the archive path
        have hq : w.files item.quarantine = none := hslot
        obtain ⟨f, hintact, hf | hf⟩ := hlocated item hmem
        · exact ⟨f, hintact, .inl ⟨hf, hq⟩⟩
        · rw [hq] at hf
          cases hf
      · obtain ⟨f, hintact, ha, hq⟩ := hslot
        exact ⟨f, hintact, .inl ⟨ha, hq⟩⟩
    · refine forall_mem_concat (fun other hother => begun_upsert (hdone other hother) (.inl rfl)) ?_
      refine .inl ?_
      rw [Ledger.stateOf_upsert]
      exact if_pos rfl
  · refine .pure fun w hw hX => ?_
    obtain ⟨⟨hlocated, hdone⟩, v, hread⟩ := hX
    have hread : w.ledger.stateOf m.operationId item.entry.backupId = state := Except.ok.inj hread
    refine ⟨hlocated, forall_mem_concat hdone ?_⟩
    unfold Begun
    rw [hread]
    cases state with
    | none => exact absurd (.inl rfl) hold
    | some state =>
      have hresumable := hw.state hread
      revert hold hresumable
      cases state <;> decide

theorem quarantineItem_midway (hmem : item ∈ items) (prior : List (OperationId × BackupId)) :
    Safely (Midway svc m) (fun w => ∀ other ∈ items, Begun m other w)
      (quarantineItem ω m prior item) fun _ w => ∀ other ∈ items, Begun m other w := by
  have hrecord : Safely (Midway svc m) (fun w => ∀ other ∈ items, Begun m other w)
      (record ω m item .quarantined) fun _ w => ∀ other ∈ items, Begun m other w := by
    refine .record fun now w hw hbegun _ => ⟨?_, ?_⟩
    · exact midway_upsert hm hitem hw (by decide) (hw.begun hitem (hbegun item hmem))
    · exact fun other hother => begun_upsert (hbegun other hother) (.inr rfl)
  refine .quarantineItem hrecord (.rename fun now w files hw hbegun hrename => ?_)
  obtain ⟨g, hsource, htarget, rfl⟩ := Filesystem.rename_eq_ok hrename
  refine ⟨midway_files hm hitem hw ?_ ?_, hbegun⟩
  · intro path ha hq
    rw [update_of_ne hq, update_of_ne ha]
  · -- the file that moves is the payload, since the payload is at one of the two paths
    obtain ⟨f, hintact, ⟨ha, -⟩ | ⟨-, hq⟩⟩ := hw.begun hitem (hbegun item hmem)
    · obtain rfl : g = f := some.inj (hsource.symm.trans ha)
      refine (hbegun item hmem).inSlot_iff.2 ⟨g.moved now, hintact.moved now, .inr ⟨?_, ?_⟩⟩
      · exact (update_of_ne hitem.paths_ne _ _).trans (update_self _ _ _)
      · exact update_self _ _ _
    · rw [htarget] at hq
      cases hq

/-- The write at the end of a branch of `rollback`: it gets through only for a payload that was
`quarantined`. -/
theorem record_rolledBack (hnew : ∀ other ∈ done, other.entry.backupId ≠ item.entry.backupId) :
    Safely (Midway svc m)
      (fun w => (Handled m w₀ done w ∧ Begun m item w) ∧ InSlot item w (some .rolledBack))
      (record ω m item .rolledBack) fun _ => Handled m w₀ (done ++ [item]) := by
  refine .record fun now w hw hX hadmits => ?_
  obtain ⟨⟨hhandled, hbegun⟩, hfile⟩ := hX
  refine ⟨midway_upsert hm hitem hw (by decide) hfile, ?_⟩
  refine hhandled.roll hnew ?_ w.files
  rcases hbegun with hstate | hstate
  · -- the table has no transition from `prepared`
    obtain ⟨current, hfind, hcurrent⟩ := map_eq_some_iff.mp hstate
    have hfind' : w.ledger.find (rowOf m item .rolledBack none now).key = some current := hfind
    simp only [Ledger.Admits, hfind', hcurrent] at hadmits
    exact absurd hadmits.2 (by change PayloadState.rolledBack ∉ _; decide)
  · exact hstate

/-- The loop of `rollback`: a payload that is `prepared` is never handled. -/
theorem rollbackItem_handled (prior : List (OperationId × BackupId))
    (hnew : ∀ other ∈ done, other.entry.backupId ≠ item.entry.backupId) :
    Safely (Midway svc m) (Handled m w₀ done) (rollbackItem ω m prior item)
      fun _ => Handled m w₀ (done ++ [item]) := by
  refine .look fun _ => (Safely.observe _).bind fun state => ?_
  refine ite (fun hstate => ?_) fun hstate => ?_
  · refine .bind (Y := fun absent w => (Handled m w₀ done w ∧ Begun m item w) ∧
      (absent = true → w.files item.quarantine = none)) ?_ fun quarantineAbsent => ?_
    · refine (Safely.observe _).post ?_
      rintro absent w ⟨⟨hhandled, v, hread⟩, v', habsent⟩
      refine ⟨⟨hhandled, ?_⟩, fun htrue => ?_⟩
      · have hread := Except.ok.inj hread
        rcases hstate with rfl | rfl
        · exact .inl hread
        · exact .inr hread
      · have habsent := (Except.ok.inj habsent).trans htrue
        exact isNone_iff_eq_none.mp (Bool.and_eq_true_iff.mp habsent).1
    refine (Safely.observe _).bind fun archiveAbsent => ?_
    refine ite (fun _ => ?_) fun hq => ite (fun _ => ?_) fun ha => ?_
    · -- the payload is in quarantine: it is moved back
      refine .look fun _ => .look fun _ => ?_
      refine .bind (Y := fun _ w => (Handled m w₀ done w ∧ Begun m item w) ∧
        InSlot item w (some .rolledBack)) (.rename fun now w files hw hX hrename => ?_) fun _ => ?_
      · obtain ⟨⟨⟨hhandled, hbegun⟩, -⟩, -⟩ := hX
        obtain ⟨g, hsource, htarget, rfl⟩ := Filesystem.rename_eq_ok hrename
        obtain ⟨f, hintact, ⟨ha, -⟩ | ⟨-, hq⟩⟩ := hw.begun hitem hbegun
        · rw [htarget] at ha
          cases ha
        · obtain rfl : g = f := some.inj (hsource.symm.trans hq)
          have harchive : update (update w.files item.quarantine none)
              item.archive (some (g.moved now)) item.quarantine = none := by
            rw [update_of_ne (Ne.symm hitem.paths_ne), update_self]
          have hmoved := hintact.moved now
          refine ⟨midway_files hm hitem hw ?_ ?_, ⟨hhandled.of_ledger rfl, hbegun⟩, ?_⟩
          · intro path ha hq
            rw [update_of_ne ha, update_of_ne hq]
          · exact hbegun.inSlot_iff.2 ⟨_, hmoved, .inl ⟨update_self _ _ _, harchive⟩⟩
          · exact ⟨_, hmoved, update_self _ _ _, harchive⟩
      · refine .look fun _ => .look fun _ => ?_
        exact (record_rolledBack hm hitem hnew).next (.pure fun _ h => h)
    · -- the payload is at its archive path already
      refine .bind (Y := fun _ w => (Handled m w₀ done w ∧ Begun m item w) ∧
        InSlot item w (some .rolledBack)) ?_ fun _ => ?_
      · refine (Safely.observe _).post ?_
        rintro u w ⟨⟨⟨hboth, hnone⟩, -⟩, v, hverify⟩
        obtain ⟨f, hlook, hintact⟩ := verifyPayload_ok hverify
        refine ⟨hboth, f, hintact, Moment.look_eq_some hlook, hnone ?_⟩
        simpa using hq
      · exact (record_rolledBack hm hitem hnew).next (.pure fun _ h => h)
    · -- it is at neither path, which cannot be
      refine .impossible fun w hw hX => ?_
      obtain ⟨⟨⟨-, hbegun⟩, hnone⟩, v, habsent⟩ := hX
      obtain ⟨f, -, ⟨harchive, -⟩ | ⟨-, hquarantine⟩⟩ := hw.begun hitem hbegun
      · have habsent := (Except.ok.inj habsent).trans (by simpa using ha)
        have hnone' := isNone_iff_eq_none.mp (Bool.and_eq_true_iff.mp habsent).1
        rw [harchive] at hnone'
        cases hnone'
      · rw [hnone (by simpa using hq)] at hquarantine
        cases hquarantine
  · refine .pure fun w hw hX => ?_
    obtain ⟨hhandled, v, hread⟩ := hX
    have hread : w.ledger.stateOf m.operationId item.entry.backupId = state := Except.ok.inj hread
    refine hhandled.keep hnew ?_
    rw [hread]
    cases state with
    | none => exact .inr rfl
    | some state =>
      have hresumable := hw.state hread
      revert hstate hresumable
      cases state <;> decide

omit hm hitem

variable {operationId : OperationId}

/-- **A quarantine, stopped anywhere.** -/
theorem quarantine_midway (hm : svc.manifests operationId = some m) (ownJob : Option ℕ) :
    Safely (Midway svc m) (fun _ => True) (quarantine svc ω operationId ownJob)
      fun _ _ => True := by
  have hsame : ∀ {m'}, svc.manifests operationId = some m' → m' = m := fun hm' =>
    some.inj (hm'.symm.trans hm)
  refine .quarantine (fun _ _ _ => assertPreflight_located)
    (B := fun m items w => ∀ other ∈ items, Begun m other w)
    (fun m' items hm' hop hplan => ?_) fun m' items prior hm' hop hplan => ?_
  · obtain rfl := hsame hm'
    subst hop
    have hloop := Safely.forM
      (fun done w => (∀ other ∈ items, Located other w) ∧ ∀ other ∈ done, Begun m' other w)
      (f := prepareItem ω m') items fun done item rest hitems => by
        have hmem : item ∈ items := by simp [hitems]
        obtain ⟨root, hitem⟩ := (plan_planned hplan).2 item hmem
        exact prepareItem_midway hm hitem hmem done
    exact hloop.conseq (fun w hw => ⟨hw items hplan, by simp⟩) fun _ w hw => hw.2
  · obtain rfl := hsame hm'
    subst hop
    refine (Safely.forM (fun _ w => ∀ other ∈ items, Begun m' other w) items
      fun done item rest hitems => ?_).post fun _ _ _ => trivial
    have hmem : item ∈ items := by simp [hitems]
    obtain ⟨root, hitem⟩ := (plan_planned hplan).2 item hmem
    exact quarantineItem_midway hm hitem hmem prior

/-- **A rollback, stopped anywhere**, and what it has done if it returns. -/
theorem rollback_midway (hm : svc.manifests operationId = some m)
    (ownJob : Option ℕ) (w₀ : PayloadStore) :
    Safely (Midway svc m) (fun w => w = w₀) (rollback svc ω operationId ownJob)
      fun _ w => ∃ items, svc.plan m = .ok items ∧ Handled m w₀ items w := by
  refine .rollback fun m' items prior hm' hop hplan => ?_
  obtain rfl : m = m' := some.inj (hm.symm.trans hm')
  subst hop
  have hstep : ∀ done item rest, items = done ++ item :: rest →
      Safely (Midway svc m) (Handled m w₀ done) (rollbackItem ω m prior item)
        fun _ => Handled m w₀ (done ++ [item]) := by
    intro done item rest hitems
    obtain ⟨root, hitem⟩ := (plan_planned hplan).2 item (by simp [hitems])
    exact rollbackItem_handled hm hitem prior (items_new hm hplan hitems)
  refine (Safely.rollbackItems items hstep).conseq ?_ fun _ w hw => ⟨items, hplan, hw⟩
  rintro w rfl
  exact .start m w

theorem run_midway {c : RetirementCall} (hm : svc.manifests c.operationId = some m)
    (hc : c.phase ≠ .purge) (hw : Midway svc m w) : Midway svc m (c.run svc w).2 := by
  obtain ⟨phase, operationId, ownJob, ω⟩ := c
  cases phase with
  | quarantine => exact (quarantine_midway hm ownJob).ended hw trivial
  | purge => exact absurd rfl hc
  | rollback => exact (rollback_midway hm ownJob w).ended hw rfl

theorem runAll_midway (hm : svc.manifests operationId = some m) {calls : List RetirementCall}
    (hcalls : ∀ c ∈ calls, c.operationId = operationId ∧ c.phase ≠ .purge) (hw : Midway svc m w) :
    Midway svc m (svc.runAll calls w) := by
  induction calls generalizing w with
  | nil => exact hw
  | cons c calls ih =>
    obtain ⟨hop, hphase⟩ := hcalls c (.head _)
    refine ih (fun d hd => hcalls d (.tail _ hd)) ?_
    exact run_midway (hop ▸ hm) hphase hw

end Calls

/-! ### An attempt that nothing disturbs -/

/-- Nothing disturbs the call: the lease is held, the sender's lock is free, no other job runs, no
restore confirmation is pending, and no system call and no statement fails. -/
structure Quiet (ownJob : Option ℕ) (v : Moment) : Prop where
  lease : v.leaseHeld = true
  sender : v.senderFree = true
  readable : ∀ path, v.unreadable path = false
  jobs : v.jobsIdle ownJob = .ok ()
  confirmations : v.confirmationsClear = .ok ()
  faults : v.faults = Sqlite.noFault

def QuietCall (ownJob : Option ℕ) (ω : Oracle) : Prop := ∀ k, ∃ v, ω k = some v ∧ Quiet ownJob v

/-- From the store `w` the call returns, in a store with `Y`. -/
def Surely {α : Type} (w : PayloadStore) (c : Call α) (Y : α → PayloadStore → Prop) : Prop :=
  Triple (Holds fun w' => w' = w) c (fun a => Holds (Y a)) fun _ _ => False

namespace Surely

variable {α β : Type} {ownJob : Option ℕ} {ω : Oracle} {w : PayloadStore}
  {Y : α → PayloadStore → Prop} {Z : β → PayloadStore → Prop}
  {f : Moment → PayloadStore → Except SafeError α} {k : Unit → Call β} {c : Call α}

theorem pure {a : α} (h : Y a w) : Surely w (Pure.pure a) Y := by
  rintro s ⟨hidle, hs⟩
  exact ⟨hidle, hs ▸ h⟩

theorem bind {m : Call α} {k : α → Call β} (hm : Surely w m Y)
    (hk : ∀ a w', Y a w' → Surely w' (k a) Z) : Surely w (m >>= k) Z := by
  refine Triple.bind hm fun a s hs => ?_
  exact hk a s.durable hs.2 s ⟨hs.1, rfl⟩

theorem look (hω : QuietCall ownJob ω) (hf : ∀ v, Quiet ownJob v → ∃ a, f v w = .ok a) :
    Surely w (observe ω f) fun a w' => w' = w ∧ ∃ v, Quiet ownJob v ∧ f v w = .ok a := by
  rintro s ⟨hidle, hs⟩
  obtain ⟨v, hv, hquiet⟩ := hω s.moments
  obtain ⟨a, ha⟩ := hf v hquiet
  have hstep : (observe ω f).run s = (.ok a, s.next) := by
    unfold Coro.run observe
    rw [hv]
    dsimp only
    rw [store_eq_durable hidle, hs, ha]
  rw [hstep]
  exact ⟨hidle, hs, v, hquiet, ha⟩

theorem observe (hω : QuietCall ownJob ω) {k : α → Call β} (a : α)
    (hf : ∀ v, Quiet ownJob v → f v w = .ok a) (hk : Surely w (k a) Z) :
    Surely w (observe ω f >>= k) Z := by
  refine (look hω fun v hv => ⟨a, hf v hv⟩).bind ?_
  rintro b w' ⟨rfl, v, hv, hb⟩
  obtain rfl : a = b := Except.ok.inj ((hf v hv).symm.trans hb)
  exact hk

theorem rename (hω : QuietCall ownJob ω) {source target : Path} {f : PayloadFile}
    (hsource : w.files source = some f) (htarget : w.files target = none)
    (hk : ∀ now files, Filesystem.rename (PayloadFile.moved now) source target w.files =
      .ok files → Surely ⟨files, w.ledger⟩ (k ()) Z) :
    Surely w (renameNoreplace ω source target >>= k) Z := by
  rintro s ⟨hidle, rfl⟩
  obtain ⟨v, hv, hquiet⟩ := hω s.moments
  have hrename : Filesystem.rename (PayloadFile.moved v.now) source target s.files =
      .ok (update (update s.files source none) target (some (f.moved v.now))) := by
    unfold Filesystem.rename
    rw [show s.files source = some f from hsource, show s.files target = none from htarget]
  have hstep : (renameNoreplace ω source target).run s = (.ok (), { s.next with
      files := update (update s.files source none) target (some (f.moved v.now)) }) := by
    unfold Coro.run renameNoreplace
    rw [hv]
    dsimp only
    rw [hrename]
  rw [Coro.run_bind, hstep]
  exact hk v.now _ hrename _ ⟨hidle, rfl⟩

theorem record (hω : QuietCall ownJob ω) {m : RetirementManifest} {item : PlanEntry}
    {state : PayloadState} (hadmits : ∀ now, w.ledger.Admits (rowOf m item state error now))
    (hk : ∀ now, Surely ⟨w.files, w.ledger.upsert (rowOf m item state error now)⟩ (k ()) Z) :
    Surely w (record ω m item state error >>= k) Z := by
  rintro s ⟨hidle, rfl⟩
  obtain ⟨v, hv, hquiet⟩ := hω s.moments
  have hopened : s.ledger = .opened s.ledger.committed := by
    rw [← s.ledger.idle hidle]
    exact Sqlite.Conn.eq_opened hidle
  have hexec : (ledgerWrite (rowOf m item state error v.now)).exec Sqlite.noFault
      (.opened s.ledger.committed) =
        (.opened (s.ledger.committed.upsert (rowOf m item state error v.now)), .value ()) :=
    exec_ledgerWrite_noFault (hadmits v.now)
  have hstep : (record ω m item state error).run s = (.ok (), { s.next with
      ledger := .opened (s.ledger.committed.upsert (rowOf m item state error v.now)) }) := by
    unfold Coro.run record
    rw [hv]
    dsimp only
    rw [hquiet.faults, hopened, hexec]
    rfl
  rw [Coro.run_bind, hstep]
  exact hk v.now _ ⟨rfl, rfl⟩

/-- What holds wherever the call is stopped holds when it returns. -/
theorem and_safely {I X : PayloadStore → Prop} (h : Surely w c fun _ _ => True)
    (h' : Safely I X c Y) (hI : I w) (hX : X w) : Surely w c fun a w' => I w' ∧ Y a w' := by
  refine .conseq (.and h h') ?_ (fun _ _ hs => hs.2) fun _ _ hs => hs.1
  rintro s ⟨hidle, hs⟩
  exact ⟨⟨hidle, hs⟩, hidle, hs ▸ hI, hs ▸ hX⟩

theorem ended (h : Surely w c Y) : ∃ a, (c.run ⟨w.files, .opened w.ledger, 0⟩).1 = .ok a := by
  have hstart : Holds (fun w' => w' = w) ⟨w.files, .opened w.ledger, 0⟩ := ⟨rfl, rfl⟩
  rcases hr : c.run ⟨w.files, .opened w.ledger, 0⟩ with ⟨r, s⟩
  rcases Triple.elim h hstart hr with ⟨a, ha, -⟩ | ⟨e, -, hfalse⟩
  · exact ⟨a, ha⟩
  · exact hfalse.elim

end Surely

section LastAttempt

variable {svc : RetirementService} {ω : Oracle} {m : RetirementManifest} {item : PlanEntry}
  {w w₀ : PayloadStore} {root : Path} {ownJob : Option ℕ} {items : List PlanEntry}
  (hm : svc.manifests m.operationId = some m)
include hm

/-- A row that is `quarantined` may be rolled back. -/
theorem Midway.admits (hw : Midway svc m w) (hentry : item.entry ∈ m.entries)
    (hstate : w.ledger.stateOf m.operationId item.entry.backupId = some .quarantined) (now : ℕ) :
    w.ledger.Admits (rowOf m item .rolledBack none now) := by
  obtain ⟨current, hfind, hcurrent⟩ := map_eq_some_iff.mp hstate
  have hkey := Sqlite.Table.find_key hfind
  obtain ⟨hop, hid⟩ := Prod.mk.inj hkey
  have hthere : current ∈ w.ledger.rowsOf m.operationId :=
    mem_filter.mpr ⟨Sqlite.Table.find_mem hfind, decide_eq_true hop⟩
  obtain ⟨e, he, hbound⟩ := hw.bound current hthere
  obtain rfl : e = item.entry := entries_inj hm he hentry (hbound.backupId.symm.trans hid)
  have hfind' : w.ledger.find (rowOf m item .rolledBack none now).key = some current := hfind
  simp only [Ledger.Admits, hfind', hcurrent]
  refine ⟨decide_eq_true ?_, by change PayloadState.rolledBack ∈ _; decide⟩
  exact ⟨hbound.profileId, hbound.path, hbound.device, hbound.inode, hbound.size, hbound.mtime,
    hbound.ctime, hbound.sha256, hbound.manifest⟩

/-- One payload, when it is not `prepared`. -/
theorem rollbackItem_surely (hω : QuietCall ownJob ω) (hitem : Planned svc m item root)
    (hw : Midway svc m w)
    (hstate : w.ledger.stateOf m.operationId item.entry.backupId ≠ some .prepared)
    {prior : List (OperationId × BackupId)}
    (hprior : w.ledger.stateOf m.operationId item.entry.backupId ≠ none →
      (m.operationId, item.entry.backupId) ∈ prior) :
    Surely w (rollbackItem ω m prior item) fun _ _ => True := by
  refine .observe hω () (fun v hv => by rw [hv.lease]; rfl) ?_
  refine .observe hω _ (fun v hv => rfl) ?_
  by_cases hquarantined : w.ledger.stateOf m.operationId item.entry.backupId = some .quarantined
  · rw [if_pos (.inr hquarantined)]
    have habsent (path : Path) (v : Moment) (hv : Quiet ownJob v) :
        v.absent w path = (w.files path).isNone := by
      unfold Moment.absent
      rw [hv.readable, Bool.not_false, Bool.and_true]
    have hlook (path : Path) (v : Moment) (hv : Quiet ownJob v) : v.look w path = w.files path := by
      unfold Moment.look
      rw [hv.readable]
      rfl
    refine .observe hω _ (fun v hv => by rw [habsent _ v hv]) ?_
    refine .observe hω _ (fun v hv => by rw [habsent _ v hv]) ?_
    have hctime : checkCtime m prior item = false := by
      have hmem := hprior (by rw [hquarantined]; simp)
      simp [checkCtime, hmem]
    obtain ⟨f, hintact, ⟨ha, hq⟩ | ⟨ha, hq⟩⟩ := hw.begun hitem (.inr hquarantined)
    · -- at the archive path: only the row is missing
      simp only [ha, hq, isNone_none, isNone_some, Bool.not_true, Bool.not_false,
        if_true, Bool.false_eq_true, if_false]
      refine .observe hω () (fun v hv => ?_) ?_
      · rw [hlook _ v hv, hctime, ha]
        exact verifyPayload_intact hintact
      · refine .record hω (hw.admits hm hitem.entry hquarantined) fun now => ?_
        exact .pure trivial
    · -- in quarantine
      simp only [hq, isNone_some, Bool.not_false, if_true]
      refine .observe hω () (fun v hv => ?_) ?_
      · rw [hlook _ v hv, hq]
        exact verifyPayload_intact hintact
      refine .observe hω () (fun v hv => by rw [hv.lease]; rfl) ?_
      refine .rename hω hq ha fun now files _ => ?_
      refine .observe hω () (fun v hv => rfl) ?_
      refine .observe hω () (fun v hv => rfl) ?_
      refine .record hω (hw.admits (w := w) hm hitem.entry hquarantined) fun now => ?_
      exact .pure trivial
  · rw [if_neg (fun h => h.elim hstate hquarantined)]
    exact .pure trivial

theorem rollbackItems_surely (hω : QuietCall ownJob ω) (hplan : svc.plan m = .ok items)
    (hstate : ∀ e ∈ m.entries, w₀.ledger.stateOf m.operationId e.backupId ≠ some .prepared)
    (hw₀ : Midway svc m w₀) :
    Surely w₀ (rollbackItems ω m (w₀.ledger.rows.map LedgerRow.key) items) fun _ _ => True := by
  suffices hrest : ∀ rest done w, items = done ++ rest → Midway svc m w → Handled m w₀ done w →
      Surely w (rollbackItems ω m (w₀.ledger.rows.map LedgerRow.key) rest) fun _ _ => True from
    hrest items [] w₀ rfl hw₀ (Handled.start m w₀)
  intro rest
  induction rest with
  | nil =>
    intro done w _ _ _
    exact .pure trivial
  | cons item rest ih =>
    intro done w hitems hw hhandled
    obtain ⟨root, hitem⟩ := (plan_planned hplan).2 item (by simp [hitems])
    have hnew := items_new hm hplan hitems
    have hsame := hhandled.rest _ hnew
    have hsure : Surely w (rollbackItem ω m (w₀.ledger.rows.map LedgerRow.key) item)
        fun _ _ => True := by
      refine rollbackItem_surely hm hω hitem hw ?_ ?_
      · rw [hsame]
        exact hstate item.entry hitem.entry
      · -- a row that is there now was there when the call read the ledger
        rw [hsame]
        intro hsome
        obtain ⟨state, hread⟩ := ne_none_iff_exists'.mp hsome
        obtain ⟨r, hfind, -⟩ := map_eq_some_iff.mp hread
        rw [← Sqlite.Table.find_key hfind]
        exact mem_map_of_mem (Sqlite.Table.find_mem hfind)
    refine (hsure.and_safely (rollbackItem_handled hm hitem _ hnew) hw hhandled).bind ?_
    intro missing w' hw'
    refine (ih (done ++ [item]) w' (by simpa using hitems) hw'.1 hw'.2).bind ?_
    intro more w'' _
    exact .pure trivial

theorem Midway.checks (hw : Midway svc m w) :
    m.operationBinding false w.ledger = .ok () ∧ m.phaseAdmissible .rollback w.ledger = .ok () ∧
      m.noPurgeIntent w.ledger = .ok () := by
  refine ⟨?_, ?_, ?_⟩
  · unfold RetirementManifest.operationBinding
    dsimp only
    split
    · rfl
    · have hmembers : (!((w.ledger.rowsOf m.operationId).map (·.backupId)).all (· ∈ m.ids) ||
          (false && !m.ids.all
            (· ∈ (w.ledger.rowsOf m.operationId).map (·.backupId)))) = false := by
        simp only [Bool.false_and, Bool.or_false, Bool.not_eq_false', all_eq_true,
          decide_eq_true_eq, mem_map, forall_exists_index, and_imp]
        rintro id r hr rfl
        obtain ⟨e, he, hbound⟩ := hw.bound r hr
        rw [hbound.backupId]
        exact mem_map_of_mem he
      rw [hmembers]
      refine forM_of_ok fun r hr => ?_
      obtain ⟨e, he, hbound⟩ := hw.bound r hr
      cases hlast : lastBy (·.backupId) m.entries r.backupId with
      | none =>
        have hnone := find?_eq_none.mp hlast e (mem_reverse.mpr he)
        simp [hbound.backupId] at hnone
      | some e' =>
        obtain ⟨he', hid⟩ := lastBy_eq_some hlast
        obtain rfl : e' = e := entries_inj hm he' he (hid.trans hbound.backupId)
        simp [bindRow, rejectWhen, hbound.profileId, hbound.sha256, hbound.device, hbound.inode,
          hbound.size, hbound.mtime, hbound.ctime]
        rfl
  · refine forM_of_ok fun r hr => ?_
    rw [rejectWhen, if_neg (by simpa using hw.resumable r hr)]
  · refine forM_of_ok fun r hr => ?_
    have hresumable := hw.resumable r hr
    rw [rejectWhen, if_neg]
    revert hresumable
    cases r.state <;> decide

omit hm

/-- An attempt that nothing disturbs, with no payload `prepared`. -/
theorem rollback_surely {operationId : OperationId} (hω : QuietCall ownJob ω)
    (hm : svc.manifests operationId = some m)
    (hregistered : ∀ e ∈ m.entries, (svc.backupRoot e.profileId).isSome = true)
    (hstate : ∀ e ∈ m.entries, w.ledger.stateOf operationId e.backupId ≠ some .prepared)
    (hw : Midway svc m w) : Surely w (rollback svc ω operationId ownJob) fun _ _ => True := by
  obtain ⟨rfl, -⟩ := svc.loaded _ _ hm
  obtain ⟨items, hplan⟩ := planEntries_registered (m := m) hregistered
  obtain ⟨hbinding, hadmissible, hintent⟩ := hw.checks hm
  refine .observe hω m (fun v hv => by rw [hm]) ?_
  refine .observe hω () (fun v hv => hbinding) ?_
  refine .observe hω () (fun v hv => hadmissible) ?_
  refine .observe hω () (fun v hv => by rw [hv.sender]; rfl) ?_
  have hboundaries : Surely w (assertBoundaries ω ownJob) fun _ w' => w' = w := by
    refine .observe hω () (fun v hv => hv.jobs) ?_
    refine Triple.conseq (Surely.look hω fun v hv => ⟨(), hv.confirmations⟩)
      (fun _ hs => hs) (fun _ _ hs => ⟨hs.1, hs.2.1⟩) fun _ _ hs => hs
  refine hboundaries.bind fun _ w' hw' => ?_
  obtain rfl := hw'
  refine .observe hω () (fun v hv => hintent) ?_
  refine .observe hω _ (fun v hv => rfl) ?_
  refine .observe hω items (fun v hv => hplan) ?_
  refine (rollbackItems_surely hm hω hplan hstate hw).bind fun missing w'' _ => ?_
  refine .bind (.look hω ?_) fun report w₃ _ => .pure trivial
  intro v _
  exact ⟨svc.status v w'' m.operationId, rfl⟩

/-- Every payload that is in quarantine in `w` is at its archive path in `w'`. -/
def BroughtBack (svc : RetirementService) (m : RetirementManifest) (w w' : PayloadStore) : Prop :=
  ∀ e ∈ m.entries, ∀ root, svc.backupRoot e.profileId = some root →
    w.files (quarantinePath root m.operationId e.backupId) ≠ none →
    w'.files (quarantinePath root m.operationId e.backupId) = none ∧
      ∃ f, w'.files (archivePath root e.backupId) = some f ∧ f.HasIdentity e

theorem Handled.broughtBack (hplan : svc.plan m = .ok items) (hw : Midway svc m w)
    (hw' : Midway svc m w') (h : Handled m w items w') : BroughtBack svc m w w' := by
  intro e he root hroot hthere
  have hentries := (plan_planned hplan).1
  rw [← hentries] at he
  obtain ⟨item, hitem, rfl⟩ := mem_map.mp he
  rw [hentries] at he
  have hslot := hw.slots _ he root hroot
  have hslot' := hw'.slots _ he root hroot
  rcases (h.settled item hitem).2 with hrolled | ⟨-, hnone⟩
  · rw [hrolled] at hslot'
    obtain ⟨f, hintact, ha, hq⟩ := hslot'
    exact ⟨hq, f, ha, hintact.identity⟩
  · rw [hnone] at hslot
    exact absurd hslot hthere

end LastAttempt

/-- **Which interrupted retirements can be rolled back.**  The operation is new, it is quarantined
once and rolled back any number of times, each of these calls stopped anywhere; then it is rolled
back once more, and nothing disturbs this attempt.  It returns, and every payload in quarantine is
back, exactly when every profile of the manifest is registered and no payload is `prepared`. -/
theorem rollback_completes_iff (svc : RetirementService) {m : RetirementManifest}
    {op : OperationId} (hm : svc.manifests op = some m) {w₀ : PayloadStore}
    (h₀ : Unstarted svc m w₀) (jobs : Option ℕ × Option ℕ) (ω ω' : Oracle)
    {attempts : List RetirementCall}
    (hattempts : ∀ c ∈ attempts, c.operationId = op ∧ c.phase = .rollback)
    (hω' : QuietCall jobs.2 ω') :
    (let w := svc.runAll (⟨.quarantine, op, jobs.1, ω⟩ :: attempts) w₀
      let ended := RetirementCall.run svc ⟨.rollback, op, jobs.2, ω'⟩ w
      (∃ report, ended.1 = .ok report) ∧ BroughtBack svc m w ended.2) ↔
    (∀ e ∈ m.entries, (svc.backupRoot e.profileId).isSome = true) ∧
      ∀ e ∈ m.entries, (svc.runAll (⟨.quarantine, op, jobs.1, ω⟩ :: attempts) w₀).ledger.stateOf op
        e.backupId ≠ some .prepared := by
  have hw : Midway svc m (svc.runAll (⟨.quarantine, op, jobs.1, ω⟩ :: attempts) w₀) := by
    refine runAll_midway hm ?_ h₀.midway
    intro c hc
    rcases mem_cons.mp hc with rfl | hc
    · exact ⟨rfl, nofun⟩
    · obtain ⟨hop, hphase⟩ := hattempts c hc
      exact ⟨hop, by rw [hphase]; decide⟩
  generalize svc.runAll (⟨.quarantine, op, jobs.1, ω⟩ :: attempts) w₀ = w at hw ⊢
  have hlast := rollback_midway (ω := ω') hm jobs.2 w
  obtain ⟨rfl, -⟩ := svc.loaded _ _ hm
  constructor
  · rintro ⟨⟨report, hreport⟩, -⟩
    obtain ⟨-, items, hplan, hhandled⟩ := hlast.returned hw rfl hreport
    obtain ⟨hentries, hplanned⟩ := plan_planned hplan
    rw [← hentries]
    constructor
    · intro e he
      obtain ⟨item, hitem, rfl⟩ := mem_map.mp he
      obtain ⟨root, hplan⟩ := hplanned item hitem
      rw [hplan.registered]
      rfl
    · intro e he
      obtain ⟨item, hitem, rfl⟩ := mem_map.mp he
      exact (hhandled.settled item hitem).1
  · rintro ⟨hregistered, hstate⟩
    obtain ⟨report, hreport⟩ := (rollback_surely hω' hm hregistered hstate hw).ended
    obtain ⟨hw', items, hplan, hhandled⟩ := hlast.returned hw rfl hreport
    exact ⟨⟨report, hreport⟩, hhandled.broughtBack hplan hw hw'⟩

/-! ### An operation that is rolled back, and one that is not -/

theorem sampleStore_unstarted : Unstarted sampleService (sampleManifest "A") sampleStore := by
  refine ⟨rfl, ?_⟩
  intro e he root hroot
  obtain rfl : e = sampleEntry "A" := mem_singleton.mp he
  cases hroot
  rfl

theorem uninterrupted_quiet : QuietCall none uninterrupted := by
  intro k
  exact ⟨calmMoment k, rfl, rfl, rfl, fun _ => rfl, rfl, rfl, rfl⟩

def rollbackAttempt : RetirementCall := ⟨.rollback, "A", none, uninterrupted⟩

/-- A quarantine that runs to its end, a rollback that is stopped before its rename, and one that
nothing disturbs. -/
theorem rollback_completes_interrupted :
    let w := sampleService.runAll [⟨.quarantine, "A", none, uninterrupted⟩,
      ⟨.rollback, "A", none, stoppedAfter 15⟩] sampleStore
    (w.files (quarantinePath sampleRoot "A" "b1")).isSome = true ∧
      (∃ report, (rollbackAttempt.run sampleService w).1 = .ok report) ∧
      BroughtBack sampleService (sampleManifest "A") w (rollbackAttempt.run sampleService w).2 := by
  refine ⟨rfl, (rollback_completes_iff sampleService rfl sampleStore_unstarted (none, none) _ _ ?_
    uninterrupted_quiet).mpr ⟨?_, ?_⟩⟩
  · intro c hc
    obtain rfl := mem_singleton.mp hc
    exact ⟨rfl, rfl⟩
  · intro e he
    obtain rfl : e = sampleEntry "A" := mem_singleton.mp he
    rfl
  · intro e he hstate
    obtain rfl : e = sampleEntry "A" := mem_singleton.mp he
    cases hstate

/-- The quarantine is stopped between its rename and the ledger write. -/
def preparedStore : PayloadStore :=
  sampleService.runAll [⟨.quarantine, "A", none, stoppedAfter 28⟩] sampleStore

/-- However often it is repeated, the rollback raises. -/
theorem rollback_refused_forever :
    Unstarted sampleService (sampleManifest "A") sampleStore ∧ QuietCall none uninterrupted ∧
      ∀ n, (rollbackAttempt.run sampleService
        (sampleService.runAll (replicate n rollbackAttempt) preparedStore)).1 =
          .error (.safe (retirementFailed "ledger state transition is not permitted")) := by
  refine ⟨sampleStore_unstarted, uninterrupted_quiet, fun n => ?_⟩
  -- the first attempt renames the payload back; the later ones change nothing
  have hfirst : (rollbackAttempt.run sampleService preparedStore).1 =
      .error (.safe (retirementFailed "ledger state transition is not permitted")) := by rfl
  have hlater : rollbackAttempt.run sampleService
        (rollbackAttempt.run sampleService preparedStore).2 =
      (.error (.safe (retirementFailed "ledger state transition is not permitted")),
        (rollbackAttempt.run sampleService preparedStore).2) := by rfl
  have hstays : ∀ k, sampleService.runAll (replicate k rollbackAttempt)
      (rollbackAttempt.run sampleService preparedStore).2 =
        (rollbackAttempt.run sampleService preparedStore).2 := by
    intro k
    induction k with
    | zero => rfl
    | succ k ih =>
      rw [replicate_succ, RetirementService.runAll, foldl_cons, hlater]
      exact ih
  cases n with
  | zero => exact hfirst
  | succ n =>
    rw [replicate_succ, RetirementService.runAll, foldl_cons]
    rw [show foldl _ _ (replicate n rollbackAttempt) = _ from hstays n, hlater]

end Horizon.Retirement
