/-
**The transaction of a replacement plan.**

Once the remote is as planned, one transaction imports the proven objects, corrects the flags and
records what has been pruned.  For the plan of a sound world it does not fail: afterwards exactly
the retained generations are protected, each of them has a row that proves it, and the rows of older
generations are deleted.

Main results:

* `Reconcile.Sound.applyCatalogTransitions_eq` — the transaction.
-/

import Horizon.ReconcileInventory

namespace Horizon.Reconcile

open PruneCandidate hiding backupId
open Option hiding map_id map_map
open PrunedProtectionCorrection (backupId)
open List
open Protection (Reader Row Protections remoteKey)

variable {β : Type}

/-- The row of the catalog after the transaction. -/
def settle (w : World β) (c : CatalogRow) : CatalogRow :=
  { c with isProtected := decide (c.id ∈ w.retained c.profileId) }

def deletedRow (r : Row) : Row := { r with pruneState := .deleted, errorCode := none }

/-- The row of a retained generation after the transaction. -/
def importedRow (R : Reader β) (w : World β) (c : CatalogRow) : Row :=
  (w.protections.find c.id).getD (importRow (importOf R w c))

/-- The protection row of a generation after the transaction. -/
def settledRow (R : Reader β) (w : World β) (c : CatalogRow) : Option Row :=
  if c.id ∈ w.retained c.profileId then some (importedRow R w c)
  else (w.protections.find c.id).map deletedRow

section Flags

variable {R : Reader β} {w : World β} {plan : Plan} (done : List ProtectedFlagCorrection)
  (c : CatalogRow)

variable (w) in
/-- The correction of a flag, whether it is needed or not. -/
def flagOf : ProtectedFlagCorrection := ⟨c.profileId, c.id, decide (c.id ∈ w.retained c.profileId)⟩

theorem eq_of_id {c c' : CatalogRow} (hc : c ∈ w.catalog.rows) (hc' : c' ∈ w.catalog.rows)
    (h : c.id = c'.id) : c = c' :=
  inj_on_of_nodup_map w.catalog.unique hc hc' h

variable (w) in
/-- A row of the catalog when some corrections have been made. -/
def flagged : CatalogRow :=
  if flagOf w c ∈ done then settle w c else c

theorem flagged_id : (flagged w done c).id = c.id := by
  rw [flagged]
  split
  · rfl
  · rfl

theorem flagged_profileId : (flagged w done c).profileId = c.profileId := by
  rw [flagged]
  split
  · rfl
  · rfl

theorem correctFlag_eq {done : List ProtectedFlagCorrection} {t : Catalog} {c : CatalogRow}
    (hrows : t.rows = w.catalog.rows.map (flagged w done)) (hc : c ∈ w.catalog.rows)
    (hverified : c.verified = true) (hflag : c.isProtected ≠ (flagOf w c).targetProtected) :
    ∃ t', correctFlag t (flagOf w c) = .ok t' ∧
      t'.rows = w.catalog.rows.map (flagged w (done ++ [flagOf w c])) := by
  have hfind : t.find c.id = some (flagged w done c) := by
    rw [← flagged_id done c]
    exact Sqlite.Table.find_of_mem (by rw [hrows]; exact mem_map_of_mem hc)
  have hrow : (t.find (flagOf w c).backupId).filter
      (fun r => r.profileId = (flagOf w c).profileId) = some (flagged w done c) := by
    rw [flagOf, hfind, filter_some_pos]
    exact decide_eq_true (flagged_profileId done c)
  rw [correctFlag, hrow]
  dsimp only
  by_cases hdone : flagOf w c ∈ done
  · have hsettled : (flagged w done c).isProtected = (flagOf w c).targetProtected := by
      rw [flagged, if_pos hdone, settle, flagOf]
    refine ⟨t, if_pos hsettled, hrows.trans (map_congr_left fun c' _ => ?_)⟩
    simp only [flagged, mem_append, mem_singleton]
    by_cases hsame : flagOf w c' = flagOf w c
    · simp [hsame, hdone]
    · simp [hsame]
  · have hold : flagged w done c = c := if_neg hdone
    rw [hold, if_neg hflag, if_neg (not_not.2 hverified)]
    refine ⟨_, rfl, ?_⟩
    refine (congrArg (map _) hrows).trans ?_
    rw [map_map]
    refine map_congr_left fun c' hc' => ?_
    simp only [Function.comp_apply, decide_eq_true_eq, flagged_id]
    by_cases hid : c'.id = (flagOf w c).backupId
    · obtain rfl := eq_of_id hc' hc hid
      rw [if_pos hid, hold, flagged, if_pos (by simp), settle, flagOf]
    · have hne : flagOf w c' ≠ flagOf w c := fun h => hid (congrArg (·.backupId) h)
      rw [if_neg hid]
      simp [flagged, hne]

variable [DecidableEq β]

theorem Sound.correctFlags (h : Sound R w) (hplan : PlanOf R w plan) :
    ∃ t, plan.protectedFlagCorrections.foldlM correctFlag w.catalog = .ok t ∧
      t.rows = w.catalog.rows.map (settle w) := by
  have hloop : ∃ t, plan.protectedFlagCorrections.foldlM correctFlag w.catalog = .ok t ∧
      t.rows = w.catalog.rows.map (flagged w plan.protectedFlagCorrections) := by
    refine foldlM_ok (I := fun done (t : Catalog) =>
      t.rows = w.catalog.rows.map (flagged w done)) ?_ ?_
    · intro done it rest t hl hrows
      obtain ⟨c, hc, hflag, rfl⟩ := (hplan.corrections it).1 (by simp [hl])
      exact correctFlag_eq hrows hc (h.verified c hc) hflag
    · have hnone : ∀ c ∈ w.catalog.rows, flagged w [] c = id c := fun c _ =>
        if_neg (not_mem_nil)
      rw [map_congr_left hnone, map_id]
  obtain ⟨t, hok, hrows⟩ := hloop
  refine ⟨t, hok, hrows.trans (map_congr_left fun c hc => ?_)⟩
  rw [flagged]
  by_cases hflag : c.isProtected = decide (c.id ∈ w.retained c.profileId)
  · have hsame : settle w c = c := by rw [settle, ← hflag]
    rw [hsame, ite_self]
  · exact if_pos ((hplan.corrections _).2 ⟨c, hc, hflag, rfl⟩)

end Flags

/-! ### Protection rows -/

variable {R : Reader β} {w : World β} {plan : Plan}

variable {c : CatalogRow}

theorem importOf_inj {c' : CatalogRow} (hc : c ∈ w.catalog.rows) (hc' : c' ∈ w.catalog.rows)
    (h : importOf R w c = importOf R w c') : c = c' :=
  eq_of_id hc hc' (congrArg (·.backupId) h)

variable {t : Protections} {r : Row} {done : List ImportProtection} {p : Row → Bool} {i : String}

theorem protections_find_mem (h : t.find i = some r) : r ∈ t.rows ∧ r.backupId = i :=
  ⟨mem_of_find?_eq_some h, by simpa using find?_some h⟩

theorem upsert_eq (row : Row) (hid : t.find row.backupId = none)
    (hkey : ∀ r ∈ t.rows, r.remoteKey ≠ row.remoteKey) :
    ∃ t', t.upsert row = some t' ∧ t'.rows = t.rows ++ [row] := by
  have hnew : row.backupId ∉ t.rows.map Row.backupId := by
    intro hmem
    obtain ⟨r, hr, heq⟩ := mem_map.1 hmem
    exact find?_eq_none.1 hid r hr (decide_eq_true heq)
  have hrows : Protection.upsertRows row t.rows = t.rows ++ [row] := if_neg hnew
  have hkeys : ((Protection.upsertRows row t.rows).map Row.remoteKey).Nodup := by
    rw [hrows, map_append, nodup_append]
    refine ⟨t.keys, nodup_singleton _, ?_⟩
    intro k hk k' hk' heq
    obtain ⟨r, hr, rfl⟩ := mem_map.1 hk
    rw [map_singleton, mem_singleton] at hk'
    exact hkey r hr (heq.trans hk')
  exact ⟨_, dif_pos hkeys, hrows⟩

theorem find_append {t' : Protections} {row : Row} (hrows : t'.rows = t.rows ++ [row])
    (hid : t.find row.backupId = none) (i : String) :
    t'.find i = if i = row.backupId then some row else t.find i := by
  rw [Protections.find, hrows, find?_append]
  by_cases hi : i = row.backupId
  · subst hi
    rw [if_pos rfl, show t.rows.find? (fun r => r.backupId = row.backupId) = none from hid]
    simp
  · rw [if_neg hi, show [row].find? (fun r => r.backupId = i) = none by simp [Ne.symm hi],
      or_none, Protections.find]

variable (R w) in
/-- The protection table when some objects have been imported. -/
structure Imported (done : List ImportProtection) (t : Protections) : Prop where
  find : ∀ c ∈ w.catalog.rows, t.find c.id =
    if importOf R w c ∈ done then some (importedRow R w c) else w.protections.find c.id
  keys : ∀ r ∈ t.rows, ∃ c ∈ w.catalog.rows, c.id = r.backupId ∧
    r.remoteKey = remoteKey c.profileId c.id

theorem verificationProven_importRow (item : ImportProtection) :
    verificationProven (importRow item) = true := by
  simp [verificationProven, verificationRecorded, importRow]

theorem Sound.importedRow_proves (h : Sound R w) (hc : c ∈ w.catalog.rows)
    (hretained : c.id ∈ w.retained c.profileId) :
    (importedRow R w c).profileId = c.profileId ∧ (importedRow R w c).backupId = c.id ∧
      (importedRow R w c).remoteKey = remoteKey c.profileId c.id ∧
      (importedRow R w c).localSha256 = (generationOf R w c).sha256 ∧
      verificationProven (importedRow R w c) = true := by
  rw [importedRow]
  cases hr : w.protections.find c.id with
  | none =>
    exact ⟨rfl, rfl, rfl, rfl, verificationProven_importRow _⟩
  | some r =>
    obtain ⟨hprofile, hid, hkey, hsha, _, hproven⟩ := h.row hc hr
    have hstate := ((h.planned _ (h.scope c hc).1).kept c hc rfl hretained).1 r hr
    exact ⟨hprofile, hid, hkey, hsha, hproven hstate⟩

theorem Sound.insertProtection_eq (h : Sound R w) (ht : Imported R w done t)
    (hc : c ∈ w.catalog.rows) (hretained : c.id ∈ w.retained c.profileId) :
    ∃ t', insertProtection t (importOf R w c) = .ok t' ∧
      Imported R w (done ++ [importOf R w c]) t' := by
  obtain ⟨hprofile, hid, hkey, hsha, hproven⟩ := h.importedRow_proves hc hretained
  have hfind := ht.find c hc
  rw [insertProtection]
  cases hrow : t.find (importOf R w c).backupId with
  | some r =>
    -- the row is there, from before or from this loop
    have hr : r = importedRow R w c := by
      have hrow' : t.find c.id = some r := hrow
      rw [hfind] at hrow'
      split at hrow'
      · exact (some.inj hrow').symm
      · rw [importedRow, hrow', getD_some]
    subst hr
    refine ⟨t, if_pos ⟨hprofile, hkey, hsha, hproven⟩, ?_, ht.keys⟩
    intro c' hc'
    by_cases hsame : importOf R w c' = importOf R w c
    · obtain rfl := importOf_inj hc' hc hsame
      rw [if_pos (by simp)]
      exact hrow
    · rw [ht.find c' hc']
      simp [hsame]
  | none =>
    have hnone : w.protections.find c.id = none := by
      have hrow' : t.find c.id = none := hrow
      rw [hfind] at hrow'
      split at hrow'
      · cases hrow'
      · exact hrow'
    have himported : importedRow R w c = importRow (importOf R w c) := by
      rw [importedRow, hnone, getD_none]
    obtain ⟨hp, hi⟩ := h.scope c hc
    obtain ⟨t', hupsert, hrows⟩ := upsert_eq (importRow (importOf R w c)) hrow (by
      intro r hr heq
      obtain ⟨c', hc', hid', hkey'⟩ := ht.keys r hr
      obtain ⟨hp', hi'⟩ := h.scope c' hc'
      obtain ⟨_, hsame⟩ := remoteKey_inj hp' hp hi' hi (hkey'.symm.trans heq)
      refine find?_eq_none.1 hrow r hr (decide_eq_true ?_)
      exact hid'.symm.trans hsame)
    refine ⟨t', by rw [hupsert], ?_, ?_⟩
    · intro c' hc'
      rw [find_append hrows hrow]
      by_cases hsame : c'.id = c.id
      · obtain rfl := eq_of_id hc' hc hsame
        rw [if_pos (by exact rfl), if_pos (by simp), himported]
      · have hne : importOf R w c' ≠ importOf R w c := fun heq =>
          hsame (congrArg (·.backupId) heq)
        rw [if_neg (by exact hsame), ht.find c' hc']
        simp [hne]
    · intro r hr
      rw [hrows, mem_append, mem_singleton] at hr
      rcases hr with hr | rfl
      · exact ht.keys r hr
      · exact ⟨c, hc, rfl, rfl⟩

theorem Sound.insertProtections (h : Sound R w) (items : List ImportProtection)
    (ht : Imported R w done t)
    (hitems : ∀ it ∈ items, ∃ c ∈ w.catalog.rows, c.id ∈ w.retained c.profileId ∧
      it = importOf R w c) :
    ∃ t', items.foldlM insertProtection t = .ok t' ∧ Imported R w (done ++ items) t' := by
  refine foldlM_ok (I := fun l => Imported R w (done ++ l)) ?_ (by rwa [append_nil])
  intro l it rest t hl ht
  obtain ⟨c, hc, hretained, rfl⟩ := hitems it (by simp [hl])
  rw [← append_assoc]
  exact h.insertProtection_eq ht hc hretained

/-! ### Deletions -/

theorem markDeleted_eq (message : String) (hr : t.find i = some r) (hp : p r = true)
    (honly : ∀ r, p r = true → r.backupId = i) :
    markDeleted t p message = .ok (setDeleted t p) ∧
      ∀ j, (setDeleted t p).find j = if j = i then some (deletedRow r) else t.find j := by
  obtain ⟨hmem, hid⟩ := protections_find_mem hr
  have hsame : ∀ r' ∈ t.rows, p r' = true → r' = r := fun r' hr' hp' =>
    inj_on_of_nodup_map t.ids hr' hmem ((honly r' hp').trans hid.symm)
  have hcount : t.rows.countP p = 1 := by
    have hnodup : t.rows.Nodup := t.ids.of_map
    rw [← count_eq_one_of_mem hnodup hmem]
    refine countP_congr fun r' hr' => ?_
    rw [beq_iff_eq]
    exact ⟨hsame r' hr', fun heq => heq ▸ hp⟩
  refine ⟨by rw [markDeleted, if_neg (not_not.2 hcount)], fun j => ?_⟩
  have hmap : (setDeleted t p).find j = (t.find j).map fun r =>
      if p r then { r with pruneState := .deleted, errorCode := none } else r := by
    simp only [Protections.find, setDeleted, find?_map]
    congr 2
    funext r
    simp only [Function.comp_apply]
    split
    · rfl
    · rfl
  rw [hmap]
  by_cases hj : j = i
  · rw [if_pos hj, hj, hr, map_some, if_pos hp, deletedRow]
  · rw [if_neg hj]
    cases hrow : t.find j with
    | none => rfl
    | some r' =>
      have hnot : ¬ p r' = true := fun hp' =>
        hj ((protections_find_mem hrow).2.symm.trans (honly r' hp'))
      rw [map_some, if_neg hnot]

theorem mem_setDeleted (h : r ∈ (setDeleted t p).rows) :
    ∃ r' ∈ t.rows, r'.backupId = r.backupId := by
  obtain ⟨r', hr', rfl⟩ := mem_map.1 h
  refine ⟨r', hr', ?_⟩
  split
  · rfl
  · rfl

variable (R w) in
/-- The protection table when everything has been imported and some rows have been deleted. -/
structure Marked (deleted : List String) (t : Protections) : Prop where
  find : ∀ c ∈ w.catalog.rows, t.find c.id =
    if c.id ∈ w.retained c.profileId then some (importedRow R w c)
    else if c.id ∈ deleted then (w.protections.find c.id).map deletedRow
    else w.protections.find c.id
  ids : ∀ r ∈ t.rows, ∃ c ∈ w.catalog.rows, c.id = r.backupId

theorem Marked.delete {deleted : List String} (ht : Marked R w deleted t)
    (hc : c ∈ w.catalog.rows) (hold : c.id ∉ w.retained c.profileId) {r r' : Row}
    (hr : w.protections.find c.id = some r) (hr' : t.find c.id = some r')
    (hsame : deletedRow r' = deletedRow r) {message : String} (hp : p r' = true)
    (honly : ∀ r, p r = true → r.backupId = c.id) :
    ∃ t', markDeleted t p message = .ok t' ∧ Marked R w (deleted ++ [c.id]) t' := by
  obtain ⟨hok, hfind⟩ := markDeleted_eq message hr' hp honly
  refine ⟨_, hok, ?_, ?_⟩
  · intro c' hc'
    rw [hfind]
    by_cases hid : c'.id = c.id
    · obtain rfl := eq_of_id hc' hc hid
      rw [if_pos rfl, if_neg hold, if_pos (by simp), hr, hsame, map_some]
    · rw [if_neg hid, ht.find c' hc']
      simp [hid]
  · intro r₁ hr₁
    obtain ⟨r₂, hr₂, heq⟩ := mem_setDeleted hr₁
    obtain ⟨c', hc', hid⟩ := ht.ids r₂ hr₂
    exact ⟨c', hc', hid.trans heq⟩

variable [DecidableEq β]

/-- The generation of a candidate, unless it is an orphan. -/
def PruneCandidate.olderId (it : PruneCandidate) : Option String :=
  if it.kind = .orphan then none else some it.backupId

abbrev Plan.olderIds (plan : Plan) : List String :=
  plan.pruneCandidates.filterMap olderId

theorem Sound.markPrunedRows (h : Sound R w) (hplan : PlanOf R w plan) (ht : Marked R w [] t) :
    ∃ t', plan.pruneCandidates.foldlM markPruned t = .ok t' ∧ Marked R w plan.olderIds t' := by
  refine foldlM_ok (I := fun done => Marked R w (done.filterMap olderId)) ?_ ht
  intro done it rest t hl ht
  rw [filterMap_append]
  rcases (hplan.candidates it).1 (by simp [hl]) with ⟨p, _, i, b, _, _, _, rfl⟩ |
    ⟨c, hc, hold, hobject, rfl⟩
  · refine ⟨t, if_pos rfl, ?_⟩
    simpa [olderId, orphanOf] using ht
  · obtain ⟨r, hr, _⟩ := (h.planned _ (h.scope c hc).1).older c hc rfl hold hobject
    obtain ⟨hprofile, hid, hkey, _⟩ := h.row hc hr
    have hfind := ht.find c hc
    rw [if_neg hold, hr] at hfind
    have hrow : ∃ r', t.find c.id = some r' ∧ deletedRow r' = deletedRow r ∧
        r'.profileId = c.profileId ∧ r'.remoteKey = remoteKey c.profileId c.id := by
      split at hfind
      · exact ⟨deletedRow r, hfind, rfl, hprofile, hkey⟩
      · exact ⟨r, hfind, rfl, hprofile, hkey⟩
    obtain ⟨r', hr', hsame, hprofile', hkey'⟩ := hrow
    have hid' := (protections_find_mem hr').2
    rw [markPruned, if_neg (by simp [pruneOf])]
    exact ht.delete hc hold hr hr' hsame (by simp [pruneOf, hid', hprofile', hkey'])
      fun r₁ hr₁ => (of_decide_eq_true hr₁).1

theorem Sound.markAlreadyPrunedRows (h : Sound R w) (hplan : PlanOf R w plan)
    (ht : Marked R w plan.olderIds t) :
    ∃ t', plan.prunedProtectionCorrections.foldlM markAlreadyPruned t = .ok t' ∧
      Marked R w (plan.olderIds ++
        plan.prunedProtectionCorrections.map backupId) t' := by
  refine foldlM_ok (I := fun done => Marked R w
    (plan.olderIds ++
      done.map backupId)) ?_ (by simpa using ht)
  intro done it rest t hl ht
  obtain ⟨c, hc, hold, hobject, hany, rfl⟩ := (hplan.pruned it).1 (by simp [hl])
  obtain ⟨r, hr, hstate⟩ := (any_eq_true _ _).1 hany
  obtain ⟨hprofile, hid, hkey, hsha, _, hproven⟩ := h.row hc hr
  -- this generation has not been handled before
  have hcandidate : c.id ∉ plan.olderIds := by
    intro hmem
    obtain ⟨it, hit, hid⟩ := mem_filterMap.1 hmem
    rcases (hplan.candidates it).1 hit with ⟨p, _, i, b, _, _, _, rfl⟩ | ⟨c', hc', _, hobject', rfl⟩
    · simp [olderId, orphanOf] at hid
    · obtain rfl := eq_of_id hc' hc (by simpa [olderId, pruneOf] using hid)
      rw [hobject] at hobject'
      cases hobject'
  have hdone : c.id ∉ done.map backupId := by
    intro hmem
    obtain ⟨it, hit, hid⟩ := mem_map.1 hmem
    obtain ⟨c', hc', _, _, _, rfl⟩ := (hplan.pruned it).1 (by simp [hl, hit])
    obtain rfl := eq_of_id hc' hc hid
    have honce := hplan.prunedOnce
    rw [hl] at honce
    exact (nodup_cons.1 (nodup_middle.1 honce)).1 (mem_append_left _ hit)
  have hfind := ht.find c hc
  rw [if_neg hold, if_neg (by rw [mem_append, not_or]; exact ⟨hcandidate, hdone⟩), hr] at hfind
  rw [map_append, ← append_assoc]
  refine ht.delete hc hold hr hfind rfl ?_ fun r₁ hr₁ => (of_decide_eq_true hr₁).1
  simp [prunedOf, hprofile, hid, hkey, hsha, hproven (by simpa using hstate)]

theorem Imported.marked (hplan : PlanOf R w plan) (ht : Imported R w ([] ++
    plan.imports ++ plan.replacementCandidates.map ReplacementCandidate.asImport) t) :
    Marked R w [] t := by
  refine ⟨fun c hc => ?_, fun r hr => ?_⟩
  · rw [ht.find c hc, nil_append, if_neg (not_mem_nil)]
    by_cases hretained : c.id ∈ w.retained c.profileId
    · rw [if_pos hretained]
      split
      · rfl
      · rename_i hnot
        rw [mem_append, not_or] at hnot
        cases hr : w.protections.find c.id with
        | some r => rw [importedRow, hr, getD_some]
        | none =>
          -- such a generation is imported or replaced
          cases hobject : w.object c with
          | some b =>
            refine absurd ((hplan.imports _).2 ⟨c, hc, hretained, ?_, hr, rfl⟩) hnot.1
            rw [hobject]
            rfl
          | none =>
            exact absurd (mem_map.2 ⟨replacementOf R w c,
              (hplan.replacements _).2 ⟨c, hc, hretained, hobject, rfl⟩, rfl⟩) hnot.2
    · rw [if_neg hretained, if_neg]
      intro hmem
      rcases mem_append.1 hmem with hmem | hmem
      · obtain ⟨c', hc', hretained', _, _, heq⟩ := (hplan.imports _).1 hmem
        obtain rfl := importOf_inj hc hc' heq
        exact hretained hretained'
      · obtain ⟨it, hit, heq⟩ := mem_map.1 hmem
        obtain ⟨c', hc', hretained', _, rfl⟩ := (hplan.replacements it).1 hit
        obtain rfl := importOf_inj hc' hc heq
        exact hretained hretained'
  · obtain ⟨c, hc, hid, _⟩ := ht.keys r hr
    exact ⟨c, hc, hid⟩

/-- Every older generation with a row that is not deleted has been handled. -/
theorem Sound.map_deletedRow (h : Sound R w) (hplan : PlanOf R w plan)
    (hc : c ∈ w.catalog.rows) (hold : c.id ∉ w.retained c.profileId) :
    (if c.id ∈ plan.olderIds ++
        plan.prunedProtectionCorrections.map backupId then
      (w.protections.find c.id).map deletedRow else w.protections.find c.id) =
    (w.protections.find c.id).map deletedRow := by
  split
  · rfl
  · rename_i hnot
    rw [mem_append, not_or] at hnot
    cases hr : w.protections.find c.id with
    | none => rfl
    | some r =>
      have hdeleted : r.pruneState = .deleted := by
        by_contra hstate
        cases hobject : w.object c with
        | some b =>
          refine hnot.1 (mem_filterMap.2 ⟨pruneOf R w c,
            (hplan.candidates _).2 (.inr ⟨c, hc, hold, ?_, rfl⟩), rfl⟩)
          rw [hobject]
          rfl
        | none =>
          refine hnot.2 (mem_map.2 ⟨prunedOf R w c,
            (hplan.pruned _).2 ⟨c, hc, hold, hobject, ?_, rfl⟩, rfl⟩)
          simp [hr, hstate]
      have herror : r.errorCode = none := by
        have hrecorded := (h.row hc hr).2.2.2.2.1
        rw [verificationRecorded, decide_eq_true_eq] at hrecorded
        exact hrecorded.2.2.2.2
      rw [map_some, deletedRow, ← hdeleted, ← herror]

/-- **The transaction succeeds** and settles both tables. -/
theorem Sound.applyCatalogTransitions_eq (h : Sound R w) (hplan : PlanOf R w plan) :
    ∃ t, applyCatalogTransitions ⟨w.catalog, w.protections⟩ plan = .ok t ∧
      t.catalog.rows = w.catalog.rows.map (settle w) ∧
      (∀ c ∈ w.catalog.rows, t.protections.find c.id = settledRow R w c) ∧
      ∀ r ∈ t.protections.rows, ∃ c ∈ w.catalog.rows, c.id = r.backupId := by
  have hstart : Imported R w [] w.protections := by
    refine ⟨fun c _ => by simp, fun r hr => ?_⟩
    obtain ⟨c, hc, hid, _, hkey, _⟩ := h.described r hr
    exact ⟨c, hc, hid, hkey⟩
  obtain ⟨t₁, himports, ht₁⟩ := h.insertProtections plan.imports hstart
    fun it hit => by
      obtain ⟨c, hc, hretained, _, _, rfl⟩ := (hplan.imports it).1 hit
      exact ⟨c, hc, hretained, rfl⟩
  obtain ⟨catalog, hflags, hcatalog⟩ := h.correctFlags hplan
  obtain ⟨t₂, hreplaced, ht₂⟩ := h.insertProtections
    (plan.replacementCandidates.map ReplacementCandidate.asImport) ht₁ fun it hit => by
      obtain ⟨it', hit', rfl⟩ := mem_map.1 hit
      obtain ⟨c, hc, hretained, _, rfl⟩ := (hplan.replacements it').1 hit'
      exact ⟨c, hc, hretained, rfl⟩
  obtain ⟨t₃, hpruned, ht₃⟩ := h.markPrunedRows hplan (ht₂.marked hplan)
  obtain ⟨t₄, hgone, ht₄⟩ := h.markAlreadyPrunedRows hplan ht₃
  refine ⟨⟨catalog, t₄⟩, ?_, hcatalog, fun c hc => ?_, ht₄.ids⟩
  · exact bind_eq_ok.2 ⟨t₁, himports, bind_eq_ok.2 ⟨catalog, hflags, bind_eq_ok.2 ⟨t₂, hreplaced,
      bind_eq_ok.2 ⟨t₃, hpruned, bind_eq_ok.2 ⟨t₄, hgone, rfl⟩⟩⟩⟩⟩
  · rw [ht₄.find c hc, settledRow]
    by_cases hretained : c.id ∈ w.retained c.profileId
    · rw [if_pos hretained, if_pos hretained]
    · rw [if_neg hretained, if_neg hretained]
      exact h.map_deletedRow hplan hc hretained

end Horizon.Reconcile
