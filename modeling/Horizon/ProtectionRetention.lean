/-
**What protecting a backup leaves at the destination.**

The record that is being protected takes part in its own pruning.  A call that returns has uploaded
the object, verified it and deleted the verified generations beyond the retention; the object of the
record is one of those when enough verified generations come before it, and the last statement then
records it as stored.  Whether that happens can be read off the table and the store before the call.

Main results:

* `Protection.protect_keeps_iff` — **the object is kept exactly when its rank is within the
  retention**.
-/

import Horizon.Protection
import Mathlib.Data.List.TakeWhile

namespace Horizon.Protection

open List
open Coroutine (Coro Triple same)
open ObjectStore (Store ahead)
open Function

variable {β : Type}

/-! ### Running the stages -/

abbrev Returns {α : Type} (P : State β → Prop) (m : Action β α) (Q : α → State β → Prop) : Prop :=
  Triple P m Q fun _ _ => True

/-- The rows of the table and what the store returns for each key. -/
def At (rows : List Row) (view : String → Option β) (s : State β) : Prop :=
  s.table.rows = rows ∧ s.remote.get = view

variable {P : State β → Prop} {Q : Unit → State β → Prop}

theorem returns_act {env : Env β} {f : State β → State β}
    (h : ∀ s n, P s → Q () { f s with moment := n }) :
    Returns P (act env f) Q := by
  intro s hs
  cases hf : env.faults s.moment with
  | none => simpa [Coro.run, act, hf] using h s (s.moment + 1) hs
  | before | after => simp [Coro.run, act, hf]

variable {env : Env β} {rows : List Row} {view : String → Option β} {backupClass : BackupClass}
  (ids : List String) (profileId : String) (backupId : String) {row : Row}

theorem returns_save (row : Row) :
    Returns (At rows view) (save env row) fun _ => At (upsertRows row rows) view := by
  refine .get fun t => ?_
  cases ht : t.table.upsert row with
  | none => exact .raise fun _ _ => trivial
  | some table =>
    refine .seq (At (upsertRows row rows) view) ?_ fun _ => .pure same
    refine returns_act ?_
    rintro s n ⟨hs, rfl⟩
    unfold Protections.upsert at ht
    split at ht
    · cases ht
      exact ⟨by rw [← hs.1], hs.2⟩
    · cases ht

theorem returns_upload (file : β) (key : String) : Returns (At rows view) (upload env file key)
    fun _ => At rows (update view key (some file)) := by
  refine returns_act fun s n hs => ⟨hs.1, ?_⟩
  funext k
  show (s.remote.put key file).get k = _
  rw [Store.get_put, update_apply, hs.2]

theorem returns_verify [DecidableEq β] (file : β) (key : String) :
    Returns (At rows view) (verify env file key) fun _ => At rows view := by
  refine .seq (At rows view) (returns_act fun s n hs => hs) fun _ => ?_
  refine .get fun t => ?_
  exact .ite (.pure fun _ hs => hs.1) (.raise fun _ _ => trivial)

theorem returns_onFailure (row : Row) (message : String) (e : Failure) : Returns P
    (onFailure env row message e) Q := by
  have hend : ∀ e' : Failure, Returns P (do let _ ← save env row; .raise e') Q := fun e' =>
    .seq (fun _ => True)
      (fun s _ => by
        rcases (save env row).run s with ⟨r, s'⟩
        cases r <;> trivial)
      fun _ => .raise fun _ _ => trivial
  cases e <;> exact hend _

theorem returns_guarded {m : Action β Unit} (hm : Returns P m Q) (row : Row) (message : String) :
    Returns P (.tryExcept m (onFailure env row message)) Q :=
  .tryExcept hm fun e => returns_onFailure row message e

/-! ### Pruning -/

/-- The rows of `ids` say that their objects are deleted. -/
def markAll (rows : List Row) : List Row :=
  rows.map fun r => if r.backupId ∈ ids then { r with pruneState := .deleted } else r

theorem markAll_nil (rows : List Row) : markAll [] rows = rows := by
  simp [markAll]

theorem markRows_markAll (id : String) (rows : List Row) :
    markRows id .deleted (markAll ids rows) = markAll (ids ++ [id]) rows := by
  rw [markRows, markAll, markAll, map_map]
  refine map_congr_left fun r _ => ?_
  by_cases hids : r.backupId ∈ ids
  · simp [hids]
  · simp [hids]

/-- The contents of the store without the objects of `keys`. -/
def without (keys : List String) (view : String → Option β) (k : String) : Option β :=
  if k ∈ keys then none else view k

theorem without_nil (view : String → Option β) : without [] view = view := by
  funext k
  simp [without]

theorem returns_prune_loop (dropped : List Row) :
    Returns (At rows view)
      (dropped.forM fun item => do
        delete env item.remoteKey
        saveByProtection env item .deleted)
      fun _ => At (markAll (dropped.map Row.backupId) rows)
        (without (dropped.map Row.remoteKey) view) := by
  have hloop := Triple.forM (E := fun _ _ => True)
    (I := fun done => At (markAll (done.map Row.backupId) rows)
      (without (done.map Row.remoteKey) view))
    (f := fun item : Row => (do
      delete env item.remoteKey
      saveByProtection env item .deleted : Action β Unit)) dropped ?_
  · simpa [markAll_nil, without_nil] using hloop
  · intro done item rest _
    refine .bind
      (Q := fun _ => At (markAll (done.map Row.backupId) rows)
        (without (done.map Row.remoteKey ++ [item.remoteKey]) view)) ?_ fun _ => ?_
    · refine returns_act fun s n hs => ⟨hs.1, ?_⟩
      funext k
      show (s.remote.delete item.remoteKey).get k = _
      rw [Store.get_delete, hs.2]
      by_cases hk : k = item.remoteKey
      · simp [without, hk]
      · simp [without, hk]
    · refine returns_act fun s n hs => ⟨?_, ?_⟩
      · show markRows item.backupId .deleted s.table.rows = _
        rw [hs.1, markRows_markAll, map_append, map_singleton]
      · show s.remote.get = _
        rw [hs.2, map_append, map_singleton]

/-- A verified row of the profile whose object is stored below the prefix of the profile. -/
def isPeer (view : String → Option β) (r : Row) : Bool :=
  r.profileId = profileId ∧ r.verified ∧ (view r.remoteKey).isSome ∧ inPrefix profileId r.remoteKey

def beyond (view : String → Option β) (rows : List Row) : List Row :=
  ((rows.filter (isPeer profileId view)).insertionSort NewestFirst).drop retention

theorem prunable_eq {s : State β} (hs : At rows view s) :
    prunable profileId
        (((s.remote.under (profilePrefix profileId ++ "/")).map Prod.fst).filter
          fun k => inPrefix profileId k)
        (rows.filter fun r => r.profileId = profileId) =
      rows.filter (isPeer profileId view) := by
  rw [prunable, filter_filter]
  refine filter_congr fun r _ => ?_
  have hexact : (r.remoteKey ∈ (((s.remote.under (profilePrefix profileId ++ "/")).map
      Prod.fst).filter fun k => inPrefix profileId k)) ↔
      (view r.remoteKey).isSome ∧ inPrefix profileId r.remoteKey := by
    rw [mem_filter, mem_map, ← hs.2, Option.isSome_iff_exists]
    constructor
    · rintro ⟨⟨⟨k, b⟩, hmem, rfl⟩, hk⟩
      exact ⟨⟨b, (Store.mem_under.1 hmem).1⟩, hk⟩
    · rintro ⟨⟨b, hb⟩, hk⟩
      exact ⟨⟨(r.remoteKey, b), Store.mem_under.2 ⟨hb, hk⟩, rfl⟩, hk⟩
  simp only [isPeer, hexact]
  rw [← Bool.decide_and, decide_eq_decide]
  tauto

theorem returns_prune (record : BackupRecord β) (key : String) :
    Returns (At rows view) (prune env record key) fun _ s =>
      (∃ r ∈ rows.filter (isPeer record.profileId view), r.remoteKey = key) ∧
      At (markAll ((beyond record.profileId view rows).map Row.backupId) rows)
        (without ((beyond record.profileId view rows).map Row.remoteKey) view) s := by
  refine .bind (Q := fun objects s => At rows view s ∧
    objects = s.remote.under (profilePrefix record.profileId ++ "/")) ?_ fun objects => ?_
  · refine .seq (At rows view) (returns_act fun s n hs => hs) fun _ => ?_
    refine .get fun t => .pure ?_
    rintro s ⟨hs, rfl⟩
    exact ⟨hs, rfl⟩
  refine .bind (Q := fun rs s => (At rows view s ∧
    objects = s.remote.under (profilePrefix record.profileId ++ "/")) ∧
    rs = rows.filter fun r => r.profileId = record.profileId) ?_ fun rs => ?_
  · refine .seq (fun s => At rows view s ∧
      objects = s.remote.under (profilePrefix record.profileId ++ "/"))
      (returns_act fun s n hs => hs) fun _ => ?_
    refine .get fun t => .pure ?_
    rintro s ⟨hs, rfl⟩
    exact ⟨hs, by rw [hs.1.1]⟩
  refine .assume fun t ht => ?_
  obtain ⟨⟨hat, rfl⟩, rfl⟩ := ht
  simp only [prunable_eq record.profileId hat]
  split
  · exact .raise fun _ _ => trivial
  · rename_i hany
    have hpeer : ∃ r ∈ rows.filter (isPeer record.profileId view), r.remoteKey = key := by
      simpa [and_assoc] using hany
    refine (returns_prune_loop (beyond record.profileId view rows)).conseq ?_
      (fun _ s hs => ⟨hpeer, hs⟩) fun _ _ _ => trivial
    rintro s rfl
    exact hat

/-! ### A call that returns -/

theorem upsertRows_upsertRows {a b : Row} (hid : a.backupId = b.backupId)
    (hprofile : a.profileId = b.profileId) (rows : List Row) :
    upsertRows b (upsertRows a rows) = upsertRows b rows := by
  have hmem : b.backupId ∈ (upsertRows a rows).map Row.backupId := by
    rw [map_upsertRows_ids, hid]
    split
    · assumption
    · simp
  rw [upsertRows, if_pos hmem, upsertRows, upsertRows, hid]
  split
  · rw [map_map]
    refine map_congr_left fun old _ => ?_
    by_cases hold : old.backupId = b.backupId
    · simp [hold]
    · simp [hold]
  · rename_i hnew
    rw [map_append, map_singleton, if_pos hid, hprofile]
    congr 1
    refine (map_congr_left fun old hold => if_neg ?_).trans (map_id _)
    intro heq
    exact hnew (heq ▸ mem_map_of_mem hold)

theorem upsertRows_stageRow (record : BackupRecord β) (key digest : String) (a b : Stage)
    (rows : List Row) :
    upsertRows (stageRow record key digest b) (upsertRows (stageRow record key digest a) rows) =
      upsertRows (stageRow record key digest b) rows :=
  upsertRows_upsertRows (a := stageRow record key digest a) (b := stageRow record key digest b)
    rfl rfl rows

def verifiedRow (env : Env β) (record : BackupRecord β) (file : β) : Row :=
  stageRow record (remoteKey record.profileId record.id) (env.reader.sha256 file)
    ⟨.succeeded, true, .verified, .pending, none⟩

def finalRow (env : Env β) (record : BackupRecord β) (file : β) : Row :=
  { verifiedRow env record file with pruneState := .succeeded }

def stocked (record : BackupRecord β) (file : β) (view : String → Option β) : String → Option β :=
  update view (remoteKey record.profileId record.id) (some file)

theorem returns_protectVerified [DecidableEq β] (record : BackupRecord β) (file : β) :
    Returns (At rows view)
      (protectVerified env record file (remoteKey record.profileId record.id)) fun _ s =>
        let settled := upsertRows (verifiedRow env record file) rows
        let dropped := beyond record.profileId (stocked record file view) settled
        (∃ r ∈ settled.filter (isPeer record.profileId (stocked record file view)),
          r.remoteKey = remoteKey record.profileId record.id) ∧
        At (upsertRows (finalRow env record file) (markAll (dropped.map Row.backupId) settled))
          (without (dropped.map Row.remoteKey) (stocked record file view)) s := by
  refine .next (returns_save _) ?_
  refine .next (returns_guarded (returns_upload file _) _ _) ?_
  refine .next (returns_save _) ?_
  refine .next (returns_guarded (returns_verify file _) _ _) ?_
  refine .next (returns_save _) ?_
  rw [upsertRows_stageRow, upsertRows_stageRow]
  refine .next (returns_guarded (returns_prune record _) _ _) ?_
  refine .assume fun t ht => ?_
  refine (returns_save _).conseq ?_ (fun _ s hs => ⟨ht.1, hs⟩) fun _ _ _ => trivial
  rintro s rfl
  exact ht.2

/-- **The table and the store after a call that returns.** -/
theorem protect_spec [DecidableEq β] {record : BackupRecord β} {s s' : State β}
    (h : (protect env record backupClass).run s = (.ok row, s')) :
    ∃ file, record.file = some file ∧
      let settled := upsertRows (verifiedRow env record file) s.table.rows
      let stock := stocked record file s.remote.get
      let dropped := beyond record.profileId stock settled
      (∃ r ∈ settled.filter (isPeer record.profileId stock),
        r.remoteKey = remoteKey record.profileId record.id) ∧
      At (upsertRows (finalRow env record file) (markAll (dropped.map Row.backupId) settled))
        (without (dropped.map Row.remoteKey) stock) s' := by
  unfold protect at h
  split at h
  · cases h
  · cases h
  split at h
  · cases h
  split at h
  · cases h
  rename_i file hfile
  split at h
  · have hat : At s.table.rows s.remote.get s := ⟨rfl, rfl⟩
    rcases (returns_protectVerified record file).elim hat h with ⟨_, _, hpost⟩ | ⟨_, hr, _⟩
    · exact ⟨file, hfile, hpost⟩
    · cases hr
  · have hsafe : Returns (fun _ => True) (do
        let _ ← save env (stageRow record (remoteKey record.profileId record.id)
          (env.reader.sha256 file)
          ⟨.notStarted, false, .notStarted, .notStarted, some "local_unverified"⟩)
        (.raise (protectionFailed "local backup is not verified") : Action β Row))
        fun _ _ => False :=
      .seq (fun _ => True)
        (fun s _ => by
          rcases (save env _).run s with ⟨r, s'⟩
          cases r <;> trivial)
        fun _ => .raise fun _ _ => trivial
    rcases hsafe.elim trivial h with ⟨_, _, hpost⟩ | ⟨_, hr, _⟩
    · exact hpost.elim
    · cases hr

/-! ### What a call should leave -/

/-- An object that was stored before the call, or by it, and is gone. -/
def Removed (record : BackupRecord β) (s s' : State β) (k : String) : Prop :=
  ((s.remote.get k).isSome ∨ k = remoteKey record.profileId record.id) ∧ s'.remote.get k = none

/-- The objects below the prefix of a profile that have a verified row. -/
def verifiedObjects (s : State β) : List (String × β) :=
  (s.remote.under (profilePrefix profileId ++ "/")).filter fun o =>
    s.table.rows.any fun r => r.verified ∧ r.remoteKey = o.1

structure Keeps (record : BackupRecord β) (s s' : State β) : Prop where
  /-- The object of the record is stored. -/
  kept : (s'.remote.get (remoteKey record.profileId record.id)).isSome
  within : (verifiedObjects record.profileId s').length ≤ retention
  /-- No row hides that its object has been removed. -/
  truthful : ∀ r ∈ s'.table.rows, Removed record s s' r.remoteKey → r.pruneState = .deleted
  /-- Only verified objects of the profile are removed. -/
  owned : ∀ k, Removed record s s' k →
    inPrefix record.profileId k ∧ ∃ r ∈ s'.table.rows, r.verified ∧ r.remoteKey = k

/-- The rows before the one of a generation. -/
def before (rows : List Row) : List Row := rows.takeWhile fun r => r.backupId ≠ backupId

/-- The rows after the one of a generation. -/
def behind (rows : List Row) : List Row := (rows.dropWhile fun r => r.backupId ≠ backupId).tail

/-- The rows of the other generations. -/
abbrev others (record : BackupRecord β) (s : State β) : List Row :=
  before record.id s.table.rows ++ behind record.id s.table.rows

/-- How many peers the pruning prefers to the record: those of a newer generation, and those of the
same one whose rows were inserted earlier. -/
def rank (record : BackupRecord β) (s : State β) : ℕ :=
  (before record.id s.table.rows).countP (fun r => isPeer record.profileId s.remote.get r ∧
      backupGeneration record.id ≤ backupGeneration r.backupId) +
    (behind record.id s.table.rows).countP (fun r => isPeer record.profileId s.remote.get r ∧
      backupGeneration record.id < backupGeneration r.backupId)

/-- A verified row of another profile whose object is stored below the prefix of this one. -/
def isStranger (view : String → Option β) (r : Row) : Bool :=
  r.profileId ≠ profileId ∧ r.verified ∧ (view r.remoteKey).isSome ∧ inPrefix profileId r.remoteKey

/-- How many verified objects the call leaves below the prefix of the profile. -/
def population (record : BackupRecord β) (s : State β) : ℕ :=
  let others := before record.id s.table.rows ++ behind record.id s.table.rows
  min (others.countP (isPeer record.profileId s.remote.get) + 1) retention +
    others.countP (isStranger record.profileId s.remote.get)

/-! ### The row of the record among the others -/

theorem upsertRows_mid {row x : Row} {l l' : List Row} (hx : x.backupId = row.backupId)
    (hl : ∀ r ∈ l, r.backupId ≠ row.backupId) (hl' : ∀ r ∈ l', r.backupId ≠ row.backupId) :
    upsertRows row (l ++ x :: l') = l ++ { row with profileId := x.profileId } :: l' := by
  have hsame : ∀ {m : List Row}, (∀ r ∈ m, r.backupId ≠ row.backupId) →
      (m.map fun old => if old.backupId = row.backupId then
        { row with profileId := old.profileId } else old) = m := fun hm =>
    (map_congr_left fun r hr => if_neg (hm r hr)).trans (map_id _)
  rw [upsertRows, if_pos (by simp [hx]), map_append, map_cons, if_pos hx, hsame hl, hsame hl']

theorem ne_of_mem_before {id : String} {r : Row} (h : r ∈ before id rows) : r.backupId ≠ id := by
  simpa using mem_takeWhile_imp h

theorem rows_split (id : String) (h : (rows.map Row.backupId).Nodup) :
    (rows = before id rows ∧ behind id rows = []) ∨
      ∃ x : Row, x.backupId = id ∧ rows = before id rows ++ x :: behind id rows ∧
        ∀ r ∈ behind id rows, r.backupId ≠ id := by
  have hsplit : before id rows ++ rows.dropWhile (fun r => r.backupId ≠ id) = rows :=
    takeWhile_append_dropWhile
  cases hdrop : rows.dropWhile (fun r => r.backupId ≠ id) with
  | nil =>
    rw [hdrop, append_nil] at hsplit
    exact .inl ⟨hsplit.symm, by rw [behind, hdrop, tail_nil]⟩
  | cons x l =>
    have hbehind : behind id rows = l := by rw [behind, hdrop, tail_cons]
    have hx : x.backupId = id := by
      have := head?_dropWhile_not (fun r : Row => decide (r.backupId ≠ id)) rows
      rw [hdrop] at this
      simpa using this
    rw [hdrop] at hsplit
    refine .inr ⟨x, hx, by rw [hbehind, hsplit], ?_⟩
    intro r hr heq
    rw [← hsplit, map_append, map_cons, nodup_append] at h
    refine (nodup_cons.1 h.2.1).1 ?_
    rw [hx, ← heq, ← hbehind]
    exact mem_map_of_mem hr

theorem ne_of_mem_behind {id : String} (h : (rows.map Row.backupId).Nodup)
    {r : Row} (hr : r ∈ behind id rows) : r.backupId ≠ id := by
  rcases rows_split id h with ⟨_, hnil⟩ | ⟨_, _, _, hne⟩
  · rw [hnil] at hr
    cases hr
  · exact hne r hr

/-- A row that is written takes the place of its generation, or the last one. -/
theorem upsertRows_split (h : (rows.map Row.backupId).Nodup) (row : Row) :
    ∃ profileId, upsertRows row rows =
      before row.backupId rows ++ { row with profileId := profileId } ::
        behind row.backupId rows := by
  rcases rows_split row.backupId h with ⟨hrows, hnil⟩ | ⟨x, hx, hrows, hne⟩
  · refine ⟨row.profileId, ?_⟩
    have hnew : row.backupId ∉ rows.map Row.backupId := by
      intro hmem
      obtain ⟨r, hr, hid⟩ := mem_map.1 hmem
      rw [hrows] at hr
      exact ne_of_mem_before hr hid
    rw [upsertRows, if_neg hnew, hnil, ← hrows]
  · refine ⟨x.profileId, ?_⟩
    conv_lhs => rw [hrows]
    exact upsertRows_mid hx (fun r => ne_of_mem_before) hne

/-! ### The state after a call that returns -/

def settled (env : Env β) (record : BackupRecord β) (file : β) (s : State β) : List Row :=
  before record.id s.table.rows ++ verifiedRow env record file :: behind record.id s.table.rows

/-- The rows whose objects the pruning removes. -/
def dropped (env : Env β) (record : BackupRecord β) (file : β) (s : State β) : List Row :=
  beyond record.profileId (stocked record file s.remote.get) (settled env record file s)

structure After (env : Env β) (record : BackupRecord β) (file : β) (s s' : State β) : Prop where
  rows : s'.table.rows =
    markAll ((dropped env record file s).map Row.backupId) (before record.id s.table.rows) ++
      finalRow env record file ::
      markAll ((dropped env record file s).map Row.backupId) (behind record.id s.table.rows)
  store : s'.remote.get =
    without ((dropped env record file s).map Row.remoteKey) (stocked record file s.remote.get)
  keys : ((settled env record file s).map Row.remoteKey).Nodup

theorem map_markAll {γ : Type} {f : Row → γ} (hf : ∀ r p, f { r with pruneState := p } = f r)
    (ids : List String) (rows : List Row) : (markAll ids rows).map f = rows.map f := by
  rw [markAll, map_map]
  refine map_congr_left fun r _ => ?_
  simp only [Function.comp_apply]
  split
  · exact hf r .deleted
  · rfl

theorem ne_of_mem_markAll {id : String} (h : ∀ r ∈ rows, r.backupId ≠ id) :
    ∀ r ∈ markAll ids rows, r.backupId ≠ id := by
  intro r hr
  have hmem : r.backupId ∈ rows.map Row.backupId :=
    map_markAll (f := Row.backupId) (fun _ _ => rfl) ids rows ▸ mem_map_of_mem hr
  obtain ⟨r', hr', hid⟩ := mem_map.1 hmem
  exact hid ▸ h r' hr'

theorem isPeer_profileId {profileId : String} {r : Row}
    (h : isPeer profileId view r) : r.profileId = profileId := by
  simp only [isPeer, decide_eq_true_eq] at h
  exact h.1

theorem after_of_run [DecidableEq β] {record : BackupRecord β} {s s' : State β}
    (h : (protect env record backupClass).run s = (.ok row, s')) :
    ∃ file, record.file = some file ∧ After env record file s s' := by
  obtain ⟨file, hfile, ⟨r, hr, hkey⟩, hrows, hstore⟩ := protect_spec h
  refine ⟨file, hfile, ?_⟩
  obtain ⟨profileId, hup⟩ := upsertRows_split s.table.ids (verifiedRow env record file)
  rw [hup] at hr hrows hstore
  generalize hdropped : beyond record.profileId (stocked record file s.remote.get) _ = gone
    at hrows hstore
  -- the row keeps its place when it is written for the last time
  have hfinal : s'.table.rows =
      markAll (gone.map Row.backupId) (before record.id s.table.rows) ++
        { finalRow env record file with profileId := profileId } ::
        markAll (gone.map Row.backupId) (behind record.id s.table.rows) := by
    rw [hrows, markAll, map_append, map_cons]
    have hbefore : ∀ r ∈ markAll (gone.map Row.backupId) (before record.id s.table.rows),
        r.backupId ≠ record.id :=
      ne_of_mem_markAll _ fun _ => ne_of_mem_before
    have hbehind : ∀ r ∈ markAll (gone.map Row.backupId) (behind record.id s.table.rows),
        r.backupId ≠ record.id :=
      ne_of_mem_markAll _ fun _ => ne_of_mem_behind s.table.ids
    split <;> exact upsertRows_mid rfl hbefore hbehind
  have hkeys : ((before record.id s.table.rows ++
      { verifiedRow env record file with profileId := profileId } ::
        behind record.id s.table.rows).map Row.remoteKey).Nodup := by
    have hunique := s'.table.keys
    rw [hfinal, map_append, map_cons, map_markAll (fun _ _ => rfl),
      map_markAll (fun _ _ => rfl)] at hunique
    rw [map_append, map_cons]
    exact hunique
  -- the only row with the key of the record is its own, and the pruning has seen it
  have hprofile : profileId = record.profileId := by
    rw [mem_filter] at hr
    have hrx := inj_on_of_nodup_map hkeys hr.1 (mem_append_right _ (.head _)) hkey
    rw [← isPeer_profileId hr.2, hrx]
  subst hprofile
  subst hdropped
  exact ⟨hfinal, hstore, hkeys⟩

instance : IsTrans Row NewestFirst := ⟨fun _ _ _ hab hbc => le_trans hbc hab⟩

instance : Std.Total NewestFirst := ⟨fun _ b => le_total (backupGeneration b.backupId) _⟩

namespace After

variable {record : BackupRecord β} {file : β} {s s' : State β}

/-- The rows that take part in the pruning. -/
def peers (env : Env β) (record : BackupRecord β) (file : β) (s : State β) : List Row :=
  (settled env record file s).filter (isPeer record.profileId (stocked record file s.remote.get))

/-- A peer, when the object of the record is stored. -/
abbrev peer (record : BackupRecord β) (file : β) (s : State β) : Row → Bool :=
  isPeer record.profileId (stocked record file s.remote.get)

theorem isPeer_self : peer record file s (verifiedRow env record file) := by
  have hkey := inPrefix_remoteKey record.profileId record.id
  simp only [peer, isPeer, decide_eq_true_eq]
  exact ⟨rfl, rfl, by simp [stocked, verifiedRow, stageRow], hkey⟩

theorem mem_settled_self (env : Env β) (record : BackupRecord β) (file : β) (s : State β) :
    verifiedRow env record file ∈ settled env record file s :=
  mem_append_right _ (.head _)

theorem peers_eq : peers env record file s =
    (before record.id s.table.rows).filter (peer record file s) ++ verifiedRow env record file ::
      (behind record.id s.table.rows).filter (peer record file s) := by
  rw [peers, settled, filter_append, filter_cons_of_pos isPeer_self]

theorem mem_peers_of_dropped {d : Row} (hd : d ∈ dropped env record file s) :
    d ∈ peers env record file s :=
  (mem_insertionSort NewestFirst).1 (mem_of_mem_drop hd)

variable (h : After env record file s s') {r : Row}
include h

theorem key_ne (hr : r ∈ others record s) : r.remoteKey ≠ remoteKey record.profileId record.id := by
  intro hkey
  have hkeys := h.keys
  rw [settled, map_append, map_cons] at hkeys
  have hnot := (nodup_cons.1 (nodup_middle.1 hkeys)).1
  rw [← map_append] at hnot
  exact hnot (mem_map.2 ⟨r, hr, hkey⟩)

theorem stocked_other (hr : r ∈ others record s) :
    stocked record file s.remote.get r.remoteKey = s.remote.get r.remoteKey :=
  update_of_ne (h.key_ne hr) _ _

theorem isPeer_other (hr : r ∈ others record s) :
    peer record file s r = isPeer record.profileId s.remote.get r := by
  rw [peer, isPeer, isPeer, h.stocked_other hr]

theorem nodup_peers : (peers env record file s).Nodup := h.keys.of_map.filter _

theorem ahead_eq_rank :
    ahead NewestFirst ((before record.id s.table.rows).filter (peer record file s))
      (verifiedRow env record file)
      ((behind record.id s.table.rows).filter (peer record file s)) = rank record s := by
  rw [ahead, rank, countP_filter, countP_filter]
  congr 1
  · refine countP_congr fun r hr => ?_
    rw [h.isPeer_other (mem_append_left _ hr)]
    simp only [Bool.and_eq_true, decide_eq_true_eq]
    exact and_comm
  · refine countP_congr fun r hr => ?_
    rw [h.isPeer_other (mem_append_right _ hr)]
    simp only [Bool.and_eq_true, decide_eq_true_eq, NewestFirst, not_le]
    exact and_comm

theorem self_mem_dropped :
    verifiedRow env record file ∈ dropped env record file s ↔ retention ≤ rank record s := by
  have hnodup := h.nodup_peers
  rw [← h.ahead_eq_rank, dropped, beyond]
  show _ ∈ ((peers env record file s).insertionSort NewestFirst).drop retention ↔ _
  rw [peers_eq] at hnodup ⊢
  exact ObjectStore.mem_drop_insertionSort hnodup retention

theorem key_mem_dropped (hr : r ∈ settled env record file s) :
    r.remoteKey ∈ (dropped env record file s).map Row.remoteKey ↔
      r ∈ dropped env record file s := by
  refine ⟨?_, mem_map_of_mem⟩
  intro hmem
  obtain ⟨d, hd, hkey⟩ := mem_map.1 hmem
  have hdr := inj_on_of_nodup_map h.keys (mem_filter.1 (mem_peers_of_dropped hd)).1 hr hkey
  exact hdr ▸ hd

theorem kept_iff :
    (s'.remote.get (remoteKey record.profileId record.id)).isSome ↔ rank record s < retention := by
  have hmem := h.key_mem_dropped (mem_settled_self env record file s)
  rw [h.self_mem_dropped] at hmem
  rw [h.store, without, ← not_le, ← hmem]
  show _ ↔ remoteKey record.profileId record.id ∉ _
  split
  · rename_i hin
    simp [hin]
  · rename_i hout
    simp [hout, stocked]

theorem removed_iff (k : String) :
    Removed record s s' k ↔ k ∈ (dropped env record file s).map Row.remoteKey := by
  rw [Removed, h.store, without]
  constructor
  · rintro ⟨hwas, hgone⟩
    by_contra hk
    rw [if_neg hk, stocked, update_apply] at hgone
    split at hgone
    · cases hgone
    · rename_i hne
      rw [hgone] at hwas
      simp [hne] at hwas
  · intro hk
    refine ⟨?_, if_pos hk⟩
    obtain ⟨d, hd, rfl⟩ := mem_map.1 hk
    have hpeer := (mem_filter.1 (mem_peers_of_dropped hd)).2
    simp only [isPeer, stocked, decide_eq_true_eq, update_apply] at hpeer
    by_cases hkey : d.remoteKey = remoteKey record.profileId record.id
    · exact .inr hkey
    · rw [if_neg hkey] at hpeer
      exact .inl hpeer.2.2.1

variable {γ : Type}

/-- The call changes no key and, the row of the record apart, no verification. -/
theorem map_rows {f : Row → γ} (hf : ∀ r p, f { r with pruneState := p } = f r) :
    s'.table.rows.map f = (settled env record file s).map f := by
  rw [h.rows, settled, map_append, map_append, map_cons, map_cons,
    map_markAll hf, map_markAll hf, finalRow, hf]

theorem owned {k : String} (hk : Removed record s s' k) :
    inPrefix record.profileId k ∧ ∃ r ∈ s'.table.rows, r.verified ∧ r.remoteKey = k := by
  obtain ⟨d, hd, rfl⟩ := mem_map.1 ((h.removed_iff k).1 hk)
  obtain ⟨hmem, hpeer⟩ := mem_filter.1 (mem_peers_of_dropped hd)
  simp only [isPeer, decide_eq_true_eq] at hpeer
  refine ⟨hpeer.2.2.2, ?_⟩
  have himage : (d.verified, d.remoteKey) ∈ s'.table.rows.map fun r => (r.verified, r.remoteKey) :=
    h.map_rows (f := fun r => (r.verified, r.remoteKey)) (fun _ _ => rfl) ▸ mem_map_of_mem hmem
  obtain ⟨r, hr, heq⟩ := mem_map.1 himage
  simp only [Prod.mk.injEq] at heq
  exact ⟨r, hr, by rw [heq.1]; exact hpeer.2.1, heq.2⟩

theorem truthful (hrank : rank record s < retention) (hr : r ∈ s'.table.rows)
    (hgone : Removed record s s' r.remoteKey) : r.pruneState = .deleted := by
  obtain ⟨d, hd, hkey⟩ := mem_map.1 ((h.removed_iff _).1 hgone)
  have hother : ∀ {l : List Row}, (∀ r ∈ l, r ∈ others record s) →
      r ∈ markAll ((dropped env record file s).map Row.backupId) l → r.pruneState = .deleted := by
    intro l hl hmem
    obtain ⟨r', hr', hmark⟩ := mem_map.1 hmem
    have hkey' : r'.remoteKey = d.remoteKey := by
      rw [hkey, ← hmark]
      split
      · rfl
      · rfl
    have hsettled : r' ∈ settled env record file s := by
      rcases mem_append.1 (hl r' hr') with hb | hb
      · exact mem_append_left _ hb
      · exact mem_append_right _ (.tail _ hb)
    have hrd := inj_on_of_nodup_map h.keys hsettled
      (mem_filter.1 (mem_peers_of_dropped hd)).1 hkey'
    rw [if_pos (hrd ▸ mem_map_of_mem hd)] at hmark
    rw [← hmark]
  rw [h.rows, mem_append, mem_cons] at hr
  rcases hr with hr | rfl | hr
  · exact hother (fun _ => mem_append_left _) hr
  · -- the row of the record itself: its object is kept
    have hself := (h.key_mem_dropped (mem_settled_self env record file s)).1
      ((h.removed_iff _).1 hgone)
    exact absurd (h.self_mem_dropped.1 hself) (not_le.2 hrank)
  · exact hother (fun _ => mem_append_right _) hr

theorem countP_left : (peers env record file s).countP (fun r => r ∉ dropped env record file s) =
    min (peers env record file s).length retention := by
  have hperm := perm_insertionSort NewestFirst (peers env record file s)
  have hnodup := hperm.nodup_iff.2 h.nodup_peers
  rw [← hperm.countP_eq, ← hperm.length_eq]
  show ((peers env record file s).insertionSort NewestFirst).countP (fun r =>
    r ∉ ((peers env record file s).insertionSort NewestFirst).drop retention) = _
  exact ObjectStore.countP_notMem_drop hnodup retention

theorem length_peers : (peers env record file s).length =
    (others record s).countP (isPeer record.profileId s.remote.get) + 1 := by
  have hcongr : (others record s).countP (isPeer record.profileId s.remote.get) =
      (others record s).countP (peer record file s) :=
    countP_congr fun r hr => by rw [h.isPeer_other hr]
  rw [hcongr, peers_eq, length_append, length_cons, countP_append,
    countP_eq_length_filter, countP_eq_length_filter]
  omega

end After

/-- A verified row whose object is stored below the prefix of the profile. -/
def isListed (view : String → Option β) (r : Row) : Bool :=
  r.verified ∧ (view r.remoteKey).isSome ∧ inPrefix profileId r.remoteKey

/-- The keys are unique: verified objects are counted by their rows. -/
theorem length_verifiedObjects (s : State β) : (verifiedObjects profileId s).length =
    s.table.rows.countP (isListed profileId s.remote.get) := by
  rw [countP_eq_length_filter, ← length_map (f := Prod.fst),
    ← length_map (f := Row.remoteKey)]
  refine List.Perm.length_eq ((perm_ext_iff_of_nodup ?_ ?_).2 fun k => ?_)
  · exact s.remote.unique.sublist ((filter_sublist.trans filter_sublist).map Prod.fst)
  · exact s.table.keys.sublist (filter_sublist.map Row.remoteKey)
  · simp only [verifiedObjects, mem_map, mem_filter, any_eq_true, decide_eq_true_eq, isListed]
    constructor
    · rintro ⟨⟨k, b⟩, ⟨hunder, r, hr, hver, hkey⟩, rfl⟩
      obtain ⟨hget, hpre⟩ := Store.mem_under.1 hunder
      refine ⟨r, ⟨hr, hver, ?_, ?_⟩, hkey⟩
      · rw [hkey, hget]
        rfl
      · rw [hkey]
        exact hpre
    · rintro ⟨r, ⟨hr, hver, hsome, hpre⟩, rfl⟩
      obtain ⟨b, hb⟩ := Option.isSome_iff_exists.1 hsome
      exact ⟨(r.remoteKey, b), ⟨Store.mem_under.2 ⟨hb, hpre⟩, r, hr, hver, rfl⟩, rfl⟩

namespace After

variable {record : BackupRecord β} {file : β} {s s' : State β} (h : After env record file s s')
include h

/-- A row that is listed afterwards is a peer that the pruning left, or a stranger. -/
theorem isListed_eq {r : Row} (hr : r ∈ settled env record file s) :
    isListed record.profileId s'.remote.get r =
      ((peer record file s r && decide (r ∉ dropped env record file s)) ||
        isStranger record.profileId (stocked record file s.remote.get) r) := by
  have hdropped := h.key_mem_dropped hr
  have hpeer : r ∈ dropped env record file s → r.profileId = record.profileId := fun hd =>
    isPeer_profileId (mem_filter.1 (mem_peers_of_dropped hd)).2
  rw [Bool.eq_iff_iff]
  simp only [isListed, isPeer, isStranger, h.store, without, hdropped, Bool.or_eq_true,
    Bool.and_eq_true, decide_eq_true_eq]
  by_cases hd : r ∈ dropped env record file s
  · simp [hd, hpeer hd]
  · simp only [hd, if_false, not_false_eq_true, and_true]
    tauto

theorem length_verifiedObjects_eq :
    (verifiedObjects record.profileId s').length = population record s := by
  have hrows : s'.table.rows.countP (isListed record.profileId s'.remote.get) =
      (settled env record file s).countP (isListed record.profileId s'.remote.get) := by
    have hcount : ∀ l : List Row, l.countP (isListed record.profileId s'.remote.get) =
        (l.map fun r => (r.verified, r.remoteKey)).countP fun c =>
          c.1 ∧ (s'.remote.get c.2).isSome ∧ inPrefix record.profileId c.2 := fun l => by
      rw [countP_map]
      rfl
    rw [hcount, hcount, h.map_rows fun _ _ => rfl]
  have hstrangers : (settled env record file s).countP
      (isStranger record.profileId (stocked record file s.remote.get)) =
      (others record s).countP (isStranger record.profileId s.remote.get) := by
    have hself : isStranger record.profileId (stocked record file s.remote.get)
        (verifiedRow env record file) = false := by
      simp [isStranger, verifiedRow, stageRow]
    rw [settled, countP_append, countP_cons_of_neg (by simp [hself]),
      ← countP_append]
    refine countP_congr fun r hr => ?_
    rw [isStranger, isStranger, h.stocked_other hr]
  rw [length_verifiedObjects, hrows, countP_congr fun r hr => by rw [h.isListed_eq hr],
    ObjectStore.countP_or, hstrangers, population, ← h.length_peers, ← h.countP_left]
  · rw [peers, countP_filter]
    congr 1
    exact countP_congr fun r _ => by rw [Bool.and_comm]
  · intro r _ hpeer
    have hprofile := isPeer_profileId (Bool.and_eq_true_iff.1 hpeer).1
    simp [isStranger, hprofile]

end After

/-- **The object of the record is kept, and all that is promised with it, exactly when fewer peers
than the retention come before it**, and the strangers leave room for the peers. -/
theorem protect_keeps_iff [DecidableEq β] (env : Env β) (record : BackupRecord β)
    (backupClass : BackupClass) (s s' : State β) (row : Row)
    (h : (protect env record backupClass).run s = (.ok row, s')) :
    Keeps record s s' ↔ rank record s < retention ∧ population record s ≤ retention := by
  obtain ⟨file, _, hafter⟩ := after_of_run h
  constructor
  · intro hkeeps
    exact ⟨hafter.kept_iff.1 hkeeps.kept, hafter.length_verifiedObjects_eq ▸ hkeeps.within⟩
  · rintro ⟨hrank, hpopulation⟩
    exact {
      kept := hafter.kept_iff.2 hrank
      within := hafter.length_verifiedObjects_eq ▸ hpopulation
      truthful := fun r hr hgone => hafter.truthful hrank hr hgone
      owned := fun k hk => hafter.owned hk }

/-! ### Two runs -/

def sampleReader : Reader ℕ where
  size := id
  sha256 := fun _ => String.ofList (replicate 64 '0')
  manifest := fun _ => .error "backup manifest is unreadable"
  sha256_hex := fun _ => by decide

def sampleEnv : Env ℕ where
  reader := sampleReader
  availability := none
  faults := fun _ => .none

def sampleRecord (day : String) (file : ℕ) : BackupRecord ℕ where
  id := day ++ "T000000000000Z-000000000000"
  profileId := "terraria-vanilla"
  verified := true
  file := some file

/-- The second and the third of January are protected. -/
def samplePrior : State ℕ :=
  let store := fun s record => ((protect sampleEnv record .application).run s).2
  store (store ⟨.empty, .empty, 0⟩ (sampleRecord "20260102" 2)) (sampleRecord "20260103" 3)

/-- The newest generation is kept. -/
theorem protect_keeps_iff_newest :
    ∃ row s', (protect sampleEnv (sampleRecord "20260104" 4) .application).run samplePrior =
      (.ok row, s') ∧ Keeps (sampleRecord "20260104" 4) samplePrior s' := by
  rcases hrun : (protect sampleEnv (sampleRecord "20260104" 4) .application).run samplePrior
    with ⟨r, s'⟩
  have hok : (((protect sampleEnv (sampleRecord "20260104" 4) .application).run
      samplePrior).1.toOption.isSome) = true := by decide +kernel
  rw [hrun] at hok
  cases r with
  | error e => cases hok
  | ok row =>
    exact ⟨row, s', rfl, (protect_keeps_iff sampleEnv (sampleRecord "20260104" 4) .application
      samplePrior s' row hrun).2 (by decide +kernel)⟩

/-- A generation older than two protected ones is uploaded, deleted and reported as protected. -/
theorem older_generation_lost :
    ∃ row s', (protect sampleEnv (sampleRecord "20260101" 1) .application).run samplePrior =
      (.ok row, s') ∧ row.pruneState = .succeeded ∧
      ¬ Keeps (sampleRecord "20260101" 1) samplePrior s' := by
  rcases hrun : (protect sampleEnv (sampleRecord "20260101" 1) .application).run samplePrior
    with ⟨r, s'⟩
  have hout : (((protect sampleEnv (sampleRecord "20260101" 1) .application).run
      samplePrior).1.toOption.map Row.pruneState) = some .succeeded := by decide +kernel
  have hgone : ((protect sampleEnv (sampleRecord "20260101" 1) .application).run
      samplePrior).2.remote.get (remoteKey "terraria-vanilla" (sampleRecord "20260101" 1).id) =
      none := by decide +kernel
  rw [hrun] at hout hgone
  cases r with
  | error e => cases hout
  | ok row =>
    refine ⟨row, s', rfl, Option.some.inj hout, fun hkeeps => ?_⟩
    have hkept := hkeeps.kept
    rw [show remoteKey (sampleRecord "20260101" 1).profileId (sampleRecord "20260101" 1).id =
      remoteKey "terraria-vanilla" (sampleRecord "20260101" 1).id from rfl, hgone] at hkept
    cases hkept

end Horizon.Protection
