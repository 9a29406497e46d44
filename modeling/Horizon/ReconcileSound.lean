/-
**The worlds that the planner accepts.**

The planner accepts a world when every generation of the catalog has its archive, every protection
row describes a generation of the catalog, every remote object is the archive of a generation or a
proven orphan, and the flags and rows of the retained and of the older generations fit together.
These conditions are stated here once, on the world itself.

Main results:

* `Reconcile.capture_eq` — what is captured, and when;
* `Reconcile.catalog_of_mem`, `Reconcile.protection_eq`, `Reconcile.remote_eq` — what is found in
  the index.
-/

import Horizon.ReconcileApply
import Mathlib.Data.List.Dedup
import Mathlib.Data.List.Infix

namespace Horizon.Reconcile

open List
open CatalogGeneration (key)
open ObjectStore (Store)
open Protection (Reader Row Protections Failure isGeneration fullmatch generationPattern
  profilePrefix remoteKey inPrefix archiveSuffix inPrefix_remoteKey)

/-! ### Keys -/

theorem fullmatch_forall {p : Char → Bool} : ∀ {ps : List (Char → Bool)} {cs : List Char},
    (∀ q ∈ ps, ∀ c, q c = true → p c = true) → fullmatch ps cs = true → ∀ c ∈ cs, p c = true
  | [], [], _, _ => fun _ hc => by cases hc
  | q :: ps, c :: cs, hps, h => by
    rw [fullmatch, Bool.and_eq_true] at h
    intro d hd
    rcases mem_cons.1 hd with rfl | hd
    · exact hps q (.head _) d h.1
    · exact fullmatch_forall (fun q hq => hps q (.tail _ hq)) h.2 d hd
  | [], _ :: _, _, h => by cases h
  | _ :: _, [], _, h => by cases h

theorem slash_notMem {i : String} (h : isGeneration i = true) : '/' ∉ i.toList := by
  intro hmem
  have hclasses : ∀ q ∈ generationPattern, ∀ c, q c = true → decide (c ≠ '/') = true := by
    intro q hq c hc
    simp only [generationPattern, mem_append, mem_replicate, mem_cons,
      not_mem_nil, or_false] at hq
    refine decide_eq_true fun hslash => ?_
    subst hslash
    rcases hq with (((⟨_, rfl⟩ | rfl) | ⟨_, rfl⟩) | rfl | rfl) | ⟨_, rfl⟩ <;> revert hc <;> decide
  have hall := fullmatch_forall hclasses h '/' hmem
  simp at hall

theorem toList_remoteKey (p i : String) : (remoteKey p i).toList =
    (profilePrefix p).toList ++ '/' :: (i.toList ++ archiveSuffix.toList) := by
  rw [remoteKey, String.toList_append, String.toList_append, String.toList_append]
  simp

theorem remoteKey_ne_empty (p i : String) : remoteKey p i ≠ "" := by
  intro h
  have := congrArg String.toList h
  rw [toList_remoteKey] at this
  simp at this

theorem basename_append {l m : List Char} (h : '/' ∉ m) : basename (l ++ '/' :: m) = m := by
  have hrev : (l ++ '/' :: m).reverse = m.reverse ++ '/' :: l.reverse := by simp
  have hall : ∀ c ∈ m.reverse, decide (c ≠ '/') = true := by
    intro c hc
    refine decide_eq_true fun hslash => h ?_
    rw [← hslash]
    exact mem_reverse.1 hc
  rw [basename, hrev, takeWhile_append_of_pos hall, takeWhile_cons_of_neg (by simp),
    append_nil, reverse_reverse]

theorem remoteBackupId_remoteKey {i : String} (p : String) (h : isGeneration i = true) :
    remoteBackupId p (remoteKey p i) = i := by
  have hslash : '/' ∉ i.toList ++ archiveSuffix.toList := by
    rw [mem_append, not_or]
    exact ⟨slash_notMem h, by decide⟩
  have hcount : (remoteKey p i).toList.count '/' = (profilePrefix p).toList.count '/' + 1 := by
    rw [toList_remoteKey, count_append, count_cons_self, count_eq_zero.2 hslash]
  have hbase : basename (remoteKey p i).toList = i.toList ++ archiveSuffix.toList := by
    rw [toList_remoteKey, basename_append hslash]
  rw [remoteBackupId, if_neg, hbase, if_neg]
  · rw [length_append, Nat.add_sub_cancel, take_left', String.ofList_toList]
    rfl
  · rw [not_not, isSuffixOf_iff_suffix]
    exact suffix_append _ _
  · rw [not_or, not_not, not_not]
    exact ⟨inPrefix_remoteKey p i, hcount⟩

theorem eq_of_inPrefix {p q k : String} (hp : p ∈ retainedProfileIds)
    (hq : q ∈ retainedProfileIds) (h : inPrefix p k = true) (h' : inPrefix q k = true) : p = q := by
  rw [inPrefix, isPrefixOf_iff_prefix] at h h'
  have hcases := prefix_or_prefix_of_prefix h h'
  simp only [retainedProfileIds, mem_cons, not_mem_nil, or_false] at hp hq
  rcases hp with rfl | rfl | rfl <;> rcases hq with rfl | rfl | rfl <;>
    first
    | rfl
    | exact absurd hcases (by decide)

theorem remoteKey_inj {p q i j : String} (hp : p ∈ retainedProfileIds)
    (hq : q ∈ retainedProfileIds) (hi : isGeneration i = true) (hj : isGeneration j = true)
    (h : remoteKey p i = remoteKey q j) : p = q ∧ i = j := by
  have hpq : p = q := eq_of_inPrefix hp hq (inPrefix_remoteKey p i) (h ▸ inPrefix_remoteKey q j)
  subst hpq
  refine ⟨rfl, ?_⟩
  rw [← remoteBackupId_remoteKey p hi, h, remoteBackupId_remoteKey p hj]

/-! ### Indexes -/

section Collect

variable {ρ : Type} {refuse : ρ → Option String} {skip : ρ → Bool} {key : ρ → String × String}
  {duplicate : String} {seen rows : List ρ}

/-- An index that refuses nothing has every row that is not skipped. -/
theorem collect_of_nil (h : (collect refuse skip key duplicate seen rows).2 = []) :
    (∀ r ∈ rows, refuse r = none) ∧
      (collect refuse skip key duplicate seen rows).1 = seen ++ rows.filter (! skip ·) := by
  induction rows generalizing seen with
  | nil => simp [collect]
  | cons item rest ih =>
    rw [collect] at h ⊢
    cases hrefuse : refuse item with
    | some text => simp [hrefuse] at h
    | none =>
      simp only [hrefuse] at h ⊢
      by_cases hskip : skip item = true
      · rw [if_pos hskip] at h ⊢
        obtain ⟨hall, hrows⟩ := ih h
        exact ⟨by simpa [hrefuse] using hall, by rw [hrows]; simp [hskip]⟩
      · rw [if_neg hskip] at h ⊢
        by_cases hseen : (seen.any fun o => key o = key item) = true
        · rw [if_pos hseen] at h
          cases h
        · rw [if_neg hseen] at h ⊢
          obtain ⟨hall, hrows⟩ := ih h
          exact ⟨by simpa [hrefuse] using hall, by rw [hrows]; simp [hskip]⟩

theorem collect_of_nodup (hrefuse : ∀ r ∈ rows, refuse r = none)
    (hnodup : ((seen ++ rows.filter (! skip ·)).map key).Nodup) :
    collect refuse skip key duplicate seen rows = (seen ++ rows.filter (! skip ·), []) := by
  induction rows generalizing seen with
  | nil => simp [collect]
  | cons item rest ih =>
    have hrest := fun r hr => hrefuse r (.tail _ hr)
    rw [collect, hrefuse item mem_cons_self]
    by_cases hskip : skip item = true
    · rw [if_pos hskip]
      rw [filter_cons_of_neg (by simp [hskip])] at hnodup ⊢
      exact ih hrest hnodup
    · rw [if_neg hskip]
      rw [filter_cons_of_pos (by simpa using hskip)] at hnodup ⊢
      have hnew : ¬ (seen.any fun o => key o = key item) = true := by
        intro hany
        obtain ⟨o, ho, hkey⟩ := any_eq_true.1 hany
        rw [map_append, map_cons] at hnodup
        refine (nodup_cons.1 (nodup_middle.1 hnodup)).1 (mem_append_left _ ?_)
        rw [← of_decide_eq_true hkey]
        exact mem_map_of_mem ho
      rw [if_neg hnew]
      rw [append_cons] at hnodup
      rw [ih hrest hnodup, ← append_cons]

end Collect

/-! ### Sound worlds -/

variable {β : Type} {p i : String} {c : CatalogRow} {α γ : Type} {r : RemoteGeneration}
  {x : Except Failure α} {f : α → Except Failure γ}

namespace World

variable (w : World β)

/-- The newest generations of a profile in the catalog. -/
def retained (profileId : String) : List String :=
  (((w.catalog.rows.filter fun c => c.profileId = profileId).map CatalogRow.id).insertionSort
    fun a b => KeyLe b a).take retention

def object (c : CatalogRow) : Option β := w.remote.get (remoteKey c.profileId c.id)

def Catalogued (profileId backupId : String) : Prop :=
  ∃ c ∈ w.catalog.rows, c.profileId = profileId ∧ c.id = backupId

end World

/-- The manifest of an archive identifies a generation. -/
def Identified (R : Reader β) (b : β) (profileId backupId : String) : Prop :=
  ∃ m, R.manifest b = .ok m ∧ identifies m profileId backupId = true

/-- A remote object that no row of the catalog speaks of, and whose manifest has been read. -/
structure Foreign (R : Reader β) (w : World β) (profileId backupId : String) (b : β) : Prop where
  unknown : ¬ w.Catalogued profileId backupId
  size : (R.size b : ℤ) ≤ maxStagedBytes
  identified : Identified R b profileId backupId
  staged : w.staged profileId backupId = none ∨ w.staged profileId backupId = some b

/-- Rows, archives and objects describe each other. -/
structure Grounded (R : Reader β) (w : World β) : Prop where
  scope : ∀ c ∈ w.catalog.rows, c.profileId ∈ retainedProfileIds ∧ isGeneration c.id = true
  verified : ∀ c ∈ w.catalog.rows, c.verified = true
  archived : ∀ c ∈ w.catalog.rows, ∃ b, w.archives c.profileId c.id = some b ∧
    (R.size b : ℤ) = c.sizeBytes ∧ Identified R b c.profileId c.id
  /-- A protection row describes the archive of a generation. -/
  described : ∀ r ∈ w.protections.rows, ∃ c ∈ w.catalog.rows, c.id = r.backupId ∧
    c.profileId = r.profileId ∧ r.remoteKey = remoteKey c.profileId c.id ∧
    ∃ b, w.archives c.profileId c.id = some b ∧ r.localSha256 = R.sha256 b
  recorded : ∀ r ∈ w.protections.rows, verificationRecorded r = true ∧
    (r.pruneState = .notStarted ∨ r.pruneState = .succeeded ∨ r.pruneState = .deleted)
  /-- A remote object is the archive of a generation, or foreign. -/
  objects : ∀ p ∈ retainedProfileIds, ∀ k b, w.remote.get k = some b → inPrefix p k = true →
    ∃ i, isGeneration i = true ∧ k = remoteKey p i ∧
      ((w.Catalogued p i ∧ w.archives p i = some b) ∨ Foreign R w p i b)

/-- A retained generation is not recorded as deleted, and it is protected unless its object is
stored and has a row. -/
def Kept (w : World β) (c : CatalogRow) : Prop :=
  (∀ r, w.protections.find c.id = some r → r.pruneState ≠ .deleted) ∧
    (c.isProtected = false → (w.object c).isSome ∧ (w.protections.find c.id).isSome)

structure Planned (R : Reader β) (w : World β) (p : String) : Prop where
  /-- A foreign object is older than what is retained. -/
  orphans : ∀ i b, w.remote.get (remoteKey p i) = some b → isGeneration i = true →
    Foreign R w p i b → w.retained p ≠ [] ∧ ¬ KeyLe (oldest (w.retained p)) i
  single : ∀ i j b b', w.remote.get (remoteKey p i) = some b →
    w.remote.get (remoteKey p j) = some b' → Foreign R w p i b → Foreign R w p j b' →
    isGeneration i = true → isGeneration j = true → i = j
  kept : ∀ c ∈ w.catalog.rows, c.profileId = p → c.id ∈ w.retained p → Kept w c
  /-- An older generation with an object has a row that is not deleted. -/
  older : ∀ c ∈ w.catalog.rows, c.profileId = p → c.id ∉ w.retained p → (w.object c).isSome →
    ∃ r, w.protections.find c.id = some r ∧ r.pruneState ≠ .deleted

structure Sound (R : Reader β) (w : World β) : Prop extends Grounded R w where
  planned : ∀ p ∈ retainedProfileIds, Planned R w p

/-! ### Capturing -/

section Capture

variable (R : Reader β) (w : World β)

def generationOf (c : CatalogRow) : CatalogGeneration where
  backupId := c.id
  profileId := c.profileId
  sizeBytes := c.sizeBytes
  sha256 := (localArchiveMetadata R (w.archives c.profileId c.id)).2
  verified := c.verified
  isProtected := c.isProtected
  archiveSizeBytes := some (localArchiveMetadata R (w.archives c.profileId c.id)).1

/-- The evidence of a remote object of a profile. -/
def objectOf [DecidableEq β] (profileId : String) (o : String × β) : RemoteGeneration :=
  match (w.catalog.rows.map (generationOf R w)).find?
      fun c => c.key = (profileId, remoteBackupId profileId o.1) with
  | some l => knownObject R w l profileId o
  | none => provenObject R profileId o
      (if (w.staged profileId (remoteBackupId profileId o.1)).isSome then .manifestCryptcheck
        else .manifest) o.2

/-- The evidence of a world that can be captured. -/
def evidenceOf [DecidableEq β] : Evidence where
  catalog := w.catalog.rows.map (generationOf R w)
  protections := w.protections.rows
  remote := (retainedProfileIds.map fun p =>
    (w.remote.under (profilePrefix p ++ "/")).map (objectOf R w p)).flatten

structure Capturable : Prop where
  scope : scopeExact w = true
  archives : ∀ c ∈ w.catalog.rows, ∀ b, w.archives c.profileId c.id = some b →
    Identified R b c.profileId c.id
  objects : ∀ p ∈ retainedProfileIds, ∀ k b, w.remote.get k = some b → inPrefix p k = true →
    ¬ w.Catalogued p (remoteBackupId p k) →
    Identified R b p (remoteBackupId p k) ∧
      (w.staged p (remoteBackupId p k) = some b ∨
        (w.staged p (remoteBackupId p k) = none ∧ (R.size b : ℤ) ≤ maxStagedBytes))

variable {R w}

theorem validateArchiveManifest_eq {b : β} :
    validateArchiveManifest R b p i = .ok () ↔ Identified R b p i := by
  rw [validateArchiveManifest, Identified]
  cases R.manifest b with
  | error text => simp
  | ok m => simp

theorem captureRow_eq {g : CatalogGeneration} : captureRow R w c = .ok g ↔ g = generationOf R w c ∧
    ∀ b, w.archives c.profileId c.id = some b → Identified R b c.profileId c.id := by
  unfold captureRow generationOf
  cases hfile : w.archives c.profileId c.id with
  | none => simp [eq_comm]
  | some b =>
    cases hv : validateArchiveManifest R b c.profileId c.id with
    | error e =>
      have hnot : ¬ Identified R b c.profileId c.id := by
        rw [← validateArchiveManifest_eq, hv]
        simp
      simp [Except.map, hv, hnot]
    | ok u =>
      have hyes : Identified R b c.profileId c.id := validateArchiveManifest_eq.1 hv
      simp [Except.map, hv, hyes, eq_comm]

theorem find_generation :
    ((w.catalog.rows.map (generationOf R w)).find? fun c => c.key = (p, i)) = none ↔
      ¬ w.Catalogued p i := by
  simp only [find?_eq_none, mem_map, key, World.Catalogued]
  constructor
  · rintro h ⟨c, hc, rfl, rfl⟩
    simpa [generationOf] using h _ ⟨c, hc, rfl⟩
  · rintro h _ ⟨c, hc, rfl⟩ hkey
    simp only [generationOf, decide_eq_true_eq, Prod.mk.injEq] at hkey
    exact h ⟨c, hc, hkey.1, hkey.2⟩

theorem verifyStagedManifest_eq [DecidableEq β] {b st b' : β} :
    verifyStagedManifest R b st p i = .ok b' ↔ b' = b ∧ st = b ∧ Identified R b p i := by
  rw [verifyStagedManifest]
  by_cases hst : st = b
  · subst hst
    rw [if_neg (not_not.2 rfl)]
    cases hv : validateArchiveManifest R st p i with
    | error e =>
      have hnot : ¬ Identified R st p i := by
        rw [← validateArchiveManifest_eq, hv]
        simp
      simp [hnot]
    | ok u =>
      have hyes : Identified R st p i := validateArchiveManifest_eq.1 hv
      simp [hyes, eq_comm]
  · refine ⟨fun h => ?_, fun h => absurd h.2.1 hst⟩
    split at h
    · cases h
    · split at h
      · cases h
      · cases h

theorem downloadAndVerifyManifest_eq {b b' : β} : downloadAndVerifyManifest R b p i = .ok b' ↔
    b' = b ∧ (R.size b : ℤ) ≤ maxStagedBytes ∧ Identified R b p i := by
  rw [downloadAndVerifyManifest, Identified]
  by_cases hsize : (R.size b : ℤ) > maxStagedBytes
  · simp [hsize]
  · rw [if_neg hsize]
    cases R.manifest b with
    | error text => simp
    | ok m =>
      have hle : (R.size b : ℤ) ≤ maxStagedBytes := not_lt.1 hsize
      by_cases hm : identifies m p i = true
      · simp [hm, hle, eq_comm (a := b)]
      · simp [hm]

theorem except_map_eq {f : α → γ} {c : γ} : x.map f = .ok c ↔ ∃ a, x = .ok a ∧ f a = c := by
  cases x <;> simp [Except.map]

theorem captureObject_eq [DecidableEq β] {o : String × β} :
    captureObject R w (w.catalog.rows.map (generationOf R w)) p o = .ok r ↔
      r = objectOf R w p o ∧ (¬ w.Catalogued p (remoteBackupId p o.1) →
        Identified R o.2 p (remoteBackupId p o.1) ∧
          (w.staged p (remoteBackupId p o.1) = some o.2 ∨
            (w.staged p (remoteBackupId p o.1) = none ∧ (R.size o.2 : ℤ) ≤ maxStagedBytes))) := by
  rw [← find_generation, captureObject, objectOf]
  cases (w.catalog.rows.map (generationOf R w)).find?
      fun c => c.key = (p, remoteBackupId p o.1) with
  | some l =>
    constructor
    · intro h
      exact ⟨(Except.ok.inj h).symm, fun hnone => by cases hnone⟩
    · rintro ⟨rfl, _⟩
      rfl
  | none =>
    simp only [forall_true_left]
    cases hstaged : w.staged p (remoteBackupId p o.1) with
    | some st =>
      simp only [except_map_eq, verifyStagedManifest_eq]
      constructor
      · rintro ⟨b, ⟨rfl, rfl, hid⟩, rfl⟩
        exact ⟨rfl, hid, .inl rfl⟩
      · rintro ⟨rfl, hid, hst | hst⟩
        · cases hst
          exact ⟨o.2, ⟨rfl, rfl, hid⟩, rfl⟩
        · cases hst.1
    | none =>
      simp only [except_map_eq, downloadAndVerifyManifest_eq]
      constructor
      · rintro ⟨b, ⟨rfl, hsize, hid⟩, rfl⟩
        exact ⟨rfl, hid, .inr ⟨trivial, hsize⟩⟩
      · rintro ⟨rfl, hid, hst | hst⟩
        · cases hst
        · exact ⟨o.2, ⟨rfl, hst.2, hid⟩, rfl⟩

theorem bind_eq_ok {c : γ} : x >>= f = .ok c ↔ ∃ a, x = .ok a ∧ f a = .ok c := by
  cases x <;> simp [bind, Except.bind]

/-- A loop of calls that return `g a` when `P a` holds, and fail otherwise. -/
theorem mapM_eq_map {g : α → γ} {P : α → Prop} {l : List α}
    (h : ∀ a ∈ l, ∀ c, f a = .ok c ↔ c = g a ∧ P a) {l' : List γ} :
    l.mapM f = .ok l' ↔ l' = l.map g ∧ ∀ a ∈ l, P a := by
  induction l generalizing l' with
  | nil => simp [pure, Except.pure, eq_comm]
  | cons a l ih =>
    have hrest := fun l' => @ih (fun b hb => h b (.tail _ hb)) l'
    have ha := h a (.head _)
    rw [mapM_cons, bind_eq_ok]
    constructor
    · rintro ⟨c, hc, htail⟩
      obtain ⟨m, hm, hpure⟩ := bind_eq_ok.1 htail
      obtain ⟨rfl, hP⟩ := (ha c).1 hc
      obtain ⟨rfl, hall⟩ := (hrest m).1 hm
      cases hpure
      exact ⟨rfl, forall_mem_cons.2 ⟨hP, hall⟩⟩
    · rintro ⟨rfl, hall⟩
      rw [forall_mem_cons] at hall
      exact ⟨g a, (ha _).2 ⟨rfl, hall.1⟩, bind_eq_ok.2 ⟨l.map g, (hrest _).2 ⟨rfl, hall.2⟩, rfl⟩⟩

theorem capture_eq [DecidableEq β] {e : Evidence} :
    capture R w = .ok e ↔ e = evidenceOf R w ∧ Capturable R w := by
  have hrows : ∀ {l}, w.catalog.rows.mapM (captureRow R w) = .ok l ↔ _ :=
    mapM_eq_map fun c _ g => captureRow_eq
  have hobjects : ∀ p ∈ retainedProfileIds, ∀ l,
      (w.remote.under (profilePrefix p ++ "/")).mapM
        (captureObject R w (w.catalog.rows.map (generationOf R w)) p) = .ok l ↔ _ :=
    fun p _ l => mapM_eq_map fun o _ r => captureObject_eq
  rw [capture]
  by_cases hscope : scopeExact w = true
  · rw [if_neg (by simp [hscope])]
    beta_reduce
    rw [bind_eq_ok]
    constructor
    · rintro ⟨catalog, hcatalog, hrest⟩
      obtain ⟨rfl, harchives⟩ := hrows.1 hcatalog
      obtain ⟨remote, hremote, hpure⟩ := bind_eq_ok.1 hrest
      obtain ⟨rfl, hall⟩ := (mapM_eq_map hobjects).1 hremote
      cases hpure
      refine ⟨rfl, hscope, harchives, ?_⟩
      intro p hp k b hget hk
      exact hall p hp (k, b) (Store.mem_under.2 ⟨hget, hk⟩)
    · rintro ⟨rfl, hcap⟩
      refine ⟨_, hrows.2 ⟨rfl, hcap.archives⟩, bind_eq_ok.2 ⟨_, (mapM_eq_map hobjects).2
        ⟨rfl, ?_⟩, rfl⟩⟩
      rintro p hp ⟨k, b⟩ ho
      obtain ⟨hget, hk⟩ := Store.mem_under.1 ho
      exact hcap.objects p hp k b hget hk
  · rw [if_pos hscope]
    refine ⟨fun h => ?_, fun h => absurd h.2.scope hscope⟩
    cases h

end Capture

/-! ### Looking evidence up -/

/-- The remote objects of the retained profiles have the keys of generations. -/
def Canonical (w : World β) : Prop :=
  ∀ p ∈ retainedProfileIds, ∀ k b, w.remote.get k = some b → inPrefix p k = true →
    ∃ i, isGeneration i = true ∧ k = remoteKey p i

/-- Every protection row speaks of a generation in the catalog. -/
def Attached (w : World β) : Prop :=
  ∀ r ∈ w.protections.rows, ∃ c ∈ w.catalog.rows, c.id = r.backupId ∧ c.profileId = r.profileId

/-- The only element with a property is the one that is found. -/
theorem find?_eq_of_unique {l : List α} {q : α → Bool} {a : α} (ha : a ∈ l)
    (hq : q a = true) (honly : ∀ b ∈ l, q b = true → b = a) : l.find? q = some a := by
  cases hfind : l.find? q with
  | none => exact absurd hq (find?_eq_none.1 hfind a ha)
  | some b => rw [honly b (mem_of_find?_eq_some hfind) (find?_some hfind)]

theorem find_of_mem {t : Protections} {r : Row} (hr : r ∈ t.rows) : t.find r.backupId = some r :=
  find?_eq_of_unique hr (decide_eq_true rfl) fun _ hr' hid =>
    inj_on_of_nodup_map t.ids hr' hr (of_decide_eq_true hid)

theorem find_row {w : World β} (hattached : Attached w) (hc : c ∈ w.catalog.rows) (q : Row → Bool) :
    (w.protections.rows.filter q).find? (fun r => rowKey r = (c.profileId, c.id)) =
      (w.protections.find c.id).filter q := by
  have hprofile : ∀ r ∈ w.protections.rows, r.backupId = c.id → r.profileId = c.profileId := by
    intro r hr hid
    obtain ⟨c', hc', hid', hprofile'⟩ := hattached r hr
    rw [← hprofile', inj_on_of_nodup_map w.catalog.unique hc' hc (hid'.trans hid)]
  have hkeys : ∀ r ∈ w.protections.rows.filter q, rowKey r = (c.profileId, c.id) →
      r ∈ w.protections.rows ∧ q r = true ∧ r.backupId = c.id := by
    intro r hr hkey
    rw [mem_filter] at hr
    rw [rowKey, Prod.mk.injEq] at hkey
    exact ⟨hr.1, hr.2, hkey.2⟩
  rw [Protections.find]
  cases hfind : w.protections.rows.find? fun r => r.backupId = c.id with
  | none =>
    rw [Option.filter_none, find?_eq_none]
    intro r hr hkey
    obtain ⟨hmem, _, hid⟩ := hkeys r hr (of_decide_eq_true hkey)
    exact find?_eq_none.1 hfind r hmem (decide_eq_true hid)
  | some r =>
    have hr := mem_of_find?_eq_some hfind
    have hid : r.backupId = c.id := by simpa using find?_some hfind
    have honly : ∀ r' ∈ w.protections.rows.filter q,
        decide (rowKey r' = (c.profileId, c.id)) = true → r' = r ∧ q r' = true := by
      intro r' hr' hkey
      obtain ⟨hmem, hq, hid'⟩ := hkeys r' hr' (of_decide_eq_true hkey)
      exact ⟨inj_on_of_nodup_map w.protections.ids hmem hr (hid'.trans hid.symm), hq⟩
    cases hq : q r with
    | true =>
      rw [Option.filter_some_pos hq]
      refine find?_eq_of_unique (mem_filter.2 ⟨hr, hq⟩) ?_
        fun r' hr' hkey => (honly r' hr' hkey).1
      rw [decide_eq_true_eq, rowKey, hid, hprofile r hr hid]
    | false =>
      rw [Option.filter_some_neg hq, find?_eq_none]
      intro r' hr' hkey
      obtain ⟨rfl, hq'⟩ := honly r' hr' hkey
      rw [hq] at hq'
      cases hq'

variable [DecidableEq β] (R : Reader β) (w : World β)

/-- The index of a world that no index refuses. -/
def indexOf : Index where
  catalogs := w.catalog.rows.map (generationOf R w)
  protections := w.protections.rows.filter fun r => r.pruneState ≠ .deleted
  deleted := w.protections.rows.filter fun r => r.pruneState = .deleted
  remotes := (evidenceOf R w).remote

variable {R w}

theorem mem_evidence_remote : r ∈ (evidenceOf R w).remote ↔
    ∃ p ∈ retainedProfileIds, ∃ k b, w.remote.get k = some b ∧ inPrefix p k = true ∧
      r = objectOf R w p (k, b) := by
  simp only [evidenceOf, mem_flatten, mem_map, exists_exists_and_eq_and]
  constructor
  · rintro ⟨p, hp, ⟨k, b⟩, ho, rfl⟩
    obtain ⟨hget, hk⟩ := Store.mem_under.1 ho
    exact ⟨p, hp, k, b, hget, hk, rfl⟩
  · rintro ⟨p, hp, k, b, hget, hk, rfl⟩
    exact ⟨p, hp, (k, b), Store.mem_under.2 ⟨hget, hk⟩, rfl⟩

theorem objectOf_key (p : String) (o : String × β) :
    (objectOf R w p o).key = (p, remoteBackupId p o.1) := by
  rw [objectOf]
  split
  · rfl
  · rfl

theorem objectOf_profileId (p : String) (o : String × β) : (objectOf R w p o).profileId = p :=
  congrArg Prod.fst (objectOf_key p o)

theorem objectOf_backupId (p : String) (hi : isGeneration i = true) (b : β) :
    (objectOf R w p (remoteKey p i, b)).backupId = i :=
  (congrArg Prod.snd (objectOf_key (R := R) p (remoteKey p i, b))).trans
    (remoteBackupId_remoteKey p hi)

theorem objectOf_remoteKey (p : String) (o : String × β) : (objectOf R w p o).remoteKey = o.1 := by
  rw [objectOf]
  split
  · rfl
  · rfl

theorem objectOf_sizeBytes (p : String) (o : String × β) :
    (objectOf R w p o).sizeBytes = R.size o.2 := by
  rw [objectOf]
  split
  · rfl
  · rfl

theorem catalog_of_mem (hc : c ∈ w.catalog.rows) :
    (indexOf R w).catalog (c.profileId, c.id) = some (generationOf R w c) := by
  refine find?_eq_of_unique (mem_map_of_mem hc) (by simp [key,
    generationOf]) ?_
  intro g hg hkey
  obtain ⟨c', hc', rfl⟩ := mem_map.1 hg
  rw [decide_eq_true_eq, key, Prod.mk.injEq] at hkey
  rw [inj_on_of_nodup_map w.catalog.unique hc' hc hkey.2]

theorem catalog_none (h : ¬ w.Catalogued p i) : (indexOf R w).catalog (p, i) = none :=
  find_generation.2 h

theorem catalog_cases (p i : String) :
    (¬ w.Catalogued p i ∧ (indexOf R w).catalog (p, i) = none) ∨
      ∃ c ∈ w.catalog.rows, c.profileId = p ∧ c.id = i ∧
        (indexOf R w).catalog (p, i) = some (generationOf R w c) := by
  by_cases h : w.Catalogued p i
  · obtain ⟨c, hc, rfl, rfl⟩ := h
    exact .inr ⟨c, hc, rfl, rfl, catalog_of_mem hc⟩
  · exact .inl ⟨h, catalog_none h⟩

theorem localIds_eq (p : String) : (indexOf R w).localIds p =
    (w.catalog.rows.filter fun c => c.profileId = p).map CatalogRow.id := by
  rw [Index.localIds, indexOf, filter_map, map_map]
  rfl

theorem retained_eq (p : String) : (indexOf R w).retained p = w.retained p := by
  rw [Index.retained, localIds_eq, World.retained]

theorem protection_eq (hattached : Attached w) (hc : c ∈ w.catalog.rows) :
    (indexOf R w).protection (c.profileId, c.id) =
      (w.protections.find c.id).filter fun r => r.pruneState ≠ .deleted :=
  find_row hattached hc _

theorem deletedProtection_eq (hattached : Attached w) (hc : c ∈ w.catalog.rows) :
    (indexOf R w).deletedProtection (c.profileId, c.id) =
      (w.protections.find c.id).filter fun r => r.pruneState = .deleted :=
  find_row hattached hc _

theorem object_of_mem (hcanonical : Canonical w) (hr : r ∈ (evidenceOf R w).remote) :
    ∃ b, isGeneration r.backupId = true ∧
      w.remote.get (remoteKey r.profileId r.backupId) = some b ∧
      r = objectOf R w r.profileId (remoteKey r.profileId r.backupId, b) := by
  obtain ⟨q, hq, k, b, hk, hpre, rfl⟩ := mem_evidence_remote.1 hr
  obtain ⟨j, hj, rfl⟩ := hcanonical q hq k b hk hpre
  rw [objectOf_backupId q hj, objectOf_profileId]
  exact ⟨b, hj, hk, rfl⟩

theorem remote_eq (hcanonical : Canonical w) (hp : p ∈ retainedProfileIds)
    (hi : isGeneration i = true) :
    (indexOf R w).remote (p, i) =
      (w.remote.get (remoteKey p i)).map fun b => objectOf R w p (remoteKey p i, b) := by
  rw [Index.remote, indexOf]
  have hobject : ∀ r ∈ (evidenceOf R w).remote, decide (r.key = (p, i)) = true →
      ∃ b, w.remote.get (remoteKey p i) = some b ∧ r = objectOf R w p (remoteKey p i, b) := by
    intro r hr hkey
    obtain ⟨rfl, rfl⟩ := Prod.mk.inj (of_decide_eq_true hkey)
    obtain ⟨b, _, hget, hsame⟩ := object_of_mem hcanonical hr
    exact ⟨b, hget, hsame⟩
  cases hget : w.remote.get (remoteKey p i) with
  | none =>
    rw [Option.map_none, find?_eq_none]
    intro r hr hkey
    obtain ⟨b, hb, _⟩ := hobject r hr hkey
    rw [hget] at hb
    cases hb
  | some b =>
    refine find?_eq_of_unique
      (mem_evidence_remote.2 ⟨p, hp, _, b, hget, inPrefix_remoteKey p i, rfl⟩) ?_ ?_
    · rw [decide_eq_true_eq, objectOf_key, remoteBackupId_remoteKey p hi]
    · intro r hr hkey
      obtain ⟨b', hb, hsame⟩ := hobject r hr hkey
      rw [hget] at hb
      cases hb
      exact hsame

theorem mem_remoteIds (hcanonical : Canonical w) (hp : p ∈ retainedProfileIds) :
    i ∈ (indexOf R w).remoteIds p ↔
      isGeneration i = true ∧ (w.remote.get (remoteKey p i)).isSome := by
  simp only [Index.remoteIds, indexOf, mem_map, mem_filter, decide_eq_true_eq]
  constructor
  · rintro ⟨r, ⟨hr, rfl⟩, rfl⟩
    obtain ⟨b, hi, hget, _⟩ := object_of_mem hcanonical hr
    exact ⟨hi, by rw [hget]; rfl⟩
  · rintro ⟨hi, hsome⟩
    obtain ⟨b, hb⟩ := Option.isSome_iff_exists.1 hsome
    exact ⟨_, ⟨mem_evidence_remote.2 ⟨p, hp, _, b, hb, inPrefix_remoteKey p i, rfl⟩,
      objectOf_profileId _ _⟩, objectOf_backupId p hi b⟩

end Horizon.Reconcile
