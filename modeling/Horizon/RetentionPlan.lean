/-
**The retention plan of the laptop vault.**

`build_plan` reads an inventory of the content-addressed vault and lists the objects that a
retention policy makes eligible for removal.  An object is a candidate when none of the catalog
entries with its digest is excluded; the entries among the newest ones of their profile are excluded
first.

What is kept is counted in entries, and not in what could be restored from them: an entry that is
quarantined or purged takes a place among the newest, and so does a second copy of one object.

Main results:

* `Retention.floor_of_newest` — the floor holds where the newest entries are usable and different;
* `Retention.floor_of_newest_usable` — **it holds where enough of them are**.
-/

import Mathlib.Tactic

namespace Horizon.Retention

open List

/-! ### The document -/

/-- A JSON value; a float that is not a number or infinite has no value. -/
inductive Json
  | null
  | bool (b : Bool)
  | int (n : ℤ)
  | float (x : Option ℚ)
  | str (s : String)
  | list (l : List Json)
  | object (members : List (String × Json))

/-- `dict.get`. -/
def get (members : List (String × Json)) (key : String) : Json := (members.lookup key).getD .null

inductive Stop
  | refused (text : String)
  /-- An exception other than `PlanRefused`. -/
  | raised
  deriving DecidableEq

/-- What `datetime.fromisoformat` makes of a text: the time as its place among the floats. -/
inductive Moment
  | invalid
  | naive
  /-- It is not representable in UTC. -/
  | overflow
  | at (epoch : ℤ)
  deriving DecidableEq

structure Env where
  fromisoformat : String → Moment
  /-- The order in which a set is iterated. -/
  iterate : List String → List String

/-- `_int`. -/
def int (value : Json) (name : String) : Except Stop ℤ :=
  match value with
  | .int n => if n < 0 then .error (.refused (name ++ " is invalid")) else .ok n
  | _ => .error (.refused (name ++ " is invalid"))

/-- `_positive`. -/
def positive (value : Json) (name : String) : Except Stop ℤ := do
  let number ← int value name
  if number ≤ 0 then .error (.refused (name ++ " must be positive")) else .ok number

/-- `DIGEST.match`; the dollar also matches before a last line feed. -/
def isDigest (s : String) : Bool :=
  let hex := fun l : List Char => l.length = 64 ∧ l.all fun c => c ∈ "0123456789abcdef".toList
  hex s.toList ∨ (s.toList.getLast? = some '\n' ∧ hex s.toList.dropLast)

/-- `_digest`. -/
def digest (value : Json) (name : String) : Except Stop String :=
  match value with
  | .str s => if isDigest s then .ok s else .error (.refused (name ++ " is not a sha256 digest"))
  | _ => .error (.refused (name ++ " is not a sha256 digest"))

variable (env : Env)

/-- `_created_at`. -/
def createdAt (value : Json) : Except Stop ℤ :=
  match value with
  | .str s =>
    if s = "" ∨ s.length > 64 then .error (.refused "catalog created_at is invalid")
    else
      let text := if s.toList.getLast? = some 'Z' then
        String.ofList (s.toList.dropLast) ++ "+00:00" else s
      match env.fromisoformat text with
      | .invalid => .error (.refused "catalog created_at is invalid")
      | .naive => .error (.refused "catalog created_at is naive")
      | .overflow => .error .raised
      | .at epoch => .ok epoch
  | _ => .error (.refused "catalog created_at is invalid")

/-! ### The inventory -/

structure Entry where
  backupId : String
  profileId : String
  sizeBytes : ℤ
  digest : String
  epoch : ℤ
  deriving DecidableEq

/-- The entries, by their ids; the size belongs to the digest. -/
structure Catalog where
  entries : List Entry
  unique : (entries.map Entry.backupId).Nodup
  sizes : ∀ e ∈ entries, ∀ e' ∈ entries, e.digest = e'.digest → e.sizeBytes = e'.sizeBytes
  deriving DecidableEq

def Catalog.empty : Catalog := ⟨[], nodup_nil, fun _ he => by cases he⟩

variable (c : Catalog)

def Catalog.add (e : Entry) (hid : e.backupId ∉ c.entries.map Entry.backupId)
    (hsize : ¬ ∃ e' ∈ c.entries, e'.digest = e.digest ∧ e'.sizeBytes ≠ e.sizeBytes) :
    Catalog where
  entries := c.entries ++ [e]
  unique := by
    rw [map_append, nodup_append]
    refine ⟨c.unique, nodup_singleton _, ?_⟩
    rintro i hi _ hj rfl
    rw [map_singleton, mem_singleton] at hj
    exact hid (hj ▸ hi)
  sizes := by
    have hnew : ∀ e' ∈ c.entries, e'.digest = e.digest → e'.sizeBytes = e.sizeBytes :=
      fun e' he' hd => by_contra fun hne => hsize ⟨e', he', hd, hne⟩
    intro a ha b hb hd
    rw [mem_append, mem_singleton] at ha hb
    rcases ha with ha | rfl
    · rcases hb with hb | rfl
      · exact c.sizes a ha b hb hd
      · exact hnew a ha hd
    · rcases hb with hb | rfl
      · exact (hnew b hb hd.symm).symm
      · rfl

/-- One round of the loop over the catalog. -/
def addEntry (c : Catalog) : Json → Except Stop Catalog
  | .object raw =>
    match get raw "backup_id", get raw "profile_id" with
    | .str backupId, .str profileId =>
      if backupId = "" ∨ profileId = "" then
        .error (.refused "catalog entry identity is invalid")
      else if hid : backupId ∈ c.entries.map Entry.backupId then
        .error (.refused "catalog contains a duplicate backup_id")
      else do
        let size ← int (get raw "size_bytes") "size_bytes"
        let digest ← digest (get raw "digest") "digest"
        if hsize : ∃ e ∈ c.entries, e.digest = digest ∧ e.sizeBytes ≠ size then
          .error (.refused "content-addressed digest has conflicting sizes")
        else do
          let epoch ← createdAt env (get raw "created_at")
          .ok (c.add ⟨backupId, profileId, size, digest, epoch⟩ hid hsize)
    | _, _ => .error (.refused "catalog entry identity is invalid")
  | _ => .error (.refused "catalog entry is not an object")

inductive LedgerState
  | prepared
  | quarantined
  | purgePrepared
  | purged
  | failed
  | ambiguous
  | present
  | rolledBack
  | missing
  deriving DecidableEq

/-- `KNOWN_LEDGER_STATES`. -/
def LedgerState.ofText : String → Option LedgerState
  | "prepared" => some .prepared
  | "quarantined" => some .quarantined
  | "purge_prepared" => some .purgePrepared
  | "purged" => some .purged
  | "failed" => some .failed
  | "ambiguous" => some .ambiguous
  | "present" => some .present
  | "rolled_back" => some .rolledBack
  | "missing" => some .missing
  | _ => none

/-- `BLOCKING_LEDGER_STATES`. -/
def LedgerState.blocking : LedgerState → Bool
  | .prepared | .quarantined | .purgePrepared | .purged | .failed | .ambiguous => true
  | .present | .rolledBack | .missing => false

def addState (states : List (String × LedgerState)) :
    Json → Except Stop (List (String × LedgerState))
  | .object row =>
    match get row "backup_id", get row "state" with
    | .str backupId, .str text =>
      match LedgerState.ofText text with
      | none => .error (.refused "ledger row has an unknown state")
      | some state =>
        if backupId ∉ c.entries.map Entry.backupId then
          .error (.refused "ledger row references an unknown backup")
        else
          match states.lookup backupId with
          | none => .ok (states ++ [(backupId, state)])
          | some old => if old = state then .ok states else
              .error (.refused "ledger has conflicting rows for one backup")
    | _, _ => .error (.refused "ledger row is malformed")
  | _ => .error (.refused "ledger row is not an object")

/-- One round of the loop over the manifests. -/
def addReference (referenced : List (String × ℤ)) : Json → Except Stop (List (String × ℤ))
  | .object member => do
    let digest ← digest (get member "digest") "manifest digest"
    let size ← int (get member "size_bytes") "manifest size_bytes"
    match referenced.lookup digest with
    | none => .ok (referenced ++ [(digest, size)])
    | some old => if old = size then .ok referenced else
        .error (.refused "manifest digest has conflicting sizes")
  | _ => .error (.refused "manifest member is not an object")

inductive Scope
  | remoteVault
  | localPayload
  deriving DecidableEq

/-- `SCOPES`. -/
def Scope.ofJson : Json → Option Scope
  | .str "remote-vault" => some .remoteVault
  | .str "local-payload" => some .localPayload
  | _ => none

/-- `MIN_KEEP_NEWEST`. -/
def minKeepNewest : ℤ := 2

structure Inventory where
  budget : ℤ
  reserve : ℤ
  used : ℤ
  available : ℤ
  keep : ℕ
  scope : Scope
  catalog : Catalog
  protectedIds : List String
  states : List (String × LedgerState)
  referenced : List (String × ℤ)
  deriving DecidableEq

/-- `value == 1`. -/
def isOne : Json → Bool
  | .int n => n = 1
  | .bool b => b
  | .float (some x) => x = 1
  | _ => false

def texts : List Json → Option (List String)
  | [] => some []
  | .str s :: rest => (texts rest).map (s :: ·)
  | _ :: _ => none

/-- `policy`. -/
def acceptPolicy : Json → Except Stop (ℕ × Scope)
  | .object policy => do
    if policy.lookup "keep_newest_per_profile" |>.isNone then
      .error (.refused "explicit keep_newest_per_profile policy is required")
    else
      let keep ← int (get policy "keep_newest_per_profile") "keep_newest_per_profile"
      if keep < minKeepNewest then
        .error (.refused "keep_newest_per_profile must be >= 2")
      else
        match Scope.ofJson (get policy "scope") with
        | none => .error (.refused "policy scope must be remote-vault or local-payload")
        | some scope => .ok (keep.toNat, scope)
  | _ => .error (.refused "explicit retention policy is required")

/-- `catalog`. -/
def acceptCatalog : Json → Except Stop Catalog
  | .list (raw :: rest) => (raw :: rest).foldlM (addEntry env) .empty
  | _ => .error (.refused "catalog is empty or invalid")

/-- `protected_backup_ids`. -/
def acceptProtections : Json → Except Stop (List String)
  | .list l =>
    match texts l with
    | none => .error (.refused "protected_backup_ids is invalid")
    | some ids =>
      if ¬ ids.Nodup then .error (.refused "protected_backup_ids contains a duplicate row")
      else if ids.any (· ∉ c.entries.map Entry.backupId) then
        .error (.refused "a protection row references an unknown backup")
      else .ok ids
  | _ => .error (.refused "protected_backup_ids is invalid")

/-- `ledger`. -/
def acceptLedger : Json → Except Stop (List (String × LedgerState))
  | .list rows => rows.foldlM (addState c) []
  | _ => .error (.refused "ledger is invalid")

/-- `manifests`. -/
def acceptManifests : Json → Except Stop (List (String × ℤ))
  | .list members => do
    let referenced ← members.foldlM addReference []
    if referenced.any fun r => c.entries.any fun e => e.digest = r.1 ∧ e.sizeBytes ≠ r.2 then
      .error (.refused "catalog and manifest disagree on an object size")
    else .ok referenced
  | _ => .error (.refused "manifests is invalid")

/-- The checks of `build_plan`. -/
def accept : Json → Except Stop Inventory
  | .object inventory => do
    if ¬ isOne (get inventory "schema") then
      .error (.refused "unsupported inventory schema")
    else
      let budget ← positive (get inventory "budget_bytes") "budget_bytes"
      let reserve ← positive (get inventory "reserve_bytes") "reserve_bytes"
      let used ← int (get inventory "used_bytes") "used_bytes"
      let available ← int (get inventory "available_bytes") "available_bytes"
      let (keep, scope) ← acceptPolicy (get inventory "policy")
      let catalog ← acceptCatalog env (get inventory "catalog")
      let protectedIds ← acceptProtections catalog (get inventory "protected_backup_ids")
      let states ← acceptLedger catalog (get inventory "ledger")
      let referenced ← acceptManifests catalog (get inventory "manifests")
      .ok ⟨budget, reserve, used, available, keep, scope, catalog, protectedIds, states, referenced⟩
  | _ => .error (.refused "inventory is not an object")

/-! ### The plan -/

section Plan

variable (inv : Inventory) (e : Entry) (digest : String)

/-- Newest first, with the id as tie break. -/
def Newer (a b : Entry) : Prop := b.epoch < a.epoch ∨ (b.epoch = a.epoch ∧ b.backupId ≤ a.backupId)

instance : DecidableRel Newer := fun _ _ => inferInstanceAs (Decidable (_ ∨ _))

/-- The entries of a profile, the newest one first. -/
def order (profileId : String) : List Entry :=
  (inv.catalog.entries.filter fun e => e.profileId = profileId).insertionSort Newer

/-- `within_keep`. -/
def withinKeep : Bool := e ∈ (order inv e.profileId).take inv.keep

def blocked : Bool := (inv.states.lookup e.backupId).any LedgerState.blocking

def isReferenced : Bool := (inv.referenced.lookup digest).isSome

inductive Reason
  | withinKeepNewest
  | isProtected
  | blockingLedgerState
  | remoteObjectReferencedByManifest
  | noRemoteManifestCopy
  deriving DecidableEq

/-- `reason_by_backup`. -/
def reason : Option Reason :=
  if withinKeep inv e then some .withinKeepNewest
  else if e.backupId ∈ inv.protectedIds then some .isProtected
  else if blocked inv e then some .blockingLedgerState
  else if inv.scope = .remoteVault ∧ isReferenced inv e.digest then
    some .remoteObjectReferencedByManifest
  else if inv.scope = .localPayload ∧ ¬ isReferenced inv e.digest then some .noRemoteManifestCopy
  else none

/-- `aliases[digest]`. -/
def aliases : List Entry := inv.catalog.entries.filter fun e => e.digest = digest

structure Candidate where
  digest : String
  sizeBytes : ℤ
  backupIds : List String
  deriving DecidableEq

def candidate : Candidate where
  digest := digest
  sizeBytes := ((aliases inv digest).head?.map Entry.sizeBytes).getD 0
  backupIds := ((aliases inv digest).map Entry.backupId).insertionSort (· ≤ ·)

/-- The digests of which every alias is eligible. -/
def eligible : List String :=
  ((inv.catalog.entries.map Entry.digest).dedup.filter fun d =>
    (aliases inv d).all fun e => (reason inv e).isNone).insertionSort (· ≤ ·)

/-- `excluded`: an alias of a retained digest inherits a reason. -/
def excluded (env : Env) (e : Entry) : Option Reason :=
  (reason inv e).or ((env.iterate ((aliases inv e.digest).map Entry.backupId)).findSome? fun id =>
    ((aliases inv e.digest).find? fun a => a.backupId = id).bind (reason inv))

structure Plan where
  keep : ℕ
  scope : Scope
  candidates : List Candidate
  candidateBytes : ℤ
  excluded : List (String × Reason)
  referenced : List (String × ℤ)
  overBudget : ℤ
  underReserve : ℤ

def planOf (env : Env) : Plan where
  keep := inv.keep
  scope := inv.scope
  candidates := (eligible inv).map (candidate inv)
  candidateBytes := ((eligible inv).map fun d => (candidate inv d).sizeBytes).sum
  excluded := inv.catalog.entries.filterMap fun e =>
    (excluded inv env e).map fun r => (e.backupId, r)
  referenced := inv.referenced
  overBudget := max 0 (inv.used - inv.budget)
  underReserve := max 0 (inv.reserve - inv.available)

end Plan

/-- `build_plan`. -/
def buildPlan (json : Json) : Except Stop Plan := (accept env json).map fun inv => planOf inv env

/-! ### The floor -/

section Floor

variable (inv : Inventory) (profileId : String) (plan : Plan)

/-- The different digests of the entries of a profile that the ledger does not block. -/
def usable : Finset String :=
  ((inv.catalog.entries.filter fun e => e.profileId = profileId ∧ ¬ blocked inv e).map
    Entry.digest).toFinset

/-- The objects that are listed under `candidates`. -/
def Plan.removed : Finset String := (plan.candidates.map Candidate.digest).toFinset

/-- When the candidates are removed, as many different objects remain for a profile as are to be
kept, or all. -/
def Floor (profileId : String) : Prop :=
  min inv.keep (usable inv profileId).card ≤ (usable inv profileId \ plan.removed).card

/-- The different digests of those of the newest entries that the ledger does not block. -/
def newestUsable : Finset String :=
  ((((order inv profileId).take inv.keep).filter fun e => ¬ blocked inv e).map
    Entry.digest).toFinset

variable {inv} {profileId}

/-- **An object is removed** when no entry with its digest has a reason to stay. -/
theorem mem_removed {env : Env} {d : String} : d ∈ (planOf inv env).removed ↔
    (∃ e ∈ inv.catalog.entries, e.digest = d) ∧
      ∀ e ∈ inv.catalog.entries, e.digest = d → reason inv e = none := by
  have hmap : (planOf inv env).candidates.map Candidate.digest = eligible inv := by
    rw [planOf, map_map]
    exact map_id _
  rw [Plan.removed, hmap, mem_toFinset, eligible, mem_insertionSort, mem_filter,
    mem_dedup, mem_map, all_eq_true]
  simp [aliases]

theorem reason_isSome {e : Entry} (h : withinKeep inv e = true) : reason inv e ≠ none := by
  rw [reason, if_pos h]
  exact Option.some_ne_none _

theorem mem_order {e : Entry} :
    e ∈ order inv profileId ↔ e ∈ inv.catalog.entries ∧ e.profileId = profileId := by
  rw [order, mem_insertionSort, mem_filter, decide_eq_true_eq]

/-- What is usable among the newest entries remains. -/
theorem newestUsable_subset :
    newestUsable inv profileId ⊆ usable inv profileId \ (planOf inv env).removed := by
  intro d hd
  obtain ⟨e, he, rfl⟩ := mem_map.1 (mem_toFinset.1 hd)
  obtain ⟨hnewest, husable⟩ := mem_filter.1 he
  obtain ⟨hentry, hprofile⟩ := mem_order.1 (mem_of_mem_take hnewest)
  refine Finset.mem_sdiff.2 ⟨?_, fun hremoved => ?_⟩
  · refine mem_toFinset.2 (mem_map_of_mem (mem_filter.2 ⟨hentry, ?_⟩))
    simpa [hprofile] using husable
  · refine reason_isSome ?_ ((mem_removed.1 hremoved).2 e hentry rfl)
    rw [withinKeep, hprofile]
    exact decide_eq_true hnewest

theorem card_usable_le : (usable inv profileId).card ≤ (order inv profileId).length := by
  calc (usable inv profileId).card
      ≤ ((inv.catalog.entries.filter fun e => e.profileId = profileId ∧
          ¬ blocked inv e).map Entry.digest).length := toFinset_card_le _
    _ ≤ (inv.catalog.entries.filter fun e => e.profileId = profileId).length := by
        rw [length_map]
        refine List.Sublist.length_le (monotone_filter_right _ fun e he => ?_)
        simp only [decide_eq_true_eq] at he ⊢
        exact he.1
    _ = (order inv profileId).length := (length_insertionSort _ _).symm

/-- The floor holds for a profile whose newest entries are usable and have different digests. -/
theorem floor_of_newest {profileId : String}
    (husable : ∀ e ∈ (order inv profileId).take inv.keep, blocked inv e = false)
    (hdigests : (((order inv profileId).take inv.keep).map Entry.digest).Nodup) :
    Floor inv (planOf inv env) profileId := by
  have hall : ((order inv profileId).take inv.keep).filter (fun e => ¬ blocked inv e) =
      (order inv profileId).take inv.keep :=
    filter_eq_self.2 fun e he => by simp [husable e he]
  calc min inv.keep (usable inv profileId).card
      ≤ min inv.keep (order inv profileId).length := min_le_min_left _ card_usable_le
    _ = (newestUsable inv profileId).card := by
        rw [newestUsable, hall, toFinset_card_of_nodup hdigests, length_map, length_take]
    _ ≤ _ := Finset.card_le_card (newestUsable_subset env)

end Floor

/-- **The floor holds** for an accepted document if, for every profile, as many different usable
digests as are to be kept, or all, are among its newest entries. -/
theorem floor_of_newest_usable (env : Env) (json : Json) (inv : Inventory)
    (h : accept env json = .ok inv)
    (hnewest : ∀ profileId,
      min inv.keep (usable inv profileId).card ≤ (newestUsable inv profileId).card) :
    ∃ plan, buildPlan env json = .ok plan ∧ ∀ profileId, Floor inv plan profileId :=
  ⟨planOf inv env, by rw [buildPlan, h]; rfl, fun profileId =>
    (hnewest profileId).trans (Finset.card_le_card (newestUsable_subset env))⟩

/-! ### Three backups of one profile -/

def sampleEnv : Env where
  fromisoformat := fun text =>
    if text = "2026-01-01T00:00:00+00:00" then .at 1
    else if text = "2026-01-02T00:00:00+00:00" then .at 2
    else if text = "2026-01-03T00:00:00+00:00" then .at 3
    else .invalid
  iterate := id

def sampleDigest (c : Char) : String := String.ofList (replicate 64 c)

def sampleEntry (backupId day : String) (c : Char) : Json :=
  .object [("backup_id", .str backupId), ("profile_id", .str "terraria-vanilla"),
    ("size_bytes", .int 1), ("digest", .str (sampleDigest c)),
    ("created_at", .str ("2026-01-" ++ day ++ "T00:00:00Z"))]

/-- The newest backups are `b3` and `b2`, of which the ledger has the given states. -/
def sampleDocument (state : String) : Json :=
  .object [("schema", .int 1), ("budget_bytes", .int 10), ("reserve_bytes", .int 1),
    ("used_bytes", .int 3), ("available_bytes", .int 7),
    ("policy", .object [("keep_newest_per_profile", .int 2), ("scope", .str "remote-vault")]),
    ("catalog", .list [sampleEntry "b1" "01" 'a', sampleEntry "b2" "02" 'b',
      sampleEntry "b3" "03" 'c']),
    ("protected_backup_ids", .list []),
    ("ledger", .list [.object [("backup_id", .str "b2"), ("state", .str state)],
      .object [("backup_id", .str "b3"), ("state", .str state)]]),
    ("manifests", .list [])]

def sampleInventory (state : LedgerState) : Inventory where
  budget := 10
  reserve := 1
  used := 3
  available := 7
  keep := 2
  scope := .remoteVault
  catalog :=
    { entries := [⟨"b1", "terraria-vanilla", 1, sampleDigest 'a', 1⟩,
        ⟨"b2", "terraria-vanilla", 1, sampleDigest 'b', 2⟩,
        ⟨"b3", "terraria-vanilla", 1, sampleDigest 'c', 3⟩]
      unique := by decide
      sizes := by decide }
  protectedIds := []
  states := [("b2", state), ("b3", state)]
  referenced := []

/-- The two newest backups are there, and remain. -/
theorem floor_present : ∃ plan, accept sampleEnv (sampleDocument "present") =
      .ok (sampleInventory .present) ∧
    buildPlan sampleEnv (sampleDocument "present") = .ok plan ∧
    ∀ profileId, Floor (sampleInventory .present) plan profileId := by
  have haccept : accept sampleEnv (sampleDocument "present") =
    .ok (sampleInventory .present) := by decide +kernel
  obtain ⟨plan, hplan, hfloor⟩ := floor_of_newest_usable sampleEnv _ _ haccept fun profileId => by
    by_cases hprofile : profileId = "terraria-vanilla"
    · subst hprofile
      decide +kernel
    · have hempty : usable (sampleInventory .present) profileId = ∅ := by
        simp [usable, sampleInventory, Ne.symm hprofile]
      simp [hempty]
  exact ⟨plan, haccept, hplan, hfloor⟩

/-- The two newest backups have been purged, and the only one that is left is a candidate. -/
theorem purged_backups_fill_keep : ∃ plan, accept sampleEnv (sampleDocument "purged") =
      .ok (sampleInventory .purged) ∧
    buildPlan sampleEnv (sampleDocument "purged") = .ok plan ∧
    (usable (sampleInventory .purged) "terraria-vanilla").card = 1 ∧
    (usable (sampleInventory .purged) "terraria-vanilla" \ plan.removed).card = 0 ∧
    ¬ Floor (sampleInventory .purged) plan "terraria-vanilla" := by
  have haccept : accept sampleEnv (sampleDocument "purged") =
    .ok (sampleInventory .purged) := by decide +kernel
  refine ⟨planOf (sampleInventory .purged) sampleEnv, haccept, by rw [buildPlan, haccept]; rfl,
    by decide +kernel, by decide +kernel, ?_⟩
  unfold Floor
  decide +kernel

theorem floor_of_newest_sample : Floor (sampleInventory .present)
    (planOf (sampleInventory .present) sampleEnv) "terraria-vanilla" :=
  floor_of_newest _ (by decide +kernel) (by decide +kernel)

end Horizon.Retention
