/-
**What an archive holds.**

The files of an archive are the regular files of the roots that are not excluded, each under a path
of its own.  A reader that accepts the archive writes every one of them into the staging directory
of its root, and where it writes it is the path in the root, with one exception: for a single root
the native reader takes a leading `0/` away.

Main results:

* `Backup.mem_walkChildren`, `Backup.mem_snapshot` — the snapshot has these files and no others;
* `Backup.unpack_files` — the files in the staging directories.
-/

import Horizon.BackupArchive
import Mathlib.Algebra.BigOperators.Group.List.Basic
import Mathlib.Algebra.Order.BigOperators.Group.List

namespace Horizon.Backup

open List
open FileTree (Path Node get_dir_cons named_of_get)
open PosixPath
open Restore (Bytes Tree Failure)
open Function

/-! ### The walk -/

section Walk

variable {children : List (String × Node Leaf)} {name : String} {n : Node Leaf}

theorem get_first (rest : Path) :
    (Node.dir ((name, n) :: children)).get (name :: rest) = n.get rest := by
  rw [get_dir_cons, lookup_cons_self]
  rfl

theorem get_later {other : String} (h : other ≠ name) (rest : Path) :
    (Node.dir ((name, n) :: children)).get (other :: rest) =
      (Node.dir children).get (other :: rest) := by
  rw [get_dir_cons, get_dir_cons, FileTree.lookup_cons_ne h]

theorem get_absent (h : ∀ c ∈ children, c.1 ≠ name) (rest : Path) :
    (Node.dir children).get (name :: rest) = none := by
  have hlookup : children.lookup name = none := by
    rw [lookup_eq_none_iff]
    intro c hc
    exact bne_iff_ne.2 (Ne.symm (h c hc))
  rw [get_dir_cons, hlookup]
  rfl

end Walk

mutual

theorem mem_walkEntry (name : String) (q : Path) (f : File) :
    ∀ n : Node Leaf, n.Named IsName → ((q, f) ∈ walkEntry name n ↔
      ∃ rest, q = name :: rest ∧ (∀ m ∈ rest, isPartial m = false) ∧
        n.get rest = some (.file (.regular f)))
  | .file (.regular g), _ => by
    simp only [walkEntry, mem_singleton, Prod.mk.injEq]
    constructor
    · rintro ⟨rfl, rfl⟩
      exact ⟨[], rfl, by simp, by simp⟩
    · rintro ⟨rest, rfl, -, hget⟩
      cases rest with
      | nil => simpa [eq_comm] using hget
      | cons m rest => simp at hget
  | .file .symlink, _ | .file .special, _ => by
    simp only [walkEntry, not_mem_nil, false_iff, not_exists]
    rintro rest ⟨-, -, hget⟩
    cases rest <;> simp at hget
  | .dir children, h => by
    rw [Node.Named] at h
    simp only [walkEntry, mem_map, Prod.exists, Prod.mk.injEq]
    constructor
    · rintro ⟨rest, g, hmem, rfl, rfl⟩
      obtain ⟨-, hparts, hget⟩ := (mem_walkChildren [] rest g children h).1 hmem
      exact ⟨rest, rfl, hparts, hget⟩
    · rintro ⟨rest, rfl, hparts, hget⟩
      refine ⟨rest, f, (mem_walkChildren [] rest f children h).2 ⟨?_, hparts, hget⟩, rfl, rfl⟩
      cases rest with
      | nil => simp at hget
      | cons m rest => exact ⟨m, rest, rfl, by simp⟩

/-- **What `_walk` yields.** -/
theorem mem_walkChildren (excluded : List String) (q : Path) (f : File) :
    ∀ children : List (String × Node Leaf), Node.NamedChildren IsName children →
      ((q, f) ∈ walkChildren excluded children ↔
        (∃ name rest, q = name :: rest ∧ name ∉ excluded) ∧ (∀ m ∈ q, isPartial m = false) ∧
          (Node.dir children).get q = some (.file (.regular f)))
  | [], _ => by
    cases q <;> simp [walkChildren, get_dir_cons]
  | (name, n) :: children, h => by
    rw [Node.NamedChildren] at h
    obtain ⟨-, hfresh, hn, hchildren⟩ := h
    have hlater := mem_walkChildren excluded q f children hchildren
    cases q with
    | nil =>
      rw [walkChildren]
      split
      · simp [hlater]
      · simp [hlater, mem_walkEntry name [] f n hn]
    | cons other rest =>
      by_cases hname : other = name
      · subst hname
        rw [get_absent hfresh] at hlater
        rw [get_first, walkChildren]
        split_ifs with hskip
        · simp only [hlater, reduceCtorEq, and_false, false_iff]
          rintro ⟨⟨m, r, heq, hin⟩, hparts, -⟩
          cases heq
          rcases hskip with hex | hpart
          · exact hin hex
          · rw [hparts other mem_cons_self] at hpart
            cases hpart
        · rw [not_or] at hskip
          rw [mem_append, hlater, mem_walkEntry other _ f n hn]
          simp [hskip.1, hskip.2]
      · rw [get_later hname, walkChildren]
        split
        · exact hlater
        · rw [mem_append, hlater, mem_walkEntry name _ f n hn]
          simp [hname]

end

mutual

theorem nodup_walkEntry (name : String) :
    ∀ n : Node Leaf, n.Named IsName → ((walkEntry name n).map (·.1)).Nodup
  | .file (.regular _), _ | .file .symlink, _ | .file .special, _ => by simp [walkEntry]
  | .dir children, h => by
    rw [Node.Named] at h
    have hin := nodup_walkChildren [] children h
    have hmap : (walkEntry name (.dir children)).map (·.1) =
        ((walkChildren [] children).map (·.1)).map (name :: ·) := by
      simp [walkEntry, Function.comp_def]
    rw [hmap]
    exact hin.map fun _ _ heq => tail_eq_of_cons_eq heq

theorem nodup_walkChildren (excluded : List String) :
    ∀ children : List (String × Node Leaf), Node.NamedChildren IsName children →
      ((walkChildren excluded children).map (·.1)).Nodup
  | [], _ => by simp [walkChildren]
  | (name, n) :: children, h => by
    rw [Node.NamedChildren] at h
    obtain ⟨-, hfresh, hn, hchildren⟩ := h
    rw [walkChildren]
    split
    · exact nodup_walkChildren excluded children hchildren
    · rw [map_append]
      refine nodup_append.2 ⟨nodup_walkEntry name n hn,
        nodup_walkChildren excluded children hchildren, ?_⟩
      -- the first entry and the later ones start with different names
      rintro q hq r hr rfl
      obtain ⟨e, he, rfl⟩ := mem_map.1 hq
      obtain ⟨g, hg, heq⟩ := mem_map.1 hr
      obtain ⟨rest, hrest, -⟩ := (mem_walkEntry name e.1 e.2 n hn).1 he
      obtain ⟨-, -, hget⟩ := (mem_walkChildren excluded g.1 g.2 children hchildren).1 hg
      rw [heq, hrest, get_absent hfresh] at hget
      cases hget

end

/-! ### The snapshot -/

/-- The paths that `create` does not exclude. -/
def Profile.Keeps (p : Profile) (root q : Path) : Prop :=
  (∀ name ∈ q, isPartial name = false) ∧
    (p.isSunlit root = true → q.head? ≠ some "backups" ∧ isVersionedBackup q = false)

/-- A regular file of a root that is not excluded. -/
def BackedUp (p : Profile) (sources : Path → Option SourceTree) (root q : Path) (f : File) : Prop :=
  ∃ t, sources root = some t ∧ t.node.get q = some (.file (.regular f)) ∧ p.Keeps root q

variable {s : Staged} {rest : Path}

section Snapshot

variable {p : Profile} {sources : Path → Option SourceTree} {root q : Path} {f : File}

theorem BackedUp.names (h : BackedUp p sources root q f) : ∀ name ∈ q, IsName name := by
  obtain ⟨t, -, hget, -⟩ := h
  exact named_of_get t.named hget

theorem SourceTree.namedChildren (t : SourceTree) : Node.NamedChildren IsName t.children := by
  have h := t.named
  rwa [Node.Named] at h

theorem exists_cons_iff (excluded : List String) :
    (∃ name rest, q = name :: rest ∧ name ∉ excluded) ↔
      q ≠ [] ∧ ∀ name, q.head? = some name → name ∉ excluded := by
  cases q <;> simp

theorem mem_walkSource {t : SourceTree} :
    (q, f) ∈ walkSource p root t ↔ t.node.get q = some (.file (.regular f)) ∧ p.Keeps root q := by
  have hne : t.node.get q = some (.file (.regular f)) → q ≠ [] := by
    rintro hget rfl
    simp [SourceTree.node] at hget
  unfold walkSource Profile.Keeps
  split_ifs with hsunlit
  · rw [mem_filter, mem_walkChildren _ _ _ _ t.namedChildren, exists_cons_iff]
    simp only [redundantBackupDirs, mem_singleton, hsunlit, true_implies, Bool.not_eq_true']
    constructor
    · rintro ⟨⟨⟨-, hhead⟩, hparts, hget⟩, hversioned⟩
      exact ⟨hget, hparts, fun hb => hhead _ hb rfl, hversioned⟩
    · rintro ⟨hget, hparts, hhead, hversioned⟩
      refine ⟨⟨⟨hne hget, ?_⟩, hparts, hget⟩, hversioned⟩
      rintro name hname rfl
      exact hhead hname
  · rw [mem_walkChildren _ _ _ _ t.namedChildren, exists_cons_iff]
    simp only [not_mem_nil, not_false_eq_true, implies_true, and_true, hsunlit,
      Bool.false_eq_true, false_implies]
    exact ⟨fun h => ⟨h.2.2, h.2.1⟩, fun h => ⟨hne h.1, h.2, h.1⟩⟩

theorem mem_stageRoot : s ∈ stageRoot p sources root ↔
    ∃ q f, BackedUp p sources root q f ∧ s = stage p root (q, f) := by
  unfold stageRoot BackedUp
  cases sources root with
  | none => simp
  | some t =>
    simp only [mem_map, mem_filter, Prod.exists]
    constructor
    · rintro ⟨q, f, ⟨hmem, -⟩, rfl⟩
      exact ⟨q, f, ⟨t, rfl, mem_walkSource.1 hmem⟩, rfl⟩
    · rintro ⟨q, f, ⟨t', ht, hin⟩, rfl⟩
      cases ht
      refine ⟨q, f, ⟨mem_walkSource.2 hin, ?_⟩, rfl⟩
      -- the second look at the suffix finds nothing new
      simpa using hin.2.1

/-- **The snapshot has the files that are backed up and no others.** -/
theorem mem_snapshot : s ∈ snapshot p sources ↔
    ∃ root ∈ p.service.approved, ∃ q f, BackedUp p sources root q f ∧
      s = stage p root (q, f) := by
  unfold snapshot
  rw [mem_insertionSort, mem_flatMap]
  simp only [mem_stageRoot]

theorem nodup_stageRoot : ((stageRoot p sources root).map (·.entry.path)).Nodup := by
  unfold stageRoot
  cases sources root with
  | none => simp
  | some t =>
    have hwalk : ((walkSource p root t).map (·.1)).Nodup := by
      unfold walkSource
      split
      · refine List.Nodup.sublist (List.Sublist.map _ filter_sublist) ?_
        exact nodup_walkChildren _ _ t.namedChildren
      · exact nodup_walkChildren _ _ t.namedChildren
    have hfilter : (((walkSource p root t).filter fun e => !e.1.any isPartial).map (·.1)).Nodup :=
      hwalk.sublist (List.Sublist.map _ filter_sublist)
    rw [map_map]
    rw [nodup_map_iff_inj_on (hfilter.of_map _)]
    rintro ⟨q, f⟩ hq ⟨r, g⟩ hr heq
    have hq' := mem_walkSource.1 (mem_filter.1 hq).1
    have hr' := mem_walkSource.1 (mem_filter.1 hr).1
    have hpath : q = r := render_inj (named_of_get t.named hq'.1)
      (named_of_get t.named hr'.1) heq
    subst hpath
    cases hq'.1.symm.trans hr'.1
    rfl

/-! ### Checks that have been passed -/

variable {α : Type} {x : Except Failure Unit}

theorem require_ok {c : Prop} [Decidable c] {code message : String} :
    require c code message = .ok () ↔ c := by
  unfold require
  split <;> simp_all

theorem bind_ok {y : Except Failure α} {r : α} :
    (x >>= fun _ => y) = .ok r ↔ x = .ok () ∧ y = .ok r := by
  cases x <;> simp [bind, Except.bind]

theorem map_ok {a b : α} (h : x.map (fun _ => a) = .ok b) : x = .ok () ∧ b = a := by
  cases x with
  | error e => cases h
  | ok u => exact ⟨rfl, (Except.ok.inj h).symm⟩

theorem forM_ok {list : List α} {f : α → Except Failure PUnit} :
    list.forM f = .ok () ↔ ∀ a ∈ list, f a = .ok () := by
  induction list with
  | nil => simp [List.forM, pure, Except.pure]
  | cons a rest ih =>
    show (f a >>= fun _ => rest.forM f) = .ok () ↔ _
    rw [bind_ok, ih]
    simp

theorem readStream_valid {code : String} {check : Member → Except Failure Unit}
    {members : List Member} {seen : List String} (h : readStream code check members seen = .ok ()) :
    ∀ m ∈ members, validateMember m = .ok () := by
  induction members generalizing seen with
  | nil => simp
  | cons m rest ih =>
    simp only [readStream, bind_ok] at h
    intro other hother
    rcases mem_cons.1 hother with rfl | hin
    · exact h.2.2.1
    · exact ih h.2.2.2.2 other hin

end Snapshot

/-! ### Archives that were created -/

abbrev manifestOf (p : Profile) (stamp token : String) (sources : Path → Option SourceTree) :
    Manifest :=
  manifest p (newBackupId stamp token) (snapshot p sources)

section Created

variable {p : Profile} {sources : Path → Option SourceTree} {stamp token : String}
  {members : List Member} {files : List Staged} {m m' : Manifest}

theorem create_ok {maker : Reader} (h : create p maker stamp token sources = .ok members) :
    members = pack p (manifestOf p stamp token sources) (snapshot p sources) ∧
      ∀ m ∈ members, validateMember m = .ok () := by
  cases maker with
  | native =>
    obtain ⟨hv, rfl⟩ := map_ok h
    simp only [verifyNative, bind_ok] at hv
    exact ⟨rfl, forM_ok.1 hv.1⟩
  | external =>
    obtain ⟨hv, rfl⟩ := map_ok h
    simp only [verifyExternal, bind_ok] at hv
    exact ⟨rfl, readStream_valid hv.2.1⟩

theorem readManifest_pack (m : Manifest) (files : List Staged) (hm : m.profileId = p.id) :
    readManifest p (pack p m files) = .ok m := by
  simp [readManifest, pack, hm]

theorem bind_readManifest (hm : m.profileId = p.id) {k : Manifest → Except Failure Manifest}
    (h : (readManifest p (pack p m files) >>= k) = .ok m') : k m = .ok m' := by
  rw [readManifest_pack m files hm] at h
  exact h

theorem validate_ok {reader : Reader} (hm : m.profileId = p.id)
    (h : validate p (pack p m files) reader = .ok m') :
    m' = m ∧ (m.entries.map (·.archivePath)).Nodup ∧
      ∀ e ∈ m.entries, e.archivePath ≠ manifestName := by
  have hwhole : ∀ {r : Manifest}, validateWhole (pack p m files) m = .ok () ∧
      (pure m : Except Failure Manifest) = .ok r → r = m ∧
        (m.entries.map (·.archivePath)).Nodup ∧ ∀ e ∈ m.entries, e.archivePath ≠ manifestName := by
    rintro r ⟨hwhole, hpure⟩
    cases hpure
    simp only [validateWhole, bind_ok, require_ok] at hwhole
    exact ⟨rfl, hwhole.1.1, hwhole.1.2.1⟩
  cases reader with
  | native | external =>
    simp only [validate, bind_ok] at h
    have hread := bind_readManifest hm h.2.2
    simp only [bind_ok] at hread
    exact hwhole hread.2

end Created

/-! ### Looking up by name -/

theorem find_of_nodup {α β : Type} [DecidableEq β] {g : α → β} {list : List α} {a : α}
    (h : (list.map g).Nodup) (ha : a ∈ list) : list.find? (fun b => g b = g a) = some a := by
  cases hb : list.find? (fun b => g b = g a) with
  | none => simpa using find?_eq_none.1 hb a ha
  | some b =>
    have hgb : g b = g a := by simpa using find?_some hb
    rw [inj_on_of_nodup_map h (mem_of_find?_eq_some hb) ha hgb]

theorem find_reverse_of_nodup {α β : Type} [DecidableEq β] {g : α → β} {list : List α} {a : α}
    (h : (list.map g).Nodup) (ha : a ∈ list) :
    list.reverse.find? (fun b => g b = g a) = some a := by
  refine find_of_nodup ?_ (mem_reverse.2 ha)
  rw [map_reverse]
  exact nodup_reverse.2 h

section Lookup

variable {p : Profile} {m : Manifest} {files : List Staged} {f : Staged}

theorem entryNamed_of_mem (hentries : m.entries = files.map (·.entry))
    (hnodup : (m.entries.map (·.archivePath)).Nodup) (hf : f ∈ files) :
    entryNamed m.entries f.entry.archivePath = some f.entry :=
  find_reverse_of_nodup hnodup (hentries ▸ mem_map_of_mem hf)

theorem nodup_names_pack (hentries : m.entries = files.map (·.entry))
    (hnodup : (m.entries.map (·.archivePath)).Nodup)
    (hmanifest : ∀ e ∈ m.entries, e.archivePath ≠ manifestName) :
    ((pack p m files).map (·.name)).Nodup := by
  have hnames : (files.map Staged.member).map (·.name) = m.entries.map (·.archivePath) := by
    rw [hentries, map_map, map_map]
    rfl
  unfold pack
  rw [map_cons, hnames, nodup_cons]
  refine ⟨fun hmem => ?_, hnodup⟩
  obtain ⟨e, he, heq⟩ := mem_map.1 hmem
  exact hmanifest e he heq

theorem mem_pack (hf : f ∈ files) : f.member ∈ pack p m files :=
  .tail _ (mem_map_of_mem hf)

/-! ### Extraction -/

variable {exclusive : Bool} {missing : Failure} {stagings stagings' : String → Tree}

/-- The files are written one after the other, each at its spot. -/
def placeAll (exclusive : Bool) (missing : Failure) (key relative : Entry → String)
    (files : List Staged) (stagings : String → Tree) : Except Failure (String → Tree) :=
  files.foldlM (fun stagings f =>
    place exclusive missing (some f.bytes) (key f.entry) (relative f.entry) stagings) stagings

theorem place_ok {bytes : Bytes} {id relative : String}
    (h : place exclusive missing (some bytes) id relative stagings = .ok stagings') :
    ∃ t, (stagings id).addFile exclusive bytes (parts relative) = some t ∧
      stagings' = update stagings id t := by
  unfold place at h
  split at h
  · cases h
  · dsimp only at h
    split at h <;> cases h
    rename_i t ht
    exact ⟨t, ht, rfl⟩

theorem foldlM_cons_ok {α β : Type} {f : β → α → Except Failure β} {a : α} {rest : List α}
    {b c : β} (h : (a :: rest).foldlM f b = .ok c) :
    ∃ d, f b a = .ok d ∧ rest.foldlM f d = .ok c := by
  rw [foldlM_cons] at h
  cases hd : f b a with
  | error e =>
    rw [hd] at h
    cases h
  | ok d =>
    rw [hd] at h
    exact ⟨d, rfl, h⟩

variable {key relative : Entry → String} {files : List Staged}

def spotOf (key relative : Entry → String) (f : Staged) : String × Path :=
  (key f.entry, parts (relative f.entry))

theorem get_place
    (h : place exclusive missing (some f.bytes) (key f.entry) (relative f.entry) stagings =
      .ok stagings')
    (id : String) (q : Path) (b : Bytes) :
    (stagings' id).get q = some (.file b) ↔
      ((id, q) = spotOf key relative f ∧ b = f.bytes) ∨
        ((id, q) ≠ spotOf key relative f ∧ (stagings id).get q = some (.file b)) := by
  obtain ⟨t, ht, rfl⟩ := place_ok h
  by_cases hid : id = key f.entry
  · subst hid
    rw [update_self, FileTree.get_addFile ht q b]
    simp [spotOf]
  · rw [update_of_ne hid]
    simp [spotOf, hid]

theorem isDir_placeAll (hd : ∀ id, (stagings id).isDir = true)
    (h : placeAll exclusive missing key relative files stagings = .ok stagings') (id : String) :
    (stagings' id).isDir = true := by
  induction files generalizing stagings with
  | nil =>
    cases h
    exact hd id
  | cons f rest ih =>
    obtain ⟨next, hf, hrest⟩ := foldlM_cons_ok h
    refine ih (fun other => ?_) hrest
    obtain ⟨t, ht, rfl⟩ := place_ok hf
    by_cases hid : other = key f.entry
    · subst hid
      rw [update_self]
      exact FileTree.isDir_addFile ht
    · rw [update_of_ne hid]
      exact hd other

theorem spots_of_exclusive (h : placeAll true missing key relative files stagings = .ok stagings') :
    (files.map (spotOf key relative)).Nodup ∧
      ∀ f ∈ files, ∀ b, (stagings (key f.entry)).get (parts (relative f.entry)) ≠
        some (.file b) := by
  induction files generalizing stagings with
  | nil => simp
  | cons f rest ih =>
    obtain ⟨next, hf, hrest⟩ := foldlM_cons_ok h
    obtain ⟨hnodup, hnew⟩ := ih hrest
    have hget := get_place hf
    rw [map_cons, nodup_cons]
    refine ⟨⟨fun hmem => ?_, hnodup⟩, fun g hg b hb => ?_⟩
    · obtain ⟨g, hg, heq⟩ := mem_map.1 hmem
      exact hnew g hg f.bytes ((hget _ _ _).2 (.inl ⟨heq, rfl⟩))
    · rcases mem_cons.1 hg with rfl | hin
      · obtain ⟨t, ht, -⟩ := place_ok hf
        exact FileTree.addFile_new ht b hb
      · by_cases hspot : spotOf key relative g = spotOf key relative f
        · exact hnew g hin f.bytes ((hget _ _ _).2 (.inl ⟨hspot, rfl⟩))
        · exact hnew g hin b ((hget _ _ _).2 (.inr ⟨hspot, hb⟩))

/-- **The files after all have been written.** -/
theorem get_placeAll (hnodup : (files.map (spotOf key relative)).Nodup)
    (h : placeAll exclusive missing key relative files stagings = .ok stagings') (id : String)
    (q : Path) (b : Bytes) :
    (stagings' id).get q = some (.file b) ↔
      (∃ f ∈ files, spotOf key relative f = (id, q) ∧ f.bytes = b) ∨
        ((id, q) ∉ files.map (spotOf key relative) ∧ (stagings id).get q = some (.file b)) := by
  induction files generalizing stagings with
  | nil =>
    cases h
    simp
  | cons f rest ih =>
    obtain ⟨next, hf, hrest⟩ := foldlM_cons_ok h
    rw [map_cons, nodup_cons] at hnodup
    rw [ih hnodup.2 hrest, get_place hf id q b]
    by_cases hspot : (id, q) = spotOf key relative f
    · -- no later file is written at this spot
      have hlater : ∀ g ∈ rest, spotOf key relative g ≠ (id, q) := by
        intro g hg heq
        exact hnodup.1 (mem_map.2 ⟨g, hg, heq.trans hspot⟩)
      have hnot : (id, q) ∉ rest.map (spotOf key relative) := hspot ▸ hnodup.1
      constructor
      · rintro (⟨g, hg, heq, -⟩ | ⟨-, ⟨-, rfl⟩ | ⟨hne, -⟩⟩)
        · exact absurd heq (hlater g hg)
        · exact .inl ⟨f, .head _, hspot.symm, rfl⟩
        · exact absurd hspot hne
      · rintro (⟨g, hg, heq, rfl⟩ | ⟨hn, -⟩)
        · rcases mem_cons.1 hg with rfl | hin
          · exact .inr ⟨hnot, .inl ⟨hspot, rfl⟩⟩
          · exact absurd heq (hlater g hin)
        · exact absurd (mem_cons.2 (.inl hspot)) hn
    · constructor
      · rintro (⟨g, hg, heq, rfl⟩ | ⟨hn, ⟨heq, -⟩ | ⟨-, hold⟩⟩)
        · exact .inl ⟨g, .tail _ hg, heq, rfl⟩
        · exact absurd heq hspot
        · refine .inr ⟨?_, hold⟩
          rw [map_cons, mem_cons, not_or]
          exact ⟨hspot, hn⟩
      · rintro (⟨g, hg, heq, rfl⟩ | ⟨hn, hold⟩)
        · rcases mem_cons.1 hg with rfl | hin
          · exact absurd heq.symm hspot
          · exact .inl ⟨g, hin, heq, rfl⟩
        · rw [map_cons, mem_cons, not_or] at hn
          exact .inr ⟨hn.2, .inr ⟨hspot, hold⟩⟩

end Lookup

theorem foldlM_congr {α β : Type} {f g : β → α → Except Failure β} {list : List α} {b : β}
    (h : ∀ a ∈ list, ∀ b, f b a = g b a) : list.foldlM f b = list.foldlM g b := by
  induction list generalizing b with
  | nil => rfl
  | cons a rest ih =>
    rw [foldlM_cons, foldlM_cons, h a mem_cons_self b]
    refine congrArg _ (funext fun c => ?_)
    exact ih fun a' ha' => h a' (.tail _ ha')

def targetPath (m : Manifest) : Reader → Entry → String
  | .native => relativePath m
  | .external => fun e => e.path

def insists (m : Manifest) : Reader → Bool
  | .native => true
  | .external => m.roots.isSome

/-- **Both readers write the staged files, one after the other.** -/
theorem unpack_pack {p : Profile} {m : Manifest} {files : List Staged}
    (hentries : m.entries = files.map (·.entry)) (hnodup : (m.entries.map (·.archivePath)).Nodup)
    (hmanifest : ∀ e ∈ m.entries, e.archivePath ≠ manifestName) (reader : Reader) :
    ∃ missing, unpack m (pack p m files) reader =
      placeAll (insists m reader) missing (stagingKey m) (targetPath m reader) files
        fun _ => .empty := by
  cases reader with
  | native =>
    refine ⟨.safe "restore_failed" "backup member could not be read", ?_⟩
    have hskip : ∀ st, unpackMember m st ⟨manifestName, .file, p.uid, p.gid, .manifest m⟩ =
        .ok st := fun st => if_pos rfl
    unfold unpack pack placeAll
    rw [foldlM_cons, hskip]
    show (files.map Staged.member).foldlM (unpackMember m) _ = _
    rw [foldlM_map]
    refine foldlM_congr fun f hf st => ?_
    have hne : f.member.name ≠ manifestName := hmanifest f.entry (hentries ▸ mem_map_of_mem hf)
    have hentry : entryNamed m.entries f.member.name = some f.entry :=
      entryNamed_of_mem hentries hnodup hf
    unfold unpackMember
    rw [if_neg hne, hentry]
    rfl
  | external =>
    refine ⟨.safe "invalid_backup" "backup member could not be read", ?_⟩
    unfold unpack placeAll
    rw [hentries, foldlM_map]
    refine foldlM_congr fun f hf st => ?_
    have hfind : (pack p m files).find? (·.name = f.entry.archivePath) = some f.member :=
      find_of_nodup (nodup_names_pack hentries hnodup hmanifest) (mem_pack hf)
    unfold unpackEntry
    rw [hfind]
    rfl

/-! ### Where the files land -/

/-- A path without a leading `0/`. -/
def unstripped (q : Path) : Path := if q.head? = some "0" ∧ q.tail ≠ [] then q.tail else q

def landing (p : Profile) (reader : Reader) (q : Path) : Path :=
  if reader = .native ∧ p.single = true then unstripped q else q

/-- The key of the staging directory of a root. -/
def Profile.stagingKey (p : Profile) (root : Path) : String :=
  if p.single then "root-0" else p.service.rootId root

theorem unstripped_zero (h : rest ≠ []) : unstripped ("0" :: rest) = rest := if_pos ⟨rfl, h⟩

theorem length_unstripped_le (q : Path) : (unstripped q).length ≤ q.length := by
  unfold unstripped
  split
  · simp
  · exact le_rfl

/-- If the one name determines the other, the one list is as free of repetitions as the other. -/
theorem nodup_map_of_determines {α β γ : Type} {list : List α} {f : α → β} {g : α → γ}
    (h : (list.map f).Nodup) (hg : ∀ a ∈ list, ∀ b ∈ list, g a = g b → f a = f b) :
    (list.map g).Nodup := by
  refine (nodup_map_iff_inj_on (h.of_map _)).2 fun a ha b hb heq => ?_
  exact (nodup_map_iff_inj_on (h.of_map _)).1 h a ha b hb (hg a ha b hb heq)

/-- Names of which one has become shorter are not the same as before. -/
theorem not_same_of_shorter {α : Type} {list : List α} {new old : α → Path}
    (hnew : (list.map new).Nodup) (hold : (list.map old).Nodup)
    (hle : ∀ a ∈ list, (new a).length ≤ (old a).length) {a : α} (ha : a ∈ list)
    (hlt : (new a).length < (old a).length) : ¬ ∀ q, q ∈ list.map new ↔ q ∈ list.map old := by
  intro hsame
  have hperm := (perm_ext_iff_of_nodup hnew hold).2 hsame
  have hsum : ((list.map new).map length).sum = ((list.map old).map length).sum :=
    (hperm.map _).sum_eq
  rw [map_map, map_map] at hsum
  exact absurd hsum (ne_of_lt (sum_lt_sum _ _ hle ⟨a, ha, hlt⟩))

section Landing

variable {p : Profile} {sources : Path → Option SourceTree} {stamp token : String} {root q : Path}
  {f : File}

theorem roots_manifestOf_eq_none : (manifestOf p stamp token sources).roots = none ↔
    p.single = true := by
  show (if p.single = true then none else some (descriptors p)) = none ↔ _
  split <;> simp_all

theorem stagingKey_stage :
    stagingKey (manifestOf p stamp token sources) (stage p root (q, f)).entry =
      p.stagingKey root := by
  unfold stagingKey Profile.stagingKey
  by_cases hsingle : p.single = true
  · rw [roots_manifestOf_eq_none.2 hsingle, if_pos hsingle]
  · rw [if_neg hsingle]
    have hroots : (manifestOf p stamp token sources).roots = some (descriptors p) := if_neg hsingle
    rw [hroots]
    rfl

theorem parts_relativePath (hq : ∀ name ∈ q, IsName name) (hsingle : p.single = true) :
    parts (relativePath (manifestOf p stamp token sources) (stage p root (q, f)).entry) =
      unstripped q := by
  have hstart := start_render_iff (n := "0") (by decide) hq
  unfold relativePath unstripped
  rw [show (stage p root (q, f)).entry.path = render q from rfl]
  by_cases hzero : ∃ rest, rest ≠ [] ∧ q = "0" :: rest
  · have hcond := hstart.2 hzero
    obtain ⟨rest, hrest, rfl⟩ := hzero
    rw [if_pos ⟨roots_manifestOf_eq_none.2 hsingle, hcond⟩, if_pos ⟨rfl, hrest⟩]
    rw [show "0/" = "0" ++ "/" from rfl, dropStart_render "0" hrest]
    exact parts_render fun name hname => hq name (.tail _ hname)
  · rw [if_neg fun h => hzero (hstart.1 h.2), if_neg, parts_render hq]
    rintro ⟨hhead, htail⟩
    refine hzero ⟨q.tail, htail, ?_⟩
    cases q with
    | nil => simp at hhead
    | cons name rest =>
      cases hhead
      rfl

theorem parts_targetPath (hq : ∀ name ∈ q, IsName name) (reader : Reader) :
    parts (targetPath (manifestOf p stamp token sources) reader
      (stage p root (q, f)).entry) = landing p reader q := by
  unfold landing
  cases reader with
  | external =>
    rw [if_neg (by simp)]
    exact parts_render hq
  | native =>
    by_cases hsingle : p.single = true
    · rw [if_pos ⟨rfl, hsingle⟩]
      exact parts_relativePath hq hsingle
    · rw [if_neg fun h => hsingle h.2]
      have hsame : relativePath (manifestOf p stamp token sources) (stage p root (q, f)).entry =
          render q :=
        if_neg fun h => hsingle (roots_manifestOf_eq_none.1 h.1)
      exact (congrArg parts hsame).trans (parts_render hq)

theorem stagingKey_inj {other : Path} (hroot : root ∈ p.service.approved)
    (hother : other ∈ p.service.approved) (h : p.stagingKey root = p.stagingKey other) :
    root = other := by
  unfold Profile.stagingKey at h
  by_cases hsingle : p.single = true
  · have hlen : p.service.approved.length = 1 := of_decide_eq_true hsingle
    obtain ⟨only, honly⟩ := length_eq_one_iff.1 hlen
    rw [honly, mem_singleton] at hroot hother
    rw [hroot, hother]
  · rw [if_neg hsingle, if_neg hsingle] at h
    exact p.service.rootId_inj root hroot other hother h

theorem nodup_paths_single (hsingle : p.single = true) :
    ((snapshot p sources).map (·.entry.path)).Nodup := by
  have hlen : p.service.approved.length = 1 := of_decide_eq_true hsingle
  obtain ⟨root, hroot⟩ := length_eq_one_iff.1 hlen
  have hperm : (snapshot p sources).Perm (stageRoot p sources root) := by
    refine (perm_insertionSort _ _).trans ?_
    rw [hroot, flatMap_singleton]
  exact ((hperm.map _).nodup_iff).2 nodup_stageRoot

theorem path_of_mem (h : s ∈ snapshot p sources) : render (parts s.entry.path) = s.entry.path := by
  obtain ⟨root, -, q, f, hback, rfl⟩ := mem_snapshot.1 h
  show render (parts (render q)) = render q
  rw [parts_render hback.names]

theorem path_inj {s t : Staged} (hs : s ∈ snapshot p sources) (ht : t ∈ snapshot p sources)
    (h : parts s.entry.path = parts t.entry.path) : s.entry.path = t.entry.path := by
  rw [← path_of_mem hs, h, path_of_mem ht]

/-- Every file has a spot of its own, or the extraction has stopped. -/
theorem nodup_spots {reader : Reader} {missing : Failure} {stagings : String → Tree}
    (h : placeAll (insists (manifestOf p stamp token sources) reader) missing
      (stagingKey (manifestOf p stamp token sources))
      (targetPath (manifestOf p stamp token sources) reader) (snapshot p sources)
      (fun _ => .empty) = .ok stagings) :
    ((snapshot p sources).map (spotOf (stagingKey (manifestOf p stamp token sources))
      (targetPath (manifestOf p stamp token sources) reader))).Nodup := by
  cases hinsists : insists (manifestOf p stamp token sources) reader with
  | true =>
    rw [hinsists] at h
    exact (spots_of_exclusive h).1
  | false =>
    -- only the external reader overwrites, and only for a single root
    cases reader with
    | native => cases hinsists
    | external =>
      have hsingle : p.single = true :=
        roots_manifestOf_eq_none.1 (Option.isNone_iff_eq_none.1
          (Option.isSome_eq_false_iff.1 hinsists))
      refine nodup_map_of_determines (nodup_paths_single hsingle) fun a ha b hb heq => ?_
      exact path_inj ha hb (congrArg Prod.snd heq)

variable {reader : Reader} {m : Manifest} {stagings : String → Tree}
  (hvalid : validate p (pack p (manifestOf p stamp token sources) (snapshot p sources)) reader =
    .ok m)
  (hunpack : unpack m (pack p (manifestOf p stamp token sources) (snapshot p sources)) reader =
    .ok stagings)
include hvalid hunpack

theorem unpack_placeAll : ∃ missing,
    placeAll (insists (manifestOf p stamp token sources) reader) missing
      (stagingKey (manifestOf p stamp token sources))
      (targetPath (manifestOf p stamp token sources) reader) (snapshot p sources)
      (fun _ => .empty) = .ok stagings := by
  obtain ⟨rfl, hnodup, hmanifest⟩ := validate_ok rfl hvalid
  obtain ⟨missing, heq⟩ := unpack_pack rfl hnodup hmanifest reader
  exact ⟨missing, heq.symm.trans hunpack⟩

theorem isDir_unpack (id : String) : (stagings id).isDir = true := by
  obtain ⟨missing, h⟩ := unpack_placeAll hvalid hunpack
  exact isDir_placeAll (fun _ => rfl) h id

/-- **The files in the staging directories.** -/
theorem unpack_files (hroot : root ∈ p.service.approved) (b : Bytes) :
    (stagings (p.stagingKey root)).get q = some (.file b) ↔
      ∃ r f, BackedUp p sources root r f ∧ landing p reader r = q ∧ f.bytes = b := by
  obtain ⟨missing, h⟩ := unpack_placeAll hvalid hunpack
  rw [get_placeAll (nodup_spots h) h]
  simp only [FileTree.get_empty_ne_file, and_false, or_false]
  constructor
  · rintro ⟨s, hs, hspot, rfl⟩
    obtain ⟨other, hother, r, f, hback, rfl⟩ := mem_snapshot.1 hs
    obtain ⟨hkey, hpath⟩ := Prod.mk.inj hspot
    rw [stagingKey_stage] at hkey
    rw [parts_targetPath hback.names] at hpath
    cases stagingKey_inj hroot hother hkey.symm
    exact ⟨r, f, hback, hpath, rfl⟩
  · rintro ⟨r, f, hback, rfl, rfl⟩
    refine ⟨stage p root (r, f), mem_snapshot.2 ⟨root, hroot, r, f, hback, rfl⟩, ?_, rfl⟩
    exact Prod.ext stagingKey_stage (parts_targetPath hback.names reader)

/-- **A leading `0/` cannot be taken away without a trace**: the paths get shorter, so they are not
the same as before. -/
theorem landing_not_same (hreader : reader = .native) (hsingle : p.single = true)
    (hroot : root ∈ p.service.approved) (hrest : rest ≠ [])
    (hzero : BackedUp p sources root ("0" :: rest) f) :
    ¬ ∀ q b, (∃ r g, BackedUp p sources root r g ∧ landing p reader r = q ∧ g.bytes = b) ↔
      ∃ g, BackedUp p sources root q g ∧ g.bytes = b := by
  intro hsame
  subst hreader
  obtain ⟨missing, h⟩ := unpack_placeAll hvalid hunpack
  have honly : ∀ s ∈ snapshot p sources, ∃ r g, BackedUp p sources root r g ∧
      s = stage p root (r, g) := by
    intro s hs
    obtain ⟨other, hother, r, g, hback, rfl⟩ := mem_snapshot.1 hs
    have hkey : p.stagingKey root = p.stagingKey other := by
      unfold Profile.stagingKey
      rw [if_pos hsingle, if_pos hsingle]
    cases stagingKey_inj hroot hother hkey
    exact ⟨r, g, hback, rfl⟩
  let old : Staged → Path := fun s => parts s.entry.path
  let new : Staged → Path := fun s =>
    parts (targetPath (manifestOf p stamp token sources) .native s.entry)
  have hold : ∀ r g, BackedUp p sources root r g → old (stage p root (r, g)) = r :=
    fun r g hback => parts_render hback.names
  have hnew : ∀ r g, BackedUp p sources root r g →
      new (stage p root (r, g)) = landing p .native r := fun r g hback =>
    parts_targetPath hback.names .native
  have hlanding : ∀ r, landing p .native r = unstripped r := fun r => if_pos ⟨rfl, hsingle⟩
  have hmem : ∀ r g, BackedUp p sources root r g → stage p root (r, g) ∈ snapshot p sources :=
    fun r g hback => mem_snapshot.2 ⟨root, hroot, r, g, hback, rfl⟩
  have hnodupOld : ((snapshot p sources).map old).Nodup :=
    nodup_map_of_determines (nodup_paths_single hsingle) fun a ha b hb heq => path_inj ha hb heq
  have hnodupNew : ((snapshot p sources).map new).Nodup := by
    refine nodup_map_of_determines (nodup_spots h) fun a ha b hb heq => Prod.ext ?_ heq
    obtain ⟨r, g, -, rfl⟩ := honly a ha
    obtain ⟨r', g', -, rfl⟩ := honly b hb
    exact stagingKey_stage.trans stagingKey_stage.symm
  refine not_same_of_shorter hnodupNew hnodupOld (fun s hs => ?_) (hmem _ f hzero) ?_ fun q => ?_
  · obtain ⟨r, g, hback, rfl⟩ := honly s hs
    rw [hnew r g hback, hold r g hback, hlanding]
    exact length_unstripped_le r
  · rw [hnew _ f hzero, hold _ f hzero, hlanding, unstripped_zero hrest]
    simp
  · rw [mem_map, mem_map]
    constructor
    · rintro ⟨s, hs, rfl⟩
      obtain ⟨r, g, hback, rfl⟩ := honly s hs
      obtain ⟨g', hback', -⟩ := (hsame _ g.bytes).1 ⟨r, g, hback, rfl, rfl⟩
      refine ⟨_, hmem _ g' hback', ?_⟩
      rw [hold _ g' hback', hnew r g hback]
    · rintro ⟨s, hs, rfl⟩
      obtain ⟨r, g, hback, rfl⟩ := honly s hs
      rw [hold r g hback]
      obtain ⟨r', g', hback', hland, -⟩ := (hsame r g.bytes).2 ⟨g, hback, rfl⟩
      refine ⟨_, hmem r' g' hback', ?_⟩
      rw [hnew r' g' hback', hland]

end Landing

end Horizon.Backup
