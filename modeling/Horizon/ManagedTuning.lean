/-
**The managed JVM argument file.**

`activate_managed_argfile` replaces an argument file and, in a later step, the manifest that binds
its hash; `rollback_managed_argfile` takes both away or puts copies in their place.  Each call is a
list of steps on the disk, of which all are taken or, if the process is killed, only the first few.
The launcher takes a file that is not found for an argument file that was never activated.

Main results:

* `ManagedTuning.argfile_not_ignored` — **then no argument file is passed over**.
-/

import Horizon.Transition

namespace Horizon.ManagedTuning

open List
open Transition (run Along along_invariant)
open Function

/-! ### Steps on the disk -/

/-- The active path, its manifest, the handler's copy, other paths inside the managed directory or
not, and names that `mkstemp` made up. -/
inductive Name
  | argfile
  | manifest
  | recovery
  | path (inside : Bool) (p : String)
  | temp (n : ℕ)
deriving DecidableEq

/-- `path.with_suffix(path.suffix + ".manifest.json")`. -/
def Name.manifestOf : Name → Name
  | argfile => manifest
  | manifest => path true "minecraft-sunlit-cobblemon.active.args.manifest.json.manifest.json"
  | recovery => path true ".minecraft-sunlit-cobblemon.active.args.recovery.manifest.json"
  | path inside p => path inside (p ++ ".manifest.json")
  | temp n => temp n

/-- `path.parent == parent`. -/
def Name.inside : Name → Bool
  | path inside _ => inside
  | _ => true

structure File where
  uid : ℕ
  mode : ℕ
  bytes : List UInt8
deriving DecidableEq

inductive Node
  | file (f : File)
  | link
  | directory
deriving DecidableEq

abbrev Disk := Name → Option Node

inductive Step
  | create (n : Name) (uid : ℕ)
  | chmod (n : Name)
  | fill (n : Name) (bytes : List UInt8)
  | truncate (n : Name) (uid mode : ℕ)
  | replace (source target : Name)
  | unlink (n : Name)

def Disk.edit (d : Disk) (n : Name) (g : File → File) : Disk :=
  match d n with
  | some (.file f) => update d n (some (.file (g f)))
  | _ => d

/-- The effect of a step.  What is written through a link lands elsewhere. -/
def Step.apply (d : Disk) : Step → Disk
  | create n uid => update d n (some (.file ⟨uid, 0o600, []⟩))
  | chmod n => d.edit n fun f => { f with mode := 0o644 }
  | fill n bytes => d.edit n fun f => { f with bytes := bytes }
  | truncate n uid mode =>
    if d n = none then update d n (some (.file ⟨uid, mode, []⟩))
    else d.edit n fun f => { f with bytes := [] }
  | replace source target =>
    if d source = none ∨ d target = some .directory then d
    else update (update d source none) target (d source)
  | unlink n => if d n = some .directory then d else update d n none

def applyAll (d : Disk) (steps : List Step) : Disk := steps.foldl Step.apply d

def Disk.regular (d : Disk) (n : Name) : Option File :=
  match d n with
  | some (.file f) => some f
  | _ => none

/-! ### The two calls -/

/-- Who makes a call: the owner and the mode of the files that `open` makes. -/
structure Caller where
  uid : ℕ
  mode : ℕ

/-- `path.write_bytes(bytes); os.chmod(path, 0o644)`. -/
def writeBytes (c : Caller) (n : Name) (bytes : List UInt8) : List Step :=
  [.truncate n c.uid c.mode, .fill n bytes, .chmod n]

/-- A new file is made, written and moved to its place. -/
def put (temp : ℕ) (c : Caller) (bytes : List UInt8) (target : Name) : List Step :=
  [.create (.temp temp) c.uid, .chmod (.temp temp), .fill (.temp temp) bytes,
    .replace (.temp temp) target]

/-- A call of `activate_managed_argfile` whose campaign, arguments and directory pass the checks,
with the bytes of the two files and the names that `mkstemp` makes up. -/
structure Activation where
  caller : Caller
  payload : List UInt8
  manifestPayload : List UInt8
  rollbackPath : Option Name
  temp : ℕ
  manifestTemp : ℕ

namespace Activation

variable (a : Activation) (d : Disk)

def publish : List Step :=
  put a.temp a.caller a.payload .argfile ++ put a.manifestTemp a.caller a.manifestPayload .manifest

/-- The handler, on the disk from which the previous bytes were read. -/
def recover : List Step :=
  .unlink (.temp a.temp) ::
    if (d.regular .argfile).isSome ∧ d .recovery = some .directory then []
    else
      (match d.regular .argfile with
        | none => [.unlink .argfile]
        | some f => writeBytes a.caller .recovery f.bytes ++ [.replace .recovery .argfile]) ++
      match d.regular .manifest with
        | none => [.unlink .manifest]
        | some f => writeBytes a.caller .manifest f.bytes

/-- The copies of what was active before, or the handler where they are refused. -/
def keepPrevious : List Step :=
  match a.rollbackPath, d.regular .argfile with
  | none, _ => []
  | some rollback, previous =>
    if d rollback = some .link ∨ rollback.inside = false then a.recover d
    else
      match previous with
      | none => []
      | some f =>
        if d rollback = some .directory then a.recover d
        else
          writeBytes a.caller rollback f.bytes ++
          match d.regular .manifest with
          | none => []
          | some g =>
            if d rollback.manifestOf = some .directory then a.recover d
            else writeBytes a.caller rollback.manifestOf g.bytes

/-- `path` and `manifest` are regular files or absent. -/
def Accepts (d : Disk) : Prop :=
  (d .argfile = none ∨ (d.regular .argfile).isSome) ∧
    (d .manifest = none ∨ (d.regular .manifest).isSome)

instance : Decidable (Accepts d) := inferInstanceAs (Decidable (_ ∧ _))

end Activation

/-- `activate_managed_argfile`, and `rollback_managed_argfile` without and with a copy. -/
inductive Call
  | activate (a : Activation)
  | withdraw
  | rollback (c : Caller) (copy : Name) (temp : ℕ)

/-- A copy that `rollback_managed_argfile` takes, to where a file can be moved. -/
def usable (d : Disk) (copy : Name) : Option File :=
  if d .argfile = some .directory then none else (d.regular copy).filter (·.mode = 0o644)

def Call.steps (d : Disk) : Call → List Step
  | activate a => if Activation.Accepts d then a.publish ++ a.keepPrevious d else []
  | withdraw =>
    if d .argfile = some .link ∨ d .argfile = some .directory then []
    else [.unlink .argfile, .unlink .manifest]
  | rollback c copy temp =>
    match usable d copy with
    | none => []
    | some f =>
      put temp c f.bytes .argfile ++
      match d.regular copy.manifestOf with
      | none => [.unlink .manifest]
      | some g => writeBytes c .manifest g.bytes

/-- A call, and how many of its steps are taken before the process is killed, if it is. -/
structure Event where
  call : Call
  killedAfter : Option ℕ

def Event.steps (d : Disk) (e : Event) : List Step :=
  match e.killedAfter with
  | none => e.call.steps d
  | some k => (e.call.steps d).take k

def step (d : Disk) (e : Event) : Option Disk := some (applyAll d (e.steps d))

/-! ### The launcher -/

/-- What the launcher reads in a manifest: whether schema, profile, verdict and campaign are as they
should be, and the hash. -/
structure Evidence where
  provenance : Bool
  argfileSha256 : Option String

/-- `hashlib` and `json`; `none` is a text that is not a JSON object. -/
structure Tools where
  sha256 : List UInt8 → String
  loads : List UInt8 → Option Evidence

inductive Refusal
  | notFound
  | invalid
deriving DecidableEq

/-- Regular, root's, mode 0644 and not too large. -/
def rootControlled (limit : ℕ) : Option Node → Except Refusal File
  | none => .error .notFound
  | some (.file f) =>
    if f.uid = 0 ∧ f.mode = 0o644 ∧ f.bytes.length ≤ limit then .ok f else .error .invalid
  | some _ => .error .invalid

variable (tools : Tools)

/-- The `try` block of `_managed_jvm_layer`. -/
def readLayer (d : Disk) : Except Refusal Unit :=
  match rootControlled 4096 (d .argfile) with
  | .error r => .error r
  | .ok args =>
    match rootControlled 2048 (d .manifest) with
    | .error r => .error r
    | .ok bound =>
      match tools.loads bound.bytes with
      | none => .error .invalid
      | some evidence =>
        if evidence.provenance ∧ evidence.argfileSha256 = some (tools.sha256 args.bytes) then .ok ()
        else .error .invalid

inductive LaunchError
  | configuration
  | boundary
deriving DecidableEq

def isBoundary (word : String) : Bool := "/unix_args.txt".toList.isSuffixOf word.toList

/-- `[*command[:index], f"@{path}", *command[index:]]`. -/
def insertArgfile (command : List String) (index : ℕ) : List String :=
  command.take index ++
    "@/etc/game-control/jvm/minecraft-sunlit-cobblemon.active.args" :: command.drop index

/-- `_managed_jvm_layer`, for the Java command of the Sunlit profile. -/
def managedJvmLayer (d : Disk) (command : List String) : Except LaunchError (List String) :=
  match readLayer tools d with
  | .error .notFound => .ok command
  | .error .invalid => .error .configuration
  | .ok () =>
    match command.findIdx? isBoundary with
    | none => .error .boundary
    | some index => .ok (insertArgfile command index)

/-- The manifest holds the hash of the argument file. -/
def Bound (d : Disk) : Prop :=
  ∃ args bound evidence, d .argfile = some (.file args) ∧ d .manifest = some (.file bound) ∧
    tools.loads bound.bytes = some evidence ∧
    evidence.argfileSha256 = some (tools.sha256 args.bytes)

/-- No argument file stands without a manifest. -/
def Paired (d : Disk) : Prop := d .argfile ≠ none → d .manifest ≠ none

theorem readLayer_ok {tools : Tools} {d : Disk} (h : readLayer tools d = .ok ()) :
    Bound tools d := by
  have hfile : ∀ {limit : ℕ} {node : Option Node} {f : File},
      rootControlled limit node = .ok f → node = some (.file f) := by
    intro limit node f hf
    unfold rootControlled at hf
    grind
  unfold readLayer at h
  split at h
  · cases h
  · next args hargs =>
      split at h
      · cases h
      · next bound hbound =>
          split at h
          · cases h
          · next evidence hevidence =>
              split at h
              · next hcheck =>
                  exact ⟨args, bound, evidence, hfile hargs, hfile hbound, hevidence, hcheck.2⟩
              · cases h

theorem readLayer_notFound {tools : Tools} {d : Disk} (h : readLayer tools d = .error .notFound) :
    d .argfile = none ∨ d .manifest = none := by
  have hnone : ∀ {limit : ℕ} {node : Option Node},
      rootControlled limit node = .error .notFound → node = none := by
    intro limit node hn
    unfold rootControlled at hn
    grind
  unfold readLayer at h
  grind

/-! ### What a step can take away -/

variable {d : Disk} {s : Step} {n : Name} {l : List Step}

/-- The name that the step may leave without a file. -/
def Step.vacates : Step → Option Name
  | replace source _ => some source
  | unlink n => some n
  | _ => none

/-- The name that the step may give a file. -/
def Step.fills : Step → Option Name
  | create n _ => some n
  | truncate n _ _ => some n
  | replace _ target => some target
  | _ => none

theorem edit_eq_none_iff {g : File → File} {m : Name} : d.edit m g n = none ↔ d n = none := by
  by_cases hn : n = m
  · subst hn
    cases hnode : d n with
    | none => simp [Disk.edit, hnode]
    | some node => cases node <;> simp [Disk.edit, hnode]
  · cases hnode : d m with
    | none => simp [Disk.edit, hnode]
    | some node => cases node <;> simp [Disk.edit, hnode, hn]

theorem apply_ne_none (hd : d n ≠ none) (hs : s.vacates ≠ some n) : s.apply d n ≠ none := by
  cases s with
  | chmod | fill => exact mt edit_eq_none_iff.1 hd
  | create m uid =>
    by_cases hn : n = m
    · simp [Step.apply, hn]
    · simpa [Step.apply, hn] using hd
  | truncate m uid mode =>
    rw [Step.apply]
    split
    · by_cases hn : n = m
      · simp [hn]
      · simpa [hn] using hd
    · exact mt edit_eq_none_iff.1 hd
  | replace source target =>
    have hn : n ≠ source := fun h => hs (by rw [h, Step.vacates])
    rw [Step.apply]
    split
    · exact hd
    · next hmoved =>
        by_cases ht : n = target
        · subst ht
          simpa using fun h => hmoved (.inl h)
        · simpa [ht, hn] using hd
  | unlink m =>
    have hn : n ≠ m := fun h => hs (by rw [h, Step.vacates])
    rw [Step.apply]
    split
    · exact hd
    · simpa [hn] using hd

theorem apply_eq_none (hd : d n = none) (hs : s.fills ≠ some n) : s.apply d n = none := by
  cases s with
  | chmod | fill => exact edit_eq_none_iff.2 hd
  | create m uid =>
    have hn : n ≠ m := fun h => hs (by rw [h, Step.fills])
    simpa [Step.apply, hn] using hd
  | truncate m uid mode =>
    have hn : n ≠ m := fun h => hs (by rw [h, Step.fills])
    rw [Step.apply]
    split
    · simpa [hn] using hd
    · exact edit_eq_none_iff.2 hd
  | replace source target =>
    have hn : n ≠ target := fun h => hs (by rw [h, Step.fills])
    rw [Step.apply]
    split
    · exact hd
    · rw [update_of_ne hn]
      by_cases hsource : n = source
      · simp [hsource]
      · simpa [hsource] using hd
  | unlink m =>
    rw [Step.apply]
    split
    · exact hd
    · by_cases hn : n = m
      · simp [hn]
      · simpa [hn] using hd

theorem applyAll_ne_none (hd : d n ≠ none) (hs : ∀ s ∈ l, s.vacates ≠ some n) :
    applyAll d l n ≠ none := by
  induction l generalizing d with
  | nil => exact hd
  | cons s l ih =>
    exact ih (apply_ne_none hd (hs s (.head _))) fun s' hs' => hs s' (mem_cons_of_mem s hs')

theorem applyAll_eq_none (hd : d n = none) (hs : ∀ s ∈ l, s.fills ≠ some n) :
    applyAll d l n = none := by
  induction l generalizing d with
  | nil => exact hd
  | cons s l ih =>
    exact ih (apply_eq_none hd (hs s (.head _))) fun s' hs' => hs s' (mem_cons_of_mem s hs')

theorem applyAll_append (d : Disk) (xs ys : List Step) :
    applyAll d (xs ++ ys) = applyAll (applyAll d xs) ys :=
  foldl_append

/-! ### Careful calls -/

def Event.taken (d : Disk) (e : Event) : ℕ := (e.steps d).length

/-- An activation that finds no manifest is not killed between its two files.  A rollback to a copy
either has the manifest of the copy too, or is killed before it misses it; and if it finds no
manifest it is not killed between its two files. -/
def Careful (d : Disk) (e : Event) : Prop :=
  match e.call with
  | .activate _ => d .manifest ≠ none ∨ e.taken d < 4 ∨ 8 ≤ e.taken d
  | .withdraw => True
  | .rollback _ copy _ =>
    e.taken d < 4 ∨ (e.taken d = 4 ∧ d .manifest ≠ none) ∨
      (4 < e.taken d ∧ (d.regular copy.manifestOf).isSome)

instance (d : Disk) (e : Event) : Decidable (Careful d e) := by
  unfold Careful
  split <;> infer_instance

theorem steps_eq_take (d : Disk) (e : Event) : e.steps d = (e.call.steps d).take (e.taken d) := by
  unfold Event.taken Event.steps
  split <;> simp

/-- Steps that take no manifest away and make no argument file, or find a manifest. -/
theorem Paired.applyAll (hd : Paired d) (hv : ∀ s ∈ l, s.vacates ≠ some .manifest)
    (hf : d .manifest ≠ none ∨ ∀ s ∈ l, s.fills ≠ some .argfile) : Paired (applyAll d l) := by
  intro hargfile
  by_cases hm : d .manifest = none
  · refine absurd (applyAll_eq_none ?_ (hf.resolve_left (not_not.2 hm))) hargfile
    exact not_not.1 fun ha => hd ha hm
  · exact applyAll_ne_none hm hv

section Put

variable {k : ℕ} {c : Caller} {bytes : List UInt8} {t : Name}

theorem put_vacates : ∀ s ∈ put k c bytes t, s.vacates = none ∨ s.vacates = some (.temp k) := by
  simp [put, Step.vacates]

theorem put_fills {j : ℕ} (hj : j < 4) :
    ∀ s ∈ (put k c bytes t).take j, s.fills = none ∨ s.fills = some (.temp k) := by
  interval_cases j <;> simp [put, Step.fills]

theorem put_apply (ht : t ≠ .temp k) (hd : d t ≠ some .directory) :
    ManagedTuning.applyAll d (put k c bytes t) =
      update (update d (.temp k) none) t (some (.file ⟨c.uid, 0o644, bytes⟩)) := by
  simp [put, ManagedTuning.applyAll, Step.apply, Disk.edit, ht, hd]

end Put

theorem writeBytes_vacates {c : Caller} {m : Name} {bytes : List UInt8} :
    ∀ s ∈ writeBytes c m bytes, s.vacates = none := by
  simp [writeBytes, Step.vacates]

theorem truncate_ne_none {uid mode : ℕ} : (Step.truncate n uid mode).apply d n ≠ none := by
  rw [Step.apply]
  split
  · simp
  · next h => exact mt edit_eq_none_iff.1 h

section Activate

variable {a : Activation}

theorem recover_vacates (hm : (d.regular .manifest).isSome) :
    ∀ s ∈ a.recover d, s.vacates ≠ some .manifest := by
  obtain ⟨g, hg⟩ := Option.isSome_iff_exists.1 hm
  unfold Activation.recover
  cases d.regular .argfile <;> grind [writeBytes_vacates, Step.vacates]

theorem activate_vacates (hm : (d.regular .manifest).isSome) :
    ∀ s ∈ a.publish ++ a.keepPrevious d, s.vacates ≠ some .manifest := by
  intro s hs
  rcases mem_append.1 hs with hs | hs
  · rcases mem_append.1 hs with hs | hs
    · rcases put_vacates s hs with h | h <;> simp [h]
    · rcases put_vacates s hs with h | h <;> simp [h]
  · unfold Activation.keepPrevious at hs
    grind [recover_vacates, writeBytes_vacates]

/-- A first activation has nothing to copy; where its copy is refused it is undone. -/
theorem keepPrevious_first (ha : d .argfile = none) (hm : d .manifest = none) :
    a.keepPrevious d = [] ∨
      a.keepPrevious d = [.unlink (.temp a.temp), .unlink .argfile, .unlink .manifest] := by
  unfold Activation.keepPrevious Activation.recover Disk.regular
  rw [ha, hm]
  grind

theorem publish_present (ha : d .argfile = none) (hm : d .manifest = none) :
    (applyAll d a.publish).regular .argfile ≠ none ∧ applyAll d a.publish .manifest ≠ none := by
  have hargfile : applyAll d (put a.temp a.caller a.payload .argfile) = _ :=
    put_apply (by simp) (by simp [ha])
  rw [Activation.publish, applyAll_append, hargfile, put_apply (by simp) (by simp [hm])]
  simp [Disk.regular]

theorem paired_undone {k j : ℕ} (ha : d.regular .argfile ≠ none) (hm : d .manifest ≠ none) :
    Paired (applyAll d (take j [.unlink (.temp k), .unlink .argfile, .unlink .manifest])) := by
  have htemp : ∀ n, n ≠ .temp k → (Step.unlink (.temp k)).apply d n = d n := by
    intro n hn
    rw [Step.apply]
    split <;> simp [hn]
  rcases lt_or_ge j 2 with hj | hj
  · refine fun _ => applyAll_ne_none hm fun s hs => ?_
    interval_cases j
    · simp at hs
    · obtain rfl : s = .unlink (.temp k) := by simpa using hs
      simp [Step.vacates]
  · obtain ⟨i, rfl⟩ := Nat.exists_eq_add_of_le' hj
    refine fun hargfile => absurd (applyAll_eq_none (l := take i [.unlink .manifest]) ?_ ?_)
      hargfile
    · have hfile : d .argfile ≠ some .directory := fun h => ha (by simp [Disk.regular, h])
      show (Step.unlink .argfile).apply ((Step.unlink (.temp k)).apply d) .argfile = none
      rw [Step.apply, if_neg (by rwa [htemp _ (by simp)]), update_self]
    · intro s hs
      obtain rfl : s = .unlink .manifest := by simpa using mem_of_mem_take hs
      simp [Step.fills]

/-- **A first activation that is not killed between its two files leaves both or none.** -/
theorem paired_first {k : ℕ} (ha : d .argfile = none) (hm : d .manifest = none)
    (hk : k < 4 ∨ 8 ≤ k) : Paired (applyAll d ((a.publish ++ a.keepPrevious d).take k)) := by
  rcases hk with hk | hk
  · have hput : (a.publish ++ a.keepPrevious d).take k =
        (put a.temp a.caller a.payload .argfile).take k := by
      rw [Activation.publish, append_assoc, take_append_of_le_length]
      exact hk.le
    refine fun hargfile => absurd (applyAll_eq_none ha fun s hs => ?_) hargfile
    rw [hput] at hs
    rcases put_fills hk s hs with h | h <;> simp [h]
  · obtain ⟨j, rfl⟩ := Nat.exists_eq_add_of_le hk
    have hlength : a.publish.length = 8 := rfl
    rw [← hlength, take_length_add_append, applyAll_append]
    obtain ⟨hargfile, hmanifest⟩ := publish_present ha hm
    generalize applyAll d a.publish = d' at hargfile hmanifest ⊢
    rcases keepPrevious_first ha hm with h | h
    · rw [h, take_nil]
      exact fun _ => hmanifest
    · rw [h]
      exact paired_undone hargfile hmanifest

end Activate

/-- A rollback moves the copy into its place and then opens the manifest. -/
theorem paired_rollback {c : Caller} {copy : Name} {temp k : ℕ} (hd : Paired d)
    (hk : k < 4 ∨ (k = 4 ∧ d .manifest ≠ none) ∨ (4 < k ∧ (d.regular copy.manifestOf).isSome)) :
    Paired (applyAll d (((Call.rollback c copy temp).steps d).take k)) := by
  rw [Call.steps]
  cases usable d copy with
  | none => simpa [applyAll] using hd
  | some f =>
    simp only
    generalize hput : put temp c f.bytes .argfile = moved
    have hlength : moved.length = 4 := by rw [← hput]; rfl
    have hvacates : ∀ j, ∀ s ∈ moved.take j, s.vacates ≠ some .manifest := by
      intro j s hs
      rcases put_vacates s (hput ▸ mem_of_mem_take hs) with h | h <;> simp [h]
    rcases hk with hk | ⟨rfl, hm⟩ | ⟨hk, hcopy⟩
    · rw [take_append_of_le_length (by omega)]
      refine hd.applyAll (hvacates k) (.inr fun s hs => ?_)
      rcases put_fills hk s (hput ▸ hs) with h | h <;> simp [h]
    · rw [← hlength, take_append_length]
      exact hd.applyAll (fun s hs => hvacates 4 s (by simpa [← hlength] using hs)) (.inl hm)
    · obtain ⟨g, hg⟩ := Option.isSome_iff_exists.1 hcopy
      obtain ⟨j, rfl⟩ := Nat.exists_eq_add_of_le' hk
      rw [hg, show j + (4 + 1) = moved.length + (j + 1) by omega, take_length_add_append,
        applyAll_append]
      refine fun _ => applyAll_ne_none (l := take j _) truncate_ne_none fun s hs => ?_
      have hmem : s ∈ writeBytes c .manifest g.bytes := .tail _ (mem_of_mem_take hs)
      simp [writeBytes_vacates s hmem]

/-- **Careful calls keep argument file and manifest together.** -/
theorem paired_step {e : Event} (hd : Paired d) (he : Careful d e) :
    Paired (applyAll d (e.steps d)) := by
  rw [steps_eq_take]
  unfold Careful at he
  generalize e.taken d = k at he ⊢
  cases hcall : e.call with
  | rollback c copy temp => exact paired_rollback hd (by simpa only [hcall] using he)
  | withdraw =>
    rw [Call.steps]
    split
    · simpa [applyAll] using hd
    · next hfile =>
        rcases eq_zero_or_pos k with rfl | hk
        · exact hd
        · obtain ⟨j, rfl⟩ := Nat.exists_eq_add_of_le' hk
          refine fun hargfile => absurd (applyAll_eq_none
            (l := take j [.unlink .manifest]) ?_ fun s hs => ?_) hargfile
          · rw [Step.apply, if_neg fun h => hfile (.inr h), update_self]
          · obtain rfl : s = .unlink .manifest := by simpa using mem_of_mem_take hs
            simp [Step.fills]
  | activate a =>
    rw [hcall] at he
    rw [Call.steps]
    split
    · next haccepts =>
        by_cases hm : d .manifest = none
        · exact paired_first (not_not.1 fun ha => hd ha hm) hm (he.resolve_left (not_not.2 hm))
        · refine hd.applyAll (fun s hs => ?_) (.inl hm)
          exact activate_vacates (haccepts.2.resolve_left hm) s (mem_of_mem_take hs)
    · simpa [applyAll] using hd

/-- **After careful calls the launcher passes over no argument file**: what it returns is the
command with an argument file that the manifest binds, or the command as it was, and then there is
no argument file. -/
theorem argfile_not_ignored (tools : Tools) {d d' : Disk} {es : List Event} (hd : Paired d)
    (hcareful : Along step (fun d e _ => Careful d e) d es) (hrun : run step d es = some d')
    {command result : List String} (h : managedJvmLayer tools d' command = .ok result) :
    (result = command ∧ d' .argfile = none) ∨
      (Bound tools d' ∧ ∃ index, command.findIdx? isBoundary = some index ∧
        result = insertArgfile command index) := by
  have hpaired : Paired d' := by
    refine along_invariant (fun d e d' hd hstep he => ?_) hd hcareful hrun
    cases hstep
    exact paired_step hd he
  unfold managedJvmLayer at h
  split at h
  · next hread =>
      cases h
      refine .inl ⟨rfl, not_not.1 fun ha => ?_⟩
      exact (readLayer_notFound hread).elim ha (hpaired ha)
  · cases h
  · next hread =>
      split at h <;> cases h
      rename_i index hindex
      exact .inr ⟨readLayer_ok hread, index, hindex, rfl⟩

/-! ### A first activation -/

/-- A hash and a manifest that can be read off. -/
def plainTools : Tools where
  sha256 bytes := toString (bytes.map UInt8.toNat)
  loads bytes := some ⟨true, some (toString (bytes.map UInt8.toNat))⟩

def root : Caller := ⟨0, 0o644⟩

/-- `-Xmx6G`, with a manifest that `plainTools` reads as its hash. -/
def firstActivation : Activation :=
  ⟨root, "-Xmx6G\n".toUTF8.toList, "-Xmx6G\n".toUTF8.toList, none, 0, 1⟩

def javaCommand : List String := ["/usr/bin/java", "@libraries/unix_args.txt", "nogui"]

/-- An activation, a rollback to a copy that is not there, and one more activation that is killed
between its two files. -/
def reactivation : List Event :=
  [⟨.activate firstActivation, none⟩, ⟨.rollback root (.path true "rollback.args") 2, none⟩,
    ⟨.activate firstActivation, some 4⟩]

theorem reactivation_inserted :
    ∃ d', run step (fun _ => none) reactivation = some d' ∧
      managedJvmLayer plainTools d' javaCommand = .ok (insertArgfile javaCommand 1) ∧
      ((insertArgfile javaCommand 1 = javaCommand ∧ d' .argfile = none) ∨
        (Bound plainTools d' ∧ ∃ index, javaCommand.findIdx? isBoundary = some index ∧
          insertArgfile javaCommand 1 = insertArgfile javaCommand index)) :=
  have hcareful : Along step (fun d e _ => Careful d e) (fun _ => none) reactivation := by
    decide +kernel
  ⟨_, rfl, by decide +kernel, argfile_not_ignored plainTools (fun ha => absurd rfl ha) hcareful rfl
    (by decide +kernel)⟩

/-- A first activation that is killed between its two files leaves an argument file that the
launcher passes over. -/
theorem killed_activation_ignored :
    ∃ d', run step (fun _ => none) [⟨.activate firstActivation, some 4⟩] = some d' ∧
      d' .argfile ≠ none ∧ managedJvmLayer plainTools d' javaCommand = .ok javaCommand :=
  ⟨_, rfl, by decide +kernel, by decide +kernel⟩

end Horizon.ManagedTuning
