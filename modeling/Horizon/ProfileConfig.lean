/-
**Editing the settings of a profile.**

`profile_config.set_profile_config` reads the settings file of a profile as text, replaces the lines
that assign one of the given keys, appends the keys that no line assigns, and publishes the result
by a rename.  Before it writes it compares the digest of the lines it has read with the digest of
the bytes of the file.

A file is its text; the directories, the backup of the old file and the rename are taken to work,
and nobody else writes.  `changes` is a dictionary, here a list with distinct keys.

Main results:

* `Config.exact_iff` — **an edit is exact exactly when the file is editable**.
-/

import Mathlib.Data.List.Sort
import Horizon.PyText
import Horizon.Reservation

namespace Horizon.Config

open Option
open List
open Text
open Lines (Broken Terminated Whole flatten_split split split_broken)

/-! ### Settings -/

/-- The member `type` of a setting. -/
inductive SettingType
  | str
  | int
  | enum
  | bool
  deriving DecidableEq

/-- `Setting`. -/
structure Setting where
  key : String
  type : SettingType
  restartRequired : Bool := true
  minimum : ℤ := 0
  maximum : ℤ := 0
  maximumLength : Option ℕ := none
  choices : List String := []
  deriving DecidableEq

def minecraftSettings : List Setting :=
  [{ key := "motd", type := .str, maximumLength := some 59 },
    { key := "max-players", type := .int, minimum := 1, maximum := 64 },
    { key := "view-distance", type := .int, minimum := 4, maximum := 16 },
    { key := "difficulty", type := .enum, choices := ["peaceful", "easy", "normal", "hard"] },
    { key := "pvp", type := .bool }, { key := "white-list", type := .bool }]

def terrariaSettings : List Setting :=
  [{ key := "maxplayers", type := .int, minimum := 1, maximum := 16 },
    { key := "motd", type := .str, maximumLength := some 120 },
    { key := "password", type := .str, maximumLength := some 120 },
    { key := "secure", type := .bool }]

/-- `WHITELIST`. -/
def whitelist : ProfileId → Option (List Setting)
  | .minecraft => some minecraftSettings
  | .minecraftSunlitCobblemon => some minecraftSettings
  | .terrariaVanilla => some terrariaSettings
  | .terrariaTmod => some terrariaSettings
  | .pzRising =>
    some [{ key := "PublicName", type := .str, maximumLength := some 64 },
      { key := "MaxPlayers", type := .int, minimum := 1, maximum := 32 },
      { key := "PauseEmpty", type := .bool }, { key := "PVP", type := .bool }]
  | .terrariaTmod145Candidate => none

/-- A value of the dictionary `changes`. -/
inductive Value
  | bool (b : Bool)
  | int (i : ℤ)
  | str (t : Text)
  | other
  deriving DecidableEq

inductive Error
  | validation (message : String)
  | unicode
  | lease
  deriving DecidableEq

def isControl (c : ℕ) : Bool := c < 0x20 || c = 0x7F

/-- `_validate`. -/
def validate (setting : Setting) (value : Value) : Except Error Text :=
  match setting.type with
  | .bool =>
    match value with
    | .bool b => .ok (of (if b then "true" else "false"))
    | _ => .error (.validation (setting.key ++ " must be a boolean"))
  | .int =>
    match value with
    | .int i =>
      if setting.minimum ≤ i ∧ i ≤ setting.maximum then .ok (of (toString i))
      else .error (.validation (setting.key ++ " is outside its allowed range"))
    | _ => .error (.validation (setting.key ++ " is outside its allowed range"))
  | _ =>
    match value with
    | .str t =>
      if t.any isControl then
        .error (.validation (setting.key ++ " contains a control character"))
      else if setting.maximumLength.any (· < t.length) then
        .error (.validation (setting.key ++ " is too long"))
      else if setting.choices ≠ [] ∧ t ∉ setting.choices.map of then
        .error (.validation (setting.key ++ " is not an allowed value"))
      else .ok t
    | _ => .error (.validation (setting.key ++ " contains a control character"))

/-! ### Lines -/

/-- A line that starts, after spaces, with `#` or `;`. -/
def isComment (line : Text) : Bool :=
  (lstrip line).head? = some 0x23 || (lstrip line).head? = some 0x3B

/-- The key and the value that a line assigns, as `_parse_lines` reads them. -/
def assignment (line : Text) : Option (Text × Text) :=
  if 0x3D ∉ line ∨ isComment line = true then none
  else
    let body := line.rdropWhile fun c => c = 0x0D || c = 0x0A
    some (strip (body.takeWhile (· ≠ 0x3D)), (body.dropWhile (· ≠ 0x3D)).tail)

/-- The value of a key: that of the last line that assigns it. -/
def current (lines : List Text) (key : Text) : Option Text :=
  (((lines.filterMap assignment).filter (·.1 = key)).getLast?).map (·.2)

def entry (key value : Text) : Text := key ++ 0x3D :: value ++ [0x0A]

/-- The line that takes the place of a line. -/
def rewrite (encoded : List (Text × Text)) (line : Text) : Text :=
  match assignment line with
  | some (key, _) =>
    match encoded.lookup key with
    | some value => entry key value
    | none => line
  | none => line

def assigned (lines : List Text) (key : Text) : Bool :=
  lines.any fun line => (assignment line).any (·.1 = key)

/-- The entries whose keys no line assigns, sorted by key. -/
def missing (encoded : List (Text × Text)) (lines : List Text) : List (Text × Text) :=
  (encoded.filter fun e => !assigned lines e.1).insertionSort fun a b => a.1 ≤ b.1

def output (encoded : List (Text × Text)) (lines : List Text) : List Text :=
  lines.map (rewrite encoded) ++ (missing encoded lines).map fun e => entry e.1 e.2

/-! ### The edit -/

/-- What `set_profile_config` returns. -/
structure Report where
  changed : List Text
  restartRequired : List Text
  deriving DecidableEq

/-- The lines of a file that is read as text. -/
def readLines (text : Text) : List Text := splitlines (universal text)

section Edit

variable {D : Type} [DecidableEq D] (sha256 : Text → D) (settings : List Setting)
  (changes : List (Text × Value))

def settingOf (key : Text) : Option Setting := settings.find? fun s => of s.key = key

def encodeOne (change : Text × Value) : Except Error (Text × Text) :=
  match settingOf settings change.1 with
  | some setting => (validate setting change.2).map fun value => (change.1, value)
  | none => .error (.validation "unknown config key")

def encode : Except Error (List (Text × Text)) :=
  if changes = [] then .error (.validation "changes must not be empty")
  else if changes.any fun c => (settingOf settings c.1).isNone then
    .error (.validation "unknown config key")
  else changes.mapM (encodeOne settings)

def changedKeys (encoded : List (Text × Text)) (lines : List Text) : List Text :=
  ((encoded.filter fun e => current lines e.1 ≠ some e.2).map (·.1)).insertionSort (· ≤ ·)

/-- `set_profile_config`: the report and the text of the file afterwards. -/
def setProfileConfig (leaseHeld : Bool) (text : Text) : Except Error (Report × Text) := do
  let encoded ← encode settings changes
  let lines := readLines text
  let changed := changedKeys encoded lines
  if changed = [] then return (⟨[], []⟩, text)
  let written := (output encoded lines).flatten
  if sha256 text ≠ sha256 lines.flatten then
    throw (.validation "profile config changed during edit")
  if ¬ Encodable written then throw .unicode
  if !leaseHeld then throw .lease
  return (⟨changed, changed.filter fun key => (settingOf settings key).any (·.restartRequired)⟩,
    written)

end Edit

/-! ### Exact edits -/

def touches (encoded : List (Text × Text)) (line : Text) : Bool :=
  (assignment line).any fun a => a.1 ∈ encoded.map (·.1)

/-- The lines of a file that assign none of the given keys. -/
def others (encoded : List (Text × Text)) (text : Text) : List Text :=
  (splitlines text).filter fun line => !touches encoded line

section Exact

variable {D : Type} [DecidableEq D] (sha256 : Text → D) (settings : List Setting)
  (changes : List (Text × Value)) (encoded : List (Text × Text)) (text : Text)

/-- The edit succeeds, the file then has the given values and the other old values, every other line
is as it was, and the same edit changes nothing more. -/
def Exact : Prop :=
  ∃ report text', setProfileConfig sha256 settings changes true text = .ok (report, text') ∧
    (∀ e ∈ encoded, current (readLines text') e.1 = some e.2) ∧
    (∀ key, key ∉ encoded.map (·.1) →
      current (readLines text') key = current (readLines text) key) ∧
    others encoded text' = others encoded text ∧
    ∃ report' text'', setProfileConfig sha256 settings changes true text' = .ok (report', text'') ∧
      report'.changed = []

/-- Nothing is to be changed; or the file has no carriage return, the values have neither a line
boundary nor a surrogate, and if a key is to be appended then the last line has an end or is
replaced. -/
def Editable : Prop :=
  changedKeys encoded (readLines text) = [] ∨
    0x0D ∉ text ∧
    (∀ e ∈ encoded, ∀ c ∈ e.2, isBoundary c = false ∧ isSurrogate c = false) ∧
    (missing encoded (readLines text) = [] ∨
      ∀ line, (readLines text).getLast? = some line →
        touches encoded line = true ∨ Terminated isBoundary line)

end Exact

/-- No key is to be appended, or the last line has an end or is replaced. -/
abbrev EndOk (encoded : List (Text × Text)) (lines : List Text) : Prop :=
  missing encoded lines = [] ∨ ∀ line, lines.getLast? = some line →
    touches encoded line = true ∨ Terminated isBoundary line

/-! ### Entries -/

/-- A key that is read back from the line that is written for it. -/
structure KeyOk (key : Text) : Prop where
  ne_nil : key ≠ []
  plain : ∀ c ∈ key, c ≠ 0x3D ∧ c ≠ 0x23 ∧ c ≠ 0x3B ∧ isSpace c = false ∧
    isBoundary c = false ∧ isSurrogate c = false

theorem keyOk_of_whitelist {profile : ProfileId} {settings : List Setting}
    (h : whitelist profile = some settings) {setting : Setting} (hmem : setting ∈ settings) :
    KeyOk (of setting.key) := by
  have hall : ∀ s ∈ settings, of s.key ≠ [] ∧ ∀ c ∈ of s.key, c ≠ 0x3D ∧ c ≠ 0x23 ∧
      c ≠ 0x3B ∧ isSpace c = false ∧ isBoundary c = false ∧ isSurrogate c = false := by
    cases profile with
    | terrariaTmod145Candidate => cases h
    | _ =>
      cases h
      decide +kernel
  exact ⟨(hall setting hmem).1, (hall setting hmem).2⟩

theorem isComment_entry {key : Text} (hkey : KeyOk key) (value : Text) :
    isComment (entry key value) = false := by
  obtain ⟨c, rest, rfl⟩ := exists_cons_of_ne_nil hkey.ne_nil
  obtain ⟨-, hhash, hsemi, hspace, -⟩ := hkey.plain c (.head _)
  have hstrip : .lstrip (entry (c :: rest) value) = entry (c :: rest) value :=
    dropWhile_cons_of_neg (Bool.eq_false_iff.1 hspace)
  rw [isComment, hstrip]
  have hhead : (entry (c :: rest) value).head? = some c := rfl
  rw [hhead]
  simp [hhash, hsemi]

variable {key value : Text}

/-- **An entry is read back.** -/
theorem assignment_entry (hkey : KeyOk key) (hvalue : ∀ c ∈ value, c ≠ 0x0D ∧ c ≠ 0x0A) :
    assignment (entry key value) = some (key, value) := by
  have hequals : 0x3D ∈ entry key value := by simp [entry]
  have hcomment := isComment_entry hkey value
  have hbody : (entry key value).rdropWhile (fun c => c = 0x0D || c = 0x0A) =
      key ++ 0x3D :: value := by
    rw [entry, rdropWhile_concat_pos _ _ _ (by decide), rdropWhile_eq_self_iff]
    intro hne
    rw [getLast_append_of_ne_nil _ (cons_ne_nil _ _)]
    have hlast := getLast_mem (cons_ne_nil 0x3D value)
    rcases mem_cons.1 hlast with heq | hmem
    · rw [heq]
      decide
    · obtain ⟨h13, h10⟩ := hvalue _ hmem
      simp [h13, h10]
  have htake : (key ++ 0x3D :: value).takeWhile (· ≠ 0x3D) = key := by
    rw [takeWhile_append_of_pos fun c hc => by simpa using (hkey.plain c hc).1]
    simp
  have hdrop : (key ++ 0x3D :: value).dropWhile (· ≠ 0x3D) = 0x3D :: value := by
    rw [dropWhile_append_of_pos fun c hc => by simpa using (hkey.plain c hc).1]
    simp
  have hstrip : .strip key = key := strip_eq fun c hc => (hkey.plain c hc).2.2.2.1
  rw [assignment, if_neg (by simp [hequals, hcomment])]
  dsimp only
  rw [hbody, htake, hdrop, hstrip]
  rfl

/-! ### The checked changes -/

variable {e : Text × Text}

section Encode

variable {settings : List Setting} {changes : List (Text × Value)} {encoded : List (Text × Text)}

theorem encodeOne_key {change : Text × Value} (h : encodeOne settings change = .ok e) :
    e.1 = change.1 ∧ ∃ setting ∈ settings, .of setting.key = e.1 := by
  unfold encodeOne at h
  cases hsetting : settingOf settings change.1 with
  | none =>
    rw [hsetting] at h
    cases h
  | some setting =>
    rw [hsetting] at h
    dsimp only at h
    cases hvalue : validate setting change.2 with
    | error err =>
      rw [hvalue] at h
      cases h
    | ok value =>
      rw [hvalue] at h
      cases h
      have hmem := mem_of_find?_eq_some hsetting
      have hkey := find?_some hsetting
      exact ⟨rfl, setting, hmem, of_decide_eq_true hkey⟩

theorem mapM_encodeOne (h : changes.mapM (encodeOne settings) = .ok encoded) :
    encoded.map (·.1) = changes.map (·.1) ∧
      ∀ e ∈ encoded, ∃ setting ∈ settings, .of setting.key = e.1 := by
  induction changes generalizing encoded with
  | nil =>
    cases h
    exact ⟨rfl, nofun⟩
  | cons change changes ih =>
    rw [mapM_cons] at h
    cases hone : encodeOne settings change with
    | error err =>
      rw [hone] at h
      cases h
    | ok e =>
      rw [hone] at h
      cases hrest : changes.mapM (encodeOne settings) with
      | error err =>
        simp only [hrest] at h
        cases h
      | ok rest =>
        simp only [hrest] at h
        cases h
        obtain ⟨hkey, hsetting⟩ := encodeOne_key hone
        obtain ⟨hkeys, hsettings⟩ := ih hrest
        refine ⟨?_, forall_mem_cons.2 ⟨hsetting, hsettings⟩⟩
        rw [map_cons, map_cons, hkey, hkeys]

/-- Checked changes have the keys of the changes, and these are keys of the settings. -/
theorem encode_ok (h : encode settings changes = .ok encoded) :
    encoded.map (·.1) = changes.map (·.1) ∧
      ∀ e ∈ encoded, ∃ setting ∈ settings, .of setting.key = e.1 := by
  refine mapM_encodeOne ?_
  unfold encode at h
  split at h
  · cases h
  · split at h
    · cases h
    · exact h

end Encode

/-! ### The edited lines -/

variable {line : Text} {before after : Text} {c : ℕ}

section Output

variable {encoded : List (Text × Text)} {lines : List Text}

theorem mem_of_lookup (h : encoded.lookup key = some value) : (key, value) ∈ encoded := by
  obtain ⟨before, after, rfl, -⟩ := lookup_eq_some_iff.1 h
  exact mem_append_right _ (.head _)

theorem lookup_eq_none_iff : encoded.lookup key = none ↔ key ∉ encoded.map (·.1) := by
  rw [List.lookup_eq_none_iff]
  constructor
  · intro h hmem
    obtain ⟨e, he, rfl⟩ := mem_map.1 hmem
    exact absurd rfl (bne_iff_ne.1 (h e he))
  · intro h e he
    rw [bne_iff_ne]
    rintro rfl
    exact h (mem_map_of_mem he)

theorem lookup_eq (hkeys : (encoded.map (·.1)).Nodup) (he : e ∈ encoded) :
    encoded.lookup e.1 = some e.2 := by
  cases hlookup : encoded.lookup e.1 with
  | none => exact absurd (mem_map_of_mem he) (lookup_eq_none_iff.1 hlookup)
  | some value =>
    have heq := inj_on_of_nodup_map hkeys (mem_of_lookup hlookup) he rfl
    rw [← heq]

theorem rewrite_of_not_touches (h : touches encoded line = false) :
    rewrite encoded line = line := by
  unfold rewrite
  cases hassign : assignment line with
  | none => rfl
  | some a =>
    have hnot : a.1 ∉ encoded.map (·.1) := by
      intro hmem
      rw [touches, hassign, any_some, decide_eq_true hmem] at h
      cases h
    dsimp only
    rw [lookup_eq_none_iff.2 hnot]

theorem rewrite_of_touches (h : touches encoded line = true) :
    ∃ e ∈ encoded, (∃ old, assignment line = some (e.1, old)) ∧
      encoded.lookup e.1 = some e.2 ∧ rewrite encoded line = entry e.1 e.2 := by
  unfold touches at h
  cases hassign : assignment line with
  | none =>
    rw [hassign] at h
    cases h
  | some a =>
    rw [hassign, any_some, decide_eq_true_iff] at h
    cases hlookup : encoded.lookup a.1 with
    | none => exact absurd h (lookup_eq_none_iff.1 hlookup)
    | some value =>
      refine ⟨(a.1, value), mem_of_lookup hlookup, ⟨a.2, rfl⟩, hlookup, ?_⟩
      rw [rewrite, hassign]
      dsimp only
      rw [hlookup]

/-- What the entries have, and every line that stays, a rewritten line has. -/
theorem rewrite_of {P : Text → Prop} (hentry : ∀ e ∈ encoded, P (entry e.1 e.2))
    (h : P line ∨ touches encoded line = true) : P (rewrite encoded line) := by
  cases htouch : touches encoded line with
  | false =>
    rw [rewrite_of_not_touches htouch]
    exact h.resolve_right (Bool.eq_false_iff.1 htouch)
  | true =>
    obtain ⟨e, he, -, -, heq⟩ := rewrite_of_touches htouch
    exact heq ▸ hentry e he

theorem mem_missing : e ∈ missing encoded lines ↔ e ∈ encoded ∧ assigned lines e.1 = false := by
  rw [missing, mem_insertionSort, mem_filter, Bool.not_eq_true']

theorem rewritten_or_missing (hkeys : (encoded.map (·.1)).Nodup) (lines : List Text)
    (he : e ∈ encoded) :
    (∃ line ∈ lines, touches encoded line = true ∧ rewrite encoded line = entry e.1 e.2) ∨
      e ∈ missing encoded lines := by
  cases hassigned : assigned lines e.1 with
  | false => exact .inr (mem_missing.2 ⟨he, hassigned⟩)
  | true =>
    obtain ⟨line, hline, hany⟩ := any_eq_true.1 hassigned
    obtain ⟨a, hassign, hkey⟩ := (any_eq_true _ _).1 hany
    have hkey : a.1 = e.1 := of_decide_eq_true hkey
    refine .inl ⟨line, hline, ?_, ?_⟩
    · rw [touches, hassign, any_some, hkey]
      exact decide_eq_true (mem_map_of_mem he)
    · rw [rewrite, hassign]
      dsimp only
      rw [hkey, lookup_eq hkeys he]

theorem entry_mem_output (hkeys : (encoded.map (·.1)).Nodup) (lines : List Text)
    (he : e ∈ encoded) : entry e.1 e.2 ∈ output encoded lines := by
  rcases rewritten_or_missing hkeys lines he with ⟨line, hline, -, heq⟩ | hmissing
  · exact mem_append_left _ (mem_map.2 ⟨line, hline, heq⟩)
  · exact mem_append_right _ (mem_map_of_mem hmissing)

theorem mem_output {piece : Text} (h : piece ∈ output encoded lines) :
    (∃ e ∈ encoded, piece = entry e.1 e.2) ∨ piece ∈ lines ∧ touches encoded piece = false := by
  rcases mem_append.1 h with h | h
  · obtain ⟨line, hline, rfl⟩ := mem_map.1 h
    cases htouch : touches encoded line with
    | false =>
      rw [rewrite_of_not_touches htouch]
      exact .inr ⟨hline, htouch⟩
    | true =>
      obtain ⟨e, he, -, -, heq⟩ := rewrite_of_touches htouch
      exact .inl ⟨e, he, heq⟩
  · obtain ⟨e, he, rfl⟩ := mem_map.1 h
    exact .inl ⟨e, (mem_missing.1 he).1, rfl⟩

theorem not_touches_iff : touches encoded line = false ↔
    ∀ key value, assignment line = some (key, value) → key ∉ encoded.map (·.1) := by
  unfold touches
  cases assignment line with
  | none => simp
  | some a =>
    rw [any_some, decide_eq_false_iff_not]
    constructor
    · rintro h key value heq
      cases heq
      exact h
    · intro h
      exact h a.1 a.2 rfl

end Output

theorem mem_of_current {lines : List Text} (h : current lines key = some value) :
    ∃ line ∈ lines, assignment line = some (key, value) := by
  obtain ⟨a, hlast, rfl⟩ := map_eq_some_iff.1 h
  obtain ⟨hmem, hkey⟩ := mem_filter.1 (mem_of_getLast? hlast)
  obtain ⟨line, hline, hassign⟩ := mem_filterMap.1 hmem
  refine ⟨line, hline, ?_⟩
  rw [hassign, ← of_decide_eq_true hkey]

theorem current_eq_some {lines : List Text}
    (hex : ∃ line ∈ lines, assignment line = some (key, value))
    (hall : ∀ line ∈ lines, ∀ other, assignment line = some (key, other) → other = value) :
    current lines key = some value := by
  obtain ⟨line, hline, hassign⟩ := hex
  have hmem : (key, value) ∈ (lines.filterMap assignment).filter (·.1 = key) :=
    mem_filter.2 ⟨mem_filterMap.2 ⟨line, hline, hassign⟩, decide_eq_true rfl⟩
  cases hlast : ((lines.filterMap assignment).filter (·.1 = key)).getLast? with
  | none =>
    rw [getLast?_eq_none_iff.1 hlast] at hmem
    cases hmem
  | some a =>
    have hcurrent : current lines key = some a.2 := by rw [current, hlast]; rfl
    obtain ⟨line', hline', hassign'⟩ := mem_of_current hcurrent
    rw [hcurrent, hall line' hline' a.2 hassign']

/-! ### Clean values -/

section Clean

variable {encoded : List (Text × Text)} (hok : ∀ e ∈ encoded, KeyOk e.1) {lines : List Text}
  (hclean : ∀ e ∈ encoded, ∀ c ∈ e.2, isBoundary c = false)

theorem whole_of (hkey : KeyOk key) (hvalue : ∀ c ∈ value, isBoundary c = false) {last : ℕ}
    (hlast : isBoundary last = true) : Whole isBoundary (key ++ 0x3D :: value ++ [last]) := by
  refine ⟨key ++ 0x3D :: value, last, rfl, fun c hc => ?_, hlast⟩
  rcases mem_append.1 hc with hc | hc
  · exact (hkey.plain c hc).2.2.2.2.1
  · rcases mem_cons.1 hc with rfl | hc
    · rfl
    · exact hvalue c hc

theorem entry_whole (hkey : KeyOk key) (hvalue : ∀ c ∈ value, isBoundary c = false) :
    Whole isBoundary (entry key value) :=
  whole_of hkey hvalue rfl

theorem newline_free (hvalue : ∀ c ∈ value, isBoundary c = false) :
    ∀ c ∈ value, c ≠ 0x0D ∧ c ≠ 0x0A := by
  intro c hc
  constructor
  all_goals
    rintro rfl
    exact absurd (hvalue _ hc) (by decide)

include hok hclean

theorem assignment_of_mem (he : e ∈ encoded) : assignment (entry e.1 e.2) = some (e.1, e.2) :=
  assignment_entry (hok e he) (newline_free (hclean e he))

theorem rewrite_whole (h : Whole isBoundary line ∨ touches encoded line = true) :
    Whole isBoundary (rewrite encoded line) :=
  rewrite_of (fun e he => entry_whole (hok e he) (hclean e he)) h

theorem map_rewrite_broken (h : Broken isBoundary lines) :
    Broken isBoundary (lines.map (rewrite encoded)) := by
  induction h with
  | nil => exact .nil
  | @last line hne hbody =>
    cases htouch : touches encoded line with
    | false =>
      rw [map_singleton, rewrite_of_not_touches htouch]
      exact .last hne hbody
    | true => exact .cons (rewrite_whole hok hclean (.inr htouch)) .nil
  | cons hline _ ih => exact .cons (rewrite_whole hok hclean (.inl hline)) ih

theorem output_broken (hlines : Broken isBoundary lines)
    (hend : EndOk encoded lines) : Broken isBoundary (output encoded lines) := by
  unfold output
  rcases hend with hnone | hend
  · rw [hnone, map_nil, append_nil]
    exact map_rewrite_broken hok hclean hlines
  · have hentries : ∀ line ∈ (missing encoded lines).map (fun e => entry e.1 e.2),
        Whole isBoundary line := by
      intro line hline
      obtain ⟨e, he, rfl⟩ := mem_map.1 hline
      have hmem := mem_missing.1 he
      exact entry_whole (hok e hmem.1) (hclean e hmem.1)
    have hbroken := Broken.append hentries .nil
    rw [append_nil] at hbroken
    refine .append (fun line hline => ?_) hbroken
    obtain ⟨old, hold, rfl⟩ := mem_map.1 hline
    refine rewrite_whole hok hclean ?_
    rcases hlines.whole_or_last hold with hwhole | ⟨⟨front, rfl⟩, -, hbody⟩
    · exact .inl hwhole
    · rcases hend old getLast?_concat with htouch | ⟨body, last, rfl, hlast⟩
      · exact .inr htouch
      · have hfalse := hbody last (mem_append_right _ (mem_singleton.2 rfl))
        rw [hlast] at hfalse
        cases hfalse

theorem current_output (hkeys : (encoded.map (·.1)).Nodup) (lines : List Text) (he : e ∈ encoded) :
    current (output encoded lines) e.1 = some e.2 := by
  refine current_eq_some ⟨_, entry_mem_output hkeys lines he, assignment_of_mem hok hclean he⟩ ?_
  intro piece hpiece other hother
  rcases mem_output hpiece with ⟨e', he', rfl⟩ | ⟨-, htouch⟩
  · rw [assignment_of_mem hok hclean he', some_inj, Prod.mk.injEq] at hother
    have heq := inj_on_of_nodup_map hkeys he' he hother.1
    rw [← hother.2, heq]
  · exact absurd (mem_map_of_mem he) (not_touches_iff.1 htouch _ _ hother)

theorem current_output_other (lines : List Text) (hkey : key ∉ encoded.map (·.1)) :
    current (output encoded lines) key = current lines key := by
  have hentry : ∀ e ∈ encoded, (assignment (entry e.1 e.2)).filter (·.1 = key) = none := by
    intro e he
    rw [assignment_of_mem hok hclean he, filter_some, if_neg]
    rw [decide_eq_true_iff]
    rintro rfl
    exact hkey (mem_map_of_mem he)
  have hline : ∀ line, (assignment (rewrite encoded line)).filter (·.1 = key) =
      (assignment line).filter (·.1 = key) := by
    intro line
    cases htouch : touches encoded line with
    | false => rw [rewrite_of_not_touches htouch]
    | true =>
      obtain ⟨e, he, ⟨old, hold⟩, -, heq⟩ := rewrite_of_touches htouch
      have hne : e.1 ≠ key := by
        rintro rfl
        exact hkey (mem_map_of_mem he)
      rw [heq, hentry e he, hold, filter_some, if_neg (by simpa using hne)]
  have hmissing : (missing encoded lines).filterMap
      (fun e => (assignment (entry e.1 e.2)).filter (·.1 = key)) = [] := by
    rw [filterMap_eq_nil_iff]
    intro e he
    exact hentry e (mem_missing.1 he).1
  unfold current output
  rw [filter_filterMap, filter_filterMap, filterMap_append, filterMap_map,
    filterMap_map]
  have hfun : (fun x => (assignment x).filter (·.1 = key)) ∘ rewrite encoded =
      fun x => (assignment x).filter (·.1 = key) := funext hline
  have happended : (missing encoded lines).filterMap
      ((fun x => (assignment x).filter (·.1 = key)) ∘ fun e => entry e.1 e.2) = [] := hmissing
  rw [hfun, happended, append_nil]

theorem filter_output (lines : List Text) :
    (output encoded lines).filter (fun line => !touches encoded line) =
      lines.filter fun line => !touches encoded line := by
  have hentry : ∀ e ∈ encoded, touches encoded (entry e.1 e.2) = true := by
    intro e he
    rw [touches, assignment_of_mem hok hclean he, any_some]
    exact decide_eq_true (mem_map_of_mem he)
  have hmissing : ((missing encoded lines).map fun e => entry e.1 e.2).filter
      (fun line => !touches encoded line) = [] := by
    rw [filter_eq_nil_iff]
    intro line hline
    obtain ⟨e, he, rfl⟩ := mem_map.1 hline
    rw [hentry e (mem_missing.1 he).1]
    decide
  have hlines : ∀ lines : List Text, (lines.map (rewrite encoded)).filter
      (fun line => !touches encoded line) = lines.filter fun line => !touches encoded line := by
    intro lines
    induction lines with
    | nil => rfl
    | cons line lines ih =>
      cases htouch : touches encoded line with
      | false =>
        rw [map_cons, rewrite_of_not_touches htouch, filter_cons_of_pos (by simp [htouch]),
          filter_cons_of_pos (by simp [htouch]), ih]
      | true =>
        obtain ⟨e, he, -, -, heq⟩ := rewrite_of_touches htouch
        rw [map_cons, heq, filter_cons_of_neg (by simp [hentry e he]),
          filter_cons_of_neg (by simp [htouch]), ih]
  rw [output, filter_append, hmissing, append_nil, hlines]

end Clean

section Call

variable {D : Type} [DecidableEq D] {sha256 : Text → D} {settings : List Setting}
  {changes : List (Text × Value)} {encoded : List (Text × Text)} {lines : List Text}

theorem setProfileConfig_eq (hencode : encode settings changes = .ok encoded) (text : Text) :
    setProfileConfig sha256 settings changes true text =
      if changedKeys encoded (readLines text) = [] then .ok (⟨[], []⟩, text)
      else if sha256 text ≠ sha256 (readLines text).flatten then
        .error (.validation "profile config changed during edit")
      else if ¬ Encodable (output encoded (readLines text)).flatten then .error .unicode
      else .ok (⟨changedKeys encoded (readLines text),
        (changedKeys encoded (readLines text)).filter fun key =>
          (settingOf settings key).any (·.restartRequired)⟩,
        (output encoded (readLines text)).flatten) := by
  rw [setProfileConfig, hencode]
  rfl

theorem changedKeys_eq_nil_iff :
    changedKeys encoded lines = [] ↔ ∀ e ∈ encoded, current lines e.1 = some e.2 := by
  constructor
  · intro h e he
    by_contra hne
    have hmem : e.1 ∈ changedKeys encoded lines := by
      rw [changedKeys, mem_insertionSort]
      exact mem_map_of_mem (mem_filter.2 ⟨he, decide_eq_true hne⟩)
    rw [h] at hmem
    exact not_mem_nil hmem
  · intro h
    have hnone : (encoded.filter fun e => current lines e.1 ≠ some e.2) = [] := by
      rw [filter_eq_nil_iff]
      intro e he hne
      exact of_decide_eq_true hne (h e he)
    rw [changedKeys, hnone]
    rfl

theorem exact_of_settled (hencode : encode settings changes = .ok encoded) {text : Text}
    (h : changedKeys encoded (readLines text) = []) :
    Exact sha256 settings changes encoded text := by
  have hcall : setProfileConfig sha256 settings changes true text = .ok (⟨[], []⟩, text) := by
    rw [setProfileConfig_eq hencode, if_pos h]
  exact ⟨_, text, hcall, changedKeys_eq_nil_iff.1 h, fun _ _ => rfl, rfl, _, text, hcall, rfl⟩

theorem readLines_eq {text : Text} (h : 0x0D ∉ text) : readLines text = split isBoundary text := by
  rw [readLines, universal_of_notMem h, splitlines_eq h]

theorem splitlines_eq_readLines {text : Text} (h : 0x0D ∉ text) :
    splitlines text = readLines text := by
  rw [readLines, universal_of_notMem h]

/-- A property of characters that a text, the keys and the values have is one of the edited text. -/
theorem forall_mem_output {p : ℕ → Prop} (hlines : ∀ c ∈ lines.flatten, p c)
    (hkeys : ∀ e ∈ encoded, ∀ c ∈ e.1, p c) (hvalues : ∀ e ∈ encoded, ∀ c ∈ e.2, p c)
    (hequals : p 0x3D) (hnewline : p 0x0A) : ∀ c ∈ (output encoded lines).flatten, p c := by
  intro c hc
  obtain ⟨piece, hpiece, hc⟩ := mem_flatten.1 hc
  rcases mem_output hpiece with ⟨e, he, rfl⟩ | ⟨hline, -⟩
  · rcases mem_append.1 hc with hc | hc
    · rcases mem_append.1 hc with hc | hc
      · exact hkeys e he c hc
      · rcases mem_cons.1 hc with rfl | hc
        · exact hequals
        · exact hvalues e he c hc
    · rw [mem_singleton.1 hc]
      exact hnewline
  · exact hlines c (mem_flatten.2 ⟨piece, hline, hc⟩)

theorem return_notMem_output (hok : ∀ e ∈ encoded, KeyOk e.1) (hlines : 0x0D ∉ lines.flatten)
    (hvalues : ∀ e ∈ encoded, 0x0D ∉ e.2) : 0x0D ∉ (output encoded lines).flatten := by
  intro hmem
  refine forall_mem_output (p := fun c => c ≠ 0x0D) ?_ ?_ ?_ (by decide) (by decide) _ hmem rfl
  · rintro c hc rfl
    exact hlines hc
  · rintro e he c hc rfl
    exact absurd ((hok e he).plain _ hc).2.2.2.2.1 (by decide)
  · rintro e he c hc rfl
    exact hvalues e he hc

variable (hencode : encode settings changes = .ok encoded) (hok : ∀ e ∈ encoded, KeyOk e.1)
  (hkeys : (encoded.map (·.1)).Nodup) {text : Text} (htext : Encodable text)

include hencode hok hkeys htext

/-- **Editable files are edited exactly.** -/
theorem exact_of_clean (hreturn : 0x0D ∉ text)
    (hclean : ∀ e ∈ encoded, ∀ c ∈ e.2, isBoundary c = false ∧ isSurrogate c = false)
    (hend : EndOk encoded (readLines text)) : Exact sha256 settings changes encoded text := by
  by_cases hchanged : changedKeys encoded (readLines text) = []
  · exact exact_of_settled hencode hchanged
  have hboundary : ∀ e ∈ encoded, ∀ c ∈ e.2, isBoundary c = false :=
    fun e he c hc => (hclean e he c hc).1
  have hread := readLines_eq hreturn
  have hflat : (readLines text).flatten = text := by rw [hread, flatten_split]
  have hbroken : Broken isBoundary (output encoded (readLines text)) :=
    output_broken hok hboundary (hread ▸ split_broken _ text) hend
  have hreturn' : 0x0D ∉ (output encoded (readLines text)).flatten :=
    return_notMem_output hok (by rwa [hflat]) fun e he hc =>
      (newline_free (hboundary e he) _ hc).1 rfl
  have hread' : readLines (output encoded (readLines text)).flatten =
      output encoded (readLines text) := by
    rw [readLines_eq hreturn', hbroken.split_flatten]
  have hencodable : Encodable (output encoded (readLines text)).flatten := by
    refine forall_mem_output ?_ ?_ ?_ rfl rfl
    · rw [hflat]
      exact htext
    · exact fun e he c hc => ((hok e he).plain c hc).2.2.2.2.2
    · exact fun e he c hc => (hclean e he c hc).2
  have hvalues : ∀ e ∈ encoded,
      current (readLines (output encoded (readLines text)).flatten) e.1 = some e.2 := by
    intro e he
    rw [hread']
    exact current_output hok hboundary hkeys _ he
  have hcall : setProfileConfig sha256 settings changes true text = _ :=
    setProfileConfig_eq hencode text
  rw [if_neg hchanged, if_neg (not_not.2 (by rw [hflat])), if_neg (not_not.2 hencodable)] at hcall
  have hagain : setProfileConfig sha256 settings changes true
      (output encoded (readLines text)).flatten =
      .ok (⟨[], []⟩, (output encoded (readLines text)).flatten) := by
    rw [setProfileConfig_eq hencode, if_pos (changedKeys_eq_nil_iff.2 hvalues)]
  refine ⟨_, _, hcall, hvalues, fun key hkey => ?_, ?_, _, _, hagain, rfl⟩
  · rw [hread']
    exact current_output_other hok hboundary _ hkey
  · rw [others, others, splitlines_eq_readLines hreturn', hread', splitlines_eq_readLines hreturn]
    exact filter_output hok hboundary _

end Call

/-! ### Files that are not editable -/

theorem value_of_assignment (h : assignment line = some (key, value)) :
    ∃ before after, line = before ++ value ++ after := by
  unfold assignment at h
  split at h
  · cases h
  · rename_i hline
    obtain ⟨-, rfl⟩ := Prod.mk.inj (some_inj.1 h)
    obtain ⟨after, hafter⟩ := rdropWhile_prefix (fun c => c = 0x0D || c = 0x0A) line
    obtain ⟨before, hbefore⟩ := (tail_suffix ((line.rdropWhile fun c =>
      c = 0x0D || c = 0x0A).dropWhile (· ≠ 0x3D))).trans (dropWhile_suffix _)
    exact ⟨before, after, by rw [hbefore, hafter]⟩

theorem boundary_last {xs line : Text} (hline : line ∈ split isBoundary xs)
    (heq : line = before ++ c :: after) (hc : isBoundary c = true) : after = [] := by
  rcases (split_broken _ xs).whole_or_last hline with hwhole | ⟨-, -, hbody⟩
  · obtain ⟨body, last, hlast, hbody, -⟩ := hwhole
    by_contra hne
    -- a boundary that is not the last element lies in the body of the line
    have hmem : c ∈ line.dropLast := by
      rw [heq, dropLast_append_of_ne_nil (cons_ne_nil _ _)]
      refine mem_append_right _ ?_
      obtain ⟨x, rest, rfl⟩ := exists_cons_of_ne_nil hne
      exact .head _
    rw [hlast, dropLast_concat] at hmem
    rw [hbody c hmem] at hc
    cases hc
  · have hfalse := hbody c (heq ▸ mem_append_right _ (.head _))
    rw [hfalse] at hc
    cases hc

theorem value_boundary_last {xs line key value : Text} (hline : line ∈ split isBoundary xs)
    (hassign : assignment line = some (key, value)) (heq : value = before ++ c :: after)
    (hc : isBoundary c = true) : after = [] := by
  obtain ⟨front, back, hparts⟩ := value_of_assignment hassign
  have hwhole : line = (front ++ before) ++ c :: (after ++ back) := by
    rw [hparts, heq]
    simp
  exact (append_eq_nil_iff.1 (boundary_last hline hwhole hc)).1

theorem assignment_newline : assignment [0x0A] = none := by decide

section Count

variable {encoded : List (Text × Text)} {lines : List Text}

/-- The lines that do not assign a key, after an edit: those that were there, and what the written
entries add. -/
theorem length_filter_rewrite (hlines : ∀ line ∈ lines, split isBoundary line = [line]) :
    (((lines.map (rewrite encoded)).flatMap (split isBoundary)).filter
      fun line => !touches encoded line).length =
    (lines.filter fun line => !touches encoded line).length +
    ((lines.filter (touches encoded)).flatMap fun line =>
      (split isBoundary (rewrite encoded line)).filter
        fun line => !touches encoded line).length := by
  induction lines with
  | nil => rfl
  | cons line lines ih =>
    obtain ⟨hline, hrest⟩ := forall_mem_cons.1 hlines
    have ih := ih hrest
    rw [map_cons, flatMap_cons, filter_append, length_append, ih]
    cases htouch : touches encoded line with
    | false =>
      rw [rewrite_of_not_touches htouch, hline,
        filter_cons_of_pos (by simp [htouch]), filter_nil,
        filter_cons_of_pos (by simp [htouch]),
        filter_cons_of_neg (by simp [htouch]), length_singleton, length_cons]
      omega
    | true =>
      rw [filter_cons_of_neg (by simp [htouch]),
        filter_cons_of_pos htouch, flatMap_cons,
        length_append]
      omega

/-- The entry for a value that ends with a boundary leaves an empty line behind. -/
theorem newline_mem_split_entry (hkey : KeyOk key) (hvalue : ∀ x ∈ value, isBoundary x = false)
    (hc : isBoundary c = true) : [0x0A] ∈ split isBoundary (entry key (value ++ [c])) := by
  have heq : entry key (value ++ [c]) = (key ++ 0x3D :: value ++ [c]) ++ [0x0A] := by
    simp [entry]
  rw [heq, Lines.split_whole_append (whole_of hkey hvalue hc)]
  exact mem_cons_of_mem _ (by decide)

variable (hok : ∀ e ∈ encoded, KeyOk e.1) (hkeys : (encoded.map (·.1)).Nodup)

include hok hkeys in
/-- **No value has a boundary** when every other line stays and the values are read back. -/
theorem values_clean {text : Text} (hend : EndOk encoded (split isBoundary text))
    (hvalues : ∀ e ∈ encoded, ∃ line ∈ split isBoundary
      (output encoded (split isBoundary text)).flatten,
      assignment line = some (e.1, e.2)) (hothers : (split isBoundary
        (output encoded (split isBoundary text)).flatten).filter
          (fun line => !touches encoded line) =
      (split isBoundary text).filter fun line => !touches encoded line) :
    ∀ e ∈ encoded, ∀ c ∈ e.2, isBoundary c = false := by
  have hentry : ∀ e : Text × Text, Terminated isBoundary (entry e.1 e.2) :=
    fun e => ⟨e.1 ++ 0x3D :: e.2, 0x0A, rfl, rfl⟩
  have hrewrite : ∀ line, Terminated isBoundary line ∨ touches encoded line = true →
      Terminated isBoundary (rewrite encoded line) :=
    fun _ => rewrite_of fun e _ => hentry e
  have hbroken := split_broken isBoundary text
  have hpieces : ∀ piece ∈ (output encoded (split isBoundary text)).dropLast,
      Terminated isBoundary piece := by
    intro piece hpiece
    rcases hend with hnone | hend
    · rw [output, hnone, map_nil, append_nil, ← map_dropLast] at hpiece
      obtain ⟨line, hline, rfl⟩ := mem_map.1 hpiece
      exact hrewrite line (.inl (hbroken.whole_of_mem_dropLast hline).terminated)
    · rcases mem_append.1 (mem_of_mem_dropLast hpiece) with hpiece | hpiece
      · obtain ⟨line, hline, rfl⟩ := mem_map.1 hpiece
        rcases hbroken.whole_or_last hline with hwhole | ⟨⟨front, hfront⟩, -, -⟩
        · exact hrewrite line (.inl hwhole.terminated)
        · exact hrewrite line (hend line (hfront ▸ getLast?_concat)).symm
      · obtain ⟨e, -, rfl⟩ := mem_map.1 hpiece
        exact hentry e
  -- the lines that the written entries add must be none
  have hcount := congrArg length hothers
  rw [Lines.split_flatten hpieces, output, flatMap_append, filter_append,
    length_append, length_filter_rewrite fun line hline => Lines.split_of_mem hline] at hcount
  have hrewritten : ((split isBoundary text).filter (touches encoded)).flatMap
      (fun line => (split isBoundary (rewrite encoded line)).filter
        fun line => !touches encoded line) = [] := eq_nil_of_length_eq_zero (by omega)
  have happended : (((missing encoded (split isBoundary text)).map
      fun e => entry e.1 e.2).flatMap (split isBoundary)).filter
      (fun line => !touches encoded line) = [] := eq_nil_of_length_eq_zero (by omega)
  have hnone : ∀ e ∈ encoded, ∀ line ∈ split isBoundary (entry e.1 e.2),
      touches encoded line = true := by
    intro e he line hline
    rcases rewritten_or_missing hkeys (split isBoundary text) he with
      ⟨old, hold, htouch, heq⟩ | hmissing
    · rw [flatMap_eq_nil_iff] at hrewritten
      have h := hrewritten old (mem_filter.2 ⟨hold, htouch⟩)
      rw [heq, filter_eq_nil_iff] at h
      simpa using h line hline
    · rw [filter_eq_nil_iff] at happended
      have h := happended line (mem_flatMap.2 ⟨_, mem_map_of_mem hmissing, hline⟩)
      simpa using h
  intro e he c hc
  by_contra hboundary
  have hboundary : isBoundary c = true := by simpa using hboundary
  obtain ⟨line, hline, hassign⟩ := hvalues e he
  obtain ⟨before, after, heq⟩ := append_of_mem hc
  obtain rfl := value_boundary_last hline hassign heq hboundary
  have hbefore : ∀ x ∈ before, isBoundary x = false := by
    intro x hx
    by_contra hxb
    obtain ⟨front, back, rfl⟩ := append_of_mem hx
    rw [append_assoc, cons_append] at heq
    have hnil := value_boundary_last hline hassign heq (by simpa using hxb)
    exact absurd hnil (by simp)
  have hnewline := newline_mem_split_entry (hok e he) hbefore hboundary
  rw [← heq] at hnewline
  have htouch := hnone e he _ hnewline
  rw [touches, assignment_newline] at htouch
  cases htouch

end Count

/-! ### The main result -/

section Main

variable {D : Type} [DecidableEq D] {sha256 : Text → D} {settings : List Setting}
  {changes : List (Text × Value)} {encoded : List (Text × Text)} {text : Text}

/-- An edit that returns and was not void has read the file as it is, and has written it. -/
theorem written_of_ok (hsha : Function.Injective sha256)
    (hencode : encode settings changes = .ok encoded)
    (hchanged : changedKeys encoded (readLines text) ≠ []) {report : Report} {text' : Text}
    (hcall : setProfileConfig sha256 settings changes true text = .ok (report, text')) :
    0x0D ∉ text ∧ Encodable text' ∧ text' = (output encoded (readLines text)).flatten := by
  rw [setProfileConfig_eq hencode, if_neg hchanged] at hcall
  split at hcall
  · cases hcall
  · rename_i hdigest
    split at hcall
    · cases hcall
    · rename_i hencodable
      obtain ⟨-, rfl⟩ := Prod.mk.inj (Except.ok.inj hcall)
      refine ⟨?_, not_not.1 hencodable, rfl⟩
      have hflat : (readLines text).flatten = universal text := by
        rw [readLines, splitlines_eq (return_notMem_universal text), flatten_split]
      have hsame := hsha (not_not.1 hdigest)
      rw [hflat] at hsame
      exact universal_eq_iff.1 hsame.symm

theorem return_notMem_value {lines : Text} (h : current (readLines lines) key = some value) :
    0x0D ∉ value := by
  obtain ⟨line, hline, hassign⟩ := mem_of_current h
  obtain ⟨before, after, rfl⟩ := value_of_assignment hassign
  have hreturn := return_notMem_universal lines
  rw [readLines, splitlines_eq hreturn] at hline
  intro hmem
  refine hreturn ?_
  rw [← flatten_split isBoundary (universal lines)]
  exact mem_flatten.2 ⟨_, hline, mem_append_left _ (mem_append_right _ hmem)⟩

theorem output_terminated {lines : List Text} (h : missing encoded lines ≠ []) :
    Terminated isBoundary (output encoded lines).flatten := by
  obtain ⟨front, e, heq⟩ : ∃ front e, missing encoded lines = front ++ [e] :=
    ⟨_, _, (dropLast_append_getLast h).symm⟩
  refine ⟨(lines.map (rewrite encoded) ++ front.map fun e => entry e.1 e.2).flatten ++
    (e.1 ++ 0x3D :: e.2), 0x0A, ?_, rfl⟩
  simp [output, heq, entry]

theorem end_of_others (hreturn : 0x0D ∉ text)
    (hreturn' : 0x0D ∉ (output encoded (readLines text)).flatten)
    (hothers : others encoded (output encoded (readLines text)).flatten = others encoded text) :
    EndOk encoded (readLines text) := by
  by_cases hmissing : missing encoded (readLines text) = []
  · exact .inl hmissing
  · refine .inr fun line hline => ?_
    cases htouch : touches encoded line with
    | true => exact .inl rfl
    | false =>
      right
      have hmem : line ∈ others encoded text := by
        rw [others, splitlines_eq_readLines hreturn]
        exact mem_filter.2 ⟨mem_of_getLast? hline, by simp [htouch]⟩
      rw [← hothers, others, splitlines_eq hreturn'] at hmem
      exact ((output_terminated hmissing).whole (mem_of_mem_filter hmem)).terminated

/-- **An edit changes exactly what was asked exactly when the file is editable.**  The keys are
those of the whitelist, and the values have passed their checks. -/
theorem exact_iff (hsha : Function.Injective sha256) {profile : ProfileId}
    (hprofile : whitelist profile = some settings) (hdict : (changes.map (·.1)).Nodup)
    (hencode : encode settings changes = .ok encoded) (htext : Encodable text) :
    Exact sha256 settings changes encoded text ↔ Editable encoded text := by
  obtain ⟨hmap, hsettings⟩ := encode_ok hencode
  have hkeys : (encoded.map (·.1)).Nodup := hmap ▸ hdict
  have hok : ∀ e ∈ encoded, KeyOk e.1 := by
    intro e he
    obtain ⟨setting, hmem, heq⟩ := hsettings e he
    exact heq ▸ keyOk_of_whitelist hprofile hmem
  constructor
  · rintro ⟨report, text', hcall, hvalues, -, hothers, -⟩
    by_cases hchanged : changedKeys encoded (readLines text) = []
    · exact .inl hchanged
    obtain ⟨hreturn, hencodable, rfl⟩ := written_of_ok hsha hencode hchanged hcall
    have hread := readLines_eq hreturn
    have hreturn' : 0x0D ∉ (output encoded (readLines text)).flatten :=
      return_notMem_output hok (by rwa [hread, flatten_split]) fun e he =>
        return_notMem_value (hvalues e he)
    have hend := end_of_others hreturn hreturn' hothers
    refine .inr ⟨hreturn, fun e he c hc => ⟨?_, ?_⟩, hend⟩
    · rw [others, others, splitlines_eq hreturn', splitlines_eq hreturn] at hothers
      rw [hread] at hend hothers hvalues
      refine values_clean hok hkeys hend (fun e he => ?_) hothers e he c hc
      have hcurrent := mem_of_current (hvalues e he)
      rwa [readLines_eq (hread ▸ hreturn')] at hcurrent
    · refine hencodable c (mem_flatten.2 ⟨_, entry_mem_output hkeys _ he, ?_⟩)
      exact mem_append_left _ (mem_append_right _ (.tail _ hc))
  · rintro (hchanged | ⟨hreturn, hclean, hend⟩)
    · exact exact_of_settled hencode hchanged
    · exact exact_of_clean hencode hok hkeys htext hreturn hclean hend

end Main

/-! ### Samples -/

def sampleChanges : List (Text × Value) := [(of "motd", .str (of "hi"))]

def sampleEncoded : List (Text × Text) := [(of "motd", of "hi")]

/-- A file with a comment and two settings. -/
def sampleFile : Text := of "# server\nmaxplayers=8\nmotd=a\n"

theorem exact_iff_sample :
    Exact id terrariaSettings sampleChanges sampleEncoded sampleFile := by
  have hprofile : whitelist .terrariaVanilla = some terrariaSettings := rfl
  have hencode : encode terrariaSettings sampleChanges = .ok sampleEncoded := by decide +kernel
  refine (exact_iff Function.injective_id hprofile (by decide +kernel) hencode
    (by decide +kernel)).2 (.inr ⟨by decide +kernel, by decide +kernel, .inl ?_⟩)
  decide +kernel

/-- **A carriage return is refused, and a last line without an end is spoilt.**  The digest is of
the translated text in the first case; in the second the key is appended to the last line. -/
theorem line_ends_break_edits :
    setProfileConfig id terrariaSettings sampleChanges true (of "motd=a\x0d\n") =
      .error (.validation "profile config changed during edit") ∧
    setProfileConfig id terrariaSettings sampleChanges true (of "maxplayers=8") =
      .ok (⟨[of "motd"], [of "motd"]⟩, of "maxplayers=8motd=hi\n") ∧
    ¬ Exact id terrariaSettings sampleChanges sampleEncoded (of "motd=a\x0d\n") ∧
    ¬ Exact id terrariaSettings sampleChanges sampleEncoded (of "maxplayers=8") := by
  have hreturn : setProfileConfig id terrariaSettings sampleChanges true
      (of "motd=a\x0d\n") = .error (.validation "profile config changed during edit") := by
    decide +kernel
  have hopen : setProfileConfig id terrariaSettings sampleChanges true (of "maxplayers=8") =
      .ok (⟨[of "motd"], [of "motd"]⟩, of "maxplayers=8motd=hi\n") := by
    decide +kernel
  refine ⟨hreturn, hopen, ?_, ?_⟩
  · rintro ⟨report, text', hcall, -⟩
    cases hcall
  · rintro ⟨report, text', hcall, hvalues, -⟩
    obtain ⟨-, rfl⟩ := Prod.mk.inj (Except.ok.inj (hopen.symm.trans hcall))
    exact absurd (hvalues _ (.head _)) (by decide +kernel)

end Horizon.Config
