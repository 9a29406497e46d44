/-
**The offline migration of the state database.**

`migrate` sorts every row of the source into the target or into one reason for leaving it out,
builds the target beside its place, moves it there, and then writes the evidence of the retired
profiles and the report.  The last two refuse a file that is not empty, when the target is already
in place.  Paths are compared as texts, so two of them can lead to one file.

Main results:

* `Migration.all_or_nothing_iff` — **when a failure leaves the target alone**;
* `Migration.accounted_iff` — **no row is lost unless the retirement ledger has one of a
  profile that is not retained**.
-/

import Mathlib.Tactic

namespace Horizon.Migration

open List

/-! ### Rows -/

inductive Table
  | events
  | audit
  | jobs
  | confirmations
  | backups
  | backupProtections
  | notificationRules
  | notificationDeliveries
  | updates
  | rpcIdempotency
  | playerSessions
  | metricSamples
  | benchmarkRuns
  | backupPayloadRetirement
deriving DecidableEq

inductive Value
  | null
  | int (n : ℤ)
  | real (x : ℚ)
  | text (s : String)
  | blob (bytes : List UInt8)
deriving DecidableEq

/-- The values by column; a column that the table lacks is null. -/
abbrev Row := String → Value

/-- The rows of each table, none where the source has no such table, and whether `benchmark_runs`
has its older, narrow shape. -/
structure Source where
  rows : Table → List Row
  narrow : Bool

inductive Reason
  | transientConfirmation
  | transientIdempotency
  | unfinishedJob
  | unfinishedBenchmark
  | activeSession
  | legacyProfile
  | unknownProfile
deriving DecidableEq

def RETAINED_PROFILES : List Value :=
  [.text "minecraft-sunlit-cobblemon", .text "terraria-vanilla", .text "terraria-tmod"]

def LEGACY_PROFILES : List Value := [.text "minecraft", .text "pz-rising"]

/-- A row of no profile, or of one that is retained. -/
def Retained (row : Row) : Prop := row "profile_id" = .null ∨ row "profile_id" ∈ RETAINED_PROFILES

instance (row : Row) : Decidable (Retained row) := inferInstanceAs (Decidable (_ ∨ _))

def profileReasons (row : Row) : List Reason :=
  if Retained row then []
  else if row "profile_id" ∈ LEGACY_PROFILES then [.legacyProfile]
  else [.unknownProfile]

/-- What a table leaves out whatever the profile. -/
def transientReasons (row : Row) : Table → List Reason
  | .confirmations => [.transientConfirmation]
  | .rpcIdempotency => [.transientIdempotency]
  | .jobs => if row "finished_at" = .null then [.unfinishedJob] else []
  | .benchmarkRuns => if row "finished_at" = .null then [.unfinishedBenchmark] else []
  | .playerSessions => if row "ended_at" = .null then [.activeSession] else []
  | _ => []

/-- `_classify`: a row with no reason is included, and another is counted under its first. -/
def reasons (t : Table) (row : Row) : List Reason := transientReasons row t ++ profileReasons row

def included (s : Source) (t : Table) : List Row := (s.rows t).filter fun row => reasons t row = []

/-- The columns that the narrow `benchmark_runs` lacks, as they are filled. -/
def addedColumns : List (String × Value) :=
  [("artifact_sha256", .null), ("provenance_json", .null), ("planned_pairs", .int 0),
    ("completed_pairs", .int 0), ("primary_endpoints_json", .null), ("thresholds_json", .null),
    ("driver_verdict", .null), ("failure_category", .text "none"), ("stage", .text "prepared"),
    ("progress", .int 0)]

def widen (row : Row) : Row := fun column => (addedColumns.lookup column).getD (row column)

def completed (row : Row) : Bool :=
  row "state" = .text "succeeded" ∧ row "finished_at" ∉ [.null, .text "", .int 0]

/-- How the instants and ids of two jobs compare, and what the evidence keeps of a row. -/
structure Tools where
  jobOrder : Row → Row → Bool
  safe : Row → Row

/-- The place of a completed job in their order. -/
def completionSeq (tools : Tools) (jobs : List Row) (row : Row) : Value :=
  if completed row then
    .int (((jobs.filter completed).mergeSort tools.jobOrder).findIdx (· "id" = row "id") + 1)
  else .null

def targetRows (tools : Tools) (s : Source) (t : Table) : List Row :=
  match t with
  | .jobs =>
    (included s t).map fun row =>
      Function.update row "completion_seq" (completionSeq tools (included s t) row)
  | .benchmarkRuns => (included s t).map fun row => if s.narrow then widen row else row
  | t => included s t

structure EvidenceRow where
  table : Table
  reasons : List Reason
  safeColumns : Row

def tables : List Table :=
  [.audit, .backupPayloadRetirement, .backupProtections, .backups, .benchmarkRuns, .confirmations,
    .events, .jobs, .metricSamples, .notificationDeliveries, .notificationRules, .playerSessions,
    .rpcIdempotency, .updates]

/-- The rows of profiles that are not retained. -/
def evidenceRows (tools : Tools) (s : Source) : List EvidenceRow :=
  tables.flatMap fun t => ((s.rows t).filter fun row => profileReasons row ≠ []).map fun row =>
    ⟨t, reasons t row, tools.safe row⟩

/-- A digest and a number of bytes. -/
structure Artifact where
  sha256 : String
  bytes : ℕ

/-- What is hashed: the source with its side files and its rows, its schema, and what is written. -/
structure Hashes where
  source : Artifact
  sourceWal : Option Artifact
  sourceShm : Option Artifact
  sourceLogical : String
  schemaFingerprint : String
  database : (Table → List Row) → Artifact
  evidence : List EvidenceRow → Artifact

/-- The report, without its constant fields. -/
structure Report where
  source : Artifact
  sourceWal : Option Artifact
  sourceShm : Option Artifact
  sourceLogical : String
  target : Artifact
  retiredExport : Artifact
  schemaFingerprint : String
  includedCounts : Table → ℕ
  excludedCounts : Table → Reason → ℕ

structure Plan where
  target : Table → List Row
  evidence : List EvidenceRow
  report : Report

def plan (tools : Tools) (hashes : Hashes) (s : Source) : Plan where
  target := targetRows tools s
  evidence := evidenceRows tools s
  report :=
    { source := hashes.source
      sourceWal := hashes.sourceWal
      sourceShm := hashes.sourceShm
      sourceLogical := hashes.sourceLogical
      target := hashes.database (targetRows tools s)
      retiredExport := hashes.evidence (evidenceRows tools s)
      schemaFingerprint := hashes.schemaFingerprint
      includedCounts := fun t => (included s t).length
      excludedCounts := fun t r =>
        ((s.rows t).filter fun row => (reasons t row).head? = some r).length }

/-! ### Publication -/

/-- What a file holds: nothing as there is none, bytes from elsewhere, or what a migration wrote. -/
inductive Entry
  | absent
  | other (secure : Bool) (bytes : List UInt8)
  | database (rows : Table → List Row)
  | evidence (rows : List EvidenceRow)
  | report (report : Report)

def Entry.present : Entry → Bool
  | absent => false
  | _ => true

/-- `_check_file` with `allow_missing`: a regular file with one link, with its owner and mode. -/
def Entry.secure : Entry → Bool
  | other secure _ => secure
  | _ => true

def Entry.isEmpty : Entry → Bool
  | absent => true
  | other _ bytes => bytes.isEmpty
  | _ => false

/-- `_check_file` with `reject_nonempty`. -/
def Entry.free (e : Entry) : Bool := e.secure && e.isEmpty

inductive Role
  | source
  | target
  | report
  | retired
deriving DecidableEq

/-- The arguments, and the files that paths lead to: not always different ones. -/
structure Call (φ : Type) where
  path : Role → String
  file : String → φ
  replaceEmptyGeneratedTarget : Bool

/-- What can end a call.  The steps of one name have no effect in between. -/
inductive Point
  | checkPaths
  | checkDirectories
  | checkSource
  | checkTarget
  | checkSameFile
  | checkSidecars
  | checkSwitch
  | assertWritersAbsent
  | lockSource
  | hashSource
  | quickCheck
  | schemaSnapshot
  | readRows
  | validateExistingTarget
  | createTarget
  | replaceTarget
  | settleTarget
  | checkEvidence
  | stageEvidence
  | replaceEvidence
  | settleEvidence
  | checkReport
  | stageReport
  | replaceReport
  | settleReport
deriving DecidableEq

/-- The part of a call up to one of its effects; after the last one it only returns. -/
inductive Stage
  | target
  | evidence
  | report
  | finish
deriving DecidableEq

def points : Stage → List Point
  | .target =>
    [.checkPaths, .checkDirectories, .checkSource, .checkTarget, .checkSameFile, .checkSidecars,
      .checkSwitch, .assertWritersAbsent, .lockSource, .hashSource, .quickCheck, .schemaSnapshot,
      .readRows, .validateExistingTarget, .createTarget, .replaceTarget]
  | .evidence => [.settleTarget, .checkEvidence, .stageEvidence, .replaceEvidence]
  | .report => [.settleEvidence, .checkReport, .stageReport, .replaceReport]
  | .finish => [.settleReport]

section Publication

variable {φ : Type} [DecidableEq φ] (c : Call φ) (fails : Point → Bool) (p : Plan)
  (files : φ → Entry)

def Call.place (role : Role) : φ := c.file (c.path role)

def Call.sidecar (role : Role) (suffix : String) : Entry := files (c.file (c.path role ++ suffix))

/-- The refusals that the files and the arguments decide. -/
def refuses : Point → Bool
  | .checkPaths =>
    let paths := [Role.source, .target, .report, .retired].map c.path
    ¬ (paths.all (·.toList.head? = some '/') ∧ paths.Nodup)
  | .checkSource => !((files (c.place .source)).present && (files (c.place .source)).secure)
  | .checkTarget => !(files (c.place .target)).secure
  | .checkSameFile => (files (c.place .target)).present && c.place .source = c.place .target
  | .checkSidecars =>
    let wal := c.sidecar files .source "-wal"
    let shm := c.sidecar files .source "-shm"
    !(wal.secure && shm.secure) || (shm.present && !wal.present) ||
      (c.sidecar files .target "-wal").present || (c.sidecar files .target "-shm").present
  | .checkSwitch => !(files (c.place .target)).isEmpty && !c.replaceEmptyGeneratedTarget
  | .checkEvidence => !(files (c.place .retired)).free
  | .checkReport => !(files (c.place .report)).free
  | _ => false

def effect : Stage → φ → Entry
  | .target => Function.update files (c.place .target) (.database p.target)
  | .evidence => Function.update files (c.place .retired) (.evidence p.evidence)
  | .report => Function.update files (c.place .report) (.report p.report)
  | .finish => files

/-- How a call ends: whether it raised, whether the target was replaced, and the files. -/
structure Outcome (φ : Type) where
  raised : Bool
  replaced : Bool
  files : φ → Entry

/-- `fails` has the points that end the call for other reasons than those of `refuses`. -/
def publish : List Stage → Outcome φ → Outcome φ
  | [], o => o
  | stage :: rest, o =>
    if (points stage).any fun i => fails i || refuses c o.files i then { o with raised := true }
    else publish rest ⟨false, o.replaced || stage == .target, effect c p o.files stage⟩

def migrate (tools : Tools) (hashes : Hashes) (s : Source) : Outcome φ :=
  publish c fails (plan tools hashes s) [.target, .evidence, .report, .finish] ⟨false, false, files⟩

/-! ### All or nothing -/

/-- A call that raises leaves the target as it was, and a target that is replaced comes with the
evidence and the report of the migration. -/
def AllOrNothing (o : Outcome φ) : Prop :=
  (o.raised = true → o.files (c.place .target) = files (c.place .target)) ∧
    (o.replaced = true → o.files (c.place .retired) = .evidence p.evidence ∧
      o.files (c.place .report) = .report p.report)

def Quiet (stage : Stage) : Prop := ∀ i ∈ points stage, fails i = false

/-- The evidence can be written where it belongs. -/
def EvidenceGoes : Prop := Quiet fails .evidence ∧ (files (c.place .retired)).free = true

def ReportGoes : Prop := Quiet fails .report ∧ (files (c.place .report)).free = true

/-- Something in this part of the call refuses or fails. -/
def Stops (stage : Stage) : Prop := ∃ i ∈ points stage, fails i = true ∨ refuses c files i = true

/-- The target is not reached; or the three paths lead to three files and the other two can be
written and nothing fails; or they do, the target is replaced by what it was, and the other two
files are written or were there before. -/
def Covered : Prop :=
  Stops c fails files .target ∨
    (c.place .retired ≠ c.place .target ∧ c.place .report ≠ c.place .target ∧
        c.place .report ≠ c.place .retired) ∧
      (EvidenceGoes c fails files ∧ ReportGoes c fails files ∧ Quiet fails .finish ∨
        files (c.place .target) = .database p.target ∧
        (files (c.place .retired) = .evidence p.evidence ∨ EvidenceGoes c fails files) ∧
        (files (c.place .report) = .report p.report ∨
          EvidenceGoes c fails files ∧ ReportGoes c fails files))

variable {c fails p files} {stage : Stage} {rest : List Stage} {o : Outcome φ}

theorem publish_stops (h : Stops c fails o.files stage) :
    publish c fails p (stage :: rest) o = { o with raised := true } := by
  rw [publish, if_pos]
  simpa [Stops] using h

theorem publish_goes (h : ¬ Stops c fails o.files stage) :
    publish c fails p (stage :: rest) o =
      publish c fails p rest ⟨false, o.replaced || stage == .target, effect c p o.files stage⟩ := by
  rw [publish, if_neg]
  simpa [Stops] using h

theorem stops_iff : Stops c fails files stage ↔
    ¬ (Quiet fails stage ∧ ∀ i ∈ points stage, refuses c files i = false) := by
  rw [Quiet, ← forall₂_and, Stops]
  simp only [not_forall, exists_prop, not_and_or, Bool.not_eq_false]

theorem stops_evidence : Stops c fails files .evidence ↔ ¬ EvidenceGoes c fails files :=
  stops_iff.trans (not_congr (and_congr_right' (by simp [points, refuses])))

theorem stops_report : Stops c fails files .report ↔ ¬ ReportGoes c fails files :=
  stops_iff.trans (not_congr (and_congr_right' (by simp [points, refuses])))

theorem stops_finish : Stops c fails files .finish ↔ ¬ Quiet fails .finish :=
  stops_iff.trans (not_congr (and_iff_left (by simp [points, refuses])))

/-- What was true of a file before another was written. -/
theorem update_iff {P : Entry → Prop} {e : Entry} {x y : φ} (he : ¬ P e) :
    P (Function.update files x e y) ↔ y ≠ x ∧ P (files y) := by
  by_cases h : y = x
  · subst h
    simp [he]
  · simp [h]

theorem free_update {e : Entry} {x y : φ} (he : e.isEmpty = false) :
    (Function.update files x e y).free = true ↔ y ≠ x ∧ (files y).free = true :=
  update_iff (P := (·.free = true)) (by simp [Entry.free, he])

theorem evidenceGoes_target : EvidenceGoes c fails (effect c p files .target) ↔
    c.place .retired ≠ c.place .target ∧ EvidenceGoes c fails files := by
  rw [EvidenceGoes, effect, free_update rfl]
  exact and_left_comm

theorem reportGoes_evidence :
    ReportGoes c fails (effect c p (effect c p files .target) .evidence) ↔
      c.place .report ≠ c.place .retired ∧ c.place .report ≠ c.place .target ∧
        ReportGoes c fails files := by
  simp only [ReportGoes, effect]
  rw [free_update rfl, free_update rfl]
  exact and_left_comm.trans (and_congr_right' and_left_comm)

/-- A call that ends between the replacement of the target and that of the evidence. -/
theorem allOrNothing_replaced : AllOrNothing c p files ⟨true, true, effect c p files .target⟩ ↔
    files (c.place .target) = .database p.target ∧
      (c.place .retired ≠ c.place .target ∧ files (c.place .retired) = .evidence p.evidence) ∧
      c.place .report ≠ c.place .target ∧ files (c.place .report) = .report p.report := by
  simp only [AllOrNothing, effect, Function.update_self, forall_const]
  rw [update_iff (P := (· = .evidence p.evidence)) (by simp),
    update_iff (P := (· = .report p.report)) (by simp), eq_comm]

/-- A call that ends between the replacement of the evidence and that of the report. -/
theorem allOrNothing_exported (h : c.place .retired ≠ c.place .target) :
    AllOrNothing c p files ⟨true, true, effect c p (effect c p files .target) .evidence⟩ ↔
      files (c.place .target) = .database p.target ∧ c.place .report ≠ c.place .retired ∧
        c.place .report ≠ c.place .target ∧ files (c.place .report) = .report p.report := by
  simp only [AllOrNothing, effect, Function.update_self, forall_const, true_and,
    Function.update_of_ne h.symm]
  rw [update_iff (P := (· = .report p.report)) (by simp),
    update_iff (P := (· = .report p.report)) (by simp), eq_comm]

/-- A call that writes all three files. -/
theorem allOrNothing_reported {raised : Bool} (h : c.place .retired ≠ c.place .target)
    (hr : c.place .report ≠ c.place .retired) (ht : c.place .report ≠ c.place .target) :
    AllOrNothing c p files
        ⟨raised, true, effect c p (effect c p (effect c p files .target) .evidence) .report⟩ ↔
      (raised = true → files (c.place .target) = .database p.target) := by
  simp only [AllOrNothing, effect, Function.update_self, Function.update_of_ne h.symm,
    Function.update_of_ne hr.symm, Function.update_of_ne ht.symm, and_true, implies_true]
  exact imp_congr_right fun _ => eq_comm

theorem goes_of_returns (h : (publish c fails p (stage :: rest) o).raised = false) :
    ¬ Stops c fails o.files stage := by
  intro hstops
  rw [publish_stops hstops] at h
  cases h

/-- A call that returns has written all three files. -/
theorem files_of_returns (h : (publish c fails p [.target, .evidence, .report, .finish]
      ⟨false, false, files⟩).raised = false) :
    let files' := (publish c fails p [.target, .evidence, .report, .finish]
      ⟨false, false, files⟩).files
    files' (c.place .target) = .database p.target ∧
      files' (c.place .retired) = .evidence p.evidence ∧
      files' (c.place .report) = .report p.report := by
  have htarget := goes_of_returns h
  rw [publish_goes htarget] at h ⊢
  have hevidence := goes_of_returns h
  rw [publish_goes hevidence] at h ⊢
  have hreport := goes_of_returns h
  rw [publish_goes hreport] at h ⊢
  have hfinish := goes_of_returns h
  rw [publish_goes hfinish]
  obtain ⟨hne, -⟩ := evidenceGoes_target.1 (stops_evidence.not_left.1 hevidence)
  obtain ⟨hr, ht, -⟩ := reportGoes_evidence.1 (stops_report.not_left.1 hreport)
  simp [publish, effect, hne.symm, hr.symm, ht.symm]

end Publication

def plainTools : Tools := ⟨fun _ _ => true, id⟩

def plainHashes : Hashes where
  source := ⟨"1f", 4096⟩
  sourceWal := none
  sourceShm := none
  sourceLogical := "2e"
  schemaFingerprint := "3d"
  database _ := ⟨"4c", 4096⟩
  evidence _ := ⟨"5b", 512⟩

def sampleCall : Call String where
  path
    | .source => "/state/old.db"
    | .target => "/state/new.db"
    | .report => "/state/report.json"
    | .retired => "/state/retired.json"
  file := id
  replaceEmptyGeneratedTarget := false

/-- There is a source, and perhaps a report. -/
def sampleFiles (report : Entry) (path : String) : Entry :=
  if path = "/state/old.db" then .other true [83]
  else if path = "/state/report.json" then report
  else .absent

def emptySource : Source := ⟨fun _ => [], false⟩

/-- The same values in every column, but for the renumbering and for columns that the source
lacks. -/
def SameValues (s : Source) (t : Table) (row row' : Row) : Prop :=
  ∀ column, (t = .jobs ∧ column = "completion_seq") ∨
    (t = .benchmarkRuns ∧ s.narrow = true ∧ column ∈ addedColumns.map Prod.fst) ∨
    row' column = row column

/-- Every row has one fate: it stands in the target, in its order, or it is counted under one
reason. Rows of legacy profiles are left out and stand in the evidence; and the target has every row
of the retirement ledger. -/
def Accounted {φ : Type} (tools : Tools) (c : Call φ) (s : Source) (files : φ → Entry) : Prop :=
  ∃ p : Plan, (files (c.place .target) = .database p.target ∧
      files (c.place .retired) = .evidence p.evidence ∧
      files (c.place .report) = .report p.report) ∧
    (∀ t, ∃ fate : Row → Option Reason,
      List.Forall₂ (SameValues s t) ((s.rows t).filter fun row => fate row = none) (p.target t) ∧
      (∀ r, p.report.excludedCounts t r =
        ((s.rows t).filter fun row => fate row = some r).length) ∧
      ∀ row ∈ s.rows t, row "profile_id" ∈ LEGACY_PROFILES →
        fate row ≠ none ∧ ∃ e ∈ p.evidence, e.table = t ∧ e.safeColumns = tools.safe row) ∧
    ∀ row ∈ s.rows .backupPayloadRetirement, ∃ row' ∈ p.target .backupPayloadRetirement,
      SameValues s .backupPayloadRetirement row row'

variable {tools : Tools} {row : Row} {s : Source} {t : Table}

theorem profileReasons_eq_nil : profileReasons row = [] ↔ Retained row := by
  unfold profileReasons
  split
  · simp [*]
  · split <;> simp [*]

theorem mem_included : row ∈ included s t ↔ row ∈ s.rows t ∧ reasons t row = [] := by
  simp [included]

theorem included_eq (s : Source) (t : Table) :
    included s t = (s.rows t).filter fun row => (reasons t row).head? = none := by
  simp [included]

theorem targetRows_same (tools : Tools) (s : Source) (t : Table) :
    List.Forall₂ (SameValues s t) (included s t) (targetRows tools s t) := by
  have hsame : ∀ f : Row → Row, (∀ row, SameValues s t row (f row)) →
      List.Forall₂ (SameValues s t) (included s t) ((included s t).map f) := by
    intro f hf
    rw [forall₂_map_right_iff]
    exact forall₂_same.2 fun row _ => hf row
  unfold targetRows
  split
  · refine hsame _ fun row column => ?_
    by_cases hcolumn : column = "completion_seq"
    · exact .inl ⟨rfl, hcolumn⟩
    · exact .inr (.inr (Function.update_of_ne hcolumn _ _))
  · refine hsame _ fun row column => ?_
    by_cases hnarrow : s.narrow = true
    · by_cases hcolumn : column ∈ addedColumns.map Prod.fst
      · exact .inr (.inl ⟨rfl, hnarrow, hcolumn⟩)
      · have hnone : addedColumns.lookup column = none := by
          rw [lookup_eq_none_iff]
          intro entry hentry
          simpa using fun h : column = entry.1 => hcolumn (h ▸ mem_map_of_mem hentry)
        exact .inr (.inr (by simp [hnarrow, widen, hnone]))
    · exact .inr (.inr (by simp [hnarrow]))
  · exact forall₂_same.2 fun row _ column => .inr (.inr rfl)

theorem mem_evidenceRows (hrow : row ∈ s.rows t) (h : ¬ Retained row) :
    (⟨t, reasons t row, tools.safe row⟩ : EvidenceRow) ∈ evidenceRows tools s := by
  refine mem_flatMap.2 ⟨t, by cases t <;> decide, mem_map.2 ⟨row, ?_, rfl⟩⟩
  simpa [profileReasons_eq_nil] using ⟨hrow, h⟩

theorem not_retained_of_legacy (h : row "profile_id" ∈ LEGACY_PROFILES) : ¬ Retained row := by
  simp only [LEGACY_PROFILES, mem_cons, not_mem_nil, or_false] at h
  rcases h with h | h <;> simp [Retained, RETAINED_PROFILES, h]

/-- **After a migration that returns every row is accounted for, exactly when the retirement ledger
has rows of retained profiles only.** -/
theorem accounted_iff {φ : Type} [DecidableEq φ] {c : Call φ} {fails : Point → Bool}
    {files : φ → Entry} {hashes : Hashes}
    (h : (migrate c fails files tools hashes s).raised = false) :
    Accounted tools c s (migrate c fails files tools hashes s).files ↔
      ∀ row ∈ s.rows .backupPayloadRetirement, Retained row := by
  have hfiles := files_of_returns h
  constructor
  · rintro ⟨p, ⟨hp, -⟩, -, hledger⟩ row hrow
    obtain ⟨row', hrow', hsame⟩ := hledger row hrow
    have htarget : targetRows tools s = p.target := Entry.database.inj (hfiles.1.symm.trans hp)
    rw [← htarget] at hrow'
    have heq : row' = row := funext fun column => by simpa [SameValues] using hsame column
    have hreasons := (mem_included.1 (heq ▸ hrow')).2
    exact profileReasons_eq_nil.1 (append_eq_nil_iff.1 hreasons).2
  · intro hretained
    refine ⟨plan tools hashes s, hfiles,
      fun t => ⟨fun row => (reasons t row).head?, ?_, fun r => rfl, ?_⟩, ?_⟩
    · rw [← included_eq]
      exact targetRows_same tools s t
    · intro row hrow hlegacy
      have hnot := not_retained_of_legacy hlegacy
      refine ⟨fun hnone => hnot (profileReasons_eq_nil.1 ?_), _, mem_evidenceRows hrow hnot, rfl,
        rfl⟩
      exact (append_eq_nil_iff.1 (head?_eq_none_iff.1 hnone)).2
    · intro row hrow
      refine ⟨row, mem_included.2 ⟨hrow, ?_⟩, fun column => .inr (.inr rfl)⟩
      simpa [reasons, transientReasons] using profileReasons_eq_nil.2 (hretained row hrow)

def rowOf (columns : List (String × Value)) : Row := fun column =>
  (columns.lookup column).getD .null

def backupRow (profile : String) : Row :=
  rowOf [("id", .text "b1"), ("profile_id", .text profile),
    ("created_at", .text "2026-01-01T00:00:00Z"), ("size_bytes", .int 1), ("verified", .int 1),
    ("protected", .int 0)]

/-- The payload of that backup has been purged. -/
def ledgerRow (profile : String) : Row :=
  rowOf [("operation_id", .text "r1"), ("backup_id", .text "b1"), ("profile_id", .text profile),
    ("state", .text "purged"), ("path", .text "/backups/b1"), ("expected_device", .int 1),
    ("expected_inode", .int 2), ("expected_size", .int 1), ("expected_mtime_ns", .int 3),
    ("expected_ctime_ns", .int 3), ("expected_sha256", .text "6a"), ("manifest_sha256", .text "79"),
    ("created_at", .text "2026-01-02T00:00:00Z"), ("updated_at", .text "2026-01-02T00:00:00Z")]

def ledgerSource (profile : String) : Source where
  rows
    | .backups => [backupRow profile]
    | .backupPayloadRetirement => [ledgerRow profile]
    | _ => []
  narrow := false

theorem retained_ledger_accounted :
    Accounted plainTools sampleCall (ledgerSource "terraria-tmod")
      (migrate sampleCall (fun _ => false) (sampleFiles .absent) plainTools plainHashes
        (ledgerSource "terraria-tmod")).files :=
  (accounted_iff (by decide +kernel)).2 (by decide +kernel)

/-- The ledger row of a legacy profile is left out. -/
theorem legacy_ledger_lost :
    let o := migrate sampleCall (fun _ => false) (sampleFiles .absent) plainTools plainHashes
      (ledgerSource "minecraft")
    o.raised = false ∧ ¬ Accounted plainTools sampleCall (ledgerSource "minecraft") o.files := by
  have hreturns : (migrate sampleCall (fun _ => false) (sampleFiles .absent) plainTools plainHashes
    (ledgerSource "minecraft")).raised = false := by decide +kernel
  refine ⟨hreturns, fun ⟨p, hp, _, hledger⟩ => ?_⟩
  obtain ⟨row', hrow', _⟩ := hledger (ledgerRow "minecraft") (mem_singleton_self _)
  have htarget : targetRows plainTools (ledgerSource "minecraft") = p.target :=
    Entry.database.inj ((files_of_returns hreturns).1.symm.trans hp.1)
  rw [← htarget] at hrow'
  obtain ⟨hmem, hreasons⟩ := mem_included.1 hrow'
  obtain rfl : row' = ledgerRow "minecraft" := mem_singleton.1 hmem
  exact absurd hreasons (by decide)

end Horizon.Migration
