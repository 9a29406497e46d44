/-
**What is resumed after a restart.**

`_finish` numbers a job one above every number in the table, and `_resume_profile_id` reads the job
of the lifecycle with the highest number.  The jobs of a controller, with its restarts, are a run
that keeps a log of what `_finish` has committed.  The migration numbers the jobs again, by the
times at which they finished.

Main results:

* `Resume.resume_last_active` — **what is resumed is what the last commit left active**;
* `Resume.migration_resumes_iff` — when the migrated table resumes the same.
-/

import Mathlib.Data.List.MinMax
import Mathlib.Data.Prod.Lex
import Mathlib.Data.String.Basic
import Horizon.StateMigration
import Horizon.TransactionFaults

namespace Horizon.Resume

open Option hiding filter_filter mem_map
open List
open Migration (Row Value Source completed completionSeq Retained targetRows included Tools)
open Sqlite (Table)

/-! ### The query -/

def settled (row : Row) : Bool :=
  row "operation" ∈ [.text "start", .text "switch", .text "stop", .text "force_stop"] ∧
    row "state" = .text "succeeded"

def candidate (row : Row) : Bool := settled row && row "profile_id" ≠ .null

/-- A number as `ORDER BY` sees it: `NULL` is below every other. -/
def rank (row : Row) : List ℤ :=
  match row "completion_seq" with
  | .int n => [n]
  | _ => []

def active (row : Row) : Option ProfileId :=
  if row "operation" ∈ [.text "start", .text "switch"] then
    match row "profile_id" with
    | .text s => ProfileId.ofValue s
    | _ => none
  else none

def lastActive {β : Type} [Preorder β] [DecidableLT β] (key : Row → β) (jobs : List Row) :
    Option ProfileId :=
  ((jobs.filter candidate).argmax key).bind active

/-- `_resume_profile_id`. -/
def resumeProfileId (bootProfile : String) (jobs : List Row) : Option ProfileId :=
  if bootProfile ≠ "" ∧ bootProfile ∉ ["resume", "resume-last-active"] then
    ProfileId.ofValue bootProfile
  else if jobs.any fun row => settled row && row "completion_seq" = .null then none
  else lastActive rank jobs

theorem resumeProfileId_eq {jobs : List Row}
    (h : ∀ row ∈ jobs, settled row = true → row "completion_seq" ≠ .null) :
    resumeProfileId "resume" jobs = lastActive rank jobs := by
  rw [resumeProfileId, if_neg (by simp), if_neg]
  simpa using h

/-- The greatest element that satisfies `p` is the first one in any log in falling order. -/
theorem argmax_filter_eq_find {α β : Type} [Preorder β] [DecidableLT β] {f : α → β}
    {p : α → Bool} {rows log : List α} (hlog : log.Pairwise fun a b => f b < f a)
    (hmem : ∀ a, p a = true → (a ∈ rows ↔ a ∈ log)) : (rows.filter p).argmax f = log.find? p := by
  cases hm : log.find? p with
  | none =>
    refine argmax_eq_none.2 (filter_eq_nil_iff.2 fun a ha hp => ?_)
    exact find?_eq_none.1 hm a ((hmem a hp).1 ha) hp
  | some m =>
    obtain ⟨hp, before, after, rfl, hbefore⟩ := find?_eq_some_iff_append.1 hm
    have hfirst : m ∈ rows.filter p := mem_filter.2 ⟨(hmem m hp).2 (by simp), hp⟩
    cases hm' : (rows.filter p).argmax f with
    | none =>
      rw [argmax_eq_none.1 hm'] at hfirst
      cases hfirst
    | some m' =>
      obtain ⟨hrows, hp'⟩ := mem_filter.1 (argmax_mem hm')
      rcases mem_append.1 ((hmem m' hp').1 hrows) with h | h
      · exact absurd hp' (by simpa using hbefore m' h)
      · rcases mem_cons.1 h with rfl | h
        · rfl
        · have hafter := (pairwise_append.1 hlog).2.1
          exact absurd ((pairwise_cons.1 hafter).1 m' h) (not_lt_of_mem_argmax hfirst hm')

/-! ### The jobs of a controller -/

/-- The texts of ids and instants in a row, and how the migration reads them: with `str` and with
`datetime.fromisoformat`. -/
structure Texts where
  idText : ℕ → String
  stamp : ℤ → String
  str : Value → String
  instant : Value → ℕ
  idText_inj : Function.Injective idText
  stamp_ne : ∀ t, stamp t ≠ ""
  str_text : ∀ s, str (.text s) = s

def stateText : JobState → String
  | .accepted => "accepted"
  | .running => "running"
  | .succeeded => "succeeded"
  | .failed => "failed"
  | .deferred => "deferred"

/-- The columns of a job that are read here. -/
def columns (texts : Texts) (row : JobRow) : Row
  | "id" => .text (texts.idText row.id)
  | "profile_id" => (row.profileId.map fun p => Value.text p.value).getD .null
  | "operation" => .text row.operation
  | "state" => .text (stateText row.state)
  | "finished_at" => (row.finishedAt.map fun t => Value.text (texts.stamp t)).getD .null
  | "completion_seq" => (row.completionSeq.map fun n => Value.int n).getD .null
  | _ => .null

/-- The database and the rows that `_finish` has committed, as it left them, the last one first. -/
structure History (τ : Type) where
  db : Db τ
  finished : List JobRow

inductive HistoryEvent (τ : Type)
  | intent (job auditAt : Draw) (actor action : String) (profileId : ProfileId)
  | finish (jobId : ℕ) (now : ℤ) (auditAt : Draw) (actor action : String)
      (profileId : Option ProfileId) (ending : Ending)
  /-- `mark_incomplete` of `reconcile_startup`. -/
  | restart (now : ℤ)
  /-- A transaction that does not touch the jobs. -/
  | other (db : Db τ)

section Runs

variable {R τ α : Type} {codec : ResponseCodec R τ} {w w' : History τ}

/-- What a callback that returns has committed. -/
def committed (p : Sqlite.Prog (Db τ) ControllerFailure α) (d : Db τ) : Option (Db τ) :=
  match p.transact d with
  | some (d', .value _) => some d'
  | _ => none

theorem committed_eq_some {p : Sqlite.Prog (Db τ) ControllerFailure α} {d d' : Db τ}
    (hp : p.Seals) (h : committed p d = some d') : ∃ a, p.eval d = (d', .value a) := by
  unfold committed at h
  split at h <;> cases h
  exact ⟨_, (Sqlite.Prog.transact_eq_some hp ‹_›).1⟩

/-- A job is finished at most once, and not as open. -/
def historyStep (codec : ResponseCodec R τ) (w : History τ) : HistoryEvent τ → Option (History τ)
  | .intent job auditAt actor action profileId =>
    (committed (jobIntent job auditAt actor action (some profileId)) w.db).map (⟨·, w.finished⟩)
  | .finish jobId now auditAt actor action profileId ending =>
    if jobId ∈ w.finished.map JobRow.id ∨ ending.finalState.isOpen = true then none
    else
      (committed (finish now auditAt jobId actor action profileId ending) w.db).map fun db =>
        ⟨db, (db.jobs.find jobId).toList ++ w.finished⟩
  | .restart now => (committed (markIncomplete codec now) w.db).map (⟨·, w.finished⟩)
  | .other db => some ⟨{ db with jobs := w.db.jobs }, w.finished⟩

/-- The log has the numbered rows of the table, in falling order; no other row has succeeded. -/
structure Sound (w : History τ) : Prop where
  mem : ∀ row ∈ w.finished, row ∈ w.db.jobs.rows ∧ row.state.isOpen = false ∧
    row.finishedAt.isSome = true ∧ row.completionSeq.isSome = true
  rows : ∀ row ∈ w.db.jobs.rows, row.profileId.isSome = true ∧
    (row ∈ w.finished ∨ row.completionSeq = none ∧ row.state ≠ .succeeded)
  falling : w.finished.Pairwise fun later earlier =>
    ∃ m n, earlier.completionSeq = some m ∧ later.completionSeq = some n ∧ m < n

/-- The row that `_finish` commits has the highest number. -/
theorem Sound.finish (h : Sound w) {jobId : ℕ} {old : JobRow} {state : JobState} (now : ℤ)
    (detail : String) (hjob : jobId ∉ w.finished.map JobRow.id) (hstate : state.isOpen = false)
    (hold : w.db.jobs.find jobId = some old)
    (hjobs : w'.db.jobs = (w.db.finishJob jobId state now detail).1.jobs)
    (hfinished : w'.finished = (w'.db.jobs.find jobId).toList ++ w.finished) : Sound w' := by
  have hnew := find_finishJob_self state now detail hold
  have hother {k : ℕ} (hk : k ≠ jobId) := find_finishJob_of_ne (d := w.db) state now detail hk
  rw [← hjobs] at hnew hother
  rw [hnew] at hfinished
  refine ⟨fun row hrow => ?_, fun row hrow => ?_, ?_⟩
  · rw [hfinished] at hrow
    rcases mem_cons.1 hrow with rfl | hrow
    · exact ⟨Table.find_mem hnew, hstate, rfl, rfl⟩
    · obtain ⟨hmem, hrest⟩ := h.mem row hrow
      have hne : row.id ≠ jobId := fun heq => hjob (heq ▸ mem_map_of_mem hrow)
      exact ⟨Table.find_mem ((hother hne).trans (Table.find_of_mem hmem)), hrest⟩
  · rw [hfinished]
    have hfind := Table.find_of_mem hrow
    by_cases hid : row.id = jobId
    · rw [hid, hnew, some_inj] at hfind
      subst hfind
      exact ⟨(h.rows old (Table.find_mem hold)).1, .inl mem_cons_self⟩
    · rw [hother hid] at hfind
      obtain ⟨hsome, hcases⟩ := h.rows row (Table.find_mem hfind)
      exact ⟨hsome, hcases.imp_left (.tail _)⟩
  · rw [hfinished]
    refine pairwise_cons.2 ⟨fun row hrow => ?_, h.falling⟩
    obtain ⟨hmem, -, -, hseq⟩ := h.mem row hrow
    obtain ⟨m, hm⟩ := isSome_iff_exists.1 hseq
    exact ⟨m, _, hm, rfl, Nat.lt_succ_of_le (le_lastCompletion hmem hm)⟩

theorem Sound.step (h : Sound w) {ev : HistoryEvent τ} (hstep : historyStep codec w ev = some w') :
    Sound w' := by
  cases ev with
  | intent job auditAt actor action profileId =>
    obtain ⟨db, hdb, rfl⟩ := map_eq_some_iff.1 hstep
    obtain ⟨_, heval⟩ := committed_eq_some (seals_jobIntent _ _ _ _ _) hdb
    obtain ⟨-, tj, ta, hins, rfl⟩ := eval_jobIntent heval
    have hrows := (Table.insert_eq_some hins).2
    refine ⟨fun row hrow => ?_, fun row hrow => ?_, h.falling⟩
    · obtain ⟨hmem, hrest⟩ := h.mem row hrow
      exact ⟨by rw [hrows]; exact mem_append_left _ hmem, hrest⟩
    · rcases mem_append.1 (hrows ▸ hrow) with hold | hnew
      · exact h.rows row hold
      · rw [mem_singleton.1 hnew]
        exact ⟨rfl, .inr ⟨rfl, by simp⟩⟩
  | finish jobId now auditAt actor action profileId ending =>
    rw [historyStep, ite_none_left_eq_some] at hstep
    obtain ⟨hguard, hstep⟩ := hstep
    obtain ⟨db, hdb, rfl⟩ := map_eq_some_iff.1 hstep
    obtain ⟨_, heval⟩ := committed_eq_some (seals_finish _ _ _ _ _ _ _) hdb
    obtain ⟨t, rfl⟩ := eval_finish heval
    rw [not_or, Bool.not_eq_true] at hguard
    cases hold : w.db.jobs.find jobId with
    | none =>
      simp only [bump_jobs, finishJob_eq hold, hold]
      exact ⟨h.mem, h.rows, h.falling⟩
    | some old => exact h.finish now (clip ending.detail) hguard.1 hguard.2 hold rfl rfl
  | restart now =>
    obtain ⟨db, hdb, rfl⟩ := map_eq_some_iff.1 hstep
    obtain ⟨_, heval⟩ := committed_eq_some (seals_markIncomplete codec now) hdb
    have hjobs : db.jobs = (w.db.failOpenJobs now).1.jobs := by
      obtain ⟨replay, runs, changed, hmark | hmark⟩ := eval_markIncomplete codec now w.db
      all_goals
        rw [heval] at hmark
        cases hmark
        rfl
    refine ⟨fun row hrow => ?_, fun row hrow => ?_, h.falling⟩
    · obtain ⟨hmem, hclosed, hrest⟩ := h.mem row hrow
      rw [hjobs]
      exact ⟨mem_map.2 ⟨row, hmem, by simp [hclosed]⟩, hclosed, hrest⟩
    · rw [hjobs] at hrow
      obtain ⟨old, hold, rfl⟩ := mem_map.1 hrow
      obtain ⟨hsome, hlogged | ⟨hnone, hnot⟩⟩ := h.rows old hold
      · rw [if_neg (by simp [(h.mem old hlogged).2.1])]
        exact ⟨hsome, .inl hlogged⟩
      · split
        · exact ⟨hsome, .inr ⟨hnone, by simp [JobRow.interrupted]⟩⟩
        · exact ⟨hsome, .inr ⟨hnone, hnot⟩⟩
  | other db =>
    cases hstep
    exact ⟨h.mem, h.rows, h.falling⟩

/-- The history of a controller that has started with an empty database. -/
def Reached (codec : ResponseCodec R τ) (w : History τ) : Prop :=
  ∃ events, Transition.run (historyStep codec) ⟨.new τ, []⟩ events = some w

theorem sound_of_reached (h : Reached codec w) : Sound w := by
  obtain ⟨events, hrun⟩ := h
  refine Transition.run_invariant (fun _ _ _ h => h.step)
    ⟨fun row hrow => ?_, fun row hrow => ?_, .nil⟩
    hrun
  · cases hrow
  · cases hrow

/-! ### What is resumed -/

/-- The job succeeded, and it is a start, a switch or a stop. -/
def lifecycleJob (row : JobRow) : Bool :=
  row.operation ∈ ["start", "switch", "stop", "force_stop"] ∧ row.state = .succeeded

def History.table (texts : Texts) (w : History τ) : List Row := w.db.jobs.rows.map (columns texts)

variable {texts : Texts} {row : JobRow}

theorem settled_columns (row : JobRow) : settled (columns texts row) = lifecycleJob row := by
  have hstate : stateText row.state = "succeeded" ↔ row.state = .succeeded := by
    cases row.state <;> decide
  simp [settled, lifecycleJob, columns, hstate]

theorem candidate_columns (h : row.profileId.isSome = true) :
    candidate (columns texts row) = lifecycleJob row := by
  obtain ⟨p, hp⟩ := isSome_iff_exists.1 h
  rw [candidate, settled_columns]
  simp [columns, hp]

theorem active_columns {p : ProfileId} :
    active (columns texts row) = some p ↔
      (row.operation = "start" ∨ row.operation = "switch") ∧ row.profileId = some p := by
  cases hp : row.profileId <;> simp [active, columns, hp]

theorem Sound.logged (h : Sound w) (hrow : row ∈ w.db.jobs.rows) (hjob : lifecycleJob row = true) :
    row ∈ w.finished := by
  obtain ⟨-, hlogged | ⟨-, hnot⟩⟩ := h.rows row hrow
  · exact hlogged
  · exact absurd (of_decide_eq_true hjob).2 hnot

/-- A successful job has a time and a number. -/
theorem Sound.settled (h : Sound w) {row : Row} (hrow : row ∈ w.table texts)
    (hsettled : settled row = true) :
    completed row = true ∧ row "finished_at" ≠ .null ∧ row "completion_seq" ≠ .null := by
  obtain ⟨job, hjob, rfl⟩ := mem_map.1 hrow
  rw [settled_columns] at hsettled
  obtain ⟨-, -, htime, hseq⟩ := h.mem job (h.logged hjob hsettled)
  obtain ⟨t, ht⟩ := isSome_iff_exists.1 htime
  obtain ⟨n, hn⟩ := isSome_iff_exists.1 hseq
  have hstate := (of_decide_eq_true hsettled).2
  simp [completed, columns, ht, hn, hstate, stateText, texts.stamp_ne]

theorem Sound.lastActive_rank (h : Sound w) : lastActive rank (w.table texts) =
    ((w.finished.find? lifecycleJob).map (columns texts)).bind active := by
  have hfalling : (w.finished.map (columns texts)).Pairwise fun a b => rank b < rank a := by
    refine pairwise_map.2 (h.falling.imp fun ⟨m, n, hm, hn, hlt⟩ => ?_)
    simpa [rank, columns, hm, hn, cons_lt_cons_iff] using hlt
  rw [lastActive, argmax_filter_eq_find hfalling, find?_map]
  · refine congrArg (bind · active) (congrArg _ (find?_congr fun row hrow => ?_))
    exact candidate_columns (h.rows row (h.mem row hrow).1).1
  · intro a ha
    constructor
    · intro hmem
      obtain ⟨row, hrow, rfl⟩ := mem_map.1 hmem
      rw [candidate_columns (h.rows row hrow).1] at ha
      exact mem_map_of_mem (h.logged hrow ha)
    · intro hmem
      obtain ⟨row, hrow, rfl⟩ := mem_map.1 hmem
      exact mem_map_of_mem (h.mem row hrow).1

/-- **What is resumed is what the last commit left active.**  The numbered rows are those that
`_finish` committed; their numbers rise in that order; and a profile is resumed exactly when the
last committed of the successful jobs of the lifecycle is its start or a switch to it. -/
theorem resume_last_active (texts : Texts) (hreached : Reached codec w) :
    (∀ row ∈ w.db.jobs.rows, row.completionSeq.isSome = true ↔ row ∈ w.finished) ∧
      w.finished.Pairwise (fun later earlier =>
        ∃ m n, earlier.completionSeq = some m ∧ later.completionSeq = some n ∧ m < n) ∧
      ∀ p, resumeProfileId "resume" (w.table texts) = some p ↔
        ∃ row, w.finished.find? lifecycleJob = some row ∧
          (row.operation = "start" ∨ row.operation = "switch") ∧ row.profileId = some p := by
  have h := sound_of_reached hreached
  refine ⟨fun row hrow => ⟨fun hseq => ?_, fun hlogged => (h.mem row hlogged).2.2.2⟩, h.falling,
    fun p => ?_⟩
  · obtain ⟨-, hlogged | ⟨hnone, -⟩⟩ := h.rows row hrow
    · exact hlogged
    · rw [hnone] at hseq
      cases hseq
  · rw [resumeProfileId_eq fun row hrow hs => (h.settled hrow hs).2.2, h.lastActive_rank]
    cases w.finished.find? lifecycleJob with
    | none => simp
    | some row => simp [active_columns]

/-! ### Migration -/

variable {safe : Row → Row} {jobs : List Row} (row : Row)

/-- The key of `_job_order`. -/
def finishKey (texts : Texts) (row : Row) : ℕ ×ₗ String :=
  toLex (texts.instant (row "finished_at"), texts.str (row "id"))

/-- The migration with this order; `safe` is what the evidence keeps. -/
def tools (texts : Texts) (safe : Row → Row) : Tools :=
  ⟨fun a b => finishKey texts a ≤ finishKey texts b, safe⟩

/-- The completed jobs by the time at which they finished. -/
def ordered (texts : Texts) (jobs : List Row) : List Row :=
  (jobs.filter completed).mergeSort fun a b => finishKey texts a ≤ finishKey texts b

def renumbered (texts : Texts) (safe : Row → Row) (jobs : List Row) (row : Row) : Row :=
  Function.update row "completion_seq" (completionSeq (tools texts safe) jobs row)

theorem mem_ordered {row : Row} : row ∈ ordered texts jobs ↔ row ∈ jobs ∧ completed row = true := by
  rw [ordered, mem_mergeSort, mem_filter]

def DistinctIds (texts : Texts) (jobs : List Row) : Prop :=
  jobs.Pairwise fun a b => texts.str (a "id") ≠ texts.str (b "id")

theorem History.distinctIds (w : History τ) : DistinctIds texts (w.table texts) := by
  refine pairwise_map.2 ((pairwise_map.1 w.db.jobs.unique).imp fun hne heq => hne ?_)
  simpa [columns, texts.str_text, texts.idText_inj.eq_iff] using heq

theorem ordered_distinct (h : DistinctIds texts jobs) : DistinctIds texts (ordered texts jobs) :=
  (h.sublist filter_sublist).perm (mergeSort_perm _ _).symm fun hab => hab.symm

theorem ordered_rising (h : DistinctIds texts jobs) :
    (ordered texts jobs).Pairwise fun a b => finishKey texts a < finishKey texts b := by
  have hle : (ordered texts jobs).Pairwise fun a b => finishKey texts a ≤ finishKey texts b := by
    refine (pairwise_mergeSort ?_ ?_ _).imp of_decide_eq_true
    · intro a b c hab hbc
      exact decide_eq_true (le_trans (of_decide_eq_true hab) (of_decide_eq_true hbc))
    · intro a b
      simpa using le_total (finishKey texts a) (finishKey texts b)
  refine (hle.and (ordered_distinct h)).imp fun ⟨hab, hne⟩ => lt_of_le_of_ne hab fun heq => hne ?_
  exact congrArg (fun key => (ofLex key).2) heq

/-- The number is the place in the order. -/
theorem ordered_rank (h : DistinctIds texts jobs) : (ordered texts jobs).Pairwise fun a b =>
    rank (renumbered texts safe jobs a) < rank (renumbered texts safe jobs b) := by
  have hrank (i : ℕ) (hi : i < (ordered texts jobs).length) :
      rank (renumbered texts safe jobs (ordered texts jobs)[i]) = [(i : ℤ) + 1] := by
    have hfind : (ordered texts jobs).findIdx (· "id" = (ordered texts jobs)[i] "id") = i := by
      rw [findIdx_eq hi]
      refine ⟨by simp, fun j hj => ?_⟩
      have hne := pairwise_iff_getElem.1 (ordered_distinct h) j i (by omega) hi hj
      simpa using fun heq => hne (congrArg texts.str heq)
    have hcompleted := (mem_ordered.1 (getElem_mem hi)).2
    simp only [rank, renumbered, Function.update_self, completionSeq, if_pos hcompleted]
    exact congrArg (fun n : ℕ => [(n : ℤ) + 1]) hfind
  refine pairwise_iff_getElem.2 fun i j hi hj hij => ?_
  rw [hrank i hi, hrank j hj]
  simpa [cons_lt_cons_iff] using hij

theorem settled_renumbered : settled (renumbered texts safe jobs row) = settled row := by
  simp [settled, renumbered]

theorem candidate_renumbered : candidate (renumbered texts safe jobs row) = candidate row := by
  rw [candidate, settled_renumbered]
  simp [candidate, renumbered]

theorem active_renumbered : active (renumbered texts safe jobs row) = active row := by
  simp [active, renumbered]

/-- The table with the new numbers resumes what the last job to finish left active. -/
theorem resume_renumbered (h : DistinctIds texts jobs)
    (hcompleted : ∀ row ∈ jobs, settled row = true → completed row = true) :
    resumeProfileId "resume" (jobs.map (renumbered texts safe jobs)) =
      lastActive (finishKey texts) jobs := by
  rw [resumeProfileId_eq]
  · have hmem (row : Row) (hrow : candidate row = true) :
        row ∈ jobs ↔ row ∈ (ordered texts jobs).reverse := by
      rw [candidate, Bool.and_eq_true] at hrow
      rw [mem_reverse, mem_ordered]
      exact ⟨fun hj => ⟨hj, hcompleted row hj hrow.1⟩, And.left⟩
    have hfalling : ((ordered texts jobs).reverse.map (renumbered texts safe jobs)).Pairwise
        fun a b => rank b < rank a := by
      rw [pairwise_map, pairwise_reverse]
      exact ordered_rank h
    rw [lastActive, lastActive, argmax_filter_eq_find hfalling,
      argmax_filter_eq_find (pairwise_reverse.2 (ordered_rising h)) hmem, find?_map,
      show candidate ∘ renumbered texts safe jobs = candidate from funext candidate_renumbered]
    · cases (ordered texts jobs).reverse.find? candidate with
      | none => rfl
      | some row => exact active_renumbered row
    · intro a ha
      simp only [mem_map]
      refine exists_congr fun row => and_congr_left ?_
      rintro rfl
      exact hmem row ((candidate_renumbered row).symm.trans ha)
  · intro row' hrow' hsettled
    obtain ⟨row, hrow, rfl⟩ := mem_map.1 hrow'
    simp [renumbered, completionSeq, hcompleted row hrow hsettled]

/-- The jobs of the source are those of a controller, for retained profiles. -/
def Produced {R τ : Type} (codec : ResponseCodec R τ) (texts : Texts) (s : Source) : Prop :=
  (∃ w, Reached codec w ∧ s.rows .jobs = w.table texts) ∧
    ∀ row ∈ s.rows .jobs, Retained row

variable {R τ : Type} {codec : ResponseCodec R τ} {s : Source}

/-- The migrated table resumes what the last job to finish left active. -/
theorem resume_target (texts : Texts) (safe : Row → Row) (hs : Produced codec texts s) :
    resumeProfileId "resume" (targetRows (tools texts safe) s .jobs) =
      lastActive (finishKey texts) (s.rows .jobs) := by
  obtain ⟨⟨w, hreached, hw⟩, hretained⟩ := hs
  have h := sound_of_reached hreached
  have hids : DistinctIds texts (included s .jobs) :=
    List.Pairwise.sublist filter_sublist (hw ▸ w.distinctIds)
  have hincluded : (included s .jobs).filter candidate = (s.rows .jobs).filter candidate := by
    rw [included, filter_filter]
    refine filter_congr fun row hrow => ?_
    cases hc : candidate row with
    | false => rfl
    | true =>
      rw [candidate, Bool.and_eq_true] at hc
      simp [Migration.reasons, Migration.transientReasons, (h.settled (hw ▸ hrow) hc.1).2.1,
        Migration.profileReasons_eq_nil.2 (hretained row hrow)]
  rw [lastActive, ← hincluded]
  exact resume_renumbered hids fun row hrow hsettled =>
    (h.settled (hw ▸ (Migration.mem_included.1 hrow).1) hsettled).1

/-- The job is a successful one of the lifecycle, and none of those has a greater key. -/
def IsLast {β : Type} [LE β] (key : Row → β) (jobs : List Row) (row : Row) : Prop :=
  row ∈ jobs ∧ candidate row = true ∧ ∀ other ∈ jobs, candidate other = true → key other ≤ key row

/-- Different successful jobs of the lifecycle have different keys. -/
def Separates {β : Type} (key : Row → β) (jobs : List Row) : Prop :=
  ∀ a ∈ jobs, ∀ b ∈ jobs, candidate a = true → candidate b = true → key a = key b → a = b

theorem argmax_eq_some_iff {β : Type} [LinearOrder β] {key : Row → β} (hkey : Separates key jobs)
    {row : Row} : (jobs.filter candidate).argmax key = some row ↔ IsLast key jobs row := by
  constructor
  · intro h
    obtain ⟨hmem, hcandidate⟩ := mem_filter.1 (argmax_mem h)
    exact ⟨hmem, hcandidate, fun other hother hc => le_of_mem_argmax (mem_filter.2 ⟨hother, hc⟩) h⟩
  · rintro ⟨hmem, hcandidate, hmax⟩
    have hrow := mem_filter.2 ⟨hmem, hcandidate⟩
    cases h : (jobs.filter candidate).argmax key with
    | none =>
      rw [argmax_eq_none.1 h] at hrow
      cases hrow
    | some other =>
      obtain ⟨hmem', hcandidate'⟩ := mem_filter.1 (argmax_mem h)
      have hle := hmax other hmem' hcandidate'
      rw [hkey other hmem' row hmem hcandidate' hcandidate
        (le_antisymm hle (le_of_mem_argmax hrow h))]

/-- Two keys find the same profile when the last jobs by the one and by the other leave the same. -/
theorem lastActive_eq_iff {β γ : Type} [LinearOrder β] [LinearOrder γ] {key : Row → β}
    {key' : Row → γ} (hkey : Separates key jobs) (hkey' : Separates key' jobs) :
    lastActive key jobs = lastActive key' jobs ↔
      ∀ a b, IsLast key jobs a → IsLast key' jobs b → active a = active b := by
  simp only [lastActive, ← argmax_eq_some_iff hkey, ← argmax_eq_some_iff hkey']
  cases h : (jobs.filter candidate).argmax key with
  | none => simp [argmax_eq_none.1 h]
  | some a =>
    cases h' : (jobs.filter candidate).argmax key' with
    | none => simp [argmax_eq_none.1 h'] at h
    | some b => simp

theorem separates_finishKey (h : DistinctIds texts jobs) : Separates (finishKey texts) jobs := by
  intro a ha b hb _ _ heq
  have hids : (jobs.map fun row => texts.str (row "id")).Nodup := pairwise_map.2 h
  exact inj_on_of_nodup_map hids ha hb (congrArg (fun key => (ofLex key).2) heq)

theorem Sound.separates_rank (h : Sound w) : Separates rank (w.table texts) := by
  intro a ha b hb hca hcb heq
  obtain ⟨row, hrow, rfl⟩ := mem_map.1 ha
  obtain ⟨row', hrow', rfl⟩ := mem_map.1 hb
  rw [candidate_columns (h.rows row hrow).1] at hca
  rw [candidate_columns (h.rows row' hrow').1] at hcb
  have hlogged := h.logged hrow hca
  have hlogged' := h.logged hrow' hcb
  obtain ⟨m, hm⟩ := isSome_iff_exists.1 (h.mem row hlogged).2.2.2
  obtain ⟨n, hn⟩ := isSome_iff_exists.1 (h.mem row' hlogged').2.2.2
  have hnumbers : (w.finished.map JobRow.completionSeq).Nodup := by
    refine pairwise_map.2 (h.falling.imp fun ⟨m, n, hm, hn, hlt⟩ heq => ?_)
    rw [hm, hn, some_inj] at heq
    omega
  rw [inj_on_of_nodup_map hnumbers hlogged hlogged' ?_]
  rw [hm, hn]
  simpa [rank, columns, hm, hn] using heq

/-- **When the migrated table resumes the same**: when the successful job of the lifecycle that
finished last leaves active what the one with the highest number leaves active. -/
theorem migration_resumes_iff (texts : Texts) (safe : Row → Row) (hs : Produced codec texts s) :
    resumeProfileId "resume" (targetRows (tools texts safe) s .jobs) =
        resumeProfileId "resume" (s.rows .jobs) ↔
      ∀ finished committed, IsLast (finishKey texts) (s.rows .jobs) finished →
        IsLast rank (s.rows .jobs) committed → active finished = active committed := by
  rw [resume_target texts safe hs]
  obtain ⟨⟨w, hreached, hw⟩, -⟩ := hs
  have h := sound_of_reached hreached
  rw [hw, resumeProfileId_eq fun row hrow hs => (h.settled hrow hs).2.2]
  convert lastActive_eq_iff (separates_finishKey w.distinctIds) h.separates_rank

/-- A clock that does not go back: the migrated table resumes the same when a higher number means a
later finish. -/
theorem migration_resumes_of_rising (texts : Texts) (safe : Row → Row) (hs : Produced codec texts s)
    (hrising : ∀ a ∈ s.rows .jobs, ∀ b ∈ s.rows .jobs, candidate a = true → candidate b = true →
      rank a < rank b → texts.instant (a "finished_at") < texts.instant (b "finished_at")) :
    resumeProfileId "resume" (targetRows (tools texts safe) s .jobs) =
      resumeProfileId "resume" (s.rows .jobs) := by
  refine (migration_resumes_iff texts safe hs).2 fun a b ha hb => congrArg active ?_
  obtain ⟨⟨w, hreached, hw⟩, -⟩ := hs
  have hkey : Separates rank (s.rows .jobs) := hw ▸ (sound_of_reached hreached).separates_rank
  refine hkey a ha.1 b hb.1 ha.2.1 hb.2.1
    (le_antisymm (hb.2.2 a ha.1 ha.2.1) (not_lt.1 fun hlt => ?_))
  -- the number of the last to finish is not below another one
  have hearlier : finishKey texts a < finishKey texts b :=
    Prod.Lex.toLex_lt_toLex.2 (.inl (hrising a ha.1 b hb.1 ha.2.1 hb.2.1 hlt))
  exact absurd (ha.2.2 b hb.1 hb.2.1) (not_le.2 hearlier)

end Runs

/-! ### Two jobs and a clock that goes back -/

/-- Ten seconds of the first of January, and how they are read. -/
def plainTexts : Texts where
  idText n := String.ofList (replicate n 'i')
  stamp t := String.ofList ("2026-01-01T00:00:0".toList ++ [Nat.digitChar (t.toNat % 10)] ++
    "+00:00".toList)
  str
    | .text s => s
    | _ => ""
  instant
    | .text s => (s.toList.getD 18 '0').toNat
    | _ => 0
  idText_inj m n h := by simpa using congrArg length (String.ofList_injective h)
  stamp_ne t := by simp
  str_text _ := rfl

/-- A start and a stop of Sunlit that finish at these times. -/
def startAndStop (started stopped : ℤ) : Option (History (Option (RpcResponse ℕ))) :=
  let sunlit : ProfileId := .minecraftSunlitCobblemon
  Transition.run (historyStep (.plain ℕ)) ⟨.new _, []⟩
    [.intent ⟨1, 1⟩ ⟨1, 1⟩ "web:admin" "start" sunlit,
      .finish 1 started ⟨2, 2⟩ "web:admin" "start" (some sunlit) ⟨true, none, "", none⟩, .restart 9,
      .intent ⟨2, 3⟩ ⟨3, 3⟩ "web:admin" "stop" sunlit,
      .finish 2 stopped ⟨4, 4⟩ "web:admin" "stop" (some sunlit) ⟨true, none, "", none⟩]

def sourceOf (jobs : List Row) : Source := ⟨fun t => if t = .jobs then jobs else [], false⟩

theorem resume_last_active_stopped :
    ∃ w, startAndStop 5 8 = some w ∧
      resumeProfileId "resume" (w.table plainTexts) ≠ some .minecraftSunlitCobblemon := by
  obtain ⟨w, hw, hlast⟩ : ∃ w, startAndStop 5 8 = some w ∧
      (w.finished.find? lifecycleJob).map JobRow.operation = some "stop" := ⟨_, rfl, by decide⟩
  refine ⟨w, hw, fun h => ?_⟩
  obtain ⟨row, hrow, hstart, -⟩ := ((resume_last_active plainTexts ⟨_, hw⟩).2.2 _).1 h
  rw [hrow, map_some, some_inj] at hlast
  rw [hlast] at hstart
  revert hstart
  decide

theorem migration_resumes_stopped :
    ∃ s, Produced (.plain ℕ) plainTexts s ∧
      resumeProfileId "resume" (targetRows (tools plainTexts id) s .jobs) =
        resumeProfileId "resume" (s.rows .jobs) := by
  obtain ⟨w, hw, hretained, hsame⟩ : ∃ w, startAndStop 5 8 = some w ∧
      (∀ row ∈ w.table plainTexts, Retained row) ∧
      ∀ a ∈ w.table plainTexts, (candidate a = true ∧ ∀ other ∈ w.table plainTexts,
          candidate other = true → finishKey plainTexts other ≤ finishKey plainTexts a) →
        ∀ b ∈ w.table plainTexts, (candidate b = true ∧ ∀ other ∈ w.table plainTexts,
          candidate other = true → rank other ≤ rank b) → active a = active b :=
    ⟨_, rfl, by decide +kernel, by decide +kernel⟩
  have hs : Produced (.plain ℕ) plainTexts (sourceOf (w.table plainTexts)) :=
    ⟨⟨w, ⟨_, hw⟩, rfl⟩, hretained⟩
  exact ⟨_, hs, (migration_resumes_iff plainTexts id hs).2 fun a b ha hb =>
    hsame a ha.1 ha.2 b hb.1 hb.2⟩

/-- The clock goes back while Sunlit runs: it is stopped, and the migrated table resumes it. -/
theorem stopped_profile_resumes :
    ∃ s, Produced (.plain ℕ) plainTexts s ∧ resumeProfileId "resume" (s.rows .jobs) = none ∧
      resumeProfileId "resume" (targetRows (tools plainTexts id) s .jobs) =
        some .minecraftSunlitCobblemon := by
  obtain ⟨w, hw, hretained, hsource, htarget⟩ : ∃ w, startAndStop 8 5 = some w ∧
      (∀ row ∈ w.table plainTexts, Retained row) ∧
      resumeProfileId "resume" (w.table plainTexts) = none ∧
      lastActive (finishKey plainTexts) (w.table plainTexts) = some .minecraftSunlitCobblemon :=
    ⟨_, rfl, by decide +kernel, by decide +kernel, by decide +kernel⟩
  have hs : Produced (.plain ℕ) plainTexts (sourceOf (w.table plainTexts)) :=
    ⟨⟨w, ⟨_, hw⟩, rfl⟩, hretained⟩
  exact ⟨_, hs, hsource, (resume_target plainTexts id hs).trans htarget⟩

end Horizon.Resume
