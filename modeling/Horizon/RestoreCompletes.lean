/-
**A restore that nothing disturbs comes to its end or refuses at once.**

If no step fails and the lease is kept, a restore of roots that are not nested either raises before
any root has been moved, with no journal but that of the staging, or returns with every root
replaced by what was extracted for it.

Main results:

* `Restore.restore_runs` — **all roots are replaced, or nothing has happened**.
-/

import Horizon.RestoreAtomic

namespace Horizon

open Option
open List

namespace Restore

open FileTree (Path IsDirAt)

/-! ### Judgements -/

/-- From `P` the call comes to `Q` or raises in `E`, and the process lives on. -/
abbrev Runs {α : Type} (P : Fact) (c : Proc α) (Q : α → Fact) (E : Fact) : Prop :=
  Judged True P c Q E

namespace Runs

variable {α : Type} {ω : Oracle} (hω : ω.Undisturbed) {P E : Fact} {Q : α → Fact}
include hω

theorem step {undone : Moment → Disk → Disk} {f : Moment → Disk → Except Failure (α × Disk)}
    (hok : ∀ m d l a d', P d l → f m d = .ok (a, d') → Q a d' l)
    (herr : ∀ k d l e, P d l → f (ω k) d = .error e → E d l) : Runs P (step ω undone f) Q E :=
  .perform (fun _ => hω) (fun h => absurd trivial h) (fun h => absurd trivial h) hok herr

theorem write {f : Disk → Disk} {Q : Fact} (hf : ∀ d l, P d l → Q (f d) l) :
    Runs P (write ω f) (fun _ => Q) E :=
  .perform_write (fun _ => hω) (fun h => absurd trivial h) hf

theorem touch : Runs P (touch ω) (fun _ => P) E := write hω fun _ _ hs => hs

theorem removeIfExists {p : Path} {Q : Fact}
    (hdir : ∀ d l, P d l → d.exists p = true → IsDirAt d.tree p)
    (hf : ∀ d l, P d l → d.exists p = true → Q (d.put p none) l)
    (hn : ∀ d l, P d l → d.exists p = false → Q d l) :
    Runs P (removeIfExists ω p) (fun _ => Q) E := by
  refine .look_bind fun present => ?_
  cases present with
  | false => exact .pure fun d l hs => hn d l hs.1 hs.2
  | true =>
    rw [if_pos rfl]
    refine step hω (fun m d l a d' hs he => ?_) fun k d l e hs he => ?_
    · split at he <;> cases he
      exact hf d l hs.1 hs.2
    · obtain ⟨n, hn, hisDir⟩ := hdir d l hs.1 hs.2
      rw [hn] at he
      cases n with
      | file content => cases hisDir
      | dir children => cases he

theorem removeIgnoringErrors {p : Path}
    (hf : ∀ d l, P d l → d.exists p = true → P (d.put p none) l) :
    Runs P (removeIgnoringErrors ω p) (fun _ => P) E := by
  have hgo : ω.NeverFails := fun k => by simp [hω.go]
  exact .removeIgnoringErrors_done (fun _ => hω) hgo (fun h => absurd trivial h)
    (fun h => absurd trivial h) hf (fun _ _ hs _ => hs) fun _ _ _ hs _ => hs

end Runs

/-! ### Before anything is moved -/

namespace Plan

/-- No root has been moved, and no journal but that of the staging was written. -/
structure Untouched (p : Plan) (d : Disk) : Prop where
  base : p.Base d
  intact : p.Intact d
  written : ∀ r ∈ d.written, r.phase = .staged

variable {p : Plan} {d : Disk}

theorem Untouched.put_staging (h : p.Untouched d) {t : Target} (ht : t ∈ p.targets)
    (x : Option Tree) : p.Untouched (d.put (p.names.stagingPath t) x) :=
  ⟨h.base.put ht .staging x, h.intact.put_staging ht x, h.written⟩

theorem Untouched.setJournal (h : p.Untouched d) {id : ℕ} {l : Locals} (hl : p.Proper l) :
    p.Untouched (d.setJournal id (p.record .staged l)) :=
  ⟨h.base.setJournal (logs_record hl), h.intact, Coroutine.forall_mem_concat h.written rfl⟩

theorem Untouched.fill (h : p.Untouched d) (contents : String → List (String × Tree)) :
    p.Untouched (Restore.fill p.names contents p.targets d) := by
  refine ⟨h.base.fill contents, h.intact.fill contents h.base.parents, ?_⟩
  rw [fill_written]
  exact h.written

/-- Every root is replaced, and nothing is left of the staging. -/
structure Replaced (p : Plan) (d : Disk) : Prop where
  parents : Parents p.targets d
  places : ∀ t ∈ p.targets, p.found d t .root = p.restored t ∧ p.found d t .staging = none

end Plan

/-! ### The end of a restore -/

section Finalize

variable (p : Plan) {ω : Oracle} (hω : ω.Undisturbed) {E : Fact}
  (hdirs : ∀ t ∈ p.targets, t.existed = true → IsDirAt p.origin.tree t.path)
include hω hdirs

theorem discardRollbacks_runs :
    Runs (fun d _ => p.Replaced d ∧ ∀ t ∈ p.targets, p.found d t .rollback = p.original t)
      ((p.targets.map p.rollbackOf).forM (discardRollback ω)) (fun _ d _ => p.Replaced d) E := by
  have hloop : Runs (fun d _ => p.Replaced d ∧ ∀ t ∈ p.targets, t ∉ ([] : List Target) →
      p.found d t .rollback = p.original t)
      (p.targets.forM fun t => discardRollback ω (p.rollbackOf t))
      (fun _ d _ => p.Replaced d ∧ ∀ t ∈ p.targets, t ∉ p.targets →
        p.found d t .rollback = p.original t) E := by
    refine .forM (fun done d _ => p.Replaced d ∧ ∀ t ∈ p.targets, t ∉ done →
      p.found d t .rollback = p.original t) p.targets fun done t rest hl => ?_
    obtain ⟨ht, hnot⟩ := not_mem_done p hl
    have hweaken : ∀ d, (p.Replaced d ∧ ∀ u ∈ p.targets, u ∉ done →
        p.found d u .rollback = p.original u) → p.Replaced d ∧ ∀ u ∈ p.targets,
        u ∉ done ++ [t] → p.found d u .rollback = p.original u :=
      fun d h => ⟨h.1, fun u hu hn => h.2 u hu fun hin => hn (mem_append_left _ hin)⟩
    by_cases hexisted : t.existed = true
    · rw [Plan.rollbackOf_existed hexisted]
      refine .seq (fun d _ => p.Replaced d ∧ ∀ u ∈ p.targets, u ∉ done ++ [t] →
        p.found d u .rollback = p.original u) ?_ fun _ => Runs.touch hω
      refine Runs.removeIfExists hω (fun d l h hd => ?_) (fun d l h hd => ?_)
        fun d l h _ => hweaken d h
      · -- what was displaced is a directory
        obtain ⟨n, hn, hdir⟩ := hdirs t ht hexisted
        exact ⟨n, (h.2 t ht hnot).trans hn, hdir⟩
      · have hput : ∀ u ∈ p.targets, ∀ k, (t ≠ u ∨ Slot.rollback ≠ k) →
            p.found (d.put (p.names.rollbackPath t) none) u k = p.found d u k :=
          fun u hu k hk => slot_put_other p.separate ht hu _ hk none
        refine ⟨⟨parents_put p.separate h.1.parents ht .rollback none, fun u hu => ?_⟩,
          fun u hu hn => ?_⟩
        · rw [hput u hu .root (.inr (by decide)), hput u hu .staging (.inr (by decide))]
          exact h.1.places u hu
        · rw [mem_append, not_or, mem_singleton] at hn
          rw [hput u hu .rollback (.inl (Ne.symm hn.2))]
          exact h.2 u hu hn.1
    · rw [Plan.rollbackOf_absent (by simpa using hexisted)]
      exact .pure fun d l h => hweaken d h
  rw [forM_map_eq]
  exact hloop.conseq (fun d l h => ⟨h.1, fun t ht _ => h.2 t ht⟩) (fun _ d l h => h.1)
    fun _ _ h => h

/-- The restored roots stay in place when the restore ends itself. -/
theorem finalizeIfHealthy_runs (s : Service) (result : Result)
    (hrollbacks : result.rollbacks = p.targets.map p.rollbackOf)
    (hid : result.journal = p.names.journal) :
    Runs (fun d l => p.At False p.targets p.targets d l ∧
        (d.journals.find? (·.1 = p.names.journal)).isSome = true) (finalizeIfHealthy s ω result)
      (fun _ d _ => p.Replaced d) E := by
  have hreplaced : ∀ {d : Disk} {l : Locals}, p.At False p.targets p.targets d l →
      p.Replaced d ∧ ∀ t ∈ p.targets, p.found d t .rollback = p.original t := by
    rintro d l ⟨hm, -, hact⟩
    have hplaced : ∀ t ∈ p.targets, _ := fun t ht =>
      (hm.placed t ht).activated (by rw [hact]; exact ht)
    exact ⟨⟨hm.base.parents, fun t ht => ⟨(hplaced t ht).1, (hplaced t ht).2.1⟩⟩, fun t ht =>
      (hplaced t ht).2.2⟩
  refine .seq (fun d l => p.At False p.targets p.targets d l ∧
    (d.journals.find? (·.1 = p.names.journal)).isSome = true) (.look fun d l h => h)
    fun healthy => ?_
  split
  · refine .seq (fun d _ => p.Replaced d ∧ ∀ t ∈ p.targets,
      p.found d t .rollback = p.original t) ?_ fun _ => ?_
    · refine .bind (Q := fun record d l => record.isSome = true ∧
        p.At False p.targets p.targets d l) (.look fun d l h => ⟨?_, h.1⟩) fun record =>
        Judged.given fun hsome => ?_
      · rw [isSome_map, hid]
        exact h.2
      · obtain ⟨r, rfl⟩ := isSome_iff_exists.1 hsome
        exact Runs.write hω fun d l hm => ⟨⟨(hreplaced hm).1.parents, (hreplaced hm).1.places⟩,
          (hreplaced hm).2⟩
    · rw [hrollbacks]
      refine (discardRollbacks_runs p hω hdirs).bind fun _ => ?_
      refine .seq (fun d _ => p.Replaced d)
        (Runs.write hω fun d l h => ⟨h.parents, h.places⟩) fun _ => Runs.touch hω
  · exact .pure fun d l h => (hreplaced h.1).1

end Finalize

/-! ### The whole restore -/

/-- It was refused before any root was moved. -/
structure Refused (s : Service) (origin d : Disk) : Prop where
  roots : ∀ root ∈ s.approved, d.tree.get root = origin.tree.get root
  written : ∀ r ∈ d.written, r.phase = .staged

section Whole

variable (p : Plan) {ω : Oracle} (hω : ω.Undisturbed)
  (hdirs : ∀ t ∈ p.targets, t.existed = true → IsDirAt p.origin.tree t.path) (s : Service)
include hω

theorem makeStagings_runs (hstart : p.Untouched p.origin) :
    Runs (fun d l => d = p.origin ∧ l = .new) (p.targets.forM (makeStaging ω p.names))
      (fun _ d l => p.Untouched d ∧ l = .new) (fun d _ => p.Untouched d) := by
  refine .conseq (.forM (fun _ d l => p.Untouched d ∧ l = .new) p.targets
    fun done t rest hl => ?_) (fun d l h => ?_) (fun _ d l h => h) fun _ _ h => h
  · refine Runs.step hω (fun m d l u d' h he => ?_) fun k d l e h he => h.1
    split at he <;> cases he
    exact ⟨h.1.put_staging (not_mem_done p hl).1 _, h.2⟩
  · obtain ⟨rfl, rfl⟩ := h
    exact ⟨hstart, rfl⟩

theorem extract_runs :
    Runs (fun d l => p.Untouched d ∧ l = .new) (extract ω p.archive p.names p.targets)
      (fun _ d l => p.archive.flaw = none ∧ p.At False [] [] d l) (fun d _ => p.Untouched d) := by
  refine .seq (fun d l => p.Untouched d ∧ (p.archive.flaw = none →
    p.At False [] [] d l)) ?_ fun _ => ?_
  · refine Runs.step hω (fun m d l u d' h he => ?_) fun k d l e h he => ?_
    · cases he
      refine ⟨h.1.fill _, fun hnone => ?_⟩
      rw [if_pos hnone, h.2]
      exact h.1.base.extracted h.1.intact nofun
    · cases he
  · refine (Judged.raiseIf fun d l h => h.1).conseq (fun _ _ h => h)
      (fun _ d l h => ⟨h.1, h.2.2 h.1⟩) fun _ _ h => h

include hdirs

theorem sealStaging_runs {E : Fact} {t : Target} (ht : t ∈ p.targets) :
    Runs (p.At False [] []) (sealStaging ω t) (fun _ => p.At False [] []) E := by
  refine (Runs.touch hω).next ((Runs.touch hω).next ?_)
  refine .perform_guard (q := fun _ d => ((d.tree.get t.path).any (·.isDir)) = t.existed ∧
    d.exists t.path = t.existed) (fun _ => hω) (fun h => absurd trivial h)
    fun k d l h hq => absurd ?_ hq
  obtain ⟨hm, hnone, -⟩ := h
  have hnot : t ∉ l.displaced := by simp [hnone]
  have hroot : d.tree.get t.path = p.origin.tree.get t.path := ((hm.placed t ht).waiting hnot).1
  have hexists := (hm.placed t ht).exists_root ht hnot
  refine ⟨?_, hexists⟩
  cases hexisted : t.existed with
  | true =>
    obtain ⟨n, hn, hdir⟩ := hdirs t ht hexisted
    rw [hroot, hn, any_some, hdir]
  | false =>
    rw [hexisted] at hexists
    rw [show d.tree.get t.path = none from not_isSome_iff_eq_none.1 (by
      rw [show (d.tree.get t.path).isSome = false from hexists]
      simp)]
    rfl

theorem stageAndPublish_runs :
    Runs (fun d l => p.Untouched d ∧ l = .new)
      (stageAndPublish s ω p.archive p.names p.targets)
      (fun _ d _ => p.archive.flaw = none ∧ p.Replaced d) (fun d _ => p.Untouched d) := by
  refine (extract_runs p hω).bind fun _ => .given fun hnone => ?_
  refine .bind (.forM (fun _ => p.At False [] []) p.targets fun done t rest hl =>
    sealStaging_runs p hω hdirs (not_mem_done p hl).1) fun _ => ?_
  refine .seq (p.At False p.targets p.targets)
    (.tryExcept (publication_judged p fun _ => hω) fun e => ?_) fun _ => ?_
  · exact .impossible fun _ _ h => h.1 trivial
  refine .currentLocals_bind fun l' => ?_
  refine .seq (fun d l => l'.rollbacks = p.targets.map p.rollbackOf ∧
    p.At False p.targets p.targets d l ∧ (d.journals.find? (·.1 = p.names.journal)).isSome = true)
    (writeJournal_judged (fun _ => hω) _ _ _ _ (fun h => absurd trivial h) fun d l h => ?_)
    fun _ => .given fun hrollbacks => ?_
  · obtain ⟨⟨hm, hdis, hact⟩, rfl⟩ := h
    have hphase : Phase.activated.Undecided := trivial
    refine ⟨by rw [hm.rollbacks, hdis], ⟨(hm.journal hphase).1, hdis, hact⟩, ?_⟩
    unfold Disk.setJournal
    rw [find?_cons_of_pos (by simp)]
    rfl
  · refine (finalizeIfHealthy_runs p hω hdirs s _ hrollbacks rfl).bind fun _ => ?_
    exact .pure fun d l h => ⟨hnone, h⟩

theorem restoreTargets_runs (hstart : p.Untouched p.origin) :
    Runs (fun d l => d = p.origin ∧ l = .new)
      (restoreTargets s ω p.archive p.names p.targets)
      (fun _ d _ => p.archive.flaw = none ∧ p.Replaced d) (fun d _ => p.Untouched d) := by
  have hopposed : ∀ d (l : Locals), d = p.origin ∧ l = .new → p.Untouched d := by
    rintro d l ⟨rfl, -⟩
    exact hstart
  refine (Judged.perform_assure (fun _ => hω) hopposed).next
    ((Judged.perform_assure (fun _ => hω) hopposed).next ?_)
  refine (makeStagings_runs p hω hstart).bind fun _ => ?_
  refine .seq (fun d l => p.Untouched d ∧ l = .new)
    (writeJournal_judged (fun _ => hω) _ _ _ _ (fun h => absurd trivial h) fun d l h => ?_)
    fun _ => ?_
  · obtain ⟨h, rfl⟩ := h
    exact ⟨h.setJournal Plan.proper_new, rfl⟩
  refine (Runs.touch hω).bind fun _ => ?_
  have hremove : Runs (fun d _ => p.Untouched d) (removeStagings ω p.names p.targets)
      (fun _ d _ => p.Untouched d) (fun d _ => p.Untouched d) := by
    refine .forM (fun _ d _ => p.Untouched d) p.targets fun done t rest hl => ?_
    exact Runs.removeIgnoringErrors hω fun d l h _ => h.put_staging (not_mem_done p hl).1 none
  refine .tryFinally (R := fun _ d _ => p.archive.flaw = none ∧ p.Replaced d)
    (F := fun d _ => p.Untouched d) ?_ (fun result => ?_) hremove
  · refine .tryExcept (stageAndPublish_runs p hω hdirs s) fun e => ?_
    cases e with
    | killed | error => exact .raise same
    | safe code message => exact hremove.next (.raise same)
  · -- nothing is left in the staging directories
    refine .forM (fun _ d _ => p.archive.flaw = none ∧ p.Replaced d) p.targets
      fun done t rest hl => Runs.removeIgnoringErrors hω fun d l h hd => ?_
    exact absurd (h.2.places t (not_mem_done p hl).1).2 (Plan.found_ne_none hd)

end Whole

variable (s : Service) {ω : Oracle} (hω : ω.Undisturbed) (a : Archive) (names : Names) {d₀ : Disk}
include hω

/-- **All roots are replaced, or nothing has happened.** -/
theorem restore_runs (hn : s.NotNested) (hf : names.Fresh s a d₀) (hwritten : d₀.written = []) :
    Runs (fun d l => d = d₀ ∧ l = .new) (restore s ω a names)
      (fun _ d _ => (a.refusal = none ∧ a.flaw = none) ∧ ∀ root ∈ s.approved,
        d.tree.get root = some (.dir (a.image (a.rootId s root))))
      (fun d _ => Refused s d₀ d) := by
  have hopposed : ∀ d (l : Locals), d = d₀ ∧ l = .new → Refused s d₀ d := by
    rintro d l ⟨rfl, -⟩
    exact ⟨fun _ _ => rfl, by simp [hwritten]⟩
  refine .restore (fun _ => hω) hopposed fun haccepted targets ht => ?_
  have hstart : (planOf hn hf ht).Untouched d₀ := by
    refine ⟨⟨ht.parents, by simp [hwritten]⟩, fun t htt => ⟨rfl, ?_⟩, by simp [hwritten]⟩
    show d₀.tree.get (slotPath names t .rollback) = none
    rw [slotPath_eq names t (by decide), ht.id t htt]
    exact hf.vacant t.path (ht.approved t htt)
  refine (restoreTargets_runs (planOf hn hf ht) hω ht.dirs s hstart).conseq (fun _ _ h => h)
    (fun _ d l h => ⟨⟨haccepted, h.1⟩, fun root hroot => ?_⟩) fun d l h =>
      ⟨fun root hroot => ?_, h.written⟩
  · obtain ⟨t, htt, rfl⟩ := ht.complete root hroot
    rw [← ht.id t htt]
    exact (h.2.places t htt).1
  · obtain ⟨t, htt, rfl⟩ := ht.complete root hroot
    exact (h.intact t htt).1

end Restore

end Horizon
