/-
**The confirmation fence.**

A dangerous operation is prepared and then confirmed.  `_create_confirmation` records the generation
of the root state, and only then enters the transaction that inserts the row;
`_consume_confirmation` demands the generation that the row carries.  `_finish` and the end of
`reconcile_startup` bump the generation, so a confirmation does not survive either of them.

An event is one transaction, or the part of `_create_confirmation` before its transaction, or the
end of the process.  The state counts what the code does not: the jobs that finished, the
reconciliations that completed, the successful consumptions of each id, and what held when an id was
created.

Main results:

* `confirmation_fence` — what every run guarantees for every confirmation.
-/

import Horizon.StateDb

namespace Horizon

open Sqlite.Prog (transact_eq_some)
open Function

/-! ### Calls and transactions -/

/-- What a call of `_create_confirmation` was given, and what had happened when it recorded the
generation. -/
structure Creation where
  actor : String
  action : String
  createdAt : ℤ
  finished : ℕ
  reconciled : ℕ
  deriving DecidableEq

/-- `{**payload, key: value}`. -/
def dictSet (payload : JsonDict) (key : String) (value : JsonValue) : JsonDict :=
  (key, value) :: payload.filter fun member => member.1 ≠ key

/-- The row that `_create_confirmation` computes before its transaction. -/
def confirmationDraft (generation : ℤ) (draw : Draw) (actor action : String)
    (profileId : ProfileId) (payload : JsonDict) : ConfirmationRow :=
  ⟨draw.id, actor, action, profileId, dictSet payload "profile_id" (.str profileId.value),
    draw.now + confirmationLifetime, none, generation⟩

/-- The database, the calls between the two halves of `_create_confirmation`, and the ghosts. -/
structure FenceWorld (τ : Type) where
  db : Db τ
  drafts : ℕ → Option (ConfirmationRow × Creation)
  finished : ℕ
  reconciled : ℕ
  creations : ℕ → Option Creation
  consumed : ℕ → ℕ

inductive FenceEvent
  | record (call : ℕ) (draw : Draw) (actor action : String) (profileId : ProfileId)
      (payload : JsonDict)
  | insert (call : ℕ)
  | consume (now stamp : ℤ) (auditAt : Draw) (actor action : String) (id : ℕ)
  | finish (now : ℤ) (auditAt : Draw) (jobId : ℕ) (actor action : String)
      (profileId : Option ProfileId) (ending : Ending)
  | markIncomplete (now : ℤ)
  | reconciled
  | crash

section Fence

variable {R τ : Type} (codec : ResponseCodec R τ)

def fenceStep (w : FenceWorld τ) : FenceEvent → Option (FenceWorld τ)
  | .record call draw actor action profileId payload =>
    match w.drafts call with
    | some _ => none
    | none =>
      let row := confirmationDraft w.db.currentGeneration draw actor action profileId payload
      some { w with drafts := update w.drafts call
                      (some (row, ⟨actor, action, draw.now, w.finished, w.reconciled⟩)) }
  | .insert call =>
    match w.drafts call with
    | none => none
    | some (row, creation) =>
      match (writeConfirmation row).transact w.db with
      | some (db, .value ()) =>
        some { w with db := db
                      drafts := update w.drafts call none
                      creations := update w.creations row.id (some creation) }
      | _ => none
  | .consume now stamp auditAt actor action id =>
    match (consume now stamp auditAt actor action id).transact w.db with
    | some (db, .value _) =>
      some { w with db := db, consumed := update w.consumed id (w.consumed id + 1) }
    | some (db, _) => some { w with db := db }
    | none => none
  | .finish now auditAt jobId actor action profileId ending =>
    match (finish now auditAt jobId actor action profileId ending).transact w.db with
    | some (db, .value ()) => some { w with db := db, finished := w.finished + 1 }
    | _ => none
  | .markIncomplete now =>
    match (markIncomplete codec now).transact w.db with
    | some (db, .value _) => some { w with db := db }
    | _ => none
  | .reconciled =>
    match bumpAndCommit.transact w.db with
    | some (db, .value ()) => some { w with db := db, reconciled := w.reconciled + 1 }
    | _ => none
  | .crash => some { w with drafts := fun _ => none }

/-! ### What a step can do -/

/-- The successful steps, as far as confirmations, generation and ghosts are concerned. -/
inductive FenceMove (w : FenceWorld τ) : FenceEvent → FenceWorld τ → Prop
  | record {call : ℕ} {draw : Draw} {actor action : String} {profileId : ProfileId}
      {payload : JsonDict} (hc : w.drafts call = none) :
      FenceMove w (.record call draw actor action profileId payload)
        { w with drafts := update w.drafts call (some
            (confirmationDraft w.db.currentGeneration draw actor action profileId payload,
              ⟨actor, action, draw.now, w.finished, w.reconciled⟩)) }
  | insert {call : ℕ} {row : ConfirmationRow} {creation : Creation}
      {t : Sqlite.Table ConfirmationRow.id} (hc : w.drafts call = some (row, creation))
      (ht : w.db.confirmations.insert row = some t) :
      FenceMove w (.insert call)
        { w with db := { w.db with confirmations := t }
                 drafts := update w.drafts call none
                 creations := update w.creations row.id (some creation) }
  | consumed {now stamp : ℤ} {auditAt : Draw} {actor action : String} {id : ℕ}
      {row : ConfirmationRow} (hrow : w.db.confirmations.find id = some row)
      (haction : row.action = action) (hactor : row.actor = actor) (hnew : row.consumedAt = none)
      (hlive : now < row.expiresAt) (hgen : row.stateGeneration = w.db.currentGeneration) :
      FenceMove w (.consume now stamp auditAt actor action id)
        { w with db := (w.db.consumeRow id stamp row.stateGeneration).1
                 consumed := update w.consumed id (w.consumed id + 1) }
  | refused {now stamp : ℤ} {auditAt : Draw} {actor action : String} {id : ℕ}
      (t : Sqlite.Table AuditRow.id) :
      FenceMove w (.consume now stamp auditAt actor action id)
        { w with db := { w.db with audit := t } }
  | finish {now : ℤ} {auditAt : Draw} {jobId : ℕ} {actor action : String}
      {profileId : Option ProfileId} {ending : Ending} {db : Db τ}
      (hc : db.confirmations = w.db.confirmations)
      (hg : db.applicationId = w.db.bump.applicationId) :
      FenceMove w (.finish now auditAt jobId actor action profileId ending)
        { w with db := db, finished := w.finished + 1 }
  | marked {now : ℤ} {db : Db τ} (hc : db.confirmations = w.db.confirmations)
      (hg : db.applicationId = w.db.applicationId ∨ db.applicationId = w.db.bump.applicationId) :
      FenceMove w (.markIncomplete now) { w with db := db }
  | reconciled : FenceMove w .reconciled { w with db := w.db.bump, reconciled := w.reconciled + 1 }
  | crash : FenceMove w .crash { w with drafts := fun _ => none }

variable {codec} {w w' : FenceWorld τ} {ev : FenceEvent} {row : ConfirmationRow}
  {creation : Creation} {k : Creation}

theorem fenceStep_move (h : fenceStep codec w ev = some w') : FenceMove w ev w' := by
  cases ev with
  | record call draw actor action profileId payload =>
    simp only [fenceStep] at h
    split at h <;> cases h
    exact .record ‹_›
  | insert call =>
    simp only [fenceStep] at h
    split at h
    · cases h
    · rename_i hc
      split at h <;> cases h
      rename_i hdb
      obtain ⟨he, -⟩ := transact_eq_some (seals_writeConfirmation _) hdb
      obtain ⟨t, ht, rfl⟩ := eval_writeConfirmation he
      exact .insert hc ht
  | consume now stamp auditAt actor action id =>
    simp only [fenceStep] at h
    cases ho : (consume now stamp auditAt actor action id).transact w.db with
    | none => rw [ho] at h; cases h
    | some out =>
      obtain ⟨db, r⟩ := out
      obtain ⟨he, hne⟩ := transact_eq_some (seals_consume _ _ _ _ _ _) ho
      rw [ho] at h
      rcases eval_consume he hne with
        ⟨row, hrow, haction, hactor, hnew, hlive, hgen, rfl, rfl⟩ | ⟨⟨t, rfl⟩, e, rfl⟩
      · cases h
        exact .consumed hrow haction hactor hnew hlive hgen
      · cases h
        exact .refused t
  | finish now auditAt jobId actor action profileId ending =>
    simp only [fenceStep] at h
    split at h <;> cases h
    rename_i db hdb
    obtain ⟨he, -⟩ := transact_eq_some (seals_finish _ _ _ _ _ _ _) hdb
    obtain ⟨t, rfl⟩ := eval_finish he
    exact .finish rfl rfl
  | markIncomplete now =>
    simp only [fenceStep] at h
    split at h <;> cases h
    rename_i db changed hdb
    obtain ⟨he, -⟩ := transact_eq_some (seals_markIncomplete codec now) hdb
    obtain ⟨replay, runs, n, heval | heval⟩ := eval_markIncomplete codec now w.db
    · obtain ⟨rfl, -⟩ := Prod.ext_iff.1 (heval.symm.trans he)
      exact .marked rfl (.inl rfl)
    · obtain ⟨rfl, -⟩ := Prod.ext_iff.1 (heval.symm.trans he)
      exact .marked rfl (.inr rfl)
  | reconciled =>
    simp only [fenceStep] at h
    split at h <;> cases h
    rename_i db hdb
    obtain ⟨he, -⟩ := transact_eq_some seals_bumpAndCommit hdb
    obtain ⟨rfl, -⟩ := Prod.ext_iff.1 he
    exact .reconciled
  | crash =>
    cases h
    exact .crash

/-! ### The clock of bumps -/

/-- The number of events so far that must have bumped the generation. -/
def FenceWorld.settled (w : FenceWorld τ) : ℕ := w.finished + w.reconciled

/-- `w'` is later than `w`: its counters have grown, and the generation at least as much. -/
structure Later (w w' : FenceWorld τ) : Prop where
  finished : w.finished ≤ w'.finished
  reconciled : w.reconciled ≤ w'.reconciled
  generation : w.db.currentGeneration + w'.settled ≤ w'.db.currentGeneration + w.settled

theorem Later.of_eq (hf : w'.finished = w.finished) (hr : w'.reconciled = w.reconciled)
    (hg : w.db.currentGeneration ≤ w'.db.currentGeneration) : Later w w' := by
  refine ⟨hf.ge, hr.ge, ?_⟩
  unfold FenceWorld.settled
  omega

theorem currentGeneration_congr {d d' : Db τ} (h : d.applicationId = d'.applicationId) :
    d.currentGeneration = d'.currentGeneration := by
  unfold Db.currentGeneration
  rw [h]

/-- **A step never takes the generation back**, and a job that finishes or a reconciliation that
completes takes it forward. -/
theorem fenceStep_later (h : FenceMove w ev w') (hb : w.db.currentGeneration < maxGeneration) :
    Later w w' := by
  have hbump := currentGeneration_bump hb
  cases h with
  | record | insert | consumed | refused | crash => exact .of_eq rfl rfl le_rfl
  | finish hc hg =>
    have hgen := currentGeneration_congr hg
    refine ⟨Nat.le_succ _, le_rfl, ?_⟩
    simp only [FenceWorld.settled, hgen]
    omega
  | marked hc hg =>
    refine .of_eq rfl rfl ?_
    rcases hg with hg | hg
    · exact (currentGeneration_congr hg).ge
    · have hgen := currentGeneration_congr hg
      simp only [hgen]
      omega
  | reconciled =>
    refine ⟨le_rfl, Nat.le_succ _, ?_⟩
    simp only [FenceWorld.settled]
    omega

/-! ### The invariant -/

/-- The row is as its creation made it, and the generation has grown since then with every event
that bumps it. -/
structure Recorded (w : FenceWorld τ) (row : ConfirmationRow) (k : Creation) : Prop where
  actor : row.actor = k.actor
  action : row.action = k.action
  expires : row.expiresAt = k.createdAt + confirmationLifetime
  finished : k.finished ≤ w.finished
  reconciled : k.reconciled ≤ w.reconciled
  generation : row.stateGeneration + w.settled ≤
    w.db.currentGeneration + (k.finished + k.reconciled : ℕ)

theorem Recorded.later (h : Recorded w row k) (hl : Later w w') : Recorded w' row k := by
  have hg := h.generation
  have hg' := hl.generation
  refine ⟨h.actor, h.action, h.expires, h.finished.trans hl.finished,
    h.reconciled.trans hl.reconciled, ?_⟩
  omega

/-- A row that still carries the present generation has seen no event that bumps it. -/
theorem Recorded.current (h : Recorded w row k)
    (hg : row.stateGeneration = w.db.currentGeneration) :
    k.finished = w.finished ∧ k.reconciled = w.reconciled := by
  have hgen := h.generation
  have hf := h.finished
  have hr := h.reconciled
  unfold FenceWorld.settled at hgen
  constructor <;> omega

def consumptions : Option ConfirmationRow → ℕ
  | none => 0
  | some row => if row.consumedAt.isSome then 1 else 0

/-- Drafts and rows are as they were recorded, and an id is consumed as often as its row says. -/
structure FenceWorld.Sound (w : FenceWorld τ) : Prop where
  drafts : ∀ c row k, w.drafts c = some (row, k) → row.consumedAt = none ∧ Recorded w row k
  rows : ∀ id row, w.db.confirmations.find id = some row →
    ∃ k, w.creations id = some k ∧ Recorded w row k
  consumed : ∀ id, w.consumed id = consumptions (w.db.confirmations.find id)

/-- A run starts with no confirmations and nothing counted. -/
structure FenceWorld.Fresh (w : FenceWorld τ) : Prop where
  rows : w.db.confirmations = .empty
  drafts : ∀ c, w.drafts c = none
  consumed : ∀ id, w.consumed id = 0

theorem FenceWorld.Fresh.sound (h : w.Fresh) : w.Sound := by
  have hfind (id : ℕ) : w.db.confirmations.find id = none := by
    rw [h.rows]
    exact Sqlite.Table.find_empty id
  refine ⟨fun c row k hc => ?_, fun id row hrow => ?_, fun id => ?_⟩
  · rw [h.drafts] at hc
    cases hc
  · rw [hfind] at hrow
    cases hrow
  · rw [h.consumed, hfind]
    rfl

/-- A step that leaves the confirmations and their ghosts alone keeps the invariant. -/
theorem FenceWorld.Sound.frame (h : w.Sound) (hl : Later w w')
    (hdrafts : ∀ c row k, w'.drafts c = some (row, k) → row.consumedAt = none ∧ Recorded w row k)
    (hrows : w'.db.confirmations = w.db.confirmations) (hcreations : w'.creations = w.creations)
    (hconsumed : w'.consumed = w.consumed) : w'.Sound := by
  refine ⟨fun c row k hc => ?_, fun id row hrow => ?_, fun id => ?_⟩
  · exact (hdrafts c row k hc).imp_right (·.later hl)
  · rw [hrows] at hrow
    obtain ⟨k, hk, hrec⟩ := h.rows id row hrow
    exact ⟨k, by rw [hcreations, hk], hrec.later hl⟩
  · rw [hconsumed, hrows]
    exact h.consumed id

theorem FenceWorld.Sound.drafts_update (h : w.Sound) (c : ℕ)
    {draft : Option (ConfirmationRow × Creation)}
    (hdraft : ∀ row k, draft = some (row, k) → row.consumedAt = none ∧ Recorded w row k) :
    ∀ c' row k, update w.drafts c draft c' = some (row, k) →
      row.consumedAt = none ∧ Recorded w row k :=
  (forall_update_iff w.drafts fun _ draft => ∀ row k, draft = some (row, k) →
    row.consumedAt = none ∧ Recorded w row k).2 ⟨hdraft, fun c' _ => h.drafts c'⟩

theorem FenceWorld.Sound.consume {id : ℕ} {stamp : ℤ} (h : w.Sound) (hl : Later w w')
    (hrow : w.db.confirmations.find id = some row) (hnew : row.consumedAt = none)
    (hdb : w'.db = (w.db.consumeRow id stamp row.stateGeneration).1)
    (hdrafts : w'.drafts = w.drafts) (hcreations : w'.creations = w.creations)
    (hconsumed : w'.consumed = update w.consumed id (w.consumed id + 1)) : w'.Sound := by
  have hself : w'.db.confirmations.find id = some (row.consumed stamp) := by
    rw [hdb]
    exact find_consumeRow_self stamp hrow hnew
  have hother : ∀ k, k ≠ id → w'.db.confirmations.find k = w.db.confirmations.find k := by
    intro k hk
    rw [hdb]
    exact find_consumeRow_of_ne stamp row.stateGeneration hk
  refine ⟨fun c row' k hc => ?_, fun k row' hk => ?_, fun k => ?_⟩
  · rw [hdrafts] at hc
    exact (h.drafts c row' k hc).imp_right (·.later hl)
  · rw [hcreations]
    by_cases hid : k = id
    · subst hid
      rw [hself] at hk
      cases hk
      obtain ⟨creation, hcreation, hrec⟩ := h.rows k row hrow
      have hrec' := hrec.later hl
      exact ⟨creation, hcreation, hrec'.actor, hrec'.action, hrec'.expires, hrec'.finished,
        hrec'.reconciled, hrec'.generation⟩
    · rw [hother k hid] at hk
      obtain ⟨creation, hcreation, hrec⟩ := h.rows k row' hk
      exact ⟨creation, hcreation, hrec.later hl⟩
  · rw [hconsumed]
    by_cases hid : k = id
    · subst hid
      have hcount := h.consumed k
      rw [hrow, consumptions, hnew] at hcount
      rw [update_self, hself, hcount]
      rfl
    · rw [update_of_ne hid, hother k hid]
      exact h.consumed k

theorem FenceWorld.Sound.insert {c : ℕ} {t : Sqlite.Table ConfirmationRow.id} (h : w.Sound)
    (hl : Later w w') (hc : w.drafts c = some (row, creation))
    (ht : w.db.confirmations.insert row = some t) (hrows : w'.db.confirmations = t)
    (hdrafts : w'.drafts = update w.drafts c none)
    (hcreations : w'.creations = update w.creations row.id (some creation))
    (hconsumed : w'.consumed = w.consumed) : w'.Sound := by
  obtain ⟨hnew, hrec⟩ := h.drafts c row creation hc
  have hfree : w.db.confirmations.find row.id = none := (Sqlite.Table.insert_eq_some ht).1
  have hfind : ∀ id, w'.db.confirmations.find id =
      if row.id = id then some row else w.db.confirmations.find id := by
    intro id
    rw [hrows]
    exact Sqlite.Table.find_insert ht id
  refine ⟨fun c' row' k hc' => ?_, fun id row' hrow => ?_, fun id => ?_⟩
  · rw [hdrafts] at hc'
    exact (h.drafts_update c (fun _ _ hd => by cases hd) c' row' k hc').imp_right (·.later hl)
  · rw [hfind] at hrow
    rw [hcreations]
    by_cases hid : row.id = id
    · rw [if_pos hid] at hrow
      cases hrow
      rw [← hid, update_self]
      exact ⟨creation, rfl, hrec.later hl⟩
    · rw [if_neg hid] at hrow
      obtain ⟨k, hk, hrec'⟩ := h.rows id row' hrow
      rw [update_of_ne (Ne.symm hid)]
      exact ⟨k, hk, hrec'.later hl⟩
  · rw [hfind, hconsumed]
    by_cases hid : row.id = id
    · subst hid
      have hcount := h.consumed row.id
      rw [hfree] at hcount
      rw [if_pos rfl, hcount, consumptions, consumptions, hnew]
      rfl
    · rw [if_neg hid]
      exact h.consumed id

/-- **The invariant is kept by every step**, as long as the generation has room. -/
theorem fenceStep_sound (h : w.Sound) (hstep : fenceStep codec w ev = some w')
    (hb : w.db.currentGeneration < maxGeneration) : w'.Sound := by
  have hmove := fenceStep_move hstep
  have hlater := fenceStep_later hmove hb
  cases hmove with
  | record hc =>
    refine h.frame hlater (h.drafts_update _ fun row k hdraft => ?_) rfl rfl rfl
    cases hdraft
    exact ⟨rfl, rfl, rfl, rfl, le_rfl, le_rfl, le_rfl⟩
  | insert hc ht => exact h.insert hlater hc ht rfl rfl rfl rfl
  | consumed hrow haction hactor hnew hlive hgen =>
    exact h.consume hlater hrow hnew rfl rfl rfl rfl
  | refused | reconciled => exact h.frame hlater h.drafts rfl rfl rfl
  | finish hc hg | marked hc hg => exact h.frame hlater h.drafts hc rfl rfl
  | crash => exact h.frame hlater (fun _ _ _ hd => by cases hd) rfl rfl rfl

/-- The header field never shrinks, and grows when a job finishes or a reconciliation completes. -/
theorem fenceStep_applicationId (hstep : fenceStep codec w ev = some w')
    (hb : w.db.currentGeneration < maxGeneration) :
    w.db.applicationId ≤ w'.db.applicationId ∧
      (w.finished < w'.finished ∨ w.reconciled < w'.reconciled →
        w.db.applicationId < w'.db.applicationId) := by
  have hbump := applicationId_lt_bump hb
  have hstay {a b : ℤ} (hab : a = b) (hf : w'.finished = w.finished)
      (hr : w'.reconciled = w.reconciled) :
      b ≤ a ∧ (w.finished < w'.finished ∨ w.reconciled < w'.reconciled → b < a) := by
    refine ⟨hab.ge, fun hgrow => ?_⟩
    omega
  cases fenceStep_move hstep with
  | record | insert | consumed | refused | crash => exact hstay rfl rfl rfl
  | finish hc hg => exact ⟨hg ▸ hbump.le, fun _ => hg ▸ hbump⟩
  | marked hc hg =>
    rcases hg with hg | hg
    · exact hstay hg rfl rfl
    · exact ⟨hg ▸ hbump.le, fun _ => hg ▸ hbump⟩
  | reconciled => exact ⟨hbump.le, fun _ => hbump⟩

/-- Only a consumption changes a count, and the row it finds allowed it. -/
theorem fenceStep_consumed {id : ℕ} (hstep : fenceStep codec w ev = some w')
    (hgrow : w.consumed id < w'.consumed id) :
    ∃ now stamp auditAt row, ev = .consume now stamp auditAt row.actor row.action id ∧
      w.db.confirmations.find id = some row ∧ now < row.expiresAt ∧
      row.stateGeneration = w.db.currentGeneration := by
  cases fenceStep_move hstep with
  | consumed hrow haction hactor hnew hlive hgen =>
    rename_i now stamp auditAt actor action id' row
    have hid : id = id' := by
      by_contra hne
      simp only [update_of_ne hne] at hgrow
      exact lt_irrefl _ hgrow
    subst hid hactor haction
    exact ⟨now, stamp, auditAt, row, rfl, hrow, hlive, hgen⟩
  | record | insert | refused | finish | marked | reconciled | crash =>
    exact absurd hgrow (lt_irrefl _)

/-- **The confirmation fence.**  In every run in which the generation has room, an id is consumed at
most once; a step that consumes it is a call with the actor and the action of its creation, before
its expiry, and no job has finished and no reconciliation has completed since its generation was
recorded; and the stored generation never shrinks, and grows whenever a job finishes or a
reconciliation completes. -/
theorem confirmation_fence (codec : ResponseCodec R τ) (w₀ w : FenceWorld τ)
    (es : List FenceEvent) (h₀ : w₀.Fresh)
    (hrun : Transition.run (fenceStep codec) w₀ es = some w)
    (hroom : Transition.Along (fenceStep codec)
      (fun s _ _ => s.db.currentGeneration < maxGeneration) w₀ es) :
    (∀ id, w.consumed id ≤ 1) ∧
    (∀ ev w' id, fenceStep codec w ev = some w' → w.consumed id < w'.consumed id →
      ∃ now stamp auditAt k, w.creations id = some k ∧
        ev = .consume now stamp auditAt k.actor k.action id ∧
        now < k.createdAt + confirmationLifetime ∧
        k.finished = w.finished ∧ k.reconciled = w.reconciled) ∧
    (∀ ev w', fenceStep codec w ev = some w' → w.db.currentGeneration < maxGeneration →
      w.db.applicationId ≤ w'.db.applicationId ∧
      (w.finished < w'.finished ∨ w.reconciled < w'.reconciled →
        w.db.applicationId < w'.db.applicationId)) := by
  have hsound : w.Sound :=
    Transition.along_invariant (fun _ _ _ hs hstep hb => fenceStep_sound hs hstep hb)
      h₀.sound hroom hrun
  refine ⟨fun id => ?_, fun ev w' id hstep hgrow => ?_, fun ev w' hstep hb => ?_⟩
  · rw [hsound.consumed id]
    unfold consumptions
    split
    · exact Nat.zero_le 1
    · split
      · exact le_rfl
      · exact Nat.zero_le 1
  · obtain ⟨now, stamp, auditAt, row, rfl, hrow, hlive, hgen⟩ := fenceStep_consumed hstep hgrow
    obtain ⟨k, hk, hrec⟩ := hsound.rows id row hrow
    obtain ⟨hfinished, hreconciled⟩ := hrec.current hgen
    refine ⟨now, stamp, auditAt, k, hk, ?_, ?_, hfinished, hreconciled⟩
    · rw [hrec.actor, hrec.action]
    · rw [← hrec.expires]
      exact hlive
  · exact fenceStep_applicationId hstep hb

end Fence

/-! ### One prepared switch -/

def newFence : FenceWorld (Option (RpcResponse ℕ)) :=
  ⟨{ Db.new _ with applicationId := 3 }, fun _ => none, 0, 0, fun _ => none, fun _ => 0⟩

theorem newFence_fresh : newFence.Fresh := ⟨rfl, fun _ => rfl, fun _ => rfl⟩

/-- A switch is prepared, while a job finishes between the recording of another confirmation and its
insertion. -/
def preparedSwitch : List FenceEvent :=
  [.record 0 ⟨70, 0⟩ "web:admin" "force_stop" .minecraft [],
   .finish 1 ⟨1, 1⟩ 5 "web:admin" "command" (some .minecraft) ⟨true, none, "", none⟩,
   .insert 0,
   .record 1 ⟨71, 2⟩ "web:admin" "switch" .minecraft [], .insert 1]

/-- The confirmation that was recorded last is consumed, and nothing had finished since then. -/
theorem confirmation_fence_prepared :
    ∃ w w', Transition.run (fenceStep (.plain ℕ)) newFence preparedSwitch = some w ∧
      fenceStep (.plain ℕ) w (.consume 3 4 ⟨2, 3⟩ "web:admin" "switch" 71) = some w' ∧
      w.consumed 71 < w'.consumed 71 ∧
      ∃ k, w.creations 71 = some k ∧ k.finished = w.finished := by
  obtain ⟨w, w', hw, hstep, hgrow⟩ : ∃ w w',
      Transition.run (fenceStep (.plain ℕ)) newFence preparedSwitch = some w ∧
      fenceStep (.plain ℕ) w (.consume 3 4 ⟨2, 3⟩ "web:admin" "switch" 71) = some w' ∧
      w.consumed 71 < w'.consumed 71 :=
    ⟨_, _, rfl, rfl, by decide⟩
  obtain ⟨-, hfence, -⟩ :=
    confirmation_fence (.plain ℕ) newFence w preparedSwitch newFence_fresh hw (by decide)
  obtain ⟨_, _, _, k, hk, -, -, hfinished, -⟩ := hfence _ w' 71 hstep hgrow
  exact ⟨w, w', hw, hstep, hgrow, k, hk, hfinished⟩

end Horizon
