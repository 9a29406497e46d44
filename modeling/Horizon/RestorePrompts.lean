/-
**Restore prompts and retirement.**

`_prepare_restore` inserts a confirmation with a life of five minutes, and `_confirm_restore`
consumes it; a prompt that nobody answers stays in the table, for rows of confirmations are never
removed.  The three phases of a retirement are refused while a restore confirmation is unconsumed:
`_assert_confirmations_clear` and `_assert_catalog_eligible` look at `consumed_at` alone, and not at
`expires_at`.

So it depends on the history of prompts whether only a live one stands in the way.  The first part
follows the history: a row is there for every prompt, it expires five minutes after the prompt, and
it is consumed if the prompt was answered.  The second part follows the calls: which of their checks
can give one of the two refusals.

Main results:

* `only_live_prompts_block_iff` — **when only a live prompt blocks a retirement**;
* `expired_prompt_blocks` — a history with one that is not live.
-/

import Horizon.Confirmation
import Horizon.PayloadSafety

namespace Horizon

open Transition (run)
open Function

/-! ### The history -/

/-- `_prepare_restore`: the two halves of its `_create_confirmation`. -/
def prepareRestore (call : ℕ) (draw : Draw) (actor : String) (profileId : ProfileId)
    (backupId : String) : List FenceEvent :=
  [.record call draw actor "restore" profileId [("backup_id", .str backupId)], .insert call]

/-- The `_consume_confirmation` of `_confirm_restore`. -/
def confirmRestore (now stamp : ℤ) (auditAt : Draw) (actor : String) (id : ℕ) : FenceEvent :=
  .consume now stamp auditAt actor "restore" id

section History

variable {R τ : Type} {codec : ResponseCodec R τ} {w w' : FenceWorld τ} {ev : FenceEvent}

/-- The row is the one that its creation made, up to `consumed_at`. -/
structure Prompt (row : ConfirmationRow) (k : Creation) : Prop where
  action : row.action = k.action
  expires : row.expiresAt = k.createdAt + confirmationLifetime

/-- What the table, the ghost `creations` and the ghost `consumed` say about one id. -/
def Accounted (n : ℕ) : Option ConfirmationRow → Option Creation → Prop
  | none, none => n = 0
  | some row, some k => Prompt row k ∧ (n = 0 ↔ row.consumedAt = none)
  | _, _ => False

/-- The invariant of a history; unlike that of the fence it does not look at the generation. -/
structure FenceWorld.Prompted (w : FenceWorld τ) : Prop where
  drafts : ∀ c row k, w.drafts c = some (row, k) → row.consumedAt = none ∧ Prompt row k
  rows : ∀ id, Accounted (w.consumed id) (w.db.confirmations.find id) (w.creations id)

/-- **What one event leaves in the table.** -/
theorem fenceStep_prompted (h : w.Prompted) (hstep : fenceStep codec w ev = some w') :
    w'.Prompted := by
  cases fenceStep_move hstep with
  | @record call draw actor action profileId payload hc =>
    refine ⟨?_, h.rows⟩
    intro c row k hd
    dsimp only at hd
    by_cases he : c = call
    · subst he
      rw [update_self] at hd
      cases hd
      exact ⟨rfl, rfl, rfl⟩
    · rw [update_of_ne he] at hd
      exact h.drafts c row k hd
  | @insert call row creation t hc ht =>
    obtain ⟨hnew, hprompt⟩ := h.drafts call row creation hc
    have hfree := (Sqlite.Table.insert_eq_some ht).1
    constructor
    · intro c row' k hd
      dsimp only at hd
      by_cases he : c = call
      · subst he
        rw [update_self] at hd
        cases hd
      · rw [update_of_ne he] at hd
        exact h.drafts c row' k hd
    · intro id
      have hold := h.rows id
      dsimp only
      rw [Sqlite.Table.find_insert ht id]
      by_cases hid : row.id = id
      · subst hid
        rw [hfree] at hold
        have hzero : w.consumed row.id = 0 := by
          cases hk : w.creations row.id with
          | none => rw [hk] at hold; exact hold
          | some k => rw [hk] at hold; exact hold.elim
        rw [if_pos rfl, update_self]
        exact ⟨hprompt, iff_of_true hzero hnew⟩
      · rw [if_neg hid, update_of_ne (Ne.symm hid)]
        exact hold
  | @consumed now stamp auditAt actor action id row hrow haction hactor hnew hlive hgen =>
    refine ⟨h.drafts, ?_⟩
    intro id'
    have hold := h.rows id'
    by_cases hid : id' = id
    · subst hid
      dsimp only
      rw [find_consumeRow_self stamp hrow hnew, update_self]
      rw [hrow] at hold
      cases hk : w.creations id' with
      | none => rw [hk] at hold; exact hold.elim
      | some k =>
        rw [hk] at hold
        exact ⟨⟨hold.1.action, hold.1.expires⟩, iff_of_false (Nat.succ_ne_zero _) nofun⟩
    · dsimp only
      rw [find_consumeRow_of_ne stamp row.stateGeneration hid, update_of_ne hid]
      exact hold
  | refused | reconciled => exact ⟨h.drafts, h.rows⟩
  | finish hc hg | marked hc hg =>
    refine ⟨h.drafts, ?_⟩
    intro id
    rw [hc]
    exact h.rows id
  | crash =>
    refine ⟨?_, h.rows⟩
    intro c row k hd
    cases hd

/-- A restore prompt that was not confirmed. -/
structure FenceWorld.Unanswered (w : FenceWorld τ) (id : ℕ) (k : Creation) : Prop where
  created : w.creations id = some k
  restore : k.action = "restore"
  unconsumed : w.consumed id = 0

/-- A restore confirmation that is unconsumed. -/
def ConfirmationRow.Pending (row : ConfirmationRow) : Prop :=
  row.action = "restore" ∧ row.consumedAt = none

instance (row : ConfirmationRow) : Decidable row.Pending := inferInstanceAs (Decidable (_ ∧ _))

theorem FenceWorld.Prompted.pending (h : w.Prompted) {row : ConfirmationRow}
    (hrow : row ∈ w.db.confirmations.rows) (hpending : row.Pending) :
    ∃ k, w.Unanswered row.id k ∧ row.expiresAt = k.createdAt + confirmationLifetime := by
  have hold := h.rows row.id
  rw [Sqlite.Table.find_of_mem hrow] at hold
  cases hk : w.creations row.id with
  | none => rw [hk] at hold; exact hold.elim
  | some k =>
    rw [hk] at hold
    obtain ⟨hprompt, hconsumed⟩ := hold
    exact ⟨k, ⟨hk, hprompt.action ▸ hpending.1, hconsumed.mpr hpending.2⟩, hprompt.expires⟩

theorem FenceWorld.Prompted.row (h : w.Prompted) {id : ℕ} {k : Creation} (hk : w.Unanswered id k) :
    ∃ row ∈ w.db.confirmations.rows, row.Pending ∧
      row.expiresAt = k.createdAt + confirmationLifetime := by
  have hold := h.rows id
  rw [hk.created] at hold
  cases hfind : w.db.confirmations.find id with
  | none => rw [hfind] at hold; exact hold.elim
  | some row =>
    rw [hfind] at hold
    obtain ⟨hprompt, hconsumed⟩ := hold
    exact ⟨row, Sqlite.Table.find_mem hfind,
      ⟨hprompt.action.trans hk.restore, hconsumed.mp hk.unconsumed⟩, hprompt.expires⟩

end History

variable {message : String}

namespace Retirement

open Coroutine (Coro Triple)

/-! ### Which checks refuse because of a confirmation -/

/-- The refusals of `_assert_confirmations_clear` and of the end of `_assert_catalog_eligible`. -/
def promptRefusals : List SafeError :=
  [retirementFailed "a restore confirmation is pending",
    retirementFailed "backup has a live restore confirmation"]

/-- The check does not refuse because of a confirmation. -/
def Unblamed {α : Type} (x : Except SafeError α) : Prop := ∀ e, x = .error e → e ∉ promptRefusals

namespace Unblamed

variable {α β : Type} {condition : Bool}

theorem ok (a : α) : Unblamed (.ok a) := nofun

theorem error {e : SafeError} (h : e ∉ promptRefusals) :
    Unblamed (.error e : Except SafeError α) := by
  intro e' he
  cases he
  exact h

theorem rejectWhen (h : retirementFailed message ∉ promptRefusals) :
    Unblamed (Retirement.rejectWhen condition message) := by
  cases condition with
  | false => exact ok ()
  | true => exact error h

theorem rejectWhen_false (h : condition = false) :
    Unblamed (Retirement.rejectWhen condition message) := by
  subst h
  exact ok ()

theorem bind {x : Except SafeError α} {k : α → Except SafeError β} (hx : Unblamed x)
    (hk : ∀ a, Unblamed (k a)) : Unblamed (x >>= k) := by
  cases x with
  | error e => exact error (hx e rfl)
  | ok a => exact hk a

theorem check {k : PUnit → Except SafeError β} (h : retirementFailed message ∉ promptRefusals)
    (hk : Unblamed (k ())) : Unblamed (Retirement.rejectWhen condition message >>= k) :=
  (rejectWhen h).bind fun _ => hk

theorem forM {f : β → Except SafeError PUnit} (l : List β) (h : ∀ b, Unblamed (f b)) :
    Unblamed (l.forM f) := by
  induction l with
  | nil => exact ok _
  | cons b l ih => exact (h b).bind fun _ => ih

end Unblamed

section Checks

variable (m : RetirementManifest) (entry : ManifestEntry) (l : Ledger)

theorem verifyPayload_unblamed (checkCtime : Bool) (found : Option PayloadFile) :
    Unblamed (verifyPayload entry checkCtime found) := by
  cases found with
  | none => exact .error (by decide)
  | some f =>
    refine .check (by decide) ?_
    refine .check (by decide) ?_
    refine .check (by decide) ?_
    refine .check (by decide) ?_
    refine .check (by decide) ?_
    exact .rejectWhen (by decide)

theorem operationBinding_unblamed (exact : Bool) : Unblamed (m.operationBinding exact l) := by
  unfold RetirementManifest.operationBinding
  dsimp only
  split
  · exact .ok ()
  · refine .check (by decide) <| .forM _ fun row => ?_
    cases lastBy (·.backupId) m.entries row.backupId with
    | none => exact .error (by decide)
    | some entry => exact .check (by decide) (.rejectWhen (by decide))

theorem phaseAdmissible_unblamed (phase : Phase) : Unblamed (m.phaseAdmissible phase l) := by
  refine .forM _ fun row => .rejectWhen ?_
  cases phase <;> cases row.state <;> decide

theorem assertReceipt_unblamed : Unblamed m.assertReceipt := by
  refine .check (by decide) ?_
  refine .check (by decide) <| .forM _ fun entry => ?_
  cases lastBy (·.backupId) m.receipt.members entry.backupId with
  | none => exact .error (by decide)
  | some member =>
    refine .check (by decide) ?_
    exact .check (by decide) (.rejectWhen (by decide))

theorem noPurgeIntent_unblamed : Unblamed (m.noPurgeIntent l) :=
  .forM _ fun _ => .rejectWhen (by decide)

theorem planEntries_unblamed (svc : RetirementService) (entries : List ManifestEntry) :
    Unblamed (svc.planEntries m entries) := by
  induction entries with
  | nil => exact .ok _
  | cons entry rest ih =>
    refine .bind ?_ fun _ => ih.bind fun _ => .ok _
    unfold RetirementService.planEntry
    cases svc.backupRoot entry.profileId with
    | none => exact .error (by decide)
    | some root =>
      dsimp only
      split
      · exact .ok _
      · exact .error (by decide)

theorem ledgerWrite_unblamed (row : LedgerRow) :
    (ledgerWrite row).RaisesOnly fun e => e ∉ promptRefusals := by
  intro l
  dsimp only
  split
  · split
    · split
      · intro _
        trivial
      · show retirementFailed _ ∉ promptRefusals
        decide
    · show retirementFailed _ ∉ promptRefusals
      decide
  · intro l
    dsimp only
    split
    · show retirementFailed _ ∉ promptRefusals
      decide
    · intro _
      trivial

end Checks

/-- The call does not end with a refusal because of a confirmation. -/
def Unblocked {α : Type} (m : Call α) : Prop :=
  Triple (fun _ => True) m (fun _ _ => True) fun failure _ =>
    ∀ e ∈ promptRefusals, failure ≠ .safe e

namespace Unblocked

variable {α β : Type} {ω : Oracle} {m : Call α}

theorem pure (a : α) : Unblocked (Pure.pure a : Call α) := Triple.pure fun _ _ => trivial

theorem refuse (h : retirementFailed message ∉ promptRefusals) :
    Unblocked (refuse message : Call α) := by
  refine .raise fun _ _ e he hfailure => h ?_
  cases hfailure
  exact he

theorem bind {k : α → Call β} (hm : Unblocked m) (hk : ∀ a, Unblocked (k a)) :
    Unblocked (m >>= k) :=
  Triple.bind hm hk

theorem next {n : Call β} (hm : Unblocked m) (hn : Unblocked n) : Unblocked (m >>= fun _ => n) :=
  Triple.next hm hn

theorem ite {q : Prop} [Decidable q] {m' : Call α} (h : Unblocked m) (h' : Unblocked m') :
    Unblocked (if q then m else m') :=
  Triple.ite h h'

theorem forM {f : β → Call PUnit} (l : List β) (h : ∀ b, Unblocked (f b)) : Unblocked (l.forM f) :=
  Triple.forM (I := fun _ _ => True) l fun _ b _ _ => h b

theorem observe {f : Moment → PayloadStore → Except SafeError α}
    (h : ∀ k v w, ω k = some v → Unblamed (f v w)) : Unblocked (observe ω f) := by
  intro s _
  unfold Coro.run Retirement.observe
  cases hω : ω s.moments with
  | none =>
    intro e _
    exact nofun
  | some v =>
    cases hf : f v s.store with
    | ok a =>
      simp only [hf]
    | error e =>
      simp only [hf]
      intro e' he' heq
      cases heq
      exact h _ v _ hω e hf he'

theorem rename (source target : Path) : Unblocked (renameNoreplace ω source target) := by
  intro s _
  unfold Coro.run renameNoreplace
  cases hω : ω s.moments with
  | none =>
    intro e _
    exact nofun
  | some v =>
    cases hr : Filesystem.rename (PayloadFile.moved v.now) source target s.files with
    | ok files => simp only [hr]
    | error e =>
      cases e
      all_goals
        simp only [hr]
        decide

theorem unlink (path : Path) : Unblocked (unlinkPayload ω path) := by
  intro s _
  unfold Coro.run unlinkPayload
  cases hω : ω s.moments with
  | none =>
    intro e _
    exact nofun
  | some v =>
    cases hu : Filesystem.unlink path s.files with
    | some files => exact trivial
    | none =>
      intro e _
      exact nofun

theorem record (m : RetirementManifest) (item : PlanEntry) (state : PayloadState)
    (error : Option String) : Unblocked (record ω m item state error) := by
  intro s _
  unfold Coro.run Retirement.record
  cases hω : ω s.moments with
  | none =>
    intro e _
    exact nofun
  | some v =>
    have hraises := ledgerWrite_unblamed (rowOf m item state error v.now)
    rcases hexec : (ledgerWrite (rowOf m item state error v.now)).exec v.faults s.ledger with ⟨c, r⟩
    cases r with
    | value u => simp only [hexec]
    | raised e =>
      simp only [hexec]
      intro e' he' heq
      cases heq
      exact hraises.exec v.faults s.ledger (by rw [hexec]) he'
    | sqliteError =>
      simp only [hexec]
      intro e _
      exact nofun

end Unblocked

/-! ### Without a pending confirmation -/

section Calls

variable {svc : RetirementService} {ω : Oracle} {m : RetirementManifest} {item : PlanEntry}
  {ownJob : Option ℕ} {prior : List (OperationId × BackupId)} {α : Type}

/-- No moment of the call shows an unconsumed restore confirmation. -/
def NonePending (ω : Oracle) : Prop := ∀ k v, ω k = some v → ∀ row ∈ v.confirmations, ¬ row.Pending

theorem assertLease_unblocked : Unblocked (assertLease ω) := by
  refine .observe fun k v w _ => ?_
  split
  · exact .ok ()
  · exact .error (by decide)

theorem look_unblocked (f : Moment → PayloadStore → α) :
    Unblocked (observe ω fun v w => .ok (f v w)) :=
  .observe fun _ _ _ _ => .ok _

theorem Unblocked.look {β : Type} {f : Moment → PayloadStore → α} {k : α → Call β}
    (hk : ∀ a, Unblocked (k a)) : Unblocked (Retirement.observe ω (fun v w => .ok (f v w)) >>= k) :=
  (look_unblocked f).bind hk

theorem verify_unblocked (entry : ManifestEntry) (path : Path) (checkCtime : Bool) :
    Unblocked (verify ω entry path checkCtime) :=
  .observe fun _ _ _ _ => verifyPayload_unblamed entry checkCtime _

theorem planOf_unblocked : Unblocked (planOf svc ω m) :=
  .observe fun _ _ _ _ => planEntries_unblamed m svc _

theorem catalogEligible_unblocked (hω : NonePending ω) (entry : ManifestEntry) :
    Unblocked (assertCatalogEligible ω entry) := by
  refine .observe fun k v w hv => ?_
  unfold Moment.catalogEligible
  split
  · exact .error (by decide)
  · refine .check (by decide) ?_
    refine .check (by decide) ?_
    refine .check (by decide) ?_
    refine .check (by decide) <| .rejectWhen_false ?_
    rw [List.any_eq_false]
    intro row hrow hblocks
    obtain ⟨haction, hnew, -⟩ := of_decide_eq_true hblocks
    exact hω k v hv row hrow ⟨haction, hnew⟩

theorem assertBoundaries_unblocked (hω : NonePending ω) :
    Unblocked (assertBoundaries ω ownJob) := by
  refine .next (.observe fun k v w _ => ?_) (.observe fun k v w hv => ?_)
  · unfold Moment.jobsIdle
    split
    · exact .error (by decide)
    · exact .ok ()
  · refine .rejectWhen_false ?_
    rw [List.any_eq_false]
    intro row hrow hpending
    exact hω k v hv row hrow (of_decide_eq_true hpending)

theorem preflightItem_unblocked : Unblocked (preflightItem ω m prior item) := by
  refine .look fun archiveAbsent => .look fun quarantineAbsent => ?_
  refine .ite (.refuse (by decide)) (.ite (verify_unblocked _ _ _) ?_)
  exact .ite (verify_unblocked _ _ _) (.refuse (by decide))

theorem ensureQuarantine_unblocked : Unblocked (ensureQuarantine ω item) := by
  have hensure (directory : Path) : Unblocked (ensurePrivateDir ω directory) := by
    refine .observe fun k v w _ => ?_
    split
    · rename_i refusal _
      exact .error (by cases refusal <;> decide)
    · exact .ok ()
  exact (hensure _).next (hensure _)

theorem prepareItem_unblocked : Unblocked (prepareItem ω m item) := by
  refine .look fun state => .ite ?_ (.pure _)
  exact assertLease_unblocked.next (.record m item _ _)

theorem quarantineItem_unblocked (hω : NonePending ω) :
    Unblocked (quarantineItem ω m prior item) := by
  refine assertLease_unblocked.next ((catalogEligible_unblocked hω _).next ?_)
  refine .look fun state => .ite (verify_unblocked _ _ _) ?_
  refine .look fun moved => .ite ?_ ?_
  · refine (verify_unblocked _ _ _).next (assertLease_unblocked.next ?_)
    exact .record m item _ _
  · refine (verify_unblocked _ _ _).next (assertLease_unblocked.next ?_)
    refine (Unblocked.rename _ _).next (.look fun _ => ?_)
    exact .look fun _ => .record m item _ _

theorem opening_unblocked (hω : NonePending ω) {exact : Bool} {phase : Phase}
    {operationId : OperationId} {k : RetirementManifest → Call α} (hk : ∀ m, Unblocked (k m)) :
    Unblocked (do
      let m ← load svc ω operationId
      observe ω fun _ w => m.operationBinding exact w.ledger
      observe ω fun _ w => m.phaseAdmissible phase w.ledger
      acquireSender ω
      assertBoundaries ω ownJob
      k m) := by
  refine .bind (.observe fun _ v w _ => ?_) fun m => ?_
  · split
    · exact .ok _
    · exact .error (by decide)
  refine .next (.observe fun _ _ w _ => operationBinding_unblamed m w.ledger _) ?_
  refine .next (.observe fun _ _ w _ => phaseAdmissible_unblamed m w.ledger _) ?_
  refine .next (.observe fun _ v _ _ => ?_) ?_
  · split
    · exact .ok _
    · exact .error (by decide)
  exact (assertBoundaries_unblocked hω).next (hk m)

theorem quarantine_unblocked (hω : NonePending ω) (operationId : OperationId) :
    Unblocked (quarantine svc ω operationId ownJob) := by
  refine opening_unblocked hω fun m => .look fun prior => ?_
  have hpreflight : Unblocked (assertPreflight svc ω m) := by
    refine (Unblocked.forM _ (catalogEligible_unblocked hω)).next ?_
    refine .look fun _ => planOf_unblocked.bind fun items => ?_
    exact .forM _ fun _ => preflightItem_unblocked
  refine hpreflight.next (planOf_unblocked.bind fun items => ?_)
  refine (assertBoundaries_unblocked hω).next ?_
  refine (Unblocked.forM _ fun _ => ensureQuarantine_unblocked).next ?_
  refine (Unblocked.forM _ fun _ => prepareItem_unblocked).next ?_
  exact (Unblocked.forM _ fun _ => quarantineItem_unblocked hω).next (look_unblocked _)

theorem purgeReadyItem_unblocked : Unblocked (purgeReadyItem ω m item) := by
  refine .look fun state => .look fun quarantineAbsent => ?_
  refine .look fun archiveAbsent => ?_
  refine .ite (.ite (.refuse (by decide)) (.pure _)) (.ite ?_ ?_)
  · exact .ite (verify_unblocked _ _ _) (.ite (.refuse (by decide)) (.pure _))
  · exact .ite (.refuse (by decide)) (verify_unblocked _ _ _)

theorem purgeItem_unblocked (hω : NonePending ω) : Unblocked (purgeItem ω m item) := by
  refine assertLease_unblocked.next ((catalogEligible_unblocked hω _).next ?_)
  refine .look fun state => .look fun quarantineAbsent => ?_
  refine .ite (.ite (.refuse (by decide)) (.pure _)) (.ite (.ite (.refuse (by decide)) ?_) ?_)
  · refine .look fun archiveAbsent => ?_
    exact .ite (.refuse (by decide)) (.record m item _ _)
  · refine (verify_unblocked _ _ _).next (assertLease_unblocked.next ?_)
    refine (Unblocked.unlink _).next (.look fun _ => ?_)
    exact .record m item _ _

theorem purge_unblocked (hω : NonePending ω) (operationId : OperationId) :
    Unblocked (purge svc ω operationId ownJob) := by
  refine opening_unblocked hω fun m => ?_
  refine .next (.observe fun _ _ _ _ => assertReceipt_unblamed m) ?_
  refine (Unblocked.forM _ (catalogEligible_unblocked hω)).next ?_
  have hready : Unblocked (assertPurgeReady svc ω m) := by
    refine .next (.observe fun _ _ _ _ => .rejectWhen (by decide)) ?_
    exact planOf_unblocked.bind fun items => .forM _ fun _ => purgeReadyItem_unblocked
  refine hready.next (planOf_unblocked.bind fun items => ?_)
  refine (assertBoundaries_unblocked hω).next ?_
  refine (Unblocked.forM _ fun item => ?_).next ?_
  · refine .look fun state => .ite ?_ (.pure _)
    exact assertLease_unblocked.next (.record m item _ _)
  · exact (Unblocked.forM _ fun _ => purgeItem_unblocked hω).next (look_unblocked _)

theorem rollbackItem_unblocked : Unblocked (rollbackItem ω m prior item) := by
  refine assertLease_unblocked.next (.look fun state => ?_)
  refine .ite ?_ (.pure _)
  refine .look fun quarantineAbsent => .look fun archiveAbsent => ?_
  refine .ite ?_ (.ite ?_ ?_)
  · refine (verify_unblocked _ _ _).next (assertLease_unblocked.next ?_)
    refine (Unblocked.rename _ _).next (.look fun _ => ?_)
    refine .look fun _ => ?_
    exact (Unblocked.record m item _ _).bind .pure
  · refine (verify_unblocked _ _ _).next ?_
    exact (Unblocked.record m item _ _).bind .pure
  · exact (Unblocked.record m item _ _).bind .pure

theorem rollbackItems_unblocked (items : List PlanEntry) :
    Unblocked (rollbackItems ω m prior items) := by
  induction items with
  | nil => exact .pure _
  | cons item rest ih =>
    exact rollbackItem_unblocked.bind fun _ => ih.bind .pure

theorem rollback_unblocked (hω : NonePending ω) (operationId : OperationId) :
    Unblocked (rollback svc ω operationId ownJob) := by
  refine opening_unblocked hω fun m => ?_
  refine .next (.observe fun _ _ w _ => noPurgeIntent_unblamed m w.ledger) ?_
  refine .look fun prior => planOf_unblocked.bind fun items => ?_
  refine (rollbackItems_unblocked items).bind fun missing => ?_
  exact .look fun report => .pure _

/-- The call ends with one of the two refusals. -/
def Blocked (r : Except Failure RetirementReport) : Prop :=
  ∃ e ∈ promptRefusals, r = .error (.safe e)

/-- **Without an unconsumed restore confirmation no call is blocked.** -/
theorem run_unblocked (svc : RetirementService) {c : RetirementCall} (w : PayloadStore)
    (hc : NonePending c.oracle) : ¬ Blocked (c.run svc w).1 := by
  rintro ⟨e, he, hblocked⟩
  have hend {body : Call RetirementReport} (h : Unblocked body)
      (hrun : (body.run ⟨w.files, .opened w.ledger, 0⟩).1 = .error (.safe e)) : False := by
    rcases hr : body.run ⟨w.files, .opened w.ledger, 0⟩ with ⟨r, s⟩
    rw [hr] at hrun
    rcases Triple.elim h trivial hr with ⟨a, ha, -⟩ | ⟨failure, hfailure, hne⟩
    · exact absurd (hrun.symm.trans ha) nofun
    · exact hne e he (Except.error.inj (hfailure.symm.trans hrun))
  obtain ⟨phase, operationId, ownJob, ω⟩ := c
  cases phase with
  | quarantine => exact hend (quarantine_unblocked hc operationId) hblocked
  | purge => exact hend (purge_unblocked hc operationId) hblocked
  | rollback => exact hend (rollback_unblocked hc operationId) hblocked

end Calls

/-! ### The histories after which only a live prompt blocks -/

/-- The call is made at `now` or later, and reads these confirmations. -/
def RetirementCall.Sees (c : RetirementCall) (now : ℕ) (rows : List ConfirmationRow) : Prop :=
  ∀ k v, c.oracle k = some v → now ≤ v.now ∧ v.confirmations = rows

section Refusals

variable {α β : Type} {ω : Oracle} {f : Moment → PayloadStore → Except SafeError α} {s : CallState}
  {v : Moment}

theorem error_after {k : α → Call β} {a : α} {r : Except Failure β} (hv : ω s.moments = some v)
    (hf : f v s.store = .ok a) (hk : ((k a).run s.next).1 = r) :
    ((observe ω f >>= k).run s).1 = r := by
  have hstep : (observe ω f).run s = (.ok a, s.next) := by
    unfold Coro.run observe
    rw [hv]
    dsimp only
    rw [hf]
  rw [Coro.run_bind, hstep]
  exact hk

theorem error_at {e : SafeError} (hv : ω s.moments = some v) (hf : f v s.store = .error e) :
    ((observe ω f).run s).1 = .error (.safe e) := by
  unfold Coro.run observe
  rw [hv]
  dsimp only
  rw [hf]

theorem error_before {m : Call α} {k : α → Call β} {e : Failure} (h : (m.run s).1 = .error e) :
    ((m >>= k).run s).1 = .error e := by
  rw [Coro.run_bind]
  rcases hm : m.run s with ⟨r, s'⟩
  rw [hm] at h
  cases h
  rfl

end Refusals

/-- A call that meets nothing but the confirmations. -/
def promptedCall (phase : Phase) (now : ℕ) (rows : List ConfirmationRow) : RetirementCall :=
  ⟨phase, "A", none, fun _ => some { calmMoment now with confirmations := rows }⟩

theorem promptedCall_blocked (phase : Phase) (now : ℕ) {rows : List ConfirmationRow}
    {row : ConfirmationRow} (hrow : row ∈ rows) (hpending : row.Pending) :
    Blocked ((promptedCall phase now rows).run sampleService sampleStore).1 := by
  have hany : (rows.any fun r => r.action = "restore" ∧ r.consumedAt = none) = true :=
    List.any_eq_true.mpr ⟨row, hrow, decide_eq_true hpending⟩
  refine ⟨retirementFailed "a restore confirmation is pending", by decide, ?_⟩
  have hopening (exact : Bool) (k : RetirementManifest → Call RetirementReport) :
      (Coro.run (do
        let m ← load sampleService (promptedCall phase now rows).oracle "A"
        observe (promptedCall phase now rows).oracle fun _ w => m.operationBinding exact w.ledger
        observe (promptedCall phase now rows).oracle fun _ w => m.phaseAdmissible phase w.ledger
        acquireSender (promptedCall phase now rows).oracle
        assertBoundaries (promptedCall phase now rows).oracle none
        k m) ⟨sampleStore.files, .opened sampleStore.ledger, 0⟩).1 =
          .error (.safe (retirementFailed "a restore confirmation is pending")) := by
    have hclear : Moment.confirmationsClear { calmMoment now with confirmations := rows } =
        .error (retirementFailed "a restore confirmation is pending") := by
      unfold Moment.confirmationsClear
      rw [hany]
      rfl
    refine error_after rfl rfl ?_
    refine error_after rfl (by cases exact <;> rfl) ?_
    refine error_after rfl rfl ?_
    refine error_after rfl rfl ?_
    exact error_before (error_after rfl rfl (error_at rfl hclear))
  cases phase <;> exact hopening _ _

/-- **When only a live prompt blocks a retirement.**  After any history of prompts: whoever calls a
phase, with whatever service and store, is refused because of a restore confirmation only if one is
unconsumed and expires after `now`, exactly when each prompt has been answered or one that has not
is younger than five minutes. -/
theorem only_live_prompts_block_iff {R τ : Type} (codec : ResponseCodec R τ) {w w' : FenceWorld τ}
    (hw : w.Fresh) (hnew : ∀ id, w.creations id = none) {history : List FenceEvent}
    (hrun : run (fenceStep codec) w history = some w') (now : ℕ) (phase : Phase) :
    (∀ (svc : RetirementService) (store : PayloadStore) (c : RetirementCall), c.phase = phase →
      c.Sees now w'.db.confirmations.rows → Blocked (c.run svc store).1 →
        ∃ row ∈ w'.db.confirmations.rows, row.Pending ∧ (now : ℤ) < row.expiresAt) ↔
    ((∃ id k, w'.Unanswered id k) →
      ∃ id k, w'.Unanswered id k ∧ (now : ℤ) < k.createdAt + confirmationLifetime) := by
  have hprompted : w'.Prompted := by
    refine Transition.run_invariant (fun _ _ _ h hstep => fenceStep_prompted h hstep) ?_ hrun
    refine ⟨fun c row k hd => ?_, fun id => ?_⟩
    · rw [hw.drafts] at hd
      cases hd
    · rw [hw.rows, Sqlite.Table.find_empty, hnew id]
      exact hw.consumed id
  constructor
  · rintro hblocks ⟨id, k, hk⟩
    obtain ⟨row, hrow, hpending, -⟩ := hprompted.row hk
    obtain ⟨row', hrow', hpending', hlive⟩ := hblocks sampleService sampleStore
      (promptedCall phase now w'.db.confirmations.rows) rfl
      (fun k v hv => by cases hv; exact ⟨le_rfl, rfl⟩)
      (promptedCall_blocked phase now hrow hpending)
    obtain ⟨k', hk', hexpires⟩ := hprompted.pending hrow' hpending'
    exact ⟨row'.id, k', hk', hexpires ▸ hlive⟩
  · intro hlive svc store c _ hsees hblocked
    by_cases hnone : ∃ row ∈ w'.db.confirmations.rows, row.Pending
    · obtain ⟨row, hrow, hpending⟩ := hnone
      obtain ⟨k, hk, -⟩ := hprompted.pending hrow hpending
      obtain ⟨id', k', hk', hyoung⟩ := hlive ⟨row.id, k, hk⟩
      obtain ⟨row', hrow', hpending', hexpires⟩ := hprompted.row hk'
      exact ⟨row', hrow', hpending', hexpires ▸ hyoung⟩
    · refine absurd hblocked (run_unblocked svc store ?_)
      intro k v hv row hrow hpending
      rw [(hsees k v hv).2] at hrow
      exact hnone ⟨row, hrow, hpending⟩

/-- A prompt that is answered after one second. -/
def answeredPrompt : List FenceEvent :=
  prepareRestore 0 ⟨70, 0⟩ "web:admin" .minecraft "b2" ++
    [confirmRestore 1000000000 1000000000 ⟨1, 0⟩ "web:admin" 70]

/-- It blocks nothing, at any time. -/
theorem only_live_prompts_block_iff_answered :
    ∃ w, run (fenceStep (.plain ℕ)) newFence answeredPrompt = some w ∧
      ∀ (now : ℕ) (phase : Phase) (svc : RetirementService) (store : PayloadStore)
        (c : RetirementCall), c.phase = phase → c.Sees now w.db.confirmations.rows →
          Blocked (c.run svc store).1 →
            ∃ row ∈ w.db.confirmations.rows, row.Pending ∧ (now : ℤ) < row.expiresAt := by
  refine ⟨_, rfl, fun now phase => ?_⟩
  refine (only_live_prompts_block_iff (.plain ℕ) newFence_fresh (fun _ => rfl)
    (rfl : run _ newFence answeredPrompt = some _) now phase).mpr ?_
  rintro ⟨id, k, hk⟩
  by_cases hid : id = 70
  · subst hid
    exact absurd hk.unconsumed (by decide)
  · exact absurd ((update_of_ne hid _ _).symm.trans hk.created) nofun

def abandonedPrompt : List FenceEvent := prepareRestore 0 ⟨70, 0⟩ "web:admin" .minecraft "b2"

/-- Six minutes later every phase is refused because of it. -/
theorem expired_prompt_blocks :
    ∃ w, run (fenceStep (.plain ℕ)) newFence abandonedPrompt = some w ∧
      (∀ phase, ((promptedCall phase 360000000000 w.db.confirmations.rows).run sampleService
        sampleStore).1 = .error (.safe (retirementFailed "a restore confirmation is pending"))) ∧
      ∀ row ∈ w.db.confirmations.rows, row.Pending ∧ row.expiresAt < 360000000000 := by
  refine ⟨_, rfl, fun phase => ?_, ?_⟩
  · cases phase <;> rfl
  · decide

end Retirement

end Horizon
