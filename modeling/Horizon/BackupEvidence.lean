/-
**No promotion without a backup of the same run.**

The request id, its authority, the idempotency rows of the controller and the capability live in
different places, and each of them survives a crash on its own.  A run that finds a request of an
earlier one never accepts its success as its own: the authority names the token of the reservation,
and tokens are not used twice.  So a request that is sent is always new, and its answer is not a
replay.

Main results:

* `Sunlit.backupRequestId_leads` — **a request is new when it is sent**;
* `Sunlit.promotion_backed` — every promotion follows a protected backup under the token of its run.
-/

import Horizon.UpdateRules

namespace Horizon.Sunlit

open Sunlit.Protection (full)
open Coroutine (Coro)
open Function

/-! ### The backup -/

/-- Between two runs: the authorities name tokens that were minted, the rows requests that were
drawn. -/
structure UpdateWorld.Sound (w : UpdateWorld) : Prop where
  authority : ∀ v a, (w.staging v).authority = some a → a.capability < w.minted
  rows : ∀ id, w.drawn ≤ id → w.rows id = none

/-- While the reservation is held and no request has been made: no authority names its token. -/
structure Unused (token : ℕ) (w : UpdateWorld) : Prop where
  authority : ∀ v a, (w.staging v).authority = some a → a.capability < token
  rows : ∀ id, w.drawn ≤ id → w.rows id = none
  minted : token < w.minted

/-- What may have been reported when a run ends: a promotion follows the backup. -/
def Backed (log : List RunEvent) : Prop :=
  .promoting ∈ log → ∃ operation token request backup,
    log = [.reserved operation token, .dispatched request token, .answered backup,
      .checked backup (some full), .promoting]

theorem UpdateWorld.Sound.lasting {w w' : UpdateWorld} (h : w.Sound) (hl : Later w w') :
    w'.Sound := by
  refine ⟨fun v a ha => ?_, fun id hid => ?_⟩
  · rw [hl.authority] at ha
    exact Nat.lt_of_lt_of_le (h.authority v a ha) hl.minted
  · exact hl.rows id (h.rows id (Nat.le_trans hl.drawn hid))

theorem Unused.lasting {token : ℕ} {w w' : UpdateWorld} (h : Unused token w) (hl : Later w w') :
    Unused token w' := by
  refine ⟨fun v a ha => ?_, fun id hid => ?_, Nat.lt_of_lt_of_le h.minted hl.minted⟩
  · rw [hl.authority] at ha
    exact h.authority v a ha
  · exact hl.rows id (h.rows id (Nat.le_trans hl.drawn hid))

variable {w : UpdateWorld} {log : List RunEvent} {l : List RunEvent} (v : Version) {request : ℕ}
  {backup : ℕ}

theorem Unused.sound {token : ℕ} (h : Unused token w) : w.Sound :=
  ⟨fun v a ha => Nat.lt_trans (h.authority v a ha) h.minted, h.rows⟩

/-- The request of this release was answered with a success, which the controller may have
forgotten. -/
def Spent (w : UpdateWorld) : Prop :=
  ∃ request, (w.staging v).requestId = some request ∧
    (w.rows request = none ∨ ∃ backup, w.rows request = some (.completed (.success backup)))

theorem Spent.lasting {v : Version} {w w' : UpdateWorld} (h : Spent v w) (hl : Later w w') :
    Spent v w' := by
  obtain ⟨request, hrequest, hrow⟩ := h
  refine ⟨request, (hl.requestId v).trans hrequest, ?_⟩
  rcases hrow with hnone | ⟨backup, hsuccess⟩
  · exact .inl (hl.rows request hnone)
  · rcases hl.completed request _ hsuccess with hkept | hpruned
    · exact .inr ⟨backup, hkept⟩
    · exact .inl hpruned

def Stopped : Fact := fun w l => w.Sound ∧ Backed l ∧ ((∃ backup, .answered backup ∈ l) → Spent v w)

theorem Stopped.lasting : Lasting (Stopped v) :=
  fun _ _ _ hl hw => ⟨hw.1.lasting hl, hw.2.1, fun ha => (hw.2.2 ha).lasting hl⟩

theorem stopped_of_sound {v : Version} (hp : .promoting ∉ log)
    (ha : ∀ backup, .answered backup ∉ log) (hw : w.Sound) (hl : l = log) : Stopped v w l := by
  subst hl
  exact ⟨hw, fun h => absurd h hp, fun ⟨backup, h⟩ => absurd h (ha backup)⟩

theorem stopped_of_spent {v : Version} (hp : .promoting ∉ log) (hw : w.Sound ∧ Spent v w)
    (hl : l = log) : Stopped v w l := by
  subst hl
  exact ⟨hw.1, fun h => absurd h hp, fun _ => hw.2⟩

section Backup

variable (ω : RunOracle) (release : Release) {operation token : ℕ}

/-- A request that has been drawn and not sent. -/
structure Unsent (v : Version) (request : ℕ) (w : UpdateWorld) : Prop where
  sound : w.Sound
  requestId : (w.staging v).requestId = some request
  drawn : request < w.drawn
  row : w.rows request = none

theorem Unsent.lasting {v : Version} {w w' : UpdateWorld} (h : Unsent v request w)
    (hl : Later w w') : Unsent v request w' :=
  ⟨h.sound.lasting hl, (hl.requestId v).trans h.requestId, Nat.lt_of_lt_of_le h.drawn hl.drawn,
    hl.rows _ h.row⟩

/-- The profile is reserved. -/
abbrev Reserved (operation token : ℕ) : Fact := fun w l =>
  Unused token w ∧ l = [.reserved operation token]

theorem reserved_lasting : Lasting (Reserved operation token) :=
  lasting_and fun _ _ h hl => h.lasting hl

theorem reserved_stopped {v : Version} (w : UpdateWorld) (l : List RunEvent)
    (h : Reserved operation token w l) : Stopped v w l :=
  stopped_of_sound (by simp) (by simp) h.1.sound h.2

/-- A request is ready to be sent. -/
abbrev Requested (v : Version) (operation token request : ℕ) : Fact := fun w l =>
  Unsent v request w ∧ l = [.reserved operation token]

/-- The request has its id, and its authority is still to be written. -/
theorem newRequest_drawn (h : Unused token w) :
    let w' : UpdateWorld := { w.setStaging release.version fun g =>
      { g with requestId := some w.drawn } with drawn := w.drawn + 1 }
    Unused token w' ∧ Unsent release.version w.drawn w' := by
  have hused : Unused token { w.setStaging release.version fun g =>
      { g with requestId := some w.drawn } with drawn := w.drawn + 1 } := by
    refine ⟨fun v a ha => ?_, fun id hid => h.rows id (Nat.le_of_succ_le hid), h.minted⟩
    simp only [UpdateWorld.setStaging] at ha
    by_cases hv : v = release.version
    · subst hv
      rw [update_self] at ha
      exact h.authority _ _ ha
    · rw [update_of_ne hv] at ha
      exact h.authority _ _ ha
  refine ⟨hused, hused.sound, ?_, Nat.lt_succ_self _, h.rows _ (Nat.le_refl _)⟩
  simp only [UpdateWorld.setStaging]
  rw [update_self]

theorem newRequest_leads :
    Leads False (Reserved operation token) (newRequest ω release operation token)
      (Requested release.version operation token) (Stopped release.version) := by
  refine .bind (Q := fun request w l => (Unused token w ∧ Unsent release.version request w) ∧
    l = [.reserved operation token]) ?_ fun request => ?_
  · refine .perform nofun reserved_lasting (fun _ => reserved_stopped)
      (fun _ w l _ hw _ _ => reserved_stopped w l hw) fun m w l a w' events hw _ hr => ?_
    cases hr
    refine ⟨newRequest_drawn release hw.1, ?_⟩
    rw [List.append_nil]
    exact hw.2
  · refine .bind (Q := fun _ => Requested release.version operation token request) ?_ fun _ =>
      .pure same
    refine .write nofun (lasting_and fun _ _ h hl => ⟨h.1.lasting hl, h.2.lasting hl⟩)
      (fun w l hw => reserved_stopped w l ⟨hw.1.1, hw.2⟩) fun w l hw => ?_
    obtain ⟨⟨hused, hunsent⟩, hlog⟩ := hw
    refine ⟨⟨⟨fun v a ha => ?_, hused.rows⟩, ?_, hunsent.drawn, hunsent.row⟩, hlog⟩
    · simp only [UpdateWorld.setStaging] at ha ⊢
      by_cases hv : v = release.version
      · subst hv
        rw [update_self] at ha
        cases ha
        exact hused.minted
      · rw [update_of_ne hv] at ha
        exact Nat.lt_trans (hused.authority v a ha) hused.minted
    · simp only [UpdateWorld.setStaging]
      rw [update_self]
      exact hunsent.requestId

/-- `_request_bound_to_live_lease` refuses the authorities of earlier runs. -/
theorem boundToLiveLease_fresh {S : Prop} {ω : RunOracle} (hω : S → ω.Steady) (release : Release)
    {P E : Fact} (hP : Lasting P) (hE : ∀ w l, P w l → E w l)
    (hfresh : ∀ w l, P w l → ∀ v a, (w.staging v).authority = some a → a.capability < token) :
    Leads S P (observe ω "backup request state is unsafe" fun _ w =>
        .ok (boundToLiveLease operation token request (w.staging release.version)))
      (fun bound w l => P w l ∧ bound = false) E := by
  refine .observe hω hP (fun _ => hE) (fun _ w l _ hw _ => hE w l hw)
    fun m w l bound hw _ hr => ⟨hw, ?_⟩
  cases hr
  refine decide_eq_false fun hbound => ?_
  exact absurd (hfresh w l hw _ _ hbound) (Nat.lt_irrefl _)

/-- **A request is new when it is sent**: the success of an earlier run is never bound to this
reservation. -/
theorem backupRequestId_leads :
    Leads False (Reserved operation token) (backupRequestId ω release operation token)
      (Requested release.version operation token) (Stopped release.version) := by
  have hlasting := @reserved_lasting operation token
  have hstop := @reserved_stopped operation token release.version
  refine ((Idle.observe nofun _ _).leads hlasting hstop).bind fun staging => ?_
  cases staging.requestId with
  | none => exact newRequest_leads ω release
  | some request =>
    refine ((Idle.observe nofun _ _).leads hlasting hstop).bind fun row => ?_
    cases row with
    | none => exact .refuse hstop
    | some row =>
      cases row with
      | pending => exact .refuse hstop
      | completed outcome =>
        cases outcome with
        | failure => exact .refuse hstop
        | prejobSlotConflict =>
          refine .bind (Idle.leads (Idle.write nofun ?_) hlasting hstop)
            fun _ => newRequest_leads ω release
          intro w
          exact .staging (fun _ => rfl) fun _ => rfl
        | success backup =>
          refine .bind (boundToLiveLease_fresh nofun release hlasting hstop
            fun w l hw => hw.1.authority) fun bound => ?_
          cases bound with
          | true => exact .impossible fun _ _ hw => absurd hw.2 nofun
          | false => exact .refuse fun w l hw => hstop w l hw.1

theorem createBackup_leads :
    Leads False (Requested release.version operation token request)
      (createBackup ω request token)
      (fun backup w l => (w.Sound ∧ Spent release.version w) ∧ l = [.reserved operation token,
        .dispatched request token, .answered backup]) (Stopped release.version) := by
  refine .bind (Q := fun answer w l => (w.Sound ∧ ∀ backup, answer = some (.success backup) →
    Spent release.version w) ∧ l = [.reserved operation token, .dispatched request token]) ?_
    fun answer => ?_
  · have hstop : ∀ w l, Requested release.version operation token request w l →
        Stopped release.version w l :=
      fun w l hw => stopped_of_sound (by simp) (by simp) hw.1.sound hw.2
    refine .perform nofun (lasting_and fun _ _ h hl => h.lasting hl) (fun _ => hstop)
      (fun _ w l _ hw _ _ => hstop w l hw) fun m w l a w' events hw _ hr => ?_
    obtain ⟨⟨hsound, hrequest, hdrawn, hrow⟩, rfl⟩ := hw
    rw [hrow] at hr
    cases hr
    refine ⟨⟨⟨hsound.authority, fun id hid => ?_⟩, fun backup hanswer => ?_⟩, rfl⟩
    · have hne : id ≠ request := by
        rintro rfl
        exact absurd hdrawn (Nat.not_lt_of_le hid)
      dsimp only
      rw [update_of_ne hne]
      exact hsound.rows id hid
    · refine ⟨request, hrequest, .inr ⟨backup, ?_⟩⟩
      dsimp only
      rw [update_self, hanswer]
  · have hstop : ∀ w l, (w.Sound ∧ ∀ backup, answer = some (.success backup) →
        Spent release.version w) ∧ l = [RunEvent.reserved operation token,
        .dispatched request token] → Stopped release.version w l :=
      fun w l hw => stopped_of_sound (by simp) (by simp) hw.1.1 hw.2
    cases answer with
    | none => exact .refuse hstop
    | some outcome =>
      cases outcome with
      | prejobSlotConflict | failure => exact .refuse hstop
      | success backup =>
        have hlasting : Lasting fun w l => (w.Sound ∧ ∀ backup',
            some (RpcOutcome.success backup) = some (.success backup') →
            Spent release.version w) ∧ l = [RunEvent.reserved operation token,
            .dispatched request token] :=
          lasting_and fun _ _ h hl => ⟨h.1.lasting hl, fun b hb => (h.2 b hb).lasting hl⟩
        refine .perform nofun hlasting (fun _ => hstop)
          (fun _ w l _ hw _ _ => hstop w l hw) fun m w l a w' events hw _ hr => ?_
        cases hr
        obtain ⟨⟨hsound, hspent⟩, rfl⟩ := hw
        exact ⟨⟨hsound, hspent backup rfl⟩, rfl⟩

def evidence (operation token request backup : ℕ) : List RunEvent :=
  [.reserved operation token, .dispatched request token, .answered backup,
    .checked backup (some full)]

theorem spent_lasting {v : Version} {L : List RunEvent → Prop} :
    Lasting fun w l => (w.Sound ∧ Spent v w) ∧ L l :=
  lasting_and fun _ _ h hl => ⟨h.1.lasting hl, h.2.lasting hl⟩

/-- The backup is complete. -/
abbrev Evidenced (v : Version) (operation token backup : ℕ) : Fact := fun w l =>
  (w.Sound ∧ Spent v w) ∧ ∃ request, l = evidence operation token request backup

theorem evidenced_stopped {v : Version} (w : UpdateWorld) (l : List RunEvent)
    (h : Evidenced v operation token backup w l) : Stopped v w l := by
  obtain ⟨hspent, request, hlog⟩ := h
  exact stopped_of_spent (by simp [evidence]) hspent hlog

theorem requestBackup_leads :
    Leads False (Reserved operation token) (requestBackup ω release operation token)
      (Evidenced release.version operation token) (Stopped release.version) := by
  refine (backupRequestId_leads ω release).bind fun request => ?_
  refine (createBackup_leads ω release).bind fun backup => ?_
  refine .bind (Q := fun row w l => (w.Sound ∧ Spent release.version w) ∧
    l = [.reserved operation token, .dispatched request token, .answered backup,
      .checked backup row]) ?_ fun row => ?_
  · refine .perform nofun spent_lasting (fun _ _ _ hw => stopped_of_spent (by simp) hw.1 hw.2)
      (fun _ _ _ _ hw _ _ => stopped_of_spent (by simp) hw.1 hw.2) fun m w l a w' events hw _ hr =>
        ?_
    cases hr
    obtain ⟨hspent, rfl⟩ := hw
    exact ⟨hspent, rfl⟩
  · refine .ite (fun hfull => ?_) fun _ => ?_
    · subst hfull
      exact .pure fun w l hw => ⟨hw.1, request, hw.2⟩
    · exact .refuse fun w l hw => stopped_of_spent (by simp) hw.1 hw.2

/-- The promotion itself touches the directories only. -/
theorem promoteCandidate_leads (pid : ℕ) :
    Leads False (Evidenced release.version operation token backup)
      (promoteCandidate ω release pid) (fun _ => Stopped release.version)
      (Stopped release.version) := by
  refine .bind (Q := fun _ w l => (w.Sound ∧ Spent release.version w) ∧ ∃ request,
    l = evidence operation token request backup ++ [.promoting]) ?_ fun _ => ?_
  · refine .perform nofun spent_lasting (fun _ => evidenced_stopped)
      (fun _ w l _ hw _ _ => evidenced_stopped w l hw) fun m w l a w' events hw _ hr => ?_
    cases hr
    obtain ⟨hspent, request, rfl⟩ := hw
    exact ⟨hspent, request, rfl⟩
  · rintro s ⟨-, ⟨hsound, hspent⟩, request, hlog⟩
    have hstopped (site : Site) : Stopped release.version { s.world with site := site } s.log :=
      ⟨⟨hsound.authority, hsound.rows⟩, fun _ => ⟨operation, token, request, backup, hlog⟩,
        fun _ => hspent⟩
    unfold Coro.run promotion
    dsimp only
    cases promotionResult _ <;> exact ⟨nofun, hstopped _⟩

theorem runReserved_leads (pid : ℕ) (installed : Option Version) :
    Leads False (Reserved operation token) (runReserved ω release pid operation token installed)
      (fun _ => Stopped release.version) (Stopped release.version) := by
  have hlasting := @reserved_lasting operation token
  have hstop := @reserved_stopped operation token release.version
  refine ((assertOwned_idle nofun).leads hlasting hstop).next ?_
  refine ((requireSpace_idle nofun release).leads hlasting hstop).next ?_
  refine ((stage_idle nofun release).leads hlasting hstop).next ?_
  refine ((assertOwned_idle nofun).leads hlasting hstop).next ?_
  refine ((requireSpace_idle nofun release).leads hlasting hstop).next ?_
  refine (requestBackup_leads ω release).bind fun backup => ?_
  refine ((assertOwned_idle nofun).leads spent_lasting evidenced_stopped).next ?_
  refine ((requireSpace_idle nofun release).leads spent_lasting evidenced_stopped).bind fun _ => ?_
  refine (promoteCandidate_leads ω release pid).next ?_
  have hstopped : Lasting (Stopped release.version) := .lasting _
  refine (assertOwned_idle nofun _ hstopped).next ?_
  refine (recordUpdate_idle nofun release installed _ hstopped).bind fun _ => ?_
  refine .bind (Q := fun _ => Stopped release.version) ?_ fun _ => .pure same
  refine Idle.write nofun ?_ _ hstopped
  intro w
  exact .staging (fun _ => rfl) fun _ => rfl

/-- **What a run has reported when it ends**, in whatever way. -/
theorem run_leads (pid : ℕ) : Leads False (fun w l => w.Sound ∧ l = []) (run ω release pid)
    (fun _ => Stopped release.version) (Stopped release.version) := by
  have hlasting : Lasting fun w l => w.Sound ∧ l = ([] : List RunEvent) :=
    lasting_and fun _ _ h hl => h.lasting hl
  have hstop : ∀ w l, w.Sound ∧ l = ([] : List RunEvent) → Stopped release.version w l :=
    fun w l hw => stopped_of_sound (by simp) (by simp) hw.1 hw.2
  refine ((Idle.observe nofun _ _).leads hlasting hstop).bind fun installed => ?_
  refine .ite (fun _ => .pure hstop) fun _ => ?_
  refine ((Idle.observe nofun _ _).leads hlasting hstop).bind fun inactive => ?_
  refine .ite (fun _ => .pure hstop) fun _ => ?_
  refine ((stagedOperationId_idle nofun release).leads hlasting hstop).bind fun operation => ?_
  refine .bind (Q := Leased (Stopped release.version) (Reserved operation)) ?_ fun lease => ?_
  · refine .perform nofun hlasting (fun _ => hstop) (fun _ w l _ hw _ _ => hstop w l hw)
      fun m w l a w' events hw _ hr => ?_
    obtain ⟨hsound, rfl⟩ := hw
    split at hr
    · cases hr
      exact ⟨⟨hsound.authority, hsound.rows, Nat.lt_succ_self _⟩, rfl⟩
    · cases hr
      exact hstop _ _ ⟨hsound, rfl⟩
  · cases lease with
    | none => exact .pure same
    | some token =>
      refine (runReserved_leads ω release pid installed).tryFinally (fun _ => ?_) ?_
      · exact close_idle nofun false _ (Stopped.lasting _)
      · exact close_idle nofun true _ (Stopped.lasting _)

end Backup

/-! ### Sequences of runs -/

theorem perform_stopped (r : UpdateRun) (hw : w.Sound) :
    Stopped r.release.version (r.perform w).2.world (r.perform w).2.log :=
  (run_leads r.oracle r.release r.pid).final ⟨hw, rfl⟩

theorem performAll_sound (runs : List UpdateRun) (hw : w.Sound) : (performAll runs w).Sound := by
  induction runs generalizing w with
  | nil => exact hw
  | cons r runs ih => exact ih (perform_stopped r hw).1

/-- **No promotion without a backup taken under the same lease.**  After any sequence of runs, each
of which may have stopped anywhere, whatever a run reports before it calls `promote_candidate` is
this: it has reserved the profile, its request has reached the handler of `create_backup` with the
token of that reservation, the answer names a backup, and the row of that backup is complete. -/
theorem promotion_backed (runs : List UpdateRun) (r : UpdateRun) {w : UpdateWorld} (hw : w.Sound)
    {before after : List RunEvent}
    (h : (r.perform (performAll runs w)).2.log = before ++ .promoting :: after) :
    ∃ operation token request backup, before = [.reserved operation token,
      .dispatched request token, .answered backup, .checked backup (some full)] := by
  obtain ⟨-, hbacked, -⟩ := perform_stopped r (performAll_sound runs hw)
  rw [h] at hbacked
  obtain ⟨operation, token, request, backup, hlog⟩ := hbacked (by simp)
  refine ⟨operation, token, request, backup, ?_⟩
  -- the promotion is the last of the five events
  rcases before with _ | ⟨a, _ | ⟨b, _ | ⟨c, _ | ⟨d, _ | ⟨e, rest⟩⟩⟩⟩⟩
  · cases hlog
  · cases hlog
  · cases hlog
  · cases hlog
  · cases hlog
    rfl
  · cases rest with
    | nil => cases hlog
    | cons e' rest => cases hlog

/-! ### An update -/

/-- Release `1.0` is installed. -/
def sampleSite : Site where
  releases := fun v => if v = "1.0" then some ⟨1, true, true, true⟩ else none
  stages := fun _ _ => none
  rollbacks := fun _ _ => none
  stateRoot := some ⟨7, [("1.0", ⟨1, true⟩)], some ⟨some "m1", some ⟨"1.0", "m1"⟩, []⟩, true, true⟩
  activeLink := some "1.0"
  candidates := fun _ => Candidate.absent

def sampleWorld : UpdateWorld := ⟨sampleSite, fun _ => Staging.new, fun _ => none, 0, 0, []⟩

def sampleRelease : Release := ⟨"2.0", 2, "m2"⟩

theorem sampleWorld_sound : sampleWorld.Sound := ⟨nofun, fun _ _ => rfl⟩

/-- Nothing is in the way, and the reservation with the given token is live. -/
def calmStep (token : ℕ) : RunMoment where
  controller := fun _ => some .pending
  broken := false
  aborted := false
  inactive := true
  available := true
  owned := true
  enoughSpace := true
  live := some token
  outcome := some (.success 40)
  protections := fun _ => some full
  fate := .go

def calmRun (token : ℕ) : UpdateRun := ⟨sampleRelease, 100, fun _ => some (calmStep token)⟩

/-- The process dies after it has reserved the profile. -/
def reservedRun : UpdateRun :=
  ⟨sampleRelease, 99, fun k => if k < 6 then some (calmStep 0) else none⟩

/-- The next run promotes, on a backup of its own. -/
theorem promotion_backed_second_run :
    sampleWorld.Sound ∧
      ((calmRun 1).perform (performAll [reservedRun] sampleWorld)).1 = .ok (.promoted 40) ∧
      ((calmRun 1).perform (performAll [reservedRun] sampleWorld)).2.log =
        [.reserved 0 1, .dispatched 1 1, .answered 40, .checked 40 (some full)] ++
          .promoting :: [] ∧
      ∃ operation token request backup,
        [RunEvent.reserved 0 1, .dispatched 1 1, .answered 40,
          .checked 40 (some full)] = [.reserved operation token,
          .dispatched request token, .answered backup, .checked backup (some full)] :=
  ⟨sampleWorld_sound, by rfl, by rfl,
    promotion_backed [reservedRun] (calmRun 1) sampleWorld_sound rfl⟩

end Horizon.Sunlit
