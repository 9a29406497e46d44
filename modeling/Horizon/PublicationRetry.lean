/-
**What becomes of an interrupted publication.**

A run that is interrupted inside `promote_candidate` leaves a request whose backup has succeeded.
Every later run of the same release finds that request: unless the release is already installed, it
refuses the success of the earlier run, and it does so before it writes anything but the staged
candidate.  So what was published when the first run stopped stays as it is.

Main results:

* `Sunlit.interrupted_publication` — **the next runs finish only what was already published**.
-/

import Horizon.BackupEvidence

namespace Horizon.Sunlit

/-! ### A spent request -/

/-- The request is spent, and the releases, the state and the active link are those of `site`. -/
structure Kept (v : Version) (site : Site) (w : UpdateWorld) : Prop where
  sound : w.Sound
  spent : Spent v w
  published : w.site.published = site.published

structure Held (v : Version) (site : Site) (token : ℕ) (w : UpdateWorld) : Prop where
  unused : Unused token w
  spent : Spent v w
  published : w.site.published = site.published

variable {v : Version} {token : ℕ} {site : Site} {w w' : UpdateWorld}

theorem Kept.lasting (h : Kept v site w) (hl : Later w w') :
    Kept v site w' :=
  ⟨h.sound.lasting hl, h.spent.lasting hl, hl.published.trans h.published⟩

theorem Held.lasting (h : Held v site token w)
    (hl : Later w w') : Held v site token w' :=
  ⟨h.unused.lasting hl, h.spent.lasting hl, hl.published.trans h.published⟩

variable (r : UpdateRun)

theorem Held.kept (h : Held v site token w) :
    Kept v site w := ⟨h.unused.sound, h.spent, h.published⟩

theorem installedVersion_published {site site' : Site} (h : site.published = site'.published) :
    installedVersion site = installedVersion site' := by
  simp only [Site.published, Prod.mk.injEq] at h
  obtain ⟨hreleases, hstate, hlink⟩ := h
  simp only [installedVersion, hreleases, hstate, hlink]

section Later

variable {S : Prop} {ω : RunOracle} (hω : S → ω.Steady) (release : Release) (site : Site)

/-- How a later run that finds another version installed ends. -/
def Refused (S : Prop) : Fact := fun w _ =>
  Kept release.version site w ∧ (S → installedVersion site ≠ .ok (some release.version))

/-- The run knows that the release is not installed. -/
def Pending (token : ℕ) : Fact := fun w _ =>
  Held release.version site token w ∧ installedVersion site ≠ .ok (some release.version)

theorem Pending.lasting (token : ℕ) : Lasting (Pending release site token) :=
  fun _ _ _ hl hw => ⟨hw.1.lasting hl, hw.2⟩

theorem Pending.refused (w : UpdateWorld) (l : List RunEvent) (h : Pending release site token w l) :
    Refused release site S w l :=
  ⟨h.1.kept, fun _ => h.2⟩

include hω

/-- **A spent request is never sent again**, and no other is drawn in its place. -/
theorem backupRequestId_refuses (operation token : ℕ) :
    Leads S (Pending release site token) (backupRequestId ω release operation token)
      (fun _ _ _ => False) (Refused release site S) := by
  have hlasting := Pending.lasting release site token
  have hrefused : ∀ w l, Pending release site token w l → Refused release site S w l :=
    Pending.refused release site
  refine .bind (Q := fun staging w l => Pending release site token w l ∧
    staging.requestId = (w.staging release.version).requestId) ?_ fun staging => ?_
  · refine .observe hω hlasting (fun _ => hrefused) (fun _ w l _ hw _ => hrefused w l hw) ?_
    intro m w l staging hw _ hr
    cases hr
    exact ⟨hw, rfl⟩
  cases hrequest : staging.requestId with
  | none =>
    refine .impossible fun w l hw => ?_
    obtain ⟨request, hspent, -⟩ := hw.1.1.spent
    rw [hspent] at hw
    exact absurd hw.2 nofun
  | some request =>
    refine .bind (Q := fun row w l => Pending release site token w l ∧
      (row = none ∨ ∃ backup, row = some (.completed (.success backup)))) ?_ fun row => ?_
    · refine .observe hω ?_ (fun _ w l hw => hrefused w l hw.1)
        (fun _ w l _ hw _ => hrefused w l hw.1) ?_
      · intro w w' l hl hw
        exact ⟨hlasting w w' l hl hw.1, hw.2.trans (hl.requestId _).symm⟩
      · intro m w l row hw _ hr
        cases hr
        obtain ⟨request', hspent, hrow⟩ := hw.1.1.spent
        have hsame : request = request' := Option.some.inj (hw.2.trans hspent)
        subst hsame
        exact ⟨hw.1, hrow⟩
    · cases row with
      | none => exact .refuse fun w l hw => hrefused w l hw.1
      | some row =>
        cases row with
        | pending => exact .refuse fun w l hw => hrefused w l hw.1
        | completed outcome =>
          cases outcome with
          | failure => exact .refuse fun w l hw => hrefused w l hw.1
          | prejobSlotConflict =>
            refine .impossible fun w l hw => ?_
            simp at hw
          | success backup =>
            refine .bind (.conseq (boundToLiveLease_fresh hω release hlasting
              hrefused fun w l hw => hw.1.unused.authority) (fun w l hw => hw.1)
              (fun _ _ _ hw => hw) fun _ _ hw => hw) fun bound => ?_
            cases bound with
            | true => exact .impossible fun _ _ hw => absurd hw.2 nofun
            | false => exact .refuse fun w l hw => hrefused w l hw.1

theorem runReserved_refuses (pid operation token : ℕ) (installed : Option Version) :
    Leads S (Pending release site token) (runReserved ω release pid operation token installed)
      (fun _ _ _ => False) (Refused release site S) := by
  have hlasting := Pending.lasting release site token
  have hrefused : ∀ w l, Pending release site token w l → Refused release site S w l :=
    Pending.refused release site
  refine ((assertOwned_idle hω).leads hlasting hrefused).next ?_
  refine ((requireSpace_idle hω release).leads hlasting hrefused).next ?_
  refine ((stage_idle hω release).leads hlasting hrefused).next ?_
  refine ((assertOwned_idle hω).leads hlasting hrefused).next ?_
  refine ((requireSpace_idle hω release).leads hlasting hrefused).bind fun _ => ?_
  refine .bind (Q := fun _ _ _ => False) ?_ fun _ => .impossible fun _ _ hw => hw
  refine (backupRequestId_refuses hω release site operation token).bind fun _ => ?_
  exact .impossible fun _ _ hw => hw

/-- **What a later run does.**  If nothing disturbs it, it returns `current` or raises, and which of
the two is decided by what was published before. -/
theorem run_kept (pid : ℕ) :
    Leads S (fun w _ => Kept release.version site w) (run ω release pid)
      (fun result w _ => Kept release.version site w ∧
        (S → result = .current ∧ installedVersion site = .ok (some release.version)))
      (Refused release site S) := by
  have hkept : Lasting fun w _ => Kept release.version site w := fun _ _ _ hl hw => hw.lasting hl
  refine .bind (Q := fun installed w _ => Kept release.version site w ∧
    installedVersion site = .ok installed) ?_ fun installed => ?_
  · refine .observe hω hkept (fun hS w l hw => ⟨hw, fun h => absurd h hS⟩) ?_ ?_
    · intro m w l e hw he
      rw [installedVersion_published hw.published] at he
      refine ⟨hw, fun _ h => ?_⟩
      rw [h] at he
      cases he
    · intro m w l installed hw _ hr
      rw [installedVersion_published hw.published] at hr
      exact ⟨hw, hr⟩
  by_cases hinstalled : installed = some release.version
  · rw [if_pos hinstalled]
    subst hinstalled
    exact .pure fun w l hw => ⟨hw.1, fun _ => ⟨rfl, hw.2⟩⟩
  rw [if_neg hinstalled]
  -- from here on the run knows that the release is not installed
  have hother : ∀ w, Kept release.version site w ∧ installedVersion site = .ok installed →
      installedVersion site ≠ .ok (some release.version) := by
    rintro w ⟨-, hw⟩ h
    rw [hw] at h
    exact hinstalled (Except.ok.inj h)
  have hlasting : Lasting fun w _ => Kept release.version site w ∧
      installedVersion site = .ok installed := fun _ _ _ hl hw => ⟨hw.1.lasting hl, hw.2⟩
  have hrefused : ∀ w (l : List RunEvent), Kept release.version site w ∧
      installedVersion site = .ok installed → Refused release site S w l :=
    fun w _ hw => ⟨hw.1, fun _ => hother w hw⟩
  refine .bind (Q := fun inactive w _ => (Kept release.version site w ∧
    installedVersion site = .ok installed) ∧ (S → inactive = true)) ?_ fun inactive => ?_
  · refine .observe hω hlasting (fun _ => hrefused) (fun _ w l _ hw _ => hrefused w l hw) ?_
    intro m w l inactive hw hcalm hr
    cases hr
    exact ⟨hw, fun hS => (hcalm hS).inactive⟩
  cases inactive with
  | false => exact .pure fun w l hw => ⟨hw.1.1, fun hS => absurd (hw.2 hS) nofun⟩
  | true =>
    refine .conseq ?_ (fun _ _ hw => hw.1) (fun _ _ _ hw => hw) fun _ _ hw => hw
    refine ((stagedOperationId_idle hω release).leads hlasting hrefused).bind fun operation => ?_
    refine .bind (Q := Leased (fun w _ => ¬ S ∧ Kept release.version site w)
      (Pending release site)) ?_ fun lease => ?_
    · refine .perform hω hlasting (fun _ => hrefused) (fun _ w l _ hw _ _ => hrefused w l hw) ?_
      intro m w l a w' events hw hcalm hr
      split_ifs at hr with havailable
      · cases hr
        have hsound := hw.1.sound
        exact ⟨⟨⟨hsound.authority, hsound.rows, Nat.lt_succ_self _⟩, hw.1.spent,
          hw.1.published⟩, hother w hw⟩
      · cases hr
        exact ⟨fun hS => havailable (hcalm hS).available, hw.1⟩
    · cases lease with
      | none => exact .pure fun w l hw => ⟨hw.2, fun hS => absurd hS hw.1⟩
      | some token =>
        have hrun : Leads S (Pending release site token) (.tryFinally
            (runReserved ω release pid operation token installed) fun failed =>
              .tryExcept (require ω "Sunlit update reservation could not be released"
                fun _ _ => true)
                fun e => if failed && e ≠ .died then pure () else .raise e)
            (fun _ _ _ => False) (Refused release site S) := by
          refine (runReserved_refuses hω release site pid operation token installed).tryFinally
            (fun _ => .impossible fun _ _ hw => hw) (close_idle hω true _ ?_)
          exact fun _ _ _ hl hw => ⟨hw.1.lasting hl, hw.2⟩
        exact hrun.conseq (fun _ _ hw => hw) (fun _ _ _ hw => hw.elim) fun _ _ hw => hw

end Later

/-! ### Later runs -/

theorem perform_kept (hw : Kept r.release.version site w) :
    Kept r.release.version site (r.perform w).2.world := by
  have hrun := (run_kept False.elim r.release site r.pid (ω := r.oracle)).conseq
    (fun _ _ hw => hw) (fun _ _ _ hw => hw.1) fun _ _ hw => hw.1
  exact hrun.final hw

theorem performAll_kept (runs : List UpdateRun)
    (hruns : ∀ r ∈ runs, r.release.version = v) (hw : Kept v site w) :
    Kept v site (performAll runs w) := by
  induction runs generalizing w with
  | nil => exact hw
  | cons r runs ih =>
    have hv : r.release.version = v := hruns r (.head _)
    refine ih (fun r' hr' => hruns r' (.tail _ hr')) ?_
    subst hv
    exact perform_kept r hw

theorem perform_steady (hr : r.oracle.Steady) (hw : Kept r.release.version site w) :
    ((r.perform w).1 = .ok .current ∧ installedVersion site = .ok (some r.release.version)) ∨
      ((∃ message, (r.perform w).1 = .error (.update message)) ∧
        installedVersion site ≠ .ok (some r.release.version)) := by
  have hend := run_kept (S := True) (fun _ => hr) r.release site r.pid (UpdateRun.start w)
    ⟨fun _ => rfl, hw⟩
  unfold UpdateRun.perform
  rcases hrun : (run r.oracle r.release r.pid).run (UpdateRun.start w) with ⟨result, s⟩
  rw [hrun] at hend
  cases result with
  | ok result =>
    obtain ⟨-, -, hcurrent⟩ := hend
    obtain ⟨rfl, hinstalled⟩ := hcurrent trivial
    exact .inl ⟨rfl, hinstalled⟩
  | error e =>
    obtain ⟨hupdate, -, hother⟩ := hend
    obtain ⟨-, message, rfl⟩ := hupdate trivial
    exact .inr ⟨⟨message, rfl⟩, hother trivial⟩

/-- `release.json` names the version. -/
def Site.Records (site : Site) (v : Version) : Prop :=
  ∃ record, (site.stateRoot.bind (·.metadata)).bind (·.release) = some record ∧ record.version = v

theorem installedVersion_ok (h : installedVersion site = .ok (some v)) :
    site.activeRelease = some v ∧ site.Records v := by
  unfold installedVersion at h
  split at h
  · cases h
  · rename_i record hrecord
    split at h
    · cases h
    · rename_i u hlink
      split at h
      · cases h
      · rename_i hrelease
        split at h <;> cases h
        rename_i hversion
        refine ⟨?_, record, hrecord, hversion.symm⟩
        unfold Site.activeRelease
        rw [hlink, Option.bind_some, if_pos (Option.isSome_iff_ne_none.2 fun hnone => ?_)]
        exact hrelease (by rw [hnone]; rfl)

/-- A run that has called `promote_candidate` leaves a spent request. -/
theorem promoting_kept (hw : w.Sound) (hr : .promoting ∈ (r.perform w).2.log) :
    Kept r.release.version (r.perform w).2.world.site (r.perform w).2.world := by
  obtain ⟨hsound, hbacked, hspent⟩ := perform_stopped r hw
  obtain ⟨operation, token, request, backup, hlog⟩ := hbacked hr
  refine ⟨hsound, hspent ⟨backup, ?_⟩, rfl⟩
  rw [hlog]
  simp

/-- **The next runs finish only what was already published.**  A run is interrupted inside
`promote_candidate`.  After any later runs of the same release, however they end, what is published
is as the interruption has left it; and a run that nothing disturbs returns `current` if the active
link and `release.json` name the new release, and raises otherwise. -/
theorem interrupted_publication (first : UpdateRun) {w : UpdateWorld} (hw : w.Sound)
    (hpromoting : .promoting ∈ (first.perform w).2.log) (later : List UpdateRun)
    (hlater : ∀ r ∈ later, r.release.version = first.release.version) (last : UpdateRun)
    (hlast : last.release.version = first.release.version) (hsteady : last.oracle.Steady) :
    let left := (first.perform w).2.world
    let ended := last.perform (performAll later left)
    ended.2.world.site.published = left.site.published ∧
      (installedVersion left.site = .ok (some first.release.version) → ended.1 = .ok .current ∧
        ended.2.world.site.activeRelease = some first.release.version ∧
        ended.2.world.site.Records first.release.version) ∧
      (installedVersion left.site ≠ .ok (some first.release.version) →
        ∃ message, ended.1 = .error (.update message)) := by
  intro left ended
  have hleft : Kept last.release.version left.site (performAll later left) := by
    rw [hlast]
    exact performAll_kept later hlater (promoting_kept first hw hpromoting)
  have hpublished : ended.2.world.site.published = left.site.published :=
    (perform_kept last hleft).published
  refine ⟨hpublished, fun hinstalled => ?_, fun hother => ?_⟩
  · rcases perform_steady last hsteady hleft with ⟨hcurrent, -⟩ | ⟨-, hother⟩
    · refine ⟨hcurrent, installedVersion_ok ?_⟩
      rw [installedVersion_published hpublished]
      exact hinstalled
    · rw [hlast] at hother
      exact absurd hinstalled hother
  · rcases perform_steady last hsteady hleft with ⟨-, hinstalled⟩ | ⟨hrefused, -⟩
    · rw [hlast] at hinstalled
      exact absurd hinstalled hother
    · exact hrefused

/-! ### Two interruptions -/

def dyingRun (steps : ℕ) : UpdateRun :=
  ⟨sampleRelease, 100, fun k => if k < steps then some (calmStep 0) else none⟩

theorem calmRun_steady (token : ℕ) : (calmRun token).oracle.Steady :=
  fun _ => ⟨calmStep token, rfl, rfl, rfl, rfl, rfl⟩

theorem dyingRun_promoting {steps : ℕ} (h : ((dyingRun steps).perform sampleWorld).2.log =
    evidence 0 0 1 40 ++ [.promoting]) :
    .promoting ∈ ((dyingRun steps).perform sampleWorld).2.log := by
  rw [h]
  simp

/-- The process dies in the last clean-up, and the next run finds the release installed. -/
theorem interrupted_publication_cleanup :
    let left := ((dyingRun 80).perform sampleWorld).2.world
    let ended := (calmRun 1).perform (performAll [] left)
    ((dyingRun 80).perform sampleWorld).1 = .error .died ∧
      ended.2.world.site.published = left.site.published ∧ ended.1 = .ok .current ∧
      ended.2.world.site.activeRelease = some "2.0" ∧ ended.2.world.site.Records "2.0" := by
  intro left ended
  have h := interrupted_publication (dyingRun 80) sampleWorld_sound (dyingRun_promoting rfl) []
    (by simp) (calmRun 1) rfl (calmRun_steady 1)
  exact ⟨by rfl, h.1, h.2.1 rfl⟩

/-- The process dies before the active link is switched, and no later run promotes. -/
theorem interrupted_publication_refused :
    ((dyingRun 60).perform sampleWorld).1 = .error .died ∧
      .promoting ∈ ((dyingRun 60).perform sampleWorld).2.log ∧
      ∀ (later : List ℕ) (token : ℕ), ∃ message, ((calmRun token).perform (performAll
        (later.map calmRun) ((dyingRun 60).perform sampleWorld).2.world)).1 =
          .error (.update message) := by
  have hpromoting := @dyingRun_promoting 60 rfl
  refine ⟨by rfl, hpromoting, fun later token => ?_⟩
  have hleft := promoting_kept (dyingRun 60) sampleWorld_sound hpromoting
  have hruns : ∀ r ∈ later.map calmRun, r.release.version = "2.0" := by
    intro r hr
    obtain ⟨token, -, rfl⟩ := List.mem_map.1 hr
    rfl
  have hlast := perform_steady (calmRun token) (calmRun_steady token)
    (performAll_kept (later.map calmRun) hruns hleft)
  rcases hlast with ⟨-, hinstalled⟩ | ⟨hrefused, -⟩
  · have hprior : installedVersion ((dyingRun 60).perform sampleWorld).2.world.site =
        .ok (some "1.0") := by rfl
    rw [hprior] at hinstalled
    simp [calmRun, sampleRelease] at hinstalled
  · exact hrefused

end Horizon.Sunlit
