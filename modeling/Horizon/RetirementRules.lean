/-
**Rules for a retirement call that may stop anywhere.**

`Safely I X m Y` is about a call `m` that starts on an idle connection over a store with `I` and
`X`.  If `m` returns `a`, the connection is idle again and the store has `I` and `Y a`; and wherever
`m` is stopped, what outlives the call has `I`.  There is one rule for each of the four kinds of
step, and the usual ones for sequence, case distinction and loop.

A call that only looks keeps everything (`Reads`); the checks of the three phases are of this kind.

Main results:

* `Safely.observe`, `Safely.rename`, `Safely.unlink`, `Safely.record`, `Safely.forM` — the rules;
* `Safely.ended` — what they say about a whole call;
* `plan_planned` — the plan has the paths it should have.
-/

import Horizon.RetirementCalls

namespace Horizon.Retirement

open List
open RetirementService (planEntry planEntries)
open Coroutine (Coro Triple)
open Sqlite (Conn)

variable {α β : Type} {I : PayloadStore → Prop} {k : α → Call β} {f : β → Except SafeError PUnit}
  {entries : List ManifestEntry} {items : List PlanEntry} {m' : Call α} {l : List β}
  (message : String)

/-- The connection is idle and the store has `K`. -/
def Holds (K : PayloadStore → Prop) (s : CallState) : Prop :=
  s.ledger.inTransaction = false ∧ K s.durable

def Safely (I X : PayloadStore → Prop) (m : Call α) (Y : α → PayloadStore → Prop) : Prop :=
  Triple (Holds fun w => I w ∧ X w) m (fun a => Holds fun w => I w ∧ Y a w) (fun _ s => I s.durable)

theorem store_eq_durable {s : CallState} (h : s.ledger.inTransaction = false) :
    s.store = s.durable := by
  unfold CallState.store CallState.durable
  rw [s.ledger.idle h]

/-! ### The rules -/

namespace Safely

variable {ω : Oracle} {X : PayloadStore → Prop} {Y : α → PayloadStore → Prop}
  {Z : β → PayloadStore → Prop} {m : Call α} {w : PayloadStore} {Y' : α → PayloadStore → Prop}

theorem conseq {X' : PayloadStore → Prop} (h : Safely I X m Y) (hX : ∀ w, X' w → X w)
    (hY : ∀ a w, Y a w → Y' a w) : Safely I X' m Y' :=
  Triple.conseq h (fun _ hs => ⟨hs.1, hs.2.1, hX _ hs.2.2⟩)
    (fun a _ hs => ⟨hs.1, hs.2.1, hY a _ hs.2.2⟩) (fun _ _ hs => hs)

theorem post (h : Safely I X m Y) (hY : ∀ a w, Y a w → Y' a w) : Safely I X m Y' :=
  h.conseq (fun _ hw => hw) hY

theorem pure {a : α} (h : ∀ w, I w → X w → Y a w) : Safely I X (Pure.pure a) Y :=
  Triple.pure fun _ hs => ⟨hs.1, hs.2.1, h _ hs.2.1 hs.2.2⟩

theorem refuse : Safely I X (refuse message : Call α) Y := Triple.raise fun _ hs => hs.2.1

theorem bind (hm : Safely I X m Y) (hk : ∀ a, Safely I (Y a) (k a) Z) : Safely I X (m >>= k) Z :=
  Triple.bind hm hk

theorem impossible (h : ∀ w, I w → X w → False) : Safely I X m Y :=
  fun _ hs => (h _ hs.2.1 hs.2.2).elim

theorem ite {q : Prop} [Decidable q] (h : q → Safely I X m Y) (h' : ¬ q → Safely I X m' Y) :
    Safely I X (if q then m else m') Y :=
  iteInduction (motive := fun m => Safely I X m Y) h h'

/-- A loop: `X done` holds when the elements of `done` have been handled. -/
theorem forM (X : List β → PayloadStore → Prop) {f : β → Call PUnit} (l : List β)
    (h : ∀ done a rest, l = done ++ a :: rest → Safely I (X done) (f a) fun _ => X (done ++ [a])) :
    Safely I (X []) (l.forM f) fun _ => X l :=
  Triple.forM (I := fun done => Holds fun w => I w ∧ X done w) l h

theorem observe_moment (f : Moment → PayloadStore → Except SafeError α) :
    Safely I X (Retirement.observe ω f) fun a w => X w ∧ ∃ n v, ω n = some v ∧ f v w = .ok a := by
  rintro s ⟨hidle, hI, hX⟩
  unfold Coro.run Retirement.observe
  cases hω : ω s.moments with
  | none => exact hI
  | some v =>
    rw [store_eq_durable hidle]
    cases hf : f v s.durable with
    | error e =>
      simp only [hf]
      exact hI
    | ok a =>
      simp only [hf]
      exact ⟨hidle, hI, hX, s.moments, v, hω, hf⟩

theorem observe (f : Moment → PayloadStore → Except SafeError α) :
    Safely I X (Retirement.observe ω f) fun a w => X w ∧ ∃ v, f v w = .ok a :=
  (observe_moment f).post fun _ _ ⟨hX, _, v, _, hf⟩ => ⟨hX, v, hf⟩

theorem observe_pure {x : Except SafeError α} (hk : ∀ {a}, x = .ok a → Safely I X (k a) Z) :
    Safely I X (Retirement.observe ω (fun _ _ => x) >>= k) Z := by
  refine (observe _).bind fun a => ?_
  rintro s ⟨hidle, hI, hX, v, hx⟩
  exact hk hx s ⟨hidle, hI, hX⟩

theorem rename {source target : Path} {Y : PayloadStore → Prop} (h : ∀ now w files, I w → X w →
      Filesystem.rename (PayloadFile.moved now) source target w.files = .ok files →
      I ⟨files, w.ledger⟩ ∧ Y ⟨files, w.ledger⟩) :
    Safely I X (renameNoreplace ω source target) fun _ => Y := by
  rintro s ⟨hidle, hI, hX⟩
  unfold Coro.run renameNoreplace
  cases hω : ω s.moments with
  | none => exact hI
  | some v =>
    cases hr : Filesystem.rename (PayloadFile.moved v.now) source target s.files with
    | error e => cases e <;> (simp only [hr]; exact hI)
    | ok files =>
      simp only [hr]
      exact ⟨hidle, h v.now s.durable files hI hX hr⟩

theorem unlink {path : Path} {Y : PayloadStore → Prop}
    (h : ∀ w files, I w → X w → Filesystem.unlink path w.files = some files →
      I ⟨files, w.ledger⟩ ∧ Y ⟨files, w.ledger⟩) :
    Safely I X (unlinkPayload ω path) fun _ => Y := by
  rintro s ⟨hidle, hI, hX⟩
  unfold Coro.run unlinkPayload
  cases hω : ω s.moments with
  | none => exact hI
  | some v =>
    cases hu : Filesystem.unlink path s.files with
    | none =>
      exact hI
    | some files =>
      exact ⟨hidle, h s.durable files hI hX hu⟩

theorem record {m : RetirementManifest} {item : PlanEntry} {state : PayloadState}
    {error : Option String} {Y : PayloadStore → Prop}
    (h : ∀ now w, I w → X w → w.ledger.Admits (rowOf m item state error now) →
      I ⟨w.files, w.ledger.upsert (rowOf m item state error now)⟩ ∧
        Y ⟨w.files, w.ledger.upsert (rowOf m item state error now)⟩) :
    Safely I X (record ω m item state error) fun _ => Y := by
  rintro s ⟨hidle, hI, hX⟩
  unfold Coro.run Retirement.record
  cases hω : ω s.moments with
  | none => exact hI
  | some v =>
    have hopened : s.ledger = .opened s.ledger.committed := by
      rw [← s.ledger.idle hidle]
      exact Conn.eq_opened hidle
    have hends := exec_ledgerWrite s.ledger.committed (rowOf m item state error v.now) v.faults
    rw [← hopened] at hends
    rcases hexec : (ledgerWrite (rowOf m item state error v.now)).exec v.faults s.ledger with ⟨c, r⟩
    rw [hexec] at hends
    -- the connection is dropped in the two cases in which the call ends here
    have hdropped (hc : c.committed = s.ledger.committed) : I ⟨s.files, c.committed⟩ := by
      rw [hc]
      exact hI
    cases r with
    | value u =>
      obtain ⟨rfl, hadmits⟩ := hends
      simp only [hexec]
      exact ⟨rfl, h v.now s.durable hI hX hadmits⟩
    | raised | sqliteError =>
      simp only [hexec]
      exact hdropped hends

theorem ended (h : Safely I X m Y) (hw : I w) (hX : X w) :
    I (m.run ⟨w.files, .opened w.ledger, 0⟩).2.durable := by
  have hstart : Holds (fun w => I w ∧ X w) ⟨w.files, .opened w.ledger, 0⟩ := ⟨rfl, hw, hX⟩
  rcases hrun : m.run ⟨w.files, .opened w.ledger, 0⟩ with ⟨r, s⟩
  rcases Triple.elim h hstart hrun with ⟨a, -, hs⟩ | ⟨e, -, hs⟩
  · exact hs.2.1
  · exact hs

theorem returned (h : Safely I X m Y) (hw : I w) (hX : X w) {a : α}
    (hrun : (m.run ⟨w.files, .opened w.ledger, 0⟩).1 = .ok a) :
    I (m.run ⟨w.files, .opened w.ledger, 0⟩).2.durable ∧
      Y a (m.run ⟨w.files, .opened w.ledger, 0⟩).2.durable := by
  have hstart : Holds (fun w => I w ∧ X w) ⟨w.files, .opened w.ledger, 0⟩ := ⟨rfl, hw, hX⟩
  rcases hr : m.run ⟨w.files, .opened w.ledger, 0⟩ with ⟨r, s⟩
  rw [hr] at hrun
  rcases Triple.elim h hstart hr with ⟨b, hb, hs⟩ | ⟨e, he, -⟩
  · obtain rfl : a = b := Except.ok.inj (hrun.symm.trans hb)
    exact hs.2
  · exact absurd (hrun.symm.trans he) (by simp)

theorem rollbackItems {X : List PlanEntry → PayloadStore → Prop} {m : RetirementManifest}
    {prior : List (OperationId × BackupId)} (items : List PlanEntry)
    (h : ∀ done item rest, items = done ++ item :: rest →
      Safely I (X done) (rollbackItem ω m prior item) fun _ => X (done ++ [item])) :
    Safely I (X []) (rollbackItems ω m prior items) fun _ => X items := by
  suffices hrest : ∀ rest done, items = done ++ rest →
      Safely I (X done) (Retirement.rollbackItems ω m prior rest) fun _ => X items from
    hrest items [] rfl
  intro rest
  induction rest with
  | nil =>
    intro done hitems
    rw [append_nil] at hitems
    subst hitems
    exact pure fun _ _ hw => hw
  | cons item rest ih =>
    intro done hitems
    refine (h done item rest hitems).bind fun _ => ?_
    refine (ih (done ++ [item]) (by simpa using hitems)).bind fun _ => ?_
    exact pure fun _ _ hw => hw

end Safely

/-! ### Calls that only look -/

/-- The call keeps whatever held before it. -/
def Reads (m : Call α) : Prop := ∀ I X : PayloadStore → Prop, Safely I X m fun _ => X

namespace Reads

variable {ω : Oracle} {m : Call α}

theorem pure (a : α) : Reads (Pure.pure a : Call α) := fun _ _ => Safely.pure fun _ _ h => h

theorem refuse : Reads (refuse message : Call α) := fun _ _ => .refuse message

theorem observe (f : Moment → PayloadStore → Except SafeError α) : Reads (observe ω f) :=
  fun _ _ => (Safely.observe f).post fun _ _ hw => hw.1

theorem bind (hm : Reads m) (hk : ∀ a, Reads (k a)) : Reads (m >>= k) :=
  fun I X => (hm I X).bind fun a => hk a I X

theorem look {f : Moment → PayloadStore → Except SafeError α} (hk : ∀ a, Reads (k a)) :
    Reads (Retirement.observe ω f >>= k) :=
  (observe f).bind hk

theorem ite {q : Prop} [Decidable q] (h : Reads m) (h' : Reads m') : Reads (if q then m else m') :=
  fun I X => .ite (fun _ => h I X) fun _ => h' I X

theorem forM {f : β → Call PUnit} (l : List β) (h : ∀ a, Reads (f a)) : Reads (l.forM f) :=
  fun I X => .forM (fun _ => X) l fun _ a _ _ => h a I X

theorem before {X : PayloadStore → Prop} {Z : β → PayloadStore → Prop} (hm : Reads m)
    (hk : ∀ a, Safely I X (k a) Z) : Safely I X (m >>= k) Z :=
  (hm I X).bind hk

end Reads

/-- A look at the store, before the rest of a call. -/
theorem Safely.look {ω : Oracle} {f : Moment → PayloadStore → Except SafeError α}
    {X : PayloadStore → Prop} {Z : β → PayloadStore → Prop} (hk : ∀ a, Safely I X (k a) Z) :
    Safely I X (Retirement.observe ω f >>= k) Z :=
  (Reads.observe f).before hk

section Checks

variable (svc : RetirementService) (ω : Oracle) (m : RetirementManifest) (item : PlanEntry)

theorem reads_assertBoundaries (ownJob : Option ℕ) : Reads (assertBoundaries ω ownJob) :=
  .look fun _ => .observe _

theorem reads_ensureQuarantine : Reads (ensureQuarantine ω item) := .look fun _ => .observe _

theorem reads_preflightItem (prior : List (OperationId × BackupId)) :
    Reads (preflightItem ω m prior item) := by
  refine .look fun archiveAbsent => .look fun quarantineAbsent => ?_
  refine .ite (.refuse _) ?_
  refine .ite (.observe _) ?_
  exact .ite (.observe _) (.refuse _)

theorem reads_assertPreflight : Reads (assertPreflight svc ω m) := by
  refine (Reads.forM _ fun entry => Reads.observe _).bind fun _ => ?_
  refine .look fun prior => .look fun items => ?_
  exact .forM _ fun item => reads_preflightItem ω m item prior

theorem reads_purgeReadyItem : Reads (purgeReadyItem ω m item) := by
  refine .look fun state => .look fun quarantineAbsent => ?_
  refine .look fun archiveAbsent => ?_
  refine .ite (.ite (.refuse _) (.pure _)) ?_
  refine .ite ?_ (.ite (.refuse _) (.observe _))
  exact .ite (.observe _) (.ite (.refuse _) (.pure _))

theorem reads_assertPurgeReady : Reads (assertPurgeReady svc ω m) :=
  .look fun _ => .look fun items => .forM items (reads_purgeReadyItem ω m)

end Checks

/-! ### What the checks have seen -/

theorem forM_ok {u : PUnit} (h : l.forM f = .ok u) : ∀ a ∈ l, f a = .ok ⟨⟩ := by
  induction l with
  | nil => intro a ha; cases ha
  | cons b l ih =>
    have hcons : (f b >>= fun _ => l.forM f) = .ok u := h
    cases hb : f b with
    | error e => rw [hb] at hcons; cases hcons
    | ok v =>
      rw [hb] at hcons
      intro a ha
      rcases mem_cons.mp ha with rfl | ha
      · exact hb
      · exact ih hcons a ha

theorem forM_of_ok (h : ∀ a ∈ l, f a = .ok ⟨⟩) : l.forM f = .ok ⟨⟩ := by
  induction l with
  | nil => rfl
  | cons b l ih =>
    show (f b >>= fun _ => l.forM f) = .ok ⟨⟩
    rw [h b mem_cons_self]
    exact ih fun a ha => h a (.tail _ ha)

/-- An item of the plan of `m`, with its two paths. -/
structure Planned (svc : RetirementService) (m : RetirementManifest) (item : PlanEntry)
    (root : Path) : Prop where
  entry : item.entry ∈ m.entries
  registered : svc.backupRoot item.entry.profileId = some root
  archive : item.archive = archivePath root item.entry.backupId
  quarantine : item.quarantine = quarantinePath root m.operationId item.entry.backupId

variable {svc : RetirementService} {m : RetirementManifest} {Z : α → PayloadStore → Prop}
  {X : PayloadStore → Prop} {ω : Oracle}

theorem planEntry_ok {entry : ManifestEntry} {item : PlanEntry}
    (h : svc.planEntry m entry = .ok item) :
    ∃ root, svc.backupRoot entry.profileId = some root ∧
      item = ⟨entry, archivePath root entry.backupId,
        quarantinePath root m.operationId entry.backupId⟩ := by
  unfold planEntry at h
  cases hroot : svc.backupRoot entry.profileId with
  | none => rw [hroot] at h; cases h
  | some root =>
    rw [hroot] at h
    dsimp only at h
    split at h
    · exact ⟨root, rfl, (Except.ok.inj h).symm⟩
    · cases h

theorem planEntries_ok (h : svc.planEntries m entries = .ok items) :
    items.map (·.entry) = entries ∧ ∀ item ∈ items, svc.planEntry m item.entry = .ok item := by
  induction entries generalizing items with
  | nil =>
    obtain rfl : [] = items := Except.ok.inj h
    exact ⟨rfl, fun item hitem => by cases hitem⟩
  | cons entry rest ih =>
    unfold planEntries at h
    cases hitem : svc.planEntry m entry with
    | error e => rw [hitem] at h; cases h
    | ok item =>
      rw [hitem] at h
      cases hrest : svc.planEntries m rest with
      | error e => rw [hrest] at h; cases h
      | ok items' =>
        rw [hrest] at h
        obtain rfl : item :: items' = items := Except.ok.inj h
        obtain ⟨hentries, hall⟩ := ih hrest
        obtain ⟨root, -, hitemEq⟩ := planEntry_ok hitem
        have hentry : item.entry = entry := by rw [hitemEq]
        refine ⟨by rw [map_cons, hentries, hentry], ?_⟩
        intro other hother
        rcases mem_cons.mp hother with rfl | hother
        · rw [hentry]
          exact hitem
        · exact hall other hother

/-- The plan covers the manifest, and every item has its two paths. -/
theorem plan_planned (h : svc.plan m = .ok items) :
    items.map (·.entry) = m.entries ∧ ∀ item ∈ items, ∃ root, Planned svc m item root := by
  obtain ⟨hentries, hall⟩ := planEntries_ok h
  refine ⟨hentries, fun item hitem => ?_⟩
  obtain ⟨root, hroot, hitemEq⟩ := planEntry_ok (hall item hitem)
  refine ⟨root, ?_, hroot, congrArg (·.archive) hitemEq, congrArg (·.quarantine) hitemEq⟩
  rw [← hentries]
  exact mem_map_of_mem hitem

theorem planEntries_registered (h : ∀ e ∈ entries, (svc.backupRoot e.profileId).isSome = true) :
    ∃ items, svc.planEntries m entries = .ok items := by
  induction entries with
  | nil => exact ⟨[], rfl⟩
  | cons entry rest ih =>
    obtain ⟨items, hitems⟩ := ih fun e he => h e (.tail _ he)
    obtain ⟨root, hroot⟩ := Option.isSome_iff_exists.mp (h entry (.head _))
    obtain ⟨item, hentry⟩ : ∃ item, svc.planEntry m entry = .ok item := by
      unfold planEntry
      rw [hroot]
      exact ⟨_, if_pos (by simp [archivePath])⟩
    refine ⟨item :: items, ?_⟩
    unfold planEntries
    rw [hentry, hitems]
    rfl

theorem planOf_then {k : List PlanEntry → Call α}
    (hk : ∀ items, svc.plan m = .ok items → Safely I X (k items) Z) :
    Safely I X (planOf svc ω m >>= k) Z :=
  .observe_pure fun hplan => hk _ hplan

theorem load_then {k : RetirementManifest → Call α} {operationId : OperationId}
    (hk : ∀ m, svc.manifests operationId = some m → m.operationId = operationId →
      Safely I X (k m) Z) :
    Safely I X (load svc ω operationId >>= k) Z := by
  refine .observe_pure fun {m} hload => ?_
  cases hm : svc.manifests operationId with
  | none => rw [hm] at hload; cases hload
  | some m' =>
    rw [hm] at hload
    obtain rfl : m' = m := Except.ok.inj hload
    exact hk m' hm (svc.loaded operationId m' hm).1

/-! ### The calls, up to what they write -/

variable {operationId : OperationId} {ownJob : Option ℕ} {Y : PayloadStore → Prop}

section Item

variable {m : RetirementManifest} {item : PlanEntry} {prior : List (OperationId × BackupId)}

theorem Safely.quarantineItem
    (hrecord : Safely I X (Retirement.record ω m item .quarantined) fun _ => X)
    (hrename : Safely I X (renameNoreplace ω item.archive item.quarantine) fun _ => X) :
    Safely I X (quarantineItem ω m prior item) fun _ => X := by
  refine .look fun _ => .look fun _ => ?_
  refine .look fun state => .ite (fun _ => Reads.observe _ _ _) fun _ => ?_
  refine .look fun moved => .ite (fun _ => ?_) fun _ => ?_
  · exact .look fun _ => .look fun _ => hrecord
  · refine .look fun _ => .look fun _ => hrename.bind fun _ => ?_
    exact .look fun _ => .look fun _ => hrecord

/-- What is removed has been verified. -/
theorem Safely.purgeItem (hrecord : Safely I X (Retirement.record ω m item .purged) fun _ => X)
    (hunlink : Safely I (fun w => X w ∧ ∃ v : Moment,
      verifyPayload item.entry false (v.look w item.quarantine) = .ok ())
      (unlinkPayload ω item.quarantine) fun _ => X) :
    Safely I X (purgeItem ω m item) fun _ => X := by
  refine .look fun _ => .look fun _ => ?_
  refine .look fun state => .look fun absent => ?_
  refine .ite (fun _ => ?_) fun _ => .ite (fun _ => ?_) fun _ => ?_
  · exact Reads.ite (Reads.refuse _) (Reads.pure _) _ _
  · refine .ite (fun _ => .refuse _) fun _ => .look fun _ => ?_
    exact .ite (fun _ => .refuse _) fun _ => hrecord
  · refine (Safely.observe _).bind fun _ => .look fun _ => hunlink.bind fun _ => ?_
    exact .look fun _ => hrecord

/-- The row that is given up was one of `prepared` and `quarantined`. -/
theorem Safely.rollbackItem
    (hrename : Safely I X (renameNoreplace ω item.quarantine item.archive) fun _ => X)
    (hrecord : Safely I X (Retirement.record ω m item .rolledBack) fun _ => X)
    (hfail : ∀ state, state = some .prepared ∨ state = some .quarantined →
      Safely I (fun w => X w ∧ w.ledger.stateOf m.operationId item.entry.backupId = state)
        (Retirement.record ω m item .failed (some "payload_missing")) fun _ => X) :
    Safely I X (rollbackItem ω m prior item) fun _ => X := by
  refine .look fun _ => (Safely.observe _).bind fun state => ?_
  refine .ite (fun hstate => ?_) fun _ => .pure fun _ _ hw => hw.1
  have hend {X' : PayloadStore → Prop} (hX : ∀ w, X' w → X w) :
      Safely I X' (Retirement.record ω m item .rolledBack >>= fun _ => Pure.pure false)
        fun _ => X :=
    (hrecord.conseq hX fun _ _ hw => hw).next (.pure fun _ h => h)
  refine .look fun _ => .look fun _ => ?_
  refine .ite (fun _ => ?_) fun _ => .ite (fun _ => ?_) fun _ => ?_
  · refine .look fun _ => .look fun _ => ?_
    refine (hrename.conseq (fun _ hw => hw.1) fun _ _ hw => hw).bind fun _ => ?_
    exact .look fun _ => .look fun _ => hend fun _ hw => hw
  · exact .look fun _ => hend fun _ hw => hw.1
  · refine ((hfail state hstate).conseq ?_ fun _ _ hw => hw).bind fun _ => .pure fun _ _ h => h
    rintro w ⟨hX, v, hread⟩
    exact ⟨hX, Except.ok.inj hread⟩

end Item

theorem Safely.quarantine {A : RetirementManifest → PayloadStore → Prop}
    {B : RetirementManifest → List PlanEntry → PayloadStore → Prop}
    (hpreflight : ∀ m, svc.manifests operationId = some m → m.operationId = operationId →
      Safely I X (assertPreflight svc ω m) fun _ => A m)
    (hprepare : ∀ m items, svc.manifests operationId = some m → m.operationId = operationId →
      svc.plan m = .ok items → Safely I (A m) (items.forM (prepareItem ω m)) fun _ => B m items)
    (hmove : ∀ m items prior, svc.manifests operationId = some m → m.operationId = operationId →
      svc.plan m = .ok items →
      Safely I (B m items) (items.forM (Retirement.quarantineItem ω m prior)) fun _ => Y) :
    Safely I X (quarantine svc ω operationId ownJob) fun _ => Y := by
  refine load_then fun m hm hop => .look fun _ => .look fun _ => ?_
  refine .look fun _ => (reads_assertBoundaries ω ownJob).before fun _ => ?_
  refine .look fun prior => (hpreflight m hm hop).next ?_
  refine planOf_then fun items hplan => (reads_assertBoundaries ω ownJob).before fun _ => ?_
  refine (Reads.forM items (reads_ensureQuarantine ω)).before fun _ => ?_
  refine (hprepare m items hm hop hplan).next ?_
  exact (hmove m items prior hm hop hplan).next (Reads.observe _ _ _)

theorem Safely.purge
    (hintend : ∀ m item, Safely I X (Retirement.record ω m item .purgePrepared) fun _ => X)
    (hpurge : ∀ m item, Safely I X (Retirement.purgeItem ω m item) fun _ => X) :
    Safely I X (purge svc ω operationId ownJob) fun _ => X := by
  refine load_then fun m hm hop => .look fun _ => .look fun _ => ?_
  refine .look fun _ => (reads_assertBoundaries ω ownJob).before fun _ => ?_
  refine .look fun _ => (Reads.forM _ fun _ => Reads.observe _).before fun _ => ?_
  refine (reads_assertPurgeReady svc ω m).before fun _ => ?_
  refine planOf_then fun items _ => (reads_assertBoundaries ω ownJob).before fun _ => ?_
  refine (Safely.forM (fun _ => X) items fun _ item _ _ => ?_).next ?_
  · refine .look fun state => .ite (fun _ => ?_) fun _ => .pure fun _ _ h => h
    exact .look fun _ => hintend m item
  · refine (Safely.forM (fun _ => X) items fun _ item _ _ => hpurge m item).next ?_
    exact Reads.observe _ _ _

theorem Safely.rollback
    (hitems : ∀ m items prior, svc.manifests operationId = some m → m.operationId = operationId →
      svc.plan m = .ok items → Safely I X (Retirement.rollbackItems ω m prior items) fun _ => Y) :
    Safely I X (rollback svc ω operationId ownJob) fun _ => Y := by
  refine load_then fun m hm hop => .look fun _ => .look fun _ => ?_
  refine .look fun _ => (reads_assertBoundaries ω ownJob).before fun _ => ?_
  refine .look fun _ => .look fun prior => planOf_then fun items hplan => ?_
  refine (hitems m items prior hm hop hplan).bind fun _ => ?_
  exact .look fun _ => .pure fun _ _ h => h

end Horizon.Retirement
