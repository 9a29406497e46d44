/-
**Runs of the idempotency layer.**

The invariant says what each call may rely on at its place: a call that holds a claim finds its own
pending row, and no other call holds a claim on that id; a call that waits or has returned finds a
row that explains its answer, unless the row was removed.  A row that is present stays present with
its request, and once completed it stays as it is, until maintenance removes it; so what one call
relies on is not disturbed by another.

Main results:

* `at_most_one_execution` — the guarantee for every id in every run.
-/

import Horizon.RpcReplay

namespace Horizon

open Option
open List.Subset (refl)
open Transition (run)
open Function

section Runs

variable {R τ : Type} {codec : ResponseCodec R τ} {w w' : ReplayWorld R τ} {ev : ReplayEvent R}
  {row : ReplayRow τ} {r : RpcResponse R} {calls : ℕ → CallPlace R}

/-! ### The evolution of a row -/

/-- The row `row'` is `row` at a later time: same request, and unchanged if it was completed. -/
def ReplayRow.Later (row row' : ReplayRow τ) : Prop :=
  row'.canonicalRequest = row.canonicalRequest ∧ (row.status = .completed → row' = row)

theorem ReplayRow.Later.refl (row : ReplayRow τ) : row.Later row := ⟨rfl, fun _ => rfl⟩

theorem storeRow_later (q : RpcRequest) (r : RpcResponse R) (row : ReplayRow τ) :
    row.Later (storeRow codec q r row) := by
  unfold storeRow
  split_ifs with h
  · exact ⟨rfl, fun hs => by rw [h.2] at hs; cases hs⟩
  · exact .refl row

theorem interruptRow_later (id : ℕ) (row : ReplayRow τ) :
    row.Later (interruptRow codec id row) := by
  unfold interruptRow
  split_ifs with h
  · exact ⟨rfl, fun hs => by rw [h] at hs; cases hs⟩
  · exact .refl row

/-- Removals are only counted up. -/
theorem replayStep_pruned (h : replayStep codec w ev = some w') (id : ℕ) :
    w.pruned id ≤ w'.pruned id := by
  cases replayStep_move h with
  | prune now =>
    show w.pruned id ≤ if (w.rows id).any (prunable now) then w.pruned id + 1 else w.pruned id
    split <;> omega
  | enter | claimNew | claimOld | pollNew | pollOld | pollLast | dispatch | answer | read | store |
    cancel | crash | reconcile => exact le_rfl

/-- **How a row may evolve**: it stays and becomes a later one, unless it is removed. -/
theorem replayStep_row (h : replayStep codec w ev = some w') {id : ℕ} (hp : w'.pruned id = 0)
    (hr : w.rows id = some row) : ∃ row', w'.rows id = some row' ∧ row.Later row' := by
  cases replayStep_move h with
  | enter | claimOld | pollOld | pollLast | dispatch | answer | read | cancel | crash =>
    exact ⟨row, hr, .refl row⟩
  | @claimNew c q now hc hnone | @pollNew c q polls now hc hnone =>
    have hne : id ≠ q.requestId := by
      rintro rfl
      rw [hnone] at hr
      cases hr
    exact ⟨row, (update_of_ne hne _ _).trans hr, .refl row⟩
  | @store c q r hc =>
    by_cases heq : id = q.requestId
    · subst heq
      refine ⟨storeRow codec q r row, ?_, storeRow_later q r row⟩
      simp [ReplayWorld.setCall, ReplayWorld.setRow, hr]
    · exact ⟨row, (update_of_ne heq _ _).trans hr, .refl row⟩
  | reconcile hs =>
    refine ⟨interruptRow codec id row, ?_, interruptRow_later id row⟩
    simp [hr]
  | prune now =>
    have hkeep : prunable now row = false := by
      by_contra hne
      rw [Bool.not_eq_false] at hne
      simp [hr, hne] at hp
    exact ⟨row, by simp [hr, Option.filter, hkeep], .refl row⟩

/-! ### The invariant -/

/-- The row that explains the answer `r` to `q`. -/
def Explains (codec : ResponseCodec R τ) (row : ReplayRow τ) (q : RpcRequest) (r : RpcResponse R) :
    Prop :=
  (q.canonical = row.canonicalRequest →
    r = inProgressFailure q.requestId ∨ (row.status = .completed ∧ row.response = codec.encode r)) ∧
  (q.canonical ≠ row.canonicalRequest → r = conflictFailure q.requestId)

theorem Explains.later {row row' : ReplayRow τ} {q : RpcRequest} (h : Explains codec row q r)
    (hl : row.Later row') : Explains codec row' q r := by
  rw [Explains, hl.1]
  refine ⟨fun hcan => ?_, h.2⟩
  obtain hprog | ⟨hs, hresp⟩ := h.1 hcan
  · exact .inl hprog
  · rw [hl.2 hs]
    exact .inr ⟨hs, hresp⟩

/-- The id's row is pending and was claimed for `q`. -/
def Owned (w : ReplayWorld R τ) (q : RpcRequest) : Prop :=
  ∃ row, w.rows q.requestId = some row ∧ row.status = .pending ∧ row.canonicalRequest = q.canonical

def PlaceOk (codec : ResponseCodec R τ) (w : ReplayWorld R τ) : CallPlace R → Prop
  | .idle => True
  | .claiming _ => True
  | .reading q => q.actionClass = .pureRead
  | .waiting q _ => w.pruned q.requestId = 0 →
      ∃ row, w.rows q.requestId = some row ∧ row.canonicalRequest = q.canonical
  | .dispatching q => Owned w q ∧ w.dispatched q.requestId ≤ w.pruned q.requestId
  | .running q => Owned w q
  | .storing q r => Owned w q ∧ r ∈ w.answers q.requestId
  | .returned q r => q.actionClass ≠ .pureRead → w.pruned q.requestId = 0 →
      ∃ row, w.rows q.requestId = some row ∧ Explains codec row q r

theorem PlaceOk.owned {p : CallPlace R} {q : RpcRequest} (h : PlaceOk codec w p)
    (hp : p.claim = some q) : Owned w q := by
  cases p with
  | dispatching | storing => cases hp; exact h.1
  | running q' => cases hp; exact h
  | idle | reading | claiming | waiting | returned => cases hp

/-- A step leaves what another call relies on, if it leaves the rows and counters that a claim
speaks of. -/
theorem PlaceOk.step {p : CallPlace R} (h : PlaceOk codec w p)
    (hstep : replayStep codec w ev = some w') (hclaim : ∀ q, p.claim = some q → Owned w' q ∧
      w'.dispatched q.requestId = w.dispatched q.requestId ∧
      w.answers q.requestId ⊆ w'.answers q.requestId) : PlaceOk codec w' p := by
  have hpruned : ∀ id, w'.pruned id = 0 → w.pruned id = 0 := by
    intro id hz
    have := replayStep_pruned hstep id
    omega
  cases p with
  | idle | claiming => trivial
  | reading q => exact h
  | waiting q n =>
    intro hz
    obtain ⟨row, hrow, hcan⟩ := h (hpruned _ hz)
    obtain ⟨row', hrow', hlater⟩ := replayStep_row hstep hz hrow
    exact ⟨row', hrow', hlater.1.trans hcan⟩
  | dispatching q =>
    obtain ⟨hown, hdisp, -⟩ := hclaim q rfl
    refine ⟨hown, ?_⟩
    rw [hdisp]
    exact le_trans h.2 (replayStep_pruned hstep _)
  | running q => exact (hclaim q rfl).1
  | storing q r =>
    obtain ⟨hown, -, hsub⟩ := hclaim q rfl
    exact ⟨hown, hsub h.2⟩
  | returned q r =>
    intro hread hz
    obtain ⟨row, hrow, hex⟩ := h hread (hpruned _ hz)
    obtain ⟨row', hrow', hlater⟩ := replayStep_row hstep hz hrow
    exact ⟨row', hrow', hex.later hlater⟩

def ClaimsUnique (calls : ℕ → CallPlace R) : Prop :=
  ∀ c c' q q', (calls c).claim = some q → (calls c').claim = some q' →
    q.requestId = q'.requestId → c = c'

theorem ClaimsUnique.move (h : ClaimsUnique calls) {c : ℕ} {p : CallPlace R}
    (hp : ∀ q, p.claim = some q → (calls c).claim = some q) : ClaimsUnique (update calls c p) := by
  have hle : ∀ d q, (update calls c p d).claim = some q → (calls d).claim = some q := by
    intro d q hd
    by_cases hdc : d = c
    · subst hdc
      rw [update_self] at hd
      exact hp q hd
    · rwa [update_of_ne hdc] at hd
  exact fun d d' q q' hd hd' heq => h d d' q q' (hle d q hd) (hle d' q' hd') heq

theorem ClaimsUnique.claim (h : ClaimsUnique calls) {c : ℕ} {q : RpcRequest}
    (hfree : ∀ d q', (calls d).claim = some q' → q'.requestId ≠ q.requestId) :
    ClaimsUnique (update calls c (.dispatching q)) := by
  intro d d' p p' hd hd' heq
  by_cases hdc : d = c <;> by_cases hdc' : d' = c
  · rw [hdc, hdc']
  · subst hdc
    rw [update_self] at hd
    rw [update_of_ne hdc'] at hd'
    cases hd
    exact absurd heq.symm (hfree d' p' hd')
  · subst hdc'
    rw [update_self] at hd'
    rw [update_of_ne hdc] at hd
    cases hd'
    exact absurd heq (hfree d p hd)
  · rw [update_of_ne hdc] at hd
    rw [update_of_ne hdc'] at hd'
    exact h d d' p p' hd hd' heq

/-- The invariant of the idempotency layer. -/
structure ReplayWorld.Sound (codec : ResponseCodec R τ) (w : ReplayWorld R τ) : Prop where
  place : ∀ c, PlaceOk codec w (w.calls c)
  unique : ClaimsUnique w.calls
  serving : ∀ c, (w.calls c).active = true → w.serving = true
  absent : ∀ id, w.rows id = none → w.dispatched id ≤ w.pruned id
  once : ∀ id, w.dispatched id ≤ w.pruned id + 1
  stored : ∀ id row, w.rows id = some row → row.status = .completed →
    ∃ r, row.response = codec.encode r ∧ (r = interruptedFailure id ∨ r ∈ w.answers id)

namespace ReplayWorld.Sound

variable {c : ℕ} {p : CallPlace R}

variable (h : w.Sound codec)
include h

/-- The places after a step of call `c`. -/
theorem places (hstep : replayStep codec w ev = some w') (hcalls : w'.calls = update w.calls c p)
    (hp : PlaceOk codec w' p) (hothers : ∀ d q, d ≠ c → (w.calls d).claim = some q → Owned w' q ∧
      w'.dispatched q.requestId = w.dispatched q.requestId ∧
      w.answers q.requestId ⊆ w'.answers q.requestId) (d : ℕ) : PlaceOk codec w' (w'.calls d) := by
  rw [hcalls]
  by_cases hdc : d = c
  · subst hdc
    rwa [update_self]
  · rw [update_of_ne hdc]
    exact (h.place d).step hstep fun q hq => hothers d q hdc hq

theorem free {id : ℕ} (hnone : w.rows id = none) (c : ℕ) (q : RpcRequest)
    (hq : (w.calls c).claim = some q) : q.requestId ≠ id := by
  rintro rfl
  obtain ⟨row, hrow, -⟩ := (h.place c).owned hq
  rw [hnone] at hrow
  cases hrow

theorem serving_update (hp : p.active = true → w.serving = true) (d : ℕ)
    (hd : (update w.calls c p d).active = true) : w.serving = true := by
  by_cases hdc : d = c
  · subst hdc
    rw [update_self] at hd
    exact hp hd
  · rw [update_of_ne hdc] at hd
    exact h.serving d hd

/-- A step that only moves one call, to a place without a new claim. -/
theorem moveCall (hstep : replayStep codec w ev = some (w.setCall c p)) (hp : PlaceOk codec w p)
    (hclaim : p.claim = none) (hact : p.active = true → w.serving = true) :
    (w.setCall c p).Sound codec where
  place := h.places hstep rfl hp fun d q _ hq => ⟨(h.place d).owned hq, rfl, refl _⟩
  unique := h.unique.move fun q hq => by rw [hclaim] at hq; cases hq
  serving := h.serving_update hact
  absent := h.absent
  once := h.once
  stored := h.stored

variable {q : RpcRequest} {now : ℤ}

theorem fromRow {polls : ℕ} (hr : w.rows q.requestId = some row)
    (hp : FromRow codec q polls row p) : PlaceOk codec w p ∧ p.claim = none := by
  cases hp with
  | conflict hne =>
    refine ⟨fun _ _ => ⟨row, hr, fun heq => absurd heq.symm hne, fun _ => rfl⟩, rfl⟩
  | wait heq _ => exact ⟨fun _ => ⟨row, hr, heq⟩, rfl⟩
  | replay r heq hs hdec =>
    obtain ⟨r', hr', -⟩ := h.stored q.requestId row hr hs
    obtain rfl := hdec r' hr'
    exact ⟨fun _ _ => ⟨row, hr, fun _ => .inr ⟨hs, hr'⟩, fun hne => absurd heq.symm hne⟩, rfl⟩

theorem newRow (hnone : w.rows q.requestId = none) (hstep : replayStep codec w ev =
      some ((w.setRow q.requestId (some ⟨q.canonical, codec.blank, .pending, now⟩)).setCall c p))
    (hp : p = .dispatching q ∨ p = .returned q (inProgressFailure q.requestId))
    (hup : w.serving = true) :
    ((w.setRow q.requestId (some ⟨q.canonical, codec.blank, .pending, now⟩)).setCall c p).Sound
      codec := by
  have hself : ∀ row, (update w.rows q.requestId (some row)) q.requestId = some row :=
    fun row => update_self ..
  have hne : ∀ (id : ℕ) row, id ≠ q.requestId →
      (update w.rows q.requestId (some row)) id = w.rows id :=
    fun id row hid => update_of_ne hid ..
  refine ⟨h.places hstep rfl ?_ ?_, ?_, ?_, fun id hid => ?_, h.once, fun id row hrow hs => ?_⟩
  · rcases hp with rfl | rfl
    · exact ⟨⟨_, hself _, rfl, rfl⟩, h.absent _ hnone⟩
    · exact fun _ _ => ⟨_, hself _, fun _ => .inl rfl, fun hcan => absurd rfl hcan⟩
  · intro d q' _ hq'
    obtain ⟨row, hrow, hpend⟩ := (h.place d).owned hq'
    exact ⟨⟨row, (hne _ _ (h.free hnone d q' hq')).trans hrow, hpend⟩, rfl, refl _⟩
  · rcases hp with rfl | rfl
    · exact h.unique.claim (h.free hnone)
    · exact h.unique.move fun _ hq => by cases hq
  · exact h.serving_update fun _ => hup
  · by_cases heq : id = q.requestId
    · subst heq
      cases (hself _).symm.trans hid
    · exact h.absent id ((hne _ _ heq).symm.trans hid)
  · by_cases heq : id = q.requestId
    · subst heq
      obtain rfl := some.inj ((hself _).symm.trans hrow)
      cases hs
    · exact h.stored id row ((hne _ _ heq).symm.trans hrow) hs

/-- Another call does not hold the claim that call `c` holds. -/
theorem other {d : ℕ} {q' : RpcRequest} (hc : (w.calls c).claim = some q)
    (hdc : d ≠ c) (hd : (w.calls d).claim = some q') : q'.requestId ≠ q.requestId :=
  fun heq => hdc (h.unique d c q' q hd hc heq)

theorem serving_of_claim (hc : (w.calls c).claim = some q) : w.serving = true := by
  refine h.serving c ?_
  cases hp : w.calls c with
  | dispatching | running | storing => rfl
  | idle | reading | claiming | waiting | returned => rw [hp] at hc; cases hc

theorem dispatch (hc : w.calls c = .dispatching q)
    (hstep : replayStep codec w (.dispatch c) = some w')
    (hw : w' = ({ w with
      dispatched := update w.dispatched q.requestId (w.dispatched q.requestId + 1) } :
        ReplayWorld R τ).setCall c (.running q)) :
    w'.Sound codec := by
  have hclaim : (w.calls c).claim = some q := by rw [hc]; rfl
  have hbefore : w.dispatched q.requestId ≤ w.pruned q.requestId := by
    have := h.place c
    rw [hc] at this
    exact this.2
  have hown : Owned w q := (h.place c).owned hclaim
  subst hw
  refine ⟨h.places hstep rfl hown ?_, h.unique.move fun _ hq => hq ▸ hclaim, ?_, fun id hid => ?_,
    fun id => ?_, h.stored⟩
  · intro d q' hdc hq'
    exact ⟨(h.place d).owned hq', update_of_ne (h.other hclaim hdc hq') .., refl _⟩
  · exact h.serving_update fun _ => h.serving_of_claim hclaim
  · obtain ⟨row, hrow, -⟩ := hown
    have hne : id ≠ q.requestId := by
      rintro rfl
      cases hrow.symm.trans hid
    show update w.dispatched q.requestId (w.dispatched q.requestId + 1) id ≤ w.pruned id
    rw [update_of_ne hne]
    exact h.absent id hid
  · show update w.dispatched q.requestId (w.dispatched q.requestId + 1) id ≤ w.pruned id + 1
    by_cases heq : id = q.requestId
    · subst heq
      rw [update_self]
      omega
    · rw [update_of_ne heq]
      exact h.once id

theorem answer (hc : w.calls c = .running q) (hstep : replayStep codec w (.answer c r) = some w')
    (hw : w' = ({ w with
      answers := update w.answers q.requestId (r :: w.answers q.requestId) } :
        ReplayWorld R τ).setCall c (.storing q r)) :
    w'.Sound codec := by
  have hclaim : (w.calls c).claim = some q := by rw [hc]; rfl
  have hgrow : ∀ id, w.answers id ⊆ update w.answers q.requestId
      (r :: w.answers q.requestId) id := by
    intro id
    by_cases heq : id = q.requestId
    · subst heq
      rw [update_self]
      exact List.subset_cons_self _ _
    · rw [update_of_ne heq]
      exact refl _
  subst hw
  refine ⟨h.places hstep rfl ⟨(h.place c).owned hclaim, ?_⟩ ?_,
    h.unique.move fun _ hq => hq ▸ hclaim, ?_, h.absent, h.once, fun id row hrow hs => ?_⟩
  · show r ∈ update w.answers q.requestId (r :: w.answers q.requestId) q.requestId
    rw [update_self]
    exact .head _
  · exact fun d q' _ hq' => ⟨(h.place d).owned hq', rfl, hgrow _⟩
  · exact h.serving_update fun _ => h.serving_of_claim hclaim
  · obtain ⟨r', hr', hor⟩ := h.stored id row hrow hs
    exact ⟨r', hr', hor.imp_right fun hmem => hgrow id hmem⟩

theorem store (hc : w.calls c = .storing q r) (hstep : replayStep codec w (.store c) = some w')
    (hw : w' = (w.setRow q.requestId ((w.rows q.requestId).map (storeRow codec q r))).setCall c
      (.returned q r)) : w'.Sound codec := by
  have hclaim : (w.calls c).claim = some q := by rw [hc]; rfl
  obtain ⟨⟨row, hrow, hpend, hcan⟩, hans⟩ : Owned w q ∧ r ∈ w.answers q.requestId := by
    have := h.place c
    rwa [hc] at this
  -- the claimant's row is pending, so the update applies
  have hstore : storeRow codec q r row =
      { row with response := codec.encode r, status := .completed } := by
    simp [storeRow, hpend, hcan]
  have hself : w'.rows q.requestId =
      some { row with response := codec.encode r, status := .completed } := by
    rw [hw, ← hstore]
    simp [ReplayWorld.setCall, ReplayWorld.setRow, hrow]
  have hne : ∀ id, id ≠ q.requestId → w'.rows id = w.rows id := by
    intro id hid
    rw [hw]
    exact update_of_ne hid ..
  refine ⟨h.places hstep (by rw [hw]; rfl) ?_ ?_, ?_, ?_, fun id hid => ?_, ?_,
    fun id row' hrow' hs => ?_⟩
  · exact fun _ _ => ⟨_, hself, fun _ => .inr ⟨rfl, rfl⟩, fun hne => absurd hcan.symm hne⟩
  · intro d q' hdc hq'
    obtain ⟨row', hrow', hpend'⟩ := (h.place d).owned hq'
    refine ⟨⟨row', (hne _ (h.other hclaim hdc hq')).trans hrow', hpend'⟩, ?_, ?_⟩
    · rw [hw]; rfl
    · rw [hw]; exact refl _
  · rw [hw]
    exact h.unique.move fun _ hq => by cases hq
  · rw [hw]
    exact h.serving_update fun _ => h.serving_of_claim hclaim
  · have hid' : id ≠ q.requestId := by
      rintro rfl
      cases hself.symm.trans hid
    rw [hw]
    exact h.absent id ((hne id hid').symm.trans hid)
  · rw [hw]; exact h.once
  · by_cases heq : id = q.requestId
    · subst heq
      obtain rfl := some.inj (hself.symm.trans hrow')
      refine ⟨r, rfl, .inr ?_⟩
      rw [hw]; exact hans
    · rw [hw]
      exact h.stored id row' ((hne id heq).symm.trans hrow') hs

theorem crash (hstep : replayStep codec w .crash = some w') : w'.Sound codec := by
  cases replayStep_move hstep
  have hclaim : ∀ c, (if (w.calls c).result.isSome then w.calls c else .idle).claim = none ∧
      (if (w.calls c).result.isSome then w.calls c else .idle).active = false := by
    intro c
    cases hp : w.calls c <;> exact ⟨rfl, rfl⟩
  refine ⟨fun c => ?_, fun c c' q q' hq => ?_, fun c hc => ?_, h.absent, h.once, h.stored⟩
  · have hok : PlaceOk codec w (if (w.calls c).result.isSome then w.calls c else .idle) := by
      split
      · exact h.place c
      · trivial
    exact hok.step hstep fun q hq => by cases (hclaim c).1.symm.trans hq
  · cases (hclaim c).1.symm.trans hq
  · cases (hclaim c).2.symm.trans hc

theorem reconcile (hstep : replayStep codec w .reconcile = some w') : w'.Sound codec := by
  cases replayStep_move hstep with
  | reconcile hs =>
    refine ⟨fun c => ?_, h.unique, fun _ _ => rfl, fun id hid => ?_, h.once,
      fun id row hrow hst => ?_⟩
    · -- the daemon does not serve yet, so nobody holds a claim
      refine (h.place c).step hstep fun q hq => ?_
      cases hs.symm.trans (h.serving_of_claim hq)
    · exact h.absent id (map_eq_none_iff.1 hid)
    · obtain ⟨row₀, hrow₀, rfl⟩ := map_eq_some_iff.1 hrow
      unfold interruptRow at hst ⊢
      split_ifs at hst with hp
      · exact ⟨interruptedFailure id, by simp [hp], .inl rfl⟩
      · rw [if_neg hp]
        exact h.stored id row₀ hrow₀ hst

theorem prune (hstep : replayStep codec w (.prune now) = some w') : w'.Sound codec := by
  cases replayStep_move hstep with
  | prune =>
    have hkeep : ∀ id row, w.rows id = some row → row.status = .pending →
        (w.rows id).filter (fun row => !prunable now row) = some row := by
      intro id row hrow hp
      simp [hrow, Option.filter, prunable, hp]
    refine ⟨fun c => (h.place c).step hstep fun q hq => ?_, h.unique, h.serving, fun id hid => ?_,
      fun id => ?_, fun id row hrow hs => ?_⟩
    · obtain ⟨row, hrow, hp, hcan⟩ := (h.place c).owned hq
      exact ⟨⟨row, hkeep _ row hrow hp, hp, hcan⟩, rfl, refl _⟩
    · cases hrow : w.rows id with
      | none => exact le_trans (h.absent id hrow) (replayStep_pruned hstep id)
      | some row =>
        -- the row was there and is not any more: it was removed now
        have hpr : prunable now row = true := by
          by_contra hne
          simp [hrow, Option.filter, hne] at hid
        have := h.once id
        simp only [hrow, any_some, hpr, if_true]
        omega
    · exact le_trans (h.once id) (Nat.succ_le_succ (replayStep_pruned hstep id))
    · obtain ⟨hrow, -⟩ := filter_eq_some_iff.1 hrow
      exact h.stored id row hrow hs

end ReplayWorld.Sound

theorem replayStep_sound (h : w.Sound codec) (hstep : replayStep codec w ev = some w') :
    w'.Sound codec := by
  have hactive : ∀ {c p}, w.calls c = p → p.active = true → w.serving = true :=
    fun hc hp => h.serving _ (hc ▸ hp)
  cases replayStep_move hstep with
  | @enter c q hc hs =>
    refine h.moveCall hstep ?_ ?_ fun _ => hs
    · split
      · assumption
      · trivial
    · split <;> rfl
  | claimNew now hc hr => exact h.newRow hr hstep (.inl rfl) (hactive hc rfl)
  | claimOld now hc hr hp | pollOld now hc hr hp =>
    exact h.moveCall hstep (h.fromRow hr hp).1 (h.fromRow hr hp).2 fun _ => hactive hc rfl
  | pollNew now hc hr => exact h.newRow hr hstep (.inr rfl) (hactive hc rfl)
  | @pollLast c q now hc =>
    refine h.moveCall hstep (fun _ hz => ?_) rfl fun _ => hactive hc rfl
    have hwait := h.place c
    rw [hc] at hwait
    obtain ⟨row, hrow, hcan⟩ := hwait hz
    exact ⟨row, hrow, fun _ => .inl rfl, fun hne => absurd hcan.symm hne⟩
  | dispatch hc => exact h.dispatch hc hstep rfl
  | answer r hc => exact h.answer hc hstep rfl
  | @read c q r hc =>
    have hread := h.place c
    rw [hc] at hread
    exact h.moveCall hstep (fun hne => absurd hread hne) rfl fun _ => hactive hc rfl
  | store hc => exact h.store hc hstep rfl
  | cancel hc => exact h.moveCall hstep trivial rfl nofun
  | crash => exact h.crash hstep
  | reconcile => exact h.reconcile hstep
  | prune now => exact h.prune hstep

/-! ### Whole runs -/

structure ReplayWorld.Fresh (w : ReplayWorld R τ) : Prop where
  rows : ∀ id, w.rows id = none
  calls : ∀ c, w.calls c = .idle
  dispatched : ∀ id, w.dispatched id = 0

theorem ReplayWorld.Fresh.sound (h : w.Fresh) : w.Sound codec where
  place c := by rw [h.calls c]; trivial
  unique c c' q q' hq := by rw [h.calls c] at hq; cases hq
  serving c hc := by rw [h.calls c] at hc; cases hc
  absent id _ := by rw [h.dispatched id]; exact Nat.zero_le _
  once id := by rw [h.dispatched id]; exact Nat.zero_le _
  stored id row hrow := by rw [h.rows id] at hrow; cases hrow

/-- **At most one execution per request id.**  In every run from an empty table, an id is passed to
`_dispatch` at most once more often than its row was removed.  While its row was not removed, a
mutation call with the id that returned is explained by the row: with the request the row was
claimed for it returned the failure "still in progress" or the stored response, which is one that
`_dispatch` gave or the failure "interrupted"; with another request it returned the conflict. -/
theorem at_most_one_execution (codec : ResponseCodec R τ) (w₀ w : ReplayWorld R τ)
    (es : List (ReplayEvent R)) (h₀ : w₀.Fresh)
    (hrun : run (replayStep codec) w₀ es = some w) (id : ℕ) :
    w.dispatched id ≤ w.pruned id + 1 ∧
    (w.pruned id = 0 → ∀ c q r, w.calls c = .returned q r → q.requestId = id →
      q.actionClass ≠ .pureRead →
      ∃ row, w.rows id = some row ∧
        (q.canonical = row.canonicalRequest →
          r = inProgressFailure id ∨
          (row.status = .completed ∧ row.response = codec.encode r ∧
            (r = interruptedFailure id ∨ r ∈ w.answers id))) ∧
        (q.canonical ≠ row.canonicalRequest → r = conflictFailure id)) := by
  have hsound : w.Sound codec :=
    Transition.run_invariant (fun _ _ _ hs hstep => replayStep_sound hs hstep) h₀.sound hrun
  refine ⟨hsound.once id, ?_⟩
  rintro hz c q r hc rfl hmut
  have hplace := hsound.place c
  rw [hc] at hplace
  obtain ⟨row, hrow, hequal, hother⟩ := hplace hmut hz
  refine ⟨row, hrow, fun hcan => (hequal hcan).imp_right fun ⟨hs, hresp⟩ => ?_, hother⟩
  obtain ⟨r', hr', hor⟩ := hsound.stored q.requestId row hrow hs
  -- the stored text decodes to one response only
  have heq : r = r' := by
    have := congrArg codec.decode (hresp.symm.trans hr')
    rw [codec.decode_encode, codec.decode_encode] at this
    exact some.inj this
  exact ⟨hs, hresp, heq ▸ hor⟩

end Runs

/-! ### One mutation, its replay, and a read with the same id -/

/-- An empty table in a daemon that serves. -/
def emptyReplay : ReplayWorld ℕ (Option (RpcResponse ℕ)) where
  rows _ := none
  calls _ := .idle
  serving := true
  dispatched _ := 0
  pruned _ := 0
  answers _ := []

theorem emptyReplay_fresh : emptyReplay.Fresh := ⟨fun _ => rfl, fun _ => rfl, fun _ => rfl⟩

/-- Call `0` is a mutation with id `1`. -/
def oneMutation : List (ReplayEvent ℕ) :=
  [.enter 0 ⟨1, .mutation, "start"⟩, .claim 0 0, .dispatch 0, .answer 0 (.success 1 5), .store 0]

/-- The mutation sent again is answered from the row and not executed again. -/
theorem at_most_one_execution_replay :
    ∃ w, run (replayStep (.plain ℕ)) emptyReplay
        (oneMutation ++ [.enter 2 ⟨1, .mutation, "start"⟩, .claim 2 1]) = some w ∧
      w.calls 2 = .returned ⟨1, .mutation, "start"⟩ (.success 1 5) ∧
      w.dispatched 1 ≤ w.pruned 1 + 1 ∧
      ∃ row, w.rows 1 = some row ∧ row.response = some (.success 1 5) := by
  obtain ⟨w, hw, hc, hp, hrow⟩ : ∃ w, run (replayStep (.plain ℕ)) emptyReplay
      (oneMutation ++ [.enter 2 ⟨1, .mutation, "start"⟩, .claim 2 1]) = some w ∧
      w.calls 2 = .returned ⟨1, .mutation, "start"⟩ (.success 1 5) ∧ w.pruned 1 = 0 ∧
      w.rows 1 = some ⟨"start", some (.success 1 5), .completed, 0⟩ :=
    ⟨_, rfl, rfl, rfl, rfl⟩
  obtain ⟨honce, hret⟩ := at_most_one_execution (.plain ℕ) emptyReplay w _ emptyReplay_fresh hw 1
  obtain ⟨row, hrow', hequal, -⟩ := hret hp 2 _ _ hc rfl (by decide)
  obtain rfl := some.inj (hrow.symm.trans hrow')
  obtain hprog | ⟨-, hresp, -⟩ := hequal rfl
  · cases hprog
  · exact ⟨w, hw, hc, honce, _, hrow, hresp⟩

/-- A pure read does not take part: with the id of the mutation and another request it is executed
and returns its own result, not the conflict. -/
theorem read_with_used_id :
    ∃ w row, run (replayStep (.plain ℕ)) emptyReplay
        (oneMutation ++ [.enter 1 ⟨1, .pureRead, "get_status"⟩, .answer 1 (.success 1 6)]) =
          some w ∧
      w.rows 1 = some row ∧ "get_status" ≠ row.canonicalRequest ∧
      w.calls 1 = .returned ⟨1, .pureRead, "get_status"⟩ (.success 1 6) ∧
      (.success 1 6 : RpcResponse ℕ) ≠ conflictFailure 1 :=
  ⟨_, _, rfl, rfl, by decide, rfl, fun h => by cases h⟩

end Horizon
