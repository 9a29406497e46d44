/-
**Awaits and how they ended.**

What a call leaves behind often turns on single awaits: a cancellation at one place passes every
clause, at another it is handled.  Such a result names the ends that matter, by a predicate on the
awaits that were performed, and follows the effects of the call together with the question whether
one of these ends has occurred.  The rules here are those of the primitives, for any such predicate
and any condition on the effects.

Main results:

* `await_marked`, `transaction_marked` — the rules of awaits and transactions;
* `acquire_keeps`, `releaseLease_ends` — what does not depend on the leases.
-/

import Horizon.Handlers

namespace Horizon

open Coroutine Coroutine.Coro

variable (bad : Happened → Bool)

/-- No await has ended in one of the ways that `bad` names. -/
def HandlerState.Clear (s : HandlerState) : Prop := ∀ h ∈ s.trace, bad h = false

theorem HandlerState.clear_append (s : HandlerState) (h : Happened) :
    ({ s with trace := s.trace ++ [h] } : HandlerState).Clear bad ↔
      s.Clear bad ∧ bad h = false := by
  simp [HandlerState.Clear, or_imp, forall_and]

theorem HandlerState.clear_init : ({} : HandlerState).Clear bad := by
  intro h hh
  cases hh

/-- A condition on the effects of a call, while no await has ended badly. -/
def Unmarked (J : CallState → Prop) (s : HandlerState) : Prop := J s.toCallState ∧ s.Clear bad

/-- A condition on the effects of a call; `b` says whether the last await ended badly. -/
def Marked (J : CallState → Prop) (b : Bool) (s : HandlerState) : Prop :=
  J s.toCallState ∧ (s.Clear bad ↔ b = false)

variable {bad} {J K : CallState → Prop} {s : HandlerState}

theorem Marked.unmarked (h : Marked bad J false s) : Unmarked bad J s := ⟨h.1, h.2.2 rfl⟩

theorem Marked.not_clear (h : Marked bad J true s) : ¬ s.Clear bad := by
  intro hclear
  have hfalse := h.2.1 hclear
  cases hfalse

theorem note_marked (h : Happened) {E : Exc → HandlerState → Prop} :
    Triple (Unmarked bad J) (note h) (fun _ => Marked bad J (bad h)) E := by
  refine .modify ?_
  rintro s ⟨hs, hclear⟩
  refine ⟨hs, ?_⟩
  rw [HandlerState.clear_append]
  exact ⟨fun hboth => hboth.2, fun hlast => ⟨hclear, hlast⟩⟩

variable (ω : Oracle) (site : TxSite)

/-- An await returns and is not bad, or it raises and is what the predicate says. -/
theorem await_marked (site : Site) (hret : ∀ b, bad (.await site (.returned b)) = false) :
    Stays (Unmarked bad J) (await ω site)
      (fun e => Marked bad J (bad (.await site (.raised e)))) := by
  refine .next (note_marked _) ?_
  cases ω.await site with
  | returned b =>
    rw [hret b]
    exact .pure fun _ hs => hs.unmarked
  | raised e => exact .raise same

theorem wait_marked (site : Site) (hret : ∀ b, bad (.await site (.returned b)) = false) :
    Stays (Unmarked bad J) (wait ω site) (fun e => Marked bad J (bad (.await site (.raised e)))) :=
  Triple.next (await_marked ω site hret) (.pure same)

/-- A transaction returns with its effect, or it raises without it or with it. -/
theorem transaction_marked {effect : HandlerState → HandlerState}
    (htrace : ∀ s, (effect s).trace = s.trace)
    (heffect : ∀ s : HandlerState, J s.toCallState → K (effect s).toCallState)
    (hret : bad (.tx site .done) = false) :
    Triple (Unmarked bad J) (transaction ω site effect) (fun _ => Unmarked bad K)
      (fun e s => (ω.tx site = .before e ∧ Marked bad J (bad (.tx site (.before e))) s) ∨
        (ω.tx site = .after e ∧ Marked bad K (bad (.tx site (.after e))) s)) := by
  have hmark (b : Bool) (s : HandlerState) (hs : Marked bad J b s) : Marked bad K b (effect s) := by
    refine ⟨heffect s hs.1, ?_⟩
    unfold HandlerState.Clear
    rw [htrace]
    exact hs.2
  refine .next (note_marked _) ?_
  cases ω.tx site with
  | done =>
    rw [hret]
    exact .modify fun s hs => (hmark _ s hs).unmarked
  | before e => exact .raise fun _ hs => .inl ⟨rfl, hs⟩
  | after e =>
    refine .seq (Marked bad K (bad (.tx site (.after e))))
      (.modify fun s hs => hmark _ s hs) fun _ => ?_
    exact .raise fun _ hs => .inr ⟨rfl, hs⟩

theorem opTx_marked (o : JobOp)
    (heffect : ∀ s : HandlerState, J s.toCallState → K (s.op o).toCallState)
    (hret : bad (.tx site .done) = false) :
    Triple (Unmarked bad J) (transaction ω site fun s => s.op o) (fun _ => Unmarked bad K)
      (fun e s => (ω.tx site = .before e ∧ Marked bad J (bad (.tx site (.before e))) s) ∨
        (ω.tx site = .after e ∧ Marked bad K (bad (.tx site (.after e))) s)) :=
  transaction_marked ω site (fun _ => rfl) heffect hret

/-- A transaction that leaves the effects of the call as they are. -/
theorem record_marked (hret : bad (.tx site .done) = false) :
    Stays (Unmarked bad J) (record ω site)
      (fun e s => (ω.tx site = .before e ∧ Marked bad J (bad (.tx site (.before e))) s) ∨
        (ω.tx site = .after e ∧ Marked bad J (bad (.tx site (.after e))) s)) :=
  transaction_marked ω site (fun _ => rfl) (fun _ hs => hs) hret

/-! ### What does not depend on the leases -/

variable {P I : HandlerState → Prop}
  (hI : ∀ (s : HandlerState) (x : Leases), I s → I { s with toLeases := x })

include hI

theorem releaseLease_ends (site : ReleaseSite) (lease renewal : Option Lease) (primary : Bool)
    (hnote : Ends P (note (.release site (ω.release site))) I) :
    Ends P (releaseLease ω site lease renewal primary) I := by
  have hleases (f : Leases → Leases) : Keeps I (onHandlerLeases f) := .modify fun s => hI s _
  refine .next hnote ((hleases _).bind fun _ => (hleases _).next ?_)
  cases primary with
  | true => exact .pure ()
  | false =>
    cases releaseError lease renewal (ω.release site) with
    | none => exact .pure ()
    | some e => exact .raise e

theorem acquire_keeps (hnote : Keeps I (note (.store .reserve (ω.store .reserve))))
    (hevent : Keeps I (record ω .slotEvent)) (haudit : Keeps I (record ω .slotAudit)) :
    Keeps I (acquire ω) := by
  have hstored (l : Option Lease) : Keeps I (setStored l) := .modify fun s => hI s _
  have hio : Keeps I (reservationIo ω .reserve .operation) := by
    refine hnote.next ?_
    cases (ω.store .reserve).effect with
    | stored => exact (hstored _).next (.ite ((hstored _).bind fun _ => .raise _) (.pure ()))
    | refused => exact .raise _
    | storedThenRaised => exact (hstored _).next (.raise _)
  have hreserve : Keeps I (reserve ω .reserve .operation .slotEvent .slotAudit) :=
    .tryExcept hio fun e => .ite (.raise e) (hevent.next (haudit.bind fun _ => .raise _))
  refine hreserve.next (.next (.modify fun s => hI s _) ?_)
  exact .next (.modify fun s => hI s _) (.modify fun s => hI s _)

end Horizon
