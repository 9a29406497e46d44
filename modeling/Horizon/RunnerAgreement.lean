/-
**Two readers of a reservation.**

`ReservationStore` and `game-slot-run` decode the reservation file by code of their own.  They agree
on every record that the store writes, and the runner refuses whatever the store refuses.  Not every
record that is written can be read back, though: `reserve` does not look at the start ticks that its
caller names, and `transfer` and `renew` look neither at the new operation id nor at the ttl.

Main results:

* `readers_agree_iff` — **when a written record is read back, and how the two readers agree**.
-/

import Horizon.SlotRunner

namespace Horizon

open Option

/-- `ReservationStore.valid_for_runner`. -/
def validForRunner (now : ℤ) (pids : PidTable) (profile : ProfileId) (e : Entry) : Option Bool :=
  (e.read.filter (live now pids)).map fun r => r.profileId = profile && r.operationKind = .lifecycle

/-- The records that the store can write, for a controller with a positive pid.  `reserve` writes
what `reserve_if_available` does. -/
inductive Writes : Reservation → Prop
  | reserve {pids pids' : PidTable} {q : ReserveRequest} {d : Draft} {now stamp : ℤ} {a : Admission}
      {e : Entry} {r : Reservation} (prepared : prepareReserve pids q = .ok d)
      (positive : 0 < d.controllerPid) (stored : admitDraft now stamp pids' a d e = .ok r) :
      Writes r
  | transfer {stamp : ℤ} {k : LeaseKey} {target : ProfileId} {targetOperationId : String}
      {ttl : Option ℤ} {size : ℕ} {e : Entry} {r : Reservation}
      (stored : (transferIfOwned stamp k target targetOperationId ttl size e).1 = .ok r) : Writes r
  | renew {now stamp : ℤ} {pids : PidTable} {k : LeaseKey} {kind : Option OperationKind}
      {ttl : Option ℤ} {size : ℕ} {e : Entry} {r : Reservation}
      (stored : (renewIfOwned now stamp pids k kind ttl size e).1 = .ok r) : Writes r

variable {r : Reservation} {pids : PidTable}

theorem readable_of_read {e : Entry} (h : e.read = some r) : r.Readable := by
  cases e with
  | absent => cases h
  | file info raw =>
    simp only [Entry.read, reservationFromJson, bind_eq_bind, bind_eq_some_iff,
      ite_none_right_eq_some, some.injEq] at h
    obtain ⟨d, -, p, -, op, -, g, -, pid, -, t, -, x, -, k, -, c, hc, ⟨hop, hg, hpid, ht⟩, rfl⟩ := h
    refine ⟨hop, hg, hpid, ht, rfl, fun digest hdigest => ?_⟩
    obtain rfl : c = some digest := hdigest
    unfold capabilityFromJson at hc
    split at hc
    · cases hc
    · cases hc
    · rw [ite_none_right_eq_some] at hc
      exact some.inj (some.inj hc.2) ▸ hc.1
    · cases hc

theorem prepareReserve_ok {q : ReserveRequest} {d : Draft} (h : prepareReserve pids q = .ok d) :
    0 ≤ d.stateGeneration ∧
      ∀ digest ∈ d.capabilitySha256, d.operationKind = .update ∧ isHexDigest digest := by
  simp only [prepareReserve, bind, Except.bind, pure, Except.pure, throw, throwThe,
    MonadExceptOf.throw] at h
  repeat' split at h
  all_goals cases h
  all_goals grind

theorem Writes.checked (h : Writes r) : 0 ≤ r.stateGeneration ∧ 0 < r.controllerPid ∧
    ∀ digest ∈ r.capabilitySha256, r.operationKind = .update ∧ isHexDigest digest := by
  cases h with
  | reserve prepared positive stored =>
    obtain ⟨hgeneration, hcapability⟩ := prepareReserve_ok prepared
    simp only [admitDraft, Admission.generation, bind, Except.bind, pure, Except.pure, throw,
      throwThe, MonadExceptOf.throw] at stored
    repeat' split at stored
    all_goals cases stored
    all_goals exact ⟨by grind [Draft.reservation], positive, hcapability⟩
  | @transfer stamp k target id ttl size e r stored =>
    unfold transferIfOwned at stored
    split at stored <;> cases stored
    rename_i r' hr
    obtain ⟨-, hg, hpid, -, -, hcapability⟩ := readable_of_read (filter_eq_some_iff.1 hr).1
    exact ⟨hg, hpid, hcapability⟩
  | @renew now stamp pids k kind ttl size e r stored =>
    unfold renewIfOwned at stored
    split at stored <;> cases stored
    rename_i r' hr
    obtain ⟨-, hg, hpid, -, -, hcapability⟩ := readable_of_read (filter_eq_some_iff.1 hr).1
    exact ⟨hg, hpid, hcapability⟩

theorem runnerView_payload
    (hcap : ∀ digest ∈ r.capabilitySha256, r.operationKind = .update ∧ isHexDigest digest) :
    runnerView (some (reservationPayload r)) =
      if r.Readable then r.expiresAt.map fun x =>
        ⟨r.profileId, r.controllerPid, r.controllerStartTicks, x, r.operationKind⟩
      else none := by
  unfold runnerView
  rw [bind_eq_bind, bind_some, profileId_payload, operationId_payload,
    stateGeneration_payload, controllerPid_payload, controllerStartTicks_payload,
    expiresAt_payload, operationKind_payload]
  simp only [bind_eq_bind, bind_some, kindFromJson, JsonValue.str?,
    ProfileId.ofValue_value, OperationKind.ofValue_value]
  cases hx : r.expiresAt with
  | none => simp
  | some x => simp only [bind_some, Reservation.Readable, hx, isSome_some,
      eq_true hcap, and_true, map_some]

theorem reservationStatus_written {now : ℤ} {profile : ProfileId} {size : ℕ}
    (hcap : ∀ digest ∈ r.capabilitySha256, r.operationKind = .update ∧ isHexDigest digest) :
    reservationStatus now pids profile (.written size r) =
      validForRunner now pids profile (.written size r) := by
  have hsecure : FileInfo.secureRegular ⟨true, false, true, 1, 0, 0o644, size⟩ = true := by
    simp [FileInfo.secureRegular]
  rw [validForRunner, Entry.read_written, Entry.written, reservationStatus, if_pos hsecure,
    runnerView_payload hcap]
  by_cases hr : r.Readable
  · obtain ⟨x, hx⟩ := isSome_iff_exists.1 hr.2.2.2.2.1
    rw [if_pos hr, if_pos hr, hx, map_some, filter_some]
    by_cases hlive : live now pids r = true
    · obtain ⟨x', hx', hbounds⟩ := live_iff.1 hlive
      obtain rfl := some.inj (hx.symm.trans hx')
      rw [if_pos hlive]
      exact if_pos hbounds
    · rw [if_neg hlive]
      exact if_neg fun hbounds => hlive (live_iff.2 ⟨x, hx, hbounds⟩)
  · rw [if_neg hr, if_neg hr]
    rfl

/-- **The two readers agree**: on every record that the store writes, whether or not it can be read
back, and on a live mismatch in any other content of a safe file. -/
theorem readers_agree_iff {r : Reservation} (h : Writes r) (size : ℕ) (now : ℤ) (pids : PidTable)
    (profile : ProfileId) :
    ((Entry.written size r).read = some r ↔
      r.operationId ≠ "" ∧ 0 ≤ r.controllerStartTicks ∧ r.expiresAt.isSome = true) ∧
    reservationStatus now pids profile (.written size r) =
      validForRunner now pids profile (.written size r) ∧
    ∀ info raw, info.secureRegular = true →
      validForRunner now pids profile (.file info raw) = some false →
      reservationStatus now pids profile (.file info raw) = some false := by
  obtain ⟨hgeneration, hpid, hcapability⟩ := h.checked
  refine ⟨?_, reservationStatus_written hcapability, fun info raw hsecure hfalse => ?_⟩
  · rw [Entry.read_written, ite_none_right_eq_some, Reservation.Readable]
    constructor
    · rintro ⟨⟨hop, -, -, hticks, hexpires, -⟩, -⟩
      exact ⟨hop, hticks, hexpires⟩
    · rintro ⟨hop, hticks, hexpires⟩
      exact ⟨⟨hop, hgeneration, hpid, hticks, hexpires, hcapability⟩, rfl⟩
  · obtain ⟨r', hr', hmismatch⟩ := map_eq_some_iff.1 hfalse
    obtain ⟨hread, hlive⟩ := filter_eq_some_iff.1 hr'
    obtain ⟨x, hx, hview⟩ := runnerView_of_reservationFromJson hread
    obtain ⟨x', hx', hbounds⟩ := live_iff.1 hlive
    obtain rfl := some.inj (hx.symm.trans hx')
    rw [reservationStatus, if_pos hsecure, hview]
    exact (if_pos hbounds).trans (congrArg some hmismatch)

/-- A call of `reserve_if_available` that names the start ticks of its controller. -/
def namedTicks (ticks : ℤ) : ReserveRequest :=
  ⟨0, 1, "minecraft", "op", some 1, 0, some 1, some ticks, "lifecycle", none⟩

theorem readers_agree_positive : ∃ r, Writes r ∧ (Entry.written 1 r).read = some r :=
  ⟨_, .reserve (rfl : prepareReserve (fun _ => none) (namedTicks 7) = .ok _) (by decide)
      (rfl : admitDraft 0 0 (fun _ => none) {} _ .absent = .ok _),
    (readers_agree_iff (.reserve (rfl : prepareReserve (fun _ => none) (namedTicks 7) = .ok _)
      (by decide) (rfl : admitDraft 0 0 (fun _ => none) {} _ .absent = .ok _)) 1 0 (fun _ => none)
      .minecraft).1.2 (by decide)⟩

/-- A reservation for negative start ticks is written, and nobody can read it. -/
theorem negative_ticks_lost : ∃ r, Writes r ∧ (Entry.written 1 r).read = none :=
  ⟨_, .reserve (rfl : prepareReserve (fun _ => none) (namedTicks (-7)) = .ok _) (by decide)
      (rfl : admitDraft 0 0 (fun _ => none) {} _ .absent = .ok _), rfl⟩

end Horizon
