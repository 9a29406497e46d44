/-
**Capability requests are dispatched once.**

A request with an id that the token has used finds the row of the earlier one: it is answered from
the row, refused while the row is pending, and refused when the two differ.  Only the row of a
successful status request is ever removed, when its replay has expired or by retention, and only
then the id can be dispatched again.  So in the log of every run, between two dispatches of one id
there is such a removal.

Main results:

* `Capability.dispatched_at_most_once` — dispatches and removals in every run.
-/

import Horizon.Capability

namespace Horizon.Capability

open List
open Transition (run)

variable {B : Type}

/-! ### The log of one id -/

/-- The token and the request id that an entry speaks of. -/
def Entry.key : Entry B → Option Key
  | .dispatched tokenId request _ _ => some (tokenId, request.requestId)
  | .removed row _ => some row.key
  | _ => none

def Entry.isDispatch : Entry B → Bool
  | .dispatched .. => true
  | _ => false

/-- The latest dispatch or removal of an id. -/
def latest (key : Key) (log : List (Entry B)) : Option (Entry B) :=
  log.find? fun entry => entry.key = some key

/-- The id has been dispatched and its row not been removed since. -/
def Dispatched (key : Key) (log : List (Entry B)) : Prop :=
  ∃ entry, latest key log = some entry ∧ entry.isDispatch = true

theorem not_dispatched_nil (key : Key) : ¬ Dispatched key ([] : List (Entry B)) := by
  rintro ⟨entry, h, -⟩
  cases h

variable {key : Key} {log : List (Entry B)} {entry : Entry B}

theorem dispatched_cons_of_ne (h : entry.key ≠ some key) :
    Dispatched key (entry :: log) ↔ Dispatched key log := by
  rw [Dispatched, latest, find?_cons_of_neg (by simpa using h)]
  rfl

variable {row : Row B} {cause : Cause} {rows : List (Row B)}

theorem not_dispatched_removed
    (h : row.key = key) : ¬ Dispatched key (.removed row cause :: log) := by
  rintro ⟨entry, hentry, hdispatch⟩
  rw [latest, find?_cons_of_pos (by simpa [Entry.key] using h)] at hentry
  cases hentry
  cases hdispatch

theorem Dispatched.of_cons_removed
    (h : Dispatched key (.removed row cause :: log)) : row.key ≠ key ∧ Dispatched key log := by
  have hne : row.key ≠ key := fun hkey => not_dispatched_removed hkey h
  exact ⟨hne, (dispatched_cons_of_ne (by simpa [Entry.key] using hne)).1 h⟩

theorem Dispatched.of_append_removed (h : Dispatched key (rows.map (.removed · cause) ++ log)) :
    (∀ row ∈ rows, row.key ≠ key) ∧ Dispatched key log := by
  induction rows with
  | nil => exact ⟨fun row hrow => absurd hrow not_mem_nil, h⟩
  | cons row rows ih =>
    obtain ⟨hne, hrest⟩ := Dispatched.of_cons_removed h
    obtain ⟨hrows, hlog⟩ := ih hrest
    exact ⟨forall_mem_cons.2 ⟨hne, hrows⟩, hlog⟩

/-- No dispatch follows another one of the same id without a removal between them. -/
def Alternating : List (Entry B) → Prop
  | [] => True
  | entry :: log => Alternating log ∧
      (entry.isDispatch = true → ∀ key, entry.key = some key → ¬ Dispatched key log)

theorem Alternating.append_removed (h : Alternating log) :
    Alternating (rows.map (.removed · cause) ++ log) := by
  induction rows with
  | nil => exact h
  | cons row rows ih => exact ⟨ih, nofun⟩

theorem Alternating.of_append {newer : List (Entry B)} (h : Alternating (newer ++ log)) :
    Alternating log := by
  induction newer with
  | nil => exact h
  | cons entry newer ih => exact ih h.1

/-- If the id is not open after a later part of the log and was before, that part removed it. -/
theorem exists_removed {middle : List (Entry B)} (hlog : Dispatched key log)
    (h : ¬ Dispatched key (middle ++ log)) :
    ∃ row cause, .removed row cause ∈ middle ∧ row.key = key := by
  induction middle with
  | nil => exact absurd hlog h
  | cons entry middle ih =>
    by_cases hkey : entry.key = some key
    · cases entry with
      | issued | revoked => cases hkey
      | dispatched tokenId request time restart =>
        refine absurd ⟨.dispatched tokenId request time restart, ?_, rfl⟩ h
        exact find?_cons_of_pos (by simpa using hkey)
      | removed row cause => exact ⟨row, cause, .head _, Option.some.inj hkey⟩
    · rw [cons_append, dispatched_cons_of_ne hkey] at h
      obtain ⟨row, cause, hmem, hrow⟩ := ih h
      exact ⟨row, cause, .tail _ hmem, hrow⟩

/-! ### The invariant -/

/-- A removal is of a successful status request, and an expired one is late enough. -/
def Cause.Justified (row : Row B) : Cause → Prop
  | .retention => row.Spent
  | .expired now => row.Spent ∧ row.createdAt.micros + replayWindow ≤ now.micros

/-- An id that is open has a row; dispatches and removals alternate; removals are justified. -/
structure Once (w : World B) : Prop where
  rows : ∀ key, Dispatched key w.log → ∃ row ∈ w.store.requests.rows, row.key = key
  alternating : Alternating w.log
  justified : ∀ row cause, Entry.removed row cause ∈ w.log → cause.Justified row

theorem Once.start (store : Store B) : Once (.start store) :=
  ⟨fun key h => absurd h (not_dispatched_nil key), trivial, nofun⟩

variable {w : World B} {w' : World B} {request : Request}

theorem Once.note (h : Once w) (hkey : entry.key = none)
    (hrequests : w'.store.requests = w.store.requests) (hlog : w'.log = entry :: w.log) :
    Once w' := by
  have hdispatch : entry.isDispatch = false := by cases entry <;> first | rfl | cases hkey
  refine ⟨fun key hopen => ?_, ?_, fun row cause hmem => ?_⟩
  · rw [hlog, dispatched_cons_of_ne (by rw [hkey]; exact nofun)] at hopen
    rw [hrequests]
    exact h.rows key hopen
  · rw [hlog]
    exact ⟨h.alternating, fun hd => absurd hd (by rw [hdispatch]; exact Bool.false_ne_true)⟩
  · rw [hlog, mem_cons] at hmem
    rcases hmem with rfl | hmem
    · cases hkey
    · exact h.justified row cause hmem

theorem Once.remove (h : Once w) (dropped : List (Row B)) (cause : Cause)
    (hrows : ∀ row ∈ w.store.requests.rows, (∃ r ∈ w'.store.requests.rows, r.key = row.key) ∨
      ∃ r ∈ dropped, r.key = row.key) (hjustified : ∀ row ∈ dropped, cause.Justified row)
    (hlog : w'.log = dropped.map (.removed · cause) ++ w.log) : Once w' := by
  refine ⟨fun key hopen => ?_, ?_, fun row c hmem => ?_⟩
  · rw [hlog] at hopen
    obtain ⟨hne, hopen⟩ := hopen.of_append_removed
    obtain ⟨row, hrow, rfl⟩ := h.rows key hopen
    rcases hrows row hrow with hkept | ⟨r, hr, hkey⟩
    · exact hkept
    · exact absurd hkey (hne r hr)
  · rw [hlog]
    exact h.alternating.append_removed
  · rw [hlog, mem_append, mem_map] at hmem
    rcases hmem with ⟨r, hr, heq⟩ | hmem
    · cases heq
      exact hjustified _ hr
    · exact h.justified row c hmem

theorem Expired.justified {s : Store B} {tokenId : ℕ} {now : Instant}
    (h : Expired s tokenId request now row) : (Cause.expired now).Justified row :=
  ⟨h.spent, h.passed⟩

variable {codec : Codec B}

/-- **Every event keeps the invariant.** -/
theorem Once.step {event : Event B} (h : Once w) (hstep : Capability.step codec w event = some w') :
    Once w' := by
  cases step_effect hstep with
  | quiet hstore hlog =>
    refine ⟨?_, ?_, ?_⟩
    · rw [hlog, hstore]
      exact h.rows
    · rw [hlog]
      exact h.alternating
    · rw [hlog]
      exact h.justified
  | issue _ _ _ hrequests hlog | revoke _ _ hrequests hlog => exact h.note rfl hrequests hlog
  | @expire _ tokenId _ request clock row hexpired hstore hlog =>
    refine h.remove [row] (.expired clock.replayed) (fun r hr => ?_)
      (fun r hr => mem_singleton.1 hr ▸ hexpired.justified) hlog
    by_cases hkey : r.key = row.key
    · exact .inr ⟨row, mem_singleton_self row, hkey.symm⟩
    · refine .inl ⟨r, ?_, rfl⟩
      rw [hstore]
      exact mem_filter.2 ⟨hr, decide_eq_true hkey⟩
  | @dispatch _ tokenId _ request clock restart gone hexpired hadmitted hlog =>
    -- First the expired row goes, if there is one; then the id is not open.
    have hgone : ∀ key, Dispatched key
        ((gone.map (.removed · (.expired clock.replayed))).toList ++ w.log) →
        key ≠ (tokenId, request.requestId) ∧ Dispatched key w.log := by
      intro key hopen
      cases gone with
      | none =>
        obtain ⟨row, hrow, hkey⟩ := h.rows key hopen
        exact ⟨fun heq => hadmitted.absent rfl row hrow (hkey.trans heq), hopen⟩
      | some row =>
        obtain ⟨hne, hopen⟩ := Dispatched.of_cons_removed hopen
        rw [(hexpired row rfl).key_eq] at hne
        exact ⟨hne.symm, hopen⟩
    refine ⟨fun key hopen => ?_, ?_, fun row cause hmem => ?_⟩
    · by_cases hkey : key = (tokenId, request.requestId)
      · obtain ⟨row, hrow, hrowKey⟩ := hadmitted.inserted
        exact ⟨row, hrow, hrowKey.trans hkey.symm⟩
      · have hother : (.dispatched tokenId request clock.charged restart : Entry B).key ≠
            some key := fun heq => hkey (Option.some.inj heq).symm
        rw [hlog, dispatched_cons_of_ne hother] at hopen
        obtain ⟨row, hrow, rfl⟩ := h.rows key (hgone key hopen).2
        exact ⟨row, hadmitted.kept row hrow hkey, rfl⟩
    · rw [hlog]
      refine ⟨?_, fun _ key hkey hopen => (hgone key hopen).1 (Option.some.inj hkey).symm⟩
      cases gone with
      | none => exact h.alternating
      | some row => exact ⟨h.alternating, nofun⟩
    · rw [hlog, mem_cons, mem_append] at hmem
      rcases hmem with hmem | hmem | hmem
      · cases hmem
      · cases gone with
        | none => cases hmem
        | some row =>
          cases mem_singleton.1 hmem
          exact (hexpired row rfl).justified
      · exact h.justified row cause hmem
  | finish hrows hspent _ hlog => exact h.remove _ .retention hrows hspent hlog

theorem once_of_run {store : Store B} {events : List (Event B)}
    (hrun : run (step codec) (.start store) events = some w) : Once w :=
  Transition.run_invariant (fun _ _ _ h hstep => h.step hstep) (.start store) hrun

/-- A request that differs from the row of its id is not dispatched. -/
theorem conflict_not_dispatched {call tokenId : ℕ} {audience : Audience} {clock : Readings}
    (hstep : step codec w (.handle call tokenId audience request clock) = some w')
    (hrow : row ∈ w.store.requests.rows) (hkey : row.key = (tokenId, request.requestId))
    (hne : row.canonical ≠ request) : w'.log = w.log := by
  have hsame : ∀ r, Expired w.store tokenId request clock.replayed r → False := by
    intro r hr
    have heq := inj_on_of_nodup_map w.store.requests.unique hr.mem hrow
      (hr.key_eq.trans hkey.symm)
    exact hne (heq ▸ hr.canonical)
  cases step_effect hstep with
  | quiet _ hlog => exact hlog
  | expire hexpired _ _ => exact (hsame _ hexpired).elim
  | @dispatch _ _ _ _ _ _ gone hexpired hadmitted _ =>
    cases gone with
    | none => exact absurd hkey (hadmitted.absent rfl row hrow)
    | some r => exact (hsame r (hexpired r rfl)).elim

/-- **Capability requests are dispatched at most once.**  In every run, between two dispatches of a
token's request id lies the removal of its row, which belongs to a successful status request and is
due to retention or later than the replay window; and a request that differs from the row of its id
is not dispatched. -/
theorem dispatched_at_most_once (codec : Codec B) (store : Store B) (events : List (Event B))
    (w : World B) (hrun : run (step codec) (World.start store) events = some w) :
    (∀ newer middle older tokenId request request' time time' restart restart',
      w.log = newer ++ .dispatched tokenId request' time' restart' ::
        (middle ++ .dispatched tokenId request time restart :: older) →
      request'.requestId = request.requestId →
      ∃ row cause, Entry.removed row cause ∈ middle ∧ row.key = (tokenId, request.requestId) ∧
        row.Spent ∧ (cause = .retention ∨ ∃ now, cause = .expired now ∧
          row.createdAt.micros + replayWindow ≤ now.micros)) ∧
      ∀ call tokenId audience request clock w',
        step codec w (.handle call tokenId audience request clock) = some w' →
        (∃ row ∈ w.store.requests.rows, row.key = (tokenId, request.requestId) ∧
          row.canonical ≠ request) → w'.log = w.log := by
  have honce := once_of_run hrun
  constructor
  · intro newer middle older tokenId request request' time time' restart restart' hlog hid
    have halternating := honce.alternating
    rw [hlog] at halternating
    have hclosed := halternating.of_append.2 rfl (tokenId, request.requestId) (by rw [← hid]; rfl)
    have hopen : Dispatched (tokenId, request.requestId)
        (.dispatched tokenId request time restart :: older : List (Entry B)) :=
      ⟨_, find?_cons_of_pos (by simp [Entry.key]), rfl⟩
    obtain ⟨row, cause, hmem, hkey⟩ := exists_removed hopen hclosed
    have hjustified := honce.justified row cause (by rw [hlog]; simp [hmem])
    refine ⟨row, cause, hmem, hkey, ?_⟩
    cases cause with
    | retention => exact ⟨hjustified, .inl rfl⟩
    | expired now => exact ⟨hjustified.1, .inr ⟨now, rfl, hjustified.2⟩⟩
  · rintro call tokenId audience request clock w' hstep ⟨row, hrow, hkey, hne⟩
    exact conflict_not_dispatched hstep hrow hkey hne

/-- A status request that is made again after eleven minutes. -/
def repeatedStatus : List (Event ℕ) :=
  [.issue 0 wakerTerms (moment 0),
    .handle 0 0 .lazymc ⟨7, .status, .sixHours⟩ (still (moment second)),
    .finish 0 1 true (moment (2 * second)),
    .handle 1 0 .lazymc ⟨7, .status, .sixHours⟩ (still (moment (661 * second)))]

theorem repeatedStatus_removed_between :
    ∃ w, run (step numberCodec) (World.start emptyStore) repeatedStatus = some w ∧
      ∃ row cause, Entry.removed row cause ∈ w.log ∧ row.key = (0, 7) ∧ row.Spent := by
  have hlog : (run (step numberCodec) (World.start emptyStore) repeatedStatus).map
      World.log = some
        ([] ++ .dispatched 0 ⟨7, .status, .sixHours⟩ (moment (661 * second)) true ::
          ([.removed
              ⟨0, 7, ⟨7, .status, .sixHours⟩, some 1, .completed, .status, true, moment second⟩
              (.expired (moment (661 * second)))] ++
            .dispatched 0 ⟨7, .status, .sixHours⟩ (moment second) false ::
              [.issued 0 (moment 0)])) := by
    decide +kernel
  obtain ⟨w, hrun, hw⟩ := Option.map_eq_some_iff.1 hlog
  obtain ⟨row, cause, hmem, hkey, hspent, -⟩ :=
    (dispatched_at_most_once numberCodec emptyStore repeatedStatus w hrun).1 _ _ _ _ _ _ _ _ _ _ hw
      rfl
  refine ⟨w, hrun, row, cause, ?_, hkey, hspent⟩
  rw [hw]
  exact .tail _ (mem_append_left _ hmem)

end Horizon.Capability
