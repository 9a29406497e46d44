/-
**Watch streams: what a client of the hub misses.**

The stream of a client is what it has taken and what waits in its queue.  It has no silent gap when
it ascends and every published event above the client's cursor that it lacks is followed by a full
event or a marker.  Publishing keeps a stream free of gaps whatever the other clients do, so it is
the backlog at the start of the stream that decides.

Main results:

* `no_silent_gap_iff` — **a stream has no silent gap exactly when its backlog was complete,
  and a client that is up to date is sent nothing**.
-/

import Horizon.WatchStreams

namespace Horizon

open WatchFeed (moved)
open List
open Option
open Function Transition

variable {P : Type}

/-! ### Streams without a silent gap -/

/-- The cursors of the events and markers a hub has issued. -/
def WatchFeed.Cursor (feed : WatchFeed P) (cursor : WatchCursor) : Prop :=
  ∃ item ∈ feed.issued, cursor = ⟨item.sequence, item.generation.toNat⟩

/-- A stream has no silent gap above `cursor`: it ascends, and each published event it lacks is
followed by a full event or a marker. -/
structure WatchFeed.Covers (cursor : ℕ) (published stream : List (WatchEvent P)) : Prop where
  ascending : stream.Pairwise (·.sequence < ·.sequence)
  covered : ∀ event ∈ published, cursor < event.sequence →
    event ∈ stream ∨ ∃ item ∈ stream, item.full = true ∧ event.sequence < item.sequence

/-- While a client is connected, what it has taken and what waits in its queue have no silent
gap. -/
def WatchFeed.NoGap (feed : WatchFeed P) (cursor : WatchCursor) (ident : ℕ) : Prop :=
  ∀ client, feed.hub.clientMap ident = some client →
    WatchFeed.Covers cursor.sequence feed.published (feed.taken ident ++ client.queue)

namespace WatchHub

/-- The backlog leaves no gap: either nothing is above the cursor, or the number after the cursor
is remembered and what is replayed fits the queue, or a marker is sent, or the snapshot that is
sent instead is the latest event. -/
def Complete (hub : WatchHub P) (cursor : WatchCursor) : Prop :=
  ∀ first, (hub.replay cursor).head? = some first →
    if cursor.sequence + 1 < first.sequence then
      ∀ s, hub.snapshot = some s → ∀ event ∈ hub.replay cursor, event.sequence ≤ s.sequence
    else (hub.superseded cursor).length ≤ hub.bounds.queueSize

end WatchHub

open WatchHub

namespace WatchFeed

/-! ### Publishing leaves no gap -/

variable {item : WatchEvent P}

theorem Covers.push {cursor : ℕ} {published stream : List (WatchEvent P)}
    (h : Covers cursor published stream) (hlast : ∀ x ∈ stream, x.sequence < item.sequence) :
    Covers cursor (published ++ [item]) (stream ++ [item]) where
  ascending := by
    rw [pairwise_append]
    refine ⟨h.ascending, pairwise_singleton _ _, fun x hx y hy => ?_⟩
    rw [mem_singleton.1 hy]
    exact hlast x hx
  covered := by
    intro event hevent hcursor
    rcases mem_append.1 hevent with hevent | hevent
    · rcases h.covered event hevent hcursor with hmem | ⟨x, hx, hfull, hlt⟩
      · exact .inl (mem_append_left _ hmem)
      · exact .inr ⟨x, mem_append_left _ hx, hfull, hlt⟩
    · exact .inl (mem_append_right _ hevent)

/-- A stream whose queue gives way to a marker: the marker is above everything it replaces. -/
theorem Covers.replace {cursor : ℕ} {published taken queue : List (WatchEvent P)}
    {item marker : WatchEvent P} (h : Covers cursor published (taken ++ queue))
    (hfull : marker.full = true) (hlast : ∀ x ∈ taken ++ queue, x.sequence < item.sequence)
    (hmarker : item.sequence < marker.sequence) :
    Covers cursor (published ++ [item]) (taken ++ [marker]) where
  ascending := by
    rw [pairwise_append]
    refine ⟨(pairwise_append.1 h.ascending).1, pairwise_singleton _ _, fun x hx y hy => ?_⟩
    rw [mem_singleton.1 hy]
    exact (hlast x (mem_append_left _ hx)).trans hmarker
  covered := by
    have hend : marker ∈ taken ++ [marker] := mem_append_right _ (mem_singleton.2 rfl)
    intro event hevent hcursor
    refine .inr ⟨marker, hend, hfull, ?_⟩
    rcases mem_append.1 hevent with hevent | hevent
    · rcases h.covered event hevent hcursor with hmem | ⟨x, hx, -, hlt⟩
      · exact (hlast event hmem).trans hmarker
      · exact hlt.trans ((hlast x hx).trans hmarker)
    · rw [mem_singleton.1 hevent]
      exact hmarker

/-- A client that has subscribed follows the feed. -/
structure Following (cursor : WatchCursor) (ident : ℕ) (feed : WatchFeed P) : Prop where
  old : ident ≤ feed.hub.nextClient
  noGap : feed.NoGap cursor ident

variable {cursor : WatchCursor} {ident : ℕ} {feed : WatchFeed P}

/-- A call that publishes nothing and leaves the client's queue alone. -/
theorem Following.quiet (h : Following cursor ident feed) {hub : WatchHub P}
    (hnext : feed.hub.nextClient ≤ hub.nextClient)
    (hqueue : ∀ client, hub.clientMap ident = some client →
      feed.hub.clientMap ident = some client) : Following cursor ident (feed.moved hub []) := by
  refine ⟨h.old.trans hnext, fun client hclient => ?_⟩
  have hcovers := h.noGap client (hqueue client hclient)
  rw [← append_nil feed.published] at hcovers
  exact hcovers

/-- What a client has taken and what waits for it is below the number of the next event. -/
theorem Sane.stream_lt (h : feed.Sane) {client : WatchClient P}
    (hclient : feed.hub.clientMap ident = some client)
    (hnumber : item.sequence = feed.hub.sequence + 1) :
    ∀ x ∈ feed.taken ident ++ client.queue, x.sequence < item.sequence := by
  intro x hx
  have hissued : x ∈ feed.issued := by
    rcases mem_append.1 hx with hx | hx
    · exact h.taken_issued ident x hx
    · exact h.queued_issued ident client hclient x hx
  rw [hnumber]
  exact Nat.lt_succ_of_le (h.proper x hissued).sequence

theorem Following.deliver (h : Following cursor ident feed) (hsane : feed.Sane)
    (hnumber : item.sequence = feed.hub.sequence + 1) :
    Following cursor ident (feed.moved ((feed.hub.noted item).deliver item) [item]) := by
  have hhanded := deliver_handed (feed.hub.noted item) item hsane.distinct hsane.live
  refine ⟨h.old.trans hhanded.nextClient.ge, fun client' hclient' => ?_⟩
  have hident := hhanded.clients.subset (hhanded.live ident client' hclient').1
  obtain ⟨client, hclient, hqueue | ⟨number, hlow, -, hqueue⟩⟩ :=
    hhanded.own ident hident client' hclient'
  · have hlast := hsane.stream_lt hclient hnumber
    have hpush := (h.noGap client hclient).push hlast
    rw [append_assoc, ← hqueue] at hpush
    exact hpush
  · have hlast := hsane.stream_lt hclient hnumber
    rw [hqueue]
    refine (h.noGap client hclient).replace rfl hlast ?_
    rw [hnumber]
    exact hlow

theorem Following.take (h : Following cursor ident feed) (ident' : ℕ) :
    Following cursor ident
      { feed.moved (feed.hub.take ident').2 [] with
        taken := update feed.taken ident' (feed.taken ident' ++ feed.hub.next ident') } := by
  obtain ⟨hhub, hnext⟩ | ⟨client, item, rest, hclient, hqueue, hnext, hhub⟩ :=
    take_cases feed.hub ident'
  · have heq : Following cursor ident (feed.moved feed.hub []) :=
      h.quiet le_rfl fun _ hclient => hclient
    rw [hhub, hnext, append_nil, Function.update_eq_self]
    exact heq
  · rw [hhub, hnext]
    refine ⟨h.old, fun client' hclient' => ?_⟩
    show Covers cursor.sequence (feed.published ++ [])
      (update feed.taken ident' (feed.taken ident' ++ [item]) ident ++ client'.queue)
    rw [append_nil]
    obtain ⟨rfl, hc⟩ | ⟨hne, hold⟩ := client_of_update hclient'
    · rw [← some_inj.1 hc, update_self, append_assoc, singleton_append, ← hqueue]
      exact h.noGap client hclient
    · rw [update_of_ne hne]
      exact h.noGap client' hold

end WatchFeed

open WatchFeed

/-- **One call keeps the streams free of gaps.** -/
theorem feedStep_following {cursor : WatchCursor} {ident : ℕ} {feed feed' : WatchFeed P}
    {call : WatchCall P} (hsane : feed.Sane) (h : Following cursor ident feed)
    (hstep : feedStep feed call = some feed') : Following cursor ident feed' := by
  cases call with
  | publish kind payload generation full =>
    cases hstep
    obtain ⟨hnone, heq⟩ | ⟨-, heq⟩ := publish_cases feed.hub kind payload generation full
    · rw [hnone]
      obtain heq | ⟨-, heq⟩ := heq
      all_goals
        rw [heq]
        exact h.quiet le_rfl fun _ hclient => hclient
    · rw [heq]
      exact h.deliver hsane rfl
  | subscribe cursor' =>
    cases hstep
    refine h.quiet (Nat.le_succ _) fun client hclient => ?_
    obtain ⟨heq, -⟩ | ⟨-, hold⟩ := client_of_update hclient
    · exact absurd (heq ▸ h.old) (Nat.not_succ_le_self _)
    · exact hold
  | unsubscribe ident' =>
    cases hstep
    refine h.quiet le_rfl fun client hclient => ?_
    obtain ⟨-, hnone⟩ | ⟨-, hold⟩ := client_of_update hclient
    · cases hnone
    · exact hold
  | take ident' =>
    cases hstep
    exact h.take ident'
  | walk order =>
    rw [feedStep] at hstep
    split at hstep <;> cases hstep
    exact h.quiet le_rfl fun _ hclient => hclient

theorem run_following {cursor : WatchCursor} {ident : ℕ} {feed feed' : WatchFeed P}
    {calls : List (WatchCall P)} (hsane : feed.Sane) (h : Following cursor ident feed)
    (hrun : run feedStep feed calls = some feed') : Following cursor ident feed' := by
  have hboth : feed'.Sane ∧ Following cursor ident feed' :=
    run_invariant (I := fun feed => feed.Sane ∧ Following cursor ident feed)
      (fun _ _ _ hI hstep => ⟨feedStep_sane hI.1 hstep, feedStep_following hI.1 hI.2 hstep⟩)
      ⟨hsane, h⟩ hrun
  exact hboth.2

/-! ### The backlog -/

namespace WatchHub

variable {hub : WatchHub P} {published : List (WatchEvent P)} {cursor : WatchCursor}

variable {event : WatchEvent P}

theorem mem_replay :
    event ∈ hub.replay cursor ↔ event ∈ hub.history ∧ cursor.sequence < event.sequence := by
  rw [replay, mem_filter, decide_eq_true_iff]

variable (h : Logged hub published)
include h

/-- An event that is forgotten is before every event that is remembered. -/
theorem Logged.mem_history_or (hevent : event ∈ published) :
    event ∈ hub.history ∨ ∀ item ∈ hub.history, event.sequence < item.sequence := by
  obtain ⟨forgotten, heq⟩ := h.recent
  have hasc := h.ascending
  rw [← heq] at hevent hasc
  rcases mem_append.1 hevent with hevent | hevent
  · exact .inr fun item hitem => (pairwise_append.1 hasc).2.2 event hevent item hitem
  · exact .inl hevent

theorem Logged.eq_of_sequence {a b : WatchEvent P}
    (ha : a ∈ published) (hb : b ∈ published) (heq : a.sequence = b.sequence) : a = b := by
  have hnodup : (published.map (·.sequence)).Nodup :=
    pairwise_map.2 (h.ascending.imp fun hlt => hlt.ne)
  exact inj_on_of_nodup_map hnodup ha hb heq

theorem Logged.le_of_replay_nil (hreplay : hub.replay cursor = []) (hevent : event ∈ published) :
    event.sequence ≤ cursor.sequence := by
  have hlow : ∀ item ∈ hub.history, item.sequence ≤ cursor.sequence := by
    intro item hitem
    by_contra hlt
    have hmem := mem_replay.2 ⟨hitem, not_le.1 hlt⟩
    rw [hreplay] at hmem
    exact not_mem_nil hmem
  rcases h.mem_history_or hevent with hmem | hbefore
  · exact hlow event hmem
  · obtain ⟨item, hitem⟩ := exists_mem_of_ne_nil _ (h.remembered (ne_nil_of_mem hevent))
    exact (hbefore item hitem).le.trans (hlow item hitem)

variable {first : WatchEvent P} {rest : List (WatchEvent P)}

/-- When the number after the cursor is remembered, everything above the cursor is. -/
theorem Logged.mem_replay_of_next (hfirst : (hub.replay cursor).head? = some first)
    (hnext : ¬ cursor.sequence + 1 < first.sequence) (hevent : event ∈ published)
    (habove : cursor.sequence < event.sequence) : event ∈ hub.replay cursor := by
  have hmem := (mem_replay.1 (mem_of_mem_head? hfirst)).1
  rcases h.mem_history_or hevent with hhistory | hbefore
  · exact mem_replay.2 ⟨hhistory, habove⟩
  · have hlt := hbefore first hmem
    omega

theorem Logged.replay_ascending : (hub.replay cursor).Pairwise (·.sequence < ·.sequence) :=
  (h.ascending.sublist h.recent.sublist).filter _

theorem Logged.published_of_replay (hevent : event ∈ hub.replay cursor) : event ∈ published :=
  h.recent.subset (mem_replay.1 hevent).1

/-- What is replayed: an event above the cursor, then later events none of which is full, and the
first of them stands for all that are left out. -/
structure Replayed (cursor : ℕ) (published events : List (WatchEvent P)) (first : WatchEvent P)
    (rest : List (WatchEvent P)) : Prop where
  mem : first ∈ published
  above : cursor < first.sequence
  ascending : (first :: rest).Pairwise (·.sequence < ·.sequence)
  deltas : ∀ item ∈ rest, item.full = false
  covered : ∀ event ∈ events, event ∈ first :: rest ∨
    first.full = true ∧ event.sequence < first.sequence

theorem Logged.replayed_plain (hlow : ∀ event ∈ hub.replay cursor, event.full = false)
    (hreplay : hub.replay cursor = first :: rest) :
    Replayed cursor.sequence published (hub.replay cursor) first rest where
  mem := h.published_of_replay (hreplay ▸ mem_cons_self)
  above := (mem_replay.1 (hreplay ▸ mem_cons_self)).2
  ascending := hreplay ▸ h.replay_ascending
  deltas := fun item hitem => hlow item (hreplay ▸ .tail _ hitem)
  covered := fun _ hevent => .inl (hreplay ▸ hevent)

theorem Logged.replayed_snapshot {s : WatchEvent P}
    (hs : hub.snapshot = some s) (habove : cursor.sequence < s.sequence) :
    Replayed cursor.sequence published (hub.replay cursor) s
      ((hub.replay cursor).filter fun item => s.sequence < item.sequence) where
  mem := (h.snapshot_some s hs).1
  above := habove
  ascending := by
    rw [pairwise_cons]
    refine ⟨fun item hitem => ?_, h.replay_ascending.filter _⟩
    exact decide_eq_true_iff.1 (mem_filter.1 hitem).2
  deltas := by
    intro item hitem
    obtain ⟨hmem, hlater⟩ := mem_filter.1 hitem
    rw [Bool.eq_false_iff]
    intro hfull
    have hle := (h.snapshot_some s hs).2.2 item (h.published_of_replay hmem) hfull
    exact absurd (decide_eq_true_iff.1 hlater) (not_lt.2 hle)
  covered := by
    intro event hevent
    rcases lt_trichotomy event.sequence s.sequence with hlt | heq | hgt
    · exact .inr ⟨(h.snapshot_some s hs).2.1, hlt⟩
    · refine .inl ?_
      rw [h.eq_of_sequence (h.published_of_replay hevent) (h.snapshot_some s hs).1 heq]
      exact .head _
    · exact .inl (.tail _ (mem_filter.2 ⟨hevent, decide_eq_true hgt⟩))

theorem Logged.superseded_eq (hne : hub.replay cursor ≠ []) :
    ∃ first rest, hub.superseded cursor = first :: rest ∧
      Replayed cursor.sequence published (hub.replay cursor) first rest := by
  obtain ⟨first, rest, hreplay⟩ := exists_cons_of_ne_nil hne
  unfold superseded
  cases hs : hub.snapshot with
  | none =>
    refine ⟨first, rest, hreplay, h.replayed_plain (fun event hevent => ?_) hreplay⟩
    exact h.snapshot_none hs event (h.published_of_replay hevent)
  | some s =>
    dsimp only
    split
    · rename_i habove
      exact ⟨s, _, rfl, h.replayed_snapshot hs habove⟩
    · rename_i hbelow
      refine ⟨first, rest, hreplay, h.replayed_plain (fun event hevent => ?_) hreplay⟩
      rw [Bool.eq_false_iff]
      intro hfull
      have hle := (h.snapshot_some s hs).2.2 event (h.published_of_replay hevent) hfull
      exact hbelow ((mem_replay.1 hevent).2.trans_le hle)

omit h

/-- The backlog of a cursor that is not ahead of the hub and has something to replay. -/
theorem backlog_eq (hfirst : (hub.replay cursor).head? = some first)
    (hgeneration : ¬ hub.generation < cursor.generation) :
    hub.backlog cursor = if cursor.sequence + 1 < first.sequence then hub.resync
      else (hub.superseded cursor).drop
        ((hub.superseded cursor).length - hub.bounds.queueSize) := by
  obtain ⟨rest, hreplay⟩ := head?_eq_some_iff.1 hfirst
  unfold backlog
  rw [hreplay]
  simp only [hgeneration, or_false]

theorem complete_iff (hfirst : (hub.replay cursor).head? = some first) :
    hub.Complete cursor ↔ if cursor.sequence + 1 < first.sequence then
      ∀ s, hub.snapshot = some s → ∀ event ∈ hub.replay cursor, event.sequence ≤ s.sequence
      else (hub.superseded cursor).length ≤ hub.bounds.queueSize := by
  constructor
  · intro h
    exact h first hfirst
  · intro h first' hfirst'
    obtain rfl := some_inj.1 (hfirst.symm.trans hfirst')
    exact h

/-- **A replay has no gap exactly when nothing is cut off its front.** -/
theorem Replayed.covers_drop_iff {events : List (WatchEvent P)}
    (h : Replayed cursor.sequence published events first rest)
    (hevents : ∀ event ∈ published, cursor.sequence < event.sequence → event ∈ events) (size : ℕ) :
    Covers cursor.sequence published ((first :: rest).drop ((first :: rest).length - size)) ↔
      (first :: rest).length ≤ size := by
  constructor
  · intro hcovers
    by_contra hlong
    obtain ⟨n, hn⟩ : ∃ n, (first :: rest).length - size = n + 1 :=
      Nat.exists_eq_succ_of_ne_zero (by omega)
    rw [hn, drop_succ_cons] at hcovers
    have hlater := pairwise_cons.1 h.ascending
    rcases hcovers.covered first h.mem h.above with hmem | ⟨item, hitem, hfull, -⟩
    · exact absurd (hlater.1 first (mem_of_mem_drop hmem)) (lt_irrefl _)
    · rw [h.deltas item (mem_of_mem_drop hitem)] at hfull
      cases hfull
  · intro hfits
    rw [Nat.sub_eq_zero_of_le hfits, drop_zero]
    refine ⟨h.ascending, fun event hevent habove => ?_⟩
    refine (h.covered event (hevents event hevent habove)).imp_right ?_
    rintro ⟨hfull, hlt⟩
    exact ⟨first, .head _, hfull, hlt⟩

end WatchHub

namespace WatchFeed

variable {feed : WatchFeed P} {cursor : WatchCursor}

theorem Sane.cursor_generation (h : feed.Sane) (hcursor : feed.Cursor cursor) :
    ¬ feed.hub.generation < cursor.generation := by
  obtain ⟨item, hitem, rfl⟩ := hcursor
  have hproper := h.proper item hitem
  rw [Int.toNat_of_nonneg hproper.nonneg, not_lt]
  exact hproper.generation

/-- **A client that is up to date is sent nothing.** -/
theorem Sane.backlog_upToDate (h : feed.Sane) (hcursor : feed.Cursor cursor)
    (hlatest : ∀ event ∈ feed.published, event.sequence ≤ cursor.sequence) :
    feed.hub.backlog cursor = [] := by
  have hreplay : feed.hub.replay cursor = [] := by
    rw [eq_nil_iff_forall_not_mem]
    intro event hevent
    have hle := hlatest event (h.logged.published_of_replay hevent)
    exact absurd (mem_replay.1 hevent).2 (not_lt.2 hle)
  unfold backlog
  rw [hreplay]
  rw [if_neg (h.cursor_generation hcursor)]
  cases hs : feed.hub.snapshot with
  | none => rfl
  | some s =>
    -- the item the cursor was taken from is after the snapshot, so its generation is not earlier
    obtain ⟨item, hitem, rfl⟩ := hcursor
    have hproper := h.proper item hitem
    have hmem := (h.logged.snapshot_some s hs).1
    have hle := hproper.latest s hmem (hlatest s hmem)
    rw [filter_some, if_neg]
    · rfl
    · rw [decide_eq_true_iff, Int.toNat_of_nonneg hproper.nonneg, not_lt]
      exact hle

theorem covers_snapshot_iff (h : Logged feed.hub feed.published) {s first : WatchEvent P}
    (hs : feed.hub.snapshot = some s) (hfirst : (feed.hub.replay cursor).head? = some first) :
    Covers cursor.sequence feed.published [s] ↔
      ∀ event ∈ feed.hub.replay cursor, event.sequence ≤ s.sequence := by
  obtain ⟨hmem, hfull, -⟩ := h.snapshot_some s hs
  constructor
  · intro hcovers event hevent
    rcases hcovers.covered event (h.published_of_replay hevent) (mem_replay.1 hevent).2 with
      heq | ⟨item, hitem, -, hlt⟩
    · rw [mem_singleton.1 heq]
    · rw [mem_singleton.1 hitem] at hlt
      exact hlt.le
  · intro hlatest
    refine ⟨pairwise_singleton _ _, fun event hevent habove => ?_⟩
    have hle : event.sequence ≤ s.sequence := by
      rcases h.mem_history_or hevent with hhistory | hbefore
      · exact hlatest event (mem_replay.2 ⟨hhistory, habove⟩)
      · have hfirst := mem_of_mem_head? hfirst
        exact (hbefore first (mem_replay.1 hfirst).1).le.trans (hlatest first hfirst)
    rcases hle.lt_or_eq with hlt | heq
    · exact .inr ⟨s, mem_singleton.2 rfl, hfull, hlt⟩
    · exact .inl (mem_singleton.2 (h.eq_of_sequence hevent hmem heq))

/-- **The backlog has no gap exactly when it is complete.** -/
theorem Sane.covers_backlog_iff (h : feed.Sane) (hcursor : feed.Cursor cursor) :
    Covers cursor.sequence feed.published (feed.hub.backlog cursor) ↔ feed.hub.Complete cursor := by
  cases hfirst : (feed.hub.replay cursor).head? with
  | none =>
    have hreplay := head?_eq_none_iff.1 hfirst
    have hlatest : ∀ event ∈ feed.published, event.sequence ≤ cursor.sequence :=
      fun event hevent => h.logged.le_of_replay_nil hreplay hevent
    rw [h.backlog_upToDate hcursor hlatest]
    refine iff_of_true ⟨List.Pairwise.nil, fun event hevent habove => ?_⟩ fun first h' => ?_
    · exact absurd habove (not_lt.2 (hlatest event hevent))
    · cases hfirst.symm.trans h'
  | some first =>
    rw [complete_iff hfirst, backlog_eq hfirst (h.cursor_generation hcursor)]
    by_cases hgap : cursor.sequence + 1 < first.sequence
    · rw [if_pos hgap, if_pos hgap]
      unfold resync
      cases hs : feed.hub.snapshot with
      | some s =>
        have hiff := covers_snapshot_iff h.logged hs hfirst
        refine hiff.trans ⟨fun hlatest s' hs' => ?_, fun hlatest => hlatest s rfl⟩
        obtain rfl := some_inj.1 hs'
        exact hlatest
      | none =>
        refine iff_of_true ⟨pairwise_singleton _ _, fun event hevent _ => ?_⟩
          fun _ hs' => absurd hs' (some_ne_none _).symm
        refine .inr ⟨_, mem_singleton.2 rfl, rfl, ?_⟩
        exact Nat.lt_succ_of_le (h.event_sequence hevent)
    · rw [if_neg hgap, if_neg hgap]
      have hne : feed.hub.replay cursor ≠ [] := by
        intro hnil
        rw [hnil] at hfirst
        cases hfirst
      obtain ⟨front, rest, heq, hreplayed⟩ := h.logged.superseded_eq hne
      rw [heq]
      exact hreplayed.covers_drop_iff
        (fun event hevent habove => h.logged.mem_replay_of_next hfirst hgap hevent habove) _

/-- Published events with later numbers have no earlier generations. -/
theorem Sane.generation_mono (h : feed.Sane) {a b : WatchEvent P} (ha : a ∈ feed.published)
    (hb : b ∈ feed.published) (hlt : a.sequence < b.sequence) : a.generation ≤ b.generation :=
  (h.proper b (h.published_issued b hb)).latest a ha hlt.le

theorem Sane.backlog_ascending (h : feed.Sane) : (feed.hub.backlog cursor).Pairwise fun a b =>
    a.sequence < b.sequence ∧ a.generation ≤ b.generation := by
  have hresync : feed.hub.resync.Pairwise fun a b =>
      a.sequence < b.sequence ∧ a.generation ≤ b.generation := by
    unfold resync
    split
    · exact pairwise_singleton _ _
    · exact pairwise_singleton _ _
  unfold backlog
  split
  · split
    · exact hresync
    · cases feed.hub.snapshot.filter fun s => (cursor.generation : ℤ) < s.generation with
      | none => exact List.Pairwise.nil
      | some s => exact pairwise_singleton _ _
  · rename_i first rest hreplay
    split
    · exact hresync
    · have hne : feed.hub.replay cursor ≠ [] := by
        rw [hreplay]
        exact cons_ne_nil _ _
      obtain ⟨front, rest', heq, hreplayed⟩ := h.logged.superseded_eq hne
      have hpublished : ∀ item ∈ feed.hub.superseded cursor, item ∈ feed.published := by
        intro item hitem
        rcases mem_superseded feed.hub cursor hitem with hhistory | hsnapshot
        · exact h.logged.recent.subset hhistory
        · exact (h.logged.snapshot_some item hsnapshot).1
      have hasc : (feed.hub.superseded cursor).Pairwise (·.sequence < ·.sequence) :=
        heq ▸ hreplayed.ascending
      refine (hasc.imp_of_mem fun ha hb hlt => ⟨hlt, ?_⟩).sublist (drop_sublist _ _)
      exact h.generation_mono (hpublished _ ha) (hpublished _ hb) hlt

theorem following_subscribe_iff :
    Following cursor (feed.hub.nextClient + 1)
        (feed.moved (feed.hub.subscribe cursor).2 []) ↔
      Covers cursor.sequence feed.published
        (feed.taken (feed.hub.nextClient + 1) ++ feed.hub.backlog cursor) := by
  have hcaught := catchUp_caught feed.hub cursor
    ⟨[], cursor.sequence, cursor.generation, 0, false, false⟩ rfl rfl
  constructor
  · rintro ⟨-, hnoGap⟩
    have hcovers := hnoGap _ (update_self _ _ _)
    rw [hcaught.queue] at hcovers
    simpa only [moved, append_nil] using hcovers
  · intro hcovers
    refine ⟨le_rfl, fun client hclient => ?_⟩
    obtain ⟨-, hc⟩ | ⟨hne, -⟩ := client_of_update hclient
    · rw [← some_inj.1 hc, hcaught.queue]
      simpa only [moved, append_nil] using hcovers
    · exact absurd rfl hne

end WatchFeed

/-- **Streams have no silent gap exactly when their backlog was complete.**  After any calls, a
client subscribes with the cursor of an issued item; whatever follows, the client misses nothing
unnoticed while it is connected.  A client that has consumed the latest event is sent nothing. -/
theorem no_silent_gap_iff {bounds : HubBounds} {calls : List (WatchCall P)} {feed : WatchFeed P}
    (hrun : run feedStep (.start bounds) calls = some feed) {cursor : WatchCursor}
    (hcursor : feed.Cursor cursor) :
    ((∀ calls' feed', run feedStep feed (.subscribe cursor :: calls') = some feed' →
        feed'.NoGap cursor (feed.hub.subscribe cursor).1) ∧
      ((∀ event ∈ feed.published, event.sequence ≤ cursor.sequence) →
        ∀ client, (feed.hub.subscribe cursor).2.clientMap (feed.hub.subscribe cursor).1 =
          some client → client.queue = [])) ↔
    feed.hub.Complete cursor := by
  have hsane := run_sane hrun
  have hfresh : feed.taken (feed.hub.nextClient + 1) = [] := hsane.untaken _ (Nat.lt_succ_self _)
  have hstart : Following cursor (feed.hub.nextClient + 1)
      (feed.moved (feed.hub.subscribe cursor).2 []) ↔ feed.hub.Complete cursor := by
    rw [following_subscribe_iff, hfresh, nil_append]
    exact hsane.covers_backlog_iff hcursor
  constructor
  · rintro ⟨hgaps, -⟩
    have hnoGap := hgaps [] _ (run_cons.2 ⟨_, rfl, run_nil _⟩)
    exact hstart.1 ⟨le_rfl, hnoGap⟩
  · intro hcomplete
    refine ⟨fun calls' feed' hrun' => ?_, fun hlatest client hclient => ?_⟩
    · obtain ⟨mid, hmid, hrun'⟩ := run_cons.1 hrun'
      cases hmid
      exact (run_following (hsane.subscribe cursor) (hstart.2 hcomplete) hrun').noGap
    · have hcaught := catchUp_caught feed.hub cursor
        ⟨[], cursor.sequence, cursor.generation, 0, false, false⟩ rfl rfl
      obtain ⟨-, hc⟩ | ⟨hne, -⟩ := client_of_update hclient
      · rw [← some_inj.1 hc, hcaught.queue]
        exact hsane.backlog_upToDate hcursor hlatest
      · exact absurd rfl hne

/-! ### Samples -/

/-- A status, a client that never takes anything, and 33 updates: the last one overflows the queue,
and the marker takes the number 35.  Then one more update. -/
def slowCalls : List (WatchCall ℕ) :=
  .publish "status" 0 0 true :: .subscribe ⟨1, 0⟩ ::
    (range 34).map fun n => .publish "status" (n + 1) 0 false

/-- The feed after `slowCalls`. -/
def slowFeed (bounds : HubBounds) : WatchFeed ℕ :=
  (run feedStep (.start bounds) slowCalls).getD (.start bounds)

theorem slowFeed_run : run feedStep (.start {}) slowCalls = some (slowFeed {}) := by
  have hsome : (run feedStep (.start {}) slowCalls).isSome = true := by
    decide +kernel
  exact eq_some_of_isSome hsome |>.trans (congrArg some (get_eq_getD _))

/-- The theorem at the cursor of the event before the overflow: the two later events are replayed,
and nothing after that is missed. -/
theorem no_silent_gap_after_update :
    (slowFeed {}).Cursor ⟨33, 0⟩ ∧
      ∀ calls' feed',
        run feedStep (slowFeed {}) (.subscribe ⟨33, 0⟩ :: calls') = some feed' →
          feed'.NoGap ⟨33, 0⟩ ((slowFeed {}).hub.subscribe ⟨33, 0⟩).1 := by
  have hcursor : (slowFeed {}).Cursor ⟨33, 0⟩ := by
    unfold WatchFeed.Cursor
    decide +kernel
  have hfirst : ((slowFeed {}).hub.replay ⟨33, 0⟩).head? =
      some ⟨34, 0, "status", some 33, false⟩ := by
    decide +kernel
  refine ⟨hcursor, ((no_silent_gap_iff slowFeed_run hcursor).2 ?_).1⟩
  rw [complete_iff hfirst]
  decide +kernel

/-- The feed after the client has come back with the cursor of event 34 and taken one item. -/
def resumedFeed (bounds : HubBounds) : WatchFeed ℕ :=
  (run feedStep (slowFeed bounds) [.subscribe ⟨34, 0⟩, .take 2]).getD (.start bounds)

/-- **A stale snapshot hides an update.**  The marker for the slow client used up number 35, so
event 36 looks like a gap to a client that has seen event 34; it is sent the snapshot, which is
event 1, and never sees event 36. -/
theorem stale_snapshot_hides_update :
    run feedStep (.start {}) slowCalls = some (slowFeed {}) ∧
      (slowFeed {}).Cursor ⟨34, 0⟩ ∧
      run feedStep (slowFeed {}) [.subscribe ⟨34, 0⟩, .take 2] = some (resumedFeed {}) ∧
      (resumedFeed {}).taken 2 = [⟨1, 0, "status", some 0, true⟩] ∧
      ((resumedFeed {}).hub.clientMap 2).map (·.queue) = some [] ∧
      ⟨36, 0, "status", some 34, false⟩ ∈ (resumedFeed {}).published ∧
      ¬ (resumedFeed {}).NoGap ⟨34, 0⟩ ((slowFeed {}).hub.subscribe ⟨34, 0⟩).1 := by
  have htaken : (resumedFeed {}).taken 2 = [⟨1, 0, "status", some 0, true⟩] := by decide +kernel
  have hqueue : ((resumedFeed {}).hub.clientMap 2).map (·.queue) = some [] := by decide +kernel
  have hevent : ⟨36, 0, "status", some 34, false⟩ ∈ (resumedFeed {}).published := by decide +kernel
  refine ⟨slowFeed_run, ?_, rfl, htaken, hqueue, hevent, fun hnoGap => ?_⟩
  · unfold WatchFeed.Cursor
    decide +kernel
  · have hident : ((slowFeed {}).hub.subscribe ⟨34, 0⟩).1 = 2 := by decide +kernel
    rw [hident] at hnoGap
    obtain ⟨client, hclient, hempty⟩ := map_eq_some_iff.1 hqueue
    have hcovers : Covers 34 (resumedFeed {}).published
        ((resumedFeed {}).taken 2 ++ client.queue) := hnoGap client hclient
    rw [htaken, hempty] at hcovers
    rcases hcovers.covered _ hevent (by decide) with hmem | ⟨item, hitem, -, hlt⟩
    · exact absurd hmem (by decide)
    · rw [append_nil, mem_singleton] at hitem
      rw [hitem] at hlt
      exact absurd hlt (by decide)

end Horizon
